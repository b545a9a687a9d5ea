import Worksheet.Files.Tree
import Worksheet.Proofs.Slot.Medium

/-! Slots in a directory keep what is written to them. Paths of plain names are followed place by
place, so a directory is reached or missing, and writing makes what is missing of it. -/
namespace Worksheet

section

variable {σ : Type} {files : FileSystem (StateM σ)} {directory slot : String} {world world' : σ}

theorem Slot.perform_cons (step : Step) {rest : List Step}
    (performs : (step.perform files directory).run world = (.ok (), world')) :
    (perform files directory (step :: rest)).run world =
      (perform files directory rest).run world' := by
  rw [perform, StateT.run_bind, performs]
  rfl

theorem Medium.directory_read {text : Option String}
    (reads : (files.read (Slot.inside directory (Slot.fileName slot))).run world =
      (text.elim (.error .missing) .ok, world')) :
    ((Medium.directory files directory).read slot).run world = (.ok text, world') := by
  rw [Medium.directory, StateT.run_bind, reads]
  cases text <;> rfl

end

namespace FileTree

variable {tree : FileTree} {place rest : List String} {name : String}

/-- A name that leads from a directory to the place of that name in it. -/
structure IsPlain (name : String) : Prop where
  nonempty : name ≠ ""
  notStay : name ≠ "."
  notUp : name ≠ ".."
  short : name.utf8ByteSize ≤ maxNameBytes
  single : '/' ∉ name.toList

theorem IsPlain.enter (h : IsPlain name) (place : List String) :
    enter place name = .ok (place ++ [name]) := by
  simp [FileTree.enter, h.nonempty, h.notStay, h.notUp, Nat.not_lt.mpr h.short]

theorem path_concat (place : List String) (name : String) :
    path (place ++ [name]) = path place ++ "/" ++ name := by
  apply String.toList_injective
  simp [path, String.toList_join]

theorem toList_path (place : List String) :
    (path place).toList = ['/'].intercalate ([] :: place.map String.toList) := by
  induction place with
  | nil => rfl
  | cons name rest ih =>
    rw [path, List.map_cons, String.join_cons, String.toList_append, String.toList_append]
    rw [path] at ih
    rw [ih, List.map_cons, List.intercalate_cons_cons]
    cases rest <;> simp [List.intercalate_cons_cons]

def Single (place : List String) : Prop := ∀ name ∈ place, '/' ∉ name.toList

theorem single_of_plain (plain : ∀ name ∈ place, IsPlain name) : Single place :=
  fun name member => (plain name member).single

theorem Single.concat (h : Single place) (single : '/' ∉ name.toList) :
    Single (place ++ [name]) := by
  simpa [Single, or_imp, forall_and] using ⟨h, single⟩

theorem pieces_path (single : Single place) : Text.pieces '/' (path place) = "" :: place := by
  have single : ∀ cs ∈ [] :: place.map String.toList, '/' ∉ cs := by
    intro cs member
    rcases List.mem_cons.mp member with rfl | member
    · exact List.not_mem_nil
    · obtain ⟨word, found, rfl⟩ := List.mem_map.mp member
      exact single word found
  rw [Text.pieces, toList_path, List.splitOn_intercalate '/' single (List.cons_ne_nil _ _)]
  simp [Function.comp_def]

theorem path_injective {place' : List String} (single : Single place) (single' : Single place')
    (same : path place = path place') : place = place' := by
  have pieces := congrArg (Text.pieces '/') same
  rw [pieces_path single, pieces_path single'] at pieces
  exact List.tail_eq_of_cons_eq pieces

theorem names_path (nonempty : place ≠ []) (single : Single place) (current : String) :
    names current (path place) = "" :: place := by
  obtain ⟨name, rest, rfl⟩ := List.exists_cons_of_ne_nil nonempty
  have absolute : (path (name :: rest)).startsWith "/" = true := by
    rw [String.startsWith_string_iff, toList_path, List.map_cons, List.intercalate_cons_cons]
    exact ⟨_, rfl⟩
  rw [names, if_pos absolute, pieces_path single]

theorem inside_path (nonempty : place ≠ []) (plain : ∀ name ∈ place, IsPlain name)
    (single : '/' ∉ name.toList) : Slot.inside (path place) name = path (place ++ [name]) := by
  have relative : ¬name.startsWith "/" := by
    rw [String.startsWith_string_iff]
    exact fun front => single (front.subset List.mem_cons_self)
  obtain ⟨init, last, rfl⟩ := place.eq_nil_or_concat.resolve_left nonempty
  rw [List.concat_eq_append] at plain ⊢
  have filled : ¬(path (init ++ [last])).isEmpty := by
    simp [path_concat]
  have unfinished : ¬(path (init ++ [last])).endsWith "/" := by
    rw [String.endsWith_eq_endsWith_toSlice, String.Slice.endsWith_string_iff, String.copy_toSlice]
    intro ending
    have named := plain last (by simp)
    rw [path_concat] at ending
    rcases last.toList.eq_nil_or_concat with none | ⟨cs, c, spelled⟩
    · exact named.nonempty (String.toList_eq_nil_iff.mp none)
    · obtain ⟨front, same⟩ := ending
      obtain rfl : '/' = c := by
        have same := congrArg List.getLast? same
        simpa [spelled, List.getLast?_cons] using same
      exact named.single (by simp [spelled])
  rw [Slot.inside, if_neg relative, if_neg (by simp [filled, unfinished]), ← path_concat]

def ways (place : List String) : List String → List (List String)
  | [] => [place]
  | name :: rest => place :: ways (place ++ [name]) rest

theorem mem_ways {way : List String} :
    way ∈ ways place rest ↔ ∃ front, front <+: rest ∧ way = place ++ front := by
  induction rest generalizing place with
  | nil => simp [ways]
  | cons name rest ih =>
    rw [ways, List.mem_cons, ih]
    constructor
    · rintro (rfl | ⟨front, before, rfl⟩)
      · exact ⟨[], List.nil_prefix, by simp⟩
      · exact ⟨name :: front, List.cons_prefix_cons.mpr ⟨rfl, before⟩, by simp⟩
    · rintro ⟨_ | ⟨first, front⟩, before, rfl⟩
      · exact .inl (by simp)
      · obtain ⟨rfl, below⟩ := List.cons_prefix_cons.mp before
        exact .inr ⟨front, below, by simp⟩

theorem start_mem_ways (place rest : List String) : place ∈ ways place rest :=
  mem_ways.mpr ⟨[], List.nil_prefix, by simp⟩

theorem follow_file (plain : ∀ name ∈ rest, IsPlain name) (name : String)
    (clear : ∀ way ∈ ways place rest, tree.isFile way = false) :
    tree.follow place (rest ++ [name]) =
      if ∀ way ∈ ways place rest, tree.isDirectory way then enter (place ++ rest) name
      else .error .missing := by
  induction rest generalizing place with
  | nil =>
    have here : tree.isFile place = false := clear place (start_mem_ways ..)
    simp only [List.nil_append, follow, here, ways, List.mem_singleton, forall_eq,
      List.append_nil]
    cases enter place name <;> rfl
  | cons first rest ih =>
    have here : tree.isFile place = false := clear place (start_mem_ways ..)
    have later := ih (fun name member => plain name (List.mem_cons_of_mem _ member))
      fun way member => clear way (List.mem_cons_of_mem _ member)
    have entered := (plain first List.mem_cons_self).enter place
    simp only [List.cons_append, follow, here, entered, ways, List.forall_mem_cons,
      Bool.false_eq_true, if_false]
    by_cases directory : tree.isDirectory place
    · simp only [directory, if_true, true_and]
      change tree.follow (place ++ [first]) (rest ++ [name]) = _
      simpa using later
    · simp only [directory, Bool.false_eq_true, if_false, false_and]

theorem isDirectory_add {way : List String} :
    ({ tree with directories := tree.directories.add (path place) } : FileTree).isDirectory way ↔
      tree.isDirectory way ∨ path way = path place := by
  simp only [isDirectory, Bool.or_eq_true, OrderedSet.contains_add]
  rw [or_comm (a := path place = path way), ← or_assoc, eq_comm (a := path place)]

theorem create_plain (plain : ∀ name ∈ rest, IsPlain name) (start : tree.isDirectory place)
    (clear : ∀ way ∈ ways place rest, tree.isFile way = false) :
    ∃ tree', tree.create place rest = (tree', .ok ()) ∧ tree'.files = tree.files ∧
      (∀ way, tree.isDirectory way → tree'.isDirectory way) ∧
      (∀ way ∈ ways place rest, tree'.isDirectory way) ∧
      ∀ way, tree'.isDirectory way →
        tree.isDirectory way ∨ ∃ made ∈ ways place rest, path way = path made := by
  induction rest generalizing tree place with
  | nil =>
    refine ⟨tree, rfl, rfl, fun _ => id, ?_, fun _ => .inl⟩
    simpa [ways] using start
  | cons name rest ih =>
    have entered := (plain name List.mem_cons_self).enter place
    have plain : ∀ name ∈ rest, IsPlain name := fun name member =>
      plain name (List.mem_cons_of_mem _ member)
    have clear : ∀ way ∈ ways (place ++ [name]) rest, tree.isFile way = false :=
      fun way member => clear way (List.mem_cons_of_mem _ member)
    have free : tree.isFile (place ++ [name]) = false := clear _ (start_mem_ways ..)
    simp only [create, entered, free, Bool.false_eq_true, if_false, ways, List.forall_mem_cons]
    have further {way : List String}
        (h : ∃ made ∈ ways (place ++ [name]) rest, path way = path made) :
        ∃ made ∈ place :: ways (place ++ [name]) rest, path way = path made :=
      h.imp fun _ => .imp_left (List.mem_cons_of_mem _)
    by_cases there : tree.isDirectory (place ++ [name])
    · obtain ⟨tree', created, files, kept, made, only⟩ := ih plain there clear
      rw [if_pos there]
      refine ⟨tree', created, files, kept, ⟨kept _ start, made⟩, fun way directory => ?_⟩
      exact (only way directory).imp id further
    -- The directory is made here. It is on the ways, so the rest is as if it had been there.
    · have moves : isStay rest = false := by
        have point : "." ∉ rest := fun member => (plain _ member).notStay rfl
        simp [isStay, point]
      rw [if_neg there, moves]
      simp only [Bool.false_eq_true, if_false]
      obtain ⟨tree', created, files, kept, made, only⟩ :=
        ih plain (isDirectory_add.mpr (.inr rfl)) clear
      have kept (way : List String) (directory : tree.isDirectory way) : tree'.isDirectory way :=
        kept way (isDirectory_add.mpr (.inl directory))
      refine ⟨tree', created, files, kept, ⟨kept _ start, made⟩, fun way directory => ?_⟩
      rcases only way directory with before | later
      · refine (isDirectory_add.mp before).imp id fun same => further ?_
        exact ⟨_, start_mem_ways .., same⟩
      · exact .inr (further later)

/-- A directory below the root, and a slot with files that can be addressed in it. -/
structure Addresses (place : List String) (slot : String) : Prop where
  nonempty : place ≠ []
  plain : ∀ name ∈ place, IsPlain name
  path : checkPath (path place) = .ok ()
  file : IsPlain (Slot.fileName slot)
  filePath : checkPath (FileTree.path (place ++ [Slot.fileName slot])) = .ok ()
  temporary : IsPlain (Slot.temporaryName slot)
  temporaryPath : checkPath (FileTree.path (place ++ [Slot.temporaryName slot])) = .ok ()

theorem Addresses.plain_concat {slot : String} (h : Addresses place slot) (named : IsPlain name) :
    ∀ word ∈ place ++ [name], IsPlain word := by
  simpa [or_imp, forall_and] using ⟨h.plain, named⟩

/-- Nothing stands where the directory or a directory on the way to it has to be, or the files of
the slot. The text is the one in the slot's file, if the directory is there. -/
structure Holds (place : List String) (slot : String) (tree : FileTree) (text : Option String) :
    Prop where
  clear : ∀ way ∈ ways [] place, tree.isFile way = false
  file : tree.isDirectory (place ++ [Slot.fileName slot]) = false
  temporary : tree.isDirectory (place ++ [Slot.temporaryName slot]) = false
  text : (if ∀ way ∈ ways [] place, tree.isDirectory way
    then tree.files.get? (path (place ++ [Slot.fileName slot])) else none) = text

variable {slot : String}

theorem follow_root (root : tree.isFile [] = false) (names : List String) :
    tree.follow [] ("" :: names) = tree.follow [] names := by
  simp only [follow, root]
  rfl

theorem create_root (root : tree.isFile [] = false) (names : List String) :
    tree.create [] ("" :: names) = tree.create [] names := by
  simp only [create, enter, true_or, if_true, root, Bool.false_eq_true, if_false]
  rfl

theorem follow_slot (h : Addresses place slot) (named : IsPlain name)
    (clear : ∀ way ∈ ways [] place, tree.isFile way = false) (current : String) :
    tree.follow [] (names current (path (place ++ [name]))) =
      if ∀ way ∈ ways [] place, tree.isDirectory way then .ok (place ++ [name])
      else .error .missing := by
  have single := single_of_plain (h.plain_concat named)
  rw [names_path (by simp) single, follow_root (clear [] (start_mem_ways ..)),
    follow_file h.plain name clear, List.nil_append, named.enter]

theorem read_found {names : List String} {text : String} (led : tree.follow [] names = .ok place)
    (found : tree.files.get? (path place) = some text) : tree.read names = .ok text := by
  simp only [read, led, Bind.bind, Except.bind, found]

theorem read_missing {names : List String} (led : tree.follow [] names = .ok place)
    (absent : tree.files.get? (path place) = none) (free : tree.isDirectory place = false) :
    tree.read names = .error .missing := by
  simp only [read, led, Bind.bind, Except.bind, absent, free, Bool.false_eq_true, if_false]

theorem read_holds (h : Addresses place slot) (current : String) {text : Option String}
    (holds : Holds place slot tree text) :
    tree.read (names current (path (place ++ [Slot.fileName slot]))) =
      text.elim (.error .missing) .ok := by
  have led := follow_slot h h.file holds.clear current
  rw [← holds.text]
  by_cases there : ∀ way ∈ ways [] place, tree.isDirectory way
  · rw [if_pos there] at led ⊢
    cases stored : tree.files.get? (path (place ++ [Slot.fileName slot])) with
    | some text => exact read_found led stored
    | none => exact read_missing led stored holds.file
  · rw [if_neg there] at led ⊢
    rw [read, led]
    rfl

theorem path_file_ne (plain : ∀ name ∈ place, IsPlain name) (single : '/' ∉ name.toList)
    {way : List String} (member : way ∈ ways [] place) : path (place ++ [name]) ≠ path way := by
  obtain ⟨front, before, rfl⟩ := mem_ways.mp member
  intro same
  have same := path_injective ((single_of_plain plain).concat single)
    (fun word member => (plain word (before.subset member)).single) same
  have shorter := before.length_le
  rw [← same, List.length_append, List.length_singleton] at shorter
  omega

theorem create_holds (h : Addresses place slot) (current : String) {text : Option String}
    (holds : Holds place slot tree text) :
    ∃ tree', tree.create [] (names current (path place)) = (tree', .ok ()) ∧
      (∀ way ∈ ways [] place, tree'.isDirectory way) ∧ ∃ text, Holds place slot tree' text := by
  have root : tree.isFile [] = false := holds.clear [] (start_mem_ways ..)
  obtain ⟨tree', created, files, _, made, only⟩ := create_plain h.plain rfl holds.clear
  have new {name : String} (named : IsPlain name)
      (free : tree.isDirectory (place ++ [name]) = false) :
      tree'.isDirectory (place ++ [name]) = false := by
    rw [← Bool.not_eq_true] at free ⊢
    intro directory
    rcases only _ directory with before | ⟨way, member, same⟩
    · exact free before
    · exact path_file_ne h.plain named.single member same
  refine ⟨tree', ?_, made, _, fun way member => ?_, new h.file holds.file,
    new h.temporary holds.temporary, rfl⟩
  · rw [names_path h.nonempty (single_of_plain h.plain), create_root root, created]
  · rw [isFile, files]
    exact holds.clear way member

theorem write_file (h : Addresses place slot) (named : IsPlain name) (current : String)
    (clear : ∀ way ∈ ways [] place, tree.isFile way = false)
    (there : ∀ way ∈ ways [] place, tree.isDirectory way)
    (free : tree.isDirectory (place ++ [name]) = false) (text : String) :
    tree.write (names current (path (place ++ [name]))) text =
      .ok { tree with files := tree.files.insert (path (place ++ [name])) text } := by
  have led := (follow_slot h named clear current).trans (if_pos there)
  simp only [write, led, Bind.bind, Except.bind, free, Bool.false_eq_true, if_false]
  rfl

theorem clear_insert (h : Addresses place slot) (named : IsPlain name)
    {files : OrderedMap String String} (text : String)
    (clear : ∀ way ∈ ways [] place, files.contains (path way) = false) :
    ∀ way ∈ ways [] place,
      (files.insert (path (place ++ [name])) text).contains (path way) = false := by
  intro way member
  have clear := clear way member
  rw [← Bool.not_eq_true] at clear ⊢
  rw [OrderedMap.contains_insert, not_or]
  exact ⟨path_file_ne h.plain named.single member, clear⟩

/-- The text goes to the temporary file, which then takes the place of the slot's file. -/
theorem replace_holds (h : Addresses place slot) (current : String) {text : Option String}
    (holds : Holds place slot tree text) (there : ∀ way ∈ ways [] place, tree.isDirectory way)
    (new : String) :
    ∃ written replaced,
      tree.write (names current (path (place ++ [Slot.temporaryName slot]))) new = .ok written ∧
      written.rename (names current (path (place ++ [Slot.temporaryName slot])))
        (names current (path (place ++ [Slot.fileName slot]))) = .ok replaced ∧
      Holds place slot replaced (some new) := by
  let temporary := path (place ++ [Slot.temporaryName slot])
  let file := path (place ++ [Slot.fileName slot])
  let written : FileTree := { tree with files := tree.files.insert temporary new }
  let moved : FileTree := { written with files := written.files.filter fun p _ => p ≠ temporary }
  let replaced : FileTree := { moved with files := moved.files.insert file new }
  have clearWritten : ∀ way ∈ ways [] place, written.isFile way = false :=
    clear_insert h h.temporary new holds.clear
  have clearMoved : ∀ way ∈ ways [] place, moved.isFile way = false := by
    intro way member
    have absent : written.files.get? (path way) = none :=
      Option.isNone_iff_eq_none.mp (Option.isSome_eq_false_iff.mp (clearWritten way member))
    simp only [isFile, moved, OrderedMap.contains, OrderedMap.get?_filter, absent]
    rfl
  refine ⟨written, replaced, write_file h h.temporary current holds.clear there holds.temporary new,
    ?_, clear_insert h h.file new clearMoved, holds.file, holds.temporary, ?_⟩
  · have source : written.follow [] (names current temporary) =
        .ok (place ++ [Slot.temporaryName slot]) :=
      (follow_slot h h.temporary clearWritten current).trans (if_pos there)
    have text : written.read (names current temporary) = .ok new :=
      read_found source (by simp only [written, temporary, OrderedMap.get?_insert, if_true])
    have lands : moved.write (names current file) new = .ok replaced :=
      write_file h h.file current clearMoved there holds.file new
    rw [rename, text, source]
    simp only [Bind.bind, Except.bind]
    exact lands
  · refine (if_pos there).trans ?_
    simp only [replaced, file, OrderedMap.get?_insert, if_true]

theorem run_update {change : FileTree → Except FileError FileTree} {changed : FileTree}
    (changes : change tree = .ok changed) : (update change).run tree = (.ok (), changed) := by
  rw [update, StateT.run_bind, StateT.run_get, pure_bind, changes]
  rfl

theorem run_createDirectory {names : List String} {made : FileTree}
    (creates : tree.create [] names = (made, .ok ())) :
    (createDirectory names).run tree = (.ok (), made) := by
  rw [createDirectory, StateT.run_bind, StateT.run_get, pure_bind, creates]
  rfl

/-- Slots are kept in a directory, whether it is there already or the first write makes it. -/
theorem directory_keeps (h : Addresses place slot) (current : String) :
    (Medium.directory (system current) (path place)).Keeps slot (Holds place slot) where
  read text tree holds := by
    have reads : ((system current).read (Slot.inside (path place) (Slot.fileName slot))).run tree =
        (text.elim (.error .missing) .ok, tree) := by
      rw [inside_path h.nonempty h.plain h.file.single, ← read_holds h current holds]
      simp only [system, h.filePath]
      rfl
    exact ⟨tree, Medium.directory_read reads, holds⟩
  write text text' tree holds := by
    obtain ⟨made, created, there, _, held⟩ := create_holds h current holds
    obtain ⟨written, replaced, writes, renames, held⟩ :=
      replace_holds h current held there text'
    have creates : ((system current).createDirectory (path place)).run tree = (.ok (), made) := by
      simp only [system, h.path, run_createDirectory created]
    have writes : ((system current).write (Slot.inside (path place) (Slot.temporaryName slot))
        text').run made = (.ok (), written) := by
      rw [inside_path h.nonempty h.plain h.temporary.single]
      refine run_update ?_
      simp only [h.temporaryPath, Except.bind, writes]
    have renames : ((system current).rename
        (Slot.inside (path place) (Slot.temporaryName slot))
        (Slot.inside (path place) (Slot.fileName slot))).run written = (.ok (), replaced) := by
      rw [inside_path h.nonempty h.plain h.temporary.single,
        inside_path h.nonempty h.plain h.file.single]
      refine run_update ?_
      simp only [h.temporaryPath, h.filePath, Bind.bind, Except.bind, renames]
    refine ⟨replaced, ?_, held⟩
    simp only [Medium.directory, Slot.writing]
    rw [Slot.perform_cons .createDirectory creates,
      Slot.perform_cons (.writeTemporary slot text') writes,
      Slot.perform_cons (.replace slot) renames]
    rfl

end FileTree

end Worksheet
