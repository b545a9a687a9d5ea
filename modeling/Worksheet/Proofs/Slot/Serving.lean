import Mathlib.Data.List.Induction
import Worksheet.Proofs.Slot.Directory
import Worksheet.Proofs.Slot.Folder

/-! The file tree is a system that slots can rely on. Everything in it is in directories, up to the
root, and that stays so. -/
namespace Worksheet

theorem IsFileName.plain {name : String} (h : IsFileName name)
    (short : name.utf8ByteSize ≤ FileTree.maxNameBytes) : FileTree.IsPlain name :=
  ⟨h.nonempty, h.notStay, h.notUp, short, h.single⟩

theorem ok_of_bind {α β : Type} {first : Except FileError α} {rest : α → Except FileError β}
    {b : β} (h : first.bind rest = .ok b) : ∃ a, first = .ok a ∧ rest a = .ok b := by
  cases first with
  | ok a => exact ⟨a, rfl, h⟩
  | error e => cases h

namespace FileTree

variable {tree tree' : FileTree} {place rest : List String} {name : String}

/-- The root is no file, and whatever there is is in a directory. -/
structure Rooted (tree : FileTree) : Prop where
  root : tree.isFile [] = false
  above : ∀ place name, Single (place ++ [name]) →
    tree.isFile (place ++ [name]) ∨ tree.isDirectory (place ++ [name]) → tree.isDirectory place

theorem Single.front {front : List String} (h : Single place) (before : front <+: place) :
    Single front := fun name member => h name (before.subset member)

theorem Rooted.directories (h : tree.Rooted) (single : Single place)
    (there : tree.isDirectory place) {front : List String} (before : front <+: place) :
    tree.isDirectory front := by
  induction place using List.reverseRecOn with
  | nil => exact List.prefix_nil.mp before ▸ there
  | append_singleton place name ih =>
    rcases List.prefix_concat_iff.mp before with rfl | before
    · exact there
    · exact ih (single.front (List.prefix_append ..)) (h.above _ _ single (.inr there)) before

/-- Names lead to a place in a directory only through directories. -/
theorem follow_ok {target : List String} (plain : ∀ name ∈ rest, IsPlain name)
    (led : tree.follow place (rest ++ [name]) = .ok target) :
    (∀ way ∈ ways place rest, tree.isFile way = false ∧ tree.isDirectory way) ∧
      enter (place ++ rest) name = .ok target := by
  induction rest generalizing place with
  | nil =>
    simp only [List.nil_append, follow] at led
    split at led
    · cases led
    · next clear =>
      split at led
      · next there =>
        rw [ways, List.forall_mem_singleton, List.append_nil]
        obtain ⟨_, entered, same⟩ := ok_of_bind led
        exact ⟨⟨Bool.eq_false_iff.mpr clear, there⟩, entered.trans same⟩
      · cases led
  | cons first rest ih =>
    have entered := (plain first List.mem_cons_self).enter place
    simp only [List.cons_append, follow, entered] at led
    split at led
    · cases led
    · next clear =>
      split at led
      · next there =>
        have plain : ∀ name ∈ rest, IsPlain name := fun name member =>
          plain name (List.mem_cons_of_mem _ member)
        obtain ⟨later, last⟩ := ih plain led
        rw [ways, List.forall_mem_cons]
        exact ⟨⟨⟨Bool.eq_false_iff.mpr clear, there⟩, later⟩, by simpa using last⟩
      · cases led

theorem enter_ok {target : List String} (named : IsFileName name)
    (entered : enter place name = .ok target) : target = place ++ [name] ∧ IsPlain name := by
  rw [enter, if_neg (not_or.mpr ⟨named.nonempty, named.notStay⟩), if_neg named.notUp] at entered
  split at entered
  · cases entered
  · next short =>
    cases entered
    exact ⟨rfl, named.plain (Nat.le_of_not_lt short)⟩

theorem follow_congr (plain : ∀ name ∈ rest, IsPlain name)
    (same : ∀ way ∈ ways place rest,
      tree'.isFile way = tree.isFile way ∧ tree'.isDirectory way = tree.isDirectory way) :
    tree'.follow place (rest ++ [name]) = tree.follow place (rest ++ [name]) := by
  induction rest generalizing place with
  | nil =>
    obtain ⟨file, directory⟩ := same place (start_mem_ways ..)
    simp only [List.nil_append, follow, file, directory]
  | cons first rest ih =>
    obtain ⟨file, directory⟩ := same place (start_mem_ways ..)
    have entered := (plain first List.mem_cons_self).enter place
    have later := ih (fun name member => plain name (List.mem_cons_of_mem _ member))
      fun way member => same way (List.mem_cons_of_mem _ member)
    simp only [List.cons_append, follow, file, directory, entered]
    split
    · rfl
    · split
      · exact later
      · rfl

theorem read_congr {names : List String} (led : tree'.follow [] names = tree.follow [] names)
    (same : ∀ target, tree.follow [] names = .ok target →
      tree'.files.get? (path target) = tree.files.get? (path target) ∧
        tree'.isDirectory target = tree.isDirectory target) :
    tree'.read names = tree.read names := by
  rw [read, read, led]
  cases followed : tree.follow [] names with
  | error e => rfl
  | ok target =>
    obtain ⟨text, directory⟩ := same target followed
    simp only [Bind.bind, Except.bind, text, directory]

/-- A file in the way of directories is met before any of them is made. -/
theorem create_blocked (h : tree.Rooted) (single : Single (place ++ rest))
    (plain : ∀ name ∈ rest, IsPlain name) (free : tree.isFile place = false)
    (blocked : ∃ way ∈ ways place rest, tree.isFile way) : (tree.create place rest).1 = tree := by
  induction rest generalizing place with
  | nil => rfl
  | cons name rest ih =>
    have entered := (plain name List.mem_cons_self).enter place
    simp only [create, entered]
    split
    · rfl
    · next clear =>
      obtain ⟨way, member, file⟩ := blocked
      have behind : way ∈ ways (place ++ [name]) rest := by
        rcases List.mem_cons.mp member with rfl | member
        · rw [free] at file
          cases file
        · exact member
      have there : tree.isDirectory (place ++ [name]) := by
        obtain ⟨front, before, rfl⟩ := mem_ways.mp behind
        rcases front.eq_nil_or_concat with rfl | ⟨init, last, rfl⟩
        · rw [List.append_nil] at file
          exact absurd file clear
        · rw [List.concat_eq_append, ← List.append_assoc] at file
          have single : Single (place ++ [name] ++ init ++ [last]) := by
            refine single.front ?_
            simpa using before
          have parent := h.above _ _ single (.inl file)
          exact h.directories (single.front (List.prefix_append ..)) parent (List.prefix_append ..)
      have plain : ∀ name ∈ rest, IsPlain name := fun name member =>
        plain name (List.mem_cons_of_mem _ member)
      rw [if_pos there]
      exact ih (by simpa using single) plain (Bool.eq_false_iff.mpr clear) ⟨way, behind, file⟩

theorem read_root (root : tree.isFile [] = false) (names : List String) :
    tree.read ("" :: names) = tree.read names := by
  rw [read, read, follow_root root]

theorem write_root (root : tree.isFile [] = false) (names : List String) (text : String) :
    tree.write ("" :: names) text = tree.write names text := by
  rw [write, write, follow_root root]

theorem Rooted.insert (h : tree.Rooted) (single : Single (place ++ [name]))
    (there : tree.isDirectory place) (text : String) :
    Rooted { tree with files := tree.files.insert (path (place ++ [name])) text } where
  root := by
    rw [← Bool.not_eq_true, isFile, OrderedMap.contains_insert, not_or]
    refine ⟨fun same => ?_, Bool.eq_false_iff.mp h.root⟩
    have same := path_injective single (fun _ member => absurd member List.not_mem_nil) same
    simp at same
  above parent last single' held := by
    rcases held with file | directory
    · rcases OrderedMap.contains_insert.mp file with same | file
      · have same := path_injective single single' same
        obtain ⟨rfl, -⟩ := List.append_inj' same rfl
        exact there
      · exact h.above parent last single' (.inl file)
    · exact h.above parent last single' (.inr directory)

theorem isFile_filter {keep : String → String → Bool} {way : List String}
    (file : ({ tree with files := tree.files.filter keep } : FileTree).isFile way) :
    tree.isFile way := by
  rw [isFile, OrderedMap.contains, OrderedMap.get?_filter] at file
  exact Option.isSome_of_isSome_filter _ _ file

theorem Rooted.filter (h : tree.Rooted) (keep : String → String → Bool) :
    Rooted { tree with files := tree.files.filter keep } where
  root := Bool.eq_false_iff.mpr fun file => Bool.eq_false_iff.mp h.root (isFile_filter file)
  above parent last single held := h.above parent last single (held.imp_left isFile_filter)

theorem write_ok {text : String} (plain : ∀ name ∈ place, IsPlain name) (named : IsFileName name)
    (written : tree.write (place ++ [name]) text = .ok tree') :
    IsPlain name ∧ tree.follow [] (place ++ [name]) = .ok (place ++ [name]) ∧
      tree.isDirectory place ∧
      tree' = { tree with files := tree.files.insert (path (place ++ [name])) text } := by
  rw [write] at written
  obtain ⟨target, led, put⟩ := ok_of_bind written
  obtain ⟨ways, entered⟩ := follow_ok plain led
  obtain ⟨rfl, plain⟩ := enter_ok named entered
  split at put
  · cases put
  · cases put
    exact ⟨plain, led, (ways place (mem_ways.mpr ⟨place, List.prefix_rfl, rfl⟩)).2, rfl⟩

theorem rename_ok {source target : List String} (renamed : tree.rename source target = .ok tree') :
    ∃ text place, tree.read source = .ok text ∧ tree.follow [] source = .ok place ∧
      write { tree with files := tree.files.filter fun p _ => p ≠ path place } target text =
        .ok tree' := by
  rw [rename] at renamed
  obtain ⟨text, texts, moved⟩ := ok_of_bind renamed
  obtain ⟨place, led, written⟩ := ok_of_bind moved
  exact ⟨text, place, texts, led, written⟩

/-- A change that fails leaves everything as it is. -/
theorem update_cases {change : FileTree → Except FileError FileTree}
    {result : Except FileError Unit} (ran : (update change).run tree = (result, tree')) :
    (∃ e, result = .error e) ∧ tree' = tree ∨ result = .ok () ∧ change tree = .ok tree' := by
  rw [update, StateT.run_bind, StateT.run_get, pure_bind] at ran
  cases changed : change tree with
  | ok tree'' =>
    rw [changed] at ran
    cases ran
    exact .inr ⟨rfl, rfl⟩
  | error e =>
    rw [changed] at ran
    cases ran
    exact .inl ⟨⟨e, rfl⟩, rfl⟩

/-- The directory at a place below the root. -/
def folder (current : String) (place : List String) : Folder FileTree where
  files := system current
  directory := path place
  possible := Rooted
  takes name := name.utf8ByteSize ≤ maxNameBytes ∧ checkPath (path (place ++ [name])) = .ok ()

section

variable (nonempty : place ≠ []) (plain : ∀ name ∈ place, IsPlain name) {current : String}
include nonempty plain

theorem run_read (h : tree.Rooted) (named : IsFileName name) :
    ((system current).read (Slot.inside (path place) name)).run tree =
      ((checkPath (path (place ++ [name]))).bind fun _ => tree.read (place ++ [name]), tree) := by
  have single := (single_of_plain plain).concat named.single
  rw [inside_path nonempty plain named.single, ← read_root h.root,
    ← names_path (by simp) single current]
  rfl

theorem shows_folder (h : tree.Rooted) (named : IsFileName name) :
    (folder current place).shows tree name =
      (checkPath (path (place ++ [name]))).bind fun _ => tree.read (place ++ [name]) :=
  congrArg Prod.fst (run_read nonempty plain h named)

theorem takes_of_shows {text : String} (h : tree.Rooted) (named : IsFileName name)
    (shown : (folder current place).shows tree name = .ok text) :
    (folder current place).takes name := by
  rw [shows_folder nonempty plain h named] at shown
  obtain ⟨_, checked, texts⟩ := ok_of_bind shown
  rw [read] at texts
  obtain ⟨target, led, _⟩ := ok_of_bind texts
  exact ⟨(enter_ok named (follow_ok plain led).2).2.short, checked⟩

omit nonempty in
theorem follow_files (directories : tree'.directories = tree.directories)
    (files : ∀ way, way <+: place → tree'.files.get? (path way) = tree.files.get? (path way)) :
    tree'.follow [] (place ++ [name]) = tree.follow [] (place ++ [name]) := by
  refine follow_congr plain fun way member => ?_
  obtain ⟨_, before, rfl⟩ := mem_ways.mp member
  rw [isFile, isFile, OrderedMap.contains, OrderedMap.contains, files way before, isDirectory,
    isDirectory, directories]
  exact ⟨rfl, rfl⟩

/-- Files that are put into the directory or taken away are all that changes. -/
theorem changes_files {names : List String} (h : tree.Rooted) (h' : tree'.Rooted)
    (directories : tree'.directories = tree.directories)
    (files : ∀ way, Single way → (∀ name ∈ names, way ≠ place ++ [name]) →
      tree'.files.get? (path way) = tree.files.get? (path way)) :
    (folder current place).Changes names tree tree' := by
  refine ⟨h', fun name named _ other => ?_⟩
  have led : tree'.follow [] (place ++ [name]) = tree.follow [] (place ++ [name]) := by
    refine follow_files plain directories fun way before => ?_
    refine files way ((single_of_plain plain).front before) fun name _ => ?_
    rintro rfl
    have shorter := before.length_le
    rw [List.length_append, List.length_singleton] at shorter
    omega
  rw [shows_folder nonempty plain h' named, shows_folder nonempty plain h named,
    read_congr led fun target led => ?_]
  obtain ⟨rfl, -⟩ := enter_ok named (follow_ok plain led).2
  refine ⟨files _ ((single_of_plain plain).concat named.single) ?_, ?_⟩
  · rintro name' member same
    obtain rfl : name = name' := List.singleton_inj.mp (List.append_cancel_left same)
    exact other member
  · rw [isDirectory, isDirectory, directories]

theorem changes_write {text : String} (h : tree.Rooted) (named : IsFileName name)
    (written : tree.write (place ++ [name]) text = .ok tree') :
    (folder current place).Changes [name] tree tree' := by
  obtain ⟨_, _, there, rfl⟩ := write_ok plain named written
  have single := (single_of_plain plain).concat named.single
  refine changes_files nonempty plain h (h.insert single there text) rfl fun way single' other => ?_
  have apart : path (place ++ [name]) ≠ path way := fun same =>
    other name (List.mem_singleton_self name) (path_injective single single' same).symm
  exact (OrderedMap.get?_insert ..).trans (if_neg apart)

theorem changes_filter (h : tree.Rooted) (named : IsFileName name) :
    (folder current place).Changes [name] tree
      { tree with files := tree.files.filter fun p _ => p ≠ path (place ++ [name]) } := by
  have single := (single_of_plain plain).concat named.single
  refine changes_files nonempty plain h (h.filter _) rfl fun way single' other => ?_
  have apart : path way ≠ path (place ++ [name]) := fun same =>
    other name (List.mem_singleton_self name) (path_injective single' single same)
  rw [OrderedMap.get?_filter]
  cases tree.files.get? (path way) with
  | none => rfl
  | some text => exact if_pos (decide_eq_true apart)

omit nonempty in
theorem read_write {text : String} (named : IsFileName name)
    (written : tree.write (place ++ [name]) text = .ok tree') :
    tree'.read (place ++ [name]) = .ok text := by
  obtain ⟨_, led, _, made⟩ := write_ok plain named written
  have files (way : List String) : tree'.files.get? (path way) =
      if path (place ++ [name]) = path way then some text else tree.files.get? (path way) := by
    rw [made]
    exact OrderedMap.get?_insert ..
  have directories : tree'.directories = tree.directories := by rw [made]
  have led' : tree'.follow [] (place ++ [name]) = .ok (place ++ [name]) := by
    rw [follow_files plain directories fun way before => ?_, led]
    have member : way ∈ ways [] place := mem_ways.mpr ⟨way, before, rfl⟩
    rw [files, if_neg (path_file_ne plain named.single member)]
  exact read_found led' ((files _).trans (if_pos rfl))

omit nonempty in
theorem read_clear (h : tree.Rooted) (named : IsPlain name)
    (clear : ∀ way ∈ ways [] place, tree.isFile way = false) :
    tree.read (place ++ [name]) =
      match tree.files.get? (path (place ++ [name])) with
      | some text => .ok text
      | none => .error (if tree.isDirectory (place ++ [name]) then .isDirectory else .missing) := by
  have single := (single_of_plain plain).concat named.single
  rw [read, follow_file plain name clear, List.nil_append, named.enter]
  by_cases there : ∀ way ∈ ways [] place, tree.isDirectory way
  · rw [if_pos there]
    rfl
  · have nothing : ¬(tree.isFile (place ++ [name]) ∨ tree.isDirectory (place ++ [name])) := by
      refine fun held => there fun way member => ?_
      obtain ⟨_, before, rfl⟩ := mem_ways.mp member
      exact h.directories (single_of_plain plain) (h.above _ _ single held) before
    obtain ⟨noFile, noDirectory⟩ := not_or.mp nothing
    have absent : tree.files.get? (path (place ++ [name])) = none := by
      simpa [isFile, OrderedMap.contains] using noFile
    rw [if_neg there, absent, if_neg noDirectory]
    rfl

omit nonempty in
theorem rooted_create (h : tree.Rooted) (files : tree'.files = tree.files)
    (kept : ∀ way, tree.isDirectory way → tree'.isDirectory way)
    (made : ∀ way ∈ ways [] place, tree'.isDirectory way)
    (only : ∀ way, tree'.isDirectory way →
      tree.isDirectory way ∨ ∃ made ∈ ways [] place, path way = path made) : tree'.Rooted where
  root := by
    rw [isFile, files]
    exact h.root
  above parent last single held := by
    rcases held with file | directory
    · rw [isFile, files] at file
      exact kept _ (h.above _ _ single (.inl file))
    · rcases only _ directory with before | ⟨way, member, same⟩
      · exact kept _ (h.above _ _ single (.inr before))
      · obtain ⟨_, before, rfl⟩ := mem_ways.mp member
        have same := path_injective single ((single_of_plain plain).front before) same
        exact made _ (mem_ways.mpr ⟨parent, (List.prefix_append ..).trans (same ▸ before), rfl⟩)

theorem changes_create (h : tree.Rooted) :
    (folder current place).Changes [] tree (tree.create [] place).1 := by
  by_cases clear : ∀ way ∈ ways [] place, tree.isFile way = false
  · obtain ⟨tree', created, files, kept, made, only⟩ := create_plain plain rfl clear
    rw [created]
    have rooted : tree'.Rooted := rooted_create plain h files kept made only
    have clear' : ∀ way ∈ ways [] place, tree'.isFile way = false := fun way member => by
      rw [isFile, files]
      exact clear way member
    refine ⟨rooted, fun name named taken _ => ?_⟩
    have directory : tree'.isDirectory (place ++ [name]) = tree.isDirectory (place ++ [name]) := by
      refine Bool.eq_iff_iff.mpr ⟨fun directory => (only _ directory).resolve_right ?_, kept _⟩
      rintro ⟨way, member, same⟩
      exact path_file_ne plain named.single member same
    have named' := named.plain taken.1
    rw [shows_folder nonempty plain rooted named, shows_folder nonempty plain h named,
      read_clear plain rooted named' clear', read_clear plain h named' clear, files, directory]
  · have blocked : ∃ way ∈ ways [] place, tree.isFile way := by
      simpa using clear
    rw [create_blocked h (single_of_plain plain) plain h.root blocked]
    exact .refl h

theorem run_create (h : tree.Rooted) :
    ((system current).createDirectory (path place)).run tree =
      match checkPath (path place) with
      | .ok () => ((tree.create [] place).2, (tree.create [] place).1)
      | .error e => (.error e, tree) := by
  cases checked : checkPath (path place) with
  | error e =>
    simp only [system, checked]
    rfl
  | ok =>
    simp only [system, checked, names_path nonempty (single_of_plain plain), createDirectory]
    rw [StateT.run_bind, StateT.run_get, pure_bind, create_root h.root]
    rfl

theorem run_write {text : String} {result : Except FileError Unit} (h : tree.Rooted)
    (named : IsFileName name)
    (ran : ((system current).write (Slot.inside (path place) name) text).run tree =
      (result, tree')) :
    (∃ e, result = .error e) ∧ tree' = tree ∨
      result = .ok () ∧ checkPath (path (place ++ [name])) = .ok () ∧
        tree.write (place ++ [name]) text = .ok tree' := by
  have single := (single_of_plain plain).concat named.single
  rcases update_cases ran with failed | ⟨rfl, changed⟩
  · exact .inl failed
  · obtain ⟨_, checked, written⟩ := ok_of_bind changed
    rw [inside_path nonempty plain named.single] at checked written
    rw [names_path (by simp) single, write_root h.root] at written
    exact .inr ⟨rfl, checked, written⟩

theorem run_rename {source target : String} {result : Except FileError Unit} (h : tree.Rooted)
    (named : IsFileName source) (named' : IsFileName target)
    (ran : ((system current).rename (Slot.inside (path place) source)
      (Slot.inside (path place) target)).run tree = (result, tree')) :
    (∃ e, result = .error e) ∧ tree' = tree ∨
      result = .ok () ∧ checkPath (path (place ++ [source])) = .ok () ∧
        checkPath (path (place ++ [target])) = .ok () ∧
        ∃ text, tree.read (place ++ [source]) = .ok text ∧
          write { tree with files := tree.files.filter fun p _ => p ≠ path (place ++ [source]) }
            (place ++ [target]) text = .ok tree' := by
  have single := (single_of_plain plain).concat named.single
  have single' := (single_of_plain plain).concat named'.single
  rcases update_cases ran with failed | ⟨rfl, changed⟩
  · exact .inl failed
  · obtain ⟨_, checked, changed⟩ := ok_of_bind changed
    obtain ⟨_, checked', renamed⟩ := ok_of_bind changed
    rw [inside_path nonempty plain named.single] at checked renamed
    rw [inside_path nonempty plain named'.single] at checked' renamed
    rw [names_path (by simp) single, names_path (by simp) single'] at renamed
    obtain ⟨text, place', texts, led, written⟩ := rename_ok renamed
    rw [read_root h.root] at texts
    rw [follow_root h.root] at led
    obtain ⟨rfl, -⟩ := enter_ok named (follow_ok plain led).2
    rw [write_root (h.filter _).root] at written
    exact .inr ⟨rfl, checked, checked', text, texts, written⟩

theorem serves (current : String) : (folder current place).Serves where
  reads tree name h named := congrArg Prod.snd (run_read nonempty plain h named)
  refuses tree name text h named refused shown :=
    refused (takes_of_shows nonempty plain h named shown)
  creates tree result tree' h ran := by
    have ran := (run_create nonempty plain h).symm.trans ran
    split at ran
    · cases ran
      exact changes_create nonempty plain h
    · cases ran
      exact .refl h
  writes tree name text result tree' h named ran := by
    rcases run_write nonempty plain h named ran with ⟨⟨e, rfl⟩, rfl⟩ | ⟨rfl, checked, written⟩
    · exact ⟨.refl h, nofun⟩
    · have changes : (folder current place).Changes [name] tree tree' :=
        changes_write nonempty plain h named written
      refine ⟨changes, fun _ => ?_⟩
      rw [shows_folder nonempty plain changes.possible named, checked]
      exact read_write plain named written
  renames tree source target result tree' h named named' ran := by
    rcases run_rename nonempty plain h named named' ran with
      ⟨⟨e, rfl⟩, rfl⟩ | ⟨rfl, checked, checked', text, texts, written⟩
    · exact .refl h
    · let emptied : FileTree :=
        { tree with files := tree.files.filter fun p _ => p ≠ path (place ++ [source]) }
      have taken : (folder current place).Changes [source] tree emptied :=
        changes_filter nonempty plain h named
      have put : (folder current place).Changes [target] emptied tree' :=
        changes_write nonempty plain taken.possible named' written
      refine ⟨(taken.weaken (by simp)).trans (put.weaken (by simp)), ?_⟩
      rw [shows_folder nonempty plain put.possible named', shows_folder nonempty plain h named,
        checked, checked']
      exact (read_write plain named' written).trans texts.symm

end

end FileTree

end Worksheet
