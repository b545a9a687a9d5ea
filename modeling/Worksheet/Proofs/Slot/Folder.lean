import Worksheet.Settings.Basic
import Worksheet.Slot.Medium

/-! What slots rely on when they read, write and rename the files of one directory: names are
compared as they are, and a rename happens as a whole or not at all. The files of a slot that
settings can name are right in the directory, and no two slots share one. -/
namespace Worksheet

/-- A name that leads from a directory to a place right in it. -/
structure IsFileName (name : String) : Prop where
  nonempty : name ≠ ""
  notStay : name ≠ "."
  notUp : name ≠ ".."
  single : '/' ∉ name.toList
  noNul : '\x00' ∉ name.toList

/-- A directory, with the states that its file system can be in and the names that it takes. Names
that are too long are not taken. -/
structure Folder (σ : Type) where
  files : FileSystem (StateM σ)
  directory : String
  possible : σ → Prop
  takes : String → Prop

namespace Folder

variable {σ : Type} (folder : Folder σ) {world world' : σ} {name : String} {names : List String}

def shows (world : σ) (name : String) : Except FileError String :=
  ((folder.files.read (Slot.inside folder.directory name)).run world).1

/-- A change of the named files at most. -/
structure Changes (names : List String) (world world' : σ) : Prop where
  possible : folder.possible world'
  others : ∀ name, IsFileName name → folder.takes name → name ∉ names →
    folder.shows world' name = folder.shows world name

/-- Reading changes nothing, and the other operations change only the files that they name. A text
that was written can be read back. What a rename puts at the target is what the source was, and a
rename that fails puts nothing anywhere. -/
structure Serves : Prop where
  reads : ∀ world name, folder.possible world → IsFileName name →
    ((folder.files.read (Slot.inside folder.directory name)).run world).2 = world
  refuses : ∀ world name text, folder.possible world → IsFileName name → ¬folder.takes name →
    folder.shows world name ≠ .ok text
  creates : ∀ world result world', folder.possible world →
    (folder.files.createDirectory folder.directory).run world = (result, world') →
    folder.Changes [] world world'
  writes : ∀ world name text result world', folder.possible world → IsFileName name →
    (folder.files.write (Slot.inside folder.directory name) text).run world = (result, world') →
    folder.Changes [name] world world' ∧ (result = .ok () → folder.shows world' name = .ok text)
  renames : ∀ world source target result world', folder.possible world → IsFileName source →
    IsFileName target →
    (folder.files.rename (Slot.inside folder.directory source)
      (Slot.inside folder.directory target)).run world = (result, world') →
    match result with
    | .ok () => folder.Changes [source, target] world world' ∧
        folder.shows world' target = folder.shows world source
    | .error _ => folder.Changes [] world world'

variable {folder}

theorem Changes.refl (possible : folder.possible world) : folder.Changes names world world :=
  ⟨possible, fun _ _ _ _ => rfl⟩

theorem Changes.weaken {names' : List String} (h : folder.Changes names world world')
    (subset : names ⊆ names') : folder.Changes names' world world' :=
  ⟨h.possible, fun name named taken other => h.others name named taken fun member =>
    other (subset member)⟩

theorem Changes.trans {world'' : σ} (h : folder.Changes names world world')
    (h' : folder.Changes names world' world'') : folder.Changes names world world'' :=
  ⟨h'.possible, fun name named taken other =>
    (h'.others name named taken other).trans (h.others name named taken other)⟩

theorem Serves.text (serves : folder.Serves) (possible : folder.possible world)
    (possible' : folder.possible world') (named : IsFileName name)
    (same : folder.takes name → folder.shows world' name = folder.shows world name)
    {text : String} : folder.shows world' name = .ok text ↔ folder.shows world name = .ok text := by
  by_cases taken : folder.takes name
  · rw [same taken]
  · exact iff_of_false (serves.refuses _ _ _ possible' named taken)
      (serves.refuses _ _ _ possible named taken)

theorem Changes.text (h : folder.Changes names world world') (serves : folder.Serves)
    (possible : folder.possible world) (named : IsFileName name) (other : name ∉ names)
    {text : String} : folder.shows world' name = .ok text ↔ folder.shows world name = .ok text :=
  serves.text possible h.possible named fun taken => h.others name named taken other

end Folder

/-- Names of slots that settings can have. -/
def Settings.Accepts (slot : String) : Prop :=
  ∃ settings extent, Settings.validate settings = .ok extent ∧ settings.slot = slot

theorem Settings.accepts_iff {slot : String} :
    Settings.Accepts slot ↔ isSlotName slot = true := by
  constructor
  · rintro ⟨settings, extent, valid, rfl⟩
    rw [validate] at valid
    split at valid
    · cases valid
    · split at valid
      · assumption
      · cases valid
  · intro named
    exact ⟨{ default with slot }, ⟨10, 10, by decide, by decide, by decide⟩, if_pos named, rfl⟩

namespace Slot

variable {slot other : String}

theorem accepted_nonempty (h : Settings.Accepts slot) : slot ≠ "" := by
  rintro rfl
  exact absurd (Settings.accepts_iff.mp h) (by decide)

theorem accepted_char (h : Settings.Accepts slot) {c : Char} (member : c ∈ slot.toList) :
    c ≠ '/' ∧ c ≠ '.' ∧ c ≠ '\x00' := by
  have named := Settings.accepts_iff.mp h
  rw [Settings.isSlotName, Bool.and_eq_true, List.all_eq_true] at named
  have allowed := named.2 c member
  refine ⟨?_, ?_, ?_⟩
  all_goals
    rintro rfl
    exact absurd allowed (by decide)

theorem isFileName_around (h : Settings.Accepts slot) {front back : String}
    (noSlash : '/' ∉ front.toList ++ back.toList) (noNul : '\x00' ∉ front.toList ++ back.toList)
    (long : 2 < front.length + back.length) : IsFileName (front ++ slot ++ back) := by
  have longer (name : String) (short : name.length ≤ 2) : front ++ slot ++ back ≠ name := by
    rintro rfl
    rw [String.length_append, String.length_append] at short
    omega
  have absent {c : Char} (around : c ∉ front.toList ++ back.toList) (between : c ∉ slot.toList) :
      c ∉ (front ++ slot ++ back).toList := by
    rw [List.mem_append, not_or] at around
    simp only [String.toList_append, List.mem_append, not_or]
    exact ⟨⟨around.1, between⟩, around.2⟩
  exact ⟨longer _ (by decide), longer _ (by decide), longer _ (by decide),
    absent noSlash fun member => (accepted_char h member).1 rfl,
    absent noNul fun member => (accepted_char h member).2.2 rfl⟩

theorem isFileName_fileName (h : Settings.Accepts slot) : IsFileName (fileName slot) := by
  have named : IsFileName ("" ++ slot ++ ".json") :=
    isFileName_around h (by decide) (by decide) (by decide)
  rwa [String.empty_append] at named

theorem isFileName_temporaryName (h : Settings.Accepts slot) :
    IsFileName (temporaryName slot) :=
  isFileName_around h (by decide) (by decide) (by decide)

theorem fileName_injective (same : fileName slot = fileName other) : slot = other := by
  simpa [fileName] using same

theorem temporaryName_injective (same : temporaryName slot = temporaryName other) :
    slot = other := by
  simpa [temporaryName] using same

/-- A temporary file starts with a point, which no slot has in its name. -/
theorem fileName_ne_temporaryName (h : Settings.Accepts slot) (other : String) :
    fileName slot ≠ temporaryName other := by
  intro same
  have same := congrArg String.toList same
  simp only [fileName, temporaryName, String.toList_append] at same
  obtain ⟨c, cs, spelled⟩ := List.exists_cons_of_ne_nil fun none =>
    accepted_nonempty h (String.toList_eq_nil_iff.mp none)
  rw [spelled] at same
  obtain rfl : c = '.' := (List.cons.inj same).1
  exact (accepted_char h (spelled ▸ List.mem_cons_self)).2.1 rfl

def files (slot : String) : List String := [temporaryName slot, fileName slot]

theorem fileName_notMem_temporary (h : Settings.Accepts slot) :
    fileName slot ∉ [temporaryName slot] := by
  simpa using fileName_ne_temporaryName h slot

theorem fileName_notMem_files (h : Settings.Accepts slot) (apart : slot ≠ other) :
    fileName slot ∉ files other := by
  simp [files, fileName_ne_temporaryName h, mt fileName_injective apart]

theorem temporaryName_notMem_files (h : Settings.Accepts other) (apart : slot ≠ other) :
    temporaryName slot ∉ files other := by
  simp [files, (fileName_ne_temporaryName h slot).symm, mt temporaryName_injective apart]

end Slot

end Worksheet
