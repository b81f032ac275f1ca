import Mathlib.Logic.Function.Basic

/-! Files under names, as a writer that holds one open sees them: a name leads to a file, a rename
moves the name and not the file, and bytes go into the file whatever it is called by then. -/

namespace FileTree
open Function

variable {ν : Type} [DecidableEq ν]

/-- The directory and the files; the numbers from `next` on are free. -/
structure Files (ν : Type) where
  dir : ν → Option Nat
  data : Nat → List UInt8
  next : Nat

def Files.read (t : Files ν) (name : ν) : Option (List UInt8) := (t.dir name).map t.data

/-- What a new file under `name` would be. -/
def Files.fresh (t : Files ν) (name : ν) : Nat := (t.dir name).getD t.next

/-- Open for writing: the file under the name is emptied, or made. -/
def Files.create (t : Files ν) (name : ν) : Files ν where
  dir := update t.dir name (some (t.fresh name))
  data := update t.data (t.fresh name) []
  next := max t.next (t.fresh name+1)

/-- Bytes at an offset of a file that is held open, with zeros up to the offset. -/
def Files.put (t : Files ν) (file offset : Nat) (bytes : List UInt8) : Files ν :=
  { t with
    data := update t.data file
      ((t.data file ++ List.replicate (offset-(t.data file).length) 0).take offset ++ bytes ++
        (t.data file).drop (offset+bytes.length)) }

def Files.rename (t : Files ν) (old new : ν) : Files ν :=
  { t with dir := update (update t.dir new (t.dir old)) old none }

/-- No two names lead to one file, and none to a free number. -/
structure Files.Plain (t : Files ν) : Prop where
  alone : ∀ a b file, t.dir a = some file → t.dir b = some file → a = b
  used : ∀ a file, t.dir a = some file → file < t.next

variable {t : Files ν}

omit [DecidableEq ν] in
theorem Files.Plain.fresh_other (h : t.Plain) {name other : ν} (ne : other ≠ name) :
    t.dir other ≠ some (t.fresh name) := by
  intro found
  unfold Files.fresh at found
  cases taken : t.dir name with
  | none =>
    have := h.used other t.next (by simpa [taken] using found)
    omega
  | some file => exact ne (h.alone other name file (by simpa [taken] using found) taken)

theorem Files.Plain.create (h : t.Plain) (name : ν) : (t.create name).Plain := by
  constructor
  · intro a b file ha hb
    by_cases an : a = name <;> by_cases bn : b = name
    · rw [an,bn]
    · subst an
      simp only [Files.create,update_self,Option.some.injEq] at ha
      simp only [Files.create,update_of_ne bn] at hb
      exact absurd (ha ▸ hb) (h.fresh_other bn)
    · subst bn
      simp only [Files.create,update_self,Option.some.injEq] at hb
      simp only [Files.create,update_of_ne an] at ha
      exact absurd (hb ▸ ha) (h.fresh_other an)
    · simp only [Files.create,update_of_ne an] at ha
      simp only [Files.create,update_of_ne bn] at hb
      exact h.alone a b file ha hb
  · intro a file ha
    simp only [Files.create] at ha ⊢
    by_cases an : a = name
    · subst an
      simp only [update_self,Option.some.injEq] at ha
      omega
    · rw [update_of_ne an] at ha
      have := h.used a file ha
      omega

omit [DecidableEq ν] in
theorem Files.Plain.put (h : t.Plain) (file offset : Nat) (bytes : List UInt8) :
    (t.put file offset bytes).Plain :=
  ⟨h.alone,h.used⟩

theorem Files.Plain.rename (h : t.Plain) {old new : ν} (ne : old ≠ new) :
    (t.rename old new).Plain := by
  have source : ∀ a file, (t.rename old new).dir a = some file →
      a ≠ old ∧ t.dir (if a = new then old else a) = some file := by
    intro a file ha
    simp only [Files.rename] at ha
    by_cases ao : a = old
    · subst ao
      simp at ha
    · rw [update_of_ne ao] at ha
      by_cases an : a = new
      · subst an
        exact ⟨ao,by simpa using ha⟩
      · rw [update_of_ne an] at ha
        exact ⟨ao,by simpa [an] using ha⟩
  constructor
  · intro a b file ha hb
    obtain ⟨ao,ha⟩ := source a file ha
    obtain ⟨bo,hb⟩ := source b file hb
    have same := h.alone _ _ file ha hb
    by_cases an : a = new <;> by_cases bn : b = new
    · rw [an,bn]
    · rw [if_pos an,if_neg bn] at same
      exact absurd same.symm bo
    · rw [if_neg an,if_pos bn] at same
      exact absurd same ao
    · rwa [if_neg an,if_neg bn] at same
  · intro a file ha
    exact h.used _ file (source a file ha).2

theorem Files.dir_create (t : Files ν) (name : ν) : (t.create name).dir name = some (t.fresh name) := by
  simp [Files.create]

theorem Files.Plain.read_create_other (h : t.Plain) {name other : ν} (ne : other ≠ name) :
    (t.create name).read other = t.read other := by
  have apart := h.fresh_other ne
  simp only [Files.read,Files.create,update_of_ne ne]
  cases found : t.dir other with
  | none => rfl
  | some file =>
    have differs : file ≠ t.fresh name := fun he => apart (he ▸ found)
    simp [update_of_ne differs]

omit [DecidableEq ν] in
theorem Files.Plain.read_put_other (h : t.Plain) {name other : ν} {file offset : Nat}
    {bytes : List UInt8} (held : t.dir name = some file) (ne : other ≠ name) :
    (t.put file offset bytes).read other = t.read other := by
  simp only [Files.read,Files.put]
  cases found : t.dir other with
  | none => rfl
  | some file' =>
    have differs : file' ≠ file := fun he => ne (h.alone other name file (he ▸ found) held)
    simp [update_of_ne differs]

omit [DecidableEq ν] in
/-- Bytes put where a file ends. -/
theorem Files.read_put_end {t : Files ν} {name : ν} {file : Nat} {bytes : List UInt8}
    (held : t.dir name = some file) :
    (t.put file (t.data file).length bytes).read name = some (t.data file ++ bytes) := by
  simp [Files.read,Files.put,held]

theorem Files.read_rename {old new : ν} (ne : old ≠ new) :
    (t.rename old new).read new = t.read old := by
  simp [Files.read,Files.rename,update_of_ne ne.symm]

theorem Files.read_rename_other {old new other : ν} (no : other ≠ old) (nn : other ≠ new) :
    (t.rename old new).read other = t.read other := by
  simp [Files.read,Files.rename,update_of_ne no,update_of_ne nn]

end FileTree
