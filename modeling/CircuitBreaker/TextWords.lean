import Mathlib.Data.List.TakeWhile

/-! The words of a text between separators, and when two sets of separators give the same ones. -/

namespace TextWords
open List

abbrev Text := List Char

/-- Texts in lists of texts are found by one equality. -/
instance lawfulBEqText : LawfulBEq (List Char) := inferInstance

def words (sep : Char → Bool) (t : Text) : List Text := (t.splitOnP sep).filter (· ≠ [])

variable {sep wider : Char → Bool}

theorem words_append (a b : Text) {c : Char} (h : sep c = true) :
    words sep (a++c::b) = words sep a++words sep b := by
  unfold words
  rw [splitOnP_append_cons a b h,filter_append]

theorem words_plain {w : Text} (some_ : w ≠ []) (h : ∀ c ∈ w, sep c = false) : words sep w = [w] := by
  unfold words
  rw [splitOnP_eq_singleton h]
  simp [some_]

theorem words_blank {t : Text} (h : ∀ c ∈ t, sep c = true) : words sep t = [] := by
  induction t with
  | nil => rfl
  | cons c t ih =>
    have rest := ih fun d hd => h d (mem_cons_of_mem _ hd)
    have step := words_append [] t (h c (by simp))
    rw [nil_append] at step
    rw [step,rest]
    rfl

/-- Separators before a text. -/
theorem words_lead {lead : Text} (t : Text) (h : ∀ c ∈ lead, sep c = true) :
    words sep (lead++t) = words sep t := by
  induction lead with
  | nil => rfl
  | cons c lead ih =>
    have step := words_append [] (lead++t) (h c (by simp))
    rw [nil_append] at step
    rw [cons_append,step,ih fun d hd => h d (mem_cons_of_mem _ hd)]
    rfl

/-- Separators behind a text. -/
theorem words_trail {trail : Text} (t : Text) (h : ∀ c ∈ trail, sep c = true) :
    words sep (t++trail) = words sep t := by
  cases trail with
  | nil => rw [append_nil]
  | cons c trail =>
    rw [words_append t trail (h c (by simp)),words_blank fun d hd => h d (mem_cons_of_mem _ hd),
      append_nil]

/-- What is behind a word. -/
def Ends (sep : Char → Bool) (rest : Text) : Prop := ∀ c, rest.head? = some c → sep c = true

theorem words_cons {w rest : Text} (some_ : w ≠ []) (h : ∀ c ∈ w, sep c = false) (ends : Ends sep rest) :
    words sep (w++rest) = w::words sep rest := by
  cases rest with
  | nil => rw [append_nil,words_plain some_ h]; rfl
  | cons c rest =>
    have sepc := ends c rfl
    have behind := words_append [] rest sepc
    rw [nil_append] at behind
    rw [words_append w rest sepc,words_plain some_ h,behind]
    rfl

/-- The first word of a text, with what stands around it. -/
theorem words_first {t w : Text} {ws : List Text} (h : words sep t = w::ws) :
    ∃ lead rest, t = lead++(w++rest) ∧ (∀ c ∈ lead, sep c = true) ∧ w ≠ [] ∧ (∀ c ∈ w, sep c = false) ∧
      Ends sep rest ∧ words sep rest = ws := by
  have lead : ∀ c ∈ t.takeWhile sep, sep c = true := fun c hc => mem_takeWhile_imp hc
  have split := @List.takeWhile_append_dropWhile _ sep t
  have same : words sep (t.dropWhile sep) = w::ws := by
    rw [←h,←words_lead _ lead,split]
  generalize hu : t.dropWhile sep = u at same split
  have begins : ∀ c, u.head? = some c → sep c = false := by
    intro c hc
    rw [←hu] at hc
    have := head?_dropWhile_not sep t
    rw [hc] at this
    simpa using this
  have inner := @List.takeWhile_append_dropWhile _ (fun c => !sep c) u
  have word : ∀ c ∈ u.takeWhile (fun c => !sep c), sep c = false := by
    intro c hc
    simpa using mem_takeWhile_imp hc
  have ends : Ends sep (u.dropWhile fun c => !sep c) := by
    intro c hc
    have := head?_dropWhile_not (fun c => !sep c) u
    rw [hc] at this
    simpa using this
  have some_ : u.takeWhile (fun c => !sep c) ≠ [] := by
    cases u with
    | nil => exact nomatch same
    | cons c u => simp [begins c rfl]
  have parts := words_cons some_ word ends
  rw [inner,same] at parts
  obtain ⟨rfl,rest⟩ := List.cons.inj parts
  exact ⟨_,_,by rw [inner,split],lead,some_,word,ends,rest.symm⟩

/-- A first word that has none of a wider set of separators in it is the first word under that set. -/
theorem words_wider {t w : Text} {ws : List Text} (h : words sep t = w::ws)
    (more : ∀ c, sep c = true → wider c = true) (plain : ∀ c ∈ w, wider c = false) :
    ∃ rest, words sep rest = ws ∧ words wider t = w::words wider rest := by
  obtain ⟨lead,rest,rfl,leads,some_,-,ends,tail⟩ := words_first h
  refine ⟨rest,tail,?_⟩
  rw [words_lead _ fun c hc => more c (leads c hc)]
  exact words_cons some_ plain fun c hc => more c (ends c hc)

end TextWords
