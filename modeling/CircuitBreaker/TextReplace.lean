import Mathlib.Data.List.Infix

/-! Replacing every occurrence of a text, and what such a replacement can bring about: a text
that shares nothing with the replacement is never spelled by it. -/

namespace TextReplace
open List

variable {α : Type} [DecidableEq α]

/-- The occurrences of `old`, from the left and apart from each other, become `new`; the
number counts what is left to skip of the last one. -/
def replaceFrom (old new : List α) : Nat → List α → List α
  | _,[] => []
  | skip+1,_ :: t => replaceFrom old new skip t
  | 0,a :: t =>
    if old <+: a :: t then new++replaceFrom old new (old.length-1) t
    else a :: replaceFrom old new 0 t

def replace (old new t : List α) : List α := replaceFrom old new 0 t

/-- Some infixes of the first text have become `new` in the second. -/
inductive Cut (new : List α) : List α → List α → Prop where
  | nil : Cut new [] []
  | keep (a : α) {t t' : List α} : Cut new t t' → Cut new (a :: t) (a :: t')
  | cut (old : List α) {t t' : List α} : Cut new t t' → Cut new (old++t) (new++t')

theorem replaceFrom_drop (old new : List α) (t : List α) (skip : Nat) :
    replaceFrom old new skip t = replaceFrom old new 0 (t.drop skip) := by
  induction t generalizing skip with
  | nil => simp [replaceFrom]
  | cons a t ih =>
    cases skip with
    | zero => rfl
    | succ skip => simpa [replaceFrom] using ih skip

/-- The two ways one step goes, with the rest of the text after it. -/
theorem replace_cons (old new : List α) (a : α) (t : List α) :
    (∃ rest, old <+: a :: t ∧ a :: t = old++rest ∧
      replace old new (a :: t) = new++replace old new rest) ∨
    old = [] ∨ ¬old <+: a :: t ∧ replace old new (a :: t) = a :: replace old new t := by
  by_cases h : old <+: a :: t
  · cases old with
    | nil => exact .inr (.inl rfl)
    | cons b old =>
      obtain ⟨rest,eq⟩ := h
      refine .inl ⟨rest,⟨rest,eq⟩,eq.symm,?_⟩
      obtain ⟨rfl,rfl⟩ : b = a ∧ old++rest = t := by simpa using eq
      have skipped : (old++rest).drop old.length = rest := by simp
      have taken : b :: old <+: b :: (old++rest) := ⟨rest,rfl⟩
      simp only [replace,replaceFrom,if_pos taken,length_cons,Nat.add_sub_cancel]
      rw [replaceFrom_drop,skipped]
  · exact .inr (.inr ⟨h,by simp [replace,replaceFrom,h]⟩)

theorem replace_cut {old : List α} (ho : old ≠ []) (new t : List α) :
    Cut new t (replace old new t) := by
  induction n : t.length using Nat.strong_induction_on generalizing t with
  | _ n ih =>
    cases t with
    | nil => exact .nil
    | cons a t =>
      rcases replace_cons old new a t with ⟨rest,-,eq,step⟩ | empty | ⟨-,step⟩
      · rw [step,eq]
        have longer := congrArg List.length eq
        have positive := length_pos_iff.mpr ho
        simp only [length_cons,length_append] at longer n
        exact .cut old (ih rest.length (by omega) rest rfl)
      · exact absurd empty ho
      · rw [step]
        exact .keep a (ih t.length (by simp at n; omega) t rfl)

/-! Texts that share no end with the replacement. -/

/-- An end of one is a beginning of the other, or one lies in the other. -/
def Touches (s new : List α) : Prop :=
  s <:+: new ∨ new <:+: s ∨ (∃ u ∈ new.inits, u ≠ [] ∧ u <:+ s) ∨ ∃ u ∈ new.tails, u ≠ [] ∧ u <+: s

instance (s new : List α) : Decidable (Touches s new) :=
  inferInstanceAs (Decidable (s <:+: new ∨ new <:+: s ∨ (∃ u ∈ new.inits, u ≠ [] ∧ u <:+ s) ∨
    ∃ u ∈ new.tails, u ≠ [] ∧ u <+: s))

omit [DecidableEq α] in
/-- Read from its beginning, a text the replacement does not touch stops before any of it. -/
theorem Cut.startsWith {new t t' u : List α} (h : Cut new t t')
    (apart : ∀ v, v ≠ [] → v <:+ u → ¬v <+: new ∧ ¬new <+: v) (hu : u <+: t') : u <+: t := by
  induction h generalizing u with
  | nil => exact hu
  | keep a _ ih =>
    cases u with
    | nil => exact nil_prefix
    | cons b u =>
      obtain ⟨rfl,rest⟩ := cons_prefix_cons.mp hu
      exact cons_prefix_cons.mpr
        ⟨rfl,ih (fun v hv tail => apart v hv (tail.trans (suffix_cons b u))) rest⟩
  | cut old _ _ =>
    cases u with
    | nil => exact nil_prefix
    | cons b u =>
      obtain ⟨notIn,notOut⟩ := apart (b :: u) (cons_ne_nil b u) suffix_rfl
      rcases prefix_or_prefix_of_prefix hu (prefix_append new _) with inside | outside
      · exact absurd inside notIn
      · exact absurd outside notOut

omit [DecidableEq α] in
theorem apart_of_not_touches {s new : List α} (h : ¬Touches s new) :
    ∀ v, v ≠ [] → v <:+ s → ¬v <+: new ∧ ¬new <+: v := by
  intro v hv tail
  refine ⟨fun inside => h (.inr (.inr (.inl ⟨v,(mem_inits v new).mpr inside,hv,tail⟩))),
    fun outside => h (.inr (.inl (outside.isInfix.trans tail.isInfix)))⟩

omit [DecidableEq α] in
/-- A text apart from the replacement lies beside it wherever it is found. -/
theorem infix_new_append {s new t : List α} (h : ¬Touches s new) (found : s <:+: new++t) :
    s <:+: t := by
  rcases infix_append_iff_ne_nil.mp found with inNew | inRest | ⟨u,v,hu,-,rfl,ends,-⟩
  · exact absurd (.inl inNew) h
  · exact inRest
  · exact absurd (.inr (.inr (.inr ⟨u,(mem_tails u new).mpr ends,hu,prefix_append u v⟩))) h

omit [DecidableEq α] in
/-- Cutting spells no text that the replacement does not touch. -/
theorem Cut.spells {new t t' s : List α} (h : Cut new t t') (ht : ¬Touches s new)
    (found : s <:+: t') : s <:+: t := by
  induction h with
  | nil => exact found
  | keep a cut ih =>
    rcases infix_cons_iff.mp found with here | later
    · exact ((cut.keep a).startsWith (apart_of_not_touches ht) here).isInfix
    · exact infix_cons (ih later)
  | cut old _ ih => exact infix_append_of_infix_right (ih (infix_new_append ht found))

/-- Nothing is left of a replaced text that the replacement does not touch. -/
theorem not_infix_replace {s new : List α} (hs : s ≠ []) (ht : ¬Touches s new) (t : List α) :
    ¬s <:+: replace s new t := by
  induction n : t.length using Nat.strong_induction_on generalizing t with
  | _ n ih =>
    intro found
    cases t with
    | nil => exact hs (infix_nil.mp found)
    | cons a t =>
      rcases replace_cons s new a t with ⟨rest,-,eq,step⟩ | empty | ⟨miss,step⟩
      · rw [step] at found
        have longer := congrArg List.length eq
        have positive := length_pos_iff.mpr hs
        simp only [length_cons,length_append] at longer n
        exact ih rest.length (by omega) rest rfl (infix_new_append ht found)
      · exact hs empty
      · have cut := replace_cut hs new (a :: t)
        rw [step] at found cut
        rcases infix_cons_iff.mp found with here | later
        · exact miss (cut.startsWith (apart_of_not_touches ht) here)
        · exact ih t.length (by simp at n; omega) t rfl later

end TextReplace
