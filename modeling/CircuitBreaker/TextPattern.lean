import Mathlib.Data.List.Basic
import Mathlib.Tactic.Common

/-! Backtracking text patterns: the positions a pattern can stop at, in the order a
backtracking matcher tries them. -/

namespace TextPattern
open List

/-- Code point ranges, or everything outside them. -/
structure CharClass where
  ranges : List (Nat × Nat)
  negated : Bool := false

def CharClass.has (k : CharClass) (c : Char) : Bool :=
  (k.ranges.any fun r => r.1 ≤ c.toNat && c.toNat ≤ r.2) != k.negated

inductive Pattern where
  | eps
  | cls (k : CharClass)
  | seq (a b : Pattern)
  | alt (a b : Pattern)
  | rep (r : Pattern) (least : Nat) (most : Option Nat) (greedy : Bool := true)
  | notAhead (r : Pattern)
  | start
  | stop

/-- What is left to read, and whether nothing was read before it. -/
structure Pos where
  first : Bool
  rest : List Char

def Pos.next (p : Pos) (k : CharClass) : List Pos :=
  match p.rest with
  | c::cs => if k.has c then [⟨false,cs⟩] else []
  | [] => []

/-- At least `least` and at most `most` further rounds, the longest first when greedy. -/
def rounds (step : Pos → List Pos) (greedy : Bool) : Nat → Nat → Pos → List Pos
  | least, 0, p => if least = 0 then [p] else []
  | least, most+1, p =>
      let further := (step p).flatMap (rounds step greedy (least-1) most)
      let here := if least = 0 then [p] else []
      if greedy then further ++ here else here ++ further

/-- An unbounded repetition of a pattern that consumes something every round makes
at most as many rounds as there are characters left. -/
def Pattern.ends : Pattern → Pos → List Pos
  | .eps, p => [p]
  | .cls k, p => p.next k
  | .seq a b, p => (a.ends p).flatMap b.ends
  | .alt a b, p => a.ends p ++ b.ends p
  | .rep r least most greedy, p => rounds r.ends greedy least (most.getD p.rest.length) p
  | .notAhead r, p => if (r.ends p).isEmpty then [p] else []
  | .start, p => if p.first then [p] else []
  | .stop, p => if p.rest.isEmpty then [p] else []

def positions : Bool → List Char → List Pos
  | first, [] => [⟨first,[]⟩]
  | first, c::cs => ⟨first,c::cs⟩ :: positions false cs

def Pattern.search (r : Pattern) (s : List Char) : Bool :=
  (positions true s).any fun p => !(r.ends p).isEmpty

/-- The whole text: `^r$`. -/
def Pattern.whole (r : Pattern) : Pattern := .seq .start (.seq r .stop)

def lit (s : String) : Pattern :=
  s.toList.foldr (fun c r => .seq (.cls ⟨[(c.toNat,c.toNat)],false⟩) r) .eps

/-- The classes a match can take its characters from. -/
def Pattern.classes : Pattern → List CharClass
  | .cls k => [k]
  | .seq a b | .alt a b => a.classes ++ b.classes
  | .rep r _ _ _ => r.classes
  | _ => []

/-- The longest match, when there is one. -/
def Pattern.longest : Pattern → Option Nat
  | .cls _ => some 1
  | .seq a b => a.longest.bind fun m => b.longest.map (m+·)
  | .alt a b => a.longest.bind fun m => b.longest.map (max m)
  | .rep r _ most _ => r.longest.bind fun m => most.map (m*·)
  | _ => some 0

/-- A stop of `r` leaves a suffix, and what it read came from the classes of `r`. -/
structure Reads (r : Pattern) (p q : Pos) (w : List Char) : Prop where
  text : p.rest = w++q.rest
  drawn : ∀ c ∈ w, ∃ k ∈ r.classes, k.has c
  short : ∀ m, r.longest = some m → w.length ≤ m

attribute [local simp] Pattern.ends Pattern.longest Pattern.classes

theorem next_reads {k : CharClass} {p q : Pos} (h : q ∈ p.next k) :
    ∃ w, Reads (.cls k) p q w := by
  obtain ⟨b,rest⟩ := p
  cases rest with
  | nil => simp [Pos.next] at h
  | cons c cs =>
    by_cases hc : k.has c
    · simp [Pos.next,hc] at h
      subst h
      exact ⟨[c],rfl,by simp [Pattern.classes,hc],by simp [Pattern.longest]⟩
    · simp [Pos.next,hc] at h

theorem rounds_reads {r : Pattern} {step : Pos → List Pos} {greedy : Bool}
    (ih : ∀ p q, q ∈ step p → ∃ w, Reads r p q w) :
    ∀ {most least : Nat} {p q : Pos}, q ∈ rounds step greedy least most p →
      ∃ w, p.rest = w++q.rest ∧ (∀ c ∈ w, ∃ k ∈ r.classes, k.has c) ∧
        ∀ m, r.longest = some m → w.length ≤ m*most := by
  intro most
  induction most with intro least p q h
  | zero =>
    by_cases hl : least = 0
    · simp [rounds,hl] at h
      exact ⟨[],by simp [h]⟩
    · simp [rounds,hl] at h
  | succ most ihm =>
    have split : q ∈ (step p).flatMap (rounds step greedy (least-1) most) ∨
        q ∈ (if least = 0 then [p] else []) := by
      cases greedy <;> simp only [rounds,if_true,Bool.false_eq_true,if_false,mem_append] at h
      · exact h.symm
      · exact h
    simp only [mem_flatMap] at split
    rcases split with ⟨p',hp,hq⟩|h
    · obtain ⟨w,hw⟩ := ih p p' hp
      obtain ⟨w',ht,hd,hs⟩ := ihm hq
      refine ⟨w++w',by simp [hw.text,ht],?_,?_⟩
      · simp only [mem_append]
        rintro c (hc|hc)
        · exact hw.drawn c hc
        · exact hd c hc
      · intro m hm
        have h₁ := hw.short m hm
        have h₂ := hs m hm
        simp only [length_append,Nat.mul_succ]
        omega
    · by_cases hl : least = 0
      · simp [hl] at h
        exact ⟨[],by simp [h]⟩
      · simp [hl] at h

theorem ends_reads (r : Pattern) : ∀ {p q : Pos}, q ∈ r.ends p → ∃ w, Reads r p q w := by
  induction r with
  | eps =>
    intro p q h
    simp [Pattern.ends] at h
    exact ⟨[],by simp [h],by simp,by simp⟩
  | cls k => exact fun h => next_reads h
  | seq a b iha ihb =>
    intro p q h
    simp only [Pattern.ends,mem_flatMap] at h
    obtain ⟨p',hp,hq⟩ := h
    obtain ⟨w,hw⟩ := iha hp
    obtain ⟨w',hw'⟩ := ihb hq
    refine ⟨w++w',by simp [hw.text,hw'.text],?_,?_⟩
    · simp only [mem_append,Pattern.classes]
      rintro c (hc|hc)
      · obtain ⟨k,hk,h⟩ := hw.drawn c hc
        exact ⟨k,.inl hk,h⟩
      · obtain ⟨k,hk,h⟩ := hw'.drawn c hc
        exact ⟨k,.inr hk,h⟩
    · simp only [Pattern.longest,Option.bind_eq_some_iff,Option.map_eq_some_iff]
      rintro m ⟨m₁,h₁,m₂,h₂,rfl⟩
      simpa using Nat.add_le_add (hw.short m₁ h₁) (hw'.short m₂ h₂)
  | alt a b iha ihb =>
    intro p q h
    simp only [Pattern.ends,mem_append] at h
    rcases h with h|h
    · obtain ⟨w,hw⟩ := iha h
      refine ⟨w,hw.text,fun c hc => ?_,?_⟩
      · obtain ⟨k,hk,h⟩ := hw.drawn c hc
        exact ⟨k,by simp [Pattern.classes,hk],h⟩
      · simp only [Pattern.longest,Option.bind_eq_some_iff,Option.map_eq_some_iff]
        rintro m ⟨m₁,h₁,m₂,h₂,rfl⟩
        exact Nat.le_trans (hw.short m₁ h₁) (Nat.le_max_left ..)
    · obtain ⟨w,hw⟩ := ihb h
      refine ⟨w,hw.text,fun c hc => ?_,?_⟩
      · obtain ⟨k,hk,h⟩ := hw.drawn c hc
        exact ⟨k,by simp [Pattern.classes,hk],h⟩
      · simp only [Pattern.longest,Option.bind_eq_some_iff,Option.map_eq_some_iff]
        rintro m ⟨m₁,h₁,m₂,h₂,rfl⟩
        exact Nat.le_trans (hw.short m₂ h₂) (Nat.le_max_right ..)
  | rep r least most greedy ih =>
    intro p q h
    obtain ⟨w,ht,hd,hs⟩ := rounds_reads (r := r) (fun _ _ h => ih h) h
    refine ⟨w,ht,hd,?_⟩
    simp only [Pattern.longest,Option.bind_eq_some_iff,Option.map_eq_some_iff]
    rintro m ⟨m₁,h₁,n,rfl,rfl⟩
    simpa using hs m₁ h₁
  | notAhead r _ | start | stop =>
    intro p q h
    simp only [Pattern.ends] at h
    split at h
    · simp at h
      exact ⟨[],by simp [h],by simp,by simp⟩
    · simp at h

theorem positions_later {t : List Char} {p : Pos} (h : p ∈ positions false t) :
    p.first = false := by
  induction t with
  | nil => simp_all [positions]
  | cons c cs ih =>
    simp only [positions,mem_cons] at h
    rcases h with rfl|h
    · rfl
    · exact ih h

theorem positions_first {t : List Char} {p : Pos} (h : p ∈ positions true t)
    (hp : p.first = true) : p.rest = t := by
  cases t with
  | nil => simp_all [positions]
  | cons c cs =>
    simp only [positions,mem_cons] at h
    rcases h with rfl|h
    · rfl
    · simp [positions_later h] at hp

/-- A pattern anchored on both sides accounts for the whole text. -/
theorem whole_reads {r : Pattern} {s : List Char} (h : r.whole.search s) :
    (∀ c ∈ s, ∃ k ∈ r.classes, k.has c) ∧ ∀ m, r.longest = some m → s.length ≤ m := by
  simp only [Pattern.search,any_eq_true,Pattern.whole,Pattern.ends,
    Bool.not_eq_eq_eq_not,Bool.not_true,isEmpty_eq_false_iff_exists_mem,
    mem_flatMap] at h
  obtain ⟨p,hp,x,y,hy,z,hz,hx⟩ := h
  by_cases hf : p.first
  · by_cases he : z.rest.isEmpty
    · simp only [hf,if_true,mem_singleton] at hy
      subst hy
      obtain ⟨w,hw⟩ := ends_reads r hz
      have : s = w := by
        rw [←positions_first hp hf,hw.text,isEmpty_iff.1 he,append_nil]
      exact this ▸ ⟨hw.drawn,hw.short⟩
    · simp [he] at hx
  · simp [hf] at hy

theorem search_whole {r : Pattern} {s : List Char} {q : Pos} (h : q ∈ r.ends ⟨true,s⟩)
    (hq : q.rest = []) : r.whole.search s = true := by
  have here : (⟨true,s⟩ : Pos) ∈ positions true s := by cases s <;> simp [positions]
  simp only [Pattern.search,any_eq_true]
  refine ⟨_,here,?_⟩
  have stop : q ∈ r.whole.ends ⟨true,s⟩ := by
    simp only [Pattern.whole,Pattern.ends,if_true,flatMap_cons,flatMap_nil,
      append_nil,mem_flatMap]
    exact ⟨q,h,by simp [hq]⟩
  cases he : r.whole.ends ⟨true,s⟩ with
  | nil => simp [he] at stop
  | cons _ _ => simp

/-- Reading a run of characters of one class, as many as there may be. -/
theorem rounds_run {k : CharClass} {g b : Bool} {t : List Char} : ∀ {w : List Char} {m : Nat},
    m ≤ w.length → (∀ c ∈ w, k.has c = true) →
    (⟨b && w.isEmpty,t⟩ : Pos) ∈ rounds (fun p => p.next k) g m w.length ⟨b,w++t⟩
  | [], m, hl, _ => by
    have : m = 0 := by simpa using hl
    simp [rounds,this]
  | c::w, m, hl, h => by
    have tail := rounds_run (g := g) (b := false) (t := t) (w := w) (m := m-1)
      (by simp at hl; omega) fun d hd => h d (by simp [hd])
    have head : k.has c = true := h c (by simp)
    cases g <;> simp [rounds,Pos.next,head] at tail ⊢ <;> simp [tail]

end TextPattern
