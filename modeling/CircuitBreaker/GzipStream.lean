import Mathlib.Data.List.Basic
import Mathlib.Tactic.Common

/-! A decompressor that is given a compressed stream in pieces and gives its text in pieces, and where in
a stream of several members it stands. -/

namespace GzipStream
open List

abbrev Bytes := List UInt8

/-- What one call leaves: `unused` is what is behind the end of a member, `unconsumed` what it did not
take because there was no room for more text. -/
structure Taken (σ : Type) where
  state : σ
  out : Bytes
  unused : Bytes
  unconsumed : Bytes

structure Decompressor (σ : Type) where
  fresh : σ
  eof : σ → Bool
  decompress : σ → Bytes → Nat → Except String (Taken σ)

variable {σ : Type}

/-- The input that is to be given next. -/
def Decompressor.next (z : Decompressor σ) (t : Taken σ) : Bytes :=
  if z.eof t.state then t.unused else t.unconsumed

/-- What one call does in the middle of a member, with what is left of the member and of its text: it
takes `k` bytes and gives `j`, and is at its end when it has taken the last byte. -/
structure Goes (z : Decompressor σ) (Midway : σ → Bytes → Bytes → Prop) (rest text data : Bytes)
    (t : Taken σ) : Prop where
  ex : ∃ k j, k ≤ data.length ∧ k ≤ rest.length ∧ j ≤ text.length ∧ 0 < k+j ∧ t.out = text.take j ∧
    (k < rest.length → z.eof t.state = false ∧ t.unconsumed = data.drop k ∧
      Midway t.state (rest.drop k) (text.drop j)) ∧
    (k = rest.length → z.eof t.state = true ∧ t.unused = data.drop k ∧ j = text.length)

/-- The promises of a decompressor about whole members, which begin with a byte that is not zero. -/
structure Lawful (z : Decompressor σ) (most : Nat) (Member : Bytes → Bytes → Prop)
    (Midway : σ → Bytes → Bytes → Prop) : Prop where
  magic : ∀ m t, Member m t → ∃ b m', m = b::m' ∧ b ≠ 0
  begins : ∀ m t, Member m t → Midway z.fresh m t
  unfinished : ∀ s rest text, Midway s rest text → rest ≠ [] ∧ z.eof s = false
  goes : ∀ s rest text data, Midway s rest text → data ≠ [] → data <+: rest ∨ rest <+: data →
    ∃ t, z.decompress s data most = .ok t ∧ Goes z Midway rest text data t

/-- The compressed bytes of members, and their texts. -/
def packed (members : List (Bytes × Bytes)) : Bytes := members.flatMap Prod.fst
def texts (members : List (Bytes × Bytes)) : Bytes := members.flatMap Prod.snd

def zeros (n : Nat) : Bytes := List.replicate n 0

/-- Where a decompressor stands in members that are followed by zeros, with what is left of the stream
and of the text: in a member, between two, or in the zeros. -/
inductive Position (z : Decompressor σ) (Midway : σ → Bytes → Bytes → Prop)
    (members : List (Bytes × Bytes)) (n : Nat) : σ → Bytes → Bytes → Prop where
  | midway {s : σ} {r t : Bytes} {done rest : List (Bytes × Bytes)} (here : Midway s r t)
      (split : members = done++rest) :
      Position z Midway members n s (r++(packed rest++zeros n)) (t++texts rest)
  | between {s : σ} {done rest : List (Bytes × Bytes)} (ended : z.eof s = true)
      (split : members = done++rest) : Position z Midway members n s (packed rest++zeros n) (texts rest)
  | padded {s : σ} {k : Nat} (ended : z.eof s = true) (left : k ≤ n) :
      Position z Midway members n s (zeros k) []

variable {z : Decompressor σ} {Midway : σ → Bytes → Bytes → Prop} {members : List (Bytes × Bytes)} {n : Nat}

/-- What follows some zeros are zeros. -/
theorem zeros_split {n : Nat} {a b : Bytes} (h : a++b = zeros n) :
    a.all (· = 0) = true ∧ b = zeros b.length ∧ b.length ≤ n := by
  have each : ∀ x ∈ a++b, x = 0 := by
    rw [h]
    exact fun x hx => eq_of_mem_replicate hx
  have length := congrArg List.length h
  simp only [length_append,zeros,length_replicate] at length
  refine ⟨by simpa using fun x hx => each x (mem_append_left _ hx),?_,by omega⟩
  exact eq_replicate_of_mem fun x hx => each x (mem_append_right _ hx)

variable {Member : Bytes → Bytes → Prop}

/-- One call in the middle of a member. -/
theorem Lawful.advance {most : Nat} (h : Lawful z most Member Midway)
    {s : σ} {r t data later : Bytes} {done rest : List (Bytes × Bytes)} (here : Midway s r t)
    (split : members = done++rest) (some_ : data ≠ [])
    (stream : data++later = r++(packed rest++zeros n)) :
    ∃ taken text', z.decompress s data most = .ok taken ∧ taken.out++text' = t++texts rest ∧
      Position z Midway members n taken.state (z.next taken++later) text' ∧
      (z.next taken).length+text'.length < data.length+(t++texts rest).length := by
  have compatible : data <+: r ∨ r <+: data :=
    prefix_or_prefix_of_prefix (prefix_append data later) (stream ▸ prefix_append r _)
  obtain ⟨taken,call,k,j,hk,hr,hj,progress,out,mid,ended⟩ := h.goes s r t data here some_ compatible
  refine ⟨taken,t.drop j++texts rest,call,?_,?_⟩
  · rw [out,←append_assoc,take_append_drop]
  -- what the call leaves of its input goes on in the stream
  have onward : data.drop k++later = r.drop k++(packed rest++zeros n) := by
    rw [←drop_append_of_le_length hk,stream,drop_append_of_le_length hr]
  by_cases whole : k = r.length
  · obtain ⟨eof,unused,all⟩ := ended whole
    have next : z.next taken = data.drop k := (if_pos eof).trans unused
    have nothing : r.drop k = [] := by simp [whole]
    have text : t.drop j = [] := by simp [all]
    rw [next,onward,nothing,text]
    refine ⟨.between eof split,?_⟩
    simp only [nil_append,length_drop,length_append]
    omega
  · obtain ⟨open_,unconsumed,still⟩ := mid (by omega)
    have next : z.next taken = data.drop k := (if_neg (by simp [open_])).trans unconsumed
    rw [next,onward]
    refine ⟨.midway still split,?_⟩
    simp only [length_drop,length_append]
    omega

/-- One call: what it is given is padding, or it takes the stream on. -/
theorem Position.step {most : Nat} (h : Lawful z most Member Midway)
    (each : ∀ p ∈ members, Member p.1 p.2) {s : σ} {data later text : Bytes}
    (at_ : Position z Midway members n s (data++later) text) (some_ : data ≠ []) :
    (z.eof s = true ∧ data.all (· = 0) = true ∧ Position z Midway members n s later text) ∨
    ¬(z.eof s = true ∧ data.all (· = 0) = true) ∧
      ∃ taken text', z.decompress (if z.eof s then z.fresh else s) data most = .ok taken ∧
        taken.out++text' = text ∧ Position z Midway members n taken.state (z.next taken++later) text' ∧
        (z.next taken).length+text'.length < data.length+text.length := by
  generalize stream : data++later = whole at at_
  cases at_ with
  | midway here split =>
    have unfinished := (h.unfinished _ _ _ here).2
    refine .inr ⟨fun no => ?_,?_⟩
    · rw [unfinished] at no
      exact nomatch no.1
    · rw [unfinished]
      exact h.advance here split some_ stream
  | @between done rest ended split =>
    cases rest with
    | nil =>
      have stream : data++later = zeros n := stream
      obtain ⟨zero,later',short⟩ := zeros_split stream
      refine .inl ⟨ended,zero,?_⟩
      rw [later']
      exact .padded ended short
    | cons p rest =>
      obtain ⟨m,t⟩ := p
      have member : Member m t := each (m,t) (by simp [split])
      have stream : data++later = m++(packed rest++zeros n) := by
        simpa [packed] using stream
      refine .inr ⟨fun no => ?_,?_⟩
      · obtain ⟨b,m',rfl,nonzero⟩ := h.magic m t member
        cases data with
        | nil => exact some_ rfl
        | cons d ds =>
          have same : d = b := (List.cons.inj stream).1
          exact nonzero (same ▸ of_decide_eq_true (all_eq_true.1 no.2 d (by simp)))
      · rw [ended]
        have split' : members = (done++[(m,t)])++rest := by simp [split]
        exact h.advance (h.begins m t member) split' some_ stream
  | @padded k ended left =>
    obtain ⟨zero,later',short⟩ := zeros_split stream
    refine .inl ⟨ended,zero,?_⟩
    rw [later']
    exact .padded ended (Nat.le_trans short left)

/-- At the start of the stream. -/
theorem Position.start {most : Nat} (h : Lawful z most Member Midway)
    (each : ∀ p ∈ members, Member p.1 p.2) (some_ : members ≠ []) :
    Position z Midway members n z.fresh (packed members++zeros n) (texts members) := by
  cases members with
  | nil => exact absurd rfl some_
  | cons p rest =>
    have split : p::rest = [p]++rest := rfl
    have at_ : Position z Midway (p::rest) n z.fresh (p.1++(packed rest++zeros n)) (p.2++texts rest) :=
      .midway (h.begins p.1 p.2 (each p (by simp))) split
    simpa [packed,texts] using at_

/-- At the end of the stream the decompressor is at the end of a member and has given all the text. -/
theorem Position.finished {most : Nat} {Member : Bytes → Bytes → Prop} (h : Lawful z most Member Midway)
    (each : ∀ p ∈ members, Member p.1 p.2) {s : σ} {later text : Bytes}
    (at_ : Position z Midway members n s later text) (end_ : later = []) : z.eof s = true ∧ text = [] := by
  cases at_ with
  | midway here split =>
    exact absurd (append_eq_nil_iff.1 end_).1 (h.unfinished _ _ _ here).1
  | @between done rest ended split =>
    refine ⟨ended,?_⟩
    cases rest with
    | nil => rfl
    | cons p rest =>
      obtain ⟨b,m',hm,-⟩ := h.magic p.1 p.2 (each p (by simp [split]))
      simp [packed,hm] at end_
  | padded ended left => exact ⟨ended,rfl⟩

/-- Where the rest of a member is still to come, the decompressor is not at the end of one. -/
theorem Position.inside {most : Nat} (h : Lawful z most Member Midway)
    {done rest : List (Bytes × Bytes)} {part lost t text : Bytes} {s : σ}
    (split : members = done++(part++lost,t)::rest) (begun : part ≠ []) (cut : lost ≠ [])
    (at_ : Position z Midway members n s (lost++(packed rest++zeros n)) text) : z.eof s = false := by
  have begun := length_pos_iff.2 begun
  have cut := length_pos_iff.2 cut
  generalize stream : lost++(packed rest++zeros n) = whole at at_
  cases at_ with have length := congrArg List.length stream
  | midway here _ => exact (h.unfinished _ _ _ here).2
  | @between done' rest' ended split' =>
    simp only [length_append] at length
    obtain ⟨more,-,hrest⟩ | ⟨more,-,hrest⟩ := append_eq_append_iff.1 (split.symm.trans split')
    · -- the members left begin behind this one, or with it
      cases more with
      | nil =>
        have all := congrArg (fun l => (packed l).length) hrest
        simp only [packed,nil_append,flatMap_cons,length_append] at all length
        omega
      | cons q more =>
        have later : rest = more++rest' := (List.cons.inj hrest).2
        have all := congrArg (fun l => (packed l).length) later
        simp only [packed,flatMap_append,length_append] at all length
        omega
    · have all := congrArg (fun l => (packed l).length) hrest
      simp only [packed,flatMap_append,flatMap_cons,length_append] at all length
      omega
  | @padded k ended left =>
    simp only [length_append,zeros,length_replicate] at length
    omega

end GzipStream
