import CircuitBreaker.DumpScanned

/-! What the scan of a whole dump reports, for every way the dump is compressed, cut into blocks and given
out again in pieces. -/

namespace CircuitBreaker.DumpScanner
open ByteLines ChunkedLines GzipStream List

variable (wide : Char → Bool) {σ : Type}

structure Absorbed (s : Scanner σ) (text : GzipStream.Bytes) : Prop where
  inflated : s.inflatedBytes = text.length
  head : s.head = text.take dumpHeadWindow
  tail : s.tail = lastBytes dumpTailWindow text
  parser : s.parser = Parser.consumeAll wide {} (cutLines text).1
  parsing : s.parsing = !s.parser.seenAll
  pending : s.parsing = true → s.pending = (cutLines text).2

theorem Absorbed.start (inflate : σ) : Absorbed wide ({ inflate := inflate } : Scanner σ) [] :=
  ⟨rfl,rfl,rfl,rfl,rfl,fun _ => rfl⟩

theorem Absorbed.moved {s : Scanner σ} {text : GzipStream.Bytes} (h : Absorbed wide s text) (inflate : σ)
    (e : Option String) : Absorbed wide { s with inflate := inflate, streamError := e } text :=
  ⟨h.inflated,h.head,h.tail,h.parser,h.parsing,h.pending⟩

theorem absorb_kept (s : Scanner σ) (out : GzipStream.Bytes) :
    (s.absorb wide out).inflate = s.inflate ∧ (s.absorb wide out).streamError = s.streamError := by
  unfold Scanner.absorb
  split
  case isTrue => exact ⟨rfl,rfl⟩
  case isFalse =>
    dsimp only
    split
    case isTrue =>
      unfold Scanner.readLines
      dsimp only
      split <;> exact ⟨rfl,rfl⟩
    case isFalse => exact ⟨rfl,rfl⟩

theorem Absorbed.absorb {s : Scanner σ} {text : GzipStream.Bytes} (h : Absorbed wide s text)
    (out : GzipStream.Bytes) : Absorbed wide (s.absorb wide out) (text++out) := by
  unfold Scanner.absorb
  by_cases empty : out = []
  · rw [if_pos empty,empty,append_nil]
    exact h
  have inflated : s.inflatedBytes+out.length = (text++out).length := by
    rw [h.inflated,length_append]
  have head : grow dumpHeadWindow s.head out = (text++out).take dumpHeadWindow := by
    rw [h.head,grow_take]
  have tail : lastBytes dumpTailWindow (s.tail++out) = lastBytes dumpTailWindow (text++out) := by
    rw [h.tail,lastBytes_append]
  rw [if_neg empty]
  dsimp only
  have cut := cutLines_append text out
  have first : Parser.seenAll {} = false := rfl
  have lines : Parser.consumeAll wide {} (cutLines (text++out)).1 =
      if s.parser.seenAll then s.parser
      else s.parser.consumeAll wide (cutLines ((cutLines text).2++out)).1 := by
    rw [cut,consumeAll_append wide first,←h.parser]
  split
  case isTrue parsing =>
    have more : s.parser.seenAll = false := by
      have now := h.parsing
      rw [parsing] at now
      exact Bool.not_eq_true' _ ▸ now.symm
    rw [if_neg (by simp [more]),←h.pending parsing] at lines
    have rest : (cutLines (text++out)).2 = (cutLines (s.pending++out)).2 := by
      rw [cut,h.pending parsing]
    unfold Scanner.readLines
    dsimp only
    by_cases all : (s.parser.consumeAll wide (cutLines (s.pending++out)).1).seenAll = true
    · rw [if_pos all]
      exact ⟨inflated,head,by dsimp only; exact tail,lines.symm,by simp [all],nofun⟩
    · rw [if_neg all]
      exact ⟨inflated,head,by dsimp only; exact tail,lines.symm,by simp [all,parsing],fun _ => rest.symm⟩
  case isFalse parsing =>
    have full : s.parser.seenAll = true := by
      have now := h.parsing
      simp only [Bool.not_eq_true] at parsing
      simpa [parsing] using now
    rw [if_pos full] at lines
    exact ⟨inflated,head,by dsimp only; exact tail,lines.symm,h.parsing,fun yes => absurd yes parsing⟩

variable {z : Decompressor σ} {Member : GzipStream.Bytes → GzipStream.Bytes → Prop}
  {Midway : σ → GzipStream.Bytes → GzipStream.Bytes → Prop}
  {members : List (GzipStream.Bytes × GzipStream.Bytes)} {n : Nat}

/-- Where a scan stands that has gone well so far: what is to come of the stream, and of the text. -/
structure Going (z : Decompressor σ) (Midway : σ → GzipStream.Bytes → GzipStream.Bytes → Prop)
    (members : List (GzipStream.Bytes × GzipStream.Bytes)) (n : Nat) (whole : GzipStream.Bytes)
    (s : Scanner σ) (later : GzipStream.Bytes) : Prop where
  healthy : s.streamError = none
  ex : ∃ text rest, whole = text++rest ∧ Absorbed wide s text ∧
    Position z Midway members n s.inflate later rest

theorem Going.feedFrom (lawful : Lawful z inflateChunk Member Midway)
    (each : ∀ p ∈ members, Member p.1 p.2) {whole later : GzipStream.Bytes} {fuel : Nat} :
    ∀ {s : Scanner σ} {data text rest : GzipStream.Bytes}, s.streamError = none → whole = text++rest →
      Absorbed wide s text → Position z Midway members n s.inflate (data++later) rest →
      data.length+rest.length < fuel →
        ∃ t, feedFrom wide z fuel s data = some t ∧ Going wide z Midway members n whole t later := by
  induction fuel with
  | zero => exact fun _ _ _ _ no => absurd no (Nat.not_lt_zero _)
  | succ fuel ih =>
    intro s data text rest healthy split absorbed at_ enough
    cases data with
    | nil => exact ⟨s,rfl,healthy,text,rest,split,absorbed,at_⟩
    | cons b bs =>
      obtain ⟨ended,zero,onward⟩ | ⟨goes,taken,rest',call,out,onward,shorter⟩ :=
        at_.step lawful each (by simp)
      · refine ⟨s,?_,healthy,text,rest,split,absorbed,onward⟩
        unfold DumpScanner.feedFrom
        exact if_pos ⟨ended,zero⟩
      · have result : DumpScanner.feedFrom wide z (fuel+1) s (b::bs) =
            DumpScanner.feedFrom wide z fuel
              (Scanner.absorb wide { s with inflate := taken.state } taken.out) (z.next taken) := by
          rw [DumpScanner.feedFrom,if_neg goes]
          dsimp only
          rw [call]
        obtain ⟨inflate,error⟩ := absorb_kept wide { s with inflate := taken.state } taken.out
        rw [result]
        have split' : whole = (text++taken.out)++rest' := by
          rw [append_assoc,out,split]
        refine ih (error.trans healthy) split' ?_ (inflate.symm ▸ onward) (by omega)
        exact Absorbed.absorb wide (absorbed.moved wide taken.state s.streamError) taken.out

theorem Going.feedAll (lawful : Lawful z inflateChunk Member Midway)
    (each : ∀ p ∈ members, Member p.1 p.2) {whole later : GzipStream.Bytes} {fuel : Nat}
    {blocks : List GzipStream.Bytes} (enough : blocks.flatten.length+whole.length < fuel) :
    ∀ {s : Scanner σ}, Going wide z Midway members n whole s (blocks.flatten++later) →
      ∃ t, feedAll wide z fuel s blocks = some t ∧ Going wide z Midway members n whole t later := by
  induction blocks with
  | nil => exact fun h => ⟨_,rfl,h⟩
  | cons block blocks ih =>
    intro s h
    obtain ⟨healthy,text,rest,split,absorbed,at_⟩ := h
    rw [flatten_cons,length_append] at enough
    rw [flatten_cons,append_assoc] at at_
    have short : rest.length ≤ whole.length := by
      rw [split,length_append]
      exact Nat.le_add_left _ _
    obtain ⟨t,fed,going⟩ :=
      Going.feedFrom wide lawful each healthy split absorbed at_ (by omega : _ < fuel)
    obtain ⟨u,rest_,done⟩ := ih (by omega) going
    refine ⟨u,?_,done⟩
    rw [DumpScanner.feedAll,feed,healthy]
    simp only [Option.isSome_none,Bool.false_eq_true,if_false,fed,Option.bind_some]
    exact rest_

/-- What a decompressor does with one such member, as long as its text fits into one piece. -/
def storedMember (m t : GzipStream.Bytes) : Decompressor Nat where
  fresh := 0
  eof s := s = m.length
  decompress s data _ :=
    let k := min data.length (m.length-s)
    if data.take k = (m.drop s).take k then
      .ok ⟨s+k,(t.drop (s-15)).take (s+k-15-(s-15)),data.drop k,data.drop k⟩
    else .error "Error -3 while decompressing data"

theorem storedMember_lawful {m t : GzipStream.Bytes} {most : Nat} (magic : ∃ b m', m = b::m' ∧ b ≠ 0)
    (room : t.length+15 ≤ m.length) :
    Lawful (storedMember m t) most (fun m' t' => m' = m ∧ t' = t)
      (fun s r x => s < m.length ∧ r = m.drop s ∧ x = t.drop (s-15)) := by
  refine ⟨?_,?_,?_,?_⟩
  · rintro m' t' ⟨rfl,-⟩
    exact magic
  · rintro m' t' ⟨rfl,rfl⟩
    exact ⟨show 0 < m'.length by omega,rfl,rfl⟩
  · rintro s r x ⟨inside,rfl,-⟩
    refine ⟨fun no => ?_,decide_eq_false (by omega)⟩
    have length := congrArg List.length no
    simp only [length_drop,length_nil] at length
    omega
  · rintro s r x data ⟨inside,rfl,rfl⟩ some_ compatible
    have positive := length_pos_iff.2 some_
    have agrees : data.take (min data.length (m.length-s)) =
        (m.drop s).take (min data.length (m.length-s)) := by
      obtain ⟨more,h⟩ | ⟨more,h⟩ := compatible
      · rw [←h,take_append_of_le_length (Nat.min_le_left _ _)]
      · rw [←h,take_append_of_le_length (by simp)]
    refine ⟨_,if_pos agrees,min data.length (m.length-s),
      min (s+min data.length (m.length-s)-15-(s-15)) (t.drop (s-15)).length,Nat.min_le_left _ _,
      by simp only [length_drop]; omega,Nat.min_le_right _ _,by omega,?_,fun short => ?_,fun whole => ?_⟩
    · exact take_eq_take_min
    · simp only [length_drop] at short
      refine ⟨decide_eq_false (by dsimp only; omega),rfl,by dsimp only; omega,?_,?_⟩
      · exact drop_drop
      · rw [drop_drop]
        by_cases fits : s+min data.length (m.length-s)-15-(s-15) ≤ (t.drop (s-15)).length
        · rw [Nat.min_eq_left fits]
          congr 1
          dsimp only
          omega
        · rw [Nat.min_eq_right (by omega)]
          simp only [length_drop] at fits ⊢
          rw [drop_eq_nil_of_le (by omega),drop_eq_nil_of_le (by omega)]
    · simp only [length_drop] at whole
      refine ⟨decide_eq_true (by dsimp only; omega),rfl,?_⟩
      simp only [length_drop]
      omega

def smallDump : List Item :=
  [.block ⟨ascii "COPY public.app_settings (id, vault_key_hash) FROM stdin;".toList,[ascii "1\tabc".toList]⟩]

def smallMember : GzipStream.Bytes :=
  [31,139,8,0,0,0,0,0,0,3,1,67,0,188,255]++dumpText true smallDump++[97,195,157,212,67,0,0,0]

end CircuitBreaker.DumpScanner
