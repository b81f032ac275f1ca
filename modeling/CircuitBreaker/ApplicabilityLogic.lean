import CircuitBreaker.CveMatching
import Mathlib.Data.Bool.Basic
import Mathlib.Data.List.Forall2
import Mathlib.Order.Basic

/-! What a truth value of `evaluate_applicability` (intelligence/cve_matching.py) promises: every
way to settle what is unknown comes out so. -/

namespace CircuitBreaker.ApplicabilityLogic
open CveMatching List

/-- A configuration as the feed has it; `evaluate_applicability` does not look at its `negate`. -/
structure NvdConfiguration extends Configuration where
  negate : Bool := false

/-- The truth value is settled as a Boolean, an unknown one as either. -/
def Admits (t : Truth) (b : Bool) : Prop := (t = .yes → b = true) ∧ (t = .no → b = false)

/-- `AND` or `OR` of two values. -/
def join (conj : Bool) (bs : List Bool) : Bool := if conj then bs.all id else bs.any id

/-! Version numbers, with zeros after their last one. -/

def Below (left right : List Nat) : Prop :=
  ∃ i, (∀ j < i, left.getD j 0 = right.getD j 0) ∧ left.getD i 0 < right.getD i 0

/-- What a match asks of a version: to be another one, or to be within a bound. -/
inductive Requirement where
  | exactly (version : Text)
  | bound (b : Bound)

def Requirement.text : Requirement → Text
  | .exactly version => version
  | .bound b => b.value

def Requirement.Holds (version stated : List Nat) : Requirement → Prop
  | .exactly _ => ¬Below version stated ∧ ¬Below stated version
  | .bound ⟨_,false,false⟩ => ¬Below version stated
  | .bound ⟨_,false,true⟩ => Below stated version
  | .bound ⟨_,true,false⟩ => ¬Below stated version
  | .bound ⟨_,true,true⟩ => Below version stated

section
variable (u : Tables)

/-- `AND` in any letter case; every other operator is `OR`. -/
def isAnd (operator : Text) : Bool := (orOr operator).flatMap u.upper = "AND".toList

section
variable (leaf : CpeMatch → Truth)

mutual
/-- The values a node can have, each unknown leaf and each empty node settled on its own. -/
def nodeOutcome : Node → Bool → Prop
  | .node operator negate cpeMatch children, b =>
    (cpeMatch = [] ∧ children = []) ∨
      ((cpeMatch ≠ [] ∨ children ≠ []) ∧ ∃ bs cs, List.Forall₂ (fun m => Admits (leaf m)) cpeMatch bs ∧
        nodesOutcome children cs ∧ b = (negate ^^ join (isAnd u operator) (bs++cs)))
def nodesOutcome : List Node → List Bool → Prop
  | [],bs => bs = []
  | node::rest,bs => ∃ b cs, bs = b::cs ∧ nodeOutcome node b ∧ nodesOutcome rest cs
end

def configurationOutcome (config : NvdConfiguration) (b : Bool) : Prop :=
  config.nodes = [] ∨ (config.nodes ≠ [] ∧ ∃ bs, nodesOutcome u leaf config.nodes bs ∧
      b = (config.negate ^^ join (isAnd u config.operator) bs))

def treeOutcome (configs : List NvdConfiguration) (b : Bool) : Prop :=
  ∃ bs, List.Forall₂ (configurationOutcome u leaf) configs bs ∧ b = join false bs

end

variable (identity : AssessmentIdentity)

def leafTruth (m : CpeMatch) : Truth := (evaluateCpe u identity m).result

def verdict (configs : List NvdConfiguration) : Truth :=
  (evaluateApplicability u (configs.map (·.toConfiguration)) identity).result

/-- True is said when all outcomes are true, false when all are false. -/
def Sound (configs : List NvdConfiguration) : Prop :=
  ∀ b, treeOutcome u (leafTruth u identity) configs b → Admits (verdict u identity configs) b

def NamesProduct (m : CpeMatch) : Prop :=
  let parsed := parseCpe u m.criteria
  (u.casefold (parsed.vendor.getD []) = [] ∨
    u.casefold (parsed.vendor.getD []) = u.casefold (identity.vendor.getD [])) ∧
  (u.casefold (parsed.product.getD []) = [] ∨
    u.casefold (parsed.product.getD []) = u.casefold (identity.product.getD []))

def requirements (m : CpeMatch) : List Requirement :=
  match (parseCpe u m.criteria).version.filter (· ≠ ['-']) with
  | some version => [.exactly version]
  | none => (m.bounds.filter (·.value ≠ [])).map .bound

def Measured (q : Requirement) (version stated : List Nat) : Prop :=
  identity.versionScheme = some .dottedNumeric ∧
    identity.version.bind (versionParts u) = some version ∧ versionParts u q.text = some stated

def Comparable (q : Requirement) : Prop := ∃ l r, Measured u identity q l r
def Met (q : Requirement) : Prop := ∃ l r, Measured u identity q l r ∧ q.Holds l r
def Broken (q : Requirement) : Prop := ∃ l r, Measured u identity q l r ∧ ¬q.Holds l r

/-- A leaf is true when all is met, false when something is broken and all can be compared, and
unknown else. -/
def LeafLaw (m : CpeMatch) : Prop :=
  let all := ∀ q ∈ requirements u m, Met u identity q
  let some_ := (∀ q ∈ requirements u m, Comparable u identity q) ∧
    ∃ q ∈ requirements u m, Broken u identity q
  (leafTruth u identity m = .yes ↔ all) ∧ (leafTruth u identity m = .no ↔ some_) ∧
    (leafTruth u identity m = .unknown ↔ ¬all ∧ ¬some_)

/-- A broken bound comes before one that cannot be compared, and only met ones before it. -/
def CutShort (m : CpeMatch) : Prop :=
  ∃ before q after, requirements u m = before++q::after ∧ (∀ p ∈ before, Met u identity p) ∧
    Broken u identity q ∧ ∃ p ∈ after, ¬Comparable u identity p

end

mutual
def nodeLeaves : Node → List CpeMatch
  | .node _ _ cpeMatch children => cpeMatch++nodesLeaves children
def nodesLeaves : List Node → List CpeMatch
  | [] => []
  | node::rest => nodeLeaves node++nodesLeaves rest
end

section
variable (u : Tables) (identity : AssessmentIdentity)

/-- The tree is sound and its leaves for the product are as they should be. -/
structure Lawful (configs : List NvdConfiguration) : Prop where
  sound : Sound u identity configs
  leaves : ∀ config ∈ configs, ∀ m ∈ nodesLeaves config.nodes, NamesProduct u identity m →
    LeafLaw u identity m

def nodeTruths (config : NvdConfiguration) : List Truth :=
  (evaluateNodes u (evaluateCpe u identity) config.nodes).map MatchEvidence.result

def written (config : NvdConfiguration) : Truth :=
  combine (nodeTruths u identity config) (orOr config.operator)

/-- What they come to when the operator and the `negate` are read as those of a node are. -/
def intended (config : NvdConfiguration) : Truth :=
  let result := combine (nodeTruths u identity config) ((orOr config.operator).flatMap u.upper)
  if config.negate then result.negate else result

/-- A true configuration makes the tree true, and only false ones make it false, when their
operators and `negate` are read as those of a node are. -/
structure Decided (configs : List NvdConfiguration) : Prop where
  yes : (∃ config ∈ configs, written u identity config = .yes) →
    ∃ config ∈ configs, intended u identity config = .yes
  no : (∀ config ∈ configs, written u identity config = .no) →
    ∀ config ∈ configs, intended u identity config = .no

def Uncut (config : NvdConfiguration) : Prop :=
  ∀ m ∈ nodesLeaves config.nodes, NamesProduct u identity m → ¬CutShort u identity m

end

/-! Three truth values as the intervals of two. -/

def low (t : Truth) : Bool := t = .yes
def high (t : Truth) : Bool := t ≠ .no

theorem admits_iff {t : Truth} {b : Bool} : Admits t b ↔ low t ≤ b ∧ b ≤ high t := by
  cases t <;> cases b <;> simp [Admits,low,high]

theorem low_le_high (t : Truth) : low t ≤ high t := by cases t <;> decide

theorem admits_low (t : Truth) : Admits t (low t) := admits_iff.2 ⟨le_refl _,low_le_high t⟩
theorem admits_high (t : Truth) : Admits t (high t) := admits_iff.2 ⟨low_le_high t,le_refl _⟩

variable {bs : List Bool}

theorem join_mono {conj : Bool} {as : List Bool} (h : List.Forall₂ (· ≤ ·) as bs) :
    join conj as ≤ join conj bs := by
  induction h with
  | nil => exact le_refl _
  | @cons a b as bs hab _ ih =>
    cases conj with
    | true =>
      have ih : as.all id ≤ bs.all id := ih
      have step : (a && as.all id) ≤ (b && bs.all id) := by
        cases a <;> cases b <;> cases has : as.all id <;> cases hbs : bs.all id <;> simp_all
      exact step
    | false =>
      have ih : as.any id ≤ bs.any id := ih
      have step : (a || as.any id) ≤ (b || bs.any id) := by
        cases a <;> cases b <;> cases has : as.any id <;> cases hbs : bs.any id <;> simp_all
      exact step

variable {ts : List Truth}

theorem all_yes : (∀ t ∈ ts, t = .yes) ↔ .no ∉ ts ∧ .unknown ∉ ts := by
  constructor
  · exact fun h => ⟨(fun hin => Truth.noConfusion (h _ hin)),fun hin => Truth.noConfusion (h _ hin)⟩
  · rintro ⟨no,unknown⟩ t ht
    cases t with
    | yes => rfl
    | no => exact absurd ht no
    | unknown => exact absurd ht unknown

theorem combine_and_yes (h : ts ≠ []) :
    combine ts "AND".toList = .yes ↔ ∀ t ∈ ts, t = .yes := by
  rw [combine,if_neg h,if_pos rfl,all_yes]
  by_cases no : .no ∈ ts
  · simp [no]
  · by_cases unknown : .unknown ∈ ts
    · simp [no,unknown]
    · simp [no,unknown]

theorem combine_and_no (h : ts ≠ []) :
    combine ts "AND".toList = .no ↔ .no ∈ ts := by
  rw [combine,if_neg h,if_pos rfl]
  by_cases no : .no ∈ ts
  · simp [no]
  · by_cases unknown : .unknown ∈ ts
    · simp [no,unknown]
    · simp [no,unknown]

theorem combine_or_yes {operator : Text} (h : ts ≠ [])
    (ho : operator ≠ "AND".toList) : combine ts operator = .yes ↔ .yes ∈ ts := by
  rw [combine,if_neg h,if_neg ho]
  by_cases yes : .yes ∈ ts
  · simp [yes]
  · by_cases unknown : .unknown ∈ ts
    · simp [yes,unknown]
    · simp [yes,unknown]

theorem combine_or_no {operator : Text} (h : ts ≠ [])
    (ho : operator ≠ "AND".toList) : combine ts operator = .no ↔ ∀ t ∈ ts, t = .no := by
  have all_no : (∀ t ∈ ts, t = .no) ↔ .yes ∉ ts ∧ .unknown ∉ ts := by
    constructor
    · exact fun h => ⟨(fun hin => Truth.noConfusion (h _ hin)),fun hin => Truth.noConfusion (h _ hin)⟩
    · rintro ⟨yes,unknown⟩ t ht
      cases t with
      | yes => exact absurd ht yes
      | no => rfl
      | unknown => exact absurd ht unknown
  rw [combine,if_neg h,if_neg ho,all_no]
  by_cases yes : .yes ∈ ts
  · simp [yes]
  · by_cases unknown : .unknown ∈ ts
    · simp [yes,unknown]
    · simp [yes,unknown]

theorem low_combine (h : ts ≠ []) (operator : Text) :
    low (combine ts operator) = join (operator = "AND".toList) (ts.map low) := by
  rw [Bool.eq_iff_iff,low,decide_eq_true_eq]
  by_cases ho : operator = "AND".toList
  · subst ho
    rw [combine_and_yes h]
    simp [join,low]
  · rw [combine_or_yes h ho,decide_eq_false ho]
    simp [join,low]

theorem high_combine (h : ts ≠ []) (operator : Text) :
    high (combine ts operator) = join (operator = "AND".toList) (ts.map high) := by
  rw [Bool.eq_iff_iff,high,decide_eq_true_eq]
  by_cases ho : operator = "AND".toList
  · subst ho
    rw [Ne,combine_and_no h]
    simp only [join,decide_true,if_true,all_map,all_eq_true,Function.comp_apply,id,high,
      decide_eq_true_eq]
    exact ⟨fun no t ht he => no (he ▸ ht),fun all hin => all _ hin rfl⟩
  · rw [Ne,combine_or_no h ho,decide_eq_false ho]
    simp [join,high]

theorem forall₂_between (h : List.Forall₂ Admits ts bs) :
    List.Forall₂ (· ≤ ·) (ts.map low) bs ∧ List.Forall₂ (· ≤ ·) bs (ts.map high) := by
  induction h with
  | nil => exact ⟨.nil,.nil⟩
  | cons hab _ ih => exact ⟨.cons (admits_iff.1 hab).1 ih.1,.cons (admits_iff.1 hab).2 ih.2⟩

theorem forall₂_map {f : Truth → Bool} (hf : ∀ t, Admits t (f t)) (ts : List Truth) :
    List.Forall₂ Admits ts (ts.map f) := by
  induction ts with
  | nil => exact .nil
  | cons t rest ih => exact .cons (hf t) ih

theorem between {a b c : Bool} (hab : a ≤ b) (hbc : b ≤ c) : b = a ∨ b = c := by
  revert a b c
  decide

theorem admits_combine (h : ts ≠ []) (operator : Text) (b : Bool) :
    (∃ bs, List.Forall₂ Admits ts bs ∧ b = join (operator = "AND".toList) bs) ↔
      Admits (combine ts operator) b := by
  rw [admits_iff,low_combine h,high_combine h]
  constructor
  · rintro ⟨bs,hbs,rfl⟩
    exact ⟨join_mono (forall₂_between hbs).1,join_mono (forall₂_between hbs).2⟩
  · rintro ⟨least,greatest⟩
    have ends : b = join (operator = "AND".toList) (ts.map low) ∨
        b = join (operator = "AND".toList) (ts.map high) := between least greatest
    rcases ends with rfl | rfl
    · exact ⟨_,forall₂_map admits_low ts,rfl⟩
    · exact ⟨_,forall₂_map admits_high ts,rfl⟩

theorem admits_negate (t : Truth) (negate b : Bool) :
    Admits (if negate then t.negate else t) b ↔ Admits t (negate ^^ b) := by
  cases negate <;> cases t <;> cases b <;> simp [Admits,Truth.negate]

theorem admits_unknown (b : Bool) : Admits .unknown b := ⟨nofun,nofun⟩

theorem forall₂_append_left {ts' : List Truth} :
    List.Forall₂ Admits (ts++ts') bs ↔ ∃ cs ds, List.Forall₂ Admits ts cs ∧
      List.Forall₂ Admits ts' ds ∧ bs = cs++ds := by
  constructor
  · induction ts generalizing bs with
    | nil => exact fun h => ⟨[],bs,.nil,h,rfl⟩
    | cons t rest ih =>
      intro h
      cases h with
      | @cons _ b _ bs hb hbs =>
        obtain ⟨cs,ds,hcs,hds,rfl⟩ := ih hbs
        exact ⟨b::cs,ds,.cons hb hcs,hds,rfl⟩
  · rintro ⟨cs,ds,hcs,hds,rfl⟩
    exact rel_append hcs hds

section
variable {u : Tables} {leaf : CpeMatch → MatchEvidence}

theorem evaluateNodes_eq (nodes : List Node) :
    evaluateNodes u leaf nodes = nodes.map (evaluateNode u leaf) := by
  induction nodes with
  | nil => rfl
  | cons node rest ih => rw [evaluateNodes,ih,map_cons]

mutual
theorem nodeOutcome_iff : ∀ (node : Node) (b : Bool),
    nodeOutcome u (fun m => (leaf m).result) node b ↔ Admits (evaluateNode u leaf node).result b
  | .node operator negate cpeMatch children, b => by
    rw [nodeOutcome,evaluateNode]
    simp only [gather,map_append,map_map]
    rw [admits_negate]
    by_cases empty : cpeMatch = [] ∧ children = []
    · obtain ⟨rfl,rfl⟩ := empty
      simp [evaluateNodes,combine,admits_unknown]
    · have parts : cpeMatch.map (MatchEvidence.result ∘ leaf)++
          (evaluateNodes u leaf children).map MatchEvidence.result ≠ [] := by
        rw [evaluateNodes_eq]
        simpa using empty
      have filled : cpeMatch ≠ [] ∨ children ≠ [] := by
        by_cases none_left : cpeMatch = []
        · exact .inr fun none_below => empty ⟨none_left,none_below⟩
        · exact .inl none_left
      rw [←admits_combine parts]
      constructor
      · rintro (absurd_ | ⟨-,bs,cs,hbs,hcs,rfl⟩)
        · exact absurd absurd_ empty
        · refine ⟨bs++cs,forall₂_append_left.2 ⟨bs,cs,forall₂_map_left_iff.2 hbs,
            (nodesOutcome_iff children cs).1 hcs,rfl⟩,?_⟩
          rw [←Bool.xor_assoc,Bool.xor_self,Bool.false_xor,isAnd]
      · rintro ⟨_,hall,he⟩
        obtain ⟨bs,cs,hbs,hcs,rfl⟩ := forall₂_append_left.1 hall
        refine .inr ⟨filled,bs,cs,forall₂_map_left_iff.1 hbs,
          (nodesOutcome_iff children cs).2 hcs,?_⟩
        rw [isAnd,←he,←Bool.xor_assoc,Bool.xor_self,Bool.false_xor]
theorem nodesOutcome_iff : ∀ (nodes : List Node) (bs : List Bool),
    nodesOutcome u (fun m => (leaf m).result) nodes bs ↔
      List.Forall₂ Admits ((evaluateNodes u leaf nodes).map MatchEvidence.result) bs
  | [],bs => by
    simp [nodesOutcome,evaluateNodes]
  | node::rest,bs => by
    rw [nodesOutcome,evaluateNodes,map_cons]
    constructor
    · rintro ⟨b,cs,rfl,hb,hcs⟩
      exact .cons ((nodeOutcome_iff node b).1 hb) ((nodesOutcome_iff rest cs).1 hcs)
    · intro h
      cases h with
      | @cons _ b _ cs hb hcs =>
        exact ⟨b,cs,rfl,(nodeOutcome_iff node b).2 hb,(nodesOutcome_iff rest cs).2 hcs⟩
end

end

section
variable {u : Tables} {identity : AssessmentIdentity}

theorem nodeTruths_eq_nil {config : NvdConfiguration} :
    nodeTruths u identity config = [] ↔ config.nodes = [] := by
  rw [nodeTruths,evaluateNodes_eq,map_map,map_eq_nil_iff]

theorem configurationOutcome_iff (config : NvdConfiguration) (b : Bool) :
    configurationOutcome u (leafTruth u identity) config b ↔ Admits (intended u identity config) b := by
  have nodes : ∀ bs, nodesOutcome u (leafTruth u identity) config.nodes bs ↔
      List.Forall₂ Admits (nodeTruths u identity config) bs := nodesOutcome_iff config.nodes
  rw [configurationOutcome,intended,admits_negate]
  by_cases empty : config.nodes = []
  · rw [nodeTruths_eq_nil.2 empty]
    simp [empty,combine,admits_unknown]
  · rw [←admits_combine (fun h => empty (nodeTruths_eq_nil.1 h))]
    simp only [empty,false_or,ne_eq,not_false_eq_true,true_and,nodes]
    refine exists_congr fun bs => and_congr_right fun _ => ?_
    rw [isAnd]
    constructor
    · rintro rfl
      rw [←Bool.xor_assoc,Bool.xor_self,Bool.false_xor]
    · intro he
      rw [←he,←Bool.xor_assoc,Bool.xor_self,Bool.false_xor]

variable {configs : List NvdConfiguration}

theorem treeOutcome_iff (h : configs ≠ []) (b : Bool) :
    treeOutcome u (leafTruth u identity) configs b ↔
      Admits (combine (configs.map (intended u identity)) "OR".toList) b := by
  have parts : configs.map (intended u identity) ≠ [] := fun he => h (map_eq_nil_iff.1 he)
  have plain : decide ("OR".toList = "AND".toList) = false := by decide
  rw [←admits_combine parts,treeOutcome,plain]
  refine exists_congr fun bs => and_congr_left fun _ => ?_
  rw [forall₂_map_left_iff]
  have same : configurationOutcome u (leafTruth u identity) = fun c b =>
      Admits (intended u identity c) b := by
    funext c b
    exact propext (configurationOutcome_iff c b)
  rw [same]

theorem verdict_eq (configs : List NvdConfiguration) :
    verdict u identity configs = combine (configs.map (written u identity)) "OR".toList := by
  simp only [verdict,evaluateApplicability,gather,map_map]
  rfl

theorem admits_all {t t' : Truth} :
    (∀ b, Admits t b → Admits t' b) ↔ t' = .unknown ∨ t' = t := by
  constructor
  · intro h
    have lowest := h _ (admits_low t)
    have highest := h _ (admits_high t)
    cases t <;> cases t' <;> simp_all [Admits,low,high]
  · rintro (rfl | rfl) b hb
    · exact admits_unknown b
    · exact hb

theorem sound_iff :
    Sound u identity configs ↔ Decided u identity configs := by
  by_cases empty : configs = []
  · subst empty
    refine iff_of_true (fun b _ => admits_unknown b) ⟨?_,fun _ _ => nofun⟩
    rintro ⟨_,hc,-⟩
    cases hc
  · have plain : "OR".toList ≠ "AND".toList := by decide
    have right : configs.map (intended u identity) ≠ [] := fun he => empty (map_eq_nil_iff.1 he)
    have said : configs.map (written u identity) ≠ [] := fun he => empty (map_eq_nil_iff.1 he)
    have all_no : ∀ f : NvdConfiguration → Truth, (∀ t ∈ configs.map f, t = .no) ↔
        ∀ config ∈ configs, f config = .no := fun f => forall_mem_map
    have some_yes : ∀ f : NvdConfiguration → Truth, .yes ∈ configs.map f ↔
        ∃ config ∈ configs, f config = .yes := fun f => mem_map
    simp only [Sound,treeOutcome_iff empty,verdict_eq]
    rw [admits_all]
    cases hv : combine (configs.map (written u identity)) "OR".toList with
    | unknown =>
      refine iff_of_true (.inl rfl) ⟨fun hy => ?_,fun hn => ?_⟩
      · rw [(combine_or_yes said plain).2 ((some_yes _).2 hy)] at hv
        cases hv
      · rw [(combine_or_no said plain).2 ((all_no _).2 hn)] at hv
        cases hv
    | yes =>
      have hy := (some_yes _).1 ((combine_or_yes said plain).1 hv)
      constructor
      · rintro (hu | he)
        · cases hu
        · refine ⟨fun _ => (some_yes _).1 ((combine_or_yes right plain).1 he.symm),fun hn => ?_⟩
          obtain ⟨config,hc,hw⟩ := hy
          rw [hn config hc] at hw
          cases hw
      · exact fun h => .inr ((combine_or_yes right plain).2 ((some_yes _).2 (h.yes hy))).symm
    | no =>
      have hn := (all_no _).1 ((combine_or_no said plain).1 hv)
      constructor
      · rintro (hu | he)
        · cases hu
        · refine ⟨?_,fun _ => (all_no _).1 ((combine_or_no right plain).1 he.symm)⟩
          rintro ⟨config,hc,hw⟩
          rw [hn config hc] at hw
          cases hw
      · exact fun h => .inr ((combine_or_no right plain).2 ((all_no _).2 (h.no hn))).symm

end

/-! The leaves. -/

theorem getD_padded (width : Nat) (ns : List Nat) (i : Nat) :
    (padded width ns).getD i 0 = ns.getD i 0 := by
  rw [padded,getD_eq_getElem?_getD,getD_eq_getElem?_getD]
  by_cases hi : i < ns.length
  · rw [getElem?_append_left hi]
  · have past : ns.length ≤ i := not_lt.1 hi
    rw [getElem?_append_right past,getElem?_eq_none past,getElem?_replicate]
    by_cases within : i-ns.length < width-ns.length
    · rw [if_pos within]
      rfl
    · rw [if_neg within]

theorem lt_iff_below {l r : List Nat} (h : l.length = r.length) : l < r ↔ Below l r := by
  induction l generalizing r with
  | nil =>
    cases r with
    | nil => simp [Below]
    | cons => cases h
  | cons a l ih =>
    cases r with
    | nil => cases h
    | cons b r =>
      rw [cons_lt_cons_iff,ih (Nat.succ.inj h)]
      constructor
      · rintro (lt | ⟨rfl,i,hi,lt⟩)
        · exact ⟨0,nofun,lt⟩
        · refine ⟨i+1,fun j hj => ?_,lt⟩
          cases j with
          | zero => rfl
          | succ j => exact hi j (Nat.lt_of_succ_lt_succ hj)
      · rintro ⟨i,hi,lt⟩
        cases i with
        | zero => exact .inl lt
        | succ i =>
          exact .inr ⟨hi 0 (Nat.succ_pos i),i,fun j hj => hi (j+1) (Nat.succ_lt_succ hj),lt⟩

theorem padded_lt_iff {width : Nat} {l r : List Nat} (hl : l.length ≤ width)
    (hr : r.length ≤ width) : padded width l < padded width r ↔ Below l r := by
  have same : (padded width l).length = (padded width r).length := by
    simp only [padded,length_append,length_replicate]
    omega
  rw [lt_iff_below same]
  simp only [Below,getD_padded]

section
variable {u : Tables} {identity : AssessmentIdentity}

variable {q : Requirement}

variable {l r : List Nat} {b : Bound} {rest : List Bound} {v : VersionResult}

theorem compareVersions_measured (h : Measured u identity q l r) : ∃ o,
      compareVersions u identity.versionScheme identity.version (some q.text) = some o ∧
        (o = .lt ↔ Below l r) ∧ (o = .gt ↔ Below r l) ∧ (o = .eq ↔ ¬Below l r ∧ ¬Below r l) := by
  obtain ⟨scheme,version,stated⟩ := h
  obtain ⟨candidate,hc,version⟩ := Option.bind_eq_some_iff.1 version
  have less := padded_lt_iff (le_max_left l.length r.length) (le_max_right l.length r.length)
  have more := padded_lt_iff (le_max_right l.length r.length) (le_max_left l.length r.length)
  simp only [compareVersions,scheme,hc,version,stated]
  refine ⟨_,rfl,?_⟩
  by_cases hl : Below l r
  · have not_more : ¬Below r l := fun hr => lt_asymm (less.2 hl) (more.2 hr)
    simp [less.2 hl,hl,not_more]
  · have not_less : ¬padded (max l.length r.length) l < padded (max l.length r.length) r :=
      fun h => hl (less.1 h)
    by_cases hr : Below r l
    · simp [not_less,more.2 hr,hl,hr]
    · have not_more : ¬padded (max l.length r.length) r < padded (max l.length r.length) l :=
        fun h => hr (more.1 h)
      simp [not_less,not_more,hl,hr]

theorem compareVersions_none (h : ¬Comparable u identity q) :
    compareVersions u identity.versionScheme identity.version (some q.text) = none := by
  cases hs : identity.versionScheme with
  | none => rfl
  | some scheme =>
    cases scheme with
    | dottedNumeric =>
      cases hv : identity.version with
      | none => rfl
      | some candidate =>
        cases hl : versionParts u candidate with
        | none => simp [compareVersions,hl]
        | some l =>
          cases hr : versionParts u q.text with
          | none => simp [compareVersions,hl,hr]
          | some r =>
            refine absurd ⟨l,r,hs,?_,hr⟩ h
            rw [hv]
            exact hl

theorem Measured.unique {l' r' : List Nat} (h : Measured u identity q l r)
    (h' : Measured u identity q l' r') : l = l' ∧ r = r' :=
  ⟨Option.some.inj (h.2.1.symm.trans h'.2.1),Option.some.inj (h.2.2.symm.trans h'.2.2)⟩

theorem met_or_broken (h : Comparable u identity q) :
    Met u identity q ∨ Broken u identity q := by
  obtain ⟨l,r,hm⟩ := h
  by_cases holds : q.Holds l r
  · exact .inl ⟨l,r,hm,holds⟩
  · exact .inr ⟨l,r,hm,holds⟩

theorem Met.comparable (h : Met u identity q) : Comparable u identity q := by
  obtain ⟨l,r,hm,-⟩ := h
  exact ⟨l,r,hm⟩

theorem Broken.comparable (h : Broken u identity q) : Comparable u identity q := by
  obtain ⟨l,r,hm,-⟩ := h
  exact ⟨l,r,hm⟩

theorem Met.not_broken (h : Met u identity q) : ¬Broken u identity q := by
  rintro ⟨l',r',hm',fails⟩
  obtain ⟨l,r,hm,holds⟩ := h
  obtain ⟨rfl,rfl⟩ := hm.unique hm'
  exact fails holds

def passes (b : Bound) (o : Ordering) : Prop :=
  ¬(o = (if b.upper then .gt else .lt) ∨ (b.exclusive ∧ o = .eq))

theorem passes_iff {o : Ordering} (hlt : o = .lt ↔ Below l r)
    (hgt : o = .gt ↔ Below r l) : passes b o ↔ (Requirement.bound b).Holds l r := by
  obtain ⟨value,upper,exclusive⟩ := b
  cases upper <;> cases exclusive <;> simp only [passes,Requirement.Holds,←hlt,←hgt] <;>
    cases o <;> simp

theorem checkBounds_met (met : Met u identity (.bound b)) :
    checkBounds u identity.versionScheme identity.version (b::rest) =
      checkBounds u identity.versionScheme identity.version rest := by
  obtain ⟨l,r,hm,holds⟩ := met
  obtain ⟨o,ho,hlt,hgt,-⟩ := compareVersions_measured hm
  have through : ¬(o = (if b.upper then .gt else .lt) ∨ (b.exclusive ∧ o = .eq)) :=
    (passes_iff hlt hgt).2 holds
  have ho : compareVersions u identity.versionScheme identity.version (some b.value) = some o := ho
  rw [checkBounds,ho]
  by_cases empty : b.value = []
  · rw [if_pos empty]
  · rw [if_neg empty]
    exact if_neg through

theorem checkBounds_broken (some_value : b.value ≠ []) (broken : Broken u identity (.bound b)) :
    checkBounds u identity.versionScheme identity.version (b::rest) = (.noMatch,none) := by
  obtain ⟨l,r,hm,fails⟩ := broken
  obtain ⟨o,ho,hlt,hgt,-⟩ := compareVersions_measured hm
  have stopped : o = (if b.upper then .gt else .lt) ∨ (b.exclusive ∧ o = .eq) := by
    by_contra through
    exact fails ((passes_iff hlt hgt).1 through)
  have ho : compareVersions u identity.versionScheme identity.version (some b.value) = some o := ho
  rw [checkBounds,ho,if_neg some_value]
  exact if_pos stopped

theorem checkBounds_unknown (some_value : b.value ≠ [])
    (unread : ¬Comparable u identity (.bound b)) :
    checkBounds u identity.versionScheme identity.version (b::rest) =
      (.unknown,some "version_unsupported".toList) := by
  have ho : compareVersions u identity.versionScheme identity.version (some b.value) = none :=
    compareVersions_none unread
  rw [checkBounds,ho,if_neg some_value]

inductive Checked (u : Tables) (identity : AssessmentIdentity) :
    List Requirement → VersionResult → Prop where
  | met {qs : List Requirement} : (∀ q ∈ qs, Met u identity q) → Checked u identity qs .isMatch
  | broken {before after : List Requirement} {q : Requirement} :
      (∀ p ∈ before, Met u identity p) → Broken u identity q →
      Checked u identity (before++q::after) .noMatch
  | unread {before after : List Requirement} {q : Requirement} :
      (∀ p ∈ before, Met u identity p) → ¬Comparable u identity q →
      Checked u identity (before++q::after) .unknown

theorem Checked.cons {q : Requirement} {qs : List Requirement} {v : VersionResult}
    (hq : Met u identity q) (h : Checked u identity qs v) : Checked u identity (q::qs) v := by
  cases h with
  | met all =>
    refine .met fun p hp => ?_
    rcases mem_cons.1 hp with rfl | hp
    · exact hq
    · exact all p hp
  | @broken before after p all broken =>
    refine @Checked.broken _ _ (q::before) after p (fun p hp => ?_) broken
    rcases mem_cons.1 hp with rfl | hp
    · exact hq
    · exact all p hp
  | @unread before after p all unread =>
    refine @Checked.unread _ _ (q::before) after p (fun p hp => ?_) unread
    rcases mem_cons.1 hp with rfl | hp
    · exact hq
    · exact all p hp

theorem checkBounds_checked (bounds : List Bound) :
    Checked u identity ((bounds.filter (·.value ≠ [])).map .bound)
      (checkBounds u identity.versionScheme identity.version bounds).1 := by
  induction bounds with
  | nil => exact .met fun _ => nofun
  | cons b rest ih =>
    by_cases empty : b.value = []
    · rw [checkBounds,if_pos empty]
      simpa [empty] using ih
    · have kept : ((b::rest).filter (·.value ≠ [])).map Requirement.bound =
          .bound b::(rest.filter (·.value ≠ [])).map .bound := by simp [empty]
      rw [kept]
      by_cases comparable : Comparable u identity (.bound b)
      · rcases met_or_broken comparable with met | broken
        · rw [checkBounds_met met]
          exact ih.cons met
        · rw [checkBounds_broken empty broken]
          exact @Checked.broken _ _ [] _ _ (fun _ => nofun) broken
      · rw [checkBounds_unknown empty comparable]
        exact @Checked.unread _ _ [] _ _ (fun _ => nofun) comparable

theorem versionResult_checked (m : CpeMatch) :
    Checked u identity (requirements u m) (versionResult u m identity).1 := by
  rw [versionResult,requirements]
  cases he : (parseCpe u m.criteria).version.filter (· ≠ ['-']) with
  | some version =>
    dsimp only
    by_cases comparable : Comparable u identity (.exactly version)
    · obtain ⟨l,r,hm⟩ := comparable
      obtain ⟨o,ho,hlt,hgt,heq⟩ := compareVersions_measured hm
      have ho : compareVersions u identity.versionScheme identity.version (some version) = some o := ho
      rw [ho]
      cases o with
      | eq =>
        refine .met fun q hq => ?_
        rw [mem_singleton.1 hq]
        exact ⟨l,r,hm,heq.1 rfl⟩
      | lt =>
        exact @Checked.broken _ _ [] _ _ (fun _ => nofun) ⟨l,r,hm,fun holds => holds.1 (hlt.1 rfl)⟩
      | gt =>
        exact @Checked.broken _ _ [] _ _ (fun _ => nofun) ⟨l,r,hm,fun holds => holds.2 (hgt.1 rfl)⟩
    · have ho : compareVersions u identity.versionScheme identity.version (some version) = none :=
        compareVersions_none comparable
      rw [ho]
      exact @Checked.unread _ _ [] _ _ (fun _ => nofun) comparable
  | none =>
    dsimp only
    split
    case isTrue unbounded =>
      have none_left : m.bounds.filter (·.value ≠ []) = [] := by
        rw [filter_eq_nil_iff]
        intro b hb
        simpa using all_eq_true.1 unbounded b hb
      rw [none_left]
      exact .met fun _ => nofun
    case isFalse unbounded =>
      by_cases missing : identity.version.getD [] = []
      · rw [if_pos missing]
        have unread : ∀ q, ¬Comparable u identity q := by
          rintro q ⟨l,r,-,version,-⟩
          obtain ⟨candidate,hc,parts⟩ := Option.bind_eq_some_iff.1 version
          rw [hc] at missing
          have missing : candidate = [] := missing
          rw [missing] at parts
          cases parts
        cases hf : m.bounds.filter (·.value ≠ []) with
        | nil =>
          refine absurd (all_eq_true.2 fun b hb => ?_) unbounded
          simpa using filter_eq_nil_iff.1 hf b hb
        | cons b rest => exact @Checked.unread _ _ [] _ _ (fun _ => nofun) (unread (.bound b))
      · rw [if_neg missing]
        exact checkBounds_checked m.bounds

theorem leafTruth_eq {m : CpeMatch} (h : NamesProduct u identity m) :
    leafTruth u identity m = (versionResult u m identity).1.truth := by
  simp only [NamesProduct] at h
  simp only [leafTruth,evaluateCpe]
  rw [if_pos h]

variable {qs : List Requirement}

theorem Checked.isMatch (h : Checked u identity qs .isMatch) :
    ∀ q ∈ qs, Met u identity q := by
  cases h with
  | met all => exact all

theorem Checked.noMatch (h : Checked u identity qs .noMatch) :
    ∃ before q after, qs = before++q::after ∧ (∀ p ∈ before, Met u identity p) ∧
      Broken u identity q := by
  cases h with
  | broken all broken => exact ⟨_,_,_,rfl,all,broken⟩

theorem Checked.unknown (h : Checked u identity qs .unknown) :
    ∃ q ∈ qs, ¬Comparable u identity q := by
  cases h with
  | unread all unread => exact ⟨_,mem_append_right _ mem_cons_self,unread⟩

theorem Checked.tail
    (hq : Met u identity q) (h : Checked u identity (q::qs) v) : Checked u identity qs v := by
  generalize hl : q::qs = l at h
  cases h with
  | met all => exact .met fun p hp => all p (hl ▸ mem_cons_of_mem _ hp)
  | @broken before after p all broken =>
    cases before with
    | nil =>
      obtain ⟨rfl,-⟩ := List.cons.inj hl
      exact absurd broken hq.not_broken
    | cons b before =>
      obtain ⟨-,rfl⟩ := List.cons.inj hl
      exact .broken (fun p hp => all p (mem_cons_of_mem _ hp)) broken
  | @unread before after p all unread =>
    cases before with
    | nil =>
      obtain ⟨rfl,-⟩ := List.cons.inj hl
      exact absurd hq.comparable unread
    | cons b before =>
      obtain ⟨-,rfl⟩ := List.cons.inj hl
      exact .unread (fun p hp => all p (mem_cons_of_mem _ hp)) unread

theorem Checked.head (hq : ¬Met u identity q) (h : Checked u identity (q::qs) v) :
    (v = .noMatch ∧ Broken u identity q) ∨ (v = .unknown ∧ ¬Comparable u identity q) := by
  generalize hl : q::qs = l at h
  cases h with
  | met all => exact absurd (all q (hl ▸ mem_cons_self)) hq
  | @broken before after p all broken =>
    cases before with
    | nil =>
      obtain ⟨rfl,-⟩ := List.cons.inj hl
      exact .inl ⟨rfl,broken⟩
    | cons b before =>
      obtain ⟨rfl,-⟩ := List.cons.inj hl
      exact absurd (all q mem_cons_self) hq
  | @unread before after p all unread =>
    cases before with
    | nil =>
      obtain ⟨rfl,-⟩ := List.cons.inj hl
      exact .inr ⟨rfl,unread⟩
    | cons b before =>
      obtain ⟨rfl,-⟩ := List.cons.inj hl
      exact absurd (all q mem_cons_self) hq

theorem Checked.unique {w : VersionResult} (hv : Checked u identity qs v)
    (hw : Checked u identity qs w) : v = w := by
  induction qs with
  | nil =>
    have only : ∀ x, Checked u identity [] x → x = .isMatch := by
      intro x hx
      generalize hl : ([] : List Requirement) = l at hx
      cases hx with
      | met => rfl
      | broken | unread => exact absurd hl.symm (append_ne_nil_of_right_ne_nil _ (cons_ne_nil _ _))
    rw [only v hv,only w hw]
  | cons q qs ih =>
    by_cases met : Met u identity q
    · exact ih (hv.tail met) (hw.tail met)
    · rcases hv.head met with ⟨rfl,broken⟩ | ⟨rfl,unread⟩
      · rcases hw.head met with ⟨rfl,-⟩ | ⟨-,unread⟩
        · rfl
        · exact absurd broken.comparable unread
      · rcases hw.head met with ⟨-,broken⟩ | ⟨rfl,-⟩
        · exact absurd broken.comparable unread
        · rfl

theorem CutShort.checked {m : CpeMatch} (h : CutShort u identity m) :
    Checked u identity (requirements u m) .noMatch := by
  obtain ⟨before,q,after,he,all,broken,-⟩ := h
  rw [he]
  exact .broken all broken

theorem leafLaw_iff {m : CpeMatch} (h : NamesProduct u identity m) :
    LeafLaw u identity m ↔ ¬CutShort u identity m := by
  have checked : Checked u identity (requirements u m) (versionResult u m identity).1 :=
    versionResult_checked m
  have cut : CutShort u identity m → (versionResult u m identity).1 = .noMatch :=
    fun hc => checked.unique hc.checked
  simp only [LeafLaw,leafTruth_eq h]
  generalize (versionResult u m identity).1 = v at checked cut ⊢
  cases v with
  | isMatch =>
    have all := checked.isMatch
    have none_broken : ¬∃ q ∈ requirements u m, Broken u identity q :=
      fun ⟨q,hq,broken⟩ => (all q hq).not_broken broken
    refine iff_of_true ⟨iff_of_true rfl all,iff_of_false nofun fun hs => none_broken hs.2,
      iff_of_false nofun fun hn => hn.1 all⟩ fun hc => ?_
    cases cut hc
  | noMatch =>
    obtain ⟨before,q,after,he,all,broken⟩ := checked.noMatch
    have hq : q ∈ requirements u m := he ▸ mem_append_right _ mem_cons_self
    have not_all : ¬∀ q ∈ requirements u m, Met u identity q :=
      fun all => (all q hq).not_broken broken
    constructor
    · rintro ⟨-,law,-⟩ ⟨before,q,after,he,-,-,p,hp,unread⟩
      exact unread ((law.1 rfl).1 p (he ▸ mem_append_right _ (mem_cons_of_mem _ hp)))
    · intro uncut
      have comparable : ∀ p ∈ requirements u m, Comparable u identity p := by
        intro p hp
        rw [he] at hp
        rcases mem_append.1 hp with hp | hp
        · exact (all p hp).comparable
        · rcases mem_cons.1 hp with rfl | hp
          · exact broken.comparable
          · by_contra unread
            exact uncut ⟨before,q,after,he,all,broken,p,hp,unread⟩
      have some_broken : (∀ p ∈ requirements u m, Comparable u identity p) ∧
          ∃ p ∈ requirements u m, Broken u identity p := ⟨comparable,q,hq,broken⟩
      exact ⟨iff_of_false nofun not_all,iff_of_true rfl some_broken,
        iff_of_false nofun fun hn => hn.2 some_broken⟩
  | unknown =>
    obtain ⟨q,hq,unread⟩ := checked.unknown
    refine iff_of_true ⟨iff_of_false nofun fun all => unread (all q hq).comparable,
      iff_of_false nofun fun hs => unread (hs.1 q hq),
      iff_of_true rfl ⟨fun all => unread (all q hq).comparable,fun hs => unread (hs.1 q hq)⟩⟩
      fun hc => ?_
    cases cut hc

end

def ascii : Tables where
  fold c := [c.toLower]
  upper c := [c.toUpper]
  digit c := if c.isDigit then some (c.toNat-48) else none
  unquote := id
  sqlLower t := t.map Char.toLower

def router : AssessmentIdentity :=
  ⟨some "acme".toList,some "router".toList,some "1.0".toList,some .dottedNumeric,.inventory,1⟩

def leafOf (cpeMatch : CpeMatch) : Node := .node "OR".toList false [cpeMatch] []

def anyRouter : CpeMatch := { criteria := "cpe:2.3:a:acme:router:*:*".toList }

def other : CpeMatch := { criteria := "cpe:2.3:a:acme:switch:*:*".toList }

def exceptRouter : NvdConfiguration :=
  { operator := "OR".toList, nodes := [leafOf anyRouter], negate := true }

def routerAndOther : NvdConfiguration :=
  { operator := "and".toList, nodes := [leafOf anyRouter,leafOf other] }

def untilBeta : CpeMatch :=
  { anyRouter with
    versionStartIncluding := "5.0".toList
    versionEndExcluding := "6.0beta".toList }

end CircuitBreaker.ApplicabilityLogic
