import Mathlib.Data.List.Nodup
import Mathlib.Data.List.Induction
import Mathlib.Data.List.Forall2


namespace CircuitBreaker
open List

/-- A Python dict: its items in the order of insertion, one for each key. -/
structure Dict (κ α : Type) where
  items : List (κ × α)
  nodup : (items.map Prod.fst).Nodup

namespace Dict

variable {κ α β : Type} [DecidableEq κ]

def empty : Dict κ α := ⟨[],nodup_nil⟩

def get (d : Dict κ α) (k : κ) : Option α := (d.items.find? (·.1 = k)).map Prod.snd

def contains (d : Dict κ α) (k : κ) : Bool := (d.get k).isSome

variable {d : Dict κ α}

omit [DecidableEq κ] in
@[ext] theorem ext {e : Dict κ α} (h : d.items = e.items) : d = e := by
  cases d
  cases e
  congr

instance [DecidableEq α] : DecidableEq (Dict κ α) := fun d e =>
  decidable_of_iff (d.items = e.items) ⟨ext,congrArg items⟩

@[simp] theorem get_empty (k : κ) : (empty : Dict κ α).get k = none := rfl

variable {k : κ}

theorem get_eq_some_iff {v : α} : d.get k = some v ↔ (k,v) ∈ d.items := by
  obtain ⟨items,nodup⟩ := d
  simp only [get]
  induction items with
  | nil => simp
  | cons p ps ih =>
    obtain ⟨hp,rest⟩ := nodup_cons.1 nodup
    by_cases hk : p.1 = k
    · have absent : ∀ w, (k,w) ∉ ps := fun w hw => hp (hk ▸ mem_map.2 ⟨(k,w),hw,rfl⟩)
      simp only [find?_cons,hk,decide_true,Option.map_some,Option.some.injEq,mem_cons,
        absent,or_false,Prod.ext_iff,true_and]
      exact eq_comm
    · have hne : (k,v) ≠ p := fun h => hk (h ▸ rfl)
      simp only [find?_cons,hk,decide_false,mem_cons,hne,false_or]
      exact ih rest

theorem get_eq_none_iff : d.get k = none ↔ ∀ v, (k,v) ∉ d.items := by
  constructor
  · intro h v hv
    rw [get_eq_some_iff.2 hv] at h
    cases h
  · intro h
    cases hg : d.get k with
    | none => rfl
    | some v => exact absurd (get_eq_some_iff.1 hg) (h v)

/-- `d[k] = v`: a present key keeps its place. -/
def set (d : Dict κ α) (k : κ) (v : α) : Dict κ α :=
  if h : k ∈ d.items.map Prod.fst then
    ⟨d.items.map fun p => if p.1 = k then (k,v) else p,by
      have same : (fun p : κ × α => p.1) ∘ (fun p => if p.1 = k then (k,v) else p) =
          Prod.fst := by
        funext p
        by_cases hp : p.1 = k
        · simp [hp]
        · simp [hp]
      rw [map_map]
      exact (congrArg (fun f => (d.items.map f).Nodup) same).mpr d.nodup⟩
  else ⟨d.items ++ [(k,v)],by
    rw [map_append,nodup_append]
    exact ⟨d.nodup,nodup_singleton _,fun a ha b hb hab => by
      rw [map_singleton,mem_singleton] at hb
      rw [hab,hb] at ha
      exact h ha⟩⟩

theorem mem_set {v : α} {p : κ × α} :
    p ∈ (d.set k v).items ↔ p = (k,v) ∨ (p ∈ d.items ∧ p.1 ≠ k) := by
  unfold set
  split
  · rename_i h
    obtain ⟨q,hq,hk⟩ := mem_map.1 h
    simp only [mem_map]
    constructor
    · rintro ⟨r,hr,rfl⟩
      by_cases hrk : r.1 = k
      · simp [hrk]
      · simp [hrk,hr]
    · rintro (rfl | ⟨hp,hne⟩)
      · exact ⟨q,hq,by simp [hk]⟩
      · exact ⟨p,hp,by simp [hne]⟩
  · rename_i h
    simp only [mem_append,mem_singleton]
    constructor
    · rintro (hp | rfl)
      · exact .inr ⟨hp,fun he => h (he ▸ mem_map_of_mem hp)⟩
      · exact .inl rfl
    · rintro (rfl | ⟨hp,-⟩)
      · exact .inr rfl
      · exact .inl hp

@[simp] theorem get_set_self (d : Dict κ α) (k : κ) (v : α) : (d.set k v).get k = some v :=
  get_eq_some_iff.2 (mem_set.2 (.inl rfl))

theorem get_set_other (d : Dict κ α) {k' : κ} (v : α) (h : k' ≠ k) :
    (d.set k v).get k' = d.get k' := by
  apply Option.ext
  intro w
  rw [get_eq_some_iff,get_eq_some_iff,mem_set]
  simp [h]

theorem get_set (d : Dict κ α) (k k' : κ) (v : α) :
    (d.set k v).get k' = if k' = k then some v else d.get k' := by
  by_cases h : k' = k
  · rw [h,get_set_self,if_pos rfl]
  · rw [get_set_other d v h,if_neg h]

/-- A key that was not there goes to the end. -/
theorem items_set_new (v : α) (h : d.get k = none) :
    (d.set k v).items = d.items ++ [(k,v)] := by
  have absent : k ∉ d.items.map Prod.fst := fun hk => by
    obtain ⟨p,hp,rfl⟩ := mem_map.1 hk
    exact get_eq_none_iff.1 h p.2 hp
  rw [set,dif_neg absent]

/-- A dict comprehension: of two pairs with one key the later one stays. -/
def ofPairs (pairs : List (κ × α)) : Dict κ α := pairs.foldl (fun d p => d.set p.1 p.2) empty

theorem get_foldl_set (pairs : List (κ × α)) (d : Dict κ α) (k : κ) :
    (pairs.foldl (fun d p => d.set p.1 p.2) d).get k =
      ((pairs.filter (·.1 = k)).getLast?.map Prod.snd).or (d.get k) := by
  induction pairs generalizing d with
  | nil => simp
  | cons p ps ih =>
    rw [foldl_cons,ih,get_set]
    by_cases hk : p.1 = k
    · subst hk
      cases hl : ps.filter (·.1 = p.1) with
      | nil => simp [hl]
      | cons q qs => simp [hl,getLast?_cons]
    · simp [hk,Ne.symm hk]

theorem get_ofPairs (pairs : List (κ × α)) (k : κ) :
    (ofPairs pairs).get k = (pairs.filter (·.1 = k)).getLast?.map Prod.snd := by
  rw [ofPairs,get_foldl_set,get_empty,Option.or_none]

variable {pairs : List (κ × α)}

/-- With keys of its own for each pair, a comprehension is the list of its pairs. -/
theorem items_ofPairs (h : (pairs.map Prod.fst).Nodup) :
    (ofPairs pairs).items = pairs := by
  induction pairs using List.reverseRecOn with
  | nil => rfl
  | append_singleton pairs p ih =>
    rw [map_append,nodup_append] at h
    have before := ih h.1
    have absent : (ofPairs pairs).get p.1 = none := by
      rw [get_eq_none_iff,before]
      intro v hv
      exact h.2.2 p.1 (mem_map.2 ⟨(p.1,v),hv,rfl⟩) p.1 (by simp) rfl
    rw [ofPairs,foldl_append,foldl_cons,foldl_nil]
    change ((ofPairs pairs).set p.1 p.2).items = _
    rw [items_set_new p.2 absent,before]

theorem get_ofPairs_iff (h : (pairs.map Prod.fst).Nodup) {v : α} :
    (ofPairs pairs).get k = some v ↔ (k,v) ∈ pairs := by
  rw [get_eq_some_iff,items_ofPairs h]

theorem get_mapped (d : Dict κ α) (g : α → β) (k : κ) :
    (ofPairs (d.items.map fun p => (p.1,g p.2))).get k = (d.get k).map g := by
  have keys : (d.items.map fun p => (p.1,g p.2)).map Prod.fst = d.items.map Prod.fst := by
    rw [map_map]
    rfl
  apply Option.ext
  intro b
  rw [get_ofPairs_iff (keys ▸ d.nodup),Option.map_eq_some_iff]
  simp only [mem_map,Prod.ext_iff,Prod.exists,get_eq_some_iff]
  constructor
  · rintro ⟨a,c,hm,rfl,hb⟩
    exact ⟨c,hm,hb⟩
  · rintro ⟨c,hm,hb⟩
    exact ⟨k,c,hm,rfl,hb⟩

/-- `d.update(pairs)` -/
def update (d : Dict κ α) (pairs : List (κ × α)) : Dict κ α :=
  pairs.foldl (fun d p => d.set p.1 p.2) d

theorem get_update_other (d : Dict κ α)
    (h : ∀ p ∈ pairs, p.1 ≠ k) : (d.update pairs).get k = d.get k := by
  have none : pairs.filter (·.1 = k) = [] := filter_eq_nil_iff.2 fun p hp => by simpa using h p hp
  rw [update,get_foldl_set,none]
  rfl

theorem ofPairs_items (e : Dict κ α) : ofPairs e.items = e := ext (items_ofPairs e.nodup)

/-- `d | e`: what the right dict has counts. -/
theorem get_update_items (d e : Dict κ α) (k : κ) :
    (d.update e.items).get k = (e.get k).or (d.get k) := by
  rw [update,get_foldl_set,←get_ofPairs,ofPairs_items]

def keys (d : Dict κ α) : List κ := d.items.map Prod.fst

theorem mem_keys : k ∈ d.keys ↔ ∃ v, d.get k = some v := by
  simp only [keys,mem_map,get_eq_some_iff,Prod.exists]
  constructor
  · rintro ⟨_,v,hm,rfl⟩
    exact ⟨v,hm⟩
  · rintro ⟨v,hm⟩
    exact ⟨k,v,hm,rfl⟩

/-- A present key is set in its place. -/
theorem keys_set (v : α) (h : k ∈ d.keys) : (d.set k v).keys = d.keys := by
  have same : ∀ p ∈ d.items, Prod.fst (if p.1 = k then (k,v) else p) = p.1 := fun p _ => by
    split
    case isTrue hp => exact hp.symm
    case isFalse => rfl
  have inside : k ∈ d.items.map Prod.fst := h
  rw [keys,set,dif_pos inside,map_map]
  exact map_congr_left same

theorem keys_update (h : ∀ p ∈ pairs, p.1 ∈ d.keys) :
    (d.update pairs).keys = d.keys := by
  induction pairs generalizing d with
  | nil => rfl
  | cons p ps ih =>
    have first := keys_set p.2 (h p (by simp))
    have rest := ih (d := d.set p.1 p.2) fun q hq => by
      rw [first]
      exact h q (by simp [hq])
    exact rest.trans first

/-- Two dicts with their keys in one order are equal as soon as they hold the same. -/
theorem ext_keys {e : Dict κ α} (hk : d.keys = e.keys) (hg : ∀ k ∈ d.keys, d.get k = e.get k) :
    d = e := by
  have len : d.items.length = e.items.length := by
    simpa [keys] using congrArg List.length hk
  refine ext (ext_getElem len fun i hd he => ?_)
  have key : d.items[i].1 = e.items[i].1 := by
    have hi : d.keys[i]? = e.keys[i]? := by rw [hk]
    simpa [keys,hd,he] using hi
  have left : d.get d.items[i].1 = some d.items[i].2 := get_eq_some_iff.2 (getElem_mem hd)
  have right : e.get e.items[i].1 = some e.items[i].2 := get_eq_some_iff.2 (getElem_mem he)
  have inside : d.items[i].1 ∈ d.keys := mem_map_of_mem (getElem_mem hd)
  rw [hg _ inside,key,right] at left
  exact Prod.ext key (Option.some.inj left).symm

/-- The items whose keys pass. -/
def restrict (d : Dict κ α) (keep : κ → Bool) : Dict κ α :=
  ⟨d.items.filter fun p => keep p.1,d.nodup.sublist (filter_sublist.map _)⟩

theorem get_restrict (d : Dict κ α) (keep : κ → Bool) (k : κ) :
    (d.restrict keep).get k = if keep k then d.get k else none := by
  apply Option.ext
  intro v
  by_cases h : keep k
  · simp only [get_eq_some_iff,restrict,mem_filter,h,and_true,if_true]
  · simp only [get_eq_some_iff,restrict,mem_filter,h,and_false,if_false,reduceCtorEq,
      Bool.false_eq_true]

/-- A `defaultdict(list)` filled by appends. -/
def gather (pairs : List (κ × α)) : Dict κ (List α) :=
  pairs.foldl (fun d p => d.set p.1 ((d.get p.1).getD []++[p.2])) empty

theorem get_gather (pairs : List (κ × α)) (k : κ) :
    (gather pairs).get k =
      if pairs.filter (·.1 = k) = [] then none else some ((pairs.filter (·.1 = k)).map Prod.snd) := by
  induction pairs using List.reverseRecOn with
  | nil => rfl
  | append_singleton pairs p ih =>
    have last : gather (pairs++[p]) =
        (gather pairs).set p.1 (((gather pairs).get p.1).getD []++[p.2]) := by
      simp only [gather,foldl_append,foldl_cons,foldl_nil]
    rw [last,filter_append]
    by_cases hk : k = p.1
    · subst hk
      rw [get_set_self,ih]
      by_cases hn : pairs.filter (·.1 = p.1) = []
      · simp [hn]
      · simp [hn]
    · have none_last : [p].filter (·.1 = k) = [] := by
        rw [filter_singleton,decide_eq_false (Ne.symm hk)]
        rfl
      rw [get_set_other _ _ hk,ih,none_last,append_nil]

/-- What is gathered under a key is all its values, and no key has none. -/
theorem mem_gather {l : List α} :
    (k,l) ∈ (gather pairs).items ↔ l = (pairs.filter (·.1 = k)).map Prod.snd ∧ l ≠ [] := by
  rw [←get_eq_some_iff,get_gather]
  by_cases hn : pairs.filter (·.1 = k) = []
  · simp only [hn,if_true,map_nil]
    exact ⟨nofun,fun h => absurd h.1 h.2⟩
  · simp only [hn,if_false,Option.some.injEq]
    constructor
    · rintro rfl
      exact ⟨rfl,fun h => hn (map_eq_nil_iff.1 h)⟩
    · exact fun h => h.1.symm

end Dict

/-! Loops that can raise. -/

section

variable {α β σ ε : Type}

variable {f : σ → α → Except ε σ} {l : List α}

theorem foldlM_cons_ok {a : α} {s s' : σ} :
    (a::l).foldlM f s = .ok s' ↔ ∃ m,f s a = .ok m ∧ l.foldlM f m = .ok s' := by
  rw [foldlM_cons]
  cases hf : f s a with
  | error e | ok m => simp [bind,Except.bind]

theorem foldlM_append_ok {l' : List α} {s s' : σ} :
    (l ++ l').foldlM f s = .ok s' ↔ ∃ m,l.foldlM f s = .ok m ∧ l'.foldlM f m = .ok s' := by
  rw [foldlM_append]
  cases hf : l.foldlM f s with
  | error e | ok m => simp [bind,Except.bind]

/-- Each turn of a loop that ends well ended well itself. -/
theorem foldlM_ok_mem {a : α} {s s' : σ}
    (h : l.foldlM f s = .ok s') (ha : a ∈ l) : ∃ m m',f m a = .ok m' := by
  induction l generalizing s with
  | nil => cases ha
  | cons b l ih =>
    obtain ⟨m,hm,rest⟩ := foldlM_cons_ok.1 h
    cases ha with
    | head => exact ⟨s,m,hm⟩
    | tail _ ha => exact ih rest ha

theorem forall₂_mem {R : α → β → Prop} {l' : List β} (h : List.Forall₂ R l l')
    {a : α} (ha : a ∈ l) : ∃ b ∈ l',R a b := by
  induction h with
  | nil => cases ha
  | cons hr _ ih =>
    cases ha with
    | head => exact ⟨_,by simp,hr⟩
    | tail _ ha =>
      obtain ⟨b,hb,found⟩ := ih ha
      exact ⟨b,by simp [hb],found⟩

theorem mapM_ok {f : α → Except ε β} {out : List β} :
    l.mapM f = .ok out ↔ List.Forall₂ (fun a b => f a = .ok b) l out := by
  induction l generalizing out with
  | nil => simp [pure,Except.pure,eq_comm]
  | cons a l ih =>
    rw [mapM_cons]
    cases hf : f a with
    | error e => simp [bind,Except.bind,forall₂_cons_left_iff,hf]
    | ok b =>
      cases hl : l.mapM f with
      | error e =>
        have none : ∀ bs,¬List.Forall₂ (fun a b => f a = .ok b) l bs := fun bs hb => by
          rw [ih.2 hb] at hl
          cases hl
        simp [bind,Except.bind,forall₂_cons_left_iff,none]
      | ok bs =>
        constructor
        · intro h
          cases h
          exact .cons hf (ih.1 hl)
        · intro h
          cases h with
          | cons hb rest =>
            rw [hf] at hb
            rw [ih.2 rest] at hl
            cases hb
            cases hl
            rfl

/-- A computation that, when it returns, meets `Q`, and raises only what `E` allows. -/
def Ends (x : Except ε α) (E : ε → Prop) (Q : α → Prop) : Prop :=
  match x with
  | .ok a => Q a
  | .error e => E e

variable {E : ε → Prop}

theorem Ends.bind {x : Except ε α} {f : α → Except ε β} {P : α → Prop}
    {Q : β → Prop} (h : Ends x E P) (hf : ∀ a,P a → Ends (f a) E Q) : Ends (x >>= f) E Q := by
  cases x with
  | error e => exact h
  | ok a => exact hf a h

theorem Ends.mono {x : Except ε α} {P Q : α → Prop} (h : Ends x E P)
    (hq : ∀ a,P a → Q a) : Ends x E Q := by
  cases x with
  | error e => exact h
  | ok a => exact hq a h

theorem Ends.raises {x : Except ε α} {E' : ε → Prop} {Q : α → Prop} (h : Ends x E Q)
    (he : ∀ e,E e → E' e) : Ends x E' Q := by
  cases x with
  | error e => exact he e h
  | ok a => exact h

/-- The rule for a loop: `I` holds of what is done and of the state it left. -/
theorem ends_foldlM {I : List α → σ → Prop}
    {s : σ} (start : I [] s)
    (step : ∀ pre a post s,l = pre ++ a::post → I pre s → Ends (f s a) E (I (pre ++ [a]))) :
    Ends (l.foldlM f s) E (I l) := by
  suffices h : ∀ pre rest s,l = pre ++ rest → I pre s → Ends (rest.foldlM f s) E (I l) from
    h [] l s rfl start
  intro pre rest
  induction rest generalizing pre with intro s hl hi
  | nil =>
    rw [append_nil] at hl
    exact hl ▸ hi
  | cons a rest ih =>
    rw [foldlM_cons]
    refine (step pre a rest s hl hi).bind fun m hm => ?_
    exact ih (pre ++ [a]) m (by rw [hl,append_assoc]; rfl) hm

theorem ends_mapM {f : α → Except ε β} {Q : α → β → Prop}
    (h : ∀ a ∈ l,Ends (f a) E (Q a)) : Ends (l.mapM f) E (List.Forall₂ Q l) := by
  induction l with
  | nil => exact .nil
  | cons a l ih =>
    rw [mapM_cons]
    refine (h a (by simp)).bind fun b hb => ?_
    exact (ih fun a ha => h a (by simp [ha])).bind fun bs hbs => .cons hb hbs

end

end CircuitBreaker
