import Mathlib.Logic.Function.Basic
import Mathlib.Data.Option.Basic
import Mathlib.Data.List.Nodup
import Mathlib.Data.List.Perm.Subperm

/-! Counters under keys, each of which may have a time at which it ends: a store that is counted up
and given an end by two commands apart. -/

namespace ExpiringCounters
open Function Option

variable {ν : Type}

structure Entry where
  count : Nat
  expiry : Option Nat
  deriving DecidableEq

def Entry.ending (e : Entry) (x : Nat) : Entry := ⟨e.count,some x⟩

/-- `life`, how often a key's counter has ended, is kept for the statements and read by nothing. -/
structure Store (ν : Type) where
  now : Nat
  keys : ν → Option Entry
  life : ν → Nat

def Store.count (s : Store ν) (k : ν) : Nat := (s.keys k).elim 0 Entry.count

/-- A number a counter has answered in one of its lives. -/
structure Ticket where
  life : Nat
  count : Nat

/-- What the next increment answers. -/
def Store.ticket (s : Store ν) (k : ν) : Ticket := ⟨s.life k,s.count k+1⟩

def Store.Issued (s : Store ν) (k : ν) (t : Ticket) : Prop :=
  1 ≤ t.count ∧ (t.life < s.life k ∨ t.life = s.life k ∧ t.count ≤ s.count k)

/-- Time goes on, and what has come to its end is gone. -/
def Store.pass (s : Store ν) (d : Nat) : Store ν where
  now := s.now+d
  keys := fun k => (s.keys k).filter fun e => e.expiry.all fun x => s.now+d < x
  life := fun k => if (s.keys k).any fun e => e.expiry.any fun x => x ≤ s.now+d
    then s.life k+1 else s.life k

section
variable [DecidableEq ν]

/-- `INCR`: the counter is made where there is none, and keeps the end it has. -/
def Store.incr (s : Store ν) (k : ν) : Store ν :=
  { s with keys := update s.keys k (some ⟨s.count k+1,(s.keys k).bind Entry.expiry⟩) }

/-- `EXPIRE`, which does nothing where there is no counter. -/
def Store.expire (s : Store ν) (k : ν) (window : Nat) : Store ν :=
  { s with keys := update s.keys k ((s.keys k).map fun e => e.ending (s.now+window)) }

@[simp] theorem Store.incr_self (s : Store ν) (k : ν) :
    (s.incr k).keys k = some ⟨s.count k+1,(s.keys k).bind Entry.expiry⟩ := by simp [incr]

theorem Store.incr_other (s : Store ν) {k k' : ν} (ne : k' ≠ k) : (s.incr k).keys k' = s.keys k' := by
  simp [incr,ne]

@[simp] theorem Store.incr_life (s : Store ν) (k : ν) : (s.incr k).life = s.life := rfl

@[simp] theorem Store.incr_now (s : Store ν) (k : ν) : (s.incr k).now = s.now := rfl

@[simp] theorem Store.expire_self (s : Store ν) (k : ν) (window : Nat) :
    (s.expire k window).keys k = (s.keys k).map fun e => e.ending (s.now+window) := by
  simp [expire]

theorem Store.expire_other (s : Store ν) {k k' : ν} {window : Nat} (ne : k' ≠ k) :
    (s.expire k window).keys k' = s.keys k' := by
  simp [expire,ne]

@[simp] theorem Store.expire_life (s : Store ν) (k : ν) (window : Nat) :
    (s.expire k window).life = s.life := rfl

@[simp] theorem Store.expire_now (s : Store ν) (k : ν) (window : Nat) :
    (s.expire k window).now = s.now := rfl

@[simp] theorem Store.expire_count (s : Store ν) (k k' : ν) (window : Nat) :
    (s.expire k window).count k' = s.count k' := by
  by_cases ne : k' = k
  · subst ne
    cases h : s.keys k' <;> simp [count,h,Entry.ending]
  · simp only [count,s.expire_other ne]

theorem Store.count_incr (s : Store ν) (k k' : ν) : s.count k' ≤ (s.incr k).count k' := by
  by_cases ne : k' = k
  · subst ne
    simp [count]
  · simp only [count,s.incr_other ne]
    exact Nat.le_refl _

/-! Answers stay given, and each is given once. -/

theorem Store.Issued.incr {s : Store ν} {k k' : ν} {t : Ticket} (h : s.Issued k' t) :
    (s.incr k).Issued k' t :=
  ⟨h.1,h.2.imp_right fun same => ⟨same.1,Nat.le_trans same.2 (s.count_incr k k')⟩⟩

theorem Store.Issued.expire {s : Store ν} {k k' : ν} {t : Ticket} {window : Nat}
    (h : s.Issued k' t) : (s.expire k window).Issued k' t := by
  simpa only [Issued,expire_life,expire_count] using h

theorem Store.issued_ticket (s : Store ν) (k : ν) : (s.incr k).Issued k (s.ticket k) :=
  ⟨Nat.succ_le_succ (Nat.zero_le _),.inr ⟨rfl,by simp [ticket,count]⟩⟩

end

theorem Store.fresh_ticket (s : Store ν) (k : ν) : ¬s.Issued k (s.ticket k) := by
  rintro ⟨-,older | ⟨-,counted⟩⟩
  · exact Nat.lt_irrefl _ older
  · simp only [ticket] at counted
    omega

/-! What the time that passes leaves. -/

theorem Store.pass_keys {s : Store ν} {d : Nat} {k : ν} {e : Entry}
    (h : (s.pass d).keys k = some e) :
    s.keys k = some e ∧ (∀ x, e.expiry = some x → s.now+d < x) ∧ (s.pass d).life k = s.life k := by
  obtain ⟨found,kept⟩ := Option.filter_eq_some_iff.1 h
  have later : ∀ x, e.expiry = some x → s.now+d < x := by
    intro x hx
    simpa [hx] using kept
  refine ⟨found,later,?_⟩
  have still : ((s.keys k).any fun e => e.expiry.any fun x => x ≤ s.now+d) = false := by
    rw [found]
    cases hx : e.expiry with
    | none => simp [hx]
    | some x => simpa [hx] using later x hx
  simp [pass,still]

theorem Store.pass_life (s : Store ν) (d : Nat) (k : ν) : s.life k ≤ (s.pass d).life k := by
  simp only [pass]
  split
  · exact Nat.le_succ _
  · exact Nat.le_refl _

/-- A counter is gone or as it was. -/
theorem Store.pass_gone (s : Store ν) (d : Nat) (k : ν) :
    (s.pass d).keys k = s.keys k ∧ (s.pass d).life k = s.life k ∨
      (s.pass d).keys k = none ∧ s.life k < (s.pass d).life k := by
  cases found : s.keys k with
  | none => exact .inl ⟨by simp [pass,found],by simp [pass,found]⟩
  | some e =>
    cases hx : e.expiry with
    | none => exact .inl ⟨by simp [pass,found,hx],by simp [pass,found,hx]⟩
    | some x =>
      by_cases later : s.now+d < x
      · exact .inl ⟨by simp [pass,found,hx,later],by simp [pass,found,hx,later]⟩
      · have due : x ≤ s.now+d := by omega
        exact .inr ⟨by simp [pass,found,hx,due],by simp [pass,found,hx,due]⟩

theorem Store.Issued.pass {s : Store ν} {k : ν} {t : Ticket} (h : s.Issued k t) (d : Nat) :
    (s.pass d).Issued k t := by
  refine ⟨h.1,?_⟩
  obtain ⟨keys,life⟩ | ⟨-,life⟩ := s.pass_gone d k
  · have count : (s.pass d).count k = s.count k := by simp only [count,keys]
    rw [life,count]
    exact h.2
  · have := h.2
    omega

/-- A counter's end, once set, stays for the rest of its life. -/
def Store.Lasting (s t : Store ν) : Prop :=
  (∀ k, s.life k ≤ t.life k) ∧ ∀ k e x, s.keys k = some e → e.expiry = some x →
    t.life k = s.life k → ∃ e', t.keys k = some e' ∧ e'.expiry = some x

theorem Store.Lasting.refl (s : Store ν) : s.Lasting s :=
  ⟨fun _ => Nat.le_refl _,fun _ e _ he hx _ => ⟨e,he,hx⟩⟩

theorem Store.Lasting.trans {s t u : Store ν} (h : s.Lasting t) (g : t.Lasting u) : s.Lasting u := by
  refine ⟨fun k => Nat.le_trans (h.1 k) (g.1 k),fun k e x he hx same => ?_⟩
  have before := h.1 k
  have after := g.1 k
  obtain ⟨e',he',hx'⟩ := h.2 k e x he hx (by omega)
  exact g.2 k e' x he' hx' (by omega)

theorem Store.lasting_pass (s : Store ν) (d : Nat) : s.Lasting (s.pass d) := by
  refine ⟨s.pass_life d,fun k e x he hx same => ?_⟩
  obtain ⟨keys,-⟩ | ⟨-,life⟩ := s.pass_gone d k
  · exact ⟨e,keys.trans he,hx⟩
  · omega

theorem Store.lasting_incr [DecidableEq ν] (s : Store ν) (k : ν) : s.Lasting (s.incr k) := by
  refine ⟨fun _ => Nat.le_refl _,fun k' e x he hx _ => ?_⟩
  by_cases same : k' = k
  · subst same
    exact ⟨_,s.incr_self k',by simp [he,hx]⟩
  · exact ⟨e,(s.incr_other same).trans he,hx⟩

theorem Store.lasting_expire [DecidableEq ν] {s : Store ν} {k : ν} {e : Entry} (found : s.keys k = some e)
    (never : e.expiry = none) (window : Nat) : s.Lasting (s.expire k window) := by
  refine ⟨fun _ => Nat.le_refl _,fun k' e' x he hx _ => ?_⟩
  by_cases same : k' = k
  · subst same
    obtain rfl := some.inj (found.symm.trans he)
    simp [never] at hx
  · exact ⟨e',(s.expire_other same).trans he,hx⟩

/-! Counters that end: each has an end at most its window ahead, or is `open` to one holder, who has
made it and has yet to give it its end. -/

section
variable {κ : Type}

structure Ending (window : ν → Nat) (s : Store ν) (opens : κ → Option ν) : Prop where
  made : ∀ k e, s.keys k = some e → 1 ≤ e.count
  ends : ∀ k e, s.keys k = some e →
    (∃ x, e.expiry = some x ∧ s.now < x ∧ x ≤ s.now+window k) ∨ ∃ i, opens i = some k
  endless : ∀ i k, opens i = some k → ∃ e, s.keys k = some e ∧ e.expiry = none
  alone : ∀ i j k, opens i = some k → opens j = some k → i = j

theorem Ending.pass {window : ν → Nat} {s : Store ν} {opens : κ → Option ν}
    (h : Ending window s opens) (d : Nat) : Ending window (s.pass d) opens := by
  refine ⟨fun k e he => h.made k e (Store.pass_keys he).1,fun k e he => ?_,fun i k hi => ?_,h.alone⟩
  · obtain ⟨found,later,-⟩ := Store.pass_keys he
    obtain ⟨x,hx,-,near⟩ | opened := h.ends k e found
    · have soon : x ≤ s.now+d+window k := by omega
      exact .inl ⟨x,hx,later x hx,soon⟩
    · exact .inr opened
  · obtain ⟨e,found,never⟩ := h.endless i k hi
    exact ⟨e,by simp [Store.pass,found,never],never⟩

variable [DecidableEq ν] [DecidableEq κ] {window : ν → Nat} {s : Store ν} {opens : κ → Option ν} {i : κ}

omit [DecidableEq κ] in
/-- An increment of a counter that is there. -/
theorem Ending.counted (h : Ending window s opens) {k : ν} (there : s.count k ≠ 0) :
    Ending window (s.incr k) opens := by
  obtain ⟨e₀,found⟩ : ∃ e, s.keys k = some e := by
    cases hk : s.keys k with
    | none => simp [Store.count,hk] at there
    | some e => exact ⟨e,rfl⟩
  have entry : ∀ k' e, (s.incr k).keys k' = some e →
      ∃ e', s.keys k' = some e' ∧ e.expiry = e'.expiry ∧ 1 ≤ e.count := by
    intro k' e he
    by_cases same : k' = k
    · subst same
      obtain rfl := some.inj ((s.incr_self k').symm.trans he)
      exact ⟨e₀,found,by simp [found],Nat.succ_le_succ (Nat.zero_le _)⟩
    · rw [s.incr_other same] at he
      exact ⟨e,he,rfl,h.made k' e he⟩
  refine ⟨fun k' e he => ?_,fun k' e he => ?_,fun j k' hj => ?_,h.alone⟩
  · obtain ⟨-,-,-,made⟩ := entry k' e he
    exact made
  · obtain ⟨e',he',same,-⟩ := entry k' e he
    rw [same]
    exact h.ends k' e' he'
  · obtain ⟨e',he',never⟩ := h.endless j k' hj
    by_cases same : k' = k
    · subst same
      exact ⟨_,s.incr_self k',by simp [he',never]⟩
    · exact ⟨e',(s.incr_other same).trans he',never⟩

/-- An increment that makes its counter opens it. -/
theorem Ending.opened (h : Ending window s opens) {k : ν} (absent : s.count k = 0)
    (closed : opens i = none) :
    Ending window (s.incr k) (update opens i (some k)) := by
  have missing : s.keys k = none := by
    cases hk : s.keys k with
    | none => rfl
    | some e =>
      have := h.made k e hk
      simp only [Store.count,hk,elim_some] at absent
      omega
  have others : ∀ j k', opens j = some k' → j ≠ i ∧ k' ≠ k := by
    intro j k' hj
    obtain ⟨e,he,-⟩ := h.endless j k' hj
    exact ⟨fun same => by simp [same,closed] at hj,fun same => by simp [same,missing] at he⟩
  refine ⟨fun k' e he => ?_,fun k' e he => ?_,fun j k' hj => ?_,fun j j' k' hj hj' => ?_⟩
  · by_cases same : k' = k
    · subst same
      obtain rfl := some.inj ((s.incr_self k').symm.trans he)
      exact Nat.succ_le_succ (Nat.zero_le _)
    · rw [s.incr_other same] at he
      exact h.made k' e he
  · by_cases same : k' = k
    · exact .inr ⟨i,by simp [same]⟩
    · rw [s.incr_other same] at he
      refine (h.ends k' e he).imp_right fun ⟨j,hj⟩ => ⟨j,?_⟩
      rw [update_of_ne (others j k' hj).1]
      exact hj
  · by_cases ji : j = i
    · subst ji
      obtain rfl : k = k' := by simpa using hj
      exact ⟨_,s.incr_self k,by simp [missing]⟩
    · rw [update_of_ne ji] at hj
      obtain ⟨e,he,never⟩ := h.endless j k' hj
      exact ⟨e,(s.incr_other (others j k' hj).2).trans he,never⟩
  · by_cases ji : j = i <;> by_cases ji' : j' = i
    · rw [ji,ji']
    · subst ji
      rw [update_of_ne ji'] at hj'
      obtain rfl : k = k' := by simpa using hj
      exact absurd rfl (others j' k hj').2
    · subst ji'
      rw [update_of_ne ji] at hj
      obtain rfl : k = k' := by simpa using hj'
      exact absurd rfl (others j k hj).2
    · rw [update_of_ne ji] at hj
      rw [update_of_ne ji'] at hj'
      exact h.alone j j' k' hj hj'

/-- The holder gives its counter an end. -/
theorem Ending.closed (h : Ending window s opens) {k : ν} (mine : opens i = some k)
    (positive : 0 < window k) :
    Ending window (s.expire k (window k)) (update opens i none) := by
  obtain ⟨e₀,found,-⟩ := h.endless i k mine
  have others : ∀ j k', update opens i none j = some k' → opens j = some k' ∧ k' ≠ k := by
    intro j k' hj
    by_cases ji : j = i
    · subst ji
      simp at hj
    · rw [update_of_ne ji] at hj
      exact ⟨hj,fun same => ji (h.alone j i k (same ▸ hj) mine)⟩
  have entry : (s.expire k (window k)).keys k = some (e₀.ending (s.now+window k)) := by simp [found]
  refine ⟨fun k' e he => ?_,fun k' e he => ?_,fun j k' hj => ?_,fun j j' k' hj hj' =>
    h.alone j j' k' (others j k' hj).1 (others j' k' hj').1⟩
  · by_cases same : k' = k
    · subst same
      obtain rfl := some.inj (entry.symm.trans he)
      exact h.made k' e₀ found
    · rw [s.expire_other same] at he
      exact h.made k' e he
  · by_cases same : k' = k
    · subst same
      obtain rfl := some.inj (entry.symm.trans he)
      exact .inl ⟨_,rfl,Nat.lt_add_of_pos_right positive,Nat.le_refl _⟩
    · rw [s.expire_other same] at he
      refine (h.ends k' e he).imp_right fun ⟨j,hj⟩ => ⟨j,?_⟩
      have ji : j ≠ i := fun ji => same (some.inj ((ji ▸ hj).symm.trans mine))
      rw [update_of_ne ji]
      exact hj
  · obtain ⟨hj,apart⟩ := others j k' hj
    obtain ⟨e,he,never⟩ := h.endless j k' hj
    exact ⟨e,(s.expire_other apart).trans he,never⟩

end

/-! Answers that are held by one holder each, or spent. -/

section
variable {κ : Type}

structure Distinct (s : Store ν) (held : κ → Option (ν × Ticket)) (spent : List (ν × Ticket)) :
    Prop where
  issued : ∀ i p, held i = some p → s.Issued p.1 p.2
  given : ∀ p ∈ spent, s.Issued p.1 p.2
  alone : ∀ i j p, held i = some p → held j = some p → i = j
  unspent : ∀ i p, held i = some p → p ∉ spent
  once : spent.Nodup

theorem Distinct.later {s s' : Store ν} {held : κ → Option (ν × Ticket)} {spent : List (ν × Ticket)}
    (h : Distinct s held spent) (issued : ∀ k t, s.Issued k t → s'.Issued k t) :
    Distinct s' held spent :=
  ⟨fun i p hi => issued _ _ (h.issued i p hi),fun p hp => issued _ _ (h.given p hp),h.alone,h.unspent,
    h.once⟩

variable [DecidableEq κ] {s : Store ν} {held : κ → Option (ν × Ticket)} {spent : List (ν × Ticket)} {i : κ}

theorem Distinct.dropped (h : Distinct s held spent) (i : κ) :
    Distinct s (update held i none) spent := by
  have others : ∀ j p, update held i none j = some p → held j = some p := by
    intro j p hj
    by_cases ji : j = i
    · subst ji
      simp at hj
    · rwa [update_of_ne ji] at hj
  exact ⟨fun j p hj => h.issued j p (others j p hj),h.given,
    fun j j' p hj hj' => h.alone j j' p (others j p hj) (others j' p hj'),
    fun j p hj => h.unspent j p (others j p hj),h.once⟩

theorem Distinct.spend (h : Distinct s held spent) {p : ν × Ticket} (mine : held i = some p) :
    Distinct s (update held i none) (spent ++ [p]) := by
  refine ⟨(h.dropped i).issued,fun q hq => ?_,(h.dropped i).alone,fun j q hj hq => ?_,?_⟩
  · obtain hq | hq := List.mem_append.1 hq
    · exact h.given q hq
    · obtain rfl := List.mem_singleton.1 hq
      exact h.issued i q mine
  · have ji : j ≠ i := fun ji => by simp [ji] at hj
    rw [update_of_ne ji] at hj
    obtain hq | hq := List.mem_append.1 hq
    · exact h.unspent j q hj hq
    · obtain rfl := List.mem_singleton.1 hq
      exact ji (h.alone j i q hj mine)
  · exact h.once.append (List.nodup_singleton p)
      (List.disjoint_singleton.2 (h.unspent i p mine))

theorem Distinct.take [DecidableEq ν] (h : Distinct s held spent) (i : κ) (k : ν) :
    Distinct (s.incr k) (update held i (some (k,s.ticket k))) spent := by
  have fresh : ∀ p : ν × Ticket, s.Issued p.1 p.2 → p ≠ (k,s.ticket k) := by
    rintro p issued rfl
    exact s.fresh_ticket k issued
  refine ⟨fun j p hj => ?_,fun p hp => (h.given p hp).incr,fun j j' p hj hj' => ?_,
    fun j p hj hp => ?_,h.once⟩
  · by_cases ji : j = i
    · subst ji
      obtain rfl : (k,s.ticket k) = p := by simpa using hj
      exact s.issued_ticket k
    · rw [update_of_ne ji] at hj
      exact (h.issued j p hj).incr
  · by_cases ji : j = i <;> by_cases ji' : j' = i
    · rw [ji,ji']
    · subst ji
      rw [update_of_ne ji'] at hj'
      obtain rfl : (k,s.ticket k) = p := by simpa using hj
      exact absurd rfl (fresh _ (h.issued j' _ hj'))
    · subst ji'
      rw [update_of_ne ji] at hj
      obtain rfl : (k,s.ticket k) = p := by simpa using hj'
      exact absurd rfl (fresh _ (h.issued j _ hj))
    · rw [update_of_ne ji] at hj
      rw [update_of_ne ji'] at hj'
      exact h.alone j j' p hj hj'
  · by_cases ji : j = i
    · subst ji
      obtain rfl : (k,s.ticket k) = p := by simpa using hj
      exact fresh _ (h.given _ hp) rfl
    · rw [update_of_ne ji] at hj
      exact h.unspent j p hj hp

end

/-- Of one life of a counter no more answers up to a limit are spent than the limit. -/
theorem spent_le [DecidableEq ν] {spent : List (ν × Ticket)} (once : spent.Nodup) {k : ν}
    {life limit : Nat} (h : ∀ p ∈ spent, p.1 = k → p.2.life = life → 1 ≤ p.2.count ∧ p.2.count ≤ limit) :
    (spent.filter fun p => p.1 = k ∧ p.2.life = life).length ≤ limit := by
  have chosen : ∀ p ∈ spent.filter fun p => p.1 = k ∧ p.2.life = life,
      p ∈ spent ∧ p.1 = k ∧ p.2.life = life := by simp
  have numbers : ((spent.filter fun p => p.1 = k ∧ p.2.life = life).map fun p => p.2.count).Nodup := by
    refine List.Nodup.map_on (fun p hp q hq same => ?_) (once.filter _)
    obtain ⟨-,pk,pl⟩ := chosen p hp
    obtain ⟨-,qk,ql⟩ := chosen q hq
    obtain ⟨kp,lp,cp⟩ := p
    obtain ⟨kq,lq,cq⟩ := q
    simp_all
  have range : ((spent.filter fun p => p.1 = k ∧ p.2.life = life).map fun p => p.2.count) ⊆
      List.range' 1 limit := by
    intro n hn
    obtain ⟨p,hp,rfl⟩ := List.mem_map.1 hn
    obtain ⟨listed,pk,pl⟩ := chosen p hp
    have := h p listed pk pl
    exact List.mem_range'_1.2 ⟨this.1,by omega⟩
  simpa using (numbers.subperm range).length_le

end ExpiringCounters
