import CircuitBreaker.TransferReplay
import CircuitBreaker.InventoryHonoured

/-! Runs of apply_import calls (services/inventory_transfer/apply.py): what the lock of a plan and the
unique key keep in every run, and what they do not. -/

namespace CircuitBreaker.TransferReplay

open StepRuns List
open InventoryTransfer

/-! The checks, one spec for each answer. -/

section
variable {sha256 : String → String}

theorem replayed_some {operations : List TransferOperation} {request : Request}
    {result : TransferApplyResult} (h : replayed sha256 operations request = .ok (some result)) :
    ∃ op ∈ operations, op.slot = request.slot ∧ op.requestDigest = sha256 request.text ∧
      op.result = some result := by
  rw [replayed] at h
  cases found : operations.find? (·.slot = request.slot) with rw [found] at h
  | none =>
    cases h
  | some op =>
    by_cases same : op.requestDigest ≠ sha256 request.text
    · simp [same] at h
    · refine ⟨op,mem_of_find?_eq_some found,by simpa using find?_some found,
        not_not.1 same,?_⟩
      simp only [same,if_false] at h
      split at h
      · rename_i result' _ eq
        rw [eq]
        injection h
      · cases h

end

section
variable {plans : List TransferPlan} {now : Int} {request : Request}

theorem checked_ok {x : TransferPlan ⊕ TransferApplyResult} (h : checked plans now request = .ok x) :
    ∃ p ∈ plans, p.id = request.planId ∧ p.planDigest = request.expectedDigest ∧
      ((x = .inl p ∧ p.status = .previewed) ∨
        ∃ result, x = .inr result ∧ p.status = .completed ∧ p.result = some result) := by
  rw [checked] at h
  cases found : plans.find? (·.id = request.planId) with rw [found] at h
  | none =>
    cases h
  | some p =>
    refine ⟨p,mem_of_find?_eq_some found,by simpa using find?_some found,?_⟩
    simp only at h
    split at h
    · cases h
    split at h
    · cases h
    rename_i digest
    refine ⟨not_not.1 digest,?_⟩
    split at h
    · cases h
    split at h
    · rename_i result status eq
      injection h with h
      exact .inr ⟨result,h.symm,status,eq⟩
    · rename_i status
      injection h with h
      exact .inl ⟨h.symm,status⟩
    · cases h

end

/-! What every run keeps. -/

def Finished (plans : List TransferPlan) (request : Request) (result : TransferApplyResult) : Prop :=
  ∃ p ∈ plans, p.id = request.planId ∧ p.planDigest = request.expectedDigest ∧
    p.status = .completed ∧ p.result = some result

section
variable (sha256 : String → String) (requests : Set Request)

def CollisionFree : Prop :=
  ∀ r ∈ requests, ∀ r' ∈ requests, sha256 r.text = sha256 r'.text → r.text = r'.text

def Recorded (plans : List TransferPlan) (op : TransferOperation) : Prop :=
  ∃ request ∈ requests, ∃ result, op.result = some result ∧
    op.requestDigest = sha256 request.text ∧ Finished plans request result

structure PlanFits (w : World) (p : TransferPlan) : Prop where
  plainId : ':' ∉ p.id.toList
  plainDigest : ':' ∉ p.planDigest.toList
  stage : (p.status = .previewed ∧ p.id ∉ w.created) ∨ p.status = .completed

/-- The other calls do not stand in the way of this one, and the committed rows bear it out. -/
structure Fits (w : World) (i : Nat) (c : Call) : Prop where
  asked : c.request ∈ requests
  held : ∀ p, c.stage.held = some p → p ∈ w.db.plans ∧ p.status = .previewed ∧
    p.id = c.request.planId ∧ p.planDigest = c.request.expectedDigest
  alone : ∀ p, c.stage.held = some p → ∀ j d q, j ≠ i → w.calls j = some d →
    d.stage.held = some q → q.id ≠ p.id
  free : c.stage.inserted → ∀ op ∈ w.db.operations, op.slot ≠ c.request.slot
  only : c.stage.inserted → ∀ j d, j ≠ i → w.calls j = some d → d.stage.inserted →
    d.request.slot ≠ c.request.slot
  answered : ∀ r a, c.stage = .answered r a → Finished w.db.plans c.request r ∧
    (a ≠ .plan → ∃ op ∈ w.db.operations, op.slot = c.request.slot ∧
      op.requestDigest = sha256 c.request.text)

structure Sound (w : World) : Prop where
  ids : (w.db.plans.map (·.id)).Nodup
  once : w.created.Nodup
  known : ∀ x ∈ w.created, x ∈ w.db.plans.map (·.id)
  plans : ∀ p ∈ w.db.plans, PlanFits w p
  operations : ∀ op ∈ w.db.operations, Recorded sha256 requests w.db.plans op
  keys : ∀ op ∈ w.db.operations, ∀ op' ∈ w.db.operations, op.slot = op'.slot →
    op.requestDigest = op'.requestDigest
  calls : ∀ i c, w.calls i = some c → Fits sha256 requests w i c

end

section
variable {sha256 : String → String} {py : Runtime} {requests : Set Request} {w : World}

theorem start_sound (rows : List CreatedRow) (links : List CreatedLink) :
    Sound sha256 requests (start rows links) where
  ids := nodup_nil
  once := nodup_nil
  known := fun _ there => absurd there not_mem_nil
  plans := fun _ there => absurd there not_mem_nil
  operations := fun _ there => absurd there not_mem_nil
  keys := fun _ there => absurd there not_mem_nil
  calls := fun _ _ there => nomatch there

theorem enter_self (i : Nat) (c : Call) : (w.enter i c).calls i = some c :=
  Function.update_self i _ _

variable {i : Nat}

theorem enter_other {j : Nat} (c : Call) (other : j ≠ i) : (w.enter i c).calls j = w.calls j :=
  Function.update_of_ne other _ _

theorem Sound.enter (h : Sound sha256 requests w) {i : Nat} {c : Call}
    (fits : Fits sha256 requests w i c) : Sound sha256 requests (w.enter i c) := by
  refine ⟨h.ids,h.once,h.known,fun p hp => ?_,h.operations,h.keys,fun j d hd => ?_⟩
  · have old := h.plans p hp
    exact ⟨old.plainId,old.plainDigest,old.stage⟩
  by_cases same : j = i
  · subst same
    rw [enter_self] at hd
    cases hd
    refine ⟨fits.asked,fits.held,fun p hp k e q other he => ?_,fits.free,
      fun hi k e other he => ?_,fits.answered⟩
    · rw [enter_other c other] at he
      exact fits.alone p hp k e q other he
    · rw [enter_other c other] at he
      exact fits.only hi k e other he
  · rw [enter_other c same] at hd
    have old := h.calls j d hd
    refine ⟨old.asked,old.held,fun p hp k e q other he hq => ?_,old.free,
      fun hi k e other he inserted => ?_,old.answered⟩
    · by_cases mine : k = i
      · subst mine
        rw [enter_self] at he
        cases he
        exact fun eq => fits.alone q hq j d p same hd hp eq.symm
      · rw [enter_other c mine] at he
        exact old.alone p hp k e q other he hq
    · by_cases mine : k = i
      · subst mine
        rw [enter_self] at he
        cases he
        exact fun eq => fits.only inserted j d same hd hi eq.symm
      · rw [enter_other c mine] at he
        exact old.only hi k e other he inserted

variable {c : Call}

theorem fits_idle (asked : c.request ∈ requests) (held : c.stage.held = none)
    (inserted : ¬c.stage.inserted) (answered : ∀ r a, c.stage ≠ .answered r a) :
    Fits sha256 requests w i c where
  asked := asked
  held := fun _ hp => nomatch held.symm.trans hp
  alone := fun _ hp => nomatch held.symm.trans hp
  free := fun hi => absurd hi inserted
  only := fun hi => absurd hi inserted
  answered := fun r a eq => absurd eq (answered r a)

variable {request : Request} {r : TransferApplyResult}

theorem fits_answered {a : Source}
    (asked : request ∈ requests) (finished : Finished w.db.plans request r)
    (recorded : a ≠ .plan → ∃ op ∈ w.db.operations, op.slot = request.slot ∧
      op.requestDigest = sha256 request.text) : Fits sha256 requests w i ⟨request,.answered r a⟩ where
  asked := asked
  held := fun _ hp => nomatch hp
  alone := fun _ hp => nomatch hp
  free := fun hi => hi.elim
  only := fun hi => hi.elim
  answered := fun r' a' eq => by
    cases eq
    exact ⟨finished,recorded⟩

theorem Finished.plain (h : Sound sha256 requests w)
    (finished : Finished w.db.plans request r) :
    ':' ∉ request.planId.toList ∧ ':' ∉ request.expectedDigest.toList := by
  obtain ⟨p,hp,ids,digests,-,-⟩ := finished
  have plain := h.plans p hp
  rw [←ids,←digests]
  exact ⟨plain.plainId,plain.plainDigest⟩

theorem Finished.target {plans : List TransferPlan} {request' : Request} (finished : Finished plans request r)
    (same : request'.target = request.target) : Finished plans request' r := by
  obtain ⟨p,hp,ids,digests,rest⟩ := finished
  obtain ⟨ids',digests'⟩ := Prod.mk.inj same
  exact ⟨p,hp,ids.trans ids'.symm,digests.trans digests'.symm,rest⟩

theorem Finished.unique (h : Sound sha256 requests w) {request' : Request}
    {r' : TransferApplyResult} (finished : Finished w.db.plans request r)
    (finished' : Finished w.db.plans request' r') (same : request.planId = request'.planId) :
    r = r' := by
  obtain ⟨p,hp,ids,-,-,result⟩ := finished
  obtain ⟨p',hp',ids',-,-,result'⟩ := finished'
  have eq : p = p' := inj_on_of_nodup_map h.ids hp hp' (ids.trans (same.trans ids'.symm))
  subst eq
  exact Option.some.inj (result.symm.trans result')

theorem Sound.look (h : Sound sha256 requests w) (apart : CollisionFree sha256 requests) (hc : w.calls i = some c) :
    Sound sha256 requests (w.enter i (c.look sha256 w.db.operations)) := by
  have asked := (h.calls i c hc).asked
  refine h.enter ?_
  rw [Call.look]
  cases answer : replayed sha256 w.db.operations c.request with
  | error e => exact fits_idle asked rfl not_false fun _ _ => nofun
  | ok found =>
    cases found with
    | none => exact fits_idle asked rfl not_false fun _ _ => nofun
    | some r =>
      obtain ⟨op,hop,slot,digest,result⟩ := replayed_some answer
      obtain ⟨request,asked',r',result',digest',finished⟩ := h.operations op hop
      have text := apart _ asked _ asked' (digest.symm.trans digest')
      obtain ⟨plain,plain'⟩ := finished.plain h
      have eq : r = r' := Option.some.inj (result.symm.trans result')
      subst eq
      exact fits_answered asked (finished.target (Request.target_of_text plain plain' text))
        fun _ => ⟨op,hop,slot,digest⟩

theorem Sound.check (h : Sound sha256 requests w) {i : Nat} {c : Call} {now : Int}
    (hc : w.calls i = some c)
    (free : ∀ j d p, w.calls j = some d → d.stage.held = some p → p.id ≠ c.request.planId) :
    Sound sha256 requests (w.enter i (c.check w.db.plans now)) := by
  have asked := (h.calls i c hc).asked
  refine h.enter ?_
  rw [Call.check]
  cases answer : checked w.db.plans now c.request with
  | error e => exact fits_idle asked rfl not_false fun _ _ => nofun
  | ok found =>
    obtain ⟨p,hp,ids,digests,⟨rfl,status⟩ | ⟨r,rfl,status,result⟩⟩ := checked_ok answer
    · refine ⟨asked,fun q hq => ?_,fun q hq j d q' _ hd hq' => ?_,fun hi => hi.elim,
        fun hi => hi.elim,fun _ _ => nofun⟩
      · cases hq
        exact ⟨hp,status,ids,digests⟩
      · cases hq
        rw [ids]
        exact free j d q' hd hq'
    · exact fits_answered asked ⟨p,hp,ids,digests,status,result⟩ fun none => absurd rfl none

theorem Sound.insert (h : Sound sha256 requests w) {plan : TransferPlan}
    {made : TransferResult} {operationId : String} {left : List CreatedRow}
    (hc : w.calls i = some c) (stage : c.stage = .locked plan)
    (free : ∀ op ∈ w.db.operations, op.slot ≠ c.request.slot)
    (only : ∀ j d, w.calls j = some d → d.stage.inserted → d.request.slot ≠ c.request.slot) :
    Sound sha256 requests (w.enter i { c with stage := .writing plan operationId made left }) := by
  have old := h.calls i c hc
  have held : c.stage.held = some plan := by rw [stage]; rfl
  refine h.enter ⟨old.asked,fun p hp => ?_,fun p hp => ?_,fun _ => free,
    fun _ j d _ => only j d,fun _ _ => nofun⟩
  · exact old.held p (held.trans hp)
  · exact old.alone p (held.trans hp)

theorem Sound.flush (h : Sound sha256 requests w) {plan : TransferPlan}
    {made : TransferResult} {operationId : String} {left left' : List CreatedRow}
    (hc : w.calls i = some c) (stage : c.stage = .writing plan operationId made left) :
    Sound sha256 requests (w.enter i { c with stage := .writing plan operationId made left' }) := by
  have old := h.calls i c hc
  have held : c.stage.held = some plan := by rw [stage]; rfl
  have inserted : c.stage.inserted := by rw [stage]; trivial
  refine h.enter ⟨old.asked,fun p hp => ?_,fun p hp => ?_,fun _ => old.free inserted,
    fun _ => old.only inserted,fun _ _ => nofun⟩
  · exact old.held p (held.trans hp)
  · exact old.alone p (held.trans hp)

theorem Sound.preview (h : Sound sha256 requests w) {plan : TransferPlan}
    (fresh : plan.id ∉ w.db.plans.map (·.id)) (plainId : ':' ∉ plan.id.toList)
    (plainDigest : ':' ∉ plan.planDigest.toList) (status : plan.status = .previewed) :
    Sound sha256 requests { w with db := { w.db with plans := w.db.plans++[plan] } } := by
  have keeps : ∀ {request r}, Finished w.db.plans request r →
      Finished (w.db.plans++[plan]) request r := fun ⟨p,hp,rest⟩ =>
    ⟨p,mem_append_left _ hp,rest⟩
  refine ⟨?_,h.once,fun x hx => ?_,fun p hp => ?_,fun op hop => ?_,h.keys,fun i c hc => ?_⟩
  · rw [map_append]
    refine nodup_append.2 ⟨h.ids,nodup_singleton _,fun x hx y hy eq => fresh ?_⟩
    have last : y = plan.id := mem_singleton.1 hy
    rwa [←last,←eq]
  · rw [map_append]
    exact mem_append_left _ (h.known x hx)
  · rcases mem_append.1 hp with hp | hp
    · have old := h.plans p hp
      exact ⟨old.plainId,old.plainDigest,old.stage⟩
    · rw [mem_singleton.1 hp]
      exact ⟨plainId,plainDigest,.inl ⟨status,fun there => fresh (h.known _ there)⟩⟩
  · obtain ⟨request,asked,r,result,digest,finished⟩ := h.operations op hop
    exact ⟨request,asked,r,result,digest,keeps finished⟩
  · have old := h.calls i c hc
    refine ⟨old.asked,fun p hp => ?_,old.alone,old.free,old.only,fun r a eq => ?_⟩
    · obtain ⟨there,rest⟩ := old.held p hp
      exact ⟨mem_append_left _ there,rest⟩
    · obtain ⟨finished,recorded⟩ := old.answered r a eq
      exact ⟨keeps finished,recorded⟩

theorem Sound.complete (h : Sound sha256 requests w) {i : Nat} {c : Call} {plan : TransferPlan}
    {made : TransferResult} {operationId : String} {left : List CreatedRow}
    (hc : w.calls i = some c) (stage : c.stage = .writing plan operationId made left) :
    Sound sha256 requests (World.enter
      { w with
        db := w.db.commit sha256 c.request plan operationId made
        created := w.created++[plan.id] }
      i { c with stage := .answered (resultOf operationId made) .applied }) := by
  have fits := h.calls i c hc
  have held : c.stage.held = some plan := by rw [stage]; rfl
  have inserted : c.stage.inserted := by rw [stage]; trivial
  obtain ⟨there,status,ids,digests⟩ := fits.held plan held
  have others : ∀ p ∈ w.db.plans, p.id ≠ plan.id →
      p ∈ (w.db.commit sha256 c.request plan operationId made).plans := fun p hp other =>
    mem_map.2 ⟨p,hp,if_neg other⟩
  have keeps : ∀ {request r}, Finished w.db.plans request r →
      Finished (w.db.commit sha256 c.request plan operationId made).plans request r := by
    intro request r finished
    obtain ⟨p,hp,ids',digests',status',result⟩ := finished
    refine ⟨p,others p hp fun same => ?_,ids',digests',status',result⟩
    have eq : p = plan := inj_on_of_nodup_map h.ids hp there same
    rw [eq,status] at status'
    cases status'
  have mine : Finished (w.db.commit sha256 c.request plan operationId made).plans c.request
      (resultOf operationId made) :=
    ⟨plan.complete (resultOf operationId made),mem_map.2 ⟨plan,there,if_pos rfl⟩,ids,digests,
      rfl,rfl⟩
  have same_ids : (w.db.commit sha256 c.request plan operationId made).plans.map (·.id) =
      w.db.plans.map (·.id) := by
    rw [Db.commit,map_map]
    refine map_congr_left fun p _ => ?_
    show (if p.id = plan.id then p.complete (resultOf operationId made) else p).id = p.id
    split <;> rfl
  have new : plan.id ∉ w.created := by
    rcases (h.plans plan there).stage with ⟨-,new⟩ | completed
    · exact new
    · rw [status] at completed
      cases completed
  refine ⟨?_,?_,fun x hx => ?_,fun p hp => ?_,fun op hop => ?_,fun op hop op' hop' same => ?_,
    fun j d hd => ?_⟩
  · show ((w.db.commit sha256 c.request plan operationId made).plans.map (·.id)).Nodup
    rw [same_ids]
    exact h.ids
  · exact nodup_append.2 ⟨h.once,nodup_singleton _,fun x hx y hy eq =>
      new (by rw [←mem_singleton.1 hy,←eq]; exact hx)⟩
  · show x ∈ (w.db.commit sha256 c.request plan operationId made).plans.map (·.id)
    rw [same_ids]
    rcases mem_append.1 hx with old | old
    · exact h.known x old
    · rw [mem_singleton.1 old]
      exact mem_map_of_mem there
  · obtain ⟨q,hq,rfl⟩ := mem_map.1 hp
    have old := h.plans q hq
    split
    case isTrue =>
      exact ⟨old.plainId,old.plainDigest,.inr rfl⟩
    case isFalse same =>
      refine ⟨old.plainId,old.plainDigest,old.stage.imp_left fun fresh => ⟨fresh.1,fun made => ?_⟩⟩
      rcases mem_append.1 made with made | made
      · exact fresh.2 made
      · exact same (mem_singleton.1 made)
  · rcases mem_append.1 hop with hop | hop
    · obtain ⟨request,asked,r,result,digest,finished⟩ := h.operations op hop
      exact ⟨request,asked,r,result,digest,keeps finished⟩
    · rw [mem_singleton.1 hop]
      exact ⟨c.request,fits.asked,_,rfl,rfl,mine⟩
  · have free := fits.free inserted
    rcases mem_append.1 hop with hop | hop
    · rcases mem_append.1 hop' with hop' | hop'
      · exact h.keys op hop op' hop' same
      · rw [mem_singleton.1 hop'] at same
        exact absurd same (free op hop)
    · rcases mem_append.1 hop' with hop' | hop'
      · rw [mem_singleton.1 hop] at same
        exact absurd same.symm (free op' hop')
      · rw [mem_singleton.1 hop,mem_singleton.1 hop']
  · by_cases me : j = i
    · subst me
      rw [enter_self] at hd
      cases hd
      exact fits_answered fits.asked mine fun _ =>
        ⟨_,mem_append_right _ (mem_singleton_self _),rfl,rfl⟩
    · rw [enter_other _ me] at hd
      have old := h.calls j d hd
      refine ⟨old.asked,fun p hp => ?_,fun p hp k e q other he hq => ?_,fun hi op hop => ?_,
        fun hi k e other he inserted' => ?_,fun r a eq => ?_⟩
      · obtain ⟨there',rest⟩ := old.held p hp
        exact ⟨others p there' (fits.alone plan held j d p me hd hp),rest⟩
      · by_cases also : k = i
        · subst also
          rw [enter_self] at he
          cases he
          cases hq
        · rw [enter_other _ also] at he
          exact old.alone p hp k e q other he hq
      · rcases mem_append.1 hop with hop | hop
        · exact old.free hi op hop
        · rw [mem_singleton.1 hop]
          exact fun eq => fits.only inserted j d me hd hi eq.symm
      · by_cases also : k = i
        · subst also
          rw [enter_self] at he
          cases he
          exact inserted'.elim
        · rw [enter_other _ also] at he
          exact old.only hi k e other he inserted'
      · obtain ⟨finished,recorded⟩ := old.answered r a eq
        refine ⟨keeps finished,fun other => ?_⟩
        obtain ⟨op,hop,rest⟩ := recorded other
        exact ⟨op,mem_append_left _ hop,rest⟩

theorem Sound.step (apart : CollisionFree sha256 requests) (h : Sound sha256 requests w) {act : Act}
    {w' : World} (s : Step sha256 py requests w act w') : Sound sha256 requests w' := by
  cases s with
  | preview plan fresh plainId plainDigest status result => exact h.preview fresh plainId plainDigest status
  | edit rows links =>
    refine ⟨h.ids,h.once,h.known,fun p hp => ?_,h.operations,h.keys,fun i c hc => ?_⟩
    · have old := h.plans p hp
      exact ⟨old.plainId,old.plainDigest,old.stage⟩
    · have old := h.calls i c hc
      exact ⟨old.asked,old.held,old.alone,old.free,old.only,old.answered⟩
  | begin i request new asked => exact h.enter (fits_idle asked rfl not_false fun _ _ => nofun)
  | lookup i c hc stage => exact h.look apart hc
  | lock i c now hc stage free => exact h.check hc free
  | refuse i c plan inv db e hc stage outcome | fail i c hc live =>
    exact h.enter (fits_idle (h.calls i c hc).asked rfl not_false fun _ _ => nofun)
  | insert i c plan inv db made operationId hc stage outcome free only =>
    exact h.insert hc stage free only
  | flush i c plan operationId made row left hc stage => exact h.flush hc stage
  | complete i c plan operationId made hc stage => exact h.complete hc stage

/-! What the runs keep in which no unrecorded key is used for another request. -/

/-- The keys of the calls that were answered from completed plans stand for their requests. -/
structure Apart (sha256 : String → String) (w : World) : Prop where
  recorded : ∀ i c r, w.calls i = some c → c.stage = .answered r .plan →
    ∀ op ∈ w.db.operations, op.slot = c.request.slot → op.requestDigest = sha256 c.request.text
  pairs : ∀ i j c d r s, w.calls i = some c → w.calls j = some d → c.stage = .answered r .plan →
    d.stage = .answered s .plan → c.request.slot = d.request.slot → c.request.target = d.request.target

theorem Apart.enter (h : Apart sha256 w) {i : Nat} {c : Call}
    (other : ∀ r, c.stage ≠ .answered r .plan) : Apart sha256 (w.enter i c) := by
  have old : ∀ {j d r}, (w.enter i c).calls j = some d → d.stage = .answered r .plan →
      w.calls j = some d := by
    intro j d r hd stage
    by_cases same : j = i
    · subst same
      rw [enter_self] at hd
      cases hd
      exact absurd stage (other r)
    · rwa [enter_other c same] at hd
  exact ⟨fun j d r hd stage => h.recorded j d r (old hd stage) stage,
    fun j k d e r s hd he stage stage' => h.pairs j k d e r s (old hd stage) (old he stage') stage stage'⟩

theorem Apart.check (h : Apart sha256 w) {i : Nat} {c : Call} {now : Int}
    (hc : w.calls i = some c) (meets : Meets sha256 w (.lock i now)) :
    Apart sha256 (w.enter i (c.check w.db.plans now)) := by
  rw [Call.check]
  cases answer : checked w.db.plans now c.request with
  | error e => exact h.enter fun _ => nofun
  | ok found =>
    cases found with
    | inl plan => exact h.enter fun _ => nofun
    | inr result =>
      obtain ⟨unrecorded,rows⟩ := meets c result hc answer
      -- the others that were answered so have this key for this request only
      have same : ∀ j d r, j ≠ i → w.calls j = some d → d.stage = .answered r .plan →
          d.request.slot = c.request.slot → d.request.target = c.request.target :=
        fun j d r _ hd stage slot => by_contra fun different =>
          unrecorded ⟨j,d,r,hd,stage,slot,different⟩
      refine ⟨fun j d r hd stage => ?_,fun j k d e r s hd he stage stage' slot => ?_⟩
      · by_cases mine : j = i
        · subst mine
          rw [enter_self] at hd
          cases hd
          exact rows
        · rw [enter_other _ mine] at hd
          exact h.recorded j d r hd stage
      · by_cases mine : j = i
        · subst mine
          rw [enter_self] at hd
          cases hd
          by_cases also : k = j
          · subst also
            rw [enter_self] at he
            cases he
            rfl
          · rw [enter_other _ also] at he
            exact (same k e s also he stage' slot.symm).symm
        · rw [enter_other _ mine] at hd
          by_cases also : k = i
          · subst also
            rw [enter_self] at he
            cases he
            exact same j d r mine hd stage slot
          · rw [enter_other _ also] at he
            exact h.pairs j k d e r s hd he stage stage' slot

theorem Apart.complete (h : Apart sha256 w) {i : Nat} {c : Call} {plan : TransferPlan}
    {made : TransferResult} {operationId : String} {result : TransferApplyResult} {created : List String}
    (hc : w.calls i = some c) (meets : Meets sha256 w (.complete i)) :
    Apart sha256 (World.enter
      { w with
        db := w.db.commit sha256 c.request plan operationId made
        created := created }
      i { c with stage := .answered result .applied }) := by
  have committed : Apart sha256
      { w with
        db := w.db.commit sha256 c.request plan operationId made
        created := created } := ⟨fun j d r hd stage op hop slot => ?_,h.pairs⟩
  · exact committed.enter fun _ => nofun
  rcases mem_append.1 hop with hop | hop
  · exact h.recorded j d r hd stage op hop slot
  · rw [mem_singleton.1 hop] at slot ⊢
    have same : d.request.target = c.request.target :=
      by_contra fun different => meets c hc ⟨j,d,r,hd,stage,slot.symm,different⟩
    obtain ⟨ids,digests⟩ := Prod.mk.inj same
    show sha256 c.request.text = sha256 d.request.text
    rw [Request.text,Request.text,ids,digests]

theorem Apart.step (h : Apart sha256 w) {act : Act} {w' : World}
    (s : Guarded (Step sha256 py requests) (Meets sha256) w act w') : Apart sha256 w' := by
  obtain ⟨meets,s⟩ := s
  cases s with
  | preview plan fresh plainId plainDigest status result | edit rows links =>
    exact ⟨h.recorded,h.pairs⟩
  | begin i request new asked | refuse i c plan inv db e hc stage outcome
  | insert i c plan inv db made operationId hc stage outcome free only
  | flush i c plan operationId made row left hc stage | fail i c hc live =>
    exact h.enter fun _ => nofun
  | lookup i c hc stage =>
    refine h.enter fun r => ?_
    rw [Call.look]
    split <;> exact nofun
  | lock i c now hc stage free => exact h.check hc meets
  | complete i c plan operationId made hc stage => exact h.complete hc meets

theorem start_apart (rows : List CreatedRow) (links : List CreatedLink) :
    Apart sha256 (start rows links) :=
  ⟨(fun _ _ _ there => nomatch there),(fun _ _ _ _ _ _ there => nomatch there)⟩

/-! Answers are final, and only a commit writes. -/

theorem ended_stays {act : Act} {w' : World} (s : Step sha256 py requests w act w')
    (hc : w.calls i = some c) (ended : c.stage.ended) : w'.calls i = some c := by
  have other : ∀ {j d d'}, w.calls j = some d → ¬d.stage.ended → (w.enter j d').calls i = some c := by
    intro j d d' hd live
    rw [enter_other d' fun same => live ?_]
    · exact hc
    · subst same
      rw [hc] at hd
      cases hd
      exact ended
  cases s with
  | preview plan fresh plainId plainDigest status result | edit rows links => exact hc
  | begin j request new asked =>
    rw [enter_other _ fun same => ?_]
    · exact hc
    · subst same
      rw [hc] at new
      cases new
  | lookup j d hd stage | lock j d now hd stage free | refuse j d plan inv db e hd stage outcome
  | insert j d plan inv db made operationId hd stage outcome free only
  | flush j d plan operationId made row left hd stage
  | complete j d plan operationId made hd stage => exact other hd (by rw [stage]; exact id)
  | fail j d hd live => exact other hd live

theorem writes_answered {act : Act} {w' : World} (s : Step sha256 py requests w act w')
    (mine : act.call? = some i) :
    w'.db = w.db ∨ ∃ c r a, w'.calls i = some c ∧ c.stage = .answered r a := by
  cases s with
  | preview plan fresh plainId plainDigest status result | edit rows links => cases mine
  | begin j request new asked | lookup j d hd stage | lock j d now hd stage free
  | refuse j d plan inv db e hd stage outcome
  | insert j d plan inv db made operationId hd stage outcome free only
  | flush j d plan operationId made row left hd stage | fail j d hd live => exact .inl rfl
  | complete j d plan operationId made hd stage =>
    cases mine
    exact .inr ⟨_,_,_,enter_self _ _,rfl⟩

theorem raised_unwritten {s t : World} {act : Act} {after : List Act} {i : Nat} {c : Call}
    {e : ApiError} (step : Step sha256 py requests s act t)
    (rest : Run (Step sha256 py requests) t after w) (mine : act.call? = some i)
    (hc : w.calls i = some c) (raised : c.stage = .raised e) : t.db = s.db := by
  rcases writes_answered step mine with same | ⟨d,r,a,hd,answered⟩
  · exact same
  · have stays : w.calls i = some d :=
      @Run.invariant World Act _ (fun u => u.calls i = some d)
        (fun u act v hu s => ended_stays s hu (by rw [answered]; trivial)) t w after rest hd
    rw [hc] at stays
    cases stays
    rw [raised] at answered
    cases answered

/-- Unless a key that was answered from a completed plan is used for another request, the calls are
idempotent. -/
theorem apply_idempotent (apart : CollisionFree sha256 requests) {rows : List CreatedRow}
    {links : List CreatedLink} {acts : List Act}
    (run : Run (Guarded (Step sha256 py requests) (Meets sha256)) (start rows links) acts w) :
    Idempotent (Step sha256 py requests) (start rows links) w := by
  have sound : Sound sha256 requests w :=
    run.unguarded.invariant (fun _ _ _ h s => h.step apart s) (start_sound rows links)
  have keys : Apart sha256 w := run.invariant (fun _ _ _ h s => h.step s) (start_apart rows links)
  refine ⟨sound.once,fun i j c d r s a b hc hd answered answered' same => ?_,
    fun i j c d r s a b hc hd answered answered' slot => ?_,
    fun before s act t after i c e _ step rest mine hc raised =>
      @raised_unwritten sha256 py requests w s t act after i c e step rest mine hc raised⟩
  · obtain ⟨finished,-⟩ := (sound.calls i c hc).answered r a answered
    obtain ⟨finished',-⟩ := (sound.calls j d hd).answered s b answered'
    exact finished.unique sound finished' same
  · obtain ⟨finished,row⟩ := (sound.calls i c hc).answered r a answered
    obtain ⟨-,row'⟩ := (sound.calls j d hd).answered s b answered'
    obtain ⟨plain,plain'⟩ := finished.plain sound
    have digest : a ≠ .plan ∨ b ≠ .plan → sha256 c.request.text = sha256 d.request.text := by
      intro some_
      by_cases ha : a = .plan
      · subst ha
        obtain ⟨op,hop,hslot,hdigest⟩ := row' (some_.resolve_left fun none => none rfl)
        rw [←hdigest]
        exact (keys.recorded i c r hc answered op hop (hslot.trans slot.symm)).symm
      · obtain ⟨op,hop,hslot,hdigest⟩ := row ha
        by_cases hb : b = .plan
        · subst hb
          rw [←hdigest]
          exact keys.recorded j d s hd answered' op hop (hslot.trans slot)
        · obtain ⟨op',hop',hslot',hdigest'⟩ := row' hb
          rw [←hdigest,←hdigest']
          exact sound.keys op hop op' hop' (hslot.trans (slot.trans hslot'.symm))
    by_cases both : a = .plan ∧ b = .plan
    · obtain ⟨rfl,rfl⟩ := both
      exact keys.pairs i j c d r s hc hd answered answered' slot
    · have text := apart _ (sound.calls i c hc).asked _ (sound.calls j d hd).asked
        (digest (not_and_or.1 both))
      exact (Request.target_of_text plain plain' text.symm).symm

theorem enter_enter (i : Nat) (c c' : Call) : (w.enter i c).enter i c' = w.enter i c' := by
  rw [World.enter,World.enter,World.enter]
  exact congrArg (World.mk w.db · w.created) (Function.update_idem _ _ _)

def Quiet (w : World) : Prop := ∀ j c, w.calls j = some c → c.stage.ended

theorem Quiet.enter (h : Quiet w) {i : Nat} {c : Call} (ended : c.stage.ended) :
    Quiet (w.enter i c) := by
  intro j d hd
  by_cases same : j = i
  · subst same
    rw [enter_self] at hd
    cases hd
    exact ended
  · rw [enter_other _ same] at hd
    exact h j d hd

theorem Quiet.others (h : Quiet w) {j : Nat} {d : Call} (hd : (w.enter i c).calls j = some d) :
    d = c ∨ (d.stage.held = none ∧ ¬d.stage.inserted) := by
  by_cases same : j = i
  · subst same
    rw [enter_self] at hd
    exact .inl (Option.some.inj hd).symm
  · rw [enter_other _ same] at hd
    have ended := h j d hd
    refine .inr ?_
    cases hs : d.stage <;> rw [hs] at ended <;> first | exact ⟨rfl,id⟩ | exact ended.elim

theorem Quiet.unlocked (h : Quiet w) {i : Nat} {request : Request} :
    ∀ j d p, (w.enter i ⟨request,.unreplayed⟩).calls j = some d → d.stage.held = some p →
      p.id ≠ request.planId := by
  intro j d p hd hp
  rcases h.others hd with rfl | ⟨none,-⟩
  · cases hp
  · cases none.symm.trans hp

theorem comes_to_commit {i : Nat} {request : Request} {plan : TransferPlan} {now : Int}
    {inv : Inventory} {db : Database inv} {made : TransferResult} (operationId : String)
    (new : w.calls i = none) (asked : request ∈ requests)
    (free : ∀ op ∈ w.db.operations, op.slot ≠ request.slot)
    (available : checked w.db.plans now request = .ok (.inl plan))
    (quiet : Quiet w)
    (outcome : applyImport py inv db plan.built plan.document = .ok made) :
    ∃ acts, Run (Guarded (Step sha256 py requests) (Meets sha256)) w acts
      (w.enter i ⟨request,.writing plan operationId made []⟩) := by
  have unreplayed : replayed sha256 w.db.operations request = .ok none := by
    rw [replayed,find?_eq_none.2 fun op hop => by simpa using free op hop]
  have began := (@Run.nil World Act (Guarded (Step sha256 py requests) (Meets sha256)) w).also
    (Step.begin i request new asked) trivial
  have looked := began.also (Step.lookup i ⟨request,.begun⟩ (enter_self i _) rfl) trivial
  have look : (⟨request,.begun⟩ : Call).look sha256 w.db.operations = ⟨request,.unreplayed⟩ := by
    simp only [Call.look,unreplayed]
  rw [enter_enter] at looked
  rw [show (w.enter i ⟨request,.begun⟩).db = w.db from rfl,look] at looked
  have locked := looked.also (Step.lock i ⟨request,.unreplayed⟩ now (enter_self i _) rfl
    quiet.unlocked) fun c r hc answer => by
      rw [enter_self] at hc
      cases hc
      cases available.symm.trans answer
  have check : (⟨request,.unreplayed⟩ : Call).check w.db.plans now = ⟨request,.locked plan⟩ := by
    simp only [Call.check,available]
  rw [enter_enter,show (w.enter i ⟨request,.unreplayed⟩).db = w.db from rfl,check] at locked
  have inserted := locked.also (Step.insert i ⟨request,.locked plan⟩ plan inv db made operationId
    (enter_self i _) rfl outcome free fun j d hd hi => by
      rcases quiet.others hd with rfl | ⟨-,none⟩
      · exact hi.elim
      · exact absurd hi none) trivial
  rw [enter_enter] at inserted
  have flushed : ∀ (left : List CreatedRow) acts, Run (Guarded (Step sha256 py requests) (Meets sha256))
      w acts (w.enter i ⟨request,.writing plan operationId made left⟩) →
      ∃ acts, Run (Guarded (Step sha256 py requests) (Meets sha256)) w acts
        (w.enter i ⟨request,.writing plan operationId made []⟩) := by
    intro left
    induction left with
    | nil => exact fun acts run => ⟨acts,run⟩
    | cons row left ih =>
      intro acts run
      have more := run.also (Step.flush i ⟨request,.writing plan operationId made (row::left)⟩ plan
        operationId made row left (enter_self i _) rfl) trivial
      rw [enter_enter] at more
      exact ih _ more
  exact flushed made.rows _ inserted

end

/-! A document that was previewed twice. -/

def oneHost : Document where
  entities := .ofPairs [(.hardware,[.ofPairs [("id",.int 7),("name",.str "rack")]])]
  relationships := .empty
  entityCount := 1
  relationCount := 0
  entitiesValid := by decide
  relationsValid := no_relations
  bounded := by decide

def hostPlan : BuiltImportPlan where
  inventoryDigest := ""
  plan :=
    { mappings := .ofPairs [(.hardware,[⟨7,.create []⟩])]
      creates := .ofPairs [(.hardware,1)]
      matches_ := .ofPairs [(.hardware,0)]
      relationships := .empty
      resolutions := []
      refOverrides := .empty
      relationOverrides := .empty
      conflictCount := 0 }
  conflicts := []

def noHosts : Inventory := ⟨fun _ => []⟩

def rackHost : Inventory where
  rows := fun t => match t with
    | .hardware => [⟨1,some "rack"⟩]
    | _ => []

theorem oneHost_applies {inv : Inventory}
    (some_ : (applyImport plainRuntime inv (spareDatabase inv []) hostPlan oneHost).toOption.isSome) :
    ∃ made, applyImport plainRuntime inv (spareDatabase inv []) hostPlan oneHost = .ok made := by
  cases h : applyImport plainRuntime inv (spareDatabase inv []) hostPlan oneHost with
  | error e =>
    rw [h] at some_
    cases some_
  | ok made => exact ⟨made,rfl⟩

def firstPreview : TransferPlan := ⟨"a1",1,.previewed,"d1",hostPlan,oneHost,1800,none⟩

def secondPreview : TransferPlan := ⟨"b2",1,.previewed,"d2",hostPlan,oneHost,1900,none⟩

def twoDigests (text : String) : String :=
  if text = "a1:d1" then "55f0a43512fc289618b9880e4fca7d12c1a5ee8823eb1026fdc4e319d2c2c150"
  else "f7bbcc3f302412645f813ec475527c5b321b1ece057709e0f2e5c331fe69b383"

def ask (plan : TransferPlan) (key : String) : Request := ⟨plan.id,plan.planDigest,key,1⟩

def twoPreviews : Set Request :=
  fun request => ∃ plan key, (plan = firstPreview ∨ plan = secondPreview) ∧ request = ask plan key

theorem twoPreviews_apart : CollisionFree twoDigests twoPreviews := by
  intro r hr r' hr' same
  obtain ⟨plan,key,hplan,rfl⟩ := hr
  obtain ⟨plan',key',hplan',rfl⟩ := hr'
  have texts : ∀ key, (ask firstPreview key).text = "a1:d1" ∧ (ask secondPreview key).text = "b2:d2" :=
    fun _ => ⟨rfl,rfl⟩
  have differ : twoDigests "a1:d1" ≠ twoDigests "b2:d2" := by decide
  rcases hplan with rfl | rfl
  · rcases hplan' with rfl | rfl
    · rfl
    · rw [(texts key).1,(texts key').2] at same
      exact absurd same differ
  · rcases hplan' with rfl | rfl
    · rw [(texts key).2,(texts key').1] at same
      exact absurd same.symm differ
    · rfl

def firstApplied (made : TransferResult) : World :=
  World.enter
    { db := (⟨[firstPreview],[],[],[]⟩ : Db).commit twoDigests (ask firstPreview "key-first")
        firstPreview "c3" made
      calls := Function.update (fun _ => none) 0
        (some ⟨ask firstPreview "key-first",.writing firstPreview "c3" made []⟩)
      created := ["a1"] }
    0 ⟨ask firstPreview "key-first",.answered (resultOf "c3" made) .applied⟩

theorem firstApplied_quiet (made : TransferResult) : Quiet (firstApplied made) := by
  intro j c hc
  by_cases first : j = 0
  · subst first
    cases hc
    trivial
  · have none : (firstApplied made).calls j = none := by
      simp [firstApplied,World.enter,first]
    rw [none] at hc
    cases hc

theorem first_applied : ∃ acts made, Run (Guarded (Step twoDigests plainRuntime twoPreviews)
    (Meets twoDigests)) (start [] []) acts (firstApplied made) := by
  obtain ⟨made,outcome⟩ := @oneHost_applies noHosts (by decide)
  have previewed := (@Run.nil World Act (Guarded (Step twoDigests plainRuntime twoPreviews)
    (Meets twoDigests)) (start [] [])).also
      (Step.preview firstPreview not_mem_nil (by decide) (by decide) rfl rfl) trivial
  obtain ⟨acts,writing⟩ := @comes_to_commit twoDigests plainRuntime twoPreviews
    ⟨⟨[firstPreview],[],[],[]⟩,fun _ => none,[]⟩ 0 (ask firstPreview "key-first") firstPreview 0 noHosts
    _ made "c3" rfl ⟨firstPreview,"key-first",.inl rfl,rfl⟩ (by simp) rfl
    nofun outcome
  have applied := (previewed.append writing).also (Step.complete 0 _ firstPreview "c3" made
    (enter_self 0 _) rfl) fun c _ => (by
      intro unrecorded
      obtain ⟨j,d,r,hd,stage,-⟩ := unrecorded
      by_cases same : j = 0
      · subst same
        rw [enter_self] at hd
        cases hd
        cases stage
      · rw [enter_other _ same] at hd
        cases hd)
  exact ⟨_,made,applied⟩

theorem retry_idempotent : ∃ acts w, Run (Guarded (Step twoDigests plainRuntime twoPreviews)
      (Meets twoDigests)) (start [] []) acts w ∧
    (∃ c r, w.calls 1 = some c ∧ c.stage = .answered r .operation) ∧
    Idempotent (Step twoDigests plainRuntime twoPreviews) (start [] []) w := by
  obtain ⟨acts,made,run⟩ := first_applied
  have begun := run.also (Step.begin 1 (ask firstPreview "key-first") rfl
    ⟨firstPreview,"key-first",.inl rfl,rfl⟩) trivial
  have looked := begun.also (Step.lookup 1 _ (enter_self 1 _) rfl) trivial
  have look : (⟨ask firstPreview "key-first",.begun⟩ : Call).look twoDigests
      (firstApplied made).db.operations =
        ⟨ask firstPreview "key-first",.answered (resultOf "c3" made) .operation⟩ := rfl
  exact ⟨_,_,looked,⟨_,_,enter_self 1 _,congrArg Call.stage look⟩,
    apply_idempotent twoPreviews_apart looked⟩

/-- A call under a second key has been answered from the completed plan, and the second preview made. -/
def bothPreviewed (made : TransferResult) : World :=
  World.enter
    { firstApplied made with
      db := { (firstApplied made).db with plans := (firstApplied made).db.plans++[secondPreview] } }
    1 ⟨ask firstPreview "key-second",.answered (resultOf "c3" made) .plan⟩

/-- A completed plan answers under a second key, which then applies the second preview. -/
theorem unrecorded_reused : CollisionFree twoDigests twoPreviews ∧ ∃ acts w,
    Run (Step twoDigests plainRuntime twoPreviews) (start [] []) acts w ∧
    ¬Idempotent (Step twoDigests plainRuntime twoPreviews) (start [] []) w := by
  refine ⟨twoPreviews_apart,?_⟩
  obtain ⟨acts,made,run⟩ := first_applied
  have quiet := firstApplied_quiet made
  have begun := run.unguarded.snoc (Step.begin 1 (ask firstPreview "key-second") rfl
    ⟨firstPreview,"key-second",.inl rfl,rfl⟩)
  have looked := begun.snoc (Step.lookup 1 _ (enter_self 1 _) rfl)
  have look : (⟨ask firstPreview "key-second",.begun⟩ : Call).look twoDigests
      (firstApplied made).db.operations = ⟨ask firstPreview "key-second",.unreplayed⟩ := rfl
  rw [enter_enter,show ((firstApplied made).enter 1 ⟨ask firstPreview "key-second",.begun⟩).db =
    (firstApplied made).db from rfl,look] at looked
  have locked := looked.snoc (Step.lock 1 _ 0 (enter_self 1 _) rfl quiet.unlocked)
  have check : (⟨ask firstPreview "key-second",.unreplayed⟩ : Call).check
      (firstApplied made).db.plans 0 =
        ⟨ask firstPreview "key-second",.answered (resultOf "c3" made) .plan⟩ := rfl
  rw [enter_enter,show ((firstApplied made).enter 1 ⟨ask firstPreview "key-second",.unreplayed⟩).db =
    (firstApplied made).db from rfl,check] at locked
  have second := locked.snoc (Step.preview secondPreview
    (show "b2" ∉ ["a1"] by decide) (by decide) (by decide) rfl rfl)
  obtain ⟨made',outcome⟩ := @oneHost_applies rackHost (by decide)
  obtain ⟨acts',writing⟩ := @comes_to_commit twoDigests plainRuntime twoPreviews
    (bothPreviewed made) 2 (ask secondPreview "key-second") secondPreview 0 rackHost _ made' "d4" rfl
    ⟨secondPreview,"key-second",.inr rfl,rfl⟩ (by
      intro op hop
      rw [mem_singleton.1 hop]
      show ((1,"key-first") : Nat × String) ≠ (1,"key-second")
      decide) rfl (@Quiet.enter (firstApplied made) quiet 1 _ trivial) outcome
  have applied := (second.append writing.unguarded).snoc (Step.complete 2 _ secondPreview "d4" made'
    (enter_self 2 _) rfl)
  refine ⟨_,_,applied,fun h => ?_⟩
  have same : ("a1","d1") = ("b2","d2") := h.key 1 2 _ _ _ _ _ _ rfl rfl rfl rfl rfl
  exact absurd same (by decide)

end CircuitBreaker.TransferReplay
