import CircuitBreaker.BlastRadius

/-! What an impact traversal reports of the graph: where it went, by which paths, and what it left
out when a limit stopped it. -/

namespace CircuitBreaker.BlastRadius

open BreadthFirst DependencyEdges JsonText List

section

variable {edges : List DependencyEdge} {inc : Bool} {root : AssetKey} {limits : ImpactLimits}

/-- The adjacency of these edges, as a function. -/
abbrev leaving (edges : List DependencyEdge) (inc : Bool) (u : AssetKey) : List DependencyEdge :=
  outgoing (buildImpactAdjacency edges inc) u

abbrev Searched (edges : List DependencyEdge) (inc : Bool) (root : AssetKey)
    (s : Search AssetKey DependencyEdge) (closed frontier : List AssetKey) : Prop :=
  Sound DependencyEdge.provider DependencyEdge.dependent (leaving edges inc) root s closed frontier

variable {u : AssetKey}

variable {e : DependencyEdge} {pre : List DependencyEdge}

theorem leaving_provider (h : e ∈ leaving edges inc u) : e.provider = u :=
  ((outgoing_spec inc edges).2.1 u e h).1

structure Resting (edges : List DependencyEdge) (inc : Bool) (root : AssetKey)
    (limits : ImpactLimits) (closed : List AssetKey) (t : Traversal) : Prop where
  sound : Searched edges inc root t.search closed t.search.queue
  explored : t.explored = closed.flatMap (leaving edges inc)
  going : t.truncationReason = none
  few : (t.search.visited.length : Int) ≤ limits.maxNodes+1

/-- In the midst of the edges that leave `u`. -/
structure Midway (edges : List DependencyEdge) (inc : Bool) (root : AssetKey)
    (limits : ImpactLimits) (closed : List AssetKey) (u : AssetKey)
    (pre rest : List DependencyEdge) (t : Traversal) : Prop where
  sound : Searched edges inc root t.search closed (u::t.search.queue)
  split : leaving edges inc u = pre++rest
  seen : ∀ e ∈ pre,e.dependent ∈ t.search.visited
  explored : t.explored = closed.flatMap (leaving edges inc)++pre
  going : t.truncationReason = none
  few : (t.search.visited.length : Int) ≤ limits.maxNodes+1

/-- A limit stopped the traversal before an edge out of a visited asset, and the node limit before
one to an asset that was not visited. -/
structure Stopped (edges : List DependencyEdge) (inc : Bool) (root : AssetKey)
    (limits : ImpactLimits) (t : Traversal) : Prop where
  sound : ∃ closed frontier,Searched edges inc root t.search closed frontier
  stopped : t.truncationReason.isSome = true
  few : (t.search.visited.length : Int) ≤ limits.maxNodes+1
  left : ∃ e ∈ leaving edges inc e.provider,e.provider ∈ t.search.visited ∧ e ∉ t.explored ∧
    (t.truncationReason = some .nodeLimit → e.dependent ∉ t.search.visited)

variable {closed : List AssetKey} {rest : List DependencyEdge} {t : Traversal}

theorem Midway.unexplored
    (h : Midway edges inc root limits closed u pre (e::rest) t) : e ∉ t.explored := by
  have he : e ∈ leaving edges inc u := by simp [h.split]
  have distinct := (outgoing_spec inc edges).1 u
  change (leaving edges inc u).Nodup at distinct
  rw [h.split] at distinct
  have open_u : u ∉ closed := fun hu => by
    have once := h.sound.once
    rw [h.sound.split] at once
    exact (nodup_append.1 once).2.2 u hu u mem_cons_self rfl
  rw [h.explored,mem_append,mem_flatMap]
  rintro (⟨w,hw,hm⟩ | hp)
  · have hwu := (leaving_provider hm).symm.trans (leaving_provider he)
    exact open_u (hwu ▸ hw)
  · exact (nodup_append.1 distinct).2.2 e hp e mem_cons_self rfl

theorem Midway.stop {t' : Traversal}
    (h : Midway edges inc root limits closed u pre (e::rest) t) (same : t'.search = t.search)
    (explored : t'.explored = t.explored) (reason : t'.truncationReason.isSome = true)
    (new : t'.truncationReason = some .nodeLimit → e.dependent ∉ t.search.visited) :
    Stopped edges inc root limits t' := by
  have he : e ∈ leaving edges inc u := by simp [h.split]
  have hu : u ∈ t.search.visited := by simp [h.sound.split]
  refine ⟨⟨closed,_,same ▸ h.sound⟩,reason,same ▸ h.few,e,?_,?_,?_,?_⟩
  · exact (leaving_provider he).symm ▸ he
  · rw [same,leaving_provider he]
    exact hu
  · rw [explored]
    exact h.unexplored
  · rw [same]
    exact new

theorem Midway.next {closed : List AssetKey} {u : AssetKey} {e : DependencyEdge}
    {pre rest : List DependencyEdge} {t t' : Traversal}
    (h : Midway edges inc root limits closed u pre (e::rest) t)
    (sound : Searched edges inc root t'.search closed (u::t'.search.queue))
    (grows : ∀ x ∈ t.search.visited,x ∈ t'.search.visited)
    (seen : e.dependent ∈ t'.search.visited) (explored : t'.explored = t.explored++[e])
    (going : t'.truncationReason = none)
    (few : (t'.search.visited.length : Int) ≤ limits.maxNodes+1) :
    Midway edges inc root limits closed u (pre++[e]) rest t' := by
  refine ⟨sound,?_,fun a ha => ?_,?_,going,few⟩
  · rw [h.split]
    simp
  · rcases mem_append.1 ha with ha | ha
    · exact grows _ (h.seen a ha)
    · exact mem_singleton.1 ha ▸ seen
  · rw [explored,h.explored,append_assoc]

theorem Midway.examine (h : Midway edges inc root limits closed u pre rest t) :
    Resting edges inc root limits (closed++[u]) (examine limits u rest t) ∨
      Stopped edges inc root limits (examine limits u rest t) := by
  induction rest generalizing pre t with
  | nil =>
    left
    have all := h.split
    rw [append_nil] at all
    refine ⟨h.sound.finish fun e he => h.seen e (all ▸ he),?_,h.going,h.few⟩
    rw [BlastRadius.examine,h.explored,flatMap_append,flatMap_singleton,all]
  | cons e rest ih =>
    unfold BlastRadius.examine
    split
    case isTrue => exact .inr (h.stop rfl rfl rfl nofun)
    case isFalse =>
      split
      case isTrue seen => exact ih (h.next h.sound (fun _ hx => hx) seen rfl h.going h.few)
      case isFalse new =>
        split
        case isTrue => exact .inr (h.stop rfl rfl rfl fun _ => new)
        case isFalse room =>
          have he : e ∈ leaving edges inc u := by simp [h.split]
          have size : ((t.search.visited++[e.dependent]).length : Int) ≤ limits.maxNodes+1 := by
            rw [length_append,length_singleton]
            push_cast
            omega
          exact ih (h.next (h.sound.visit (leaving_provider he) he new)
            (fun _ hx => mem_append_left _ hx) (mem_append_right _ (by simp)) rfl
            h.going size)

theorem Resting.pop {queue : List AssetKey}
    (h : Resting edges inc root limits closed t) (hq : t.search.queue = u::queue) :
    Midway edges inc root limits closed u [] (leaving edges inc u) (t.pop queue) := by
  obtain ⟨sound,explored,going,few⟩ := h
  rw [hq] at sound
  obtain ⟨split,once,found,top,done,sorted,spread,back,bounded⟩ := sound
  refine ⟨⟨split,once,found,top,done,sorted,spread,back,bounded⟩,rfl,(fun _ h => nomatch h),?_,going,few⟩
  rw [append_nil]
  exact explored

theorem traverse_stays {adjacency : Dict AssetKey (List DependencyEdge)} (n : Nat)
    (h : t.truncationReason.isSome = true) : traverse limits adjacency n t = t := by
  cases n with
  | zero => rfl
  | succ n => simp [traverse,h]

theorem traverse_turn {adjacency : Dict AssetKey (List DependencyEdge)} {n : Nat} {queue : List AssetKey} (going : t.truncationReason = none)
    (hq : t.search.queue = u::queue) :
    traverse limits adjacency (n+1) t =
      if limits.maxDepth ≤ (t.search.depth u : Int) ∧ outgoing adjacency u ≠ [] then
        (t.pop queue).truncate .depthLimit
      else traverse limits adjacency n (examine limits u (outgoing adjacency u) (t.pop queue)) := by
  simp [traverse,going,hq]

theorem Resting.traverse {n : Nat} (h : Resting edges inc root limits closed t)
    (enough : limits.maxNodes+1 ≤ (closed.length : Int)+n) :
    (∃ closed',Resting edges inc root limits closed'
        (traverse limits (buildImpactAdjacency edges inc) n t) ∧
      (traverse limits (buildImpactAdjacency edges inc) n t).search.queue = []) ∨
    Stopped edges inc root limits (traverse limits (buildImpactAdjacency edges inc) n t) := by
  induction n generalizing closed t with
  | zero =>
    have size := h.few
    rw [h.sound.split,length_append] at size
    push_cast at size enough
    have empty : t.search.queue.length = 0 := by omega
    exact .inl ⟨closed,h,length_eq_zero_iff.1 empty⟩
  | succ n ih =>
    cases hq : t.search.queue with
    | nil =>
      have ends : BlastRadius.traverse limits (buildImpactAdjacency edges inc) (n+1) t = t := by
        simp [BlastRadius.traverse,hq]
      rw [ends]
      exact .inl ⟨closed,h,hq⟩
    | cons u queue =>
      have midway := h.pop hq
      rw [traverse_turn h.going hq]
      split
      case isTrue deep =>
        obtain ⟨e,rest,hl⟩ := exists_cons_of_ne_nil deep.2
        rw [leaving,hl] at midway
        exact .inr (midway.stop rfl rfl rfl nofun)
      case isFalse =>
        rcases midway.examine with resting | stopped
        · refine ih resting ?_
          rw [length_append,length_singleton]
          push_cast at enough ⊢
          omega
        · rw [traverse_stays n stopped.stopped]
          exact .inr stopped

theorem traversal_ends (positive : 1 ≤ limits.maxNodes) :
    (∃ closed,Resting edges inc root limits closed
        (traversal limits (buildImpactAdjacency edges inc) root) ∧
      (traversal limits (buildImpactAdjacency edges inc) root).search.queue = []) ∨
    Stopped edges inc root limits (traversal limits (buildImpactAdjacency edges inc) root) := by
  have first : Resting edges inc root limits [] (begin root) := by
    refine ⟨start_sound,rfl,rfl,?_⟩
    change ((1 : Nat) : Int) ≤ _
    push_cast
    omega
  refine first.traverse ?_
  rw [Int.toNat_of_nonneg (by omega)]
  simp

end

/-! ### Assets that exist -/

def Exists (db : Database) (ref : AssetRef) : Prop := ref ∈ (modelRows db ref.assetType).getD []

variable {db : Database}

variable {ref : AssetRef} {keys : List AssetKey}

theorem modelRows_type {t : AssetType}
    (h : ref ∈ (modelRows db t).getD []) : ref.assetType = t := by
  cases t with
  | network => cases h
  | _ =>
    obtain ⟨obj,-,rfl⟩ := mem_map.1 h
    rfl

theorem modelRows_ids (db : Database) (t : AssetType) :
    (((modelRows db t).getD []).map AssetRef.assetId).Nodup := by
  cases t with
  | network => exact nodup_nil
  | hardware => simpa [modelRows,Function.comp_def] using db.hardware.primary
  | computeUnit => simpa [modelRows,Function.comp_def] using db.computeUnits.primary
  | service => simpa [modelRows,Function.comp_def] using db.services.primary
  | storage => simpa [modelRows,Function.comp_def] using db.storage.primary

section

variable {κ α : Type} [DecidableEq κ]

theorem gather_values {pairs : List (κ × α)} {k : κ} {l : List α} {a : α}
    (h : (k,l) ∈ (Dict.gather pairs).items) : a ∈ l ↔ (k,a) ∈ pairs := by
  rw [(Dict.mem_gather.1 h).1,mem_map]
  constructor
  · rintro ⟨p,hp,rfl⟩
    obtain ⟨hm,hk⟩ := mem_filter.1 hp
    obtain rfl := of_decide_eq_true hk
    exact hm
  · exact fun hm => ⟨(k,a),mem_filter.2 ⟨hm,by simp⟩,rfl⟩

theorem gather_has {pairs : List (κ × α)} {k : κ} {a : α} (h : (k,a) ∈ pairs) :
    ∃ l,(k,l) ∈ (Dict.gather pairs).items := by
  refine ⟨_,Dict.mem_gather.2 ⟨rfl,fun none => ?_⟩⟩
  have hm : a ∈ (pairs.filter (·.1 = k)).map Prod.snd :=
    mem_map.2 ⟨(k,a),mem_filter.2 ⟨h,by simp⟩,rfl⟩
  rw [none] at hm
  cases hm

end

theorem resolved_nodup (db : Database) (groups : Dict AssetType (List Int)) :
    ((groups.items.flatMap fun group =>
      (((modelRows db group.1).getD []).filter fun ref => ref.assetId ∈ group.2).map fun ref =>
        ((group.1,ref.assetId),ref)).map Prod.fst).Nodup := by
  rw [map_flatMap]
  refine nodup_flatMap.2 ⟨fun group _ => ?_,?_⟩
  · have ids := (modelRows_ids db group.1).sublist (List.Sublist.map AssetRef.assetId
      (filter_sublist (p := fun ref : AssetRef => decide (ref.assetId ∈ group.2))))
    refine List.Nodup.of_map Prod.snd ?_
    rw [map_map,map_map]
    exact ids
  · refine (pairwise_map.1 groups.nodup).imp fun {a b} apart k ha hb => ?_
    simp only [mem_map] at ha hb
    obtain ⟨_,⟨_,-,rfl⟩,rfl⟩ := ha
    obtain ⟨_,⟨_,-,rfl⟩,same⟩ := hb
    exact apart (congrArg Prod.fst same).symm

theorem mem_resolveMany {k : AssetKey} :
    (k,ref) ∈ (resolveMany db keys).items ↔ k ∈ keys ∧ ref.key = k ∧ Exists db ref := by
  rw [resolveMany,Dict.items_ofPairs (resolved_nodup db _)]
  simp only [mem_flatMap,mem_map,mem_filter,decide_eq_true_eq]
  constructor
  · rintro ⟨⟨t,ids⟩,hg,r,⟨hr,hid⟩,same⟩
    obtain ⟨rfl,rfl⟩ := Prod.mk.inj same
    obtain ⟨asked,-⟩ := mem_filter.1 ((gather_values hg).1 hid)
    obtain rfl := modelRows_type hr
    exact ⟨asked,rfl,hr⟩
  · rintro ⟨asked,rfl,hr⟩
    have known : (modelRows db ref.assetType).isSome = true := by
      cases hm : modelRows db ref.assetType with
      | none => simp [Exists,hm] at hr
      | some rows => rfl
    have inside : ref.key ∈ keys.filter fun key => (modelRows db key.1).isSome :=
      mem_filter.2 ⟨asked,known⟩
    obtain ⟨ids,hg⟩ := gather_has inside
    exact ⟨(ref.assetType,ids),hg,ref,⟨hr,(gather_values hg).2 inside⟩,rfl⟩

theorem refKey_key {a b : AssetRef} (h : refKey a = refKey b) : a.key = b.key := by
  obtain ⟨kind,id⟩ := Prod.mk.inj h
  exact Prod.ext (text_injective kind) id

theorem resolved_distinct {a b : AssetRef} (ha : a ∈ (resolveMany db keys).items.map Prod.snd)
    (hb : b ∈ (resolveMany db keys).items.map Prod.snd) (h : a.key = b.key) : a = b := by
  obtain ⟨⟨k,_⟩,inA,rfl⟩ := mem_map.1 ha
  obtain ⟨⟨k',_⟩,inB,rfl⟩ := mem_map.1 hb
  obtain ⟨-,rfl,-⟩ := mem_resolveMany.1 inA
  obtain ⟨-,rfl,-⟩ := mem_resolveMany.1 inB
  have left := Dict.get_eq_some_iff.2 inA
  rw [h,Dict.get_eq_some_iff.2 inB] at left
  exact (Option.some.inj left).symm

theorem resolved_values :
    ref ∈ (resolveMany db keys).items.map Prod.snd ↔ ref.key ∈ keys ∧ Exists db ref := by
  rw [mem_map]
  constructor
  · rintro ⟨⟨k,r⟩,hm,rfl⟩
    obtain ⟨asked,rfl,he⟩ := mem_resolveMany.1 hm
    exact ⟨asked,he⟩
  · rintro ⟨asked,he⟩
    exact ⟨(ref.key,ref),mem_resolveMany.2 ⟨asked,rfl,he⟩,rfl⟩

theorem resolved_values_nodup (db : Database) (keys : List AssetKey) :
    ((resolveMany db keys).items.map Prod.snd).Nodup := by
  refine List.Nodup.of_map AssetRef.key ?_
  rw [map_map]
  have same : (resolveMany db keys).items.map (AssetRef.key ∘ Prod.snd) =
      (resolveMany db keys).items.map Prod.fst :=
    map_congr_left fun p hp => (mem_resolveMany.1 hp).2.1
  rw [same]
  exact (resolveMany db keys).nodup

/-! ### Rows in another order -/

section

variable {db db' : Database}

theorem exists_reordered (h : Reordered db db') (ref : AssetRef) : Exists db ref ↔ Exists db' ref := by
  cases hk : ref.assetType with
  | network => simp [Exists,hk,modelRows]
  | hardware => simpa [Exists,hk,modelRows] using (h.hardware.map _).mem_iff
  | computeUnit => simpa [Exists,hk,modelRows] using (h.computeUnits.map _).mem_iff
  | service => simpa [Exists,hk,modelRows] using (h.services.map _).mem_iff
  | storage => simpa [Exists,hk,modelRows] using (h.storage.map _).mem_iff

theorem resolve_reordered (h : Reordered db db') (keys : List AssetKey) (k : AssetKey) :
    (resolveMany db keys).get k = (resolveMany db' keys).get k := by
  apply Option.ext
  intro ref
  rw [Dict.get_eq_some_iff,Dict.get_eq_some_iff,mem_resolveMany,mem_resolveMany, exists_reordered h]

theorem impacted_reordered (h : Reordered db db') (keys : List AssetKey) :
    sortBy refKey ((resolveMany db keys).items.map Prod.snd) =
      sortBy refKey ((resolveMany db' keys).items.map Prod.snd) := by
  refine sortBy_congr ?_ fun a ha b hb same => resolved_distinct ha hb (refKey_key same)
  refine (perm_ext_iff_of_nodup (resolved_values_nodup db keys)
    (resolved_values_nodup db' keys)).2 fun ref => ?_
  rw [resolved_values,resolved_values,exists_reordered h]

theorem calculate_reordered (h : Reordered db db') (assetType : Text) (assetId : Int) (inc : Bool)
    (limits : ImpactLimits) (now : Nat) :
    calculateBlastRadius db assetType assetId inc limits now =
      calculateBlastRadius db' assetType assetId inc limits now := by
  have contains : ∀ keys k,(resolveMany db keys).contains k = (resolveMany db' keys).contains k :=
    fun keys k => congrArg Option.isSome (resolve_reordered h keys k)
  have impact : ∀ edgeSet root ref,impactOf edgeSet db root ref inc limits now =
      impactOf edgeSet db' root ref inc limits now := by
    intro edgeSet root ref
    simp only [impactOf,impacted_reordered h,contains]
  unfold calculateBlastRadius calculateOver
  simp only [load_reordered h,resolve_reordered h,impact]

end

/-! ### What is reported -/

section

variable {edgeSet : EdgeSet} {db : Database} {root : AssetKey} {rootRef : AssetRef} {inc : Bool}
  {limits : ImpactLimits} {now : Nat}

def Reaches (edges : List DependencyEdge) (inc : Bool) (root : AssetKey) (key : AssetKey) : Prop :=
  ∃ p,Chain DependencyEdge.provider DependencyEdge.dependent root p key ∧
    ∀ e ∈ p,e ∈ edges ∧ Selected inc e

theorem chain_kept {edges : List DependencyEdge} {u v : AssetKey} {p : List DependencyEdge}
    (h : Chain DependencyEdge.provider DependencyEdge.dependent u p v)
    (hp : ∀ e ∈ p,e ∈ edges ∧ Selected inc e) :
    ∃ q,Chain DependencyEdge.provider DependencyEdge.dependent u q v ∧ q.length = p.length ∧
      ∀ e ∈ q,e ∈ leaving edges inc e.provider := by
  induction p generalizing u with
  | nil => exact ⟨[],h,rfl,(fun _ h => nomatch h)⟩
  | cons e p ih =>
    obtain ⟨rfl,rest⟩ := h
    obtain ⟨q,hq,size,kept⟩ := ih rest fun a ha => hp a (mem_cons_of_mem _ ha)
    obtain ⟨he,selected⟩ := hp e mem_cons_self
    obtain ⟨a,ha,same⟩ := (outgoing_spec inc edges).2.2 e he selected
    have provider : a.provider = e.provider := leaving_provider ha
    refine ⟨a::q,⟨provider,same ▸ hq⟩,by simp [size],fun b hb => ?_⟩
    cases hb with
    | head => exact provider ▸ ha
    | tail _ hb => exact kept b hb

theorem leaving_selected {edges : List DependencyEdge} {e : DependencyEdge} {u : AssetKey}
    (h : e ∈ leaving edges inc u) : e ∈ edges ∧ Selected inc e :=
  ((outgoing_spec inc edges).2.1 u e h).2

theorem searched (edges : List DependencyEdge) (positive : 1 ≤ limits.maxNodes) :
    ∃ closed frontier,Searched edges inc root
      (traversal limits (buildImpactAdjacency edges inc) root).search closed frontier := by
  rcases @traversal_ends edges inc root limits positive with
    ⟨closed,resting,-⟩ | stopped
  · exact ⟨closed,_,resting.sound⟩
  · exact stopped.sound

theorem found_few (edges : List DependencyEdge) (positive : 1 ≤ limits.maxNodes) :
    ((traversal limits (buildImpactAdjacency edges inc) root).search.visited.length : Int) ≤
      limits.maxNodes+1 := by
  rcases @traversal_ends edges inc root limits positive with
    ⟨closed,resting,-⟩ | stopped
  · exact resting.few
  · exact stopped.few

theorem byType_perm {l : List AssetRef} (h : ∀ ref ∈ l,ref.assetType ≠ .network) :
    (l.filter (·.assetType = .hardware)++(l.filter (·.assetType = .computeUnit)++
      (l.filter (·.assetType = .service)++l.filter (·.assetType = .storage)))).Perm l := by
  refine perm_iff_count.2 fun ref => ?_
  have one : ∀ t,(l.filter (·.assetType = t)).count ref =
      if ref.assetType = t then l.count ref else 0 := by
    intro t
    split
    case isTrue ht => exact count_filter (by simpa using ht)
    case isFalse ht =>
      refine count_eq_zero.2 fun hm => ht ?_
      exact of_decide_eq_true (mem_filter.1 hm).2
  simp only [count_append,one]
  cases hk : ref.assetType with
  | network =>
    have out : ref ∉ l := fun hm => h ref hm hk
    simp [count_eq_zero.2 out]
  | _ => simp

theorem impacted_perm : (impactOf edgeSet db root rootRef inc limits now).impacted.Perm
    ((resolveMany db ((traversal limits (buildImpactAdjacency edgeSet.dependencies inc)
      root).search.visited.filter (· ≠ root))).items.map Prod.snd) := by
  refine (byType_perm fun ref hr => ?_).trans (perm_sortBy refKey _)
  have he := (resolved_values.1 ((perm_sortBy refKey _).mem_iff.1 hr)).2
  intro hk
  simp [Exists,hk,modelRows] at he

theorem mem_impacted {ref : AssetRef} :
    ref ∈ (impactOf edgeSet db root rootRef inc limits now).impacted ↔
      Exists db ref ∧ ref.key ≠ root ∧ ref.key ∈
        (traversal limits (buildImpactAdjacency edgeSet.dependencies inc) root).search.visited := by
  rw [impacted_perm.mem_iff,resolved_values,mem_filter,decide_eq_true_eq]
  exact ⟨fun h => ⟨h.2,h.1.2,h.1.1⟩,fun h => ⟨⟨h.2.2,h.2.1⟩,h.1⟩⟩

/-- The path to an asset is a shortest chain of selected edges from the root, inferred when one of
them is. -/
structure Explains (edges : List DependencyEdge) (inc : Bool) (root : AssetKey) (path : ImpactPath) :
    Prop where
  chain : Chain DependencyEdge.provider DependencyEdge.dependent root path.edges path.asset.key
  selected : ∀ e ∈ path.edges,e ∈ edges ∧ Selected inc e
  shortest : ∀ q,Chain DependencyEdge.provider DependencyEdge.dependent root q path.asset.key →
    (∀ e ∈ q,e ∈ edges ∧ Selected inc e) → path.edges.length ≤ q.length
  inferred : path.provenance = .inferred ↔ ∃ e ∈ path.edges,e.provenance = .inferred

theorem pathProvenance_inferred (path : List DependencyEdge) :
    pathProvenance path = .inferred ↔ ∃ e ∈ path,e.provenance = .inferred := by
  unfold pathProvenance
  split
  case isTrue h => simpa using h
  case isFalse h => simpa using h

theorem path_explains (edges : List DependencyEdge) (positive : 1 ≤ limits.maxNodes) {ref : AssetRef}
    (h : ref.key ∈ (traversal limits (buildImpactAdjacency edges inc) root).search.visited) :
    let path := pathFor ref.key root (traversal limits (buildImpactAdjacency edges inc) root).search
    Explains edges inc root ⟨ref,path,pathProvenance path⟩ := by
  obtain ⟨closed,frontier,sound⟩ := @searched root inc limits edges positive
  obtain ⟨chain,size,kept⟩ := sound.backtrack h (sound.bounded _ h)
  refine ⟨chain,fun e he => leaving_selected (kept e (mem_reverse.1 he)),
    fun q hq selected => ?_,pathProvenance_inferred _⟩
  obtain ⟨q',hq',same,kept'⟩ := chain_kept hq selected
  have short : (traversal limits (buildImpactAdjacency edges inc) root).search.depth ref.key ≤
      q'.length := (sound.near hq' kept').1 h
  change (backtrack _ _ _ _ _).reverse.length ≤ _
  rw [length_reverse,size]
  omega

theorem visited_reached (edges : List DependencyEdge) (positive : 1 ≤ limits.maxNodes)
    {key : AssetKey}
    (h : key ∈ (traversal limits (buildImpactAdjacency edges inc) root).search.visited) :
    Reaches edges inc root key := by
  obtain ⟨closed,frontier,sound⟩ := @searched root inc limits edges positive
  obtain ⟨chain,-,kept⟩ := sound.backtrack h (sound.bounded _ h)
  exact ⟨_,chain,fun e he => leaving_selected (kept e (mem_reverse.1 he))⟩

theorem reached_visited (edges : List DependencyEdge) (positive : 1 ≤ limits.maxNodes)
    {key : AssetKey}
    (going : (traversal limits (buildImpactAdjacency edges inc) root).truncationReason = none)
    (h : Reaches edges inc root key) :
    key ∈ (traversal limits (buildImpactAdjacency edges inc) root).search.visited := by
  obtain ⟨p,chain,selected⟩ := h
  obtain ⟨q,hq,-,kept⟩ := chain_kept chain selected
  rcases @traversal_ends edges inc root limits positive with
    ⟨closed,resting,empty⟩ | stopped
  · have sound := resting.sound
    rw [empty] at sound
    exact sound.exhausted.2 ⟨q,hq,kept⟩
  · have := stopped.stopped
    rw [going] at this
    cases this

theorem impacted_few (positive : 1 ≤ limits.maxNodes) :
    ((impactOf edgeSet db root rootRef inc limits now).impacted.length : Int) ≤ limits.maxNodes := by
  have few := @found_few root inc limits edgeSet.dependencies positive
  obtain ⟨closed,frontier,sound⟩ := @searched root inc limits edgeSet.dependencies positive
  have distinct := (resolved_values_nodup db ((traversal limits (buildImpactAdjacency
    edgeSet.dependencies inc) root).search.visited.filter (· ≠ root)))
  have keys : ((impactOf edgeSet db root rootRef inc limits now).impacted.map AssetRef.key).Nodup := by
    rw [(impacted_perm.map AssetRef.key).nodup_iff]
    refine List.Nodup.map_on (fun a ha b hb same => ?_) distinct
    exact resolved_distinct ha hb same
  have inside : ((impactOf edgeSet db root rootRef inc limits now).impacted.map AssetRef.key) ⊆
      (traversal limits (buildImpactAdjacency edgeSet.dependencies inc) root).search.used.map
        DependencyEdge.dependent := by
    intro key hk
    obtain ⟨ref,hr,rfl⟩ := mem_map.1 hk
    obtain ⟨-,ne,visited⟩ := mem_impacted.1 hr
    rw [sound.found] at visited
    exact (mem_cons.1 visited).resolve_left ne
  have size := (subperm_of_subset keys inside).length_le
  rw [sound.found] at few
  simp only [length_map,length_cons] at size few
  push_cast at few
  omega

/-- What the answer says of the graph. Left out means that the loop never looked where the edge
leads. -/
structure Answers (edges : List DependencyEdge) (db : Database) (root : AssetKey) (inc : Bool)
    (limits : ImpactLimits) (r : BlastRadiusResult) : Prop where
  complete : r.completeness = .complete → ∀ ref,ref ∈ r.impacted ↔
    Exists db ref ∧ ref.key ≠ root ∧ Reaches edges inc root ref.key
  reported : ∀ ref ∈ r.impacted,Exists db ref ∧ ref.key ≠ root ∧ Reaches edges inc root ref.key
  explained : ∀ ref,ref ∈ r.impacted ↔ ∃ path ∈ r.paths,path.asset = ref
  paths : ∀ path ∈ r.paths,Explains edges inc root path
  truncated : r.completeness = .truncated → ∃ e ∈ edges,Selected inc e ∧
    Reaches edges inc root e.provider ∧
    e ∉ (traversal limits (buildImpactAdjacency edges inc) root).explored ∧
    (r.truncationReason = some .nodeLimit →
      e.dependent ∉ (traversal limits (buildImpactAdjacency edges inc) root).search.visited)
  few : (r.impacted.length : Int) ≤ limits.maxNodes ∧ r.totalImpactCount = r.impacted.length

theorem impact_answers (positive : 1 ≤ limits.maxNodes) :
    Answers edgeSet.dependencies db root inc limits
      (impactOf edgeSet db root rootRef inc limits now) := by
  constructor
  case complete =>
    intro complete ref
    have going : (traversal limits (buildImpactAdjacency edgeSet.dependencies inc)
        root).truncationReason = none := by
      cases hr : (traversal limits (buildImpactAdjacency edgeSet.dependencies inc)
          root).truncationReason with
      | none => rfl
      | some reason => simp [impactOf,hr] at complete
    rw [mem_impacted]
    constructor
    · rintro ⟨he,ne,visited⟩
      exact ⟨he,ne,visited_reached _ positive visited⟩
    · rintro ⟨he,ne,reaches⟩
      exact ⟨he,ne,reached_visited _ positive going reaches⟩
  case reported =>
    intro ref hr
    obtain ⟨he,ne,visited⟩ := mem_impacted.1 hr
    exact ⟨he,ne,visited_reached _ positive visited⟩
  case explained =>
    intro ref
    rw [impacted_perm.mem_iff,←(perm_sortBy refKey _).mem_iff]
    simp [impactOf]
  case paths =>
    intro path hp
    obtain ⟨ref,hr,rfl⟩ := mem_map.1 hp
    have asked := (resolved_values.1 ((perm_sortBy refKey _).mem_iff.1 hr)).1
    exact path_explains _ positive (mem_filter.1 asked).1
  case truncated =>
    intro truncated
    rcases @traversal_ends edgeSet.dependencies inc root limits positive with
      ⟨closed,resting,-⟩ | stopped
    · simp [impactOf,resting.going] at truncated
    · obtain ⟨e,he,provider,unexplored,new⟩ := stopped.left
      obtain ⟨inside,selected⟩ := leaving_selected he
      exact ⟨e,inside,selected,visited_reached _ positive provider,unexplored,new⟩
  case few =>
    refine ⟨impacted_few positive,?_⟩
    rw [impacted_perm.length_eq]
    exact (perm_sortBy refKey _).length_eq

end

theorem calculate_present (edgeSet : EdgeSet) {inc : Bool}
    {limits : ImpactLimits} {now : Nat} (present : Exists db ref)
    (positive : 1 ≤ limits.maxNodes ∧ 1 ≤ limits.maxDepth ∧ 1 ≤ limits.maxEdges) :
    calculateOver edgeSet db ref.assetType.text ref.assetId inc limits now =
      .ok (impactOf edgeSet db ref.key ref inc limits now) := by
  have valid : validAssetTypes.find? (·.text = ref.assetType.text) = some ref.assetType := by
    cases hk : ref.assetType with
    | network => simp [Exists,hk,modelRows] at present
    | _ => decide
  have found : (resolveMany db [ref.key]).get ref.key = some ref :=
    Dict.get_eq_some_iff.2 (mem_resolveMany.2 ⟨mem_singleton_self _,rfl,present⟩)
  have allowed : ¬(limits.maxNodes < 1 ∨ limits.maxDepth < 1 ∨ limits.maxEdges < 1) := by omega
  unfold calculateOver
  rw [valid]
  simp only [allowed,if_false]
  rw [show (ref.assetType,ref.assetId) = ref.key from rfl,found]

/-- Every root that exists gets an answer under positive limits, over whatever edges there are,
and the answer over the tables is the same in whatever order their rows come. -/
theorem blast_radius_answers {db : Database} {ref : AssetRef} {inc : Bool} {limits : ImpactLimits}
    {now : Nat} (present : Exists db ref)
    (positive : 1 ≤ limits.maxNodes ∧ 1 ≤ limits.maxDepth ∧ 1 ≤ limits.maxEdges) :
    (∀ edgeSet,∃ r, calculateOver edgeSet db ref.assetType.text ref.assetId inc limits now = .ok r ∧
        Answers edgeSet.dependencies db ref.key inc limits r) ∧
    ∀ db',Reordered db db' → calculateBlastRadius db ref.assetType.text ref.assetId inc limits now =
        calculateBlastRadius db' ref.assetType.text ref.assetId inc limits now :=
  ⟨fun edgeSet => ⟨_,calculate_present edgeSet present positive,impact_answers positive.1⟩,
    fun _ same => calculate_reordered same _ _ _ _ _⟩

def noRows {α : Type} (id : α → Int) : Table id := ⟨[],nodup_nil⟩

def circle : Database where
  hardware := noRows _
  computeUnits := noRows _
  services :=
    { rows := [⟨1,"first".toList,none,none,none⟩,⟨2,"second".toList,none,none,none⟩]
      primary := by decide }
  storage := noRows _
  serviceDependencies :=
    { rows := [⟨1,2,1,none⟩,⟨2,1,2,none⟩]
      primary := by decide }
  serviceStorage := noRows _
  hardwareConnections := noRows _
  hardwareNetworks := noRows _
  computeNetworks := noRows _

theorem circle_answers :
    (∃ r,calculateBlastRadius circle "service".toList 1 false defaultLimits 0 = .ok r ∧
      Answers (loadDependencyEdges circle).dependencies circle (.service,1) false defaultLimits r) ∧
    ∀ db',Reordered circle db' →
      calculateBlastRadius circle "service".toList 1 false defaultLimits 0 =
        calculateBlastRadius db' "service".toList 1 false defaultLimits 0 :=
  have answers := @blast_radius_answers circle ⟨.service,1,"first".toList,none⟩ false defaultLimits
    0 mem_cons_self (by decide)
  ⟨answers.1 (loadDependencyEdges circle),answers.2⟩

/-- At depth one both services were visited and each is all the other leads to, and still the
answer says that it is truncated. -/
theorem circle_truncated :
    ∃ r,calculateBlastRadius circle "service".toList 1 false ⟨500,1,5000⟩ 0 = .ok r ∧
      r.completeness = .truncated ∧
      ¬((∃ ref,Exists circle ref ∧ ref.key ≠ (.service,1) ∧
          Reaches (loadDependencyEdges circle).dependencies false (.service,1) ref.key ∧
          ref ∉ r.impacted) ∨
        ∃ e ∈ (loadDependencyEdges circle).dependencies,Selected false e ∧
          e.dependent ∉ (traversal ⟨500,1,5000⟩ (buildImpactAdjacency
            (loadDependencyEdges circle).dependencies false) (.service,1)).search.visited) := by
  have present : Exists circle ⟨.service,1,"first".toList,none⟩ := mem_cons_self
  refine ⟨_,calculate_present (loadDependencyEdges circle) present (by decide),by decide,?_⟩
  rintro (⟨ref,he,ne,-,absent⟩ | ⟨e,he,-,absent⟩)
  · have second : ref = ⟨.service,2,"second".toList,none⟩ := by
      cases hk : ref.assetType with
      | service =>
        have he : ref = ⟨.service,1,"first".toList,none⟩ ∨
            ref = ⟨.service,2,"second".toList,none⟩ := by
          simpa [Exists,hk,modelRows,circle,orElse] using he
        exact he.resolve_left fun first => ne (first ▸ rfl)
      | _ => simp [Exists,hk,modelRows,circle,noRows] at he
    refine absent ?_
    rw [second]
    decide
  · refine absent ?_
    revert e
    decide

end CircuitBreaker.BlastRadius
