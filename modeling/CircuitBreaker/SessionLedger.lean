import CircuitBreaker.StepRuns
import Mathlib.Data.List.Nodup
import Mathlib.Data.List.Count
import Mathlib.Data.List.Perm.Basic

/-! The ledger of sessions (services/user_service.py, `issue_session`). A session is a row that knows its
token by a hash, and the token is a function of claims that repeat within a second. -/

namespace CircuitBreaker.SessionLedger
open StepRuns List

/-- What `create_token` signs: two tokens are one text exactly when all their claims are equal. `extra`
are the claims of other names, and `exp` is in seconds. -/
structure Token where
  userId : Nat
  exp : Int
  role : Option String
  scopes : List String
  demoExpires : Option String
  extra : List (String × String)
  deriving DecidableEq

/-- A row, whose token stands for its hash. Times are in microseconds. -/
structure UserSession where
  id : Nat
  userId : Nat
  token : Token
  createdAt : Int
  expiresAt : Int
  revoked : Bool := false

/-- A call of `issue_session`, with what its clock shows on the way. Of the two lifetimes `none` is
what Python takes for false. -/
structure Issue where
  user : Nat
  role : Option String := none
  scopes : List String := []
  demoExpires : Option String := none
  extra : List (String × String) := []
  lifetime : Option Int := none
  timeout : Option Int := none
  limit : Nat
  minted : Int
  recorded : Int
  selected : Int
  created : Int

def second : Int := 1000000

def day : Int := 24*3600*second

/-- `create_token` -/
def Issue.token (i : Issue) : Token where
  userId := i.user
  exp := (i.minted+((i.lifetime <|> i.timeout).getD day))/second
  role := i.role.filter fun r => r ≠ ""
  scopes := i.scopes
  demoExpires := i.demoExpires
  extra := i.extra

def Issue.row (i : Issue) (id : Nat) : UserSession where
  id := id
  userId := i.user
  token := i.token
  createdAt := i.created
  expiresAt := i.recorded+(i.lifetime <|> i.timeout).getD 0

def live (user : Nat) (now : Int) (r : UserSession) : Bool :=
  r.userId = user && !r.revoked && now < r.expiresAt

/-- The ids that are popped off the oldest end while there are `limit` or more. -/
def evict (limit : Nat) : List UserSession → List Nat
  | [] => []
  | oldest :: rest =>
      if limit ≤ (oldest :: rest).length then oldest.id :: evict limit rest else []

def revokeRows (which : UserSession → Bool) (rows : List UserSession) : List UserSession :=
  rows.map fun r => if which r then { r with revoked := true } else r

/-- A token that `issue_session` has returned, with its session; there is none for user 0. -/
structure Issued where
  token : Token
  session : Option Nat

/-- `issued` is kept for the statements and read by nothing. -/
structure State where
  rows : List UserSession := []
  nextId : Nat := 0
  now : Int := 0
  issued : List Issued := []

inductive Act where
  | issue (i : Issue)
  | revokeSession (id user : Nat)
  | revokeTokenSession (token : Token)
  | revokeAllSessions (user : Nat) (keep : Option Token)
  | pass (now : Int)

/-- One call. Which of several rows a query without an order gives first, and in what order rows of
one time of creation come, is left open. -/
inductive Step : State → Act → State → Prop where
  | unrecorded {s : State} {i : Issue} (nobody : i.user = 0) (clock : s.now ≤ i.minted)
      (later : i.minted ≤ i.created) :
      Step s (.issue i)
        { s with
          now := i.created
          issued := s.issued ++ [⟨i.token,none⟩] }
  | recorded {s : State} {i : Issue} {active : List UserSession} (someone : i.user ≠ 0)
      (clock : s.now ≤ i.minted ∧ i.minted ≤ i.recorded ∧ i.recorded ≤ i.selected ∧
        i.selected ≤ i.created)
      (found : active.Perm (s.rows.filter (live i.user i.selected)))
      (order : active.Pairwise fun a b => a.createdAt ≤ b.createdAt) :
      Step s (.issue i)
        { rows := revokeRows (fun r => r.id ∈ evict i.limit active) s.rows ++ [i.row s.nextId]
          nextId := s.nextId+1
          now := i.created
          issued := s.issued ++ [⟨i.token,some s.nextId⟩] }
  | revokedSession {s : State} {id user : Nat} :
      Step s (.revokeSession id user)
        { s with rows := revokeRows (fun r => r.id = id && r.userId = user) s.rows }
  | revokedToken {s : State} {token : Token} {r : UserSession} (found : r ∈ s.rows)
      (its : r.token = token) (unrevoked : r.revoked = false) :
      Step s (.revokeTokenSession token)
        { s with rows := revokeRows (fun r' => r'.id = r.id) s.rows }
  | noToken {s : State} {token : Token}
      (missing : ∀ r ∈ s.rows, r.token = token → r.revoked = true) :
      Step s (.revokeTokenSession token) s
  | revokedAll {s : State} {user : Nat} {keep : Option Token} :
      Step s (.revokeAllSessions user keep)
        { s with rows := revokeRows (fun r => r.userId = user && keep.all (r.token ≠ ·)) s.rows }
  | passed {s : State} {now : Int} (later : s.now ≤ now) : Step s (.pass now) { s with now := now }

def isSessionRevoked (rows : List UserSession) (token : Token) : Bool :=
  rows.any fun r => r.token = token && r.revoked

/-- The token decodes, its signature being good, and its session is not revoked. -/
def State.Authenticates (s : State) (token : Token) : Prop :=
  s.now < token.exp*second ∧ isSessionRevoked s.rows token = false

/-- The session of a token, where it has one, is in the ledger and not revoked. -/
def State.Stands (s : State) (e : Issued) : Prop :=
  ∀ id, e.session = some id → ∃ r ∈ s.rows, r.id = id ∧ r.revoked = false

def Distinct (s : State) : Act → Prop
  | .issue i => i.user = 0 ∨ ∀ r ∈ s.rows, r.token ≠ i.token
  | _ => True

structure Sound (s : State) : Prop where
  ids : (s.rows.map UserSession.id).Nodup
  known : ∀ r ∈ s.rows, r.id < s.nextId
  tokens : (s.rows.map UserSession.token).Nodup
  users : ∀ r ∈ s.rows, r.token.userId ≠ 0
  issued : ∀ e ∈ s.issued, (∀ id, e.session = some id → ∃ r ∈ s.rows, r.id = id ∧ r.token = e.token) ∧
    (e.session = none → e.token.userId = 0)

/-! Revoking changes nothing but the flags. -/

theorem revokeRows_ids (which : UserSession → Bool) (rows : List UserSession) :
    (revokeRows which rows).map UserSession.id = rows.map UserSession.id := by
  rw [revokeRows,map_map]
  refine map_congr_left fun r _ => ?_
  by_cases h : which r <;> simp [h]

theorem revokeRows_tokens (which : UserSession → Bool) (rows : List UserSession) :
    (revokeRows which rows).map UserSession.token = rows.map UserSession.token := by
  rw [revokeRows,map_map]
  refine map_congr_left fun r _ => ?_
  by_cases h : which r <;> simp [h]

theorem mem_revokeRows {which : UserSession → Bool} {rows : List UserSession} {r : UserSession}
    (h : r ∈ revokeRows which rows) : ∃ r' ∈ rows, r'.id = r.id ∧ r'.token = r.token := by
  obtain ⟨r',hr,rfl⟩ := mem_map.1 h
  refine ⟨r',hr,?_⟩
  by_cases hw : which r' <;> simp [hw]

theorem revokeRows_mem {which : UserSession → Bool} {rows : List UserSession} {r : UserSession}
    (h : r ∈ rows) : ∃ r' ∈ revokeRows which rows, r'.id = r.id ∧ r'.token = r.token := by
  refine ⟨_,mem_map_of_mem h,?_⟩
  by_cases hw : which r <;> simp [hw]

theorem Sound.revoked {s : State} (h : Sound s) (which : UserSession → Bool) :
    Sound { s with rows := revokeRows which s.rows } where
  ids := by
    rw [revokeRows_ids]
    exact h.ids
  known := by
    intro r hr
    obtain ⟨r',hr',id,-⟩ := mem_revokeRows hr
    exact id ▸ h.known r' hr'
  tokens := by
    rw [revokeRows_tokens]
    exact h.tokens
  users := by
    intro r hr
    obtain ⟨r',hr',-,token⟩ := mem_revokeRows hr
    exact token ▸ h.users r' hr'
  issued := by
    intro e he
    refine ⟨fun id hid => ?_,(h.issued e he).2⟩
    obtain ⟨r,hr,rid,token⟩ := (h.issued e he).1 id hid
    obtain ⟨r',hr',id',token'⟩ := revokeRows_mem hr
    exact ⟨r',hr',id'.trans rid,token'.trans token⟩

theorem Sound.recorded {s : State} (h : Sound s) {i : Issue} (someone : i.user ≠ 0)
    (distinct : ∀ r ∈ s.rows, r.token ≠ i.token) (now : Int) :
    Sound
      { rows := s.rows ++ [i.row s.nextId]
        nextId := s.nextId+1
        now := now
        issued := s.issued ++ [⟨i.token,some s.nextId⟩] } where
  ids := by
    simp only [map_append,map_cons,map_nil]
    refine h.ids.append (nodup_singleton _) (disjoint_singleton.2 fun hm => ?_)
    obtain ⟨r,hr,id⟩ := mem_map.1 hm
    exact Nat.lt_irrefl _ (id ▸ h.known r hr)
  known := by
    intro r hr
    obtain hr | hr := mem_append.1 hr
    · exact Nat.lt_succ_of_lt (h.known r hr)
    · obtain rfl := mem_singleton.1 hr
      exact Nat.lt_succ_self _
  tokens := by
    simp only [map_append,map_cons,map_nil]
    refine h.tokens.append (nodup_singleton _) (disjoint_singleton.2 fun hm => ?_)
    obtain ⟨r,hr,token⟩ := mem_map.1 hm
    exact distinct r hr token
  users := by
    intro r hr
    obtain hr | hr := mem_append.1 hr
    · exact h.users r hr
    · obtain rfl := mem_singleton.1 hr
      exact someone
  issued := by
    intro e he
    obtain he | he := mem_append.1 he
    · refine ⟨fun id hid => ?_,(h.issued e he).2⟩
      obtain ⟨r,hr,found⟩ := (h.issued e he).1 id hid
      exact ⟨r,mem_append_left _ hr,found⟩
    · obtain rfl := mem_singleton.1 he
      refine ⟨fun id hid => ?_,nofun⟩
      obtain rfl := Option.some.inj hid
      exact ⟨i.row s.nextId,mem_append_right _ (mem_singleton.2 rfl),rfl,rfl⟩

theorem Sound.step {s t : State} {a : Act} (h : Sound s) (step : Guarded Step Distinct s a t) :
    Sound t := by
  obtain ⟨distinct,step⟩ := step
  cases step with
  | @unrecorded i nobody =>
    refine ⟨h.ids,h.known,h.tokens,h.users,fun e he => ?_⟩
    obtain he | he := mem_append.1 he
    · exact h.issued e he
    · obtain rfl := mem_singleton.1 he
      exact ⟨nofun,fun _ => nobody⟩
  | @recorded i active someone =>
    have fresh := distinct.resolve_left someone
    refine Sound.recorded (h.revoked fun r => r.id ∈ evict i.limit active) someone (fun r hr => ?_) _
    obtain ⟨r',hr',-,token⟩ := mem_revokeRows hr
    exact token ▸ fresh r' hr'
  | revokedSession | revokedToken | revokedAll => exact h.revoked _
  | noToken => exact h
  | passed => exact ⟨h.ids,h.known,h.tokens,h.users,h.issued⟩

theorem Sound.authenticates {s : State} (h : Sound s) {e : Issued} (he : e ∈ s.issued)
    (stands : s.Stands e) (early : s.now < e.token.exp*second) : s.Authenticates e.token := by
  refine ⟨early,any_eq_false.2 fun r hr revoked => ?_⟩
  simp only [Bool.and_eq_true,decide_eq_true_eq] at revoked
  cases session : e.session with
  | none => exact h.users r hr (revoked.1 ▸ (h.issued e he).2 session)
  | some id =>
    obtain ⟨r₁,hr₁,id₁,token₁⟩ := (h.issued e he).1 id session
    obtain ⟨r₂,hr₂,id₂,unrevoked⟩ := stands id session
    have one : r₁ = r := inj_on_of_nodup_map h.tokens hr₁ hr (token₁.trans revoked.1.symm)
    have two : r₂ = r₁ := inj_on_of_nodup_map h.ids hr₂ hr₁ (id₂.trans id₁.symm)
    rw [two.trans one] at unrevoked
    exact nomatch revoked.2.symm.trans unrevoked

/-! The limit. -/

theorem evict_split {limit : Nat} (pos : 1 ≤ limit) (active : List UserSession) :
    ∃ out kept, active = out ++ kept ∧ evict limit active = out.map UserSession.id ∧
      kept.length < limit := by
  induction active with
  | nil => exact ⟨[],[],rfl,rfl,pos⟩
  | cons oldest rest ih =>
    by_cases full : limit ≤ (oldest :: rest).length
    · obtain ⟨out,kept,hr,he,hk⟩ := ih
      refine ⟨oldest :: out,kept,by rw [hr]; rfl,?_,hk⟩
      rw [evict,if_pos full,he]
      rfl
    · exact ⟨[],oldest :: rest,rfl,by rw [evict,if_neg full]; rfl,by omega⟩

theorem issue_within {s t : State} {i : Issue} (step : Step s (.issue i) t) (pos : 1 ≤ i.limit)
    (someone : i.user ≠ 0) : (t.rows.filter (live i.user t.now)).length ≤ i.limit := by
  cases step with
  | unrecorded nobody => exact absurd nobody someone
  | @recorded _ active _ clock found order =>
    obtain ⟨out,kept,split,evicted,few⟩ := evict_split pos active
    have old : ((revokeRows (fun r => r.id ∈ evict i.limit active) s.rows).filter
        (live i.user i.created)).length ≤ kept.length := by
      calc ((revokeRows (fun r => r.id ∈ evict i.limit active) s.rows).filter
            (live i.user i.created)).length
          = s.rows.countP (live i.user i.created ∘ fun r =>
              if r.id ∈ evict i.limit active then { r with revoked := true } else r) := by
            rw [←countP_eq_length_filter,revokeRows,countP_map]
            simp only [decide_eq_true_eq]
        _ ≤ s.rows.countP fun r => (r.id ∉ evict i.limit active) && live i.user i.selected r := by
            refine countP_mono_left fun r _ hr => ?_
            by_cases gone : r.id ∈ evict i.limit active
            · simp [live,gone] at hr
            · simp only [Function.comp_apply,gone,if_false,live,Bool.and_eq_true,
                decide_eq_true_eq] at hr
              simp only [gone,live,hr.1.1,hr.1.2,Bool.and_eq_true,decide_eq_true_eq,not_false_eq_true,
                true_and,and_true,decide_true]
              omega
        _ = active.countP fun r => r.id ∉ evict i.limit active := by
            rw [found.countP_eq,countP_filter]
        _ ≤ kept.length := by
            have gone : out.countP (fun r => r.id ∉ evict i.limit active) = 0 := by
              refine countP_eq_zero.2 fun r hr => ?_
              simpa [evicted] using ⟨r,hr,rfl⟩
            rw [split,countP_append,←split,gone,Nat.zero_add]
            exact countP_le_length
    show ((revokeRows (fun r => r.id ∈ evict i.limit active) s.rows ++ [i.row s.nextId]).filter
      (live i.user i.created)).length ≤ i.limit
    rw [filter_append,length_append]
    have one := length_filter_le (live i.user i.created) [i.row s.nextId]
    simp only [length_singleton] at one
    omega

/-- A login of user 1 at `now`, with the default lifetime. -/
def login (now : Int) : Issue where
  user := 1
  limit := 5
  minted := now
  recorded := now
  selected := now
  created := now

end CircuitBreaker.SessionLedger
