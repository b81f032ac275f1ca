import CircuitBreaker.StepRuns
import CircuitBreaker.PyDict
import Mathlib.Data.List.Sort
import Mathlib.Logic.Function.Basic

/-! Who a token stands for. Every worker process caches what the database said about a token
and confirms a cached answer with Redis; whatever ends a token changes the database, drops what
its own worker has cached and, if it is a session, tells the other workers through Redis. The
lookup, the question to Redis, the look at the flush epoch, its update, the flush, the database
query and the insertion of one call are steps of their own, and so are the commit, the local
invalidation and the publication of whatever ends a token. -/

namespace CircuitBreaker.SessionRevocation
open StepRuns List Function

/-- A token by what it decodes to: a session of the user library, a session or a service account
of the application, or a secret that is no JWT. -/
inductive Token where
  | sub (uid exp : Nat)
  | user (uid : Nat) (scopes : Option (List String)) (exp jti : Nat)
  | secret (n : Nat)
  deriving DecidableEq

/-- What tokens of the `api_tokens` table look like. -/
def Token.machine : Token → Bool
  | .sub _ _ => false
  | .user uid _ _ _ => uid = 0
  | .secret _ => true

structure UserSession where
  id : Nat
  userId : Nat
  token : Token
  createdAt : Nat
  expiresAt : Nat
  revoked : Bool := false

structure APIToken where
  id : Nat
  token : Token
  createdBy : Nat
  scopes : Option (List String)
  expiresAt : Option Nat

structure Database where
  sessions : List UserSession := []
  apiTokens : List APIToken := []
  nextId : Nat := 0
  active : Nat → Bool := fun _ => true

structure Entry where
  uid : Nat
  expiry : Nat
  scopes : Option (List String)

structure Worker where
  cache : Dict Token Entry := .empty
  flushEpoch : Option Nat := none
  connected : Bool := false
  lastReconnectAttempt : Nat := 0

/-- How a call to Redis goes: whether a new client answers, whether the command does, and
whether it took effect when the answer was lost. -/
structure RedisCall where
  ping : Bool
  reply : Bool
  applied : Bool

/-- Where a call that resolves a token stands; `late` says whether it started after the token
was ended. -/
inductive Resolve where
  | idle
  | started (k : Nat) (t : Token) (late : Bool)
  | found (k : Nat) (t : Token) (entry : Entry) (late : Bool)
  | revoked (k : Nat) (t : Token) (late : Bool)
  | answered (k : Nat) (t : Token) (entry : Entry) (epoch : Option Nat) (late : Bool)
  | noting (k : Nat) (t : Token) (epoch : Option Nat) (late : Bool)
  | flushing (k : Nat) (t : Token) (late : Bool)
  | missed (k : Nat) (t : Token) (late : Bool)
  | validated (k : Nat) (t : Token) (uid : Nat) (scopes : Option (List String)) (late : Bool)
  | returned (t : Token) (uid : Option Nat) (late : Bool)

inductive Invalidation where
  | token (t : Token)
  | sessions (tokens : List Token)
  | tokens (tokens : List Token)

def Invalidation.ends : Invalidation → List Token
  | .token t => [t]
  | .sessions ended | .tokens ended => ended

inductive Ending where
  | idle
  | committed (k : Nat) (kind : Invalidation)
  | cleared (k : Nat) (kind : Invalidation)
  | done (tokens : List Token)

structure World where
  now : Nat := 0
  db : Database := {}
  workers : Nat → Worker := fun _ => {}
  /-- The revocation markers in Redis, with the time they are kept for. -/
  markers : Token → Option Nat := fun _ => none
  epoch : Option Nat := none
  resolve : Nat → Resolve := fun _ => .idle
  ending : Nat → Ending := fun _ => .idle
  /-- The tokens whose ending has returned; kept for the statement, read by nothing. -/
  ended : Token → Bool := fun _ => false
  minted : List Token := []

inductive Act where
  | login (o uid : Nat) (token : Token) (limit lifetime : Nat)
  | logout (o k : Nat) (token : Token)
  | revokeSession (o k id uid : Nat)
  | revokeAllSessions (o k uid : Nat) (except : Option Token)
  | createApiToken (token : Token) (createdBy : Nat) (scopes : Option (List String))
      (expiresAt : Option Nat)
  | revokeApiToken (o k id : Nat)
  | rotateApiToken (o k id : Nat) (token : Token) (createdBy : Nat)
  | invalidate (o : Nat)
  | publish (o : Nat) (call : RedisCall)
  | editUsers (active : Nat → Bool)
  | start (r k : Nat) (token : Token)
  | lookup (r : Nat)
  | ask (r : Nat) (call : RedisCall)
  | drop (r : Nat)
  | compare (r : Nat)
  | note (r : Nat)
  | flush (r : Nat)
  | validate (r : Nat)
  | insert (r : Nat)
  | tick (now : Nat)
  | restart

def second : Nat := 1000000
def sessionCacheTtl : Nat := 10*second
def revokedMarkerTtl : Nat := sessionCacheTtl*6
def reconnectCooldown : Nat := 10*second
def sessionCacheMaxSize : Nat := 2000

def Database.isSessionRevoked (db : Database) (t : Token) : Bool :=
  db.sessions.any fun s => s.token = t && s.revoked

def Database.isUserAccessible (db : Database) (uid : Nat) : Bool := uid = 0 || db.active uid

def APIToken.expired (row : APIToken) (now : Nat) : Bool :=
  match row.expiresAt with
  | none => false
  | some expires => expires ≤ now

def Database.apiToken (db : Database) (t : Token) : Option APIToken :=
  db.apiTokens.find? (·.token = t)

def Database.serviceAccountTokenIsLive (db : Database) (now : Nat) (t : Token) : Bool :=
  match db.apiToken t with
  | some row => !row.expired now
  | none => false

def Database.resolveApiToken (db : Database) (now : Nat) (t : Token) :
    Option (Nat × Option (List String)) :=
  match db.apiToken t with
  | some row =>
    if row.expired now then none
    else if db.isUserAccessible row.createdBy then
      some (row.createdBy,if row.scopes = some [] then none else row.scopes)
    else none
  | none => none

def Database.validate (db : Database) (now : Nat) (t : Token) : Option (Nat × Option (List String)) :=
  if db.isSessionRevoked t then none
  else
    match t with
    | .sub uid exp =>
      if now < exp then if db.isUserAccessible uid then some (uid,none) else none
      else db.resolveApiToken now t
    | .user uid scopes exp _ =>
      if now < exp then
        if uid = 0 then if db.serviceAccountTokenIsLive now t then some (0,scopes) else none
        else if db.isUserAccessible uid then some (uid,none) else none
      else db.resolveApiToken now t
    | .secret _ => db.resolveApiToken now t

def Worker.getSyncRedis (worker : Worker) (now : Nat) (ping : Bool) : Worker × Bool :=
  if worker.connected then (worker,true)
  else if now-worker.lastReconnectAttempt < reconnectCooldown then (worker,false)
  else ({worker with lastReconnectAttempt := now, connected := ping},ping)

/-- One command through the worker's client: the worker after it, whether its answer came and
whether it took effect. -/
def Worker.command (worker : Worker) (now : Nat) (call : RedisCall) : Worker × Bool × Bool :=
  let client := worker.getSyncRedis now call.ping
  if client.2 then
    if call.reply then (client.1,true,true) else ({client.1 with connected := false},false,call.applied)
  else (client.1,false,false)

def Worker.cacheSet (worker : Worker) (now : Nat) (t : Token) (uid : Nat)
    (scopes : Option (List String)) : Worker :=
  let kept :=
    if sessionCacheMaxSize ≤ worker.cache.items.length then
      let toDrop := ((worker.cache.items.insertionSort fun a b => a.2.expiry ≤ b.2.expiry).take
        (sessionCacheMaxSize/2)).map Prod.fst
      worker.cache.restrict fun k => k ∉ toDrop
    else worker.cache
  {worker with cache := kept.set t ⟨uid,now+sessionCacheTtl,scopes⟩}

def Worker.pop (worker : Worker) (t : Token) : Worker :=
  {worker with cache := worker.cache.restrict (· ≠ t)}

def Worker.clear (worker : Worker) : Worker := {worker with cache := .empty}

/-- What `invalidate_session_cache` and `invalidate_token_cache` do in their own process. -/
def Worker.invalidate (worker : Worker) : Invalidation → Worker
  | .token t => worker.pop t
  | .sessions _ | .tokens _ => worker.clear

def Database.revoke (db : Database) (rows : List UserSession) : Database :=
  {db with sessions := db.sessions.map fun s =>
    if rows.any (·.id = s.id) then {s with revoked := true} else s}

def Database.evicted (db : Database) (uid limit now : Nat) : List UserSession :=
  let active := (db.sessions.filter fun s => s.userId = uid && !s.revoked && now < s.expiresAt)
    |>.insertionSort fun a b => a.createdAt ≤ b.createdAt
  active.take (active.length+1-limit)

def Database.recordSession (db : Database) (uid : Nat) (token : Token) (now lifetime : Nat) :
    Database :=
  {db with sessions := db.sessions++[⟨db.sessions.length,uid,token,now,now+lifetime,false⟩]}

def Database.addToken (db : Database) (token : Token) (createdBy : Nat)
    (scopes : Option (List String)) (expiresAt : Option Nat) : Database :=
  {db with
    apiTokens := db.apiTokens++[⟨db.nextId,token,createdBy,scopes,expiresAt⟩]
    nextId := db.nextId+1}

def Database.deleteToken (db : Database) (id : Nat) : Database :=
  {db with apiTokens := db.apiTokens.filter (·.id ≠ id)}

def World.work (w : World) (k : Nat) (worker : Worker) : World :=
  {w with workers := update w.workers k worker}

def World.to (w : World) (r : Nat) (stage : Resolve) : World :=
  {w with resolve := update w.resolve r stage}

def World.endTo (w : World) (o : Nat) (stage : Ending) : World :=
  {w with ending := update w.ending o stage}

def World.finish (w : World) (o : Nat) (tokens : List Token) : World :=
  {w.endTo o (.done tokens) with ended := fun t => w.ended t || tokens.contains t}

def World.nextEpoch (w : World) : Nat := w.epoch.getD 0+1

def World.published (w : World) : Invalidation → World
  | .token t => {w with markers := update w.markers t (some (w.now+revokedMarkerTtl))}
  | _ => {w with epoch := some w.nextEpoch}

def World.marked (w : World) (t : Token) : Bool :=
  match w.markers t with
  | some until_ => w.now < until_
  | none => false

def next (w : World) : Act → Option World
  | .login o uid token limit lifetime =>
    match w.ending o with
    | .idle =>
      if uid ≠ 0 ∧ 0 < limit then
        let evicted := w.db.evicted uid limit w.now
        some ({w with db := (w.db.revoke evicted).recordSession uid token w.now lifetime}.finish o
          (evicted.map UserSession.token))
      else none
    | _ => none
  | .logout o k token =>
    match w.ending o with
    | .idle =>
      match w.db.sessions.find? fun s => s.token = token && !s.revoked with
      | some row =>
        some ({w with db := w.db.revoke [row]}.endTo o (.committed k (.token token)))
      | none => none
    | _ => none
  | .revokeSession o k id uid =>
    match w.ending o with
    | .idle =>
      match w.db.sessions.find? fun s => s.id = id && s.userId = uid with
      | some row =>
        some ({w with db := w.db.revoke [row]}.endTo o (.committed k (.sessions [row.token])))
      | none => none
    | _ => none
  | .revokeAllSessions o k uid except =>
    match w.ending o with
    | .idle =>
      match w.db.sessions.filter fun s => s.userId = uid && !s.revoked && some s.token ≠ except with
      | [] => none
      | rows =>
        some ({w with db := w.db.revoke rows}.endTo o
          (.committed k (.sessions (rows.map UserSession.token))))
    | _ => none
  | .createApiToken token createdBy scopes expiresAt =>
    if token.machine ∧ token ∉ w.minted then
      some {w with
        db := w.db.addToken token createdBy scopes expiresAt
        minted := token::w.minted}
    else none
  | .revokeApiToken o k id =>
    match w.ending o with
    | .idle =>
      match w.db.apiTokens.find? (·.id = id) with
      | some row =>
        some ({w with db := w.db.deleteToken id}.endTo o (.committed k (.tokens [row.token])))
      | none => none
    | _ => none
  | .rotateApiToken o k id token createdBy =>
    match w.ending o with
    | .idle =>
      match w.db.apiTokens.find? (·.id = id) with
      | some row =>
        if token.machine ∧ token ∉ w.minted then
          some ({w with
            db := (w.db.deleteToken id).addToken token createdBy row.scopes row.expiresAt
            minted := token::w.minted}.endTo o (.committed k (.tokens [row.token])))
        else none
      | none => none
    | _ => none
  | .invalidate o =>
    match w.ending o with
    | .committed k kind =>
      let cleared := w.work k ((w.workers k).invalidate kind)
      match kind with
      | .tokens tokens => some (cleared.finish o tokens)
      | _ => some (cleared.endTo o (.cleared k kind))
    | _ => none
  | .publish o call =>
    match w.ending o with
    | .cleared k kind =>
      let sent := (w.workers k).command w.now call
      let told := if sent.2.2 then w.published kind else w
      some ((told.work k sent.1).finish o kind.ends)
    | _ => none
  | .editUsers active => some {w with db := {w.db with active := active}}
  | .start r k token =>
    match w.resolve r with
    | .idle => some (w.to r (.started k token (w.ended token)))
    | _ => none
  | .lookup r =>
    match w.resolve r with
    | .started k t late =>
      match (w.workers k).cache.get t with
      | some entry =>
        if entry.expiry ≤ w.now then
          some ((w.work k ((w.workers k).pop t)).to r (.missed k t late))
        else some (w.to r (.found k t entry late))
      | none => some (w.to r (.missed k t late))
    | _ => none
  | .ask r call =>
    match w.resolve r with
    | .found k t entry late =>
      let sent := (w.workers k).command w.now call
      let asked := w.work k sent.1
      if sent.2.1 then
        if w.marked t then some (asked.to r (.revoked k t late))
        else some (asked.to r (.answered k t entry w.epoch late))
      else some (asked.to r (.missed k t late))
    | _ => none
  | .drop r =>
    match w.resolve r with
    | .revoked k t late => some ((w.work k ((w.workers k).pop t)).to r (.missed k t late))
    | _ => none
  | .compare r =>
    match w.resolve r with
    | .answered k t entry epoch late =>
      if epoch = (w.workers k).flushEpoch then some (w.to r (.returned t (some entry.uid) late))
      else some (w.to r (.noting k t epoch late))
    | _ => none
  | .note r =>
    match w.resolve r with
    | .noting k t epoch late =>
      some ((w.work k {w.workers k with flushEpoch := epoch}).to r (.flushing k t late))
    | _ => none
  | .flush r =>
    match w.resolve r with
    | .flushing k t late => some ((w.work k (w.workers k).clear).to r (.missed k t late))
    | _ => none
  | .validate r =>
    match w.resolve r with
    | .missed k t late =>
      match w.db.validate w.now t with
      | some (uid,scopes) => some (w.to r (.validated k t uid scopes late))
      | none => some (w.to r (.returned t none late))
    | _ => none
  | .insert r =>
    match w.resolve r with
    | .validated k t uid scopes late =>
      some ((w.work k ((w.workers k).cacheSet w.now t uid scopes)).to r
        (.returned t (some uid) late))
    | _ => none
  | .tick now => if w.now ≤ now then some {w with now := now} else none
  | .restart => some {w with markers := fun _ => none, epoch := none}

def Step (w : World) (act : Act) (w' : World) : Prop := next w act = some w'

def World.dead (w : World) (t : Token) : Prop :=
  w.db.isSessionRevoked t = true ∨
    (t.machine = true ∧ t ∈ w.minted ∧ ∀ row ∈ w.db.apiTokens, row.token ≠ t)

def World.cached (w : World) (k : Nat) (t : Token) (entry : Entry) : Prop :=
  (w.workers k).cache.get t = some entry ∧ w.now < entry.expiry

/-- Redis refutes an answer for as long as it is cached: by a marker that outlives it, or by a
flush the worker has not noted. -/
def World.fenced (w : World) (k : Nat) (t : Token) (expiry : Nat) : Prop :=
  (∃ kept, w.markers t = some kept ∧ expiry ≤ kept) ∨ (w.workers k).flushEpoch ≠ w.epoch

/-- A call of the worker has noted a flush and not cleared the cache yet. -/
def World.flushing (w : World) (k : Nat) : Prop :=
  ∃ r t late, w.resolve r = .flushing k t late

def World.shielded (w : World) (k : Nat) (t : Token) (expiry : Nat) : Prop :=
  w.fenced k t expiry ∨ w.flushing k

def World.refuted (w : World) (k : Nat) (t : Token) : Prop :=
  w.marked t = true ∨ (w.workers k).flushEpoch ≠ w.epoch

def Ending.tokens : Ending → List Token
  | .idle => []
  | .committed _ kind | .cleared _ kind => kind.ends
  | .done tokens => tokens

def Placed (w : World) : Resolve → Prop
  | .idle => True
  | .started _ t late | .revoked _ t late | .noting _ t _ late | .flushing _ t late
  | .missed _ t late => late = true → w.ended t = true
  | .found k t _ late => late = true → w.ended t = true ∧ w.refuted k t
  | .answered k t _ epoch late => late = true → w.ended t = true ∧ epoch ≠ (w.workers k).flushEpoch
  | .validated _ _ _ _ late => late = false
  | .returned _ uid late => late = true → uid = none

def Resolve.Late (t : Token) : Resolve → Prop
  | .idle => True
  | .started _ t' late | .found _ t' _ late | .revoked _ t' late | .answered _ t' _ _ late
  | .noting _ t' _ late | .flushing _ t' late | .missed _ t' late | .validated _ t' _ _ late
  | .returned t' _ late => t' = t → late = true

structure Sound (w : World) : Prop where
  rows : (w.db.apiTokens.map APIToken.token).Nodup
  machines : ∀ row ∈ w.db.apiTokens, row.token.machine = true ∧ row.token ∈ w.minted
  pending : ∀ o, ∀ t ∈ (w.ending o).tokens, w.dead t
  ended : ∀ t, w.ended t = true → w.dead t
  fresh : ∀ k t entry, (w.workers k).cache.get t = some entry → entry.expiry ≤ w.now+sessionCacheTtl
  cached : ∀ k t entry, w.cached k t entry → w.ended t = true → w.shielded k t entry.expiry
  calls : ∀ r, Placed w (w.resolve r)

def Meets (w : World) : Act → Prop
  -- a login evicts sessions nobody has cached: nothing tells the caches
  | .login _ uid _ limit _ => ∀ row ∈ w.db.evicted uid limit w.now, ∀ k entry,
      w.cached k row.token entry → w.shielded k row.token entry.expiry
  -- an API token is dropped in one worker only
  | .invalidate o => ∀ k tokens, w.ending o = .committed k (.tokens tokens) →
      ∀ t ∈ tokens, ∀ k', k' ≠ k → ∀ entry, w.cached k' t entry → w.shielded k' t entry.expiry
  -- a publication gets through, or nobody has the answer; a flush is new to every worker
  | .publish o call => ∀ k kind, w.ending o = .cleared k kind →
      if ((w.workers k).command w.now call).2.2 then
        (∃ t, kind = .token t) ∨ ∀ k', (w.workers k').flushEpoch ≠ some w.nextEpoch
      else ∀ t ∈ kind.ends, ∀ k' entry, w.cached k' t entry → w.shielded k' t entry.expiry
  -- nobody looks up between the note of a flush and the flush
  | .lookup r => ∀ k t late entry, w.resolve r = .started k t late → w.cached k t entry →
      w.ended t = true → w.flushing k → w.fenced k t entry.expiry
  -- nobody notes a flush while another call of the worker has an answer in hand
  | .note r => ∀ k t epoch late, w.resolve r = .noting k t epoch late →
      (∀ r' t' entry, w.resolve r' = .found k t' entry true → w.marked t' = true ∨ epoch ≠ w.epoch) ∧
      ∀ r' t' entry epoch', w.resolve r' = .answered k t' entry epoch' true → epoch' ≠ epoch
  -- an answer is not cached after its token was ended
  | .insert r => ∀ k t uid scopes late, w.resolve r = .validated k t uid scopes late →
      w.ended t = true → w.shielded k t (w.now+sessionCacheTtl)
  -- a call does not sleep through the life of a marker with an answer in hand
  | .tick now => ∀ r k t entry kept, w.resolve r = .found k t entry true →
      w.markers t = some kept → w.now < kept →
      now < kept ∨ (w.workers k).flushEpoch ≠ w.epoch
  -- Redis keeps the markers that are needed
  | .restart => (∀ k t entry, w.cached k t entry → w.ended t = true →
      (w.workers k).flushEpoch ≠ none ∨ w.flushing k) ∧
      ∀ r k t entry, w.resolve r = .found k t entry true → (w.workers k).flushEpoch ≠ none
  | _ => True

section Proofs
variable {w w' : World} {r k o : Nat} {t : Token}

theorem apiToken_none (h : ∀ row ∈ w.db.apiTokens, row.token ≠ t) : w.db.apiToken t = none := by
  unfold Database.apiToken
  rw [find?_eq_none]
  intro row hrow
  simpa using h row hrow

theorem validate_dead (h : w.dead t) (now : Nat) : w.db.validate now t = none := by
  unfold Database.validate
  split
  · rfl
  case isFalse live =>
    obtain revoked | ⟨machine,_,gone⟩ := h
    · exact absurd revoked live
    · have none_ := apiToken_none gone
      cases t with
      | sub uid exp => cases machine
      | user uid scopes exp jti =>
        obtain rfl : uid = 0 := of_decide_eq_true machine
        simp [Database.serviceAccountTokenIsLive,Database.resolveApiToken,none_]
      | secret n => simp [Database.resolveApiToken,none_]

variable {stage : Resolve}

theorem Placed.mono (h : Placed w stage) (ended : ∀ t, w.ended t = true → w'.ended t = true)
    (found : ∀ k t entry, stage = .found k t entry true → w.refuted k t → w'.refuted k t)
    (answered : ∀ k t entry epoch, stage = .answered k t entry epoch true →
      epoch ≠ (w.workers k).flushEpoch → epoch ≠ (w'.workers k).flushEpoch) : Placed w' stage := by
  cases stage with
  | idle => trivial
  | found k t entry late =>
    intro late_
    subst late_
    exact ⟨ended t (h rfl).1,found k t entry rfl (h rfl).2⟩
  | answered k t entry epoch late =>
    intro late_
    subst late_
    exact ⟨ended t (h rfl).1,answered k t entry epoch rfl (h rfl).2⟩
  | validated | returned => exact h
  | started k t late | revoked k t late | noting k t epoch late | flushing k t late
  | missed k t late => exact fun late_ => ended t (h late_)

variable {worker : Worker}

theorem work_flushEpoch (epoch : worker.flushEpoch = (w.workers k).flushEpoch) (k' : Nat) :
    ((w.work k worker).workers k').flushEpoch = (w.workers k').flushEpoch := by
  change (update w.workers k worker k').flushEpoch = _
  by_cases eq : k' = k
  · subst eq
    rw [update_self]
    exact epoch
  · rw [update_of_ne eq]

theorem Placed.work (h : Placed w stage)
    (epoch : worker.flushEpoch = (w.workers k).flushEpoch) : Placed (w.work k worker) stage := by
  refine h.mono (fun _ => id) (fun k' t _ _ refuted => refuted.imp id fun ne => ?_)
    (fun k' _ _ v _ ne => ?_)
  · rw [work_flushEpoch epoch]
    exact ne
  · rw [work_flushEpoch epoch]
    exact ne

theorem shielded_work {k' expiry : Nat}
    (epoch : worker.flushEpoch = (w.workers k).flushEpoch) (h : w.shielded k' t expiry) :
    (w.work k worker).shielded k' t expiry := by
  obtain (marker | ne) | flush := h
  · exact .inl (.inl marker)
  · refine .inl (.inr ?_)
    rw [work_flushEpoch epoch]
    exact ne
  · exact .inr flush

variable {entry : Entry} {rows : List UserSession} {row : UserSession} {uid now : Nat} {act : Act}

theorem work_get {k' : Nat}
    (kept : ∀ t entry, worker.cache.get t = some entry → (w.workers k).cache.get t = some entry)
    (h : ((w.work k worker).workers k').cache.get t = some entry) :
    (w.workers k').cache.get t = some entry := by
  change (update w.workers k worker k').cache.get t = some entry at h
  by_cases eq : k' = k
  · subst eq
    rw [update_self] at h
    exact kept t entry h
  · rw [update_of_ne eq] at h
    exact h

theorem Sound.work (h : Sound w)
    (kept : ∀ t entry, worker.cache.get t = some entry → (w.workers k).cache.get t = some entry)
    (epoch : worker.flushEpoch = (w.workers k).flushEpoch) : Sound (w.work k worker) := by
  exact {h with
    fresh := fun k' t entry stored => h.fresh k' t entry (work_get kept stored)
    cached := fun k' t entry cached ended =>
      shielded_work epoch (h.cached k' t entry ⟨work_get kept cached.1,cached.2⟩ ended)
    calls := fun r => (h.calls r).work epoch}

theorem Sound.to (h : Sound w) (flush : ∀ k t late, w.resolve r = .flushing k t late →
      ∀ t entry, (w.workers k).cache.get t ≠ some entry)
    (placed : Placed w stage) : Sound (w.to r stage) where
  rows := h.rows
  machines := h.machines
  pending := h.pending
  ended := h.ended
  fresh := h.fresh
  cached := by
    intro k t entry cached ended
    obtain fenced | ⟨r',t',late,hr⟩ := h.cached k t entry cached ended
    · exact .inl fenced
    · by_cases eq : r' = r
      · subst eq
        exact absurd cached.1 (flush k t' late hr t entry)
      · exact .inr ⟨r',t',late,(update_of_ne eq ..).trans hr⟩
  calls := (forall_update_iff w.resolve fun _ => Placed w).2 ⟨placed,fun r' _ => h.calls r'⟩

theorem Sound.here (h : Sound w) (hr : w.resolve r = stage) : Placed w stage := hr ▸ h.calls r

variable {db : Database}

theorem Sound.database (h : Sound w) {minted : List Token}
    (rows : (db.apiTokens.map APIToken.token).Nodup)
    (machines : ∀ row ∈ db.apiTokens, row.token.machine = true ∧ row.token ∈ minted)
    (dead : ∀ t, w.dead t → {w with db := db, minted := minted}.dead t) :
    Sound {w with db := db, minted := minted} where
  rows := rows
  machines := machines
  pending := fun o t ht => dead t (h.pending o t ht)
  ended := fun t ended => dead t (h.ended t ended)
  fresh := h.fresh
  cached := h.cached
  calls := h.calls

theorem Sound.endTo (h : Sound w) {stage : Ending} (dead : ∀ t ∈ stage.tokens, w.dead t) :
    Sound (w.endTo o stage) :=
  {h with
    pending := (forall_update_iff w.ending fun _ e => ∀ t ∈ e.tokens, w.dead t).2
      ⟨dead,fun o' _ => h.pending o'⟩}

theorem Sound.finish (h : Sound w) {tokens : List Token} (dead : ∀ t ∈ tokens, w.dead t)
    (shielded : ∀ t ∈ tokens, ∀ k entry, w.cached k t entry → w.shielded k t entry.expiry) :
    Sound (w.finish o tokens) := by
  have sound : Sound (w.endTo o (.done tokens)) := h.endTo dead
  have ended : ∀ t, (w.finish o tokens).ended t = true → w.ended t = true ∨ t ∈ tokens := by
    intro t ht
    change (w.ended t || tokens.contains t) = true at ht
    rw [Bool.or_eq_true,contains_iff_mem] at ht
    exact ht
  exact {sound with
    ended := fun t ht => (ended t ht).elim (sound.ended t) (dead t)
    cached := fun k t entry cached ht =>
      (ended t ht).elim (sound.cached k t entry cached) fun mem => shielded t mem k entry cached
    calls := fun r => (sound.calls r).mono (fun t ht => Bool.or_eq_true_iff.mpr (.inl ht))
      (fun _ _ _ _ => id) (fun _ _ _ _ _ => id)}

theorem isSessionRevoked_revoke
    (h : db.isSessionRevoked t = true) : (db.revoke rows).isSessionRevoked t = true := by
  obtain ⟨s,hs,match_⟩ := any_eq_true.mp h
  simp only [Bool.and_eq_true,decide_eq_true_eq] at match_
  refine any_eq_true.mpr ⟨_,mem_map_of_mem hs,?_⟩
  split
  · simp [match_.1]
  · simp [match_]

theorem isSessionRevoked_of_mem (mem : row ∈ rows) (stored : row ∈ db.sessions) :
    (db.revoke rows).isSessionRevoked row.token = true := by
  refine any_eq_true.mpr ⟨_,mem_map_of_mem stored,?_⟩
  rw [if_pos (any_eq_true.mpr ⟨row,mem,decide_eq_true rfl⟩)]
  simp

theorem isSessionRevoked_recordSession {lifetime : Nat} {token : Token}
    (h : db.isSessionRevoked t = true) :
    (db.recordSession uid token now lifetime).isSessionRevoked t = true := by
  unfold Database.isSessionRevoked Database.recordSession at *
  rw [any_append,h,Bool.true_or]

theorem evicted_mem {limit : Nat} (h : row ∈ db.evicted uid limit now) : row ∈ db.sessions :=
  mem_of_mem_filter ((mem_insertionSort _).mp (mem_of_mem_take h))

theorem Sound.revoke (h : Sound w) (rows : List UserSession) :
    Sound {w with db := w.db.revoke rows} :=
  h.database h.rows h.machines fun _ dead => dead.imp isSessionRevoked_revoke id

theorem dead_revoke (mem : row ∈ rows)
    (stored : row ∈ w.db.sessions) : {w with db := w.db.revoke rows}.dead row.token :=
  .inl (isSessionRevoked_of_mem mem stored)

theorem Sound.recordSession (h : Sound w) (uid : Nat) (token : Token) (now lifetime : Nat) :
    Sound {w with db := w.db.recordSession uid token now lifetime} :=
  h.database h.rows h.machines fun _ dead => dead.imp isSessionRevoked_recordSession id

theorem Sound.addToken (h : Sound w) {token : Token} (createdBy : Nat)
    (scopes : Option (List String)) (expiresAt : Option Nat) (machine : token.machine = true)
    (new : token ∉ w.minted) :
    Sound {w with
      db := w.db.addToken token createdBy scopes expiresAt
      minted := token::w.minted} := by
  refine h.database ?_ (fun row hrow => ?_) (fun t dead => dead.imp id fun ⟨kind,old,gone⟩ =>
    ⟨kind,mem_cons_of_mem _ old,fun row hrow => ?_⟩)
  · change ((w.db.apiTokens++[_]).map APIToken.token).Nodup
    rw [map_append,nodup_append]
    refine ⟨h.rows,nodup_singleton _,fun a ha b hb eq => new ?_⟩
    obtain ⟨row,hrow,rfl⟩ := mem_map.mp ha
    cases mem_singleton.mp hb
    change row.token = token at eq
    exact eq ▸ (h.machines row hrow).2
  · obtain old | new_ := mem_append.mp hrow
    · exact ⟨(h.machines row old).1,mem_cons_of_mem _ (h.machines row old).2⟩
    · cases mem_singleton.mp new_
      exact ⟨machine,mem_cons_self ..⟩
  · obtain old_ | new_ := mem_append.mp hrow
    · exact gone row old_
    · cases mem_singleton.mp new_
      intro eq
      change token = t at eq
      exact new (eq ▸ old)

theorem Sound.deleteToken (h : Sound w) (id : Nat) : Sound {w with db := w.db.deleteToken id} := by
  refine h.database (h.rows.sublist (filter_sublist.map _))
    (fun row hrow => h.machines row (mem_of_mem_filter hrow))
    (fun t dead => dead.imp (fun revoked => revoked) fun ⟨kind,old,gone⟩ =>
      ⟨kind,old,fun row hrow => gone row (mem_of_mem_filter hrow)⟩)

theorem Sound.dead_deleteToken (h : Sound w) {id : Nat} {row : APIToken}
    (found : w.db.apiTokens.find? (·.id = id) = some row) :
    {w with db := w.db.deleteToken id}.dead row.token := by
  have mem := mem_of_find?_eq_some found
  have here : row.id = id := by simpa using find?_some found
  refine .inr ⟨(h.machines row mem).1,(h.machines row mem).2,fun row' hrow' eq => ?_⟩
  have apart := (mem_filter.mp hrow').2
  rw [inj_on_of_nodup_map h.rows (mem_of_mem_filter hrow') mem eq] at apart
  simp [here] at apart

theorem command_cache (worker : Worker) (now : Nat) (call : RedisCall) :
    (worker.command now call).1.cache = worker.cache ∧
      (worker.command now call).1.flushEpoch = worker.flushEpoch := by
  unfold Worker.command Worker.getSyncRedis
  simp only
  (repeat' split) <;> exact ⟨rfl,rfl⟩

theorem Sound.command (h : Sound w) (k : Nat) (call : RedisCall) :
    Sound (w.work k ((w.workers k).command w.now call).1) := by
  obtain ⟨cache,epoch⟩ := command_cache (w.workers k) w.now call
  refine h.work (fun t entry stored => ?_) epoch
  rw [cache] at stored
  exact stored

theorem pop_kept {t' : Token}
    (h : (worker.pop t').cache.get t = some entry) : worker.cache.get t = some entry := by
  unfold Worker.pop at h
  rw [Dict.get_restrict] at h
  split at h
  · exact h
  · cases h

theorem Sound.pop (h : Sound w) (k : Nat) (t : Token) : Sound (w.work k ((w.workers k).pop t)) :=
  h.work (fun _ _ => pop_kept) rfl

theorem Sound.clear (h : Sound w) (k : Nat) : Sound (w.work k (w.workers k).clear) :=
  h.work nofun rfl

theorem Sound.invalidate (h : Sound w) (k : Nat) (kind : Invalidation) :
    Sound (w.work k ((w.workers k).invalidate kind)) := by
  cases kind with
  | token t => exact h.pop k t
  | sessions | tokens => exact h.clear k

theorem Sound.note (h : Sound w) {epoch : Option Nat} {late : Bool}
    (hr : w.resolve r = .noting k t epoch late) (meets : Meets w (.note r)) :
    Sound ((w.work k {w.workers k with flushEpoch := epoch}).to r (.flushing k t late)) := by
  obtain ⟨founds,answers⟩ := meets k t epoch late hr
  have placed := h.here hr
  have epochs : ∀ k', k' ≠ k → (((w.work k {w.workers k with flushEpoch := epoch}).to r
      (.flushing k t late)).workers k') = w.workers k' := fun k' ne => update_of_ne ne ..
  have own : (((w.work k {w.workers k with flushEpoch := epoch}).to r
      (.flushing k t late)).workers k) = {w.workers k with flushEpoch := epoch} :=
    update_self ..
  have caches : ∀ k', (((w.work k {w.workers k with flushEpoch := epoch}).to r
      (.flushing k t late)).workers k').cache = (w.workers k').cache := by
    intro k'
    by_cases eq : k' = k
    · subst eq
      rw [own]
    · rw [epochs k' eq]
  exact {h with
    fresh := fun k' t entry stored => h.fresh k' t entry (caches k' ▸ stored)
    cached := by
      intro k' t' entry ⟨stored,late_⟩ ended
      rw [caches] at stored
      by_cases eq : k' = k
      · subst eq
        exact .inr ⟨r,t,late,update_self ..⟩
      · obtain (marker | ne) | ⟨r',t'',late',hr'⟩ := h.cached k' t' entry ⟨stored,late_⟩ ended
        · exact .inl (.inl marker)
        · refine .inl (.inr ?_)
          rw [epochs k' eq]
          exact ne
        · have other : r' ≠ r := by
            rintro rfl
            rw [hr] at hr'
            cases hr'
          exact .inr ⟨r',t'',late',(update_of_ne other ..).trans hr'⟩
    calls := by
      intro r'
      change Placed _ (update w.resolve r _ r')
      by_cases eq : r' = r
      · subst eq
        rw [update_self]
        exact placed
      · rw [update_of_ne eq]
        refine (h.calls r').mono (fun _ => id) (fun k' t' entry stage refuted => ?_)
          (fun k' t' entry v stage ne => ?_)
        · by_cases here : k' = k
          · subst here
            refine (founds r' t' entry stage).imp id fun ne => ?_
            rw [own]
            exact ne
          · refine refuted.imp id fun ne => ?_
            rw [epochs k' here]
            exact ne
        · by_cases here : k' = k
          · subst here
            rw [own]
            exact answers r' t' entry v stage
          · rw [epochs k' here]
            exact ne}

theorem cacheSet_get {scopes : Option (List String)}
    {t' : Token} (h : (worker.cacheSet now t uid scopes).cache.get t' = some entry) :
    (t' = t ∧ entry.expiry = now+sessionCacheTtl) ∨ worker.cache.get t' = some entry := by
  unfold Worker.cacheSet at h
  simp only [Dict.get_set] at h
  split at h
  case isTrue same =>
    cases h
    exact .inl ⟨same,rfl⟩
  case isFalse =>
    refine .inr ?_
    split at h
    · rw [Dict.get_restrict] at h
      split at h
      · exact h
      · cases h
    · exact h

theorem Sound.insert (h : Sound w) {scopes : Option (List String)}
    (shielded : w.ended t = true → w.shielded k t (w.now+sessionCacheTtl)) :
    Sound (w.work k ((w.workers k).cacheSet w.now t uid scopes)) := by
  have caches : ∀ k' t' entry,
      ((w.work k ((w.workers k).cacheSet w.now t uid scopes)).workers k').cache.get t' = some entry →
      (k' = k ∧ t' = t ∧ entry.expiry = w.now+sessionCacheTtl) ∨
        (w.workers k').cache.get t' = some entry := by
    intro k' t' entry
    change (update w.workers k _ k').cache.get t' = some entry → _
    by_cases eq : k' = k
    · subst eq
      rw [update_self]
      exact fun stored => (cacheSet_get stored).imp (fun new => ⟨rfl,new⟩) id
    · rw [update_of_ne eq]
      exact .inr
  exact {h with
    fresh := by
      intro k' t' entry stored
      obtain ⟨_,_,expiry⟩ | old := caches k' t' entry stored
      · exact le_of_eq expiry
      · exact h.fresh k' t' entry old
    cached := by
      intro k' t' entry ⟨stored,late⟩ ended
      obtain ⟨rfl,rfl,expiry⟩ | old := caches k' t' entry stored
      · rw [expiry]
        exact shielded_work rfl (shielded ended)
      · exact shielded_work rfl (h.cached k' t' entry ⟨old,late⟩ ended)
    calls := fun r => (h.calls r).work rfl}

theorem Sound.mark (h : Sound w) (t : Token) :
    Sound (w.published (.token t)) ∧ ∀ k entry, w.cached k t entry →
      (w.published (.token t)).shielded k t entry.expiry := by
  have long : sessionCacheTtl ≤ revokedMarkerTtl := by decide
  have positive : 0 < revokedMarkerTtl := by decide
  have shield : ∀ k entry, w.cached k t entry →
      (w.published (.token t)).shielded k t entry.expiry := by
    intro k entry cached
    refine .inl (.inl ⟨w.now+revokedMarkerTtl,update_self ..,?_⟩)
    have expiry := h.fresh k t entry cached.1
    omega
  refine ⟨?_,shield⟩
  exact {h with
    cached := by
      intro k t' entry cached ended
      by_cases eq : t' = t
      · subst eq
        exact shield k entry cached
      · obtain (⟨kept,marker,long⟩ | ne) | flush := h.cached k t' entry cached ended
        · exact .inl (.inl ⟨kept,(update_of_ne eq ..).trans marker,long⟩)
        · exact .inl (.inr ne)
        · exact .inr flush
    calls := by
      intro r
      refine (h.calls r).mono (fun _ => id) (fun k t' entry _ refuted => ?_) (fun _ _ _ _ _ => id)
      obtain marked | ne := refuted
      · refine .inl ?_
        by_cases eq : t' = t
        · subst eq
          change (match update w.markers t' _ t' with | some _ => _ | none => _) = true
          rw [update_self]
          exact decide_eq_true (Nat.lt_add_of_pos_right positive)
        · change (match update w.markers t _ t' with | some _ => _ | none => _) = true
          rw [update_of_ne eq]
          exact marked
      · exact .inr ne}

theorem Sound.flushAll (h : Sound w) (new : ∀ k, (w.workers k).flushEpoch ≠ some w.nextEpoch) :
    Sound {w with epoch := some w.nextEpoch} where
  rows := h.rows
  machines := h.machines
  pending := h.pending
  ended := h.ended
  fresh := h.fresh
  cached := fun k _ _ _ _ => .inl (.inr (new k))
  calls := fun r => (h.calls r).mono (fun _ => id) (fun k _ _ _ _ => .inr (new k))
    (fun _ _ _ _ _ => id)

theorem Sound.publish (h : Sound w) {kind : Invalidation} {worker : Worker}
    (dead : ∀ t ∈ kind.ends, w.dead t)
    (new : (∃ t, kind = .token t) ∨ ∀ k, (w.workers k).flushEpoch ≠ some w.nextEpoch)
    (cache : worker.cache = (w.workers k).cache)
    (epoch : worker.flushEpoch = (w.workers k).flushEpoch) :
    Sound (((w.published kind).work k worker).finish o kind.ends) := by
  have kept : ∀ t entry, worker.cache.get t = some entry →
      (w.workers k).cache.get t = some entry := fun t entry stored => cache ▸ stored
  cases kind with
  | token t =>
    obtain ⟨sound,shield⟩ := h.mark t
    refine (sound.work kept epoch).finish dead
      (fun t' ht' k' entry cached => shielded_work epoch ?_)
    cases mem_singleton.mp ht'
    exact shield k' entry ⟨work_get (w := w.published (.token t)) kept cached.1,cached.2⟩
  | sessions tokens | tokens tokens =>
    have fresh := new.resolve_left fun ⟨_,eq⟩ => by cases eq
    exact ((h.flushAll fresh).work kept epoch).finish dead
      (fun _ _ k' _ _ => shielded_work epoch (.inl (.inr (fresh k'))))

theorem Sound.tick (h : Sound w) (later : w.now ≤ now) (meets : Meets w (.tick now)) :
    Sound {w with now := now} where
  rows := h.rows
  machines := h.machines
  pending := h.pending
  ended := h.ended
  fresh := fun k t entry stored => Nat.le_trans (h.fresh k t entry stored)
    (Nat.add_le_add_right later _)
  cached := fun k t entry cached ended =>
    h.cached k t entry ⟨cached.1,lt_of_le_of_lt later cached.2⟩ ended
  calls := by
    intro r
    refine (h.calls r).mono (fun _ => id) (fun k t entry stage refuted => ?_) (fun _ _ _ _ _ => id)
    obtain marked | ne := refuted
    · unfold World.marked at marked
      split at marked
      case h_1 kept marker =>
        refine (meets r k t entry kept stage marker (of_decide_eq_true marked)).imp (fun long => ?_) id
        change (match w.markers t with | some _ => _ | none => _) = true
        rw [marker]
        exact decide_eq_true long
      case h_2 => cases marked
    · exact .inr ne

theorem Sound.restart (h : Sound w) (meets : Meets w .restart) :
    Sound {w with markers := fun _ => none, epoch := none} where
  rows := h.rows
  machines := h.machines
  pending := h.pending
  ended := h.ended
  fresh := h.fresh
  cached := fun k t entry cached ended => (meets.1 k t entry cached ended).imp .inr id
  calls := fun r => (h.calls r).mono (fun _ => id)
    (fun k t entry stage _ => .inr (meets.2 r k t entry stage)) (fun _ _ _ _ _ => id)

theorem Sound.walk (h : Sound w) {before : Resolve} (hr : w.resolve r = before)
    (still : ∀ k t late, before ≠ .flushing k t late) (placed : Placed w stage) :
    Sound (w.to r stage) :=
  h.to (fun k t late eq => absurd (hr.symm.trans eq) (still k t late)) placed

theorem Sound.lookup (h : Sound w) {late : Bool} (hr : w.resolve r = .started k t late)
    (meets : Meets w (.lookup r)) (stored : (w.workers k).cache.get t = some entry)
    (live : w.now < entry.expiry) : Placed w (.found k t entry late) := by
  intro late_
  have placed := h.here hr
  have ended := placed late_
  refine ⟨ended,?_⟩
  have fenced : w.fenced k t entry.expiry := by
    obtain fenced | flush := h.cached k t entry ⟨stored,live⟩ ended
    · exact fenced
    · exact meets k t late entry hr ⟨stored,live⟩ ended flush
  obtain ⟨kept,marker,long⟩ | ne := fenced
  · refine .inl ?_
    unfold World.marked
    rw [marker]
    exact decide_eq_true (lt_of_lt_of_le live long)
  · exact .inr ne

attribute [local simp] next

theorem Sound.step (h : Sound w) (meets : Meets w act) (step : Step w act w') :
    Sound w' := by
  unfold Step at step
  cases act with simp only [next] at step
  | login o uid token limit lifetime =>
    split at step
    · split at step <;> cases step
      have sound := (h.revoke (w.db.evicted uid limit w.now)).recordSession uid token w.now lifetime
      refine sound.finish (fun t ht => ?_) (fun t ht k entry cached => ?_)
      · obtain ⟨row,hrow,rfl⟩ := mem_map.mp ht
        exact .inl (isSessionRevoked_recordSession (isSessionRevoked_of_mem hrow (evicted_mem hrow)))
      · obtain ⟨row,hrow,rfl⟩ := mem_map.mp ht
        exact meets row hrow k entry cached
    · cases step
  | logout o k token =>
    split at step
    · split at step <;> cases step
      rename_i row found
      refine (h.revoke [row]).endTo (fun t ht => ?_)
      cases mem_singleton.mp ht
      have here := find?_some found
      simp only [Bool.and_eq_true,decide_eq_true_eq] at here
      rw [←here.1]
      exact dead_revoke (.head _) (mem_of_find?_eq_some found)
    · cases step
  | revokeSession o k id uid =>
    split at step
    · split at step <;> cases step
      rename_i row found
      refine (h.revoke [row]).endTo (fun t ht => ?_)
      cases mem_singleton.mp ht
      exact dead_revoke (.head _) (mem_of_find?_eq_some found)
    · cases step
  | revokeAllSessions o k uid except =>
    split at step
    · split at step <;> cases step
      refine (h.revoke _).endTo (fun t ht => ?_)
      obtain ⟨row,hrow,rfl⟩ := mem_map.mp ht
      exact dead_revoke hrow (mem_of_mem_filter hrow)
    · cases step
  | createApiToken token createdBy scopes expiresAt =>
    split at step <;> cases step
    rename_i new
    exact h.addToken createdBy scopes expiresAt new.1 new.2
  | revokeApiToken o k id =>
    split at step
    · split at step <;> cases step
      rename_i row found
      refine (h.deleteToken id).endTo (fun t ht => ?_)
      cases mem_singleton.mp ht
      exact h.dead_deleteToken found
    · cases step
  | rotateApiToken o k id token createdBy =>
    split at step
    · split at step
      case h_1 row found =>
        split at step <;> cases step
        rename_i new
        have sound := (h.deleteToken id).addToken createdBy row.scopes row.expiresAt new.1 new.2
        refine sound.endTo (fun t ht => ?_)
        cases mem_singleton.mp ht
        obtain revoked | ⟨kind,old,gone⟩ := h.dead_deleteToken found
        · exact .inl revoked
        · refine .inr ⟨kind,mem_cons_of_mem _ old,fun row' hrow' => ?_⟩
          obtain stored | fresh := mem_append.mp hrow'
          · exact gone row' stored
          · cases mem_singleton.mp fresh
            exact fun eq => new.2 ((show token = row.token from eq) ▸ old)
      case h_2 => cases step
    · cases step
  | invalidate o =>
    split at step
    case h_1 k kind he =>
      have dead := h.pending o
      rw [he] at dead
      have sound := h.invalidate k kind
      split at step
      case h_1 tokens =>
        cases step
        refine sound.finish dead (fun t ht k' entry cached => ?_)
        by_cases eq : k' = k
        · subst eq
          have stored := cached.1
          change (update w.workers k' _ k').cache.get t = some entry at stored
          rw [update_self] at stored
          cases stored
        · have stored : (w.workers k').cache.get t = some entry := by
            have stored := cached.1
            change (update w.workers k _ k').cache.get t = some entry at stored
            rw [update_of_ne eq] at stored
            exact stored
          exact shielded_work rfl (meets k tokens he t ht k' eq entry ⟨stored,cached.2⟩)
      case h_2 =>
        cases step
        exact sound.endTo dead
    case h_2 => cases step
  | publish o call =>
    split at step <;> cases step
    rename_i k kind he
    have dead := h.pending o
    rw [he] at dead
    obtain ⟨cache,epoch⟩ := command_cache (w.workers k) w.now call
    have told := meets k kind he
    split at told
    case isTrue applied =>
      rw [if_pos applied]
      exact h.publish dead told cache epoch
    case isFalse lost =>
      rw [if_neg lost]
      have kept : ∀ t entry, ((w.workers k).command w.now call).1.cache.get t = some entry →
          (w.workers k).cache.get t = some entry := fun t entry stored => cache ▸ stored
      exact (h.work kept epoch).finish dead fun t ht k' entry cached =>
        shielded_work epoch (told t ht k' entry ⟨work_get kept cached.1,cached.2⟩)
  | editUsers active =>
    cases step
    exact h.database h.rows h.machines fun _ dead => dead
  | start r k token =>
    split at step <;> cases step
    rename_i hr
    exact h.walk hr (by rintro _ _ _ ⟨⟩) id
  | lookup r =>
    split at step
    case h_1 k t late hr =>
      have placed := h.here hr
      split at step
      case h_1 entry stored =>
        split at step
        · cases step
          exact (h.pop k t).walk hr (by rintro _ _ _ ⟨⟩) (Placed.work placed rfl)
        case isFalse live =>
          cases step
          exact h.walk hr (by rintro _ _ _ ⟨⟩) (h.lookup hr meets stored (lt_of_not_ge live))
      case h_2 =>
        cases step
        exact h.walk hr (by rintro _ _ _ ⟨⟩) placed
    case h_2 => cases step
  | ask r call =>
    split at step
    case h_1 k t entry late hr =>
      have placed := h.here hr
      have sound := h.command k call
      have epoch := (command_cache (w.workers k) w.now call).2
      split at step
      · split at step
        · cases step
          exact sound.walk hr (by rintro _ _ _ ⟨⟩) fun late_ => (placed late_).1
        case isFalse unmarked =>
          cases step
          refine sound.walk hr (by rintro _ _ _ ⟨⟩) fun late_ => ⟨(placed late_).1,?_⟩
          rw [work_flushEpoch epoch]
          exact ((placed late_).2.resolve_left unmarked).symm
      · cases step
        exact sound.walk hr (by rintro _ _ _ ⟨⟩) fun late_ => (placed late_).1
    case h_2 => cases step
  | drop r =>
    split at step <;> cases step
    rename_i k t late hr
    have placed := h.here hr
    exact (h.pop k t).walk hr (by rintro _ _ _ ⟨⟩) (Placed.work placed rfl)
  | compare r =>
    split at step
    case h_1 k t entry epoch late hr =>
      have placed := h.here hr
      split at step
      case isTrue same =>
        cases step
        exact h.walk hr (by rintro _ _ _ ⟨⟩) fun late_ => absurd same (placed late_).2
      case isFalse =>
        cases step
        exact h.walk hr (by rintro _ _ _ ⟨⟩) fun late_ => (placed late_).1
    case h_2 => cases step
  | note r =>
    split at step <;> cases step
    rename_i k t epoch late hr
    exact h.note hr meets
  | flush r =>
    split at step <;> cases step
    rename_i k t late hr
    have placed := h.here hr
    refine (h.clear k).to (fun k' t' late' hr' t entry stored => ?_) (Placed.work placed rfl)
    cases hr.symm.trans hr'
    change (update w.workers k _ k).cache.get t = some entry at stored
    rw [update_self] at stored
    cases stored
  | validate r =>
    split at step
    case h_1 k t late hr =>
      have placed := h.here hr
      split at step
      case h_1 uid scopes valid =>
        cases step
        refine h.walk hr (by rintro _ _ _ ⟨⟩) ?_
        cases late with
        | false => rfl
        | true =>
          rw [validate_dead (h.ended t (placed rfl))] at valid
          cases valid
      case h_2 =>
        cases step
        exact h.walk hr (by rintro _ _ _ ⟨⟩) fun _ => rfl
    case h_2 => cases step
  | insert r =>
    split at step <;> cases step
    rename_i k t uid scopes late hr
    have placed := h.here hr
    refine (h.insert (meets k t uid scopes late hr)).walk hr (by rintro _ _ _ ⟨⟩) fun late_ => ?_
    exact absurd late_ (by rw [show late = false from placed]; simp)
  | tick now =>
    split at step <;> cases step
    rename_i later
    exact h.tick later meets
  | restart =>
    cases step
    exact h.restart meets

theorem sound_start : Sound {} where
  rows := .nil
  machines := fun _ hrow => by cases hrow
  pending := fun _ _ ht => by cases ht
  ended := fun _ ended => by cases ended
  fresh := fun _ _ _ stored => by cases stored
  cached := fun _ _ _ cached => by cases cached.1
  calls := fun _ => trivial

theorem finish_ended {tokens : List Token} (h : w.ended t = true) :
    (w.finish o tokens).ended t = true := Bool.or_eq_true_iff.mpr (.inl h)

theorem Late.to {r' : Nat} {before : Resolve} (hr : w.resolve r' = before)
    (keeps : before.Late t → stage.Late t) (h : (w.resolve r).Late t) :
    ((w.to r' stage).resolve r).Late t := by
  change (update w.resolve r' stage r).Late t
  by_cases eq : r = r'
  · subst eq
    rw [update_self]
    exact keeps (hr ▸ h)
  · rw [update_of_ne eq]
    exact h

theorem step_late (step : Step w act w') (ended : w.ended t = true)
    (h : (w.resolve r).Late t) : w'.ended t = true ∧ (w'.resolve r).Late t := by
  unfold Step at step
  cases act with simp only [next] at step
  | start r' k token =>
    split at step <;> cases step
    rename_i hr
    refine ⟨ended,Late.to hr (fun _ eq => ?_) h⟩
    rw [eq]
    exact ended
  | tick now =>
    split at step <;> cases step
    exact ⟨ended,h⟩
  | login o uid token limit lifetime =>
    (repeat' split at step) <;> first | cases step; done | (cases step; exact ⟨finish_ended ended,h⟩)
  | publish o call =>
    split at step <;> cases step
    rename_i k kind he
    refine ⟨finish_ended ?_,?_⟩
    · split
      · cases kind <;> exact ended
      · exact ended
    · change (World.resolve (if _ then _ else _) r).Late t
      split
      · cases kind <;> exact h
      · exact h
  | invalidate o =>
    split at step
    · split at step
      · cases step
        exact ⟨finish_ended ended,h⟩
      · cases step
        exact ⟨ended,h⟩
    · cases step
  | restart =>
    cases step
    exact ⟨ended,h⟩
  | editUsers active =>
    cases step
    exact ⟨ended,h⟩
  | logout | revokeSession | revokeAllSessions | createApiToken | revokeApiToken
  | rotateApiToken =>
    (repeat' split at step) <;> first | cases step; done | (cases step; exact ⟨ended,h⟩)
  | _ =>
    split at step
    case h_1 hr =>
      (repeat' split at step) <;> (cases step; exact ⟨ended,Late.to hr id h⟩)
    case h_2 => cases step

theorem step_done (step : Step w act w')
    (h : ∀ o tokens, w.ending o = .done tokens → ∀ t ∈ tokens, w.ended t = true) :
    ∀ o tokens, w'.ending o = .done tokens → ∀ t ∈ tokens, w'.ended t = true := by
  have finished : ∀ {w₁ : World} {o : Nat} {tokens : List Token}, w₁.ending = w.ending →
      w₁.ended = w.ended → ∀ o' tokens', (w₁.finish o tokens).ending o' = .done tokens' →
      ∀ t ∈ tokens', (w₁.finish o tokens).ended t = true := by
    intro w₁ o tokens endings same o' tokens' done t mem
    change update w₁.ending o _ o' = .done tokens' at done
    by_cases eq : o' = o
    · subst eq
      rw [update_self] at done
      cases done
      exact Bool.or_eq_true_iff.mpr (.inr (contains_iff_mem.mpr mem))
    · rw [update_of_ne eq,endings] at done
      exact finish_ended (same ▸ h o' tokens' done t mem)
  have moved : ∀ {w₁ : World} {o : Nat} {stage : Ending}, w₁.ending = w.ending →
      w₁.ended = w.ended → (∀ tokens, stage ≠ .done tokens) → ∀ o' tokens',
      (w₁.endTo o stage).ending o' = .done tokens' → ∀ t ∈ tokens',
      (w₁.endTo o stage).ended t = true := by
    intro w₁ o stage endings same apart o' tokens' done t mem
    change update w₁.ending o stage o' = .done tokens' at done
    by_cases eq : o' = o
    · subst eq
      rw [update_self] at done
      exact absurd done (apart tokens')
    · rw [update_of_ne eq,endings] at done
      exact (congrFun same t).trans (h o' tokens' done t mem)
  unfold Step at step
  cases act with simp only [next] at step
  | login o uid token limit lifetime =>
    (repeat' split at step) <;> first | cases step; done | (cases step; exact finished rfl rfl)
  | publish o call =>
    split at step <;> cases step
    rename_i k kind he
    split
    · cases kind <;> exact finished rfl rfl
    · exact finished rfl rfl
  | invalidate o =>
    split at step
    · split at step
      · cases step
        exact finished rfl rfl
      · cases step
        exact moved rfl rfl fun _ => nofun
    · cases step
  | logout | revokeSession | revokeAllSessions | revokeApiToken | rotateApiToken =>
    (repeat' split at step) <;> first
      | cases step; done
      | (cases step; exact moved rfl rfl fun _ => nofun)
  | _ =>
    (repeat' split at step) <;> first | cases step; done | (cases step; exact h)

/-- Once an operation that ends a token has returned, no call that starts afterwards returns a
user for it, in whatever worker. -/
theorem ended_tokens_unresolved (acts later : List Act) (w w' : World)
    (run : Run (Guarded Step Meets) {} acts w) (o : Nat) (tokens : List Token)
    (done : w.ending o = .done tokens) (t : Token) (mem : t ∈ tokens) (r : Nat)
    (idle : w.resolve r = .idle) (rest : Run (Guarded Step Meets) w later w') (uid : Nat)
    (late : Bool) : w'.resolve r ≠ .returned t (some uid) late := by
  have sound : Sound w := run.invariant (fun _ _ _ h step => h.step step.1 step.2) sound_start
  have sound' : Sound w' := rest.invariant (fun _ _ _ h step => h.step step.1 step.2) sound
  have returned : ∀ o tokens, w.ending o = .done tokens → ∀ t ∈ tokens, w.ended t = true :=
    run.invariant (I := fun w => ∀ o tokens, w.ending o = .done tokens → ∀ t ∈ tokens,
      w.ended t = true) (fun _ _ _ h step => step_done step.2 h) nofun
  have known : w'.ended t = true ∧ (w'.resolve r).Late t :=
    rest.invariant (I := fun w => w.ended t = true ∧ (w.resolve r).Late t)
      (fun _ _ _ h step => step_late step.2 h.1 h.2)
      ⟨returned o tokens done t mem,by rw [idle]; trivial⟩
  intro resolved
  have placed := sound'.calls r
  have came := known.2
  rw [resolved] at placed came
  cases placed (came rfl)

end Proofs

theorem Step.of {w w' : World} (act : Act) (h : next w act = some w') : Step w act w' := h

theorem next_found {w : World} {r k : Nat} {t : Token} {late : Bool} {entry : Entry}
    (hr : w.resolve r = .started k t late) (stored : (w.workers k).cache.get t = some entry)
    (live : ¬entry.expiry ≤ w.now) :
    next w (.lookup r) = some (w.to r (.found k t entry late)) := by
  simp only [next,hr,stored,if_neg live]

def phoneSession : Token := .user 1 none (86400*second) 0

def laptopSession : Token := .user 1 none (86400*second) 1

def redisAnswers : RedisCall := ⟨true,true,true⟩

theorem logged_out_unresolved : ∃ acts w later w',
    Run (Guarded Step Meets) {} acts w ∧ Run (Guarded Step Meets) w later w' ∧
    w.ending 1 = .done [phoneSession] ∧ w.resolve 1 = .idle ∧
    w'.resolve 1 = .returned phoneSession none true ∧
    ∀ uid late, w'.resolve 1 ≠ .returned phoneSession (some uid) late := by
  have start : Run (Guarded Step Meets) {} [] {} := .nil _
  have known := (start.also (.of (.login 0 1 phoneSession 5 (86400*second)) rfl)
    (fun row hrow => by cases hrow)).also (.of (.tick reconnectCooldown) rfl)
    (fun _ _ _ _ _ hr => by cases hr)
  have missed := ((known.also (.of (.start 0 0 phoneSession) rfl) trivial).also
    (.of (.lookup 0) rfl) (fun _ _ _ _ _ _ ended => by cases ended)).also (.of (.validate 0) rfl) trivial
  have cached := missed.also (.of (.insert 0) rfl) (fun _ _ _ _ _ _ ended => by cases ended)
  have ending := ((cached.also (.of (.logout 1 1 phoneSession) rfl) trivial).also
    (.of (.invalidate 1) rfl) (fun _ _ he => by cases he)).also (.of (.publish 1 redisAnswers) rfl)
    (fun k kind he => by cases he; exact .inl ⟨_,rfl⟩)
  have found := (ending.here.also (.of (.start 1 0 phoneSession) rfl) trivial).also
    (.of (.lookup 1) (next_found rfl rfl (by decide))) (fun k t late entry hr cached ended flush => by
      cases hr
      cases cached.1
      exact .inl ⟨_,rfl,by decide⟩)
  have asked := ((found.also (.of (.ask 1 redisAnswers) rfl) trivial).also (.of (.drop 1) rfl)
    trivial).also (.of (.validate 1) rfl) trivial
  exact ⟨_,_,_,_,ending,asked,rfl,rfl,rfl,ended_tokens_unresolved _ _ _ _ ending 1 _ rfl phoneSession
    (.head _) 1 rfl asked⟩

/-- A new login evicts the oldest session, whose answer stays cached. -/
theorem evicted_session_resolved : ¬∀ (acts later : List Act) (w w' : World) (o : Nat)
    (tokens : List Token) (t : Token) (r uid : Nat) (late : Bool), Run Step {} acts w →
    w.ending o = .done tokens → t ∈ tokens → w.resolve r = .idle → Run Step w later w' →
    w'.resolve r ≠ .returned t (some uid) late := by
  intro unresolved
  have start : Run Step {} [] {} := .nil _
  have known := (start.snoc (.of (.login 0 1 phoneSession 1 (86400*second)) rfl)).snoc
    (.of (.tick reconnectCooldown) rfl)
  have cached := (((known.snoc (.of (.start 0 0 phoneSession) rfl)).snoc
    (.of (.lookup 0) rfl)).snoc (.of (.validate 0) rfl)).snoc (.of (.insert 0) rfl)
  have evicted := cached.snoc (.of (.login 1 1 laptopSession 1 (86400*second)) rfl)
  have found := (evicted.here.snoc (.of (.start 1 0 phoneSession) rfl)).snoc
    (.of (.lookup 1) (next_found rfl rfl (by decide)))
  have served := (found.snoc (.of (.ask 1 redisAnswers) rfl)).snoc (.of (.compare 1) rfl)
  exact unresolved _ _ _ _ 1 [phoneSession] phoneSession 1 1 true evicted rfl (.head _) rfl served rfl

end CircuitBreaker.SessionRevocation
