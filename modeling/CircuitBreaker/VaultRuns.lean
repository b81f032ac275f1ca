import Mathlib.Logic.Function.Basic
import CircuitBreaker.StepRuns
import CircuitBreaker.VaultKey


/-! A rotation of the vault key among other transactions: processes that encrypt under the key
they loaded when they started, sessions that write the attributes they changed, and the rotation's
own session, which reads table after table and writes once at its end. -/

namespace CircuitBreaker.Vault
open StepRuns Function Option

inductive Table where
  | settings
  | integrations
  | certificates
  | users
  | hardware
  | discoveryProfiles
  | credentials
  | notificationSinks
  deriving DecidableEq

inductive SettingsColumn where
  | smtpPassword
  | dhcpRouterUser
  | dhcpRouterPass
  | acmeDnsConfig
  | opnsenseApiKey
  | opnsenseApiSecret
  | backupS3SecretKey
  | agentServerPrivateKey
  | agentServerKeyPendingPrivateKey
  | oauthProviders
  | oidcProviders
  deriving DecidableEq

/-- The mapped attributes that hold secrets: a session writes one as a whole. -/
inductive Attribute where
  | settings (column : SettingsColumn)
  | integrationApiKey (id : Nat)
  | certificateKeyPem (id : Nat)
  | userOauthTokens (id : Nat)
  | hardwareTelemetryConfig (id : Nat)
  | discoveryProfileSnmpCommunity (id : Nat)
  | credentialValue (id : Nat)
  | notificationSinkConfig (id : Nat)
  deriving DecidableEq

def Attribute.row : Attribute → Table × Nat
  | .settings _ => (.settings,1)
  | .integrationApiKey id => (.integrations,id)
  | .certificateKeyPem id => (.certificates,id)
  | .userOauthTokens id => (.users,id)
  | .hardwareTelemetryConfig id => (.hardware,id)
  | .discoveryProfileSnmpCommunity id => (.discoveryProfiles,id)
  | .credentialValue id => (.credentials,id)
  | .notificationSinkConfig id => (.notificationSinks,id)

def Attribute.table (a : Attribute) : Table := a.row.1

structure Cipher where
  key : Text
  plain : Text

def Cipher.decrypt (key : Text) (c : Cipher) : Option Text :=
  (Stored.cipher c.key c.plain).decrypt key

/-- Where in an attribute a secret stands: the keys that lead to it in a blob, none in a column
of its own. -/
abbrev Slot := List String

/-- The secrets of an attribute. A legacy plaintext is none, and no step here touches it. -/
abbrev Content := List (Slot × Cipher)

def plains (c : Content) : List (Slot × Text) := c.map fun x => (x.1,x.2.plain)

def Under (key : Text) (c : Content) : Prop := ∀ x ∈ c,x.2.key = key

def Content.set (c : Content) (slot : Slot) (v : Cipher) : Content :=
  if c.any (·.1 = slot) then c.map fun x => if x.1 = slot then (slot,v) else x else c++[(slot,v)]

inductive Edit where
  | store (slot : Slot) (plain : Text)
  | remove (slot : Slot)

/-- What a session writes back: its copy of the attribute, and what it encrypted since. -/
def Content.edit (key : Text) (c : Content) : Edit → Content
  | .store slot plain => c.set slot ⟨key,plain⟩
  | .remove slot => c.filter (·.1 ≠ slot)

/-- `_reencrypt`, `_reencrypt_attr` and `_reencrypt_blob`: what the held key does not decrypt
stays. -/
def Content.reencrypt (oldKey newKey : Text) (c : Content) : Content :=
  c.map fun x =>
    match x.2.decrypt oldKey with
    | some plain => (x.1,⟨newKey,plain⟩)
    | none => x

def Content.changes (oldKey : Text) (c : Content) : Bool := c.any fun x => x.2.key = oldKey

/-- A user's session: what it has read, what it is to write (a deletion is no content), and the
attributes whose statement it has issued. -/
structure Session where
  process : Nat
  view : Attribute → Content
  pending : Attribute → Option (Option Content)
  held : Attribute → Bool

def Session.fresh (process : Nat) : Session where
  process := process
  view := fun _ => []
  pending := fun _ => none
  held := fun _ => false

inductive Phase where
  | idle
  | reading (rest : List Table)
  | written
  | committed
  | failed

structure World where
  rows : Attribute → Option Content
  last : Attribute → List (Slot × Text)
  sessions : Nat → Option Session
  vaults : Nat → Option Text
  file : Option Text
  settings : Option Settings
  phase : Phase
  snapshot : Attribute → Option Content
  flushed : Attribute → Bool

def World.content (w : World) (a : Attribute) : Content := (w.rows a).getD []

/-- What `load_vault_key` looks at in a process started with this variable. -/
def World.disk (w : World) (env : Text) : State := ⟨env,w.file,w.settings,[]⟩

/-- One rotation: the process it runs in, the key its vault holds and the key it generates. -/
structure Rotation where
  crypto : Crypto
  process : Nat
  oldKey : Text
  newKey : Text

inductive Act where
  | start (process : Nat) (env : Text)
  | connect (session process : Nat)
  | get (session : Nat) (a : Attribute)
  | put (session : Nat) (a : Attribute) (edits : List Edit)
  | delete (session : Nat) (a : Attribute)
  | update (session : Nat) (a : Attribute)
  | commit (session : Nat)
  | rollback (session : Nat)
  | begin
  | probe (a : Attribute)
  | read
  | flush (a : Attribute)
  | fail
  | write
  | finish
  | swap

section

variable (r : Rotation)

def World.begin (w : World) : World :=
  {w with
    phase := .reading [.integrations,.certificates,.users,.hardware,.discoveryProfiles,
      .credentials,.notificationSinks]
    snapshot := fun a => if a.table = .settings then some (w.content a) else none}

def World.take (w : World) (p : Attribute → Bool) : Attribute → Option Content :=
  fun a => (w.snapshot a).or (if p a then some (w.content a) else none)

def World.finish (w : World) : World :=
  {w with
    rows := fun a =>
      if w.flushed a then (w.snapshot a).map (Content.reencrypt r.oldKey r.newKey) else w.rows a
    settings := w.settings.map fun _ => ⟨none,some (r.crypto.sha256 r.newKey)⟩
    flushed := fun _ => false
    phase := .committed}

def World.session (w : World) (i : Nat) (s : Option Session) : World :=
  {w with sessions := update w.sessions i s}

def World.commit (w : World) (i : Nat) (s : Session) : World :=
  {w with
    rows := fun a => (s.pending a).getD (w.rows a)
    last := fun a =>
      match s.pending a with
      | some c => plains (c.getD [])
      | none => w.last a
    sessions := update w.sessions i none}

/-- A statement of session `i` on this row does not wait. -/
def World.Free (w : World) (i : Option Nat) (row : Table × Nat) : Prop :=
  (∀ j s b,w.sessions j = some s → s.held b = true → b.row = row → i = some j) ∧
    (i ≠ none → ∀ b,w.flushed b = true → b.row ≠ row)

def Phase.running : Phase → Bool
  | .reading _ => true
  | .written => true
  | _ => false

inductive Step : World → Act → World → Prop where
  /-- A process starts, or starts again. The one that rotates runs on: what its death leaves is
  another matter. -/
  | start {w : World} (q : Nat) (env : Text) (h : w.phase.running = true → q ≠ r.process) :
      Step w (.start q env) {w with
        vaults := update w.vaults q (load r.crypto (w.disk env))
        sessions := fun i => (w.sessions i).filter fun s => s.process ≠ q}
  | connect {w : World} (i q : Nat) (h : w.sessions i = none) :
      Step w (.connect i q) (w.session i (some (.fresh q)))
  | get {w : World} {i : Nat} {s : Session} (a : Attribute) (h : w.sessions i = some s) :
      Step w (.get i a) (w.session i (some {s with view := update s.view a (w.content a)}))
  | put {w : World} {i : Nat} {s : Session} {key : Text} (a : Attribute) (edits : List Edit)
      (h : w.sessions i = some s)
      (hk : ∀ slot plain,.store slot plain ∈ edits → w.vaults s.process = some key) :
      Step w (.put i a edits) (w.session i (some
        {s with pending :=
          update s.pending a (some (some (edits.foldl (Content.edit key) (s.view a))))}))
  | delete {w : World} {i : Nat} {s : Session} (a : Attribute) (h : w.sessions i = some s) :
      Step w (.delete i a) (w.session i (some {s with pending := update s.pending a (some none)}))
  | update {w : World} {i : Nat} {s : Session} (a : Attribute) (h : w.sessions i = some s)
      (free : w.Free (some i) a.row) :
      Step w (.update i a) (w.session i (some {s with held := update s.held a true}))
  | commit {w : World} {i : Nat} {s : Session} (h : w.sessions i = some s)
      (all : ∀ a,s.pending a ≠ none → s.held a = true) : Step w (.commit i) (w.commit i s)
  | rollback {w : World} (i : Nat) : Step w (.rollback i) (w.session i none)
  | begin {w : World} (h : w.phase = .idle) (hk : w.vaults r.process = some r.oldKey) :
      Step w .begin w.begin
  | probe {w : World} {rest : List Table} (a : Attribute) (h : w.phase = .reading rest)
      (ha : a.table = .discoveryProfiles ∨ a.table = .credentials) :
      Step w (.probe a) {w with snapshot := w.take (· = a)}
  | read {w : World} {t : Table} {rest : List Table} (h : w.phase = .reading (t::rest)) :
      Step w .read {w with phase := .reading rest,snapshot := w.take (·.table = t)}
  | flush {w : World} (a : Attribute) (h : w.phase = .reading [])
      (change : (w.snapshot a).any (Content.changes r.oldKey) = true) (row : w.rows a ≠ none)
      (free : w.Free none a.row) :
      Step w (.flush a) {w with flushed := update w.flushed a true}
  | fail {w : World} {rest : List Table} (h : w.phase = .reading rest) :
      Step w .fail {w with phase := .failed,flushed := fun _ => false}
  | write {w : World} (h : w.phase = .reading [])
      (all : ∀ a,(w.snapshot a).any (Content.changes r.oldKey) = true → w.flushed a = true) :
      Step w .write {w with phase := .written,file := some (envText w.file r.newKey)}
  | finish {w : World} (h : w.phase = .written) : Step w .finish (w.finish r)
  | swap {w : World} (h : w.phase = .committed) :
      Step w .swap {w with vaults := update w.vaults r.process (some r.newKey)}

/-- Every process that starts finds a key, and under it every committed secret is the plaintext
a user operation stored last. -/
def Kept (w : World) : Prop :=
  ∀ env,∃ key,load r.crypto (w.disk env) = some key ∧
    ∀ a,(w.content a).map (fun x => (x.1,x.2.decrypt key)) =
      (w.last a).map fun x => (x.1,some x.2)

/-- What a user operation may commit to an attribute: under the key that is in force for it, and
where the rotation has read it and is to write it, only what the rotation has read. -/
def StoresWell (w : World) (a : Attribute) (c : Content) : Prop :=
  match w.phase with
  | .failed => True
  | .committed => Under r.newKey c
  | _ =>
      match w.snapshot a with
      | none => Under r.oldKey c
      | some taken => if taken.changes r.oldKey then plains c = plains taken else Under r.newKey c

def Meets (w : World) : Act → Prop
  | .commit i => ∀ s a c,w.sessions i = some s → s.pending a = some (some c) → StoresWell r w a c
  | .write => fileKey r.crypto (some (envText w.file r.newKey)) = some r.newKey
  | .finish => w.settings ≠ none
  | _ => True

structure Initial (w : World) : Prop where
  phase : w.phase = .idle
  snapshot : ∀ a,w.snapshot a = none
  flushed : ∀ a,w.flushed a = false
  under : ∀ a,Under r.oldKey (w.content a)
  last : ∀ a,w.last a = plains (w.content a)

end

/-! Re-encryption. -/

variable {c : Content}

theorem under_reencrypt {oldKey newKey : Text} (h : Under oldKey c) :
    Under newKey (c.reencrypt oldKey newKey) := by
  intro x hx
  obtain ⟨y,hy,rfl⟩ := List.mem_map.1 hx
  simp [Cipher.decrypt,Stored.decrypt,h y hy]

theorem plains_reencrypt (oldKey newKey : Text) (c : Content) :
    plains (c.reencrypt oldKey newKey) = plains c := by
  unfold plains Content.reencrypt
  rw [List.map_map]
  refine List.map_congr_left fun x _ => ?_
  by_cases hk : x.2.key = oldKey
  · simp [Cipher.decrypt,Stored.decrypt,hk]
  · simp [Cipher.decrypt,Stored.decrypt,hk]

theorem decrypt_under {key : Text} (h : Under key c) :
    c.map (fun x => (x.1,x.2.decrypt key)) = (plains c).map fun x => (x.1,some x.2) := by
  unfold plains
  rw [List.map_map]
  refine List.map_congr_left fun x hx => ?_
  simp [Cipher.decrypt,Stored.decrypt,h x hx]

theorem under_of_not_changes {oldKey : Text} (newKey : Text) (h : Under oldKey c)
    (hc : c.changes oldKey = false) : Under newKey c := by
  intro x hx
  have key := List.any_eq_false.1 hc x hx
  simp [h x hx] at key

/-! What holds in every state of a run that meets the condition. -/

/-- What is stored at an attribute before the rotation commits, next to what it has read. -/
def Ready (r : Rotation) (taken stored : Option Content) : Prop :=
  match taken with
  | none => Under r.oldKey (stored.getD [])
  | some c =>
      Under r.oldKey c ∧
        if c.changes r.oldKey then ∀ s,stored = some s → plains s = plains c
        else Under r.newKey (stored.getD [])

structure Sound (r : Rotation) (w : World) : Prop where
  last : ∀ a,w.last a = plains (w.content a)
  ready : w.phase ≠ .committed → w.phase ≠ .failed → ∀ a,Ready r (w.snapshot a) (w.rows a)
  idle : w.phase = .idle → ∀ a,w.snapshot a = none
  taken : ∀ rest,w.phase = .reading rest → ∀ a,a.table ∉ rest → w.snapshot a ≠ none
  flushed : ∀ a,w.flushed a = true →
    w.rows a ≠ none ∧ (w.snapshot a).any (Content.changes r.oldKey) = true
  locked : ∀ a,w.flushed a = true → ∀ i s b,w.sessions i = some s → b.row = a.row → s.held b = false
  written : w.phase = .written → (∀ a,w.snapshot a ≠ none) ∧
    ∀ a,(w.snapshot a).any (Content.changes r.oldKey) = true → w.flushed a = true
  file : w.phase = .written ∨ w.phase = .committed → fileKey r.crypto w.file = some r.newKey
  settings : w.phase = .committed → w.settings = some ⟨none,some (r.crypto.sha256 r.newKey)⟩
  after : w.phase = .committed → ∀ a,Under r.newKey (w.content a)

section

variable {r : Rotation} {w : World}

theorem Initial.sound (h : Initial r w) : Sound r w where
  __ := h
  ready := fun _ _ a => by
    rw [h.snapshot a]
    exact h.under a
  idle := fun _ => h.snapshot
  taken := fun rest hp => by simp [h.phase] at hp
  flushed := fun a ha => by simp [h.flushed a] at ha
  locked := fun a ha => by simp [h.flushed a] at ha
  written := fun hp => by simp [h.phase] at hp
  file := fun hp => by simp [h.phase] at hp
  settings := fun hp => by simp [h.phase] at hp
  after := fun hp => by simp [h.phase] at hp

theorem Sound.sessions {sessions : Nat → Option Session} {vaults : Nat → Option Text}
    (h : Sound r w)
    (held : ∀ i s b,sessions i = some s → s.held b = true →
      (∃ j s',w.sessions j = some s' ∧ s'.held b = true) ∨ ∀ a,w.flushed a = true → a.row ≠ b.row) :
    Sound r {w with sessions,vaults} :=
  {h with
    locked := fun a ha i s b hs hb => by
      by_contra locked
      rw [Bool.not_eq_false] at locked
      obtain ⟨j,s',hs',hl⟩ | free := held i s b hs locked
      · rw [h.locked a ha j s' b hs' hb] at hl
        cases hl
      · exact free a ha hb.symm}

variable {i : Nat} {s : Session} {p : Attribute → Bool} {a : Attribute}

theorem Sound.session {s' : Session} (h : Sound r w) (hs : w.sessions i = some s)
    (held : s'.held = s.held) :
    Sound r (w.session i (some s')) :=
  h.sessions fun j t b ht hb => by
    by_cases hj : j = i
    · subst hj
      rw [update_self] at ht
      cases ht
      exact .inl ⟨j,s,hs,held ▸ hb⟩
    · rw [update_of_ne hj] at ht
      exact .inl ⟨j,t,ht,hb⟩

theorem Sound.without (h : Sound r w) : Sound r (w.session i none) :=
  h.sessions fun j t b ht hb => by
    by_cases hj : j = i
    · subst hj
      rw [update_self] at ht
      cases ht
    · rw [update_of_ne hj] at ht
      exact .inl ⟨j,t,ht,hb⟩

theorem ready_take (h : Ready r (w.snapshot a) (w.rows a)) :
    Ready r (w.take p a) (w.rows a) := by
  unfold World.take
  cases ht : w.snapshot a with rw [ht] at h
  | some c =>
    exact h
  | none =>
    rw [none_or]
    split
    · refine ⟨h,?_⟩
      split
      · intro s hs
        rw [World.content,hs,getD_some]
      · rename_i hc
        exact under_of_not_changes _ h (Bool.not_eq_true _ ▸ hc)
    · exact h

theorem take_of_snapshot (h : w.snapshot a ≠ none) :
    w.take p a = w.snapshot a := by
  obtain ⟨c,hc⟩ := Option.ne_none_iff_exists'.1 h
  rw [World.take,hc,some_or]

theorem pending_of_flushed (h : Sound r w)
    (hs : w.sessions i = some s) (all : ∀ a,s.pending a ≠ none → s.held a = true)
    (ha : w.flushed a = true) : s.pending a = none := by
  by_contra hp
  have held := all a hp
  rw [h.locked a ha i s a hs rfl] at held
  cases held

theorem commit_ready {c : Option Content} (h : Ready r (w.snapshot a) (w.rows a))
    (hc : w.phase ≠ .committed) (hf : w.phase ≠ .failed)
    (well : ∀ d,c = some d → StoresWell r w a d) : Ready r (w.snapshot a) c := by
  -- a phase that is neither decides by what the rotation has read
  have decided : ∀ d,c = some d → match w.snapshot a with
      | none => Under r.oldKey d
      | some taken =>
          if taken.changes r.oldKey then plains d = plains taken else Under r.newKey d := by
    intro d hd
    have well := well d hd
    unfold StoresWell at well
    cases hp : w.phase with
    | idle | reading rest | written => rw [hp] at well; exact well
    | committed => exact absurd hp hc
    | failed => exact absurd hp hf
  cases ht : w.snapshot a with
  | none =>
    rw [ht] at decided
    cases c with
    | none => exact nofun
    | some d => exact decided d rfl
  | some taken =>
    rw [ht] at decided h
    refine ⟨h.1,?_⟩
    split
    · rename_i hch
      intro d hd
      have := decided d hd
      simp only [hch,if_true] at this
      exact this
    · rename_i hch
      cases c with
      | none => exact nofun
      | some d =>
        have := decided d rfl
        simp only [hch] at this
        exact this

theorem commit_sound (h : Sound r w) (hs : w.sessions i = some s)
    (all : ∀ a,s.pending a ≠ none → s.held a = true)
    (well : ∀ a c,s.pending a = some (some c) → StoresWell r w a c) :
    Sound r (w.commit i s) where
  last := fun a => by
    unfold World.commit World.content
    cases hp : s.pending a with
    | none => simpa [hp,World.content] using h.last a
    | some c => simp [hp]
  ready := fun hc hf a => by
    change Ready r (w.snapshot a) ((s.pending a).getD (w.rows a))
    have ready := h.ready hc hf a
    cases hp : s.pending a with
    | none => exact ready
    | some c => exact commit_ready ready hc hf fun d hd => well a d (by
      rw [hp]
      exact congrArg some hd)
  idle := h.idle
  taken := h.taken
  flushed := fun a ha => by
    change ((s.pending a).getD (w.rows a)) ≠ none ∧ _
    rw [pending_of_flushed h hs all ha]
    exact h.flushed a ha
  locked := (h.without (i := i)).locked
  written := h.written
  file := h.file
  settings := h.settings
  after := fun hp a => by
    unfold World.commit World.content
    cases hpend : s.pending a with
    | none => simpa [hpend,World.content] using h.after hp a
    | some c =>
      cases c with
      | none => simp [hpend,Under]
      | some d =>
        have := well a d hpend
        unfold StoresWell at this
        change w.phase = .committed at hp
        rw [hp] at this
        simpa [hpend] using this

theorem begin_sound (h : Sound r w) (hi : w.phase = .idle) : Sound r w.begin where
  __ := h
  ready := fun _ _ a => by
    have ready := ready_take (p := fun a => a.table = .settings) (h.ready (by simp [hi])
      (by simp [hi]) a)
    simpa [World.take,World.begin,h.idle hi a] using ready
  idle := fun hp => by simp [World.begin] at hp
  taken := fun rest hp a ha => by
    simp only [World.begin,Phase.reading.injEq] at hp ⊢
    subst hp
    have : a.table = .settings := by
      cases ht : a.table <;> simp [ht] at ha ⊢
    simp [this]
  flushed := fun a ha => by
    have := (h.flushed a ha).2
    simp [h.idle hi a] at this
  written := fun hp => by simp [World.begin] at hp
  file := fun hp => by simp [World.begin] at hp
  settings := fun hp => by simp [World.begin] at hp
  after := fun hp => by simp [World.begin] at hp

theorem take_sound {rest rest' : List Table} (h : Sound r w) (hp : w.phase = .reading rest)
    (read : ∀ a,a.table ∉ rest' → a.table ∉ rest ∨ p a = true) :
    Sound r {w with phase := .reading rest',snapshot := w.take p} where
  last := h.last
  ready := fun _ _ a => ready_take (h.ready (by simp [hp]) (by simp [hp]) a)
  idle := fun hp => by cases hp
  taken := fun rest'' hr a ha => by
    cases hr
    change w.take p a ≠ none
    obtain ht | ht := read a ha
    · rw [take_of_snapshot (h.taken rest hp a ht)]
      exact h.taken rest hp a ht
    · rw [World.take,if_pos ht]
      cases w.snapshot a <;> simp
  flushed := fun a ha => by
    obtain ⟨row,change⟩ := h.flushed a ha
    refine ⟨row,?_⟩
    change (w.take p a).any _ = true
    have read : w.snapshot a ≠ none := fun hn => by simp [hn] at change
    rw [take_of_snapshot read]
    exact change
  locked := h.locked
  written := fun hp => by cases hp
  file := fun hp => by simp at hp
  settings := fun hp => by cases hp
  after := fun hp => by cases hp

theorem flush_sound (h : Sound r w) (hp : w.phase = .reading [])
    (change : (w.snapshot a).any (Content.changes r.oldKey) = true) (row : w.rows a ≠ none)
    (free : w.Free none a.row) :
    Sound r {w with flushed := update w.flushed a true} :=
  {h with
    flushed := fun b hb => by
      by_cases hab : b = a
      · subst hab
        exact ⟨row,change⟩
      · exact h.flushed b (by simpa [hab] using hb)
    locked := fun b hb i s c hs hc => by
      by_cases hab : b = a
      · subst hab
        by_contra held
        rw [Bool.not_eq_false] at held
        have := free.1 i s c hs held hc
        cases this
      · exact h.locked b (by simpa [hab] using hb) i s c hs hc
    written := fun hw => by simp [hp] at hw}

theorem fail_sound (h : Sound r w) :
    Sound r {w with phase := .failed,flushed := fun _ => false} where
  last := h.last
  ready := fun _ hf => absurd rfl hf
  idle := fun hp => by cases hp
  taken := fun rest hp => by cases hp
  flushed := fun a ha => by cases ha
  locked := fun a ha => by cases ha
  written := fun hp => by cases hp
  file := fun hp => by simp at hp
  settings := fun hp => by cases hp
  after := fun hp => by cases hp

theorem write_sound (h : Sound r w) (hp : w.phase = .reading [])
    (all : ∀ a,(w.snapshot a).any (Content.changes r.oldKey) = true → w.flushed a = true)
    (key : fileKey r.crypto (some (envText w.file r.newKey)) = some r.newKey) :
    Sound r {w with phase := .written,file := some (envText w.file r.newKey)} where
  last := h.last
  ready := fun _ _ => h.ready (by simp [hp]) (by simp [hp])
  idle := fun hp => by cases hp
  taken := fun rest hp => by cases hp
  flushed := h.flushed
  locked := h.locked
  written := fun _ => ⟨fun a => h.taken [] hp a (by simp),all⟩
  file := fun _ => key
  settings := fun hp => by cases hp
  after := fun hp => by cases hp

theorem finish_content (h : Sound r w) (hp : w.phase = .written) (a : Attribute) :
    Under r.newKey ((w.finish r).content a) ∧
      plains ((w.finish r).content a) = plains (w.content a) := by
  obtain ⟨read,all⟩ := h.written hp
  obtain ⟨taken,ht⟩ := Option.ne_none_iff_exists'.1 (read a)
  have ready := h.ready (by simp [hp]) (by simp [hp]) a
  rw [ht] at ready
  obtain ⟨old,ready⟩ := ready
  cases hc : taken.changes r.oldKey with
  | true =>
    have flushed := all a (by rw [ht,any_some,hc])
    obtain ⟨stored,hr⟩ := Option.ne_none_iff_exists'.1 (h.flushed a flushed).1
    have content : (w.finish r).content a = taken.reencrypt r.oldKey r.newKey := by
      simp [World.finish,World.content,flushed,ht]
    rw [hc,if_pos rfl] at ready
    rw [content,plains_reencrypt,World.content,hr]
    exact ⟨under_reencrypt old,(ready stored hr).symm⟩
  | false =>
    have kept : w.flushed a = false := by
      by_contra hf
      have := (h.flushed a (Bool.not_eq_false _ ▸ hf)).2
      rw [ht,any_some,hc] at this
      cases this
    have content : (w.finish r).content a = w.content a := by
      simp [World.finish,World.content,kept]
    rw [hc] at ready
    rw [content]
    exact ⟨ready,rfl⟩

theorem finish_sound (h : Sound r w) (hp : w.phase = .written) (settings : w.settings ≠ none) :
    Sound r (w.finish r) where
  last := fun a => (h.last a).trans (finish_content h hp a).2.symm
  ready := fun hc => absurd rfl hc
  idle := fun hp => by cases hp
  taken := fun rest hp => by cases hp
  flushed := fun a ha => by cases ha
  locked := fun a ha => by cases ha
  written := fun hp => by cases hp
  file := fun _ => h.file (.inl hp)
  settings := fun _ => by
    obtain ⟨row,hr⟩ := Option.ne_none_iff_exists'.1 settings
    simp [World.finish,hr]
  after := fun _ a => (finish_content h hp a).1

theorem step_sound {w' : World} {act : Act} (h : Sound r w) (step : Guarded (Step r) (Meets r) w act w') :
    Sound r w' := by
  obtain ⟨meets,step⟩ := step
  cases step with
  | start q env running =>
    exact h.sessions fun i s b hs hb => by
      rw [filter_eq_some_iff] at hs
      exact .inl ⟨i,s,hs.1,hb⟩
  | connect i q free =>
    exact h.sessions fun j s b hs hb => by
      by_cases hj : j = i
      · subst hj
        rw [update_self] at hs
        cases hs
        cases hb
      · rw [update_of_ne hj] at hs
        exact .inl ⟨j,s,hs,hb⟩
  | get a hs | put a edits hs hk | delete a hs => exact h.session hs rfl
  | @update i s a hs free =>
    exact h.sessions fun j t b ht hb => by
      by_cases hj : j = i
      · subst hj
        rw [update_self] at ht
        cases ht
        by_cases hab : b = a
        · subst hab
          exact .inr (free.2 (by simp))
        · exact .inl ⟨j,s,hs,by simpa [hab] using hb⟩
      · rw [update_of_ne hj] at ht
        exact .inl ⟨j,t,ht,hb⟩
  | @commit i s hs all => exact commit_sound h hs all fun a c hc => meets s a c hs hc
  | rollback i => exact h.without
  | begin hi hk => exact begin_sound h hi
  | probe a hp ha =>
    have sound := take_sound (p := (· = a)) h hp fun b hb => .inl hb
    rw [←hp] at sound
    exact sound
  | @read t rest hp =>
    exact take_sound h hp fun a ha => by
      by_cases ht : a.table = t
      · exact .inr (by simp [ht])
      · exact .inl (by simp [ht,ha])
  | flush a hp change row free => exact flush_sound h hp change row free
  | fail hp => exact fail_sound h
  | write hp all => exact write_sound h hp all meets
  | finish hp => exact finish_sound h hp meets
  | swap hp => exact h.sessions fun i s b hs hb => .inl ⟨i,s,hs,hb⟩

theorem run_sound {w' : World} {acts : List Act} (run : Run (Guarded (Step r) (Meets r)) w acts w')
    (h : Sound r w) : Sound r w' :=
  run.invariant (fun _ _ _ h step => step_sound h step) h

theorem envKey_valid {crypto : Crypto} {st : State} {key : Text}
    (h : st.envKey crypto = some key) : crypto.valid key = true := by
  unfold State.envKey at h
  split at h
  · rename_i valid
    cases h
    exact valid.2
  · cases h

theorem run_reads (rest : List Table) (h : w.phase = .reading rest) : ∃ acts,
    Run (Guarded (Step r) (Meets r)) w acts
      {w with phase := .reading [],snapshot := w.take fun a => a.table ∈ rest} := by
  induction rest generalizing w with
  | nil =>
    refine ⟨[],?_⟩
    have same : w.take (fun a => a.table ∈ []) = w.snapshot := by
      funext a
      simp [World.take]
    rw [same,←h]
    exact .nil w
  | cons t rest ih =>
    obtain ⟨acts,run⟩ := ih (w := {w with phase := .reading rest,snapshot := w.take (·.table = t)})
      rfl
    have same : World.take {w with phase := .reading rest,snapshot := w.take (·.table = t)}
        (fun a => a.table ∈ rest) = w.take fun a => a.table ∈ t::rest := by
      funext a
      cases hs : w.snapshot a with
      | some c => simp [World.take,hs]
      | none => by_cases ht : a.table = t <;> simp [World.take,World.content,hs,ht]
    rw [same] at run
    exact ⟨_,((Run.nil w).also (.read h) trivial).append run⟩

theorem load_after (h : Sound r w) (hp : w.phase = .committed)
    (collision : ∀ key,r.crypto.valid key = true →
      r.crypto.sha256 key = r.crypto.sha256 r.newKey → key = r.newKey)
    (env : Text) : load r.crypto (w.disk env) = some r.newKey := by
  have file : fileKey r.crypto (w.disk env).file = some r.newKey := h.file (.inr hp)
  have hash : (w.disk env).settings.bind Settings.vaultKeyHash =
      some (r.crypto.sha256 r.newKey) := by
    change w.settings.bind Settings.vaultKeyHash = _
    rw [h.settings hp]
    rfl
  unfold load
  rw [file,some_or]
  cases hk : (w.disk env).envInForce r.crypto with
  | none => rfl
  | some key =>
    unfold State.envInForce at hk
    rw [hash] at hk
    obtain ⟨found,same⟩ := Option.filter_eq_some_iff.1 hk
    rw [collision key (envKey_valid found) (of_decide_eq_true same)]
    rfl

end

def letterRotation : Rotation where
  crypto := letterKeys
  process := 0
  oldKey := ['a']
  newKey := ['b']

def oneCredential : World where
  rows := fun a => if a = .credentialValue 1 then some [([],⟨['a'],['x']⟩)] else none
  last := fun a => if a = .credentialValue 1 then [([],['x'])] else []
  sessions := fun _ => none
  vaults := fun _ => some ['a']
  file := some (keyLine ['a']++['\n'])
  settings := some ⟨none,some ['a']⟩
  phase := .idle
  snapshot := fun _ => none
  flushed := fun _ => false

theorem oneCredential_content {a : Attribute} (h : a ≠ .credentialValue 1) :
    oneCredential.content a = [] := by
  simp [World.content,oneCredential,h]

theorem oneCredential_initial : Initial letterRotation oneCredential where
  phase := rfl
  snapshot := fun _ => rfl
  flushed := fun _ => rfl
  under := fun a => by
    by_cases h : a = .credentialValue 1
    · subst h
      intro x hx
      cases List.mem_singleton.1 hx
      rfl
    · rw [oneCredential_content h]
      exact nofun
  last := fun a => by
    by_cases h : a = .credentialValue 1
    · subst h
      rfl
    · rw [oneCredential_content h]
      exact if_neg h

def oneCredentialRead : World :=
  {oneCredential with
    phase := .reading []
    snapshot := fun a => some (oneCredential.content a)}

theorem oneCredential_read : ∃ acts,
    Run (Guarded (Step letterRotation) (Meets letterRotation)) oneCredential acts
      oneCredentialRead := by
  have begun : Run (Guarded (Step letterRotation) (Meets letterRotation)) oneCredential _ _ :=
    (Run.nil oneCredential).also (.begin rfl rfl) trivial
  obtain ⟨acts,read⟩ := run_reads (r := letterRotation) (w := oneCredential.begin) _ rfl
  have same : oneCredential.begin.take (fun a => a.table ∈ [.integrations,.certificates,.users,
      .hardware,.discoveryProfiles,.credentials,.notificationSinks]) =
      oneCredentialRead.snapshot := by
    funext a
    cases a <;> rfl
  rw [same] at read
  exact ⟨_,begun.append read⟩

theorem oneCredentialRead_changes {a : Attribute}
    (h : (oneCredentialRead.snapshot a).any (Content.changes ['a']) = true) :
    a = .credentialValue 1 := by
  by_contra ha
  have empty : oneCredentialRead.snapshot a = some [] := congrArg some (oneCredential_content ha)
  rw [empty] at h
  cases h

end CircuitBreaker.Vault
