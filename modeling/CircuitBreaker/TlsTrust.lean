import CircuitBreaker.DiskProgram
import CircuitBreaker.StepRuns

/-! The certificates an agent accepts. A server announces the trust policy it is
about to move to; the agent keeps the announcement in a file next to the policy it
honours, dials under both, and promotes the successor once a connection that needed
it has been authenticated. -/

namespace CircuitBreaker.AgentLink.TlsTrust
open DiskProgram StepRuns

inductive Mode where
  | selfSigned | publicCa
  | unknown (name : String)
  deriving DecidableEq

structure Options where
  tlsPin : String
  stateDirSet : Bool

structure TLSPinRotatePayload where
  mode : Mode
  successorPin : String
  expiry : Int

structure TLSPinRotation where
  mode : Mode
  successorPin : String
  expiry : Int

structure TLSTrustPolicy where
  mode : Mode
  pin : String
  deriving DecidableEq

structure StateFiles where
  tlsTrust : Option TLSTrustPolicy
  tlsPinRotation : Option TLSPinRotation

structure Trust where
  mode : Mode
  pins : List String := []
  publicSuccessorPending : Bool := false

/-- What the certificate library answers about a leaf: its base64 SPKI digest, and
whether chain and host name verify against the system's roots. -/
structure Pki (Cert : Type) where
  spkiDigest : Cert → String
  systemVerifies : Cert → Bool

variable {Cert : Type} (pki : Pki Cert) (opts : Options)

def effectiveTrust (files : StateFiles) : Trust :=
  let trust : Trust :=
    if opts.tlsPin = "" then {mode := .publicCa} else {mode := .selfSigned, pins := [opts.tlsPin]}
  if opts.stateDirSet then
    match files.tlsTrust with
    | none => trust
    | some promoted =>
      if promoted.mode = .publicCa then {mode := .publicCa}
      else if promoted.pin ≠ "" then {mode := .selfSigned, pins := [promoted.pin]}
      else trust
  else trust

def resolveTrust (files : StateFiles) : Trust :=
  let trust := effectiveTrust opts files
  if opts.stateDirSet then
    match files.tlsPinRotation with
    | none => trust
    | some rotation =>
      if rotation.mode = .publicCa then {trust with publicSuccessorPending := true}
      else if rotation.successorPin ≠ "" ∧ rotation.successorPin ∉ trust.pins then
        {trust with pins := trust.pins++[rotation.successorPin]}
      else trust
  else trust

/-- The check the dial's TLS configuration makes. A pinned policy without pins
accepts nothing. -/
def Trust.verify (trust : Trust) (cert : Cert) : Bool :=
  if trust.mode = .publicCa then pki.systemVerifies cert
  else trust.pins.any (pki.spkiDigest cert == ·)

def Trust.matches (trust : Trust) (cert : Cert) : Option Nat :=
  if trust.mode = .publicCa then some 0
  else trust.pins.findIdx? (pki.spkiDigest cert == ·)

def successorRetryIndex : Nat := 1

def successorRetryTrust (trust : Trust) : Option TLSPinRotation → Option Trust
  | none => none
  | some rotation =>
    if trust.mode = .selfSigned ∧ rotation.mode = .publicCa then some {mode := .publicCa}
    else if trust.mode = .publicCa ∧ rotation.mode = .selfSigned ∧ rotation.successorPin ≠ "" then
      some {mode := .selfSigned, pins := [rotation.successorPin]}
    else none

/-- What one attempt to connect meets: no usable server, one without TLS, or one that
presents a certificate and goes on if the certificate is accepted. -/
inductive Offer (Cert : Type) where
  | unreachable
  | plain
  | certificate (cert : Cert)

def dialContext (trust : Trust) : Offer Cert → Option (Option Cert)
  | .unreachable => none
  | .plain => some none
  | .certificate cert => if trust.verify pki cert then some (some cert) else none

/-- A connection, and the candidate index its promote function carries. -/
structure Conn (Cert : Type) where
  leaf : Option Cert
  promote : Option Nat

def dialWithTrust (files : StateFiles) (first retry : Offer Cert) : Option (Conn Cert) :=
  let trust := resolveTrust opts files
  match dialContext pki trust first with
  | some (some leaf) => some ⟨some leaf,trust.matches pki leaf⟩
  | some none => some ⟨none,none⟩
  | none =>
    if opts.stateDirSet then
      match successorRetryTrust trust files.tlsPinRotation with
      | none => none
      | some retryTrust =>
        match dialContext pki retryTrust retry with
        | none => none
        | some leaf => some ⟨leaf,some successorRetryIndex⟩
    else none

inductive FileAction where
  | loadTLSPinRotation
  | saveEffectiveTLSTrust (policy : TLSTrustPolicy)
  | clearTLSPinRotation

/-- An answer is an error, or what a load found. -/
abbrev FileAnswer := Except String (Option TLSPinRotation)

def FileAction.apply : FileAction → StateFiles → FileAnswer × StateFiles
  | .loadTLSPinRotation, files => (.ok files.tlsPinRotation,files)
  | .saveEffectiveTLSTrust policy, files => (.ok none,{files with tlsTrust := some policy})
  | .clearTLSPinRotation, files => (.ok none,{files with tlsPinRotation := none})

inductive PinKind where
  | current | successor
  deriving DecidableEq

def promoteTrust (matchedIndex : Nat) :
    Prog FileAction FileAnswer (PinKind × Option String) :=
  if matchedIndex = 0 then pure (.current,none)
  else if !opts.stateDirSet then pure (.successor,none)
  else do
    match ← perform .loadTLSPinRotation with
    | .error err => pure (.successor,some err)
    | .ok none => pure (.successor,none)
    | .ok (some rotation) =>
      -- the promoted policy is saved first: the rotation file is its only other record
      match ← perform (.saveEffectiveTLSTrust ⟨rotation.mode,rotation.successorPin⟩) with
      | .error err => pure (.successor,some err)
      | .ok _ =>
        match ← perform .clearTLSPinRotation with
        | .error err => pure (.successor,some err)
        | .ok _ => pure (.successor,none)

/-- The promote function of a connection; a connection without one promotes nothing. -/
def Conn.promoteTrust (conn : Conn Cert) : Prog FileAction FileAnswer (Option PinKind) :=
  match conn.promote with
  | none => pure none
  | some index => do
    let answer ← TlsTrust.promoteTrust opts index
    pure (some answer.1)

/-- The successor a `tls.pin.rotate` frame has the agent persist. A payload that does
not parse is `none`. -/
def handleTLSPinRotate : Option TLSPinRotatePayload → Option TLSPinRotation
  | none => none
  | some rotate =>
    let state : TLSPinRotation := ⟨rotate.mode,rotate.successorPin,rotate.expiry⟩
    match rotate.mode with
    | .selfSigned =>
      if rotate.successorPin = "" then none
      else if opts.stateDirSet then some state else none
    | .publicCa => if opts.stateDirSet then some state else none
    | .unknown _ => none

/-- A trust policy as an operator means it: one pinned key, or the system's roots. -/
inductive Policy where
  | pinned (pin : String)
  | systemRoots
  deriving DecidableEq

def Policy.Satisfied : Policy → Cert → Prop
  | .pinned pin, cert => pki.spkiDigest cert = pin
  | .systemRoots, cert => pki.systemVerifies cert = true

/-- An attempt matches a policy when the server presents a certificate that satisfies it. -/
def Policy.Matches (policy : Policy) (offer : Offer Cert) : Prop :=
  ∃ cert, offer = .certificate cert ∧ policy.Satisfied pki cert

def Policy.trust : Policy → Trust
  | .pinned pin => {mode := .selfSigned, pins := [pin]}
  | .systemRoots => {mode := .publicCa}

def configuredPolicy : Policy :=
  if opts.tlsPin = "" then .systemRoots else .pinned opts.tlsPin

def effectivePolicy (files : StateFiles) : Policy :=
  match if opts.stateDirSet then files.tlsTrust else none with
  | none => configuredPolicy opts
  | some promoted =>
    if promoted.mode = .publicCa then .systemRoots
    else if promoted.pin ≠ "" then .pinned promoted.pin
    else configuredPolicy opts

def TLSPinRotation.policy (rotation : TLSPinRotation) : Policy :=
  if rotation.mode = .publicCa then .systemRoots else .pinned rotation.successorPin

def TLSPinRotation.Announced (rotation : TLSPinRotation) : Prop :=
  rotation.mode = .publicCa ∨ rotation.mode = .selfSigned ∧ rotation.successorPin ≠ ""

/-- The certificate satisfies the effective policy or the one waiting in the rotation file. -/
def Trusted (files : StateFiles) (cert : Cert) : Prop :=
  (effectivePolicy opts files).Satisfied pki cert ∨
    ∃ rotation, files.tlsPinRotation = some rotation ∧ rotation.policy.Satisfied pki cert

theorem effectiveTrust_eq (files : StateFiles) :
    effectiveTrust opts files = (effectivePolicy opts files).trust := by
  have hc : (configuredPolicy opts).trust =
      if opts.tlsPin = "" then {mode := .publicCa}
      else {mode := .selfSigned, pins := [opts.tlsPin]} := by
    unfold configuredPolicy
    split <;> rfl
  unfold effectiveTrust effectivePolicy
  cases opts.stateDirSet with
  | false => simpa using hc.symm
  | true =>
    cases files.tlsTrust with
    | none => simpa using hc.symm
    | some promoted =>
      simp only [if_true]
      by_cases hm : promoted.mode = .publicCa
      · simp [hm,Policy.trust]
      · by_cases hp : promoted.pin = ""
        · simpa [hm,hp] using hc.symm
        · simp [hm,hp,Policy.trust]

theorem Policy.verify_trust (policy : Policy) (cert : Cert) :
    policy.trust.verify pki cert = true ↔ policy.Satisfied pki cert := by
  cases policy <;> simp [Policy.trust,Trust.verify,Policy.Satisfied]

variable {policy : Policy} {cert : Cert}

theorem Policy.matches_trust
    (h : policy.Satisfied pki cert) : policy.trust.matches pki cert = some 0 := by
  cases policy with
  | pinned pin => simp [Policy.trust,Trust.matches,show pki.spkiDigest cert = pin from h]
  | systemRoots => rfl

def pending (files : StateFiles) : Option TLSPinRotation :=
  if opts.stateDirSet then files.tlsPinRotation else none

def withSuccessor (trust : Trust) : Option TLSPinRotation → Trust
  | none => trust
  | some rotation =>
    if rotation.mode = .publicCa then {trust with publicSuccessorPending := true}
    else if rotation.successorPin ≠ "" ∧ rotation.successorPin ∉ trust.pins then
      {trust with pins := trust.pins++[rotation.successorPin]}
    else trust

theorem resolveTrust_eq (files : StateFiles) :
    resolveTrust opts files =
      withSuccessor (effectivePolicy opts files).trust (pending opts files) := by
  unfold resolveTrust pending
  rw [effectiveTrust_eq]
  cases opts.stateDirSet with
  | false => rfl
  | true => cases files.tlsPinRotation <;> rfl

theorem withSuccessor_mode (trust : Trust) (rotation : Option TLSPinRotation) :
    (withSuccessor trust rotation).mode = trust.mode := by
  unfold withSuccessor
  repeat' split <;> try rfl

theorem withSuccessor_pinned (pin : String) {successor : TLSPinRotation}
    (hm : successor.mode ≠ .publicCa) :
    withSuccessor (Policy.pinned pin).trust (some successor) = (Policy.pinned pin).trust ∧
        (successor.successorPin = "" ∨ successor.successorPin = pin) ∨
      withSuccessor (Policy.pinned pin).trust (some successor) =
        {mode := .selfSigned, pins := [pin,successor.successorPin]} := by
  by_cases hp : successor.successorPin ≠ "" ∧ successor.successorPin ∉ (Policy.pinned pin).trust.pins
  · right
    simp only [withSuccessor,hm,if_false]
    rw [if_pos hp]
    rfl
  · left
    constructor
    · simp only [withSuccessor,hm,if_false]
      rw [if_neg hp]
    · simpa [Policy.trust,Classical.or_iff_not_imp_left] using hp

theorem withSuccessor_matches {rotation : Option TLSPinRotation}
    (h : (withSuccessor policy.trust rotation).verify pki cert = true) :
    (withSuccessor policy.trust rotation).matches pki cert = some 0 ∧
        policy.Satisfied pki cert ∨
      (withSuccessor policy.trust rotation).matches pki cert = some 1 ∧
        ¬policy.Satisfied pki cert ∧
        ∃ successor, rotation = some successor ∧ successor.policy.Satisfied pki cert := by
  have current {trust : Trust} (ht : trust = policy.trust) (hv : trust.verify pki cert = true) :
      trust.matches pki cert = some 0 ∧ policy.Satisfied pki cert := by
    subst ht
    have hs := (policy.verify_trust pki cert).1 hv
    exact ⟨policy.matches_trust pki hs,hs⟩
  cases rotation with
  | none => exact .inl (current rfl h)
  | some successor =>
    cases policy with
    | systemRoots =>
      simp only [Trust.verify,Trust.matches,withSuccessor_mode] at h ⊢
      exact .inl ⟨rfl,h⟩
    | pinned pin =>
      by_cases hm : successor.mode = .publicCa
      · simp only [withSuccessor,hm,if_true,Trust.verify,Trust.matches,Policy.trust] at h ⊢
        have hs : pki.spkiDigest cert = pin := by simpa using h
        exact .inl ⟨by simp [hs],hs⟩
      · rcases withSuccessor_pinned pin hm with ⟨ht,-⟩ | ht
        · exact .inl (current ht h)
        · rw [ht] at h ⊢
          by_cases hs : pki.spkiDigest cert = pin
          · exact .inl ⟨by simp [Trust.matches,List.findIdx?_cons,hs],hs⟩
          · have hp : pki.spkiDigest cert = successor.successorPin := by
              simpa [Trust.verify,hs] using h
            have hne : successor.successorPin ≠ pin := hp ▸ hs
            refine .inr ⟨by simp [Trust.matches,List.findIdx?_cons,hp,hne],hs,successor,rfl,?_⟩
            simpa [TLSPinRotation.policy,hm,Policy.Satisfied] using hp

theorem withSuccessor_verify (rotation : Option TLSPinRotation)
    (h : policy.Satisfied pki cert) :
    (withSuccessor policy.trust rotation).verify pki cert = true := by
  cases policy with
  | systemRoots =>
    simp only [Trust.verify,withSuccessor_mode]
    exact h
  | pinned pin =>
    have hs : pki.spkiDigest cert = pin := h
    cases rotation with
    | none => exact (Policy.verify_trust pki _ _).2 h
    | some successor =>
      by_cases hm : successor.mode = .publicCa
      · simp [withSuccessor,hm,Trust.verify,Policy.trust,hs]
      · rcases withSuccessor_pinned pin hm with ⟨ht,-⟩ | ht
        · rw [ht]
          exact (Policy.verify_trust pki _ _).2 h
        · simp [ht,Trust.verify,hs]

theorem withSuccessor_refuses {successor : TLSPinRotation}
    (announced : successor.Announced) (hs : successor.policy.Satisfied pki cert)
    (h : (withSuccessor policy.trust (some successor)).verify pki cert = false) :
    successorRetryTrust (withSuccessor policy.trust (some successor)) (some successor) =
      some successor.policy.trust := by
  simp only [successorRetryTrust,withSuccessor_mode]
  rcases announced with hm | ⟨hm,hp⟩
  · cases policy with
    | pinned pin => simp [hm,Policy.trust,TLSPinRotation.policy]
    | systemRoots =>
      simp only [Trust.verify,withSuccessor_mode,Policy.trust,if_true] at h
      simp [TLSPinRotation.policy,hm,Policy.Satisfied,h] at hs
  · cases policy with
    | systemRoots => simp [hm,hp,Policy.trust,TLSPinRotation.policy]
    | pinned pin =>
      have hd : pki.spkiDigest cert = successor.successorPin := by
        simpa [TLSPinRotation.policy,hm,Policy.Satisfied] using hs
      have hv : (withSuccessor (Policy.pinned pin).trust (some successor)).verify pki cert = true := by
        have hne : successor.mode ≠ .publicCa := by simp [hm]
        rcases withSuccessor_pinned pin hne with ⟨ht,he⟩ | ht
        · have : successor.successorPin = pin := he.resolve_left hp
          rw [ht]
          simp [Trust.verify,Policy.trust,hd,this]
        · simp [ht,Trust.verify,hd]
      exact absurd (h.symm.trans hv) (by decide)

theorem successorRetryTrust_some {trust retryTrust : Trust} {rotation : Option TLSPinRotation}
    (h : successorRetryTrust trust rotation = some retryTrust) :
    ∃ successor, rotation = some successor ∧ retryTrust = successor.policy.trust := by
  cases rotation with
  | none => cases h
  | some successor =>
    refine ⟨successor,rfl,?_⟩
    simp only [successorRetryTrust] at h
    split at h
    · rename_i hm
      simp_all [TLSPinRotation.policy,Policy.trust]
    · split at h
      · rename_i hm
        simp_all [TLSPinRotation.policy,Policy.trust]
      · cases h

theorem dialContext_leaf {trust : Trust} {offer : Offer Cert}
    (h : dialContext pki trust offer = some (some cert)) :
    offer = .certificate cert ∧ trust.verify pki cert = true := by
  cases offer with
  | unreachable | plain => cases h
  | certificate shown =>
    simp only [dialContext] at h
    split at h <;> cases h
    exact ⟨rfl,‹_›⟩

theorem dialWithTrust_accepts {files : StateFiles}
    (hpending : pending opts files = files.tlsPinRotation)
    (announced : ∀ rotation, files.tlsPinRotation = some rotation → rotation.Announced)
    (h : Trusted pki opts files cert) :
    (dialWithTrust pki opts files (.certificate cert) (.certificate cert)).isSome = true := by
  have hresolve := resolveTrust_eq opts files
  rw [hpending] at hresolve
  cases hv : (resolveTrust opts files).verify pki cert with
  | true => simp [dialWithTrust,dialContext,hv]
  | false =>
    have hsuccessor : ∃ rotation, files.tlsPinRotation = some rotation ∧
        rotation.policy.Satisfied pki cert := by
      refine h.resolve_left fun hs => ?_
      have : (resolveTrust opts files).verify pki cert = true := by
        rw [hresolve]
        exact withSuccessor_verify pki _ hs
      exact absurd (hv.symm.trans this) (by decide)
    obtain ⟨rotation,hr,hs⟩ := hsuccessor
    have hset : opts.stateDirSet = true := by
      by_contra hset
      simp [pending,hset,hr] at hpending
    rw [hresolve,hr] at hv
    have hretry := withSuccessor_refuses pki (announced _ hr) hs hv
    rw [←hr,←hresolve,hr] at hretry
    rw [←hr,←hresolve] at hv
    simp [dialWithTrust,dialContext,hv,hset,hr,hretry,(Policy.verify_trust pki _ _).2 hs]

/-- Why a dial succeeded: the server has no TLS, its certificate satisfies the effective
policy, or nothing the effective policy met matched and the successor's policy was
satisfied. -/
inductive Reached (files : StateFiles) (first retry : Offer Cert) : Conn Cert → Prop where
  | plain : Reached files first retry ⟨none,none⟩
  | current (cert : Cert) : (effectivePolicy opts files).Satisfied pki cert →
      Reached files first retry ⟨some cert,some 0⟩
  | successor (rotation : TLSPinRotation) (leaf : Option Cert) :
      pending opts files = some rotation →
      ¬(effectivePolicy opts files).Matches pki first →
      (∀ cert, leaf = some cert → rotation.policy.Satisfied pki cert) →
      (∀ cert, leaf = some cert → first = .certificate cert ∨ retry = .certificate cert) →
      Reached files first retry ⟨leaf,some 1⟩

variable {conn : Conn Cert}

theorem dialWithTrust_reached {files : StateFiles} {first retry : Offer Cert}
    (h : dialWithTrust pki opts files first retry = some conn) :
    Reached pki opts files first retry conn := by
  simp only [dialWithTrust] at h
  split at h
  · rename_i cert hd
    cases h
    obtain ⟨rfl,hv⟩ := dialContext_leaf pki hd
    rw [resolveTrust_eq] at hv ⊢
    rcases withSuccessor_matches pki hv with ⟨hm,hs⟩ | ⟨hm,hs,rotation,hr,hp⟩
    · rw [hm]
      exact .current cert hs
    · rw [hm]
      refine .successor rotation _ hr ?_ ?_ ?_
      · rintro ⟨other,ho,hs'⟩
        cases ho
        exact hs hs'
      · rintro other ⟨⟩
        exact hp
      · rintro other ⟨⟩
        exact .inl rfl
  · cases h
    exact .plain
  · rename_i hd
    have hfirst : ¬(effectivePolicy opts files).Matches pki first := by
      rintro ⟨cert,rfl,hs⟩
      have hv := withSuccessor_verify pki (pending opts files) hs
      rw [←resolveTrust_eq] at hv
      simp [dialContext,hv] at hd
    split at h
    · rename_i hset
      split at h
      · cases h
      · rename_i retryTrust ht
        split at h <;> cases h
        rename_i leaf hl
        obtain ⟨rotation,hr,rfl⟩ := successorRetryTrust_some ht
        refine .successor rotation leaf (by simp [pending,hset,hr]) hfirst ?_ ?_
        · rintro cert rfl
          exact (Policy.verify_trust pki _ _).1 (dialContext_leaf pki hl).2
        · rintro cert rfl
          exact .inr (dialContext_leaf pki hl).1
    · cases h

structure Offers (Cert : Type) where
  first : Offer Cert
  retry : Offer Cert

/-- Where the agent's one link stands. Frames are served only once the promote function
has returned. -/
inductive Phase (Cert : Type) where
  | idle
  | dialled (offers : Offers Cert) (conn : Conn Cert)
  | authenticated (offers : Offers Cert) (conn : Conn Cert)
  | linked

/-- The agent. `persisted` and `lastLeaf` record what the run has seen: the successor
saved last, and the certificate of the last authenticated connection. -/
structure Agent (Cert : Type) where
  files : StateFiles
  phase : Phase Cert
  persisted : Option TLSPinRotation
  lastLeaf : Option Cert

def Agent.fresh : Agent Cert := ⟨⟨none,none⟩,.idle,none,none⟩

inductive Event (Cert : Type) where
  | dial (offers : Offers Cert)
  | handshake (verified : Bool)
  | promote
  | rotate (payload : Option TLSPinRotatePayload)
  | drop
  | crash

inductive Step : Agent Cert → Event Cert → Agent Cert → Prop where
  | reached (s : Agent Cert) (offers : Offers Cert) (conn : Conn Cert) :
      s.phase = .idle →
      dialWithTrust pki opts s.files offers.first offers.retry = some conn →
      Step s (.dial offers) {s with phase := .dialled offers conn}
  | unreached (s : Agent Cert) (offers : Offers Cert) :
      s.phase = .idle →
      dialWithTrust pki opts s.files offers.first offers.retry = none →
      Step s (.dial offers) s
  | verified (s : Agent Cert) (offers : Offers Cert) (conn : Conn Cert) :
      s.phase = .dialled offers conn →
      Step s (.handshake true)
        {s with phase := .authenticated offers conn, lastLeaf := conn.leaf}
  | refused (s : Agent Cert) (offers : Offers Cert) (conn : Conn Cert) :
      s.phase = .dialled offers conn →
      Step s (.handshake false) {s with phase := .idle}
  | promote (s : Agent Cert) (offers : Offers Cert) (conn : Conn Cert) :
      s.phase = .authenticated offers conn →
      Step s .promote
        {s with files := ((conn.promoteTrust opts).run FileAction.apply s.files).2,
                phase := .linked}
  | rotate (s : Agent Cert) (payload : Option TLSPinRotatePayload) (state : TLSPinRotation) :
      s.phase = .linked → handleTLSPinRotate opts payload = some state →
      Step s (.rotate payload)
        {s with files := {s.files with tlsPinRotation := some state}, persisted := some state}
  | ignored (s : Agent Cert) (payload : Option TLSPinRotatePayload) :
      s.phase = .linked → handleTLSPinRotate opts payload = none →
      Step s (.rotate payload) s
  | drop (s : Agent Cert) : s.phase = .linked → Step s .drop {s with phase := .idle}
  | crash (s : Agent Cert) : Step s .crash {s with phase := .idle}
  -- killed inside the promote function, before one of its file actions
  | crashPromoting (s : Agent Cert) (offers : Offers Cert) (conn : Conn Cert)
      (files : StateFiles) (next : FileAction) :
      s.phase = .authenticated offers conn →
      (files,next) ∈ (conn.promoteTrust opts).points FileAction.apply s.files →
      Step s .crash {s with files := files, phase := .idle}

def Phase.Dialled : Phase Cert → Offers Cert → Conn Cert → Prop
  | .dialled offers conn, o, c => o = offers ∧ c = conn
  | .authenticated offers conn, o, c => o = offers ∧ c = conn
  | _, _, _ => False

structure Agent.Sound (s : Agent Cert) : Prop where
  announced : ∀ rotation, s.files.tlsPinRotation = some rotation →
    rotation.Announced ∧ s.persisted = some rotation ∧ opts.stateDirSet = true
  known : ∀ rotation, s.persisted = some rotation →
    s.files.tlsPinRotation = some rotation ∨ effectivePolicy opts s.files = rotation.policy
  dialled : ∀ offers conn, s.phase.Dialled offers conn →
    dialWithTrust pki opts s.files offers.first offers.retry = some conn
  leaf : ∀ offers conn, s.phase = .authenticated offers conn → s.lastLeaf = conn.leaf
  trusted : ∀ cert, s.lastLeaf = some cert → Trusted pki opts s.files cert
  linked : s.phase = .linked →
    ∀ cert, s.lastLeaf = some cert → (effectivePolicy opts s.files).Satisfied pki cert

/-- The files while and after a connection's promote function runs: untouched, or holding
the pending successor as the promoted policy. -/
def Promoting (files : StateFiles) (conn : Conn Cert) (after : StateFiles) : Prop :=
  after = files ∨
    ∃ rotation, pending opts files = some rotation ∧ conn.promote = some successorRetryIndex ∧
      after.tlsTrust = some ⟨rotation.mode,rotation.successorPin⟩ ∧
      (after.tlsPinRotation = some rotation ∨ after.tlsPinRotation = none)

theorem promoteTrust_wp (files : StateFiles) {first retry : Offer Cert}
    (h : Reached pki opts files first retry conn) :
    (conn.promoteTrust opts).wp FileAction.apply (fun after _ => Promoting opts files conn after)
      (fun _ after => Promoting opts files conn after ∧
        (conn.promote = some successorRetryIndex → after.tlsPinRotation = none)) files := by
  cases h with
  | plain =>
    simp only [Conn.promoteTrust,Prog.pure_eq,Prog.wp]
    exact ⟨.inl rfl,by simp⟩
  | current cert hs =>
    simp only [Conn.promoteTrust,TlsTrust.promoteTrust,if_true,Prog.pure_eq,Prog.bind_eq,
      Prog.done_bind,Prog.wp]
    exact ⟨.inl rfl,by simp [successorRetryIndex]⟩
  | successor rotation leaf hp _ _ _ =>
    have hset : opts.stateDirSet = true := by
      by_contra hset
      simp [pending,hset] at hp
    have hr : files.tlsPinRotation = some rotation := by simpa [pending,hset] using hp
    simp only [Conn.promoteTrust,TlsTrust.promoteTrust,hset,Nat.one_ne_zero,if_false,
      Bool.not_true,Bool.false_eq_true,Prog.bind_eq,perform_bind,Prog.act_bind,Prog.wp,
      FileAction.apply,hr,Prog.pure_eq,Prog.done_bind]
    refine ⟨.inl rfl,.inl rfl,?_,?_,?_⟩
    · exact .inr ⟨rotation,hp,rfl,rfl,.inl rfl⟩
    · exact .inr ⟨rotation,hp,rfl,rfl,.inr rfl⟩
    · exact fun _ => trivial

theorem effectivePolicy_promoted {files : StateFiles} {rotation : TLSPinRotation}
    (announced : rotation.Announced) (hset : opts.stateDirSet = true)
    (h : files.tlsTrust = some ⟨rotation.mode,rotation.successorPin⟩) :
    effectivePolicy opts files = rotation.policy := by
  simp only [effectivePolicy,hset,if_true,h,TLSPinRotation.policy]
  rcases announced with hm | ⟨hm,hp⟩
  · simp [hm]
  · simp [hm,hp]

theorem handleTLSPinRotate_some {payload : Option TLSPinRotatePayload} {state : TLSPinRotation}
    (h : handleTLSPinRotate opts payload = some state) :
    state.Announced ∧ opts.stateDirSet = true := by
  cases payload with
  | none => cases h
  | some rotate =>
    obtain ⟨mode,successorPin,expiry⟩ := rotate
    cases mode with simp only [handleTLSPinRotate] at h
    | selfSigned =>
      split at h
      · cases h
      · split at h <;> cases h
        exact ⟨.inr ⟨rfl,‹_›⟩,‹_›⟩
    | publicCa =>
      split at h <;> cases h
      exact ⟨.inl rfl,‹_›⟩
    | unknown name => cases h

theorem effectivePolicy_rotated (files : StateFiles) (rotation : Option TLSPinRotation) :
    effectivePolicy opts {files with tlsPinRotation := rotation} = effectivePolicy opts files := rfl

variable {pki opts}

variable {s : Agent Cert}

theorem Agent.Sound.pending_eq (h : s.Sound pki opts) :
    pending opts s.files = s.files.tlsPinRotation := by
  unfold pending
  split
  · rfl
  · rename_i hset
    cases hr : s.files.tlsPinRotation with
    | none => rfl
    | some rotation => exact absurd (h.announced _ hr).2.2 hset

theorem Agent.Sound.promoting (h : s.Sound pki opts) {offers : Offers Cert} (hp : s.phase = .authenticated offers conn) :
    (∀ x ∈ (conn.promoteTrust opts).points FileAction.apply s.files,
        Promoting opts s.files conn x.1) ∧
      Promoting opts s.files conn ((conn.promoteTrust opts).run FileAction.apply s.files).2 ∧
      (conn.promote = some successorRetryIndex →
        ((conn.promoteTrust opts).run FileAction.apply s.files).2.tlsPinRotation = none) := by
  have hd := h.dialled offers conn (by rw [hp]; exact ⟨rfl,rfl⟩)
  have := promoteTrust_wp pki opts s.files (dialWithTrust_reached pki opts hd)
  rw [Prog.wp_iff] at this
  exact this

theorem Agent.Sound.successor (h : s.Sound pki opts) {offers : Offers Cert} (hp : s.phase = .authenticated offers conn) {rotation : TLSPinRotation}
    (hr : pending opts s.files = some rotation) (hc : conn.promote = some successorRetryIndex) :
    ¬(effectivePolicy opts s.files).Matches pki offers.first ∧
      ∀ cert, conn.leaf = some cert → rotation.policy.Satisfied pki cert ∧
        (offers.first = .certificate cert ∨ offers.retry = .certificate cert) := by
  have hd := h.dialled offers conn (by rw [hp]; exact ⟨rfl,rfl⟩)
  cases dialWithTrust_reached pki opts hd with
  | plain | current => cases hc
  | successor other leaf ho hn hs hl =>
    cases hr.symm.trans ho
    exact ⟨hn,fun cert h => ⟨hs cert h,hl cert h⟩⟩

theorem Agent.fresh_sound : (Agent.fresh : Agent Cert).Sound pki opts where
  announced _ h := by cases h
  known _ h := by cases h
  dialled _ _ h := h.elim
  leaf _ _ h := by cases h
  trusted _ h := by cases h
  linked h := by cases h

theorem Agent.Sound.promoted (h : s.Sound pki opts) {offers : Offers Cert} (hp : s.phase = .authenticated offers conn) {after : StateFiles}
    (hafter : Promoting opts s.files conn after) {phase : Phase Cert}
    (hphase : phase = .idle ∨ phase = .linked ∧
      (conn.promote = some successorRetryIndex → after.tlsPinRotation = none)) :
    Agent.Sound pki opts {s with files := after, phase := phase} := by
  have hfree : ∀ offers conn, ¬phase.Dialled offers conn := by
    rcases hphase with rfl | ⟨rfl,-⟩ <;> exact fun _ _ h => h
  have hleaf := h.leaf offers conn hp
  have hd := h.dialled offers conn (by rw [hp]; exact ⟨rfl,rfl⟩)
  have dialled : ∀ offers conn, phase.Dialled offers conn →
      dialWithTrust pki opts after offers.first offers.retry = some conn :=
    fun o c hd => absurd hd (hfree o c)
  have leaf : ∀ offers conn, phase = .authenticated offers conn → s.lastLeaf = conn.leaf := by
    rcases hphase with rfl | ⟨rfl,-⟩ <;> exact nofun
  rcases hafter with rfl | ⟨rotation,hr,hc,ht,hf⟩
  · refine ⟨h.announced,h.known,dialled,leaf,h.trusted,fun hlinked cert hcert => ?_⟩
    -- the files are untouched after a whole run only if the effective policy matched
    rcases hphase with rfl | ⟨-,hnone⟩
    · cases hlinked
    · rw [show s.lastLeaf = conn.leaf from hleaf] at hcert
      cases dialWithTrust_reached pki opts hd with
      | plain => cases hcert
      | current other hs => cases hcert; exact hs
      | successor rotation leaf hr _ _ _ =>
        rw [h.pending_eq,hnone rfl] at hr
        cases hr
  · rw [h.pending_eq] at hr
    obtain ⟨hann,hpers,hset⟩ := h.announced _ hr
    have heff := effectivePolicy_promoted opts hann hset ht
    have hsat : ∀ cert, s.lastLeaf = some cert → rotation.policy.Satisfied pki cert :=
      fun cert hcert =>
        ((h.successor hp (h.pending_eq.trans hr) hc).2 cert (hleaf ▸ hcert)).1
    refine ⟨?_,?_,dialled,leaf,fun cert hcert => .inl (heff ▸ hsat cert hcert),
      fun _ cert hcert => heff ▸ hsat cert hcert⟩
    · intro other ho
      rcases hf with hf | hf
      · cases hf.symm.trans ho
        exact ⟨hann,hpers,hset⟩
      · cases hf.symm.trans ho
    · intro other ho
      cases hpers.symm.trans ho
      exact .inr heff

theorem Agent.Sound.idle (h : s.Sound pki opts) :
    Agent.Sound pki opts {s with phase := .idle} :=
  ⟨h.announced,h.known,fun _ _ h => h.elim,nofun,h.trusted,
    nofun⟩

theorem step_sound (s : Agent Cert) (e : Event Cert) (t : Agent Cert)
    (h : s.Sound pki opts) (hs : Step pki opts s e t) : t.Sound pki opts := by
  cases hs with
  | reached offers conn hp hd =>
    refine ⟨h.announced,h.known,?_,nofun,h.trusted,nofun⟩
    rintro _ _ ⟨rfl,rfl⟩
    exact hd
  | unreached offers hp hd | ignored payload hp hr => exact h
  | verified offers conn hp =>
    have hd := h.dialled offers conn (by rw [hp]; exact ⟨rfl,rfl⟩)
    refine ⟨h.announced,h.known,?_,?_,?_,nofun⟩
    · rintro _ _ ⟨rfl,rfl⟩
      exact hd
    · rintro _ _ ⟨⟩
      rfl
    · intro cert hcert
      cases dialWithTrust_reached pki opts hd with
      | plain => cases hcert
      | current other hs => cases hcert; exact .inl hs
      | successor rotation leaf hr _ hs _ =>
        rw [h.pending_eq] at hr
        exact .inr ⟨rotation,hr,hs cert hcert⟩
  | refused offers conn hp | drop hp | crash => exact h.idle
  | promote offers conn hp =>
    obtain ⟨-,hrun,hnone⟩ := h.promoting hp
    exact h.promoted hp hrun (.inr ⟨rfl,hnone⟩)
  | rotate payload state hp hr =>
    obtain ⟨hann,hset⟩ := handleTLSPinRotate_some opts hr
    have hlinked := h.linked hp
    refine ⟨?_,?_,?_,?_,?_,?_⟩
    · rintro _ ⟨⟩
      exact ⟨hann,rfl,hset⟩
    · rintro _ ⟨⟩
      exact .inl rfl
    · rw [hp]
      exact fun _ _ h => h.elim
    · rw [hp]
      exact nofun
    · exact fun cert hcert => .inl (hlinked cert hcert)
    · exact fun _ cert hcert => hlinked cert hcert
  | crashPromoting offers conn files next hp hmem =>
    obtain ⟨hpoints,-,-⟩ := h.promoting hp
    exact h.promoted hp (hpoints _ hmem) (.inl rfl)

theorem run_sound {es : List (Event Cert)}
    (run : Run (Step pki opts) .fresh es s) : s.Sound pki opts :=
  run.invariant step_sound Agent.fresh_sound

theorem step_effective {t : Agent Cert} {e : Event Cert} (h : s.Sound pki opts)
    (hs : Step pki opts s e t)
    (hne : effectivePolicy opts t.files ≠ effectivePolicy opts s.files) :
    ∃ offers conn, s.phase = .authenticated offers conn ∧
      Promoting opts s.files conn t.files ∧ t.files ≠ s.files := by
  have hfiles : t.files ≠ s.files := fun he => hne (by rw [he])
  cases hs with
  | promote offers conn hp =>
    obtain ⟨-,hrun,-⟩ := h.promoting hp
    exact ⟨offers,conn,hp,hrun,hfiles⟩
  | crashPromoting offers conn files next hp hmem =>
    obtain ⟨hpoints,-,-⟩ := h.promoting hp
    exact ⟨offers,conn,hp,hpoints _ hmem,hfiles⟩
  | rotate payload state hp hr => exact absurd (effectivePolicy_rotated opts _ _) hne
  | reached | unreached | verified | refused | ignored | drop | crash => exact absurd rfl hfiles

end CircuitBreaker.AgentLink.TlsTrust
