import CircuitBreaker.TlsTrust
import Mathlib.Logic.Function.Basic

/-! The gate in front of a certificate activation. The server advertises the trust policy
it is about to serve, records what every agent's hellos and heartbeats say about the
successor it holds, and activates a certificate of another policy only once every active
agent has reported this one. -/

namespace CircuitBreaker.ActivationGate
open AgentLink.TlsTrust StepRuns Function

inductive CertificateType where
  | letsencrypt | selfsigned | imported
  deriving DecidableEq

structure Certificate (Cert : Type) where
  type : CertificateType
  certPem : Cert

inductive Status where
  | pending | active | revoked
  deriving DecidableEq

structure AgentRow where
  status : Status := .pending
  tlsPinCurrentPinnedAt : Option Nat := none
  tlsPinSuccessorPinnedAt : Option Nat := none
  tlsPinSuccessorFingerprint : Option String := none

structure TLSPinRotationState where
  successor : TLSTrustPolicy
  startedAt : Nat
  overlapExpiresAt : Nat
  deriving DecidableEq

/-- What a hello or a heartbeat says about TLS trust. Only a hello names the policy its
handshake matched. -/
structure Report where
  tlsPinKind : Option PinKind
  tlsPinSuccessorReady : Bool
  tlsPinSuccessorFingerprint : Option String
  deriving DecidableEq

/-- The install and its fleet. `finishing` counts the activation requests that have yet to
clear the rotation, `announcing` holds the rotations still being broadcast, `reports`,
`hellos` and `frames` what is on its way to the server, being processed there, and on its
way to an agent. -/
structure World (Cert ι : Type) where
  live : Option Cert
  activeRow : Option CertificateType
  rotation : Option TLSPinRotationState
  finishing : Nat
  now : Nat
  enrolled : List ι
  rows : ι → AgentRow
  announcing : List TLSPinRotationState
  agents : ι → Agent Cert
  pinKind : ι → Option PinKind
  reports : ι → List Report
  hellos : ι → List (Report × Option TLSPinRotationState)
  frames : ι → List TLSPinRotatePayload

variable {Cert ι : Type}

def World.fresh : World Cert ι :=
  ⟨none,none,none,0,0,[],fun _ => {},[],fun _ => .fresh,fun _ => none,fun _ => [],fun _ => [],
    fun _ => []⟩

variable (pki : Pki Cert) (opts : ι → Options) (digest : String → String)

def wireMode : Mode → String
  | .selfSigned => "self_signed"
  | .publicCa => "public"
  | .unknown name => name

/-- Computed alike on both ends; `digest` is the first 32 hex digits of SHA-256. -/
def policyFingerprint (mode : Mode) (pin : String) : String :=
  digest (wireMode mode++"\x00"++pin)

def successorReady (opts : Options) (files : StateFiles) : Bool :=
  opts.stateDirSet && files.tlsPinRotation.isSome

def successorFingerprint (opts : Options) (files : StateFiles) : Option String :=
  if opts.stateDirSet then
    files.tlsPinRotation.map fun rotation =>
      policyFingerprint digest rotation.mode rotation.successorPin
  else none

def tlsPolicyForCertificate (cert : Certificate Cert) : TLSTrustPolicy :=
  if cert.type = .letsencrypt then ⟨.publicCa,""⟩ else ⟨.selfSigned,pki.spkiDigest cert.certPem⟩

def servedTrustPolicy (w : World Cert ι) : Option TLSTrustPolicy :=
  w.live.map fun leaf =>
    ⟨if w.activeRow = some .letsencrypt then .publicCa else .selfSigned,pki.spkiDigest leaf⟩

def recordTlsPin (row : AgentRow) (report : Report) (now : Nat) : AgentRow :=
  let row :=
    if report.tlsPinKind = some .successor ∨ report.tlsPinSuccessorReady then
      {row with
        tlsPinSuccessorPinnedAt := some now
        tlsPinSuccessorFingerprint := report.tlsPinSuccessorFingerprint}
    else row
  if report.tlsPinKind = some .current then {row with tlsPinCurrentPinnedAt := some now} else row

def listAgents (w : World Cert ι) (status : Status) : List ι :=
  w.enrolled.filter fun i => (w.rows i).status = status

/-- The agent reported this successor, and since the rotation started. -/
def Converged (row : AgentRow) (state : TLSPinRotationState) : Prop :=
  (∃ pinned ∈ row.tlsPinSuccessorPinnedAt, state.startedAt ≤ pinned) ∧
    row.tlsPinSuccessorFingerprint =
      some (policyFingerprint digest state.successor.mode state.successor.pin)

instance (row : AgentRow) (state : TLSPinRotationState) : Decidable (Converged digest row state) :=
  inferInstanceAs (Decidable (_ ∧ _))

def convergenceCounts (w : World Cert ι) : Option TLSPinRotationState → Nat × Nat
  | none => (0,0)
  | some state =>
    (listAgents w .active).foldl
      (fun (converged,unconverged) i =>
        if Converged digest (w.rows i) state then (converged+1,unconverged)
        else (converged,unconverged+1))
      (0,0)

def notAdvertisedReason : String :=
  "Activating this certificate changes the TLS trust policy agents " ++
  "verify against, and no rotation has advertised this policy to the " ++
  "fleet. Every agent would be unable to reconnect — including over " ++
  "the update channel that would otherwise deliver a fix. Start a " ++
  "rotation first: POST /api/v1/agents/tls-pin/rotate with this " ++
  "certificate's id (see docs/tls-trust-rotation.md), or re-send " ++
  "with force=true to activate anyway."

def unconvergedReason (unconverged : Nat) : String :=
  toString unconverged ++ " active agent(s) have not confirmed the successor TLS " ++
  "policy and would be stranded by this activation. Check " ++
  "GET /api/v1/agents/tls-pin/pending, or re-send with force=true to " ++
  "activate anyway."

def activationBlockReason (w : World Cert ι) (cert : Certificate Cert) : Option String :=
  if listAgents w .active = [] then none
  else
    let target := tlsPolicyForCertificate pki cert
    match servedTrustPolicy pki w with
    | none => none
    | some served =>
      if target = served then none
      else if target.mode = .publicCa ∧ served.mode = .publicCa then none
      else if w.rotation.map (·.successor) ≠ some target then some notAdvertisedReason
      else
        let unconverged := (convergenceCounts digest w w.rotation).2
        if unconverged ≠ 0 then some (unconvergedReason unconverged) else none

section Steps
variable [DecidableEq ι]

/-- What the server does. The hello of a connection reads the rotation before it records
the report, and its `tls.pin.rotate` frame goes out after both. -/
inductive ServerAct (Cert ι : Type) where
  | boot (leaf : Cert)
  | tick
  | enroll (i : ι)
  | approve (i : ι)
  | revoke (i : ι)
  | startTlsPinRotation (cert : Certificate Cert) (startedAt overlapSeconds : Nat)
  | broadcastTlsPinRotate (state : TLSPinRotationState) (i : ι)
  | activate (cert : Certificate Cert) (force : Bool)
  | renew (cert : Certificate Cert)
  | completeTlsPinRotation
  | deleteActive
  | readHello (i : ι) (report : Report)
  | commitHello (i : ι) (report : Report) (state : Option TLSPinRotationState)
  | heartbeat (i : ι) (report : Report)

def TLSPinRotationState.payload (state : TLSPinRotationState) : TLSPinRotatePayload :=
  ⟨state.successor.mode,state.successor.pin,state.overlapExpiresAt⟩

def World.setRow (w : World Cert ι) (i : ι) (row : AgentRow) : World Cert ι :=
  {w with rows := update w.rows i row}

def World.send (w : World Cert ι) (i : ι) (state : TLSPinRotationState) : World Cert ι :=
  {w with frames := update w.frames i (w.frames i++[state.payload])}

def World.serve (w : World Cert ι) (cert : Certificate Cert) : World Cert ι :=
  {w with live := some cert.certPem, activeRow := some cert.type}

def next (w : World Cert ι) : ServerAct Cert ι → Option (World Cert ι)
  | .boot leaf => if w.live.isNone then some {w with live := some leaf} else none
  | .tick => some {w with now := w.now+1}
  | .enroll i =>
    if i ∈ w.enrolled then none
    else some ({w with enrolled := w.enrolled++[i]}.setRow i {})
  | .approve i =>
    if i ∈ w.enrolled ∧ (w.rows i).status = .pending then
      some (w.setRow i {w.rows i with status := .active})
    else none
  | .revoke i =>
    if (w.rows i).status = .active then some (w.setRow i {w.rows i with status := .revoked})
    else none
  | .startTlsPinRotation cert startedAt overlapSeconds =>
    -- the clock is read first, the write is conditional on there being no rotation
    if w.rotation = none ∧ startedAt ≤ w.now then
      let state := ⟨tlsPolicyForCertificate pki cert,startedAt,startedAt+overlapSeconds⟩
      some {w with
        rotation := some state
        announcing := w.announcing++[state]}
    else none
  | .broadcastTlsPinRotate state i =>
    if state ∈ w.announcing ∧ i ∈ listAgents w .active then some (w.send i state) else none
  | .activate cert force =>
    if activationBlockReason pki digest w cert = none ∨ force then
      some {w.serve cert with
        finishing := if w.rotation.isSome then w.finishing+1 else w.finishing}
    else none
  | .renew cert =>
    if activationBlockReason pki digest w cert = none then some (w.serve cert) else none
  | .completeTlsPinRotation =>
    if w.finishing = 0 then none
    else some {w with
      rotation := none
      finishing := w.finishing-1}
  | .deleteActive => if w.activeRow.isSome then some {w with activeRow := none} else none
  | .readHello i report =>
    if report ∈ w.reports i ∧ i ∈ listAgents w .active then
      some {w with
        reports := update w.reports i ((w.reports i).erase report)
        hellos := update w.hellos i (w.hellos i++[(report,w.rotation)])}
    else none
  | .commitHello i report state =>
    if (report,state) ∈ w.hellos i then
      let w' := {w with
        hellos := update w.hellos i ((w.hellos i).erase (report,state))}
      let recorded := w'.setRow i (recordTlsPin (w.rows i) report w.now)
      some (match state with
        | none => recorded
        | some state => recorded.send i state)
    else none
  | .heartbeat i report =>
    if report ∈ w.reports i ∧ i ∈ listAgents w .active ∧ report.tlsPinKind = none then
      let w' := {w with
        reports := update w.reports i ((w.reports i).erase report)}
      some (w'.setRow i (recordTlsPin (w.rows i) report w.now))
    else none

inductive Act (Cert ι : Type) where
  | server (act : ServerAct Cert ι)
  | agent (i : ι) (event : Event Cert)
  | hello (i : ι)
  | beat (i : ι)

/-- What answers an agent's attempt to connect is the install's TLS server, or nothing. -/
def World.Offers (w : World Cert ι) : Offer Cert → Prop
  | .unreachable => True
  | .plain => False
  | .certificate leaf => w.live = some leaf

/-- What an agent's own step needs of the install, and the frames still on their way after
it: a dial meets what the install offers, a rotation is a frame that was sent. -/
def World.Allows (w : World Cert ι) (i : ι) : Event Cert → List TLSPinRotatePayload → Prop
  | .dial offers, frames => w.Offers offers.first ∧ w.Offers offers.retry ∧ frames = w.frames i
  | .rotate payload, frames =>
    ∃ before rotate after, w.frames i = before++rotate::after ∧ payload = some rotate ∧
      frames = before++after
  | _, frames => frames = w.frames i

def kindAfter (opts : Options) (s : Agent Cert) (kind : Option PinKind) :
    Event Cert → Option PinKind
  | .promote =>
    match s.phase with
    | .authenticated _ conn => ((conn.promoteTrust opts).run FileAction.apply s.files).1
    | _ => kind
  | _ => kind

def World.report (w : World Cert ι) (i : ι) (kind : Option PinKind) : World Cert ι :=
  let files := (w.agents i).files
  let report : Report :=
    ⟨kind,successorReady (opts i) files,successorFingerprint digest (opts i) files⟩
  {w with reports := update w.reports i (w.reports i++[report])}

inductive Step : World Cert ι → Act Cert ι → World Cert ι → Prop where
  | server {w w' : World Cert ι} {act : ServerAct Cert ι} :
      next pki digest w act = some w' → Step w (.server act) w'
  | agent {w : World Cert ι} (i : ι) {event : Event Cert} {s : Agent Cert}
      {frames : List TLSPinRotatePayload} :
      w.Allows i event frames → AgentLink.TlsTrust.Step pki (opts i) (w.agents i) event s →
      Step w (.agent i event) {w with
        agents := update w.agents i s
        pinKind := update w.pinKind i
          (kindAfter (opts i) (w.agents i) (w.pinKind i) event)
        frames := update w.frames i frames}
  | hello {w : World Cert ι} (i : ι) : (w.agents i).phase = .linked →
      Step w (.hello i) (w.report opts digest i (w.pinKind i))
  | beat {w : World Cert ι} (i : ι) : (w.agents i).phase = .linked →
      Step w (.beat i) (w.report opts digest i none)

end Steps

def trustPolicy (policy : TLSTrustPolicy) : Policy :=
  if policy.mode = .publicCa then .systemRoots else .pinned policy.pin

/-- A Let's Encrypt row holds a certificate that the system's roots verify, which one issued
by the staging directory is not. -/
def Certificate.Genuine (cert : Certificate Cert) : Prop :=
  cert.type = .letsencrypt → pki.systemVerifies cert.certPem = true

def InFile (s : Agent Cert) (policy : Policy) : Prop :=
  ∃ rotation, s.files.tlsPinRotation = some rotation ∧ rotation.policy = policy

/-- The agent has a connection that will promote the successor once it is authenticated. -/
def CutOver (s : Agent Cert) : Prop :=
  ∃ offers conn, s.phase.Dialled offers conn ∧ conn.promote = some successorRetryIndex

/-- The agent's dials accept the policy, and still do once a connection under way has been
promoted. -/
def Keeps (opts : Options) (s : Agent Cert) (policy : Policy) : Prop :=
  InFile s policy ∨ effectivePolicy opts s.files = policy ∧ ¬CutOver s

/-- The agent holds the policy as its successor, or has promoted it and holds no other. -/
def Holds (opts : Options) (s : Agent Cert) (policy : Policy) : Prop :=
  InFile s policy ∨ effectivePolicy opts s.files = policy ∧ s.files.tlsPinRotation = none

def Active (w : World Cert ι) (i : ι) : Prop := i ∈ listAgents w .active

instance [DecidableEq ι] (w : World Cert ι) (i : ι) : Decidable (Active w i) :=
  inferInstanceAs (Decidable (i ∈ listAgents w .active))

def Current (w : World Cert ι) (i : ι) (report : Report) : Prop :=
  ∀ fingerprint, report.tlsPinSuccessorFingerprint = some fingerprint →
    successorFingerprint digest (opts i) (w.agents i).files = some fingerprint

/-- The successor an agent is handed replaces none it needs: the certificate served is
accepted without the one it held, and the rotation it is counted as converged on is this. -/
structure Replaceable (w : World Cert ι) (i : ι) (policy : Policy) : Prop where
  served : ∀ served, servedTrustPolicy pki w = some served →
    effectivePolicy (opts i) (w.agents i).files = trustPolicy served ∨ policy = trustPolicy served
  converged : ∀ state, w.rotation = some state → Converged digest (w.rows i) state →
    policy = trustPolicy state.successor

def Meets (w : World Cert ι) : Act Cert ι → Prop
  | .server (.approve i) => ∃ served, servedTrustPolicy pki w = some served ∧
      Keeps (opts i) (w.agents i) (trustPolicy served)
  | .server (.startTlsPinRotation _ startedAt _) => ∀ i,
      ∀ pinned ∈ (w.rows i).tlsPinSuccessorPinnedAt, pinned < startedAt
  | .server (.activate cert force) => cert.Genuine pki ∧
      (force → ∀ i, Active w i →
        Keeps (opts i) (w.agents i) (trustPolicy (tlsPolicyForCertificate pki cert)))
  | .server (.renew cert) => cert.Genuine pki
  | .server .deleteActive => w.activeRow ≠ some .letsencrypt
  | .server (.commitHello i report _) => Current opts digest w i report
  | .server (.heartbeat i report) => Current opts digest w i report
  | .agent _ (.dial offers) => offers.retry = .unreachable ∨ offers.first = offers.retry
  | .agent i (.rotate payload) => Active w i → ∀ state,
      handleTLSPinRotate (opts i) payload = some state →
      Replaceable pki opts digest w i state.policy
  | _ => True

section AgentSteps
variable {pki} {opts : Options} {s t : Agent Cert} {event : Event Cert} {policy : Policy}

theorem CutOver.pending (h : s.Sound pki opts) (hc : CutOver s) :
    s.files.tlsPinRotation ≠ none := by
  obtain ⟨offers,conn,hd,hp⟩ := hc
  cases dialWithTrust_reached pki opts (h.dialled offers conn hd) with
  | plain | current => cases hp
  | successor rotation leaf hr _ _ _ =>
    rw [←h.pending_eq,hr]
    exact Option.some_ne_none _

theorem Holds.keeps (h : s.Sound pki opts) (hh : Holds opts s policy) : Keeps opts s policy := by
  rcases hh with hf | ⟨he,hn⟩
  · exact .inl hf
  · exact .inr ⟨he,fun hc => hc.pending h hn⟩

theorem promoting_cases (h : s.Sound pki opts) {offers : Offers Cert} {conn : Conn Cert}
    (hp : s.phase = .authenticated offers conn) {files : StateFiles}
    (hm : Promoting opts s.files conn files) :
    files = s.files ∨ CutOver s ∧ ∃ rotation, s.files.tlsPinRotation = some rotation ∧
      effectivePolicy opts files = rotation.policy ∧
      (files.tlsPinRotation = some rotation ∨ files.tlsPinRotation = none) := by
  rcases hm with rfl | ⟨rotation,hr,hc,ht,hf⟩
  · exact .inl rfl
  · rw [h.pending_eq] at hr
    obtain ⟨hann,-,hset⟩ := h.announced _ hr
    have hphase : s.phase.Dialled offers conn := by
      rw [hp]
      exact ⟨rfl,rfl⟩
    exact .inr ⟨⟨offers,conn,hphase,hc⟩,rotation,hr,effectivePolicy_promoted opts hann hset ht,hf⟩

theorem step_files (h : s.Sound pki opts) (hs : AgentLink.TlsTrust.Step pki opts s event t) :
    t.files = s.files ∨
      (∃ payload state, event = .rotate payload ∧ s.phase = .linked ∧ t.phase = .linked ∧
        handleTLSPinRotate opts payload = some state ∧
        t.files = {s.files with tlsPinRotation := some state}) ∨
      CutOver s ∧ ¬CutOver t ∧ ∃ rotation, s.files.tlsPinRotation = some rotation ∧
        effectivePolicy opts t.files = rotation.policy ∧
        (t.files.tlsPinRotation = some rotation ∨ t.files.tlsPinRotation = none) := by
  cases hs with
  | promote offers conn hp =>
    rcases promoting_cases h hp (h.promoting hp).2.1 with he | ⟨hc,hm⟩
    · exact .inl he
    · refine .inr (.inr ⟨hc,?_,hm⟩)
      rintro ⟨_,_,hd,-⟩
      exact hd
  | crashPromoting offers conn files next hp hmem =>
    rcases promoting_cases h hp ((h.promoting hp).1 _ hmem) with he | ⟨hc,hm⟩
    · exact .inl he
    · refine .inr (.inr ⟨hc,?_,hm⟩)
      rintro ⟨_,_,hd,-⟩
      exact hd
  | rotate payload state hp hr => exact .inr (.inl ⟨payload,state,rfl,hp,hp,hr,rfl⟩)
  | reached | unreached | verified | refused | ignored | drop | crash => exact .inl rfl

theorem step_holds (h : s.Sound pki opts) (hs : AgentLink.TlsTrust.Step pki opts s event t)
    (hh : Holds opts s policy)
    (hr : ∀ payload state, event = .rotate payload →
      handleTLSPinRotate opts payload = some state → state.policy = policy) :
    Holds opts t policy := by
  rcases step_files h hs with he | ⟨payload,state,hevent,-,-,hstate,he⟩ | ⟨hc,-,rotation,hf,he,hn⟩
  · unfold Holds InFile
    rw [he]
    exact hh
  · exact .inl ⟨state,by rw [he],hr payload state hevent hstate⟩
  · rcases hh with ⟨other,ho,rfl⟩ | ⟨-,hnone⟩
    · cases hf.symm.trans ho
      rcases hn with hn | hn
      · exact .inl ⟨rotation,hn,rfl⟩
      · exact .inr ⟨he,hn⟩
    · exact absurd hnone (hc.pending h)

theorem step_cutOver (hs : AgentLink.TlsTrust.Step pki opts s event t) (hc : CutOver t)
    (hf : t.files = s.files) :
    CutOver s ∨ ∃ offers conn, event = .dial offers ∧
      dialWithTrust pki opts s.files offers.first offers.retry = some conn ∧
      conn.promote = some successorRetryIndex := by
  obtain ⟨offers,conn,hd,hp⟩ := hc
  cases hs with
  | reached o c hphase hdial =>
    obtain ⟨rfl,rfl⟩ := hd
    exact .inr ⟨offers,conn,rfl,hdial,hp⟩
  | verified o c hphase =>
    obtain ⟨rfl,rfl⟩ := hd
    refine .inl ⟨offers,conn,?_,hp⟩
    rw [hphase]
    exact ⟨rfl,rfl⟩
  | unreached | ignored | rotate => exact .inl ⟨offers,conn,hd,hp⟩
  | promote | refused | drop | crash | crashPromoting => exact hd.elim

theorem step_keeps (h : s.Sound pki opts) (hs : AgentLink.TlsTrust.Step pki opts s event t)
    (hk : Keeps opts s policy)
    (hd : ∀ offers conn, event = .dial offers →
      dialWithTrust pki opts s.files offers.first offers.retry = some conn →
      conn.promote = some successorRetryIndex → effectivePolicy opts s.files ≠ policy)
    (hr : ∀ payload state, event = .rotate payload →
      handleTLSPinRotate opts payload = some state →
      effectivePolicy opts s.files = policy ∨ state.policy = policy) :
    Keeps opts t policy := by
  rcases step_files h hs with
    he | ⟨payload,state,hevent,hp,hq,hstate,he⟩ | ⟨hc,hn,rotation,hf,he,-⟩
  · rcases hk with hf | ⟨heff,hnone⟩
    · unfold Keeps InFile
      rw [he]
      exact .inl hf
    · refine .inr ⟨by rw [he]; exact heff,fun hc => ?_⟩
      rcases step_cutOver hs hc he with hc | ⟨offers,conn,hevent,hdial,hp⟩
      · exact hnone hc
      · exact hd offers conn hevent hdial hp heff
  · rcases hr payload state hevent hstate with heff | hpol
    · refine .inr ⟨by rw [he]; exact heff,?_⟩
      rintro ⟨_,_,hdialled,-⟩
      rw [hq] at hdialled
      exact hdialled
    · exact .inl ⟨state,by rw [he],hpol⟩
  · rcases hk with ⟨other,ho,rfl⟩ | ⟨-,hnone⟩
    · cases hf.symm.trans ho
      exact .inr ⟨he,hn⟩
    · exact absurd hc hnone

theorem Keeps.accepts (h : s.Sound pki opts) (hk : Keeps opts s policy) {cert : Cert}
    (hs : policy.Satisfied pki cert) :
    (dialWithTrust pki opts s.files (.certificate cert) (.certificate cert)).isSome = true := by
  refine dialWithTrust_accepts pki opts h.pending_eq (fun r hr => (h.announced r hr).1) ?_
  rcases hk with ⟨rotation,hr,rfl⟩ | ⟨rfl,-⟩
  · exact .inr ⟨rotation,hr,hs⟩
  · exact .inl hs

end AgentSteps

structure Sound (w : World Cert ι) : Prop where
  agents : ∀ i, (w.agents i).Sound pki (opts i)
  unserved : w.live = none → w.activeRow = none ∧ ∀ i, ¬Active w i
  genuine : ∀ leaf, w.live = some leaf → w.activeRow = some .letsencrypt →
    pki.systemVerifies leaf = true
  served : ∀ i, Active w i → ∀ served, servedTrustPolicy pki w = some served →
    Keeps (opts i) (w.agents i) (trustPolicy served)
  advertised : ∀ state, w.rotation = some state →
    ∃ cert, state.successor = tlsPolicyForCertificate pki cert
  converged : ∀ i, Active w i → ∀ state, w.rotation = some state →
    Converged digest (w.rows i) state → Holds (opts i) (w.agents i) (trustPolicy state.successor)
  unrecorded : ∀ i, i ∉ w.enrolled ∨ (w.rows i).status = .pending →
    (w.rows i).tlsPinSuccessorPinnedAt = none ∧ w.hellos i = []

theorem active_iff {w : World Cert ι} {i : ι} :
    Active w i ↔ i ∈ w.enrolled ∧ (w.rows i).status = .active := by
  simp [Active,listAgents]

theorem fresh_sound : Sound pki opts digest (World.fresh : World Cert ι) where
  agents _ := Agent.fresh_sound
  unserved _ := ⟨rfl,fun i h => by simp [active_iff,World.fresh] at h⟩
  genuine _ h := by cases h
  served i h := by simp [active_iff,World.fresh] at h
  advertised _ h := by cases h
  converged i h := by simp [active_iff,World.fresh] at h
  unrecorded _ _ := ⟨rfl,rfl⟩

variable {pki opts digest}

theorem policyFingerprint_inj (hdigest : Function.Injective digest) {m m' : Mode} {p p' : String}
    (hm : m = .publicCa ∨ m = .selfSigned) (hm' : m' = .publicCa ∨ m' = .selfSigned)
    (h : policyFingerprint digest m p = policyFingerprint digest m' p') : m = m' ∧ p = p' := by
  have h := congrArg String.toList (hdigest h)
  rcases hm with rfl | rfl <;> rcases hm' with rfl | rfl <;>
    simp_all [wireMode,String.toList_append,String.toList_inj]

theorem tlsPolicyForCertificate_mode (cert : Certificate Cert) :
    (tlsPolicyForCertificate pki cert).mode = .publicCa ∨
      (tlsPolicyForCertificate pki cert).mode = .selfSigned := by
  unfold tlsPolicyForCertificate
  split
  · exact .inl rfl
  · exact .inr rfl

theorem tlsPolicyForCertificate_satisfied {cert : Certificate Cert} (h : cert.Genuine pki) :
    (trustPolicy (tlsPolicyForCertificate pki cert)).Satisfied pki cert.certPem := by
  unfold tlsPolicyForCertificate trustPolicy
  by_cases ht : cert.type = .letsencrypt
  · simpa [ht,Policy.Satisfied] using h ht
  · simp [ht,Policy.Satisfied]

theorem Sound.satisfied {w : World Cert ι} (h : Sound pki opts digest w) {leaf : Cert}
    {served : TLSTrustPolicy} (hl : w.live = some leaf)
    (hs : servedTrustPolicy pki w = some served) :
    (trustPolicy served).Satisfied pki leaf := by
  simp only [servedTrustPolicy,hl,Option.map_some,Option.some.injEq] at hs
  subst hs
  by_cases ht : w.activeRow = some .letsencrypt
  · simpa [trustPolicy,ht,Policy.Satisfied] using h.genuine leaf hl ht
  · simp [trustPolicy,ht,Policy.Satisfied]

theorem foldl_unconverged {w : World Cert ι} {state : TLSPinRotationState} (l : List ι)
    (counts : Nat × Nat)
    (h : (l.foldl (fun (converged,unconverged) i =>
        if Converged digest (w.rows i) state then (converged+1,unconverged)
        else (converged,unconverged+1)) counts).2 = 0) :
    counts.2 = 0 ∧ ∀ i ∈ l, Converged digest (w.rows i) state := by
  induction l generalizing counts with
  | nil => exact ⟨h,by simp⟩
  | cons i l ih =>
    obtain ⟨hc,hl⟩ := ih _ h
    by_cases hi : Converged digest (w.rows i) state
    · simp only [hi,if_true] at hc
      exact ⟨hc,by simpa using ⟨hi,hl⟩⟩
    · simp [hi] at hc

theorem Sound.gate_keeps {w : World Cert ι} (h : Sound pki opts digest w) {cert : Certificate Cert}
    (hg : activationBlockReason pki digest w cert = none) {i : ι} (hi : Active w i) :
    Keeps (opts i) (w.agents i) (trustPolicy (tlsPolicyForCertificate pki cert)) := by
  unfold activationBlockReason at hg
  rw [if_neg (List.ne_nil_of_mem hi)] at hg
  cases hs : servedTrustPolicy pki w with
  | none => exact absurd hi ((h.unserved (by simpa [servedTrustPolicy] using hs)).2 i)
  | some served =>
    have hk := h.served i hi served hs
    simp only [hs] at hg
    split at hg
    · rename_i he
      rw [he]
      exact hk
    · split at hg
      · rename_i hpublic
        unfold trustPolicy at hk ⊢
        rw [if_pos hpublic.2] at hk
        rwa [if_pos hpublic.1]
      · split at hg
        · cases hg
        · split at hg
          · cases hg
          · rename_i hadv hcount
            cases hr : w.rotation with
            | none => simp [hr] at hadv
            | some state =>
              rw [hr] at hadv hcount
              have htarget : state.successor = tlsPolicyForCertificate pki cert := by
                simpa using hadv
              have hall := (foldl_unconverged _ _ (not_not.1 hcount)).2
              rw [←htarget]
              exact (h.converged i hi state hr (hall i hi)).keeps (h.agents i)

theorem recordTlsPin_converged {row : AgentRow} {report : Report} {now : Nat}
    {state : TLSPinRotationState}
    (h : Converged digest (recordTlsPin row report now) state) :
    Converged digest row state ∨ report.tlsPinSuccessorFingerprint =
      some (policyFingerprint digest state.successor.mode state.successor.pin) := by
  unfold recordTlsPin at h
  by_cases hready : report.tlsPinKind = some .successor ∨ report.tlsPinSuccessorReady
  · right
    simp only [hready,if_true] at h
    split at h <;> exact h.2
  · left
    simp only [hready,if_false] at h
    split at h <;> exact h

@[simp] theorem recordTlsPin_status (row : AgentRow) (report : Report) (now : Nat) :
    (recordTlsPin row report now).status = row.status := by
  unfold recordTlsPin
  split <;> split <;> rfl

theorem Sound.current_holds (hdigest : Function.Injective digest) {w : World Cert ι}
    (h : Sound pki opts digest w) {i : ι} {report : Report}
    (hc : Current opts digest w i report) {state : TLSPinRotationState}
    (hr : w.rotation = some state)
    (hf : report.tlsPinSuccessorFingerprint =
      some (policyFingerprint digest state.successor.mode state.successor.pin)) :
    Holds (opts i) (w.agents i) (trustPolicy state.successor) := by
  have hfile := hc _ hf
  obtain ⟨cert,hcert⟩ := h.advertised state hr
  unfold successorFingerprint at hfile
  split at hfile
  · obtain ⟨rotation,hrot,hfp⟩ := Option.map_eq_some_iff.1 hfile
    have hann : rotation.mode = .publicCa ∨ rotation.mode = .selfSigned :=
      ((h.agents i).announced _ hrot).1.imp_right And.left
    have hmode : state.successor.mode = .publicCa ∨ state.successor.mode = .selfSigned := by
      rw [hcert]
      exact tlsPolicyForCertificate_mode cert
    obtain ⟨hm,hp⟩ := policyFingerprint_inj hdigest hann hmode hfp
    refine .inl ⟨rotation,hrot,?_⟩
    unfold TLSPinRotation.policy trustPolicy
    rw [hm,hp]
  · cases hfile

variable {w w' : World Cert ι}

theorem Sound.serve (h : Sound pki opts digest w) {cert : Certificate Cert}
    (hg : cert.Genuine pki)
    (hk : ∀ i, Active w i →
      Keeps (opts i) (w.agents i) (trustPolicy (tlsPolicyForCertificate pki cert))) :
    Sound pki opts digest (w.serve cert) := by
  refine ⟨h.agents,nofun,?_,fun i hi served hs => ?_,h.advertised,h.converged,
    h.unrecorded⟩
  · rintro _ ⟨⟩ ht
    exact hg (Option.some.inj ht)
  · have he : trustPolicy served = trustPolicy (tlsPolicyForCertificate pki cert) := by
      simp only [servedTrustPolicy,World.serve,Option.map_some,Option.some.injEq] at hs
      subst hs
      by_cases ht : cert.type = .letsencrypt
      · simp [tlsPolicyForCertificate,trustPolicy,ht]
      · simp [tlsPolicyForCertificate,trustPolicy,ht]
    rw [he]
    exact hk i hi

theorem Sound.known (h : Sound pki opts digest w) {i : ι} (hh : w.hellos i ≠ []) :
    ¬(i ∉ w.enrolled ∨ (w.rows i).status = .pending) :=
  fun hu => hh (h.unrecorded i hu).2

theorem Active.known {i : ι} (h : Active w i) :
    ¬(i ∉ w.enrolled ∨ (w.rows i).status = .pending) := by
  obtain ⟨hi,hs⟩ := active_iff.1 h
  simp [hi,hs]

theorem Sound.fewer (h : Sound pki opts digest w) {enrolled : List ι} {rows : ι → AgentRow}
    (hactive : ∀ j, Active {w with enrolled := enrolled, rows := rows} j →
      Active w j ∧ rows j = w.rows j)
    (hrest : ∀ j, j ∉ enrolled ∨ (rows j).status = .pending →
      (rows j).tlsPinSuccessorPinnedAt = none ∧ w.hellos j = []) :
    Sound pki opts digest {w with enrolled := enrolled, rows := rows} where
  agents := h.agents
  unserved hl := ⟨(h.unserved hl).1,fun j hj => (h.unserved hl).2 j (hactive j hj).1⟩
  genuine := h.genuine
  served j hj := h.served j (hactive j hj).1
  advertised := h.advertised
  converged j hj state hr hconv := by
    obtain ⟨ha,hrow⟩ := hactive j hj
    have hconv : Converged digest (rows j) state := hconv
    rw [hrow] at hconv
    exact h.converged j ha state hr hconv
  unrecorded := hrest

theorem Sound.dial_current (h : Sound pki opts digest w) {i : ι} {served : TLSTrustPolicy}
    (hs : servedTrustPolicy pki w = some served) {offers : Offers Cert} {conn : Conn Cert}
    (hfirst : w.Offers offers.first)
    (hm : offers.retry = .unreachable ∨ offers.first = offers.retry)
    (hd : dialWithTrust pki (opts i) (w.agents i).files offers.first offers.retry = some conn)
    (hp : conn.promote = some successorRetryIndex) :
    effectivePolicy (opts i) (w.agents i).files ≠ trustPolicy served := by
  intro heff
  cases dialWithTrust_reached pki (opts i) hd with
  | plain | current => cases hp
  | successor rotation leaf hr hmiss _ _ =>
    cases hf : offers.first with rw [hf] at hfirst
    | unreachable =>
      have hretry : offers.retry = .unreachable := hm.elim id fun h => h.symm.trans hf
      rw [hf,hretry] at hd
      simp only [dialWithTrust,dialContext] at hd
      split at hd
      · split at hd <;> cases hd
      · cases hd
    | plain =>
      exact hfirst
    | certificate cert =>
      exact hmiss ⟨cert,hf,heff ▸ h.satisfied hfirst hs⟩

section StepLemmas
variable [DecidableEq ι]

theorem active_setRow {i j : ι} {row : AgentRow} (hs : row.status = (w.rows i).status) :
    Active (w.setRow i row) j ↔ Active w j := by
  rw [active_iff,active_iff]
  by_cases hj : j = i
  · subst hj
    simp [World.setRow,hs]
  · simp [World.setRow,hj]

theorem Sound.recorded (hdigest : Function.Injective digest) (h : Sound pki opts digest w) {i : ι}
    {report : Report} (hc : Current opts digest w i report)
    (hknown : ¬(i ∉ w.enrolled ∨ (w.rows i).status = .pending)) :
    Sound pki opts digest (w.setRow i (recordTlsPin (w.rows i) report w.now)) := by
  have hactive {j : ι} : Active (w.setRow i (recordTlsPin (w.rows i) report w.now)) j ↔
      Active w j := active_setRow (by simp)
  refine ⟨h.agents,fun hl => ⟨(h.unserved hl).1,fun j hj => (h.unserved hl).2 j (hactive.1 hj)⟩,h.genuine,
    fun j hj => h.served j (hactive.1 hj),h.advertised,fun j hj state hr hconv => ?_,
    fun j hj => ?_⟩
  · by_cases hji : j = i
    · subst hji
      simp only [World.setRow,update_self] at hconv
      rcases recordTlsPin_converged hconv with hconv | hf
      · exact h.converged j (hactive.1 hj) state hr hconv
      · exact h.current_holds hdigest hc hr hf
    · simp only [World.setRow,update_of_ne hji] at hconv
      exact h.converged j (hactive.1 hj) state hr hconv
  · by_cases hji : j = i
    · subst hji
      exact absurd (by simpa [World.setRow] using hj) hknown
    · simp only [World.setRow,update_of_ne hji] at hj ⊢
      exact h.unrecorded j hj

theorem Sound.sent (h : Sound pki opts digest w) (i : ι) (state : TLSPinRotationState) :
    Sound pki opts digest (w.send i state) :=
  ⟨h.agents,h.unserved,h.genuine,h.served,h.advertised,h.converged,h.unrecorded⟩

theorem Sound.enrolled (h : Sound pki opts digest w) {i : ι} (hi : i ∉ w.enrolled) :
    Sound pki opts digest ({w with enrolled := w.enrolled++[i]}.setRow i {}) := by
  refine h.fewer (fun j hj => ?_) (fun j hj => ?_)
  · obtain ⟨hmem,hstatus⟩ := active_iff.1 hj
    have hji : j ≠ i := by
      rintro rfl
      simp at hstatus
    simp only [update_of_ne hji] at hmem hstatus ⊢
    exact ⟨active_iff.2 ⟨by simpa [hji] using hmem,hstatus⟩,trivial⟩
  · by_cases hji : j = i
    · subst hji
      exact ⟨by simp,(h.unrecorded j (.inl hi)).2⟩
    · rw [update_of_ne hji] at hj ⊢
      exact h.unrecorded j (by simpa [hji] using hj)

theorem Sound.revoked (h : Sound pki opts digest w) (i : ι) :
    Sound pki opts digest (w.setRow i {w.rows i with status := .revoked}) := by
  refine h.fewer (fun j hj => ?_) (fun j hj => ?_)
  · obtain ⟨hmem,hstatus⟩ := active_iff.1 hj
    have hji : j ≠ i := by
      rintro rfl
      simp at hstatus
    simp only [update_of_ne hji] at hstatus ⊢
    exact ⟨active_iff.2 ⟨hmem,hstatus⟩,trivial⟩
  · by_cases hji : j = i
    · subst hji
      have hout : j ∉ w.enrolled := by simpa using hj
      simpa using h.unrecorded j (.inl hout)
    · rw [update_of_ne hji] at hj ⊢
      exact h.unrecorded j hj

theorem Sound.approved (h : Sound pki opts digest w) {i : ι} (hi : i ∈ w.enrolled)
    (hpending : (w.rows i).status = .pending) {served : TLSTrustPolicy}
    (hserved : servedTrustPolicy pki w = some served)
    (hkeeps : Keeps (opts i) (w.agents i) (trustPolicy served)) :
    Sound pki opts digest (w.setRow i {w.rows i with status := .active}) := by
  have hactive {j : ι} (hj : Active (w.setRow i {w.rows i with status := .active}) j) :
      j = i ∨ j ≠ i ∧ Active w j := by
    by_cases hji : j = i
    · exact .inl hji
    · rw [active_iff] at hj
      simp only [World.setRow,update_of_ne hji] at hj
      exact .inr ⟨hji,active_iff.2 hj⟩
  refine ⟨h.agents,fun hl => ?_,h.genuine,fun j hj other ho => ?_,h.advertised,
    fun j hj state hr hconv => ?_,fun j hj => ?_⟩
  · have hl : w.live = none := hl
    simp [servedTrustPolicy,hl] at hserved
  · rcases hactive hj with rfl | ⟨-,ha⟩
    · cases hserved.symm.trans ho
      exact hkeeps
    · exact h.served j ha other ho
  · rcases hactive hj with rfl | ⟨hji,ha⟩
    · obtain ⟨⟨pinned,hp,-⟩,-⟩ := hconv
      have hnone := (h.unrecorded j (.inr hpending)).1
      simp [World.setRow,hnone] at hp
    · simp only [World.setRow,update_of_ne hji] at hconv
      exact h.converged j ha state hr hconv
  · by_cases hji : j = i
    · subst hji
      simp [World.setRow,hi] at hj
    · simp only [World.setRow,update_of_ne hji] at hj ⊢
      exact h.unrecorded j hj

theorem Sound.hello (h : Sound pki opts digest w) {i : ι}
    (hknown : ¬(i ∉ w.enrolled ∨ (w.rows i).status = .pending))
    {reports : ι → List Report} (hellos : List (Report × Option TLSPinRotationState)) :
    Sound pki opts digest
      {w with reports := reports, hellos := update w.hellos i hellos} := by
  refine ⟨h.agents,h.unserved,h.genuine,h.served,h.advertised,h.converged,fun j hj => ?_⟩
  have hji : j ≠ i := by
    rintro rfl
    exact hknown hj
  refine ⟨(h.unrecorded j hj).1,?_⟩
  change update w.hellos i _ j = []
  rw [update_of_ne hji]
  exact (h.unrecorded j hj).2

theorem serverStep_sound (hdigest : Function.Injective digest) (h : Sound pki opts digest w)
    {act : ServerAct Cert ι} (hm : Meets pki opts digest w (.server act))
    (hs : next pki digest w act = some w') : Sound pki opts digest w' := by
  cases act with simp only [next] at hs
  | boot leaf =>
    simp only [Option.isNone_iff_eq_none] at hs
    split at hs <;> cases hs
    rename_i hl
    obtain ⟨hrow,hnone⟩ := h.unserved hl
    refine ⟨h.agents,nofun,?_,fun i hi => absurd hi (hnone i),h.advertised,
      h.converged,h.unrecorded⟩
    rintro _ ⟨⟩ ht
    cases hrow.symm.trans ht
  | tick =>
    cases hs
    exact ⟨h.agents,h.unserved,h.genuine,h.served,h.advertised,h.converged,h.unrecorded⟩
  | enroll i =>
    split at hs <;> cases hs
    exact h.enrolled ‹_›
  | approve i =>
    split at hs <;> cases hs
    rename_i hi
    obtain ⟨served,hserved,hkeeps⟩ := hm
    exact h.approved hi.1 hi.2 hserved hkeeps
  | revoke i =>
    split at hs <;> cases hs
    exact h.revoked i
  | startTlsPinRotation cert startedAt overlapSeconds =>
    split at hs <;> cases hs
    rename_i hr
    refine ⟨h.agents,h.unserved,h.genuine,h.served,?_,?_,h.unrecorded⟩
    · rintro _ ⟨⟩
      exact ⟨cert,rfl⟩
    · rintro i hi _ ⟨⟩ ⟨⟨pinned,hp,hle⟩,-⟩
      exact absurd (hm i pinned hp) (Nat.not_lt.2 hle)
  | broadcastTlsPinRotate state i =>
    split at hs <;> cases hs
    exact h.sent i state
  | activate cert force =>
    split at hs <;> cases hs
    rename_i hg
    have hk : ∀ i, Active w i →
        Keeps (opts i) (w.agents i) (trustPolicy (tlsPolicyForCertificate pki cert)) := by
      rcases hg with hg | hf
      · exact fun i => h.gate_keeps hg
      · exact hm.2 hf
    have hserve := h.serve hm.1 hk
    exact ⟨hserve.agents,hserve.unserved,hserve.genuine,hserve.served,hserve.advertised,
      hserve.converged,hserve.unrecorded⟩
  | renew cert =>
    split at hs <;> cases hs
    rename_i hg
    exact h.serve hm fun i => h.gate_keeps hg
  | completeTlsPinRotation =>
    split at hs <;> cases hs
    exact ⟨h.agents,h.unserved,h.genuine,h.served,nofun,
      nofun,h.unrecorded⟩
  | deleteActive =>
    split at hs <;> cases hs
    refine ⟨h.agents,fun hl => ⟨rfl,(h.unserved hl).2⟩,nofun,
      fun i hi served hserved => ?_,
      h.advertised,h.converged,h.unrecorded⟩
    have hsame : servedTrustPolicy pki w = some served := by
      rw [←hserved]
      have hne : w.activeRow ≠ some .letsencrypt := hm
      simp [servedTrustPolicy,hne]
    exact h.served i hi served hsame
  | readHello i report =>
    split at hs <;> cases hs
    rename_i hi
    exact h.hello (Active.known hi.2) _
  | commitHello i report state =>
    split at hs
    · rename_i hi
      have hknown := h.known (List.ne_nil_of_mem hi)
      have hrest : Sound pki opts digest
          {w with hellos := update w.hellos i ((w.hellos i).erase (report,state))} :=
        h.hello hknown _
      have hrecorded := hrest.recorded hdigest hm hknown
      cases hs
      cases state with
      | none => exact hrecorded
      | some state => exact hrecorded.sent i state
    · cases hs
  | heartbeat i report =>
    split at hs
    · rename_i hi
      have hrest : Sound pki opts digest
          {w with reports := update w.reports i ((w.reports i).erase report)} :=
        ⟨h.agents,h.unserved,h.genuine,h.served,h.advertised,h.converged,h.unrecorded⟩
      cases hs
      exact hrest.recorded hdigest hm (Active.known hi.2.1)
    · cases hs

theorem agentStep_sound (h : Sound pki opts digest w) {i : ι} {event : Event Cert}
    (hm : Meets pki opts digest w (.agent i event)) {frames : List TLSPinRotatePayload}
    (ha : w.Allows i event frames) {s : Agent Cert}
    (hs : AgentLink.TlsTrust.Step pki (opts i) (w.agents i) event s)
    (kind : ι → Option PinKind) :
    Sound pki opts digest {w with
      agents := update w.agents i s
      pinKind := kind
      frames := update w.frames i frames} := by
  have hsound := h.agents i
  refine ⟨fun j => ?_,h.unserved,h.genuine,fun j hj served hserved => ?_,h.advertised,
    fun j hj state hr hconv => ?_,h.unrecorded⟩
  · by_cases hji : j = i
    · subst hji
      simpa using step_sound _ _ _ hsound hs
    · simpa [hji] using h.agents j
  · have hkeeps := h.served j hj served hserved
    by_cases hji : j = i
    · subst hji
      have hstep : Keeps (opts j) s (trustPolicy served) := by
        refine step_keeps hsound hs hkeeps ?_ ?_
        · rintro offers conn rfl hd hp
          exact h.dial_current hserved ha.1 hm hd hp
        · rintro payload state rfl hstate
          exact (hm hj state hstate).served served hserved
      simpa using hstep
    · simpa [hji] using hkeeps
  · have hholds := h.converged j hj state hr hconv
    by_cases hji : j = i
    · subst hji
      have hstep : Holds (opts j) s (trustPolicy state.successor) := by
        refine step_holds hsound hs hholds ?_
        rintro payload successor rfl hstate
        exact (hm hj successor hstate).converged state hr hconv
      simpa using hstep
    · simpa [hji] using hholds

theorem worldStep_sound (hdigest : Function.Injective digest) (w : World Cert ι) (act : Act Cert ι)
    (w' : World Cert ι) (h : Sound pki opts digest w)
    (hs : Guarded (Step pki opts digest) (Meets pki opts digest) w act w') :
    Sound pki opts digest w' := by
  obtain ⟨hm,hs⟩ := hs
  cases hs with
  | server hs => exact serverStep_sound hdigest h hm hs
  | agent i ha hs => exact agentStep_sound h hm ha hs _
  | hello i hl | beat i hl =>
    exact ⟨h.agents,h.unserved,h.genuine,h.served,h.advertised,h.converged,h.unrecorded⟩

/-- The agent's next dial reaches a server that presents the certificate. -/
def Accepts (pki : Pki Cert) (opts : ι → Options) (w : World Cert ι) (i : ι) (cert : Cert) : Prop :=
  (dialWithTrust pki (opts i) (w.agents i).files (.certificate cert)
    (.certificate cert)).isSome = true

instance (w : World Cert ι) (i : ι) (cert : Cert) : Decidable (Accepts pki opts w i cert) :=
  inferInstanceAs (Decidable (_ = true))

/-- The gate is sound along every run that meets the condition: where it has no reason
against a certificate, every active agent's next dial accepts it, and every active agent
goes on accepting the certificate served. -/
theorem activation_gate_sound (hdigest : Function.Injective digest) {acts : List (Act Cert ι)}
    (run : Run (Guarded (Step pki opts digest) (Meets pki opts digest)) .fresh acts w) :
    (∀ cert, cert.Genuine pki → activationBlockReason pki digest w cert = none →
      ∀ i, Active w i → Accepts pki opts w i cert.certPem) ∧
    ∀ leaf, w.live = some leaf → ∀ i, Active w i → Accepts pki opts w i leaf := by
  have h := run.invariant (worldStep_sound hdigest) (fresh_sound pki opts digest)
  constructor
  · intro cert hgenuine hgate i hi
    exact (h.gate_keeps hgate hi).accepts (h.agents i)
      (tlsPolicyForCertificate_satisfied hgenuine)
  · intro leaf hl i hi
    have hs : ∃ served, servedTrustPolicy pki w = some served := by
      simp [servedTrustPolicy,hl]
    obtain ⟨served,hs⟩ := hs
    exact (h.served i hi served hs).accepts (h.agents i) (h.satisfied hl hs)

theorem Step.of (act : ServerAct Cert ι) (h : next pki digest w act = some w') :
    Step pki opts digest w (.server act) w' := .server h

theorem Step.own (i : ι) (event : Event Cert) (frames : List TLSPinRotatePayload) {s : Agent Cert}
    (hs : AgentLink.TlsTrust.Step pki (opts i) (w.agents i) event s)
    (ha : w.Allows i event frames) :
    Step pki opts digest w (.agent i event) {w with
      agents := update w.agents i s
      pinKind := update w.pinKind i
        (kindAfter (opts i) (w.agents i) (w.pinKind i) event)
      frames := update w.frames i frames} := .agent i ha hs

/-- The only agent, pinned to `old`, has been told of `new` and has reported it: the gate
lets `new` through. -/
theorem activation_gate_sound_told :
    let pki : Pki String := ⟨id,fun _ => false⟩
    let opts : Unit → Options := fun _ => ⟨"old",true⟩
    ∃ (acts : List (Act String Unit)) (w : World String Unit),
      Run (Guarded (Step pki opts id) (Meets pki opts id)) .fresh acts w ∧
      activationBlockReason pki id w ⟨.selfsigned,"new"⟩ = none ∧ Active w () ∧
      w.live = some "old" ∧ Accepts pki opts w () "new" := by
  intro pki opts
  let dialled : Offers String := ⟨.certificate "old",.unreachable⟩
  let state : TLSPinRotationState := ⟨⟨.selfSigned,"new"⟩,0,604800⟩
  let report : Report := ⟨none,true,some (policyFingerprint id .selfSigned "new")⟩
  have start : Run (Guarded (Step pki opts id) (Meets pki opts id)) (.fresh : World String Unit) []
    .fresh := .nil _
  have approved := ((start.also
    (.of (.boot "old") rfl) trivial).also
    (.of (.enroll ()) rfl) trivial).also
    (.of (.approve ()) rfl) ⟨_,rfl,.inr ⟨rfl,fun ⟨_,_,h,_⟩ => h⟩⟩
  have linked := ((approved.also
    (.own () (.dial dialled) [] (.reached _ _ ⟨some "old",some 0⟩ rfl rfl) ⟨rfl,trivial,rfl⟩)
      (.inl rfl)).also
    (.own () (.handshake true) [] (.verified _ _ _ rfl) rfl) trivial).also
    (.own () .promote [] (.promote _ _ _ rfl) rfl) trivial
  have announced := (linked.also
    (.of (.startTlsPinRotation ⟨.selfsigned,"new"⟩ 0 604800) rfl) (fun _ _ h => by cases h)).also
    (.of (.broadcastTlsPinRotate state ()) rfl) trivial
  have told := announced.also
    (.own () (.rotate (some state.payload)) [] (.rotate _ _ ⟨.selfSigned,"new",604800⟩ rfl rfl)
      ⟨[],state.payload,[],rfl,rfl,rfl⟩)
    (fun _ successor h => ⟨fun _ hs => .inl (by cases hs; rfl),fun _ hr => by cases hr; cases h; intro; rfl⟩)
  have reported := (told.also (.beat () rfl) trivial).also
    (.of (.heartbeat () report) rfl) (fun _ h => h)
  have hgenuine : (⟨.selfsigned,"new"⟩ : Certificate String).Genuine pki := fun h => by cases h
  exact ⟨_,_,reported,rfl,by decide,rfl,
    (activation_gate_sound injective_id reported).1 _ hgenuine rfl () (by decide)⟩

/-- Every agent has reported `new` and it is activated; the next rotation starts while an
agent is still on its old connection, and takes the place of `new` in its rotation file. The
gate sees no trust change in the certificate already served, which the agent refuses. -/
theorem next_rotation_drops_served_certificate :
    let pki : Pki String := ⟨id,fun _ => false⟩
    let opts : Unit → Options := fun _ => ⟨"old",true⟩
    ∃ (acts : List (Act String Unit)) (w : World String Unit),
      Run (Step pki opts id) .fresh acts w ∧
      activationBlockReason pki id w ⟨.selfsigned,"new"⟩ = none ∧
      (⟨.selfsigned,"new"⟩ : Certificate String).Genuine pki ∧ Active w () ∧
      w.live = some "new" ∧ ¬Accepts pki opts w () "new" := by
  intro pki opts
  let dialled : Offers String := ⟨.certificate "old",.unreachable⟩
  let state : TLSPinRotationState := ⟨⟨.selfSigned,"new"⟩,0,604800⟩
  let later : TLSPinRotationState := ⟨⟨.selfSigned,"third"⟩,1,604801⟩
  let report : Report := ⟨none,true,some (policyFingerprint id .selfSigned "new")⟩
  have start : Run (Step pki opts id) (.fresh : World String Unit) [] .fresh := .nil _
  have linked := (((((start.snoc
    (.of (.boot "old") rfl)).snoc
    (.of (.enroll ()) rfl)).snoc
    (.of (.approve ()) rfl)).snoc
    (.own () (.dial dialled) [] (.reached _ _ ⟨some "old",some 0⟩ rfl rfl) ⟨rfl,trivial,rfl⟩)).snoc
    (.own () (.handshake true) [] (.verified _ _ _ rfl) rfl)).snoc
    (.own () .promote [] (.promote _ _ _ rfl) rfl)
  have told := (((((linked.snoc
    (.of (.startTlsPinRotation ⟨.selfsigned,"new"⟩ 0 604800) rfl)).snoc
    (.of (.broadcastTlsPinRotate state ()) rfl)).snoc
    (.own () (.rotate (some state.payload)) [] (.rotate _ _ ⟨.selfSigned,"new",604800⟩ rfl rfl)
      ⟨[],state.payload,[],rfl,rfl,rfl⟩)).snoc
    (.beat () rfl)).snoc
    (.of (.heartbeat () report) rfl))
  have served := ((told.snoc
    (.of (.activate ⟨.selfsigned,"new"⟩ false) rfl)).snoc
    (.of .completeTlsPinRotation rfl)).snoc
    (.of .tick rfl)
  have replaced := ((served.snoc
    (.of (.startTlsPinRotation ⟨.selfsigned,"third"⟩ 1 604800) rfl)).snoc
    (.of (.broadcastTlsPinRotate later ()) rfl)).snoc
    (.own () (.rotate (some later.payload)) [] (.rotate _ _ ⟨.selfSigned,"third",604801⟩ rfl rfl)
      ⟨[],later.payload,[],rfl,rfl,rfl⟩)
  refine ⟨_,_,replaced,rfl,nofun,by decide,rfl,?_⟩
  decide

end StepLemmas

end CircuitBreaker.ActivationGate
