import CircuitBreaker.ProbeRuns

/-! First-run setup. A call that initializes locks the settings row, makes sure there is a
setup token, which may commit and drop the lock, locks again, compares the token and creates
or promotes the administrator; a status call makes sure of the token without any lock. Every
statement is a step, and a flush writes the columns that differ from what was loaded. -/

namespace CircuitBreaker.BootstrapSetup
open StepRuns Function
open ProbeRuns (written)

/-- The columns of the settings row that setup reads or writes; `H` stands for hashes. -/
structure AppSettings (H : Type) where
  authEnabled : Bool := false
  bootstrapTokenHash : Option H := none
  bootstrapTokenExpiresAt : Option Nat := none
  bootstrapTokenUsedAt : Option Nat := none

structure User where
  id : Nat
  email : String
  isAdmin : Bool
  deriving DecidableEq

/-- What an initialization does once its token is accepted: a new administrator, or the user
of an OAuth token, if the token names one. -/
inductive Kind where
  | password (email : String)
  | oauth (user : Option Nat)

inductive Refusal where
  | bootstrapDone | tokenRequired | tokenUnavailable (detail : String) | oauthInvalid | fault

def minBootstrapTokenLen : Nat := 16

section Model
variable {H : Type}

def AppSettings.bootstrapTokenExpired (cfg : AppSettings H) (now : Nat) : Bool :=
  match cfg.bootstrapTokenExpiresAt with
  | none => false
  | some expires => expires ≤ now

/-- Where a call to initialize stands; `supplied` is the token of its request, stripped. -/
inductive Stage where
  | idle
  | waiting (supplied : String) (kind : Kind)
  | locked (supplied : String) (kind : Kind)
  | unlocked (supplied : String) (kind : Kind)
  | relocked (supplied : String) (kind : Kind)
  | verified (supplied : String) (kind : Kind)
  | committed
  | refused (reason : Refusal)

structure World (H : Type) where
  settings : AppSettings H := {}
  users : List User := []
  nextId : Nat := 0
  now : Nat := 0
  lock : Option Nat := none
  stage : Nat → Stage := fun _ => .idle
  status : Nat → Option (AppSettings H × AppSettings H) := fun _ => none
  /-- The hashes of the tokens that initializations committed with, and of those that were on
  the row when their time ran out; kept for the statement, read by nothing. -/
  accepted : List H := []
  lapsed : List H := []

inductive Act where
  | begin (c : Nat) (supplied : String) (kind : Kind)
  | lock (c : Nat)
  | ensure (c : Nat) (generated : Option String)
  | relock (c : Nat)
  | verify (c : Nat)
  | finish (c : Nat)
  | fault (c : Nat)
  | statusLoad (s : Nat) (generated : Option String)
  | statusWrite (s : Nat)
  | tick (now : Nat)

def World.to (w : World H) (c : Nat) (stage : Stage) : World H :=
  {w with stage := update w.stage c stage}

def World.release (w : World H) (c : Nat) : World H :=
  {w with lock := if w.lock = some c then none else w.lock}

variable [DecidableEq H] (hash : String → H) (env : Option String) (ttl : Nat)

def shouldReplace (cfg : AppSettings H) (now : Nat) : Bool :=
  cfg.bootstrapTokenHash.isNone || cfg.bootstrapTokenUsedAt.isSome ||
    cfg.bootstrapTokenExpired now || env.isSome

/-- The token `ensure_bootstrap_token` stores: the environment's, or the generated one, which
is `none` where its file cannot be written. -/
def mint (generated : Option String) : Except String String :=
  match env,generated with
  | some token,_ =>
    if token.length < minBootstrapTokenLen then
      .error "CB_SETUP_TOKEN must be at least 16 characters"
    else .ok token
  | none,some token => .ok token
  | none,none => .error "Unable to write the bootstrap setup token file"

def AppSettings.arm (cfg : AppSettings H) (token : String) (now : Nat) : AppSettings H :=
  {cfg with
    bootstrapTokenHash := some (hash token)
    bootstrapTokenExpiresAt := some (now+ttl)
    bootstrapTokenUsedAt := none}

def AppSettings.flush (loaded changed current : AppSettings H) : AppSettings H where
  authEnabled := written loaded.authEnabled changed.authEnabled current.authEnabled
  bootstrapTokenHash :=
    written loaded.bootstrapTokenHash changed.bootstrapTokenHash current.bootstrapTokenHash
  bootstrapTokenExpiresAt := written loaded.bootstrapTokenExpiresAt changed.bootstrapTokenExpiresAt
    current.bootstrapTokenExpiresAt
  bootstrapTokenUsedAt :=
    written loaded.bootstrapTokenUsedAt changed.bootstrapTokenUsedAt current.bootstrapTokenUsedAt

def AppSettings.accepts (cfg : AppSettings H) (supplied : String) (now : Nat) : Bool :=
  supplied ≠ "" && !cfg.bootstrapTokenExpired now && cfg.bootstrapTokenHash = some (hash supplied)

def initialized (users : List User) (nextId : Nat) : Kind → Option (List User)
  | .password email => some [⟨nextId,email,true⟩]
  | .oauth none => none
  | .oauth (some id) =>
    if users.any fun user => user.id = id then
      some (users.map fun user => if user.id = id then {user with isAdmin := true} else user)
    else none

/-- The commit of an initialization: `auth_enabled` is set and the token consumed. -/
def World.complete (w : World H) (supplied : String) (users : List User) : World H :=
  {w with
    users := users
    nextId := w.nextId+1
    settings := {w.settings with
      authEnabled := true
      bootstrapTokenHash := none
      bootstrapTokenExpiresAt := none
      bootstrapTokenUsedAt := some w.now}
    accepted := hash supplied::w.accepted}

def next (w : World H) : Act → Option (World H)
  | .begin c supplied kind =>
    match w.stage c with
    | .idle => some (w.to c (.waiting supplied kind))
    | _ => none
  | .lock c =>
    match w.stage c,w.lock with
    | .waiting supplied kind,none =>
      if w.settings.authEnabled then some (w.to c (.refused .bootstrapDone))
      else
        let held : World H := {w with lock := some c}
        some (held.to c (.locked supplied kind))
    | _,_ => none
  | .ensure c generated =>
    match w.stage c with
    | .locked supplied kind =>
      if shouldReplace env w.settings w.now then
        match mint env generated with
        | .error detail => some ((w.release c).to c (.refused (.tokenUnavailable detail)))
        | .ok token =>
          let armed : World H := {w with settings := w.settings.arm hash ttl token w.now}
          some ((armed.release c).to c (.unlocked supplied kind))
      else some (w.to c (.relocked supplied kind))
    | _ => none
  | .relock c =>
    match w.stage c,w.lock with
    | .unlocked supplied kind,none =>
      let held : World H := {w with lock := some c}
      some (held.to c (.relocked supplied kind))
    | _,_ => none
  | .verify c =>
    match w.stage c with
    | .relocked supplied kind =>
      if w.settings.accepts hash supplied w.now then some (w.to c (.verified supplied kind))
      else some ((w.release c).to c (.refused .tokenRequired))
    | _ => none
  | .finish c =>
    match w.stage c with
    | .verified supplied kind =>
      match initialized w.users w.nextId kind with
      | some users => some (((w.complete hash supplied users).release c).to c .committed)
      | none => some ((w.release c).to c (.refused .oauthInvalid))
    | _ => none
  | .fault c =>
    match w.stage c with
    | .idle | .committed | .refused _ => none
    | _ => some ((w.release c).to c (.refused .fault))
  | .statusLoad s generated =>
    if w.settings.authEnabled ∨ ¬ shouldReplace env w.settings w.now then some w
    else
      match mint env generated with
      | .error _ => some w
      | .ok token =>
        let changed := w.settings.arm hash ttl token w.now
        some {w with status := update w.status s (some (w.settings,changed))}
  | .statusWrite s =>
    match w.status s,w.lock with
    | some (loaded,changed),none =>
      some {w with
        settings := loaded.flush changed w.settings
        status := update w.status s none}
    | _,_ => none
  | .tick now =>
    if w.now ≤ now then
      some {w with
        now := now
        lapsed :=
          match w.settings.bootstrapTokenHash with
          | some h => if w.settings.bootstrapTokenExpired now then h::w.lapsed else w.lapsed
          | none => w.lapsed}
    else none

def Step (w : World H) (act : Act) (w' : World H) : Prop := next hash env ttl w act = some w'

/-- When the token is compared, setup is still open; and no token is armed again whose time
has run out. -/
def Timely (w : World H) : Act → Prop
  | .verify c => ∀ supplied kind, w.stage c = .relocked supplied kind →
    w.settings.accepts hash supplied w.now = true → w.settings.authEnabled = false
  | .ensure c generated => ∀ supplied kind token, w.stage c = .locked supplied kind →
    shouldReplace env w.settings w.now = true → mint env generated = .ok token →
      hash token ∉ w.lapsed
  | .statusWrite s => ∀ loaded changed h, w.status s = some (loaded,changed) →
    (loaded.flush changed w.settings).bootstrapTokenHash = some h → h ∉ w.lapsed
  | _ => True

structure OneSetup (w : World H) (act : Act) (w' : World H) : Prop where
  closed : w.settings.authEnabled = true →
    w'.users = w.users ∧ w'.settings.authEnabled = true ∧ w'.accepted = w.accepted
  token : ∀ c supplied kind, w.stage c = .relocked supplied kind →
    w'.stage c = .verified supplied kind → hash supplied ∉ w.accepted ∧ hash supplied ∉ w.lapsed
  failed : (w'.users ≠ w.users ∨ w'.settings.authEnabled ≠ w.settings.authEnabled) →
    ∃ c, act = .finish c ∧ w'.stage c = .committed
  ended : ∀ c, w.stage c = .committed → w'.stage c = .committed

end Model

section Proofs
variable {H : Type} {w w' w₁ : World H} {c : Nat}

def Placed (w : World H) (c : Nat) : Stage → Prop
  | .locked _ _ | .verified _ _ => w.lock = some c ∧ w.settings.authEnabled = false
  | .relocked _ _ => w.lock = some c
  | _ => True

variable {stage : Stage} {act : Act} {now : Nat}

theorem Placed.mono (h : Placed w c stage)
    (kept : w.lock = some c → w'.lock = some c ∧ w'.settings.authEnabled = w.settings.authEnabled) :
    Placed w' c stage := by
  cases stage with
  | locked | verified => exact ⟨(kept h.1).1,(kept h.1).2.trans h.2⟩
  | relocked => exact (kept h).1
  | _ => trivial

structure Sound (w : World H) : Prop where
  placed : ∀ c, Placed w c (w.stage c)
  status : ∀ s loaded changed, w.status s = some (loaded,changed) →
    changed.authEnabled = loaded.authEnabled
  unused : w.settings.authEnabled = false → w.accepted = []
  once : w.accepted.length ≤ 1
  lapsed : ∀ h ∈ w.lapsed, w.settings.bootstrapTokenHash = some h →
    w.settings.bootstrapTokenExpired w.now = true

theorem sound_start (users : List User) (nextId : Nat) :
    Sound ({users := users, nextId := nextId} : World H) where
  placed := fun _ => trivial
  status := fun _ _ _ h => nomatch h
  unused := fun _ => rfl
  once := Nat.zero_le _
  lapsed := fun _ h => nomatch h

theorem Sound.move (h : Sound w) (stages : w₁.stage = w.stage)
    (respects : ∀ e, e ≠ c → w.lock = some e →
      w₁.lock = some e ∧ w₁.settings.authEnabled = w.settings.authEnabled)
    (placed : Placed w₁ c stage) (status : w₁.status = w.status)
    (unused : w₁.settings.authEnabled = false → w₁.accepted = []) (once : w₁.accepted.length ≤ 1)
    (lapsed : ∀ h ∈ w₁.lapsed, w₁.settings.bootstrapTokenHash = some h →
      w₁.settings.bootstrapTokenExpired w₁.now = true) : Sound (w₁.to c stage) where
  placed := by
    intro e
    change Placed w₁ e (update w₁.stage c stage e)
    by_cases he : e = c
    · subst he
      rw [update_self]
      exact placed
    · rw [update_of_ne he,stages]
      exact (h.placed e).mono (respects e he)
  status := fun s loaded changed hs => h.status s loaded changed (status ▸ hs)
  unused := unused
  once := once
  lapsed := lapsed

theorem Sound.to (h : Sound w) (placed : Placed w c stage) : Sound (w.to c stage) :=
  h.move rfl (fun _ _ hl => ⟨hl,rfl⟩) placed rfl h.unused h.once h.lapsed

theorem Sound.hold (h : Sound w) (free : w.lock = none)
    (placed : Placed {w with lock := some c} c stage) :
    Sound (World.to {w with lock := some c} c stage) := by
  refine h.move rfl (fun e _ hl => ?_) placed rfl h.unused h.once h.lapsed
  rw [free] at hl
  cases hl

theorem release_other {e : Nat} (ne : e ≠ c) (h : w.lock = some e) :
    (w.release c).lock = some e := by
  simp only [World.release,h,Option.some.injEq,ne,if_false]

theorem Sound.leave (h : Sound w) (placed : ∀ v : World H, Placed v c stage) :
    Sound ((w.release c).to c stage) :=
  h.move rfl (fun _ he hl => ⟨release_other he hl,rfl⟩) (placed _) rfl h.unused h.once h.lapsed

variable {hash : String → H} {env : Option String} {ttl : Nat}

theorem OneSetup.quiet (users : w₁.users = w.users)
    (auth : w₁.settings.authEnabled = w.settings.authEnabled) (accepted : w₁.accepted = w.accepted)
    (stages : w₁.stage = w.stage) (before : w.stage c ≠ .committed)
    (after : ∀ supplied kind, stage ≠ .verified supplied kind) :
    OneSetup hash w act (w₁.to c stage) where
  closed := fun closed => ⟨users,auth.trans closed,accepted⟩
  token := by
    intro e supplied kind hr hv
    change update w₁.stage c stage e = _ at hv
    by_cases he : e = c
    · rw [he,update_self] at hv
      exact absurd hv (after _ _)
    · rw [update_of_ne he,stages,hr] at hv
      cases hv
  failed := by
    rintro (changed | changed)
    · exact absurd users changed
    · exact absurd auth changed
  ended := by
    intro e he
    have ne : e ≠ c := fun eq => before (eq ▸ he)
    change update w₁.stage c stage e = _
    rw [update_of_ne ne,stages]
    exact he

theorem OneSetup.shared (users : w₁.users = w.users)
    (auth : w₁.settings.authEnabled = w.settings.authEnabled) (accepted : w₁.accepted = w.accepted)
    (stages : w₁.stage = w.stage) : OneSetup hash w act w₁ where
  closed := fun closed => ⟨users,auth.trans closed,accepted⟩
  token := by
    intro e supplied kind hr hv
    rw [stages,hr] at hv
    cases hv
  failed := by
    rintro (changed | changed)
    · exact absurd users changed
    · exact absurd auth changed
  ended := fun e he => stages ▸ he

theorem arm_lapsed {cfg : AppSettings H} {token : String} {lapsed : List H}
    (fresh : hash token ∉ lapsed) : ∀ h ∈ lapsed,
      (cfg.arm hash ttl token now).bootstrapTokenHash = some h →
      (cfg.arm hash ttl token now).bootstrapTokenExpired now = true := by
  intro h hm eq
  exact absurd (Option.some.inj eq ▸ hm) fresh

variable [DecidableEq H]

attribute [local simp] next

theorem step_ensure {generated : Option String} (h : Sound w)
    (hm : Timely hash env w (.ensure c generated))
    (step : Step hash env ttl w (.ensure c generated) w') :
    Sound w' ∧ OneSetup hash w (.ensure c generated) w' := by
  unfold Step at step
  simp only [next] at step
  split at step
  case h_1 supplied kind hs =>
    obtain ⟨held,openSetup⟩ : Placed w c (.locked supplied kind) := hs ▸ h.placed c
    have before : w.stage c ≠ .committed := by rw [hs]; exact nofun
    split at step
    case isTrue replace =>
      split at step
      · cases step
        exact ⟨h.leave fun _ => trivial,.quiet rfl rfl rfl rfl before nofun⟩
      case h_2 token minted =>
        cases step
        have fresh := hm supplied kind token hs replace minted
        refine ⟨?_,.quiet rfl rfl rfl rfl before nofun⟩
        refine h.move rfl (fun e he hl => ?_) trivial rfl h.unused h.once (arm_lapsed fresh)
        rw [held] at hl
        exact absurd (Option.some.inj hl).symm he
    case isFalse =>
      cases step
      exact ⟨h.to held,.quiet rfl rfl rfl rfl before nofun⟩
  case h_2 => cases step

theorem accepts_iff {cfg : AppSettings H} {supplied : String} :
    cfg.accepts hash supplied now = true ↔ supplied ≠ "" ∧ cfg.bootstrapTokenExpired now = false ∧
      cfg.bootstrapTokenHash = some (hash supplied) := by
  simp [AppSettings.accepts,and_assoc]

theorem step_verify (h : Sound w) (hm : Timely hash env w (.verify c))
    (step : Step hash env ttl w (.verify c) w') :
    Sound w' ∧ OneSetup hash w (.verify c) w' := by
  unfold Step at step
  simp only [next] at step
  split at step
  case h_1 supplied kind hs =>
    have held : Placed w c (.relocked supplied kind) := hs ▸ h.placed c
    have before : w.stage c ≠ .committed := by rw [hs]; exact nofun
    split at step
    case isTrue accepts =>
      cases step
      have openSetup := hm supplied kind hs accepts
      obtain ⟨_,current,stored⟩ := accepts_iff.mp accepts
      refine ⟨h.to ⟨held,openSetup⟩,⟨fun closed => ?_,fun e s k hr hv => ?_,?_,fun e he => ?_⟩⟩
      · rw [openSetup] at closed
        cases closed
      · have same : e = c := by
          by_contra ne
          change update w.stage c _ e = _ at hv
          rw [update_of_ne ne,hr] at hv
          cases hv
        subst same
        rw [hs] at hr
        cases hr
        refine ⟨by rw [h.unused openSetup]; exact List.not_mem_nil,fun lapsed => ?_⟩
        rw [h.lapsed _ lapsed stored] at current
        cases current
      · rintro (changed | changed)
        · exact absurd rfl changed
        · exact absurd rfl changed
      · have ne : e ≠ c := fun eq => before (eq ▸ he)
        exact (update_of_ne ne _ _).trans he
    case isFalse =>
      cases step
      exact ⟨h.leave fun _ => trivial,.quiet rfl rfl rfl rfl before nofun⟩
  case h_2 => cases step

theorem step_finish (h : Sound w) (step : Step hash env ttl w (.finish c) w') :
    Sound w' ∧ OneSetup hash w (.finish c) w' := by
  unfold Step at step
  simp only [next] at step
  split at step
  case h_1 supplied kind hs =>
    obtain ⟨held,openSetup⟩ : Placed w c (.verified supplied kind) := hs ▸ h.placed c
    have before : w.stage c ≠ .committed := by rw [hs]; exact nofun
    split at step
    case h_1 users _ =>
      cases step
      have committed : (((w.complete hash supplied users).release c).to c .committed).stage c =
          .committed := update_self ..
      refine ⟨?_,⟨fun closed => ?_,fun e s k hr hv => ?_,fun _ => ⟨c,rfl,committed⟩,fun e he => ?_⟩⟩
      · refine h.move rfl (fun e he hl => ?_) trivial rfl nofun ?_
          nofun
        · rw [held] at hl
          exact absurd (Option.some.inj hl).symm he
        · change (hash supplied::w.accepted).length ≤ 1
          rw [h.unused openSetup]
          exact Nat.le_refl 1
      · rw [openSetup] at closed
        cases closed
      · by_cases eq : e = c
        · rw [eq,committed] at hv
          cases hv
        · change update w.stage c _ e = _ at hv
          rw [update_of_ne eq,hr] at hv
          cases hv
      · have ne : e ≠ c := fun eq => before (eq ▸ he)
        exact (update_of_ne ne _ _).trans he
    case h_2 =>
      cases step
      exact ⟨h.leave fun _ => trivial,.quiet rfl rfl rfl rfl before nofun⟩
  case h_2 => cases step

theorem written_same {α : Type} [DecidableEq α] {loaded value current : α} (h : value = loaded) :
    written loaded value current = current := if_pos h

theorem step_status {s : Nat} (h : Sound w) (hm : Timely hash env w (.statusWrite s))
    (step : Step hash env ttl w (.statusWrite s) w') :
    Sound w' ∧ OneSetup hash w (.statusWrite s) w' := by
  unfold Step at step
  simp only [next] at step
  split at step <;> cases step
  rename_i loaded changed hs free
  have auth : (loaded.flush changed w.settings).authEnabled = w.settings.authEnabled :=
    written_same (h.status s loaded changed hs)
  refine ⟨⟨fun e => (h.placed e).mono fun hl => ?_,fun t l c ht => ?_,?_,h.once,fun k hk stored => ?_⟩,
    .shared rfl auth rfl rfl⟩
  · rw [free] at hl
    cases hl
  · by_cases eq : t = s
    · rw [eq] at ht
      change update w.status s none s = _ at ht
      rw [update_self] at ht
      cases ht
    · change update w.status s none t = _ at ht
      rw [update_of_ne eq] at ht
      exact h.status t l c ht
  · intro openSetup
    exact h.unused (auth.symm.trans openSetup)
  · exact absurd hk (hm loaded changed k hs stored)

theorem step_tick (h : Sound w) (step : Step hash env ttl w (.tick now) w') :
    Sound w' ∧ OneSetup hash w (.tick now) w' := by
  unfold Step at step
  simp only [next] at step
  split at step <;> cases step
  rename_i later
  have grown : w.settings.bootstrapTokenExpired w.now = true →
      w.settings.bootstrapTokenExpired now = true := by
    simp only [AppSettings.bootstrapTokenExpired]
    split
    · exact id
    · simp only [decide_eq_true_eq]
      omega
  refine ⟨⟨fun e => (h.placed e).mono fun hl => ⟨hl,rfl⟩,h.status,h.unused,h.once,?_⟩,
    .shared rfl rfl rfl rfl⟩
  intro k hk stored
  change w.settings.bootstrapTokenHash = some k at stored
  change w.settings.bootstrapTokenExpired now = true
  simp only [stored] at hk
  split at hk
  case isTrue expired => exact expired
  case isFalse => exact grown (h.lapsed k hk stored)

theorem step_setup (h : Sound w) (hm : Timely hash env w act)
    (step : Step hash env ttl w act w') : Sound w' ∧ OneSetup hash w act w' := by
  cases act with unfold Step at step
  | ensure c generated => exact step_ensure h hm step
  | verify c => exact step_verify h hm step
  | finish c => exact step_finish h step
  | statusWrite s => exact step_status h hm step
  | tick now => exact step_tick h step
  | begin c supplied kind =>
    simp only [next] at step
    split at step <;> cases step
    rename_i hs
    exact ⟨h.to trivial,.quiet rfl rfl rfl rfl (by rw [hs]; exact nofun) nofun⟩
  | lock c =>
    simp only [next] at step
    split at step
    case h_1 supplied kind hs free =>
      have before : w.stage c ≠ .committed := by rw [hs]; exact nofun
      split at step
      case isTrue =>
        cases step
        exact ⟨h.to trivial,.quiet rfl rfl rfl rfl before nofun⟩
      case isFalse openSetup =>
        cases step
        exact ⟨h.hold free ⟨rfl,by simpa using openSetup⟩,.quiet rfl rfl rfl rfl before nofun⟩
    case h_2 => cases step
  | relock c =>
    simp only [next] at step
    split at step <;> cases step
    rename_i supplied kind hs free
    exact ⟨h.hold free rfl,.quiet rfl rfl rfl rfl (by rw [hs]; exact nofun) nofun⟩
  | fault c =>
    simp only [next] at step
    split at step
    · cases step
    · cases step
    · cases step
    case h_4 _ before _ =>
      cases step
      exact ⟨h.leave fun _ => trivial,.quiet rfl rfl rfl rfl before nofun⟩
  | statusLoad s generated =>
    simp only [next] at step
    split at step
    · cases step
      exact ⟨h,.shared rfl rfl rfl rfl⟩
    · split at step
      · cases step
        exact ⟨h,.shared rfl rfl rfl rfl⟩
      · cases step
        refine ⟨⟨h.placed,fun t l changed ht => ?_,h.unused,h.once,h.lapsed⟩,.shared rfl rfl rfl rfl⟩
        by_cases eq : t = s
        · rw [eq] at ht
          change update w.status s _ s = _ at ht
          rw [update_self] at ht
          cases ht
          rfl
        · change update w.status s _ t = _ at ht
          rw [update_of_ne eq] at ht
          exact h.status t l changed ht

/-- While setup is not completed between the two locks of a call and no expired token is armed
again, one initialization commits, its token was neither used nor expired, and once it has
committed no call touches the users. -/
theorem setup_once {users : List User} {nextId : Nat} {es : List Act}
    (run : Run (Guarded (Step hash env ttl) (Timely hash env)) {users := users, nextId := nextId} es w) :
    w.accepted.length ≤ 1 ∧ ∀ act w', Guarded (Step hash env ttl) (Timely hash env) w act w' →
      OneSetup hash w act w' := by
  have sound : Sound w :=
    run.invariant (I := Sound) (fun _ _ _ h hs => (step_setup h hs.1 hs.2).1)
      (sound_start users nextId)
  exact ⟨sound.once,fun act w' hs => (step_setup sound hs.1 hs.2).2⟩

end Proofs

/-! A token of the environment, with hashes that are the tokens themselves. -/

def setupToken : String := "0123456789abcdef"

theorem Step.of {w w' : World String} (act : Act)
    (h : next id (some setupToken) 24 w act = some w') : Step id (some setupToken) 24 w act w' := h

theorem setup_once_completed : ∃ es w,
    Run (Guarded (Step id (some setupToken) 24) (Timely id (some setupToken)))
      ({} : World String) es w ∧ w.users = [⟨0,"a@b.c",true⟩] ∧ w.accepted.length ≤ 1 ∧
    ∀ act w', Guarded (Step id (some setupToken) 24) (Timely id (some setupToken)) w act w' →
      OneSetup id w act w' := by
  have start : Run (Guarded (Step id (some setupToken) 24) (Timely id (some setupToken)))
      ({} : World String) [] {} := .nil _
  have armed := ((start.also (.of (.begin 0 setupToken (.password "a@b.c")) rfl) trivial).also
    (.of (.lock 0) rfl) trivial).also
    (.of (.ensure 0 none) rfl) fun _ _ _ _ _ _ => List.not_mem_nil
  have run := ((armed.also (.of (.relock 0) rfl) trivial).also
    (.of (.verify 0) rfl) fun _ _ _ _ => rfl).also
    (.of (.finish 0) rfl) trivial
  exact ⟨_,_,run,rfl,setup_once run⟩

/-- A status call loads the row before any token is on it, a call waits between its locks, the
first administrator is created, the status call puts the consumed token back, and the call
that waited deletes the administrator. -/
theorem first_admin_deleted : ∃ es w act w',
    Run (Step id (some setupToken) 24) ({} : World String) es w ∧
      Step id (some setupToken) 24 w act w' ∧ ¬ OneSetup id w act w' := by
  have start : Run (Step id (some setupToken) 24) ({} : World String) [] {} := .nil _
  have waiting := (((start.snoc (.of (.statusLoad 0 none) rfl)).snoc
    (.of (.begin 1 setupToken (.password "b@b.c")) rfl)).snoc
    (.of (.lock 1) rfl)).snoc
    (.of (.ensure 1 none) rfl)
  have completed := (((((waiting.snoc (.of (.begin 0 setupToken (.password "a@b.c")) rfl)).snoc
    (.of (.lock 0) rfl)).snoc
    (.of (.ensure 0 none) rfl)).snoc
    (.of (.relock 0) rfl)).snoc
    (.of (.verify 0) rfl)).snoc
    (.of (.finish 0) rfl)
  have again := ((completed.snoc (.of (.statusWrite 0) rfl)).snoc (.of (.relock 1) rfl)).snoc
    (.of (.verify 1) rfl)
  refine ⟨_,_,.finish 1,_,again,.of (.finish 1) rfl,fun setup => ?_⟩
  obtain ⟨users,_⟩ := setup.closed rfl
  exact absurd users (by decide)

end CircuitBreaker.BootstrapSetup
