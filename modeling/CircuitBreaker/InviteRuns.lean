import CircuitBreaker.StepRuns
import Mathlib.Logic.Function.Basic

/-! What becomes of one invite (`accept_invite`, `revoke_invite` and `consume_invite_for_oauth` of
services/user_service.py). Each call reads the status without a lock and writes it in a later statement. -/

namespace CircuitBreaker.InviteRuns
open StepRuns

/-- `str.strip` and `str.lower`. -/
structure Texts where
  strip : String → String
  lower : String → String

def Texts.normalize (t : Texts) (x : String) : String := t.lower (t.strip x)

structure Claims where
  email : String
  role : String

structure Invite where
  email : String
  role : String
  claims : Claims

def validRoles : List String := ["admin","editor","viewer"]

def createInvite (t : Texts) (email role : String) : Option Invite :=
  if role ∈ validRoles then some ⟨t.normalize email,role,⟨t.normalize email,role⟩⟩ else none

/-- `accept_invite`, `consume_invite_for_oauth` with the email of the OAuth account, `revoke_invite`. -/
inductive Kind where
  | accept
  | oauth (email : String)
  | revoke

inductive Final where
  | accepted
  | revoked
  | expired
  deriving DecidableEq

inductive Status where
  | pending
  | final (f : Final)
  deriving DecidableEq

/-- Where a call is: it has read the row as pending, it is about to write a status, its INSERT of the
account is made, or its UPDATE of the row; what it has made is not committed. -/
inductive Phase where
  | read (expires : Int)
  | writing (f : Final)
  | inserted
  | updated (f : Final)

structure Call where
  kind : Kind
  phase : Phase

/-- What a call that committed has done: the account it creates or the sign-in it lets go on has an
email and a role. -/
inductive Event where
  | consumed (by_ : Kind) (email role : String)
  | revoked
  | expired

def Event.final : Event → Final
  | .consumed _ _ _ => .accepted
  | .revoked => .revoked
  | .expired => .expired

variable {κ : Type} [DecidableEq κ]

/-- `taken`, whether an account has the email that accept_invite would create. `history`, what the calls
have committed, is kept for the statements. -/
structure State (κ : Type) where
  status : Status := .pending
  expires : Int
  now : Int := 0
  taken : Bool := false
  calls : κ → Option Call := fun _ => none
  history : List Event := []

inductive Act (κ : Type) where
  | begin_ (i : κ) (kind : Kind)
  | judge (i : κ)
  | insert (i : κ)
  | update (i : κ)
  | commit (i : κ)
  | fail (i : κ)
  | extend (expires : Int)
  | account (exists_ : Bool)
  | pass (d : Nat)

def State.put (s : State κ) (i : κ) (call : Call) : State κ :=
  { s with calls := Function.update s.calls i (some call) }

def State.leave (s : State κ) (i : κ) : State κ :=
  { s with calls := Function.update s.calls i none }

def Invite.admits (t : Texts) (inv : Invite) : Kind → Prop
  | .accept => inv.claims.email ≠ "" ∧ inv.claims.role ∈ validRoles
  | .oauth email => inv.claims.email ≠ "" ∧ inv.claims.role ∈ validRoles ∧
      t.lower inv.claims.email = t.normalize email
  | .revoke => True

/-- After the row was read as pending; a revocation does not look at `expires`. -/
def Kind.started (kind : Kind) (expires : Int) : Phase :=
  match kind with
  | .revoke => .writing .revoked
  | _ => .read expires

/-- The status that the next statement of a call writes. Only accept_invite inserts an account first. -/
def Call.next (call : Call) : Option Final :=
  match call.kind,call.phase with
  | .accept,.writing .accepted => none
  | _,.writing f => some f
  | _,.inserted => some .accepted
  | _,_ => none

def Call.inserts (call : Call) : Bool :=
  match call.kind,call.phase with
  | .accept,.inserted => true
  | .accept,.updated .accepted => true
  | _,_ => false

def Invite.event (t : Texts) (inv : Invite) (kind : Kind) : Final → Event
  | .accepted =>
    match kind with
    | .accept => .consumed kind (t.normalize inv.claims.email) inv.claims.role
    | _ => .consumed kind inv.claims.email inv.claims.role
  | .revoked => .revoked
  | .expired => .expired

def State.unlocked (s : State κ) (i : κ) : Prop :=
  ∀ j call f, s.calls j = some call → call.phase = .updated f → j = i

def State.noInsert (s : State κ) : Prop := ∀ j call, s.calls j = some call → call.inserts = false

inductive Step (t : Texts) (inv : Invite) : State κ → Act κ → State κ → Prop where
  | begun {s : State κ} {i : κ} {kind : Kind} (idle : s.calls i = none) (admitted : inv.admits t kind)
      (pending : s.status = .pending) :
      Step t inv s (.begin_ i kind) (s.put i ⟨kind,kind.started s.expires⟩)
  -- the invite is used, revoked or expired, or the token is not valid: nothing is written
  | refused {s : State κ} {i : κ} {kind : Kind} (idle : s.calls i = none) :
      Step t inv s (.begin_ i kind) s
  | judged {s : State κ} {i : κ} {call : Call} {expires : Int} (here : s.calls i = some call)
      (phase : call.phase = .read expires) :
      Step t inv s (.judge i)
        (s.put i { call with phase := .writing (if expires < s.now then .expired else .accepted) })
  | inserted {s : State κ} {i : κ} {call : Call} (here : s.calls i = some call)
      (kind : call.kind = .accept) (phase : call.phase = .writing .accepted) (free : s.taken = false)
      (alone : s.noInsert) :
      Step t inv s (.insert i) (s.put i { call with phase := .inserted })
  | updated {s : State κ} {i : κ} {call : Call} {f : Final} (here : s.calls i = some call)
      (next : call.next = some f) (unlocked : s.unlocked i) :
      Step t inv s (.update i) (s.put i { call with phase := .updated f })
  | committed {s : State κ} {i : κ} {call : Call} {f : Final} (here : s.calls i = some call)
      (phase : call.phase = .updated f) :
      Step t inv s (.commit i)
        { s.leave i with
          status := .final f
          taken := s.taken || call.inserts
          history := s.history ++ [inv.event t call.kind f] }
  -- an error, such as an email that is taken: the transaction is rolled back
  | failed {s : State κ} {i : κ} {call : Call} (here : s.calls i = some call) :
      Step t inv s (.fail i) (s.leave i)
  -- an administrator extends the invite, from the end that was read
  | extended {s : State κ} {expires : Int} (unlocked : ∀ j call f, s.calls j = some call →
        call.phase ≠ .updated f) :
      Step t inv s (.extend expires) { s with expires := expires }
  | account {s : State κ} {exists_ : Bool} (alone : s.noInsert) :
      Step t inv s (.account exists_) { s with taken := exists_ }
  | passed {s : State κ} {d : Nat} : Step t inv s (.pass d) { s with now := s.now+d }

/-- The row may be written with a status: it is pending still, or a revocation or an expiry is written
once more. -/
def Writable (status : Status) (f : Final) : Prop :=
  status = .pending ∨ status = .final f ∧ f ≠ .accepted

def StillPending (s : State κ) : Act κ → Prop
  | .update i => ∀ call f, s.calls i = some call → call.next = some f → Writable s.status f
  | _ => True

def Kind.Owns : Kind → Final → Prop
  | .revoke,f => f = .revoked
  | _,f => f = .accepted ∨ f = .expired

def Call.Fits (call : Call) : Prop :=
  match call.phase with
  | .read _ => call.kind ≠ .revoke
  | .writing f => call.kind.Owns f
  | .inserted => call.kind = .accept
  | .updated f => call.kind.Owns f

/-- A consumption has the email and the role of the invite, and an OAuth account has its email. -/
def Event.Fair (t : Texts) (inv : Invite) : Event → Prop
  | .consumed .accept email role => email = t.normalize inv.email ∧ role = inv.role
  | .consumed (.oauth account) email role =>
      email = inv.email ∧ role = inv.role ∧ t.normalize account = t.lower inv.email
  | .consumed .revoke _ _ => False
  | _ => True

structure Sound (t : Texts) (inv : Invite) (s : State κ) : Prop where
  agree : ∀ e ∈ s.history, s.status = .final e.final
  settled : s.status ≠ .pending → s.history ≠ []
  once : s.status = .final .accepted → s.history.length = 1
  fair : ∀ e ∈ s.history, e.Fair t inv
  fits : ∀ i call, s.calls i = some call → inv.admits t call.kind ∧ call.Fits
  held : ∀ i call f, s.calls i = some call → call.phase = .updated f → Writable s.status f
  sole : ∀ i j call other f g, s.calls i = some call → s.calls j = some other →
    call.phase = .updated f → other.phase = .updated g → i = j

variable {t : Texts} {inv : Invite}

theorem createInvite_claims {email role : String} (made : createInvite t email role = some inv) :
    inv.claims = ⟨inv.email,inv.role⟩ := by
  unfold createInvite at made
  split at made
  case isTrue => cases made; rfl
  case isFalse => exact nomatch made

theorem Kind.started_fits (kind : Kind) (expires : Int) : Call.Fits ⟨kind,kind.started expires⟩ := by
  cases kind with
  | accept | oauth email => exact nofun
  | revoke => exact rfl

theorem Kind.started_waits (kind : Kind) (expires : Int) (f : Final) :
    kind.started expires ≠ .updated f := by
  cases kind <;> exact nofun

theorem Call.Fits.judged {call : Call} {expires now : Int} (h : call.Fits)
    (phase : call.phase = .read expires) :
    Call.Fits { call with phase := .writing (if expires < now then .expired else .accepted) } := by
  obtain ⟨kind,p⟩ := call
  obtain rfl : p = .read expires := phase
  show kind.Owns _
  cases kind with
  | revoke => exact absurd rfl h
  | accept | oauth email => split <;> simp [Kind.Owns]

theorem Call.Fits.next {call : Call} {f : Final} (h : call.Fits) (next : call.next = some f) :
    call.kind.Owns f := by
  obtain ⟨kind,p⟩ := call
  cases p with
  | read expires | updated g => cases kind <;> exact nomatch next
  | inserted =>
    obtain rfl : kind = .accept := h
    cases next
    exact .inl rfl
  | writing g =>
    obtain rfl : g = f := by
      cases kind with
      | accept =>
        cases g with
        | accepted => exact nomatch next
        | revoked | expired => exact Option.some.inj next
      | oauth email | revoke => exact Option.some.inj next
    exact h

omit [DecidableEq κ] in
theorem Sound.event_fair {s : State κ} {i : κ} {call : Call} {f : Final} (h : Sound t inv s)
    (made : inv.claims = ⟨inv.email,inv.role⟩) (here : s.calls i = some call)
    (phase : call.phase = .updated f) : (inv.event t call.kind f).Fair t inv := by
  obtain ⟨admitted,fits⟩ := h.fits i call here
  obtain ⟨kind,p⟩ := call
  obtain rfl : p = .updated f := phase
  cases f with
  | revoked | expired => trivial
  | accepted =>
    cases kind with
    | accept =>
      show _ ∧ _
      rw [made]
      exact ⟨rfl,rfl⟩
    | oauth email =>
      have lowered : t.lower inv.claims.email = t.normalize email := admitted.2.2
      show _ ∧ _ ∧ _
      rw [made] at lowered ⊢
      exact ⟨rfl,rfl,lowered.symm⟩
    | revoke => exact nomatch fits

theorem Sound.put {s : State κ} (h : Sound t inv s) {i : κ} {call : Call}
    (fits : inv.admits t call.kind ∧ call.Fits)
    (held : ∀ f, call.phase = .updated f → Writable s.status f ∧ s.unlocked i) :
    Sound t inv (s.put i call) := by
  have cases_ : ∀ j other, Function.update s.calls i (some call) j = some other →
      j = i ∧ other = call ∨ j ≠ i ∧ s.calls j = some other := by
    intro j other hj
    by_cases ji : j = i
    · subst ji
      exact .inl ⟨rfl,by simpa using hj.symm⟩
    · rw [Function.update_of_ne ji] at hj
      exact .inr ⟨ji,hj⟩
  refine ⟨h.agree,h.settled,h.once,h.fair,fun j other hj => ?_,fun j other f hj hf => ?_,
    fun j k a b f g hj hk hf hg => ?_⟩
  · obtain ⟨-,rfl⟩ | ⟨-,hj⟩ := cases_ j other hj
    · exact fits
    · exact h.fits j other hj
  · obtain ⟨-,rfl⟩ | ⟨-,hj⟩ := cases_ j other hj
    · exact (held f hf).1
    · exact h.held j other f hj hf
  · obtain ⟨ji,ha⟩ | ⟨ji,hj⟩ := cases_ j a hj <;> obtain ⟨ki,hb⟩ | ⟨ki,hk⟩ := cases_ k b hk
    · exact ji.trans ki.symm
    · exact ji.trans ((held f (ha ▸ hf)).2 k b g hk hg).symm
    · exact ((held g (hb ▸ hg)).2 j a f hj hf).trans ki.symm
    · exact h.sole j k a b f g hj hk hf hg

theorem leave_calls {s : State κ} {i j : κ} {call : Call} (h : (s.leave i).calls j = some call) :
    j ≠ i ∧ s.calls j = some call := by
  have hj : Function.update s.calls i none j = some call := h
  by_cases ji : j = i
  · subst ji
    simp at hj
  · rw [Function.update_of_ne ji] at hj
    exact ⟨ji,hj⟩

theorem Sound.committed {s : State κ} {i : κ} {call : Call} {f : Final} {taken : Bool} (h : Sound t inv s)
    (made : inv.claims = ⟨inv.email,inv.role⟩) (here : s.calls i = some call)
    (phase : call.phase = .updated f) :
    Sound t inv
      { s.leave i with
        status := .final f
        taken := taken
        history := s.history ++ [inv.event t call.kind f] } := by
  have final : (inv.event t call.kind f).final = f := by
    cases f with
    | revoked | expired => rfl
    | accepted => cases call.kind <;> rfl
  have writable := h.held i call f here phase
  -- nothing is committed yet, or the same status only
  have same : ∀ e ∈ s.history, e.final = f := by
    intro e he
    obtain pending | ⟨stands,-⟩ := writable
    · exact nomatch pending.symm.trans (h.agree e he)
    · exact (Status.final.inj (stands.symm.trans (h.agree e he))).symm
  refine ⟨fun e he => ?_,fun _ => by simp,fun accepted => ?_,fun e he => ?_,fun j other hj => ?_,
    fun j other g hj hg => ?_,fun j k a b g g' hj hk hg hg' => ?_⟩
  · obtain he | he := List.mem_append.1 he
    · exact congrArg Status.final (same e he).symm
    · obtain rfl := List.mem_singleton.1 he
      exact congrArg Status.final final.symm
  · obtain rfl : f = .accepted := Status.final.inj accepted
    obtain pending | ⟨-,no⟩ := writable
    · have empty : s.history = [] := by
        cases hh : s.history with
        | nil => rfl
        | cons e es => exact nomatch pending.symm.trans (h.agree e (by simp [hh]))
      simp [empty]
    · exact absurd rfl no
  · obtain he | he := List.mem_append.1 he
    · exact h.fair e he
    · obtain rfl := List.mem_singleton.1 he
      exact h.event_fair made here phase
  · exact h.fits j other (leave_calls hj).2
  · obtain ⟨ji,hj⟩ := leave_calls hj
    exact absurd (h.sole j i other call g f hj here hg phase) ji
  · exact h.sole j k a b g g' (leave_calls hj).2 (leave_calls hk).2 hg hg'

theorem Sound.step {s u : State κ} {a : Act κ} (made : inv.claims = ⟨inv.email,inv.role⟩)
    (h : Sound t inv s) (step : Guarded (Step t inv) StillPending s a u) : Sound t inv u := by
  obtain ⟨still,step⟩ := step
  cases step with
  | begun idle admitted pending =>
    exact h.put ⟨admitted,Kind.started_fits _ _⟩ fun f hf => absurd hf (Kind.started_waits _ _ f)
  | refused idle => exact h
  | judged here phase =>
    obtain ⟨admitted,fits⟩ := h.fits _ _ here
    exact h.put ⟨admitted,fits.judged phase⟩ fun f hf => nomatch hf
  | inserted here kind phase free alone =>
    exact h.put ⟨(h.fits _ _ here).1,kind⟩ fun f hf => nomatch hf
  | @updated i call f here next unlocked =>
    obtain ⟨admitted,fits⟩ := h.fits _ _ here
    refine h.put ⟨admitted,fits.next next⟩ fun g hg => ?_
    obtain rfl : f = g := by simpa using hg
    exact ⟨still call f here next,unlocked⟩
  | committed here phase => exact h.committed made here phase
  | @failed i call here =>
    exact ⟨h.agree,h.settled,h.once,h.fair,fun j other hj => h.fits j other (leave_calls hj).2,
      fun j other g hj => h.held j other g (leave_calls hj).2,
      fun j k a b f g hj hk => h.sole j k a b f g (leave_calls hj).2 (leave_calls hk).2⟩
  | extended unlocked | account alone | passed =>
    exact ⟨h.agree,h.settled,h.once,h.fair,h.fits,h.held,h.sole⟩

theorem Sound.stays {s u : State κ} {a : Act κ} {f : Final} (h : Sound t inv s)
    (step : Guarded (Step t inv) StillPending s a u) (final : s.status = .final f) :
    u.status = .final f := by
  obtain ⟨-,step⟩ := step
  cases step with
  | @committed i call g here phase =>
    obtain pending | ⟨same,-⟩ := h.held i call g here phase
    · exact nomatch pending.symm.trans final
    · exact same.symm.trans final
  | begun | refused | judged | inserted | updated | failed | extended | account | passed =>
    exact final

/-- Where every status is written over a pending one, or a revocation or an expiry over the same: an
invite is consumed once at most, and not after a revocation; a status it has come to stays; and it is
accepted by exactly one consumption, with its own email and role. -/
theorem invite_single_use {email role : String} {expires : Int} {as bs : List (Act κ)} {s u : State κ}
    (made : createInvite t email role = some inv)
    (run : Run (Guarded (Step t inv) StillPending) { expires := expires } as s)
    (onward : Run (Guarded (Step t inv) StillPending) s bs u) :
    (s.history.filter fun e => e.final = .accepted).length ≤ 1 ∧
    (.revoked ∈ s.history → ∀ e ∈ u.history, e.final ≠ .accepted) ∧
    (∀ f, s.status = .final f → u.status = .final f) ∧
    (s.status = .final .accepted ↔ ∃ e ∈ s.history, e.final = .accepted) ∧
    (s.status = .final .accepted → ∃ e, s.history = [e] ∧ e.final = .accepted) ∧
    ∀ e ∈ s.history, e.Fair t inv := by
  have claims := createInvite_claims made
  have start : Sound t inv ({ expires := expires } : State κ) :=
    ⟨fun _ h => (nomatch h),fun h => absurd rfl h,fun h => (nomatch h),fun _ h => (nomatch h),
      fun _ _ h => (nomatch h),fun _ _ _ h => (nomatch h),fun _ _ _ _ _ _ h => (nomatch h)⟩
  have sound : Sound t inv s := run.invariant (fun _ _ _ h step => h.step claims step) start
  have later : ∀ f, s.status = .final f → Sound t inv u ∧ u.status = .final f := fun f final =>
    onward.invariant (I := fun x => Sound t inv x ∧ x.status = .final f)
      (fun _ _ _ h step => ⟨h.1.step claims step,h.1.stays step h.2⟩) ⟨sound,final⟩
  have one : s.status = .final .accepted → ∃ e, s.history = [e] ∧ e.final = .accepted := by
    intro accepted
    obtain ⟨e,single⟩ := List.length_eq_one_iff.1 (sound.once accepted)
    exact ⟨e,single,(Status.final.inj ((sound.agree e (by simp [single])).symm.trans accepted))⟩
  have from_ : (∃ e ∈ s.history, e.final = .accepted) → s.status = .final .accepted := by
    rintro ⟨e,he,final⟩
    exact (sound.agree e he).trans (congrArg Status.final final)
  refine ⟨?_,fun revoked e he accepted => ?_,fun f final => (later f final).2,⟨fun accepted => ?_,from_⟩,one,
    sound.fair⟩
  · by_cases accepted : s.status = .final .accepted
    · rw [←sound.once accepted]
      exact List.length_filter_le _ _
    · have none : (s.history.filter fun e => e.final = .accepted) = [] := by
        refine List.filter_eq_nil_iff.2 fun e he h => accepted ?_
        exact from_ ⟨e,he,of_decide_eq_true h⟩
      simp [none]
  · have ⟨sound',status⟩ := later .revoked (sound.agree _ revoked)
    have stands := (sound'.agree e he).symm.trans status
    rw [accepted] at stands
    exact nomatch stands
  · obtain ⟨e,single,final⟩ := one accepted
    exact ⟨e,by simp [single],final⟩

def viewerInvite : Invite := ⟨"a@b.c","viewer",⟨"a@b.c","viewer"⟩⟩

def plainTexts : Texts := ⟨id,id⟩

theorem invite_single_use_oauth : ∃ as s,
    Run (Guarded (Step plainTexts viewerInvite) StillPending) { expires := 7 : State Unit } as s ∧
    s.status = .final .accepted ∧ ∃ e, s.history = [e] ∧ e.final = .accepted := by
  have admitted : viewerInvite.admits plainTexts (.oauth "a@b.c") := ⟨by decide,by decide,rfl⟩
  have begun : Run (Guarded (Step plainTexts viewerInvite) StillPending) { expires := 7 : State Unit } _ _ :=
    (Run.nil _).also (@Step.begun _ _ _ _ _ () _ rfl admitted rfl) trivial
  have judged := begun.also (@Step.judged _ _ _ _ _ () ⟨.oauth "a@b.c",.read 7⟩ 7 rfl rfl) trivial
  have updated := judged.also
    (@Step.updated _ _ _ _ _ () ⟨.oauth "a@b.c",.writing .accepted⟩ .accepted rfl rfl
      fun _ _ _ _ _ => rfl) fun _ _ _ _ => .inl rfl
  have run := updated.also
    (@Step.committed _ _ _ _ _ () ⟨.oauth "a@b.c",.updated .accepted⟩ .accepted rfl rfl) trivial
  have made : createInvite plainTexts "a@b.c" "viewer" = some viewerInvite := rfl
  have use := invite_single_use made run run.here
  exact ⟨_,_,run,rfl,use.2.2.2.2.1 rfl⟩

/-- Two sign-ins that overlap use one invite. -/
theorem invite_used_twice : ¬∀ (as : List (Act Bool)) (s : State Bool),
    Run (Step plainTexts viewerInvite) { expires := 7 } as s →
      (s.history.filter fun e => e.final = .accepted).length ≤ 1 := by
  intro all
  have admitted : viewerInvite.admits plainTexts (.oauth "a@b.c") := ⟨by decide,by decide,rfl⟩
  have one : Run (Step plainTexts viewerInvite) { expires := 7 : State Bool } _ _ :=
    (Run.nil _).snoc (@Step.begun _ _ _ _ _ true _ rfl admitted rfl)
  have two := one.snoc (@Step.begun _ _ _ _ _ false _ rfl admitted rfl)
  have judged := two.snoc (@Step.judged _ _ _ _ _ true ⟨.oauth "a@b.c",.read 7⟩ 7 rfl rfl)
  have both := judged.snoc (@Step.judged _ _ _ _ _ false ⟨.oauth "a@b.c",.read 7⟩ 7 rfl rfl)
  have updated := both.snoc
    (@Step.updated _ _ _ _ _ true ⟨.oauth "a@b.c",.writing .accepted⟩ .accepted rfl rfl fun j call f hj hf => by
      cases j with
      | true => rfl
      | false => cases hj; exact nomatch hf)
  have once := updated.snoc
    (@Step.committed _ _ _ _ _ true ⟨.oauth "a@b.c",.updated .accepted⟩ .accepted rfl rfl)
  have again := once.snoc
    (@Step.updated _ _ _ _ _ false ⟨.oauth "a@b.c",.writing .accepted⟩ .accepted rfl rfl fun j call f hj hf => by
      cases j with
      | true => exact nomatch hj
      | false => rfl)
  have run := again.snoc
    (@Step.committed _ _ _ _ _ false ⟨.oauth "a@b.c",.updated .accepted⟩ .accepted rfl rfl)
  exact absurd (all _ _ run) (by decide)

end CircuitBreaker.InviteRuns
