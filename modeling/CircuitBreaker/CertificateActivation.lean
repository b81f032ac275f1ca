import CircuitBreaker.FileTree
import CircuitBreaker.StepRuns

/-! The certificate an install serves (services/certificate_activation.py). Its two files are replaced
one after the other, and the rows that say which one it is are written after both. -/

namespace CircuitBreaker.CertificateActivation
open StepRuns FileTree

structure Pair where
  chain : List UInt8
  key : List UInt8

def chainName : String := "fullchain.pem"

def keyName : String := "privkey.pem"

/-- `path.with_suffix(path.suffix + ".tmp")`: one name for all who write the file. -/
def tmp (name : String) : String := name ++ ".tmp"

inductive Part where
  | chain
  | key

def Part.name : Part → String
  | .chain => chainName
  | .key => keyName

def Part.of (p : Pair) : Part → List UInt8
  | .chain => p.chain
  | .key => p.key

variable {ι κ : Type} [DecidableEq ι] [DecidableEq κ]

/-- Where a call of `activate_certificate` is: `_write_atomic` of the chain and of the key, the
`UPDATE` of the other rows (its snapshot, then its writes), that of its own, and the commit. -/
inductive Phase (ι : Type) where
  | opening (part : Part)
  | writing (part : Part) (file done : Nat)
  | scanning
  | deactivating (seen : ι → Bool)
  | activating (off : ι → Bool)
  | committing (off : ι → Bool) (on : Bool)

def Part.next : Part → Phase ι
  | .chain => .opening .key
  | .key => .scanning

structure Call (ι : Type) where
  cert : ι
  loaded : Bool
  phase : Phase ι

def Call.locks (call : Call ι) (x : ι) : Bool :=
  match call.phase with
  | .activating off => off x
  | .committing off on => off x || (on && x = call.cert)
  | _ => false

def Call.on (call : Call ι) : Bool :=
  match call.phase with
  | .committing _ on => on
  | _ => false

/-- `begun` and `failed`, whether there has been a call and whether one has not returned well, are
kept for the statements and read by nothing. -/
structure State (ι κ : Type) where
  tree : Files String
  active : ι → Bool
  calls : κ → Option (Call ι) := fun _ => none
  begun : Bool := false
  failed : Bool := false

inductive Act (ι κ : Type) where
  | start (i : κ) (cert : ι)
  | create (i : κ)
  | write (i : κ) (most : Nat)
  | replace (i : κ)
  | scan (i : κ)
  | deactivate (i : κ)
  | activate (i : κ)
  | commit (i : κ)
  | fail (i : κ)
  | crash

def State.move (s : State ι κ) (i : κ) (call : Call ι) (phase : Phase ι) : State ι κ :=
  { s with calls := Function.update s.calls i (some { call with phase := phase }) }

def State.leave (s : State ι κ) (i : κ) : State ι κ :=
  { s with calls := Function.update s.calls i none }

/-- One step of one call: a file operation, a statement, a commit, or the end of it by an error; or
the end of all of them. What a call reads before it writes (the gate, the key) only lets it fail. -/
inductive Step (certs : ι → Pair) : State ι κ → Act ι κ → State ι κ → Prop where
  | started {s : State ι κ} {i : κ} {cert : ι} (idle : s.calls i = none) :
      Step certs s (.start i cert)
        { s.move i ⟨cert,s.active cert,.scanning⟩ (.opening .chain) with begun := true }
  | created {s : State ι κ} {i : κ} {call : Call ι} {part : Part} (here : s.calls i = some call)
      (phase : call.phase = .opening part) :
      Step certs s (.create i)
        { s.move i call (.writing part (s.tree.fresh (tmp part.name)) 0) with
          tree := s.tree.create (tmp part.name) }
  | wrote {s : State ι κ} {i : κ} {call : Call ι} {part : Part} {file done most : Nat}
      (here : s.calls i = some call) (phase : call.phase = .writing part file done) :
      Step certs s (.write i most)
        { s.move i call (.writing part file
            (done+(((part.of (certs call.cert)).drop done).take most).length)) with
          tree := s.tree.put file done (((part.of (certs call.cert)).drop done).take most) }
  | replaced {s : State ι κ} {i : κ} {call : Call ι} {part : Part} {file done : Nat}
      (here : s.calls i = some call) (phase : call.phase = .writing part file done)
      (whole : done = (part.of (certs call.cert)).length)
      (found : (s.tree.dir (tmp part.name)).isSome = true) :
      Step certs s (.replace i)
        { s.move i call part.next with tree := s.tree.rename (tmp part.name) part.name }
  | scanned {s : State ι κ} {i : κ} {call : Call ι} (here : s.calls i = some call)
      (phase : call.phase = .scanning) :
      Step certs s (.scan i) (s.move i call (.deactivating fun x => s.active x && x ≠ call.cert))
  | deactivated {s : State ι κ} {i : κ} {call : Call ι} {seen : ι → Bool}
      (here : s.calls i = some call) (phase : call.phase = .deactivating seen)
      -- the rows are locked once nobody else holds them, and looked at again
      (free : ∀ j other, j ≠ i → s.calls j = some other → ∀ x, seen x = true → other.locks x = false) :
      Step certs s (.deactivate i) (s.move i call (.activating fun x => seen x && s.active x))
  | activated {s : State ι κ} {i : κ} {call : Call ι} {off : ι → Bool}
      (here : s.calls i = some call) (phase : call.phase = .activating off)
      (changes : call.loaded = false)
      (free : ∀ j other, j ≠ i → s.calls j = some other → other.locks call.cert = false)
      -- the unique index on the active rows
      (only : ∀ x, x ≠ call.cert → s.active x = true → off x = true)
      (first : ∀ j other, j ≠ i → s.calls j = some other → other.on = false) :
      Step certs s (.activate i) (s.move i call (.committing off true))
  | unchanged {s : State ι κ} {i : κ} {call : Call ι} {off : ι → Bool}
      (here : s.calls i = some call) (phase : call.phase = .activating off)
      -- a flag that was loaded as set is not written again
      (same : call.loaded = true) :
      Step certs s (.activate i) (s.move i call (.committing off false))
  | committed {s : State ι κ} {i : κ} {call : Call ι} {off : ι → Bool} {on : Bool}
      (here : s.calls i = some call) (phase : call.phase = .committing off on) :
      Step certs s (.commit i)
        { s.leave i with active := fun x => (on && x = call.cert) || (s.active x && !off x) }
  | failed {s : State ι κ} {i : κ} {call : Call ι} (here : s.calls i = some call) :
      Step certs s (.fail i) { s.leave i with failed := true }
  | crashed {s : State ι κ} {i : κ} {call : Call ι} (here : s.calls i = some call) :
      Step certs s .crash { s with calls := fun _ => none, failed := true }

def Idle (s : State ι κ) : Prop := ∀ i, s.calls i = none

/-- The two files are those of `p`, or there are none. -/
def OnDisk (t : Files String) (p : Option Pair) : Prop :=
  t.read chainName = p.map Pair.chain ∧ t.read keyName = p.map Pair.key

/-- The two files belong together: to a certificate, or to what was there at first. -/
def Matched (certs : ι → Pair) (boot : Option Pair) (t : Files String) : Prop :=
  OnDisk t boot ∨ ∃ c, OnDisk t (some (certs c))

def Served (certs : ι → Pair) (s : State ι κ) : Prop :=
  ∃ c, (∀ x, s.active x = true ↔ x = c) ∧ OnDisk s.tree (some (certs c))

structure Start (boot : Option Pair) (s : State ι κ) : Prop where
  plain : s.tree.Plain
  boot : OnDisk s.tree boot
  single : ∀ x y, s.active x = true → s.active y = true → x = y
  idle : Idle s
  begun : s.begun = false
  failed : s.failed = false

def Phase.halfway : Phase ι → Bool
  | .opening .key => true
  | .writing .key _ _ => true
  | _ => false

def Orderly (s : State ι κ) : Act ι κ → Prop
  | .start _ _ => Idle s
  | .fail i => ∀ call, s.calls i = some call → call.phase.halfway = false
  | .crash => ∀ i call, s.calls i = some call → call.phase.halfway = false
  | _ => True

def Filling (t : Files String) (part : Part) (p : Pair) (file done : Nat) : Prop :=
  t.dir (tmp part.name) = some file ∧ t.data file = (part.of p).take done ∧
    done ≤ (part.of p).length

def Phase.Sound (certs : ι → Pair) (boot : Option Pair) (t : Files String) (active : ι → Bool) (c : ι) :
    Phase ι → Prop
  | .opening .chain => Matched certs boot t
  | .opening .key => t.read chainName = some (certs c).chain
  | .writing .chain file done => Matched certs boot t ∧ Filling t .chain (certs c) file done
  | .writing .key file done =>
      t.read chainName = some (certs c).chain ∧ Filling t .key (certs c) file done
  | .scanning => OnDisk t (some (certs c))
  | .deactivating off => OnDisk t (some (certs c)) ∧ off = fun x => active x && x ≠ c
  | .activating off => OnDisk t (some (certs c)) ∧ off = fun x => active x && x ≠ c
  | .committing off on => OnDisk t (some (certs c)) ∧ (off = fun x => active x && x ≠ c) ∧
      (on = true ∨ active c = true)

structure Sound (certs : ι → Pair) (boot : Option Pair) (s : State ι κ) : Prop where
  plain : s.tree.Plain
  single : ∀ x y, s.active x = true → s.active y = true → x = y
  alone : ∀ i j call other, s.calls i = some call → s.calls j = some other → i = j
  call : ∀ i call, s.calls i = some call → call.loaded = s.active call.cert ∧
    call.phase.Sound certs boot s.tree s.active call.cert
  matched : Idle s → Matched certs boot s.tree
  served : Idle s → s.begun = true → s.failed = false → Served certs s

theorem tmp_apart (part : Part) : chainName ≠ tmp part.name ∧ keyName ≠ tmp part.name := by
  cases part <;> decide

section
variable {certs : ι → Pair} {boot : Option Pair}

omit [DecidableEq ι] in
theorem Matched.same {t t' : Files String} (h : Matched certs boot t)
    (chain : t'.read chainName = t.read chainName) (key : t'.read keyName = t.read keyName) :
    Matched certs boot t' := by
  obtain ⟨hc,hk⟩ | ⟨c,hc,hk⟩ := h
  · exact .inl ⟨chain.trans hc,key.trans hk⟩
  · exact .inr ⟨c,chain.trans hc,key.trans hk⟩

theorem Phase.Sound.matched {t : Files String} {active : ι → Bool} {c : ι} {phase : Phase ι}
    (h : phase.Sound certs boot t active c) (whole : phase.halfway = false) :
    Matched certs boot t := by
  cases phase with
  | opening part =>
    cases part with
    | chain => exact h
    | key => simp [Phase.halfway] at whole
  | writing part file done =>
    cases part with
    | chain => exact h.1
    | key => simp [Phase.halfway] at whole
  | scanning => exact .inr ⟨c,h⟩
  | deactivating seen | activating off | committing off on => exact .inr ⟨c,h.1⟩

omit [DecidableEq κ] in
theorem Sound.sole {s : State ι κ} (sound : Sound certs boot s) {i : κ} {call : Call ι}
    (here : s.calls i = some call) {j : κ} {other : Call ι} (there : s.calls j = some other) : j = i :=
  sound.alone j i other call there here

theorem Sound.moved {s : State ι κ} (sound : Sound certs boot s) {i : κ} {call : Call ι}
    (here : s.calls i = some call) {phase : Phase ι} {tree : Files String} (plain : tree.Plain)
    (h : phase.Sound certs boot tree s.active call.cert) :
    Sound certs boot { s.move i call phase with tree := tree } := by
  have only : ∀ j other, Function.update s.calls i (some { call with phase := phase }) j = some other →
      j = i ∧ other = { call with phase := phase } := by
    intro j other hj
    by_cases ji : j = i
    · subst ji
      exact ⟨rfl,by simpa using hj.symm⟩
    · rw [Function.update_of_ne ji] at hj
      exact absurd (sound.sole here hj) ji
  have busy : ¬Idle { s.move i call phase with tree := tree } := by
    intro idle
    simpa [State.move] using idle i
  refine ⟨plain,sound.single,fun j k other other' hj hk => ?_,fun j other hj => ?_,
    fun idle => absurd idle busy,fun idle => absurd idle busy⟩
  · rw [(only j other hj).1,(only k other' hk).1]
  · obtain ⟨-,rfl⟩ := only j other hj
    exact ⟨(sound.call i call here).1,h⟩

theorem Sound.left {s : State ι κ} (sound : Sound certs boot s) {i : κ} {call : Call ι}
    (here : s.calls i = some call) {active : ι → Bool} {failed : Bool}
    (single : ∀ x y, active x = true → active y = true → x = y)
    (matched : Matched certs boot s.tree)
    (served : failed = false →
      Served certs { s.leave i with active := active, failed := failed }) :
    Sound certs boot { s.leave i with active := active, failed := failed } := by
  have none : ∀ j other, Function.update s.calls i none j ≠ some other := by
    intro j other hj
    by_cases ji : j = i
    · subst ji
      simp at hj
    · rw [Function.update_of_ne ji] at hj
      exact ji (sound.sole here hj)
  exact ⟨sound.plain,single,fun j _ other _ hj => absurd hj (none j other),
    fun j other hj => absurd hj (none j other),fun _ => matched,fun _ _ => served⟩

theorem Sound.started {s : State ι κ} (sound : Sound certs boot s) (idle : Idle s) (i : κ) (cert : ι) :
    Sound certs boot
      { s.move i ⟨cert,s.active cert,.scanning⟩ (.opening .chain) with begun := true } := by
  have only : ∀ j other, Function.update s.calls i (some ⟨cert,s.active cert,.opening .chain⟩) j =
      some other → j = i ∧ other = ⟨cert,s.active cert,.opening .chain⟩ := by
    intro j other hj
    by_cases ji : j = i
    · subst ji
      exact ⟨rfl,by simpa using hj.symm⟩
    · rw [Function.update_of_ne ji,idle j] at hj
      simp at hj
  have busy : ¬Idle { s.move i ⟨cert,s.active cert,.scanning⟩ (.opening .chain) with
      begun := true } := by
    intro idle
    simpa [State.move] using idle i
  refine ⟨sound.plain,sound.single,fun j k other other' hj hk => ?_,fun j other hj => ?_,
    fun idle => absurd idle busy,fun idle => absurd idle busy⟩
  · rw [(only j other hj).1,(only k other' hk).1]
  · obtain ⟨-,rfl⟩ := only j other hj
    exact ⟨rfl,sound.matched idle⟩

theorem Filling.more {t : Files String} {part : Part} {p : Pair} {file done : Nat}
    (h : Filling t part p file done) (most : Nat) :
    Filling (t.put file done (((part.of p).drop done).take most)) part p file
      (done+(((part.of p).drop done).take most).length) := by
  obtain ⟨held,content,fits⟩ := h
  have long : (t.data file).length = done := by rw [content,List.length_take,Nat.min_eq_left fits]
  have read := @Files.read_put_end _ t _ _ (((part.of p).drop done).take most) held
  rw [long,content] at read
  have kept : (t.put file done (((part.of p).drop done).take most)).dir (tmp part.name) = some file := held
  have grown : (t.put file done (((part.of p).drop done).take most)).data file =
      (part.of p).take done ++ ((part.of p).drop done).take most := by
    simpa [Files.read,kept] using read
  refine ⟨kept,?_,?_⟩
  · rw [grown,List.take_add,List.length_take]
    congr 1
    exact List.take_eq_take_iff.2 (by simp)
  · simp only [List.length_take,List.length_drop]
    omega

theorem Filling.full {t : Files String} {part : Part} {p : Pair} {file done : Nat}
    (h : Filling t part p file done) (whole : done = (part.of p).length) :
    t.read (tmp part.name) = some (part.of p) := by
  obtain ⟨held,content,-⟩ := h
  rw [Files.read,held,Option.map_some,content,whole,List.take_length]

theorem Sound.step {s t : State ι κ} {a : Act ι κ} (sound : Sound certs boot s)
    (orderly : Orderly s a) (h : Step certs s a t) : Sound certs boot t := by
  cases h with
  | started => exact sound.started orderly _ _
  | @created i call part here phase =>
    have now := (sound.call _ _ here).2
    obtain ⟨chain,key⟩ := tmp_apart part
    have filling : Filling (s.tree.create (tmp part.name)) part (certs call.cert)
        (s.tree.fresh (tmp part.name)) 0 :=
      ⟨Files.dir_create _ _,by simp [Files.create],Nat.zero_le _⟩
    refine sound.moved here (sound.plain.create _) ?_
    rw [phase] at now
    cases part with
    | chain =>
      exact ⟨now.same (sound.plain.read_create_other chain) (sound.plain.read_create_other key),filling⟩
    | key => exact ⟨(sound.plain.read_create_other chain).trans now,filling⟩
  | @wrote i call part file done most here phase =>
    have now := (sound.call _ _ here).2
    obtain ⟨chain,key⟩ := tmp_apart part
    refine sound.moved here (sound.plain.put _ _ _) ?_
    rw [phase] at now
    cases part with
    | chain =>
      obtain ⟨matched,filling⟩ := now
      exact ⟨matched.same (sound.plain.read_put_other filling.1 chain)
        (sound.plain.read_put_other filling.1 key),filling.more most⟩
    | key =>
      obtain ⟨written,filling⟩ := now
      exact ⟨(sound.plain.read_put_other filling.1 chain).trans written,filling.more most⟩
  | @replaced i call part file done here phase whole found =>
    have now := (sound.call _ _ here).2
    rw [phase] at now
    have apart : tmp part.name ≠ part.name := by cases part <;> decide
    refine sound.moved here (sound.plain.rename apart) ?_
    cases part with
    | chain => exact (Files.read_rename apart).trans (now.2.full whole)
    | key =>
      have other : chainName ≠ tmp Part.key.name ∧ chainName ≠ Part.key.name := by decide
      exact ⟨(Files.read_rename_other other.1 other.2).trans now.1,
        (Files.read_rename apart).trans (now.2.full whole)⟩
  | scanned here phase =>
    have now := (sound.call _ _ here).2
    rw [phase] at now
    exact sound.moved here sound.plain ⟨now,rfl⟩
  | @deactivated i call seen here phase free =>
    have now := (sound.call _ _ here).2
    rw [phase] at now
    obtain ⟨files,rfl⟩ := now
    refine sound.moved here sound.plain ⟨files,?_⟩
    funext x
    cases active : s.active x <;> simp [active]
  | activated here phase =>
    have now := (sound.call _ _ here).2
    rw [phase] at now
    exact sound.moved here sound.plain ⟨now.1,now.2,.inl rfl⟩
  | unchanged here phase same =>
    obtain ⟨loaded,now⟩ := sound.call _ _ here
    rw [phase] at now
    exact sound.moved here sound.plain ⟨now.1,now.2,.inr (loaded ▸ same)⟩
  | @committed i call off on here phase =>
    have now := (sound.call _ _ here).2
    rw [phase] at now
    obtain ⟨files,rfl,own⟩ := now
    have rows : ∀ x, ((on && decide (x = call.cert)) ||
        (s.active x && !(s.active x && decide (x ≠ call.cert)))) = true ↔ x = call.cert := by
      intro x
      by_cases hx : x = call.cert
      · subst hx
        simpa using own
      · simp [hx]
    exact sound.left here (fun x y hx hy => ((rows x).1 hx).trans ((rows y).1 hy).symm)
      (.inr ⟨call.cert,files⟩) fun _ => ⟨call.cert,rows,files⟩
  | @failed i call here =>
    have matched := (sound.call _ _ here).2.matched (orderly call here)
    exact sound.left here sound.single matched fun h => absurd h (by decide)
  | @crashed i call here =>
    have matched := (sound.call _ _ here).2.matched (orderly i call here)
    exact ⟨sound.plain,sound.single,(by intros; contradiction),(by intros; contradiction),
      fun _ => matched,(by intros; contradiction)⟩

omit [DecidableEq κ] in
theorem Start.sound {s : State ι κ} (h : Start boot s) : Sound certs boot s := by
  have none : ∀ i call, s.calls i ≠ some call := by simp [h.idle _]
  exact ⟨h.plain,h.single,fun i _ call _ hi => absurd hi (none i call),
    fun i call hi => absurd hi (none i call),fun _ => .inl h.boot,
    fun _ begun => absurd begun (by simp [h.begun])⟩

end

/-- Where calls take turns and none ends between its two replacements, the two files belong together
whenever no call is running, after a crash too; and when every call has returned well, one row is
active and its chain and key are on disk. -/
theorem activation_consistent {certs : ι → Pair} {boot : Option Pair} {s t : State ι κ}
    {as : List (Act ι κ)} (start : Start boot s)
    (run : Run (Guarded (Step certs) Orderly) s as t) (idle : Idle t) :
    Matched certs boot t.tree ∧ (t.begun = true → t.failed = false → Served certs t) := by
  have sound : Sound certs boot t :=
    run.invariant (fun _ _ _ sound step => sound.step step.1 step.2) start.sound
  exact ⟨sound.matched idle,sound.served idle⟩

/-! Two certificates, of which the first is served. -/

def twoCerts : Bool → Pair
  | false => ⟨[1],[2]⟩
  | true => ⟨[3],[4]⟩

def noFiles : Files String where
  dir := fun _ => none
  data := fun _ => []
  next := 0

theorem noFiles_plain : noFiles.Plain := ⟨nofun,nofun⟩

def firstFiles : Files String :=
  (((noFiles.create chainName).put 0 0 [1]).create keyName).put 1 0 [2]

def firstServed : State Bool Unit where
  tree := firstFiles
  active := fun x => !x

theorem firstServed_start : Start (some (twoCerts false)) firstServed where
  plain := (((noFiles_plain.create _).put _ _ _).create _).put _ _ _
  boot := ⟨by decide,by decide⟩
  single := by decide
  idle := fun _ => rfl
  begun := rfl
  failed := rfl

theorem activation_consistent_second : ∃ as t,
    Run (Guarded (Step twoCerts) Orderly) firstServed as t ∧ Idle t ∧ t.active true = true ∧
      Served twoCerts t := by
  have begun : Run (Guarded (Step twoCerts) Orderly) firstServed _ _ :=
    (Run.nil firstServed).also (@Step.started _ _ _ _ _ _ () true rfl) fun _ => rfl
  have emptied := begun.also (@Step.created _ _ _ _ _ _ () _ .chain rfl rfl) trivial
  have filled := emptied.also (@Step.wrote _ _ _ _ _ _ () _ .chain _ _ 1 rfl rfl) trivial
  have chain := filled.also (@Step.replaced _ _ _ _ _ _ () _ .chain _ _ rfl rfl rfl (by decide)) trivial
  have emptied := chain.also (@Step.created _ _ _ _ _ _ () _ .key rfl rfl) trivial
  have filled := emptied.also (@Step.wrote _ _ _ _ _ _ () _ .key _ _ 1 rfl rfl) trivial
  have key := filled.also (@Step.replaced _ _ _ _ _ _ () _ .key _ _ rfl rfl rfl (by decide)) trivial
  have scanned := key.also (@Step.scanned _ _ _ _ _ _ () _ rfl rfl) trivial
  have off := scanned.also
    (@Step.deactivated _ _ _ _ _ _ () _ _ rfl rfl fun _ _ ne => absurd rfl ne) trivial
  have on := off.also (@Step.activated _ _ _ _ _ _ () _ _ rfl rfl rfl (fun _ _ ne => absurd rfl ne)
    (by decide) fun _ _ ne => absurd rfl ne) trivial
  have run := on.also (@Step.committed _ _ _ _ _ _ () _ _ _ rfl rfl) trivial
  exact ⟨_,_,run,fun _ => rfl,rfl,
    (activation_consistent firstServed_start run fun _ => rfl).2 rfl rfl⟩

/-- A crash between the two replacements leaves the chain of one certificate and the key of another. -/
theorem crash_between_files : ¬∀ (s t : State Bool Unit) (as : List (Act Bool Unit)),
    Start (some (twoCerts false)) s → Run (Step twoCerts) s as t → Idle t →
      Matched twoCerts (some (twoCerts false)) t.tree := by
  intro all
  have begun : Run (Step twoCerts) firstServed _ _ :=
    (Run.nil firstServed).snoc (@Step.started _ _ _ _ _ _ () true rfl)
  have emptied := begun.snoc (@Step.created _ _ _ _ _ _ () _ .chain rfl rfl)
  have filled := emptied.snoc (@Step.wrote _ _ _ _ _ _ () _ .chain _ _ 1 rfl rfl)
  have chain := filled.snoc (@Step.replaced _ _ _ _ _ _ () _ .chain _ _ rfl rfl rfl (by decide))
  have run := chain.snoc (@Step.crashed _ _ _ _ _ _ () _ rfl)
  have matched := all _ _ _ firstServed_start run fun _ => rfl
  obtain ⟨chain,key⟩ | ⟨c,chain,key⟩ := matched
  · revert chain
    decide
  · cases c with
    | false =>
      revert chain
      decide
    | true =>
      revert key
      decide

end CircuitBreaker.CertificateActivation
