import Mathlib.Data.List.Basic


/-! The vault key (services/vault_service.py): where it is kept, how a start finds it, and
what a rotation that may fail anywhere leaves of it. -/

namespace CircuitBreaker.Vault
open Option

abbrev Text := List Char

/-! The `CB_VAULT_KEY` line of data/.env. -/

/-- Python's white space, for `\s` and for `strip`. -/
def isSpace (c : Char) : Bool :=
  let n := c.toNat
  9 ≤ n && n ≤ 13 || 28 ≤ n && n ≤ 32 || n == 0x85 || n == 0xA0 || n == 0x1680 ||
    0x2000 ≤ n && n ≤ 0x200A || n == 0x2028 || n == 0x2029 || n == 0x202F || n == 0x205F ||
    n == 0x3000

def strip (t : Text) : Text := ((t.dropWhile isSpace).reverse.dropWhile isSpace).reverse

def keyName : Text := "CB_VAULT_KEY".toList

def afterStart : Text → Text → Option Text
  | [],t => some t
  | c::cs,d::ds => if c = d then afterStart cs ds else none
  | _::_,[] => none

/-- The value `\s*(.+)$` finds after the equals sign, and what follows it. The white space
may run over the ends of lines; where nothing else follows, the last of it that is no line end
is the value. -/
def matchValue (t : Text) : Option (Text × Text) :=
  match t.dropWhile isSpace with
  | c::cs => some ((c::cs).takeWhile (· ≠ '\n'),(c::cs).dropWhile (· ≠ '\n'))
  | [] =>
      match t.reverse.dropWhile (· = '\n') with
      | c::_ => some ([c],t.reverse.takeWhile (· = '\n'))
      | [] => none

/-- `^CB_VAULT_KEY\s*=\s*(.+)$` at the start of a line. -/
def matchHere (t : Text) : Option (Text × Text) := do
  let rest ← afterStart keyName t
  match rest.dropWhile isSpace with
  | '='::rest => matchValue rest
  | _ => none

/-- The group of the first match; `start` says that the text begins a line. -/
def search : Bool → Text → Option Text
  | _,[] => none
  | start,c::cs =>
      match if start then matchHere (c::cs) else none with
      | some (value,_) => some value
      | none => search (c = '\n') cs

/-- `_ENV_KEY_RE.sub(line, text)` -/
def substitute (line : Text) : Nat → Bool → Text → Text
  | 0,_,t => t
  | _,_,[] => []
  | fuel+1,start,c::cs =>
      match if start then matchHere (c::cs) else none with
      | some (_,rest) => line++substitute line fuel false rest
      | none => c::substitute line fuel (c = '\n') cs

def keyLine (key : Text) : Text := keyName ++ '='::key

/-- The text `write_vault_key_to_env` gives the file. -/
def envText (file : Option Text) (key : Text) : Text :=
  match file with
  | none => keyLine key++['\n']
  | some t =>
      if (search true t).isSome then substitute (keyLine key) t.length true t
      else (t.reverse.dropWhile (· = '\n')).reverse ++ '\n'::(keyLine key++['\n'])

/-! What is stored. -/

/-- The columns a rotation covers; the number is the row's id, the text the key in a blob. -/
inductive Location where
  | smtpPassword
  | dhcpRouterUser
  | dhcpRouterPass
  | acmeDnsConfig (key : String)
  | opnsenseApiKey
  | opnsenseApiSecret
  | backupS3SecretKey
  | agentServerPrivateKey
  | agentServerKeyPendingPrivateKey
  | oauthProvider (name key : String)
  | oidcProvider (name key : String)
  | integrationApiKey (id : Nat)
  | certificateKeyPem (id : Nat)
  | userOauthTokens (id : Nat)
  | hardwareTelemetryPassword (id : Nat)
  | discoveryProfileSnmpCommunity (id : Nat)
  | credentialValue (id : Nat)
  | notificationSinkConfig (id : Nat) (key : String)
  deriving DecidableEq

/-- A stored value: what a key made of a plaintext, or a text that no key decrypts. -/
inductive Stored where
  | cipher (key plain : Text)
  | other (text : Text)
  deriving DecidableEq

def Stored.decrypt (key : Text) : Stored → Option Text
  | .cipher k plain => if k = key then some plain else none
  | .other _ => none

structure Settings where
  vaultKey : Option Text
  vaultKeyHash : Option Text

structure State where
  env : Text
  file : Option Text
  settings : Option Settings
  secrets : List (Location × Stored)

structure Crypto where
  valid : Text → Bool
  sha256 : Text → Text

section

variable (crypto : Crypto)

def State.envKey (st : State) : Option Text :=
  if strip st.env ≠ [] ∧ crypto.valid (strip st.env) then some (strip st.env) else none

def State.envInForce (st : State) : Option Text :=
  (st.envKey crypto).filter fun key =>
    match st.settings.bind Settings.vaultKeyHash with
    | some hash => crypto.sha256 key = hash
    | none => true

def fileKey (file : Option Text) : Option Text :=
  ((file.bind (search true)).map strip).filter fun key => key ≠ [] ∧ crypto.valid key

def State.legacyKey (st : State) : Option Text :=
  ((st.settings.bind Settings.vaultKey).map strip).filter fun key => key ≠ [] ∧ crypto.valid key

/-- What `load_vault_key` returns at a start. -/
def load (st : State) : Option Text :=
  (st.envInForce crypto).or ((fileKey crypto st.file).or (st.legacyKey crypto))

end

/-! The rotation. -/

def probe (secrets : List (Location × Stored)) : Option Stored :=
  let first := fun (p : Location → Bool) => (secrets.find? fun s => p s.1).map Prod.snd
  (first (· = .smtpPassword)).or ((first (· = .agentServerPrivateKey)).or
    ((first fun l => match l with
      | .discoveryProfileSnmpCommunity _ => true
      | _ => false).or
    (first fun l => match l with
      | .credentialValue _ => true
      | _ => false)))

inductive EnvWrite where
  /-- an error before the file was opened; `write_vault_key_to_env` swallows it -/
  | kept
  | upTo (n : Nat)

inductive Reach where
  | beforeWrite
  | beforeCommit
  | committed

/-- Where a rotation fails: the values whose re-encryption raises, the write of the file, and
how far it comes. -/
structure Failure where
  raises : Location → Bool
  write : EnvWrite
  reach : Reach

def fileAfter (write : EnvWrite) (file : Option Text) (newKey : Text) : Option Text :=
  match write with
  | .kept => file
  | .upTo n => some ((envText file newKey).take n)

/-- `_reencrypt` and the handler around it: what does not decrypt, or raises, stays. -/
def reencrypt (oldKey newKey : Text) (raises : Location → Bool) (s : Location × Stored) :
    Location × Stored :=
  match s.2.decrypt oldKey with
  | some plain => if raises s.1 then s else (s.1,.cipher newKey plain)
  | none => s

/-- What `rotate_vault_key` leaves, for a vault that holds `oldKey`. -/
def rotate (crypto : Crypto) (st : State) (oldKey newKey : Text) (f : Failure) : State :=
  if (probe st.secrets).any fun s => s.decrypt oldKey = none then st
  else
    match f.reach with
    | .beforeWrite => st
    | .beforeCommit => {st with file := fileAfter f.write st.file newKey}
    | .committed =>
        {st with
          file := fileAfter f.write st.file newKey
          settings := st.settings.map fun _ => ⟨none,some (crypto.sha256 newKey)⟩
          secrets := st.secrets.map (reencrypt oldKey newKey f.raises)}

/-- A start finds a key under which the value at `i` is this plaintext. -/
def Readable (crypto : Crypto) (st : State) (i : Nat) (plain : Text) : Prop :=
  ∃ key s,load crypto st = some key ∧ st.secrets[i]? = some s ∧ s.2.decrypt key = some plain

def Probed (st : State) (oldKey : Text) : Prop :=
  ∀ s,probe st.secrets = some s → s.decrypt oldKey ≠ none

def keyBelow (crypto : Crypto) (st : State) (newKey : Text) (f : Failure) : Option Text :=
  (fileKey crypto (fileAfter f.write st.file newKey)).or (st.legacyKey crypto)

inductive Survives (crypto : Crypto) (st : State) (oldKey newKey : Text) (f : Failure) : Prop where
  | nothing (h : ∀ s ∈ st.secrets,s.2.decrypt oldKey = none)
  | aborted (h : ¬Probed st oldKey)
  | untouched (h : f.reach = .beforeWrite)
  | uncommitted (h : f.reach = .beforeCommit)
      (key : st.envInForce crypto ≠ none ∨ keyBelow crypto st newKey f = some oldKey)
  | rotated (h : f.reach = .committed) (all : ∀ s ∈ st.secrets,s.2.decrypt oldKey ≠ none →
        f.raises s.1 = false)
      (env : st.settings ≠ none ∨ st.envKey crypto = none)
      (key : fileKey crypto (fileAfter f.write st.file newKey) = some newKey)
  | stale (h : f.reach = .committed) (all : ∀ s ∈ st.secrets,s.2.decrypt oldKey ≠ none →
        f.raises s.1 = true)
      (key : st.settings = none ∧ st.envKey crypto ≠ none ∨
        fileKey crypto (fileAfter f.write st.file newKey) = some oldKey)

section

variable {crypto : Crypto} {st : State} {oldKey newKey : Text} {f : Failure}

theorem not_probed_iff :
    ((probe st.secrets).any fun s => s.decrypt oldKey = none) = true ↔ ¬Probed st oldKey := by
  unfold Probed
  cases probe st.secrets with
  | none => simp
  | some s => simp

theorem rotate_aborted (h : ¬Probed st oldKey) : rotate crypto st oldKey newKey f = st := by
  rw [rotate,if_pos (not_probed_iff.2 h)]

theorem rotate_probed (h : Probed st oldKey) : rotate crypto st oldKey newKey f =
      match f.reach with
      | .beforeWrite => st
      | .beforeCommit => {st with file := fileAfter f.write st.file newKey}
      | .committed =>
          {st with
            file := fileAfter f.write st.file newKey
            settings := st.settings.map fun _ => ⟨none,some (crypto.sha256 newKey)⟩
            secrets := st.secrets.map (reencrypt oldKey newKey f.raises)} := by
  rw [rotate,if_neg (mt not_probed_iff.1 (not_not_intro h))]

/-- The key a start finds after a committed rotation: the environment's where there is no row
to hold a hash, else the file's. -/
def keyCommitted (crypto : Crypto) (st : State) (newKey : Text) (f : Failure) : Option Text :=
  (if st.settings = none then st.envKey crypto else none).or
    (fileKey crypto (fileAfter f.write st.file newKey))

theorem load_committed (hp : Probed st oldKey) (hr : f.reach = .committed)
    (fresh : ∀ key,st.envKey crypto = some key → crypto.sha256 key ≠ crypto.sha256 newKey) :
    load crypto (rotate crypto st oldKey newKey f) = keyCommitted crypto st newKey f := by
  rw [rotate_probed hp,hr]
  unfold load keyCommitted State.envInForce State.legacyKey
  cases hs : st.settings with
  | none =>
    change ((st.envKey crypto).filter fun _ => true).or _ = _
    cases st.envKey crypto <;> simp
  | some s =>
    have stale : (st.envKey crypto).filter (fun key => decide (crypto.sha256 key =
        crypto.sha256 newKey)) = none := by
      rw [filter_eq_none_iff]
      exact fun key hk => by simpa using fresh key hk
    change ((st.envKey crypto).filter fun key => decide (crypto.sha256 key =
      crypto.sha256 newKey)).or _ = _
    rw [stale]
    simp

variable {s : Location × Stored} {plain key : Text} {i : Nat}

theorem reencrypt_decrypt (distinct : newKey ≠ oldKey) (h : s.2.decrypt oldKey = some plain) :
    (reencrypt oldKey newKey f.raises s).2.decrypt key = some plain ↔
      key = if f.raises s.1 then oldKey else newKey := by
  unfold reencrypt
  rw [h]
  cases hr : f.raises s.1 with
  | false =>
    simp only [Bool.false_eq_true,if_false,Stored.decrypt]
    rw [ite_eq_left_iff]
    simp [eq_comm]
  | true =>
    simp only [if_true]
    cases hs : s.2 with
    | other text => simp [hs,Stored.decrypt] at h
    | cipher k p =>
      simp only [hs,Stored.decrypt,ite_none_right_eq_some,Option.some.injEq] at h ⊢
      obtain ⟨rfl,rfl⟩ := h
      simp [eq_comm]

theorem readable_old (hload : load crypto st = some oldKey) : Readable crypto st i plain ↔
      ∃ s,st.secrets[i]? = some s ∧ s.2.decrypt oldKey = some plain := by
  constructor
  · rintro ⟨key,s,hk,hs,hd⟩
    rw [hload] at hk
    cases hk
    exact ⟨s,hs,hd⟩
  · rintro ⟨s,hs,hd⟩
    exact ⟨oldKey,s,hload,hs,hd⟩

theorem decrypt_unique {s : Stored} {key' plain' : Text}
    (h : s.decrypt key = some plain) (h' : s.decrypt key' = some plain') : key = key' := by
  cases s with
  | other text => cases h
  | cipher k p =>
    simp only [Stored.decrypt,ite_none_right_eq_some] at h h'
    exact h.1.symm.trans h'.1

theorem readable_uncommitted (hp : Probed st oldKey) (hr : f.reach = .beforeCommit) (hs : st.secrets[i]? = some s)
    (hd : s.2.decrypt oldKey = some plain) :
    Readable crypto (rotate crypto st oldKey newKey f) i plain ↔
      (st.envInForce crypto).or (keyBelow crypto st newKey f) = some oldKey := by
  rw [rotate_probed hp,hr]
  constructor
  · rintro ⟨key,s',hk,hs',hd'⟩
    cases hs.symm.trans hs'
    rw [decrypt_unique hd hd']
    exact hk
  · intro hk
    exact ⟨oldKey,s,hk,hs,hd⟩

theorem readable_committed (hp : Probed st oldKey) (hr : f.reach = .committed)
    (distinct : newKey ≠ oldKey)
    (fresh : ∀ key,st.envKey crypto = some key → crypto.sha256 key ≠ crypto.sha256 newKey) (hs : st.secrets[i]? = some s)
    (hd : s.2.decrypt oldKey = some plain) :
    Readable crypto (rotate crypto st oldKey newKey f) i plain ↔
      keyCommitted crypto st newKey f = some (if f.raises s.1 then oldKey else newKey) := by
  have after : (rotate crypto st oldKey newKey f).secrets[i]? =
      some (reencrypt oldKey newKey f.raises s) := by
    rw [rotate_probed hp,hr]
    simp [hs]
  unfold Readable
  rw [load_committed hp hr fresh,after]
  constructor
  · rintro ⟨key,s',hk,hs',hd'⟩
    cases hs'
    rw [hk,(reencrypt_decrypt distinct hd).1 hd']
  · intro hk
    exact ⟨_,_,hk,rfl,(reencrypt_decrypt distinct hd).2 rfl⟩

theorem env_of_no_settings (hload : load crypto st = some oldKey) (hs : st.settings = none) (hk : st.envKey crypto = some key) : key = oldKey := by
  unfold load State.envInForce at hload
  rw [hs,hk] at hload
  exact some.inj hload

theorem survives_of_readable (hload : load crypto st = some oldKey) (distinct : newKey ≠ oldKey)
    (fresh : ∀ key,st.envKey crypto = some key → crypto.sha256 key ≠ crypto.sha256 newKey)
    (h : ∀ i plain,Readable crypto st i plain →
      Readable crypto (rotate crypto st oldKey newKey f) i plain) :
    Survives crypto st oldKey newKey f := by
  by_cases some : ∃ s ∈ st.secrets,s.2.decrypt oldKey ≠ none
  swap
  · exact .nothing fun s hs => by
      by_contra hd
      exact some ⟨s,hs,hd⟩
  by_cases hp : Probed st oldKey
  swap
  · exact .aborted hp
  -- every value that was readable is a test of the key found afterwards
  have again : ∀ s ∈ st.secrets,s.2.decrypt oldKey ≠ none → ∃ i plain,
      st.secrets[i]? = Option.some s ∧ s.2.decrypt oldKey = Option.some plain ∧
        Readable crypto (rotate crypto st oldKey newKey f) i plain := fun s hs hd => by
    obtain ⟨i,hi⟩ := List.mem_iff_getElem?.1 hs
    obtain ⟨plain,hd⟩ := Option.ne_none_iff_exists'.1 hd
    exact ⟨i,plain,hi,hd,h i plain ((readable_old hload).2 ⟨s,hi,hd⟩)⟩
  obtain ⟨s,hs,hd⟩ := some
  obtain ⟨i,plain,hi,hd,readable⟩ := again s hs hd
  cases hr : f.reach with
  | beforeWrite => exact .untouched hr
  | beforeCommit =>
    refine .uncommitted hr ?_
    have found := (readable_uncommitted hp hr hi hd).1 readable
    cases he : st.envInForce crypto with
    | some key => exact .inl (by simp)
    | none =>
      rw [he,none_or] at found
      exact .inr found
  | committed =>
    have found := (readable_committed hp hr distinct fresh hi hd).1 readable
    have same : ∀ s' ∈ st.secrets,s'.2.decrypt oldKey ≠ none → f.raises s'.1 = f.raises s.1 :=
      fun s' hs' hd' => by
        obtain ⟨j,plain',hj,hd',readable'⟩ := again s' hs' hd'
        have found' := (readable_committed hp hr distinct fresh hj hd').1 readable'
        have keys := some.inj (found.symm.trans found')
        by_contra differ
        cases ha : f.raises s.1 <;> cases hb : f.raises s'.1 <;> simp only [ha,hb] at keys differ
        · exact differ trivial
        · exact distinct keys
        · exact distinct keys.symm
        · exact differ trivial
    cases hraise : f.raises s.1 with
    | false =>
      have found : keyCommitted crypto st newKey f = some newKey := by simpa [hraise] using found
      unfold keyCommitted at found
      have env : st.settings ≠ none ∨ st.envKey crypto = none := by
        by_cases hset : st.settings = none
        · refine .inr ?_
          cases hk : st.envKey crypto with
          | none => rfl
          | some key =>
            rw [if_pos hset,hk] at found
            have hkey : key = newKey := some.inj found
            exact absurd (congrArg crypto.sha256 hkey) (fresh key hk)
        · exact .inl hset
      refine .rotated hr (fun s' hs' hd' => (same s' hs' hd').trans hraise) env ?_
      obtain hset | hk := env
      · rw [if_neg hset,none_or] at found
        exact found
      · rw [hk,ite_self,none_or] at found
        exact found
    | true =>
      have found : keyCommitted crypto st newKey f = some oldKey := by simpa [hraise] using found
      unfold keyCommitted at found
      refine .stale hr (fun s' hs' hd' => (same s' hs' hd').trans hraise) ?_
      by_cases env : st.settings = none ∧ st.envKey crypto ≠ none
      · exact .inl env
      · have none : (if st.settings = none then st.envKey crypto else none) = none := by
          by_cases hset : st.settings = none
          · rw [if_pos hset]
            exact not_not.1 fun hk => env ⟨hset,hk⟩
          · exact if_neg hset
        rw [none,none_or] at found
        exact .inr found

theorem Survives.readable (hload : load crypto st = some oldKey) (distinct : newKey ≠ oldKey)
    (fresh : ∀ key,st.envKey crypto = some key → crypto.sha256 key ≠ crypto.sha256 newKey)
    (h : Survives crypto st oldKey newKey f)
    (readable : Readable crypto st i plain) :
    Readable crypto (rotate crypto st oldKey newKey f) i plain := by
  obtain ⟨s,hi,hd⟩ := (readable_old hload).1 readable
  have hs : s ∈ st.secrets := List.mem_of_getElem? hi
  by_cases hp : Probed st oldKey
  swap
  · rw [rotate_aborted hp]
    exact readable
  cases h with
  | nothing h =>
    rw [h s hs] at hd
    cases hd
  | aborted h => exact absurd hp h
  | untouched hr =>
    rw [rotate_probed hp,hr]
    exact readable
  | uncommitted hr key =>
    rw [readable_uncommitted hp hr hi hd]
    cases he : st.envInForce crypto with
    | some k =>
      unfold load at hload
      rw [he] at hload
      exact hload
    | none =>
      rw [none_or]
      exact key.resolve_left (not_not_intro he)
  | rotated hr all env key =>
    rw [readable_committed hp hr distinct fresh hi hd,all s hs (by simp [hd])]
    unfold keyCommitted
    obtain hset | hk := env
    · rw [if_neg hset,none_or]
      exact key
    · rw [hk,ite_self,none_or]
      exact key
  | stale hr all key =>
    rw [readable_committed hp hr distinct fresh hi hd,all s hs (by simp [hd]),if_pos rfl]
    unfold keyCommitted
    by_cases hset : st.settings = none
    · rw [if_pos hset]
      cases hk : st.envKey crypto with
      | some k => rw [env_of_no_settings hload hset hk]; rfl
      | none =>
        rw [none_or]
        exact key.resolve_left fun h => h.2 hk
    · rw [if_neg hset,none_or]
      exact key.resolve_left fun h => hset h.1

end

def letterKeys : Crypto where
  valid := fun key => key.length = 1
  sha256 := fun key => key

def keyInFile : State where
  env := []
  file := some (keyLine ['a']++['\n'])
  settings := some ⟨none,some ['a']⟩
  secrets := [(.credentialValue 1,.cipher ['a'] "hunter2".toList)]

def writtenThenCommitted : Failure where
  raises := fun _ => false
  write := .upTo 100
  reach := .committed

def diesBeforeCommit : Failure where
  raises := fun _ => false
  write := .upTo 100
  reach := .beforeCommit

end CircuitBreaker.Vault
