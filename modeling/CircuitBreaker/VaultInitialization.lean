import CircuitBreaker.VaultKey
import Mathlib.Data.List.Flatten

/-! The first vault key (services/vault_service.py): it is generated unless the guard finds encrypted
secrets, which it looks for in fewer places than a rotation re-encrypts. -/

namespace CircuitBreaker.VaultInitialization
open List
open Vault (Text EnvWrite fileAfter isSpace)

inductive Json where
  | null
  | bool (b : Bool)
  | number (zero : Bool) (text : String)
  | str (s : String)
  | list (items : List Json)
  | object (fields : List (String × Json))

def Json.truthy : Json → Bool
  | .null => false
  | .bool b => b
  | .number zero _ => !zero
  | .str s => s ≠ ""
  | .list items => !items.isEmpty
  | .object fields => !fields.isEmpty

/-- Python's `str`; that of a value that is no text is a parameter. -/
def Json.pyStr (repr : Json → String) : Json → String
  | .str s => s
  | value => repr value

structure Settings where
  smtpPasswordEnc : Option String := none
  dhcpRouterUserEnc : Option String := none
  dhcpRouterPassEnc : Option String := none
  acmeDnsConfig : Json := .null
  opnsenseApiKeyEnc : Option String := none
  opnsenseApiSecretEnc : Option String := none
  backupS3SecretKeyEnc : Option String := none
  agentServerPrivateKey : Option String := none
  agentServerKeyPendingPrivateKey : Option String := none
  oauthProviders : Json := .null
  oidcProviders : Json := .null
  vaultKey : Option Text := none
  vaultKeyHash : Option Text := none

structure Db where
  settings : Option Settings := none
  integrationApiKey : List (Option String) := []
  certificateKeyPem : List String := []
  userOauthTokens : List (Option String) := []
  hardwareTelemetryConfig : List Json := []
  discoveryProfileSnmpCommunity : List (Option String) := []
  credentialEncryptedValue : List String := []
  notificationSinkProviderConfig : List Json := []

def isEncKey (key : String) : Bool := "_enc".toList.isSuffixOf key.toList

/-- Whether a text begins, after white space, as a plaintext does; `start` is empty where none is
expected. -/
def plaintextShape (start value : String) : Bool :=
  start ≠ "" && start.toList.isPrefixOf (value.toList.dropWhile isSpace)

def pemStart : String := "-----BEGIN"

def jsonStart : String := "\x7b"

/-! The guard. -/

/-- The lookups of the guard, each with a handler of its own that passes over a failure. -/
inductive Lookup where
  | settings
  | discoveryProfiles
  | credentials
  | notificationSinks

def present (text : Option String) : Bool := text.any (· ≠ "")

/-- `any(k.endswith("_enc") and config[k] for k in config)` of an object. -/
def holdsSecret : Json → Bool
  | .object fields => fields.any fun f => isEncKey f.1 && f.2.truthy
  | _ => false

def count (db : Db) : Lookup → Nat
  | .settings =>
    (db.settings.toList.countP fun cfg => present cfg.smtpPasswordEnc)+
      db.settings.toList.countP fun cfg => holdsSecret cfg.acmeDnsConfig
  | .discoveryProfiles => db.discoveryProfileSnmpCommunity.countP (·.isSome)
  | .credentials => db.credentialEncryptedValue.length
  | .notificationSinks => db.notificationSinkProviderConfig.countP holdsSecret

def countOf (fails : Lookup → Bool) (db : Db) (lookup : Lookup) : Nat :=
  if fails lookup then 0 else count db lookup

def countEncryptedSecrets (fails : Lookup → Bool) (db : Db) : Nat :=
  countOf fails db .settings+countOf fails db .discoveryProfiles+countOf fails db .credentials+
    countOf fails db .notificationSinks

inductive Refusal where
  | alreadyInitialized
  | encryptedSecretsExist
  /-- `get_or_create_settings` raised -/
  | noSettings

structure Failures where
  lookup : Lookup → Bool := fun _ => false
  settings : Bool := false
  write : EnvWrite
  commit : Bool := false

inductive Outcome where
  | refused (reason : Refusal)
  | generated (key : Text) (inForce : Bool) (file : Option Text) (db : Db)

def Outcome.generates : Outcome → Bool
  | .refused _ => false
  | .generated _ _ _ _ => true

/-- The process, as far as the initialisation reads it; `defaults` is the row that is made if there is
none, `newKey` the key that would be generated. -/
structure Process where
  initialized : Bool
  sha256 : Text → Text
  newKey : Text
  defaults : Settings
  file : Option Text

def initializeVaultKey (p : Process) (failures : Failures) (db : Db) : Outcome :=
  if p.initialized then .refused .alreadyInitialized
  else if 0 < countEncryptedSecrets failures.lookup db then .refused .encryptedSecretsExist
  else if failures.settings then .refused .noSettings
  else
    let cfg := db.settings.getD p.defaults
    let keyed := { cfg with
      vaultKey := none
      vaultKeyHash := some (p.sha256 p.newKey) }
    .generated p.newKey (!failures.commit) (fileAfter failures.write p.file p.newKey)
      { db with settings := some (if failures.commit then cfg else keyed) }

/-! The texts that a rotation takes. -/

section
variable (repr : Json → String)

def fieldText (secret : String → Bool) (f : String × Json) : List String :=
  if secret f.1 && f.2.truthy then [f.2.pyStr repr] else []

def fieldTexts (secret : String → Bool) : Json → List String
  | .object fields => fields.flatMap (fieldText repr secret)
  | _ => []

def blobTexts : Json → List String := fieldTexts repr isEncKey

def attrTexts (start value : String) : List String :=
  if value = "" || plaintextShape start value then [] else [value]

def columnTexts (start : String) (value : Option String) : List String :=
  value.toList.flatMap (attrTexts start)

def providerTexts : Json → List String
  | .object entries => entries.flatMap fun e => blobTexts repr e.2
  | _ => []

def oidcTexts : Json → List String
  | .list entries => entries.flatMap (blobTexts repr)
  | providers => providerTexts repr providers

/-- The columns of the settings that hold one text each and that the guard passes over. -/
def Settings.columns (cfg : Settings) : List (Option String) :=
  [cfg.dhcpRouterUserEnc,cfg.dhcpRouterPassEnc,cfg.opnsenseApiKeyEnc,cfg.opnsenseApiSecretEnc,
    cfg.backupS3SecretKeyEnc,cfg.agentServerPrivateKey,cfg.agentServerKeyPendingPrivateKey]

def Settings.passedOver (cfg : Settings) : List String :=
  cfg.columns.flatMap (columnTexts "")++providerTexts repr cfg.oauthProviders++
    oidcTexts repr cfg.oidcProviders

def Db.passedOver (db : Db) : List String :=
  db.settings.toList.flatMap (Settings.passedOver repr)++
  db.integrationApiKey.flatMap (columnTexts "")++
  db.certificateKeyPem.flatMap (attrTexts pemStart)++
  db.userOauthTokens.flatMap (columnTexts jsonStart)++
  db.hardwareTelemetryConfig.flatMap (fieldTexts repr (· = "password"))

def Db.read (db : Db) : Lookup → List String
  | .settings => db.settings.toList.flatMap fun cfg =>
      columnTexts "" cfg.smtpPasswordEnc++blobTexts repr cfg.acmeDnsConfig
  | .discoveryProfiles => db.discoveryProfileSnmpCommunity.flatMap (·.toList)
  | .credentials => db.credentialEncryptedValue
  | .notificationSinks => db.notificationSinkProviderConfig.flatMap (blobTexts repr)

def Db.taken (db : Db) : List String :=
  db.passedOver repr++db.read repr .settings++db.read repr .discoveryProfiles++
    db.read repr .credentials++db.read repr .notificationSinks

end

/-! What the guard leaves out. -/

structure Fernet where
  decrypt : Text → String → Option String

def Fernet.Ciphertext (fernet : Fernet) (text : String) : Prop :=
  ∃ key, (fernet.decrypt key text).isSome

section
variable {repr : Json → String} {db : Db}

theorem present_of_text {start t : String} {value : Option String}
    (h : t ∈ columnTexts start value) : present value = true := by
  obtain ⟨v,hv,ht⟩ := mem_flatMap.1 h
  rw [Option.mem_toList.1 hv]
  refine decide_eq_true fun none => ?_
  rw [attrTexts,none,decide_eq_true rfl,Bool.true_or,if_pos rfl] at ht
  cases ht

theorem holds_of_text {t : String} {config : Json} (h : t ∈ blobTexts repr config) :
    holdsSecret config = true := by
  cases config with
  | object fields =>
    obtain ⟨f,hf,ht⟩ := mem_flatMap.1 h
    refine any_eq_true.2 ⟨f,hf,?_⟩
    by_contra none
    rw [fieldText,if_neg none] at ht
    cases ht
  | null | bool b | number zero text | str s | list items => cases h

theorem count_pos {lookup : Lookup} {t : String} (h : t ∈ db.read repr lookup) :
    0 < count db lookup := by
  cases lookup with
  | settings =>
    obtain ⟨cfg,hc,ht⟩ := mem_flatMap.1 h
    rcases mem_append.1 ht with smtp | acme
    · exact Nat.add_pos_left (countP_pos_iff.2 ⟨cfg,hc,present_of_text smtp⟩) _
    · exact Nat.add_pos_right _ (countP_pos_iff.2 ⟨cfg,hc,holds_of_text acme⟩)
  | discoveryProfiles =>
    obtain ⟨value,hv,ht⟩ := mem_flatMap.1 h
    rw [Option.mem_toList.1 ht] at hv
    exact countP_pos_iff.2 ⟨some t,hv,rfl⟩
  | credentials => exact length_pos_of_mem h
  | notificationSinks =>
    obtain ⟨config,hc,ht⟩ := mem_flatMap.1 h
    exact countP_pos_iff.2 ⟨config,hc,holds_of_text ht⟩

theorem counts_iff {fails : Lookup → Bool} : 0 < countEncryptedSecrets fails db ↔
    ∃ lookup, fails lookup = false ∧ 0 < count db lookup := by
  have one : ∀ lookup, 0 < countOf fails db lookup ↔ fails lookup = false ∧ 0 < count db lookup := by
    intro lookup
    rw [countOf]
    cases fails lookup <;> simp
  rw [countEncryptedSecrets]
  constructor
  · intro positive
    have some_ : 0 < countOf fails db .settings ∨ 0 < countOf fails db .discoveryProfiles ∨
        0 < countOf fails db .credentials ∨ 0 < countOf fails db .notificationSinks := by omega
    rcases some_ with h | h | h | h
    · exact ⟨_,(one _).1 h⟩
    · exact ⟨_,(one _).1 h⟩
    · exact ⟨_,(one _).1 h⟩
    · exact ⟨_,(one _).1 h⟩
  · intro found
    obtain ⟨lookup,h⟩ := found
    have := (one lookup).2 h
    cases lookup <;> omega

end

/-- An uninitialised vault generates a key only where there is no ciphertext just when the settings
cannot be had, a lookup that works counts something, or there is no ciphertext in what the guard passes
over and in what its failed lookups would have read. -/
theorem generates_safely_iff (repr : Json → String) (fernet : Fernet) (p : Process)
    (failures : Failures) (db : Db) :
    ((initializeVaultKey { p with initialized := false } failures db).generates = true →
      ∀ t ∈ db.taken repr, ¬fernet.Ciphertext t) ↔
    failures.settings = true ∨ (∃ lookup, failures.lookup lookup = false ∧ 0 < count db lookup) ∨
      ((∀ t ∈ db.passedOver repr, ¬fernet.Ciphertext t) ∧
        ∀ lookup, failures.lookup lookup = true → ∀ t ∈ db.read repr lookup, ¬fernet.Ciphertext t) := by
  have generates : (initializeVaultKey { p with initialized := false } failures db).generates = true ↔
      ¬0 < countEncryptedSecrets failures.lookup db ∧ failures.settings = false := by
    rw [initializeVaultKey,if_neg Bool.false_ne_true]
    split
    case isTrue counted =>
      exact ⟨nofun,fun h => absurd counted h.1⟩
    case isFalse counted =>
      cases failures.settings with
      | true => exact ⟨nofun,fun h => nomatch h.2⟩
      | false => exact ⟨fun _ => ⟨counted,rfl⟩,fun _ => rfl⟩
  have reads : ∀ lookup, ∀ t ∈ db.read repr lookup, t ∈ db.taken repr := by
    intro lookup t ht
    rw [Db.taken]
    cases lookup <;> simp [ht]
  rw [generates,counts_iff]
  constructor
  · intro safe
    by_cases settings : failures.settings = true
    · exact .inl settings
    by_cases counted : ∃ lookup, failures.lookup lookup = false ∧ 0 < count db lookup
    · exact .inr (.inl counted)
    have none := safe ⟨counted,Bool.eq_false_iff.2 settings⟩
    refine .inr (.inr ⟨fun t ht => none t ?_,fun lookup _ t ht => none t (reads lookup t ht)⟩)
    simp [Db.taken,ht]
  · intro condition run t ht
    rcases condition with settings | counted | ⟨passed,failed⟩
    · rw [run.2] at settings
      cases settings
    · exact absurd counted run.1
    · have read : ∀ lookup, t ∈ db.read repr lookup → ¬fernet.Ciphertext t := by
        intro lookup there
        by_cases fails : failures.lookup lookup = true
        · exact failed lookup fails t there
        · exact absurd ⟨lookup,Bool.eq_false_iff.2 fails,count_pos there⟩ run.1
      simp only [Db.taken,mem_append] at ht
      rcases ht with (((ht | ht) | ht) | ht) | ht
      · exact passed t ht
      · exact read _ ht
      · exact read _ ht
      · exact read _ ht
      · exact read _ ht

def oneToken : Fernet where
  decrypt key text := if key = ['k'] ∧ text = "gAAAAA" then some "tokens" else none

def oneUser : Db := { userOauthTokens := [some "gAAAAA"] }

def newProcess : Process where
  initialized := false
  sha256 := id
  newKey := ['n']
  defaults := {}
  file := none

/-- A user's tokens, encrypted, are no reason for the guard to refuse. -/
theorem tokens_orphaned : ∃ key inForce file db,
    initializeVaultKey newProcess { write := .upTo 20 } oneUser = .generated key inForce file db ∧
    ∃ t ∈ oneUser.taken (fun _ => ""), oneToken.Ciphertext t :=
  ⟨_,_,_,_,rfl,"gAAAAA",by decide,['k'],by decide⟩

end CircuitBreaker.VaultInitialization
