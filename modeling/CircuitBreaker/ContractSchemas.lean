import CircuitBreaker.ContractSchema

/-! The contract's schemas (packages/cli/schemas, embedded verbatim in
lifecycle-state.py). Annotations that no validator reads are left out. -/

namespace CircuitBreaker.Lifecycle
open TextPattern

/-! Patterns. -/

def single (c : Char) : Pattern := .cls ⟨[(c.toNat,c.toNat)],false⟩
def range (a b : Char) : Nat × Nat := (a.toNat,b.toNat)
def chars (s : String) : List (Nat × Nat) := s.toList.map fun c => (c.toNat,c.toNat)

def digits : List (Nat × Nat) := [range '0' '9']
def upper : List (Nat × Nat) := [range 'A' 'Z']
def lower : List (Nat × Nat) := [range 'a' 'z']
def alnum : List (Nat × Nat) := upper ++ lower ++ digits

def among (ranges : List (Nat × Nat)) : Pattern := .cls ⟨ranges,false⟩
def outside (ranges : List (Nat × Nat)) : Pattern := .cls ⟨ranges,true⟩
def exactly (n : Nat) (r : Pattern) : Pattern := .rep r n (some n)
def between (m n : Nat) (r : Pattern) : Pattern := .rep r m (some n)
def many (r : Pattern) : Pattern := .rep r 0 none
def some1 (r : Pattern) : Pattern := .rep r 1 none
def optional (r : Pattern) : Pattern := .rep r 0 (some 1)
def cat : List Pattern → Pattern := List.foldr Pattern.seq .eps
def either : List Pattern → Pattern
  | [] => .eps
  | [r] => r
  | r::rs => .alt r (either rs)

def digit : Pattern := among digits
def hex : Pattern := among (digits ++ [range 'a' 'f'])

def operationIdPattern : Pattern :=
  cat [lit "op-",exactly 8 digit,single '-',between 3 9 digit]

def digestPattern : Pattern := cat [lit "sha256:",exactly 64 hex]

def timestampPattern : Pattern :=
  cat [exactly 4 digit,single '-',exactly 2 digit,single '-',exactly 2 digit,single 'T',
    exactly 2 digit,single ':',exactly 2 digit,single ':',exactly 2 digit,
    optional (cat [single '.',between 1 6 digit]),single 'Z']

def stepPattern : Pattern :=
  cat [among lower,between 0 63 (among (lower ++ digits ++ chars "_"))]

def versionPattern : Pattern :=
  cat [some1 digit,single '.',some1 digit,single '.',some1 digit,
    optional (cat [single '-',some1 (among (digits ++ upper ++ lower ++ chars ".-"))])]

def controls : List (Nat × Nat) := [(0,0x1f),(0x7f,0x9f)]
def textControls : List (Nat × Nat) := [(0,0x08),(0x0b,0x1f),(0x7f,0x9f)]

def urlCredential : Pattern :=
  cat [among (upper ++ lower),many (among (alnum ++ chars "+.-")),lit "://",
    many (outside (chars "/?#@ " ++ [(0,0x1f)])),single ':',
    many (outside (chars "/?#@ " ++ [(0,0x1f)])),single '@']

def privateKey : Pattern :=
  cat [lit "-----BEGIN ",many (among (upper ++ digits ++ chars " ")),lit "PRIVATE KEY-----"]

def bearer : Pattern :=
  cat [either [lit "Bearer",lit "bearer",lit "BEARER"],single ' ',
    .rep (among (alnum ++ chars "._~+/=-")) 8 none]

def assignment : Pattern :=
  cat [either [cat [among (chars "Pp"),lit "ass",either [lit "word",lit "wd"]],
      cat [lit "PASS",either [lit "WORD",lit "WD"]],
      cat [among (chars "Ss"),lit "ecret"],lit "SECRET",
      cat [among (chars "Tt"),lit "oken"],lit "TOKEN",
      cat [among (chars "Aa"),lit "pi",optional (single '_'),among (chars "Kk"),lit "ey"],
      cat [lit "API",optional (single '_'),lit "KEY"],
      cat [among (chars "Vv"),lit "ault_",among (chars "Kk"),lit "ey"],lit "VAULT_KEY"],
    optional (single ' '),among (chars "=:"),optional (single ' '),
    outside (chars " " ++ [(0,0x1f)])]

def credentialShapes : List Shape :=
  [⟨"[A-Za-z][A-Za-z0-9+.-]*://[^/?#@ \\x00-\\x1f]*:[^/?#@ \\x00-\\x1f]*@",urlCredential⟩,
    ⟨"-----BEGIN [A-Z0-9 ]*PRIVATE KEY-----",privateKey⟩,
    ⟨"(?:Bearer|bearer|BEARER) [A-Za-z0-9._~+/=-]\x7b8,\x7d",bearer⟩,
    ⟨"(?:[Pp]ass(?:word|wd)|PASS(?:WORD|WD)|[Ss]ecret|SECRET|[Tt]oken|TOKEN|[Aa]pi_?[Kk]ey" ++
      "|API_?KEY|[Vv]ault_[Kk]ey|VAULT_KEY)[ ]?[=:][ ]?[^ \\x00-\\x1f]",assignment⟩]

/-- One component of a path: not `.` or `..`. -/
def pathComponent : Pattern :=
  cat [.notAhead (cat [single '.',optional (single '.'),either [single '/',.stop]]),
    some1 (outside (chars "/" ++ controls))]

def pathPattern : Pattern :=
  cat [single '/',optional (cat [pathComponent,many (cat [single '/',pathComponent])])]

def labelPattern : Pattern :=
  cat [among alnum,optional (cat [between 0 61 (among (alnum ++ chars "-")),among alnum])]

def fqdnPattern : Pattern := cat [labelPattern,many (cat [single '.',labelPattern])]

def emailPattern : Pattern :=
  cat [between 1 64 (outside (chars "@ " ++ [(0,0x1f),(0x7f,0x7f)])),single '@',
    between 1 253 (among (alnum ++ chars ".-"))]

/-! The shared definitions. -/

def stringNode (source : String) (r : Pattern) : Node :=
  leaf { types := [.string], pattern := some ⟨source,r.whole⟩ }

def operationIdShape : Shape := ⟨"^op-[0-9]\x7b8\x7d-[0-9]\x7b3,9\x7d$",operationIdPattern.whole⟩

def operationIdNode : Node :=
  leaf { types := [.string], pattern := some operationIdShape, format := some .operationId }

def digestNode : Node := stringNode "^sha256:[0-9a-f]\x7b64\x7d$" digestPattern

def timestampNode : Node :=
  leaf { types := [.string],
         pattern := some ⟨"^[0-9]\x7b4\x7d-[0-9]\x7b2\x7d-[0-9]\x7b2\x7dT[0-9]\x7b2\x7d:[0-9]\x7b2\x7d:" ++
           "[0-9]\x7b2\x7d(?:\\.[0-9]\x7b1,6\x7d)?Z$",timestampPattern.whole⟩,
         format := some .utcTimestamp }

def installedVersionNode : Node :=
  leaf { types := [.string], minLength := 1, maxLength := some 64,
         pattern := some ⟨"^[^\\x00-\\x1f\\x7f-\\x9f]*$",(many (outside controls)).whole⟩,
         xReason := some "contains a control character" }

def versionShape : Shape :=
  ⟨"^[0-9]+\\.[0-9]+\\.[0-9]+(?:-[0-9A-Za-z.-]+)?$",versionPattern.whole⟩

def versionNode : Node :=
  leaf { types := [.string], maxLength := some 64, pattern := some versionShape }

def credentialNode : Node :=
  .node { description := some ("looks like a credential (a URL password, private key, " ++
      "bearer token or secret assignment); redact it") }
    none [] [] false [] (credentialShapes.map fun s => leaf { pattern := some s }) none

/-- `brief_text`, `message_text` and `text`, by their length. -/
def textNode (most : Nat) : Node :=
  .node { types := [.string], maxLength := some most,
          pattern := some ⟨"^[^\\x00-\\x08\\x0b-\\x1f\\x7f-\\x9f]*$",(many (outside textControls)).whole⟩,
          xReason := some "contains a control character other than tab or newline" }
    none [] [] false [] [] (some credentialNode)

def briefTextNode : Node := textNode 256

def pathNode : Node :=
  leaf { types := [.string], maxLength := some 4096,
         pattern := some ⟨"^/(?:(?!\\.\\.?(?:/|$))[^/\\x00-\\x1f\\x7f-\\x9f]+(?:/(?!\\.\\.?(?:/|$))" ++
           "[^/\\x00-\\x1f\\x7f-\\x9f]+)*)?$",pathPattern.whole⟩ }

def fileNameNode : Node :=
  leaf { types := [.string], minLength := 1, maxLength := some 255,
         pattern := some ⟨"^[^/\\x00-\\x1f\\x7f-\\x9f]*$",
           (many (outside (chars "/" ++ controls))).whole⟩ }

def revisionNode : Node :=
  leaf { types := [.string,.null],
         pattern := some ⟨"^[0-9A-Za-z_]\x7b1,64\x7d$",
           (between 1 64 (among (digits ++ upper ++ lower ++ chars "_"))).whole⟩ }

def adapterNode : Node := enumOf ["native","mono","package","proxmox"]

def exitNameNode : Node :=
  enumOf ["USAGE","UNSUPPORTED","NETWORK","TRUST","PERMISSION","PREFLIGHT","RECOVERED","MANUAL",
    "LOCKED","INTERRUPTED"]

def stateNode : Node :=
  enumOf ["planned","staged","verified","recovery_saved","applying","checking","committed",
    "recovering","recovered","recovery_required","interrupted"]

def kindNode : Node := enumOf ["transaction","legacy"]

def journalActionNode : Node :=
  enumOf ["install","update","downgrade","rollback","recover","uninstall","restore","migrate",
    "backup","vault_recover","restart"]

def outcomeNames : List String := ["committed","recovered","refused","interrupted","manual"]

def recoveryRefNode : Node :=
  closedObject [.object,.null] ["operation_id","manifest_digest"]
    [("operation_id",operationIdNode),("manifest_digest",digestNode)]

def trustNode : Node :=
  closedObject [.object] ["signature","provenance"]
    [("signature",oneOf
        [closedObject [.object] ["key_id"]
          [("key_id",stringNode "^[0-9a-f]\x7b16\x7d$" (exactly 16 hex))],
        closedObject [.object] ["unsigned"] [("unsigned",enumOf ["pinned","explicit-older"])]]),
      ("provenance",enumOf ["verified","skipped-airgap","not-applicable"])]

def constNode (s : Scalar) : Node := leaf { const := some s }
def integerFrom (least : Int) : Node := leaf { types := [.integer], minimum := some least }
def booleanNode : Node := leaf { types := [.boolean] }

/-- An enumeration that also lists `null`. -/
def enumOrNull (options : List String) : Node :=
  leaf { enum := some (options.map .str ++ [.null]) }

/-! The operation journal. -/

def releaseNode : Node :=
  closedObject [.object,.null] ["version","artifact_digest"]
    [("version",installedVersionNode),("artifact_digest",nullable digestNode)]

def journalErrorNode : Node :=
  closedObject [.object] ["code","reason"] [("code",exitNameNode),("reason",briefTextNode)]

def stepNode : Node := stringNode "^[a-z][a-z0-9_]\x7b0,63\x7d$" stepPattern

def checkpointNode : Node :=
  closedObject [.object] ["sequence","state","at"]
    [("sequence",integerFrom 1),("state",stateNode),("at",timestampNode),("step",stepNode),
      ("cause",enumOf ["interrupted","abandoned","apply_failed","check_failed","recovery_failed"]),
      ("checkpoint",stateNode),("outcome",enumOf outcomeNames),("error",journalErrorNode)]

def evidenceNode : Node :=
  closedObject [.object] ["check","result","detail"]
    [("check",enumOf ["signature","provenance","digest","archive","compatibility","recovery_point",
        "health","version","schema","identity"]),
      ("result",enumOf ["passed","failed","skipped"]),("detail",nullable briefTextNode)]

def journalNode : Node :=
  closedObject [.object]
    ["schema_version","operation_id","kind","action","adapter","generation","plan_digest",
      "identity_digest","source","target","recovery","evidence","started_at","updated_at",
      "checkpoints"]
    [("schema_version",constNode (.int 1)),("operation_id",operationIdNode),("kind",kindNode),
      ("action",journalActionNode),("adapter",adapterNode),("generation",integerFrom 1),
      ("plan_digest",nullable digestNode),("identity_digest",nullable digestNode),
      ("source",releaseNode),("target",releaseNode),("recovery",recoveryRefNode),
      ("evidence",listOf { maxItems := some 16 } evidenceNode),
      ("started_at",timestampNode),("updated_at",timestampNode),
      ("checkpoints",listOf { minItems := 1, maxItems := some 32 } checkpointNode)]

/-! The lifecycle event. -/

def eventRequired : List String :=
  ["schema_version","operation_id","sequence","at","source","type"]

def eventNode : Node :=
  closedObject [.object] eventRequired
    [("schema_version",constNode (.int 1)),("operation_id",nullable operationIdNode),
      ("sequence",integerFrom 1),("at",timestampNode),("source",enumOf ["coordinator","native"]),
      ("type",enumOf ["phase","progress","checkpoint","diagnostic"]),
      ("phase",enumOf ["preflight","resolve","download","verify","stage","backup","stop","apply",
        "migrate","start","health","commit","recover","remove","cleanup"]),
      ("status",enumOf ["started","completed","failed","skipped"]),("duration_ms",integerFrom 0),
      ("done",integerFrom 0),
      ("total",leaf { types := [.integer,.null], minimum := some 0 }),
      ("unit",enumOf ["bytes","steps"]),("state",stateNode),("generation",integerFrom 1),
      ("level",enumOf ["info","warning","error"]),("message",textNode 900),("code",exitNameNode)]

/-! The lifecycle plan. -/

def planSourceNode : Node :=
  closedObject [.object,.null] ["version","identity_digest","artifact_digest","schema_revision"]
    [("version",installedVersionNode),("identity_digest",digestNode),
      ("artifact_digest",nullable digestNode),("schema_revision",revisionNode)]

def planTargetNode : Node :=
  closedObject [.object,.null] ["version","arch","channel","artifact","schema_revision"]
    [("version",installedVersionNode),("arch",enumOf ["amd64","arm64"]),
      ("channel",enumOrNull ["stable","candidate"]),
      ("artifact",closedObject [.object] ["name","digest"]
        [("name",stringNode "^[A-Za-z0-9][A-Za-z0-9._+:/@-]\x7b0,254\x7d$"
            (cat [among alnum,between 0 254 (among (alnum ++ chars "._+:/@-"))])),
          ("digest",digestNode)]),
      ("schema_revision",revisionNode)]

def optionsNode : Node :=
  closedObject [.object,.null] ["port","fqdn","cert_type","email","data_dir","tls","docker","airgap"]
    [("port",leaf { types := [.integer,.null], minimum := some 1, maximum := some 65535 }),
      ("fqdn",leaf { types := [.string,.null], maxLength := some 253,
                     pattern := some ⟨"^[A-Za-z0-9](?:[A-Za-z0-9-]\x7b0,61\x7d[A-Za-z0-9])?" ++
                       "(?:\\.[A-Za-z0-9](?:[A-Za-z0-9-]\x7b0,61\x7d[A-Za-z0-9])?)*$",fqdnPattern.whole⟩ }),
      ("cert_type",enumOrNull ["self-signed","letsencrypt"]),
      ("email",leaf { types := [.string,.null], maxLength := some 254,
                      pattern := some ⟨"^[^@ \\x00-\\x1f\\x7f]\x7b1,64\x7d@[A-Za-z0-9.-]\x7b1,253\x7d$",
                        emailPattern.whole⟩ }),
      ("data_dir",nullable pathNode),("tls",booleanNode),("docker",booleanNode),
      ("airgap",booleanNode)]

def planNode : Node :=
  closedObject [.object]
    ["schema_version","action","adapter","source","target","compatibility","options","downtime",
      "recovery","data","trust","acknowledgments"]
    [("schema_version",constNode (.int 1)),("plan_digest",digestNode),
      ("presentation",closedObject [.object] []
        [("summary",briefTextNode),("lines",listOf { maxItems := some 32 } briefTextNode)]),
      ("action",enumOf ["install","update","downgrade","rollback","recover","uninstall"]),
      ("adapter",adapterNode),("source",planSourceNode),("target",planTargetNode),
      ("compatibility",closedObject [.object] ["management","schema","transition_digest"]
        [("management",enumOf ["certified","uncertified","not_applicable"]),
          ("schema",enumOf ["none","forward","compatible","incompatible"]),
          ("transition_digest",nullable digestNode)]),
      ("options",optionsNode),("downtime",enumOf ["none","restart","outage"]),
      ("recovery",closedObject [.object] ["mode","ref"]
        [("mode",enumOf ["none","new_point","existing_point"]),("ref",recoveryRefNode)]),
      ("data",closedObject [.object] ["effect","restore_point_at","scope_digest"]
        [("effect",enumOf ["none","retained","migrated","restored","removed"]),
          ("restore_point_at",nullable timestampNode),("scope_digest",nullable digestNode)]),
      ("trust",nullable trustNode),
      ("acknowledgments",listOf { minItems := 1, maxItems := some 3, uniqueItems := true }
        (enumOf ["confirm","restore_data","purge"]))]

/-! The lifecycle result and the history index. -/

def historyEntryNode : Node :=
  oneOf
    [closedObject [.object]
      ["inspection_required","operation_id","kind","action","adapter","state","outcome",
        "checkpoint","started_at","updated_at","source_version","target_version",
        "recovery_available"]
      [("inspection_required",constNode (.bool false)),("operation_id",operationIdNode),
        ("kind",kindNode),("action",journalActionNode),("adapter",adapterNode),("state",stateNode),
        ("outcome",enumOrNull outcomeNames),("checkpoint",nullable stateNode),
        ("started_at",timestampNode),("updated_at",timestampNode),
        ("source_version",nullable installedVersionNode),
        ("target_version",nullable installedVersionNode),("recovery_available",booleanNode)],
    closedObject [.object] ["inspection_required","record","reason"]
      [("inspection_required",constNode (.bool true)),("record",nullable fileNameNode),
        ("reason",briefTextNode)]]

def historyNode : Node :=
  closedObject [.object] ["schema_version","generated_at","operations"]
    [("schema_version",constNode (.int 1)),("generated_at",timestampNode),
      ("operations",listOf { maxItems := some 100 } historyEntryNode)]

def resultNode : Node :=
  closedObject [.object] ["schema_version","action","outcome"]
    [("schema_version",constNode (.int 1)),
      ("action",enumOf ["install","update","downgrade","rollback","recover","uninstall","history"]),
      ("plan",constNode (.bool true)),
      ("outcome",enumOf ["verified","refused","available","no_change","committed","recovered",
        "recovery_required","interrupted","listed"]),
      ("operation_id",nullable operationIdNode),
      ("current_version",nullable installedVersionNode),
      ("target_version",nullable installedVersionNode),("recovery_available",booleanNode),
      ("error",closedObject [.object] ["code","reason"]
        [("code",exitNameNode),("reason",textNode 4096)]),
      ("target",closedObject [.object] ["version","channel","arch","explicit_version"]
        [("version",nullable versionNode),("channel",enumOrNull ["stable","candidate"]),
          ("arch",enumOrNull ["amd64","arm64"]),("explicit_version",booleanNode)]),
      ("bundle",closedObject [.object] ["name","sha256","path"]
        [("name",fileNameNode),("sha256",stringNode "^[0-9a-f]\x7b64\x7d$" (exactly 64 hex)),
          ("path",pathNode)]),
      ("trust",trustNode),
      ("archive",closedObject [.object] ["entries","total_bytes"]
        [("entries",integerFrom 0),("total_bytes",integerFrom 0)]),
      ("server",closedObject [.object,.null] ["version","mode"]
        [("version",installedVersionNode),("mode",adapterNode)]),
      ("operations",listOf { maxItems := some 100 } historyEntryNode)]

inductive DocKind where
  | plan | event | result | journal | history

def DocKind.label : DocKind → String
  | .plan => "a plan"
  | .event => "an event"
  | .result => "a result"
  | .journal => "a journal"
  | .history => "a history index"

def DocKind.schema : DocKind → Node
  | .plan => planNode
  | .event => eventNode
  | .result => resultNode
  | .journal => journalNode
  | .history => historyNode

/-- `x-max-bytes`. -/
def DocKind.maxBytes : DocKind → Nat
  | .plan => 65536
  | .event => 4096
  | .result => 262144
  | .journal => 65536
  | .history => 262144

def sizeCheck (kind : DocKind) (size : Nat) : Option ContractError :=
  if size > kind.maxBytes then
    some ⟨"",toString size ++ " bytes; " ++ kind.label ++ " is at most " ++
      toString kind.maxBytes ++ " bytes",false⟩
  else none

def schemaVersion : Scalar := .int 1

mutual
/-- `json.dumps`, as the messages show a value. -/
def Json.js : Json → String
  | .lit s => s.js
  | .arr items => "[" ++ ", ".intercalate (jsItems items) ++ "]"
  | .obj members => "\x7b" ++ ", ".intercalate (jsMembers members) ++ "\x7d"
def jsItems : List Json → List String
  | [] => []
  | v::vs => v.js :: jsItems vs
def jsMembers : List (String × Json) → List String
  | [] => []
  | (key,v)::rest => ((Scalar.str key).js ++ ": " ++ v.js) :: jsMembers rest
end

def versionCheck (v : Json) : Option ContractError :=
  match v.get "schema_version" with
  | some x =>
      if x.same schemaVersion then none
      else some ⟨"/schema_version","unsupported schema_version " ++ x.js ++ " (this build reads " ++
        schemaVersion.js ++ ")",true⟩
  | none => some ⟨"/schema_version","unsupported schema_version (missing) (this build reads " ++
      schemaVersion.js ++ ")",true⟩

/-- `_assert_valid`, with what the kind's cross-field rules say of the value. -/
def assertValid (kind : DocKind) (v : Json) (rules : Option ContractError) :
    Option ContractError :=
  match canonicalize v with
  | .error e => some e
  | .ok text =>
      match v with
      | .obj _ => sizeCheck kind (utf8Size text) <|> versionCheck v <|>
          ((check kind.schema v "").map fun e => ⟨e.path,e.reason,false⟩) <|> rules
      | _ => some ⟨"",kind.label ++ " must be a JSON object",false⟩

end CircuitBreaker.Lifecycle
