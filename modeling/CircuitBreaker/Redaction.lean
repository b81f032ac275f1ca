import CircuitBreaker.ContractSchemas

/-! `redact_text`: contract text from any text a producer writes into a document. -/

namespace CircuitBreaker.Lifecycle
open TextPattern

/-- A substitution that keeps its first group and writes `text` for the rest. -/
structure Mask where
  kept : Pattern
  rest : Pattern
  text : String

/-- The first match from `p` in backtracking order: where its group and itself end. -/
def Mask.matchAt (m : Mask) (p : Pos) : Option (Pos × Pos) :=
  ((m.kept.ends p).flatMap fun k => (m.rest.ends k).map fun e => (k,e)).head?

/-- `re.sub` for masks that never match the empty text. -/
def Mask.subFrom (m : Mask) : Nat → Pos → List Char
  | 0, p => p.rest
  | fuel+1, p =>
      match m.matchAt p with
      | some (k,e) =>
          p.rest.take (p.rest.length-k.rest.length) ++ m.text.toList ++ m.subFrom fuel e
      | none =>
          match p.rest with
          | [] => []
          | c::cs => c :: m.subFrom fuel ⟨false,cs⟩

def Mask.sub (m : Mask) (t : List Char) : List Char := m.subFrom (t.length+1) ⟨true,t⟩

def anyChar : Pattern := outside []

def privateKeyMask : Mask :=
  ⟨.eps,cat [privateKey,either
      [cat [.rep anyChar 0 none false,lit "-----END ",many (among (upper ++ digits ++ chars " ")),
        lit "PRIVATE KEY-----"],
      many anyChar]],"[redacted private key]"⟩

def urlMask : Mask :=
  ⟨cat [among (upper ++ lower),many (among (alnum ++ chars "+.-")),lit "://"],
    cat [many (outside (chars "/?#@ " ++ [(0,0x1f)])),single ':',
      many (outside (chars "/?#@ " ++ [(0,0x1f)])),single '@'],"[redacted]@"⟩

def bearerMask : Mask :=
  ⟨either [lit "Bearer",lit "bearer",lit "BEARER"],
    cat [single ' ',.rep (among (alnum ++ chars "._~+/=-")) 8 none]," [redacted]"⟩

def assignmentMask : Mask :=
  ⟨either [cat [among (chars "Pp"),lit "ass",either [lit "word",lit "wd"]],
      cat [lit "PASS",either [lit "WORD",lit "WD"]],
      cat [among (chars "Ss"),lit "ecret"],lit "SECRET",
      cat [among (chars "Tt"),lit "oken"],lit "TOKEN",
      cat [among (chars "Aa"),lit "pi",optional (single '_'),among (chars "Kk"),lit "ey"],
      cat [lit "API",optional (single '_'),lit "KEY"],
      cat [among (chars "Vv"),lit "ault_",among (chars "Kk"),lit "ey"],lit "VAULT_KEY"],
    cat [optional (single ' '),among (chars "=:"),optional (single ' '),
      optional (cat [among (chars "=:"),optional (single ' ')]),
      some1 (outside (chars " " ++ [(0,0x1f)]))]," (redacted)"⟩

def credentials : List Mask := [privateKeyMask,urlMask,bearerMask,assignmentMask]

def credentialShaped (t : List Char) : Bool :=
  credentialShapes.any fun shape => shape.pattern.search t

def unredactable : String := "[redacted: the text looked like it held a credential]"

def cutSeparator : Mask := ⟨.eps,cat [some1 (among (chars " =:")),.stop],""⟩

def controlClass (singleLine : Bool) : CharClass :=
  ⟨if singleLine then controls else textControls,false⟩

def escapeControl (singleLine : Bool) (c : Char) : List Char :=
  if (controlClass singleLine).has c then
    ['\\','u','0','0',hexDigit (c.toNat/16),hexDigit (c.toNat%16)]
  else [c]

def maskRounds : Nat → List Char → List Char
  | 0, t => t
  | n+1, t =>
      if credentialShaped t then maskRounds n (credentials.foldl (fun t m => m.sub t) t) else t

def redactText (value : String) (maxLength : Nat) (singleLine : Bool) : String :=
  let masked := maskRounds 4 (value.toList.flatMap (escapeControl singleLine))
  let text := if credentialShaped masked then unredactable.toList else masked
  if text.length ≤ maxLength then String.ofList text
  else
    let cut := text.take (maxLength-1)
    let cut := if credentialShaped (cut ++ ['…']) then cutSeparator.sub cut else cut
    String.ofList (cut ++ ['…'])

theorem redactText_clean {s : String} {most : Nat} {singleLine : Bool}
    (plain : ∀ c ∈ s.toList, (controlClass singleLine).has c = false)
    (clean : credentialShaped s.toList = false) (short : s.toList.length ≤ most) :
    redactText s most singleLine = s := by
  have same : s.toList.flatMap (escapeControl singleLine) = s.toList := by
    calc s.toList.flatMap (escapeControl singleLine)
        = s.toList.flatMap fun c => [c] := by
          apply List.flatMap_congr
          intro c hc
          simp [escapeControl,plain c hc]
      _ = s.toList := by simp
  simp only [redactText,same,maskRounds,clean,Bool.false_eq_true,if_false]
  rw [if_pos short]
  exact String.ofList_toList

end CircuitBreaker.Lifecycle
