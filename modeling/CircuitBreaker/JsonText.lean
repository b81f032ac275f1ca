import Mathlib.Data.List.Basic
import Mathlib.Algebra.GroupWithZero.Nat
import Mathlib.Algebra.Ring.Int.Defs

/-! JSON texts of strings and integers with everything outside printable ASCII
escaped, as lists of characters. Each writer can be cut off the front of a text in
one way only, so texts joined from them determine what was written. -/

namespace JsonText

variable {α : Type}

/-- The rest of a text after a number. -/
def Ended (s : List Char) : Prop := ∀ c ∈ s.head?, c.isDigit = false

/-- What was written is determined by any text that starts with it and goes on
with something no number runs into. -/
def Determines (write : α → List Char) : Prop :=
  ∀ a b s t, write a ++ s = write b ++ t → Ended s → Ended t → a = b ∧ s = t

/-! ### Integers -/

def decimal : Int → List Char
  | .ofNat n => Nat.toDigits 10 n
  | .negSucc n => '-' :: Nat.toDigits 10 (n+1)

theorem takeWhile_digits (n : Nat) {s : List Char} (h : Ended s) :
    (Nat.toDigits 10 n ++ s).takeWhile Char.isDigit = Nat.toDigits 10 n := by
  rw [List.takeWhile_append_of_pos fun c hc => Nat.isDigit_of_mem_toDigits (by decide) (by decide) hc]
  cases s with
  | nil => simp
  | cons c s => simp [h c (by simp)]

theorem digits_determine : Determines (Nat.toDigits 10) := by
  intro n m s t h hs ht
  have same : Nat.toDigits 10 n = Nat.toDigits 10 m := by
    rw [←takeWhile_digits n hs,h,takeWhile_digits m ht]
  refine ⟨?_,List.append_cancel_left (same ▸ h)⟩
  rw [←Nat.ofDigitChars_ten_toDigits (n := n),same,Nat.ofDigitChars_ten_toDigits]

theorem digits_head {n : Nat} {c : Char} {s t : List Char} (h : Nat.toDigits 10 n ++ s = c::t) :
    c.isDigit = true := by
  cases hd : Nat.toDigits 10 n with
  | nil => exact absurd hd Nat.toDigits_ne_nil
  | cons d ds =>
      rw [hd,List.cons_append] at h
      rw [←(List.cons.inj h).1]
      exact Nat.isDigit_of_mem_toDigits (b := 10) (n := n) (by decide) (by decide) (by simp [hd])

theorem decimal_determines : Determines decimal := by
  intro a b s t h hs ht
  cases a with
  | ofNat n =>
      cases b with
      | ofNat m =>
          obtain ⟨rfl,rest⟩ := digits_determine n m s t h hs ht
          exact ⟨rfl,rest⟩
      | negSucc m => exact absurd (digits_head h) (by decide)
  | negSucc n =>
      cases b with
      | ofNat m => exact absurd (digits_head h.symm) (by decide)
      | negSucc m =>
          obtain ⟨same,rest⟩ := digits_determine _ _ s t (List.cons.inj h).2 hs ht
          exact ⟨by rw [Nat.succ.inj same],rest⟩

/-! ### Strings -/

def hexDigit (n : Nat) : Char := if n < 10 then Char.ofNat (48+n) else Char.ofNat (87+n)
def hexValue (c : Char) : Nat := if c.toNat < 58 then c.toNat-48 else c.toNat-87

theorem hexValue_hexDigit (n : Nat) (h : n < 16) : hexValue (hexDigit n) = n := by
  revert n
  decide

def hexFour (n : Nat) : List Char :=
  [hexDigit (n/4096%16),hexDigit (n/256%16),hexDigit (n/16%16),hexDigit (n%16)]

def hexFourValue (a b c d : Char) : Nat :=
  ((hexValue a*16+hexValue b)*16+hexValue c)*16+hexValue d

theorem hexFourValue_hexFour {n : Nat} (h : n < 65536) :
    hexFourValue (hexDigit (n/4096%16)) (hexDigit (n/256%16)) (hexDigit (n/16%16))
      (hexDigit (n%16)) = n := by
  simp only [hexFourValue]
  rw [hexValue_hexDigit _ (Nat.mod_lt _ (by decide)),hexValue_hexDigit _ (Nat.mod_lt _ (by decide)),
    hexValue_hexDigit _ (Nat.mod_lt _ (by decide)),hexValue_hexDigit _ (Nat.mod_lt _ (by decide))]
  omega

def unicodeEscape (n : Nat) : List Char := '\\' :: 'u' :: hexFour n

/-- The two-character escapes. -/
def shortEscape (c : Char) : Option Char :=
  if c = '"' then some '"'
  else if c = '\\' then some '\\'
  else if c = '\n' then some 'n'
  else if c = '\r' then some 'r'
  else if c = '\t' then some 't'
  else if c = Char.ofNat 12 then some 'f'
  else if c = Char.ofNat 8 then some 'b'
  else none

def escapeAscii (c : Char) : List Char :=
  match shortEscape c with
  | some e => ['\\',e]
  | none =>
      if 32 ≤ c.toNat ∧ c.toNat ≤ 126 then [c]
      else if c.toNat < 65536 then unicodeEscape c.toNat
      else
        unicodeEscape (0xd800+(c.toNat-65536)/1024) ++ unicodeEscape (0xdc00+(c.toNat-65536)%1024)

def quote (s : String) : List Char := '"' :: (s.toList.flatMap escapeAscii ++ ['"'])

def longValue (e : Char) : Nat :=
  if e = 'n' then 10 else if e = 'r' then 13 else if e = 't' then 9
  else if e = 'f' then 12 else if e = 'b' then 8 else e.toNat

/-- One character back from its escape, as a code point; none at the closing quote. -/
def readUnit : List Char → Option (Nat × List Char)
  | [] => none
  | c::rest =>
      if c = '"' then none
      else if c = '\\' then
        match rest with
        | [] => none
        | e::rest =>
            if e = 'u' then
              match rest with
              | a::b::c::d::rest =>
                  let high := hexFourValue a b c d
                  if 0xd800 ≤ high ∧ high < 0xdc00 then
                    match rest with
                    | _::_::a::b::c::d::rest =>
                        some (65536+(high-0xd800)*1024+(hexFourValue a b c d-0xdc00),rest)
                    | _ => none
                  else some (high,rest)
              | _ => none
            else some (longValue e,rest)
      else some (c.toNat,rest)

attribute [local simp] readUnit in
theorem readUnit_unicode {n : Nat} (h : n < 65536) (plain : n < 0xd800 ∨ 0xdc00 ≤ n)
    (s : List Char) : readUnit (unicodeEscape n ++ s) = some (n,s) := by
  have value := hexFourValue_hexFour h
  have high : ¬(0xd800 ≤ n ∧ n < 0xdc00) := by omega
  simp [unicodeEscape,hexFour,value,high]

theorem readUnit_pair {n : Nat} (low : 65536 ≤ n) (h : n < 0x110000) (s : List Char) :
    readUnit (unicodeEscape (0xd800+(n-65536)/1024) ++ unicodeEscape (0xdc00+(n-65536)%1024) ++ s) =
      some (n,s) := by
  have first : 0xd800+(n-65536)/1024 < 65536 := by omega
  have second : 0xdc00+(n-65536)%1024 < 65536 := by omega
  have range : 0xd800 ≤ 0xd800+(n-65536)/1024 ∧ 0xd800+(n-65536)/1024 < 0xdc00 := by omega
  have back : 65536+(0xd800+(n-65536)/1024-0xd800)*1024+(0xdc00+(n-65536)%1024-0xdc00) = n := by
    omega
  simp only [readUnit,unicodeEscape,hexFour,List.cons_append,List.nil_append,
    hexFourValue_hexFour first,hexFourValue_hexFour second]
  rw [if_neg (by decide),if_pos trivial,if_pos trivial,if_pos range,back]

theorem shortEscape_value {c e : Char} (h : shortEscape c = some e) :
    e ≠ 'u' ∧ longValue e = c.toNat := by
  unfold shortEscape at h
  repeat' split at h
  all_goals cases h
  all_goals
    rename_i hc
    subst hc
    decide

theorem readUnit_escape (c : Char) (s : List Char) :
    readUnit (escapeAscii c ++ s) = some (c.toNat,s) := by
  unfold escapeAscii
  cases he : shortEscape c with
  | some e =>
      obtain ⟨hu,value⟩ := shortEscape_value he
      simp [readUnit,hu,value]
  | none =>
      have quote : c ≠ '"' := fun h => by simp [shortEscape,h] at he
      have slash : c ≠ '\\' := fun h => by simp [shortEscape,h] at he
      by_cases printable : 32 ≤ c.toNat ∧ c.toNat ≤ 126
      · simp [printable,readUnit,quote,slash]
      · have valid := c.valid
        simp only [UInt32.isValidChar,Nat.isValidChar] at valid
        have point : c.val.toNat = c.toNat := rfl
        by_cases small : c.toNat < 65536
        · simp only [printable,if_false,small,if_true]
          exact readUnit_unicode small (by omega) s
        · simp only [printable,if_false,small]
          exact readUnit_pair (by omega) (by omega) s

theorem readUnit_quote (s : List Char) : readUnit ('"'::s) = none := by simp [readUnit]

theorem escapes_determine (cs ds : List Char) (s t : List Char)
    (h : cs.flatMap escapeAscii ++ '"'::s = ds.flatMap escapeAscii ++ '"'::t) : cs = ds ∧ s = t := by
  induction cs generalizing ds with
  | nil =>
      cases ds with
      | nil => exact ⟨rfl,(List.cons.inj h).2⟩
      | cons d ds =>
          rw [List.flatMap_cons,List.append_assoc] at h
          have := congrArg readUnit h
          rw [readUnit_escape] at this
          simp [readUnit_quote] at this
  | cons c cs ih =>
      rw [List.flatMap_cons,List.append_assoc] at h
      have first := congrArg readUnit h
      rw [readUnit_escape] at first
      cases ds with
      | nil => simp [readUnit_quote] at first
      | cons d ds =>
          rw [List.flatMap_cons,List.append_assoc,readUnit_escape] at first
          obtain ⟨point,rest⟩ := Prod.mk.inj (Option.some.inj first)
          obtain ⟨same,tail⟩ := ih ds rest
          exact ⟨by rw [Char.toNat_inj.mp point,same],tail⟩

theorem quote_determines : Determines quote := by
  intro a b s t h _ _
  have inner : a.toList.flatMap escapeAscii ++ '"'::s = b.toList.flatMap escapeAscii ++ '"'::t := by
    simpa [quote] using h
  obtain ⟨same,rest⟩ := escapes_determine _ _ _ _ inner
  exact ⟨String.toList_inj.mp same,rest⟩

/-! ### Scalars -/

def null : List Char := ['n','u','l','l']

/-- A value or null, for a writer that never starts with n. -/
def nullable (write : α → List Char) : Option α → List Char
  | none => null
  | some a => write a

theorem nullable_determines {write : α → List Char} (h : Determines write)
    (start : ∀ a s t, write a ++ s ≠ 'n'::t) : Determines (nullable write) := by
  intro a b s t same hs ht
  cases a with
  | none =>
      cases b with
      | none => exact ⟨rfl,List.append_cancel_left same⟩
      | some b => exact absurd same.symm (start b t _)
  | some a =>
      cases b with
      | none => exact absurd same (start a s _)
      | some b =>
          obtain ⟨rfl,rest⟩ := h a b s t same hs ht
          exact ⟨rfl,rest⟩

theorem quote_start (a : String) (s t : List Char) : quote a ++ s ≠ 'n'::t := by
  simp [quote]

theorem decimal_start (a : Int) (s t : List Char) : decimal a ++ s ≠ 'n'::t := by
  intro h
  cases a with
  | ofNat n => exact absurd (digits_head h) (by decide)
  | negSucc n => exact absurd (List.cons.inj h).1 (by decide)

end JsonText
