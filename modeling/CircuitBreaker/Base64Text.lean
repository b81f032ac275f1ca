import Mathlib.Data.List.TakeWhile

/-! Base64 texts, read by a decoder that ignores what is wrong with the end of a text and by one that
does not. -/

namespace Base64Text

abbrev Text := List Char
abbrev Bytes := List UInt8

def isDigit64 (c : Char) : Bool := c.isAlphanum || c = '+' || c = '/'

def sextet (c : Char) : Nat :=
  if c.isUpper then c.toNat-65
  else if c.isLower then c.toNat-71
  else if c.isDigit then c.toNat+4
  else if c = '+' then 62
  else 63

/-- The whole bytes that a row of six-bit digits has. -/
def bytes : List Nat → Bytes
  | a::b::c::d::rest =>
    UInt8.ofNat (4*a+b/16)::UInt8.ofNat (16*(b%16)+c/4)::UInt8.ofNat (64*(c%4)+d)::bytes rest
  | [a,b,c] => [UInt8.ofNat (4*a+b/16),UInt8.ofNat (16*(b%16)+c/4)]
  | [a,b] => [UInt8.ofNat (4*a+b/16)]
  | _ => []

/-- The digits end where a byte can, and the bits that are left over are zero. -/
def closes : List Nat → Bool
  | _::_::_::_::rest => closes rest
  | [_,_,c] => c%4 = 0
  | [_,b] => b%16 = 0
  | [_] => false
  | [] => true

def digits (t : Text) : Text := t.takeWhile isDigit64
def pad (t : Text) : Text := t.dropWhile isDigit64

def padded (t : Text) : Bool := (pad t).all (· = '=') && (pad t).length ≤ 2

/-- `^[A-Za-z0-9+/]+={0,2}$` -/
def looksBase64 (t : Text) : Bool := digits t ≠ [] && padded t

/-- Of a text that looks like base64; the padding and the left bits are not looked at. -/
def lenient (t : Text) : Bytes := bytes ((digits t).map sextet)

/-- RFC 4648, with its padding and with zero bits under it. -/
def canonical (t : Text) : Bool :=
  padded t && t.length%4 = 0 && closes ((digits t).map sextet)

def strict (t : Text) : Option Bytes := if canonical t then some (lenient t) else none

theorem strict_some {t : Text} {b : Bytes} (h : strict t = some b) : canonical t = true ∧ b = lenient t := by
  unfold strict at h
  split at h
  case isTrue yes => exact ⟨yes,(Option.some.inj h).symm⟩
  case isFalse => exact nomatch h

theorem strict_canonical {t : Text} (h : canonical t = true) : strict t = some (lenient t) := if_pos h

theorem canonical_padded {t : Text} (h : canonical t = true) : padded t = true := by
  unfold canonical at h
  rw [Bool.and_eq_true,Bool.and_eq_true] at h
  exact h.1.1

/-- A strict text that has bytes looks like base64. -/
theorem canonical_looks {t : Text} (h : canonical t = true) (some_ : lenient t ≠ []) : looksBase64 t = true := by
  have digits_ : digits t ≠ [] := by
    intro none
    refine some_ ?_
    unfold lenient
    rw [none]
    rfl
  unfold looksBase64
  rw [canonical_padded h,decide_eq_true digits_]
  rfl

/-- The characters of a padded text. -/
theorem padded_chars {t : Text} (h : padded t = true) : ∀ c ∈ t, isDigit64 c = true ∨ c = '=' := by
  intro c hc
  unfold padded at h
  rw [←@List.takeWhile_append_dropWhile _ isDigit64 t] at hc
  obtain digit | rest := List.mem_append.1 hc
  · exact .inl (List.mem_takeWhile_imp digit)
  · exact .inr (of_decide_eq_true (List.all_eq_true.1 (Bool.and_eq_true_iff.1 h).1 c rest))

end Base64Text
