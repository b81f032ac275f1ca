import Mathlib.Data.List.Basic
import Mathlib.Algebra.GroupWithZero.Nat
import Mathlib.Algebra.Ring.Int.Defs

/-! Byte texts cut into newline-terminated lines, and decimal numbers written as
bytes: the readers agree with the writers. -/

namespace ByteLines

abbrev Bytes := List UInt8

def newline : UInt8 := 10
def carriageReturn : UInt8 := 13

/-- The pieces between newlines; what follows the last newline is a piece only
when it is not empty. -/
def cut : Bytes → Bytes → List Bytes
  | piece, [] => if piece = [] then [] else [piece.reverse]
  | piece, b :: bs => if b = newline then piece.reverse :: cut [] bs else cut (b :: piece) bs

def rawLines (bs : Bytes) : List Bytes := cut [] bs

def dropCarriageReturn (line : Bytes) : Bytes :=
  if line.getLast? = some carriageReturn then line.dropLast else line

/-- A line reader whose buffer holds `limit` bytes: a line that does not fit
with its newline is an error, and a final carriage return is not part of a line. -/
def scanLines (limit : Nat) (bs : Bytes) : Option (List Bytes) :=
  if (rawLines bs).all (·.length < limit) then some ((rawLines bs).map dropCarriageReturn) else none

def unlines (lines : List Bytes) : Bytes := lines.flatMap (· ++ [newline])

@[simp] theorem unlines_nil : unlines [] = [] := rfl

@[simp] theorem unlines_append (ls ms : List Bytes) :
    unlines (ls ++ ms) = unlines ls ++ unlines ms := by simp [unlines]

theorem unlines_singleton (l : Bytes) : unlines [l] = l ++ [newline] := by simp [unlines]

theorem cut_line (piece l rest : Bytes) (h : newline ∉ l) :
    cut piece (l ++ newline :: rest) = (piece.reverse ++ l) :: cut [] rest := by
  induction l generalizing piece with
  | nil => simp [cut]
  | cons b l ih =>
    have hb : b ≠ newline := fun e => h (by simp [e])
    have hl : newline ∉ l := fun m => h (by simp [m])
    simp [cut,hb,ih (b :: piece) hl]

theorem rawLines_unlines (ls : List Bytes) (h : ∀ l ∈ ls, newline ∉ l) :
    rawLines (unlines ls) = ls := by
  induction ls with
  | nil => rfl
  | cons l ls ih =>
    have hl := h l (by simp)
    have ht := ih (fun m hm => h m (by simp [hm]))
    have hc : unlines (l :: ls) = l ++ newline :: unlines ls := by simp [unlines]
    rw [rawLines,hc,cut_line [] l _ hl]
    simpa [rawLines] using ht

/-- A line the reader hands back unchanged. -/
def Plain (limit : Nat) (l : Bytes) : Prop :=
  newline ∉ l ∧ l.getLast? ≠ some carriageReturn ∧ l.length < limit

theorem scanLines_unlines {limit : Nat} {ls : List Bytes} (h : ∀ l ∈ ls, Plain limit l) :
    scanLines limit (unlines ls) = some ls := by
  have hr := rawLines_unlines ls (fun l hl => (h l hl).1)
  have hd : ls.map dropCarriageReturn = ls :=
    (List.map_congr_left fun l hl => if_neg (h l hl).2.1).trans (List.map_id ls)
  have ha : ls.all (·.length < limit) = true := by
    simpa using fun l hl => (h l hl).2.2
  simp only [scanLines,hr,ha,hd,if_true]

/-! Decimal numbers. -/

def digitByte (c : Char) : UInt8 := UInt8.ofNat c.toNat

def itoa (n : Nat) : Bytes := (Nat.toDigits 10 n).map digitByte

def isDigitByte (b : UInt8) : Bool := 48 ≤ b.toNat && b.toNat ≤ 57

def digitsValue (bs : Bytes) : Nat := bs.foldl (fun acc b => 10*acc + (b.toNat-48)) 0

def parseDigits (bs : Bytes) : Option Nat :=
  if bs ≠ [] ∧ bs.all isDigitByte then some (digitsValue bs) else none

/-- A signed 64-bit decimal, with an optional sign. -/
def atoi : Bytes → Option Int
  | 45 :: bs => (parseDigits bs).bind fun n => if n ≤ 2^63 then some (-(n : Int)) else none
  | 43 :: bs => (parseDigits bs).bind fun n => if n < 2^63 then some (n : Int) else none
  | bs => (parseDigits bs).bind fun n => if n < 2^63 then some (n : Int) else none

/-- The Unicode white space characters outside ASCII, in UTF-8. -/
def wideSpaces : List Bytes :=
  [[0xC2,0x85],[0xC2,0xA0],[0xE1,0x9A,0x80],[0xE2,0x80,0x80],[0xE2,0x80,0x81],[0xE2,0x80,0x82],
    [0xE2,0x80,0x83],[0xE2,0x80,0x84],[0xE2,0x80,0x85],[0xE2,0x80,0x86],[0xE2,0x80,0x87],
    [0xE2,0x80,0x88],[0xE2,0x80,0x89],[0xE2,0x80,0x8A],[0xE2,0x80,0xA8],[0xE2,0x80,0xA9],
    [0xE2,0x80,0xAF],[0xE2,0x81,0x9F],[0xE3,0x80,0x80]]

/-- The width of the white space character a text starts with, 0 when it starts
with none; `wide` lists the characters wider than a byte as the text is read. -/
def spaceWidth (wide : List Bytes) : Bytes → Nat
  | [] => 0
  | b :: bs =>
      if (9 ≤ b.toNat ∧ b.toNat ≤ 13) ∨ b.toNat = 32 then 1
      else ((wide.find? (·.isPrefixOf (b :: bs))).map List.length).getD 0

def strip (wide : List Bytes) : Nat → Bytes → Bytes
  | 0, bs => bs
  | k+1, bs =>
      if spaceWidth wide bs = 0 then bs else strip wide k (bs.drop (spaceWidth wide bs))

def trimSpace (bs : Bytes) : Bytes :=
  let left := strip wideSpaces bs.length bs
  (strip (wideSpaces.map List.reverse) left.length left.reverse).reverse

theorem isDigitByte_digitByte {c : Char} (h : c.isDigit) :
    isDigitByte (digitByte c) ∧ (digitByte c).toNat = c.toNat := by
  have hc : 48 ≤ c.toNat ∧ c.toNat ≤ 57 := by
    simp only [Char.isDigit,Bool.and_eq_true,decide_eq_true_eq] at h
    exact ⟨h.1,h.2⟩
  have hn : (digitByte c).toNat = c.toNat := by
    simp only [digitByte,UInt8.toNat_ofNat']
    omega
  refine ⟨?_,hn⟩
  simp only [isDigitByte,hn,Bool.and_eq_true,decide_eq_true_eq]
  exact hc

theorem isDigitByte_of_mem_itoa {n : Nat} {b : UInt8} (h : b ∈ itoa n) : isDigitByte b := by
  obtain ⟨c,hc,rfl⟩ := List.mem_map.mp h
  exact (isDigitByte_digitByte (Nat.isDigit_of_mem_toDigits (by decide) (by decide) hc)).1

theorem itoa_ne_nil (n : Nat) : itoa n ≠ [] := by
  simp [itoa,Nat.toDigits_ne_nil]

theorem digitsValue_map (cs : List Char) (h : ∀ c ∈ cs, c.isDigit) (acc : Nat) :
    (cs.map digitByte).foldl (fun acc b => 10*acc + (b.toNat-48)) acc = Nat.ofDigitChars 10 cs acc := by
  induction cs generalizing acc with
  | nil => simp
  | cons c cs ih =>
    have hc := (isDigitByte_digitByte (h c (by simp))).2
    simp [Nat.ofDigitChars_cons,hc,ih (fun d hd => h d (by simp [hd]))]

theorem parseDigits_itoa (n : Nat) : parseDigits (itoa n) = some n := by
  have hv : digitsValue (itoa n) = n := by
    rw [digitsValue,itoa,digitsValue_map _ fun c hc =>
      Nat.isDigit_of_mem_toDigits (by decide) (by decide) hc]
    exact Nat.ofDigitChars_ten_toDigits
  have ha : (itoa n).all isDigitByte = true :=
    List.all_eq_true.mpr fun b hb => isDigitByte_of_mem_itoa hb
  simp [parseDigits,itoa_ne_nil,ha,hv]

theorem atoi_itoa {n : Nat} (h : n < 2^63) : atoi (itoa n) = some (n : Int) := by
  have hp := parseDigits_itoa n
  unfold atoi
  split
  · rename_i bs he
    have := isDigitByte_of_mem_itoa (n := n) (b := 45) (by simp [he])
    simp [isDigitByte] at this
  · rename_i bs he
    have := isDigitByte_of_mem_itoa (n := n) (b := 43) (by simp [he])
    simp [isDigitByte] at this
  · rw [hp]
    exact if_pos h

theorem spaceWidth_digit {wide : List Bytes} {b : UInt8} (bs : Bytes) (h : isDigitByte b)
    (hw : ∀ w ∈ wide, 128 ≤ (w.headD 0).toNat) : spaceWidth wide (b :: bs) = 0 := by
  simp only [isDigitByte,Bool.and_eq_true,decide_eq_true_eq] at h
  have hf : wide.find? (·.isPrefixOf (b :: bs)) = none := by
    rw [List.find?_eq_none]
    intro w hm
    have hc := hw w hm
    cases w with
    | nil => simp at hc
    | cons c cs =>
      have hne : c ≠ b := by rintro rfl; simp at hc; omega
      simp [List.isPrefixOf,hne]
  simp only [spaceWidth,hf]
  rw [if_neg (by omega)]
  rfl

theorem strip_of_width_zero {wide : List Bytes} {bs : Bytes} (h : spaceWidth wide bs = 0) (k : Nat) :
    strip wide k bs = bs := by
  cases k <;> simp [strip,h]

theorem strip_newline {wide : List Bytes} {bs : Bytes} (h : spaceWidth wide bs = 0) (k : Nat) :
    strip wide (k+1) (newline :: bs) = bs := by
  have hn : spaceWidth wide (newline :: bs) = 1 := rfl
  simp [strip,hn,strip_of_width_zero h]

theorem trimSpace_itoa_newline (n : Nat) : trimSpace (itoa n ++ [newline]) = itoa n := by
  have hleft : strip wideSpaces (itoa n ++ [newline]).length (itoa n ++ [newline]) =
      itoa n ++ [newline] := by
    obtain ⟨b,bs,hb⟩ := List.exists_cons_of_ne_nil (itoa_ne_nil n)
    apply strip_of_width_zero
    rw [hb,List.cons_append]
    exact spaceWidth_digit _ (isDigitByte_of_mem_itoa (n := n) (by simp [hb])) (by decide)
  have hright : spaceWidth (wideSpaces.map List.reverse) (itoa n).reverse = 0 := by
    obtain ⟨b,bs,hb⟩ := List.exists_cons_of_ne_nil
      (by simpa using itoa_ne_nil n : (itoa n).reverse ≠ [])
    rw [hb]
    exact spaceWidth_digit bs
      (isDigitByte_of_mem_itoa (n := n) (List.mem_reverse.mp (by simp [hb]))) (by decide)
  have hr : (itoa n ++ [newline]).reverse = newline :: (itoa n).reverse := by simp
  have hl : (itoa n ++ [newline]).length = (itoa n).length+1 := by simp
  simp only [trimSpace,hleft,hr]
  rw [hl,strip_newline hright,List.reverse_reverse]

end ByteLines
