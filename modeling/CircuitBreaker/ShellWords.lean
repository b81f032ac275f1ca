import Mathlib.Data.List.Basic
import Mathlib.Data.List.Infix
import Mathlib.Tactic.SplitIfs

/-! A text's words under a shell's quotes and escapes, read in one pass. -/

namespace ShellWords
open List

abbrev Text := List Char

inductive Mode where
  | space
  | word
  | single
  | double
  | escape
  | escapeDouble
  deriving DecidableEq

/-- The word being read, whether it has a quoted part, and the words before it. -/
structure Lexer where
  mode : Mode := .space
  token : Text := []
  quoted : Bool := false
  words : List Text := []

def isBlank (c : Char) : Bool := c = ' ' || c = '\t' || c = '\r' || c = '\n'

def Lexer.found (s : Lexer) : Bool := s.token ≠ [] || s.quoted

/-- The word, if there is one, ends here. -/
def Lexer.emit (s : Lexer) : Lexer :=
  if s.found then { words := s.words++[s.token] } else { s with mode := .space }

def Lexer.take (s : Lexer) (m : Mode) (cs : Text) : Lexer :=
  { s with
    mode := m
    token := s.token++cs }

/-- Outside quotes a backslash stands for the next character; within double quotes it does so
before a backslash and a double quote only. -/
def Lexer.step (s : Lexer) (c : Char) : Lexer :=
  match s.mode with
  | .space =>
      if isBlank c then s.emit
      else if c = '\\' then { s with mode := .escape }
      else if c = '\'' then { s with mode := .single }
      else if c = '"' then { s with mode := .double }
      else { s with
        mode := .word
        token := [c] }
  | .word =>
      if isBlank c then s.emit
      else if c = '\\' then { s with mode := .escape }
      else if c = '\'' then { s with mode := .single }
      else if c = '"' then { s with mode := .double }
      else s.take .word [c]
  | .single =>
      if c = '\'' then { s with
        mode := .word
        quoted := true }
      else { s.take .single [c] with quoted := true }
  | .double =>
      if c = '"' then { s with
        mode := .word
        quoted := true }
      else if c = '\\' then { s with
        mode := .escapeDouble
        quoted := true }
      else { s.take .double [c] with quoted := true }
  | .escape => s.take .word [c]
  | .escapeDouble => s.take .double (if c = '\\' ∨ c = '"' then [c] else ['\\',c])

def Lexer.run (s : Lexer) (t : Text) : Lexer := t.foldl Lexer.step s

@[simp] theorem Lexer.run_nil (s : Lexer) : s.run [] = s := rfl
@[simp] theorem Lexer.run_cons (s : Lexer) (c : Char) (t : Text) :
    s.run (c::t) = (s.step c).run t := rfl

theorem Lexer.run_append (s : Lexer) (t u : Text) : s.run (t++u) = (s.run t).run u :=
  foldl_append

/-- An open quote or escape is an error. -/
def Lexer.finish (s : Lexer) : Option (List Text) :=
  match s.mode with
  | .space | .word => some (if s.found then s.words++[s.token] else s.words)
  | _ => none

def split (t : Text) : Option (List Text) := (({} : Lexer).run t).finish

/-! What is read of a word stays its beginning, and a word that has ended stays. -/

theorem Lexer.emit_found {s : Lexer} (h : s.token ≠ []) :
    s.emit = { words := s.words++[s.token] } := by
  simp [emit,found,h]

theorem Lexer.step_word_blank {s : Lexer} {c : Char} (hm : s.mode = .word) (ht : s.token ≠ [])
    (hc : isBlank c = true) : s.step c = { words := s.words++[s.token] } := by
  rw [←emit_found ht]
  simp only [step,hm,hc,if_pos]

/-- A word that has begun is extended or ends. -/
theorem Lexer.step_reading {s : Lexer} (c : Char) (hm : s.mode ≠ .space) (ht : s.token ≠ []) :
    (∃ more, (s.step c).token = s.token++more ∧ (s.step c).mode ≠ .space ∧
      (s.step c).words = s.words) ∨ (s.step c).words = s.words++[s.token] := by
  unfold Lexer.step
  cases mode : s.mode with simp only []
  | space => exact absurd mode hm
  | word =>
    split_ifs
    · exact .inr (by rw [emit_found ht])
    · exact .inl ⟨[],(append_nil _).symm,nofun,rfl⟩
    · exact .inl ⟨[],(append_nil _).symm,nofun,rfl⟩
    · exact .inl ⟨[],(append_nil _).symm,nofun,rfl⟩
    · exact .inl ⟨[c],rfl,nofun,rfl⟩
  | single =>
    split_ifs
    · exact .inl ⟨[],(append_nil _).symm,nofun,rfl⟩
    · exact .inl ⟨[c],rfl,nofun,rfl⟩
  | double =>
    split_ifs
    · exact .inl ⟨[],(append_nil _).symm,nofun,rfl⟩
    · exact .inl ⟨[],(append_nil _).symm,nofun,rfl⟩
    · exact .inl ⟨[c],rfl,nofun,rfl⟩
  | escape => exact .inl ⟨[c],rfl,nofun,rfl⟩
  | escapeDouble => exact .inl ⟨_,rfl,nofun,rfl⟩

theorem Lexer.emit_words (s : Lexer) : s.words <+: s.emit.words := by
  unfold emit
  split
  · exact prefix_append _ _
  · exact prefix_rfl

theorem Lexer.step_words (s : Lexer) (c : Char) : s.words <+: (s.step c).words := by
  unfold step
  cases s.mode with
  | space | word => simp only []; split_ifs <;> first | exact s.emit_words | exact prefix_rfl
  | single | double => simp only []; split_ifs <;> exact prefix_rfl
  | escape | escapeDouble => exact prefix_rfl

theorem Lexer.run_words (s : Lexer) (t : Text) : s.words <+: (s.run t).words := by
  induction t generalizing s with
  | nil => exact prefix_rfl
  | cons c t ih => exact (s.step_words c).trans (ih _)

theorem Lexer.finish_words {s : Lexer} {ws : List Text} (h : s.finish = some ws) :
    s.words <+: ws := by
  unfold finish at h
  split at h
  · cases h; split <;> simp
  · cases h; split <;> simp
  · cases h

/-- A word that has begun is one of the words at the end, whole or with more to it. -/
theorem Lexer.run_reading {s : Lexer} {t : Text} {ws : List Text} (hm : s.mode ≠ .space)
    (ht : s.token ≠ []) (h : (s.run t).finish = some ws) :
    ∃ more rest, ws = s.words++(s.token++more)::rest := by
  induction t generalizing s with
  | nil =>
    have found : s.found = true := by simp [found,ht]
    refine ⟨[],[],?_⟩
    cases mode : s.mode with
    | space => exact absurd mode hm
    | word =>
      simp only [run_nil,finish,mode,found,if_pos,Option.some.injEq] at h
      rw [←h,append_nil]
    | _ => simp [finish,mode] at h
  | cons c t ih =>
    cases s.step_reading c hm ht with
    | inl extended =>
      obtain ⟨more,token,mode,words⟩ := extended
      obtain ⟨further,rest,hw⟩ := ih mode (token ▸ append_ne_nil_of_left_ne_nil ht more) h
      exact ⟨more++further,rest,by rw [hw,words,token,append_assoc]⟩
    | inr ended =>
      obtain ⟨rest,hw⟩ := ((s.step c).run_words t).trans (finish_words h)
      exact ⟨[],rest,by rw [←hw,ended,append_nil,append_assoc]; rfl⟩

end ShellWords
