import Mathlib.Data.List.Basic

/-! Programs that act on an outside device one action at a time. A process can
be killed before any action, so besides the result of a program the rules speak
about every device state a killed run leaves behind. -/

namespace DiskProgram

/-- A program ends with a value, or takes one action and goes on with the
device's answer. -/
inductive Prog (A R α : Type) where
  | done : α → Prog A R α
  | act : A → (R → Prog A R α) → Prog A R α

variable {A R D α β : Type}

def Prog.bind : Prog A R α → (α → Prog A R β) → Prog A R β
  | .done a, f => f a
  | .act a k, f => .act a (fun r => (k r).bind f)

instance : Monad (Prog A R) where
  pure := .done
  bind := Prog.bind

/-- One action, answered. -/
def perform (a : A) : Prog A R R := .act a .done

def Prog.run (dev : A → D → R × D) : Prog A R α → D → α × D
  | .done a, d => (a,d)
  | .act a k, d => (k (dev a d).1).run dev (dev a d).2

/-- Every point a kill can strike: the device as it is, and the action about to be taken. -/
def Prog.points (dev : A → D → R × D) : Prog A R α → D → List (D × A)
  | .done _, _ => []
  | .act a k, d => (d,a) :: (k (dev a d).1).points dev (dev a d).2

/-- The result of a program under scripted answers, so under any device at all,
one that fails included. -/
def Prog.replay : Prog A R α → List R → Option α
  | .done a, [] => some a
  | .act _ k, r :: rs => (k r).replay rs
  | _, _ => none

/-- `C` holds at every point of the run, and `Q` of its result. -/
def Prog.wp (dev : A → D → R × D) (C : D → A → Prop) (Q : α → D → Prop) :
    Prog A R α → D → Prop
  | .done a, d => Q a d
  | .act a k, d => C d a ∧ (k (dev a d).1).wp dev C Q (dev a d).2

/-- `Q` holds of the result whatever the device answers. -/
def Prog.Always (Q : α → Prop) : Prog A R α → Prop
  | .done a => Q a
  | .act _ k => ∀ r, (k r).Always Q

@[simp] theorem Prog.pure_eq (a : α) : (pure a : Prog A R α) = .done a := rfl
@[simp] theorem Prog.bind_eq (p : Prog A R α) (f : α → Prog A R β) : p >>= f = p.bind f := rfl
@[simp] theorem Prog.done_bind (a : α) (f : α → Prog A R β) :
    (Prog.done a : Prog A R α).bind f = f a := rfl
@[simp] theorem Prog.act_bind (a : A) (k : R → Prog A R α) (f : α → Prog A R β) :
    (Prog.act a k).bind f = .act a (fun r => (k r).bind f) := rfl
@[simp] theorem perform_bind (a : A) (f : R → Prog A R β) :
    (perform a : Prog A R R).bind f = .act a f := rfl

theorem Prog.wp_bind (dev : A → D → R × D) (C : D → A → Prop) (Q : β → D → Prop)
    (p : Prog A R α) (f : α → Prog A R β) (d : D) :
    (p.bind f).wp dev C Q d ↔ p.wp dev C (fun a d' => (f a).wp dev C Q d') d := by
  induction p generalizing d with
  | done a => rfl
  | act a k ih => simp only [act_bind,wp,ih]

theorem Prog.wp_mono {dev : A → D → R × D} {C C' : D → A → Prop} {Q Q' : α → D → Prop}
    {p : Prog A R α} {d : D} (h : p.wp dev C Q d) (hc : ∀ d' a, C d' a → C' d' a)
    (hq : ∀ a d', Q a d' → Q' a d') : p.wp dev C' Q' d := by
  induction p generalizing d with
  | done a => exact hq _ _ h
  | act a k ih => exact ⟨hc _ _ h.1,ih _ h.2⟩

theorem Prog.wp_iff (dev : A → D → R × D) (C : D → A → Prop) (Q : α → D → Prop)
    (p : Prog A R α) (d : D) :
    p.wp dev C Q d ↔ (∀ x ∈ p.points dev d, C x.1 x.2) ∧ Q (p.run dev d).1 (p.run dev d).2 := by
  induction p generalizing d with
  | done a => simp [wp,points,run]
  | act a k ih => simp only [wp,points,run,ih,List.forall_mem_cons,and_assoc]

theorem Prog.always_bind (Q : β → Prop) (p : Prog A R α) (f : α → Prog A R β) :
    (p.bind f).Always Q ↔ p.Always (fun a => (f a).Always Q) := by
  induction p with
  | done a => rfl
  | act a k ih => simp only [act_bind,Always,ih]

theorem Prog.always_mono {Q Q' : α → Prop} {p : Prog A R α} (h : p.Always Q)
    (hq : ∀ a, Q a → Q' a) : p.Always Q' := by
  induction p with
  | done a => exact hq _ h
  | act a k ih => exact fun r => ih r (h r)

theorem Prog.Always.replay {Q : α → Prop} {p : Prog A R α} (h : p.Always Q) {rs : List R} {a : α}
    (hr : p.replay rs = some a) : Q a := by
  induction p generalizing rs with
  | done b =>
    cases rs with
    | nil => simp only [Prog.replay,Option.some.injEq] at hr; subst hr; exact h
    | cons r rs => simp [Prog.replay] at hr
  | act b k ih =>
    cases rs with
    | nil => simp [Prog.replay] at hr
    | cons r rs => exact ih r (h r) hr

theorem Prog.Always.run {Q : α → Prop} {p : Prog A R α} (h : p.Always Q)
    (dev : A → D → R × D) (d : D) : Q (p.run dev d).1 := by
  induction p generalizing d with
  | done a => exact h
  | act a k ih => exact ih _ (h _) _

end DiskProgram
