import Mathlib.Data.Option.Basic

/-!
# `NoPanic`: programs that return errors and may panic

An `ExceptT ε Option α` ends with a value or with an error for its caller, or it panics (`none`).
`NoPanic x` says that `x` does not panic, and `Yields x a` that it ends with the value `a`.

A sequence panics only in a part that it reaches (`noPanic_bind`). What returns an error is lifted
from `Except`, and what panics is lifted from `Option`, so `simp` reads off where a program may
panic.
-/

set_option autoImplicit false

variable {ε α β : Type}

/-- `x` ends with a value or an error. -/
def NoPanic (x : ExceptT ε Option α) : Prop := x.run.isSome = true

/-- Whether a computation panics can be computed where it can be run. -/
instance (x : ExceptT ε Option α) : Decidable (NoPanic x) := inferInstanceAs (Decidable (_ = true))

/-- `x` ends with that value. -/
def Yields (x : ExceptT ε Option α) (a : α) : Prop := x.run = some (.ok a)

/-- A returned value is no panic. -/
@[simp] theorem noPanic_pure (a : α) : NoPanic (pure a : ExceptT ε Option α) := rfl

/-- An error is no panic. -/
@[simp] theorem noPanic_liftExcept (e : Except ε α) : NoPanic (liftM e : ExceptT ε Option α) := rfl

/-- An optional value panics where it is missing. -/
@[simp] theorem noPanic_liftOption (o : Option α) :
    NoPanic (liftM o : ExceptT ε Option α) ↔ o.isSome = true := by
  cases o <;>
    simp [NoPanic, liftM, monadLift, MonadLift.monadLift, ExceptT.lift, ExceptT.mk, ExceptT.run]

/-- A returned value yields itself only. -/
@[simp] theorem yields_pure (a b : α) : Yields (pure a : ExceptT ε Option α) b ↔ a = b := by
  simp [Yields, pure, ExceptT.pure, ExceptT.mk, ExceptT.run]

/-- A fallible value yields what it succeeds with. -/
@[simp] theorem yields_liftExcept (e : Except ε α) (a : α) :
    Yields (liftM e : ExceptT ε Option α) a ↔ e = .ok a := by
  simp [Yields, liftM, monadLift, MonadLift.monadLift, ExceptT.mk, ExceptT.run, pure]

/-- An optional value yields what is there. -/
@[simp] theorem yields_liftOption (o : Option α) (a : α) :
    Yields (liftM o : ExceptT ε Option α) a ↔ o = some a := by
  cases o <;>
    simp [Yields, liftM, monadLift, MonadLift.monadLift, ExceptT.lift, ExceptT.mk, ExceptT.run]

/-- The second part of a sequence runs when the first one has ended with a value. -/
@[simp] theorem yields_bind {x : ExceptT ε Option α} {f : α → ExceptT ε Option β} {b : β} :
    Yields (x >>= f) b ↔ ∃ a, Yields x a ∧ Yields (f a) b := by
  unfold Yields
  rw [ExceptT.run_bind]
  cases hx : x.run with
  | none => simp
  | some e =>
    cases e with
    | error error => simp
    | ok a => simp

/-- A sequence does not panic when its first part does not, and its second part does not from any
value of the first. -/
@[simp] theorem noPanic_bind {x : ExceptT ε Option α} {f : α → ExceptT ε Option β} :
    NoPanic (x >>= f) ↔ NoPanic x ∧ ∀ a, Yields x a → NoPanic (f a) := by
  unfold NoPanic Yields
  rw [ExceptT.run_bind]
  cases hx : x.run with
  | none => simp
  | some e =>
    cases e with
    | error error => simp
    | ok a => simp

/-- Mapping a pure function over the value. -/
@[simp] theorem yields_map {x : ExceptT ε Option α} {f : α → β} {b : β} :
    Yields (f <$> x) b ↔ ∃ a, Yields x a ∧ f a = b := by
  rw [← bind_pure_comp, yields_bind]
  simp

/-- A function of the result adds no panic. -/
@[simp] theorem noPanic_map {x : ExceptT ε Option α} {f : α → β} :
    NoPanic (f <$> x) ↔ NoPanic x := by
  rw [← bind_pure_comp, noPanic_bind]
  simp
