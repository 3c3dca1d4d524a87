import Mathlib.Data.Finset.Max
import Mathlib.Logic.Function.Basic

/-!
# Mutexes that are taken in one order

A task takes and gives back mutexes of a type `μ`. `LockProgram` is the shape of its code as far as
mutexes go: a guard lives for a block (`hold`), blocks follow each other (`seq`), and branches and
loops are open (`choice`, `loop`). `Trace p t` says that `t` is the sequence of acquisitions and
releases of one execution of `p`.

A pool has a task at each index. A step of the pool is an action of one task, and an acquisition
needs a mutex that no task holds. A finite set of tasks is deadlocked when each of them waits for a
mutex that another one of them holds.

`LockProgram.Ordered rank` says that a program takes a mutex only while the ones it holds have
smaller ranks. `not_deadlocked` says that the tasks of ordered programs never deadlock, in any
number and with any interleaving.
-/

set_option autoImplicit false

/-- What a task does to a mutex. -/
inductive LockAction (μ : Type)
  | acquire (m : μ)
  | release (m : μ)

/-- The mutexes of a piece of code. -/
inductive LockProgram (μ : Type)
  | skip
  /-- A guard of `m` lives while the body runs. -/
  | hold (m : μ) (body : LockProgram μ)
  | seq (first second : LockProgram μ)
  | choice (left right : LockProgram μ)
  | loop (body : LockProgram μ)

namespace LockProgram

variable {μ : Type}

/-- A guard that lives for no other acquisition. -/
def take (m : μ) : LockProgram μ := .hold m .skip

/-- A branch that may be left out. -/
def maybe (p : LockProgram μ) : LockProgram μ := .choice .skip p

/-- The actions of one execution. -/
inductive Trace : LockProgram μ → List (LockAction μ) → Prop
  | skip : Trace .skip []
  | hold {m : μ} {body : LockProgram μ} {t : List (LockAction μ)} (h : Trace body t) :
      Trace (.hold m body) (.acquire m :: (t ++ [.release m]))
  | seq {first second : LockProgram μ} {t t' : List (LockAction μ)} (h : Trace first t)
      (h' : Trace second t') : Trace (.seq first second) (t ++ t')
  | left {left right : LockProgram μ} {t : List (LockAction μ)} (h : Trace left t) :
      Trace (.choice left right) t
  | right {left right : LockProgram μ} {t : List (LockAction μ)} (h : Trace right t) :
      Trace (.choice left right) t
  | done {body : LockProgram μ} : Trace (.loop body) []
  | again {body : LockProgram μ} {t t' : List (LockAction μ)} (h : Trace body t)
      (h' : Trace (.loop body) t') : Trace (.loop body) (t ++ t')

/-- Every program has an execution. -/
theorem exists_trace (p : LockProgram μ) : ∃ t, Trace p t := by
  induction p with
  | skip => exact ⟨[], .skip⟩
  | hold m body ih =>
    obtain ⟨t, h⟩ := ih
    exact ⟨_, .hold h⟩
  | seq first second ih ih' =>
    obtain ⟨t, h⟩ := ih
    obtain ⟨t', h'⟩ := ih'
    exact ⟨_, .seq h h'⟩
  | choice left right ih _ =>
    obtain ⟨t, h⟩ := ih
    exact ⟨t, .left h⟩
  | loop body _ => exact ⟨[], .done⟩

variable (rank : μ → ℕ)

/-- The program takes mutexes of rank `bound` and above only, and nests them in growing ranks. -/
def Ordered : ℕ → LockProgram μ → Prop
  | _, .skip => True
  | bound, .hold m body => bound ≤ rank m ∧ Ordered (rank m + 1) body
  | bound, .seq first second => Ordered bound first ∧ Ordered bound second
  | bound, .choice left right => Ordered bound left ∧ Ordered bound right
  | bound, .loop body => Ordered bound body

/-- Whether a program keeps to an order can be computed. -/
instance : ∀ (bound : ℕ) (p : LockProgram μ), Decidable (p.Ordered rank bound)
  | _, .skip => inferInstanceAs (Decidable True)
  | bound, .hold m body =>
    have := instDecidableOrdered (rank m + 1) body
    inferInstanceAs (Decidable (bound ≤ rank m ∧ Ordered rank (rank m + 1) body))
  | bound, .seq first second =>
    have := instDecidableOrdered bound first
    have := instDecidableOrdered bound second
    inferInstanceAs (Decidable (Ordered rank bound first ∧ Ordered rank bound second))
  | bound, .choice left right =>
    have := instDecidableOrdered bound left
    have := instDecidableOrdered bound right
    inferInstanceAs (Decidable (Ordered rank bound left ∧ Ordered rank bound right))
  | bound, .loop body => instDecidableOrdered bound body

end LockProgram

/-! ### Pools of tasks -/

/-- A task: the mutexes it holds, the last one first, and what it will do. -/
structure LockTask (μ : Type) where
  held : List μ
  rest : List (LockAction μ)

/-- A task at each index. -/
abbrev LockPool (ι μ : Type) : Type := ι → LockTask μ

namespace LockPool

variable {ι μ : Type} [DecidableEq ι] [DecidableEq μ]

/-- The pool before any task has begun. -/
def start (trace : ι → List (LockAction μ)) : LockPool ι μ := fun i => ⟨[], trace i⟩

/-- One action of one task. -/
inductive Step (s : LockPool ι μ) : LockPool ι μ → Prop
  | acquire {i : ι} {m : μ} {rest : List (LockAction μ)} (h : (s i).rest = .acquire m :: rest)
      (free : ∀ j, m ∉ (s j).held) : Step s (Function.update s i ⟨m :: (s i).held, rest⟩)
  | release {i : ι} {m : μ} {rest : List (LockAction μ)} (h : (s i).rest = .release m :: rest) :
      Step s (Function.update s i ⟨(s i).held.erase m, rest⟩)

/-- The pools that the interleavings from `s` reach. -/
inductive Reachable (s : LockPool ι μ) : LockPool ι μ → Prop
  | refl : Reachable s s
  | step {r r' : LockPool ι μ} (before : Reachable s r) (h : Step r r') : Reachable s r'

/-- The task `i` waits for a mutex that the task `j` holds. -/
def Waits (s : LockPool ι μ) (i j : ι) : Prop :=
  ∃ m rest, (s i).rest = .acquire m :: rest ∧ m ∈ (s j).held

/-- Each of the tasks waits for another one of them. -/
def Deadlocked (s : LockPool ι μ) (tasks : Finset ι) : Prop :=
  tasks.Nonempty ∧ ∀ i ∈ tasks, ∃ j ∈ tasks, j ≠ i ∧ s.Waits i j

end LockPool

/-! ### Ordered tasks -/

section Ordered

variable {ι μ : Type} [DecidableEq ι] [DecidableEq μ] (rank : μ → ℕ)

/-- From the mutexes that are held on, each acquisition is of a larger rank than they all have. -/
def OrderedFrom : List μ → List (LockAction μ) → Prop
  | _, [] => True
  | held, .acquire m :: rest => (∀ h ∈ held, rank h < rank m) ∧ OrderedFrom (m :: held) rest
  | held, .release m :: rest => OrderedFrom (held.erase m) rest

/-- An execution of an ordered program, and what follows it. -/
theorem LockProgram.Trace.orderedFrom {p : LockProgram μ} {t : List (LockAction μ)}
    (h : Trace p t) {bound : ℕ} (hp : p.Ordered rank bound) {held : List μ}
    (hheld : ∀ m ∈ held, rank m < bound) {rest : List (LockAction μ)}
    (hrest : OrderedFrom rank held rest) : OrderedFrom rank held (t ++ rest) := by
  induction h generalizing bound held rest with
  | skip => exact hrest
  | @hold m body t _ ih =>
    -- The mutexes that are held are below `bound`, and the block takes one from `bound` on.
    have hm : ∀ h ∈ held, rank h < rank m := by
      intro h hh
      exact Nat.lt_of_lt_of_le (hheld h hh) hp.1
    have hm' : ∀ h ∈ m :: held, rank h < rank m + 1 := by
      intro h hh
      cases hh with
      | head => exact Nat.lt_succ_self _
      | tail _ hh => exact Nat.lt_succ_of_lt (hm h hh)
    -- The release gives back the mutex that was taken last.
    have hback : OrderedFrom rank (m :: held) (.release m :: rest) := by
      show OrderedFrom rank ((m :: held).erase m) rest
      rw [List.erase_cons_head]
      exact hrest
    show (∀ h ∈ held, rank h < rank m) ∧ OrderedFrom rank (m :: held) (t ++ [.release m] ++ rest)
    rw [List.append_assoc]
    exact ⟨hm, ih hp.2 hm' hback⟩
  | seq _ _ ih ih' =>
    rw [List.append_assoc]
    exact ih hp.1 hheld (ih' hp.2 hheld hrest)
  | left _ ih => exact ih hp.1 hheld hrest
  | right _ ih => exact ih hp.2 hheld hrest
  | done => exact hrest
  | again _ _ ih ih' =>
    rw [List.append_assoc]
    exact ih hp hheld (ih' hp hheld hrest)

/-- Every task goes on in growing ranks. -/
def LockPool.Ordered (s : LockPool ι μ) : Prop := ∀ i, OrderedFrom rank (s i).held (s i).rest

variable {rank} {s r : LockPool ι μ}

omit [DecidableEq ι] in
/-- The tasks of ordered programs, before they begin. -/
theorem LockPool.ordered_start {p : ι → LockProgram μ} {trace : ι → List (LockAction μ)}
    (htrace : ∀ i, (p i).Trace (trace i)) (hp : ∀ i, (p i).Ordered rank 0) :
    (start trace).Ordered rank := by
  intro i
  have h := (htrace i).orderedFrom rank (hp i) (by simp) (show OrderedFrom rank [] [] from trivial)
  rw [List.append_nil] at h
  exact h

/-- A step of one task leaves every task ordered. -/
theorem LockPool.Ordered.step (h : s.Ordered rank) (hstep : s.Step r) : r.Ordered rank := by
  intro j
  cases hstep with
  | @acquire i m rest hrest _ =>
    by_cases hji : j = i
    · -- Its next action is one that was checked before.
      subst hji
      have hj := h j
      rw [hrest] at hj
      rw [Function.update_self]
      exact hj.2
    · rw [Function.update_of_ne hji]
      exact h j
  | @release i m rest hrest =>
    by_cases hji : j = i
    · subst hji
      have hj := h j
      rw [hrest] at hj
      rw [Function.update_self]
      exact hj
    · rw [Function.update_of_ne hji]
      exact h j

/-- The order is kept in every reachable state. -/
theorem LockPool.Ordered.reachable (h : s.Ordered rank) (hrun : s.Reachable r) :
    r.Ordered rank := by
  induction hrun with
  | refl => exact h
  | step _ hstep ih => exact ih.step hstep

omit [DecidableEq ι] in
/-- Ordered tasks are not deadlocked. -/
theorem LockPool.Ordered.not_deadlocked (h : s.Ordered rank) (tasks : Finset ι) :
    ¬ s.Deadlocked tasks := by
  intro hdead
  obtain ⟨hne, hwaits⟩ := hdead
  -- The rank of the mutex that a task waits for.
  let wanted : ι → ℕ := fun i =>
    match (s i).rest with
    | .acquire m :: _ => rank m
    | _ => 0
  -- Take a task that waits for a mutex of the largest rank. The holder waits for a larger one.
  obtain ⟨i, hi, hmax⟩ := tasks.exists_max_image wanted hne
  obtain ⟨j, hj, -, m, rest, hrest, hheld⟩ := hwaits i hi
  obtain ⟨_, _, -, m', rest', hrest', -⟩ := hwaits j hj
  -- The holder is ordered, so what it waits for is above what it holds.
  have hlt : rank m < rank m' := by
    have hordered := h j
    rw [hrest'] at hordered
    exact hordered.1 m hheld
  have hle := hmax j hj
  simp only [wanted, hrest, hrest'] at hle
  omega

end Ordered
