import Mathlib.Logic.Function.Iterate
import TaceChat.Library.Sections

/-!
# Pools whose programs write once

The programs of such a pool are copies of one program. Its first section is the only one that
writes. Then it does not matter how the copies interleave and what replies they get: when all have
ended, the state has been updated once for each of them (`Pool.state_of_ended`). That they can all
end is `Pool.exists_ended`, for any programs.
-/

set_option autoImplicit false

namespace Pool

variable {S Req Rep Task : Type} {prog : Task → Prog S Req Rep Unit}

/-! ### Runs that end -/

/-- What is started by the events and then by the later ones. -/
theorem started_append (events later : List (PoolEvent Task Rep)) :
    started (events ++ later) = started events ++ started later :=
  List.flatMap_append

variable (prog) in
/-- A pool whose last program has not ended can go on until it has, and leave the other programs
alone. -/
theorem exists_last_ended [Inhabited Rep] (before : List (Prog S Req Rep Unit))
    (p : Prog S Req Rep Unit) : ∀ s : S, ∃ events : List (PoolEvent Task Rep),
      started events = [] ∧
        ((⟨s, before ++ [p]⟩ : Pool S Req Rep).run prog events).progs = before ++ [.done ()] := by
  -- A step of the last program replaces it by what is left of it.
  have hstep (p : Prog S Req Rep Unit) (s : S) :
      (⟨s, before ++ [p]⟩ : Pool S Req Rep).step prog (.advance before.length default) =
        ⟨(p.step s default).1, before ++ [(p.step s default).2]⟩ := by
    have hlast : (before ++ [p])[before.length]? = some p := List.getElem?_concat_length
    rw [step_advance hlast]
    simp [Pool.advance]
  have hnext (p : Prog S Req Rep Unit) (s : S) (h : ∃ events : List (PoolEvent Task Rep),
      started events = [] ∧ ((⟨(p.step s default).1, before ++ [(p.step s default).2]⟩ :
        Pool S Req Rep).run prog events).progs = before ++ [.done ()]) :
      ∃ events : List (PoolEvent Task Rep), started events = [] ∧
        ((⟨s, before ++ [p]⟩ : Pool S Req Rep).run prog events).progs = before ++ [.done ()] := by
    obtain ⟨events, hstarted, hrun⟩ := h
    refine ⟨.advance before.length default :: events, hstarted, ?_⟩
    show (Pool.run prog (Pool.step prog _ (.advance before.length default)) events).progs = _
    rw [hstep]
    exact hrun
  induction p with
  | done a =>
    intro s
    exact ⟨[], rfl, rfl⟩
  | sect update next ih => exact fun s => hnext _ s (ih s (update s))
  | request message next ih => exact fun s => hnext _ s (ih default s)

variable (prog) in
/-- Any tasks can be started and run until all have ended. -/
theorem exists_ended [Inhabited Rep] (s : S) (tasks : List Task) :
    ∃ events : List (PoolEvent Task Rep),
      started events = tasks ∧ ((⟨s, []⟩ : Pool S Req Rep).run prog events).Ended := by
  induction tasks using List.reverseRecOn with
  | nil => exact ⟨[], rfl, by simp [Pool.run, Pool.Ended]⟩
  | append_singleton tasks task ih =>
    obtain ⟨events, hstarted, hended⟩ := ih
    -- The last task starts when the others have ended.
    obtain ⟨later, hlater, hlast⟩ := exists_last_ended prog
      ((⟨s, []⟩ : Pool S Req Rep).run prog events).progs (prog task)
      ((⟨s, []⟩ : Pool S Req Rep).run prog events).state
    refine ⟨events ++ .start task :: later, ?_, ?_⟩
    · rw [started_append, hstarted]
      show tasks ++ (task :: started later) = _
      rw [hlater]
    · intro p hp
      have hprogs : ((⟨s, []⟩ : Pool S Req Rep).run prog (events ++ .start task :: later)).progs =
          ((⟨s, []⟩ : Pool S Req Rep).run prog events).progs ++ [.done ()] := by
        rw [run_append]
        exact hlast
      rw [hprogs, List.mem_append, List.mem_singleton] at hp
      rcases hp with hp | rfl
      · exact hended p hp
      · rfl

variable (prog) in
/-- Each task that was started has its program in the pool. -/
theorem length_progs (s : S) (events : List (PoolEvent Task Rep)) :
    ((⟨s, []⟩ : Pool S Req Rep).run prog events).progs.length = (started events).length := by
  induction events using List.reverseRecOn with
  | nil => rfl
  | append_singleton events event ih =>
    have hlast : (⟨s, []⟩ : Pool S Req Rep).run prog (events ++ [event]) =
        ((⟨s, []⟩ : Pool S Req Rep).run prog events).step prog event := List.foldl_append
    rw [hlast, started_append, List.length_append, ← ih]
    cases event with
    | start task => exact List.length_append
    | advance i reply =>
      cases hi : ((⟨s, []⟩ : Pool S Req Rep).run prog events).progs[i]? with
      | none =>
        rw [step_advance_none hi]
        rfl
      | some p =>
        rw [step_advance hi]
        exact List.length_set

/-! ### Programs that write once -/

section SingleWrites

open Classical

variable {update : S → S} {next : S → Prog S Req Rep Unit}

/-- The programs that have not written yet are copies of the one program, and the others only read.
The state has been updated once for each of those. -/
structure WrittenOnce (update : S → S) (next : S → Prog S Req Rep Unit) (s : S)
    (pool : Pool S Req Rep) : Prop where
  progs : ∀ p ∈ pool.progs, p = .sect update next ∨ p.Reads
  state : pool.state = update^[pool.progs.countP fun p => p.Reads] s

/-- What is left of a program that only reads only reads. -/
theorem reads_step {p : Prog S Req Rep Unit} (hp : p.Reads) (s : S) (reply : Rep) :
    (p.step s reply).1 = s ∧ (p.step s reply).2.Reads := by
  cases p with
  | done a => exact ⟨rfl, hp⟩
  | sect update next =>
    obtain ⟨rfl, hnext⟩ := hp
    exact ⟨rfl, hnext s⟩
  | request message next => exact ⟨rfl, hp reply⟩

/-- One event updates the state when the program that it advances has not written yet. -/
theorem WrittenOnce.step (hupdate : update ≠ id) (hnext : ∀ s, (next s).Reads) {s : S}
    {pool : Pool S Req Rep} (h : WrittenOnce update next s pool) {event : PoolEvent Task Rep}
    (hstart : ∀ task, event = .start task → prog task = .sect update next) :
    WrittenOnce update next s (pool.step prog event) := by
  have hfresh : ¬(Prog.sect update next : Prog S Req Rep Unit).Reads := fun h => hupdate h.1
  cases event with
  | start task =>
    have hprog := hstart task rfl
    refine ⟨?_, ?_⟩
    · intro p hp
      rcases List.mem_append.mp hp with hp | hp
      · exact h.progs p hp
      · rw [List.mem_singleton.mp hp]
        exact Or.inl hprog
    · show pool.state = _
      simp [Pool.step, hprog, hfresh, h.state]
  | advance i reply =>
    cases hi : pool.progs[i]? with
    | none =>
      rw [step_advance_none hi]
      exact h
    | some p =>
      obtain ⟨hlt, hget⟩ := List.getElem?_eq_some_iff.mp hi
      rw [step_advance hi]
      have hleft : (p.step pool.state reply).2.Reads ∧ (p.step pool.state reply).1 =
          if p.Reads then pool.state else update pool.state := by
        rcases h.progs p (List.mem_of_getElem? hi) with rfl | hp
        · rw [if_neg hfresh]
          exact ⟨hnext _, rfl⟩
        · rw [if_pos hp]
          exact (reads_step hp pool.state reply).symm
      refine ⟨?_, ?_⟩
      · intro p' hp'
        rcases List.mem_or_eq_of_mem_set hp' with hp' | rfl
        · exact h.progs p' hp'
        · exact Or.inr hleft.1
      · show (p.step pool.state reply).1 = _
        simp only [Pool.advance, List.countP_set hlt, hget, hleft.1, hleft.2]
        by_cases hp : p.Reads
        · -- One that only reads is counted before and after.
          have hpos : 0 < pool.progs.countP fun p => p.Reads :=
            List.countP_pos_iff.mpr ⟨p, List.mem_of_getElem? hi, decide_eq_true hp⟩
          have hcount := Nat.sub_add_cancel hpos
          simp only [hp, decide_true, if_true, hcount]
          exact h.state
        · simp only [hp, decide_false, decide_true, if_true, if_false, Bool.false_eq_true,
            Nat.sub_zero, Function.iterate_succ_apply']
          rw [h.state]

/-- A run of copies of the program keeps this. -/
theorem writtenOnce_run (hupdate : update ≠ id) (hnext : ∀ s, (next s).Reads) {s : S}
    {events : List (PoolEvent Task Rep)}
    (hprog : ∀ task ∈ started events, prog task = .sect update next) :
    WrittenOnce update next s ((⟨s, []⟩ : Pool S Req Rep).run prog events) := by
  induction events using List.reverseRecOn with
  | nil => exact ⟨by simp [Pool.run], rfl⟩
  | append_singleton events event ih =>
    rw [started_append] at hprog
    have hlast : (⟨s, []⟩ : Pool S Req Rep).run prog (events ++ [event]) =
        ((⟨s, []⟩ : Pool S Req Rep).run prog events).step prog event := List.foldl_append
    rw [hlast]
    refine (ih fun task h => hprog task (List.mem_append_left _ h)).step hupdate hnext ?_
    rintro task rfl
    exact hprog task (List.mem_append_right _ (List.mem_singleton_self task))

/-- When all programs have ended, the state has been updated once for each task. -/
theorem state_of_ended (hupdate : update ≠ id) (hnext : ∀ s, (next s).Reads) {s : S}
    {events : List (PoolEvent Task Rep)}
    (hprog : ∀ task ∈ started events, prog task = .sect update next)
    (hended : ((⟨s, []⟩ : Pool S Req Rep).run prog events).Ended) :
    ((⟨s, []⟩ : Pool S Req Rep).run prog events).state = update^[(started events).length] s := by
  rw [(writtenOnce_run hupdate hnext hprog).state, ← length_progs prog s events]
  congr 1
  refine List.countP_eq_length.mpr ?_
  intro p hp
  -- A program that has ended does nothing any more.
  have hdone := hended p hp
  cases p with
  | done a => exact decide_eq_true trivial
  | sect update next => cases hdone
  | request message next => cases hdone

end SingleWrites

end Pool
