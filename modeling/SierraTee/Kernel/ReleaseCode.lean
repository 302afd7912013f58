import Mathlib.Tactic.IntervalCases
import SierraTee.Kernel.Mutex

/-!
# The code that releases a mutex (`sw_semaphores_asm.S`)

* `pass_locked`        what one pass from its first instruction does to a locked word;
* `release_frees_iff`  it frees the word if and only if its first store does not fail;
* `lockCode_refines`   the instructions of any tasks in this function and in `cpu_acquire_mutex`, in
                       any order, are steps of the tasks in the model.

A store that succeeds leaves 0 in `r1`, which is compared with 1: the loop is run once more and finds
the word free. One that fails leaves 1, and the function returns with the word locked.
-/

namespace SierraTee.ReleaseCode
open Function Exclusive Exclusive.Code

/-- `cpu_release_mutex`; `not_locked` is instruction 9 -/
def cpuReleaseMutex : List Instr :=
  [.mov .r2 0,
    .ldrex .r1,
    .teq .al .r1 1,
    .branch .ne 9,
    .strex .eq .r1 .r2,
    .teq .eq .r1 1,
    .branch .ne 0,
    .mov .r0 0,
    .bxLr,
    .mov .r0 1,
    .bxLr]

section
variable {A : Type*} [DecidableEq A] (a : A) (fails : Nat → Bool)

/-- the function is entered with the lock word 1, whatever the registers, the flag and the
reservations are -/
def entry (reg : Reg → Nat) (zero : Bool) (reserved : A → Bool) : Cpu A where
  pc := 0
  reg := reg
  zero := zero
  word := { word := otzLocked, reserved := reserved }
  stores := 0

/-- every run returns with the lock word 0 -/
def Frees : Prop := ∀ reg zero reserved, ∃ fuel s,
  run a fails cpuReleaseMutex fuel (entry reg zero reserved) = some s ∧ s.word.word = otzFree

variable {s : Cpu A}

theorem pass_locked (hpc : s.pc = 0) (hlock : s.word.word = 1) :
    ∃ t, steps a fails cpuReleaseMutex 7 s = some t ∧
      t.word = (s.word.ldrex a).strex a 0 (fails s.stores) ∧
      t.pc = if fails s.stores then 7 else 0 := by
  obtain ⟨pc, reg, zero, ⟨word, reserved⟩, stores⟩ := s
  cases hpc
  cases hlock
  cases hf : fails stores <;>
    simp [steps, step, cpuReleaseMutex, Instr.exec, Cpu.result, Cpu.next, Cond.passes, Cell.ldrex,
      Cell.strex, Cell.succeeds, hf]

theorem pass_free (hpc : s.pc = 0) (hlock : s.word.word = 0) :
    ∃ t, run a fails cpuReleaseMutex 6 s = some t ∧ t.word.word = 0 := by
  obtain ⟨pc, reg, zero, ⟨word, reserved⟩, stores⟩ := s
  cases hpc
  cases hlock
  simp [run, step, cpuReleaseMutex, Instr.exec, Cpu.result, Cpu.next, Cond.passes, Cell.ldrex]

theorem pass_end (hpc : s.pc = 7) :
    ∃ t, run a fails cpuReleaseMutex 2 s = some t ∧ t.word = s.word := by
  obtain ⟨pc, reg, zero, cell, stores⟩ := s
  cases hpc
  exact ⟨_, rfl, rfl⟩

theorem strex_entry (reg : Reg → Nat) (zero : Bool) (reserved : A → Bool) (lost : Bool) :
    ((((entry reg zero reserved).word.ldrex a).strex a 0 lost).word = if lost then 1 else 0) := by
  cases lost <;> simp [entry, otzLocked, Cell.ldrex, Cell.strex, Cell.succeeds]

theorem release_returns (reg : Reg → Nat) (zero : Bool) (reserved : A → Bool) :
    ∃ s, run a fails cpuReleaseMutex 13 (entry reg zero reserved) = some s ∧
      s.word.word = if fails 0 then 1 else 0 := by
  obtain ⟨t, hsteps, hword, hpc⟩ :=
    pass_locked a fails (s := entry reg zero reserved) rfl rfl
  have hlock := strex_entry a reg zero reserved (fails 0)
  rw [run_add (n := 6) hsteps]
  cases hf : fails 0 with
  | false =>
    rw [hf] at hlock
    have hfirst : fails (entry reg zero reserved).stores = false := hf
    rw [hfirst] at hword hpc
    obtain ⟨s, hrun, hs⟩ := pass_free a fails hpc (by rw [hword, hlock]; rfl)
    exact ⟨s, hrun, hs⟩
  | true =>
    rw [hf] at hlock
    have hfirst : fails (entry reg zero reserved).stores = true := hf
    rw [hfirst] at hword hpc
    obtain ⟨s, hrun, hs⟩ := pass_end a fails hpc
    exact ⟨s, run_more (k := 4) hrun, by rw [hs, hword, hlock]⟩

/-- **The release.** The function always returns; the word is free behind it if and only if its
first store does not lose the reservation. -/
theorem release_frees_iff (a : A) (fails : Nat → Bool) : Frees a fails ↔ fails 0 = false := by
  constructor
  · intro h
    obtain ⟨fuel, s, hrun, hfree⟩ := h (fun _ => 0) false fun _ => false
    obtain ⟨t, hreturn, hword⟩ := release_returns a fails (fun _ => 0) false fun _ => false
    rw [run_unique hrun hreturn, hword] at hfree
    cases hf : fails 0 with
    | false => rfl
    | true =>
      rw [hf] at hfree
      exact absurd hfree (by decide)
  · intro hf reg zero reserved
    obtain ⟨s, hrun, hword⟩ := release_returns a fails reg zero reserved
    refine ⟨13, s, hrun, ?_⟩
    rw [hword, hf]
    rfl

/-- a reservation that is lost once -/
theorem lost_once_stays_locked :
    ¬ ∀ fails : Nat → Bool, (∃ n, ∀ k, n ≤ k → fails k = false) → Frees () fails := by
  intro h
  have hfrees := h (fun k => k = 0) ⟨1, fun k hk => decide_eq_false (by omega)⟩
  obtain ⟨fuel, s, hrun, hfree⟩ := hfrees (fun _ => 0) false fun _ => false
  obtain ⟨t, hreturn, hword⟩ := release_returns () (fun k => decide (k = 0))
    (fun _ => 0) false fun _ => false
  rw [run_unique hrun hreturn, hword] at hfree
  exact absurd hfree (by decide)

end

/-! ## The code of several tasks -/

/-- `cpu_acquire_mutex`; `wait_for_int` is instruction 9 -/
def cpuAcquireMutex : List Instr :=
  [.mov .r2 1,
    .ldrex .r1,
    .teq .al .r1 0,
    .branch .ne 9,
    .strex .eq .r1 .r2,
    .teq .eq .r1 0,
    .branch .ne 0,
    .mov .r0 1,
    .bxLr,
    .mov .r0 0,
    .bxLr]

/-- the two functions with a loop -/
inductive LockCode where
  | acquire | release

namespace LockCode

def code : LockCode → List Instr
  | .acquire => cpuAcquireMutex
  | .release => cpuReleaseMutex

def old : LockCode → Nat
  | .acquire => otzFree
  | .release => otzLocked

def new : LockCode → Nat
  | .acquire => otzLocked
  | .release => otzFree

/-- the program points of a task at the load and at the store, behind the loop, and behind the branch
that leaves it for another value -/
def load : LockCode → MutexPc
  | .acquire => .acquireLdrex
  | .release => .releaseLdrex

def store : LockCode → MutexPc
  | .acquire => .acquireStrex
  | .release => .releaseStrex

def left : LockCode → MutexPc
  | .acquire => .acquireOwner
  | .release => .releaseWakeup

def other : LockCode → MutexPc
  | .acquire => .acquireWait
  | .release => .releaseWakeup

theorem code_eq (f : LockCode) : f.code = [.mov .r2 f.new, .ldrex .r1, .teq .al .r1 f.old, .branch .ne 9,
    .strex .eq .r1 .r2, .teq .eq .r1 f.old, .branch .ne 0, .mov .r0 f.new, .bxLr, .mov .r0 f.old,
    .bxLr] := by
  cases f <;> rfl

def point (f : LockCode) (c : Cpu TaskId) : MutexPc :=
  match c.pc with
  | 0 | 1 => f.load
  | 2 => if c.reg .r1 = f.old then f.store else f.other
  | 3 => if c.zero then f.store else f.other
  | 4 => f.store
  | 5 => if c.reg .r1 = f.old then f.left else f.load
  | 6 => if c.zero then f.left else f.load
  | 7 | 8 => f.left
  | _ => f.other

/-- the new value is in `r2` up to the store, which is made, and compared with, after a load of the
old one -/
def Fits (f : LockCode) (c : Cpu TaskId) : Prop :=
  (c.pc ∈ [1, 2, 3, 4] → c.reg .r2 = f.new) ∧ (c.pc ∈ [4, 5] → c.zero = true)

end LockCode

/-- the lock word, and the tasks that are in one of the functions -/
structure LockCpus where
  word : Cell TaskId Nat
  cpu : TaskId → Option (LockCode × Cpu TaskId)

/-- the next instruction of a task; the flag is for a store that fails -/
def cpuStep (m : LockCpus) (a : TaskId × Bool) : Option LockCpus :=
  (m.cpu a.1).bind fun r =>
    (step a.1 (fun _ => a.2) r.1.code { r.2 with word := m.word }).map fun c =>
      ⟨c.word, update m.cpu a.1 (some (r.1, c))⟩

/-- the state of the tasks in the model -/
def Simulated (m : LockCpus) (s : MutexState) : Prop :=
  s.lock = m.word ∧ ∀ t f c, m.cpu t = some (f, c) → f.Fits c ∧ s.pc t = f.point c

section
variable {f : LockCode} {c c' : Cpu TaskId} {t : TaskId} {lost : Bool} {m m' : LockCpus} {s : MutexState}

theorem LockCode.instr_cases (h : f.Fits c) (hs : step t (fun _ => lost) f.code c = some c') :
    f.Fits c' ∧ (c'.word = c.word ∧ f.point c' = f.point c ∨
      f.point c = f.load ∧ c'.word = c.word.ldrex t ∧
        f.point c' = (if c.word.word = f.old then f.store else f.other) ∨
      f.point c = f.store ∧ c'.word = c.word.strex t f.new lost ∧
        f.point c' = if (if c.word.succeeds t lost then 0 else 1) = f.old then f.left else f.load) := by
  obtain ⟨pc, reg, zero, word, stores⟩ := c
  unfold step at hs
  rw [f.code_eq] at hs
  have hlt : pc < 11 := by
    by_contra hge
    rw [List.getElem?_eq_none (by simpa using hge)] at hs
    cases hs
  unfold LockCode.Fits at h ⊢
  unfold LockCode.point
  interval_cases pc
  case «8» => cases hs
  case «10» => cases hs
  all_goals
    cases zero
    all_goals
      obtain rfl := Option.some.inj hs
      simp [Cond.passes, Cpu.result, Cpu.next] at h ⊢
  case «4».true => exact Or.inr (Or.inr (by rw [h]))
  all_goals exact h

theorem mutexStep_load (lost : Bool) (hpc : s.pc t = f.load) : ∃ s', mutexStep s (t, .step lost) = some s' ∧
    s'.lock = s.lock.ldrex t ∧
      s'.pc = update s.pc t (if s.lock.word = f.old then f.store else f.other) := by
  have hs : mutexStep s (t, .step lost) = s.instr t lost f.load := congrArg (s.instr t lost) hpc
  cases f <;> exact ⟨_, hs, rfl, rfl⟩

theorem mutexStep_store (lost : Bool) (hpc : s.pc t = f.store) : ∃ s', mutexStep s (t, .step lost) = some s' ∧
    s'.lock = s.lock.strex t f.new lost ∧ s'.pc = update s.pc t
      (if (if s.lock.succeeds t lost then 0 else 1) = f.old then f.left else f.load) := by
  have hs : mutexStep s (t, .step lost) = s.instr t lost f.store := congrArg (s.instr t lost) hpc
  cases f with
  | acquire =>
    refine ⟨_, hs, rfl, ?_⟩
    cases s.lock.succeeds t lost <;> rfl
  | release =>
    cases hlost : s.lock.succeeds t lost with
    | false => exact ⟨_, hs.trans (if_neg (by rw [hlost]; decide)), rfl, rfl⟩
    | true => exact ⟨_, hs.trans (if_pos hlost), rfl, rfl⟩

theorem Simulated.step {a : TaskId × Bool} (h : Simulated m s) (hs : cpuStep m a = some m') :
    ∃ acts s', acts.Sublist [(a.1, MutexAction.step a.2)] ∧ Runs.run mutexStep s acts = some s' ∧
      Simulated m' s' := by
  obtain ⟨t, lost⟩ := a
  obtain ⟨⟨f, c⟩, hc, hs⟩ := Option.bind_eq_some_iff.mp hs
  obtain ⟨c', hc', rfl⟩ := Option.map_eq_some_iff.mp hs
  obtain ⟨hlock, hall⟩ := h
  obtain ⟨hfits, hpc⟩ := hall t f c hc
  have hcases := LockCode.instr_cases (c := { c with word := m.word }) hfits hc'
  have hrest (s' : MutexState) (hpc' : s'.pc = update s.pc t (f.point c'))
      (hlock' : s'.lock = c'.word) :
      Simulated ⟨c'.word, update m.cpu t (some (f, c'))⟩ s' := by
    refine ⟨hlock', fun u f' d hd => ?_⟩
    replace hd : update m.cpu t (some (f, c')) u = some (f', d) := hd
    by_cases hu : u = t
    · subst hu
      rw [update_self] at hd
      cases hd
      rw [hpc', update_self]
      exact ⟨hcases.1, rfl⟩
    · rw [update_of_ne hu] at hd
      rw [hpc', update_of_ne hu]
      exact hall u f' d hd
  rcases hcases.2 with ⟨hword, hpoint⟩ | ⟨hload, hword, hpoint⟩ | ⟨hstore, hword, hpoint⟩
  · refine ⟨[], s, List.nil_sublist _, rfl, hrest s ?_ (hlock.trans hword.symm)⟩
    have hsame : f.point c' = s.pc t := hpoint.trans hpc.symm
    rw [hsame, update_eq_self]
  · obtain ⟨s', hs', hl, hp⟩ := mutexStep_load lost (hpc.trans hload)
    rw [hlock] at hl hp
    exact ⟨_, s', List.Sublist.refl _, by rw [Runs.run_cons, hs']; rfl,
      hrest s' (by rw [hp, hpoint]) (hl.trans hword.symm)⟩
  · obtain ⟨s', hs', hl, hp⟩ := mutexStep_store lost (hpc.trans hstore)
    rw [hlock] at hl hp
    exact ⟨_, s', List.Sublist.refl _, by rw [Runs.run_cons, hs']; rfl,
      hrest s' (by rw [hp, hpoint]) (hl.trans hword.symm)⟩

/-- **The code refines the model.** Any interleaving of the instructions of tasks in `cpu_acquire_mutex`
and `cpu_release_mutex` is a run of the model, of some of the steps of the tasks in their order. -/
theorem lockCode_refines {l : List (TaskId × Bool)} (h : Simulated m s)
    (hr : Runs.run cpuStep m l = some m') : ∃ acts s',
      acts.Sublist (l.map fun a => (a.1, MutexAction.step a.2)) ∧
        Runs.run mutexStep s acts = some s' ∧ Simulated m' s' := by
  induction l generalizing m s with
  | nil =>
    cases hr
    exact ⟨[], s, List.Sublist.refl _, rfl, h⟩
  | cons a l ih =>
    obtain ⟨m1, hs, hr1⟩ := Runs.run_cons_some hr
    obtain ⟨acts, s1, hsub, hrun, h1⟩ := h.step hs
    obtain ⟨acts', s', hsub', hrun', h'⟩ := ih h1 hr1
    refine ⟨acts ++ acts', s', hsub.append hsub', ?_, h'⟩
    rw [Runs.run_append, hrun]
    exact hrun'

end

/-- two tasks at the first instruction of `cpu_acquire_mutex`, with their loads in turn -/
theorem lockCode_refines_two :
    let t : TaskId := ⟨taskIdStart, le_rfl⟩
    let u : TaskId := ⟨taskIdStart + 1, Nat.le_succ _⟩
    let cell : Cell TaskId Nat := ⟨otzFree, fun _ => false⟩
    let code := [(t, false), (u, false), (t, false), (u, false), (u, true), (t, false)]
    ∃ m' acts s', Runs.run cpuStep ⟨cell, fun _ => some (.acquire, ⟨0, fun _ => 0, false, cell, 0⟩)⟩
        code = some m' ∧
      acts.Sublist (code.map fun a => (a.1, MutexAction.step a.2)) ∧
        Runs.run mutexStep { newMutexState with pc := fun _ => .acquireLdrex } acts = some s' ∧
          Simulated m' s' := by
  intro t u cell code
  obtain ⟨acts, s', h⟩ := lockCode_refines (l := code)
    (m := ⟨cell, fun _ => some (.acquire, ⟨0, fun _ => 0, false, cell, 0⟩)⟩)
    (s := { newMutexState with pc := fun _ => .acquireLdrex })
    ⟨rfl, fun u f c hc => by cases hc; exact ⟨⟨by simp, by simp⟩, rfl⟩⟩ rfl
  exact ⟨_, acts, s', rfl, h⟩

end SierraTee.ReleaseCode
