import Mathlib.Logic.Function.Basic

/-!
# Exclusive loads and stores

A word with an exclusive monitor: a load by an agent reserves the word for it, and its store only
succeeds while it has the reservation. Every successful store ends all reservations, and a store
may fail for no reason. Code for one agent has conditional instructions on such a word; which of
its stores lose their reservation comes from a pattern.

* `Cell.ldrex`, `Cell.strex`  the two instructions;
* `Cell.Fresh`                an agent with a reservation has seen the word as it is;
* `Code.run`                  code up to its return, with fuel;
* `Code.run_add`              steps can be taken before a run.
-/

namespace Exclusive
open Function

structure Cell (A V : Type*) where
  word : V
  reserved : A → Bool

section
variable {A V : Type*} [DecidableEq A]

namespace Cell
variable (c : Cell A V) (a b : A) (v w : V) (fails : Bool)

/-- the value is that of the word before -/
def ldrex : Cell A V := { c with reserved := update c.reserved a true }

def succeeds : Bool := c.reserved a && !fails

def strex : Cell A V :=
  if c.succeeds a fails then { word := v, reserved := fun _ => false }
  else { c with reserved := update c.reserved a false }

/-- if `a` has a reservation, then the word is `v` -/
def Fresh : Prop := c.reserved a = true → c.word = v

@[simp] theorem ldrex_word : (c.ldrex a).word = c.word := rfl

theorem strex_of_succeeds (h : c.succeeds a fails = true) :
    c.strex a v fails = { word := v, reserved := fun _ => false } := if_pos h

theorem strex_of_not (h : c.succeeds a fails = false) :
    c.strex a v fails = { c with reserved := update c.reserved a false } :=
  if_neg (by rw [h]; simp)

variable {c a b v w fails}

theorem Fresh.ldrex (hf : c.Fresh b v) (hb : b ≠ a) : (c.ldrex a).Fresh b v := by
  intro h
  change update c.reserved a true b = true at h
  rw [update_of_ne hb] at h
  exact hf h

theorem fresh_ldrex (c : Cell A V) (a : A) : (c.ldrex a).Fresh a c.word := fun _ => rfl

theorem Fresh.strex (hf : c.Fresh b v) : (c.strex a w fails).Fresh b v := by
  cases hs : c.succeeds a fails with
  | true =>
    rw [strex_of_succeeds c a w fails hs]
    intro h
    cases h
  | false =>
    rw [strex_of_not c a w fails hs]
    intro h
    change update c.reserved a false b = true at h
    by_cases hb : b = a
    · rw [hb, update_self] at h
      cases h
    · rw [update_of_ne hb] at h
      exact hf h

omit [DecidableEq A] in
theorem Fresh.succeeds (hf : c.Fresh a v) (hs : c.succeeds a fails = true) : c.word = v := by
  unfold Cell.succeeds at hs
  exact hf ((Bool.and_eq_true _ _).mp hs).1

end Cell

end

/-! ## Code -/

namespace Code

inductive Reg where
  | r0 | r1 | r2
  deriving DecidableEq

/-- the condition of an instruction, on the zero flag -/
inductive Cond where
  | al | eq | ne

inductive Instr where
  | mov (rd : Reg) (n : Nat)
  | ldrex (rd : Reg)
  /-- the status is 0 after a success -/
  | strex (c : Cond) (rd rm : Reg)
  | teq (c : Cond) (rn : Reg) (n : Nat)
  | branch (c : Cond) (target : Nat)
  | bxLr

/-- an agent with its registers, and the word that its code works on -/
structure Cpu (A : Type*) where
  pc : Nat
  reg : Reg → Nat
  zero : Bool
  word : Cell A Nat
  /-- how many stores have been tried -/
  stores : Nat

def Cond.passes : Cond → Bool → Bool
  | .al, _ => true
  | .eq, z => z
  | .ne, z => !z

section
variable {A : Type*} [DecidableEq A]

namespace Cpu

/-- a result in a register, and the next instruction -/
def result (s : Cpu A) (rd : Reg) (n : Nat) : Cpu A :=
  { s with reg := update s.reg rd n, pc := s.pc + 1 }

def next (s : Cpu A) : Cpu A := { s with pc := s.pc + 1 }

end Cpu

variable (a : A) (fails : Nat → Bool)

def Instr.exec (s : Cpu A) : Instr → Option (Cpu A)
  | .mov rd n => some (s.result rd n)
  | .ldrex rd => some ({ s with word := s.word.ldrex a }.result rd s.word.word)
  | .strex c rd rm =>
    if c.passes s.zero then
      let lost := fails s.stores
      some ({ s with word := s.word.strex a (s.reg rm) lost, stores := s.stores + 1 }.result rd
        (if s.word.succeeds a lost then 0 else 1))
    else some s.next
  | .teq c rn n => some (if c.passes s.zero then { s with zero := s.reg rn = n } else s).next
  | .branch c target => some (if c.passes s.zero then { s with pc := target } else s.next)
  | .bxLr => none

/-- one instruction of the code; `none` when it returns -/
def step (code : List Instr) (s : Cpu A) : Option (Cpu A) :=
  (code[s.pc]?).bind (Instr.exec a fails s)

/-- the state in which the code returns -/
def run (code : List Instr) : Nat → Cpu A → Option (Cpu A)
  | 0, _ => none
  | fuel + 1, s =>
    match step a fails code s with
    | none => some s
    | some s' => run code fuel s'

/-- a number of steps before the return -/
def steps (code : List Instr) : Nat → Cpu A → Option (Cpu A)
  | 0, s => some s
  | k + 1, s => (step a fails code s).bind (steps code k)

variable {a fails} {code : List Instr} {s s' : Cpu A} {k n : Nat}

theorem run_add (h : steps a fails code k s = some s') :
    run a fails code (n + k) s = run a fails code n s' := by
  induction k generalizing s with
  | zero =>
    cases h
    rfl
  | succ k ih =>
    obtain ⟨t, ht, h⟩ := Option.bind_eq_some_iff.mp h
    rw [← ih h]
    show (match step a fails code s with
      | none => some s
      | some s' => run a fails code (n + k) s') = _
    rw [ht]

theorem run_more (h : run a fails code n s = some s') : run a fails code (n + k) s = some s' := by
  induction n generalizing s with
  | zero => cases h
  | succ n ih =>
    rw [Nat.add_right_comm]
    unfold run at h ⊢
    cases ht : step a fails code s with
    | none =>
      rw [ht] at h
      exact h
    | some t =>
      rw [ht] at h
      exact ih h

theorem run_unique {m : Nat} {t : Cpu A} (h : run a fails code n s = some s')
    (h' : run a fails code m s = some t) : s' = t := by
  have h1 := run_more (k := m) h
  rw [Nat.add_comm, run_more h'] at h1
  exact (Option.some.inj h1).symm

end

end Code

end Exclusive

