import Mathlib.Logic.Function.Basic

/-!
# Mailboxes with room for one message

Every receiver has a slot for one message; a message that is put into a full slot replaces the one
before it.

* `Mailbox`  the slots, and how often each message has been sent and been received;
* `Counted`  every message that has been sent has been received, or is in its slot;
* `counted_send`, `counted_lose`, `counted_receive`, `counted_discard`   which operations keep
  that.
-/

structure Mailbox (G K : Type*) where
  sent : G → K → Nat
  received : G → K → Nat
  slot : G → Option K

namespace Mailbox
open Function

section
variable {G K : Type*} [DecidableEq G] [DecidableEq K]

/-- one more of the message -/
def count (f : G → K → Nat) (g : G) (k : K) : G → K → Nat :=
  update f g (update (f g) k (f g k + 1))

theorem count_apply (f : G → K → Nat) (g : G) (k : K) (i : G) (j : K) :
    count f g k i j = f i j + if i = g ∧ j = k then 1 else 0 := by
  unfold count
  by_cases hi : i = g
  · subst hi
    rw [update_self]
    by_cases hj : j = k
    · subst hj
      rw [update_self, if_pos ⟨rfl, rfl⟩]
    · rw [update_of_ne hj, if_neg fun h => hj h.2, Nat.add_zero]
  · rw [update_of_ne hi, if_neg fun h => hi h.1, Nat.add_zero]

theorem one_if (g : G) (j k : K) :
    (if g = g ∧ j = k then 1 else 0) = if some k = some j then 1 else 0 := by
  simp only [Option.some.injEq, true_and, eq_comm]

variable (m : Mailbox G K) (g : G) (k : K)

def send : Mailbox G K :=
  { m with sent := count m.sent g k, slot := update m.slot g (some k) }

/-- a message that is not put anywhere -/
def lose : Mailbox G K := { m with sent := count m.sent g k }

def receive : Mailbox G K :=
  { m with received := count m.received g k, slot := update m.slot g none }

/-- the slot is emptied without anybody having seen the message -/
def discard : Mailbox G K := { m with slot := update m.slot g none }

def Counted : Prop :=
  ∀ i j, m.sent i j = m.received i j + if m.slot i = some j then 1 else 0

variable {m g k}

@[simp] theorem send_slot (i : G) :
    (m.send g k).slot i = if i = g then some k else m.slot i := update_apply ..

@[simp] theorem receive_slot (i : G) :
    (m.receive g k).slot i = if i = g then none else m.slot i := update_apply ..

omit [DecidableEq K] in
@[simp] theorem discard_slot (i : G) :
    (m.discard g).slot i = if i = g then none else m.slot i := update_apply ..

@[simp] theorem lose_slot (i : G) : (m.lose g k).slot i = m.slot i := rfl

/-- **A message** is put into an empty slot. -/
theorem counted_send (h : m.Counted) : (m.send g k).Counted ↔ m.slot g = none := by
  have hcount (i : G) (j : K) : (m.send g k).sent i j = m.sent i j + if i = g ∧ j = k then 1 else 0 :=
    count_apply ..
  constructor
  · intro hs
    have h1 := hs g k
    have h2 := h g k
    rw [hcount, if_pos ⟨rfl, rfl⟩, send_slot, if_pos rfl, if_pos rfl] at h1
    cases hslot : m.slot g with
    | none => rfl
    | some k' =>
      have h3 := hs g k'
      have h4 := h g k'
      rw [hcount, send_slot, if_pos rfl] at h3
      rw [hslot, if_pos rfl] at h4
      have h5 : (m.send g k).received g k' = m.received g k' := rfl
      have h6 := one_if g k' k
      omega
  · intro hslot i j
    rw [hcount, send_slot]
    have h1 := h i j
    have h2 : (m.send g k).received i j = m.received i j := rfl
    by_cases hi : i = g
    · subst hi
      rw [hslot, if_neg (fun e => by cases e)] at h1
      rw [if_pos rfl, one_if i j k]
      omega
    · rw [if_neg fun e => hi e.1, if_neg hi]
      omega

theorem counted_lose (h : m.Counted) : ¬ (m.lose g k).Counted := by
  intro hl
  have h1 := hl g k
  have h2 := h g k
  have h3 : (m.lose g k).sent g k = m.sent g k + 1 := by
    show count m.sent g k g k = _
    rw [count_apply, if_pos ⟨rfl, rfl⟩]
  have h4 : (m.lose g k).received g k = m.received g k := rfl
  rw [lose_slot] at h1
  omega

/-- **The message** that is received is the one in the slot. -/
theorem counted_receive (h : m.Counted) : (m.receive g k).Counted ↔ m.slot g = some k := by
  have hcount (i : G) (j : K) :
      (m.receive g k).received i j = m.received i j + if i = g ∧ j = k then 1 else 0 := count_apply ..
  have hsent (i : G) (j : K) : (m.receive g k).sent i j = m.sent i j := rfl
  constructor
  · intro hr
    have h1 := hr g k
    have h2 := h g k
    rw [hsent, hcount, if_pos ⟨rfl, rfl⟩, receive_slot, if_pos rfl, if_neg (fun e => by cases e)] at h1
    by_contra hne
    rw [if_neg hne] at h2
    omega
  · intro hslot i j
    rw [hsent, hcount, receive_slot]
    have h1 := h i j
    by_cases hi : i = g
    · subst hi
      have hempty : ¬ (none : Option K) = some j := fun e => by cases e
      rw [if_pos rfl, if_neg hempty, h1, hslot, one_if i j k, Nat.add_zero]
    · rw [if_neg fun e => hi e.1, if_neg hi]
      exact h1

theorem counted_discard (h : m.Counted) : (m.discard g).Counted ↔ m.slot g = none := by
  constructor
  · intro hd
    cases hslot : m.slot g with
    | none => rfl
    | some k =>
      have h1 := hd g k
      have h2 := h g k
      have h3 : (m.discard g).sent g k = m.sent g k := rfl
      have h4 : (m.discard g).received g k = m.received g k := rfl
      rw [discard_slot, if_pos rfl, if_neg (fun e => by cases e)] at h1
      rw [hslot, if_pos rfl] at h2
      omega
  · intro hslot i j
    rw [discard_slot]
    by_cases hi : i = g
    · subst hi
      rw [if_pos rfl, ← hslot]
      exact h i j
    · rw [if_neg hi]
      exact h i j

end

end Mailbox
