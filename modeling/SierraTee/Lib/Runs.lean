import Mathlib.Logic.Basic

/-!
# Runs of a partial step function

A program that takes one action after another is a function `step : S → A → Option S`; `none`
means that the action cannot be taken (or that the program crashes in it).

* `run`            the state after a list of actions;
* `Along`          every action of a run satisfies a condition in the state it is taken in;
* `run_invariant`  what holds first and is kept by every allowed action holds at the end.
-/

namespace Runs

section
variable {S A : Type*}

/-- the state after a list of actions -/
def run (step : S → A → Option S) (s : S) : List A → Option S
  | [] => some s
  | a :: l => (step s a).bind fun s' => run step s' l

/-- every action of the list satisfies `ok` in the state in which it is taken -/
def Along (step : S → A → Option S) (ok : S → A → Prop) (s : S) : List A → Prop
  | [] => True
  | a :: l => ok s a ∧ match step s a with
    | some s' => Along step ok s' l
    | none => True

instance decidableAlong (step : S → A → Option S) (ok : S → A → Prop)
    [∀ s a, Decidable (ok s a)] (s : S) : (l : List A) → Decidable (Along step ok s l)
  | [] => isTrue trivial
  | a :: l =>
    have : Decidable (match step s a with
        | some s' => Along step ok s' l
        | none => True) :=
      match step s a with
      | some s' => decidableAlong step ok s' l
      | none => isTrue trivial
    inferInstanceAs (Decidable (_ ∧ _))

variable {step : S → A → Option S} {ok : S → A → Prop}

@[simp] theorem run_nil (s : S) : run step s [] = some s := rfl

theorem run_cons (s : S) (a : A) (l : List A) :
    run step s (a :: l) = (step s a).bind fun s' => run step s' l := rfl

theorem run_cons_some {s t : S} {a : A} {l : List A} (h : run step s (a :: l) = some t) :
    ∃ s', step s a = some s' ∧ run step s' l = some t := by
  rw [run_cons] at h
  exact Option.bind_eq_some_iff.mp h

theorem run_append (s : S) (l m : List A) :
    run step s (l ++ m) = (run step s l).bind fun s' => run step s' m := by
  induction l generalizing s with
  | nil => rfl
  | cons a l ih =>
    rw [List.cons_append, run_cons, run_cons, Option.bind_assoc]
    congr 1
    funext s'
    exact ih s'

theorem run_snoc {s s' : S} {l : List A} (h : run step s l = some s') (a : A) :
    run step s (l ++ [a]) = step s' a := by
  rw [run_append, h, Option.bind_some, run_cons]
  cases step s' a <;> rfl

theorem along_cons {s s' : S} {a : A} {l : List A} (h : Along step ok s (a :: l))
    (hs : step s a = some s') : ok s a ∧ Along step ok s' l := by
  have h2 := h.2
  rw [hs] at h2
  exact ⟨h.1, h2⟩

theorem along_of_step {s s' : S} {a : A} {l : List A} (ha : ok s a) (hs : step s a = some s')
    (hl : Along step ok s' l) : Along step ok s (a :: l) := by
  refine ⟨ha, ?_⟩
  rw [hs]
  exact hl

theorem along_singleton {s : S} {a : A} (ha : ok s a) : Along step ok s [a] := by
  refine ⟨ha, ?_⟩
  cases step s a <;> trivial

theorem along_append {s t : S} {l m : List A} (hl : Along step ok s l) (hr : run step s l = some t)
    (hm : Along step ok t m) : Along step ok s (l ++ m) := by
  induction l generalizing s with
  | nil =>
    cases hr
    exact hm
  | cons a l ih =>
    obtain ⟨s', hs, hr'⟩ := run_cons_some hr
    obtain ⟨ha, hl'⟩ := along_cons hl hs
    exact along_of_step ha hs (ih hl' hr')

theorem along_snoc {s t : S} {a : A} {l : List A} (h : Along step ok s (l ++ [a]))
    (hr : run step s l = some t) : ok t a := by
  induction l generalizing s with
  | nil =>
    cases hr
    exact h.1
  | cons b l ih =>
    obtain ⟨s', hs, hr'⟩ := run_cons_some hr
    exact ih (along_cons h hs).2 hr'

theorem along_of_forall {l : List A} (h : ∀ s, ∀ a ∈ l, ok s a) (s : S) : Along step ok s l := by
  induction l generalizing s with
  | nil => trivial
  | cons a l ih =>
    refine ⟨h s a List.mem_cons_self, ?_⟩
    cases step s a with
    | none => trivial
    | some s' => exact ih (fun s b hb => h s b (List.mem_cons_of_mem a hb)) s'

theorem along_true (step : S → A → Option S) (s : S) (l : List A) :
    Along step (fun _ _ => True) s l :=
  along_of_forall (fun _ _ _ => trivial) s

theorem along_and {ok' : S → A → Prop} (s : S) (l : List A) :
    Along step (fun s a => ok s a ∧ ok' s a) s l ↔ Along step ok s l ∧ Along step ok' s l := by
  induction l generalizing s with
  | nil => exact (and_self_iff).symm
  | cons a l ih =>
    show (_ ∧ _) ↔ (ok s a ∧ _) ∧ (ok' s a ∧ _)
    rw [and_and_and_comm]
    refine and_congr_right fun _ => ?_
    cases hs : step s a with
    | none => exact (and_self_iff).symm
    | some s' => exact ih s'

theorem along_iff_of_run (I : S → Prop) {ok' : S → A → Prop}
    (hstep : ∀ s a s', I s → ok s a → step s a = some s' → I s')
    (hiff : ∀ s a s', I s → step s a = some s' → (ok s a ↔ ok' s a)) {s t : S} (h0 : I s)
    {l : List A} (hr : run step s l = some t) : Along step ok s l ↔ Along step ok' s l := by
  induction l generalizing s with
  | nil => exact Iff.rfl
  | cons a l ih =>
    obtain ⟨s', hs, hr'⟩ := run_cons_some hr
    show (ok s a ∧ _) ↔ (ok' s a ∧ _)
    rw [← hiff s a s' h0 hs, hs]
    exact and_congr_right fun ha => ih (hstep s a s' h0 ha hs) hr'

/-- **The invariant rule**: a property of the first state that every allowed action keeps is a
property of the last state. -/
theorem run_invariant (I : S → Prop)
    (hstep : ∀ s a s', I s → ok s a → step s a = some s' → I s') {s t : S} {l : List A}
    (h0 : I s) (hok : Along step ok s l) (h : run step s l = some t) : I t := by
  induction l generalizing s with
  | nil =>
    cases h
    exact h0
  | cons a l ih =>
    obtain ⟨s', hs, hr⟩ := run_cons_some h
    obtain ⟨ha, hl⟩ := along_cons hok hs
    exact ih (hstep s a s' h0 ha hs) hl hr

theorem along_mono (I : S → Prop) {ok' : S → A → Prop}
    (hstep : ∀ s a s', I s → ok s a → step s a = some s' → I s')
    (hI : ∀ s a, I s → ok s a → ok' s a) {s : S} (h0 : I s) {l : List A} (hok : Along step ok s l) :
    Along step ok' s l := by
  induction l generalizing s with
  | nil => trivial
  | cons a l ih =>
    refine ⟨hI s a h0 hok.1, ?_⟩
    cases hs : step s a with
    | none => trivial
    | some s' =>
      obtain ⟨ha, hl⟩ := along_cons hok hs
      exact ih (hstep s a s' h0 ha hs) hl

theorem along_iff (I : S → Prop) {ok' : S → A → Prop}
    (hstep : ∀ s a s', I s → ok s a → step s a = some s' → I s')
    (hiff : ∀ s a, I s → (ok s a ↔ ok' s a)) {s : S} (h0 : I s) (l : List A) :
    Along step ok s l ↔ Along step ok' s l :=
  ⟨along_mono I hstep (fun s a h => (hiff s a h).mp) h0,
    along_mono I (fun s a s' h ha => hstep s a s' h ((hiff s a h).mpr ha))
      (fun s a h => (hiff s a h).mpr) h0⟩

theorem along_of_invariant (I : S → Prop) {ok' : S → A → Prop}
    (hstep : ∀ s a s', I s → ok s a → step s a = some s' → I s')
    (hI : ∀ s a, I s → ok' s a) {s : S} (h0 : I s) {l : List A} (hok : Along step ok s l) :
    Along step ok' s l :=
  along_mono I hstep (fun s a h _ => hI s a h) h0 hok

end

end Runs
