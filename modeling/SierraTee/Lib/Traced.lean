import Mathlib.Logic.Basic

/-!
# Programs with a record of what they touch

A program that may fail with an error of type `E` and that, while it runs, touches places and
takes parameters; places and parameters are of a type `A`.

* `Traced`          the result with the two records; a monad;
* `SafeAfter`       everything touched is inside, and after a success everything taken is inside
                    too, and what was still owed before (`owed`) holds;
* `Safe`            the same with nothing owed;
* `safeAfter_bind`  the rule for one program after another.
-/

/-- a run: its result, what it touched and the parameters it took -/
structure Traced (E A α : Type) where
  result : Except E α
  touched : List A
  taken : List A

namespace Traced

variable {E A α β : Type}

def ret (a : α) : Traced E A α := ⟨.ok a, [], []⟩

def fail (e : E) : Traced E A α := ⟨.error e, [], []⟩

/-- touch some places -/
def touch (l : List A) : Traced E A Unit := ⟨.ok (), l, []⟩

/-- take some parameters -/
def take (l : List A) : Traced E A Unit := ⟨.ok (), [], l⟩

/-- fail unless `p` -/
def require (p : Prop) [Decidable p] (e : E) : Traced E A Unit := if p then ret () else fail e

def andThen (x : Traced E A α) (f : α → Traced E A β) : Traced E A β :=
  match x.result with
  | .error e => ⟨.error e, x.touched, x.taken⟩
  | .ok a => ⟨(f a).result, x.touched ++ (f a).touched, x.taken ++ (f a).taken⟩

instance : Monad (Traced E A) where
  pure := ret
  bind := andThen

theorem andThen_ret (x : Traced E A α) : andThen x ret = x := by
  unfold andThen ret
  split
  next e hx => rw [← hx]
  next a hx => simp [← hx]

theorem ret_andThen (a : α) (f : α → Traced E A β) : andThen (ret a) f = f a := by
  unfold andThen ret
  simp

theorem andThen_assoc (x : Traced E A α) (f : α → Traced E A β) {γ : Type}
    (g : β → Traced E A γ) : andThen (andThen x f) g = andThen x fun a => andThen (f a) g := by
  unfold andThen
  cases hx : x.result with
  | error e => rfl
  | ok a =>
    cases hf : (f a).result with
    | error e => simp [hf]
    | ok b => simp [hf, List.append_assoc]

instance : LawfulMonad (Traced E A) :=
  LawfulMonad.mk' _ (fun x => andThen_ret x) ret_andThen (fun x f g => andThen_assoc x f g)

theorem result_bind (x : Traced E A α) (f : α → Traced E A β) :
    (x >>= f).result = x.result >>= fun a => (f a).result := by
  show (andThen x f).result = _
  unfold andThen
  cases x.result with
  | error e => rfl
  | ok a => rfl

theorem result_require (p : Prop) [Decidable p] (e : E) :
    (require p e : Traced E A Unit).result = if p then .ok () else .error e := by
  unfold require
  split <;> rfl

/-! ## What is touched -/

theorem touched_bind_ok {x : Traced E A α} {a : α} (h : x.result = .ok a) (f : α → Traced E A β) :
    (x >>= f).touched = x.touched ++ (f a).touched := by
  show (andThen x f).touched = _
  unfold andThen
  rw [h]

theorem touched_bind_error {x : Traced E A α} {e : E} (h : x.result = .error e)
    (f : α → Traced E A β) : (x >>= f).touched = x.touched := by
  show (andThen x f).touched = _
  unfold andThen
  rw [h]

theorem touched_touch (l : List A) (f : Unit → Traced E A β) :
    (touch l >>= f).touched = l ++ (f ()).touched := touched_bind_ok rfl f

theorem touched_require (p : Prop) [Decidable p] (e : E) (f : Unit → Traced E A β) :
    (require p e >>= f).touched = if p then (f ()).touched else [] := by
  unfold require
  by_cases hp : p
  · rw [if_pos hp, if_pos hp]
    exact touched_bind_ok rfl f
  · rw [if_neg hp, if_neg hp]
    exact touched_bind_error rfl f

section
variable {inside : A → Prop} {owed owed' : Prop}

/-- everything touched is inside; after a success, what is owed holds and everything taken is
inside -/
def SafeAfter (inside : A → Prop) (owed : Prop) (x : Traced E A α) : Prop :=
  (∀ a ∈ x.touched, inside a) ∧ (∀ r, x.result = .ok r → owed ∧ ∀ a ∈ x.taken, inside a)

/-- everything touched is inside, and after a success everything taken is -/
def Safe (inside : A → Prop) (x : Traced E A α) : Prop := SafeAfter inside True x

theorem safeAfter_congr (h : owed ↔ owed') (x : Traced E A α) :
    SafeAfter inside owed x ↔ SafeAfter inside owed' x := by
  rw [propext h]

theorem safeAfter_fail (e : E) : SafeAfter inside owed (fail e : Traced E A α) :=
  ⟨fun _ ha => absurd ha List.not_mem_nil, fun _ hr => nomatch hr⟩

theorem safeAfter_ret (a : α) : SafeAfter inside owed (ret a : Traced E A α) ↔ owed := by
  refine ⟨fun h => (h.2 a rfl).1, fun h => ⟨fun b hb => absurd hb List.not_mem_nil, fun r _ => ?_⟩⟩
  exact ⟨h, fun b hb => absurd hb List.not_mem_nil⟩

theorem safeAfter_bind (x : Traced E A α) (f : α → Traced E A β) :
    SafeAfter inside owed (x >>= f) ↔ (∀ a ∈ x.touched, inside a) ∧
      ∀ r, x.result = .ok r → SafeAfter inside (owed ∧ ∀ a ∈ x.taken, inside a) (f r) := by
  show SafeAfter inside owed (andThen x f) ↔ _
  unfold andThen
  cases hx : x.result with
  | error e =>
    refine ⟨fun h => ⟨h.1, fun r hr => nomatch hr⟩, fun h => ⟨h.1, fun r hr => nomatch hr⟩⟩
  | ok r =>
    show ((∀ a ∈ x.touched ++ (f r).touched, inside a) ∧ ∀ b, (f r).result = .ok b →
      owed ∧ ∀ a ∈ x.taken ++ (f r).taken, inside a) ↔ _
    rw [List.forall_mem_append, and_assoc]
    refine and_congr_right fun _ => ⟨fun h r' hr => ?_, fun h => ?_⟩
    · cases hr
      refine ⟨h.1, fun b hb => ?_⟩
      obtain ⟨ho, ht⟩ := h.2 b hb
      rw [List.forall_mem_append] at ht
      exact ⟨⟨ho, ht.1⟩, ht.2⟩
    · refine ⟨(h r rfl).1, fun b hb => ?_⟩
      obtain ⟨⟨ho, h1⟩, h2⟩ := (h r rfl).2 b hb
      rw [List.forall_mem_append]
      exact ⟨ho, h1, h2⟩

theorem safeAfter_fail_bind (e : E) (f : α → Traced E A β) :
    SafeAfter inside owed ((fail e : Traced E A α) >>= f) := safeAfter_fail e

theorem safeAfter_touch (l : List A) (f : Unit → Traced E A β) :
    SafeAfter inside owed (touch l >>= f) ↔ (∀ a ∈ l, inside a) ∧ SafeAfter inside owed (f ()) := by
  rw [safeAfter_bind]
  refine and_congr_right fun _ => ?_
  have hnone : (owed ∧ ∀ a ∈ (touch l : Traced E A Unit).taken, inside a) ↔ owed :=
    ⟨fun h => h.1, fun h => ⟨h, fun a ha => absurd ha List.not_mem_nil⟩⟩
  rw [propext hnone]
  exact ⟨fun h => h () rfl, fun h _ _ => h⟩

theorem safeAfter_take (l : List A) (f : Unit → Traced E A β) :
    SafeAfter inside owed (take l >>= f) ↔ SafeAfter inside (owed ∧ ∀ a ∈ l, inside a) (f ()) := by
  rw [safeAfter_bind]
  refine ⟨fun h => h.2 () rfl, fun h => ⟨fun a ha => absurd ha List.not_mem_nil, fun _ _ => h⟩⟩

theorem safeAfter_require (p : Prop) [Decidable p] (e : E) (f : Unit → Traced E A β) :
    SafeAfter inside owed (require p e >>= f) ↔ (p → SafeAfter inside owed (f ())) := by
  unfold require
  by_cases hp : p
  · rw [if_pos hp]
    have hret : SafeAfter inside owed (ret () >>= f) ↔ SafeAfter inside owed (f ()) :=
      safeAfter_touch [] f |>.trans ⟨fun h => h.2, fun h => ⟨fun _ ha => absurd ha
        List.not_mem_nil, h⟩⟩
    rw [hret]
    exact ⟨fun h _ => h, fun h => h hp⟩
  · rw [if_neg hp]
    exact ⟨fun _ h => absurd h hp, fun _ => safeAfter_fail_bind e f⟩

end

end Traced
