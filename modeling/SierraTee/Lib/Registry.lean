import Mathlib.Data.List.Basic

/-!
# Objects that are found by a name

A list of objects with names is searched with a relation `m` between the name of an object and the
name that is asked for; if nothing is found, a new object is appended.

* `Identified`  what has been returned so far: an object for each name, a name for each object;
* `Unshadowed`  the search does not stop at an object of another name;
* `Registered`  what has been returned are the objects of the list.
-/

namespace Registry

section
variable {N O : Type*}

/-- two names have the same object exactly if they are equal -/
def Identified (h : List (N × O)) : Prop := ∀ p ∈ h, ∀ q ∈ h, p.2 = q.2 ↔ p.1 = q.1

/-- the objects that have been returned are those of the list, under their names -/
structure Registered (l h : List (N × O)) : Prop where
  same : ∀ p, p ∈ h ↔ p ∈ l
  identified : Identified l

variable [DecidableEq N] (m : N → N → Prop) [DecidableRel m]

/-- no object in front of that of the name is taken for it -/
def Unshadowed (l : List (N × O)) (x : N) : Prop := ∀ p ∈ l.takeWhile fun p => p.1 ≠ x, ¬ m p.1 x

variable {m} {l h : List (N × O)} {x : N} {o : O} {p : N × O}

theorem unshadowed_iff (hm : ∀ p ∈ l, p.1 = x → m p.1 x) :
    Unshadowed m l x ↔ ∀ p, (l.find? fun p => m p.1 x) = some p → p.1 = x := by
  induction l with
  | nil => exact iff_of_true (fun p hp => by cases hp) fun p hp => by cases hp
  | cons q l ih =>
    unfold Unshadowed
    by_cases hq : q.1 = x
    · have hmq := hm q List.mem_cons_self hq
      rw [List.takeWhile_cons_of_neg (by simp [hq]), List.find?_cons, decide_eq_true hmq]
      exact iff_of_true (fun p hp => by cases hp) fun p hp => (Option.some.inj hp) ▸ hq
    · rw [List.takeWhile_cons_of_pos (by simp [hq]), List.find?_cons]
      by_cases hmq : m q.1 x
      · rw [decide_eq_true hmq]
        refine iff_of_false (fun hc => ?_) fun hf => hq (hf q rfl)
        exact hc q List.mem_cons_self hmq
      · rw [decide_eq_false hmq]
        refine Iff.trans ?_ (ih fun p hp => hm p (List.mem_cons_of_mem q hp))
        constructor
        · exact fun hc p hp => hc p (List.mem_cons_of_mem q hp)
        · intro hc p hp
          rcases List.mem_cons.mp hp with rfl | hp
          · exact hmq
          · exact hc p hp

omit [DecidableEq N] in
theorem find_map {T : Type*} {f : T → N × O} {t : T → Bool} {l : List T}
    (ht : ∀ e ∈ l, t e = true ↔ m (f e).1 x) :
    ((l.map f).find? fun p => m p.1 x) = (l.find? t).map f := by
  induction l with
  | nil => rfl
  | cons e l ih =>
    have he := ht e List.mem_cons_self
    rw [List.map_cons, List.find?_cons, List.find?_cons]
    cases hte : t e with
    | true =>
      rw [decide_eq_true (he.mp hte)]
      rfl
    | false =>
      rw [decide_eq_false fun e' => Bool.false_ne_true (hte.symm.trans (he.mpr e'))]
      exact ih fun e' he' => ht e' (List.mem_cons_of_mem e he')

omit [DecidableEq N]

theorem registered_nil : Registered ([] : List (N × O)) [] :=
  ⟨fun _ => Iff.rfl, fun p hp => by cases hp⟩

theorem Registered.returned (hr : Registered l h) : Identified h := by
  intro p hp q hq
  exact hr.identified p ((hr.same p).mp hp) q ((hr.same q).mp hq)

theorem Registered.found (hr : Registered l h) (hp : p ∈ l) (hx : p.1 = x) :
    Registered l ((x, p.2) :: h) := by
  have hpx : (x, p.2) = p := by rw [← hx]
  refine ⟨fun q => ?_, hr.identified⟩
  rw [List.mem_cons, hr.same q, hpx]
  exact or_iff_right_of_imp fun e => e ▸ hp

theorem Registered.found_iff (hr : Registered l h) (hp : p ∈ l) :
    Identified ((x, p.2) :: h) ↔ p.1 = x := by
  constructor
  · intro hi
    have hmem : p ∈ (x, p.2) :: h := List.mem_cons_of_mem _ ((hr.same p).mpr hp)
    exact (hi p hmem (x, p.2) List.mem_cons_self).mp rfl
  · exact fun hx => (hr.found hp hx).returned

theorem Registered.new (hr : Registered l h) (hx : ∀ p ∈ l, p.1 ≠ x) (ho : ∀ p ∈ l, p.2 ≠ o) :
    Registered (l ++ [(x, o)]) ((x, o) :: h) := by
  have hapart (p : N × O) (hp : p ∈ l) : p.2 = o ↔ p.1 = x :=
    iff_of_false (ho p hp) (hx p hp)
  constructor
  · intro q
    rw [List.mem_cons, List.mem_append, List.mem_singleton, hr.same q, or_comm]
  · intro p hp q hq
    rcases List.mem_append.mp hp with hp | hp
    · rcases List.mem_append.mp hq with hq | hq
      · exact hr.identified p hp q hq
      · rw [List.mem_singleton.mp hq]
        exact hapart p hp
    · rw [List.mem_singleton.mp hp]
      rcases List.mem_append.mp hq with hq | hq
      · exact eq_comm.trans ((hapart q hq).trans eq_comm)
      · rw [List.mem_singleton.mp hq]
        exact iff_of_true rfl rfl

theorem Registered.new_iff (hr : Registered l h) (hx : ∀ p ∈ l, p.1 ≠ x) :
    Identified ((x, o) :: h) ↔ ∀ p ∈ l, p.2 ≠ o := by
  constructor
  · intro hi p hp e
    have hmem : p ∈ (x, o) :: h := List.mem_cons_of_mem _ ((hr.same p).mpr hp)
    exact hx p hp ((hi p hmem (x, o) List.mem_cons_self).mp e)
  · exact fun ho => (hr.new hx ho).returned

end

end Registry
