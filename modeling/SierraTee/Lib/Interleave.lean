import Mathlib.Data.List.Basic

/-!
# Two parties on one state

Two parties work on one state, in any order.  What each of them sees of it is its view.

* `weave`        a run of both, with the results;
* `alone`        a run of one of them on its view;
* `weave_alone`  if each step is one on the view of its party and leaves the other view alone, each
                 party gets the results that it would get alone.
-/

namespace Interleave

variable {W S C R : Type*}

def weave (step : Bool → W → C → R × W) : W → List (Bool × C) → List (Bool × R)
  | _, [] => []
  | w, (b, c) :: cs => (b, (step b w c).1) :: weave step (step b w c).2 cs

def alone (act : S → C → R × S) : S → List C → List R
  | _, [] => []
  | s, c :: cs => (act s c).1 :: alone act (act s c).2 cs

/-- what belongs to party `b` -/
def only {α : Type*} (b : Bool) (l : List (Bool × α)) : List α :=
  (l.filter fun x => x.1 == b).map Prod.snd

/-- a step is one on the view of its party, and it leaves the other view alone -/
structure OwnViews (step : Bool → W → C → R × W) (act : S → C → R × S) (view : Bool → W → S)
    (ok : W → Prop) : Prop where
  result : ∀ b w c, ok w → (step b w c).1 = (act (view b w) c).1
  own : ∀ b w c, ok w → view b (step b w c).2 = (act (view b w) c).2
  other : ∀ b w c, ok w → view (!b) (step b w c).2 = view (!b) w
  ok : ∀ b w c, ok w → ok (step b w c).2

section
variable {α : Type*} {b : Bool} {x : α} {l : List (Bool × α)}

theorem only_cons_self : only b ((b, x) :: l) = x :: only b l := by
  unfold only
  rw [List.filter_cons_of_pos (by simp), List.map_cons]

theorem only_cons_other : only b ((!b, x) :: l) = only b l := by
  unfold only
  rw [List.filter_cons_of_neg (by simp)]

end

/-- **Each party gets its own results**, whatever the other one does. -/
theorem weave_alone {step : Bool → W → C → R × W} {act : S → C → R × S} {view : Bool → W → S}
    {ok : W → Prop} (h : OwnViews step act view ok) (b : Bool) (w : W) (hw : ok w)
    (cs : List (Bool × C)) :
    only b (weave step w cs) = alone act (view b w) (only b cs) := by
  induction cs generalizing w with
  | nil => rfl
  | cons x cs ih =>
    obtain ⟨b', c⟩ := x
    have hrest := ih _ (h.ok b' w c hw)
    show only b ((b', (step b' w c).1) :: weave step (step b' w c).2 cs) = _
    by_cases hb : b' = b
    · subst hb
      rw [only_cons_self, only_cons_self, hrest, h.own b' w c hw, h.result b' w c hw]
      rfl
    · obtain rfl : b' = !b := by
        revert hb
        cases b <;> cases b' <;> simp
      rw [only_cons_other, only_cons_other, hrest]
      have hother := h.other (!b) w c hw
      rw [Bool.not_not] at hother
      rw [hother]

end Interleave
