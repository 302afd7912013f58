import Mathlib.Logic.Basic

/-!
# Wakeups that are not lost

Agents want to change a shared resource.  An agent that cannot goes to sleep; an agent that has
changed the resource looks for a sleeping agent and wakes it.

* `View`         what a state says of every agent;
* `Heard`        when an agent sleeps although it could go on, somebody is on the way who will
                 change the resource or wake an agent that can;
* `Heard.change`, `Heard.trying`, `Heard.enter`, `Heard.pick`, `Heard.wake`   the steps that keep
  it;
* `Heard.quiet`  when all are asleep or away, nobody sleeps who could go on.
-/

namespace Wakeup

inductive Stage (A : Type*) where
  | away
  /-- wants to change the resource, asleep or not -/
  | trying
  /-- has made its change, and has yet to look for a sleeping agent -/
  | stored
  /-- has found another agent, and has yet to wake it -/
  | waking (f : A)

structure View (A : Type*) where
  stage : A → Stage A
  asleep : A → Prop
  /-- the agent's own change could be made now -/
  able : A → Prop

section
variable {A : Type*} {v w : View A} {t u f : A}

/-- somebody is on the way -/
def Signal (v : View A) : Prop :=
  (∃ u, v.stage u = .stored) ∨ (∃ u, v.stage u = .trying ∧ ¬ v.asleep u ∧ v.able u) ∨
    ∃ u f, v.stage u = .waking f ∧ v.stage f = .trying ∧ v.able f

def Heard (v : View A) : Prop := ∀ t, v.asleep t → v.able t → Signal v

/-- a step of `t` that changes nothing for the others -/
structure Stays (v w : View A) (t : A) : Prop where
  stage : ∀ u, u ≠ t → w.stage u = v.stage u
  asleep : ∀ u, u ≠ t → (w.asleep u ↔ v.asleep u)
  able : ∀ u, u ≠ t → (w.able u ↔ v.able u)

theorem Heard.change (h : v.stage t = .stored) : Heard v := fun _ _ _ => Or.inl ⟨t, h⟩

theorem Heard.of_none (h : ∀ t, ¬ v.asleep t) : Heard v := fun t ht => absurd ht (h t)

/-- **A step before the change**: the agent stays awake, or it could not go on. -/
theorem Heard.trying (h : Heard v) (hm : Stays v w t) (hv : v.stage t = .trying)
    (hw : w.stage t = .trying) (ha : w.able t ↔ v.able t) (hs : w.asleep t → ¬ v.able t) :
    Heard w := by
  have hable : ∀ u, w.able u ↔ v.able u := by
    intro u
    by_cases e : u = t
    · rw [e]
      exact ha
    · exact hm.able u e
  have hstage : ∀ u, v.stage u = .trying → w.stage u = .trying := by
    intro u hu
    by_cases e : u = t
    · rw [e]
      exact hw
    · rw [hm.stage u e]
      exact hu
  have hother : ∀ u, v.stage u ≠ .trying → w.stage u = v.stage u :=
    fun u hu => hm.stage u fun e => hu (by rw [e]; exact hv)
  intro u hu hua
  have hua' := (hable u).mp hua
  have hu' : v.asleep u := by
    by_cases e : u = t
    · exact absurd (e ▸ hua') (hs (e ▸ hu))
    · exact (hm.asleep u e).mp hu
  rcases h u hu' hua' with ⟨x, hx⟩ | ⟨x, hx, hxs, hxa⟩ | ⟨x, f, hx, hf, hfa⟩
  · refine Or.inl ⟨x, ?_⟩
    rw [hother x (by rw [hx]; exact fun hc => by cases hc)]
    exact hx
  · refine Or.inr (Or.inl ⟨x, hstage x hx, fun hc => ?_, (hable x).mpr hxa⟩)
    by_cases e : x = t
    · exact hs (e ▸ hc) (e ▸ hxa)
    · exact hxs ((hm.asleep x e).mp hc)
  · refine Or.inr (Or.inr ⟨x, f, ?_, hstage f hf, (hable f).mpr hfa⟩)
    rw [hother x (by rw [hx]; exact fun hc => by cases hc)]
    exact hx

theorem Heard.enter (h : Heard v) (hm : Stays v w t) (hv : v.stage t = .away)
    (hs : ¬ w.asleep t) : Heard w := by
  have hother : ∀ u, v.stage u ≠ .away → u ≠ t := fun u hu e => hu (by rw [e]; exact hv)
  intro u hu hua
  have e : u ≠ t := fun e => hs (e ▸ hu)
  rcases h u ((hm.asleep u e).mp hu) ((hm.able u e).mp hua) with
    ⟨x, hx⟩ | ⟨x, hx, hxs, hxa⟩ | ⟨x, f, hx, hf, hfa⟩
  · have e1 := hother x (by rw [hx]; exact fun hc => by cases hc)
    exact Or.inl ⟨x, (hm.stage x e1).trans hx⟩
  · have e1 := hother x (by rw [hx]; exact fun hc => by cases hc)
    exact Or.inr (Or.inl ⟨x, (hm.stage x e1).trans hx, mt (hm.asleep x e1).mp hxs,
      (hm.able x e1).mpr hxa⟩)
  · have e1 := hother x (by rw [hx]; exact fun hc => by cases hc)
    have e2 := hother f (by rw [hf]; exact fun hc => by cases hc)
    exact Or.inr (Or.inr ⟨x, f, (hm.stage x e1).trans hx, (hm.stage f e2).trans hf,
      (hm.able f e2).mpr hfa⟩)

/-- **The search** finds an agent that can go on, if any sleeping one can. -/
theorem Heard.pick (hm : Stays v w t) (hw : w.stage t = .waking f) (hs : ¬ w.asleep t) (hf : f ≠ t)
    (hft : v.stage f = .trying) (hfirst : (∃ u, v.asleep u ∧ v.able u) → v.able f) : Heard w := by
  intro u hu hua
  have e : u ≠ t := fun e => hs (e ▸ hu)
  have hable := hfirst ⟨u, (hm.asleep u e).mp hu, (hm.able u e).mp hua⟩
  exact Or.inr (Or.inr ⟨t, f, hw, (hm.stage f hf).trans hft, (hm.able f hf).mpr hable⟩)

theorem Heard.wake (h : Heard v) (hv : v.stage t = .waking f)
    (hstage : ∀ u, u ≠ t → w.stage u = v.stage u)
    (hasleep : ∀ u, u ≠ t → (w.asleep u ↔ v.asleep u ∧ u ≠ f))
    (hable : ∀ u, u ≠ t → (w.able u ↔ v.able u)) (hs : ¬ w.asleep t) : Heard w := by
  have hother : ∀ u, v.stage u ≠ .waking f → u ≠ t := fun u hu e => hu (by rw [e]; exact hv)
  intro u hu hua
  have e : u ≠ t := fun e => hs (e ▸ hu)
  rcases h u ((hasleep u e).mp hu).1 ((hable u e).mp hua) with
    ⟨x, hx⟩ | ⟨x, hx, hxs, hxa⟩ | ⟨x, y, hx, hy, hya⟩
  · have e1 := hother x (by rw [hx]; exact fun hc => by cases hc)
    exact Or.inl ⟨x, (hstage x e1).trans hx⟩
  · have e1 := hother x (by rw [hx]; exact fun hc => by cases hc)
    exact Or.inr (Or.inl ⟨x, (hstage x e1).trans hx, fun hc => hxs ((hasleep x e1).mp hc).1,
      (hable x e1).mpr hxa⟩)
  · have e2 := hother y (by rw [hy]; exact fun hc => by cases hc)
    by_cases e1 : x = t
    · rw [e1, hv] at hx
      cases hx
      exact Or.inr (Or.inl ⟨f, (hstage f e2).trans hy, fun hc => ((hasleep f e2).mp hc).2 rfl,
        (hable f e2).mpr hya⟩)
    · exact Or.inr (Or.inr ⟨x, y, (hstage x e1).trans hx, (hstage y e2).trans hy,
        (hable y e2).mpr hya⟩)

/-- **No stranded sleeper**, when everybody is asleep or away -/
theorem Heard.quiet (h : Heard v) (hq : ∀ u, v.stage u = .away ∨ v.stage u = .trying ∧ v.asleep u)
    (ht : v.asleep t) : ¬ v.able t := by
  intro hable
  have hno : ∀ u, v.stage u = .stored ∨ (∃ f, v.stage u = .waking f) → False := by
    intro u hu
    rcases hq u with h1 | ⟨h1, -⟩ <;> rw [h1] at hu <;> rcases hu with hu | ⟨f, hu⟩ <;> cases hu
  rcases h t ht hable with ⟨u, hu⟩ | ⟨u, hu, hus, -⟩ | ⟨u, f, hu, -⟩
  · exact hno u (Or.inl hu)
  · rcases hq u with h1 | ⟨-, h1⟩
    · rw [h1] at hu
      cases hu
    · exact hus h1
  · exact hno u (Or.inr ⟨f, hu⟩)

end

end Wakeup
