import Mathlib.Data.List.Perm.Basic
import Mathlib.Data.List.Count

/-!
# Resources that are acquired and released

A program acquires resources of a type `R`, works with them and releases them; the same resource
can be acquired more than once.

* `Use`               one of these actions;
* `holding`           the resources that are held after some actions;
* `Backed`            nothing is worked with or released that is not held;
* `backed_count`      then everything acquired is released or still held;
* `balanced_iff`      as often released as acquired, each of them, exactly if nothing is held;
* `releasedOnce_iff`  what is acquired once is released once then;
* `Stock`             these resources are held, and each has been acquired at most once;
* `Settled`           nothing is released that is not held, and what is acquired is released exactly
                      once;
* `settled_insert`    actions in the middle of others, on other resources.
-/

namespace Holdings

inductive Use (R : Type*) where
  | acquire (r : R)
  | access (r : R)
  | release (r : R)
  deriving DecidableEq

variable {R : Type*} [DecidableEq R]

/-- the resources that are held after the actions, with those held before -/
def holding (h : List R) : List (Use R) → List R
  | [] => h
  | .acquire r :: us => holding (r :: h) us
  | .access _ :: us => holding h us
  | .release r :: us => holding (h.erase r) us

/-- every action is on a resource that is held -/
def Backed (h : List R) : List (Use R) → Prop
  | [] => True
  | .acquire r :: us => Backed (r :: h) us
  | .access r :: us => r ∈ h ∧ Backed h us
  | .release r :: us => r ∈ h ∧ Backed (h.erase r) us

instance decidableBacked (h : List R) : (us : List (Use R)) → Decidable (Backed h us)
  | [] => isTrue trivial
  | .acquire r :: us => decidableBacked (r :: h) us
  | .access r :: us =>
    have := decidableBacked h us
    inferInstanceAs (Decidable (r ∈ h ∧ Backed h us))
  | .release r :: us =>
    have := decidableBacked (h.erase r) us
    inferInstanceAs (Decidable (r ∈ h ∧ Backed (h.erase r) us))

/-- each resource has been released as often as it has been acquired -/
def Balanced (us : List (Use R)) : Prop := ∀ r, us.count (.release r) = us.count (.acquire r)

/-- each resource that has been acquired has been released exactly once -/
def ReleasedOnce (us : List (Use R)) : Prop := ∀ r, .acquire r ∈ us → us.count (.release r) = 1

variable {h h' : List R} {us vs : List (Use R)}

theorem holding_append : holding h (us ++ vs) = holding (holding h us) vs := by
  induction us generalizing h with
  | nil => rfl
  | cons u us ih =>
    cases u with
    | acquire r => exact ih
    | access r => exact ih
    | release r => exact ih

theorem backed_append : Backed h (us ++ vs) ↔ Backed h us ∧ Backed (holding h us) vs := by
  induction us generalizing h with
  | nil => exact ⟨fun hv => ⟨trivial, hv⟩, fun hv => hv.2⟩
  | cons u us ih =>
    cases u with
    | acquire r => exact ih
    | access r => exact (and_congr_right fun _ => ih).trans and_assoc.symm
    | release r => exact (and_congr_right fun _ => ih).trans and_assoc.symm

theorem backed_count (hb : Backed h us) (r : R) :
    (holding h us).count r + us.count (.release r) = h.count r + us.count (.acquire r) := by
  induction us generalizing h with
  | nil => rfl
  | cons u us ih =>
    cases u with
    | acquire q =>
      have h1 := ih hb
      unfold holding
      rw [List.count_cons] at h1 ⊢
      rw [List.count_cons]
      simp only [beq_iff_eq, reduceCtorEq, if_false, Use.acquire.injEq] at h1 ⊢
      omega
    | access q =>
      have h1 := ih hb.2
      unfold holding
      rw [List.count_cons, List.count_cons]
      simpa using h1
    | release q =>
      have h1 := ih hb.2
      unfold holding
      rw [List.count_cons, List.count_cons]
      by_cases hq : q = r
      · subst hq
        have hpos := List.count_pos_iff.mpr hb.1
        rw [List.count_erase_self] at h1
        simp only [beq_self_eq_true, if_true, beq_iff_eq, reduceCtorEq, if_false]
        omega
      · rw [List.count_erase_of_ne (Ne.symm hq)] at h1
        simp only [beq_iff_eq, Use.release.injEq, hq, reduceCtorEq, if_false]
        omega

theorem balanced_iff (hb : Backed [] us) : Balanced us ↔ holding [] us = [] := by
  constructor
  · intro hbal
    refine List.eq_nil_iff_forall_not_mem.mpr fun r hr => ?_
    have h1 := backed_count hb r
    have h2 := hbal r
    have hpos := List.count_pos_iff.mpr hr
    rw [List.count_nil] at h1
    omega
  · intro hnil r
    have h1 := backed_count hb r
    rw [hnil, List.count_nil] at h1
    omega

theorem releasedOnce_iff (hb : Backed [] us) (h1 : ∀ r, us.count (.acquire r) ≤ 1) :
    ReleasedOnce us ↔ Balanced us := by
  constructor
  · intro hr r
    have hcount := backed_count hb r
    rw [List.count_nil] at hcount
    by_cases hm : .acquire r ∈ us
    · have h2 := hr r hm
      have h3 := List.count_pos_iff.mpr hm
      have h4 := h1 r
      omega
    · have h2 := List.count_eq_zero.mpr hm
      omega
  · intro hbal r hm
    have h2 := hbal r
    have h3 := List.count_pos_iff.mpr hm
    have h4 := h1 r
    omega

/-- after the actions these resources are held, and none has been acquired a second time -/
structure Stock (us : List (Use R)) (l : List R) : Prop where
  backed : Backed [] us
  held : (holding [] us).Perm l
  once : ∀ r, us.count (.acquire r) ≤ 1

namespace Stock
variable {l l' rs : List R} {r : R}

theorem nil : Stock ([] : List (Use R)) [] := ⟨trivial, List.Perm.nil, fun _ => Nat.zero_le 1⟩

theorem perm (h : Stock us l) (hp : l.Perm l') : Stock us l' := ⟨h.backed, h.held.trans hp, h.once⟩

theorem acquire (h : Stock us l) (hr : .acquire r ∉ us) : Stock (us ++ [.acquire r]) (r :: l) := by
  refine ⟨backed_append.2 ⟨h.backed, trivial⟩, ?_, fun q => ?_⟩
  · rw [holding_append]
    exact h.held.cons r
  · rw [List.count_append]
    by_cases hq : q = r
    · rw [hq, List.count_eq_zero.2 hr]
      simp
    · have hone : [Use.acquire r].count (.acquire q) = 0 :=
        List.count_eq_zero.2 fun hm => hq (Use.acquire.inj (List.mem_singleton.1 hm))
      rw [hone]
      exact h.once q

theorem release (h : Stock us (r :: l)) : Stock (us ++ [.release r]) l := by
  have hmem : r ∈ holding [] us := h.held.symm.subset List.mem_cons_self
  refine ⟨backed_append.2 ⟨h.backed, hmem, trivial⟩, ?_, fun q => ?_⟩
  · rw [holding_append]
    have hp := h.held.erase r
    rw [List.erase_cons_head] at hp
    exact hp
  · rw [List.count_append]
    have hzero : [Use.release r].count (.acquire q) = 0 :=
      List.count_eq_zero.2 fun hm => by cases List.mem_singleton.1 hm
    rw [hzero]
    exact h.once q

theorem releases (h : Stock us (rs ++ l)) : Stock (us ++ rs.map .release) l := by
  induction rs generalizing us with
  | nil =>
    rw [List.map_nil, List.append_nil]
    exact h
  | cons r rs ih =>
    have h1 := ih (release h)
    rw [List.append_assoc] at h1
    exact h1

theorem releasedOnce_iff (h : Stock us l) : ReleasedOnce us ↔ l = [] := by
  rw [Holdings.releasedOnce_iff h.backed h.once, balanced_iff h.backed]
  constructor
  · intro hn
    have hp := h.held
    rw [hn] at hp
    exact hp.symm.eq_nil
  · intro hn
    have hp := h.held
    rw [hn] at hp
    exact hp.eq_nil

end Stock

/-! ## Actions on different resources -/

/-- the resource of an action -/
def Use.resource : Use R → R
  | .acquire r => r
  | .access r => r
  | .release r => r

/-- the resources of some actions -/
def used (us : List (Use R)) : List R := us.map Use.resource

/-- only what is held is released, and everything acquired is released exactly once -/
structure Settled (us : List (Use R)) : Prop where
  backed : Backed [] us
  once : ReleasedOnce us

theorem releasedOnce_iff_forall : ReleasedOnce us ↔
    ∀ u ∈ us, u = .acquire u.resource → us.count (.release u.resource) = 1 := by
  constructor
  · intro h u hu he
    exact h u.resource (he ▸ hu)
  · intro h r hr
    exact h (.acquire r) hr rfl

instance decidableReleasedOnce (us : List (Use R)) : Decidable (ReleasedOnce us) :=
  decidable_of_iff _ releasedOnce_iff_forall.symm

instance decidableSettled (us : List (Use R)) : Decidable (Settled us) :=
  decidable_of_iff (Backed [] us ∧ ReleasedOnce us) ⟨fun h => ⟨h.1, h.2⟩, fun h => ⟨h.1, h.2⟩⟩

section
variable {l : List R} {ws : List (Use R)} {r : R}

theorem settled_nil : Settled ([] : List (Use R)) :=
  ⟨trivial, fun _ hr => absurd hr List.not_mem_nil⟩

omit [DecidableEq R] in
theorem mem_used_append : r ∈ used (us ++ vs) ↔ r ∈ used us ∨ r ∈ used vs := by
  unfold used
  rw [List.map_append, List.mem_append]

omit [DecidableEq R] in
theorem mem_used {u : Use R} (h : u ∈ us) : u.resource ∈ used us := List.mem_map_of_mem h

theorem mem_of_mem_holding (hr : r ∈ holding h us) : r ∈ h ∨ r ∈ used us := by
  induction us generalizing h with
  | nil => exact Or.inl hr
  | cons u us ih =>
    have htail : r ∈ used us → r ∈ used (u :: us) := List.mem_cons_of_mem _
    cases u with
    | acquire q =>
      rcases ih hr with hq | hu
      · rcases List.mem_cons.mp hq with rfl | hh
        · exact Or.inr List.mem_cons_self
        · exact Or.inl hh
      · exact Or.inr (htail hu)
    | access q => exact (ih hr).imp_right htail
    | release q => exact (ih hr).imp List.mem_of_mem_erase htail

theorem backed_perm (hp : h.Perm h') : Backed h us ↔ Backed h' us := by
  induction us generalizing h h' with
  | nil => exact Iff.rfl
  | cons u us ih =>
    cases u with
    | acquire q => exact ih (hp.cons q)
    | access q => exact and_congr hp.mem_iff (ih hp)
    | release q => exact and_congr hp.mem_iff (ih (hp.erase q))

theorem holding_frame (hd : ∀ r ∈ l, r ∉ used us) : holding (h ++ l) us = holding h us ++ l := by
  induction us generalizing h with
  | nil => rfl
  | cons u us ih =>
    have htail : ∀ r ∈ l, r ∉ used us := fun r hr hu => hd r hr (List.mem_cons_of_mem _ hu)
    cases u with
    | acquire q => exact ih (h := q :: h) htail
    | access q => exact ih htail
    | release q =>
      have hq : q ∉ l := fun hq => hd q hq List.mem_cons_self
      unfold holding
      by_cases hh : q ∈ h
      · rw [List.erase_append_left l hh, ih htail]
      · rw [List.erase_of_not_mem fun hm => (List.mem_append.mp hm).elim hh hq,
          List.erase_of_not_mem hh, ih htail]

theorem backed_frame (hd : ∀ r ∈ l, r ∉ used us) : Backed (h ++ l) us ↔ Backed h us := by
  induction us generalizing h with
  | nil => exact Iff.rfl
  | cons u us ih =>
    have htail : ∀ r ∈ l, r ∉ used us := fun r hr hu => hd r hr (List.mem_cons_of_mem _ hu)
    have hmem (q : R) (hq : q ∉ l) : q ∈ h ++ l ↔ q ∈ h :=
      List.mem_append.trans ⟨fun hm => hm.resolve_right hq, Or.inl⟩
    cases u with
    | acquire q => exact ih (h := q :: h) htail
    | access q => exact and_congr (hmem q fun hq => hd q hq List.mem_cons_self) (ih htail)
    | release q =>
      have hq : q ∉ l := fun hq => hd q hq List.mem_cons_self
      unfold Backed
      rw [hmem q hq]
      refine and_congr_right fun hh => ?_
      rw [List.erase_append_left l hh]
      exact ih htail

theorem count_release_of_not_used (hr : r ∉ used us) : us.count (.release r) = 0 :=
  List.count_eq_zero.mpr fun hm => hr (mem_used hm)

theorem settled_insert (hd : ∀ r ∈ used us, r ∉ used (vs ++ ws)) :
    Settled (vs ++ us ++ ws) ↔ Settled us ∧ Settled (vs ++ ws) := by
  have hv : ∀ r ∈ used us, r ∉ used vs := fun r hr hm => hd r hr (mem_used_append.mpr (Or.inl hm))
  have hw : ∀ r ∈ used us, r ∉ used ws := fun r hr hm => hd r hr (mem_used_append.mpr (Or.inr hm))
  have hheld : ∀ r ∈ holding [] vs, r ∉ used us := by
    intro r hr hu
    rcases mem_of_mem_holding hr with h0 | hm
    · cases h0
    · exact hv r hu hm
  have hleft : ∀ r ∈ holding [] us, r ∉ used ws := by
    intro r hr hm
    rcases mem_of_mem_holding hr with h0 | hu
    · cases h0
    · exact hw r hu hm
  have hbacked : Backed [] (vs ++ us ++ ws) ↔ Backed [] us ∧ Backed [] (vs ++ ws) := by
    have hmid : Backed (holding [] vs) us ↔ Backed [] us := by
      have hframe := backed_frame (h := []) hheld
      rw [List.nil_append] at hframe
      exact hframe
    have hend : Backed (holding (holding [] vs) us) ws ↔ Backed (holding [] vs) ws := by
      have hframe := holding_frame (h := []) hheld
      rw [List.nil_append] at hframe
      rw [hframe, backed_perm List.perm_append_comm]
      exact backed_frame hleft
    rw [backed_append, backed_append, backed_append, holding_append, hmid, hend]
    exact ⟨fun h => ⟨h.1.2, h.1.1, h.2⟩, fun h => ⟨⟨h.2.1, h.1⟩, h.2.2⟩⟩
  have hcount (r : R) : (vs ++ us ++ ws).count (.release r) =
      us.count (.release r) + (vs ++ ws).count (.release r) := by
    rw [List.count_append, List.count_append, List.count_append]
    omega
  have honce : ReleasedOnce (vs ++ us ++ ws) ↔ ReleasedOnce us ∧ ReleasedOnce (vs ++ ws) := by
    constructor
    · intro h
      refine ⟨fun r hr => ?_, fun r hr => ?_⟩
      · have hone := h r (List.mem_append_left _ (List.mem_append_right _ hr))
        rw [hcount, count_release_of_not_used (hd r (mem_used hr))] at hone
        exact hone
      · have hmem : Use.acquire r ∈ vs ++ us ++ ws := by
          rcases List.mem_append.mp hr with hm | hm
          · exact List.mem_append_left _ (List.mem_append_left _ hm)
          · exact List.mem_append_right _ hm
        have hone := h r hmem
        rw [hcount, count_release_of_not_used fun hu => hd r hu (mem_used hr), Nat.zero_add] at hone
        exact hone
    · rintro ⟨h1, h2⟩ r hr
      rw [hcount]
      by_cases hu : r ∈ used us
      · have hnot : Use.acquire r ∉ vs ++ ws := fun hm => hd r hu (mem_used hm)
        have hmem : Use.acquire r ∈ us := by
          rcases List.mem_append.mp hr with hm | hm
          · exact (List.mem_append.mp hm).resolve_left fun hm => hnot (List.mem_append_left _ hm)
          · exact absurd (List.mem_append_right _ hm) hnot
        rw [h1 r hmem, count_release_of_not_used (hd r hu)]
      · have hmem : Use.acquire r ∈ vs ++ ws := by
          rcases List.mem_append.mp hr with hm | hm
          · exact List.mem_append_left _
              ((List.mem_append.mp hm).resolve_right fun hm => hu (mem_used hm))
          · exact List.mem_append_right _ hm
        rw [h2 r hmem, count_release_of_not_used hu]
  exact ⟨fun h => ⟨⟨(hbacked.mp h.backed).1, (honce.mp h.once).1⟩,
      ⟨(hbacked.mp h.backed).2, (honce.mp h.once).2⟩⟩,
    fun h => ⟨hbacked.mpr ⟨h.1.backed, h.2.backed⟩, honce.mpr ⟨h.1.once, h.2.once⟩⟩⟩

theorem settled_append (hd : ∀ r ∈ used us, r ∉ used vs) :
    Settled (us ++ vs) ↔ Settled us ∧ Settled vs := by
  have h : Settled ([] ++ us ++ vs) ↔ Settled us ∧ Settled ([] ++ vs) := settled_insert hd
  exact h

theorem settled_pair (hr : r ∉ used us) :
    Settled (.acquire r :: .release r :: us) ↔ Settled us := by
  have hpair : Settled [Use.acquire r, .release r] := by
    refine ⟨⟨List.mem_cons_self, trivial⟩, fun q hq => ?_⟩
    have he : q = r := by simpa using hq
    rw [he]
    simp
  have hd : ∀ q ∈ used [Use.acquire r, .release r], q ∉ used us := fun q hq => by
    have he : q = r := by simpa [used, Use.resource] using hq
    rw [he]
    exact hr
  have happ : Settled ([.acquire r, .release r] ++ us) ↔
      Settled [Use.acquire r, .release r] ∧ Settled us := settled_append hd
  exact happ.trans ⟨fun h => h.2, fun h => ⟨hpair, h⟩⟩

theorem not_settled_acquire (hr : r ∉ used us) : ¬ Settled (.acquire r :: us) := by
  intro h
  have hone := h.once r List.mem_cons_self
  rw [List.count_cons, count_release_of_not_used hr] at hone
  simp at hone

theorem not_settled_release : ¬ Settled (.release r :: us) := fun h => List.not_mem_nil h.backed.1

end

end Holdings
