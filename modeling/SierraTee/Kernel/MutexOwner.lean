import SierraTee.Kernel.MutexQueue

/-!
# The owner of a mutex

* `mutex_owner`  the owner is the holder, or 0, whenever no task is in the functions;
* `owner_lost`   a release that overwrites the owner of the next acquisition.
-/

namespace SierraTee
open Exclusive Runs

def MutexPart.releasing : MutexPart → Bool
  | .looking | .clearing | .leaving => true
  | _ => false

/-- the task that clears the lock word is the last one that has acquired the mutex, and when the
owner becomes 0 the last acquisition has been cleared -/
def KeepsOwner (s : MutexState) (a : TaskId × MutexAction) : Prop :=
  ∀ fails, a.2 = .step fails →
    (s.pc a.1 = .releaseStrex → s.lock.succeeds a.1 fails = true → s.Last a.1) ∧
    (s.pc a.1 = .releaseOwner → ∀ u, ¬ s.Last u)

def MutexEvent.acquirer : MutexEvent → Option TaskId
  | .acquired t => some t
  | .released _ => none

theorem noLast_iff (s : MutexState) :
    s.history.head?.bind MutexEvent.acquirer = none ↔ ∀ u, ¬ s.Last u := by
  unfold MutexState.Last
  cases s.history.head? with
  | none => simp
  | some e => cases e <;> simp [MutexEvent.acquirer]

instance decidableNoLast (s : MutexState) : Decidable (∀ u, ¬ s.Last u) :=
  decidable_of_iff _ (noLast_iff s)

instance decidableLast (s : MutexState) (t : TaskId) : Decidable (s.Last t) :=
  inferInstanceAs (Decidable (_ = _))

instance decidableKeepsOwner (s : MutexState) (a : TaskId × MutexAction) :
    Decidable (KeepsOwner s a) :=
  inferInstanceAs (Decidable (∀ _, _ → (_ → _ → _) ∧ (_ → _)))

structure OwnerOk (s : MutexState) : Prop where
  held : s.lock.word ≠ 0 → ∃ t, s.Has t
  free : s.lock.word = 0 → ∀ t, ¬ s.Has t
  one : ∀ t u, s.part t = .taken → s.part u = .taken → t = u
  taken : ∀ t, s.part t = .taken → ∀ u, ¬ s.Last u
  taking : ∀ t, s.part t = .taking → s.lock.Fresh t 0
  last : ∀ t, s.Last t → s.mutex.ownerId = t
  owner : s.mutex.ownerId = 0 ∨
    ∃ t : TaskId, s.mutex.ownerId = t ∧ (s.Last t ∨ (s.part t).releasing = true)
  init : s.mutex.initParam = true

section
variable {s s' : MutexState} {t u : TaskId} {p q : MutexPc} {fails : Bool}

/-! ## Program points -/

theorem part_goto_other (hu : u ≠ t) : (s.goto t q).part u = s.part u := by
  rw [part_goto, if_neg hu]

theorem OwnerOk.goto (hs : OwnerOk s) (hp : s.part t ≠ .taken) (hq : q.part ≠ .taken)
    (htaking : q.part = .taking → s.lock.Fresh t 0)
    (hreleasing : (s.part t).releasing = true → q.part.releasing = true) :
    OwnerOk (s.goto t q) := by
  have htaken (u : TaskId) : (s.goto t q).part u = .taken ↔ s.part u = .taken := by
    by_cases e : u = t
    · rw [e, part_goto_self]
      exact iff_of_false hq hp
    · rw [part_goto_other e]
  have hhas (u : TaskId) : (s.goto t q).Has u ↔ s.Has u := or_congr (htaken u) Iff.rfl
  refine ⟨fun h => ?_, fun h u => mt (hhas u).mp (hs.free h u),
    fun u v hu hv => hs.one u v ((htaken u).mp hu) ((htaken v).mp hv),
    fun u hu => hs.taken u ((htaken u).mp hu), fun u hu => ?_, hs.last, hs.owner.imp_right ?_,
    hs.init⟩
  · obtain ⟨u, hu⟩ := hs.held h
    exact ⟨u, (hhas u).mpr hu⟩
  · by_cases e : u = t
    · rw [e, part_goto_self] at hu
      rw [e]
      exact htaking hu
    · rw [part_goto_other e] at hu
      exact hs.taking u hu
  · rintro ⟨u, hown, hu⟩
    refine ⟨u, hown, hu.imp_right fun h => ?_⟩
    by_cases e : u = t
    · rw [e] at h
      rw [e, part_goto_self]
      exact hreleasing h
    · rw [part_goto_other e]
      exact h

theorem OwnerOk.plain (hs : OwnerOk s) (hp : s.part t = .plain ∨ s.part t = .taking)
    (hq : q.part = .plain) : OwnerOk (s.goto t q) := by
  refine hs.goto ?_ ?_ ?_ ?_
  · rcases hp with h | h <;> rw [h] <;> decide
  · rw [hq]
    decide
  · rw [hq]
    exact fun h => absurd h (by decide)
  · rcases hp with h | h <;> rw [h] <;> exact fun h => absurd h (by decide)

theorem OwnerOk.release (hs : OwnerOk s) (hp : s.part t ≠ .taken) (hq : q.part.releasing = true) :
    OwnerOk (s.goto t q) := by
  refine hs.goto hp ?_ ?_ fun _ => hq
  · intro e
    rw [e] at hq
    cases hq
  · intro e
    rw [e] at hq
    cases hq

/-! ## The lock word -/

theorem OwnerOk.setLock {c : Cell TaskId Nat} (hs : OwnerOk s) (hw : c.word = s.lock.word)
    (hf : ∀ u, s.part u = .taking → c.Fresh u 0) : OwnerOk (s.setLock c) :=
  { hs with held := fun h => hs.held (hw ▸ h), free := fun h => hs.free (hw ▸ h), taking := hf }

theorem OwnerOk.load (hs : OwnerOk s) (hp : s.part t ≠ .taking) :
    OwnerOk (s.setLock (s.lock.ldrex t)) := by
  refine hs.setLock rfl fun u hu => (hs.taking u hu).ldrex ?_
  rintro rfl
  exact hp hu

theorem OwnerOk.strexFails (hs : OwnerOk s) (hf : s.lock.succeeds t fails = false) (v : Nat) :
    OwnerOk (s.setLock (s.lock.strex t v fails)) := by
  refine hs.setLock ?_ fun u hu => (hs.taking u hu).strex
  rw [Cell.strex_of_not _ _ _ _ hf]

theorem OwnerOk.take (hs : OwnerOk s) (hp : s.part t = .taking) (hq : q.part = .taken)
    (hok : s.lock.succeeds t fails = true) :
    OwnerOk ((s.setLock (s.lock.strex t otzLocked fails)).goto t q) := by
  have hfree := hs.free ((hs.taking t hp).succeeds hok)
  have hlast (u : TaskId) : ¬ s.Last u := fun h => hfree u (Or.inr h)
  have hcell := Cell.strex_of_succeeds s.lock t otzLocked fails hok
  have hself : ((s.setLock (s.lock.strex t otzLocked fails)).goto t q).part t = .taken :=
    part_goto_self.trans hq
  have htaken (u : TaskId)
      (h : ((s.setLock (s.lock.strex t otzLocked fails)).goto t q).part u = .taken) : u = t := by
    by_contra e
    rw [part_goto_other e] at h
    exact hfree u (Or.inl h)
  refine ⟨fun _ => ⟨t, Or.inl hself⟩, fun h => ?_,
    fun u v hu hv => (htaken u hu).trans (htaken v hv).symm, fun _ _ => hlast, fun u _ => ?_,
    hs.last, hs.owner.imp_right ?_, hs.init⟩
  · have h1 : (s.lock.strex t otzLocked fails).word = 0 := h
    rw [hcell] at h1
    cases h1
  · show (s.lock.strex t otzLocked fails).Fresh u 0
    rw [hcell]
    intro h
    cases h
  · rintro ⟨u, hown, hu⟩
    refine ⟨u, hown, hu.imp_right fun h => ?_⟩
    have e : u ≠ t := by
      rintro rfl
      rw [hp] at h
      cases h
    rw [part_goto_other e]
    exact h

theorem OwnerOk.acquired (hs : OwnerOk s) (hp : s.part t = .taken) :
    OwnerOk (((s.setOwner t).log (.acquired t)).goto t .idle) := by
  have hlast (u : TaskId) (h : (((s.setOwner t).log (.acquired t)).goto t .idle).Last u) :
      u = t := by
    have h1 : some (MutexEvent.acquired t) = some (.acquired u) := h
    cases h1
    rfl
  have hnone (u : TaskId) (x : MutexPart)
      (h : (((s.setOwner t).log (.acquired t)).goto t .idle).part u = x) (hx : x ≠ .plain) :
      u ≠ t ∧ s.part u = x := by
    by_cases e : u = t
    · rw [e, part_goto_self] at h
      exact absurd h.symm hx
    · rw [part_goto_other e] at h
      exact ⟨e, h⟩
  refine ⟨fun _ => ⟨t, Or.inr rfl⟩, fun h => absurd (Or.inl hp) (hs.free h t), fun u v hu _ => ?_,
    fun u hu => ?_, fun u hu => hs.taking u (hnone u _ hu (by decide)).2,
    fun u hu => ?_, Or.inr ⟨t, rfl, Or.inl rfl⟩, hs.init⟩
  · obtain ⟨h1, h2⟩ := hnone u _ hu (by decide)
    exact absurd (hs.one u t h2 hp) h1
  · obtain ⟨h1, h2⟩ := hnone u _ hu (by decide)
    exact absurd (hs.one u t h2 hp) h1
  · rw [hlast u hu]
    rfl

theorem OwnerOk.clear (hs : OwnerOk s) (hlast : s.Last t)
    (hok : s.lock.succeeds t fails = true) :
    OwnerOk (((s.setLock (s.lock.strex t otzFree fails)).log (.released t)).goto t .releaseLdrex) := by
  have hcell := Cell.strex_of_succeeds s.lock t otzFree fails hok
  have hno (u : TaskId) : s.part u ≠ .taken := fun h => hs.taken u h t hlast
  have hnone (u : TaskId) : (((s.setLock (s.lock.strex t otzFree fails)).log (.released t)).goto t
      .releaseLdrex).part u ≠ .taken := by
    by_cases e : u = t
    · rw [e, part_goto_self]
      decide
    · rw [part_goto_other e]
      exact hno u
  have hnotLast (u : TaskId) : ¬ (((s.setLock (s.lock.strex t otzFree fails)).log
      (.released t)).goto t .releaseLdrex).Last u := by
    intro h
    have h1 : some (MutexEvent.released t) = some (.acquired u) := h
    cases h1
  refine ⟨fun h => ?_, fun _ u hu => hu.elim (hnone u) (hnotLast u),
    fun u _ hu => absurd hu (hnone u), fun u hu => absurd hu (hnone u), fun u _ => ?_,
    fun u hu => absurd hu (hnotLast u), Or.inr ⟨t, hs.last t hlast, Or.inr ?_⟩, hs.init⟩
  · refine absurd ?_ h
    show (s.lock.strex t otzFree fails).word = 0
    rw [hcell]
    rfl
  · show (s.lock.strex t otzFree fails).Fresh u 0
    rw [hcell]
    intro h
    cases h
  · rw [part_goto_self]
    rfl

theorem OwnerOk.disown (hs : OwnerOk s) (hp : s.part t = .leaving) (hno : ∀ u, ¬ s.Last u) :
    OwnerOk ((s.setOwner 0).goto t .idle) := by
  have htaken (u : TaskId) : ((s.setOwner 0).goto t .idle).part u = .taken ↔
      s.part u = .taken := by
    by_cases e : u = t
    · rw [e, part_goto_self]
      exact iff_of_false (by decide) (by rw [hp]; decide)
    · rw [part_goto_other e]
      exact Iff.rfl
  have hhas (u : TaskId) : ((s.setOwner 0).goto t .idle).Has u ↔ s.Has u :=
    or_congr (htaken u) Iff.rfl
  refine ⟨fun h => ?_, fun h u => mt (hhas u).mp (hs.free h u),
    fun u v hu hv => hs.one u v ((htaken u).mp hu) ((htaken v).mp hv),
    fun u hu => hs.taken u ((htaken u).mp hu), fun u hu => ?_, fun u hu => absurd hu (hno u),
    Or.inl rfl, hs.init⟩
  · obtain ⟨u, hu⟩ := hs.held h
    exact ⟨u, (hhas u).mpr hu⟩
  · by_cases e : u = t
    · rw [e, part_goto_self] at hu
      cases hu
    · rw [part_goto_other e] at hu
      exact hs.taking u hu

/-! ## Steps and runs -/

theorem OwnerOk.effect (hs : OwnerOk s) (ha : KeepsOwner s (t, .step fails))
    (h : MutexEffect s t fails s') : OwnerOk s' := by
  obtain ⟨hclear, hdisown⟩ := ha fails rfl
  cases h with
  | goes hp hq => exact hs.plain (Or.inl hp) hq
  | loads hp hq =>
    have h1 := hs.load (t := t) (by rw [hp]; decide)
    obtain hq | ⟨hq, hw⟩ := hq
    · exact h1.plain (Or.inl hp) hq
    · refine h1.goto (by rw [part_setLock, hp]; decide) (by rw [hq]; decide) (fun _ => ?_) ?_
      · rw [← hw]
        exact Cell.fresh_ldrex s.lock t
      · rw [part_setLock, hp]
        exact fun h => absurd h (by decide)
  | takes hp hq hok => exact hs.take hp hq hok
  | misses hp hq hok => exact (hs.strexFails hok otzLocked).plain (Or.inr hp) hq
  | acquires hp => exact hs.acquired hp
  | enters hp hown => exact hs.release (by rw [hp]; decide) rfl
  | looks hp hq =>
    have h1 := hs.load (t := t) (by rw [hp]; decide)
    refine h1.release (by rw [part_setLock, hp]; decide) ?_
    obtain ⟨rfl, -⟩ | hq := hq
    · rfl
    · rw [hq]
      rfl
  | clears hp hok => exact hs.clear (hclear hp hok) hok
  | keeps hp hok =>
    have hpart : s.part t = .clearing := congrArg MutexPc.part hp
    exact (hs.strexFails hok otzFree).release (by rw [part_setLock, hpart]; decide) rfl
  | wakes hp =>
    have hpart : s.part t = .leaving := congrArg MutexPc.part hp
    exact hs.release (by rw [hpart]; decide) rfl
  | disowns hp => exact hs.disown (congrArg MutexPc.part hp) (hdisown hp)

theorem OwnerOk.step {a : TaskId × MutexAction} (hs : OwnerOk s) (ha : KeepsOwner s a)
    (h : mutexStep s a = some s') : OwnerOk s' := by
  have call {t : TaskId} {p : MutexPc} (hq : p.part = .plain) (h : s.call t p = some s') :
      OwnerOk s' := by
    unfold MutexState.call at h
    split_ifs at h with hp
    cases h
    exact hs.plain (Or.inl (congrArg MutexPc.part hp)) hq
  obtain ⟨t, act⟩ := a
  cases act with
  | acquire => exact call rfl h
  | nowait => exact call rfl h
  | release => exact call rfl h
  | step fails => exact hs.effect ha (instr_effect hs.init rfl h)

theorem OwnerOk.pending {s s' : PendingMutex} {a : TaskId × MutexAction} (hs : OwnerOk s.core)
    (ha : KeepsOwner s.core a) (h : pendingStep s a = some s') : OwnerOk s'.core := by
  refine pendingStep_core h hs (fun hp => ?_) (fun hp => ?_) fun c hc => hs.step ha hc
  · exact hs.plain (Or.inl (congrArg MutexPc.part hp)) rfl
  · have hpart : s.core.part a.1 = .leaving := congrArg MutexPc.part hp
    exact hs.release (by rw [hpart]; decide) rfl

theorem newMutexState_ownerOk : OwnerOk newMutexState := by
  have hhas (t : TaskId) : ¬ newMutexState.Has t := by
    rintro (h | h) <;> cases h
  refine ⟨fun h => absurd rfl h, fun _ => hhas, fun t _ h => ?_, fun t h => ?_, fun t h => ?_,
    fun t h => ?_, Or.inl rfl, rfl⟩ <;> cases h

/-- **The owner is the holder**: when no task is in the functions, the owner of a mutex that is held
is the task that has acquired it last, and the owner of a free one is 0. -/
theorem mutex_owner {s : PendingMutex} {l : List (TaskId × MutexAction)}
    (hl : Along pendingStep (fun s a => KeepsOwner s.core a) newPendingMutex l)
    (h : run pendingStep newPendingMutex l = some s) (hquiet : ∀ t, s.core.pc t = .idle) :
    (s.core.lock.word ≠ 0 → ∃ t : TaskId, s.core.Last t ∧ s.core.mutex.ownerId = t) ∧
      (s.core.lock.word = 0 → s.core.mutex.ownerId = 0) := by
  have hs : OwnerOk s.core := run_invariant (fun s => OwnerOk s.core)
    (fun _ _ _ hs ha h => hs.pending ha h) newMutexState_ownerOk hl h
  have hpart (t : TaskId) : s.core.part t = .plain := congrArg MutexPc.part (hquiet t)
  refine ⟨fun hw => ?_, fun hw => ?_⟩
  · obtain ⟨t, ht⟩ := hs.held hw
    refine ⟨t, ?_⟩
    have hlast : s.core.Last t := ht.resolve_left fun h => by
      rw [hpart] at h
      cases h
    exact ⟨hlast, hs.last t hlast⟩
  · refine hs.owner.resolve_right ?_
    rintro ⟨t, -, ht⟩
    refine ht.elim (fun h => hs.free hw t (Or.inr h)) fun h => ?_
    rw [hpart] at h
    cases h

end

/-- the second task fails to get the mutex, and gets it when the first one has released it -/
def handedOver : List (TaskId × MutexAction) :=
  callOf firstTask .acquire 4 ++ callOf secondTask .nowait 2 ++ callOf firstTask .release 6 ++
    callOf secondTask .nowait 4

theorem idle_of_two {s : PendingMutex} {l : List (TaskId × MutexAction)}
    (h : run pendingStep newPendingMutex l = some s)
    (hl : ∀ a ∈ l, a.1 = firstTask ∨ a.1 = secondTask) (h1 : s.core.pc firstTask = .idle)
    (h2 : s.core.pc secondTask = .idle) (u : TaskId) : s.core.pc u = .idle := by
  by_cases e1 : u = firstTask
  · rw [e1]
    exact h1
  by_cases e2 : u = secondTask
  · rw [e2]
    exact h2
  refine pendingRun_pc h fun a ha => ?_
  rcases hl a ha with e | e <;> rw [e]
  · exact e1
  · exact e2

theorem mutex_owner_handedOver : ∃ s, run pendingStep newPendingMutex handedOver = some s ∧
    s.core.lock.word = 1 ∧ ∃ t : TaskId, s.core.Last t ∧ s.core.mutex.ownerId = t := by
  have hl : Along pendingStep (fun s a => KeepsOwner s.core a) newPendingMutex handedOver := by
    decide
  have h : (run pendingStep newPendingMutex handedOver).map (fun s =>
      (s.core.lock.word, s.core.pc firstTask, s.core.pc secondTask)) = some (1, .idle, .idle) := by
    decide
  obtain ⟨s, hs, h1⟩ := Option.map_eq_some_iff.mp h
  have hword : s.core.lock.word = 1 := congrArg (fun x => x.1) h1
  have hquiet := idle_of_two hs (by decide) (congrArg (fun x => x.2.1) h1)
    (congrArg (fun x => x.2.2) h1)
  exact ⟨s, hs, hword, (mutex_owner hl hs hquiet).1 (by rw [hword]; decide)⟩

/-! ## An owner that is overwritten -/

/-- the first task has the mutex and the second one tries to get it; when the first one has cleared
the lock word and looks for a waiting task, the second one gets the mutex, and then the first one
sets the owner to 0 -/
def overwritten : List (TaskId × MutexAction) :=
  callOf firstTask .acquire 4 ++ callOf secondTask .acquire 3 ++ callOf firstTask .release 5 ++
    List.replicate 3 (secondTask, .step false) ++ [(firstTask, .step false)]

theorem owner_lost : ¬ ∀ (l : List (TaskId × MutexAction)) (s : PendingMutex),
    run pendingStep newPendingMutex l = some s → (∀ t, s.core.pc t = .idle) →
    (s.core.lock.word ≠ 0 → ∃ t : TaskId, s.core.Last t ∧ s.core.mutex.ownerId = t) ∧
      (s.core.lock.word = 0 → s.core.mutex.ownerId = 0) := by
  intro hall
  have h : (run pendingStep newPendingMutex overwritten).map (fun s =>
      (s.core.lock.word, s.core.mutex.ownerId, s.core.pc firstTask, s.core.pc secondTask))
      = some (1, 0, .idle, .idle) := by decide
  obtain ⟨s, hs, h1⟩ := Option.map_eq_some_iff.mp h
  have hword : s.core.lock.word = 1 := congrArg (fun x => x.1) h1
  have howner : s.core.mutex.ownerId = 0 := congrArg (fun x => x.2.1) h1
  have hquiet := idle_of_two hs (by decide) (congrArg (fun x => x.2.2.1) h1)
    (congrArg (fun x => x.2.2.2) h1)
  obtain ⟨t, -, ht⟩ := (hall overwritten s hs hquiet).1 (by rw [hword]; decide)
  rw [howner] at ht
  exact taskId_ne_zero t ht.symm

end SierraTee
