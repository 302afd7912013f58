import SierraTee.Kernel.MutexQueue
import SierraTee.Kernel.SemCount
import SierraTee.Names.Objects

/-!
# Deleting mutexes and semaphores (`sw_semaphores.c`)
-/

namespace SierraTee
namespace Names
open FlatMemory Runs

def swEbusy : Nat := 16
def swEinval : Nat := 22

structure SyncState (A : Type) where
  mutexes : List (Entry A PendingMutex)
  semaphores : List (Entry A (SemState TaskId))
  errno : Nat

section
variable {A X : Type} [DecidableEq A]

/-- the object at an address; `none` is one that has been freed or never been there -/
def objectAt (l : List (Entry A X)) (a : A) : Option (Entry A X) := l.find? fun e => e.addr = a

def freeObject (l : List (Entry A X)) (a : A) : List (Entry A X) := l.eraseP fun e => e.addr = a

def useObject (f : X → Option X) (a : A) : List (Entry A X) → Option (List (Entry A X))
  | [] => none
  | e :: l =>
    if e.addr = a then (f e.object).map fun x => { e with object := x } :: l
    else (useObject f a l).map (e :: ·)

/-- `_sw_mutex_destroy`; the fields that it sets are freed with the mutex -/
def swMutexDestroy (s : SyncState A) : Option A → Option (SyncState A × Word)
  | none => some ({ s with errno := swEinval }, swError)
  | some a =>
    (objectAt s.mutexes a).map fun e =>
      if e.object.core.lock.word ≠ otzFree then ({ s with errno := swEbusy }, swError)
      else ({ s with mutexes := freeObject s.mutexes a }, swOk)

/-- `_sw_delete_semaphore`; the counter is unsigned -/
def swDeleteSemaphore (s : SyncState A) : Option A → Option (SyncState A × Word)
  | none => some ({ s with errno := swEinval }, swError)
  | some a =>
    (objectAt s.semaphores a).map fun e =>
      if e.object.counter < 0 then ({ s with errno := swEbusy }, swError)
      else ({ s with semaphores := freeObject s.semaphores a }, swOk)

end

inductive SyncCall (A : Type) where
  | mutexInit (name : ObjectName) (malloc : Option A)
  | mutex (a : A) (act : TaskId × MutexAction)
  | mutexDestroy (p : Option A)
  | semaphoreInit (name : ObjectName) (value : UInt32) (malloc : Option A)
  | semaphore (a : A) (act : TaskId × SemAction)
  | deleteSemaphore (p : Option A)

section
variable {A X : Type} [DecidableEq A]

def syncStep (s : SyncState A) : SyncCall A → Option (SyncState A)
  | .mutexInit name malloc =>
    (namedInit s.mutexes newPendingMutex name.chars malloc).map fun r => { s with mutexes := r.1 }
  | .mutex a act =>
    (useObject (pendingStep · act) a s.mutexes).map fun l => { s with mutexes := l }
  | .mutexDestroy p => (swMutexDestroy s p).map Prod.fst
  | .semaphoreInit name value malloc =>
    (namedInit s.semaphores (newSemState value.toNat) name.chars malloc).map fun r =>
      { s with semaphores := r.1 }
  | .semaphore a act =>
    (useObject (semStep · act) a s.semaphores).map fun l => { s with semaphores := l }
  | .deleteSemaphore p => (swDeleteSemaphore s p).map Prod.fst

def noObjects : SyncState A := ⟨[], [], 0⟩

/-! ## what is asked of a deletion -/

/-- the task is in `sw_wait_event`, or its element is in the queue -/
def mutexWaits (m : PendingMutex) (t : TaskId) : Prop :=
  m.core.pc t = .acquireWait ∨ t ∈ m.waitQueue.elementsList

def semWaits (s : SemState TaskId) (t : TaskId) : Prop :=
  (∃ o w, s.pc t = .wait o w) ∨ t ∈ s.sem.waitQueue.elementsList

def MutexBusy (m : PendingMutex) : Prop :=
  (∃ t, Holds t m.core.history) ∨ ∃ t, mutexWaits m t

def SemBusy (s : SemState TaskId) : Prop :=
  s.stores .release < s.stores .acquire ∨ ∃ t, semWaits s t

def DeletedRight (Busy : X → Prop) (p : Option A) (l l' : List (Entry A X)) (ret : Word) : Prop :=
  (ret = swError ∧ l' = l) ∨
    (ret = swOk ∧ ∃ a e, p = some a ∧ objectAt l a = some e ∧ ¬ Busy e.object ∧ l' = freeObject l a)

def DeleteRight (s : SyncState A) : SyncCall A → Prop
  | .mutexDestroy p => ∀ s' ret, swMutexDestroy s p = some (s', ret) →
      DeletedRight MutexBusy p s.mutexes s'.mutexes ret ∧ s'.semaphores = s.semaphores
  | .deleteSemaphore p => ∀ s' ret, swDeleteSemaphore s p = some (s', ret) →
      DeletedRight SemBusy p s.semaphores s'.semaphores ret ∧ s'.mutexes = s.mutexes
  | _ => True

/-- the mutex is locked, or no task has it and none waits; the semaphore has its initial count and
no task waits -/
def DeleteFits (s : SyncState A) : SyncCall A → Prop
  | .mutexDestroy (some a) => ∀ e, objectAt s.mutexes a = some e →
      e.object.core.lock.word ≠ otzFree ∨
        (∀ t, ¬ Holds t e.object.core.history) ∧ ∀ t, ¬ mutexWaits e.object t
  | .deleteSemaphore (some a) => ∀ e, objectAt s.semaphores a = some e →
      e.object.counter = e.object.sem.count ∧ ∀ t, ¬ semWaits e.object t
  | _ => True

/-! ## the objects of a list -/

variable {P : X → Prop} {l l' : List (Entry A X)} {a : A} {e : Entry A X} {f : X → Option X}

theorem useObject_all (h : ∀ e ∈ l, P e.object) (hf : ∀ x y, P x → f x = some y → P y)
    (hu : useObject f a l = some l') : ∀ e ∈ l', P e.object := by
  induction l generalizing l' with
  | nil => cases hu
  | cons e l ih =>
    change (if e.addr = a then _ else _) = some l' at hu
    have htail : ∀ e ∈ l, P e.object := fun e he => h e (List.mem_cons_of_mem _ he)
    split_ifs at hu with ha
    · obtain ⟨x, hx, rfl⟩ := Option.map_eq_some_iff.mp hu
      intro e' he'
      obtain rfl | he' := List.mem_cons.mp he'
      · exact hf _ _ (h e List.mem_cons_self) hx
      · exact htail e' he'
    · obtain ⟨m, hm, rfl⟩ := Option.map_eq_some_iff.mp hu
      intro e' he'
      obtain rfl | he' := List.mem_cons.mp he'
      · exact h e' List.mem_cons_self
      · exact ih htail hm e' he'

theorem namedInit_all {x : X} {name : Chars} {malloc r : Option A} (h : ∀ e ∈ l, P e.object)
    (hx : P x) (hi : namedInit l x name malloc = some (l', r)) : ∀ e ∈ l', P e.object := by
  unfold namedInit at hi
  split at hi
  · cases hi
    exact h
  · split at hi
    · cases hi
      exact h
    · split_ifs at hi
      cases hi
      intro e he
      obtain he | he := List.mem_append.mp he
      · exact h e he
      · rw [List.mem_singleton.mp he]
        exact hx

/-! ## semaphores of the list -/

def SemaphoresOk (s : SyncState A) : Prop :=
  ∀ e ∈ s.semaphores, ∃ n < 2 ^ 32, SemOk n e.object

theorem syncStep_ok {s s' : SyncState A} {c : SyncCall A} (h : SemaphoresOk s)
    (hs : syncStep s c = some s') : SemaphoresOk s' := by
  cases c with
  | mutexInit name malloc =>
    obtain ⟨r, -, rfl⟩ := Option.map_eq_some_iff.mp hs
    exact h
  | mutex a act =>
    obtain ⟨l, -, rfl⟩ := Option.map_eq_some_iff.mp hs
    exact h
  | mutexDestroy p =>
    obtain ⟨r, hr, rfl⟩ := Option.map_eq_some_iff.mp hs
    cases p with
    | none =>
      cases hr
      exact h
    | some a =>
      obtain ⟨e, -, rfl⟩ := Option.map_eq_some_iff.mp hr
      split_ifs <;> exact h
  | semaphoreInit name value malloc =>
    obtain ⟨r, hr, rfl⟩ := Option.map_eq_some_iff.mp hs
    exact namedInit_all (P := fun x => ∃ n < 2 ^ 32, SemOk n x) h ⟨value.toNat, value.toNat_lt, newSemState_ok _⟩
      hr
  | semaphore a act =>
    obtain ⟨l, hl, rfl⟩ := Option.map_eq_some_iff.mp hs
    refine useObject_all (P := fun x => ∃ n < 2 ^ 32, SemOk n x) h (fun x y hx hy => ?_) hl
    obtain ⟨n, hn, hx⟩ := hx
    exact ⟨n, hn, hx.step hn hy⟩
  | deleteSemaphore p =>
    obtain ⟨r, hr, rfl⟩ := Option.map_eq_some_iff.mp hs
    cases p with
    | none =>
      cases hr
      exact h
    | some a =>
      obtain ⟨e, -, rfl⟩ := Option.map_eq_some_iff.mp hr
      split_ifs
      · exact h
      · exact fun e he => h e (List.mem_of_mem_eraseP he)

theorem units_taken_iff {n : Nat} {s : SemState TaskId} (h : SemOk n s) :
    ¬ s.stores .release < s.stores .acquire ↔ s.counter = s.sem.count := by
  have h1 := h.books
  have h2 := h.le
  rw [h.count]
  omega

theorem not_semBusy_iff {n : Nat} {s : SemState TaskId} (h : SemOk n s) :
    ¬ SemBusy s ↔ s.counter = s.sem.count ∧ ∀ t, ¬ semWaits s t := by
  unfold SemBusy
  rw [not_or, not_exists, units_taken_iff h]

theorem not_mutexBusy_iff {m : PendingMutex} : ¬ MutexBusy m ↔
    (∀ t, ¬ Holds t m.core.history) ∧ ∀ t, ¬ mutexWaits m t := by
  unfold MutexBusy
  rw [not_or, not_exists, not_exists]

/-! ## deletions -/

theorem deletedRight_freed {Busy : X → Prop} (he : objectAt l a = some e) :
    DeletedRight Busy (some a) l (freeObject l a) swOk ↔ ¬ Busy e.object := by
  constructor
  · rintro (⟨h, -⟩ | ⟨-, b, e', hb, he', hn, -⟩)
    · exact absurd h (by decide)
    · cases hb
      rw [he] at he'
      cases he'
      exact hn
  · exact fun h => Or.inr ⟨rfl, a, e, rfl, he, h, rfl⟩

theorem mutexDestroy_right_iff (s : SyncState A) (p : Option A) :
    DeleteRight s (.mutexDestroy p) ↔ DeleteFits s (.mutexDestroy p) := by
  cases p with
  | none =>
    refine iff_of_true (fun s' ret h => ?_) trivial
    cases h
    exact ⟨Or.inl ⟨rfl, rfl⟩, rfl⟩
  | some a =>
    show (∀ s' ret, (objectAt s.mutexes a).map _ = some (s', ret) → _) ↔ ∀ e, _ → _
    cases he : objectAt s.mutexes a with
    | none => exact iff_of_true (fun s' ret h => by cases h) fun e h => by cases h
    | some e =>
      by_cases hw : e.object.core.lock.word = otzFree
      · constructor
        · intro h e' he'
          cases he'
          have h1 := (h _ _ (congrArg some (if_neg (not_not_intro hw)))).1
          exact Or.inr (not_mutexBusy_iff.mp ((deletedRight_freed he).mp h1))
        · intro h s' ret hs
          cases (congrArg some (if_neg (not_not_intro hw))).symm.trans hs
          have h1 := (h e rfl).resolve_left (not_not_intro hw)
          exact ⟨(deletedRight_freed he).mpr (not_mutexBusy_iff.mpr h1), rfl⟩
      · refine iff_of_true (fun s' ret hs => ?_) fun e' he' => ?_
        · cases (congrArg some (if_pos hw)).symm.trans hs
          exact ⟨Or.inl ⟨rfl, rfl⟩, rfl⟩
        · cases he'
          exact Or.inl hw

theorem deleteSemaphore_right_iff {s : SyncState A} (h : SemaphoresOk s) (p : Option A) :
    DeleteRight s (.deleteSemaphore p) ↔ DeleteFits s (.deleteSemaphore p) := by
  cases p with
  | none =>
    refine iff_of_true (fun s' ret h => ?_) trivial
    cases h
    exact ⟨Or.inl ⟨rfl, rfl⟩, rfl⟩
  | some a =>
    show (∀ s' ret, (objectAt s.semaphores a).map _ = some (s', ret) → _) ↔ ∀ e, _ → _
    cases he : objectAt s.semaphores a with
    | none => exact iff_of_true (fun s' ret h => by cases h) fun e h => by cases h
    | some e =>
      obtain ⟨n, -, hok⟩ := h e (List.mem_of_find?_eq_some he)
      constructor
      · intro h e' he'
        cases he'
        have h1 := (h _ _ (congrArg some (if_neg (Nat.not_lt_zero _)))).1
        exact (not_semBusy_iff hok).mp ((deletedRight_freed he).mp h1)
      · intro h s' ret hs
        cases (congrArg some (if_neg (Nat.not_lt_zero _))).symm.trans hs
        exact ⟨(deletedRight_freed he).mpr ((not_semBusy_iff hok).mpr (h e rfl)), rfl⟩

/-- **Deleting objects.**  In a run of initializations, accesses by any tasks and deletions, all
deletions are right exactly if each of them fits the object. -/
theorem deletions_right_iff (calls : List (SyncCall A)) :
    Along syncStep DeleteRight noObjects calls ↔ Along syncStep DeleteFits noObjects calls := by
  refine along_iff SemaphoresOk (fun _ _ _ h _ hs => syncStep_ok h hs) (fun s c h => ?_)
    (fun e he => by cases he) calls
  cases c with
  | mutexDestroy p => exact mutexDestroy_right_iff s p
  | deleteSemaphore p => exact deleteSemaphore_right_iff h p
  | _ => exact Iff.rfl

end

/-! ## objects that are in use -/

/-- the first task takes the only unit of a semaphore, which is then deleted -/
def unitTaken : List (SyncCall Nat) :=
  .semaphoreInit ⟨[97], by decide, by decide⟩ 1 (some 8) :: .semaphore 8 (firstTask, .call .acquire) ::
    List.replicate 6 (.semaphore 8 (firstTask, .step false))

/-- the second task finds the mutex of the first one locked and waits when it has been released -/
def waitsForFree : List (SyncCall Nat) :=
  .mutexInit ⟨[97], by decide, by decide⟩ (some 8) ::
    (callOf firstTask .acquire 4 ++ callOf secondTask .acquire 2 ++ callOf firstTask .release 6 ++
      List.replicate 4 (secondTask, MutexAction.step false)).map (.mutex 8)

/-- neither of the two is refused -/
theorem deletions_of_used_objects :
    ¬ Along syncStep DeleteRight noObjects (unitTaken ++ [.deleteSemaphore (some 8)]) ∧
      ¬ Along syncStep DeleteRight noObjects (waitsForFree ++ [.mutexDestroy (some 8)]) := by
  constructor
  · intro h
    have h0 : (run syncStep noObjects unitTaken).bind (fun s => (objectAt s.semaphores 8).map fun e =>
        (e.object.stores .release, e.object.stores .acquire)) = some (0, 1) := by decide
    obtain ⟨s, hs, h1⟩ := Option.bind_eq_some_iff.mp h0
    obtain ⟨e, he, h2⟩ := Option.map_eq_some_iff.mp h1
    have h3 := along_snoc h hs _ _ (congrArg (Option.map _) he)
    have h4 := (deletedRight_freed he).mp h3.1
    refine h4 (Or.inl ?_)
    rw [show e.object.stores .release = 0 from congrArg Prod.fst h2,
      show e.object.stores .acquire = 1 from congrArg Prod.snd h2]
    exact Nat.one_pos
  · intro h
    have h0 : (run syncStep noObjects waitsForFree).bind (fun s => (objectAt s.mutexes 8).map fun e =>
        (e.object.core.lock.word, e.object.waitQueue.elementsList)) = some (0, [secondTask]) := by
      decide
    obtain ⟨s, hs, h1⟩ := Option.bind_eq_some_iff.mp h0
    obtain ⟨e, he, h2⟩ := Option.map_eq_some_iff.mp h1
    have hw : e.object.core.lock.word = otzFree := congrArg Prod.fst h2
    have h3 := along_snoc h hs _ _ ((congrArg (Option.map _) he).trans
      (congrArg some (if_neg (not_not_intro hw))))
    have h4 := (deletedRight_freed he).mp h3.1
    refine h4 (Or.inr ⟨secondTask, Or.inr ?_⟩)
    rw [show e.object.waitQueue.elementsList = [secondTask] from congrArg Prod.snd h2]
    exact List.mem_singleton_self _

end Names
end SierraTee
