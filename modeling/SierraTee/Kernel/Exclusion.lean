import SierraTee.Kernel.Mutex
import Mathlib.Data.List.Basic

/-!
# Mutual exclusion

* `mutex_exclusion`  mutual exclusion in every run without such a store;
* `mutex_takeover`   a release that clears the lock word of another task.
-/

namespace SierraTee
open Exclusive Runs

/-! ## Histories -/

def Paired : List MutexEvent → Prop
  | [] => True
  | .acquired _ :: h => (∀ u, h.head? ≠ some (.acquired u)) ∧ Paired h
  | .released t :: h => h.head? = some (.acquired t) ∧ Paired h

def Holds (t : TaskId) (h : List MutexEvent) : Prop :=
  ∃ l m, h = l ++ .acquired t :: m ∧ .released t ∉ l

/-- the newest event is the first one -/
structure Exclusion (h : List MutexEvent) : Prop where
  /-- between two acquisitions there is a release by the first acquirer -/
  between : ∀ l m n t u, h = l ++ .acquired u :: (m ++ .acquired t :: n) → .released t ∈ m
  /-- the lock word is only cleared by a task that holds the mutex -/
  holder : ∀ l m t, h = l ++ .released t :: m → Holds t m

section
variable {h l m n : List MutexEvent} {t u : TaskId}

theorem Paired.tail {e : MutexEvent} (hp : Paired (e :: h)) : Paired h := by
  cases e with
  | acquired t => exact hp.2
  | released t => exact hp.2

theorem Paired.suffix (hp : Paired (l ++ m)) : Paired m := by
  induction l with
  | nil => exact hp
  | cons e l ih => exact ih hp.tail

theorem Paired.released_mem (hp : Paired (m ++ .acquired t :: n)) (hm : m ≠ []) :
    .released t ∈ m := by
  induction m with
  | nil => exact absurd rfl hm
  | cons e m ih =>
    by_cases h1 : m = []
    · subst h1
      cases e with
      | acquired u => exact absurd rfl (hp.1 t)
      | released u =>
        have h2 : some (MutexEvent.acquired t) = some (.acquired u) := hp.1
        cases h2
        simp
    · exact List.mem_cons_of_mem _ (ih hp.tail h1)

theorem Paired.exclusion (hp : Paired h) : Exclusion h := by
  refine ⟨?_, ?_⟩
  · rintro l m n t u rfl
    have h1 := hp.suffix
    refine h1.2.released_mem ?_
    rintro rfl
    exact h1.1 t rfl
  · rintro l m t rfl
    have h1 : m.head? = some (.acquired t) := hp.suffix.1
    cases m with
    | nil => cases h1
    | cons e m =>
      cases h1
      exact ⟨[], m, rfl, by simp⟩

end

/-! ## The invariant -/

inductive MutexPart where
  | plain
  /-- before the store of an acquisition, and behind it -/
  | taking | taken
  /-- before the load of a release, before its store, and behind the loop -/
  | looking | clearing | leaving
  deriving DecidableEq

def MutexPc.part : MutexPc → MutexPart
  | .acquireStrex | .nowaitStrex => .taking
  | .acquireOwner | .nowaitOwner => .taken
  | .releaseLdrex => .looking
  | .releaseStrex => .clearing
  | .releaseWakeup | .releaseOwner => .leaving
  | _ => .plain

namespace MutexState

def part (s : MutexState) (t : TaskId) : MutexPart := (s.pc t).part

/-- the task was the last one to acquire the mutex, and it has not been released -/
def Last (s : MutexState) (t : TaskId) : Prop := s.history.head? = some (.acquired t)

def Has (s : MutexState) (t : TaskId) : Prop := s.part t = .taken ∨ s.Last t

end MutexState

structure MutexOk (s : MutexState) : Prop where
  paired : Paired s.history
  free : s.lock.word = 0 → ∀ t, ¬ s.Has t
  one : ∀ t u, s.Has t → s.Has u → t = u
  taken : ∀ t, s.part t = .taken → ∀ u, ¬ s.Last u
  taking : ∀ t, s.part t = .taking → s.lock.Fresh t 0
  looking : ∀ t, s.part t = .looking → s.Last t ∨ s.lock.word = 0
  clearing : ∀ t, s.part t = .clearing → s.Last t
  owner : ∀ t : TaskId, s.mutex.ownerId = t → s.Last t ∨ s.part t = .looking ∨ s.part t = .leaving
  init : s.mutex.initParam = true

/-- a store of an acquisition succeeds only when no task is about to load the lock word in
`cpu_release_mutex` -/
def NoTakeover (s : MutexState) (a : TaskId × MutexAction) : Prop :=
  ∀ fails, a.2 = .step fails → s.part a.1 = .taking → s.lock.succeeds a.1 fails = true →
    ∀ u, s.pc u ≠ .releaseLdrex

section
variable {s s' : MutexState} {t u : TaskId} {p q : MutexPc} {fails : Bool} {e : MutexEvent}

theorem part_goto : (s.goto t q).part u = if u = t then q.part else s.part u := by
  show (Function.update s.pc t q u).part = _
  rw [Function.update_apply]
  split_ifs <;> rfl

theorem part_setLock (c : Cell TaskId Nat) : (s.setLock c).part t = s.part t := rfl

theorem part_goto_self : (s.goto t q).part t = q.part := by rw [part_goto, if_pos rfl]

theorem part_looking : s.part t = .looking ↔ s.pc t = .releaseLdrex := by
  unfold MutexState.part
  cases s.pc t <;> simp [MutexPc.part]

theorem taskId_ne_zero (t : TaskId) : (t : Nat) ≠ 0 := by
  intro h
  have h1 : taskIdStart ≤ (t : Nat) := t.2
  rw [h] at h1
  exact absurd h1 (by decide)

/-! ## What an instruction does -/

inductive MutexEffect (s : MutexState) (t : TaskId) (fails : Bool) : MutexState → Prop
  | goes {q : MutexPc} (hp : s.part t = .plain) (hq : q.part = .plain) :
    MutexEffect s t fails (s.goto t q)
  | loads {q : MutexPc} (hp : s.part t = .plain)
    (hq : q.part = .plain ∨ q.part = .taking ∧ s.lock.word = 0) :
    MutexEffect s t fails ((s.setLock (s.lock.ldrex t)).goto t q)
  | takes {q : MutexPc} (hp : s.part t = .taking) (hq : q.part = .taken)
    (hok : s.lock.succeeds t fails = true) :
    MutexEffect s t fails ((s.setLock (s.lock.strex t otzLocked fails)).goto t q)
  /-- the store of an acquisition fails -/
  | misses {q : MutexPc} (hp : s.part t = .taking) (hq : q.part = .plain)
    (hok : s.lock.succeeds t fails = false) :
    MutexEffect s t fails ((s.setLock (s.lock.strex t otzLocked fails)).goto t q)
  | acquires (hp : s.part t = .taken) :
    MutexEffect s t fails (((s.setOwner t).log (.acquired t)).goto t .idle)
  /-- the owner begins to release -/
  | enters (hp : s.part t = .plain) (hown : s.mutex.ownerId = t) :
    MutexEffect s t fails (s.goto t .releaseLdrex)
  | looks {q : MutexPc} (hp : s.part t = .looking)
    (hq : q = .releaseStrex ∧ s.lock.word = 1 ∨ q.part = .leaving) :
    MutexEffect s t fails ((s.setLock (s.lock.ldrex t)).goto t q)
  | clears (hp : s.pc t = .releaseStrex) (hok : s.lock.succeeds t fails = true) :
    MutexEffect s t fails
      (((s.setLock (s.lock.strex t otzFree fails)).log (.released t)).goto t .releaseLdrex)
  /-- the store of a release fails -/
  | keeps (hp : s.pc t = .releaseStrex) (hok : s.lock.succeeds t fails = false) :
    MutexEffect s t fails ((s.setLock (s.lock.strex t otzFree fails)).goto t .releaseWakeup)
  | wakes (hp : s.pc t = .releaseWakeup) : MutexEffect s t fails (s.goto t .releaseOwner)
  | disowns (hp : s.pc t = .releaseOwner) : MutexEffect s t fails ((s.setOwner 0).goto t .idle)

theorem instr_effect (hinit : s.mutex.initParam = true) (hp : s.pc t = p)
    (h : s.instr t fails p = some s') : MutexEffect s t fails s' := by
  have hpart : s.part t = p.part := congrArg MutexPc.part hp
  have load0 {q r : MutexPc} (h1 : p.part = .plain) (hq : q.part = .taking)
      (hr : r.part = .plain) : MutexEffect s t fails (s.load t 0 q r) := by
    refine .loads (hpart.trans h1) ?_
    split_ifs with hw
    · exact Or.inr ⟨hq, hw⟩
    · exact Or.inl hr
  have store {q r : MutexPc} (h1 : p.part = .taking) (hq : q.part = .taken)
      (hr : r.part = .plain) : MutexEffect s t fails
        ((s.setLock (s.lock.strex t otzLocked fails)).goto t
          (if s.lock.succeeds t fails then q else r)) := by
    cases hok : s.lock.succeeds t fails with
    | true => exact .takes (hpart.trans h1) hq hok
    | false => exact .misses (hpart.trans h1) hr hok
  cases p with
  | idle => cases h
  | acquire =>
    change (if s.mutex.initParam = false then some (s.goto t .idle)
      else if s.mutex.ownerId = t then some (s.goto t .idle)
      else some (s.goto t .acquireLdrex)) = some s' at h
    split_ifs at h <;> cases h <;> exact .goes hpart rfl
  | acquireLdrex =>
    cases h
    exact load0 rfl rfl rfl
  | acquireStrex =>
    cases h
    exact store rfl rfl rfl
  | acquireWait =>
    cases h
    split_ifs <;> exact .goes hpart rfl
  | acquireSleep =>
    cases h
    split_ifs <;> exact .goes hpart rfl
  | acquireOwner =>
    cases h
    exact .acquires hpart
  | nowait =>
    change (if s.mutex.initParam = false then some _ else some (s.goto t .nowaitLdrex)) = some s' at h
    rw [hinit, if_neg (by decide)] at h
    cases h
    exact .goes hpart rfl
  | nowaitLdrex =>
    cases h
    exact load0 rfl rfl rfl
  | nowaitStrex =>
    cases h
    exact store rfl rfl rfl
  | nowaitOwner =>
    cases h
    exact .acquires hpart
  | release =>
    change (if s.mutex.initParam = false ∨ s.mutex.ownerId ≠ t then some (s.goto t .idle)
      else some (s.goto t .releaseLdrex)) = some s' at h
    split_ifs at h with hown
    · cases h
      exact .goes hpart rfl
    · cases h
      rw [not_or, not_not] at hown
      exact .enters hpart hown.2
  | releaseLdrex =>
    cases h
    refine .looks hpart ?_
    split_ifs with hw
    · exact Or.inl ⟨rfl, hw⟩
    · exact Or.inr rfl
  | releaseStrex =>
    change (if s.lock.succeeds t fails then some _ else some _) = some s' at h
    split_ifs at h with hok
    · cases h
      exact .clears hp hok
    · cases h
      exact .keeps hp (by simpa using hok)
  | releaseWakeup =>
    cases h
    exact .wakes hp
  | releaseOwner =>
    cases h
    exact .disowns hp

/-! ## The operations -/

theorem MutexOk.goto (hs : MutexOk s) (h1 : q.part ≠ .taken)
    (h2 : q.part = .taking → s.lock.Fresh t 0) (h3 : q.part = .clearing → s.Last t)
    (h4 : q.part = .looking → s.Last t ∨ s.lock.word = 0)
    (h5 : s.mutex.ownerId = t → s.Last t ∨ q.part = .looking ∨ q.part = .leaving) :
    MutexOk (s.goto t q) := by
  have hhas (u : TaskId) (h : (s.goto t q).Has u) : s.Has u := by
    refine h.imp_left fun h => ?_
    rw [part_goto] at h
    split_ifs at h
    · exact absurd h h1
    · exact h
  refine ⟨hs.paired, fun h u hu => hs.free h u (hhas u hu),
    fun u v hu hv => hs.one u v (hhas u hu) (hhas v hv), fun u hu => ?_, fun u hu => ?_,
    fun u hu => ?_, fun u hu => ?_, fun u hu => ?_, hs.init⟩
  · rw [part_goto] at hu
    split_ifs at hu
    · exact absurd hu h1
    · exact hs.taken u hu
  · rw [part_goto] at hu
    split_ifs at hu with e
    · rw [e]
      exact h2 hu
    · exact hs.taking u hu
  · rw [part_goto] at hu
    split_ifs at hu with e
    · rw [e]
      exact h4 hu
    · exact hs.looking u hu
  · rw [part_goto] at hu
    split_ifs at hu with e
    · rw [e]
      exact h3 hu
    · exact hs.clearing u hu
  · rw [part_goto]
    split_ifs with e
    · rw [e] at hu ⊢
      exact h5 hu
    · exact hs.owner u hu

theorem MutexOk.plain (hs : MutexOk s) (hp : s.part t ≠ .looking) (hp' : s.part t ≠ .leaving)
    (hq : q.part = .plain) : MutexOk (s.goto t q) := by
  refine hs.goto ?_ ?_ ?_ ?_ fun h => Or.inl ?_
  · rw [hq]
    decide
  · rw [hq]
    exact fun h => absurd h (by decide)
  · rw [hq]
    exact fun h => absurd h (by decide)
  · rw [hq]
    exact fun h => absurd h (by decide)
  · exact (hs.owner t h).resolve_right fun h => h.elim hp hp'

theorem MutexOk.leave (hs : MutexOk s) (hq : q.part = .leaving) : MutexOk (s.goto t q) := by
  refine hs.goto ?_ ?_ ?_ ?_ fun _ => Or.inr (Or.inr hq)
  · rw [hq]
    decide
  · rw [hq]
    exact fun h => absurd h (by decide)
  · rw [hq]
    exact fun h => absurd h (by decide)
  · rw [hq]
    exact fun h => absurd h (by decide)

theorem MutexOk.setLock {c : Cell TaskId Nat} (hs : MutexOk s) (hw : c.word = s.lock.word)
    (hf : ∀ u, s.part u = .taking → c.Fresh u 0) : MutexOk (s.setLock c) := by
  refine { hs with free := fun h => hs.free (hw ▸ h), taking := hf, looking := fun u hu => ?_ }
  exact (hs.looking u hu).imp_right fun h => hw.trans h

theorem MutexOk.load (hs : MutexOk s) (hp : s.part t ≠ .taking) :
    MutexOk (s.setLock (s.lock.ldrex t)) := by
  refine hs.setLock rfl fun u hu => (hs.taking u hu).ldrex ?_
  rintro rfl
  exact hp hu

theorem MutexOk.strexFails (hs : MutexOk s) (hf : s.lock.succeeds t fails = false) (v : Nat) :
    MutexOk (s.setLock (s.lock.strex t v fails)) := by
  refine hs.setLock ?_ fun u hu => (hs.taking u hu).strex
  rw [Cell.strex_of_not _ _ _ _ hf]

theorem MutexOk.take (hs : MutexOk s) (hp : s.part t = .taking) (hq : q.part = .taken)
    (hok : s.lock.succeeds t fails = true) (hno : ∀ u, s.pc u ≠ .releaseLdrex) :
    MutexOk ((s.setLock (s.lock.strex t otzLocked fails)).goto t q) := by
  have hword : s.lock.word = 0 := (hs.taking t hp).succeeds hok
  have hfree := hs.free hword
  have hlast (u : TaskId) : ¬ s.Last u := fun h => hfree u (Or.inr h)
  have hhas (u : TaskId) (h : ((s.setLock (s.lock.strex t otzLocked fails)).goto t q).Has u) :
      u = t := by
    by_contra hne
    refine hfree u (h.imp_left fun h => ?_)
    rw [part_goto, if_neg hne] at h
    exact h
  have hcell := Cell.strex_of_succeeds s.lock t otzLocked fails hok
  refine ⟨hs.paired, fun h => ?_, fun u v hu hv => (hhas u hu).trans (hhas v hv).symm,
    fun _ _ => hlast, fun u _ => ?_, fun u hu => ?_, fun u hu => ?_, fun u hu => ?_, hs.init⟩
  · have h1 : (s.lock.strex t otzLocked fails).word = 0 := h
    rw [hcell] at h1
    cases h1
  · show (s.lock.strex t otzLocked fails).Fresh u 0
    rw [hcell]
    intro h
    cases h
  · rw [part_goto] at hu
    split_ifs at hu with e
    · rw [hq] at hu
      cases hu
    · exact absurd (part_looking.mp hu) (hno u)
  · rw [part_goto] at hu
    split_ifs at hu with e
    · rw [hq] at hu
      cases hu
    · exact hs.clearing u hu
  · have h1 := (hs.owner u hu).resolve_left (hlast u)
    rw [part_goto]
    split_ifs with e
    · rw [e, hp] at h1
      exact absurd h1 (by decide)
    · exact Or.inr h1

theorem MutexOk.acquired (hs : MutexOk s) (hp : s.part t = .taken) :
    MutexOk (((s.setOwner t).log (.acquired t)).goto t .idle) := by
  have hhas (u : TaskId) (h : (((s.setOwner t).log (.acquired t)).goto t .idle).Has u) :
      u = t := by
    obtain h | h := h
    · rw [part_goto] at h
      split_ifs at h with e
      · exact e
      · exact hs.one u t (Or.inl h) (Or.inl hp)
    · have h1 : some (MutexEvent.acquired t) = some (.acquired u) := h
      cases h1
      rfl
  have hother (u : TaskId) (x : MutexPart) (hx : x ≠ .plain)
      (h : (((s.setOwner t).log (.acquired t)).goto t .idle).part u = x) : s.part u = x := by
    rw [part_goto] at h
    split_ifs at h
    · exact absurd h.symm hx
    · exact h
  refine ⟨⟨hs.taken t hp, hs.paired⟩, fun h => ?_, fun u v hu hv => (hhas u hu).trans (hhas v hv).symm,
    fun u hu => ?_, fun u hu => hs.taking u (hother u _ (by decide) hu), fun u hu => ?_, fun u hu => ?_,
    fun u hu => Or.inl ?_, hs.init⟩
  · exact absurd (Or.inl hp) (hs.free h t)
  · have h1 := hother u _ (by decide) hu
    have h2 := hs.one u t (Or.inl h1) (Or.inl hp)
    rw [h2, part_goto_self] at hu
    cases hu
  · refine (hs.looking u (hother u _ (by decide) hu)).imp_left fun h => ?_
    exact absurd h (hs.taken t hp u)
  · exact absurd (hs.clearing u (hother u _ (by decide) hu)) (hs.taken t hp u)
  · have h1 : (t : Nat) = u := hu
    rw [← Subtype.ext h1]
    rfl

theorem MutexOk.clear (hs : MutexOk s) (hp : s.part t = .clearing)
    (hok : s.lock.succeeds t fails = true) :
    MutexOk (((s.setLock (s.lock.strex t otzFree fails)).log (.released t)).goto t .releaseLdrex) := by
  have hlast := hs.clearing t hp
  have hno (u : TaskId) (h : s.part u = .taken) : False := hs.taken u h t hlast
  have hcell := Cell.strex_of_succeeds s.lock t otzFree fails hok
  have hother (u : TaskId) (x : MutexPart) (hx : x ≠ .looking)
      (h : (((s.setLock (s.lock.strex t otzFree fails)).log (.released t)).goto t .releaseLdrex).part u
        = x) : u ≠ t ∧ s.part u = x := by
    rw [part_goto] at h
    split_ifs at h with e
    · exact absurd h.symm hx
    · exact ⟨e, h⟩
  have hhas (u : TaskId)
      (h : (((s.setLock (s.lock.strex t otzFree fails)).log (.released t)).goto t .releaseLdrex).Has
        u) : False := by
    obtain h | h := h
    · exact hno u (hother u _ (by decide) h).2
    · have h1 : some (MutexEvent.released t) = some (.acquired u) := h
      cases h1
  refine ⟨⟨hlast, hs.paired⟩, fun _ => hhas, fun u v hu _ => (hhas u hu).elim,
    fun u hu => (hhas u (Or.inl hu)).elim, fun u _ => ?_, fun u _ => Or.inr ?_, fun u hu => ?_,
    fun u hu => Or.inr ?_, hs.init⟩
  · show (s.lock.strex t otzFree fails).Fresh u 0
    rw [hcell]
    intro h
    cases h
  · show (s.lock.strex t otzFree fails).word = 0
    rw [hcell]
    rfl
  · obtain ⟨h1, h2⟩ := hother u _ (by decide) hu
    exact absurd (hs.one u t (Or.inr (hs.clearing u h2)) (Or.inr hlast)) h1
  · rw [part_goto]
    split_ifs with e
    · exact Or.inl rfl
    · refine (hs.owner u hu).resolve_left fun h => e ?_
      exact hs.one u t (Or.inr h) (Or.inr hlast)

/-! ## Steps and runs -/

theorem MutexOk.effect (hs : MutexOk s)
    (ha : s.part t = .taking → s.lock.succeeds t fails = true → ∀ u, s.pc u ≠ .releaseLdrex)
    (h : MutexEffect s t fails s') : MutexOk s' := by
  cases h with
  | goes hp hq => exact hs.plain (by rw [hp]; decide) (by rw [hp]; decide) hq
  | loads hp hq =>
    have h1 := hs.load (t := t) (by rw [hp]; decide)
    obtain hq | ⟨hq, hw⟩ := hq
    · exact h1.plain (by rw [part_setLock, hp]; decide) (by rw [part_setLock, hp]; decide) hq
    · refine h1.goto (by rw [hq]; decide) (fun _ => ?_) (by rw [hq]; exact fun h => absurd h (by decide))
        (by rw [hq]; exact fun h => absurd h (by decide)) fun h => Or.inl ?_
      · rw [← hw]
        exact Cell.fresh_ldrex s.lock t
      · refine (hs.owner t h).resolve_right ?_
        rw [hp]
        decide
  | takes hp hq hok => exact hs.take hp hq hok (ha hp hok)
  | misses hp hq hok =>
    exact (hs.strexFails hok otzLocked).plain (by rw [part_setLock, hp]; decide)
      (by rw [part_setLock, hp]; decide) hq
  | acquires hp => exact hs.acquired hp
  | enters hp hown =>
    have hlast : s.Last t := by
      refine (hs.owner t hown).resolve_right ?_
      rw [hp]
      decide
    exact hs.goto (by decide) (fun h => absurd h (by decide)) (fun h => absurd h (by decide))
      (fun _ => Or.inl hlast) fun _ => Or.inl hlast
  | looks hp hq =>
    have h1 := hs.load (t := t) (by rw [hp]; decide)
    obtain ⟨hq, hw⟩ | hq := hq
    · have hlast : s.Last t := by
        refine (hs.looking t hp).resolve_right ?_
        rw [hw]
        decide
      rw [hq]
      exact h1.goto (by decide) (fun h => absurd h (by decide)) (fun _ => hlast)
        (fun h => absurd h (by decide)) fun _ => Or.inl hlast
    · exact h1.leave hq
  | clears hp hok => exact hs.clear (congrArg MutexPc.part hp) hok
  | keeps hp hok => exact (hs.strexFails hok otzFree).leave rfl
  | wakes hp => exact hs.leave rfl
  | disowns hp =>
    have h1 : MutexOk (s.setOwner 0) := by
      refine { hs with owner := fun u hu => ?_ }
      exact absurd hu.symm (taskId_ne_zero u)
    exact h1.goto (by decide) (fun h => absurd h (by decide)) (fun h => absurd h (by decide))
      (fun h => absurd h (by decide)) fun h => absurd h.symm (taskId_ne_zero t)

theorem MutexOk.call (hs : MutexOk s) (hq : q.part = .plain) (h : s.call t q = some s') :
    MutexOk s' := by
  unfold MutexState.call at h
  split_ifs at h with hp
  cases h
  have hpart : s.part t = .plain := congrArg MutexPc.part hp
  exact hs.plain (by rw [hpart]; decide) (by rw [hpart]; decide) hq

theorem MutexOk.step {a : TaskId × MutexAction} (hs : MutexOk s) (ha : NoTakeover s a)
    (h : mutexStep s a = some s') : MutexOk s' := by
  obtain ⟨t, act⟩ := a
  cases act with
  | acquire => exact hs.call rfl h
  | nowait => exact hs.call rfl h
  | release => exact hs.call rfl h
  | step fails => exact hs.effect (ha fails rfl) (instr_effect hs.init rfl h)

theorem newMutexState_ok : MutexOk newMutexState := by
  have hhas (t : TaskId) : ¬ newMutexState.Has t := by
    rintro (h | h)
    · cases h
    · cases h
  refine ⟨trivial, fun _ => hhas, fun t u h => absurd h (hhas t), fun t h => ?_, fun t h => ?_,
    fun t h => ?_, fun t h => ?_, fun t h => ?_, rfl⟩
  · cases h
  · cases h
  · cases h
  · cases h
  · exact absurd h.symm (taskId_ne_zero t)

/-- **Mutual exclusion**, for any number of tasks and in every order of their steps -/
theorem mutex_exclusion {l : List (TaskId × MutexAction)}
    (hl : Along mutexStep NoTakeover newMutexState l) (h : run mutexStep newMutexState l = some s) :
    Exclusion s.history :=
  (run_invariant MutexOk (fun _ _ _ hs ha h => hs.step ha h) newMutexState_ok hl h).paired.exclusion

end

/-! ## A lock word that is taken before the releasing task looks at it again -/

def firstTask : TaskId := ⟨0x11, by decide⟩
def secondTask : TaskId := ⟨0x12, by decide⟩

def callOf (t : TaskId) (c : MutexAction) (n : Nat) : List (TaskId × MutexAction) :=
  (t, c) :: List.replicate n (t, .step false)

/-- a step of one of the two tasks, where no release is about to load while an acquisition stores -/
def TwoTurns (s : MutexState) (a : TaskId × MutexAction) : Prop :=
  (a.1 = firstTask ∨ a.1 = secondTask) ∧
    (s.part a.1 = .taking → s.pc firstTask ≠ .releaseLdrex ∧ s.pc secondTask ≠ .releaseLdrex)

instance (s : MutexState) (a : TaskId × MutexAction) : Decidable (TwoTurns s a) :=
  inferInstanceAs (Decidable (_ ∧ (_ → _)))

theorem goto_other {s : MutexState} {t u : TaskId} {q : MutexPc} (h : u ≠ t) :
    (s.goto t q).pc u = s.pc u := Function.update_of_ne h ..

theorem mutexStep_other {s s' : MutexState} {a : TaskId × MutexAction} {u : TaskId}
    (h : mutexStep s a = some s') (hu : u ≠ a.1) : s'.pc u = s.pc u := by
  obtain ⟨t, act⟩ := a
  have hcall {q : MutexPc} (h : s.call t q = some s') : s'.pc u = s.pc u := by
    unfold MutexState.call at h
    split_ifs at h
    cases h
    exact goto_other hu
  cases act with
  | acquire => exact hcall h
  | nowait => exact hcall h
  | release => exact hcall h
  | step fails =>
    change s.instr t fails (s.pc t) = some s' at h
    unfold MutexState.instr at h
    split at h
    · cases h
    all_goals
      try split_ifs at h
      all_goals
        cases h
        exact goto_other hu

theorem noTakeover_of_twoTurns {l : List (TaskId × MutexAction)}
    (h : Along mutexStep TwoTurns newMutexState l) : Along mutexStep NoTakeover newMutexState l := by
  refine along_mono (fun s => ∀ u, u ≠ firstTask → u ≠ secondTask → s.pc u = .idle)
    (fun s a s' hs ha h u h1 h2 => ?_) (fun s a hs ha fails _ hp _ u hu => ?_)
    (fun _ _ _ => rfl) h
  · have hne : u ≠ a.1 := by
      rintro rfl
      exact ha.1.elim h1 h2
    rw [mutexStep_other h hne]
    exact hs u h1 h2
  · obtain ⟨h1, h2⟩ := ha.2 hp
    by_cases e1 : u = firstTask
    · exact h1 (e1 ▸ hu)
    · by_cases e2 : u = secondTask
      · exact h2 (e2 ▸ hu)
      · rw [hs u e1 e2] at hu
        cases hu

/-- the first task acquires the mutex and releases it, then the second one acquires it -/
def handover : List (TaskId × MutexAction) :=
  callOf firstTask .acquire 4 ++ callOf firstTask .release 6 ++ callOf secondTask .acquire 4

theorem mutex_exclusion_handover : ∃ s, run mutexStep newMutexState handover = some s ∧
    s.history = [.acquired secondTask, .released firstTask, .acquired firstTask] ∧
    Exclusion s.history := by
  have h : (run mutexStep newMutexState handover).map MutexState.history
      = some [.acquired secondTask, .released firstTask, .acquired firstTask] := by decide
  obtain ⟨s, hs, h1⟩ := Option.map_eq_some_iff.mp h
  exact ⟨s, hs, h1, mutex_exclusion (noTakeover_of_twoTurns (by decide)) hs⟩

/-- the first task clears the lock word, the second one acquires the mutex, and the first one
clears the lock word again -/
def takeover : List (TaskId × MutexAction) :=
  callOf firstTask .acquire 4 ++ callOf firstTask .release 3 ++ callOf secondTask .acquire 4 ++
    List.replicate 2 (firstTask, .step false)

theorem mutex_takeover : ∃ s, run mutexStep newMutexState takeover = some s ∧
    ¬ Exclusion s.history := by
  have h : (run mutexStep newMutexState takeover).map MutexState.history
      = some [.released firstTask, .acquired secondTask, .released firstTask,
        .acquired firstTask] := by decide
  obtain ⟨s, hs, h1⟩ := Option.map_eq_some_iff.mp h
  refine ⟨s, hs, fun he => ?_⟩
  obtain ⟨l, m, h2, h3⟩ := he.holder [] _ firstTask h1
  rcases l with _ | ⟨e1, _ | ⟨e2, l⟩⟩
  · simp [firstTask, secondTask] at h2
  · simp at h2
  · simp only [List.cons_append, List.cons.injEq] at h2
    exact h3 (by simp [← h2.2.1])

end SierraTee
