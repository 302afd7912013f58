import SierraTee.Kernel.Semaphore

/-!
# The counter of a semaphore

* `semaphore_conserved`  the counter over all runs.
-/

namespace SierraTee
open Function Exclusive Word Runs

section
variable {A : Type*} [DecidableEq A]

/-- the operation has stored, and its call has not returned -/
def SemPc.past : SemPc A → Option SemOp
  | .condition .acquire => some .acquire
  | .setCondition .acquire _ => some .acquire
  | .wakeup o => some o
  | .wake o _ => some o
  | _ => none

def SemEvent.isStore (o : SemOp) : SemEvent A → Bool
  | .stored o' _ => o' == o
  | .returned _ _ => false

/-- the number of operations that have stored a new counter -/
def SemState.stores (s : SemState A) (o : SemOp) : Nat := s.history.countP (SemEvent.isStore o)

def SemOp.Within (n v : Nat) : SemOp → Prop
  | .acquire => 0 < v ∧ v ≤ n
  | .release => v < n

structure SemOk (n : Nat) (s : SemState A) : Prop where
  count : s.sem.count = n
  init : s.sem.initParam = true
  le : s.counter ≤ n
  books : s.counter + s.stores .acquire = n + s.stores .release
  fresh : ∀ t o v, s.pc t = .strex o v → s.sem.counterParam.Fresh t v ∧ o.Within n v
  returns : ∀ t o, s.history.count (.stored o t)
    = s.history.count (.returned o t) + if (s.pc t).past = some o then 1 else 0

variable {n : Nat} {s s' : SemState A} {t : A} {o : SemOp} {p q : SemPc A} {fails : Bool}

theorem fresh_goto {c : Cell A Nat} (hq : ∀ o v, q = .strex o v → c.Fresh t v ∧ o.Within n v)
    (h : ∀ u, u ≠ t → ∀ o v, s.pc u = .strex o v → c.Fresh u v ∧ o.Within n v) :
    ∀ u o v, (s.goto t q).pc u = .strex o v → c.Fresh u v ∧ o.Within n v :=
  (forall_update_iff s.pc fun u p => ∀ o v, p = .strex o v →
    c.Fresh u v ∧ o.Within n v).mpr ⟨hq, h⟩

theorem SemOk.goto (h : SemOk n s) (hp : q.past = (s.pc t).past)
    (hq : ∀ o v, q = .strex o v → s.sem.counterParam.Fresh t v ∧ o.Within n v) :
    SemOk n (s.goto t q) := by
  refine ⟨h.count, h.init, h.le, h.books, fresh_goto hq fun u _ => h.fresh u, fun u o => ?_⟩
  have he : ((s.goto t q).pc u).past = (s.pc u).past := by
    show (update s.pc t q u).past = _
    by_cases e : u = t
    · rw [e, update_self, hp]
    · rw [update_of_ne e]
  rw [he]
  exact h.returns u o

theorem SemOk.plain (h : SemOk n s) (hp : q.past = (s.pc t).past) (hq : ∀ o v, q ≠ .strex o v) :
    SemOk n (s.goto t q) :=
  h.goto hp fun o v e => absurd e (hq o v)

theorem SemOk.setCounter {c : Cell A Nat} (h : SemOk n s) (hw : c.word = s.counter)
    (hf : ∀ u o v, s.pc u = .strex o v → c.Fresh u v) : SemOk n (s.setCounter c) := by
  have he : (s.setCounter c).counter = s.counter := hw
  refine ⟨h.count, h.init, ?_, ?_, fun u o v hu => ⟨hf u o v hu, (h.fresh u o v hu).2⟩, h.returns⟩
  · rw [he]
    exact h.le
  · rw [he]
    exact h.books

theorem SemOk.setCondition (h : SemOk n s) (b : Bool) : SemOk n (s.setCondition b) :=
  { h with }

theorem SemOk.setQueue (h : SemOk n s) (w : TaskPendingQueue A) : SemOk n (s.setQueue w) :=
  { h with }

theorem SemOk.store (h : SemOk n s) (hn : n < 2 ^ 32) {v : Nat} (hp : s.pc t = .strex o v)
    (hok : s.sem.counterParam.succeeds t fails = true) :
    SemOk n (((s.setCounter (s.sem.counterParam.strex t (o.update v) fails)).log (.stored o t)).goto t
      (.stored o)) := by
  obtain ⟨hfresh, hin⟩ := h.fresh t o v hp
  have hv : s.counter = v := hfresh.succeeds hok
  have hcell := Cell.strex_of_succeeds s.sem.counterParam t (o.update v) fails hok
  rw [hcell]
  have hle := h.le
  have hbooks := h.books
  rw [hv] at hle hbooks
  have hnew : o.update v ≤ n ∧ o.update v + s.stores .acquire + (if o = .acquire then 1 else 0)
      = n + s.stores .release + (if o = .release then 1 else 0) := by
    cases o with
    | acquire =>
      have h1 : SemOp.acquire.update v = v - 1 := sub32_of_le hin.1
      rw [h1, if_pos rfl, if_neg (by decide)]
      have h2 := hin.1
      omega
    | release =>
      have h1 : SemOp.release.update v = v + 1 := u32_of_lt (by have h2 : v < n := hin; omega)
      have h2 : v < n := hin
      rw [h1, if_neg (by decide), if_pos rfl]
      omega
  have hstores (o' : SemOp) : (((s.setCounter ⟨o.update v, fun _ => false⟩).log (.stored o t)).goto t
      (.stored o)).stores o' = s.stores o' + if o = o' then 1 else 0 := by
    show List.countP _ (SemEvent.stored o t :: s.history) = _
    rw [List.countP_cons]
    show s.stores o' + (if (o == o') = true then 1 else 0) = _
    simp only [beq_iff_eq]
  refine ⟨h.count, h.init, hnew.1, ?_, fresh_goto (fun _ _ e => by cases o <;> cases e)
    fun u _ o' v' hu => ⟨(fun hr => by cases hr), (h.fresh u o' v' hu).2⟩, fun u o' => ?_⟩
  · rw [hstores, hstores]
    have h1 := hnew.2
    show o.update v + _ = _
    omega
  · have h1 := h.returns u o'
    show (SemEvent.stored o t :: s.history).count (.stored o' u)
      = (SemEvent.stored o t :: s.history).count (.returned o' u)
        + if (update s.pc t (.stored o) u).past = some o' then 1 else 0
    rw [List.count_cons, List.count_cons, h1]
    by_cases e : u = t
    · subst e
      have h2 : (SemPc.stored o : SemPc A).past = some o := by cases o <;> rfl
      rw [update_self, h2, hp]
      by_cases ho : o = o'
      · subst ho
        simp [SemPc.past]
      · have h3 : ¬ SemEvent.stored o u = SemEvent.stored o' u := fun hc => ho (SemEvent.stored.inj hc).1
        simp [SemPc.past, ho]
    · have h3 : ¬ t = u := fun hc => e hc.symm
      rw [update_of_ne e]
      simp [h3]

theorem SemOk.returned (h : SemOk n s) (hp : (s.pc t).past = some o) :
    SemOk n ((s.log (.returned o t)).goto t .idle) := by
  have hstores (o' : SemOp) : ((s.log (.returned o t)).goto t .idle).stores o' = s.stores o' := by
    show List.countP _ (SemEvent.returned o t :: s.history) = _
    rw [List.countP_cons]
    rfl
  refine ⟨h.count, h.init, h.le, ?_, fresh_goto (fun _ _ e => by cases e) fun u _ => h.fresh u,
    fun u o' => ?_⟩
  · rw [hstores, hstores]
    exact h.books
  · have h1 := h.returns u o'
    show (SemEvent.returned o t :: s.history).count (.stored o' u)
      = (SemEvent.returned o t :: s.history).count (.returned o' u)
        + if (update s.pc t .idle u).past = some o' then 1 else 0
    rw [List.count_cons, List.count_cons, h1]
    by_cases e : u = t
    · subst e
      rw [update_self, hp]
      by_cases ho : o = o'
      · subst ho
        simp [SemPc.past]
      · simp [SemPc.past, ho]
    · have h3 : ¬ t = u := fun hc => e hc.symm
      rw [update_of_ne e]
      simp [h3]

theorem SemOk.instr (h : SemOk n s) (hn : n < 2 ^ 32) (hp : s.pc t = p)
    (hstep : s.instr t fails p = some s') : SemOk n s' := by
  cases p with
  | idle => cases hstep
  | entry o =>
    cases hstep
    rw [if_neg (by rw [h.init]; decide)]
    refine h.plain ?_ fun _ _ e => by cases e
    rw [hp]
    rfl
  | ldrex o =>
    cases hstep
    have hfresh : s.sem.counterParam.Fresh t s.counter := fun _ => rfl
    have h1 : SemOk n (s.setCounter (s.sem.counterParam.ldrex t)) := by
      refine h.setCounter rfl fun u o' v hu => (h.fresh u o' v hu).1.ldrex ?_
      rintro rfl
      rw [hp] at hu
      cases hu
    by_cases hr : s.refused o = true
    · rw [if_pos hr]
      refine h1.plain ?_ fun _ _ e => by cases o <;> cases e
      show (SemPc.refused o).past = (s.pc t).past
      rw [hp]
      cases o <;> rfl
    · rw [if_neg hr]
      refine h1.goto ?_ fun o' v e => ?_
      · show _ = (s.pc t).past
        rw [hp]
        rfl
      · cases e
        refine ⟨fun _ => rfl, ?_⟩
        have hle := h.le
        cases o with
        | acquire =>
          have h2 : s.counter ≠ 0 := fun hc => hr (beq_iff_eq.mpr hc)
          exact ⟨Nat.pos_of_ne_zero h2, hle⟩
        | release =>
          have h2 : s.counter ≠ n := fun hc => hr (beq_iff_eq.mpr (hc.trans h.count.symm))
          exact Nat.lt_of_le_of_ne hle h2
  | strex o v =>
    change (if s.sem.counterParam.succeeds t fails then some _ else some _) = some s' at hstep
    split_ifs at hstep with hok
    · cases hstep
      exact h.store hn hp hok
    · cases hstep
      rw [Bool.not_eq_true] at hok
      have h1 : SemOk n (s.setCounter (s.sem.counterParam.strex t (o.update v) fails)) := by
        refine h.setCounter ?_ fun u o' v' hu => (h.fresh u o' v' hu).1.strex
        rw [Cell.strex_of_not _ _ _ _ hok]
        rfl
      refine h1.plain ?_ fun _ _ e => by cases e
      show _ = (s.pc t).past
      rw [hp]
      rfl
  | condition o =>
    cases hstep
    refine h.plain ?_ fun _ _ e => by cases e
    rw [hp]
    cases o <;> rfl
  | setCondition o b =>
    cases hstep
    refine (h.setCondition b).plain ?_ fun _ _ e => by cases o <;> cases e
    show _ = (s.pc t).past
    rw [hp]
    cases o <;> rfl
  | wait o w =>
    obtain ⟨r, -, rfl⟩ := Option.map_eq_some_iff.mp hstep
    refine (h.setQueue r.1).plain ?_ fun _ _ e => ?_
    · show _ = (s.pc t).past
      rw [hp]
      cases r.2 <;> rfl
    · cases hr : r.2 <;> rw [hr] at e <;> cases e
  | wakeup o =>
    have hpast : (s.pc t).past = some o := by
      rw [hp]
      rfl
    cases hstep
    cases s.sem.waitQueue.elementsList.head? with
    | none => exact h.returned hpast
    | some f => exact h.plain hpast.symm fun _ _ e => by cases e
  | wake o f =>
    cases hstep
    have h1 := h.setQueue (s.sem.waitQueue.scheduleTaskFunction f)
    refine h1.returned ?_
    show (s.pc t).past = some o
    rw [hp]
    rfl

theorem SemOk.step {a : A × SemAction} (h : SemOk n s) (hn : n < 2 ^ 32)
    (hstep : semStep s a = some s') : SemOk n s' := by
  obtain ⟨t, act⟩ := a
  cases act with
  | call o =>
    change (if s.pc t = .idle then some (s.goto t (.entry o)) else none) = some s' at hstep
    split_ifs at hstep with hp
    cases hstep
    refine h.plain ?_ fun _ _ e => by cases e
    rw [hp]
    rfl
  | step fails => exact h.instr hn rfl hstep

theorem newSemState_ok (n : Nat) : SemOk n (newSemState n : SemState A) := by
  refine ⟨rfl, rfl, le_refl n, rfl, fun t o v h => ?_, fun t o => rfl⟩
  cases h

/-- **Conservation**: the counter stays within its bounds, and is the initial value less the
acquisitions plus the releases that have stored; each of them has returned `SW_OK` or is on its way
to do so. -/
theorem semaphore_conserved (hn : n < 2 ^ 32) {l : List (A × SemAction)}
    (h : run semStep (newSemState n) l = some s) :
    s.counter ≤ n ∧ s.counter + s.stores .acquire = n + s.stores .release ∧
      ∀ t o, s.history.count (.stored o t)
        = s.history.count (.returned o t) + if (s.pc t).past = some o then 1 else 0 := by
  have hok : SemOk n s := run_invariant (SemOk n) (fun _ _ _ hs _ h => hs.step hn h)
    (newSemState_ok n) (along_true semStep _ l) h
  exact ⟨hok.le, hok.books, hok.returns⟩

end

/-- two tasks that acquire at the same time: the store of the second one fails -/
def contended : List (Bool × SemAction) :=
  [(false, .call .acquire), (true, .call .acquire), (false, .step false), (true, .step false),
    (false, .step false), (true, .step false), (false, .step false), (true, .step false),
    (true, .step false), (true, .step false)]

theorem semaphore_conserved_contended : ∃ s, run semStep (newSemState 2) contended = some s ∧
    s.counter + s.stores .acquire = 2 + s.stores .release := by
  have h : (run semStep (newSemState 2) contended).isSome := by decide
  obtain ⟨s, hs⟩ := Option.isSome_iff_exists.mp h
  exact ⟨s, hs, (semaphore_conserved (by decide) hs).2.1⟩

end SierraTee
