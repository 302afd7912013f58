import SierraTee.Kernel.SemCount
import SierraTee.Lib.Wakeup
import Mathlib.Data.Fintype.Basic

/-!
# Tasks that wait for a semaphore

* `semaphore_heard`     no task is stranded in the attentive runs;
* `semaphore_stranded`  a release that waits until the counter is 0.
-/

namespace SierraTee
open Function Exclusive Word Runs Wakeup

section
variable {A : Type*} [DecidableEq A]

/-! ## Who is on the way -/

namespace SemPc
variable {A : Type*}

def stage : SemPc A → Stage A
  | .idle => .away
  | .entry _ | .ldrex _ | .strex _ _ | .wait _ _ => .trying
  | .condition .acquire | .setCondition .acquire _ | .wakeup _ => .stored
  | .condition .release | .setCondition .release _ => .trying
  | .wake _ f => .waking f

def op : SemPc A → Option SemOp
  | .entry o | .ldrex o | .strex o _ | .wait o _ => some o
  | .condition .release | .setCondition .release _ => some .release
  | _ => none

def place : SemPc A → Option WaitPoint
  | .wait _ w => some w
  | _ => none

end SemPc

namespace SemState

/-- the operation could store now -/
def CanProceed (s : SemState A) : SemOp → Prop
  | .acquire => 0 < s.counter
  | .release => s.counter < s.sem.count

/-- the task is in the `WAIT` state -/
def Blocked (s : SemState A) (t : A) : Prop :=
  (s.pc t).place = some .sleep ∧ s.sem.waitQueue.waiting t = true

def Able (s : SemState A) (t : A) : Prop := ∀ o, (s.pc t).op = some o → s.CanProceed o

def view (s : SemState A) : View A := ⟨fun t => (s.pc t).stage, s.Blocked, s.Able⟩

def queue (s : SemState A) : TaskPendingQueue A := s.sem.waitQueue

end SemState

/-- a task that is put into the queue cannot go on, and the first task of the queue is one that can,
if any blocked one can -/
def Attentive (s : SemState A) (a : A × SemAction) : Prop :=
  (∀ o, s.pc a.1 = .wait o .add → ¬ s.CanProceed o) ∧
    ∀ o f, s.pc a.1 = .wakeup o → s.queue.elementsList.head? = some f →
      (∃ u, s.Blocked u ∧ s.Able u) → s.Able f

instance fintypeSemOp : Fintype SemOp := ⟨{.acquire, .release}, fun o => by cases o <;> decide⟩

instance decidableCanProceed (s : SemState A) : (o : SemOp) → Decidable (s.CanProceed o)
  | .acquire => inferInstanceAs (Decidable (0 < s.counter))
  | .release => inferInstanceAs (Decidable (s.counter < s.sem.count))

instance decidableBlocked (s : SemState A) (t : A) : Decidable (s.Blocked t) :=
  inferInstanceAs (Decidable (_ ∧ _))

instance decidableAble (s : SemState A) (t : A) : Decidable (s.Able t) :=
  inferInstanceAs (Decidable (∀ _, _ → _))

instance decidableAttentive [Fintype A] (s : SemState A) (a : A × SemAction) :
    Decidable (Attentive s a) :=
  inferInstanceAs (Decidable ((∀ _, _ → _) ∧ ∀ _ _, _ → _ → (∃ _, _) → _))

/-! ## The invariant -/

structure SemHeard (s : SemState A) : Prop where
  init : s.sem.initParam = true
  queue : QueueOk s.queue fun t => (s.pc t).place
  heard : Heard s.view

variable {s s' : SemState A} {t u f : A} {o : SemOp} {p q : SemPc A} {fails : Bool}

theorem place_update (s : SemState A) (t : A) (q : SemPc A) :
    (fun u => (update s.pc t q u).place)
      = update (fun u => (s.pc u).place) t q.place := by
  funext u
  by_cases e : u = t
  · rw [e, update_self, update_self]
  · rw [update_of_ne e, update_of_ne e]

omit [DecidableEq A] in
theorem SemPc.stage_of_place {w : WaitPoint} (h : p.place = some w) : p.stage = .trying := by
  cases p with
  | wait o w => rfl
  | _ => cases h

/-- a step of `t` to `q` that changes neither the counter nor the state of another task -/
structure Moves (s s' : SemState A) (t : A) (q : SemPc A) : Prop where
  pc : s'.pc = update s.pc t q
  able : ∀ o, s'.CanProceed o ↔ s.CanProceed o
  waiting : ∀ u, u ≠ t → s'.queue.waiting u = s.queue.waiting u
  init : s'.sem.initParam = s.sem.initParam

theorem Moves.self (h : Moves s s' t q) : s'.pc t = q := by rw [h.pc, update_self]

theorem Moves.other (h : Moves s s' t q) (hu : u ≠ t) : s'.pc u = s.pc u := by
  rw [h.pc, update_of_ne hu]

theorem Moves.able_of_op (h : Moves s s' t q) (ho : (s'.pc u).op = (s.pc u).op) :
    s'.Able u ↔ s.Able u := by
  unfold SemState.Able
  rw [ho]
  exact forall_congr' fun o => imp_congr_right fun _ => h.able o

theorem Moves.stays (h : Moves s s' t q) : Stays s.view s'.view t := by
  refine ⟨fun u hu => congrArg SemPc.stage (h.other hu), fun u hu => ?_, fun u hu => ?_⟩
  · show (s'.pc u).place = _ ∧ s'.queue.waiting u = true ↔ _
    rw [h.other hu, h.waiting u hu]
    exact Iff.rfl
  · exact h.able_of_op (congrArg SemPc.op (h.other hu))

theorem SemHeard.trying (hs : SemHeard s) (h : Moves s s' t q)
    (hqueue : QueueOk s'.queue fun t => (s'.pc t).place) (hp : (s.pc t).stage = .trying)
    (hq : q.stage = .trying) (hop : q.op = (s.pc t).op) (hsleep : s'.Blocked t → ¬ s.Able t) :
    SemHeard s' := by
  refine ⟨h.init.trans hs.init, hqueue, hs.heard.trying h.stays hp ?_ (h.able_of_op ?_) hsleep⟩
  · show (s'.pc t).stage = _
    rw [h.self, hq]
  · rw [h.self, hop]

theorem SemHeard.queue_goto (hs : SemHeard s) (hp : (s.pc t).place = none)
    (hq : q.place ≠ some .sleep) :
    QueueOk s.queue fun u => (update s.pc t q u).place := by
  rw [place_update]
  refine hs.queue.goto (Or.inl (hs.queue.not_linked fun w h1 => ?_)) hq
  rw [hp] at h1
  cases h1

theorem SemHeard.onward (hs : SemHeard s) (h : Moves s s' t q) (hqueue : s'.queue = s.queue)
    (hp : (s.pc t).stage = .trying) (hp' : (s.pc t).place = none) (hq : q.stage = .trying)
    (hq' : q.place ≠ some .sleep) (hop : q.op = (s.pc t).op) : SemHeard s' := by
  refine hs.trying h ?_ hp hq hop fun hb => ?_
  · rw [hqueue, h.pc]
    exact hs.queue_goto hp' hq'
  · have h1 := hb.1
    rw [h.self] at h1
    exact absurd h1 hq'

theorem SemHeard.stored (hs : SemHeard s) (hpc : s'.pc = update s.pc t q)
    (hqueue : s'.queue = s.queue) (hinit : s'.sem.initParam = s.sem.initParam)
    (hp : (s.pc t).place = none) (hq : q.stage = .stored) (hq' : q.place = none) : SemHeard s' := by
  refine ⟨hinit.trans hs.init, ?_, Heard.change (t := t) ?_⟩
  · rw [hqueue, hpc]
    exact hs.queue_goto hp (by rw [hq']; exact fun e => by cases e)
  · show (s'.pc t).stage = _
    rw [hpc, update_self, hq]

theorem SemHeard.wait (hs : SemHeard s) {w : WaitPoint} {cond : Bool}
    {r : TaskPendingQueue A × Option WaitPoint} (hp : s.pc t = .wait o w)
    (hr : swWaitEvent s.queue t cond fails w = some r) (ha : w = .add → ¬ s.CanProceed o) :
    SemHeard ((s.setQueue r.1).goto t (r.2.elim (.ldrex o) (.wait o))) := by
  obtain ⟨hwaiting, hadd⟩ := swWaitEvent_waiting hr
  have hmoves : Moves s ((s.setQueue r.1).goto t (r.2.elim (.ldrex o) (.wait o))) t
      (r.2.elim (.ldrex o) (.wait o)) :=
    ⟨rfl, fun _ => Iff.rfl, hwaiting, rfl⟩
  have hplace : (r.2.elim (.ldrex o) (.wait o) : SemPc A).place = r.2 := by cases r.2 <;> rfl
  have hpt : (s.pc t).place = some w := by rw [hp]; rfl
  have hop : (s.pc t).op = some o := by rw [hp]; rfl
  refine hs.trying hmoves ?_ (SemPc.stage_of_place hpt) ?_ ?_ fun hb hable => ?_
  · show QueueOk r.1 fun u => (update s.pc t _ u).place
    rw [place_update, hplace]
    exact hs.queue.wait hpt hr
  · cases r.2 <;> rfl
  · rw [hop]
    cases r.2 <;> rfl
  · have h1 := hb.1
    rw [hmoves.self, hplace] at h1
    exact ha (hadd h1) (hable o hop)

theorem SemHeard.instr (hs : SemHeard s) (ha : Attentive s (t, .step fails)) (hp : s.pc t = p)
    (hstep : s.instr t fails p = some s') : SemHeard s' := by
  have hplace : (s.pc t).place = p.place := by rw [hp]
  have hstage : (s.pc t).stage = p.stage := by rw [hp]
  have hop : (s.pc t).op = p.op := by rw [hp]
  cases p with
  | idle => cases hstep
  | entry o =>
    cases hstep
    rw [if_neg (by rw [hs.init]; decide)]
    exact hs.onward ⟨rfl, fun _ => Iff.rfl, fun _ _ => rfl, rfl⟩ rfl hstage hplace rfl
      (fun e => by cases e) hop.symm
  | ldrex o =>
    cases hstep
    have hmoves (q : SemPc A) : Moves s ((s.setCounter (s.sem.counterParam.ldrex t)).goto t q) t q :=
      ⟨rfl, fun o => by cases o <;> exact Iff.rfl, fun _ _ => rfl, rfl⟩
    refine hs.onward (hmoves _) rfl hstage hplace ?_ ?_ ?_
    · cases o <;> split_ifs <;> rfl
    · cases o <;> split_ifs <;> exact fun e => by cases e
    · rw [hop]
      cases o <;> split_ifs <;> rfl
  | strex o v =>
    change (if s.sem.counterParam.succeeds t fails then some _ else some _) = some s' at hstep
    split_ifs at hstep with hok
    · cases hstep
      refine hs.stored (t := t) rfl rfl rfl hplace ?_ ?_ <;> cases o <;> rfl
    · cases hstep
      rw [Bool.not_eq_true] at hok
      rw [Cell.strex_of_not _ _ _ _ hok]
      exact hs.onward ⟨rfl, fun o => by cases o <;> exact Iff.rfl, fun _ _ => rfl, rfl⟩ rfl hstage
        hplace rfl (fun e => by cases e) hop.symm
  | condition o =>
    cases hstep
    cases o with
    | acquire => exact hs.stored (t := t) rfl rfl rfl hplace rfl rfl
    | release =>
      exact hs.onward ⟨rfl, fun _ => Iff.rfl, fun _ _ => rfl, rfl⟩ rfl hstage hplace rfl
        (fun e => by cases e) hop.symm
  | setCondition o b =>
    cases hstep
    cases o with
    | acquire => exact hs.stored (t := t) rfl rfl rfl hplace rfl rfl
    | release =>
      exact hs.onward ⟨rfl, fun o => by cases o <;> exact Iff.rfl, fun _ _ => rfl, rfl⟩ rfl hstage
        hplace rfl (fun e => by cases e) hop.symm
  | wait o w =>
    obtain ⟨r, hr, rfl⟩ := Option.map_eq_some_iff.mp hstep
    refine hs.wait hp hr fun hw => ha.1 o ?_
    rw [← hw]
    exact hp
  | wakeup o =>
    cases hstep
    cases hhead : s.sem.waitQueue.elementsList.head? with
    | none =>
      have hnil := List.head?_eq_none_iff.mp hhead
      refine ⟨hs.init, hs.queue_goto hplace (fun e => by cases e), Heard.of_none fun u hu => ?_⟩
      by_cases e : u = t
      · have h1 : (update s.pc t .idle u).place = some .sleep := hu.1
        rw [e, update_self] at h1
        cases h1
      · have h1 : (update s.pc t .idle u).place = some .sleep := hu.1
        rw [update_of_ne e] at h1
        have h2 : u ∈ s.sem.waitQueue.elementsList := hs.queue.member u h1
        rw [hnil] at h2
        cases h2
    | some f =>
      have hmem : f ∈ s.queue.elementsList := List.mem_of_head? hhead
      obtain ⟨w, hw, -⟩ := hs.queue.linked f hmem
      have hft : f ≠ t := by
        rintro rfl
        rw [hplace] at hw
        cases hw
      have hmoves : Moves s (s.goto t (.wake o f)) t (.wake o f) :=
        ⟨rfl, fun _ => Iff.rfl, fun _ _ => rfl, rfl⟩
      refine ⟨hs.init, hs.queue_goto hplace (fun e => by cases e), Heard.pick hmoves.stays
        (congrArg SemPc.stage hmoves.self) (fun hb => ?_) hft (SemPc.stage_of_place hw)
        (ha.2 o f hp hhead)⟩
      have h1 : ((s.goto t (.wake o f)).pc t).place = some .sleep := hb.1
      rw [hmoves.self] at h1
      cases h1
  | wake o f =>
    cases hstep
    have hother : ∀ u, u ≠ t → (((s.setQueue (s.sem.waitQueue.scheduleTaskFunction f)).log
        (.returned o t)).goto t .idle).pc u = s.pc u := by
      intro u hu
      show update s.pc t .idle u = _
      rw [update_of_ne hu]
    have hself : (((s.setQueue (s.sem.waitQueue.scheduleTaskFunction f)).log
        (.returned o t)).goto t .idle).pc t = .idle := update_self ..
    refine ⟨hs.init, (hs.queue_goto (q := .idle) hplace fun e => by cases e).schedule f,
      hs.heard.wake hstage (fun u hu => congrArg SemPc.stage (hother u hu)) (fun u hu => ?_)
        (fun u hu => ?_) fun hb => ?_⟩
    · show (_ ∧ update s.sem.waitQueue.waiting f false u = true) ↔
        (_ ∧ s.sem.waitQueue.waiting u = true) ∧ u ≠ f
      rw [hother u hu]
      by_cases e : u = f
      · rw [e, update_self]
        simp
      · rw [update_of_ne e]
        simp [e]
    · show (∀ o', (_ : SemPc A).op = some o' → s.CanProceed o') ↔ _
      rw [hother u hu]
      exact Iff.rfl
    · have h1 := hb.1
      rw [hself] at h1
      cases h1

theorem SemHeard.step {a : A × SemAction} (hs : SemHeard s) (ha : Attentive s a)
    (hstep : semStep s a = some s') : SemHeard s' := by
  obtain ⟨t, act⟩ := a
  cases act with
  | call o =>
    change (if s.pc t = .idle then some (s.goto t (.entry o)) else none) = some s' at hstep
    split_ifs at hstep with hp
    cases hstep
    have hmoves : Moves s (s.goto t (.entry o)) t (.entry o) :=
      ⟨rfl, fun _ => Iff.rfl, fun _ _ => rfl, rfl⟩
    have hplace : (s.pc t).place = none := by rw [hp]; rfl
    have hstage : (s.pc t).stage = .away := by rw [hp]; rfl
    refine ⟨hs.init, hs.queue_goto hplace (fun e => by cases e),
      hs.heard.enter hmoves.stays hstage fun hb => ?_⟩
    have h1 := hb.1
    rw [hmoves.self] at h1
    cases h1
  | step fails => exact hs.instr ha rfl hstep

omit [DecidableEq A] in
theorem newSemState_heard (n : Nat) : SemHeard (newSemState n : SemState A) := by
  refine ⟨rfl, ⟨List.nodup_nil, fun f hf => ?_, fun t ht => ?_⟩, Heard.of_none fun t ht => ?_⟩
  · cases hf
  · cases ht
  · cases ht.1

/-- **No stranded waiter**: when every task is blocked or idle, no blocked task could go on. -/
theorem semaphore_heard {n : Nat} {l : List (A × SemAction)}
    (hl : Along semStep Attentive (newSemState n) l)
    (h : run semStep (newSemState n) l = some s)
    (hquiet : ∀ t, s.pc t = .idle ∨ s.Blocked t) {w : WaitPoint} (ht : s.Blocked t)
    (hp : s.pc t = .wait o w) : t ∈ s.queue.elementsList ∧ ¬ s.CanProceed o := by
  have hs : SemHeard s :=
    run_invariant SemHeard (fun _ _ _ hs ha h => hs.step ha h) (newSemState_heard n) hl h
  refine ⟨hs.queue.member t ht.1, fun hc => ?_⟩
  refine hs.heard.quiet (fun u => ?_) (t := t) ht fun o' ho => ?_
  · refine (hquiet u).imp (fun h1 => ?_) fun h1 => ⟨SemPc.stage_of_place h1.1, h1⟩
    show (s.pc u).stage = _
    rw [h1]
    rfl
  · rw [hp] at ho
    cases ho
    exact hc

end

/-- the semaphore has the value 2: the first task releases it, and waits; the second one acquires it
and wakes the first one, which waits again -/
def fullRelease : List (Bool × SemAction) :=
  (true, .call .release) :: List.replicate 8 (true, .step false) ++
    (false, .call .acquire) :: List.replicate 7 (false, .step false) ++
    List.replicate 3 (true, .step false)

/-- the only unit is taken, and the other task waits for it -/
def emptyAcquire : List (Bool × SemAction) :=
  (true, .call .acquire) :: List.replicate 6 (true, .step false) ++
    (false, .call .acquire) :: List.replicate 6 (false, .step false)

theorem semaphore_heard_emptyAcquire : ∃ s : SemState Bool,
    run semStep (newSemState 1) emptyAcquire = some s ∧ s.Blocked false ∧
      ¬ s.CanProceed .acquire := by
  have hl : Along semStep Attentive (newSemState 1) emptyAcquire := by decide
  have h : (run semStep (newSemState 1) emptyAcquire).map (fun s => decide
      ((∀ t, s.pc t = .idle ∨ s.Blocked t) ∧ s.Blocked false ∧ s.pc false = .wait .acquire .sleep))
      = some true := by decide
  obtain ⟨s, hs, h1⟩ := Option.map_eq_some_iff.mp h
  obtain ⟨hquiet, hb, hp⟩ := of_decide_eq_true h1
  exact ⟨s, hs, hb, (semaphore_heard hl hs hquiet hb hp).2⟩

/-- **The defect**: a release of a full semaphore waits for the counter to become 0, and not for one
that is below the initial count. -/
theorem semaphore_stranded :
    ¬ ∀ (n : Nat) (l : List (Bool × SemAction)) (s : SemState Bool),
      run semStep (newSemState n) l = some s → (∀ t, s.pc t = .idle ∨ s.Blocked t) →
      ∀ t o w, s.Blocked t → s.pc t = .wait o w → ¬ s.CanProceed o := by
  intro hall
  have h : (run semStep (newSemState 2) fullRelease).map (fun s => decide
      ((∀ t, s.pc t = .idle ∨ s.Blocked t) ∧ s.Blocked true ∧ s.pc true = .wait .release .sleep ∧
      s.CanProceed .release)) = some true := by decide
  obtain ⟨s, hs, h1⟩ := Option.map_eq_some_iff.mp h
  obtain ⟨hquiet, hb, hp, hcan⟩ := of_decide_eq_true h1
  exact hall 2 fullRelease s hs hquiet true .release .sleep hb hp hcan

end SierraTee
