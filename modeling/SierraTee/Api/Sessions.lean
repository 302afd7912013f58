import SierraTee.Lib.Counting
import SierraTee.Lib.Runs
import SierraTee.Api.Client

/-!
# The session count of a device (`otz_api.c`)

* `session_count_iff`, `abandoned_open`.
-/

set_option linter.unusedSectionVars false

namespace SierraTee
namespace Api
open FlatMemory Runs Counting

def OtzSession.stillOpen {B : Type} (z : OtzSession B) : Bool :=
  z.uiState = .isOpen || z.uiState = .closing

section
variable {S O B A : Type} [Fintype S] (s : Api S O B A)

/-- the number of sessions that are open -/
def openSessions : Nat := holds OtzSession.stillOpen s.sessions

def Counted : Prop := s.device.sessionCount = s.openSessions

variable [DecidableEq S] [DecidableEq O] [DecidableEq B] [DecidableEq A]

/-- what has to be so after a call -/
def CountOk (s : Api S O B A) (a : ApiCall S O B A) : Prop :=
  ∀ s', s.step a = some s' → (0 ≤ s'.device.sessionCount ∧ s'.Counted) ∧
    (a = .deviceClose → s.device.uiState = .isOpen →
      (s.otzDeviceClose.2 = .success ↔ ∀ x, (s.sessions x).stillOpen = false))

/-- a call leaves the count right: an open is prepared and performed for a session that is not open;
an invocation, a close and the release of an operation that has been prepared only, for one that
is -/
def CountFits (s : Api S O B A) : ApiCall S O B A → Prop
  | .prepareOpen x _ service => service ≠ otzSvcInvalid → (s.sessions x).stillOpen = false
  | .perform o r _ => ∀ x, (s.operations o).session = some x → (s.sessions x).device →
    ((s.operations o).uiState = .encode ∨ (s.operations o).uiState = .performable) → r = 0 →
      ((s.operations o).type = .openSession → (s.sessions x).stillOpen = false) ∧
      ((s.operations o).type = .invoke → (s.sessions x).stillOpen = true) ∧
      ((s.operations o).type = .close → (s.sessions x).operationCount = 1 →
        (s.sessions x).sharedMemCnt = 0 → (s.sessions x).stillOpen = true)
  | .release o => ∀ x, (s.operations o).session = some x →
    ((s.operations o).uiState = .encode → (s.operations o).type = .openSession →
      (s.sessions x).device → (s.sessions x).stillOpen = true) ∧
    ((s.operations o).uiState = .performable → (s.operations o).type = .close →
      ((s.operations o).tempMemRefCount = 0 ∨ (s.sessions x).device) →
        (s.sessions x).stillOpen = true)
  | _ => True

instance decidableCountFits : (a : ApiCall S O B A) → Decidable (CountFits s a)
  | .prepareOpen x _ service =>
    inferInstanceAs (Decidable (service ≠ otzSvcInvalid → (s.sessions x).stillOpen = false))
  | .perform o r _ =>
    inferInstanceAs (Decidable (∀ x, (s.operations o).session = some x → (s.sessions x).device →
      ((s.operations o).uiState = .encode ∨ (s.operations o).uiState = .performable) → r = 0 →
        ((s.operations o).type = .openSession → (s.sessions x).stillOpen = false) ∧
        ((s.operations o).type = .invoke → (s.sessions x).stillOpen = true) ∧
        ((s.operations o).type = .close → (s.sessions x).operationCount = 1 →
          (s.sessions x).sharedMemCnt = 0 → (s.sessions x).stillOpen = true)))
  | .release o =>
    inferInstanceAs (Decidable (∀ x, (s.operations o).session = some x →
      ((s.operations o).uiState = .encode → (s.operations o).type = .openSession →
        (s.sessions x).device → (s.sessions x).stillOpen = true) ∧
      ((s.operations o).uiState = .performable → (s.operations o).type = .close →
        ((s.operations o).tempMemRefCount = 0 ∨ (s.sessions x).device) →
          (s.sessions x).stillOpen = true)))
  | .prepareInvoke _ _ => isTrue trivial
  | .prepareClose _ _ => isTrue trivial
  | .deviceClose => isTrue trivial
  | .allocate _ _ _ _ _ _ => isTrue trivial
  | .sharedRelease _ _ => isTrue trivial
  | .encodeReference _ _ _ _ _ _ _ => isTrue trivial
  | .encodeArraySpace _ _ => isTrue trivial

end

/-! ## One session changes -/

section
variable {S O B A : Type} [Fintype S] {s s' : Api S O B A} {x : S} {z : OtzSession B} {n : Int}
  {q : Api S O B A × OtzReturn}

theorem counted_iff [DecidableEq S] (h : s.Counted)
    (hc : s'.device.sessionCount = s.device.sessionCount + n)
    (hs : s'.sessions = Function.update s.sessions x z) :
    s'.Counted ↔ n + (s.sessions x).stillOpen.toNat = z.stillOpen.toNat := by
  have hu := holds_update OtzSession.stillOpen s.sessions x z
  unfold Counted openSessions at h ⊢
  rw [hc, hs, h]
  omega

theorem Counted.same (h : s.Counted) (hc : s'.device.sessionCount = s.device.sessionCount)
    (hs : ∀ y, (s'.sessions y).stillOpen = (s.sessions y).stillOpen) : s'.Counted := by
  unfold Counted openSessions at h ⊢
  rw [hc, h, holds_congr _ _ hs]

theorem Counted.nonneg (h : s.Counted) : 0 ≤ s.device.sessionCount := by
  unfold Counted at h
  omega

/-! The entry of a session before (`b`) and after, with what is added to the count. -/

theorem stays_closed {b : Bool} : (0 : Int) + b.toNat = (0 : Nat) ↔ b = false := by
  cases b <;> simp

theorem stays_open {b : Bool} : (0 : Int) + b.toNat = (1 : Nat) ↔ b = true := by
  cases b <;> simp

theorem gets_open {b : Bool} : (1 : Int) + b.toNat = (1 : Nat) ↔ b = false := by
  cases b <;> simp

theorem gets_closed {b : Bool} : (-1 : Int) + b.toNat = (0 : Nat) ↔ b = true := by
  cases b <;> simp

variable [DecidableEq S] [DecidableEq O] [DecidableEq B] [DecidableEq A]

theorem countOk_iff {a : ApiCall S O B A} (ha : a ≠ .deviceClose) :
    CountOk s a ↔ ∀ s', s.step a = some s' → s'.Counted := by
  constructor
  · intro h s' hs
    exact (h s' hs).1.2
  · intro h s' hs
    exact ⟨⟨(h s' hs).nonneg, h s' hs⟩, fun e => absurd e ha⟩

theorem countOk_some {a : ApiCall S O B A} (ha : a ≠ .deviceClose) (hs : s.step a = some s') :
    CountOk s a ↔ s'.Counted := by
  rw [countOk_iff ha, hs]
  constructor
  · intro h
    exact h s' rfl
  · intro h t ht
    cases ht
    exact h

theorem countOk_none {a : ApiCall S O B A} (hs : s.step a = none) : CountOk s a := by
  intro s' h
  rw [hs] at h
  cases h

/-! ## The calls -/

theorem prepareOpen_count (h : s.Counted) (x : S) (o : O) (service : Word) :
    CountOk s (.prepareOpen x o service) ↔ CountFits s (.prepareOpen x o service) := by
  have hne : ApiCall.prepareOpen x o service ≠ (.deviceClose : ApiCall S O B A) := by
    intro e
    cases e
  rw [countOk_some hne rfl]
  unfold otzOperationPrepareOpen
  by_cases hsvc : service = otzSvcInvalid
  · rw [if_pos hsvc]
    exact iff_of_true h fun hn => absurd hsvc hn
  · rw [if_neg hsvc]
    refine Iff.trans (counted_iff (n := 0) (x := x) h (Int.add_zero _).symm rfl) ?_
    exact stays_closed.trans ⟨fun e _ => e, fun e => e hsvc⟩

theorem prepareInvoke_count (h : s.Counted) (x : S) (o : O) : CountOk s (.prepareInvoke x o) := by
  have hne : ApiCall.prepareInvoke x o ≠ (.deviceClose : ApiCall S O B A) := by
    intro e
    cases e
  rw [countOk_some hne rfl]
  unfold otzOperationPrepareInvoke
  split_ifs
  · exact h
  · exact Iff.mpr (counted_iff (n := 0) (x := x) h (Int.add_zero _).symm rfl) (Int.zero_add _)

theorem prepareClose_count (h : s.Counted) (x : S) (o : O) : CountOk s (.prepareClose x o) := by
  have hne : ApiCall.prepareClose x o ≠ (.deviceClose : ApiCall S O B A) := by
    intro e
    cases e
  rw [countOk_some hne rfl]
  unfold otzOperationPrepareClose
  split_ifs with h1 h2
  · exact h
  · exact h
  · have hopen : (s.sessions x).stillOpen = true := by
      unfold OtzSession.stillOpen
      rw [not_ne_iff.mp h1]
      rfl
    refine Iff.mpr (counted_iff (n := 0) (x := x) h (Int.add_zero _).symm rfl) ?_
    rw [hopen]
    rfl

theorem countOk_same {a : ApiCall S O B A} (h : s.Counted) (ha : a ≠ .deviceClose)
    (hs : ∀ s', s.step a = some s' → s'.device.sessionCount = s.device.sessionCount ∧
      ∀ y, (s'.sessions y).stillOpen = (s.sessions y).stillOpen) : CountOk s a := by
  rw [countOk_iff ha]
  intro s' h'
  obtain ⟨h1, h2⟩ := hs s' h'
  exact h.same h1 h2

theorem stillOpen_setSession {t : Api S O B A} (ht : t.sessions = s.sessions)
    (hz : z.uiState = (s.sessions x).uiState) (y : S) :
    ((t.setSession x z).sessions y).stillOpen = (s.sessions y).stillOpen := by
  show (Function.update t.sessions x z y).stillOpen = _
  rw [ht, Function.update_apply]
  split_ifs with hy
  · unfold OtzSession.stillOpen
    rw [hz, hy]
  · rfl

section
variable {r : Int} {o : O} {id : Word}

theorem performed_count {d : Bool} {a b c : Api S O B A × OtzReturn} {p : Prop}
    (hr : (if !d then none else if r < 0 then some a else if 0 < r then some b else some c)
      = some q) (ha : a.1.Counted) (hb : b.1.Counted) (hc : c.1.Counted ↔ p) :
    q.1.Counted ↔ (r = 0 → p) := by
  obtain ⟨-, ⟨h0, rfl | rfl⟩ | ⟨h0, rfl⟩⟩ := performed_cases hr
  · exact iff_of_true ha fun e => absurd e h0
  · exact iff_of_true hb fun e => absurd e h0
  · rw [hc]
    exact ⟨fun e _ => e, fun e => e h0⟩

theorem performClose_count (h : s.Counted) (hr : s.performClose x o r = some q) :
    q.1.Counted ↔ (r = 0 → (s.sessions x).stillOpen = true) :=
  performed_count hr h h (Iff.trans (counted_iff (n := -1) (x := x) h rfl rfl) gets_closed)

theorem performOpen_count (h : s.Counted) (hr : s.performOpen x o r id = some q) :
    q.1.Counted ↔ (r = 0 → (s.sessions x).stillOpen = false) :=
  performed_count hr h h (Iff.trans (counted_iff (n := 1) (x := x) h rfl rfl) gets_open)

theorem performInvoke_count (h : s.Counted) (hr : s.performInvoke x o r = some q) :
    q.1.Counted ↔ (r = 0 → (s.sessions x).stillOpen = true) :=
  performed_count hr h h
    (Iff.trans (counted_iff (n := 0) (x := x) h (Int.add_zero _).symm rfl) stays_open)

theorem performAs_count (h : s.Counted) {t : OperationType}
    (hr : s.performAs x o r id t = some q) :
    q.1.Counted ↔ (r = 0 → (t = .openSession → (s.sessions x).stillOpen = false) ∧
      (t = .invoke → (s.sessions x).stillOpen = true) ∧
      (t = .close → (s.sessions x).operationCount = 1 → (s.sessions x).sharedMemCnt = 0 →
        (s.sessions x).stillOpen = true)) := by
  cases t with
  | openSession =>
    rw [performOpen_count h hr]
    exact ⟨fun e h0 => ⟨fun _ => e h0, by simp, by simp⟩, fun e h0 => (e h0).1 rfl⟩
  | invoke =>
    rw [performInvoke_count h hr]
    exact ⟨fun e h0 => ⟨by simp, fun _ => e h0, by simp⟩, fun e h0 => (e h0).2.1 rfl⟩
  | close =>
    unfold performAs at hr
    split_ifs at hr with hc
    · rw [performClose_count h hr]
      exact ⟨fun e h0 => ⟨by simp, by simp, fun _ _ _ => e h0⟩, fun e h0 => (e h0).2.2 rfl hc.1 hc.2⟩
    · cases hr
      exact iff_of_true h fun _ => ⟨by simp, by simp, fun _ h1 h2 => absurd ⟨h1, h2⟩ hc⟩
  | none =>
    cases hr
    exact iff_of_true h fun _ => ⟨by simp, by simp, by simp⟩

theorem performAs_none (o : O) (r : Int) (id : Word) {t : OperationType}
    (hd : (s.sessions x).device = false) :
    s.performAs x o r id t = none ∨ ∃ e, s.performAs x o r id t = some (s, e) := by
  have hoff : (!(s.sessions x).device) = true := by
    rw [hd]
    rfl
  cases t with
  | openSession => exact Or.inl (if_pos hoff)
  | invoke => exact Or.inl (if_pos hoff)
  | close =>
    by_cases hc : (s.sessions x).operationCount = 1 ∧ (s.sessions x).sharedMemCnt = 0
    · exact Or.inl ((if_pos hc).trans (if_pos hoff))
    · exact Or.inr ⟨_, if_neg hc⟩
  | none => exact Or.inr ⟨_, rfl⟩

theorem perform_count (h : s.Counted) (o : O) (r : Int) (id : Word) :
    CountOk s (.perform o r id) ↔ CountFits s (.perform o r id) := by
  have hne : ApiCall.perform o r id ≠ (.deviceClose : ApiCall S O B A) := by
    intro e
    cases e
  have hstep : s.step (.perform o r id) = (s.otzOperationPerform o r id).map Prod.fst := rfl
  by_cases hst : (s.operations o).uiState ≠ .encode ∧ (s.operations o).uiState ≠ .performable
  · have hrun : s.otzOperationPerform o r id = some (s, .illegalState) := if_pos hst
    rw [hrun] at hstep
    refine iff_of_true ((countOk_some hne hstep).mpr h) fun x _ _ hst' => ?_
    exact absurd hst' (not_or.mpr hst)
  · by_cases htype : (s.operations o).type = .none
    · have hrun : s.otzOperationPerform o r id = some (s.setOperationState o .running, .undefined) :=
        (if_neg hst).trans (if_pos htype)
      rw [hrun] at hstep
      refine iff_of_true ((countOk_some hne hstep).mpr h) fun x _ _ _ _ => ?_
      rw [htype]
      exact ⟨by simp, by simp, by simp⟩
    · have hrun : s.otzOperationPerform o r id = (s.operations o).session.bind fun x =>
          (s.setOperationState o .running).performAs x o r id (s.operations o).type :=
        (if_neg hst).trans (if_neg htype)
      rw [hrun] at hstep
      cases hx : (s.operations o).session with
      | none =>
        rw [hx] at hstep
        refine iff_of_true (countOk_none hstep) fun x hx' => ?_
        rw [hx] at hx'
        cases hx'
      | some x =>
        rw [hx] at hstep
        have hfits : CountFits s (.perform o r id) ↔ ((s.sessions x).device → r = 0 →
            ((s.operations o).type = .openSession → (s.sessions x).stillOpen = false) ∧
            ((s.operations o).type = .invoke → (s.sessions x).stillOpen = true) ∧
            ((s.operations o).type = .close → (s.sessions x).operationCount = 1 →
              (s.sessions x).sharedMemCnt = 0 → (s.sessions x).stillOpen = true)) := by
          constructor
          · intro hf hd h0
            exact hf x hx hd (by rwa [not_and_or, not_ne_iff, not_ne_iff] at hst) h0
          · intro hf y hy hd _ h0
            rw [hx] at hy
            cases hy
            exact hf hd h0
        rw [hfits]
        have hrunning : (s.setOperationState o .running).Counted := h
        cases hd : (s.sessions x).device with
        | false =>
          have hcount : CountOk s (.perform o r id) := by
            rcases performAs_none (s := s.setOperationState o .running) o r id
              (t := (s.operations o).type) hd with hn | ⟨e, he⟩
            · exact countOk_none (hstep.trans (congrArg (Option.map Prod.fst) hn))
            · exact (countOk_some hne (hstep.trans (congrArg (Option.map Prod.fst) he))).mpr h
          exact iff_of_true hcount fun e => absurd e Bool.false_ne_true
        | true =>
          obtain ⟨q, hq⟩ := performAs_some (s.setOperationState o .running) o r id
            (t := (s.operations o).type) hd
          rw [countOk_some hne (hstep.trans (congrArg (Option.map Prod.fst) hq)),
            performAs_count hrunning hq]
          exact ⟨fun e _ => e, fun e => e rfl⟩

end

section
variable {o : O} {t : Api S O B A}

theorem releaseSession_count (h : s.Counted) (ht : s.releaseSession x o = some t) :
    t.Counted ↔
      ((s.operations o).uiState = .encode → (s.operations o).type = .openSession →
        (s.sessions x).stillOpen = true) ∧
      ((s.operations o).uiState = .performable → (s.operations o).type = .close →
        (s.sessions x).stillOpen = true) := by
  rcases releaseSession_cases s ht with ⟨he, htype, -, rfl⟩ | ⟨hp, htype, rfl⟩ | ⟨he, hp, rfl⟩
  · refine Iff.trans (counted_iff (n := -1) (x := x) h rfl rfl) ?_
    exact gets_closed.trans ⟨fun e => ⟨fun _ _ => e, fun _ _ => e⟩, fun e => e.1 he htype⟩
  · refine Iff.trans (counted_iff (n := 0) (x := x) h (Int.add_zero _).symm rfl) ?_
    exact stays_open.trans ⟨fun e => ⟨fun _ _ => e, fun _ _ => e⟩, fun e => e.2 hp htype⟩
  · exact iff_of_true h ⟨fun e e' => absurd ⟨e, e'⟩ he, fun e e' => absurd ⟨e, e'⟩ hp⟩

theorem release_count (h : s.Counted) (o : O) :
    CountOk s (.release o) ↔ CountFits s (.release o) := by
  have hne : ApiCall.release o ≠ (.deviceClose : ApiCall S O B A) := by
    intro e
    cases e
  have hstep : s.step (.release o) = s.otzOperationRelease o := rfl
  cases ht : s.otzOperationRelease o with
  | none =>
    refine iff_of_true (countOk_none (hstep.trans ht)) fun x hx => ?_
    constructor
    · intro _ _ hd
      obtain ⟨t, hsome⟩ := otzOperationRelease_some s hx (Or.inl hd)
      cases ht.symm.trans hsome
    · intro hp htype htemp
      have hdec : (s.operations o).uiState ≠ .decode := fun e => absurd (hp.symm.trans e) (by decide)
      have hopen : ¬ ((s.operations o).uiState = .encode ∧ (s.operations o).type = .openSession) :=
        fun e => absurd (hp.symm.trans e.1) (by decide)
      obtain ⟨t, hsome⟩ := otzOperationRelease_some s hx
        (htemp.symm.imp_right fun e => ⟨e, hopen, hdec⟩)
      cases ht.symm.trans hsome
  | some t =>
    rw [countOk_some hne (hstep.trans ht)]
    rcases otzOperationRelease_cases s ht with ⟨hst, rfl⟩ | ⟨x, u, hst, hx, htemp, hu, rfl⟩
    · refine iff_of_true h fun x _ => ?_
      exact ⟨fun e => absurd (Or.inl e) hst, fun e => absurd (Or.inr (Or.inl e)) hst⟩
    · have hself := s.setSession_self x (s.sessions x).without
      have hsame : (s.setSession x (s.sessions x).without).Counted :=
        h.same rfl (stillOpen_setSession (t := s) rfl rfl)
      have hiff := releaseSession_count hsame hu
      rw [hself] at hiff
      refine Iff.trans hiff ?_
      have hdev : (s.operations o).uiState = .encode → (s.operations o).type = .openSession →
          (s.sessions x).device = true := by
        intro he htype
        rcases releaseSession_cases _ hu with ⟨_, _, hd, _⟩ | ⟨hp, _⟩ | ⟨hn, _⟩
        · rwa [hself] at hd
        · cases he.symm.trans hp
        · exact absurd ⟨he, htype⟩ hn
      constructor
      · intro e y hy
        cases hx.symm.trans hy
        exact ⟨fun he htype _ => e.1 he htype, fun hp htype _ => e.2 hp htype⟩
      · intro e
        obtain ⟨e1, e2⟩ := e x hx
        exact ⟨fun he htype => e1 he htype (hdev he htype), fun hp htype => e2 hp htype htemp⟩

end

theorem deviceClose_success (h : s.Counted) (hopen : s.device.uiState = .isOpen) :
    s.otzDeviceClose.2 = .success ↔ ∀ x, (s.sessions x).stillOpen = false := by
  have hinv : s.device.uiState ≠ .invalid := by
    rw [hopen]
    decide
  have hzero : s.device.sessionCount = 0 ↔ ∀ x, (s.sessions x).stillOpen = false := by
    rw [← holds_eq_zero_iff]
    unfold Counted openSessions at h
    omega
  unfold otzDeviceClose
  rw [if_neg hinv, if_pos hopen, ← hzero]
  split_ifs with h0
  · exact iff_of_true rfl h0
  · exact iff_of_false (by decide) h0

theorem deviceClose_count (h : s.Counted) : CountOk s .deviceClose := by
  intro s' hs
  have hsame : s'.device.sessionCount = s.device.sessionCount ∧ s'.sessions = s.sessions := by
    cases hs
    unfold otzDeviceClose
    split_ifs <;> exact ⟨rfl, rfl⟩
  have hcount : s'.Counted := h.same hsame.1 fun y => by rw [hsame.2]
  exact ⟨⟨hcount.nonneg, hcount⟩, fun _ => deviceClose_success h⟩

theorem allocate_count (h : s.Counted) (x : S) (b : B) (length : Word) (flags : MemFlags)
    (mmap : Option A) (r : Int) : CountOk s (.allocate x b length flags mmap r) := by
  refine countOk_same h (fun e => by cases e) fun s' hs => ?_
  obtain ⟨q, hq, rfl⟩ := Option.map_eq_some_iff.mp hs
  rcases otzSharedMemoryAllocate_cases s hq with e | ⟨-, e | ⟨a, -, e | ⟨-, -, e⟩⟩⟩
  · rw [e]
    exact ⟨rfl, fun _ => rfl⟩
  · rw [e]
    exact ⟨rfl, fun _ => rfl⟩
  · rw [e]
    exact ⟨rfl, fun _ => rfl⟩
  · rw [e]
    exact ⟨rfl, stillOpen_setSession rfl rfl⟩

theorem unmapBlock_same (b : B) (freed : Bool) : (s.unmapBlock b freed).device = s.device ∧
    (s.unmapBlock b freed).sessions = s.sessions := by
  unfold unmapBlock
  cases (s.blocks b).pBlock with
  | none => exact ⟨rfl, rfl⟩
  | some a => exact ⟨rfl, rfl⟩

theorem blockReleased_same (x : S) (b : B) : (s.blockReleased x b).device = s.device ∧
    ∀ y, ((s.blockReleased x b).sessions y).stillOpen = (s.sessions y).stillOpen := by
  simp only [blockReleased]
  split_ifs
  · exact ⟨rfl, stillOpen_setSession rfl rfl⟩
  · exact ⟨rfl, fun _ => rfl⟩

theorem sharedRelease_count (h : s.Counted) (b : B) (r : Int) : CountOk s (.sharedRelease b r) := by
  refine countOk_same h (fun e => by cases e) fun s' hs => ?_
  rcases otzSharedMemoryRelease_cases s hs with ⟨rfl, -⟩ | ⟨x, -, -, -, -, ⟨-, rfl⟩ | ⟨-, rfl⟩⟩
  · exact ⟨rfl, fun _ => rfl⟩
  · obtain ⟨hd, hsess⟩ := unmapBlock_same (s := s) b false
    exact ⟨congrArg OtzDevice.sessionCount hd, fun y => congrArg (fun f => (f y).stillOpen) hsess⟩
  · obtain ⟨hd, hsess⟩ := unmapBlock_same (s := s) b true
    obtain ⟨hd', hsess'⟩ := blockReleased_same (s := s.unmapBlock b true) x b
    refine ⟨congrArg OtzDevice.sessionCount (hd'.trans hd), fun y => (hsess' y).trans ?_⟩
    exact congrArg (fun f => (f y).stillOpen) hsess

theorem encodeReference_count (h : s.Counted) (o : O) (b : B) (offset length : Word) (f : MemFlags)
    (d : ParamDir) (r : Int) : CountOk s (.encodeReference o b offset length f d r) := by
  refine countOk_same h (fun e => by cases e) fun s' hs => ?_
  rcases otzEncodeMemoryReference_cases s hs with rfl | ⟨e, rfl⟩ | ⟨-, -, -, -, -, -, -, rfl⟩
  · exact ⟨rfl, fun _ => rfl⟩
  · exact ⟨rfl, fun _ => rfl⟩
  · exact ⟨rfl, fun _ => rfl⟩

theorem encodeArraySpace_count (h : s.Counted) (o : O) (ok : Bool) :
    CountOk s (.encodeArraySpace o ok) := by
  refine countOk_same h (fun e => by cases e) fun s' hs => ?_
  rcases otzEncodeArraySpace_cases s hs with rfl | ⟨e, rfl⟩ | ⟨-, -, rfl⟩
  · exact ⟨rfl, fun _ => rfl⟩
  · exact ⟨rfl, fun _ => rfl⟩
  · exact ⟨rfl, fun _ => rfl⟩

theorem step_count (h : s.Counted) (a : ApiCall S O B A) : CountOk s a ↔ CountFits s a := by
  cases a with
  | prepareOpen x o service => exact prepareOpen_count h x o service
  | prepareInvoke x o => exact iff_of_true (prepareInvoke_count h x o) trivial
  | prepareClose x o => exact iff_of_true (prepareClose_count h x o) trivial
  | perform o r id => exact perform_count h o r id
  | release o => exact release_count h o
  | deviceClose => exact iff_of_true (deviceClose_count h) trivial
  | allocate x b length flags mmap r =>
    exact iff_of_true (allocate_count h x b length flags mmap r) trivial
  | sharedRelease b r => exact iff_of_true (sharedRelease_count h b r) trivial
  | encodeReference o b offset length f d r =>
    exact iff_of_true (encodeReference_count h o b offset length f d r) trivial
  | encodeArraySpace o ok => exact iff_of_true (encodeArraySpace_count h o ok) trivial

/-! ## Runs -/

omit [DecidableEq S] [DecidableEq O] [DecidableEq B] [DecidableEq A] in
theorem opened_counted : (opened : Api S O B A).Counted :=
  (congrArg Int.ofNat ((holds_eq_zero_iff _ _).mpr fun _ => rfl)).symm

/-- **Sessions are counted**: in a run with any results of the driver the count of the device is the
number of open sessions after every call, and a device close tells whether there are any, exactly if
every call fits the state in which it is made. -/
theorem session_count_iff (h : s.Counted) (calls : List (ApiCall S O B A)) :
    Along step CountOk s calls ↔ Along step CountFits s calls := by
  refine along_iff Counted ?_ (fun _ a hu => step_count hu a) h calls
  intro u a t _ hok ht
  exact (hok t ht).1.2

end

/-- a session that is opened, used and closed, and a device close -/
theorem session_count_closed :
    let calls : List (ApiCall (Fin 1) (Fin 1) (Fin 1) (Fin 1)) :=
      [.prepareOpen 0 0 1, .perform 0 0 5, .release 0, .prepareInvoke 0 0, .perform 0 (-14) 0,
        .release 0, .prepareClose 0 0, .perform 0 0 0, .release 0, .deviceClose]
    Along step CountOk opened calls :=
  (session_count_iff opened_counted _).mpr (by decide)

/-- an open operation that is released before it is performed takes a session off the count that was
never put on it -/
theorem abandoned_open :
    let calls : List (ApiCall (Fin 1) (Fin 1) (Fin 1) (Fin 1)) := [.prepareOpen 0 0 1, .release 0]
    (run step opened calls).map (fun s => (s.device.sessionCount, s.openSessions, s.otzDeviceClose.2))
        = some (-1, 0, .illegalState) ∧
      ¬ Along step CountOk opened calls := by
  refine ⟨by decide, fun h => ?_⟩
  have hcount := (h.2.1 _ rfl).1.1
  exact absurd hcount (by decide)

end Api
end SierraTee
