import SierraTee.Lib.Counting
import SierraTee.Lib.Runs
import SierraTee.Api.Client

/-!
# The operations of a session (`otz_api.c`)

* `winds_down_iff`, `refused_close_stuck`.
-/

set_option linter.unusedSectionVars false

namespace SierraTee
open Function
namespace Api
open FlatMemory Runs Counting

section
variable {S O B A : Type} [DecidableEq S]

def OtzOperation.isFor (x : S) (p : OtzOperation S B A) : Bool := p.session = some x

/-- `otz_operation_perform` has returned on it, and it is not released -/
def OtzOperation.performed (p : OtzOperation S B A) : Prop :=
  p.session ≠ none ∧ p.uiState ≠ .encode ∧ p.uiState ≠ .performable

variable [Fintype O]

def pending (s : Api S O B A) (x : S) : Nat := holds (OtzOperation.isFor x) s.operations

variable [DecidableEq O] [DecidableEq B] [DecidableEq A]

def Releasable (s : Api S O B A) (o : O) : Prop :=
  ∃ t, s.otzOperationRelease o = some t ∧ (t.operations o).uiState = .undefined

def Refused (s : Api S O B A) (o : O) (x : S) : Prop :=
  (s.operations o).session = some x ∧ (s.operations o).uiState = .performable ∧
    (s.operations o).type = .close ∧
      ((s.sessions x).operationCount ≠ 1 ∨ (s.sessions x).sharedMemCnt ≠ 0)

/-- what has to be so after a call -/
def WindsDown (s : Api S O B A) (a : ApiCall S O B A) : Prop :=
  ∀ s', s.step a = some s' →
    (∀ x, (s'.sessions x).operationCount = s'.pending x) ∧
    (∀ o, (s'.operations o).performed → s'.Releasable o) ∧
    ∀ o r id x, a = .perform o r id → s.Refused o x → (s'.sessions x).uiState = .isOpen

/-- an open is prepared only if nothing is pending for the session, an operation is prepared only if
it has been released, and a close is performed only if nothing else is left -/
def OperationFits (s : Api S O B A) : ApiCall S O B A → Prop
  | .prepareOpen x o service => service ≠ otzSvcInvalid →
    (∀ o', (s.operations o').session = some x → o' = o) ∧
      ∀ y, (s.operations o).session = some y → y = x
  | .prepareInvoke x o => (s.sessions x).uiState = .isOpen → (s.operations o).session = none
  | .perform o _ _ => ∀ x, ¬ s.Refused o x
  | _ => True

/-! ## The invariant -/

inductive OpFits (z : OtzSession B) (p : OtzOperation S B A) : Prop where
  | invoke (hd : z.device = true) (hs : p.uiState = .encode) (ht : p.type = .invoke)
  | openSession (hd : z.device = true) (hs : p.uiState = .encode) (ht : p.type = .openSession)
      (hz : z.uiState = .invalid) (hc : z.operationCount = 1)
  | close (hd : z.device = true) (hs : p.uiState = .performable) (ht : p.type = .close)
      (hn : p.tempMemRefCount = 0)
  | answered (hd : z.device = true) (hs : p.uiState = .decode)
  | failed (hd : z.device = true) (hs : p.uiState = .invalid)
  | closed (hs : p.uiState = .invalid) (hn : p.tempMemRefCount = 0)

structure Sound (s : Api S O B A) : Prop where
  count : ∀ x, (s.sessions x).operationCount = s.pending x
  free : ∀ o, (s.operations o).session = none → (s.operations o).uiState = .undefined
  fits : ∀ o x, (s.operations o).session = some x → OpFits (s.sessions x) (s.operations o)
  device : ∀ x, (s.sessions x).uiState = .isOpen ∨ (s.sessions x).uiState = .closing →
    (s.sessions x).device = true

end

section
variable {S O B A : Type} [DecidableEq S] [Fintype O] [DecidableEq O] [DecidableEq B] [DecidableEq A]
  {s s' : Api S O B A} {x : S} {o : O} {z : OtzSession B} {p : OtzOperation S B A}

theorem isFor_iff : p.isFor x = true ↔ p.session = some x := decide_eq_true_iff

theorem Sound.alone (h : s.Sound) (hc : (s.sessions x).operationCount = 1) {o' : O}
    (ho : (s.operations o).session = some x) (ho' : (s.operations o').session = some x) : o' = o := by
  have hone : s.pending x = 1 := Int.ofNat.inj ((h.count x).symm.trans hc)
  exact eq_of_holds_eq_one _ hone (isFor_iff.mpr ho') (isFor_iff.mpr ho)

theorem OpFits.more {z' : OtzSession B} (h : OpFits z p) (hz : z.uiState = .invalid →
    z.operationCount = 1 → False) (hd' : z'.device = z.device) : OpFits z' p := by
  cases h with
  | invoke hd hs ht => exact .invoke (hd'.trans hd) hs ht
  | openSession hd hs ht hz' hc => exact (hz hz' hc).elim
  | close hd hs ht hn => exact .close (hd'.trans hd) hs ht hn
  | answered hd hs => exact .answered (hd'.trans hd) hs
  | failed hd hs => exact .failed (hd'.trans hd) hs
  | closed hs hn => exact .closed hs hn

theorem Sound.session_none (h : s.Sound) (ho : (s.operations o).uiState = .undefined) :
    (s.operations o).session = none := by
  cases hx : (s.operations o).session with
  | none => rfl
  | some x =>
    have hne : (s.operations o).uiState ≠ .undefined := by
      intro e
      cases h.fits o x hx with
      | invoke hd hs ht => cases hs.symm.trans e
      | openSession hd hs ht hz hc => cases hs.symm.trans e
      | close hd hs ht hn => cases hs.symm.trans e
      | answered hd hs => cases hs.symm.trans e
      | failed hd hs => cases hs.symm.trans e
      | closed hs hn => cases hs.symm.trans e
    exact absurd ho hne

theorem Sound.releasable (h : s.Sound) (ho : (s.operations o).session = some x) : s.Releasable o := by
  have hcan : (s.operations o).releasable ∧ ((s.sessions x).device = true ∨
      (s.operations o).tempMemRefCount = 0 ∧
        ¬ ((s.operations o).uiState = .encode ∧ (s.operations o).type = .openSession) ∧
          (s.operations o).uiState ≠ .decode) := by
    cases h.fits o x ho with
    | invoke hd hs ht => exact ⟨Or.inl hs, Or.inl hd⟩
    | openSession hd hs ht hz hc => exact ⟨Or.inl hs, Or.inl hd⟩
    | close hd hs ht hn => exact ⟨Or.inr (Or.inl hs), Or.inl hd⟩
    | answered hd hs => exact ⟨Or.inr (Or.inr (Or.inl hs)), Or.inl hd⟩
    | failed hd hs => exact ⟨Or.inr (Or.inr (Or.inr hs)), Or.inl hd⟩
    | closed hs hn =>
      refine ⟨Or.inr (Or.inr (Or.inr hs)), Or.inr ⟨hn, fun e => ?_, fun e => ?_⟩⟩
      · cases hs.symm.trans e.1
      · cases hs.symm.trans e
  obtain ⟨t, ht⟩ := otzOperationRelease_some s ho hcan.2
  refine ⟨t, ht, ?_⟩
  rcases otzOperationRelease_cases s ht with ⟨hn, -⟩ | ⟨_, u, -, -, -, -, rfl⟩
  · exact absurd hcan.1 hn
  · rw [setOperation_self]
    rfl

theorem Sound.same (h : s.Sound) (ho : s'.operations = s.operations)
    (hz : ∀ y, (s'.sessions y).uiState = (s.sessions y).uiState ∧
      (s'.sessions y).operationCount = (s.sessions y).operationCount ∧
        (s'.sessions y).device = (s.sessions y).device) : s'.Sound := by
  refine ⟨fun y => ?_, fun o => ?_, fun o y hy => ?_, fun y hy => ?_⟩
  · rw [(hz y).2.1, h.count y]
    unfold pending
    rw [ho]
  · rw [ho]
    exact h.free o
  · rw [ho] at hy ⊢
    obtain ⟨h1, h2, h3⟩ := hz y
    cases h.fits o y hy with
    | invoke hd hs ht => exact .invoke (h3.trans hd) hs ht
    | openSession hd hs ht hz hc => exact .openSession (h3.trans hd) hs ht (h1.trans hz) (h2.trans hc)
    | close hd hs ht hn => exact .close (h3.trans hd) hs ht hn
    | answered hd hs => exact .answered (h3.trans hd) hs
    | failed hd hs => exact .failed (h3.trans hd) hs
    | closed hs hn => exact .closed hs hn
  · rw [(hz y).1] at hy
    rw [(hz y).2.2]
    exact h.device y hy

theorem pending_update (ho : s'.operations = update s.operations o p) (y : S) :
    s'.pending y + ((s.operations o).isFor y).toNat = s.pending y + (p.isFor y).toNat := by
  unfold pending
  rw [ho]
  exact holds_update (OtzOperation.isFor y) s.operations o p

theorem pending_setOperation (s : Api S O B A) (o : O) (p : OtzOperation S B A) (y : S) :
    (s.setOperation o p).pending y + ((s.operations o).isFor y).toNat
      = s.pending y + (p.isFor y).toNat :=
  holds_update (OtzOperation.isFor y) s.operations o p

theorem Sound.change (h : s.Sound) (hs : s'.sessions = update s.sessions x z)
    (ho : s'.operations = update s.operations o p)
    (hfrom : ∀ y, (s.operations o).session = some y → y = x)
    (hto : ∀ y, p.session = some y → y = x)
    (hcount : z.operationCount + ((s.operations o).isFor x).toNat = s.pending x + (p.isFor x).toNat)
    (hother : ∀ o', o' ≠ o → (s.operations o').session = some x → OpFits z (s.operations o'))
    (hfree : p.session = none → p.uiState = .undefined)
    (hfits : p.session = some x → OpFits z p)
    (hdevice : z.uiState = .isOpen ∨ z.uiState = .closing → z.device = true) : s'.Sound := by
  have hself : s'.sessions x = z := by rw [hs, update_self]
  have hne (y : S) (hy : y ≠ x) : s'.sessions y = s.sessions y := by
    rw [hs, update_of_ne hy]
  have hop : s'.operations o = p := by rw [ho, update_self]
  have hops (o' : O) (h' : o' ≠ o) : s'.operations o' = s.operations o' := by
    rw [ho, update_of_ne h']
  refine ⟨fun y => ?_, fun o' => ?_, fun o' y hy => ?_, fun y => ?_⟩
  · have hp := pending_update ho y
    by_cases hy : y = x
    · subst hy
      rw [hself]
      omega
    · have h1 : (s.operations o).isFor y = false :=
        decide_eq_false fun e => hy (hfrom y e)
      have h2 : p.isFor y = false := decide_eq_false fun e => hy (hto y e)
      rw [h1, h2] at hp
      rw [hne y hy, h.count y]
      exact congrArg Int.ofNat hp.symm
  · by_cases h' : o' = o
    · rw [h', hop]
      exact hfree
    · rw [hops o' h']
      exact h.free o'
  · by_cases h' : o' = o
    · rw [h', hop] at hy ⊢
      have hyx := hto y hy
      rw [hyx, hself]
      exact hfits (hyx ▸ hy)
    · rw [hops o' h'] at hy ⊢
      by_cases hyx : y = x
      · rw [hyx, hself]
        exact hother o' h' (hyx ▸ hy)
      · rw [hne y hyx]
        exact h.fits o' y hy
  · by_cases hy : y = x
    · rw [hy, hself]
      exact hdevice
    · rw [hne y hy]
      exact h.device y

/-! ## Preparing -/

theorem pending_only (h : ∀ o', (s.operations o').session = some x → o' = o) :
    s.pending x = ((s.operations o).isFor x).toNat := by
  have hu := holds_update (OtzOperation.isFor x) s.operations o
    { s.operations o with session := none }
  have hzero : holds (OtzOperation.isFor x)
      (update s.operations o { s.operations o with session := none }) = 0 := by
    refine (holds_eq_zero_iff _ _).mpr fun o' => ?_
    rw [update_apply]
    split_ifs with h'
    · rfl
    · exact decide_eq_false fun e => h' (h o' e)
  rw [hzero] at hu
  exact (hu.symm.trans (Nat.zero_add _))

theorem isFor_of_count (h : s.Sound) (ho : s'.operations = update s.operations o p)
    (hcount : ∀ y, (s'.sessions y).operationCount = s'.pending y)
    {y : S} (hy : (s.operations o).session = some y)
    (hz : (s'.sessions y).operationCount = (s.sessions y).operationCount) : p.session = some y := by
  have hp := pending_update ho y
  have hsame : s'.pending y = s.pending y :=
    Int.ofNat.inj ((hcount y).symm.trans (hz.trans (h.count y)))
  rw [isFor_iff.mpr hy, hsame] at hp
  cases hb : p.isFor y with
  | true => exact isFor_iff.mp hb
  | false =>
    rw [hb] at hp
    exact absurd hp (by simp)

theorem Sound.prepareOpen (h : s.Sound) {service : Word}
    (hfit : OperationFits s (.prepareOpen x o service)) :
    (s.otzOperationPrepareOpen x o service).1.Sound := by
  unfold otzOperationPrepareOpen
  by_cases hsvc : service = otzSvcInvalid
  · rw [if_pos hsvc]
    exact h
  · rw [if_neg hsvc]
    obtain ⟨honly, hfrom⟩ := hfit hsvc
    refine h.change rfl rfl hfrom (fun y e => (Option.some.inj e).symm) ?_ ?_ (fun e => by cases e)
      (fun _ => .openSession rfl rfl rfl rfl rfl) (fun e => ?_)
    · rw [pending_only honly]
      simp only [OtzOperation.isFor, decide_true, Bool.toNat_true]
      exact Int.add_comm _ _
    · intro o' h' e
      exact absurd (honly o' e) h'
    · rcases e with e | e <;> cases e

theorem Sound.prepareFor (h : s.Sound) (hopen : (s.sessions x).uiState = .isOpen)
    (hnone : (s.operations o).session = none) (hp : p.session = some x)
    (hc : z.operationCount = (s.sessions x).operationCount + 1)
    (hz : z.device = (s.sessions x).device) (hfits : z.device = true → OpFits z p) :
    ((s.setSession x z).setOperation o p).Sound := by
  have hdev := hz.trans (h.device x (Or.inl hopen))
  refine h.change rfl rfl ?_ (fun y e => Option.some.inj (e.symm.trans hp)) ?_ ?_
    (fun e => by cases hp.symm.trans e) (fun _ => hfits hdev) (fun _ => hdev)
  · intro y e
    cases hnone.symm.trans e
  · simp only [OtzOperation.isFor, hnone, hp, hc, h.count x, decide_true, Bool.toNat_true]
    rfl
  · intro o' _ e
    exact (h.fits o' x e).more (fun e _ => absurd (hopen.symm.trans e) (by decide)) hz

theorem Sound.prepareInvoke (h : s.Sound) (hfit : OperationFits s (.prepareInvoke x o)) :
    (s.otzOperationPrepareInvoke x o).1.Sound := by
  unfold otzOperationPrepareInvoke
  by_cases hst : (s.sessions x).uiState ≠ .isOpen
  · rw [if_pos hst]
    exact h
  · rw [if_neg hst]
    have hopen := not_ne_iff.mp hst
    exact h.prepareFor hopen (hfit hopen) rfl rfl rfl fun hdev => .invoke hdev rfl rfl

theorem Sound.prepareClose (h : s.Sound) : (s.otzOperationPrepareClose x o).1.Sound := by
  unfold otzOperationPrepareClose
  by_cases hst : (s.sessions x).uiState ≠ .isOpen
  · rw [if_pos hst]
    exact h
  · rw [if_neg hst]
    by_cases hop : (s.operations o).uiState ≠ .undefined
    · rw [if_pos hop]
      exact h
    · rw [if_neg hop]
      exact h.prepareFor (not_ne_iff.mp hst) (h.session_none (not_ne_iff.mp hop)) rfl rfl rfl
        fun hdev => .close hdev rfl rfl rfl

/-! ## Performing -/

section
variable {q : Api S O B A × OtzReturn} {r : Int} {id : Word}

theorem setOperationState_twice (t t' : OtzState) :
    ((s.setOperationState o t).setOperationState o t').operations
      = (s.setOperationState o t').operations := by
  show update (s.setOperationState o t).operations o
    { (s.setOperationState o t).operations o with uiState := t' } = _
  have hself : (s.setOperationState o t).operations o = { s.operations o with uiState := t } :=
    s.setOperation_self o _
  rw [hself]
  exact update_idem _ _ _

def Answered (s s' : Api S O B A) (x : S) (o : O) : Prop :=
  (s.sessions x).device = true ∧ ∃ t z, (t = .invalid ∨ t = .decode) ∧
    s'.operations = (s.setOperationState o t).operations ∧
      s'.sessions = update s.sessions x z ∧
        z.operationCount = (s.sessions x).operationCount ∧ z.device = (s.sessions x).device

theorem answered_state {t : OtzState} (hd : (s.sessions x).device = true)
    (ht : t = .invalid ∨ t = .decode) : Answered s (s.setOperationState o t) x o :=
  ⟨hd, t, s.sessions x, ht, rfl, (update_eq_self x s.sessions).symm, rfl, rfl⟩

theorem performOpen_answered (h : s.performOpen x o r id = some q) : Answered s q.1 x o := by
  obtain ⟨hd, ⟨-, rfl | rfl⟩ | ⟨-, rfl⟩⟩ := performed_cases h
  · exact answered_state hd (Or.inl rfl)
  · exact answered_state hd (Or.inr rfl)
  · exact ⟨hd, _, _, Or.inr rfl, rfl, rfl, rfl, rfl⟩

theorem performInvoke_answered (h : s.performInvoke x o r = some q) : Answered s q.1 x o := by
  obtain ⟨hd, ⟨-, rfl | rfl⟩ | ⟨-, rfl⟩⟩ := performed_cases h
  · exact answered_state hd (Or.inl rfl)
  · exact answered_state hd (Or.inr rfl)
  · exact ⟨hd, _, _, Or.inr rfl, rfl, rfl, rfl, rfl⟩

theorem performClose_cases (h : s.performClose x o r = some q) : (s.sessions x).device = true ∧
    q.1.operations = (s.setOperationState o .invalid).operations ∧
      ∃ z, q.1.sessions = update s.sessions x z ∧
        z.operationCount = (s.sessions x).operationCount ∧
          (z = s.sessions x ∨ z.uiState = .undefined) := by
  obtain ⟨hd, ⟨-, rfl | rfl⟩ | ⟨-, rfl⟩⟩ := performed_cases h
  · exact ⟨hd, rfl, _, (update_eq_self x s.sessions).symm, rfl, Or.inl rfl⟩
  · exact ⟨hd, rfl, _, (update_eq_self x s.sessions).symm, rfl, Or.inl rfl⟩
  · exact ⟨hd, rfl, _, rfl, rfl, Or.inr rfl⟩

theorem Sound.answer (h : s.Sound) (ho : (s.operations o).session = some x)
    (ha : Answered (s.setOperationState o .running) s' x o) : s'.Sound := by
  obtain ⟨hd, t, z, ht, hops, hsess, hcount, hdev⟩ := ha
  rw [setOperationState_twice] at hops
  have hfrom (y : S) (hy : (s.operations o).session = some y) : y = x := by
    cases ho.symm.trans hy
    rfl
  have hz : z.device = true := hdev.trans hd
  have hcount' : z.operationCount = s.pending x := hcount.trans (h.count x)
  refine h.change hsess hops hfrom hfrom ?_ ?_ ?_ ?_ (fun _ => hz)
  · rw [hcount']
    rfl
  · intro o' hne ho'
    exact (h.fits o' x ho').more (fun _ hc => hne (h.alone hc ho ho')) hdev
  · intro e
    cases ho.symm.trans e
  · intro _
    rcases ht with rfl | rfl
    · exact .failed hz rfl
    · exact .answered hz rfl

theorem Sound.closed (h : s.Sound) (ho : (s.operations o).session = some x)
    (hc : (s.sessions x).operationCount = 1) (hn : (s.operations o).tempMemRefCount = 0)
    (hq : (s.setOperationState o .running).performClose x o r = some q) : q.1.Sound := by
  obtain ⟨hd, hops, z, hsess, hcount, hz⟩ := performClose_cases hq
  rw [setOperationState_twice] at hops
  have hfrom (y : S) (hy : (s.operations o).session = some y) : y = x := by
    cases ho.symm.trans hy
    rfl
  have hcount' : z.operationCount = s.pending x := hcount.trans (h.count x)
  refine h.change hsess hops hfrom hfrom ?_ ?_ ?_ ?_ ?_
  · rw [hcount']
    rfl
  · intro o' hne ho'
    exact absurd (h.alone hc ho ho') hne
  · intro e
    cases ho.symm.trans e
  · intro _
    exact .closed rfl hn
  · rcases hz with rfl | hz
    · exact fun _ => hd
    · rw [hz]
      intro e
      rcases e with e | e <;> cases e

theorem Sound.prepared (h : s.Sound) (hst : (s.operations o).uiState = .encode ∨
    (s.operations o).uiState = .performable) : ∃ x, (s.operations o).session = some x ∧
      ((s.operations o).type = .invoke ∨ (s.operations o).type = .openSession ∨
        (s.operations o).uiState = .performable ∧ (s.operations o).type = .close ∧
          (s.operations o).tempMemRefCount = 0) := by
  cases hx : (s.operations o).session with
  | none =>
    have hu := h.free o hx
    rcases hst with e | e
    · cases hu.symm.trans e
    · cases hu.symm.trans e
  | some x =>
    refine ⟨x, rfl, ?_⟩
    cases h.fits o x hx with
    | invoke hd hs ht => exact Or.inl ht
    | openSession hd hs ht hz hc => exact Or.inr (Or.inl ht)
    | close hd hs ht hn => exact Or.inr (Or.inr ⟨hs, ht, hn⟩)
    | answered hd hs => rcases hst with e | e <;> cases hs.symm.trans e
    | failed hd hs => rcases hst with e | e <;> cases hs.symm.trans e
    | closed hs hn => rcases hst with e | e <;> cases hs.symm.trans e

theorem Sound.perform (h : s.Sound) (hfit : OperationFits s (.perform o r id))
    (hq : s.otzOperationPerform o r id = some q) : q.1.Sound := by
  rcases otzOperationPerform_cases s hq with ⟨rfl, -⟩ | ⟨-, htype, hst⟩ | ⟨hst, x, hx, hp⟩
  · exact h
  · obtain ⟨x, -, ht | ht | ⟨-, ht, -⟩⟩ := h.prepared hst
    · cases htype.symm.trans ht
    · cases htype.symm.trans ht
    · cases htype.symm.trans ht
  · obtain ⟨y, hy, ht⟩ := h.prepared hst
    cases hx.symm.trans hy
    rcases ht with ht | ht | ⟨hs, ht, hn⟩
    · rw [ht] at hp
      exact h.answer hx (performInvoke_answered hp)
    · rw [ht] at hp
      exact h.answer hx (performOpen_answered hp)
    · rw [ht] at hp
      have hc : (s.sessions x).operationCount = 1 ∧ (s.sessions x).sharedMemCnt = 0 := by
        by_contra hne
        exact hfit x ⟨hx, hs, ht, not_and_or.mp hne⟩
      exact h.closed hx hc.1 hn ((if_pos hc).symm.trans hp)

theorem refused_stuck (r : Int) (id : Word) (h : s.Refused o x) :
    ∃ t, s.step (.perform o r id) = some t ∧ (t.operations o).performed ∧ ¬ t.Releasable o := by
  obtain ⟨hx, hs, ht, hc⟩ := h
  have hst : ¬ ((s.operations o).uiState ≠ .encode ∧ (s.operations o).uiState ≠ .performable) :=
    fun e => e.2 hs
  have htype : (s.operations o).type ≠ .none := by
    rw [ht]
    decide
  have hrun : s.otzOperationPerform o r id = some (s.setOperationState o .running, .generic) := by
    unfold otzOperationPerform
    rw [if_neg hst, if_neg htype, hx, ht]
    exact if_neg (not_and_or.mpr hc)
  have hself : (s.setOperationState o .running).operations o =
      { s.operations o with uiState := .running } := s.setOperation_self o _
  refine ⟨_, congrArg (Option.map Prod.fst) hrun, ⟨?_, ?_, ?_⟩, ?_⟩
  · rw [hself]
    intro e
    cases hx.symm.trans e
  · rw [hself]
    intro e
    cases e
  · rw [hself]
    intro e
    cases e
  · rintro ⟨t, hrel, hfree⟩
    rcases otzOperationRelease_cases _ hrel with ⟨-, rfl⟩ | ⟨_, _, hcan, -⟩
    · rw [hself] at hfree
      cases hfree
    · rw [hself] at hcan
      rcases hcan with e | e | e | e <;> cases e

end

/-! ## Releasing -/

theorem Sound.freed {u : Api S O B A} (h : s.Sound) (hx : (s.operations o).session = some x)
    (hsess : u.sessions = update s.sessions x z) (hops : u.operations = s.operations)
    (hcount : z.operationCount = (s.sessions x).operationCount - 1)
    (hother : ∀ o', o' ≠ o → (s.operations o').session = some x → OpFits z (s.operations o'))
    (hdevice : z.uiState = .isOpen ∨ z.uiState = .closing → z.device = true) :
    (u.setOperation o (u.operations o).released).Sound := by
  have hset : (u.setOperation o (u.operations o).released).operations
      = update s.operations o (s.operations o).released := by
    rw [← hops]
    rfl
  refine h.change hsess hset ?_ (fun _ e => by cases e) ?_ hother (fun _ => rfl)
    (fun e => by cases e) hdevice
  · intro y hy
    cases hx.symm.trans hy
    rfl
  · have hnone : (s.operations o).released.isFor x = false := rfl
    rw [hcount, h.count x, isFor_iff.mpr hx, hnone]
    show (s.pending x : Int) - 1 + 1 = s.pending x + 0
    omega

theorem Sound.release {t : Api S O B A} (h : s.Sound) (ht : s.otzOperationRelease o = some t) :
    t.Sound := by
  rcases otzOperationRelease_cases s ht with ⟨-, rfl⟩ | ⟨x, u, -, hx, -, hu, rfl⟩
  · exact h
  · have hself := s.setSession_self x (s.sessions x).without
    have hmore (o' : O) (hne : o' ≠ o) (ho' : (s.operations o').session = some x)
        {z : OtzSession B} (hz : z.device = (s.sessions x).device) : OpFits z (s.operations o') :=
      (h.fits o' x ho').more (fun _ hc => hne (h.alone hc hx ho')) hz
    rcases releaseSession_cases _ hu with ⟨hs, htype, -, rfl⟩ | ⟨hs, -, rfl⟩ | ⟨-, -, rfl⟩
    · have hc : (s.sessions x).operationCount = 1 := by
        cases h.fits o x hx with
        | invoke _ _ ht' => cases htype.symm.trans ht'
        | openSession _ _ _ _ hc => exact hc
        | close _ hs' => cases hs.symm.trans hs'
        | answered _ hs' => cases hs.symm.trans hs'
        | failed _ hs' => cases hs.symm.trans hs'
        | closed hs' => cases hs.symm.trans hs'
      refine h.freed hx (update_idem _ _ _) rfl ?_ ?_ ?_
      · exact congrArg OtzSession.operationCount hself
      · intro o' hne ho'
        exact absurd (h.alone hc hx ho') hne
      · intro e
        rcases e with e | e <;> cases e
    · have hd : (s.sessions x).device = true := by
        cases h.fits o x hx with
        | invoke hd => exact hd
        | openSession hd => exact hd
        | close hd => exact hd
        | answered hd => exact hd
        | failed hd => exact hd
        | closed hs' => cases hs.symm.trans hs'
      have hz : ((s.setSession x (s.sessions x).without).sessions x).device
          = (s.sessions x).device := by
        rw [hself]
        rfl
      refine h.freed hx (update_idem _ _ _) rfl ?_ ?_ (fun _ => hz.trans hd)
      · exact congrArg OtzSession.operationCount hself
      · exact fun o' hne ho' => hmore o' hne ho' hz
    · refine h.freed hx rfl rfl rfl ?_ (h.device x)
      exact fun o' hne ho' => hmore o' hne ho' rfl

/-! ## The other calls -/

theorem Sound.deviceClose (h : s.Sound) : s.otzDeviceClose.1.Sound := by
  unfold otzDeviceClose
  split_ifs
  · exact h.same rfl fun _ => ⟨rfl, rfl, rfl⟩
  · exact h.same rfl fun _ => ⟨rfl, rfl, rfl⟩
  · exact h
  · exact h

theorem Sound.sameSession {t : Api S O B A} (h : s.Sound) (ho : t.operations = s.operations)
    (hs : t.sessions = s.sessions) (h1 : z.uiState = (s.sessions x).uiState)
    (h2 : z.operationCount = (s.sessions x).operationCount)
    (h3 : z.device = (s.sessions x).device) : (t.setSession x z).Sound := by
  refine h.same ho fun y => ?_
  show (update t.sessions x z y).uiState = _ ∧
    (update t.sessions x z y).operationCount = _ ∧
      (update t.sessions x z y).device = _
  rw [hs, update_apply]
  split_ifs with hy
  · subst hy
    exact ⟨h1, h2, h3⟩
  · exact ⟨rfl, rfl, rfl⟩

theorem Sound.allocate {q : Api S O B A × OtzReturn} {b : B} {length : Word} {flags : MemFlags}
    {mmap : Option A} {r : Int} (h : s.Sound)
    (hq : s.otzSharedMemoryAllocate x b length flags mmap r = some q) : q.1.Sound := by
  rcases otzSharedMemoryAllocate_cases s hq with e | ⟨-, e | ⟨a, -, e | ⟨-, -, e⟩⟩⟩
  · rw [e]
    exact h
  · rw [e]
    exact h.same rfl fun _ => ⟨rfl, rfl, rfl⟩
  · rw [e]
    exact h.same rfl fun _ => ⟨rfl, rfl, rfl⟩
  · rw [e]
    exact h.sameSession rfl rfl rfl rfl rfl

theorem Sound.unmapBlock (h : s.Sound) (b : B) (freed : Bool) : (s.unmapBlock b freed).Sound := by
  unfold Api.unmapBlock
  cases (s.blocks b).pBlock with
  | none => exact h
  | some a => exact h.same rfl fun _ => ⟨rfl, rfl, rfl⟩

theorem Sound.blockReleased (h : s.Sound) (x : S) (b : B) : (s.blockReleased x b).Sound := by
  simp only [Api.blockReleased]
  split_ifs
  · exact h.sameSession rfl rfl rfl rfl rfl
  · exact h.same rfl fun _ => ⟨rfl, rfl, rfl⟩

theorem Sound.sharedRelease {t : Api S O B A} {b : B} {r : Int} (h : s.Sound)
    (ht : s.otzSharedMemoryRelease b r = some t) : t.Sound := by
  rcases otzSharedMemoryRelease_cases s ht with ⟨rfl, -⟩ | ⟨x, -, -, -, -, ⟨-, rfl⟩ | ⟨-, rfl⟩⟩
  · exact h
  · exact h.unmapBlock b false
  · exact (h.unmapBlock b true).blockReleased x b

theorem Sound.encode (h : s.Sound) (hs : p.uiState = (s.operations o).uiState)
    (hx : p.session = (s.operations o).session) (ht : p.type = (s.operations o).type)
    (hn : p.tempMemRefCount = (s.operations o).tempMemRefCount ∨ p.uiState = .encode) :
    (s.setOperation o p).Sound := by
  have hself : (s.setOperation o p).operations o = p := s.setOperation_self o p
  have hne (o' : O) (h' : o' ≠ o) : (s.setOperation o p).operations o' = s.operations o' :=
    update_of_ne h' _ _
  refine ⟨fun y => ?_, fun o' => ?_, fun o' y hy => ?_, h.device⟩
  · have hp := s.pending_setOperation o p y
    have hfor : p.isFor y = (s.operations o).isFor y := by
      unfold OtzOperation.isFor
      rw [hx]
    rw [hfor] at hp
    exact (h.count y).trans (congrArg Int.ofNat (Nat.add_right_cancel hp).symm)
  · by_cases h' : o' = o
    · rw [h', hself, hx, hs]
      exact h.free o
    · rw [hne o' h']
      exact h.free o'
  · by_cases h' : o' = o
    · rw [h', hself] at hy ⊢
      have hidle (e : OtzState) (he : (s.operations o).uiState = e) (hee : e ≠ .encode) :
          p.tempMemRefCount = (s.operations o).tempMemRefCount :=
        hn.resolve_right fun e' => hee (he.symm.trans (hs.symm.trans e'))
      cases h.fits o y (hx.symm.trans hy) with
      | invoke hd hs' ht' => exact .invoke hd (hs.trans hs') (ht.trans ht')
      | openSession hd hs' ht' hz hc => exact .openSession hd (hs.trans hs') (ht.trans ht') hz hc
      | close hd hs' ht' hn' =>
        exact .close hd (hs.trans hs') (ht.trans ht') ((hidle _ hs' (by decide)).trans hn')
      | answered hd hs' => exact .answered hd (hs.trans hs')
      | failed hd hs' => exact .failed hd (hs.trans hs')
      | closed hs' hn' => exact .closed (hs.trans hs') ((hidle _ hs' (by decide)).trans hn')
    · rw [hne o' h'] at hy ⊢
      exact h.fits o' y hy

theorem Sound.encodeReference {t : Api S O B A} {b : B} {offset length : Word} {f : MemFlags}
    {d : ParamDir} {r : Int} (h : s.Sound)
    (ht : s.otzEncodeMemoryReference o b offset length f d r = some t) : t.Sound := by
  rcases otzEncodeMemoryReference_cases s ht with rfl | ⟨e, rfl⟩ | ⟨-, -, -, -, -, -, -, rfl⟩
  · exact h
  · exact h.encode rfl rfl rfl (Or.inl rfl)
  · exact h.encode rfl rfl rfl (Or.inl rfl)

theorem Sound.encodeArraySpace {t : Api S O B A} {ok : Bool} (h : s.Sound)
    (ht : s.otzEncodeArraySpace o ok = some t) : t.Sound := by
  rcases otzEncodeArraySpace_cases s ht with rfl | ⟨e, rfl⟩ | ⟨hs, -, rfl⟩
  · exact h
  · exact h.encode rfl rfl rfl (Or.inl rfl)
  · exact h.encode rfl rfl rfl (Or.inr hs)

/-! ## Runs -/

theorem Sound.step (h : s.Sound) {a : ApiCall S O B A} (hfit : OperationFits s a)
    (hs : s.step a = some s') : s'.Sound := by
  cases a with
  | prepareOpen x o service =>
    cases hs
    exact h.prepareOpen hfit
  | prepareInvoke x o =>
    cases hs
    exact h.prepareInvoke hfit
  | prepareClose x o =>
    cases hs
    exact h.prepareClose
  | perform o r id =>
    obtain ⟨q, hq, rfl⟩ := Option.map_eq_some_iff.mp hs
    exact h.perform hfit hq
  | release o => exact h.release hs
  | deviceClose =>
    cases hs
    exact h.deviceClose
  | allocate x b length flags mmap r =>
    obtain ⟨q, hq, rfl⟩ := Option.map_eq_some_iff.mp hs
    exact h.allocate hq
  | sharedRelease b r => exact h.sharedRelease hs
  | encodeReference o b offset length f d r => exact h.encodeReference hs
  | encodeArraySpace o ok => exact h.encodeArraySpace hs

theorem prepareOpen_fits (h : s.Sound) {service : Word}
    (hw : WindsDown s (.prepareOpen x o service)) : OperationFits s (.prepareOpen x o service) := by
  intro hsvc
  obtain ⟨z, p, hs, hz, hp⟩ : ∃ z p, s.step (.prepareOpen x o service)
      = some ((s.setSession x z).setOperation o p) ∧ z.operationCount = 1 ∧ p.session = some x :=
    ⟨_, _, congrArg some (congrArg Prod.fst (if_neg hsvc)), rfl, rfl⟩
  have hcount := (hw _ hs).1
  have hself : ((s.setSession x z).setOperation o p).sessions x = z := s.setSession_self x z
  have hop : ((s.setSession x z).setOperation o p).operations o = p :=
    (s.setSession x z).setOperation_self o p
  constructor
  · intro o' ho'
    by_contra hne
    have hone := hcount x
    rw [hself, hz] at hone
    have hsame : ((s.setSession x z).setOperation o p).operations o' = s.operations o' :=
      update_of_ne hne _ _
    refine hne (eq_of_holds_eq_one (OtzOperation.isFor x) (Int.ofNat.inj hone.symm) (y := o') (z := o)
      ?_ ?_)
    · rw [hsame]
      exact isFor_iff.mpr ho'
    · rw [hop]
      exact isFor_iff.mpr hp
  · intro y hy
    by_contra hne
    have hsame : ((s.setSession x z).setOperation o p).sessions y = s.sessions y :=
      update_of_ne hne _ _
    have hpy : p.session = some y :=
      isFor_of_count h rfl hcount hy (congrArg OtzSession.operationCount hsame)
    exact hne (Option.some.inj (hpy.symm.trans hp))

theorem prepareInvoke_fits (h : s.Sound) (hw : WindsDown s (.prepareInvoke x o)) :
    OperationFits s (.prepareInvoke x o) := by
  intro hopen
  obtain ⟨z, p, hs, hz, hp⟩ : ∃ z p, s.step (.prepareInvoke x o)
      = some ((s.setSession x z).setOperation o p) ∧
        z.operationCount = (s.sessions x).operationCount + 1 ∧ p.session = some x :=
    ⟨_, _, congrArg some (congrArg Prod.fst (if_neg (not_ne_iff.mpr hopen))), rfl, rfl⟩
  have hcount := (hw _ hs).1
  have hself : ((s.setSession x z).setOperation o p).sessions x = z := s.setSession_self x z
  cases hy : (s.operations o).session with
  | none => rfl
  | some y =>
    by_cases hyx : y = x
    · subst hyx
      have hup : ((s.setSession y z).setOperation o p).pending y
          + ((s.operations o).isFor y).toNat = s.pending y + (p.isFor y).toNat :=
        (s.setSession y z).pending_setOperation o p y
      rw [isFor_iff.mpr hy, isFor_iff.mpr hp] at hup
      have hc := hcount y
      rw [hself, hz, h.count y, Nat.add_right_cancel hup] at hc
      omega
    · have hsame : ((s.setSession x z).setOperation o p).sessions y = s.sessions y :=
        update_of_ne hyx _ _
      have hpy : p.session = some y :=
        isFor_of_count h rfl hcount hy (congrArg OtzSession.operationCount hsame)
      exact absurd (Option.some.inj (hpy.symm.trans hp)) hyx

theorem step_windsDown (h : s.Sound) (a : ApiCall S O B A) :
    WindsDown s a ↔ OperationFits s a := by
  constructor
  · intro hw
    cases a with
    | prepareOpen x o service => exact prepareOpen_fits h hw
    | prepareInvoke x o => exact prepareInvoke_fits h hw
    | perform o r id =>
      intro x href
      obtain ⟨t, ht, hperf, hstuck⟩ := refused_stuck r id href
      exact hstuck ((hw t ht).2.1 o hperf)
    | prepareClose _ _ => trivial
    | release _ => trivial
    | deviceClose => trivial
    | allocate _ _ _ _ _ _ => trivial
    | sharedRelease _ _ => trivial
    | encodeReference _ _ _ _ _ _ _ => trivial
    | encodeArraySpace _ _ => trivial
  · intro hfit s' hs
    have hsound := h.step hfit hs
    refine ⟨hsound.count, fun o ho => ?_, fun o r id x ha href => ?_⟩
    · obtain ⟨x, hx⟩ := Option.ne_none_iff_exists'.mp ho.1
      exact hsound.releasable hx
    · subst ha
      exact absurd href (hfit x)

omit [DecidableEq O] [DecidableEq B] [DecidableEq A] in
theorem opened_sound : (opened : Api S O B A).Sound := by
  refine ⟨fun x => ?_, fun _ _ => rfl, fun _ _ e => (by cases e), fun _ e => ?_⟩
  · exact (congrArg Int.ofNat ((holds_eq_zero_iff _ _).mpr fun _ => rfl)).symm
  · rcases e with e | e <;> cases e

/-- **Operations wind down**: in a run with any results of the driver the counts are right, every
operation that was performed can be released, and a close that is refused leaves the session open,
exactly if no call forgets an operation that is pending and no close is refused at all. -/
theorem winds_down_iff (calls : List (ApiCall S O B A)) :
    Along step WindsDown opened calls ↔ Along step OperationFits opened calls := by
  refine along_iff Sound ?_ (fun _ a hu => step_windsDown hu a) opened_sound calls
  intro u a t hu hok ht
  exact hu.step ((step_windsDown hu a).mp hok) ht

end

/-- a close with an invocation pending is refused; then neither can the operation be released nor the
session be closed, and the device stays open -/
theorem refused_close_stuck :
    let calls : List (ApiCall (Fin 1) (Fin 2) (Fin 1) (Fin 1)) :=
      [.prepareOpen 0 0 1, .perform 0 0 5, .release 0, .prepareInvoke 0 0, .prepareClose 0 1,
        .perform 1 0 0]
    (run step opened (calls ++ [.release 1, .perform 0 0 0, .release 0, .prepareClose 0 1,
        .deviceClose])).map
      (fun s => ((s.operations 1).uiState, (s.sessions 0).operationCount, s.device.uiState))
        = some (.running, 1, .isOpen) ∧
      ¬ Along step WindsDown opened calls := by
  refine ⟨by decide, fun h => ?_⟩
  have hclose := (h.2.2.2.2.2.1 _ rfl).2.2 1 0 0 0 rfl
    ⟨by decide, by decide, by decide, Or.inl (by decide)⟩
  exact absurd hclose (by decide)

end Api
end SierraTee
