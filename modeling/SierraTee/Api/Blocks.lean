import SierraTee.Lib.Runs
import SierraTee.Api.Client

/-!
# The shared blocks that operations refer to (`otz_api.c`)

* `blocks_alive_iff`, `freed_while_referenced`.
-/

set_option linter.unusedSectionVars false

namespace SierraTee
open Function
namespace Api
open FlatMemory Runs

def SharedPages.alive (m : SharedPages) : Prop := m.mapped = true ∧ m.owner ≠ none

section
variable {S O B A : Type} (s : Api S O B A)

def Referenced (a : A) : Prop :=
  ∃ o, (s.operations o).session ≠ none ∧ a ∈ (s.operations o).referenced

def BlocksAlive : Prop := ∀ a, s.Referenced a → (s.memory a).alive

variable [DecidableEq S] [DecidableEq O] [DecidableEq B] [DecidableEq A]

/-- what has to be so after a call: a block that is released is freed if no operation refers to it -/
def BlockKept (s : Api S O B A) (c : ApiCall S O B A) : Prop :=
  (∀ s', s.step c = some s' → s'.BlocksAlive) ∧
    ∀ b r, c = .sharedRelease b r → (s.blocks b).uiState = .isOpen → ∃ s', s.step c = some s' ∧
      ∀ a, (s.blocks b).pBlock = some a → ¬ s.Referenced a →
        (s'.memory a).mapped = false ∧ (s'.memory a).owner = none

/-- `otz_encode_memory_reference` adds the block to the operation -/
def ReferenceFits (o : O) (b : B) (offset length : Word) (f : MemFlags) (d : ParamDir) (r : Int) :
    Prop :=
  (s.operations o).uiState = .encode ∧ (s.operations o).encErrorState = .success ∧
    ¬ badReference f (s.blocks b).uiFlags d ∧ ¬ (s.blocks b).uiLength < offset + length ∧
      (s.operations o).sharedMem.length < maxMemblocksPerOperation ∧ r = 0 ∧
        ∃ x, (s.operations o).session = some x ∧ (s.sessions x).device = true

def CloseFits (o : O) (r : Int) (x : S) : Prop :=
  (s.operations o).session = some x ∧ ((s.operations o).uiState = .encode ∨
    (s.operations o).uiState = .performable) ∧ (s.operations o).type = .close ∧
      (s.sessions x).operationCount = 1 ∧ (s.sessions x).sharedMemCnt = 0 ∧
        (s.sessions x).device = true ∧ r = 0

/-- a block is released only if no operation refers to it, and the driver takes it back; a session, or
the device, is closed only if no operation refers to what the driver keeps for it; and a reference is
to a block that is alive -/
def BlockFits (s : Api S O B A) : ApiCall S O B A → Prop
  | .sharedRelease b r => (s.blocks b).uiState = .isOpen →
    (∀ a, (s.blocks b).pBlock = some a → ¬ s.Referenced a ∧ (r = 0 ∨ (s.memory a).owner = none)) ∧
      ∃ x, (s.blocks b).session = some x ∧ (s.sessions x).device = true
  | .perform o r _ => ∀ x, s.CloseFits o r x →
    ∀ a, s.Referenced a → (s.memory a).owner ≠ some (s.sessions x).sessionId
  | .deviceClose => s.device.uiState = .isOpen → s.device.sessionCount = 0 → ∀ a, ¬ s.Referenced a
  | .encodeReference o b offset length f d r => s.ReferenceFits o b offset length f d r →
    ∀ a, (s.blocks b).pBlock = some a → (s.memory a).alive
  | _ => True

/-- a block has memory and a session exactly if it is open, and no operation is ever counted on it -/
structure BlockOk (m : OtzSharedMem S A) : Prop where
  count : m.operationCount = 0
  session : m.session = none ↔ m.uiState ≠ .isOpen
  memory : m.pBlock = none ↔ m.uiState ≠ .isOpen

def BlocksOk : Prop := ∀ b, BlockOk (s.blocks b)

end

section
variable {S O B A : Type} [DecidableEq S] [DecidableEq O] [DecidableEq B] [DecidableEq A]
  {s s' : Api S O B A} {x : S} {o : O} {z : OtzSession B} {p : OtzOperation S B A} {b : B} {a : A}
  {q : Api S O B A × OtzReturn} {r : Int} {id : Word}

/-! ## One operation changes -/

theorem referenced_update (ho : s'.operations = update s.operations o p)
    (hp : p.session ≠ none → a ∈ p.referenced → s.Referenced a) (h : s'.Referenced a) :
    s.Referenced a := by
  obtain ⟨o', hs, ha⟩ := h
  rw [ho, update_apply] at hs ha
  split_ifs at hs ha with h'
  · exact hp hs ha
  · exact ⟨o', hs, ha⟩

def SameRefs (s s' : Api S O B A) : Prop :=
  ∀ o, (s'.operations o).session = (s.operations o).session ∧
    (s'.operations o).referenced = (s.operations o).referenced

theorem SameRefs.iff (h : SameRefs s s') (a : A) : s'.Referenced a ↔ s.Referenced a := by
  refine exists_congr fun o => ?_
  rw [(h o).1, (h o).2]

theorem sameRefs_setOperation (hs : p.session = (s.operations o).session)
    (hr : p.referenced = (s.operations o).referenced) : SameRefs s (s.setOperation o p) := by
  intro o'
  by_cases h' : o' = o
  · rw [h', setOperation_self]
    exact ⟨hs, hr⟩
  · have hne : (s.setOperation o p).operations o' = s.operations o' :=
      update_of_ne h' _ _
    rw [hne]
    exact ⟨rfl, rfl⟩

theorem SameRefs.trans {s'' : Api S O B A} (h : SameRefs s s') (h' : SameRefs s' s'') :
    SameRefs s s'' :=
  fun o => ⟨(h' o).1.trans (h o).1, (h' o).2.trans (h o).2⟩

theorem BlocksAlive.same (h : s.BlocksAlive) (href : ∀ a, s'.Referenced a → s.Referenced a)
    (hm : s'.memory = s.memory) : s'.BlocksAlive := by
  intro a ha
  rw [hm]
  exact h a (href a ha)

/-! ## Preparing -/

theorem prepareOpen_alive (h : s.BlocksAlive) (x : S) (o : O) (service : Word) :
    (s.otzOperationPrepareOpen x o service).1.BlocksAlive := by
  unfold otzOperationPrepareOpen
  split_ifs
  · exact h
  · exact h.same (fun a => referenced_update rfl fun _ e => by cases e) rfl

theorem prepareInvoke_alive (h : s.BlocksAlive) (x : S) (o : O) :
    (s.otzOperationPrepareInvoke x o).1.BlocksAlive := by
  unfold otzOperationPrepareInvoke
  split_ifs
  · exact h
  · exact h.same (fun a => referenced_update rfl fun _ e => by cases e) rfl

theorem prepareClose_alive (h : s.BlocksAlive) (x : S) (o : O) :
    (s.otzOperationPrepareClose x o).1.BlocksAlive := by
  unfold otzOperationPrepareClose
  split_ifs
  · exact h
  · exact h
  · exact h.same (fun a => referenced_update rfl fun _ e => by cases e) rfl

/-! ## Performing and releasing -/

theorem performAs_memory {t : OperationType} (h : s.performAs x o r id t = some q) :
    SameRefs s q.1 ∧
      (q.1.memory = s.memory ∧ ¬ (t = .close ∧ (s.sessions x).operationCount = 1 ∧
          (s.sessions x).sharedMemCnt = 0 ∧ (s.sessions x).device = true ∧ r = 0) ∨
        (t = .close ∧ (s.sessions x).operationCount = 1 ∧ (s.sessions x).sharedMemCnt = 0 ∧
          (s.sessions x).device = true ∧ r = 0) ∧
            q.1.memory = (s.dropOwner (s.sessions x).sessionId).memory) := by
  have hstate (u : OtzState) : SameRefs s (s.setOperationState o u) :=
    sameRefs_setOperation rfl rfl
  cases t with
  | openSession =>
    obtain ⟨-, ⟨-, rfl | rfl⟩ | ⟨-, rfl⟩⟩ := performed_cases h
    all_goals exact ⟨hstate _, Or.inl ⟨rfl, fun e => by cases e.1⟩⟩
  | invoke =>
    obtain ⟨-, ⟨-, rfl | rfl⟩ | ⟨-, rfl⟩⟩ := performed_cases h
    all_goals exact ⟨hstate _, Or.inl ⟨rfl, fun e => by cases e.1⟩⟩
  | close =>
    by_cases hc : (s.sessions x).operationCount = 1 ∧ (s.sessions x).sharedMemCnt = 0
    · obtain ⟨hd, ⟨h0, rfl | rfl⟩ | ⟨h0, rfl⟩⟩ := performed_cases ((if_pos hc).symm.trans h)
      · exact ⟨hstate _, Or.inl ⟨rfl, fun e => absurd e.2.2.2.2 h0⟩⟩
      · exact ⟨hstate _, Or.inl ⟨rfl, fun e => absurd e.2.2.2.2 h0⟩⟩
      · exact ⟨hstate _, Or.inr ⟨⟨rfl, hc.1, hc.2, hd, h0⟩, rfl⟩⟩
    · cases (if_neg hc).symm.trans h
      exact ⟨fun _ => ⟨rfl, rfl⟩, Or.inl ⟨rfl, fun e => hc ⟨e.2.1, e.2.2.1⟩⟩⟩
  | none =>
    cases h
    exact ⟨fun _ => ⟨rfl, rfl⟩, Or.inl ⟨rfl, fun e => by cases e.1⟩⟩

theorem perform_memory (h : s.otzOperationPerform o r id = some q) :
    SameRefs s q.1 ∧ (q.1.memory = s.memory ∧ (∀ x, ¬ s.CloseFits o r x) ∨
      ∃ x, s.CloseFits o r x ∧ q.1.memory = (s.dropOwner (s.sessions x).sessionId).memory) := by
  have hstate : SameRefs s (s.setOperationState o .running) := sameRefs_setOperation rfl rfl
  rcases otzOperationPerform_cases s h with ⟨e, hst⟩ | ⟨e, htype, -⟩ | ⟨hst, x, hx, hp⟩
  · rw [e]
    exact ⟨fun _ => ⟨rfl, rfl⟩, Or.inl ⟨rfl, fun x e => absurd e.2.1 (not_or.mpr hst)⟩⟩
  · rw [e]
    exact ⟨hstate, Or.inl ⟨rfl, fun x e => absurd (htype.symm.trans e.2.2.1) (by decide)⟩⟩
  · obtain ⟨hrefs, hmem⟩ := performAs_memory hp
    refine ⟨hstate.trans hrefs, ?_⟩
    rcases hmem with ⟨hm, hn⟩ | ⟨hc, hm⟩
    · left
      refine ⟨hm, fun y e => hn ?_⟩
      cases hx.symm.trans e.1
      exact e.2.2
    · exact Or.inr ⟨x, ⟨hx, hst, hc⟩, hm⟩

theorem blockKept_iff {c : ApiCall S O B A} (hc : ∀ b r, c ≠ .sharedRelease b r) :
    BlockKept s c ↔ ∀ s', s.step c = some s' → s'.BlocksAlive :=
  ⟨fun h => h.1, fun h => ⟨h, fun b r e => absurd e (hc b r)⟩⟩

theorem closeFits_some (id : Word) (h : s.CloseFits o r x) : ∃ q, s.otzOperationPerform o r id = some q := by
  obtain ⟨hx, hst, ht, -, -, hd, -⟩ := h
  have hst' : ¬ ((s.operations o).uiState ≠ .encode ∧ (s.operations o).uiState ≠ .performable) := by
    rwa [not_and_or, not_ne_iff, not_ne_iff]
  have htype : (s.operations o).type ≠ .none := by
    rw [ht]
    decide
  obtain ⟨q, hq⟩ := performAs_some (s.setOperationState o .running) o r id
    (t := (s.operations o).type) hd
  refine ⟨q, ((if_neg hst').trans (if_neg htype)).trans ?_⟩
  rw [hx]
  exact hq

theorem perform_kept (h : s.BlocksAlive) (o : O) (r : Int) (id : Word) :
    BlockKept s (.perform o r id) ↔ BlockFits s (.perform o r id) := by
  rw [blockKept_iff fun b r e => by cases e]
  constructor
  · intro hk x hx a ha howner
    obtain ⟨q, hq⟩ := closeFits_some id hx
    have halive := hk q.1 (congrArg (Option.map Prod.fst) hq)
    obtain ⟨hrefs, ⟨-, hn⟩ | ⟨y, hy, hm⟩⟩ := perform_memory hq
    · exact hn x hx
    · cases hx.1.symm.trans hy.1
      have hnone := (halive a ((hrefs.iff a).mpr ha)).2
      rw [hm] at hnone
      refine hnone ?_
      show (ite ((s.memory a).owner = some (s.sessions x).sessionId) _ _ : SharedPages).owner = none
      rw [if_pos howner]
  · intro hfit s' hs
    obtain ⟨q, hq, rfl⟩ := Option.map_eq_some_iff.mp hs
    obtain ⟨hrefs, ⟨hm, -⟩ | ⟨x, hx, hm⟩⟩ := perform_memory hq
    · exact h.same (fun a => (hrefs.iff a).mp) hm
    · intro a ha
      have hold := (hrefs.iff a).mp ha
      have hkeep : (s.dropOwner (s.sessions x).sessionId).memory a = s.memory a :=
        if_neg (hfit x hx a hold)
      rw [hm, hkeep]
      exact h a hold

theorem release_alive {t : Api S O B A} (h : s.BlocksAlive) (ht : s.otzOperationRelease o = some t) :
    t.BlocksAlive := by
  rcases otzOperationRelease_cases s ht with ⟨-, rfl⟩ | ⟨x, u, -, -, -, hu, rfl⟩
  · exact h
  · have hkeep : u.operations = s.operations ∧ u.memory = s.memory := by
      rcases releaseSession_cases _ hu with ⟨-, -, -, rfl⟩ | ⟨-, -, rfl⟩ | ⟨-, -, rfl⟩
      · exact ⟨rfl, rfl⟩
      · exact ⟨rfl, rfl⟩
      · exact ⟨rfl, rfl⟩
    have hops : (u.setOperation o (u.operations o).released).operations
        = update s.operations o (s.operations o).released := by
      rw [← hkeep.1]
      rfl
    exact h.same (fun a => referenced_update hops fun e => absurd rfl e) hkeep.2

theorem deviceClose_kept (h : s.BlocksAlive) :
    BlockKept s .deviceClose ↔ BlockFits s .deviceClose := by
  rw [blockKept_iff fun b r e => by cases e]
  have hstep : s.step .deviceClose = some s.otzDeviceClose.1 := rfl
  constructor
  · intro hk hopen hzero a ha
    have hrun : s.otzDeviceClose = ({ s with
        device := { s.device with uiState := .undefined }
        memory := fun a => { s.memory a with owner := none } }, .success) := by
      unfold otzDeviceClose
      rw [if_neg (by rw [hopen]; decide), if_pos hopen, if_pos hzero]
    have halive := hk _ hstep
    rw [hrun] at halive
    exact (halive a ha).2 rfl
  · intro hfit s' hs
    cases hs
    unfold otzDeviceClose
    split_ifs with h1 h2 h3
    · exact h.same (fun _ => id) rfl
    · exact fun a ha => absurd ha (hfit h2 h3 a)
    · exact h
    · exact h

/-! ## Shared memory -/

theorem allocate_alive {length : Word} {flags : MemFlags} {mmap : Option A} (h : s.BlocksAlive)
    (hq : s.otzSharedMemoryAllocate x b length flags mmap r = some q) : q.1.BlocksAlive := by
  have hset {a : A} {m : SharedPages} (ha : (s.memory a).mapped = false) :
      (s.setMemory a m).BlocksAlive := by
    intro a' ha'
    have hne : a' ≠ a := by
      rintro rfl
      exact absurd (ha.symm.trans (h a' ha').1) Bool.false_ne_true
    have hsame : (s.setMemory a m).memory a' = s.memory a' := update_of_ne hne _ _
    rw [hsame]
    exact h a' ha'
  rcases otzSharedMemoryAllocate_cases s hq with e | ⟨-, e | ⟨a, ha, e | ⟨-, -, e⟩⟩⟩
  · rw [e]
    exact h
  · rw [e]
    exact h
  · rw [e]
    exact hset ha
  · rw [e]
    exact hset ha

theorem sharedRelease_memory {t : Api S O B A} (hok : s.BlocksOk)
    (ht : s.otzSharedMemoryRelease b r = some t) : SameRefs s t ∧
      (t.memory = s.memory ∧ (s.blocks b).uiState ≠ .isOpen ∨
        ∃ a x, (s.blocks b).uiState = .isOpen ∧ (s.blocks b).pBlock = some a ∧
          (s.blocks b).session = some x ∧ (s.sessions x).device = true ∧
            t.memory = update s.memory a
              ⟨false, if r = 0 then none else (s.memory a).owner⟩) := by
  have hb := hok b
  rcases otzSharedMemoryRelease_cases s ht with ⟨rfl, hn⟩ | ⟨x, hx, -, -, hd, hcase⟩
  · refine ⟨fun _ => ⟨rfl, rfl⟩, Or.inl ⟨rfl, ?_⟩⟩
    rw [hn.resolve_left fun e => e hb.count]
    decide
  · have hopen : (s.blocks b).uiState = .isOpen := by
      by_contra hn
      cases hx.symm.trans (hb.session.mpr hn)
    obtain ⟨a, ha⟩ : ∃ a, (s.blocks b).pBlock = some a :=
      Option.ne_none_iff_exists'.mp fun e => hb.memory.mp e hopen
    have hunmap (freed : Bool) : s.unmapBlock b freed
        = s.setMemory a ⟨false, if freed then none else (s.memory a).owner⟩ := by
      unfold unmapBlock
      rw [ha]
    rcases hcase with ⟨hr, rfl⟩ | ⟨hr, rfl⟩
    · rw [hunmap]
      refine ⟨fun _ => ⟨rfl, rfl⟩, Or.inr ⟨a, x, hopen, ha, hx, hd, ?_⟩⟩
      rw [if_neg hr]
      rfl
    · have hkeep : ((s.unmapBlock b true).blockReleased x b).operations
            = (s.unmapBlock b true).operations ∧
          ((s.unmapBlock b true).blockReleased x b).memory = (s.unmapBlock b true).memory := by
        simp only [blockReleased]
        split_ifs
        · exact ⟨rfl, rfl⟩
        · exact ⟨rfl, rfl⟩
      refine ⟨fun o => ?_, Or.inr ⟨a, x, hopen, ha, hx, hd, ?_⟩⟩
      · rw [hkeep.1, hunmap]
        exact ⟨rfl, rfl⟩
      · rw [hkeep.2, hunmap, if_pos hr]
        rfl

theorem sharedRelease_kept (hok : s.BlocksOk) (h : s.BlocksAlive) (b : B) (r : Int) :
    BlockKept s (.sharedRelease b r) ↔ BlockFits s (.sharedRelease b r) := by
  have hstep : s.step (.sharedRelease b r) = s.otzSharedMemoryRelease b r := rfl
  constructor
  · intro hk hopen
    obtain ⟨t, ht, hfree⟩ := hk.2 b r rfl hopen
    obtain ⟨hrefs, ⟨-, hn⟩ | ⟨a, x, -, ha, hx, hd, hm⟩⟩ := sharedRelease_memory hok ht
    · exact absurd hopen hn
    · have hself : t.memory a = ⟨false, if r = 0 then none else (s.memory a).owner⟩ := by
        rw [hm, update_self]
      have hnot : ¬ s.Referenced a := by
        intro href
        have halive := (hk.1 t ht a ((hrefs.iff a).mpr href)).1
        rw [hself] at halive
        exact Bool.false_ne_true halive
      have hr : r = 0 ∨ (s.memory a).owner = none := by
        by_cases hr : r = 0
        · exact Or.inl hr
        · have hnone := (hfree a ha hnot).2
          rw [hself] at hnone
          exact Or.inr ((if_neg hr).symm.trans hnone)
      refine ⟨fun a' ha' => ?_, x, hx, hd⟩
      cases ha.symm.trans ha'
      exact ⟨hnot, hr⟩
  · intro hfit
    refine ⟨fun t ht => ?_, ?_⟩
    · obtain ⟨hrefs, ⟨hm, -⟩ | ⟨a, x, hopen, ha, -, -, hm⟩⟩ := sharedRelease_memory hok ht
      · exact h.same (fun a => (hrefs.iff a).mp) hm
      · intro a' ha'
        have hold := (hrefs.iff a').mp ha'
        have hne : a' ≠ a := by
          rintro rfl
          exact ((hfit hopen).1 a' ha).1 hold
        rw [hm, update_of_ne hne]
        exact h a' hold
    · rintro b' r' ⟨⟩ hopen
      obtain ⟨hfit, x, hx, hd⟩ := hfit hopen
      obtain ⟨t, ht⟩ := otzSharedMemoryRelease_some s (r := r) hx hd
      refine ⟨t, hstep.trans ht, fun a ha _ => ?_⟩
      obtain ⟨-, ⟨-, hn⟩ | ⟨a', _, -, ha', -, -, hm⟩⟩ := sharedRelease_memory hok ht
      · exact absurd hopen hn
      · cases ha.symm.trans ha'
        rw [hm, update_self]
        refine ⟨rfl, ?_⟩
        by_cases hr : r = 0
        · exact if_pos hr
        · exact (if_neg hr).trans ((hfit a ha).2.resolve_left hr)

/-! ## References -/

section
variable {offset length : Word} {f : MemFlags} {d : ParamDir}

theorem referenceFits_run (h : s.ReferenceFits o b offset length f d r) :
    s.otzEncodeMemoryReference o b offset length f d r = some (s.addReference o b) := by
  obtain ⟨h1, h2, h3, h4, h5, h6, x, hx, hd⟩ := h
  unfold otzEncodeMemoryReference
  rw [if_neg (not_ne_iff.mpr h1), if_neg (not_ne_iff.mpr h2), if_neg h3, if_neg h4,
    if_neg (Nat.not_le_of_lt h5), hx]
  refine (if_neg ?_).trans (if_neg (not_ne_iff.mpr h6))
  rw [hd]
  exact Bool.false_ne_true

theorem setEncError_alive (h : s.BlocksAlive) (o : O) (e : OtzReturn) :
    (s.setEncError o e).BlocksAlive := by
  have hrefs : SameRefs s (s.setEncError o e) := sameRefs_setOperation rfl rfl
  exact h.same (fun a => (hrefs.iff a).mp) rfl

theorem encodeReference_kept (h : s.BlocksAlive) (o : O) (b : B) (offset length : Word)
    (f : MemFlags) (d : ParamDir) (r : Int) :
    BlockKept s (.encodeReference o b offset length f d r) ↔
      BlockFits s (.encodeReference o b offset length f d r) := by
  rw [blockKept_iff fun b r e => by cases e]
  constructor
  · intro hk href a ha
    have halive := hk _ (referenceFits_run href)
    obtain ⟨x, hx, -⟩ := href.2.2.2.2.2.2
    refine halive a ⟨o, ?_, ?_⟩
    · unfold addReference
      rw [setOperation_self]
      intro e
      cases hx.symm.trans e
    · unfold addReference
      rw [setOperation_self, ha]
      exact List.mem_append_right _ (List.mem_singleton.mpr rfl)
  · intro hfit s' hs
    rcases otzEncodeMemoryReference_cases s hs with
      rfl | ⟨e, rfl⟩ | ⟨h1, h2, h3, h4, h5, h6, hx, rfl⟩
    · exact h
    · exact setEncError_alive h o e
    · have hblock := hfit ⟨h1, h2, h3, h4, h5, h6, hx⟩
      intro a ha
      by_cases hb : (s.blocks b).pBlock = some a
      · exact hblock a hb
      · have hops : (s.addReference o b).operations = update s.operations o
            { s.operations o with
              sharedMem := (s.operations o).sharedMem ++ [b]
              referenced := (s.operations o).referenced ++ (s.blocks b).pBlock.toList } := rfl
        refine h a (referenced_update hops (fun hs' ha' => ⟨o, hs', ?_⟩) ha)
        rcases List.mem_append.mp ha' with ha' | ha'
        · exact ha'
        · exact absurd (Option.mem_toList.mp ha') hb

theorem encodeArraySpace_alive {t : Api S O B A} {ok : Bool} (h : s.BlocksAlive)
    (ht : s.otzEncodeArraySpace o ok = some t) : t.BlocksAlive := by
  rcases otzEncodeArraySpace_cases s ht with rfl | ⟨e, rfl⟩ | ⟨-, -, rfl⟩
  · exact h
  · exact setEncError_alive h o e
  · have hrefs : SameRefs s (s.addTemporary o) := sameRefs_setOperation rfl rfl
    exact h.same (fun a => (hrefs.iff a).mp) rfl

end

/-! ## Runs -/

theorem step_kept (hok : s.BlocksOk) (h : s.BlocksAlive) (c : ApiCall S O B A) :
    BlockKept s c ↔ BlockFits s c := by
  cases c with
  | prepareOpen x o service =>
    refine iff_of_true ((blockKept_iff fun b r e => by cases e).mpr fun s' hs => ?_) trivial
    cases hs
    exact prepareOpen_alive h x o service
  | prepareInvoke x o =>
    refine iff_of_true ((blockKept_iff fun b r e => by cases e).mpr fun s' hs => ?_) trivial
    cases hs
    exact prepareInvoke_alive h x o
  | prepareClose x o =>
    refine iff_of_true ((blockKept_iff fun b r e => by cases e).mpr fun s' hs => ?_) trivial
    cases hs
    exact prepareClose_alive h x o
  | perform o r id => exact perform_kept h o r id
  | release o =>
    refine iff_of_true ((blockKept_iff fun b r e => by cases e).mpr fun s' hs => ?_) trivial
    exact release_alive h hs
  | deviceClose => exact deviceClose_kept h
  | allocate x b length flags mmap r =>
    refine iff_of_true ((blockKept_iff fun b r e => by cases e).mpr fun s' hs => ?_) trivial
    obtain ⟨q, hq, rfl⟩ := Option.map_eq_some_iff.mp hs
    exact allocate_alive h hq
  | sharedRelease b r => exact sharedRelease_kept hok h b r
  | encodeReference o b offset length f d r => exact encodeReference_kept h o b offset length f d r
  | encodeArraySpace o ok =>
    refine iff_of_true ((blockKept_iff fun b r e => by cases e).mpr fun s' hs => ?_) trivial
    exact encodeArraySpace_alive h hs

theorem BlocksOk.set {m : OtzSharedMem S A} (h : s.BlocksOk) (hm : BlockOk m)
    (hs : s'.blocks = update s.blocks b m) : s'.BlocksOk := by
  intro b'
  rw [hs, update_apply]
  split_ifs
  · exact hm
  · exact h b'

theorem BlocksOk.same (h : s.BlocksOk) (hs : s'.blocks = s.blocks) : s'.BlocksOk := by
  intro b
  rw [hs]
  exact h b

theorem performAs_blocks {t : OperationType} (h : s.performAs x o r id t = some q) :
    q.1.blocks = s.blocks := by
  cases t with
  | openSession =>
    obtain ⟨-, ⟨-, rfl | rfl⟩ | ⟨-, rfl⟩⟩ := performed_cases h <;> rfl
  | invoke =>
    obtain ⟨-, ⟨-, rfl | rfl⟩ | ⟨-, rfl⟩⟩ := performed_cases h <;> rfl
  | close =>
    unfold performAs performClose at h
    split_ifs at h <;> cases h <;> rfl
  | none =>
    cases h
    rfl

theorem perform_blocks (h : s.otzOperationPerform o r id = some q) : q.1.blocks = s.blocks := by
  rcases otzOperationPerform_cases s h with ⟨e, -⟩ | ⟨e, -⟩ | ⟨-, x, -, hp⟩
  · rw [e]
  · rw [e]
    rfl
  · have hrunning := performAs_blocks hp
    exact hrunning

theorem BlocksOk.step {c : ApiCall S O B A} (h : s.BlocksOk) (hs : s.step c = some s') :
    s'.BlocksOk := by
  have hgone {m : OtzSharedMem S A} (hc : m.operationCount = 0) (hx : m.session = none)
      (hp : m.pBlock = none) (hu : m.uiState ≠ .isOpen) : BlockOk m :=
    ⟨hc, iff_of_true hx hu, iff_of_true hp hu⟩
  cases c with
  | prepareOpen x o service =>
    cases hs
    unfold otzOperationPrepareOpen
    split_ifs <;> exact h
  | prepareInvoke x o =>
    cases hs
    unfold otzOperationPrepareInvoke
    split_ifs <;> exact h
  | prepareClose x o =>
    cases hs
    unfold otzOperationPrepareClose
    split_ifs <;> exact h
  | perform o r id =>
    obtain ⟨q, hq, rfl⟩ := Option.map_eq_some_iff.mp hs
    exact h.same (perform_blocks hq)
  | release o =>
    rcases otzOperationRelease_cases s hs with ⟨-, rfl⟩ | ⟨x, u, -, -, -, hu, rfl⟩
    · exact h
    · rcases releaseSession_cases _ hu with ⟨-, -, -, rfl⟩ | ⟨-, -, rfl⟩ | ⟨-, -, rfl⟩ <;> exact h
  | deviceClose =>
    cases hs
    unfold otzDeviceClose
    split_ifs <;> exact h
  | allocate x b length flags mmap r =>
    obtain ⟨q, hq, rfl⟩ := Option.map_eq_some_iff.mp hs
    have hfailed : BlockOk (s.failedBlock b) := by
      refine hgone (h b).count rfl rfl ?_
      intro e
      cases e
    have hopen (a : A) : BlockOk (⟨.isOpen, length, flags, some a, some x, 0⟩ : OtzSharedMem S A) :=
      ⟨rfl, iff_of_false (fun e => by cases e) (not_not_intro rfl),
        iff_of_false (fun e => by cases e) (not_not_intro rfl)⟩
    rcases otzSharedMemoryAllocate_cases s hq with e | ⟨-, e | ⟨a, -, e | ⟨-, -, e⟩⟩⟩
    · rw [e]
      exact h
    · rw [e]
      exact h.set hfailed rfl
    · rw [e]
      exact h.set hfailed rfl
    · rw [e]
      exact h.set (hopen a) rfl
  | sharedRelease b r =>
    have hcount (freed : Bool) : (s.unmapBlock b freed).BlocksOk := by
      unfold unmapBlock
      cases (s.blocks b).pBlock with
      | none => exact h
      | some a => exact h
    rcases otzSharedMemoryRelease_cases s hs with ⟨rfl, -⟩ | ⟨x, -, -, -, -, ⟨-, rfl⟩ | ⟨-, rfl⟩⟩
    · exact h
    · exact hcount false
    · simp only [blockReleased]
      have hset : ((s.unmapBlock b true).setBlock b
          { (s.unmapBlock b true).blocks b with
            uiState := .undefined
            uiLength := 0
            uiFlags := .undefined
            pBlock := none
            session := none }).BlocksOk := by
        refine (hcount true).set (hgone ?_ rfl rfl ?_) rfl
        · exact (hcount true b).count
        · intro e
          cases e
      split_ifs
      · exact hset
      · exact hset
  | encodeReference o b offset length f d r =>
    rcases otzEncodeMemoryReference_cases s hs with rfl | ⟨e, rfl⟩ | ⟨-, -, -, -, -, -, -, rfl⟩ <;>
      exact h
  | encodeArraySpace o ok =>
    rcases otzEncodeArraySpace_cases s hs with rfl | ⟨e, rfl⟩ | ⟨-, -, rfl⟩ <;> exact h

/-- **Referenced blocks stay alive**: in a run with any results of the driver no memory that an
operation refers to is unmapped or freed, and the release of an open block frees it if no operation
refers to it, exactly if every call leaves alone what is referred to. -/
theorem blocks_alive_iff (calls : List (ApiCall S O B A)) :
    Along step BlockKept opened calls ↔ Along step BlockFits opened calls := by
  have hopened : (opened : Api S O B A).BlocksOk ∧ (opened : Api S O B A).BlocksAlive := by
    refine ⟨fun _ => ⟨rfl, ?_, ?_⟩, ?_⟩
    · exact iff_of_true rfl (fun e => by cases e)
    · exact iff_of_true rfl (fun e => by cases e)
    · rintro a ⟨o, ho, -⟩
      exact absurd rfl ho
  refine along_iff (fun s => s.BlocksOk ∧ s.BlocksAlive) ?_
    (fun u c hu => step_kept hu.1 hu.2 c) hopened calls
  intro u c t hu hk ht
  exact ⟨hu.1.step ht, hk.1 t ht⟩

end

/-- the memory of a block is unmapped and freed while an invocation with a reference to it is
prepared: encoding the reference does not count the operation on the block -/
theorem freed_while_referenced :
    let calls : List (ApiCall (Fin 1) (Fin 1) (Fin 1) (Fin 1)) :=
      [.prepareOpen 0 0 1, .perform 0 0 5, .release 0, .allocate 0 0 16 .serviceRw (some 0) 0,
        .prepareInvoke 0 0, .encodeReference 0 0 0 16 .serviceRw .input 0, .sharedRelease 0 0]
    (run step opened calls).map (fun s => ((s.operations 0).uiState, (s.operations 0).sharedMem,
        (s.operations 0).referenced, (s.memory 0).mapped, (s.memory 0).owner))
        = some (.encode, [0], [0], false, none) ∧
      ¬ Along step BlockKept opened calls := by
  refine ⟨by decide, fun h => ?_⟩
  have halive := h.2.2.2.2.2.2.1.1 _ rfl 0 ⟨0, by decide, by decide⟩
  exact absurd halive.1 (by decide)

end Api
end SierraTee
