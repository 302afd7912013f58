import SierraTee.Session.Open
import SierraTee.Kernel.ReadyQueue

/-!
# An open request is all or nothing

* `open_session_iff`, `open_unmapped`.
-/

namespace SierraTee
open Function
namespace Session
open Dispatch

section
variable {b : Build} {e : OpenEnv} {k : Kernel} {errno : Int} {st : OpenState} {answer : Nat}

theorem not_opened (h : st.response = none ∨ st.response = some (-1)) : ¬ Opened b e k st := by
  rintro ⟨s, t, x, -, -, -, hr, -⟩
  obtain h | h := h
  · rw [h] at hr
    cases hr
  · rw [h] at hr
    have := Option.some.inj hr
    omega

theorem failed_iff (h : openRequest b e k errno = some (st, answer)) (hno : ¬ Opened b e k st) :
    AllOrNothing b e k errno ↔
      answer ≠ smcSuccess ∧ (st.kernel = k ∧ ∀ r, st.held r = false) ∧ st.badFree = false := by
  unfold AllOrNothing
  constructor
  · rintro ⟨st', a, h', htold, hleft, honce⟩
    rw [h] at h'
    cases h'
    have hne : answer ≠ smcSuccess := fun ha => hno (htold.mp ha)
    exact ⟨hne, hleft hne, honce⟩
  · rintro ⟨hne, hleft, honce⟩
    exact ⟨st, answer, h, ⟨fun ha => absurd ha hne, fun ho => absurd ho hno⟩, fun _ => hleft, honce⟩

def mappedState (k : Kernel) (errno : Int) : OpenState :=
  (((openStart k errno).take .cmdMap).take .respMap).take .reqMap

structure Maps (e : OpenEnv) : Prop where
  cmd : e.mapCmd = true
  len : e.respBufLen ≠ 0
  resp : e.mapResp = true
  req : e.mapReq = true
  svc : e.svcId ≠ svcInvalid

variable (b k errno) in
theorem unmapped_open (h : ¬ Maps e) :
    ∃ st, openSessionFromNs b e k errno = some (st, 0) ∧ st.response = none := by
  unfold openSessionFromNs
  by_cases h1 : e.mapCmd = true
  · by_cases h2 : e.respBufLen = 0
    · simp only [h1, h2, Bool.not_true, Bool.false_eq_true, if_false, if_true]
      exact ⟨_, rfl, rfl⟩
    · by_cases h3 : e.mapResp = true
      · by_cases h4 : e.mapReq = true
        · by_cases h5 : e.svcId = svcInvalid
          · simp only [h1, h2, h3, h4, h5, Bool.not_true, Bool.false_eq_true, if_false, if_true]
            exact ⟨_, rfl, rfl⟩
          · exact absurd ⟨h1, h2, h3, h4, h5⟩ h
        · simp only [h1, h2, h3, h4, Bool.not_true, Bool.not_false, Bool.false_eq_true, if_false,
            if_true]
          exact ⟨_, rfl, rfl⟩
      · simp only [h1, h2, h3, Bool.not_true, Bool.not_false, Bool.false_eq_true, if_false,
        if_true]
        exact ⟨_, rfl, rfl⟩
  · simp only [h1, Bool.not_false, if_true]
    exact ⟨_, rfl, rfl⟩

theorem not_allOrNothing_of_not_maps (h : ¬ Maps e) : ¬ AllOrNothing b e k errno := by
  obtain ⟨st, hrun, hresp⟩ := unmapped_open b k errno h
  have hreq : openRequest b e k errno = some (st, smcSuccess) := by
    unfold openRequest
    rw [hrun]
    rfl
  rw [failed_iff hreq (not_opened (Or.inl hresp))]
  exact fun hc => hc.1 rfl

variable (b k errno) in
theorem openRequest_of_maps (h : Maps e) : openRequest b e k errno =
    ((mappedState k errno).openMapped e b).map fun r =>
      (r.1.unmapAll, apiAnswer (if r.2 = swError then r.1.unmapAll.errno else r.2)) := by
  unfold openRequest openSessionFromNs
  simp only [h.cmd, h.len, h.resp, h.req, h.svc, Bool.not_true, Bool.false_eq_true, if_false,
    Option.map_map]
  rfl

def afterFailure (b : Build) (e : OpenEnv) (x : OpenState) (data : Bool) : OpenState :=
  saDestroyEntryPoint x b e.svcIdLater data

theorem afterFailure_response {x : OpenState} {data : Bool} :
    (afterFailure b e x data).response = x.response := by
  unfold afterFailure saDestroyEntryPoint
  split
  · split_ifs <;> rfl
  · rfl

structure CleanFailure (b : Build) (e : OpenEnv) (k : Kernel) (x : OpenState) (data : Bool) :
    Prop where
  told : apiAnswer (afterFailure b e x data).errno ≠ smcSuccess
  kernel : x.kernel = k
  held : ∀ r, r ≠ .cmdMap → r ≠ .respMap → r ≠ .reqMap → (afterFailure b e x data).held r = false
  once : (afterFailure b e x data).badFree = false

theorem failed_service {x : OpenState} {data : Bool} (hm : Maps e)
    (hx : (mappedState k errno).openMapped e b
      = some ({ afterFailure b e x data with cmdStatus := some .incomplete }, swError))
    (hresp : x.response = none ∨ x.response = some (-1)) :
    AllOrNothing b e k errno ↔ CleanFailure b e k x data := by
  have hreq := openRequest_of_maps b k errno hm
  rw [hx, Option.map_some, if_pos rfl] at hreq
  have hno : ¬ Opened b e k
      (({ afterFailure b e x data with cmdStatus := some .incomplete } : OpenState).unmapAll) := by
    apply not_opened
    rw [unmapAll_response]
    exact hresp.imp afterFailure_response.trans afterFailure_response.trans
  have hkernel : (afterFailure b e x data).kernel = x.kernel := by
    unfold afterFailure saDestroyEntryPoint
    split
    · split_ifs <;> rfl
    · rfl
  rw [failed_iff hreq hno, unmapAll_kernel, unmapAll_badFree, unmapAll_errno]
  constructor
  · rintro ⟨h1, ⟨h2, h3⟩, h4⟩
    refine ⟨h1, hkernel.symm.trans h2, fun r hr1 hr2 hr3 => ?_, h4⟩
    have h := h3 r
    rw [unmapAll_held, if_neg hr1, if_neg hr2, if_neg hr3] at h
    exact h
  · intro h
    refine ⟨h.told, ⟨hkernel.trans h.kernel, fun r => ?_⟩, h.once⟩
    rw [unmapAll_held]
    split_ifs with h1 h2 h3
    · rfl
    · rfl
    · rfl
    · exact h.held r h1 h2 h3


theorem apiAnswer_einval : apiAnswer swEinval ≠ smcSuccess := by decide
theorem apiAnswer_enomem : apiAnswer swEnomem ≠ smcSuccess := by decide
theorem apiAnswer_eacces : apiAnswer swEacces = smcSuccess := by decide

theorem cleanFailure_iff {x : OpenState} {data again : Bool}
    (ha : (serviceOf b e.svcIdLater).isSome = again) :
    CleanFailure b e k x data ↔
      (again → apiAnswer x.errno ≠ smcSuccess) ∧ x.kernel = k ∧ x.badFree = false ∧
      (again → data → x.held .data) ∧ (¬ (again ∧ data) → x.held .data = false) ∧
      x.held .task = false ∧ x.held .tlsPage = false ∧ x.held .tls = false ∧
      x.held .tlsMap = false ∧ x.held .stack = false ∧ x.held .heap = false := by
  have hrun : CleanFailure b e k x data ↔ apiAnswer (afterFailure b e x data).errno ≠ smcSuccess ∧
      x.kernel = k ∧ (afterFailure b e x data).badFree = false ∧
      (afterFailure b e x data).held .data = false ∧ (afterFailure b e x data).held .task = false ∧
      (afterFailure b e x data).held .tlsPage = false ∧
      (afterFailure b e x data).held .tls = false ∧ (afterFailure b e x data).held .tlsMap = false ∧
      (afterFailure b e x data).held .stack = false ∧
      (afterFailure b e x data).held .heap = false := by
    constructor
    · intro h
      have hh (r : OpenRes) := h.held r
      exact ⟨h.told, h.kernel, h.once, hh _ (by decide) (by decide) (by decide),
        hh _ (by decide) (by decide) (by decide), hh _ (by decide) (by decide) (by decide),
        hh _ (by decide) (by decide) (by decide), hh _ (by decide) (by decide) (by decide),
        hh _ (by decide) (by decide) (by decide), hh _ (by decide) (by decide) (by decide)⟩
    · rintro ⟨h1, h2, h3, h4, h5, h6, h7, h8, h9, h10⟩
      refine ⟨h1, h2, fun r hr1 hr2 hr3 => ?_, h3⟩
      cases r <;> first | assumption | contradiction
  rw [hrun]
  unfold afterFailure saDestroyEntryPoint
  cases hl : serviceOf b e.svcIdLater with
  | none =>
    obtain rfl : again = false := by rw [← ha, hl]; rfl
    simp [OpenState.setErrno, apiAnswer_einval]
  | some s =>
    obtain rfl : again = true := by rw [← ha, hl]; rfl
    cases data with
    | false => simp
    | true => simp [OpenState.give, and_assoc]

/-! ## an unknown service -/

theorem unknown_iff (hm : Maps e) (hs : serviceOf b e.svcId = none) :
    AllOrNothing b e k errno ↔ ((serviceOf b e.svcIdLater).isSome → !e.configData ∧
      apiAnswer errno ≠ smcSuccess) := by
  have hx : (mappedState k errno).openMapped e b = some
      ({ afterFailure b e (mappedState k errno) e.configData with
        cmdStatus := some .incomplete }, swError) := by
    unfold OpenState.openMapped saCreateEntryPoint
    rw [hs]
    rfl
  rw [failed_service hm hx (Or.inl rfl), cleanFailure_iff rfl]
  cases hl : (serviceOf b e.svcIdLater).isSome <;>
    simp [mappedState, OpenState.take, openStart, and_comm]

/-! ## a service -/

theorem getNextAsidVal_free {a : Nat} (h : getNextAsidVal k = some a) : k.taskIdPool a = false := by
  obtain ⟨b, hb, rfl⟩ := Option.map_eq_some_iff.mp h
  exact SierraTee.getNextAsidVal_free hb

/-- the state in which `create_task` is called, for the service `s` with the task id `id` -/
structure Ready (k : Kernel) (s : ServiceInit) (id : Nat) (st : OpenState) : Prop where
  kernel : st.kernel = { k with
    taskIdPool := if s.takesId then update k.taskIdPool id true else k.taskIdPool }
  free : s.takesId → k.taskIdPool id = false
  badFree : st.badFree = false
  data : st.held .data = s.hasData
  task : st.held .task = false
  tlsPage : st.held .tlsPage = false
  tls : st.held .tls = false
  tlsMap : st.held .tlsMap = false
  stack : st.held .stack = false
  heap : st.held .heap = false

section
variable {s : ServiceInit} {id : Nat} {again : Bool}

theorem Ready.kernel_eq_iff (h : Ready k s id st) : st.kernel = k ↔ s.takesId = false := by
  rw [h.kernel]
  cases ht : s.takesId with
  | false => simp
  | true =>
    simp only [if_true, Bool.true_eq_false, iff_false]
    intro hk
    have hp : update k.taskIdPool (id : Int) true id = k.taskIdPool id := by
      conv_rhs => rw [← hk]
    rw [update_self, h.free ht] at hp
    cases hp

theorem Ready.denied_iff (h : Ready k s id st)
    (ha : (serviceOf b e.svcIdLater).isSome = again) (r : Option Int) :
    CleanFailure b e k (({ st with response := r } : OpenState).setErrno swEacces) s.hasData ↔
      !s.takesId ∧ !s.hasData ∧ !again := by
  rw [cleanFailure_iff ha]
  simp only [OpenState.setErrno, apiAnswer_eacces, h.kernel_eq_iff, h.badFree, h.data, h.task,
    h.tlsPage, h.tls, h.tlsMap, h.stack, h.heap]
  cases s.takesId <;> cases s.hasData <;> cases again <;> simp

theorem Ready.noMemory_iff (h : Ready k s id st) (ha : (serviceOf b e.svcIdLater).isSome = again)
    (r : Option Int) :
    CleanFailure b e k (({ st with response := r } : OpenState).setErrno swEnomem) s.hasData ↔
      !s.takesId ∧ (s.hasData → again) := by
  rw [cleanFailure_iff ha]
  simp only [OpenState.setErrno, h.kernel_eq_iff, h.badFree, h.data, h.task, h.tlsPage,
    h.tls, h.tlsMap, h.stack, h.heap, apiAnswer_enomem, ne_eq, not_false_eq_true]
  cases s.takesId <;> cases s.hasData <;> cases again <;> simp

/-- a state in which `create_task` gives up: it holds the task and what the arguments of
`handleErr1` say, `sp` is the stack -/
structure GivesUp (k : Kernel) (s : ServiceInit) (id : Nat) (st : OpenState)
    (tlsMap sp tls : Bool) : Prop where
  kernel : st.kernel = { k with
    taskIdPool := if s.takesId then update k.taskIdPool id true else k.taskIdPool }
  free : s.takesId → k.taskIdPool id = false
  badFree : st.badFree = false
  data : st.held .data = s.hasData
  task : st.held .task = true
  tlsPage : st.held .tlsPage = false
  tls : st.held .tls = tls
  tlsMap : st.held .tlsMap = tlsMap
  stack : st.held .stack = sp
  heap : st.held .heap = false

theorem giveTaskId_iff (hk : st.kernel = { k with
      taskIdPool := if s.takesId then update k.taskIdPool id true else k.taskIdPool })
    (hf : s.takesId → k.taskIdPool id = false) :
    (({ st.kernel with taskIdPool := update st.kernel.taskIdPool id false } : Kernel) = k ∧
      st.kernel.taskIdPool id = true) ↔ s.takesId = true := by
  rw [hk]
  cases ht : s.takesId with
  | true =>
    simp only [if_true, update_idem, update_self, and_true, iff_true]
    rw [← hf ht, update_eq_self]
  | false =>
    simp only [Bool.false_eq_true, if_false, iff_false]
    rintro ⟨hk, hp⟩
    have hq : update k.taskIdPool (id : Int) false id = k.taskIdPool id := by
      conv_rhs => rw [← hk]
    rw [update_self, hp] at hq
    cases hq

theorem giveIf_held (c : Bool) (r x : OpenRes) :
    (if c then st.give r else st).held x = if x = r then !c && st.held r else st.held x := by
  cases c with
  | false =>
    by_cases hx : x = r
    · rw [hx, if_pos rfl]
      rfl
    · rw [if_neg hx]
      rfl
  | true => exact update_apply ..

theorem giveIf_badFree (c : Bool) (r : OpenRes) :
    (if c then st.give r else st).badFree = (st.badFree || c && !st.held r) := by
  cases c with
  | false => exact (Bool.or_false _).symm
  | true => rfl

theorem giveIf_kernel (c : Bool) (r : OpenRes) :
    (if c then st.give r else st).kernel = st.kernel := by
  cases c <;> rfl

theorem giveIf_errno (c : Bool) (r : OpenRes) :
    (if c then st.give r else st).errno = st.errno := by
  cases c <;> rfl

theorem giveIf_response (c : Bool) (r : OpenRes) :
    (if c then st.give r else st).response = st.response := by
  cases c <;> rfl

theorem handleErr1_response (cfg : SaConfig) (tlsMap taskSp tls : Bool) :
    (st.handleErr1 cfg tlsMap taskSp tls).response = st.response := by
  show OpenState.response (if tls then _ else _) = _
  rw [giveIf_response, giveIf_response, giveIf_response, giveIf_response]

theorem handleErr1_tlsPage (cfg : SaConfig) (tlsMap taskSp tls : Bool) :
    (st.handleErr1 cfg tlsMap taskSp tls).held .tlsPage = st.held .tlsPage := by
  show update (OpenState.held (if tls then _ else _)) .task false .tlsPage = _
  simp only [update_apply, giveIf_held, reduceCtorEq, if_false]

theorem GivesUp.handleErr1 {tlsMap sp tls taskSp : Bool} (h : GivesUp k s id st tlsMap sp tls)
    (cfg : SaConfig) (hd : cfg.data = s.hasData) (hid : cfg.taskId = id) (hsp : sp → taskSp) :
    (st.handleErr1 cfg tlsMap taskSp tls).errno = st.errno ∧
    (st.handleErr1 cfg tlsMap taskSp tls).kernel = { st.kernel with
      taskIdPool := update st.kernel.taskIdPool id false } ∧
    (st.handleErr1 cfg tlsMap taskSp tls).badFree
      = (taskSp && !sp || !st.kernel.taskIdPool id) ∧
    ∀ r, r ≠ .cmdMap → r ≠ .respMap → r ≠ .reqMap →
      (st.handleErr1 cfg tlsMap taskSp tls).held r = false := by
  obtain ⟨-, -, h3, h4, h5, h10, h6, h7, h8, h9⟩ := h
  refine ⟨?_, ?_, ?_, fun r h1 h2 h3 => ?_⟩
  · show OpenState.errno (if tls then _ else _) = _
    rw [giveIf_errno, giveIf_errno, giveIf_errno, giveIf_errno]
  · show ({ OpenState.kernel (if tls then _ else _) with
      taskIdPool := update (OpenState.kernel (if tls then _ else _)).taskIdPool cfg.taskId
        false } : Kernel) = _
    rw [giveIf_kernel, giveIf_kernel, giveIf_kernel, giveIf_kernel, hid]
  · show (OpenState.badFree (if tls then _ else _) || !OpenState.held (if tls then _ else _) .task
      || !(OpenState.kernel (if tls then _ else _)).taskIdPool cfg.taskId) = _
    simp only [giveIf_badFree, giveIf_held, giveIf_kernel, h3, h4, h5, h6, h7, h8, hid, hd,
      reduceCtorEq, if_false]
    cases tlsMap <;> cases sp <;> cases taskSp <;> cases tls <;> cases s.hasData <;> simp
  · show update (OpenState.held (if tls then _ else _)) .task false r = _
    simp only [update_apply, giveIf_held, hd]
    cases r with
    | cmdMap => exact absurd rfl h1
    | respMap => exact absurd rfl h2
    | reqMap => exact absurd rfl h3
    | data => simp [h4]
    | task => rfl
    | tlsPage => exact h10
    | tls => simp [h6]
    | tlsMap => simp [h7]
    | stack =>
      cases hc : sp with
      | false => simp [h8, hc]
      | true => simp [hsp hc]
    | heap => exact h9

theorem GivesUp.cleanFailure_iff {tlsMap sp tls taskSp : Bool}
    (h : GivesUp k s id st tlsMap sp tls) (ha : (serviceOf b e.svcIdLater).isSome = again)
    (cfg : SaConfig) (hd : cfg.data = s.hasData) (hid : cfg.taskId = id) (hsp : sp → taskSp) :
    CleanFailure b e k (st.handleErr1 cfg tlsMap taskSp tls) s.hasData ↔
      s.takesId ∧ (s.hasData → !again) ∧ (taskSp → sp) ∧
        (again → apiAnswer st.errno ≠ smcSuccess) := by
  obtain ⟨h1, h2, h3, h4⟩ := h.handleErr1 cfg hd hid hsp
  have hheld (r : OpenRes) := h4 r
  rw [Session.cleanFailure_iff ha, h1, h2, h3, hheld .data (by decide) (by decide) (by decide),
    hheld .task (by decide) (by decide) (by decide),
    hheld .tlsPage (by decide) (by decide) (by decide),
    hheld .tls (by decide) (by decide) (by decide),
    hheld .tlsMap (by decide) (by decide) (by decide),
    hheld .stack (by decide) (by decide) (by decide),
    hheld .heap (by decide) (by decide) (by decide)]
  have hgive := giveTaskId_iff h.kernel h.free
  have hbad : (taskSp && !sp || !st.kernel.taskIdPool id) = false ↔
      (taskSp → sp) ∧ st.kernel.taskIdPool id = true := by
    cases taskSp <;> cases sp <;> simp
  have hdata : (again → s.hasData → (false : Bool) = true) ↔ (s.hasData → !again) := by
    cases again <;> cases s.hasData <;> simp
  rw [hbad, hdata]
  constructor
  · rintro ⟨h1, h2, ⟨h3, h4⟩, h5, -⟩
    exact ⟨hgive.mp ⟨h2, h4⟩, h5, h3, h1⟩
  · rintro ⟨h1, h2, h3, h4⟩
    obtain ⟨hk, hpool⟩ := hgive.mpr h1
    exact ⟨h4, hk, ⟨h3, hpool⟩, h2, fun _ => rfl, rfl, rfl, rfl, rfl, rfl, rfl⟩

/-! ## the parts of the request -/

def IdTaken (k : Kernel) (s : ServiceInit) (id : Nat) : Prop :=
  if s.takesId then getNextAsidVal k = some id else id = 0

variable (e errno) in
theorem IdTaken.init (h : IdTaken k s id) :
    s.init e (mappedState k errno)
      = s.initData e (if s.takesId then (mappedState k errno).takeTaskId id
          else mappedState k errno) id := by
  unfold IdTaken at h
  unfold ServiceInit.init
  cases ht : s.takesId with
  | false =>
    rw [ht, if_neg Bool.false_ne_true] at h
    rw [if_neg Bool.false_ne_true, if_neg Bool.false_ne_true, h]
  | true =>
    rw [ht, if_pos rfl] at h
    rw [if_pos rfl, if_pos rfl]
    show (getNextAsidVal k).bind _ = _
    rw [h]
    rfl

theorem IdTaken.kernel (id : Nat) : (if s.takesId then (mappedState k errno).takeTaskId id
      else mappedState k errno).kernel = { k with
    taskIdPool := if s.takesId then update k.taskIdPool id true else k.taskIdPool } := by
  cases s.takesId <;> rfl

theorem IdTaken.held (id : Nat) : (if s.takesId then (mappedState k errno).takeTaskId id
      else mappedState k errno).held = (mappedState k errno).held := by
  cases s.takesId <;> rfl

variable (errno) in
theorem IdTaken.ready (h : IdTaken k s id) (hdata : s.hasData → e.mallocData) :
    ∃ st, s.init e (mappedState k errno) = some (st, s.config e id s.hasData, swOk) ∧
      Ready k s id st := by
  have hfree : s.takesId → k.taskIdPool id = false := by
    intro ht
    unfold IdTaken at h
    rw [if_pos ht] at h
    exact getNextAsidVal_free h
  have hbad : (if s.takesId then (mappedState k errno).takeTaskId id
      else mappedState k errno).badFree = false := by
    cases s.takesId <;> rfl
  rw [h.init]
  unfold ServiceInit.initData
  cases hd : s.hasData with
  | false =>
    rw [if_neg Bool.false_ne_true]
    refine ⟨_, rfl, IdTaken.kernel id, hfree, hbad, ?_, ?_, ?_, ?_, ?_, ?_, ?_⟩ <;>
      rw [IdTaken.held]
    · rw [hd]
      rfl
    all_goals rfl
  | true =>
    rw [if_pos rfl, if_pos (hdata hd)]
    refine ⟨_, rfl, IdTaken.kernel id, hfree, hbad, ?_, ?_, ?_, ?_, ?_, ?_, ?_⟩ <;>
      unfold OpenState.take <;> rw [IdTaken.held]
    · rw [hd]
      rfl
    all_goals rfl

theorem noData_iff (hm : Maps e) (hs : serviceOf b e.svcId = some s) (h : IdTaken k s id)
    (hd : s.hasData) (hmalloc : e.mallocData = false) :
    AllOrNothing b e k errno ↔ s.checksData ∧ !s.takesId := by
  have hinit := h.init e errno
  unfold ServiceInit.initData at hinit
  rw [if_pos hd, hmalloc, if_neg Bool.false_ne_true] at hinit
  have hcreate : saCreateEntryPoint e (mappedState k errno) b = s.init e (mappedState k errno) := by
    unfold saCreateEntryPoint
    rw [hs]
  cases hc : s.checksData with
  | false =>
    rw [hc, if_neg Bool.false_ne_true] at hinit
    have hreq := openRequest_of_maps b k errno hm
    unfold OpenState.openMapped at hreq
    rw [hcreate, hinit] at hreq
    constructor
    · rintro ⟨st, a, h', -⟩
      rw [hreq] at h'
      cases h'
    · intro h
      exact absurd h.1 Bool.false_ne_true
  | true =>
    rw [hc, if_pos rfl] at hinit
    have hx : (mappedState k errno).openMapped e b = some
        ({ afterFailure b e ((if s.takesId then (mappedState k errno).takeTaskId id
            else mappedState k errno).setErrno swEnomem) false with
          cmdStatus := some .incomplete }, swError) := by
      unfold OpenState.openMapped
      rw [hcreate, hinit]
      rfl
    rw [failed_service hm hx (Or.inl (by cases s.takesId <;> rfl)), cleanFailure_iff rfl]
    simp only [OpenState.setErrno, IdTaken.held]
    cases ht : s.takesId with
    | false => simp [mappedState, OpenState.take, openStart, apiAnswer_enomem]
    | true =>
      simp only [if_true, true_and, Bool.not_true, Bool.false_eq_true, iff_false]
      rintro ⟨-, hk, -⟩
      have hfree : k.taskIdPool id = false := by
        unfold IdTaken at h
        rw [if_pos ht] at h
        exact getNextAsidVal_free h
      have hp : update k.taskIdPool (id : Int) true id = k.taskIdPool id :=
        congrArg (fun j : Kernel => j.taskIdPool id) hk
      rw [update_self, hfree] at hp
      cases hp

/-! ## `create_task` -/

def taskConfig (e : OpenEnv) (k : Kernel) (s : ServiceInit) (id : Nat) : SaConfig :=
  { s.config e id s.hasData with guestNo := k.currentGuest }

/-- the service `s` has been started: `create_task` is called in `st` -/
structure Started (b : Build) (e : OpenEnv) (k : Kernel) (errno : Int) (s : ServiceInit) (id : Nat)
    (st : OpenState) : Prop where
  maps : Maps e
  service : serviceOf b e.svcId = some s
  init : s.init e (mappedState k errno) = some (st, s.config e id s.hasData, swOk)
  ready : Ready k s id st

def begun (st : OpenState) : OpenState := { st with response := some (-1) }

section
variable (h : Started b e k errno s id st)
include h

theorem Started.openMapped : (mappedState k errno).openMapped e b = some
    (if (st.createTask e (taskConfig e k s id)).2 = swOk then
      ({ (st.createTask e (taskConfig e k s id)).1 with
          retRespBufLen := some 4
          cmdStatus := some .complete }, (st.createTask e (taskConfig e k s id)).2)
    else
      ({ afterFailure b e (st.createTask e (taskConfig e k s id)).1 s.hasData with
          cmdStatus := some .incomplete }, (st.createTask e (taskConfig e k s id)).2)) := by
  unfold OpenState.openMapped saCreateEntryPoint
  rw [h.service]
  show (s.init e (mappedState k errno)).map _ = _
  rw [h.init]
  rfl

theorem Started.failed {x : OpenState}
    (hx : st.createTask e (taskConfig e k s id) = (x, swError))
    (hresp : x.response = some (-1)) :
    AllOrNothing b e k errno ↔ CleanFailure b e k x s.hasData := by
  have hrun := h.openMapped
  have hne : ¬ swError = swOk := by decide
  rw [hx, if_neg hne] at hrun
  exact failed_service h.maps hrun (Or.inr hresp)

end

theorem createTask_denied {cfg : SaConfig}
    (hd : e.denied ∨ (!cfg.allowMultipleInstance ∧ e.otherInstance)) :
    st.createTask e cfg = ((begun st).setErrno swEacces, swError) := by
  unfold OpenState.createTask
  by_cases hden : e.denied
  · exact if_pos hden
  · exact (if_neg hden).trans (if_pos (hd.resolve_left hden))

variable (st) in
theorem createTask_malloc (cfg : SaConfig)
    (hgo : ¬ (e.denied ∨ (!cfg.allowMultipleInstance ∧ e.otherInstance))) :
    st.createTask e cfg = e.mallocTask.elim ((begun st).setErrno swEnomem, swError)
      fun t => ((begun st).take .task).createTaskTls e cfg t := by
  obtain ⟨h1, h2⟩ := not_or.mp hgo
  unfold OpenState.createTask
  refine (if_neg h1).trans ((if_neg h2).trans ?_)
  cases e.mallocTask <;> rfl

variable (st) in
theorem createTaskStack_ok (cfg : SaConfig) (t : TaskPtr) (tls : Nat) {sp : Nat}
    (hsp : e.allocStack = some sp) (hheap : ¬ (cfg.mode = .kern ∧ !e.allocHeap)) :
    ∃ x, st.createTaskStack e cfg t tls = (x, swOk) ∧
      x.kernel = st.kernel.createTask t (OpenState.newSwTask cfg tls sp) ∧
      x.response = some (cfg.taskId : Int) ∧ x.badFree = st.badFree := by
  unfold OpenState.createTaskStack
  rw [hsp]
  refine ⟨_, if_neg hheap, ?_, rfl, ?_⟩
  · by_cases hmode : cfg.mode = .kern
    · simp only [if_pos hmode]
      rfl
    · simp only [if_neg hmode]
      rfl
  · by_cases hmode : cfg.mode = .kern
    · simp only [if_pos hmode]
      rfl
    · simp only [if_neg hmode]
      rfl

section
variable (h : Started b e k errno s id st) (ha : (serviceOf b e.svcIdLater).isSome = again)
include h ha

theorem Started.denied (hd : e.denied ∨ (!s.allowMultipleInstance ∧ e.otherInstance)) :
    AllOrNothing b e k errno ↔ !s.takesId ∧ !s.hasData ∧ !again := by
  rw [h.failed (createTask_denied hd) rfl]
  exact h.ready.denied_iff ha _

variable (hgo : ¬ (e.denied ∨ (!s.allowMultipleInstance ∧ e.otherInstance)))
include hgo

theorem Started.noTask (ht : e.mallocTask = none) :
    AllOrNothing b e k errno ↔ !s.takesId ∧ (s.hasData → again) := by
  have hx := createTask_malloc st (taskConfig e k s id) hgo
  rw [ht] at hx
  rw [h.failed hx rfl]
  exact h.ready.noMemory_iff ha _

variable {t : TaskPtr} (ht : e.mallocTask = some t)
include ht

theorem Started.noTls (hl : e.allocTls = none) :
    AllOrNothing b e k errno ↔ s.takesId ∧ (s.hasData → !again) ∧ !e.freshSp := by
  have hx := createTask_malloc st (taskConfig e k s id) hgo
  rw [ht, Option.elim_some] at hx
  unfold OpenState.createTaskTls at hx
  rw [hl] at hx
  have hup : GivesUp k s id (((begun st).take .task).setErrno swEnomem) false false false :=
      { h.ready with task := rfl }
  rw [h.failed hx (handleErr1_response ..),
      hup.cleanFailure_iff ha (taskConfig e k s id) rfl rfl (by simp)]
  have herr : (((begun st).take .task).setErrno swEnomem).errno = swEnomem := rfl
  rw [herr]
  simp [apiAnswer_enomem]

variable {tls : Nat} (hl : e.allocTls = some tls)
include hl

omit ha in
theorem Started.notReserved (hres : e.reserveTls = false) : ¬ AllOrNothing b e k errno := by
  have hx := createTask_malloc st (taskConfig e k s id) hgo
  rw [ht, Option.elim_some] at hx
  unfold OpenState.createTaskTls at hx
  rw [hl, hres] at hx
  rw [h.failed hx (handleErr1_response ..), cleanFailure_iff rfl]
  rintro ⟨-, -, -, -, -, -, hpage, -⟩
  rw [handleErr1_tlsPage] at hpage
  cases hpage

variable (hres : e.reserveTls = true)
include hres

theorem Started.notMapped (hmap : e.mapTls = false) :
    AllOrNothing b e k errno ↔ s.takesId ∧ (s.hasData → !again) ∧ !e.freshSp ∧
      (again → apiAnswer e.mapErrno ≠ smcSuccess) := by
  have hx := createTask_malloc st (taskConfig e k s id) hgo
  rw [ht, Option.elim_some] at hx
  unfold OpenState.createTaskTls at hx
  rw [hl, hres, hmap] at hx
  have hup : GivesUp k s id ((((begun st).take .task).take .tls).setErrno e.mapErrno)
      false false true :=
      { h.ready with task := rfl, tls := rfl }
  rw [h.failed hx (handleErr1_response ..),
      hup.cleanFailure_iff ha (taskConfig e k s id) rfl rfl (by simp)]
  have herr : ((((begun st).take .task).take .tls).setErrno e.mapErrno).errno = e.mapErrno := rfl
  rw [herr]
  simp

variable (hmap : e.mapTls = true)
include hmap

theorem Started.noStack (hstack : e.allocStack = none ∨ (s.mode = .kern ∧ !e.allocHeap)) :
    AllOrNothing b e k errno ↔ s.takesId ∧ (s.hasData → !again) := by
  have hx := createTask_malloc st (taskConfig e k s id) hgo
  rw [ht, Option.elim_some] at hx
  unfold OpenState.createTaskTls at hx
  rw [hl, hres, hmap] at hx
  change _ = ((((begun st).take .task).take .tls).take .tlsMap).createTaskStack e _ _ _ at hx
  unfold OpenState.createTaskStack at hx
  cases hst : e.allocStack with
  | none =>
    rw [hst] at hx
    have hup : GivesUp k s id
        (((((begun st).take .task).take .tls).take .tlsMap).setErrno swEnomem) true false true :=
      { h.ready with task := rfl, tls := rfl, tlsMap := rfl }
    rw [h.failed hx (handleErr1_response ..),
      hup.cleanFailure_iff ha (taskConfig e k s id) rfl rfl (by simp)]
    have herr : (((((begun st).take .task).take .tls).take .tlsMap).setErrno swEnomem).errno
      = swEnomem := rfl
    rw [herr]
    simp [apiAnswer_enomem]
  | some sp =>
    have hheap := hstack.resolve_left (by rw [hst]; exact Option.some_ne_none sp)
    rw [hst] at hx
    replace hx := hx.trans (if_pos hheap)
    have hup : GivesUp k s id
        ((((((begun st).take .task).take .tls).take .tlsMap).take .stack).setErrno swEnomem)
        true true true :=
      { h.ready with task := rfl, tls := rfl, tlsMap := rfl, stack := rfl }
    rw [h.failed hx (handleErr1_response ..),
      hup.cleanFailure_iff ha (taskConfig e k s id) rfl rfl (by simp)]
    have herr : ((((((begun st).take .task).take .tls).take .tlsMap).take .stack).setErrno
      swEnomem).errno = swEnomem := rfl
    rw [herr]
    simp [apiAnswer_enomem]

omit ha in
theorem Started.opened (hstack : ¬ (e.allocStack = none ∨ (s.mode = .kern ∧ !e.allocHeap))) :
    AllOrNothing b e k errno := by
  obtain ⟨h1, h2⟩ := not_or.mp hstack
  obtain ⟨sp, hsp⟩ := Option.ne_none_iff_exists'.mp h1
  have hx := createTask_malloc st (taskConfig e k s id) hgo
  rw [ht, Option.elim_some] at hx
  unfold OpenState.createTaskTls at hx
  rw [hl, hres, hmap] at hx
  change _ = ((((begun st).take .task).take .tls).take .tlsMap).createTaskStack e _ _ _ at hx
  obtain ⟨x, hok, hkernel, hresp, hbad⟩ := createTaskStack_ok
    ((((begun st).take .task).take .tls).take .tlsMap) (taskConfig e k s id) t tls hsp h2
  have hrun := openRequest_of_maps b k errno h.maps
  rw [h.openMapped, hx, hok, Option.map_some, if_pos rfl] at hrun
  refine ⟨_, _, hrun, iff_of_true rfl ?_, fun hno => absurd rfl hno, ?_⟩
  · refine ⟨s, t, OpenState.newSwTask (taskConfig e k s id) tls sp, h.service, rfl, rfl, ?_, ?_⟩
    · rw [unmapAll_response]
      exact hresp
    · rw [unmapAll_kernel]
      show x.kernel = _
      rw [hkernel]
      show st.kernel.createTask t _ = _
      rw [h.ready.kernel]
      rfl
  · rw [unmapAll_badFree]
    exact hbad.trans h.ready.badFree

end

theorem Started.iff (h : Started b e k errno s id st)
    (hdata : ¬ (s.hasData ∧ !e.mallocData)) (hfree : s.takesId → (getNextAsidVal k).isSome) :
    AllOrNothing b e k errno ↔ ServiceFits e k s (serviceOf b e.svcIdLater).isSome := by
  unfold ServiceFits
  rw [if_neg hdata, and_iff_right hfree]
  by_cases hden : e.denied ∨ (!s.allowMultipleInstance ∧ e.otherInstance)
  · rw [if_pos hden]
    exact h.denied rfl hden
  · rw [if_neg hden]
    cases ht : e.mallocTask with
    | none =>
      rw [if_pos rfl]
      exact h.noTask rfl hden ht
    | some t =>
      rw [if_neg (Option.some_ne_none t)]
      cases hl : e.allocTls with
      | none =>
        rw [if_pos (Or.inl rfl), h.noTls rfl hden ht hl]
        simp
      | some tls =>
        cases hres : e.reserveTls with
        | false =>
          have hor : some tls = none ∨ (!false) = true ∨ (!e.mapTls) = true := Or.inr (Or.inl rfl)
          rw [if_pos hor]
          refine iff_of_false (h.notReserved hden ht hl hres) fun hfits => ?_
          exact Bool.false_ne_true (hfits.1 rfl)
        | true =>
          cases hmap : e.mapTls with
          | false =>
            have hor : some tls = none ∨ (!true) = true ∨ (!false) = true := Or.inr (Or.inr rfl)
            rw [if_pos hor, h.notMapped rfl hden ht hl hres hmap]
            simp
          | true =>
            rw [if_neg (by simp)]
            by_cases hstack : e.allocStack = none ∨ (s.mode = .kern ∧ !e.allocHeap)
            · rw [if_pos hstack]
              exact h.noStack rfl hden ht hl hres hmap hstack
            · rw [if_neg hstack]
              exact iff_of_true (h.opened hden ht hl hres hmap hstack) trivial

theorem service_iff (hm : Maps e) (hs : serviceOf b e.svcId = some s) :
    AllOrNothing b e k errno ↔ ServiceFits e k s (serviceOf b e.svcIdLater).isSome := by
  by_cases hfree : s.takesId → (getNextAsidVal k).isSome
  · obtain ⟨id, hid⟩ : ∃ id, IdTaken k s id := by
      unfold IdTaken
      cases ht : s.takesId with
      | false => exact ⟨0, rfl⟩
      | true => exact Option.isSome_iff_exists.mp (hfree ht)
    by_cases hdata : s.hasData ∧ !e.mallocData
    · unfold ServiceFits
      rw [if_pos hdata, and_iff_right hfree]
      exact noData_iff hm hs hid hdata.1 (by simpa using hdata.2)
    · obtain ⟨st, hinit, hready⟩ := hid.ready errno (by simpa using hdata)
      exact Started.iff ⟨hm, hs, hinit, hready⟩ hdata hfree
  · refine iff_of_false ?_ (fun h => hfree h.1)
    rintro ⟨st, a, h', -⟩
    obtain ⟨ht, hnone⟩ := Classical.not_imp.mp hfree
    have hreq := openRequest_of_maps b k errno hm
    have hmapped : (mappedState k errno).openMapped e b = none := by
      unfold OpenState.openMapped saCreateEntryPoint
      rw [hs]
      show ((s.init e (mappedState k errno)).map _) = none
      unfold ServiceInit.init
      rw [if_pos ht]
      show (((getNextAsidVal k).bind _).map _) = none
      rw [Option.not_isSome_iff_eq_none.mp hnone]
      rfl
    rw [hreq, hmapped] at h'
    cases h'

end

end

theorem open_returns_iff (b : Build) (e : OpenEnv) (k : Kernel) (errno : Int) :
    openSessionFromNs b e k errno ≠ none ↔ (Maps e → ∀ s, serviceOf b e.svcId = some s →
      (s.takesId → (getNextAsidVal k).isSome) ∧ (s.hasData → e.mallocData ∨ s.checksData)) := by
  by_cases hm : Maps e
  · rw [forall_prop_of_true hm, ← Option.map_eq_none_iff.ne]
    have hreq : openRequest b e k errno = _ := openRequest_of_maps b k errno hm
    unfold openRequest at hreq
    rw [hreq, Option.map_eq_none_iff.ne]
    unfold OpenState.openMapped saCreateEntryPoint
    rw [Option.map_eq_none_iff.ne]
    cases hs : serviceOf b e.svcId with
    | none => exact iff_of_true (Option.some_ne_none _) fun _ h => absurd h (Option.some_ne_none _).symm
    | some s =>
      show s.init e (mappedState k errno) ≠ none ↔ _
      have hdata (st : OpenState) (id : Nat) : s.initData e st id ≠ none ↔
          (s.hasData → e.mallocData ∨ s.checksData) := by
        unfold ServiceInit.initData
        cases s.hasData <;> cases e.mallocData <;> cases s.checksData <;> simp
      simp only [Option.some.injEq, forall_eq']
      unfold ServiceInit.init
      cases ht : s.takesId with
      | false => simpa using hdata (mappedState k errno) 0
      | true =>
        show (getNextAsidVal k).bind _ ≠ none ↔ _
        cases getNextAsidVal k with
        | none => simp
        | some id => simpa using hdata ((mappedState k errno).takeTaskId id) id
  · obtain ⟨st, hrun, -⟩ := unmapped_open b k errno hm
    rw [hrun]
    exact iff_of_true (Option.some_ne_none _) fun h => absurd h hm

/-- **An open request is all or nothing** exactly for the requests that fit. -/
theorem open_session_iff (b : Build) (e : OpenEnv) (k : Kernel) (errno : Int) :
    AllOrNothing b e k errno ↔ OpenFits b e k errno := by
  by_cases hm : Maps e
  · have hfits : OpenFits b e k errno ↔ (serviceOf b e.svcId).elim
        ((serviceOf b e.svcIdLater).isSome → !e.configData ∧ apiAnswer errno ≠ smcSuccess)
        fun s => ServiceFits e k s (serviceOf b e.svcIdLater).isSome := by
      constructor
      · rintro ⟨-, -, -, -, -, h⟩
        cases hs : serviceOf b e.svcId with
        | none => rwa [hs] at h
        | some s => rwa [hs] at h
      · intro h
        refine ⟨hm.cmd, hm.len, hm.resp, hm.req, hm.svc, ?_⟩
        cases hs : serviceOf b e.svcId with
        | none => rwa [hs] at h
        | some s => rwa [hs] at h
    rw [hfits]
    cases hs : serviceOf b e.svcId with
    | none => exact unknown_iff hm hs
    | some s => exact service_iff hm hs
  · refine iff_of_false (not_allOrNothing_of_not_maps hm) ?_
    rintro ⟨h1, h2, h3, h4, h5, -⟩
    exact hm ⟨h1, h2, h3, h4, h5⟩

/-- a request for the echo service whose command cannot be mapped -/
def unmappedRequest : OpenEnv where
  mapCmd := false
  respBufLen := 4
  mapResp := true
  mapReq := true
  svcId := 2
  svcIdLater := 2
  entryPoint := 0x10000
  configData := false
  mallocData := true
  denied := false
  otherInstance := false
  mallocTask := some 1
  freshSp := false
  allocTls := some 0x20000
  reserveTls := true
  mapTls := true
  mapErrno := 0
  allocStack := some 0x30000
  allocHeap := true

/-- the result starts with 0, and the request is answered with success -/
theorem open_unmapped :
    ¬ AllOrNothing ⟨true, true, true, true, true, true, true⟩ unmappedRequest newKernel 0 := by
  rintro ⟨st, answer, hrun, htold, -, -⟩
  cases hrun
  obtain ⟨s, t, x, -, -, -, hr, -⟩ := htold.mp rfl
  cases hr

end Session
end SierraTee
