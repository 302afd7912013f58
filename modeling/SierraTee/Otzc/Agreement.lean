import SierraTee.Otzc.Sessions

/-!
# The driver and the secure world agree on the open sessions (`otz_client_main.c`)

* `sessions_agree_iff`, `session_lost`.
-/

namespace SierraTee
namespace Otzc
open FlatMemory Keyed Runs

def eFault : Int := -14

/-- `secure` has the ids of the sessions that have been opened in the secure world and not yet been
closed -/
structure Worlds where
  files : List DevFile
  secure : List Word

/-- the word in the response when `create_task` has failed -/
def noSession : Word := 0xFFFFFFFF

/-- an error of `otz_smc_call` -/
abbrev SmcError := { r : Int // r ≠ 0 }

/-- the operations, with the outcomes of `copy_from_user`, `kmalloc`, `otz_smc_call` and
`copy_to_user`.  A call to open a session that is answered with 0 has the word of the response, and
whether the secure world has opened a session of this id: if a mapping fails there, it answers 0 and
writes no word.  `closes` says whether a call closes the session in the secure world. -/
inductive SessionOp where
  | newFile (dev : Word)
  | serviceInit (dev svc : Word) (alloc : Bool)
  | sessionOpen (dev svc : Word) (copyIn alloc : Bool) (call : Except SmcError (Word × Bool))
    (copyOut : Bool)
  | sessionClose (i : SessionIds) (copyIn closes : Bool)
  | deviceClose (dev : Word) (closes : Nat → Bool)

def modifyService (dev svc : Word) (g : Service → Service) (files : List DevFile) : List DevFile :=
  modify (fun f => f.devFileId = dev) (fun f =>
    { f with servicesList := modify (fun v => v.serviceId = svc) g f.servicesList }) files

def Service.ids (v : Service) : List Word := v.sessionsList.map Session.sessionId

def DevFile.sessionIds (f : DevFile) : List Word := f.servicesList.flatMap Service.ids

def driverSessions (files : List DevFile) : List Word := files.flatMap DevFile.sessionIds

/-- sessions closed one after the other, the first of them with the `n`-th call -/
def closeAll (closes : Nat → Bool) : Nat → List Word → List Word → List Word
  | _, [], secure => secure
  | n, id :: ids, secure => closeAll closes (n + 1) ids (if closes n then secure.erase id else secure)

namespace Worlds
variable (s : Worlds)

/-- the part of `otz_client_open` that makes the file -/
def newFile (dev : Word) : Worlds := { s with files := ⟨dev, []⟩ :: s.files }

/-- `otz_client_service_init`; without memory all services of the file are freed -/
def otzClientServiceInit (dev svc : Word) (alloc : Bool) : Worlds × Int :=
  if alloc then
    ({ s with files := modify (fun f => f.devFileId = dev) (fun f =>
        { f with servicesList := ⟨svc, []⟩ :: f.servicesList }) s.files }, 0)
  else
    ({ s with files := modify (fun f => f.devFileId = dev) (fun f =>
        { f with servicesList := [] }) s.files }, eNomem)

def sessionOpened (dev svc id : Word) (opens copyOut : Bool) : Worlds × Int :=
  let s := if opens then { s with secure := id :: s.secure } else s
  if id = noSession then (s, eInval)
  else
    if copyOut then
      ({ s with files := modifyService dev svc (fun v =>
          { v with sessionsList := v.sessionsList ++ [⟨id, []⟩] }) s.files }, 0)
    else (s, eFault)

def otzClientSessionOpen (dev svc : Word) (copyIn alloc : Bool)
    (call : Except SmcError (Word × Bool)) (copyOut : Bool) : Worlds × Int :=
  if !copyIn then (s, eFault)
  else if (findService dev svc s.files).isNone then (s, eInval)
  else if !alloc then (s, eNomem)
  else match call with
    | .error r => (s, r.val)
    | .ok r => s.sessionOpened dev svc r.1 r.2 copyOut

/-- `otz_client_close_session_for_service`; the result of the call is not looked at -/
def closeSession (i : SessionIds) (closes : Bool) : Worlds where
  files := modifyService i.devFileId i.serviceId (fun v =>
    { v with sessionsList := v.sessionsList.eraseP fun z => z.sessionId = i.sessionId }) s.files
  secure := if closes then s.secure.erase i.sessionId else s.secure

def otzClientSessionClose (i : SessionIds) (copyIn closes : Bool) : Worlds × Int :=
  if !copyIn then (s, eFault)
  else if (findSession i s.files).isSome then (s.closeSession i closes, 0)
  else (s, 0)

def otzClientServiceExit (dev : Word) (closes : Nat → Bool) : Worlds × Int :=
  match s.files.find? fun f => f.devFileId = dev with
  | none => (s, 0)
  | some f => (⟨s.files.eraseP fun f => f.devFileId = dev, closeAll closes 0 f.sessionIds s.secure⟩, 0)

def apply : SessionOp → Worlds × Int
  | .newFile dev => (s.newFile dev, 0)
  | .serviceInit dev svc alloc => s.otzClientServiceInit dev svc alloc
  | .sessionOpen dev svc copyIn alloc call copyOut =>
    s.otzClientSessionOpen dev svc copyIn alloc call copyOut
  | .sessionClose i copyIn closes => s.otzClientSessionClose i copyIn closes
  | .deviceClose dev closes => s.otzClientServiceExit dev closes

def step (a : SessionOp) : Option Worlds := some (s.apply a).1

/-- **Both sides have the same sessions.** -/
def Agree : Prop := s.secure.Perm (driverSessions s.files)

end Worlds

/-! ## What a step has to keep -/

def SessionOp.service : SessionOp → Option (Word × Word)
  | .newFile _ => none
  | .serviceInit dev svc _ => some (dev, svc)
  | .sessionOpen dev svc .. => some (dev, svc)
  | .sessionClose i .. => some (i.devFileId, i.serviceId)
  | .deviceClose .. => none

/-- the services of a file that are not `t`, with their sessions -/
def DevFile.others (f : DevFile) (t : Option (Word × Word)) : Word × List Service :=
  (f.devFileId, f.servicesList.filter fun v => some (f.devFileId, v.serviceId) ≠ t)

/-- the two sides agree after the step, and a failure has left other services alone -/
def StepOk (s : Worlds) (a : SessionOp) : Prop :=
  (s.apply a).1.Agree ∧ ((s.apply a).2 ≠ 0 →
    (s.apply a).1.files.map (fun f => f.others a.service)
      = s.files.map fun f => f.others a.service)

/-- no session is lost or made up: a service that cannot be made is the only one of its file and has no
session; a session has been opened exactly if the word is one and is copied to the client; a session
that is found is closed, and so are all of a file -/
def SessionFits (s : Worlds) : SessionOp → Prop
  | .newFile _ => True
  | .serviceInit dev svc alloc => alloc = false →
    ∀ f, s.files.find? (fun f => f.devFileId = dev) = some f →
      ∀ v ∈ f.servicesList, v.serviceId = svc ∧ v.sessionsList = []
  | .sessionOpen dev svc copyIn alloc call copyOut => copyIn → (findService dev svc s.files).isSome →
    alloc → ∀ id opens, call = .ok (id, opens) → (opens ↔ id ≠ noSession ∧ copyOut)
  | .sessionClose i copyIn closes => copyIn → (findSession i s.files).isSome → closes
  | .deviceClose dev closes => ∀ f, s.files.find? (fun f => f.devFileId = dev) = some f →
    ∀ n < f.sessionIds.length, closes n

/-! ## The sessions of the driver -/

section
variable {s : Worlds} {files : List DevFile} {dev svc id : Word} {f : DevFile} {v : Service}
  {z : Session} {i : SessionIds} {xs ys : List Word}

variable (xs ys) in
theorem driverSessions_file {g : DevFile → DevFile}
    (hf : files.find? (fun f => f.devFileId = dev) = some f)
    (hg : (xs ++ f.sessionIds).Perm (ys ++ (g f).sessionIds)) :
    (xs ++ driverSessions files).Perm
      (ys ++ driverSessions (modify (fun f => f.devFileId = dev) g files)) := by
  have hc : Changed (fun _ => True) (fun a b : DevFile =>
      (xs ++ a.sessionIds).Perm (ys ++ b.sessionIds)) files
        (modify (fun f => f.devFileId = dev) g files) := modify_changed hf trivial hg
  exact hc.flatMap_perm fun a b _ h => h

variable (xs ys) in
theorem driverSessions_service {g : Service → Service} (h : findService dev svc files = some v)
    (hg : (xs ++ v.ids).Perm (ys ++ (g v).ids)) :
    (xs ++ driverSessions files).Perm (ys ++ driverSessions (modifyService dev svc g files)) := by
  obtain ⟨f, hf, hv⟩ := Option.bind_eq_some_iff.mp h
  have hc : Changed (fun _ => True) (fun a b : Service => (xs ++ a.ids).Perm (ys ++ b.ids))
      f.servicesList (modify (fun v => v.serviceId = svc) g f.servicesList) :=
    modify_changed hv trivial hg
  exact driverSessions_file xs ys hf (hc.flatMap_perm fun a b _ h => h)

theorem findService_of_session (h : findSession i files = some z) : ∃ v,
    findService i.devFileId i.serviceId files = some v ∧
      v.sessionsList.find? (fun z => z.sessionId = i.sessionId) = some z := by
  obtain ⟨f, v, ⟨hf, -⟩, ⟨hv, -⟩, hz, -⟩ := findSession_cases h
  exact ⟨v, Option.bind_eq_some_iff.mpr ⟨f, hf, hv⟩, hz⟩

theorem driverSessions_erase (h : findSession i files = some z) :
    (driverSessions files).Perm (i.sessionId :: driverSessions
      (modifyService i.devFileId i.serviceId (fun v => { v with
        sessionsList := v.sessionsList.eraseP fun z => z.sessionId = i.sessionId }) files)) := by
  obtain ⟨v, hv, hz⟩ := findService_of_session h
  have hid := List.find?_some hz
  have hids := (find_perm_erase hz).map Session.sessionId
  rw [List.map_cons, of_decide_eq_true hid] at hids
  exact driverSessions_service [] [i.sessionId] hv hids

/-! ## Calls that close sessions -/

theorem length_le_closeAll (closes : Nat → Bool) (n : Nat) (ids secure : List Word) :
    secure.length ≤ (closeAll closes n ids secure).length + ids.length := by
  induction ids generalizing n secure with
  | nil => exact Nat.le_refl _
  | cons id ids ih =>
    have h1 := ih (n + 1) (if closes n then secure.erase id else secure)
    have h2 : secure.length ≤ (if closes n then secure.erase id else secure).length + 1 := by
      split_ifs
      · rw [List.length_erase]
        split_ifs <;> omega
      · omega
    unfold closeAll
    rw [List.length_cons]
    omega

theorem closeAll_perm_iff (closes : Nat → Bool) (n : Nat) {ids secure rest : List Word}
    (h : secure.Perm (ids ++ rest)) :
    (closeAll closes n ids secure).Perm rest ↔ ∀ m < ids.length, closes (n + m) := by
  induction ids generalizing n secure with
  | nil =>
    refine iff_of_true h fun m hm => ?_
    exact absurd hm (Nat.not_lt_zero m)
  | cons id ids ih =>
    unfold closeAll
    cases hc : closes n with
    | false =>
      rw [if_neg Bool.false_ne_true]
      constructor
      · intro hp
        have h1 := length_le_closeAll closes (n + 1) ids secure
        have h2 := hp.length_eq
        have h3 := h.length_eq
        rw [List.length_append, List.length_cons] at h3
        omega
      · intro hall
        have h0 := hall 0 (Nat.succ_pos _)
        rw [Nat.add_zero, hc] at h0
        cases h0
    | true =>
      have hrest : (secure.erase id).Perm (ids ++ rest) := by
        have h1 := h.erase id
        rwa [List.cons_append, List.erase_cons_head] at h1
      rw [if_pos rfl, ih (n + 1) hrest]
      constructor
      · intro hall m hm
        cases m with
        | zero => exact hc
        | succ m =>
          have h1 := hall m (Nat.lt_of_succ_lt_succ hm)
          rwa [Nat.succ_add] at h1
      · intro hall m hm
        have h1 := hall (m + 1) (Nat.succ_lt_succ hm)
        rwa [Nat.succ_add]

/-! ## The steps -/

theorem Worlds.Agree.of_perm {s' : Worlds} (h : s.Agree) (hsec : s'.secure = s.secure)
    (hd : (driverSessions s.files).Perm (driverSessions s'.files)) : s'.Agree := by
  unfold Worlds.Agree
  rw [hsec]
  exact h.trans hd

theorem stepOk_of_self {a : SessionOp} (h : s.Agree) (ha : (s.apply a).1 = s) : StepOk s a := by
  unfold StepOk
  rw [ha]
  exact ⟨h, fun _ => rfl⟩

theorem stepOk_of_success {a : SessionOp} (ha : (s.apply a).2 = 0) :
    StepOk s a ↔ (s.apply a).1.Agree :=
  and_iff_left fun h => absurd ha h

theorem newFile_ok (h : s.Agree) (dev : Word) : StepOk s (.newFile dev) := by
  rw [stepOk_of_success rfl]
  exact h.of_perm rfl (List.Perm.refl _)

theorem serviceInit_none (h : s.Agree) (alloc : Bool)
    (hf : s.files.find? (fun f => f.devFileId = dev) = none) :
    StepOk s (.serviceInit dev svc alloc) := by
  refine stepOk_of_self h ?_
  show (s.otzClientServiceInit dev svc alloc).1 = s
  unfold Worlds.otzClientServiceInit
  rw [modify_of_none hf, modify_of_none hf]
  cases alloc <;> rfl

theorem serviceInit_made (h : s.Agree) (hf : s.files.find? (fun f => f.devFileId = dev) = some f) :
    StepOk s (.serviceInit dev svc true) := by
  rw [stepOk_of_success rfl]
  refine h.of_perm rfl ?_
  exact driverSessions_file [] [] hf (List.Perm.refl _)

theorem serviceInit_failed (h : s.Agree)
    (hf : s.files.find? (fun f => f.devFileId = dev) = some f) :
    StepOk s (.serviceInit dev svc false) ↔
      ∀ v ∈ f.servicesList, v.serviceId = svc ∧ v.sessionsList = [] := by
  have hid := List.find?_some hf
  have hdev : f.devFileId = dev := of_decide_eq_true hid
  have hd := driverSessions_file [] f.sessionIds
    (g := fun f => { f with servicesList := [] }) hf (by simp [DevFile.sessionIds])
  have hagree : (s.apply (.serviceInit dev svc false)).1.Agree ↔ f.sessionIds = [] := by
    show s.secure.Perm (driverSessions _) ↔ _
    constructor
    · intro hp
      have h1 := hp.length_eq
      have h2 := (h.trans hd).length_eq
      rw [List.length_append, h1] at h2
      exact List.length_eq_zero_iff.mp (Nat.add_eq_right.mp h2.symm)
    · intro hnil
      rw [hnil] at hd
      exact h.trans hd
  obtain ⟨us, vs, h1, h2⟩ := modify_split (f := fun f : DevFile => { f with servicesList := [] }) hf
  have hothers : (s.apply (.serviceInit dev svc false)).1.files.map
        (fun f => f.others (some (dev, svc))) = s.files.map (fun f => f.others (some (dev, svc))) ↔
      ∀ v ∈ f.servicesList, v.serviceId = svc := by
    show (modify _ _ s.files).map _ = _ ↔ _
    rw [h2, h1, List.map_append, List.map_append, List.map_cons, List.map_cons,
      List.append_cancel_left_eq, List.cons.injEq, and_iff_left rfl]
    unfold DevFile.others
    rw [Prod.mk.injEq, and_iff_right rfl]
    show [] = f.servicesList.filter _ ↔ _
    rw [eq_comm, List.filter_eq_nil_iff]
    simp [hdev]
  have hsplit : StepOk s (.serviceInit dev svc false) ↔
      f.sessionIds = [] ∧ ∀ v ∈ f.servicesList, v.serviceId = svc := by
    unfold StepOk
    rw [hagree]
    refine and_congr_right fun _ => ?_
    rw [← hothers]
    have hret : (s.apply (.serviceInit dev svc false)).2 = eNomem := rfl
    have hne : eNomem ≠ 0 := by decide
    exact ⟨fun hk => hk (by rw [hret]; exact hne), fun hk _ => hk⟩
  rw [hsplit]
  unfold DevFile.sessionIds Service.ids
  rw [List.flatMap_eq_nil_iff]
  constructor
  · intro hv v hmem
    exact ⟨hv.2 v hmem, List.map_eq_nil_iff.mp (hv.1 v hmem)⟩
  · intro hv
    exact ⟨fun v hmem => List.map_eq_nil_iff.mpr (hv v hmem).2, fun v hmem => (hv v hmem).1⟩

theorem serviceInit_iff (h : s.Agree) (alloc : Bool) :
    StepOk s (.serviceInit dev svc alloc) ↔ SessionFits s (.serviceInit dev svc alloc) := by
  cases hf : s.files.find? (fun f => f.devFileId = dev) with
  | none =>
    refine iff_of_true (serviceInit_none h alloc hf) fun _ f hf' => ?_
    rw [hf] at hf'
    cases hf'
  | some f =>
    cases alloc with
    | true => exact iff_of_true (serviceInit_made h hf) fun h => absurd h.symm Bool.false_ne_true
    | false =>
      rw [serviceInit_failed h hf]
      constructor
      · intro hv _ f' hf'
        rw [hf] at hf'
        cases hf'
        exact hv
      · intro hv
        exact hv rfl f hf

theorem sessionOpened_iff (h : s.Agree) (hv : findService dev svc s.files = some v)
    (opens copyOut : Bool) : StepOk s (.sessionOpen dev svc true true (.ok (id, opens)) copyOut) ↔
      (opens ↔ id ≠ noSession ∧ copyOut) := by
  have hrun : s.apply (.sessionOpen dev svc true true (.ok (id, opens)) copyOut)
      = s.sessionOpened dev svc id opens copyOut := by
    show s.otzClientSessionOpen dev svc true true (.ok (id, opens)) copyOut = _
    unfold Worlds.otzClientSessionOpen
    rw [hv]
    rfl
  have hkept (hno : ¬ (id ≠ noSession ∧ copyOut = true)) :
      (s.sessionOpened dev svc id opens copyOut).1
        = if opens then { s with secure := id :: s.secure } else s := by
    unfold Worlds.sessionOpened
    by_cases hid : id = noSession
    · rw [if_pos hid]
    · rw [if_neg hid, if_neg fun hc => hno ⟨hid, hc⟩]
  have hlength {n : Nat} (hp : n = (driverSessions s.files).length) : n = s.secure.length :=
    hp.trans h.length_eq.symm
  by_cases hyes : id ≠ noSession ∧ copyOut = true
  · have hdriver := driverSessions_service [id] [] (g := fun v =>
        { v with sessionsList := v.sessionsList ++ [⟨id, []⟩] }) hv (by
      show (id :: v.sessionsList.map _).Perm ((v.sessionsList ++ [_]).map _)
      rw [List.map_append]
      exact (List.perm_append_singleton id _).symm)
    have hopened : s.sessionOpened dev svc id opens copyOut
        = ({ (if opens then { s with secure := id :: s.secure } else s) with
            files := modifyService dev svc (fun v =>
              { v with sessionsList := v.sessionsList ++ [⟨id, []⟩] }) s.files }, 0) := by
      unfold Worlds.sessionOpened
      rw [if_neg hyes.1, if_pos hyes.2]
      cases opens <;> rfl
    rw [stepOk_of_success (by rw [hrun, hopened]), hrun, hopened]
    cases opens with
    | true => exact iff_of_true ((h.cons id).trans hdriver) (iff_of_true rfl hyes)
    | false =>
      refine iff_of_false (fun hagree => ?_) fun hf => Bool.false_ne_true (hf.mpr hyes)
      have h1 : s.secure.length = _ := hagree.length_eq
      have h2 := hdriver.length_eq
      rw [List.nil_append, ← h1] at h2
      exact Nat.succ_ne_self _ (h2.trans h.length_eq)
  · cases opens with
    | true =>
      refine iff_of_false (fun hok => ?_) fun hf => hyes (hf.mp rfl)
      have hagree := hok.1
      rw [hrun, hkept hyes] at hagree
      have h1 : (id :: s.secure).length = (driverSessions s.files).length := hagree.length_eq
      exact Nat.succ_ne_self _ (hlength h1)
    | false =>
      refine iff_of_true (stepOk_of_self h ?_) (iff_of_false Bool.false_ne_true hyes)
      rw [hrun, hkept hyes]
      rfl

theorem sessionOpen_iff (h : s.Agree) (copyIn alloc : Bool) (call : Except SmcError (Word × Bool))
    (copyOut : Bool) : StepOk s (.sessionOpen dev svc copyIn alloc call copyOut) ↔
      SessionFits s (.sessionOpen dev svc copyIn alloc call copyOut) := by
  cases copyIn with
  | false => exact iff_of_true (stepOk_of_self h rfl) fun h => absurd h Bool.false_ne_true
  | true =>
    cases hv : findService dev svc s.files with
    | none =>
      refine iff_of_true (stepOk_of_self h ?_) fun _ hsome => ?_
      · show (s.otzClientSessionOpen ..).1 = s
        unfold Worlds.otzClientSessionOpen
        rw [hv]
        rfl
      · rw [hv] at hsome
        cases hsome
    | some v =>
      have hrun (call : Except SmcError (Word × Bool)) :
          s.otzClientSessionOpen dev svc true alloc call copyOut = if !alloc then (s, eNomem)
            else match call with
              | .error r => (s, r.val)
              | .ok r => s.sessionOpened dev svc r.1 r.2 copyOut := by
        unfold Worlds.otzClientSessionOpen
        rw [hv]
        rfl
      cases alloc with
      | false =>
        refine iff_of_true (stepOk_of_self h ?_) fun _ _ h => absurd h Bool.false_ne_true
        show (s.otzClientSessionOpen ..).1 = s
        rw [hrun]
        rfl
      | true =>
        cases call with
        | error r =>
          refine iff_of_true (stepOk_of_self h ?_) fun _ _ _ id opens hid => ?_
          · show (s.otzClientSessionOpen ..).1 = s
            rw [hrun]
            rfl
          · cases hid
        | ok r =>
          obtain ⟨id, opens⟩ := r
          rw [sessionOpened_iff h hv]
          constructor
          · intro hiff _ _ _ id' opens' hcall
            cases hcall
            exact hiff
          · intro hfits
            refine hfits rfl ?_ rfl id opens rfl
            rw [hv]
            rfl

theorem sessionClose_iff (h : s.Agree) (copyIn closes : Bool) :
    StepOk s (.sessionClose i copyIn closes) ↔ SessionFits s (.sessionClose i copyIn closes) := by
  cases copyIn with
  | false => exact iff_of_true (stepOk_of_self h rfl) fun h => absurd h Bool.false_ne_true
  | true =>
    cases hz : findSession i s.files with
    | none =>
      refine iff_of_true (stepOk_of_self h ?_) fun _ hsome => ?_
      · show (s.otzClientSessionClose ..).1 = s
        unfold Worlds.otzClientSessionClose
        rw [hz]
        rfl
      · rw [hz] at hsome
        cases hsome
    | some z =>
      have hrun : s.apply (.sessionClose i true closes) = (s.closeSession i closes, 0) := by
        show s.otzClientSessionClose i true closes = _
        unfold Worlds.otzClientSessionClose
        rw [hz]
        rfl
      have hd := driverSessions_erase hz
      have hok : StepOk s (.sessionClose i true closes) ↔ closes := by
        rw [stepOk_of_success (by rw [hrun]), hrun]
        cases closes with
        | true =>
          refine iff_of_true ?_ rfl
          have h1 := (h.trans hd).erase i.sessionId
          rwa [List.erase_cons_head] at h1
        | false =>
          refine iff_of_false (fun hagree => ?_) Bool.false_ne_true
          have h1 := (hagree.symm.trans (h.trans hd)).length_eq
          rw [List.length_cons] at h1
          exact Nat.succ_ne_self _ h1.symm
      rw [hok]
      constructor
      · intro hc _ _
        exact hc
      · intro hfits
        refine hfits rfl ?_
        rw [hz]
        rfl

theorem deviceClose_iff (h : s.Agree) (closes : Nat → Bool) :
    StepOk s (.deviceClose dev closes) ↔ SessionFits s (.deviceClose dev closes) := by
  cases hf : s.files.find? (fun f => f.devFileId = dev) with
  | none =>
    refine iff_of_true (stepOk_of_self h ?_) fun f hf' => ?_
    · show (s.otzClientServiceExit dev closes).1 = s
      unfold Worlds.otzClientServiceExit
      rw [hf]
    · rw [hf] at hf'
      cases hf'
  | some f =>
    have hrun : s.apply (.deviceClose dev closes) =
        (⟨s.files.eraseP fun f => f.devFileId = dev, closeAll closes 0 f.sessionIds s.secure⟩, 0) := by
      show s.otzClientServiceExit dev closes = _
      unfold Worlds.otzClientServiceExit
      rw [hf]
    have hd : s.secure.Perm (f.sessionIds ++
        driverSessions (s.files.eraseP fun f => f.devFileId = dev)) :=
      h.trans ((find_perm_erase hf).flatMap_right DevFile.sessionIds)
    have hok := closeAll_perm_iff closes 0 hd
    simp only [Nat.zero_add] at hok
    rw [stepOk_of_success (by rw [hrun]), hrun]
    refine Iff.trans hok ?_
    constructor
    · intro hall f' hf'
      rw [hf] at hf'
      cases hf'
      exact hall
    · intro hfits
      exact hfits f hf

theorem stepOk_iff (h : s.Agree) (a : SessionOp) : StepOk s a ↔ SessionFits s a := by
  cases a with
  | newFile dev => exact iff_of_true (newFile_ok h dev) trivial
  | serviceInit dev svc alloc => exact serviceInit_iff h alloc
  | sessionOpen dev svc copyIn alloc call copyOut => exact sessionOpen_iff h copyIn alloc call copyOut
  | sessionClose i copyIn closes => exact sessionClose_iff h copyIn closes
  | deviceClose dev closes => exact deviceClose_iff h closes

end

/-- **The driver and the secure world agree on the open sessions** along a run exactly if every step
of it fits. -/
theorem sessions_agree_iff {s : Worlds} (h : s.Agree) (ops : List SessionOp) :
    Along Worlds.step StepOk s ops ↔ Along Worlds.step SessionFits s ops := by
  refine along_iff Worlds.Agree ?_ (fun s a hs => stepOk_iff hs a) h ops
  intro s a s' _ hok hs
  cases hs
  exact hok.1

/-! ## Runs -/

/-- a session of the echo service is opened and closed with its file -/
theorem sessions_agree_echo : Along Worlds.step StepOk ⟨[], []⟩
    [.newFile 1, .serviceInit 1 2 true, .sessionOpen 1 2 true true (.ok (0x12, true)) true,
      .deviceClose 1 fun _ => true] := by
  refine (sessions_agree_iff (s := ⟨[], []⟩) (List.Perm.refl []) _).mpr ?_
  refine ⟨trivial, fun h => ?_, fun _ _ _ id opens h => ?_, fun _ _ _ _ => rfl, trivial⟩
  · cases h
  · cases h
    exact iff_of_true rfl ⟨by decide, rfl⟩

/-- the session id cannot be copied to the client -/
theorem session_lost : ¬ Along Worlds.step StepOk ⟨[], []⟩
    [.newFile 1, .serviceInit 1 2 true, .sessionOpen 1 2 true true (.ok (0x12, true)) false] := by
  rintro ⟨-, -, ⟨hagree, -⟩, -⟩
  have h := hagree.length_eq
  cases h

end Otzc
end SierraTee
