import SierraTee.Api.Client
import SierraTee.Lib.Counting
import SierraTee.Lib.Holdings
import SierraTee.Lib.Keyed
import SierraTee.Params.Encode

/-!
# The encode contexts of a session (`otz_client_main.c`, `otz_api.c`)

The driver makes an encode context in the first encode call of an operation, or in the call that
sends a command without parameters.  The client has to remember its id, since only the release of
an operation that has been answered frees a context with all its blocks.

* `contexts_freed_iff`, `unsent_context_leaks`.
-/

namespace SierraTee
open Function
namespace Otzc
open FlatMemory Holdings Runs Counting
open Api (OtzState OperationType OtzReturn)

/-! ## The contexts in the driver -/

/-- `otzc_encode` with its blocks, which are numbered as they are allocated: the structure itself,
its meta table and its two buffers -/
structure Context where
  encodeId : Word
  block : Nat
  metaBlock : Nat
  kerReqData : Option Nat
  kerResData : Option Nat

def Context.blocks (c : Context) : List Nat :=
  c.block :: c.metaBlock :: (c.kerReqData.toList ++ c.kerResData.toList)

/-- `encode_list` of a session; `uses` is a history of the blocks -/
structure Contexts where
  encodeList : List Context
  uses : List (Use Nat)
  next : Nat

def noContext : Word := 0xFFFFFFFF

/-- the results of `kmalloc` for a context, by its address, and for its meta table -/
structure ContextAlloc where
  context : Option Word
  metaData : Bool

namespace Contexts
variable (d : Contexts)

def ids : List Word := d.encodeList.map Context.encodeId

def kmalloc : Contexts := { d with uses := d.uses ++ [.acquire d.next], next := d.next + 1 }

def kfree (n : Nat) : Contexts := { d with uses := d.uses ++ [.release n] }

def find (id : Word) : Option Context :=
  if id = noContext then none else d.encodeList.find? fun c => c.encodeId = id

/-- `otz_client_prepare_encode`, with the context that it gives.  `none` is an address that is in
use, which the kernel does not give. -/
def prepareEncode (id : Word) (a : ContextAlloc) : Option (Contexts × Option Context) :=
  match d.find id with
  | some c => some (d, some c)
  | none =>
    match a.context with
    | none => some (d, none)
    | some w =>
      if w = noContext ∨ w ∈ d.ids then none
      else if !a.metaData then some (d.kmalloc.kfree d.next, none)
      else
        let c : Context := ⟨w, d.next, d.next + 1, none, none⟩
        some ({ d.kmalloc.kmalloc with encodeList := d.encodeList ++ [c] }, some c)

def modifyContext (id : Word) (f : Context → Context) : Contexts :=
  { d with encodeList := d.encodeList.map fun c => if c.encodeId = id then f c else c }

/-- the buffer of a direction is allocated, unless it is there; `ok` is the result of `kmalloc` -/
def giveBuffer (c : Context) (t : ParamType) (ok : Bool) : Contexts × Bool :=
  match t with
  | .paramIn =>
    if c.kerReqData.isSome then (d, true)
    else if ok then
      (d.kmalloc.modifyContext c.encodeId fun c => { c with kerReqData := some d.next }, true)
    else (d, false)
  | .paramOut =>
    if c.kerResData.isSome then (d, true)
    else if ok then
      (d.kmalloc.modifyContext c.encodeId fun c => { c with kerResData := some d.next }, true)
    else (d, false)
  | .other => (d, true)

end Contexts

/-- the outcomes inside an encode call: the copies of the command, the allocation of a context, the
search for a shared block, the allocation of a buffer, and whether the parameter fits in and its
data can be copied -/
structure EncodeCallIo where
  copyIn : Bool
  alloc : ContextAlloc
  sharedMem : Bool
  kmalloc : Bool
  fits : Bool
  copyOut : Bool

/-- the outcomes inside `otz_client_send_cmd`; `first` says whether the session is the first of its
service, which is the only one that the search looks at -/
structure SendCallIo where
  copyIn : Bool
  first : Bool
  alloc : ContextAlloc
  smc : Int
  copyOut : Bool

namespace Contexts
variable (d : Contexts)

def encodeParam (c : Context) (t : ParamType) (io : EncodeCallIo) : Contexts × Int :=
  if !io.sharedMem then (d, -einval)
  else
    let b := d.giveBuffer c t io.kmalloc
    if !b.2 then (b.1, -enomem)
    else if t ≠ .other ∧ io.fits = false then (b.1, -enomem)
    else if !io.copyOut then (b.1, -efault)
    else (b.1, 0)

def encode (id : Word) (t : ParamType) (io : EncodeCallIo) : Option (Contexts × Int × Word) :=
  if !io.copyIn then some (d, -efault, id)
  else (d.prepareEncode id io.alloc).map fun r =>
    r.2.elim (r.1, -enomem, id) fun c =>
      let e := r.1.encodeParam c t io
      (e.1, e.2, c.encodeId)

def sent (io : SendCallIo) : Int :=
  if io.smc ≠ 0 then io.smc else if !io.copyOut then -efault else 0

/-- `otz_client_send_cmd`; the id of a context that it makes is not given to the caller's operation -/
def sendCmd (id : Word) (io : SendCallIo) : Option (Contexts × Int) :=
  if !io.copyIn then some (d, -efault)
  else if !io.first then some (d, -einval)
  else if id ≠ noContext then
    some (d, (d.find id).elim (-einval) fun _ => sent io)
  else (d.prepareEncode id io.alloc).map fun r =>
    (r.1, r.2.elim (-einval) fun _ => sent io)

/-- `otz_client_operation_release` -/
def operationRelease (id : Word) (copyIn : Bool) : Contexts :=
  if !copyIn then d
  else
    match d.find id with
    | none => d
    | some c =>
      { d with
        encodeList := d.encodeList.eraseP fun c => c.encodeId = id
        uses := d.uses ++ (c.kerReqData.toList ++ c.kerResData.toList
          ++ [c.metaBlock, c.block]).map Use.release }

/-- the part of `otz_client_close_session_for_service` for the contexts: only the structures are
freed -/
def closeSession : Contexts :=
  { d with
    encodeList := []
    uses := d.uses ++ d.encodeList.map fun c => Use.release c.block }

end Contexts

/-! ## The client -/

structure Operation where
  uiState : OtzState
  type : OperationType
  encodeId : Word
  encErrorState : OtzReturn

/-- a session of a client with its operations, and the contexts that the driver keeps for it;
`device` says whether the pointer to the device is set -/
structure Client (O : Type) where
  uiState : OtzState
  operationCount : Int
  device : Bool
  operations : O → Operation
  driver : Contexts

inductive ClientCall (O : Type) where
  | prepareInvoke (o : O)
  | prepareClose (o : O)
  | encode (o : O) (t : ParamType) (io : EncodeCallIo)
  | perform (o : O) (io : SendCallIo) (noSharedMem : Bool)
  | release (o : O) (copyIn : Bool)

namespace Client

section
variable {O : Type} [DecidableEq O] (s : Client O) (o : O)

def setOperation (p : Operation) : Client O :=
  { s with operations := update s.operations o p }

def setState (t : OtzState) : Client O := s.setOperation o { s.operations o with uiState := t }

/-- `otz_operation_prepare_invoke` -/
def prepareInvoke : Client O :=
  if s.uiState ≠ .isOpen then s
  else { s.setOperation o ⟨.encode, .invoke, noContext, .success⟩ with
    operationCount := s.operationCount + 1 }

/-- `otz_operation_prepare_close` -/
def prepareClose : Client O :=
  if s.uiState ≠ .isOpen then s
  else if (s.operations o).uiState ≠ .undefined then s
  else { s.setOperation o { s.operations o with uiState := .performable, type := .close } with
    uiState := .closing
    operationCount := s.operationCount + 1 }

/-- the encode functions, with `check_encode`; `none` is the null pointer to the device of a closed
session -/
def encode (t : ParamType) (io : EncodeCallIo) : Option (Client O) :=
  let p := s.operations o
  if p.uiState ≠ .encode then
    some (s.setOperation o { p with encErrorState := .illegalState })
  else if p.encErrorState ≠ .success then some s
  else if !s.device then none
  else (s.driver.encode p.encodeId t io).map fun r =>
    if r.2.1 ≠ 0 then
      { s.setOperation o { p with encErrorState := .encodeMemory } with driver := r.1 }
    else { s.setOperation o { p with encodeId := r.2.2 } with driver := r.1 }

/-- the part of `otz_operation_perform` for an invoke operation -/
def performInvoke (io : SendCallIo) : Option (Client O) :=
  if !s.device then none
  else (s.driver.sendCmd (s.operations o).encodeId io).map fun r =>
    if r.2 < 0 then { s.setState o .invalid with driver := r.1 }
    else if 0 < r.2 then { s.setState o .decode with driver := r.1 }
    else { s.setState o .decode with
      driver := r.1
      uiState := .isOpen }

def performClose (copyIn noSharedMem : Bool) : Option (Client O) :=
  if s.operationCount = 1 ∧ noSharedMem then
    if !s.device then none
    else if !copyIn then some (s.setState o .invalid)
    else some { s.setState o .invalid with
      uiState := .undefined
      device := false
      driver := s.driver.closeSession }
  else some (s.setState o .running)

/-- `otz_operation_perform` -/
def perform (io : SendCallIo) (noSharedMem : Bool) : Option (Client O) :=
  if (s.operations o).uiState ≠ .encode ∧ (s.operations o).uiState ≠ .performable then some s
  else
    match (s.operations o).type with
    | .close => s.performClose o io.copyIn noSharedMem
    | .invoke => s.performInvoke o io
    | _ => some (s.setState o .running)

def released : Client O :=
  { s.setOperation o { s.operations o with uiState := .undefined, type := .none } with
    operationCount := s.operationCount - 1 }

/-- `otz_operation_release` -/
def release (copyIn : Bool) : Option (Client O) :=
  match (s.operations o).uiState with
  | .encode => some (s.released o)
  | .performable =>
    if (s.operations o).type = .close then some { s.released o with uiState := .isOpen }
    else some (s.released o)
  | .decode =>
    if !s.device then none
    else some { s.released o with
      driver := s.driver.operationRelease (s.operations o).encodeId copyIn }
  | .invalid => some (s.released o)
  | _ => some s

def step : ClientCall O → Option (Client O)
  | .prepareInvoke o => some (s.prepareInvoke o)
  | .prepareClose o => some (s.prepareClose o)
  | .encode o t io => s.encode o t io
  | .perform o io noSharedMem => s.perform o io noSharedMem
  | .release o copyIn => s.release o copyIn

end

/-- the session has just been opened -/
def opened {O : Type} : Client O where
  uiState := .isOpen
  operationCount := 0
  device := true
  operations := fun _ => ⟨.undefined, .none, noContext, .success⟩
  driver := ⟨[], [], 0⟩

end Client

/-! ## The blocks of the driver -/

structure DriverOk (d : Contexts) : Prop where
  stock : Stock d.uses (d.encodeList.flatMap Context.blocks)
  fresh : ∀ n, d.next ≤ n → .acquire n ∉ d.uses
  nodup : d.ids.Nodup
  noId : noContext ∉ d.ids

section
variable {d d' : Contexts} {id w : Word} {a : ContextAlloc} {c : Context} {l : List Nat}

theorem fresh_kmalloc (h : ∀ n, d.next ≤ n → .acquire n ∉ d.uses) :
    ∀ n, d.kmalloc.next ≤ n → .acquire n ∉ d.kmalloc.uses := by
  intro n hn hm
  have hn' : d.next + 1 ≤ n := hn
  rcases List.mem_append.1 hm with hm | hm
  · exact h n (by omega) hm
  · have heq : n = d.next := Use.acquire.inj (List.mem_singleton.1 hm)
    omega

theorem stock_kmalloc (h : Stock d.uses l) (hf : ∀ n, d.next ≤ n → .acquire n ∉ d.uses) :
    Stock d.kmalloc.uses (d.next :: l) := h.acquire (hf d.next (Nat.le_refl _))

theorem fresh_releases (h : ∀ n, d.next ≤ n → .acquire n ∉ d.uses) (rs : List Nat) :
    ∀ n, d.next ≤ n → .acquire n ∉ d.uses ++ rs.map Use.release := by
  intro n hn hm
  rcases List.mem_append.1 hm with hm | hm
  · exact h n hn hm
  · obtain ⟨r, -, hr⟩ := List.mem_map.1 hm
    cases hr

theorem find_some (h : d.find id = some c) :
    c ∈ d.encodeList ∧ c.encodeId = id ∧ id ≠ noContext := by
  unfold Contexts.find at h
  split at h
  · cases h
  · next hne => exact ⟨List.mem_of_find?_eq_some h, by simpa using List.find?_some h, hne⟩

theorem mem_ids (h : c ∈ d.encodeList) : c.encodeId ∈ d.ids := List.mem_map_of_mem h

theorem find_of_mem (hok : DriverOk d) (h : id ∈ d.ids) : ∃ c, d.find id = some c := by
  obtain ⟨c, hc, rfl⟩ := List.mem_map.1 h
  have hne : c.encodeId ≠ noContext := fun e => hok.noId (e ▸ h)
  unfold Contexts.find
  rw [if_neg hne]
  exact Option.isSome_iff_exists.1 (List.find?_isSome.2 ⟨c, hc, decide_eq_true rfl⟩)

inductive Prepared (d : Contexts) (id : Word) (a : ContextAlloc) : Contexts → Option Context → Prop
  where
  | found {c : Context} (h : d.find id = some c) : Prepared d id a d (some c)
  | failed {d' : Contexts} (h : d.find id = none) (hlist : d'.encodeList = d.encodeList)
      (ha : a.context = none ∨ a.metaData = false) : Prepared d id a d' none
  | made {d' : Contexts} {c : Context} (h : d.find id = none) (hnew : c.encodeId ∉ d.ids)
      (hid : c.encodeId ≠ noContext) (hlist : d'.encodeList = d.encodeList ++ [c])
      (hreq : c.kerReqData = none) (hres : c.kerResData = none)
      (ha : a.context ≠ none ∧ a.metaData = true) : Prepared d id a d' (some c)

theorem prepareEncode_ok {r : Contexts × Option Context} (hok : DriverOk d)
    (h : d.prepareEncode id a = some r) : DriverOk r.1 ∧ Prepared d id a r.1 r.2 := by
  unfold Contexts.prepareEncode at h
  cases hf : d.find id with
  | some c =>
    rw [hf] at h
    cases h
    exact ⟨hok, .found hf⟩
  | none =>
    rw [hf] at h
    cases hw : a.context with
    | none =>
      rw [hw] at h
      cases h
      exact ⟨hok, .failed hf rfl (Or.inl hw)⟩
    | some w =>
      rw [hw] at h
      dsimp only at h
      split_ifs at h with h1 h2
      · cases h
        have hs := stock_kmalloc hok.stock hok.fresh
        refine ⟨⟨hs.release, ?_, hok.nodup, hok.noId⟩, .failed hf rfl (Or.inr (by simpa using h2))⟩
        exact fresh_releases (fresh_kmalloc hok.fresh) [d.next]
      · cases h
        obtain ⟨hid, hnew⟩ := not_or.1 h1
        have hs := stock_kmalloc (stock_kmalloc hok.stock hok.fresh) (fresh_kmalloc hok.fresh)
        refine ⟨⟨?_, fresh_kmalloc (fresh_kmalloc hok.fresh), ?_, ?_⟩,
          .made hf hnew hid rfl rfl rfl ⟨by rw [hw]; exact Option.some_ne_none w, by simpa using h2⟩⟩
        · refine hs.perm ?_
          show List.Perm _ ((d.encodeList ++ [_]).flatMap Context.blocks)
          rw [List.flatMap_append]
          refine List.Perm.trans ?_ (List.perm_append_comm)
          exact List.Perm.swap _ _ _
        · show ((d.encodeList ++ [_]).map Context.encodeId).Nodup
          rw [List.map_append]
          refine List.nodup_append.2 ⟨hok.nodup, List.nodup_singleton _, ?_⟩
          intro x hx y hy hxy
          obtain rfl := List.mem_singleton.1 hy
          exact hnew (hxy ▸ hx)
        · show noContext ∉ (d.encodeList ++ [_]).map Context.encodeId
          rw [List.map_append]
          intro hm
          rcases List.mem_append.1 hm with hm | hm
          · exact hok.noId hm
          · exact hid (List.mem_singleton.1 hm).symm

theorem modify_blocks {cs : List Context} {f : Context → Context} {n : Nat}
    (hnd : (cs.map Context.encodeId).Nodup) (hc : c ∈ cs)
    (hf : ((f c).blocks).Perm (n :: c.blocks)) :
    (n :: cs.flatMap Context.blocks).Perm
      ((cs.map fun x => if x.encodeId = c.encodeId then f x else x).flatMap Context.blocks) := by
  induction cs with
  | nil => cases hc
  | cons x cs ih =>
    obtain ⟨hx, hnd'⟩ := List.nodup_cons.1 hnd
    rw [List.map_cons, List.flatMap_cons, List.flatMap_cons]
    by_cases hxc : x.encodeId = c.encodeId
    · have hcx : c = x := by
        rcases List.mem_cons.1 hc with h | h
        · exact h
        · exact absurd (List.mem_map.2 ⟨c, h, hxc.symm⟩) hx
      have hrest : (cs.map fun x => if x.encodeId = c.encodeId then f x else x) = cs := by
        refine (List.map_congr_left fun y hy => ?_).trans (List.map_id cs)
        refine if_neg fun hyc => hx ?_
        rw [hxc, ← hyc]
        exact List.mem_map_of_mem hy
      rw [hrest, if_pos hxc, ← hcx]
      exact (hf.append_right _).symm
    · have hcs : c ∈ cs := by
        rcases List.mem_cons.1 hc with h | h
        · exact absurd (congrArg Context.encodeId h).symm hxc
        · exact h
      rw [if_neg hxc]
      refine List.Perm.trans ?_ ((ih hnd' hcs).append_left _)
      exact List.perm_middle.symm

theorem modifyContext_ids {f : Context → Context} (hf : ∀ x, (f x).encodeId = x.encodeId) :
    (d.modifyContext id f).ids = d.ids := by
  show ((d.encodeList.map _).map Context.encodeId) = d.encodeList.map Context.encodeId
  rw [List.map_map]
  refine List.map_congr_left fun x _ => ?_
  show (if x.encodeId = id then f x else x).encodeId = x.encodeId
  split
  · exact hf x
  · rfl

theorem newBuffer_ok (hok : DriverOk d) (hc : c ∈ d.encodeList) {f : Context → Context}
    (hid : ∀ x, (f x).encodeId = x.encodeId) (hf : ((f c).blocks).Perm (d.next :: c.blocks)) :
    DriverOk (d.kmalloc.modifyContext c.encodeId f) ∧
      (d.kmalloc.modifyContext c.encodeId f).ids = d.ids := by
  have hids : (d.kmalloc.modifyContext c.encodeId f).ids = d.ids := modifyContext_ids hid
  refine ⟨⟨?_, fresh_kmalloc hok.fresh, ?_, ?_⟩, hids⟩
  · exact (stock_kmalloc hok.stock hok.fresh).perm (modify_blocks hok.nodup hc hf)
  · rw [hids]
    exact hok.nodup
  · rw [hids]
    exact hok.noId

theorem giveBuffer_ok (hok : DriverOk d) (hc : c ∈ d.encodeList) (t : ParamType) (ok : Bool) :
    DriverOk (d.giveBuffer c t ok).1 ∧ (d.giveBuffer c t ok).1.ids = d.ids := by
  unfold Contexts.giveBuffer
  cases t with
  | paramIn =>
    dsimp only
    split_ifs with h1 h2
    · exact ⟨hok, rfl⟩
    · refine newBuffer_ok hok hc (fun _ => rfl) ?_
      have hnone : c.kerReqData = none := by simpa using h1
      unfold Context.blocks
      rw [hnone]
      exact (List.Perm.swap _ _ _).cons _ |>.trans (List.Perm.swap _ _ _)
    · exact ⟨hok, rfl⟩
  | paramOut =>
    dsimp only
    split_ifs with h1 h2
    · exact ⟨hok, rfl⟩
    · refine newBuffer_ok hok hc (fun _ => rfl) ?_
      have hnone : c.kerResData = none := by simpa using h1
      unfold Context.blocks
      rw [hnone]
      show List.Perm (c.block :: c.metaBlock :: (c.kerReqData.toList ++ [d.next])) _
      rw [Option.toList_none, List.append_nil, ← List.cons_append, ← List.cons_append]
      exact List.perm_append_comm
    · exact ⟨hok, rfl⟩
  | other => exact ⟨hok, rfl⟩

inductive Encoded (d : Contexts) (id : Word) (t : ParamType) (io : EncodeCallIo) :
    Contexts → Int → Word → Prop where
  | kept {d' : Contexts} {ret : Int} {id' : Word} (hids : d'.ids = d.ids)
      (hid : ret = 0 → id' = id ∧ id ∈ d.ids)
      (hno : id = noContext → ¬ (io.copyIn = true ∧ io.alloc.context ≠ none ∧
        io.alloc.metaData = true)) : Encoded d id t io d' ret id'
  | made {d' : Contexts} {ret : Int} {id' : Word} (hfind : d.find id = none)
      (hin : io.copyIn = true ∧ io.alloc.context ≠ none ∧ io.alloc.metaData = true)
      (hids : d'.ids = d.ids ++ [id']) (hnew : id' ∉ d.ids) (hid : id' ≠ noContext)
      (hret : ret = 0 ↔ io.sharedMem = true ∧ (t ≠ .other → io.kmalloc = true ∧ io.fits = true) ∧
        io.copyOut = true) : Encoded d id t io d' ret id'

theorem giveBuffer_new (hreq : c.kerReqData = none) (hres : c.kerResData = none) (t : ParamType)
    (ok : Bool) : (d.giveBuffer c t ok).2 = true ↔ (t ≠ .other → ok = true) := by
  unfold Contexts.giveBuffer
  rw [hreq, hres]
  cases t <;> cases ok <;> simp

theorem encodeParam_ok (hok : DriverOk d) (hc : c ∈ d.encodeList) (t : ParamType)
    (io : EncodeCallIo) :
    DriverOk (d.encodeParam c t io).1 ∧ (d.encodeParam c t io).1.ids = d.ids := by
  have hb := giveBuffer_ok hok hc t io.kmalloc
  unfold Contexts.encodeParam
  split
  · exact ⟨hok, rfl⟩
  dsimp only
  split_ifs
  · exact hb
  · exact hb
  · exact hb
  · exact hb

theorem encodeParam_ret (hreq : c.kerReqData = none) (hres : c.kerResData = none) (t : ParamType)
    (io : EncodeCallIo) : (d.encodeParam c t io).2 = 0 ↔
      io.sharedMem = true ∧ (t ≠ .other → io.kmalloc = true ∧ io.fits = true) ∧
        io.copyOut = true := by
  have he1 : (-einval : Int) ≠ 0 := by decide
  have he2 : (-enomem : Int) ≠ 0 := by decide
  have he3 : (-efault : Int) ≠ 0 := by decide
  have hb := giveBuffer_new (d := d) hreq hres t io.kmalloc
  unfold Contexts.encodeParam
  cases h1 : io.sharedMem
  · rw [if_pos Bool.not_false]
    exact iff_of_false he1 fun h => absurd h.1 (by decide)
  rw [if_neg (by decide)]
  dsimp only
  by_cases h2 : (d.giveBuffer c t io.kmalloc).2 = true
  · rw [if_neg (by rw [h2]; decide)]
    have hk := hb.1 h2
    by_cases h3 : t ≠ .other ∧ io.fits = false
    · rw [if_pos h3]
      exact iff_of_false he2 fun h => absurd ((h.2.1 h3.1).2.symm.trans h3.2) (by decide)
    · rw [if_neg h3]
      have hf : t ≠ .other → io.fits = true := fun ht => by
        cases hfit : io.fits with
        | true => rfl
        | false => exact absurd ⟨ht, hfit⟩ h3
      cases h4 : io.copyOut
      · rw [if_pos Bool.not_false]
        exact iff_of_false he3 fun h => absurd h.2.2 (by decide)
      · rw [if_neg (by decide)]
        exact iff_of_true rfl ⟨rfl, fun ht => ⟨hk ht, hf ht⟩, rfl⟩
  · rw [if_pos (by simpa using h2)]
    exact iff_of_false he2 fun h => h2 (hb.2 fun ht => (h.2.1 ht).1)

theorem encode_ok {t : ParamType} {io : EncodeCallIo} {r : Contexts × Int × Word}
    (hok : DriverOk d) (h : d.encode id t io = some r) :
    DriverOk r.1 ∧ Encoded d id t io r.1 r.2.1 r.2.2 := by
  unfold Contexts.encode at h
  cases hin : io.copyIn with
  | false =>
    rw [hin, if_pos Bool.not_false] at h
    cases h
    refine ⟨hok, .kept rfl (fun h0 => absurd h0 (show ¬ (-efault : Int) = 0 by decide)) fun _ h' => ?_⟩
    exact absurd (hin.symm.trans h'.1) (by decide)
  | true =>
    rw [hin, if_neg (by decide)] at h
    obtain ⟨q, hq, rfl⟩ := Option.map_eq_some_iff.1 h
    obtain ⟨hok1, hprep⟩ := prepareEncode_ok hok hq
    obtain ⟨d1, o1⟩ := q
    cases hprep with
    | found hf =>
      obtain ⟨hmem, hid, hne⟩ := find_some hf
      have he := encodeParam_ok hok hmem t io
      exact ⟨he.1, .kept he.2 (fun _ => ⟨hid, hid ▸ mem_ids hmem⟩) fun h0 => absurd h0 hne⟩
    | failed hf hlist ha =>
      refine ⟨hok1, .kept (congrArg (List.map Context.encodeId) hlist)
        (fun h0 => absurd h0 (show ¬ (-enomem : Int) = 0 by decide)) fun _ h' => ?_⟩
      rcases ha with ha | ha
      · exact h'.2.1 ha
      · exact absurd (h'.2.2.symm.trans ha) (by decide)
    | made hf hnew hid hlist hreq hres ha =>
      rename_i c
      have hmem : c ∈ d1.encodeList := by
        rw [show d1.encodeList = _ from hlist]
        exact List.mem_append_right _ (List.mem_singleton_self c)
      have he := encodeParam_ok hok1 hmem t io
      refine ⟨he.1, .made hf ⟨hin, ha⟩ ?_ hnew hid (encodeParam_ret hreq hres t io)⟩
      have hids : d1.ids = d.ids ++ [c.encodeId] := by
        show d1.encodeList.map _ = _
        rw [show d1.encodeList = _ from hlist, List.map_append]
        rfl
      exact he.2.trans hids

inductive SentTo (d : Contexts) (id : Word) (io : SendCallIo) : Contexts → Int → Prop where
  | kept {d' : Contexts} {ret : Int} (hids : d'.ids = d.ids)
      (hno : id = noContext → ¬ (io.copyIn = true ∧ io.first = true ∧ io.alloc.context ≠ none ∧
        io.alloc.metaData = true))
      (hret : id ∈ d.ids → (0 ≤ ret ↔ io.copyIn = true ∧ io.first = true ∧ 0 ≤ io.smc ∧
        (io.smc = 0 → io.copyOut = true))) : SentTo d id io d' ret
  | made {d' : Contexts} {ret : Int} {w : Word} (hid : id = noContext)
      (hin : io.copyIn = true ∧ io.first = true ∧ io.alloc.context ≠ none ∧
        io.alloc.metaData = true)
      (hids : d'.ids = d.ids ++ [w]) (hnew : w ∉ d.ids) (hw : w ≠ noContext) :
      SentTo d id io d' ret

theorem sent_nonneg (io : SendCallIo) :
    0 ≤ Contexts.sent io ↔ 0 ≤ io.smc ∧ (io.smc = 0 → io.copyOut = true) := by
  unfold Contexts.sent
  have hf : ¬ (0 : Int) ≤ -efault := by decide
  by_cases h1 : io.smc ≠ 0
  · rw [if_pos h1]
    exact ⟨fun h => ⟨h, fun h0 => absurd h0 h1⟩, fun h => h.1⟩
  · rw [if_neg h1]
    have h0 := not_not.1 h1
    cases hc : io.copyOut
    · rw [if_pos Bool.not_false]
      exact iff_of_false hf fun h => absurd (h.2 h0) (by decide)
    · rw [if_neg (by decide)]
      exact iff_of_true (Int.le_refl 0) ⟨h0.ge, fun _ => rfl⟩

theorem sendCmd_ok {io : SendCallIo} {r : Contexts × Int} (hok : DriverOk d)
    (h : d.sendCmd id io = some r) : DriverOk r.1 ∧ SentTo d id io r.1 r.2 := by
  have hinval : ¬ (0 : Int) ≤ -einval := by decide
  have hfault : ¬ (0 : Int) ≤ -efault := by decide
  unfold Contexts.sendCmd at h
  cases hin : io.copyIn with
  | false =>
    rw [hin, if_pos Bool.not_false] at h
    cases h
    refine ⟨hok, .kept rfl (fun _ h' => ?_) fun _ => iff_of_false hfault fun h' => ?_⟩
    · exact absurd (hin.symm.trans h'.1) (by decide)
    · exact absurd (hin.symm.trans h'.1) (by decide)
  | true =>
    rw [hin, if_neg (by decide)] at h
    cases hfirst : io.first with
    | false =>
      rw [hfirst, if_pos Bool.not_false] at h
      cases h
      refine ⟨hok, .kept rfl (fun _ h' => ?_) fun _ => iff_of_false hinval fun h' => ?_⟩
      · exact absurd (hfirst.symm.trans h'.2.1) (by decide)
      · exact absurd (hfirst.symm.trans h'.2.1) (by decide)
    | true =>
      rw [hfirst, if_neg (by decide)] at h
      by_cases hid : id ≠ noContext
      · rw [if_pos hid] at h
        cases h
        refine ⟨hok, .kept rfl (fun h0 => absurd h0 hid) fun hmem => ?_⟩
        obtain ⟨c, hc⟩ := find_of_mem hok hmem
        rw [hc]
        exact (sent_nonneg io).trans ⟨fun h' => ⟨hin, hfirst, h'⟩, fun h' => h'.2.2⟩
      · rw [if_neg hid] at h
        obtain ⟨q, hq, rfl⟩ := Option.map_eq_some_iff.1 h
        obtain ⟨hok1, hprep⟩ := prepareEncode_ok hok hq
        have hno := not_not.1 hid
        obtain ⟨d1, o1⟩ := q
        refine ⟨hok1, ?_⟩
        cases hprep with
        | found hf => exact absurd hno (find_some hf).2.2
        | failed hf hlist ha =>
          refine .kept (congrArg (List.map Context.encodeId) hlist) (fun _ h' => ?_) fun hmem => ?_
          · rcases ha with ha | ha
            · exact h'.2.2.1 ha
            · exact absurd (h'.2.2.2.symm.trans ha) (by decide)
          · exact absurd (hno ▸ hmem) hok.noId
        | made hf hnew hidc hlist hreq hres ha =>
          refine .made hno ⟨hin, hfirst, ha⟩ ?_ hnew hidc
          show d1.encodeList.map _ = _
          rw [show d1.encodeList = _ from hlist, List.map_append]
          rfl

theorem operationRelease_ok (hok : DriverOk d) (id : Word) (copyIn : Bool) :
    DriverOk (d.operationRelease id copyIn) ∧
      (d.operationRelease id copyIn).ids = if copyIn = true then d.ids.erase id else d.ids := by
  unfold Contexts.operationRelease
  cases copyIn with
  | false => exact ⟨hok, rfl⟩
  | true =>
    rw [if_neg (by decide), if_pos rfl]
    cases hf : d.find id with
    | none =>
      refine ⟨hok, (List.erase_of_not_mem fun hm => ?_).symm⟩
      obtain ⟨c, hc⟩ := find_of_mem hok hm
      cases hf.symm.trans hc
    | some c =>
      obtain ⟨hmem, hid, hne⟩ := find_some hf
      have hfind : (d.encodeList.find? fun c => decide (c.encodeId = id)) = some c := by
        unfold Contexts.find at hf
        rw [if_neg hne] at hf
        exact hf
      have hperm := Keyed.find_perm_erase hfind
      have hids : ((d.encodeList.eraseP fun c => decide (c.encodeId = id)).map Context.encodeId)
          = d.ids.erase id := by
        rw [List.erase_eq_eraseP]
        show _ = (d.encodeList.map Context.encodeId).eraseP _
        rw [List.eraseP_map]
        refine congrArg (List.map Context.encodeId) (congrArg (fun t => List.eraseP t _) ?_)
        funext x
        show decide (x.encodeId = id) = (id == x.encodeId)
        rw [Bool.beq_comm]
        rfl
      refine ⟨⟨?_, ?_, ?_, ?_⟩, hids⟩
      · refine Stock.releases (hok.stock.perm ?_)
        have hblocks : (c.blocks).Perm (c.kerReqData.toList ++ c.kerResData.toList
            ++ [c.metaBlock, c.block]) := by
          unfold Context.blocks
          refine List.Perm.trans ?_ List.perm_append_comm
          exact List.Perm.swap _ _ _
        refine (hperm.flatMap_right _).trans ?_
        rw [List.flatMap_cons]
        exact hblocks.append_right _
      · exact fresh_releases hok.fresh _
      · show (List.map Context.encodeId _).Nodup
        rw [hids]
        exact hok.nodup.erase id
      · show noContext ∉ List.map Context.encodeId _
        rw [hids]
        exact fun hm => hok.noId (List.mem_of_mem_erase hm)

theorem closeSession_releasedOnce (hok : DriverOk d) :
    ReleasedOnce d.closeSession.uses ↔ d.ids = [] := by
  let left (c : Context) : List Nat := c.metaBlock :: (c.kerReqData.toList ++ c.kerResData.toList)
  have hperm : ∀ cs : List Context,
      (cs.flatMap Context.blocks).Perm (cs.map Context.block ++ cs.flatMap left) := by
    intro cs
    induction cs with
    | nil => exact List.Perm.nil
    | cons c cs ih =>
      rw [List.flatMap_cons, List.flatMap_cons, List.map_cons]
      refine List.Perm.cons c.block ?_
      show (left c ++ cs.flatMap Context.blocks).Perm
        (cs.map Context.block ++ (left c ++ cs.flatMap left))
      refine (ih.append_left _).trans ?_
      rw [← List.append_assoc, ← List.append_assoc]
      exact List.perm_append_comm.append_right _
  have hstock : Stock d.closeSession.uses (d.encodeList.flatMap left) := by
    have h := Stock.releases (hok.stock.perm (hperm d.encodeList))
    rw [List.map_map] at h
    exact h
  rw [hstock.releasedOnce_iff]
  show _ ↔ d.encodeList.map _ = []
  rw [List.map_eq_nil_iff]
  constructor
  · intro h
    cases hl : d.encodeList with
    | nil => rfl
    | cons c cs =>
      rw [hl, List.flatMap_cons] at h
      cases h
  · intro h
    rw [h]
    rfl

end

/-! ## Who holds which context -/

section
variable {O : Type} [DecidableEq O] {f : O → Word} {ids : List Word} {o : O} {w : Word}

structure Matched (f : O → Word) (ids : List Word) : Prop where
  listed : ∀ o, f o ≠ noContext → f o ∈ ids
  unique : ∀ o o', f o = f o' → f o ≠ noContext → o = o'

def AllHeld (f : O → Word) (ids : List Word) : Prop := ∀ w ∈ ids, ∃ o, f o = w

theorem Matched.drop (h : Matched f ids) (o : O) : Matched (update f o noContext) ids := by
  refine ⟨fun x hx => ?_, fun x y hxy hx => ?_⟩
  · by_cases ho : x = o
    · rw [ho, update_self] at hx
      exact absurd rfl hx
    · rw [update_of_ne ho] at hx ⊢
      exact h.listed x hx
  · have hxo : x ≠ o := by
      rintro rfl
      rw [update_self] at hx
      exact hx rfl
    rw [update_of_ne hxo] at hxy hx
    have hyo : y ≠ o := by
      rintro rfl
      rw [update_self] at hxy
      exact hx hxy
    rw [update_of_ne hyo] at hxy
    exact h.unique x y hxy hx

theorem allHeld_drop (h : Matched f ids) (hn : noContext ∉ ids) (o : O) :
    AllHeld (update f o noContext) ids ↔ AllHeld f ids ∧ f o = noContext := by
  constructor
  · intro hall
    have hne : ∀ w ∈ ids, ∃ x, x ≠ o ∧ f x = w := by
      intro w hw
      obtain ⟨x, hx⟩ := hall w hw
      have hxo : x ≠ o := by
        rintro rfl
        rw [update_self] at hx
        exact hn (hx ▸ hw)
      rw [update_of_ne hxo] at hx
      exact ⟨x, hxo, hx⟩
    refine ⟨fun w hw => ?_, ?_⟩
    · obtain ⟨x, -, hx⟩ := hne w hw
      exact ⟨x, hx⟩
    · by_contra ho
      obtain ⟨x, hxo, hx⟩ := hne (f o) (h.listed o ho)
      exact hxo (h.unique x o hx (hx ▸ ho))
  · rintro ⟨hall, ho⟩ w hw
    obtain ⟨x, hx⟩ := hall w hw
    refine ⟨x, ?_⟩
    have hxo : x ≠ o := by
      rintro rfl
      exact hn ((ho.symm.trans hx) ▸ hw)
    rw [update_of_ne hxo]
    exact hx

theorem Matched.take (h : Matched f ids) (hn : noContext ∉ ids) (hw : w ∉ ids)
    (ho : f o = noContext) (hid : w ≠ noContext) : Matched (update f o w) (ids ++ [w]) ∧
      (AllHeld (update f o w) (ids ++ [w]) ↔ AllHeld f ids) := by
  have hnot : ∀ x, f x ≠ w := fun x hx => hw (hx ▸ h.listed x (hx ▸ hid))
  refine ⟨⟨fun x hx => ?_, fun x y hxy hx => ?_⟩, fun hall v hv => ?_, fun hall v hv => ?_⟩
  · by_cases hxo : x = o
    · rw [hxo, update_self]
      exact List.mem_append_right _ (List.mem_singleton_self w)
    · rw [update_of_ne hxo] at hx ⊢
      exact List.mem_append_left _ (h.listed x hx)
  · by_cases hxo : x = o
    · by_cases hyo : y = o
      · exact hxo.trans hyo.symm
      · rw [hxo, update_self, update_of_ne hyo] at hxy
        exact absurd hxy.symm (hnot y)
    · rw [update_of_ne hxo] at hxy hx
      by_cases hyo : y = o
      · rw [hyo, update_self] at hxy
        exact absurd hxy (hnot x)
      · rw [update_of_ne hyo] at hxy
        exact h.unique x y hxy hx
  · obtain ⟨x, hx⟩ := hall v (List.mem_append_left _ hv)
    by_cases hxo : x = o
    · rw [hxo, update_self] at hx
      exact absurd (hx ▸ hv) hw
    · rw [update_of_ne hxo] at hx
      exact ⟨x, hx⟩
  · rcases List.mem_append.1 hv with hv | hv
    · obtain ⟨x, hx⟩ := hall v hv
      by_cases hxo : x = o
      · exact absurd ((hx.symm.trans (hxo ▸ ho)) ▸ hv) hn
      · exact ⟨x, by rw [update_of_ne hxo]; exact hx⟩
    · obtain rfl := List.mem_singleton.1 hv
      exact ⟨o, update_self _ _ _⟩

omit [DecidableEq O] in
theorem Matched.lose (h : Matched f ids) (hw : w ∉ ids) (hid : w ≠ noContext) :
    Matched f (ids ++ [w]) ∧ ¬ AllHeld f (ids ++ [w]) := by
  refine ⟨⟨fun x hx => List.mem_append_left _ (h.listed x hx), h.unique⟩, fun hall => ?_⟩
  obtain ⟨x, hx⟩ := hall w (List.mem_append_right _ (List.mem_singleton_self w))
  exact hw (hx ▸ h.listed x (hx ▸ hid))

theorem Matched.free (h : Matched f ids) (hn : noContext ∉ ids) (hnd : ids.Nodup)
    (hid : f o ≠ noContext) :
    Matched (update f o noContext) (ids.erase (f o)) ∧
      (AllHeld (update f o noContext) (ids.erase (f o)) ↔ AllHeld f ids) := by
  have hd := h.drop o
  have hother : ∀ x, x ≠ o → f x ≠ noContext → f x ≠ f o :=
    fun x hx hne he => hx (h.unique x o he hne)
  refine ⟨⟨fun x hx => ?_, hd.unique⟩, fun hall v hv => ?_, fun hall v hv => ?_⟩
  · have hxo : x ≠ o := by
      rintro rfl
      rw [update_self] at hx
      exact hx rfl
    have hmem := hd.listed x hx
    rw [update_of_ne hxo] at hx hmem ⊢
    exact (List.mem_erase_of_ne (hother x hxo hx)).2 hmem
  · by_cases hvo : v = f o
    · exact ⟨o, hvo.symm⟩
    · obtain ⟨x, hx⟩ := hall v ((List.mem_erase_of_ne hvo).2 hv)
      by_cases hxo : x = o
      · rw [hxo, update_self] at hx
        exact absurd (hx ▸ hv) hn
      · rw [update_of_ne hxo] at hx
        exact ⟨x, hx⟩
  · have hvo := (List.Nodup.mem_erase_iff hnd).1 hv
    obtain ⟨x, hx⟩ := hall v hvo.2
    have hxo : x ≠ o := by
      rintro rfl
      exact hvo.1 hx.symm
    exact ⟨x, by rw [update_of_ne hxo]; exact hx⟩

omit [DecidableEq O] in
theorem allHeld_nil (hn : noContext ∉ ids) (hf : ∀ o, f o = noContext) :
    AllHeld f ids ↔ ids = [] := by
  constructor
  · intro h
    refine List.eq_nil_iff_forall_not_mem.2 fun w hw => ?_
    obtain ⟨o, ho⟩ := h w hw
    exact hn ((ho.symm.trans (hf o)) ▸ hw)
  · rintro rfl w hw
    cases hw

end

/-! ## The operations of the session -/

def Operation.held (p : Operation) : Word :=
  if p.uiState = .encode ∨ p.uiState = .decode then p.encodeId else noContext

def Operation.pending (p : Operation) : Bool := p.uiState ≠ .undefined

structure Operation.Typed (p : Operation) : Prop where
  encode : p.uiState = .encode → p.type = .invoke
  performable : p.uiState = .performable → p.type = .close

def Client.held {O : Type} (s : Client O) (o : O) : Word := (s.operations o).held

def Client.AllHeld {O : Type} (s : Client O) : Prop := Otzc.AllHeld s.held s.driver.ids

/-- **The call leaves no context behind.** -/
def ContextFits {O : Type} (s : Client O) : ClientCall O → Prop
  | .prepareInvoke o => s.uiState = .isOpen → s.held o = noContext
  | .prepareClose _ => True
  | .encode o t io =>
    let p := s.operations o
    p.uiState = .encode → p.encErrorState = .success → p.encodeId = noContext →
      io.copyIn = true → io.alloc.context ≠ none → io.alloc.metaData = true →
        io.sharedMem = true ∧ (t ≠ .other → io.kmalloc = true ∧ io.fits = true) ∧
          io.copyOut = true
  | .perform o io _ =>
    let p := s.operations o
    p.uiState = .encode →
      if p.encodeId = noContext then
        ¬ (io.copyIn = true ∧ io.first = true ∧ io.alloc.context ≠ none ∧
          io.alloc.metaData = true)
      else io.copyIn = true ∧ io.first = true ∧ 0 ≤ io.smc ∧ (io.smc = 0 → io.copyOut = true)
  | .release o copyIn =>
    let p := s.operations o
    (p.uiState = .encode → p.encodeId = noContext) ∧
      (p.uiState = .decode → p.encodeId ≠ noContext → copyIn = true)

instance {O : Type} (s : Client O) (c : ClientCall O) : Decidable (ContextFits s c) := by
  cases c <;> unfold ContextFits <;> infer_instance

section
variable {O : Type} {s : Client O} {o : O}

theorem held_of_encode (ho : (s.operations o).uiState = .encode) :
    s.held o = (s.operations o).encodeId := if_pos (Or.inl ho)

theorem held_of_decode (ho : (s.operations o).uiState = .decode) :
    s.held o = (s.operations o).encodeId := if_pos (Or.inr ho)

theorem held_of_other (h1 : (s.operations o).uiState ≠ .encode)
    (h2 : (s.operations o).uiState ≠ .decode) : s.held o = noContext :=
  if_neg (not_or.2 ⟨h1, h2⟩)

theorem held_update [DecidableEq O] (s : Client O) (o : O) (p : Operation) {t : OtzState} {n : Int} {b : Bool}
    {d : Contexts} : Client.held ⟨t, n, b, update s.operations o p, d⟩
      = update s.held o p.held := by
  funext x
  show (update s.operations o p x).held = _
  by_cases hx : x = o
  · rw [hx, update_self, update_self]
  · rw [update_of_ne hx, update_of_ne hx]
    rfl

end

section
variable {O : Type} [Fintype O] [DecidableEq O] {s s' : Client O} {o : O}

structure ClientOk (s : Client O) : Prop where
  driver : DriverOk s.driver
  matched : Matched s.held s.driver.ids
  counted : (holds Operation.pending s.operations : Int) ≤ s.operationCount
  typed : ∀ o, (s.operations o).Typed

structure ClosedOk (s : Client O) : Prop where
  device : s.device = false
  uiState : s.uiState = .undefined
  operations : ∀ o, (s.operations o).uiState = .undefined ∨ (s.operations o).uiState = .invalid

/-- a call that keeps the session open; `fits` is its condition -/
structure Kept (s s' : Client O) (fits : Prop) : Prop where
  device : s'.device = true
  ok : ClientOk s'
  held : s'.AllHeld ↔ s.AllHeld ∧ fits

theorem ClientOk.kept {p : Operation} {t : OtzState} {n : Int} {d : Contexts} {fits : Prop}
    (h : ClientOk s) (hdev : s.device = true) (hp : p.Typed)
    (hn : s.operationCount + (p.pending.toNat : Int)
      ≤ n + ((s.operations o).pending.toNat : Int)) (hd : DriverOk d)
    (hm : Matched (update s.held o p.held) d.ids)
    (ha : AllHeld (update s.held o p.held) d.ids ↔ s.AllHeld ∧ fits) :
    Kept s ⟨t, n, s.device, update s.operations o p, d⟩ fits := by
  have hheld := held_update s o p (t := t) (n := n) (b := s.device) (d := d)
  refine ⟨hdev, ⟨hd, ?_, ?_, fun x => ?_⟩, ?_⟩
  · rw [hheld]
    exact hm
  · have hc := holds_update Operation.pending s.operations o p
    have h0 := h.counted
    show ((holds Operation.pending (update s.operations o p) : Nat) : Int) ≤ n
    omega
  · show (update s.operations o p x).Typed
    by_cases hx : x = o
    · rw [hx, update_self]
      exact hp
    · rw [update_of_ne hx]
      exact h.typed x
  · show AllHeld (Client.held _) d.ids ↔ _
    rw [hheld]
    exact ha

theorem ClientOk.same {p : Operation} {t : OtzState} {n : Int} {d : Contexts} {fits : Prop}
    (h : ClientOk s) (hdev : s.device = true) (hp : p.Typed)
    (hn : s.operationCount + (p.pending.toNat : Int)
      ≤ n + ((s.operations o).pending.toNat : Int)) (hd : DriverOk d)
    (hids : d.ids = s.driver.ids) (hheld : p.held = s.held o) (hfits : fits) :
    Kept s ⟨t, n, s.device, update s.operations o p, d⟩ fits := by
  have hu : update s.held o p.held = s.held := by
    rw [hheld, update_eq_self]
  refine h.kept hdev hp hn hd ?_ ?_
  · rw [hu, hids]
    exact h.matched
  · rw [hu, hids]
    exact (and_iff_left hfits).symm

theorem ClientOk.forgets {p : Operation} {t : OtzState} {n : Int} {d : Contexts} {fits : Prop}
    (h : ClientOk s) (hdev : s.device = true) (hp : p.Typed)
    (hn : s.operationCount + (p.pending.toNat : Int)
      ≤ n + ((s.operations o).pending.toNat : Int)) (hd : DriverOk d)
    (hids : d.ids = s.driver.ids) (hheld : p.held = noContext)
    (hfits : fits ↔ s.held o = noContext) :
    Kept s ⟨t, n, s.device, update s.operations o p, d⟩ fits := by
  refine h.kept hdev hp hn hd ?_ ?_
  · rw [hheld, hids]
    exact h.matched.drop o
  · rw [hheld, hids, hfits]
    exact allHeld_drop h.matched h.driver.noId o

/-! ### One call -/

omit [DecidableEq O] in
theorem ClientOk.unchanged {fits : Prop} (h : ClientOk s) (hdev : s.device = true) (hfits : fits) :
    Kept s s fits := ⟨hdev, h, (and_iff_left hfits).symm⟩

theorem prepareInvoke_kept (h : ClientOk s) (hdev : s.device = true) (o : O) :
    Kept s (s.prepareInvoke o) (ContextFits s (.prepareInvoke o)) := by
  unfold Client.prepareInvoke
  by_cases hs : s.uiState = .isOpen
  · rw [if_neg (not_not.2 hs)]
    refine h.forgets hdev ⟨fun _ => rfl, nofun⟩ ?_ h.driver rfl rfl
      ⟨fun hf => hf hs, fun hf _ => hf⟩
    show s.operationCount + 1 ≤ s.operationCount + 1 + _
    omega
  · rw [if_pos hs]
    exact h.unchanged hdev fun he => absurd he hs

theorem prepareClose_kept (h : ClientOk s) (hdev : s.device = true) (o : O) :
    Kept s (s.prepareClose o) (ContextFits s (.prepareClose o)) := by
  unfold Client.prepareClose
  split_ifs with hs ho
  · exact h.unchanged hdev trivial
  · exact h.unchanged hdev trivial
  · have hu := not_not.1 ho
    have hheld : s.held o = noContext := by
      unfold Client.held Operation.held
      rw [hu]
      rfl
    refine h.same hdev ⟨nofun, fun _ => rfl⟩ ?_ h.driver rfl hheld.symm trivial
    show s.operationCount + 1 ≤ s.operationCount + 1 + _
    omega

theorem encode_kept (h : ClientOk s) (hdev : s.device = true) {t : ParamType} {io : EncodeCallIo}
    (hs : s.encode o t io = some s') : Kept s s' (ContextFits s (.encode o t io)) := by
  unfold Client.encode at hs
  dsimp only at hs
  by_cases ho : (s.operations o).uiState = .encode
  · rw [if_neg (not_not.2 ho)] at hs
    by_cases he : (s.operations o).encErrorState = .success
    · rw [if_neg (not_not.2 he), hdev, if_neg (by decide)] at hs
      obtain ⟨⟨d, ret, id⟩, hr, rfl⟩ := Option.map_eq_some_iff.1 hs
      obtain ⟨hd, henc⟩ := encode_ok h.driver hr
      dsimp only at hd henc
      have htyped := (h.typed o).encode ho
      cases henc with
      | kept hids hid hno =>
        have hfits : ContextFits s (.encode o t io) :=
          fun _ _ hnone hin hc hm => absurd ⟨hin, hc, hm⟩ (hno hnone)
        dsimp only
        split_ifs with hret
        · refine h.same hdev ⟨fun _ => htyped, fun h0 => absurd (ho.symm.trans h0) nofun⟩
            (Int.le_refl _) hd hids ?_ hfits
          rfl
        · refine h.same hdev ⟨fun _ => htyped, fun h0 => absurd (ho.symm.trans h0) nofun⟩
            (Int.le_refl _) hd hids ?_ hfits
          rw [(hid (not_not.1 hret)).1]
          rfl
      | made hfind hin hids hnew hid hret =>
        have hnone : s.held o = noContext := by
          by_contra hne
          obtain ⟨c, hc⟩ := find_of_mem h.driver (h.matched.listed o hne)
          rw [held_of_encode ho] at hc
          cases hfind.symm.trans hc
        have hid0 : (s.operations o).encodeId = noContext := (held_of_encode ho).symm.trans hnone
        dsimp only
        split_ifs with hne
        · obtain ⟨hm, hl⟩ := h.matched.lose hnew hid
          have hkeep : update s.held o (Operation.held
              { s.operations o with encErrorState := .encodeMemory }) = s.held := by
            show update s.held o (s.held o) = s.held
            exact update_eq_self o s.held
          refine h.kept hdev ⟨fun _ => htyped, fun h0 => absurd (ho.symm.trans h0) nofun⟩
            (Int.le_refl _) hd ?_ ?_
          · rw [hkeep, hids]
            exact hm
          · rw [hkeep, hids]
            exact iff_of_false hl fun h' => hne (hret.2 (h'.2 ho he hid0 hin.1 hin.2.1 hin.2.2))
        · have hret0 := hret.1 (not_not.1 hne)
          obtain ⟨hm, hl⟩ := h.matched.take h.driver.noId hnew hnone hid
          have hkeep : Operation.held { s.operations o with encodeId := id } = id :=
            if_pos (Or.inl ho)
          refine h.kept hdev ⟨fun _ => htyped, fun h0 => absurd (ho.symm.trans h0) nofun⟩
            (Int.le_refl _) hd ?_ ?_
          · rw [hkeep, hids]
            exact hm
          · rw [hkeep, hids]
            exact hl.trans (and_iff_left fun _ _ _ _ _ _ => hret0).symm
    · rw [if_pos he] at hs
      cases hs
      exact h.unchanged hdev fun _ h0 => absurd h0 he
  · rw [if_pos ho] at hs
    cases hs
    refine h.same hdev ⟨(h.typed o).encode, (h.typed o).performable⟩ (Int.le_refl _) h.driver rfl ?_
      fun h0 => absurd h0 ho
    rfl

theorem performInvoke_kept (h : ClientOk s) (hdev : s.device = true) {io : SendCallIo} {b : Bool}
    (ho : (s.operations o).uiState = .encode) (hs : s.performInvoke o io = some s') :
    Kept s s' (ContextFits s (.perform o io b)) := by
  unfold Client.performInvoke at hs
  rw [hdev, if_neg (by decide)] at hs
  obtain ⟨⟨d, ret⟩, hr, rfl⟩ := Option.map_eq_some_iff.1 hs
  obtain ⟨hd, hsent⟩ := sendCmd_ok h.driver hr
  dsimp only at hd hsent
  have hheld := held_of_encode ho
  have hpend : (s.operations o).pending.toNat = 1 := by
    unfold Operation.pending
    rw [ho]
    rfl
  have hcount : ∀ t : OtzState, t ≠ .undefined → s.operationCount
      + ((Operation.pending { s.operations o with uiState := t }).toNat : Int)
        ≤ s.operationCount + ((s.operations o).pending.toNat : Int) := by
    intro t ht
    have ht1 : Operation.pending { s.operations o with uiState := t } = true := decide_eq_true ht
    rw [ht1, hpend]
    exact Int.le_refl _
  have htyped : ∀ t, t ≠ .encode → t ≠ .performable →
      Operation.Typed { s.operations o with uiState := t } :=
    fun t h1 h2 => ⟨fun h0 => absurd h0 h1, fun h0 => absurd h0 h2⟩
  cases hsent with
  | kept hids hno hret =>
    have hfits : ContextFits s (.perform o io b) ↔ s.held o = noContext ∨ ¬ ret < 0 := by
      rw [hheld]
      by_cases h0 : (s.operations o).encodeId = noContext
      · refine iff_of_true (fun _ => ?_) (Or.inl h0)
        rw [if_pos h0]
        exact hno h0
      · have hmem := h.matched.listed o (by rwa [hheld])
        rw [hheld] at hmem
        have hret' := hret hmem
        constructor
        · intro hf
          have hf' := hf ho
          rw [if_neg h0] at hf'
          exact Or.inr (Int.not_lt.2 (hret'.2 hf'))
        · rintro (hf | hf) -
          · exact absurd hf h0
          · rw [if_neg h0]
            exact hret'.1 (Int.not_lt.1 hf)
    have hkeep : ∀ t, ¬ ret < 0 →
        Kept s { s.setState o .decode with driver := d, uiState := t }
          (ContextFits s (.perform o io b)) := by
      intro t hpos
      refine h.same hdev (htyped _ nofun nofun) (hcount _ nofun) hd hids ?_ (hfits.2 (Or.inr hpos))
      rw [hheld]
      rfl
    dsimp only
    split_ifs with h1 h2
    · refine h.forgets hdev (htyped _ nofun nofun) (hcount _ nofun) hd hids rfl (hfits.trans ?_)
      exact or_iff_left (not_not.2 h1)
    · exact hkeep _ h1
    · exact hkeep _ h1
  | made hid hin hids hnew hw =>
    have hfits : ¬ ContextFits s (.perform o io b) := by
      intro hf
      have hf' := hf ho
      rw [if_pos hid] at hf'
      exact hf' hin
    obtain ⟨hm, hl⟩ := h.matched.lose hnew hw
    have hlost : ∀ t u, t ≠ .undefined → t ≠ .encode → t ≠ .performable →
        Operation.held { s.operations o with uiState := t } = noContext →
        Kept s { s.setState o t with driver := d, uiState := u }
          (ContextFits s (.perform o io b)) := by
      intro t u h1 h2 h3 hno
      have hkeep : update s.held o (Operation.held { s.operations o with uiState := t })
          = s.held := by
        rw [hno, ← hid, ← hheld]
        exact update_eq_self o s.held
      refine h.kept hdev (htyped t h2 h3) (hcount t h1) hd ?_ ?_
      · rw [hkeep, hids]
        exact hm
      · rw [hkeep, hids]
        exact iff_of_false hl fun h' => hfits h'.2
    dsimp only
    split_ifs with h1 h2
    · exact hlost .invalid _ nofun nofun nofun rfl
    · exact hlost .decode _ nofun nofun nofun hid
    · exact hlost .decode _ nofun nofun nofun hid

structure Closes (s s' : Client O) : Prop where
  closed : ClosedOk s'
  released : ReleasedOnce s'.driver.uses ↔ s.AllHeld

omit [DecidableEq O] in
theorem ClientOk.alone (h : ClientOk s) (hone : s.operationCount = 1)
    (ho : (s.operations o).pending = true) {x : O} (hx : x ≠ o) :
    (s.operations x).uiState = .undefined := by
  by_contra hu
  have hpx : (s.operations x).pending = true := decide_eq_true hu
  have hle := h.counted
  have hpos : holds Operation.pending s.operations ≠ 0 := by
    intro h0
    rw [holds_eq_zero_iff] at h0
    rw [h0 o] at ho
    cases ho
  have h1 : holds Operation.pending s.operations = 1 := by omega
  exact hx (eq_of_holds_eq_one _ h1 hpx ho)

theorem performClose_kept (h : ClientOk s) (hdev : s.device = true) {copyIn b : Bool}
    (ho : (s.operations o).uiState = .performable) (hs : s.performClose o copyIn b = some s') :
    Kept s s' True ∨ Closes s s' := by
  have hpend : (s.operations o).pending = true := decide_eq_true (by rw [ho]; nofun)
  have hnone : s.held o = noContext := held_of_other (by rw [ho]; nofun) (by rw [ho]; nofun)
  have hset : ∀ t, t ≠ .encode → t ≠ .performable → t ≠ .decode →
      Kept s (s.setState o t) True := by
    intro t h1 h2 h3
    refine h.same hdev ⟨fun h0 => absurd h0 h1, fun h0 => absurd h0 h2⟩ ?_ h.driver rfl ?_ trivial
    · rw [hpend]
      have := Bool.toNat_le (Operation.pending { s.operations o with uiState := t })
      rw [Bool.toNat_true]
      omega
    · rw [hnone]
      exact if_neg (not_or.2 ⟨h1, h3⟩)
  unfold Client.performClose at hs
  by_cases hone : s.operationCount = 1 ∧ b = true
  · rw [if_pos hone, hdev, if_neg (by decide)] at hs
    cases copyIn with
    | false =>
      cases hs
      exact Or.inl (hset _ nofun nofun nofun)
    | true =>
      cases hs
      have halone : ∀ x, x ≠ o → (s.operations x).uiState = .undefined :=
        fun x hx => h.alone hone.1 hpend hx
      refine Or.inr ⟨⟨rfl, rfl, fun x => ?_⟩, ?_⟩
      · by_cases hx : x = o
        · right
          show (update s.operations o
            { s.operations o with uiState := .invalid } x).uiState = .invalid
          rw [hx, update_self]
        · left
          show (update s.operations o
            { s.operations o with uiState := .invalid } x).uiState = .undefined
          rw [update_of_ne hx]
          exact halone x hx
      · refine (closeSession_releasedOnce h.driver).trans (allHeld_nil h.driver.noId fun x => ?_).symm
        by_cases hx : x = o
        · rw [hx]
          exact hnone
        · have hu := halone x hx
          exact held_of_other (by rw [hu]; nofun) (by rw [hu]; nofun)
  · rw [if_neg hone] at hs
    cases hs
    exact Or.inl (hset _ nofun nofun nofun)

theorem perform_kept (h : ClientOk s) (hdev : s.device = true) {io : SendCallIo} {b : Bool}
    (hs : s.perform o io b = some s') :
    Kept s s' (ContextFits s (.perform o io b)) ∨
      (Closes s s' ∧ ContextFits s (.perform o io b)) := by
  unfold Client.perform at hs
  by_cases ho : (s.operations o).uiState ≠ .encode ∧ (s.operations o).uiState ≠ .performable
  · rw [if_pos ho] at hs
    cases hs
    exact Or.inl (h.unchanged hdev fun h0 => absurd h0 ho.1)
  · rw [if_neg ho] at hs
    by_cases he : (s.operations o).uiState = .encode
    · rw [(h.typed o).encode he] at hs
      exact Or.inl (performInvoke_kept h hdev he hs)
    · have hp : (s.operations o).uiState = .performable := by
        by_contra hp
        exact ho ⟨he, hp⟩
      have hfits : ContextFits s (.perform o io b) := fun h0 => absurd h0 he
      rw [(h.typed o).performable hp] at hs
      rcases performClose_kept h hdev hp hs with hk | hc
      · exact Or.inl ⟨hk.device, hk.ok, hk.held.trans (and_congr_right' (iff_of_true trivial hfits))⟩
      · exact Or.inr ⟨hc, hfits⟩

theorem release_kept (h : ClientOk s) (hdev : s.device = true) {copyIn : Bool}
    (hs : s.release o copyIn = some s') : Kept s s' (ContextFits s (.release o copyIn)) := by
  have hno : (s.operations o).uiState ≠ .encode → (s.operations o).uiState ≠ .decode →
      ContextFits s (.release o copyIn) :=
    fun h1 h2 => ⟨fun h0 => absurd h0 h1, fun h0 => absurd h0 h2⟩
  have hset : ∀ t d fits, (s.operations o).uiState ≠ .undefined → DriverOk d →
      d.ids = s.driver.ids → (fits ↔ s.held o = noContext) →
      Kept s { s.released o with uiState := t, driver := d } fits := by
    intro t d fits hu hd hids hfits
    refine h.forgets hdev ⟨nofun, nofun⟩ ?_ hd hids rfl hfits
    have hpend : (s.operations o).pending = true := decide_eq_true hu
    rw [hpend]
    show s.operationCount + 0 ≤ s.operationCount - 1 + 1
    omega
  unfold Client.release at hs
  cases ho : (s.operations o).uiState with
  | encode =>
    rw [ho] at hs
    cases hs
    refine hset _ _ _ (by rw [ho]; nofun) h.driver rfl ?_
    rw [held_of_encode ho]
    exact ⟨fun hf => hf.1 ho, fun h0 => ⟨fun _ => h0, fun h1 => absurd (ho.symm.trans h1) nofun⟩⟩
  | performable =>
    rw [ho] at hs
    dsimp only at hs
    rw [if_pos ((h.typed o).performable ho)] at hs
    cases hs
    refine hset _ _ _ (by rw [ho]; nofun) h.driver rfl (iff_of_true ?_ ?_)
    · exact hno (by rw [ho]; nofun) (by rw [ho]; nofun)
    · exact held_of_other (by rw [ho]; nofun) (by rw [ho]; nofun)
  | decode =>
    rw [ho, hdev] at hs
    dsimp only at hs
    rw [if_neg (by decide)] at hs
    cases hs
    obtain ⟨hd, hids⟩ := operationRelease_ok h.driver (s.operations o).encodeId copyIn
    have hheld := held_of_decode ho
    have hfits : ContextFits s (.release o copyIn) ↔ s.held o = noContext ∨ copyIn = true := by
      rw [hheld]
      constructor
      · rintro ⟨-, hf⟩
        exact or_iff_not_imp_left.2 (hf ho)
      · intro hf
        exact ⟨fun h1 => absurd (ho.symm.trans h1) nofun, fun _ => or_iff_not_imp_left.1 hf⟩
    by_cases hfree : s.held o ≠ noContext ∧ copyIn = true
    · obtain ⟨hne, hin⟩ := hfree
      obtain ⟨hm, hl⟩ := h.matched.free h.driver.noId h.driver.nodup hne
      have herase : (s.driver.operationRelease (s.operations o).encodeId copyIn).ids
          = s.driver.ids.erase (s.held o) := by
        rw [hids, if_pos hin, hheld]
      refine h.kept hdev ⟨nofun, nofun⟩ ?_ hd ?_ ?_
      · have hpend : (s.operations o).pending = true := decide_eq_true (by rw [ho]; nofun)
        rw [hpend]
        show s.operationCount + 0 ≤ s.operationCount - 1 + 1
        omega
      · rw [herase]
        exact hm
      · rw [herase]
        exact hl.trans (and_iff_left (hfits.2 (Or.inr hin))).symm
    · refine hset _ _ _ (by rw [ho]; nofun) hd (hids.trans ?_) (hfits.trans ?_)
      · split
        · next hin =>
          have h0 : s.held o = noContext := by
            by_contra h0
            exact hfree ⟨h0, hin⟩
          rw [← hheld, h0]
          exact List.erase_of_not_mem h.driver.noId
        · rfl
      · constructor
        · rintro (h0 | hin)
          · exact h0
          · by_contra h0
            exact hfree ⟨h0, hin⟩
        · exact Or.inl
  | invalid =>
    rw [ho] at hs
    cases hs
    refine hset _ _ _ (by rw [ho]; nofun) h.driver rfl (iff_of_true ?_ ?_)
    · exact hno (by rw [ho]; nofun) (by rw [ho]; nofun)
    · exact held_of_other (by rw [ho]; nofun) (by rw [ho]; nofun)
  | undefined =>
    rw [ho] at hs
    cases hs
    exact h.unchanged hdev (hno (by rw [ho]; nofun) (by rw [ho]; nofun))
  | isOpen =>
    rw [ho] at hs
    cases hs
    exact h.unchanged hdev (hno (by rw [ho]; nofun) (by rw [ho]; nofun))
  | closing =>
    rw [ho] at hs
    cases hs
    exact h.unchanged hdev (hno (by rw [ho]; nofun) (by rw [ho]; nofun))
  | running =>
    rw [ho] at hs
    cases hs
    exact h.unchanged hdev (hno (by rw [ho]; nofun) (by rw [ho]; nofun))

theorem step_kept (h : ClientOk s) (hdev : s.device = true) {c : ClientCall O}
    (hs : s.step c = some s') :
    Kept s s' (ContextFits s c) ∨ (Closes s s' ∧ ContextFits s c) := by
  cases c with
  | prepareInvoke o =>
    cases hs
    exact Or.inl (prepareInvoke_kept h hdev o)
  | prepareClose o =>
    cases hs
    exact Or.inl (prepareClose_kept h hdev o)
  | encode o t io => exact Or.inl (encode_kept h hdev hs)
  | perform o io b => exact perform_kept h hdev hs
  | release o copyIn => exact Or.inl (release_kept h hdev hs)

omit [Fintype O] in
theorem step_closed (h : ClosedOk s) {c : ClientCall O} (hs : s.step c = some s') :
    ClosedOk s' ∧ s'.driver = s.driver ∧ ContextFits s c := by
  have hne : ∀ o t, t ≠ .undefined → t ≠ .invalid → (s.operations o).uiState ≠ t := by
    intro o t h1 h2 he
    rcases h.operations o with hu | hu
    · exact h1 (he.symm.trans hu)
    · exact h2 (he.symm.trans hu)
  have hstate : s.uiState ≠ .isOpen := by
    rw [h.uiState]
    nofun
  have hset : ∀ o p n, p.uiState = .undefined ∨ p.uiState = .invalid →
      ClosedOk ({ s.setOperation o p with operationCount := n }) := by
    intro o p n hp
    refine ⟨h.device, h.uiState, fun x => ?_⟩
    show (update s.operations o p x).uiState = .undefined
      ∨ (update s.operations o p x).uiState = .invalid
    by_cases hx : x = o
    · rw [hx, update_self]
      exact hp
    · rw [update_of_ne hx]
      exact h.operations x
  cases c with
  | prepareInvoke o =>
    have he : s.prepareInvoke o = s := if_pos hstate
    cases hs
    rw [he]
    exact ⟨h, rfl, fun h0 => absurd h0 hstate⟩
  | prepareClose o =>
    have he : s.prepareClose o = s := if_pos hstate
    cases hs
    rw [he]
    exact ⟨h, rfl, trivial⟩
  | encode o t io =>
    have ho := hne o .encode nofun nofun
    have he : s.encode o t io
        = some (s.setOperation o { s.operations o with encErrorState := .illegalState }) :=
      if_pos ho
    cases he.symm.trans hs
    exact ⟨hset o _ s.operationCount (h.operations o), rfl, fun h0 => absurd h0 ho⟩
  | perform o io b =>
    have ho := hne o .encode nofun nofun
    have he : s.perform o io b = some s := if_pos ⟨ho, hne o .performable nofun nofun⟩
    cases he.symm.trans hs
    exact ⟨h, rfl, fun h0 => absurd h0 ho⟩
  | release o copyIn =>
    have hfits : ContextFits s (.release o copyIn) :=
      ⟨fun h0 => absurd h0 (hne o .encode nofun nofun),
        fun h0 => absurd h0 (hne o .decode nofun nofun)⟩
    rcases h.operations o with hu | hu
    · have he : s.release o copyIn = some s := by
        unfold Client.release
        rw [hu]
      cases he.symm.trans hs
      exact ⟨h, rfl, hfits⟩
    · have he : s.release o copyIn = some (s.released o) := by
        unfold Client.release
        rw [hu]
      cases he.symm.trans hs
      exact ⟨hset o _ _ (Or.inl rfl), rfl, hfits⟩

/-! ### Runs -/

omit [Fintype O] [DecidableEq O] in
theorem opened_held (o : O) : (Client.opened : Client O).held o = noContext := rfl

omit [DecidableEq O] in
theorem opened_ok : ClientOk (Client.opened : Client O) := by
  refine ⟨⟨Stock.nil, fun _ _ => nofun, List.nodup_nil, nofun⟩,
    ⟨fun o ho => absurd (opened_held o) ho, fun o _ _ ho => absurd (opened_held o) ho⟩, ?_,
    fun _ => ⟨nofun, nofun⟩⟩
  have h0 : holds Operation.pending (Client.opened : Client O).operations = 0 :=
    (holds_eq_zero_iff _ _).2 fun _ => rfl
  rw [h0]
  exact Int.le_refl 0

omit [Fintype O] in
theorem run_closed {calls : List (ClientCall O)} (h : ClosedOk s)
    (hrun : run Client.step s calls = some s') :
    s'.driver = s.driver ∧ Along Client.step ContextFits s calls := by
  induction calls generalizing s with
  | nil =>
    cases hrun
    exact ⟨rfl, trivial⟩
  | cons c calls ih =>
    obtain ⟨s₁, hs, hrun'⟩ := run_cons_some hrun
    obtain ⟨h1, hd, hfits⟩ := step_closed h hs
    obtain ⟨hd', hall⟩ := ih h1 hrun'
    exact ⟨hd'.trans hd, along_of_step hfits hs hall⟩

theorem freed_of_run {calls : List (ClientCall O)} (h : ClientOk s) (hdev : s.device = true)
    (hrun : run Client.step s calls = some s') (hclosed : s'.device = false) :
    ReleasedOnce s'.driver.uses ↔ s.AllHeld ∧ Along Client.step ContextFits s calls := by
  induction calls generalizing s with
  | nil =>
    cases hrun
    cases hdev.symm.trans hclosed
  | cons c calls ih =>
    obtain ⟨s₁, hs, hrun'⟩ := run_cons_some hrun
    have hcons : Along Client.step ContextFits s (c :: calls)
        ↔ ContextFits s c ∧ Along Client.step ContextFits s₁ calls :=
      ⟨fun hl => along_cons hl hs, fun hl => along_of_step hl.1 hs hl.2⟩
    rw [hcons]
    rcases step_kept h hdev hs with hk | ⟨hc, hfits⟩
    · rw [ih hk.ok hk.device hrun', hk.held]
      exact and_assoc
    · obtain ⟨hd, hall⟩ := run_closed hc.closed hrun'
      rw [hd, hc.released]
      exact (and_iff_left ⟨hfits, hall⟩).symm

/-- **The contexts of a session have all been freed by its close exactly if no call left one
behind.** -/
theorem contexts_freed_iff (calls : List (ClientCall O))
    (hrun : run Client.step .opened calls = some s) (hclosed : s.device = false) :
    ReleasedOnce s.driver.uses ↔ Along Client.step ContextFits .opened calls := by
  rw [freed_of_run opened_ok rfl hrun hclosed]
  exact and_iff_right nofun

end

def encodeFine (w : Word) : EncodeCallIo := ⟨true, ⟨some w, true⟩, true, true, true, true⟩

def sendFine : SendCallIo := ⟨true, true, ⟨some 0x2000, true⟩, 0, true⟩

/-- operation 0 with a parameter; operation 1 closes the session -/
def oneInvoke : List (ClientCall (Fin 2)) :=
  [.prepareInvoke 0, .encode 0 .paramIn (encodeFine 0x1000), .perform 0 sendFine false,
    .release 0 true, .prepareClose 1, .perform 1 sendFine true]

theorem oneInvoke_freed : ∃ s, run Client.step .opened oneInvoke = some s ∧
    s.device = false ∧ ReleasedOnce s.driver.uses := by
  refine ⟨_, rfl, rfl, (contexts_freed_iff oneInvoke rfl rfl).2 ?_⟩
  decide +kernel

def unsentInvoke : List (ClientCall (Fin 2)) :=
  [.prepareInvoke 0, .encode 0 .paramIn (encodeFine 0x1000), .release 0 true,
    .prepareClose 1, .perform 1 sendFine true]

theorem unsent_context_leaks : ¬ ∀ (calls : List (ClientCall (Fin 2))) (s : Client (Fin 2)),
    run Client.step .opened calls = some s → s.device = false → ReleasedOnce s.driver.uses := by
  intro h
  have h1 := h unsentInvoke _ rfl rfl 1 (by decide +kernel)
  revert h1
  decide +kernel

end Otzc
end SierraTee
