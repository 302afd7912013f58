import SierraTee.Lib.Holdings
import SierraTee.Names.Objects

/-!
# Files and devices of tasks (`sw_syscall_imp.c`, `destroy_task` in `task.c`)

* `files_right_iff`  when devices are only reached through the list, and are closed in the end.

What the functions of a device return, what `get_permission` says and whether there is memory are
part of an event.  The list of a task that does not exist is empty.
-/

namespace SierraTee
namespace Files
open FlatMemory Names Runs Holdings

def minusOne : Word := 0xffffffff#32

def ipcDeviceId : Word := 10002#32

/-- the functions of a `struct sw_file_operations` that are not NULL -/
structure FileFunctions where
  hasOpen : Bool
  hasClose : Bool
  hasRead : Bool
  hasWrite : Bool
  hasIoctl : Bool

/-- `struct fd_link` -/
structure FdLink where
  fd : Word
  devInfo : SwFileOperations
  deriving DecidableEq

inductive Access where
  | read | write | ioctl

inductive DeviceCall where
  | open (d : SwFileOperations) (ret : Word)
  | close (d : SwFileOperations) (fd ret : Word)
  | access (a : Access) (d : SwFileOperations) (fd : Word)

/-- what a system call makes of the list, `regs[0]`, and the calls of the device -/
structure Outcome where
  list : List FdLink
  ret : Word
  calls : List DeviceCall

section
variable (devices : List SwFileOperations) (fops : SwFileOperations → FileFunctions)
  (l : List FdLink) (fd ret : Word) (permitted : Bool)

def findFd : Option FdLink := l.find? fun e => e.fd = fd

/-- `SW_SYSCALL_OPEN`; `ret` is what the device returns, and `permitted` what `get_permission`
does -/
def syscallOpen (name : Chars) (malloc : Bool) : Outcome :=
  match findDevice devices name with
  | none => ⟨l, minusOne, []⟩
  | some d =>
    if permitted = false then ⟨l, minusOne, []⟩
    else if (fops d).hasOpen then
      if ret = minusOne then ⟨l, minusOne, [.open d ret]⟩
      else if malloc then
        ⟨l ++ [⟨ret, d⟩], if d.devId = ipcDeviceId then 0#32 else ret, [.open d ret]⟩
      else ⟨l, minusOne, [.open d ret]⟩
    else ⟨l, minusOne, []⟩

/-- `SW_SYSCALL_CLOSE` -/
def syscallClose : Outcome :=
  match findFd l fd with
  | none => ⟨l, minusOne, []⟩
  | some e =>
    if permitted = false then ⟨l, minusOne, []⟩
    else if (fops e.devInfo).hasClose then
      ⟨if ret = minusOne then l else l.eraseP fun e => e.fd = fd, ret, [.close e.devInfo e.fd ret]⟩
    else ⟨l, minusOne, []⟩

/-- the block of reads, writes and controls: `has` is the function, `none` the result without it -/
def accessFile (a : Access) (has : FileFunctions → Bool) (none : Word) : Outcome :=
  match findFd l fd with
  | .none => ⟨l, minusOne, []⟩
  | some e =>
    if permitted = false then ⟨l, minusOne, []⟩
    else if has (fops e.devInfo) then ⟨l, ret, [.access a e.devInfo fd]⟩
    else ⟨l, none, []⟩

/-- `SW_SYSCALL_WRITE` -/
def syscallWrite : Outcome := accessFile fops l fd ret permitted .write (·.hasWrite) minusOne

/-- `SW_SYSCALL_READ` -/
def syscallRead : Outcome := accessFile fops l fd ret permitted .read (·.hasRead) minusOne

/-- `SW_SYSCALL_IOCTL`; its result is not looked at -/
def syscallIoctl : Outcome := accessFile fops l fd fd permitted .ioctl (·.hasIoctl) fd

def closeDeviceFile (e : FdLink) : List DeviceCall :=
  if (fops e.devInfo).hasClose then [.close e.devInfo e.fd ret] else []

/-- the loop of `destroy_task` over the list; the device of the link `i` returns `rets i` -/
def closeFiles : (Nat → Word) → List FdLink → List DeviceCall
  | _, [] => []
  | rets, e :: l =>
    (if e.fd = minusOne then [] else closeDeviceFile fops (rets 0) e) ++
      closeFiles (fun i => rets (i + 1)) l

end

/-! ## Runs -/

inductive FileCall where
  | open (name : Chars) (ret : Word) (malloc : Bool)
  | close (fd ret : Word)
  | write (fd ret : Word)
  | read (fd ret : Word)
  | ioctl (fd : Word)

inductive FileEvent where
  /-- a system call of the current task, if there is one -/
  | syscall (current : Option TaskId) (permitted : Bool) (c : FileCall)
  | destroyTask (t : TaskId) (rets : Nat → Word)

/-- for each task, and for system calls without a current task -/
structure FileState where
  fileDevList : Option TaskId → List FdLink
  calls : Option TaskId → List DeviceCall

section
variable (devices : List SwFileOperations) (fops : SwFileOperations → FileFunctions)

def fileCall (l : List FdLink) (permitted : Bool) : FileCall → Outcome
  | .open name ret malloc => syscallOpen devices fops l ret permitted name malloc
  | .close fd ret => syscallClose fops l fd ret permitted
  | .write fd ret => syscallWrite fops l fd ret permitted
  | .read fd ret => syscallRead fops l fd ret permitted
  | .ioctl fd => syscallIoctl fops l fd permitted

def FileState.update (s : FileState) (t : Option TaskId) (l : List FdLink) (cs : List DeviceCall) :
    FileState where
  fileDevList := fun u => if u = t then l else s.fileDevList u
  calls := fun u => if u = t then s.calls t ++ cs else s.calls u

def fileNext (s : FileState) : FileEvent → FileState
  | .syscall t permitted c =>
    let o := fileCall devices fops (s.fileDevList t) permitted c
    s.update t o.list o.calls
  | .destroyTask t rets => s.update (some t) [] (closeFiles fops rets (s.fileDevList (some t)))

def fileStep (s : FileState) (e : FileEvent) : Option FileState := some (fileNext devices fops s e)

/-- nothing is open -/
def noFiles : FileState := ⟨fun _ => [], fun _ => []⟩

/-! ## What is expected -/

/-- an open that succeeds acquires the device under its number, a close that succeeds releases it,
everything else needs it -/
def DeviceCall.use : DeviceCall → List (Use FdLink)
  | .open d ret => if ret = minusOne then [] else [.acquire ⟨ret, d⟩]
  | .close d fd ret => if ret = minusOne then [.access ⟨fd, d⟩] else [.release ⟨fd, d⟩]
  | .access _ d fd => [.access ⟨fd, d⟩]

def uses (cs : List DeviceCall) : List (Use FdLink) := cs.flatMap DeviceCall.use

/-- the devices that a task has open -/
def FileState.openDevices (s : FileState) (t : Option TaskId) : List FdLink :=
  holding [] (uses (s.calls t))

/-- the step from `s` on -/
structure StepRight (s : FileState) (e : FileEvent) : Prop where
  /-- a task reaches the devices that it has opened and not closed, and no others -/
  backed : ∀ t, Backed [] (uses ((fileNext devices fops s e).calls t))
  /-- and through its list -/
  through : ∀ t permitted c, e = .syscall t permitted c →
    ∀ u ∈ uses (fileCall devices fops (s.fileDevList t) permitted c).calls, ∀ e,
      u = .access e ∨ u = .release e → e ∈ s.fileDevList t
  /-- with a task all that it has opened is closed, once -/
  destroyed : ∀ t rets, e = .destroyTask t rets →
    Balanced (uses ((fileNext devices fops s e).calls (some t)))
  /-- an open that returns -1 leaves no descriptor and no device behind -/
  refused : ∀ t permitted name ret malloc, e = .syscall t permitted (.open name ret malloc) →
    (fileCall devices fops (s.fileDevList t) permitted (.open name ret malloc)).ret = minusOne →
    ∀ u, (fileNext devices fops s e).fileDevList u = s.fileDevList u ∧
      (fileNext devices fops s e).openDevices u = s.openDevices u

/-- there is memory for the descriptor of a device that has been opened, and the devices of a
destroyed task have a close function that succeeds -/
def StepFits (s : FileState) : FileEvent → Prop
  | .syscall _ permitted (.open name ret malloc) => ∀ d, findDevice devices name = some d →
    permitted = true → (fops d).hasOpen = true → ret ≠ minusOne → malloc = true
  | .syscall _ _ _ => True
  | .destroyTask t rets => ∀ i e, (s.fileDevList (some t))[i]? = some e →
    (fops e.devInfo).hasClose = true ∧ rets i ≠ minusOne

end

section
variable {devices : List SwFileOperations} {fops : SwFileOperations → FileFunctions}
  {l : List FdLink} {fd ret : Word} {permitted : Bool} {held : List FdLink}
  {s : FileState}

/-! ## System calls -/

theorem syscallOpen_cases (name : Chars) (malloc : Bool) :
    ((∀ d, findDevice devices name = some d → permitted = true → (fops d).hasOpen = true →
        ret = minusOne) ∧
      (syscallOpen devices fops l ret permitted name malloc).list = l ∧
      uses (syscallOpen devices fops l ret permitted name malloc).calls = []) ∨
    (∃ d, (syscallOpen devices fops l ret permitted name malloc).list = l ++ [⟨ret, d⟩] ∧
      uses (syscallOpen devices fops l ret permitted name malloc).calls = [.acquire ⟨ret, d⟩] ∧
      (syscallOpen devices fops l ret permitted name malloc).ret ≠ minusOne ∧ ret ≠ minusOne ∧
      malloc = true) ∨
    (∃ d, findDevice devices name = some d ∧ permitted = true ∧ (fops d).hasOpen = true ∧
      ret ≠ minusOne ∧ malloc = false ∧
      (syscallOpen devices fops l ret permitted name malloc).list = l ∧
      uses (syscallOpen devices fops l ret permitted name malloc).calls = [.acquire ⟨ret, d⟩] ∧
      (syscallOpen devices fops l ret permitted name malloc).ret = minusOne) := by
  unfold syscallOpen
  cases hd : findDevice devices name with
  | none => exact Or.inl ⟨fun d h => (by cases h), rfl, rfl⟩
  | some d =>
    dsimp only
    split_ifs with h1 h2 h3 h4
    · exact Or.inl ⟨fun d' _ hp => (by rw [h1] at hp; cases hp), rfl, rfl⟩
    · refine Or.inl ⟨fun d' _ _ _ => h3, rfl, ?_⟩
      simp [uses, DeviceCall.use, h3]
    · refine Or.inr (Or.inl ⟨d, rfl, ?_, ?_, h3, h4⟩)
      · simp [uses, DeviceCall.use, h3]
      · show 0#32 ≠ minusOne
        decide
    · refine Or.inr (Or.inl ⟨d, rfl, ?_, h3, h3, h4⟩)
      simp [uses, DeviceCall.use, h3]
    · refine Or.inr (Or.inr ⟨d, rfl, ?_, h2, h3, ?_, rfl, ?_, rfl⟩)
      · simpa using h1
      · simpa using h4
      · simp [uses, DeviceCall.use, h3]
    · refine Or.inl ⟨fun d' hd' _ ho => ?_, rfl, rfl⟩
      cases hd'
      exact absurd ho h2

def Follows (l : List FdLink) (o : Outcome) : Prop :=
  (o.list = l ∧ uses o.calls = []) ∨
  (∃ e ∈ l, o.list = l ∧ uses o.calls = [.access e]) ∨
  (∃ e ∈ l, uses o.calls = [.release e] ∧ l.Perm (e :: o.list))

theorem findFd_some {e : FdLink} (h : findFd l fd = some e) : e ∈ l ∧ e.fd = fd := by
  refine ⟨List.mem_of_find?_eq_some h, ?_⟩
  simpa using List.find?_some h

theorem perm_cons_eraseP {e : FdLink} (h : findFd l fd = some e) :
    l.Perm (e :: l.eraseP fun e => e.fd = fd) := by
  induction l with
  | nil => cases h
  | cons x l ih =>
    unfold findFd at h
    rw [List.find?_cons] at h
    by_cases hx : x.fd = fd
    · rw [decide_eq_true hx] at h
      cases h
      rw [List.eraseP_cons_of_pos (by simpa using hx)]
    · rw [decide_eq_false hx] at h
      rw [List.eraseP_cons_of_neg (by simpa using hx)]
      exact ((ih h).cons x).trans (List.Perm.swap e x _)

theorem syscallClose_follows : Follows l (syscallClose fops l fd ret permitted) := by
  unfold syscallClose
  cases he : findFd l fd with
  | none => exact Or.inl ⟨rfl, rfl⟩
  | some e =>
    obtain ⟨hmem, -⟩ := findFd_some he
    dsimp only
    split_ifs with h1 h2 h3
    · exact Or.inl ⟨rfl, rfl⟩
    · refine Or.inr (Or.inl ⟨e, hmem, rfl, ?_⟩)
      simp [uses, DeviceCall.use, h3]
    · refine Or.inr (Or.inr ⟨e, hmem, ?_, perm_cons_eraseP he⟩)
      simp [uses, DeviceCall.use, h3]
    · exact Or.inl ⟨rfl, rfl⟩

theorem accessFile_follows (a : Access) (has : FileFunctions → Bool) (none : Word) :
    Follows l (accessFile fops l fd ret permitted a has none) := by
  unfold accessFile
  cases he : findFd l fd with
  | none => exact Or.inl ⟨rfl, rfl⟩
  | some e =>
    obtain ⟨hmem, rfl⟩ := findFd_some he
    dsimp only
    split_ifs
    · exact Or.inl ⟨rfl, rfl⟩
    · exact Or.inr (Or.inl ⟨e, hmem, rfl, rfl⟩)
    · exact Or.inl ⟨rfl, rfl⟩

theorem Follows.kept {o : Outcome} (h : Follows l o) (hp : held.Perm l) :
    Backed held (uses o.calls) ∧ (holding held (uses o.calls)).Perm o.list := by
  obtain ⟨h1, h2⟩ | ⟨e, he, h1, h2⟩ | ⟨e, he, h1, h2⟩ := h
  · rw [h2, h1]
    exact ⟨trivial, hp⟩
  · rw [h2, h1]
    exact ⟨⟨hp.mem_iff.mpr he, trivial⟩, hp⟩
  · rw [h1]
    refine ⟨⟨hp.mem_iff.mpr he, trivial⟩, ?_⟩
    have h3 := (hp.trans h2).erase e
    rw [List.erase_cons_head] at h3
    exact h3

theorem Follows.through {o : Outcome} (h : Follows l o) {u : Use FdLink}
    (hu : u ∈ uses o.calls) {e : FdLink} (he : u = .access e ∨ u = .release e) : e ∈ l := by
  obtain ⟨h1, h2⟩ | ⟨e', he', h1, h2⟩ | ⟨e', he', h1, h2⟩ := h
  · rw [h2] at hu
    cases hu
  · rw [h2, List.mem_singleton] at hu
    obtain h3 | h3 := he <;> cases hu.symm.trans h3
    exact he'
  · rw [h1, List.mem_singleton] at hu
    obtain h3 | h3 := he <;> cases hu.symm.trans h3
    exact he'

theorem fileCall_follows {c : FileCall} (hc : ∀ name ret malloc, c ≠ .open name ret malloc) :
    Follows l (fileCall devices fops l permitted c) := by
  cases c with
  | «open» name ret malloc => exact absurd rfl (hc name ret malloc)
  | close fd ret => exact syscallClose_follows
  | write fd ret => exact accessFile_follows ..
  | read fd ret => exact accessFile_follows ..
  | ioctl fd => exact accessFile_follows ..

/-! ## Destroying a task -/

theorem closed_cons {x : FdLink} {rets : Nat → Word} :
    (∀ i e, (x :: l)[i]? = some e → (fops e.devInfo).hasClose = true ∧ rets i ≠ minusOne) ↔
      ((fops x.devInfo).hasClose = true ∧ rets 0 ≠ minusOne) ∧ ∀ i e, l[i]? = some e →
        (fops e.devInfo).hasClose = true ∧ rets (i + 1) ≠ minusOne := by
  constructor
  · exact fun h => ⟨h 0 x rfl, fun i e he => h (i + 1) e he⟩
  · rintro ⟨h0, h1⟩ i e he
    cases i with
    | zero =>
      cases he
      exact h0
    | succ i => exact h1 i e he

theorem unclosed_uses {x : FdLink} {ret : Word} (hmem : x ∈ held)
    (hc : ¬ ((fops x.devInfo).hasClose = true ∧ ret ≠ minusOne)) :
    Backed held ((if (fops x.devInfo).hasClose = true then
        [DeviceCall.close x.devInfo x.fd ret] else []).flatMap DeviceCall.use) ∧
      holding held ((if (fops x.devInfo).hasClose = true then
        [DeviceCall.close x.devInfo x.fd ret] else []).flatMap DeviceCall.use) = held := by
  by_cases h1 : (fops x.devInfo).hasClose = true
  · have h2 : ret = minusOne := by
      by_contra h2
      exact hc ⟨h1, h2⟩
    rw [if_pos h1, List.flatMap_singleton, DeviceCall.use, if_pos h2]
    exact ⟨⟨hmem, trivial⟩, rfl⟩
  · rw [if_neg h1]
    exact ⟨trivial, rfl⟩

theorem closeFiles_spec (rets : Nat → Word) (hfd : ∀ e ∈ l, e.fd ≠ minusOne)
    (rest : List FdLink) (hp : held.Perm (l ++ rest)) :
    Backed held (uses (closeFiles fops rets l)) ∧
      (holding held (uses (closeFiles fops rets l)) = [] ↔
        rest = [] ∧ ∀ i e, l[i]? = some e → (fops e.devInfo).hasClose = true ∧ rets i ≠ minusOne) := by
  induction l generalizing held rets rest with
  | nil =>
    refine ⟨trivial, ?_⟩
    have h1 : held.Perm rest := hp
    show held = [] ↔ _
    constructor
    · rintro rfl
      exact ⟨List.nil_perm.mp h1, fun i e h => by cases h⟩
    · rintro ⟨rfl, -⟩
      exact List.perm_nil.mp h1
  | cons x l ih =>
    have hx := hfd x List.mem_cons_self
    have hl := fun e he => hfd e (List.mem_cons_of_mem x he)
    have hmem : x ∈ held := hp.mem_iff.mpr (List.mem_append_left _ List.mem_cons_self)
    unfold closeFiles
    rw [if_neg hx, closed_cons, uses, List.flatMap_append, backed_append, holding_append]
    unfold closeDeviceFile
    by_cases hc : (fops x.devInfo).hasClose = true ∧ rets 0 ≠ minusOne
    · rw [if_pos hc.1, List.flatMap_singleton, DeviceCall.use, if_neg hc.2]
      have hp' : (held.erase x).Perm (l ++ rest) := by
        have h := hp.erase x
        rw [List.cons_append, List.erase_cons_head] at h
        exact h
      obtain ⟨h1, h2⟩ := ih (fun i => rets (i + 1)) hl rest hp'
      refine ⟨⟨⟨hmem, trivial⟩, h1⟩, h2.trans ?_⟩
      exact and_congr_right fun _ => ⟨fun h => ⟨hc, h⟩, fun h => h.2⟩
    · have huse := unclosed_uses hmem hc
      rw [huse.2]
      have hp' : held.Perm (l ++ (x :: rest)) :=
        hp.trans List.perm_middle.symm
      obtain ⟨h1, h2⟩ := ih (fun i => rets (i + 1)) hl (x :: rest) hp'
      refine ⟨⟨huse.1, h1⟩, h2.trans ?_⟩
      exact ⟨fun h => (by cases h.1), fun h => absurd h.2.1 hc⟩

/-! ## Steps -/

structure Kept (s : FileState) : Prop where
  backed : ∀ t, Backed [] (uses (s.calls t))
  listed : ∀ t, (s.openDevices t).Perm (s.fileDevList t)
  numbered : ∀ t, ∀ e ∈ s.fileDevList t, e.fd ≠ minusOne

theorem noFiles_kept : Kept noFiles :=
  ⟨fun _ => trivial, fun _ => .refl _, fun _ _ he => (by cases he)⟩

theorem uses_append (cs cs' : List DeviceCall) : uses (cs ++ cs') = uses cs ++ uses cs' :=
  List.flatMap_append

theorem update_list (t u : Option TaskId) (cs : List DeviceCall) :
    (s.update t l cs).fileDevList u = if u = t then l else s.fileDevList u := rfl

theorem update_calls (t u : Option TaskId) (cs : List DeviceCall) :
    (s.update t l cs).calls u = if u = t then s.calls t ++ cs else s.calls u := rfl

theorem openDevices_update (t u : Option TaskId) (cs : List DeviceCall) :
    (s.update t l cs).openDevices u =
      if u = t then holding (s.openDevices t) (uses cs) else s.openDevices u := by
  unfold FileState.openDevices
  rw [update_calls]
  split_ifs with h
  · rw [uses_append, holding_append]
  · rfl

theorem backed_update (hk : Kept s) (t : Option TaskId) (cs : List DeviceCall) :
    (∀ u, Backed [] (uses ((s.update t l cs).calls u))) ↔ Backed (s.openDevices t) (uses cs) := by
  constructor
  · intro h
    have ht := h t
    rw [update_calls, if_pos rfl, uses_append, backed_append] at ht
    exact ht.2
  · intro h u
    rw [update_calls]
    split_ifs with hu
    · rw [uses_append, backed_append]
      exact ⟨hk.backed t, h⟩
    · exact hk.backed u

theorem Kept.update (hk : Kept s) {t : Option TaskId} {cs : List DeviceCall}
    (hb : Backed (s.openDevices t) (uses cs)) (hl : (holding (s.openDevices t) (uses cs)).Perm l)
    (hn : ∀ e ∈ l, e.fd ≠ minusOne) : Kept (s.update t l cs) where
  backed := (backed_update hk t cs).mpr hb
  listed := by
    intro u
    rw [openDevices_update, update_list]
    split_ifs with hu
    · exact hl
    · exact hk.listed u
  numbered := by
    intro u
    rw [update_list]
    split_ifs with hu
    · exact hn
    · exact hk.numbered u

theorem Follows.subset {o : Outcome} (h : Follows l o) : ∀ e ∈ o.list, e ∈ l := by
  intro e he
  obtain ⟨h1, -⟩ | ⟨-, -, h1, -⟩ | ⟨e', -, -, h2⟩ := h
  · exact h1 ▸ he
  · exact h1 ▸ he
  · exact h2.mem_iff.mpr (List.mem_cons_of_mem e' he)

theorem step_follows (hk : Kept s) (t : Option TaskId) (c : FileCall)
    (hc : ∀ name ret malloc, c ≠ .open name ret malloc) :
    StepRight devices fops s (.syscall t permitted c) ∧
      Kept (fileNext devices fops s (.syscall t permitted c)) := by
  have hf : Follows (s.fileDevList t) (fileCall devices fops (s.fileDevList t) permitted c) :=
    fileCall_follows hc
  obtain ⟨h1, h2⟩ := hf.kept (hk.listed t)
  refine ⟨⟨(backed_update hk t _).mpr h1, ?_, ?_, ?_⟩, hk.update h1 h2 fun e he => ?_⟩
  · rintro t' permitted' c' he u hu e hue
    cases he
    exact hf.through hu hue
  · rintro t' rets he
    cases he
  · rintro t' permitted' name ret malloc he
    cases he
    exact absurd rfl (hc name ret malloc)
  · exact hk.numbered t e (hf.subset e he)

theorem step_open (hk : Kept s) (t : Option TaskId) (name : Chars) (malloc : Bool) :
    (StepRight devices fops s (.syscall t permitted (.open name ret malloc)) ↔
      StepFits devices fops s (.syscall t permitted (.open name ret malloc))) ∧
    (StepFits devices fops s (.syscall t permitted (.open name ret malloc)) →
      Kept (fileNext devices fops s (.syscall t permitted (.open name ret malloc)))) := by
  have hnext : fileNext devices fops s (.syscall t permitted (.open name ret malloc)) =
      s.update t (syscallOpen devices fops (s.fileDevList t) ret permitted name malloc).list
        (syscallOpen devices fops (s.fileDevList t) ret permitted name malloc).calls := rfl
  obtain ⟨hnone, h1, h2⟩ | ⟨d, h1, h2, h3, h4, h5⟩ | ⟨d, hd, hp, ho, hr, hm, h1, h2, h3⟩ :=
    @syscallOpen_cases devices fops (s.fileDevList t) ret permitted name malloc
  · have hfit : StepFits devices fops s (.syscall t permitted (.open name ret malloc)) :=
      fun d hd hp ho hr => absurd (hnone d hd hp ho) hr
    have hf : Follows (s.fileDevList t) (fileCall devices fops (s.fileDevList t) permitted
        (.open name ret malloc)) := Or.inl ⟨h1, h2⟩
    obtain ⟨h3, h4⟩ := hf.kept (hk.listed t)
    refine ⟨iff_of_true ⟨(backed_update hk t _).mpr h3, ?_, ?_, ?_⟩ hfit, fun _ => ?_⟩
    · rintro t' permitted' c' he u hu e hue
      cases he
      exact hf.through hu hue
    · rintro t' rets he
      cases he
    · rintro t' permitted' name' ret' malloc' he hret u
      cases he
      rw [hnext, openDevices_update, update_list, h1, h2]
      exact ⟨ite_eq_right_iff.mpr fun h => h ▸ rfl, ite_eq_right_iff.mpr fun h => h ▸ rfl⟩
    · exact hk.update h3 h4 fun e he => hk.numbered t e (hf.subset e he)
  · have hb : Backed (s.openDevices t)
        (uses (syscallOpen devices fops (s.fileDevList t) ret permitted name malloc).calls) := by
      rw [h2]
      trivial
    refine ⟨iff_of_true ⟨(backed_update hk t _).mpr hb, ?_, ?_, ?_⟩ fun _ _ _ _ _ => h5,
      fun _ => ?_⟩
    · rintro t' permitted' c' he u hu e hue
      cases he
      have hu' := h2 ▸ hu
      rw [List.mem_singleton] at hu'
      obtain h6 | h6 := hue <;> cases hu'.symm.trans h6
    · rintro t' rets he
      cases he
    · rintro t' permitted' name' ret' malloc' he hret
      cases he
      exact absurd hret h3
    · rw [hnext]
      refine hk.update hb ?_ fun e he => ?_
      · rw [h2, h1]
        exact ((hk.listed t).cons _).trans (List.perm_append_singleton _ _).symm
      · rw [h1, List.mem_append, List.mem_singleton] at he
        obtain he | rfl := he
        · exact hk.numbered t e he
        · exact h4
  · have hfit : ¬ StepFits devices fops s (.syscall t permitted (.open name ret malloc)) := by
      intro h
      have h4 := h d hd hp ho hr
      rw [hm] at h4
      cases h4
    refine ⟨iff_of_false (fun h => ?_) hfit, fun h => absurd h hfit⟩
    obtain ⟨-, h4⟩ := h.refused t permitted name ret malloc rfl h3 t
    rw [hnext, openDevices_update, if_pos rfl, h2] at h4
    exact absurd (congrArg List.length h4) (Nat.succ_ne_self _)

theorem step_destroy (hk : Kept s) (t : TaskId) (rets : Nat → Word) :
    (StepRight devices fops s (.destroyTask t rets) ↔ StepFits devices fops s (.destroyTask t rets)) ∧
    (StepFits devices fops s (.destroyTask t rets) →
      Kept (fileNext devices fops s (.destroyTask t rets))) := by
  have hp : (s.openDevices (some t)).Perm (s.fileDevList (some t) ++ []) := by
    rw [List.append_nil]
    exact hk.listed (some t)
  obtain ⟨h1, h2⟩ := @closeFiles_spec fops _ _ rets (hk.numbered (some t)) [] hp
  have hb : ∀ u, Backed [] (uses ((fileNext devices fops s (.destroyTask t rets)).calls u)) :=
    (backed_update hk (some t) _).mpr h1
  have hopen : (fileNext devices fops s (.destroyTask t rets)).openDevices (some t) = [] ↔
      StepFits devices fops s (.destroyTask t rets) := by
    unfold fileNext
    rw [openDevices_update, if_pos rfl]
    exact h2.trans ⟨fun h => h.2, fun h => ⟨rfl, h⟩⟩
  refine ⟨⟨fun hr => ?_, fun hfit => ⟨hb, ?_, ?_, ?_⟩⟩, fun hfit => ?_⟩
  · exact hopen.mp ((balanced_iff (hb (some t))).mp (hr.destroyed t rets rfl))
  · rintro t' permitted' c' he
    cases he
  · rintro t' rets' he
    cases he
    exact (balanced_iff (hb (some t))).mpr (hopen.mpr hfit)
  · rintro t' permitted' name ret malloc he
    cases he
  · refine hk.update h1 ?_ fun e he => (by cases he)
    rw [h2.mpr ⟨rfl, hfit⟩]

theorem step_spec (hk : Kept s) (e : FileEvent) :
    (StepRight devices fops s e ↔ StepFits devices fops s e) ∧
    (StepFits devices fops s e → Kept (fileNext devices fops s e)) := by
  cases e with
  | destroyTask t rets => exact step_destroy hk t rets
  | syscall t permitted c =>
    by_cases hc : ∃ name ret malloc, c = .open name ret malloc
    · obtain ⟨name, ret, malloc, rfl⟩ := hc
      exact step_open hk t name malloc
    · obtain ⟨h1, h2⟩ := @step_follows devices fops permitted s hk t c
        fun name ret malloc h => hc ⟨name, ret, malloc, h⟩
      refine ⟨iff_of_true h1 ?_, fun _ => h2⟩
      cases c with
      | «open» name ret malloc => exact absurd ⟨name, ret, malloc, rfl⟩ hc
      | close fd ret => trivial
      | write fd ret => trivial
      | read fd ret => trivial
      | ioctl fd => trivial

variable (devices fops)

/-- the discipline is kept in every step of a run exactly if every step fits -/
theorem files_right_iff (events : List FileEvent) :
    Along (fileStep devices fops) (StepRight devices fops) noFiles events ↔
      Along (fileStep devices fops) (StepFits devices fops) noFiles events := by
  refine along_iff Kept (fun s e s' hk hr hs => ?_) (fun s e hk => (step_spec hk e).1)
    noFiles_kept events
  cases hs
  exact (step_spec hk e).2 ((step_spec hk e).1.mp hr)

end

/-! ## A device without memory for its descriptor -/

def uartName : DeviceName := ⟨[0x55#8, 0x41#8, 0x52#8, 0x54#8], by decide, by decide⟩

/-- `UART_DEVICE_ID`, which is what the open function returns -/
def uart : SwFileOperations := ⟨10001#32, uartName⟩

/-- none of its functions is NULL -/
def uartFunctions : SwFileOperations → FileFunctions := fun _ => ⟨true, true, true, true, true⟩

def firstTask : TaskId := ⟨taskIdStart, Nat.le_refl _⟩

/-- the UART is opened and there is no memory for the descriptor; then the task ends -/
def lostUart : List FileEvent :=
  [.syscall (some firstTask) true (.open uartName.chars 10001#32 false),
    .destroyTask firstTask fun _ => 0#32]

theorem uart_left_open :
    (∃ s, run (fileStep [uart] uartFunctions) noFiles lostUart = some s ∧
      s.openDevices (some firstTask) = [⟨10001#32, uart⟩]) ∧
    ¬ Along (fileStep [uart] uartFunctions) (StepRight [uart] uartFunctions) noFiles lostUart := by
  refine ⟨⟨_, rfl, by decide⟩, fun h => ?_⟩
  have hfit := (step_spec noFiles_kept _).1.mp h.1
  have hmalloc := hfit uart (by decide) rfl rfl (by decide)
  cases hmalloc

end Files
end SierraTee
