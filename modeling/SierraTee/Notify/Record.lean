import SierraTee.Notify.DeviceFile

/-!
# Lifetime of the notification record (`otz_client_main.c`, `tzhyp_boot.c`)

* `otzClientOpen_memory`, `otzClientOpen_noMemory`, `otzClientRelease_books`   what the driver does
  to the books;
* `notify_record_iff`        the books are right along a run exactly when every step fits;
* `other_file_unregistered`  the release of one file of two.
-/

namespace SierraTee
open FlatMemory Dispatch Runs

/-! ## Books -/

/-- the number of the last file, the numbers in the list of the driver and those of the open files,
the record of the driver, the record the secure world points to, and how often it has been mapped and
given back -/
@[ext] structure RecordBooks where
  fileCnt : Word
  files : List Word
  openFiles : List Word
  alive : Option Word
  registered : Option Word
  taken : Nat
  given : Nat

def Client.books (s : Client) : RecordBooks where
  fileCnt := s.deviceFileCnt
  files := s.devFileList.map OtzcDevFile.devFileId
  openFiles := s.openFiles
  alive := s.notifyData.map Prod.fst
  registered := s.registered
  taken := s.taken
  given := s.given

namespace RecordBooks

/-- registered while a file is open, never after the record has been freed, and given back as often
as taken when no file is open -/
structure Ok (b : RecordBooks) : Prop where
  registered : b.registered.isSome ↔ b.openFiles ≠ []
  alive : ∀ p, b.registered = some p → b.alive = some p
  given : b.openFiles = [] → b.taken = b.given

def register (b : RecordBooks) (p : Word) : RecordBooks :=
  { b with registered := some p, taken := b.taken + 1 }

def unregister (b : RecordBooks) : RecordBooks :=
  if b.registered.isSome then { b with registered := none, given := b.given + 1 } else b

structure Entered (b c : RecordBooks) : Prop where
  fileCnt : c.fileCnt = b.fileCnt + 1
  files : c.files = b.files ∨ c.files = c.fileCnt :: b.files
  openFiles : c.openFiles = b.openFiles
  alive : b.alive.isSome → c.alive = b.alive
  registered : c.registered = b.registered
  taken : c.taken = b.taken
  given : c.given = b.given

def opened (b : RecordBooks) : RecordBooks := { b with openFiles := b.fileCnt :: b.openFiles }

def leave (b : RecordBooks) (id : Word) : RecordBooks :=
  { b with
    files := b.files.erase id
    alive := if b.files.erase id = [] then none else b.alive }

/-- the open files are in the list of the driver, which can have more of them -/
structure Inv (b : RecordBooks) : Prop where
  ok : b.Ok
  listed : b.openFiles.Subperm b.files

variable {b c : RecordBooks} {p id : Word}

theorem Ok.entered (h : b.Ok) (he : Entered b c) : c.Ok where
  registered := by
    rw [he.registered, he.openFiles]
    exact h.registered
  alive q hq := by
    have h1 := h.alive q (he.registered ▸ hq)
    rw [he.alive (by rw [h1]; rfl)]
    exact h1
  given hnil := by
    rw [he.taken, he.given]
    exact h.given (he.openFiles ▸ hnil)

theorem listed_entered (h : b.openFiles.Subperm b.files) (he : Entered b c) : c.openFiles.Subperm c.files := by
  rw [he.openFiles]
  rcases he.files with h1 | h1
  · rw [h1]
    exact h
  · rw [h1]
    exact h.trans (List.sublist_cons_self _ _).subperm

theorem opened_ok (h : ∀ p, c.registered = some p → c.alive = some p) :
    c.opened.Ok ↔ c.registered.isSome := by
  refine ⟨fun hok => hok.registered.mpr (List.cons_ne_nil _ _), fun hsome => ⟨?_, h, ?_⟩⟩
  · exact iff_of_true hsome (List.cons_ne_nil _ _)
  · exact fun hnil => absurd hnil (List.cons_ne_nil _ _)

theorem opened_listed (h : b.openFiles.Subperm b.files) (he : Entered b c)
    (hfiles : c.files = c.fileCnt :: b.files) : c.opened.openFiles.Subperm c.opened.files := by
  show List.Subperm (c.fileCnt :: c.openFiles) c.files
  rw [he.openFiles, hfiles]
  exact (List.subperm_cons _).mpr h

theorem unregistered_ok (h : b.Ok) (hid : id ∈ b.openFiles) :
    (({ b with openFiles := b.openFiles.erase id }).unregister.leave id).Ok ↔
      b.openFiles = [id] ∧ b.taken = b.given + 1 := by
  have hsome : b.registered.isSome := h.registered.mpr (List.ne_nil_of_mem hid)
  have hnil : b.openFiles.erase id = [] ↔ b.openFiles = [id] := by
    rw [List.erase_eq_nil_iff, or_iff_right (List.ne_nil_of_mem hid)]
  have e : ({ b with openFiles := b.openFiles.erase id }).unregister
      = { b with openFiles := b.openFiles.erase id, registered := none, given := b.given + 1 } :=
    if_pos hsome
  rw [e, ← hnil]
  refine ⟨fun hok => ?_, fun hfits => ⟨?_, (fun p hp => by cases hp), fun _ => hfits.2⟩⟩
  · have h1 : b.openFiles.erase id = [] := by
      by_contra hne
      exact Bool.false_ne_true (hok.registered.mpr hne)
    exact ⟨h1, hok.given h1⟩
  · exact iff_of_false Bool.false_ne_true (not_not.mpr hfits.1)

theorem left_ok (h : b.Inv) (hid : id ∈ b.openFiles) :
    (({ b with openFiles := b.openFiles.erase id }).leave id).Ok ↔ b.openFiles ≠ [id] := by
  have hsome : b.registered.isSome := h.ok.registered.mpr (List.ne_nil_of_mem hid)
  have hnil : b.openFiles.erase id = [] ↔ b.openFiles = [id] := by
    rw [List.erase_eq_nil_iff, or_iff_right (List.ne_nil_of_mem hid)]
  rw [ne_eq, ← hnil]
  refine ⟨fun hok => hok.registered.mp hsome, fun hne => ⟨iff_of_true hsome hne, fun p hp => ?_, ?_⟩⟩
  · have hfiles : b.files.erase id ≠ [] := by
      intro h1
      have h2 := (h.listed.erase id).length_le
      rw [h1] at h2
      exact hne (List.eq_nil_of_length_eq_zero (Nat.le_zero.mp h2))
    show (if b.files.erase id = [] then none else b.alive) = some p
    rw [if_neg hfiles]
    exact h.ok.alive p hp
  · exact fun h1 => absurd h1 hne

end RecordBooks

/-! ## The property -/

/-- a step ends with the books right -/
def RecordKept (multicore : Bool) (pgd : Word) (s : Client) (a : FileOp) : Prop :=
  ∀ t, s.step multicore pgd a = some t → t.books.Ok

def Reaches (pgd : Word) (s : Client) (a : SmcAlloc) : Prop :=
  ∃ cmd, a.cmd = some cmd ∧ s.maps.Mappable pgd cmd

def HasMemory (s : Client) (a : OpenAlloc) : Prop :=
  a.devFile = true ∧ (∀ svc ∈ clientServices, a.services svc = true) ∧
    (s.notifyData.or a.notifyData).isSome

/-- the command of a first open can be mapped; a release that reaches the secure world is the one of
the only open file, with one mapping of the record, and a release that does not is of one of several -/
def FileFits (pgd : Word) (s : Client) : FileOp → Prop
  | .openFile a => s.openFiles = [] → HasMemory s a → ∀ cmd, a.smc.cmd = some cmd →
      s.maps.Mappable pgd cmd
  | .release id a => id ∈ s.openFiles →
      (Reaches pgd s a → s.openFiles = [id] ∧ s.taken = s.given + 1) ∧
        (¬ Reaches pgd s a → s.openFiles ≠ [id])
  | .other _ => True

/-! ## What the secure world does -/

section
variable (multicore : Bool) (pgd cmd phys : Word) (s : Client) (a : SmcAlloc) (ref : Bool)

theorem Client.registerNotifyData_cases :
    (s.registerNotifyData multicore pgd phys ref).2 = Client.swError ∧
        (s.registerNotifyData multicore pgd phys ref).1.errno = swEinval ∧
        (s.registerNotifyData multicore pgd phys ref).1.books = s.books ∨
      (s.registerNotifyData multicore pgd phys ref).2 = Client.swOk ∧
        (s.registerNotifyData multicore pgd phys ref).1.books = s.books.register phys := by
  unfold Client.registerNotifyData
  split_ifs
  · refine Or.inr ⟨rfl, ?_⟩
    have halive : (s.notifyData.map fun r => (r.1, { r.2 with guestNo := s.guestNo })).map Prod.fst
        = s.notifyData.map Prod.fst := by
      rw [Option.map_map]
      rfl
    exact RecordBooks.ext rfl rfl rfl halive rfl rfl rfl
  · exact Or.inl ⟨rfl, rfl, rfl⟩

theorem Client.registerNotifyDataApi_cases :
    (s.registerNotifyDataApi multicore pgd cmd phys a).2 = Client.swError ∧
        (s.registerNotifyDataApi multicore pgd cmd phys a).1.errno = swEinval ∧
        (s.registerNotifyDataApi multicore pgd cmd phys a).1.books = s.books ∨
      (s.registerNotifyDataApi multicore pgd cmd phys a).2 = Client.swOk ∧
        (s.registerNotifyDataApi multicore pgd cmd phys a).1.books = s.books.register phys := by
  unfold Client.registerNotifyDataApi
  split_ifs
  · exact Client.registerNotifyData_cases multicore pgd phys (s.mapNs multicore pgd cmd a.cmdRef) a.bufRef
  · exact Or.inl ⟨rfl, rfl, rfl⟩

theorem Client.unregisterNotifyData_books :
    (s.unregisterNotifyData pgd).books = s.books.unregister := by
  unfold Client.unregisterNotifyData RecordBooks.unregister
  cases h : s.registered with
  | none =>
    have h1 : ¬ s.books.registered.isSome := by
      show ¬ s.registered.isSome
      rw [h]
      exact Bool.false_ne_true
    exact (if_neg h1).symm
  | some p =>
    have h1 : s.books.registered.isSome := by
      show s.registered.isSome
      rw [h]
      rfl
    exact (if_pos h1).symm

/-- **A registration** whose command can be mapped is made or refused; otherwise it is answered as if it
had been made. -/
theorem Client.dispatchRegister_cases :
    (s.maps.Mappable pgd cmd ∧
        ((s.dispatchNotify multicore pgd cmd (some phys) a).2 ≠ 0 ∧
            (s.dispatchNotify multicore pgd cmd (some phys) a).1.books = s.books ∨
          (s.dispatchNotify multicore pgd cmd (some phys) a).2 = 0 ∧
            (s.dispatchNotify multicore pgd cmd (some phys) a).1.books = s.books.register phys)) ∨
      ¬ s.maps.Mappable pgd cmd ∧ (s.dispatchNotify multicore pgd cmd (some phys) a).2 = 0 ∧
        (s.dispatchNotify multicore pgd cmd (some phys) a).1.books = s.books := by
  unfold Client.dispatchNotify
  split_ifs with hmap
  · have h := Client.registerNotifyDataApi_cases multicore pgd cmd phys
      ((s.mapNs multicore pgd cmd a.contextRef).unmapNs pgd cmd) a
    dsimp only
    generalize Client.registerNotifyDataApi multicore pgd
      ((s.mapNs multicore pgd cmd a.contextRef).unmapNs pgd cmd) cmd phys a = r at h ⊢
    unfold Client.answered
    obtain ⟨hret, herr, hb⟩ | ⟨hret, hb⟩ := h
    · refine Or.inl ⟨hmap, Or.inl ⟨?_, hb⟩⟩
      show (apiAnswer (if r.2 = Client.swError then r.1.errno else r.2) : Int) ≠ 0
      rw [if_pos hret, herr]
      decide
    · refine Or.inl ⟨hmap, Or.inr ⟨?_, hb⟩⟩
      show (apiAnswer (if r.2 = Client.swError then r.1.errno else r.2) : Int) = 0
      rw [hret, if_neg (by decide)]
      decide
  · exact Or.inr ⟨hmap, rfl, rfl⟩

theorem Client.otzSmcCall_unregister :
    (Reaches pgd s a ∧ (s.otzSmcCall multicore pgd none a).1.books = s.books.unregister) ∨
      (¬ Reaches pgd s a ∧ (s.otzSmcCall multicore pgd none a).1.books = s.books) := by
  unfold Client.otzSmcCall
  cases hc : a.cmd with
  | none =>
    refine Or.inr ⟨?_, rfl⟩
    rintro ⟨cmd, h, -⟩
    rw [hc] at h
    cases h
  | some cmd =>
    dsimp only
    unfold Client.dispatchNotify
    split_ifs with hmap
    · exact Or.inl ⟨⟨cmd, hc, hmap⟩, Client.unregisterNotifyData_books pgd
        ((s.mapNs multicore pgd cmd a.contextRef).unmapNs pgd cmd)⟩
    · refine Or.inr ⟨?_, rfl⟩
      rintro ⟨cmd', h, hmap'⟩
      cases hc.symm.trans h
      exact hmap hmap'

/-! ## What the driver does -/

theorem eNomem_ne : eNomem ≠ 0 := by decide

theorem OtzcDevFile.initServices_devFileId (alloc : Word → Bool) (f : OtzcDevFile) (l : List Word) :
    (f.initServices alloc l).1.devFileId = f.devFileId := by
  induction l generalizing f with
  | nil => rfl
  | cons svc l ih =>
    have h : (f.serviceInit svc (alloc svc)).1.devFileId = f.devFileId := by
      unfold OtzcDevFile.serviceInit
      split_ifs <;> rfl
    unfold OtzcDevFile.initServices
    dsimp only
    split_ifs
    · exact h
    · exact (ih _).trans h

theorem OtzcDevFile.initServices_eq_zero (alloc : Word → Bool) (f : OtzcDevFile) (l : List Word) :
    (f.initServices alloc l).2 = 0 ↔ ∀ svc ∈ l, alloc svc = true := by
  induction l generalizing f with
  | nil => exact iff_of_true rfl fun svc h => by cases h
  | cons svc l ih =>
    unfold OtzcDevFile.initServices
    dsimp only
    rw [List.forall_mem_cons]
    cases halloc : alloc svc with
    | false =>
      have hfail : (f.serviceInit svc false).2 ≠ 0 := eNomem_ne
      rw [if_pos hfail]
      exact iff_of_false hfail fun h => Bool.false_ne_true h.1
    | true =>
      have hok : (f.serviceInit svc true).2 = 0 := rfl
      rw [if_neg (not_not.mpr hok), ih, and_iff_right rfl]

def Client.listed (s : Client) (a : OpenAlloc) (d : Word × OtzcNotifyData) : Client :=
  { s with
    deviceFileCnt := s.deviceFileCnt + 1
    devFileList :=
      ((OtzcDevFile.mk (s.deviceFileCnt + 1) []).initServices a.services clientServices).1 ::
        s.devFileList
    notifyData := some d }

theorem Client.listed_entered {a : OpenAlloc} {d : Word × OtzcNotifyData}
    (h : s.notifyData.or a.notifyData = some d) :
    RecordBooks.Entered s.books (s.listed a d).books where
  fileCnt := rfl
  files := Or.inr (congrArg (· :: _) (OtzcDevFile.initServices_devFileId ..))
  openFiles := rfl
  alive hsome := by
    show some d.1 = s.notifyData.map Prod.fst
    cases hd : s.notifyData with
    | none =>
      have h1 : (s.notifyData.map Prod.fst).isSome := hsome
      rw [hd] at h1
      cases h1
    | some d' =>
      rw [hd] at h
      cases h
      rfl
  registered := rfl
  taken := rfl
  given := rfl

theorem Client.readGuest_snd (r : Client × Int) : (Client.readGuest r).2 = r.2 := by
  unfold Client.readGuest
  split_ifs
  · rfl
  · split <;> rfl

theorem Client.readGuest_books (r : Client × Int) : (Client.readGuest r).1.books = r.1.books := by
  unfold Client.readGuest
  split_ifs
  · rfl
  · split <;> rfl

theorem Client.otzClientOpen_memory {a : OpenAlloc} (h : HasMemory s a) :
    ∃ c p, RecordBooks.Entered s.books c ∧ c.files = c.fileCnt :: s.books.files ∧ c.alive = some p ∧
      ((∀ cmd, a.smc.cmd = some cmd → s.maps.Mappable pgd cmd) ∧
          ((s.otzClientOpen multicore pgd a).2 ≠ 0 ∧ (s.otzClientOpen multicore pgd a).1.books = c ∨
            (s.otzClientOpen multicore pgd a).2 = 0 ∧
              (s.otzClientOpen multicore pgd a).1.books = c.register p) ∨
        ∃ cmd, a.smc.cmd = some cmd ∧ ¬ s.maps.Mappable pgd cmd ∧
          (s.otzClientOpen multicore pgd a).2 = 0 ∧ (s.otzClientOpen multicore pgd a).1.books = c) := by
  obtain ⟨hdev, hservices, hrecord⟩ := h
  obtain ⟨d, hd⟩ := Option.isSome_iff_exists.mp hrecord
  have hservices := (OtzcDevFile.initServices_eq_zero a.services
    (OtzcDevFile.mk (s.deviceFileCnt + 1) []) clientServices).mpr hservices
  have hopen : s.otzClientOpen multicore pgd a
      = Client.readGuest ((s.listed a d).otzSmcCall multicore pgd (some d.1) a.smc) := by
    unfold Client.otzClientOpen Client.openNotify
    dsimp only
    rw [if_pos hdev, if_neg (not_not.mpr hservices), hd]
    rfl
  refine ⟨(s.listed a d).books, d.1, Client.listed_entered s hd,
    congrArg (· :: _) (OtzcDevFile.initServices_devFileId ..), rfl, ?_⟩
  rw [hopen, Client.readGuest_snd, Client.readGuest_books]
  unfold Client.otzSmcCall
  cases hc : a.smc.cmd with
  | none => exact Or.inl ⟨(fun cmd h => by cases h), Or.inl ⟨eNomem_ne, rfl⟩⟩
  | some cmd =>
    obtain ⟨hmap, h⟩ | ⟨hmap, hret, hb⟩ :=
      Client.dispatchRegister_cases multicore pgd cmd d.1 (s.listed a d) a.smc
    · refine Or.inl ⟨fun cmd' h' => ?_, h⟩
      cases h'
      exact hmap
    · exact Or.inr ⟨cmd, rfl, hmap, hret, hb⟩

theorem Client.otzClientOpen_noMemory {a : OpenAlloc} (h : ¬ HasMemory s a) :
    (s.otzClientOpen multicore pgd a).2 ≠ 0 ∧
      RecordBooks.Entered s.books (s.otzClientOpen multicore pgd a).1.books := by
  unfold Client.otzClientOpen
  dsimp only
  by_cases hdev : a.devFile = true
  · rw [if_pos hdev]
    have hfiles := OtzcDevFile.initServices_devFileId a.services
      (OtzcDevFile.mk (s.deviceFileCnt + 1) []) clientServices
    by_cases hservices : ((OtzcDevFile.mk (s.deviceFileCnt + 1) []).initServices a.services
        clientServices).2 = 0
    · rw [if_neg (not_not.mpr hservices)]
      have hnone : s.notifyData.or a.notifyData = none := by
        refine Option.not_isSome_iff_eq_none.mp fun h1 => h ⟨hdev, ?_, h1⟩
        exact (OtzcDevFile.initServices_eq_zero ..).mp hservices
      unfold Client.openNotify
      rw [hnone]
      exact ⟨eNomem_ne, rfl, Or.inr (congrArg (· :: _) hfiles), rfl, fun _ => rfl, rfl, rfl, rfl⟩
    · rw [if_pos hservices]
      exact ⟨hservices, rfl, Or.inr (congrArg (· :: _) hfiles), rfl, fun _ => rfl, rfl, rfl, rfl⟩
  · rw [if_neg hdev]
    exact ⟨eNomem_ne, rfl, Or.inl rfl, rfl, fun _ => rfl, rfl, rfl, rfl⟩

theorem Client.otzClientServiceExit_files (id : Word) :
    (s.otzClientServiceExit id).books.files = s.books.files.erase id := by
  show (s.devFileList.eraseP fun f => f.devFileId = id).map OtzcDevFile.devFileId
    = (s.devFileList.map OtzcDevFile.devFileId).erase id
  rw [List.erase_eq_eraseP', List.eraseP_map]
  rfl

theorem Client.otzClientRelease_books (id : Word) :
    (s.otzClientRelease multicore pgd id a).books
      = (s.otzSmcCall multicore pgd none a).1.books.leave id := by
  unfold Client.otzClientRelease RecordBooks.leave
  dsimp only
  generalize (s.otzSmcCall multicore pgd none a).1 = u
  have hfiles := Client.otzClientServiceExit_files u id
  have hempty : (u.otzClientServiceExit id).devFileList.isEmpty = true ↔
      u.books.files.erase id = [] := by
    rw [← hfiles, List.isEmpty_iff]
    exact List.map_eq_nil_iff.symm
  by_cases he : (u.otzClientServiceExit id).devFileList.isEmpty = true
  · rw [if_pos he, if_pos (hempty.mp he)]
    exact RecordBooks.ext rfl hfiles rfl rfl rfl rfl rfl
  · rw [if_neg he, if_neg fun h => he (hempty.mpr h)]
    exact RecordBooks.ext rfl hfiles rfl rfl rfl rfl rfl

end

/-! ## Steps and runs -/

section
variable {multicore : Bool} {pgd : Word} {s t : Client} {a : FileOp}

theorem step_openFile {a : OpenAlloc} (h : s.step multicore pgd (.openFile a) = some t) :
    t.books = if (s.otzClientOpen multicore pgd a).2 = 0
      then (s.otzClientOpen multicore pgd a).1.books.opened
      else (s.otzClientOpen multicore pgd a).1.books := by
  cases h
  split_ifs <;> rfl

theorem step_release {a : SmcAlloc} {id : Word} (h : s.step multicore pgd (.release id a) = some t) :
    id ∈ s.openFiles ∧
      (Reaches pgd s a ∧
          t.books = ({ s.books with openFiles := s.openFiles.erase id }).unregister.leave id ∨
        ¬ Reaches pgd s a ∧ t.books = ({ s.books with openFiles := s.openFiles.erase id }).leave id) := by
  obtain ⟨hid, e⟩ := Option.ite_none_right_eq_some.mp h
  refine ⟨hid, ?_⟩
  cases e
  rw [Client.otzClientRelease_books]
  obtain ⟨hr, hb⟩ | ⟨hr, hb⟩ := Client.otzSmcCall_unregister multicore pgd
    { s with openFiles := s.openFiles.erase id } a
  · exact Or.inl ⟨hr, congrArg (RecordBooks.leave · id) hb⟩
  · exact Or.inr ⟨hr, congrArg (RecordBooks.leave · id) hb⟩

theorem step_other {r : NsRequest} (h : s.step multicore pgd (.other r) = some t) :
    t.books = s.books := by
  obtain ⟨m, -, e⟩ := Option.map_eq_some_iff.mp h
  cases e
  rfl

theorem openFile_kept (h : s.books.Inv) {a : OpenAlloc}
    (hs : s.step multicore pgd (.openFile a) = some t) :
    (t.books.Ok ↔ FileFits pgd s (.openFile a)) ∧ t.books.openFiles.Subperm t.books.files := by
  rw [step_openFile hs]
  by_cases hmem : HasMemory s a
  · obtain ⟨c, p, he, hfiles, halive, hcall⟩ := s.otzClientOpen_memory multicore pgd hmem
    have hlisted := RecordBooks.opened_listed h.listed he hfiles
    obtain ⟨hmap, ⟨hret, hb⟩ | ⟨hret, hb⟩⟩ | ⟨cmd, hc, hmap, hret, hb⟩ := hcall
    · rw [if_neg hret, hb]
      exact ⟨iff_of_true (h.ok.entered he) fun _ _ => hmap, RecordBooks.listed_entered h.listed he⟩
    · rw [if_pos hret, hb]
      refine ⟨iff_of_true ?_ fun _ _ => hmap, hlisted⟩
      refine (RecordBooks.opened_ok fun q hq => ?_).mpr rfl
      cases hq
      exact halive
    · rw [if_pos hret, hb]
      refine ⟨?_, hlisted⟩
      rw [RecordBooks.opened_ok (h.ok.entered he).alive, he.registered, h.ok.registered]
      refine ⟨fun hne hnil => absurd hnil hne, fun hfits hnil => ?_⟩
      exact hmap (hfits hnil hmem cmd hc)
  · obtain ⟨hret, he⟩ := s.otzClientOpen_noMemory multicore pgd hmem
    rw [if_neg hret]
    exact ⟨iff_of_true (h.ok.entered he) fun _ h1 => absurd h1 hmem,
      RecordBooks.listed_entered h.listed he⟩

theorem release_kept (h : s.books.Inv) {a : SmcAlloc} {id : Word}
    (hs : s.step multicore pgd (.release id a) = some t) :
    (t.books.Ok ↔ FileFits pgd s (.release id a)) ∧ t.books.openFiles.Subperm t.books.files := by
  obtain ⟨hid, ⟨hr, hb⟩ | ⟨hr, hb⟩⟩ := step_release hs
  · rw [hb]
    refine ⟨?_, ?_⟩
    · refine (RecordBooks.unregistered_ok h.ok hid).trans ⟨fun h1 _ => ⟨fun _ => h1, ?_⟩, fun hfits => ?_⟩
      · exact fun h2 => absurd hr h2
      · exact (hfits hid).1 hr
    · have h1 : ({ s.books with openFiles := s.openFiles.erase id }).unregister.leave id
          = { s.books.leave id with
              openFiles := s.openFiles.erase id, registered := none, given := s.given + 1 } := by
        have hsome : s.books.registered.isSome := h.ok.registered.mpr (List.ne_nil_of_mem hid)
        exact congrArg (RecordBooks.leave · id) (if_pos hsome)
      rw [h1]
      exact h.listed.erase id
  · rw [hb]
    refine ⟨(RecordBooks.left_ok h hid).trans ⟨fun h1 _ => ⟨fun h2 => absurd h2 hr, fun _ => h1⟩, ?_⟩,
      h.listed.erase id⟩
    exact fun hfits => (hfits hid).2 hr

theorem step_kept (h : s.books.Inv) (hs : s.step multicore pgd a = some t) :
    (t.books.Ok ↔ FileFits pgd s a) ∧ t.books.openFiles.Subperm t.books.files := by
  cases a with
  | openFile a => exact openFile_kept h hs
  | release id a => exact release_kept h hs
  | other r =>
    rw [step_other hs]
    exact ⟨iff_of_true h.ok trivial, h.listed⟩

/-- **Lifetime of the record**: along every run of opens and releases the record is registered while a
file is open, is never pointed to after it has been freed, and its mappings are given back, exactly
when every step fits. -/
theorem notify_record_iff (multicore : Bool) (pgd : Word) {s : Client} (h : s.books.Inv)
    (l : List FileOp) :
    Along (Client.step multicore pgd) (RecordKept multicore pgd) s l ↔
      Along (Client.step multicore pgd) (FileFits pgd) s l := by
  refine along_iff (fun s => s.books.Inv) (fun s a t hinv hkept hs => ?_) (fun s a hinv => ?_) h l
  · exact ⟨hkept t hs, (step_kept hinv hs).2⟩
  · refine ⟨fun hkept => ?_, fun hfits t hs => (step_kept hinv hs).1.mpr hfits⟩
    cases hs : s.step multicore pgd a with
    | some t => exact (step_kept hinv hs).1.mp (hkept t hs)
    | none =>
      cases a with
      | openFile a => cases hs
      | release id a =>
        intro hid
        have h1 : s.step multicore pgd (.release id a) = some _ := if_pos hid
        cases hs.symm.trans h1
      | other r => trivial

end

/-- no file has been opened -/
def newClient : Client where
  deviceFileCnt := 0
  devFileList := []
  notifyData := none
  currentGuestId := 0
  openFiles := []
  guestNo := 1
  registered := none
  errno := 0
  maps := ⟨fun _ => 0, [], fun _ => 0⟩
  taken := 0
  given := 0

theorem newClient_inv : newClient.books.Inv :=
  ⟨⟨iff_of_false Bool.false_ne_true fun h => h rfl, (fun p h => by cases h), fun _ => rfl⟩,
    List.Subperm.refl _⟩

def plentySmc : SmcAlloc := ⟨some 0x200000, true, true, true⟩

def plentyOpen : OpenAlloc := ⟨true, fun _ => true, some (0x100000, ⟨0, 0, 0, 0, 0, 0⟩), plentySmc⟩

/-- a file is opened and released -/
theorem notify_record_iff_newClient :
    Along (Client.step false 0x4000) (RecordKept false 0x4000) newClient
      [.openFile plentyOpen, .release 1 plentySmc] := by
  refine (notify_record_iff false 0x4000 newClient_inv _).mpr ⟨fun _ _ cmd hc => ?_, fun _ => ?_, trivial⟩
  · cases hc
    exact Or.inl (by decide)
  · refine ⟨fun _ => ⟨by decide +kernel, by decide +kernel⟩, fun h => absurd ?_ h⟩
    exact ⟨0x200000, rfl, by decide +kernel⟩

/-- the second file is open, and the record that has been mapped twice is not registered -/
theorem other_file_unregistered :
    ∃ t, run (Client.step false 0x4000) newClient
        [.openFile plentyOpen, .openFile plentyOpen, .release 1 plentySmc] = some t ∧
      t.openFiles = [2] ∧ t.registered = none ∧ t.taken = 2 ∧ t.given = 1 ∧ ¬ t.books.Ok := by
  have hrun : (run (Client.step false 0x4000) newClient
      [.openFile plentyOpen, .openFile plentyOpen, .release 1 plentySmc]).map
      (fun t => (t.openFiles, t.registered, t.taken, t.given)) = some ([2], none, 2, 1) := by
    decide +kernel
  obtain ⟨t, ht, e⟩ := Option.map_eq_some_iff.mp hrun
  obtain ⟨h1, h2, h3, h4⟩ : t.openFiles = [2] ∧ t.registered = none ∧ t.taken = 2 ∧ t.given = 1 := by
    simpa only [Prod.mk.injEq] using e
  refine ⟨t, ht, h1, h2, h3, h4, fun hok => ?_⟩
  have h5 : t.registered.isSome ↔ t.openFiles ≠ [] := hok.registered
  rw [h1, h2] at h5
  exact Bool.false_ne_true (h5.mpr (List.cons_ne_nil _ _))

end SierraTee
