import SierraTee.Lib.Runs
import SierraTee.Paging.Descriptor

/-!
# Non-secure sections (`page_table.c`)

* `nsMaps_iff`     when every step keeps the references counted and the secure sections as they
                   were;
* `secure_shared`  a request for an address of a secure section.
-/

namespace SierraTee
open Function FlatMemory Runs

/-- the address of an entry of the first-level table at `pgd` -/
def l1Pte (pgd : Word) (i : BitVec 12) : Word := nth pgd i.toNat

/-- `struct sw_page_ref` -/
structure PageRef where
  l1Pte : Word
  refCnt : Word

/-- `SW_ERROR` if there is no memory for a new reference; `alloc` is the success of `sw_malloc` -/
def pageRefAdd (alloc : Bool) (pte : Word) : List PageRef → Option (List PageRef)
  | [] => if alloc then some [⟨pte, 1⟩] else none
  | r :: l =>
    if r.l1Pte = pte then some ({ r with refCnt := r.refCnt + 1 } :: l)
    else (pageRefAdd alloc pte l).map (r :: ·)

/-- with the count that is left, or `SW_ERROR` -/
def pageRefRelease (pte : Word) : List PageRef → List PageRef × Int
  | [] => ([], -1)
  | r :: l =>
    if r.l1Pte = pte then
      (if r.refCnt - 1 = 0 then l else { r with refCnt := r.refCnt - 1 } :: l, (r.refCnt - 1).toInt)
    else (r :: (pageRefRelease pte l).1, (pageRefRelease pte l).2)

structure NsMaps where
  mem : Memory
  /-- `page_ref_list` -/
  refs : List PageRef
  /-- the requests for each section that have been granted and not been taken back; a history,
  which the code does not have -/
  outstanding : BitVec 12 → Nat

namespace NsMaps
variable (pgd : Word) (s : NsMaps)

def entry (i : BitVec 12) : Word := s.mem (SierraTee.l1Pte pgd i)

def setEntry (i : BitVec 12) (w : Word) : NsMaps :=
  { s with mem := update s.mem (SierraTee.l1Pte pgd i) w }

def addRef (i : BitVec 12) (alloc : Bool) : NsMaps :=
  { s with refs := (pageRefAdd alloc (SierraTee.l1Pte pgd i) s.refs).getD s.refs }

/-- `none` is `SW_ERROR` -/
def mapNsSectionEntry (e : CpuPtEntry) (alloc : Bool) : Option NsMaps :=
  if descType (s.entry pgd (l1Index e.va)) = pageDescTypeFault then
    some ((s.setEntry pgd (l1Index e.va) (sectionEntry e)).addRef pgd (l1Index e.va) alloc)
  else if descType (s.entry pgd (l1Index e.va)) = pageDescTypeSection then
    if s.entry pgd (l1Index e.va) &&& pageDescL1SecNsMaskEntry = 0 then
      some ((s.setEntry pgd (l1Index e.va) (s.entry pgd (l1Index e.va) ||| pageDescL1SecNsMaskEntry)).addRef pgd
        (l1Index e.va) alloc)
    else some (s.addRef pgd (l1Index e.va) alloc)
  else none

def releaseRef (i : BitVec 12) : NsMaps :=
  { s with refs := (pageRefRelease (SierraTee.l1Pte pgd i) s.refs).1 }

def unmapNsSectionEntry (va : Word) : NsMaps :=
  if descType (s.entry pgd (l1Index va)) = pageDescTypeSection then
    if (pageRefRelease (SierraTee.l1Pte pgd (l1Index va)) s.refs).2 = 0 ∧
        s.entry pgd (l1Index va) &&& pageDescL1SecNsMaskEntry ≠ 0 then
      (s.releaseRef pgd (l1Index va)).setEntry pgd (l1Index va) 0
    else s.releaseRef pgd (l1Index va)
  else s

end NsMaps

/-- the entry of `__map_to_ns`; `multicore` is `CONFIG_SW_MULTICORE` -/
def nsEntry (multicore : Bool) (addr : Word) : CpuPtEntry where
  va := addr
  pa := addr
  dom := 0
  ap := 3
  xn := 0
  tex := 1
  c := 1
  b := 1
  ns := 1
  ng := 0
  s := if multicore then 1 else 0

inductive NsRequest where
  | mapToNs (addr : Word) (alloc : Bool)
  | unmapFromNs (va : Word)

namespace NsMaps
variable (multicore : Bool) (pgd : Word) (s : NsMaps)

/-- a request that fails changes nothing -/
def mapToNs (addr : Word) (alloc : Bool) : NsMaps :=
  match s.mapNsSectionEntry pgd (nsEntry multicore addr) alloc with
  | some t =>
    { t with
      outstanding :=
        update s.outstanding (l1Index addr) (s.outstanding (l1Index addr) + 1) }
  | none => s

def unmapFromNs (va : Word) : NsMaps :=
  { s.unmapNsSectionEntry pgd va with
    outstanding :=
      update s.outstanding (l1Index va) (s.outstanding (l1Index va) - 1) }

def step : NsRequest → Option NsMaps
  | .mapToNs addr alloc => some (s.mapToNs multicore pgd addr alloc)
  | .unmapFromNs va => some (s.unmapFromNs pgd va)

end NsMaps

/-! ## The property -/

def NsSection (w : Word) : Prop :=
  descType w = pageDescTypeSection ∧ w &&& pageDescL1SecNsMaskEntry ≠ 0

def SecureSection (w : Word) : Prop :=
  descType w = pageDescTypeSection ∧ w &&& pageDescL1SecNsMaskEntry = 0

def refCount (refs : List PageRef) (pte : Word) : Nat :=
  match refs.find? fun r => r.l1Pte = pte with
  | some r => r.refCnt.toNat
  | none => 0

/-- the references are the outstanding requests, and the entries are there for them -/
structure NsCounted (pgd : Word) (s : NsMaps) : Prop where
  count : ∀ i, refCount s.refs (l1Pte pgd i) = s.outstanding i
  present : ∀ i, NsSection (s.entry pgd i) ↔ 0 < s.outstanding i

/-- the secure sections of a table are as they were in `m` -/
def SecureKept (pgd : Word) (m : Memory) (s : NsMaps) : Prop :=
  ∀ i, SecureSection (m (l1Pte pgd i)) → s.entry pgd i = m (l1Pte pgd i)

/-- a step ends with the references counted and the secure sections of `m` as they were -/
def NsKept (multicore : Bool) (pgd : Word) (m : Memory) (s : NsMaps) (a : NsRequest) : Prop :=
  ∀ t, s.step multicore pgd a = some t → NsCounted pgd t ∧ SecureKept pgd m t

/-- the address of a request is not in a secure section; the first request for a section gets
memory for its reference, and the count of the others does not overflow -/
def NsHarmless (pgd : Word) (s : NsMaps) : NsRequest → Prop
  | .mapToNs addr alloc =>
    ¬ SecureSection (s.entry pgd (l1Index addr)) ∧
      (descType (s.entry pgd (l1Index addr)) = pageDescTypeFault → alloc = true) ∧
      (NsSection (s.entry pgd (l1Index addr)) →
        refCount s.refs (l1Pte pgd (l1Index addr)) + 1 < 2 ^ 32)
  | .unmapFromNs _ => True

/-- every entry has one reference at most, and no reference is left at zero -/
structure RefsOk (refs : List PageRef) : Prop where
  nodup : (refs.map PageRef.l1Pte).Nodup
  counted : ∀ r ∈ refs, r.refCnt ≠ 0

/-! ## References -/

section
variable {refs : List PageRef} {r : PageRef} {pte q : Word} {alloc : Bool}

theorem toNat_pos {w : Word} (h : w ≠ 0) : 0 < w.toNat :=
  Nat.pos_of_ne_zero fun e => h (BitVec.eq_of_toNat_eq e)

theorem refCount_cons : refCount (r :: refs) q
    = if r.l1Pte = q then r.refCnt.toNat else refCount refs q := by
  unfold refCount
  rw [List.find?_cons]
  by_cases h : r.l1Pte = q
  · simp [h]
  · simp [h]

theorem refCount_of_notMem (h : q ∉ refs.map PageRef.l1Pte) : refCount refs q = 0 := by
  induction refs with
  | nil => rfl
  | cons r refs ih =>
    rw [List.map_cons, List.mem_cons, not_or] at h
    rw [refCount_cons, if_neg (Ne.symm h.1)]
    exact ih h.2

theorem RefsOk.tail (h : RefsOk (r :: refs)) : RefsOk refs :=
  ⟨(List.nodup_cons.mp h.nodup).2, fun x hx => h.counted x (List.mem_cons_of_mem _ hx)⟩

theorem RefsOk.head (h : RefsOk (r :: refs)) : r.l1Pte ∉ refs.map PageRef.l1Pte :=
  (List.nodup_cons.mp h.nodup).1

theorem RefsOk.cons (h : RefsOk refs) (h1 : r.l1Pte ∉ refs.map PageRef.l1Pte) (h2 : r.refCnt ≠ 0) :
    RefsOk (r :: refs) :=
  ⟨List.nodup_cons.mpr ⟨h1, h.nodup⟩, List.forall_mem_cons.mpr ⟨h2, h.counted⟩⟩

theorem RefsOk.mem_iff (h : RefsOk refs) : q ∈ refs.map PageRef.l1Pte ↔ 0 < refCount refs q := by
  induction refs with
  | nil => simp [refCount]
  | cons r refs ih =>
    rw [List.map_cons, List.mem_cons, refCount_cons, ih h.tail]
    by_cases h1 : r.l1Pte = q
    · have h2 : 0 < r.refCnt.toNat := toNat_pos (h.counted r List.mem_cons_self)
      simp [h1, h2]
    · simp [h1, Ne.symm h1]

theorem toNat_succ (w : Word) : (w + 1).toNat = (w.toNat + 1) % 2 ^ 32 := BitVec.toNat_add ..

theorem pageRefAdd_new (h : pte ∉ refs.map PageRef.l1Pte) :
    pageRefAdd alloc pte refs = if alloc then some (refs ++ [⟨pte, 1⟩]) else none := by
  induction refs with
  | nil => rfl
  | cons r refs ih =>
    rw [List.map_cons, List.mem_cons, not_or] at h
    unfold pageRefAdd
    rw [if_neg (Ne.symm h.1), ih h.2]
    split_ifs <;> rfl

theorem refCount_append : refCount (refs ++ [⟨pte, 1⟩]) q
    = if q ∈ refs.map PageRef.l1Pte then refCount refs q else if q = pte then 1 else 0 := by
  induction refs with
  | nil =>
    rw [List.nil_append, refCount_cons]
    by_cases h : pte = q
    · simp [h]
    · simp [h, Ne.symm h, refCount]
  | cons r refs ih =>
    rw [List.cons_append, refCount_cons, ih, refCount_cons]
    by_cases h : r.l1Pte = q
    · simp [h]
    · simp [h, Ne.symm h]

theorem pageRefAdd_found (alloc : Bool) (h : pte ∈ refs.map PageRef.l1Pte) : ∃ refs',
    pageRefAdd alloc pte refs = some refs' ∧ refs'.map PageRef.l1Pte = refs.map PageRef.l1Pte ∧
      (∀ q, refCount refs' q
        = if q = pte then (refCount refs pte + 1) % 2 ^ 32 else refCount refs q) ∧
      (RefsOk refs → refCount refs pte + 1 < 2 ^ 32 → RefsOk refs') := by
  induction refs with
  | nil => cases h
  | cons r refs ih =>
    unfold pageRefAdd
    by_cases h1 : r.l1Pte = pte
    · rw [if_pos h1]
      refine ⟨_, rfl, rfl, fun q => ?_, fun hr hlt => ?_⟩
      · rw [refCount_cons, refCount_cons, refCount_cons, if_pos h1]
        show (if r.l1Pte = q then (r.refCnt + 1).toNat else _) = _
        rw [toNat_succ, h1]
        by_cases h2 : q = pte
        · rw [if_pos h2.symm, if_pos h2]
        · rw [if_neg (Ne.symm h2), if_neg h2, if_neg (Ne.symm h2)]
      · rw [refCount_cons, if_pos h1] at hlt
        refine hr.tail.cons hr.head fun h0 => ?_
        have h2 := congrArg BitVec.toNat h0
        change (r.refCnt + 1).toNat = 0 at h2
        rw [toNat_succ, Nat.mod_eq_of_lt hlt] at h2
        omega
    · rw [if_neg h1]
      rw [List.map_cons, List.mem_cons] at h
      obtain ⟨refs', h2, h3, h4, h5⟩ := ih (h.resolve_left (Ne.symm h1))
      refine ⟨r :: refs', by rw [h2]; rfl, by rw [List.map_cons, List.map_cons, h3], fun q => ?_,
        fun hr hlt => ?_⟩
      · rw [refCount_cons, refCount_cons, refCount_cons, if_neg h1, h4]
        by_cases h6 : r.l1Pte = q
        · rw [if_pos h6, if_pos h6, if_neg fun e => h1 (h6.trans e)]
        · rw [if_neg h6, if_neg h6]
      · rw [refCount_cons, if_neg h1] at hlt
        exact (h5 hr.tail hlt).cons (h3 ▸ hr.head) (hr.counted r List.mem_cons_self)

theorem pageRefRelease_none (h : pte ∉ refs.map PageRef.l1Pte) :
    pageRefRelease pte refs = (refs, -1) := by
  induction refs with
  | nil => rfl
  | cons r refs ih =>
    rw [List.map_cons, List.mem_cons, not_or] at h
    unfold pageRefRelease
    rw [if_neg (Ne.symm h.1), ih h.2]

theorem pageRefRelease_subset :
    (pageRefRelease pte refs).1.map PageRef.l1Pte ⊆ refs.map PageRef.l1Pte := by
  induction refs with
  | nil => exact fun _ h => h
  | cons r refs ih =>
    unfold pageRefRelease
    by_cases h1 : r.l1Pte = pte
    · rw [if_pos h1]
      show List.map PageRef.l1Pte (if _ then _ else _) ⊆ _
      split_ifs
      · exact List.subset_cons_self ..
      · exact fun _ h => h
    · rw [if_neg h1]
      exact List.cons_subset_cons _ ih

theorem pageRefRelease_found (hr : RefsOk refs) (h : pte ∈ refs.map PageRef.l1Pte) :
    RefsOk (pageRefRelease pte refs).1 ∧
      (∀ q, refCount (pageRefRelease pte refs).1 q
        = if q = pte then refCount refs pte - 1 else refCount refs q) ∧
      ((pageRefRelease pte refs).2 = 0 ↔ refCount refs pte = 1) := by
  induction refs with
  | nil => cases h
  | cons r refs ih =>
    unfold pageRefRelease
    by_cases h1 : r.l1Pte = pte
    · have hpos : 0 < r.refCnt.toNat :=
        toNat_pos (hr.counted r List.mem_cons_self)
      have hsub : (r.refCnt - 1).toNat = r.refCnt.toNat - 1 := by
        have h2 := r.refCnt.isLt
        rw [BitVec.toNat_sub]
        show (2 ^ 32 - 1 + r.refCnt.toNat) % 2 ^ 32 = _
        omega
      have hzero : r.refCnt - 1 = 0 ↔ r.refCnt.toNat = 1 := by
        rw [← BitVec.toNat_inj, hsub]
        show r.refCnt.toNat - 1 = 0 ↔ _
        omega
      rw [if_pos h1, refCount_cons, if_pos h1]
      refine ⟨?_, fun q => ?_, ?_⟩
      · show RefsOk (if _ then _ else _)
        split_ifs with h2
        · exact hr.tail
        · exact hr.tail.cons hr.head h2
      · show refCount (if _ then _ else _) q = _
        by_cases h3 : q = pte
        · rw [if_pos h3, h3]
          split_ifs with h2
          · rw [refCount_of_notMem (h1 ▸ hr.head), hzero.mp h2]
          · rw [refCount_cons, if_pos h1]
            exact hsub
        · rw [if_neg h3, refCount_cons, h1, if_neg (Ne.symm h3)]
          split_ifs
          · rfl
          · rw [refCount_cons]
            exact if_neg fun e => h3 (Eq.symm e)
      · rw [← hzero]
        show (r.refCnt - 1).toInt = 0 ↔ _
        exact ⟨fun h => BitVec.toInt_inj.mp h, fun h => by rw [h]; rfl⟩
    · rw [List.map_cons, List.mem_cons] at h
      obtain ⟨h2, h3, h4⟩ := ih hr.tail (h.resolve_left (Ne.symm h1))
      rw [if_neg h1]
      refine ⟨h2.cons (fun h => hr.head (pageRefRelease_subset h)) (hr.counted r List.mem_cons_self),
        fun q => ?_, ?_⟩
      · rw [refCount_cons, refCount_cons, refCount_cons, if_neg h1, h3]
        by_cases h6 : r.l1Pte = q
        · rw [if_pos h6, if_pos h6, if_neg fun e => h1 (h6.trans e)]
        · rw [if_neg h6, if_neg h6]
      · rw [refCount_cons, if_neg h1]
        exact h4

end

/-! ## Entries -/

section
variable {multicore : Bool} {pgd : Word} {s t : NsMaps} {m : Memory} {i j : BitVec 12} {w : Word}

theorem l1Pte_inj : l1Pte pgd i = l1Pte pgd j ↔ i = j := by
  refine ⟨fun h => ?_, fun h => by rw [h]⟩
  have hi := i.isLt
  have hj := j.isLt
  exact BitVec.eq_of_toNat_eq (nth_injective (by omega) (by omega) h)

theorem setEntry_entry : (s.setEntry pgd i w).entry pgd j = if j = i then w else s.entry pgd j := by
  show update _ _ _ _ = _
  rw [update_apply]
  by_cases h : j = i
  · rw [if_pos h, if_pos (l1Pte_inj.mpr h)]
  · rw [if_neg h, if_neg (mt l1Pte_inj.mp h)]
    rfl

theorem nsMask_iff : w &&& pageDescL1SecNsMaskEntry = 0 ↔ w.extractLsb' 19 1 = 0#1 := by
  have hmask : pageDescL1SecNsMaskEntry = field 1#1 19 := by decide
  rw [hmask]
  constructor
  · intro h
    have h1 := congrArg (fun x => BitVec.extractLsb' 19 1 x) h
    simp only [BitVec.extractLsb'_and] at h1
    rw [field_reads _ (by omega)] at h1
    revert h1
    generalize w.extractLsb' 19 1 = x
    decide +revert
  · intro h
    ext k hk
    rw [BitVec.getElem_and]
    show _ = (0#32)[k]
    rw [BitVec.getElem_zero]
    by_cases h1 : k = 19
    · have h2 : w[k] = (w.extractLsb' 19 1)[0] := by
        rw [BitVec.getElem_extractLsb', BitVec.getLsbD_eq_getElem (by omega)]
        simp only [h1]
      rw [h2, h, BitVec.getElem_zero, Bool.false_and]
    · have h2 : (field 1#1 19)[k] = false := by
        rw [field, BitVec.getElem_shiftLeft, BitVec.getElem_setWidth]
        by_cases h3 : k < 19
        · simp [h3]
        · rw [BitVec.getLsbD_of_ge _ _ (by omega), Bool.and_false]
      rw [h2, Bool.and_false]

theorem setNs_section (h : descType w = pageDescTypeSection) : NsSection (w ||| pageDescL1SecNsMaskEntry) := by
  have hmask : pageDescL1SecNsMaskEntry = field 1#1 19 := by decide
  refine ⟨?_, ?_⟩
  · rw [type_eq] at h ⊢
    rw [hmask, BitVec.extractLsb'_or, field_apart _ (by omega), BitVec.or_zero]
    exact h
  · rw [Ne, nsMask_iff, hmask, BitVec.extractLsb'_or, field_reads _ (by omega)]
    generalize w.extractLsb' 19 1 = x
    decide +revert

theorem nsEntry_section (addr : Word) : NsSection (sectionEntry (nsEntry multicore addr)) := by
  refine ⟨sectionEntry_type _, ?_⟩
  have h := congrArg Attrs.ns (section_reads (nsEntry multicore addr))
  rw [Ne, nsMask_iff]
  intro h1
  have h2 : 0#1 = 1#1 := h1.symm.trans h
  exact absurd h2 (by decide)

theorem NsSection.not_secure (h : NsSection w) : ¬ SecureSection w := fun h1 => h.2 h1.2

/-! ## One request -/

structure NsInv (pgd : Word) (m : Memory) (s : NsMaps) : Prop where
  refs : RefsOk s.refs
  counted : NsCounted pgd s
  kept : SecureKept pgd m s
  /-- no section becomes secure -/
  old : ∀ i, SecureSection (s.entry pgd i) → SecureSection (m (l1Pte pgd i))

theorem NsInv.unlisted (hs : NsInv pgd m s) (h : ¬ NsSection (s.entry pgd i)) :
    s.outstanding i = 0 ∧ l1Pte pgd i ∉ s.refs.map PageRef.l1Pte := by
  have h1 : s.outstanding i = 0 := by
    rw [hs.counted.present, Nat.pos_iff_ne_zero, not_not] at h
    exact h
  refine ⟨h1, fun h2 => ?_⟩
  rw [hs.refs.mem_iff, hs.counted.count, h1] at h2
  exact absurd h2 (Nat.lt_irrefl 0)

/-- one entry, its reference and its requests have changed, and it has not been a secure section -/
structure NsChange (pgd : Word) (i : BitVec 12) (s t : NsMaps) : Prop where
  refs : RefsOk t.refs
  count : refCount t.refs (l1Pte pgd i) = t.outstanding i
  present : NsSection (t.entry pgd i) ↔ 0 < t.outstanding i
  secure : SecureSection (t.entry pgd i) → t.entry pgd i = s.entry pgd i
  change : SecureSection (s.entry pgd i) → t.entry pgd i = s.entry pgd i
  others : ∀ j, j ≠ i → refCount t.refs (l1Pte pgd j) = refCount s.refs (l1Pte pgd j) ∧
    t.outstanding j = s.outstanding j ∧ t.entry pgd j = s.entry pgd j

theorem NsInv.change (hs : NsInv pgd m s) (h : NsChange pgd i s t) : NsInv pgd m t := by
  refine ⟨h.refs, ⟨fun j => ?_, fun j => ?_⟩, fun j hj => ?_, fun j hj => ?_⟩
  · by_cases hji : j = i
    · rw [hji]
      exact h.count
    · obtain ⟨h1, h2, -⟩ := h.others j hji
      rw [h1, h2]
      exact hs.counted.count j
  · by_cases hji : j = i
    · rw [hji]
      exact h.present
    · obtain ⟨-, h2, h3⟩ := h.others j hji
      rw [h2, h3]
      exact hs.counted.present j
  · have h1 := hs.kept j hj
    by_cases hji : j = i
    · rw [← h1, hji]
      rw [hji] at h1 hj
      exact h.change (h1 ▸ hj)
    · rw [(h.others j hji).2.2]
      exact h1
  · by_cases hji : j = i
    · rw [hji] at hj ⊢
      rw [h.secure hj] at hj
      exact hs.old i hj
    · rw [(h.others j hji).2.2] at hj
      exact hs.old j hj

theorem others_of (hrefs : ∀ q, q ≠ l1Pte pgd i → refCount t.refs q = refCount s.refs q)
    (hout : ∃ n, t.outstanding = update s.outstanding i n)
    (hent : ∀ j, j ≠ i → t.entry pgd j = s.entry pgd j) :
    ∀ j, j ≠ i → refCount t.refs (l1Pte pgd j) = refCount s.refs (l1Pte pgd j) ∧
      t.outstanding j = s.outstanding j ∧ t.entry pgd j = s.entry pgd j := by
  intro j hj
  obtain ⟨n, hn⟩ := hout
  refine ⟨hrefs _ (mt l1Pte_inj.mp hj), ?_, hent j hj⟩
  rw [hn, update_of_ne hj]

theorem mapToNs_fault {addr : Word} {alloc : Bool}
    (h : descType (s.entry pgd (l1Index addr)) = pageDescTypeFault) :
    s.mapToNs multicore pgd addr alloc =
      { (s.setEntry pgd (l1Index addr) (sectionEntry (nsEntry multicore addr))).addRef pgd
          (l1Index addr) alloc with
        outstanding :=
          update s.outstanding (l1Index addr) (s.outstanding (l1Index addr) + 1) } := by
  unfold NsMaps.mapToNs NsMaps.mapNsSectionEntry
  rw [if_pos (show descType (s.entry pgd (l1Index (nsEntry multicore addr).va)) = _ from h)]
  rfl

theorem section_ne_fault {e : Word} (h : descType e = pageDescTypeSection) :
    descType e ≠ pageDescTypeFault := by
  rw [h]
  decide

theorem mapToNs_secure {addr : Word} {alloc : Bool}
    (h : SecureSection (s.entry pgd (l1Index addr))) :
    (s.mapToNs multicore pgd addr alloc).entry pgd (l1Index addr)
      = s.entry pgd (l1Index addr) ||| pageDescL1SecNsMaskEntry := by
  have h1 : descType (s.entry pgd (l1Index (nsEntry multicore addr).va)) ≠ pageDescTypeFault :=
    section_ne_fault h.1
  unfold NsMaps.mapToNs NsMaps.mapNsSectionEntry
  rw [if_neg h1, if_pos (show descType (s.entry pgd (l1Index (nsEntry multicore addr).va)) = _ from h.1),
    if_pos (show s.entry pgd (l1Index (nsEntry multicore addr).va) &&& _ = _ from h.2)]
  exact setEntry_entry.trans (if_pos rfl)

theorem mapToNs_ns {addr : Word} {alloc : Bool} (h : NsSection (s.entry pgd (l1Index addr))) :
    s.mapToNs multicore pgd addr alloc =
      { s.addRef pgd (l1Index addr) alloc with
        outstanding :=
          update s.outstanding (l1Index addr) (s.outstanding (l1Index addr) + 1) } := by
  have h1 : descType (s.entry pgd (l1Index (nsEntry multicore addr).va)) ≠ pageDescTypeFault :=
    section_ne_fault h.1
  unfold NsMaps.mapToNs NsMaps.mapNsSectionEntry
  rw [if_neg h1, if_pos (show descType (s.entry pgd (l1Index (nsEntry multicore addr).va)) = _ from h.1),
    if_neg (show ¬ s.entry pgd (l1Index (nsEntry multicore addr).va) &&& _ = _ from h.2)]
  rfl

theorem mapToNs_other {addr : Word} {alloc : Bool}
    (h1 : descType (s.entry pgd (l1Index addr)) ≠ pageDescTypeFault)
    (h2 : descType (s.entry pgd (l1Index addr)) ≠ pageDescTypeSection) :
    s.mapToNs multicore pgd addr alloc = s := by
  unfold NsMaps.mapToNs NsMaps.mapNsSectionEntry
  rw [if_neg (show descType (s.entry pgd (l1Index (nsEntry multicore addr).va)) ≠ _ from h1),
    if_neg (show descType (s.entry pgd (l1Index (nsEntry multicore addr).va)) ≠ _ from h2)]

theorem addRef_new {alloc : Bool} (hn : l1Pte pgd i ∉ s.refs.map PageRef.l1Pte) :
    (s.addRef pgd i alloc).refs = if alloc then s.refs ++ [⟨l1Pte pgd i, 1⟩] else s.refs := by
  show (pageRefAdd _ _ _).getD _ = _
  rw [pageRefAdd_new hn]
  split_ifs <;> rfl

theorem setEntry_others {j : BitVec 12} (h : j ≠ i) : (s.setEntry pgd i w).entry pgd j = s.entry pgd j :=
  setEntry_entry.trans (if_neg h)

theorem NsInv.mapFault (hs : NsInv pgd m s) {addr : Word}
    (h : descType (s.entry pgd (l1Index addr)) = pageDescTypeFault) :
    NsInv pgd m (s.mapToNs multicore pgd addr true) := by
  have hsec : descType (s.entry pgd (l1Index addr)) ≠ pageDescTypeSection := by
    rw [h]
    decide
  have hns : ¬ NsSection (s.entry pgd (l1Index addr)) := fun h1 => hsec h1.1
  obtain ⟨hout, hnew⟩ := hs.unlisted hns
  rw [mapToNs_fault h]
  have hrefs : (NsMaps.addRef pgd (s.setEntry pgd (l1Index addr) (sectionEntry (nsEntry multicore addr)))
      (l1Index addr) true).refs = s.refs ++ [⟨l1Pte pgd (l1Index addr), 1⟩] := addRef_new hnew
  have hcount (q : Word) : refCount (s.refs ++ [⟨l1Pte pgd (l1Index addr), 1⟩]) q
      = if q = l1Pte pgd (l1Index addr) then 1 else refCount s.refs q := by
    rw [refCount_append]
    by_cases h1 : q ∈ s.refs.map PageRef.l1Pte
    · have h2 : q ≠ l1Pte pgd (l1Index addr) := fun e => hnew (e ▸ h1)
      rw [if_pos h1, if_neg h2]
    · rw [if_neg h1, refCount_of_notMem h1]
  have hent : NsMaps.entry pgd (s.setEntry pgd (l1Index addr) (sectionEntry (nsEntry multicore addr)))
      (l1Index addr) = sectionEntry (nsEntry multicore addr) := setEntry_entry.trans (if_pos rfl)
  have hnew' : NsSection (sectionEntry (nsEntry multicore addr)) := nsEntry_section addr
  refine hs.change (i := l1Index addr) ⟨?_, ?_, ?_, fun h1 => ?_, fun h1 => absurd h1.1 hsec, ?_⟩
  · show RefsOk (NsMaps.addRef pgd _ _ true).refs
    rw [hrefs]
    refine ⟨?_, fun r hr => ?_⟩
    · rw [List.map_append]
      exact List.Nodup.append hs.refs.nodup (List.nodup_singleton _)
        (List.disjoint_singleton.mpr hnew)
    · obtain hr | hr := List.mem_append.mp hr
      · exact hs.refs.counted r hr
      · rw [List.mem_singleton.mp hr]
        show 1#32 ≠ 0#32
        decide
  · show refCount (NsMaps.addRef pgd _ _ true).refs _
      = update s.outstanding (l1Index addr) (s.outstanding (l1Index addr) + 1) (l1Index addr)
    rw [hrefs, hcount, if_pos rfl, update_self, hout]
  · show NsSection (NsMaps.entry pgd (s.setEntry pgd _ _) _) ↔
      0 < update s.outstanding (l1Index addr) (s.outstanding (l1Index addr) + 1) (l1Index addr)
    rw [hent, update_self]
    exact iff_of_true hnew' (Nat.succ_pos _)
  · change SecureSection (NsMaps.entry pgd (s.setEntry pgd _ _) _) at h1
    rw [hent] at h1
    exact absurd h1 hnew'.not_secure
  · refine others_of (fun q hq => ?_) ⟨_, rfl⟩ fun j hj => setEntry_others hj
    show refCount (NsMaps.addRef pgd _ _ true).refs q = _
    rw [hrefs, hcount, if_neg hq]

theorem NsInv.mapNs (hs : NsInv pgd m s) {addr : Word} {alloc : Bool}
    (h : NsSection (s.entry pgd (l1Index addr)))
    (hlt : refCount s.refs (l1Pte pgd (l1Index addr)) + 1 < 2 ^ 32) :
    NsInv pgd m (s.mapToNs multicore pgd addr alloc) := by
  have hpos := (hs.counted.present _).mp h
  rw [← hs.counted.count, ← hs.refs.mem_iff] at hpos
  obtain ⟨refs', h1, -, h3, h4⟩ := pageRefAdd_found alloc hpos
  have hrefs : (s.addRef pgd (l1Index addr) alloc).refs = refs' := by
    show (pageRefAdd _ _ _).getD _ = _
    rw [h1]
    rfl
  rw [mapToNs_ns h]
  refine hs.change (i := l1Index addr) ⟨?_, ?_, ?_, fun _ => rfl, fun _ => rfl, ?_⟩
  · show RefsOk (s.addRef pgd _ alloc).refs
    rw [hrefs]
    exact h4 hs.refs hlt
  · show refCount (s.addRef pgd _ alloc).refs _
      = update s.outstanding (l1Index addr) (s.outstanding (l1Index addr) + 1) (l1Index addr)
    rw [hrefs, h3, if_pos rfl, update_self, Nat.mod_eq_of_lt hlt, hs.counted.count]
  · show NsSection (s.entry pgd _) ↔
      0 < update s.outstanding (l1Index addr) (s.outstanding (l1Index addr) + 1) (l1Index addr)
    rw [update_self]
    exact iff_of_true h (Nat.succ_pos _)
  · refine others_of (fun q hq => ?_) ⟨_, rfl⟩ fun j _ => rfl
    show refCount (s.addRef pgd _ alloc).refs q = _
    rw [hrefs, h3, if_neg hq]

theorem NsInv.unmapOther (hs : NsInv pgd m s) {va : Word}
    (h : ¬ NsSection (s.entry pgd (l1Index va))) : s.unmapFromNs pgd va = s := by
  obtain ⟨hout, hnew⟩ := hs.unlisted h
  have hhist : update s.outstanding (l1Index va) (s.outstanding (l1Index va) - 1)
      = s.outstanding := by
    rw [hout, Nat.zero_sub, ← hout, update_eq_self]
  have hkeep : s.unmapNsSectionEntry pgd va = s := by
    unfold NsMaps.unmapNsSectionEntry NsMaps.releaseRef
    rw [pageRefRelease_none hnew]
    split_ifs with h1 h2
    · have h3 : (-1 : Int) = 0 := h2.1
      cases h3
    · rfl
    · rfl
  unfold NsMaps.unmapFromNs
  rw [hkeep, hhist]

theorem NsInv.unmapNs (hs : NsInv pgd m s) {va : Word} (h : NsSection (s.entry pgd (l1Index va))) :
    NsInv pgd m (s.unmapFromNs pgd va) := by
  have hpos := (hs.counted.present _).mp h
  have hcount := hs.counted.count (l1Index va)
  have hmem := hpos
  rw [← hs.counted.count, ← hs.refs.mem_iff] at hmem
  obtain ⟨h1, h2, h3⟩ := pageRefRelease_found hs.refs hmem
  have hunmap : s.unmapNsSectionEntry pgd va
      = if s.outstanding (l1Index va) = 1 then
          (s.releaseRef pgd (l1Index va)).setEntry pgd (l1Index va) 0
        else s.releaseRef pgd (l1Index va) := by
    unfold NsMaps.unmapNsSectionEntry
    rw [hcount] at h3
    rw [if_pos h.1]
    by_cases h4 : s.outstanding (l1Index va) = 1
    · rw [if_pos ⟨h3.mpr h4, h.2⟩, if_pos h4]
    · rw [if_neg fun h5 => h4 (h3.mp h5.1), if_neg h4]
  have hrefs : (s.unmapNsSectionEntry pgd va).refs
      = (pageRefRelease (l1Pte pgd (l1Index va)) s.refs).1 := by
    rw [hunmap]
    split_ifs <;> rfl
  have hent : (s.unmapNsSectionEntry pgd va).entry pgd (l1Index va)
      = if s.outstanding (l1Index va) = 1 then 0 else s.entry pgd (l1Index va) := by
    rw [hunmap]
    split_ifs
    · exact setEntry_entry.trans (if_pos rfl)
    · rfl
  have hzero : ¬ NsSection 0 ∧ ¬ SecureSection 0 :=
    ⟨fun h => absurd h.1 (by decide), fun h => absurd h.1 (by decide)⟩
  refine hs.change (i := l1Index va) ⟨?_, ?_, ?_, fun h4 => ?_, fun h4 => absurd h4 h.not_secure, ?_⟩
  · show RefsOk (s.unmapNsSectionEntry pgd va).refs
    rw [hrefs]
    exact h1
  · show refCount (s.unmapNsSectionEntry pgd va).refs _
      = update s.outstanding (l1Index va) (s.outstanding (l1Index va) - 1) (l1Index va)
    rw [hrefs, h2, if_pos rfl, update_self, hcount]
  · show NsSection ((s.unmapNsSectionEntry pgd va).entry pgd _) ↔
      0 < update s.outstanding (l1Index va) (s.outstanding (l1Index va) - 1) (l1Index va)
    rw [hent, update_self]
    split_ifs with h4
    · exact iff_of_false hzero.1 (by omega)
    · exact iff_of_true h (by omega)
  · change SecureSection ((s.unmapNsSectionEntry pgd va).entry pgd _) at h4
    rw [hent] at h4
    split_ifs at h4
    · exact absurd h4 hzero.2
    · exact absurd h4 h.not_secure
  · refine others_of (fun q hq => ?_) ⟨_, rfl⟩ fun j hj => ?_
    · show refCount (s.unmapNsSectionEntry pgd va).refs q = _
      rw [hrefs, h2, if_neg hq]
    · show (s.unmapNsSectionEntry pgd va).entry pgd j = _
      rw [hunmap]
      split_ifs
      · exact setEntry_others hj
      · rfl

/-- **One request** that is harmless keeps the references counted. -/
theorem NsInv.step {a : NsRequest} (hs : NsInv pgd m s) (ha : NsHarmless pgd s a)
    (h : s.step multicore pgd a = some t) : NsInv pgd m t := by
  cases a with
  | mapToNs addr alloc =>
    cases h
    obtain ⟨hsec, halloc, hlt⟩ := ha
    by_cases h1 : descType (s.entry pgd (l1Index addr)) = pageDescTypeFault
    · rw [halloc h1]
      exact hs.mapFault h1
    by_cases h2 : descType (s.entry pgd (l1Index addr)) = pageDescTypeSection
    · have h3 : NsSection (s.entry pgd (l1Index addr)) := ⟨h2, fun h3 => hsec ⟨h2, h3⟩⟩
      exact hs.mapNs h3 (hlt h3)
    · rw [mapToNs_other h1 h2]
      exact hs
  | unmapFromNs va =>
    cases h
    by_cases h1 : NsSection (s.entry pgd (l1Index va))
    · exact hs.unmapNs h1
    · rw [hs.unmapOther h1]
      exact hs

theorem NsInv.harmless {a : NsRequest} (hs : NsInv pgd m s) (h : NsKept multicore pgd m s a) :
    NsHarmless pgd s a := by
  cases a with
  | unmapFromNs va => trivial
  | mapToNs addr alloc =>
    obtain ⟨hc, hk⟩ := h _ rfl
    have hcount := hc.count (l1Index addr)
    refine ⟨fun h1 => ?_, fun h1 => ?_, fun h1 => ?_⟩
    · have h2 := hk _ (hs.old _ h1)
      rw [mapToNs_secure h1, ← hs.kept _ (hs.old _ h1)] at h2
      have h3 := setNs_section h1.1
      rw [h2] at h3
      exact h3.not_secure h1
    · by_contra h2
      rw [Bool.not_eq_true] at h2
      have hns : ¬ NsSection (s.entry pgd (l1Index addr)) := fun h3 => by
        rw [h3.1] at h1
        exact absurd h1 (by decide)
      obtain ⟨hout, hnew⟩ := hs.unlisted hns
      rw [mapToNs_fault h1, h2] at hcount
      change refCount (NsMaps.addRef pgd (s.setEntry pgd (l1Index addr) _) (l1Index addr) false).refs _
        = update s.outstanding (l1Index addr) (s.outstanding (l1Index addr) + 1)
          (l1Index addr) at hcount
      rw [update_self, hout] at hcount
      have h3 : (NsMaps.addRef pgd (s.setEntry pgd (l1Index addr)
          (sectionEntry (nsEntry multicore addr))) (l1Index addr) false).refs = s.refs :=
        addRef_new hnew
      rw [h3, refCount_of_notMem hnew] at hcount
      cases hcount
    · have hpos := (hs.counted.present _).mp h1
      rw [← hs.counted.count, ← hs.refs.mem_iff] at hpos
      obtain ⟨refs', h2, -, h3, -⟩ := pageRefAdd_found alloc hpos
      have hrefs : (s.addRef pgd (l1Index addr) alloc).refs = refs' := by
        show (pageRefAdd _ _ _).getD _ = _
        rw [h2]
        rfl
      rw [mapToNs_ns h1] at hcount
      change refCount (s.addRef pgd (l1Index addr) alloc).refs _
        = update s.outstanding (l1Index addr) (s.outstanding (l1Index addr) + 1)
          (l1Index addr) at hcount
      rw [update_self, hrefs, h3, if_pos rfl, ← hs.counted.count] at hcount
      rw [← hcount]
      exact Nat.mod_lt _ (by decide)

/-- **Shared sections**: in every run from a table with its references counted, they stay counted
and the secure sections stay as they are exactly while every request is harmless. -/
theorem nsMaps_iff (hr : RefsOk s.refs) (hc : NsCounted pgd s) (l : List NsRequest) :
    Along (NsMaps.step multicore pgd) (NsHarmless pgd) s l ↔
      Along (NsMaps.step multicore pgd) (NsKept multicore pgd s.mem) s l := by
  apply along_iff (NsInv pgd s.mem)
  · intro u a t hu ha h
    exact hu.step ha h
  · intro u a hu
    refine ⟨fun ha t h => ?_, fun h => hu.harmless h⟩
    have h1 := hu.step ha h
    exact ⟨h1.counted, h1.kept⟩
  · exact ⟨hr, hc, fun _ _ => rfl, fun _ h => h⟩

end

/-! ## A request for an address of a secure section -/

/-- no request yet; the first section is secure, and the others are not mapped -/
def secureFirst : NsMaps where
  mem := fun a => if a = 0x4000 then 0x2 else 0
  refs := []
  outstanding := fun _ => 0

theorem secureFirst_entry (i : BitVec 12) :
    secureFirst.entry 0x4000 i = if i = 0 then 0x2 else 0 := by
  have h0 : l1Pte 0x4000 0 = 0x4000 := by decide
  show (if l1Pte 0x4000 i = 0x4000 then _ else _) = _
  by_cases h : i = 0
  · rw [if_pos h, if_pos (h ▸ h0)]
  · rw [if_neg h, if_neg fun e => h (l1Pte_inj.mp (e.trans h0.symm))]

theorem secureFirst_counted : RefsOk secureFirst.refs ∧ NsCounted 0x4000 secureFirst := by
  refine ⟨⟨List.nodup_nil, fun r hr => absurd hr List.not_mem_nil⟩, fun i => rfl, fun i => ?_⟩
  rw [secureFirst_entry]
  refine iff_of_false ?_ (Nat.lt_irrefl 0)
  split_ifs
  · exact fun h => h.2 (by decide)
  · exact fun h => absurd h.1 (by decide)

theorem secure_shared : ¬ Along (NsMaps.step false 0x4000) (NsKept false 0x4000 secureFirst.mem)
    secureFirst [.mapToNs 0x1000 true] := by
  intro h
  have h1 := (h.1 _ rfl).2 0 ⟨by decide, by decide⟩
  revert h1
  decide

theorem nsMaps_iff_secureFirst :
    Along (NsMaps.step false 0x4000) (NsHarmless 0x4000) secureFirst [.mapToNs 0x100000 true] ↔
      Along (NsMaps.step false 0x4000) (NsKept false 0x4000 secureFirst.mem) secureFirst
        [.mapToNs 0x100000 true] :=
  nsMaps_iff secureFirst_counted.1 secureFirst_counted.2 _

end SierraTee
