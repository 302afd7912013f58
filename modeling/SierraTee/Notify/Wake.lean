import SierraTee.Notify.Notifier

/-!
# Every notification wakes its waiter once (`tzhyp_boot.c`, `otz_client_main.c`)

* `notifications_iff`    every notification wakes its waiter once exactly when every step fits;
* `second_notification`  two commands that are done before the interrupt is taken.
-/

namespace SierraTee
open Function FlatMemory Runs

/-! ## The property -/

/-- every notification has been a wake-up or is unread, and the guest of one that is unread has its flag
set or an interrupt raised for it that has not been taken -/
structure NotifyOk (s : Notifier) : Prop where
  counted : s.box.Counted
  onItsWay : ∀ g, s.box.slot g ≠ none →
    (s.guest g).pendingNotify = true ∨ s.softInt = true ∧ s.announced g = true

/-- a step ends with nothing lost, and writes no record that is unread -/
def NotifyKept (s : Notifier) (a : NotifyOp) : Prop :=
  ∀ t, s.step a = some t →
    NotifyOk t ∧ ∀ g, s.box.slot g ≠ none → (t.guest g).notifyData = (s.guest g).notifyData

def WaiterFound (s : Notifier) : Prop :=
  ∃ d e, (s.guest s.nsSysCurrent).notifyData = some d ∧
    findEncode d.context (s.guest s.nsSysCurrent).devFileList = some e ∧ e.sendWaitFlag = false

def HasRecord (s : Notifier) (g : Nat) : Prop :=
  ∃ d, s.recordOf g = some d ∧ d.guestNo = BitVec.ofNat 32 g

/-- the record of the guest is there and empty; the interrupt is taken by the guest it has been
raised for, and by no other, which finds the waiter -/
def NotifyFits (s : Notifier) : NotifyOp → Prop
  | .notifyNs (some t) => s.secure = true → ∀ n, t.notification = some n → 0 ≤ n.1 → n.1 < s.guestsNo →
      HasRecord s n.1.toNat ∧ s.box.slot n.1.toNat = none
  | .ipiSecureNotify => s.secure = false → s.softInt = true →
      (∀ g, s.announced g = true → g = s.nsSysCurrent) ∧ WaiterFound s
  | _ => True

/-! ## What holds in a run -/

structure NotifyInv (s : Notifier) : Prop where
  ok : NotifyOk s
  /-- what is unread is in the record -/
  unread : ∀ g c, s.box.slot g = some c → ∃ d, (s.guest g).notifyData = some d ∧ d.context = c
  /-- an interrupt is raised for a guest with an unread notification, that is not flagged as well -/
  announced : ∀ g, s.announced g = true → s.box.slot g ≠ none ∧ (s.guest g).pendingNotify = false
  pending : ∀ g, (s.guest g).pendingNotify = true → s.box.slot g ≠ none
  softInt : s.softInt = true → ∃ g, s.announced g = true

section
variable {s t : Notifier} {g : Nat} {c : EncodeContext} {pid : Word}

/-! ## Raising a notification -/

theorem setNotifyData_lost (h : ¬ HasRecord s g) :
    s.setNotifyData g c pid = { s with box := s.box.lose g c } := by
  unfold Notifier.setNotifyData
  cases hr : s.recordOf g with
  | none => rfl
  | some d => exact if_pos fun hd => h ⟨d, hr, hd⟩

structure Raised (s : Notifier) (g : Nat) (d : OtzcNotifyData) (t : Notifier) : Prop where
  box : t.box = s.box.send g d.context
  record : (t.guest g).notifyData = some d
  others : ∀ i, i ≠ g → t.guest i = s.guest i ∧ t.announced i = s.announced i
  flagged : (t.guest g).pendingNotify = true ∧ t.announced g = s.announced g ∧ t.softInt = s.softInt ∨
    (t.guest g).pendingNotify = (s.guest g).pendingNotify ∧ t.softInt = true ∧ t.announced g = true

theorem raised_setPending (d : OtzcNotifyData) : Raised s g d ((s.writeRecord g d).setPending g true) where
  box := rfl
  record := by
    show (update (s.writeRecord g d).guest g _ g).notifyData = some d
    rw [update_self]
    show (update s.guest g _ g).notifyData = some d
    rw [update_self]
  others i hi := ⟨(update_of_ne hi _ _).trans (update_of_ne hi _ _), rfl⟩
  flagged := by
    refine Or.inl ⟨?_, rfl, rfl⟩
    show (update (s.writeRecord g d).guest g _ g).pendingNotify = true
    rw [update_self]

theorem raised_generate (d : OtzcNotifyData) : Raised s g d ((s.writeRecord g d).generateSoftInt g) where
  box := rfl
  record := by
    show (update s.guest g _ g).notifyData = some d
    rw [update_self]
  others i hi := ⟨update_of_ne hi _ _, update_of_ne hi _ _⟩
  flagged := by
    refine Or.inr ⟨?_, rfl, update_self ..⟩
    show (update s.guest g _ g).pendingNotify = _
    rw [update_self]

theorem setNotifyData_raised (h : HasRecord s g) :
    ∃ d, d.context = c ∧ Raised s g d (s.setNotifyData g c pid) := by
  obtain ⟨d, hr, hd⟩ := h
  refine ⟨⟨d.guestNo, c.devFileId, c.serviceId, pid, c.sessionId, c.encId⟩, rfl, ?_⟩
  unfold Notifier.setNotifyData
  rw [hr]
  dsimp only
  rw [if_neg (not_not.mpr hd)]
  split_ifs
  · exact raised_setPending _
  · exact raised_setPending _
  · exact raised_generate _

theorem NotifyInv.raised (h : NotifyInv s) {d : OtzcNotifyData} (ht : Raised s g d t)
    (hslot : s.box.slot g = none) : NotifyInv t := by
  have hsend := (Mailbox.counted_send (k := d.context) h.ok.counted).mpr hslot
  have hslots (i : Nat) : t.box.slot i = if i = g then some d.context else s.box.slot i := by
    rw [ht.box]
    exact Mailbox.send_slot i
  have hannounced : s.announced g = false :=
    Bool.eq_false_iff.mpr fun h1 => (h.announced g h1).1 hslot
  have hpending : (s.guest g).pendingNotify = false :=
    Bool.eq_false_iff.mpr fun h1 => h.pending g h1 hslot
  have hsoft : s.softInt = true → t.softInt = true := by
    intro h1
    obtain ⟨-, -, h2⟩ | ⟨-, h2, -⟩ := ht.flagged
    · exact h2.trans h1
    · exact h2
  refine ⟨⟨ht.box ▸ hsend, fun i hi => ?_⟩, fun i c hc => ?_, fun i hi => ?_, fun i hi => ?_, fun h1 => ?_⟩
  · by_cases hig : i = g
    · rw [hig]
      obtain ⟨h2, -, -⟩ | ⟨-, h2, h3⟩ := ht.flagged
      · exact Or.inl h2
      · exact Or.inr ⟨h2, h3⟩
    · rw [hslots, if_neg hig] at hi
      obtain ⟨h2, h3⟩ := ht.others i hig
      rw [h2, h3]
      exact (h.ok.onItsWay i hi).imp_right fun h4 => ⟨hsoft h4.1, h4.2⟩
  · rw [hslots] at hc
    by_cases hig : i = g
    · rw [if_pos hig] at hc
      rw [hig]
      exact ⟨d, ht.record, Option.some.inj hc⟩
    · rw [if_neg hig] at hc
      rw [(ht.others i hig).1]
      exact h.unread i c hc
  · rw [hslots]
    by_cases hig : i = g
    · rw [if_pos hig]
      rw [hig] at hi ⊢
      refine ⟨fun e => (by cases e), ?_⟩
      obtain ⟨-, h2, -⟩ | ⟨h2, -, -⟩ := ht.flagged
      · rw [h2, hannounced] at hi
        cases hi
      · exact h2.trans hpending
    · obtain ⟨h2, h3⟩ := ht.others i hig
      rw [if_neg hig, h2]
      exact h.announced i (h3 ▸ hi)
  · rw [hslots]
    by_cases hig : i = g
    · rw [if_pos hig]
      exact fun e => by cases e
    · rw [if_neg hig]
      exact h.pending i ((ht.others i hig).1 ▸ hi)
  · obtain ⟨-, h2, h3⟩ | ⟨-, -, h2⟩ := ht.flagged
    · obtain ⟨i, hi⟩ := h.softInt (h3 ▸ h1)
      have hig : i ≠ g := fun e => absurd (e ▸ hi) (Bool.eq_false_iff.mp hannounced)
      exact ⟨i, (ht.others i hig).2.trans hi⟩
    · exact ⟨g, h2⟩

/-! ## The interrupt -/

theorem ipiSecureNotify_found {d : OtzcNotifyData} {e : EncodeWait}
    (hd : (s.guest s.nsSysCurrent).notifyData = some d)
    (he : findEncode d.context (s.guest s.nsSysCurrent).devFileList = some e)
    (hw : e.sendWaitFlag = false) :
    s.ipiSecureNotify =
      { s.acknowledge.setGuest s.nsSysCurrent { s.guest s.nsSysCurrent with
          devFileList := setWaitFlag d.context true (s.guest s.nsSysCurrent).devFileList } with
        box := s.box.receive s.nsSysCurrent d.context } := by
  unfold Notifier.ipiSecureNotify
  simp only [hd, he, hw]
  rfl

theorem ipiSecureNotify_missed (h : ¬ WaiterFound s) :
    s.ipiSecureNotify = { s.acknowledge with box := s.box.discard s.nsSysCurrent } := by
  unfold Notifier.ipiSecureNotify
  dsimp only
  cases hd : (s.guest s.nsSysCurrent).notifyData with
  | none => rfl
  | some d =>
    dsimp only
    cases he : findEncode d.context (s.guest s.nsSysCurrent).devFileList with
    | none => rfl
    | some e =>
      refine if_pos ?_
      by_contra hw
      exact h ⟨d, e, hd, he, Bool.eq_false_iff.mpr hw⟩

theorem update_guest (guest : Nat → NotifyGuest) (g : Nat) (files : List OtzcDevFile) (i : Nat) :
    (update guest g { guest g with devFileList := files } i).notifyData
        = (guest i).notifyData ∧
      (update guest g { guest g with devFileList := files } i).pendingNotify
        = (guest i).pendingNotify := by
  by_cases hi : i = g
  · rw [hi, update_self]
    exact ⟨rfl, rfl⟩
  · rw [update_of_ne hi]
    exact ⟨rfl, rfl⟩

theorem ipiSecureNotify_guest (s : Notifier) (i : Nat) :
    (s.ipiSecureNotify.guest i).notifyData = (s.guest i).notifyData ∧
      (s.ipiSecureNotify.guest i).pendingNotify = (s.guest i).pendingNotify := by
  by_cases h : WaiterFound s
  · obtain ⟨d, e, hd, he, hw⟩ := h
    rw [ipiSecureNotify_found hd he hw]
    exact update_guest s.guest s.nsSysCurrent _ i
  · rw [ipiSecureNotify_missed h]
    exact ⟨rfl, rfl⟩

theorem ipiSecureNotify_announced (s : Notifier) (i : Nat) :
    s.ipiSecureNotify.announced i = false ∧ s.ipiSecureNotify.softInt = false := by
  by_cases h : WaiterFound s
  · obtain ⟨d, e, hd, he, hw⟩ := h
    rw [ipiSecureNotify_found hd he hw]
    exact ⟨rfl, rfl⟩
  · rw [ipiSecureNotify_missed h]
    exact ⟨rfl, rfl⟩

theorem ipiSecureNotify_slot (s : Notifier) (i : Nat) :
    s.ipiSecureNotify.box.slot i = if i = s.nsSysCurrent then none else s.box.slot i := by
  by_cases h : WaiterFound s
  · obtain ⟨d, e, hd, he, hw⟩ := h
    rw [ipiSecureNotify_found hd he hw]
    exact Mailbox.receive_slot i
  · rw [ipiSecureNotify_missed h]
    exact Mailbox.discard_slot i

/-- **The interrupt** loses nothing exactly when it has been raised for the guest that takes it, and for
no other, and the waiter is found. -/
theorem ipiSecureNotify_ok (h : NotifyInv s) (hsoft : s.softInt = true) :
    NotifyOk s.ipiSecureNotify ↔
      (∀ g, s.announced g = true → g = s.nsSysCurrent) ∧ WaiterFound s := by
  obtain ⟨g0, hg0⟩ := h.softInt hsoft
  constructor
  · intro hok
    have honly (g : Nat) (hg : s.announced g = true) : g = s.nsSysCurrent := by
      by_contra hne
      obtain ⟨hslot, hpending⟩ := h.announced g hg
      have h1 : s.ipiSecureNotify.box.slot g ≠ none := by
        rw [ipiSecureNotify_slot, if_neg hne]
        exact hslot
      obtain h2 | ⟨-, h2⟩ := hok.onItsWay g h1
      · rw [(ipiSecureNotify_guest s g).2, hpending] at h2
        cases h2
      · rw [(ipiSecureNotify_announced s g).1] at h2
        cases h2
    refine ⟨honly, ?_⟩
    by_contra hmissed
    have h1 := hok.counted
    rw [ipiSecureNotify_missed hmissed] at h1
    have h2 := (Mailbox.counted_discard h.ok.counted).mp h1
    exact (h.announced g0 hg0).1 (honly g0 hg0 ▸ h2)
  · rintro ⟨honly, d, e, hd, he, hw⟩
    have hslot := (h.announced g0 hg0).1
    rw [honly g0 hg0] at hslot
    obtain ⟨c, hc⟩ := Option.ne_none_iff_exists'.mp hslot
    obtain ⟨d', hd', hdc⟩ := h.unread _ c hc
    cases hd.symm.trans hd'
    constructor
    · rw [ipiSecureNotify_found hd he hw]
      exact (Mailbox.counted_receive h.ok.counted).mpr (hdc ▸ hc)
    · intro i hi
      rw [ipiSecureNotify_slot] at hi
      by_cases hic : i = s.nsSysCurrent
      · exact absurd (if_pos hic) hi
      · rw [if_neg hic] at hi
        rw [(ipiSecureNotify_guest s i).2]
        obtain h1 | ⟨-, h1⟩ := h.ok.onItsWay i hi
        · exact Or.inl h1
        · exact absurd (honly i h1) hic

theorem NotifyInv.interrupt (h : NotifyInv s) (hsoft : s.softInt = true)
    (honly : ∀ g, s.announced g = true → g = s.nsSysCurrent) (hok : NotifyOk s.ipiSecureNotify) :
    NotifyInv s.ipiSecureNotify := by
  obtain ⟨g0, hg0⟩ := h.softInt hsoft
  refine ⟨hok, fun i c hc => ?_, fun i hi => ?_, fun i hi => ?_, fun h1 => ?_⟩
  · rw [ipiSecureNotify_slot] at hc
    rw [(ipiSecureNotify_guest s i).1]
    by_cases hic : i = s.nsSysCurrent
    · rw [if_pos hic] at hc
      cases hc
    · rw [if_neg hic] at hc
      exact h.unread i c hc
  · rw [(ipiSecureNotify_announced s i).1] at hi
    cases hi
  · rw [(ipiSecureNotify_guest s i).2] at hi
    rw [ipiSecureNotify_slot]
    by_cases hic : i = s.nsSysCurrent
    · have h2 := (h.announced g0 hg0).2
      rw [honly g0 hg0, ← hic, hi] at h2
      cases h2
    · rw [if_neg hic]
      exact h.pending i hi
  · rw [(ipiSecureNotify_announced s 0).2] at h1
    cases h1

/-! ## The other steps -/

theorem NotifyInv.same (h : NotifyInv s) (hbox : t.box = s.box) (hsoft : t.softInt = s.softInt)
    (hann : t.announced = s.announced)
    (hguest : ∀ i, (t.guest i).notifyData = (s.guest i).notifyData ∧
      (t.guest i).pendingNotify = (s.guest i).pendingNotify) : NotifyInv t := by
  refine ⟨⟨hbox ▸ h.ok.counted, fun i hi => ?_⟩, fun i c hc => ?_, fun i hi => ?_, fun i hi => ?_, ?_⟩
  · rw [(hguest i).2, hsoft, hann]
    exact h.ok.onItsWay i (hbox ▸ hi)
  · rw [(hguest i).1]
    exact h.unread i c (hbox ▸ hc)
  · rw [hbox, (hguest i).2]
    exact h.announced i (hann ▸ hi)
  · rw [hbox]
    exact h.pending i ((hguest i).2 ▸ hi)
  · rw [hsoft, hann]
    exact h.softInt

theorem guest_driver (s : Notifier) (files : List OtzcDevFile) (i : Nat) :
    ((s.setGuest s.nsSysCurrent { s.guest s.nsSysCurrent with devFileList := files }).guest i).notifyData
        = (s.guest i).notifyData ∧
      ((s.setGuest s.nsSysCurrent
          { s.guest s.nsSysCurrent with devFileList := files }).guest i).pendingNotify
        = (s.guest i).pendingNotify :=
  update_guest s.guest s.nsSysCurrent files i

theorem NotifyInv.announce (h : NotifyInv s) (hp : (s.guest g).pendingNotify = true) :
    NotifyInv ((s.generateSoftInt g).setPending g false) := by
  have hguest (i : Nat) : ((s.generateSoftInt g).setPending g false).guest i
      = if i = g then { s.guest g with pendingNotify := false } else s.guest i :=
    update_apply ..
  have hann (i : Nat) : ((s.generateSoftInt g).setPending g false).announced i
      = if i = g then true else s.announced i := update_apply ..
  have hslot := h.pending g hp
  refine ⟨⟨h.ok.counted, fun i hi => ?_⟩, fun i c hc => ?_, fun i hi => ?_, fun i hi => ?_, fun _ => ⟨g, ?_⟩⟩
  · rw [hguest, hann]
    by_cases hig : i = g
    · rw [if_pos hig, if_pos hig]
      exact Or.inr ⟨rfl, rfl⟩
    · rw [if_neg hig, if_neg hig]
      exact (h.ok.onItsWay i hi).imp_right fun h1 => ⟨rfl, h1.2⟩
  · rw [hguest]
    by_cases hig : i = g
    · rw [if_pos hig]
      exact h.unread g c (hig ▸ hc)
    · rw [if_neg hig]
      exact h.unread i c hc
  · rw [hguest]
    rw [hann] at hi
    by_cases hig : i = g
    · rw [if_pos hig]
      exact ⟨hig ▸ hslot, rfl⟩
    · rw [if_neg hig] at hi ⊢
      exact h.announced i hi
  · rw [hguest] at hi
    by_cases hig : i = g
    · rw [if_pos hig] at hi
      cases hi
    · rw [if_neg hig] at hi
      exact h.pending i hi
  · rw [hann, if_pos rfl]

theorem nonSecureReturn_notifyData (s : Notifier) (i : Nat) :
    (s.nonSecureReturn.guest i).notifyData = (s.guest i).notifyData := by
  unfold Notifier.nonSecureReturn
  dsimp only
  split_ifs
  · show (update s.guest _ _ i).notifyData = _
    by_cases hi : i = s.nsSysCurrent
    · rw [hi, update_self]
      rfl
    · rw [update_of_ne hi]
  · rfl

theorem NotifyInv.nonSecureReturn (h : NotifyInv s) : NotifyInv s.nonSecureReturn := by
  have h1 : NotifyInv { s with secure := false } := h.same rfl rfl rfl fun i => ⟨rfl, rfl⟩
  unfold Notifier.nonSecureReturn
  dsimp only
  split_ifs with hp
  · exact h1.announce hp
  · exact h1

/-! ## Steps and runs -/

structure StepOk (s : Notifier) (a : NotifyOp) (t : Notifier) : Prop where
  iff : (NotifyOk t ∧ ∀ g, s.box.slot g ≠ none → (t.guest g).notifyData = (s.guest g).notifyData) ↔
    NotifyFits s a
  inv : NotifyFits s a → NotifyInv t

theorem StepOk.same {a : NotifyOp} (hfits : NotifyFits s a) (h : NotifyInv t)
    (hrec : ∀ g, (t.guest g).notifyData = (s.guest g).notifyData) : StepOk s a t :=
  ⟨iff_of_true ⟨h.ok, fun g _ => hrec g⟩ hfits, fun _ => h⟩

theorem stepOk_notifyNs (h : NotifyInv s) (x : Option NotifyTask)
    (hs : s.step (.notifyNs x) = some t) : StepOk s (.notifyNs x) t := by
  obtain ⟨hsec, hcall⟩ := Option.ite_none_right_eq_some.mp hs
  obtain ⟨u, hx, hu⟩ := Option.bind_eq_some_iff.mp hcall
  cases hx
  cases hn : u.notification with
  | none =>
    rw [hn] at hu
    cases hu
    refine StepOk.same (fun _ n h1 => ?_) h fun g => rfl
    cases hn.symm.trans h1
  | some n =>
    rw [hn] at hu
    obtain ⟨hrange, e⟩ := Option.ite_none_right_eq_some.mp hu
    have e := Option.some.inj e
    have hfits : NotifyFits s (.notifyNs (some u)) ↔
        HasRecord s n.1.toNat ∧ s.box.slot n.1.toNat = none := by
      refine ⟨fun h1 => h1 hsec n hn hrange.1 hrange.2, fun h1 _ n' hn' _ _ => ?_⟩
      cases hn.symm.trans hn'
      exact h1
    by_cases hrec : HasRecord s n.1.toNat
    · obtain ⟨d, -, hraised⟩ : ∃ d, d.context = n.2.1 ∧ Raised s n.1.toNat d t :=
        e ▸ setNotifyData_raised hrec
      constructor
      · rw [hfits, and_iff_right hrec]
        refine ⟨fun h1 => ?_, fun hslot => ⟨(h.raised hraised hslot).ok, fun i hi => ?_⟩⟩
        · have h2 := h1.1.counted
          rw [hraised.box] at h2
          exact (Mailbox.counted_send h.ok.counted).mp h2
        · have hig : i ≠ n.1.toNat := fun e => hi (e ▸ hslot)
          rw [(hraised.others i hig).1]
      · exact fun h1 => h.raised hraised (hfits.mp h1).2
    · rw [setNotifyData_lost hrec] at e
      constructor
      · refine iff_of_false (fun h1 => ?_) fun h1 => hrec (hfits.mp h1).1
        have h2 := h1.1.counted
        rw [← e] at h2
        exact Mailbox.counted_lose h.ok.counted h2
      · exact fun h1 => absurd (hfits.mp h1).1 hrec

theorem stepOk_ipiSecureNotify (h : NotifyInv s) (hs : s.step .ipiSecureNotify = some t) :
    StepOk s .ipiSecureNotify t := by
  have hsec : ¬ s.secure = true := by
    intro h1
    cases (if_pos h1).symm.trans hs
  have hs := (if_neg hsec).symm.trans hs
  obtain ⟨hsoft, e⟩ := Option.ite_none_right_eq_some.mp hs
  cases e
  have hfits : NotifyFits s .ipiSecureNotify ↔ NotifyOk s.ipiSecureNotify := by
    rw [ipiSecureNotify_ok h hsoft]
    exact ⟨fun h1 => h1 (Bool.eq_false_iff.mpr hsec) hsoft, fun h1 _ _ => h1⟩
  constructor
  · rw [hfits]
    exact ⟨And.left, fun h1 => ⟨h1, fun g _ => (ipiSecureNotify_guest s g).1⟩⟩
  · intro h1
    exact h.interrupt hsoft (h1 (Bool.eq_false_iff.mpr hsec) hsoft).1 (hfits.mp h1)

theorem stepOk (h : NotifyInv s) (a : NotifyOp) (hs : s.step a = some t) : StepOk s a t := by
  cases a with
  | notifyNs x => exact stepOk_notifyNs h x hs
  | ipiSecureNotify => exact stepOk_ipiSecureNotify h hs
  | scheduleGuest =>
    obtain ⟨-, e⟩ := Option.ite_none_right_eq_some.mp hs
    cases e
    exact StepOk.same trivial (h.same rfl rfl rfl fun i => ⟨rfl, rfl⟩) fun g => rfl
  | nonSecureReturn =>
    obtain ⟨-, e⟩ := Option.ite_none_right_eq_some.mp hs
    cases e
    exact StepOk.same trivial h.nonSecureReturn (nonSecureReturn_notifyData s)
  | resumeAsyncTask =>
    obtain ⟨-, e⟩ := Option.ite_none_right_eq_some.mp hs
    cases e
    exact StepOk.same trivial (h.same rfl rfl rfl fun i => ⟨rfl, rfl⟩) fun g => rfl
  | enterSecure =>
    obtain ⟨-, e⟩ := Option.ite_none_left_eq_some.mp hs
    cases e
    exact StepOk.same trivial (h.same rfl rfl rfl fun i => ⟨rfl, rfl⟩) fun g => rfl
  | driver files =>
    obtain ⟨-, e⟩ := Option.ite_none_left_eq_some.mp hs
    cases e
    have hguest := guest_driver s files
    exact StepOk.same trivial (h.same rfl rfl rfl hguest) fun g => (hguest g).1
  | resume c =>
    obtain ⟨-, hs⟩ := Option.ite_none_left_eq_some.mp hs
    unfold Notifier.resume at hs
    dsimp only at hs
    cases he : encodeOf c (s.guest s.nsSysCurrent).devFileList with
    | none =>
      rw [he] at hs
      cases hs
    | some e =>
      rw [he] at hs
      obtain ⟨-, e⟩ := Option.ite_none_right_eq_some.mp hs
      cases e
      have hguest := guest_driver s (setWaitFlag c false (s.guest s.nsSysCurrent).devFileList)
      exact StepOk.same trivial (h.same rfl rfl rfl hguest) fun g => (hguest g).1

theorem fits_of_none {a : NotifyOp} (hs : s.step a = none) : NotifyFits s a := by
  cases a with
  | notifyNs x =>
    cases x with
    | none => trivial
    | some u =>
      intro hsec n hn h0 hlt
      have h1 : s.notifyNs (some u) = some (s.setNotifyData n.1.toNat n.2.1 n.2.2) := by
        unfold Notifier.notifyNs
        simp only [Option.bind_eq_bind, Option.bind_some, hn]
        exact if_pos ⟨h0, hlt⟩
      have h2 : s.step (.notifyNs (some u)) = s.notifyNs (some u) := if_pos hsec
      cases hs.symm.trans (h2.trans h1)
  | ipiSecureNotify =>
    intro hsec hsoft
    have h1 : s.step .ipiSecureNotify = some s.ipiSecureNotify :=
      (if_neg (Bool.eq_false_iff.mp hsec)).trans (if_pos hsoft)
    cases hs.symm.trans h1
  | scheduleGuest => trivial
  | nonSecureReturn => trivial
  | enterSecure => trivial
  | resume c => trivial
  | resumeAsyncTask => trivial
  | driver files => trivial

/-- **Notifications** are neither lost nor merged in a run, whatever the order of its steps, exactly when
every step fits. -/
theorem notifications_iff (h : NotifyInv s) (l : List NotifyOp) :
    Along Notifier.step NotifyKept s l ↔ Along Notifier.step NotifyFits s l := by
  refine along_iff NotifyInv (fun s a t hinv hkept hs => ?_) (fun s a hinv => ?_) h l
  · have hstep := stepOk hinv a hs
    exact hstep.inv (hstep.iff.mp (hkept t hs))
  · refine ⟨fun hkept => ?_, fun hfits t hs => (stepOk hinv a hs).iff.mpr hfits⟩
    cases hs : s.step a with
    | some t => exact (stepOk hinv a hs).iff.mp (hkept t hs)
    | none => exact fits_of_none hs

end

/-- two guests with a registered record, and two commands in the one session of the one file of each -/
def newNotifier : Notifier where
  guestsNo := 2
  nsSysCurrent := 0
  guest g := ⟨some ⟨BitVec.ofNat 32 g, 0, 0, 0, 0, 0⟩, true, false,
    [⟨1, [⟨2, [⟨5, [⟨8, false⟩, ⟨9, false⟩]⟩]⟩]⟩]⟩
  gNsNotifyPending := false
  softInt := false
  secure := true
  announced _ := false
  box := ⟨fun _ _ => 0, fun _ _ => 0, fun _ => none⟩

theorem newNotifier_inv : NotifyInv newNotifier where
  ok := ⟨fun _ _ => rfl, fun _ h => absurd rfl h⟩
  unread _ _ h := by cases h
  announced _ h := by cases h
  pending _ h := by cases h
  softInt h := by cases h

/-- the task of a command of guest 0 -/
def commandTask (encId : UInt32) : NotifyTask where
  guestNo := 0
  params := some (some ⟨2051, 5, encId, 2051, 40, 0, 0, 0, 0, 0, 0, 1⟩)

/-- one command is done, and its client goes on -/
theorem notifications_iff_one :
    Along Notifier.step NotifyKept newNotifier
      [.notifyNs (some (commandTask 8)), .nonSecureReturn, .ipiSecureNotify, .resume ⟨1, 2, 5, 8⟩] := by
  refine (notifications_iff newNotifier_inv _).mpr ⟨fun _ n hn _ _ => ?_, trivial, fun _ _ => ?_, trivial, ?_⟩
  · cases hn
    exact ⟨⟨_, rfl, rfl⟩, rfl⟩
  · refine ⟨fun g hg => ?_, _, _, rfl, rfl, rfl⟩
    by_contra h
    have hne : g ≠ 0 := h
    have h1 : update (fun _ => false) 0 true g = true := hg
    rw [update_of_ne hne] at h1
    cases h1
  · trivial

/-- the second of two notifications before the interrupt is taken; the first one is neither a wake-up nor
unread -/
theorem second_notification :
    ∃ t, run Notifier.step newNotifier
        [.notifyNs (some (commandTask 8)), .notifyNs (some (commandTask 9)), .nonSecureReturn,
          .ipiSecureNotify] = some t ∧
      t.softInt = false ∧ t.box.sent 0 ⟨1, 2, 5, 8⟩ = 1 ∧ t.box.received 0 ⟨1, 2, 5, 8⟩ = 0 ∧
      t.box.slot 0 = none ∧ ¬ NotifyOk t := by
  have hrun : (run Notifier.step newNotifier
      [.notifyNs (some (commandTask 8)), .notifyNs (some (commandTask 9)), .nonSecureReturn,
        .ipiSecureNotify]).map (fun t => (t.softInt, t.box.sent 0 ⟨1, 2, 5, 8⟩,
          t.box.received 0 ⟨1, 2, 5, 8⟩, t.box.slot 0)) = some (false, 1, 0, none) := by
    decide +kernel
  obtain ⟨t, ht, e⟩ := Option.map_eq_some_iff.mp hrun
  obtain ⟨h1, h2, h3, h4⟩ : t.softInt = false ∧ t.box.sent 0 ⟨1, 2, 5, 8⟩ = 1 ∧
      t.box.received 0 ⟨1, 2, 5, 8⟩ = 0 ∧ t.box.slot 0 = none := by
    simpa only [Prod.mk.injEq] using e
  refine ⟨t, ht, h1, h2, h3, h4, fun hok => ?_⟩
  have h5 := hok.counted 0 ⟨1, 2, 5, 8⟩
  rw [h2, h3, h4] at h5
  cases h5

end SierraTee
