import SierraTee.Shm.Attach

/-!
# Attachments that are alive

* `attachments_apart`       live attachments are apart, and what fails changes nothing;
* `creator_attaches_twice`  two live attachments at the same address.
-/

namespace SierraTee
open FlatMemory Runs

/-! ## Sizes of segments -/

/-- the segments are made by calls, and no descriptor in the list has been freed -/
inductive Made (c : PageConfig) : ShmState → Prop
  | boot (info : MemInfo) : Made c ⟨[], fun _ => false, info⟩
  | create {s s' : ShmState} {task size flags r : Word} {alloc : Bool} {name : List (BitVec 8)}
    (hs : Made c s) (h : shmCreate c task alloc name size flags s = some (s', r))
    (hlisted : ∀ shm ∈ s'.segs, shm.frees = 0) : Made c s'
  | control {s s' : ShmState} {task id cmdId r : Word} {buffer b : Option Word} (hs : Made c s)
    (h : shmControl task id cmdId buffer s = some ((s', r), b)) : Made c s'

section
variable {c : PageConfig} {task size flags id cmdId r : Word} {name : List (BitVec 8)} {alloc : Bool}
  {s s' : ShmState} {buffer b : Option Word}

theorem PagesOnly.create (hs : PagesOnly s)
    (h : shmCreate c task alloc name size flags s = some (s', r)) : PagesOnly s' := by
  unfold shmCreate at h
  split at h
  · cases h
    exact hs
  · dsimp only at h
    split_ifs at h
    · cases h
      exact hs
    · obtain ⟨shm, hlast, h1⟩ := Option.map_eq_some_iff.mp h
      cases h1
      intro x hx
      obtain hx | hx := List.mem_append.mp hx
      · exact hs x (List.dropLast_subset _ hx)
      · rw [List.mem_singleton.mp hx]
        exact hs shm (List.mem_of_getLast? hlast)
    · unfold shmAllocate at h
      dsimp only at h
      split_ifs at h
      · cases h
        exact hs
      · split at h
        · cases h
          exact hs
        · cases h
          intro x hx
          obtain hx | hx := List.mem_append.mp hx
          · exact hs x hx
          · rw [List.mem_singleton.mp hx]
            exact pageUp_aligned size

theorem PagesOnly.update (hs : PagesOnly s) (id : Word) {f : SharedMem → SharedMem}
    (hf : ∀ shm, (f shm).size = shm.size) : PagesOnly (s.update id f) := by
  intro x hx
  have h1 : ∀ l : List SharedMem, x ∈ ShmState.update.go id f l → ∃ y ∈ l, x.size = y.size := by
    intro l hl
    induction l with
    | nil => exact absurd hl List.not_mem_nil
    | cons y l ih =>
      unfold ShmState.update.go at hl
      split_ifs at hl
      · obtain rfl | hl := List.mem_cons.mp hl
        · exact ⟨y, List.mem_cons_self, hf y⟩
        · exact ⟨x, List.mem_cons_of_mem _ hl, rfl⟩
      · obtain rfl | hl := List.mem_cons.mp hl
        · exact ⟨x, List.mem_cons_self, rfl⟩
        · obtain ⟨z, hz, h2⟩ := ih hl
          exact ⟨z, List.mem_cons_of_mem _ hz, h2⟩
  obtain ⟨y, hy, h2⟩ := h1 s.segs hx
  rw [h2]
  exact hs y hy

theorem PagesOnly.setField (hs : PagesOnly s) (id : Word) (buffer : Option Word)
    {f : SharedMem → Word → SharedMem} (hf : ∀ shm w, (f shm w).size = shm.size) :
    PagesOnly (s.setField id buffer f).1 := by
  cases buffer with
  | none => exact hs
  | some w => exact hs.update id fun shm => hf shm w

theorem PagesOnly.control (hs : PagesOnly s)
    (h : shmControl task id cmdId buffer s = some ((s', r), b)) : PagesOnly s' := by
  have hfield {f : SharedMem → Word → SharedMem}
      (h1 : some (s.setField id buffer f, buffer) = some ((s', r), b))
      (hf : ∀ shm w, (f shm w).size = shm.size) : PagesOnly s' := by
    have h2 : (s.setField id buffer f).1 = s' :=
      congrArg Prod.fst (congrArg Prod.fst (Option.some.inj h1))
    rw [← h2]
    exact hs.setField id buffer hf
  unfold shmControl at h
  split at h
  · cases h
    exact hs
  · split_ifs at h
    · exact hfield h fun _ _ => rfl
    · exact hfield h fun _ _ => rfl
    · exact hfield h fun _ _ => rfl
    · obtain ⟨w, -, h1⟩ := Option.map_eq_some_iff.mp h
      cases h1
      exact hs.update id fun _ => rfl
    · obtain ⟨w, -, h1⟩ := Option.map_eq_some_iff.mp h
      cases h1
      exact hs
    · cases h
      exact fun x hx => hs x (List.eraseP_subset hx)
    · cases h
      exact hs

theorem Made.pagesOnly (h : Made c s) : PagesOnly s := by
  induction h with
  | boot info => exact fun _ h => absurd h List.not_mem_nil
  | create _ h _ ih => exact ih.create h
  | control _ h ih => exact ih.control h

end

/-! ## The condition -/

/-- what a call has to be like:

* an attachment by the creator, which is at the first slot, does not meet another one there;
* an attachment by another task does not meet one of a creator in the slots that are free, and no
  slots are taken for flags that are not permitted;
* an address that is detached is that of an attachment of the segment, or its slots are free and
  nothing can be unmapped there. -/
def AttachFits (s : AttachState) : AttachCall → Prop
  | .attach task id flag => ∃ shm, s.shm.findId id = some shm ∧
      if isCreator task shm then
        Permitted shm flag → ∀ a ∈ s.live, ∀ x, slotRange 1 (shm.size.toNat / 4096) x → ¬ a.Covers x
      else ∀ i, FirstIds s.shm.pool (shm.size.toNat / 4096) i →
        if shm.flags.setWidth 32 &&& flag = 0 then shm.size.toNat / 4096 = 0
        else ∀ a ∈ s.live, a.pooled = false → ∀ x,
          slotRange i (shm.size.toNat / 4096) x → ¬ a.Covers x
  | .detach task id addr => ∀ shm, s.shm.findId id = some shm →
      (∃ a ∈ s.live, a.id = id ∧ a.addr = addr) ∨
        (isCreator task shm = true ∨
          FreeIds s.shm.pool (slotOf addr) (shm.size.toNat / 4096)) ∧
        (shm.size.toNat / 4096 = 0 ∨ PageTables.pageAligned addr = false)

/-! ## The invariant -/

/-- the slots from `i` on are taken in the pool for the attachment -/
structure TakenAt (pool : Nat → Bool) (a : Attachment) (i : Nat) : Prop where
  bound : i + a.size.toNat / 4096 ≤ sharedMemInstance
  addr : a.addr = slotAddr i
  taken : ∀ j, i ≤ j → j < i + a.size.toNat / 4096 → pool j = true

structure AttachedOk (s : AttachState) : Prop where
  pages : PagesOnly s.shm
  apart : s.live.Pairwise Attachment.Disjoint
  slots : ∀ a ∈ s.live, ∃ i, i ≤ sharedMemInstance ∧ a.addr = slotAddr i
  known : ∀ a ∈ s.live, ∀ shm, s.shm.findId a.id = some shm → shm.size = a.size
  sizes : ∀ a ∈ s.live, a.size.toNat % 4096 = 0
  pooled : ∀ a ∈ s.live, a.pooled = true → ∃ i, TakenAt s.shm.pool a i

section
variable {c : PageConfig} {task id addr flag at1 va pa size ptf r : Word} {shm : SharedMem}
  {s s' : ShmState} {t u : AttachState} {pt pt' : PageTables} {pool pool' : Nat → Bool}
  {a b : Attachment} {i n : Nat} {call : AttachCall}

theorem TakenAt.disjoint (h : TakenAt pool a i) (ha : a.size.toNat % 4096 = 0)
    (hn : i ≤ sharedMemInstance) {j : Nat} (hj : j ≤ sharedMemInstance) (hb : b.addr = slotAddr j)
    (hbsize : b.size.toNat % 4096 = 0) (hfree : FreeIds pool j (b.size.toNat / 4096)) :
    a.Disjoint b := by
  intro x h1 h2
  rw [covers_slot hn h.addr ha] at h1
  rw [covers_slot hj hb hbsize] at h2
  unfold slotRange at h1 h2
  have h3 := h.taken ((x - 0x100000) / 4096) (by omega) (by omega)
  have h4 := hfree ((x - 0x100000) / 4096) (by omega) (by omega)
  rw [h3] at h4
  cases h4

/-! ## One call -/

theorem AttachedOk.start (hpages : PagesOnly t.shm) (hlive : t.live = []) : AttachedOk t := by
  refine ⟨hpages, ?_, ?_, ?_, ?_, ?_⟩ <;> rw [hlive]
  · exact List.Pairwise.nil
  all_goals exact fun a ha => absurd ha List.not_mem_nil

theorem attachStep_segs (hok : AttachedOk t) (h : attachStep c t call = some u) :
    u.shm.segs = t.shm.segs := by
  cases call with
  | attach task id flag =>
    cases hfound : t.shm.findId id with
    | none =>
      obtain ⟨x, hx, -⟩ := Option.map_eq_some_iff.mp h
      unfold shmAttach at hx
      rw [hfound] at hx
      cases hx
    | some shm =>
      cases attach_done hok.pages hfound h with
      | failed same => rw [same.1]
      | lost i _ _ _ state => rw [state]
      | own _ _ state => rw [state]
      | taken i _ _ _ state => rw [state]
  | detach task id addr =>
    obtain ⟨-, h1 | ⟨shm, -, -, h1⟩⟩ := detach_done h <;> rw [h1]

theorem AttachedOk.add (hok : AttachedOk t) (hsegs : u.shm.segs = t.shm.segs)
    (hfound : t.shm.findId a.id = some shm) (hsize : shm.size = a.size)
    (hi : i ≤ sharedMemInstance) (haddr : a.addr = slotAddr i)
    (hlive : u.live = t.live ++ [a]) (hpool : ∀ j, t.shm.pool j = true → u.shm.pool j = true)
    (hapart : ∀ b ∈ t.live, b.Disjoint a) (htaken : a.pooled = true → TakenAt u.shm.pool a i) :
    AttachedOk u := by
  have hfind (id : Word) : u.shm.findId id = t.shm.findId id := by
    unfold ShmState.findId
    rw [hsegs]
  have hmem {b : Attachment} (hb : b ∈ u.live) : b ∈ t.live ∨ b = a := by
    rw [hlive, List.mem_append, List.mem_singleton] at hb
    exact hb
  refine ⟨?_, ?_, fun b hb => ?_, fun b hb shm' h1 => ?_, fun b hb => ?_, fun b hb h1 => ?_⟩
  · unfold PagesOnly
    rw [hsegs]
    exact hok.pages
  · rw [hlive, List.pairwise_append]
    refine ⟨hok.apart, List.pairwise_singleton _ a, fun b hb a' ha' => ?_⟩
    rw [List.mem_singleton.mp ha']
    exact hapart b hb
  · obtain hb | rfl := hmem hb
    · exact hok.slots b hb
    · exact ⟨i, hi, haddr⟩
  · rw [hfind] at h1
    obtain hb | rfl := hmem hb
    · exact hok.known b hb shm' h1
    · rw [hfound] at h1
      cases h1
      exact hsize
  · obtain hb | rfl := hmem hb
    · exact hok.sizes b hb
    · rw [← hsize]
      exact hok.pages shm (List.mem_of_find?_eq_some hfound)
  · obtain hb | rfl := hmem hb
    · obtain ⟨j, hj⟩ := hok.pooled b hb h1
      exact ⟨j, hj.bound, hj.addr, fun k h2 h3 => hpool k (hj.taken k h2 h3)⟩
    · exact ⟨i, htaken h1⟩

theorem AttachedOk.attach (hok : AttachedOk t) (hfits : AttachFits t (.attach task id flag))
    (h : attachStep c t (.attach task id flag) = some u) : AttachedOk u := by
  obtain ⟨shm, hfound, hfits⟩ := hfits
  have hsegs := attachStep_segs hok h
  cases attach_done hok.pages hfound h with
  | failed same live =>
    obtain ⟨hshm, -⟩ := same
    refine ⟨hshm ▸ hok.pages, live ▸ hok.apart, live ▸ hok.slots, ?_, live ▸ hok.sizes, ?_⟩
    · rw [hshm, live]
      exact hok.known
    · rw [hshm, live]
      exact hok.pooled
  | lost i flags other first state pt live =>
    rw [if_neg other] at hfits
    have h0 := hfits i first
    rw [if_pos (not_not.mp flags)] at h0
    have hpool : u.shm.pool = t.shm.pool := by
      rw [state, h0]
      funext j
      exact if_neg fun h1 => by omega
    refine ⟨?_, live ▸ hok.apart, live ▸ hok.slots, ?_, live ▸ hok.sizes, ?_⟩
    · unfold PagesOnly
      rw [hsegs]
      exact hok.pages
    · unfold ShmState.findId
      rw [hsegs, live]
      exact hok.known
    · rw [hpool, live]
      exact hok.pooled
  | own flags same state live =>
    rw [if_pos same] at hfits
    have h1 : (1 : Nat) ≤ sharedMemInstance := by decide
    refine hok.add hsegs hfound rfl h1 rfl live (fun j h2 => by rw [state]; exact h2)
      (fun b hb x h2 h3 => ?_) fun h2 => Bool.noConfusion h2
    rw [covers_slot h1 rfl (hok.pages shm (List.mem_of_find?_eq_some hfound))] at h3
    exact hfits flags b hb x h3 h2
  | taken i flags other first state live =>
    have hsize := hok.pages shm (List.mem_of_find?_eq_some hfound)
    have hbound : i ≤ sharedMemInstance := Nat.le_trans (Nat.le_add_right i _) first.bound
    rw [if_neg other] at hfits
    have h0 := hfits i first
    rw [if_neg flags] at h0
    refine hok.add hsegs hfound rfl hbound rfl live (fun j h2 => ?_) (fun b hb => ?_) fun _ => ?_
    · rw [state]
      dsimp only [setIds]
      split_ifs
      · rfl
      · exact h2
    · cases hp : b.pooled with
      | true =>
        obtain ⟨j, hj⟩ := hok.pooled b hb hp
        have hj' : j ≤ sharedMemInstance := Nat.le_trans (Nat.le_add_right j _) hj.bound
        exact hj.disjoint (hok.sizes b hb) hj' hbound rfl hsize first.free
      | false =>
        intro x h2 h3
        rw [covers_slot hbound rfl hsize] at h3
        exact h0 b hb hp x h3 h2
    · refine ⟨first.bound, rfl, fun j h2 h3 => ?_⟩
      rw [state]
      exact if_pos ⟨h2, h3⟩

theorem erased_apart {live : List Attachment} (hapart : live.Pairwise Attachment.Disjoint)
    (ha : ∃ a ∈ live, a.id = id ∧ a.addr = addr) : ∃ a ∈ live, (a.id = id ∧ a.addr = addr) ∧
      ∀ b ∈ live.eraseP (fun a => a.id = id ∧ a.addr = addr), a.Disjoint b := by
  obtain ⟨a, ha, hid⟩ := ha
  obtain ⟨a', l, l', -, ha', hl, herase⟩ :=
    List.exists_of_eraseP (p := fun a => decide (a.id = id ∧ a.addr = addr)) ha
      (decide_eq_true hid)
  have hperm : (l ++ a' :: l').Perm (a' :: (l ++ l')) := List.perm_middle
  rw [hl, hperm.pairwise_iff fun h => Attachment.Disjoint.symm h, List.pairwise_cons] at hapart
  refine ⟨a', ?_, of_decide_eq_true ha', fun b hb => hapart.1 b ?_⟩
  · rw [hl]
    exact List.mem_append_right l List.mem_cons_self
  · rw [← herase]
    exact hb

theorem AttachedOk.kept (hok : AttachedOk t) (hfits : AttachFits t (.detach task id addr))
    (h : attachStep c t (.detach task id addr) = some u) (hb : b ∈ u.live)
    (hi : TakenAt t.shm.pool b i) : TakenAt u.shm.pool b i := by
  obtain ⟨hlive, hshm⟩ := detach_done h
  refine ⟨hi.bound, hi.addr, fun j h1 h2 => ?_⟩
  have htaken := hi.taken j h1 h2
  obtain hsame | ⟨shm, hfound, hc, hset⟩ := hshm
  · rw [hsame]
    exact htaken
  · rw [hset]
    dsimp only [setIds]
    split_ifs with hin
    · exfalso
      obtain hlive' | ⟨hfree, -⟩ := hfits shm hfound
      · rw [hlive] at hb
        obtain ⟨a, ha, ⟨hid, haddr⟩, hdis⟩ := erased_apart hok.apart hlive'
        have hmem : b ∈ t.live := List.eraseP_sublist.subset hb
        obtain ⟨k, hk, hslot⟩ := hok.slots a ha
        rw [hok.known a ha shm (by rw [hid]; exact hfound), ← haddr, hslot, slotOf_slotAddr hk] at hin
        have hbound : i ≤ sharedMemInstance := Nat.le_trans (Nat.le_add_right i _) hi.bound
        refine hdis b hb (0x100000 + j * 4096) ?_ ?_
        · rw [covers_slot hk hslot (hok.sizes a ha)]
          exact ⟨by omega, by omega⟩
        · rw [covers_slot hbound hi.addr (hok.sizes b hmem)]
          exact ⟨by omega, by omega⟩
      · rw [hc] at hfree
        have h3 := hfree.resolve_left Bool.false_ne_true j hin.1 hin.2
        rw [htaken] at h3
        cases h3
    · exact htaken

theorem AttachedOk.detach (hok : AttachedOk t) (hfits : AttachFits t (.detach task id addr))
    (h : attachStep c t (.detach task id addr) = some u) : AttachedOk u := by
  have hsegs := attachStep_segs hok h
  have hsub : u.live.Sublist t.live := by
    rw [(detach_done h).1]
    exact List.eraseP_sublist
  have hmem {b : Attachment} (hb : b ∈ u.live) : b ∈ t.live := hsub.subset hb
  refine ⟨?_, hok.apart.sublist hsub, fun b hb => hok.slots b (hmem hb), fun b hb shm' h1 => ?_,
    fun b hb => hok.sizes b (hmem hb), fun b hb h1 => ?_⟩
  · unfold PagesOnly
    rw [hsegs]
    exact hok.pages
  · refine hok.known b (hmem hb) shm' ?_
    unfold ShmState.findId at h1 ⊢
    rwa [hsegs] at h1
  · obtain ⟨i, hi⟩ := hok.pooled b (hmem hb) h1
    exact ⟨i, hok.kept hfits h hb hi⟩

theorem AttachedOk.step (hok : AttachedOk t) (hfits : AttachFits t call)
    (h : attachStep c t call = some u) : AttachedOk u := by
  cases call with
  | attach task id flag => exact hok.attach hfits h
  | detach task id addr => exact hok.detach hfits h

/-! ## Calls that fail -/

theorem attach_isSome (hpages : PagesOnly t.shm) (hfound : t.shm.findId id = some shm)
    (h : AttachRefused t.shm task id flag) : (attachStep c t (.attach task id flag)).isSome := by
  have hsize : shm.size.toNat = 4096 * (shm.size.toNat / 4096) := by
    have h1 := hpages shm (List.mem_of_find?_eq_some hfound)
    omega
  unfold attachStep shmAttach
  rw [Option.isSome_map, hfound]
  dsimp only
  rw [if_pos rfl]
  cases hx : attachAddr task shm t.shm.pool with
  | none => rfl
  | some x =>
    obtain hflag | ⟨hc, hno⟩ := h shm hfound
    · show (attachAt c task shm x.1 flag { t.shm with pool := x.2 } t.pt).isSome = true
      unfold attachAt
      dsimp only
      rw [if_pos (not_not.mp hflag)]
      rfl
    · obtain ⟨h1, -⟩ | ⟨i, hi, -⟩ := attachAddr_other t.shm.pool hc hsize
      · rw [h1] at hx
        cases hx
      · exact absurd hi (hno i)

theorem AttachedOk.failed (hok : AttachedOk t) (hfits : AttachFits t call) : AttachKept c t call := by
  cases call with
  | attach task id flag =>
    obtain ⟨shm, hfound, hfits⟩ := hfits
    refine ⟨attach_isSome hok.pages hfound, fun u hu hlive => ?_⟩
    have hlonger {a : Attachment} (h : u.live = t.live ++ [a]) : False := by
      have h1 := congrArg List.length (hlive.symm.trans h)
      rw [List.length_append] at h1
      exact Nat.succ_ne_self _ h1.symm
    cases attach_done hok.pages hfound hu with
    | failed same => exact same
    | lost i flags other first state pt =>
      rw [if_neg other] at hfits
      have h0 := hfits i first
      rw [if_pos (not_not.mp flags)] at h0
      refine ⟨?_, pt⟩
      have hpool : setIds t.shm.pool true i 0 = t.shm.pool := by
        funext j
        exact if_neg fun h1 => by omega
      rw [state, h0, hpool]
    | own _ _ _ live => exact (hlonger live).elim
    | taken i _ _ _ _ live => exact (hlonger live).elim
  | detach task id addr =>
    intro hno
    cases hfound : t.shm.findId id with
    | none => exact ⟨_, detach_unknown hfound, rfl, rfl⟩
    | some shm =>
      obtain ⟨a, ha, hid⟩ | ⟨hfree, hnone⟩ := hfits shm hfound
      · exact absurd hid (hno a ha)
      · obtain ⟨r, hr⟩ := unmapUserMemory_same c t.pt
          (hok.pages shm (List.mem_of_find?_eq_some hfound)) hnone
        refine ⟨_, detach_known hfound hr, ?_, rfl⟩
        dsimp only
        split_ifs with hc
        · rfl
        · have hpool : setIds t.shm.pool false (slotOf addr) (shm.size.toNat / 4096) = t.shm.pool := by
            funext j
            unfold setIds
            split_ifs with hin
            · exact (hfree.resolve_left hc j hin.1 hin.2).symm
            · rfl
          rw [hpool]

/-- **Attachments are apart** in every run of calls that fit, and what fails changes nothing. -/
theorem attachments_apart (hmade : Made c t.shm) (hlive : t.live = []) {l : List AttachCall}
    (hfits : Along (attachStep c) AttachFits t l) :
    (∀ u, run (attachStep c) t l = some u → u.live.Pairwise Attachment.Disjoint) ∧
      Along (attachStep c) (AttachKept c) t l := by
  have hok := AttachedOk.start hmade.pagesOnly hlive
  constructor
  · intro u hu
    exact (run_invariant AttachedOk (fun s a s' h1 h2 h3 => h1.step h2 h3) hok hfits hu).apart
  · exact along_mono AttachedOk (fun s a s' h1 h2 h3 => h1.step h2 h3) (fun s a h1 h2 => h1.failed h2)
      hok hfits

end

/-! ## Two segments of one task -/

def withSegment (s : ShmState) (name : BitVec 8) : ShmState :=
  ((shmCreate plainConfig 5 true [name] 0x1000 0x13 s).map Prod.fst).getD s

theorem Made.withSegment {s : ShmState} (hs : Made plainConfig s) (name : BitVec 8)
    (h : ∀ shm ∈ (withSegment s name).segs, shm.frees = 0) :
    Made plainConfig (withSegment s name) := by
  unfold SierraTee.withSegment at h ⊢
  cases hc : shmCreate plainConfig 5 true [name] 0x1000 0x13 s with
  | none => exact hs
  | some x =>
    rw [hc] at h
    exact hs.create hc h

def freeInfo : MemInfo where
  mem := fun _ => 0
  area := fun side => match side with
    | .phy => ⟨0, 8, 0x10000000, 0x40000, 64⟩
    | .vir => ⟨2, 8, 0x10000000, 0x40000, 64⟩

/-- the task 5 has two segments of a page -/
def twoSegments : AttachState where
  shm := withSegment (withSegment ⟨[], fun _ => false, freeInfo⟩ 97) 98
  pt := sectionTable 0
  live := []

theorem twoSegments_made : Made plainConfig twoSegments.shm := by
  have h1 : Made plainConfig (withSegment ⟨[], fun _ => false, freeInfo⟩ 97) :=
    (Made.boot freeInfo).withSegment 97 (by decide +kernel)
  exact h1.withSegment 98 (by decide +kernel)

theorem attachFits_pooled {s : AttachState} {task id : Word}
    (hfound : (s.shm.findId id).map (fun shm => (shm.creatorId, shm.flags)) = some (5, 0x13))
    (htask : task ≠ 5) (hlive : ∀ a ∈ s.live, a.pooled = true) :
    AttachFits s (.attach task id 2) := by
  obtain ⟨shm, hshm, h1⟩ := Option.map_eq_some_iff.mp hfound
  obtain ⟨hcid, hflags⟩ := Prod.mk.inj h1
  have hother : isCreator task shm = false := by
    unfold isCreator
    rw [hcid]
    exact decide_eq_false htask
  refine ⟨shm, hshm, ?_⟩
  rw [if_neg (by rw [hother]; decide), hflags]
  intro i _
  rw [if_neg (by decide)]
  intro a ha hp
  rw [hlive a ha] at hp
  cases hp

/-- two other tasks attach one of them each -/
theorem attachments_apart_others :
    ∃ u, run (attachStep plainConfig) twoSegments [.attach 6 1 2, .attach 7 2 2] = some u ∧
      u.live = [⟨1, 0x103000, 0x1000, true⟩, ⟨2, 0x104000, 0x1000, true⟩] ∧
      u.live.Pairwise Attachment.Disjoint := by
  have hfirst : (attachStep plainConfig twoSegments (.attach 6 1 2)).map AttachState.live
      = some [⟨1, 0x103000, 0x1000, true⟩] := by decide +kernel
  obtain ⟨t, ht, hlive⟩ := Option.map_eq_some_iff.mp hfirst
  have hsegs := attachStep_segs (AttachedOk.start twoSegments_made.pagesOnly rfl) ht
  have hfits : Along (attachStep plainConfig) AttachFits twoSegments
      [.attach 6 1 2, .attach 7 2 2] := by
    refine along_of_step (attachFits_pooled (by decide +kernel) (by decide) ?_) ht
      (along_singleton (attachFits_pooled ?_ (by decide) ?_))
    · exact fun a ha => absurd ha List.not_mem_nil
    · unfold ShmState.findId
      rw [hsegs]
      decide +kernel
    · rw [hlive]
      decide
  have hrun : (run (attachStep plainConfig) twoSegments [.attach 6 1 2, .attach 7 2 2]).map
      AttachState.live = some [⟨1, 0x103000, 0x1000, true⟩, ⟨2, 0x104000, 0x1000, true⟩] := by
    decide +kernel
  obtain ⟨u, hu, hlast⟩ := Option.map_eq_some_iff.mp hrun
  exact ⟨u, hu, hlast, (attachments_apart twoSegments_made rfl hfits).1 u hu⟩

/-- both are attached at the first slot -/
theorem creator_attaches_twice :
    ∃ u, run (attachStep plainConfig) twoSegments [.attach 5 1 2, .attach 5 2 2] = some u ∧
      ¬ u.live.Pairwise Attachment.Disjoint := by
  have hrun : (run (attachStep plainConfig) twoSegments [.attach 5 1 2, .attach 5 2 2]).map
      AttachState.live = some [⟨1, 0x101000, 0x1000, false⟩, ⟨2, 0x101000, 0x1000, false⟩] := by
    decide +kernel
  obtain ⟨u, hu, hlive⟩ := Option.map_eq_some_iff.mp hrun
  refine ⟨u, hu, fun h => ?_⟩
  rw [hlive] at h
  have h1 := (List.pairwise_cons.mp h).1 _ List.mem_cons_self
  exact h1 0x101000 ⟨by decide, by decide⟩ ⟨by decide, by decide⟩

end SierraTee
