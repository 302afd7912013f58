import SierraTee.Lib.FlatMemory
import SierraTee.Lib.Keyed
import SierraTee.Lib.Runs

/-!
# The access control list (`sw_user_mgmt.c`)

* `acl_correct`  the answers are those of the granted permissions.

An allocation that fails ends in `tee_panic`, which does not return: then an update has the result
`none`.
-/

namespace SierraTee
namespace Acl
open FlatMemory Keyed Runs

structure AclUser where
  uid : Word
  deriving DecidableEq

structure AclGroup where
  gid : Word
  users : List AclUser
  deriving DecidableEq

structure AclDevice where
  did : Word
  groups : List AclGroup
  deriving DecidableEq

/-- `acl_t` of a task -/
structure TaskAcl where
  uid : Word
  gid : Word

/-- the results of `sw_malloc_private` for the three structures -/
structure AclMemory where
  user : Bool
  group : Bool
  device : Bool

section
variable (devices : List AclDevice)

/-- `get_permission`, with `exec_mode` and the list of devices of `global_val` and the current task -/
def getPermission (execMode : Word) (execTask : TaskAcl) (did : Word) : Int :=
  if execMode = 1 then
    match devices.find? fun d => d.did = did with
    | none => -1
    | some acld =>
      match acld.groups.find? fun g => g.gid = execTask.gid with
      | none => -1
      | some aclg =>
        match aclg.users.find? fun u => u.uid = execTask.uid with
        | none => -1
        | some _ => 1
  else 1

def updateGlobalAcl (did gid uid : Word) (heap : AclMemory) : Option (List AclDevice) :=
  match devices.find? fun d => d.did = did with
  | none =>
    if heap.user ∧ heap.group ∧ heap.device then some (devices ++ [⟨did, [⟨gid, [⟨uid⟩]⟩]⟩])
    else none
  | some acld =>
    match acld.groups.find? fun g => g.gid = gid with
    | none =>
      if heap.user ∧ heap.group then
        some (modify (fun d => d.did = did)
          (fun d => { d with groups := d.groups ++ [⟨gid, [⟨uid⟩]⟩] }) devices)
      else none
    | some aclg =>
      match aclg.users.find? fun u => u.uid = uid with
      | none =>
        if heap.user then
          some (modify (fun d => d.did = did) (fun d => { d with
            groups := modify (fun g => g.gid = gid)
              (fun g => { g with users := g.users ++ [⟨uid⟩] }) d.groups }) devices)
        else none
      | some _ => some devices

end

/-! ## The levels -/

def addUser (uid : Word) (g : AclGroup) : AclGroup :=
  { g with users := upsert AclUser.uid uid id ⟨uid⟩ g.users }

def addGroup (gid uid : Word) (d : AclDevice) : AclDevice :=
  { d with groups := upsert AclGroup.gid gid (addUser uid) ⟨gid, [⟨uid⟩]⟩ d.groups }

def addDevice (did gid uid : Word) : List AclDevice → List AclDevice :=
  upsert AclDevice.did did (addGroup gid uid) ⟨did, [⟨gid, [⟨uid⟩]⟩]⟩

section
variable {devices devices' : List AclDevice} {did gid uid : Word} {heap : AclMemory}

theorem update_eq (h : updateGlobalAcl devices did gid uid heap = some devices') :
    devices' = addDevice did gid uid devices := by
  unfold updateGlobalAcl at h
  cases hd : devices.find? fun d => d.did = did with
  | none =>
    simp only [hd] at h
    split_ifs at h
    cases h
    exact (upsert_of_none hd).symm
  | some acld =>
    have hdevice : addDevice did gid uid devices
        = modify (fun d => d.did = did) (addGroup gid uid) devices := upsert_of_some hd
    simp only [hd] at h
    rw [hdevice]
    cases hg : acld.groups.find? fun g => g.gid = gid with
    | none =>
      simp only [hg] at h
      split_ifs at h
      cases h
      refine modify_congr hd ?_
      exact congrArg (fun l => { acld with groups := l }) (upsert_of_none hg).symm
    | some aclg =>
      have hgroup : addGroup gid uid acld = { acld with
          groups := modify (fun g => g.gid = gid) (addUser uid) acld.groups } :=
        congrArg (fun l => { acld with groups := l }) (upsert_of_some hg)
      simp only [hg] at h
      cases hu : aclg.users.find? fun u => u.uid = uid with
      | none =>
        simp only [hu] at h
        split_ifs at h
        cases h
        refine modify_congr hd ?_
        rw [hgroup]
        refine congrArg (fun l => { acld with groups := l }) (modify_congr hg ?_)
        exact congrArg (fun l => { aclg with users := l }) (upsert_of_none hu).symm
      | some aclu =>
        simp only [hu] at h
        cases h
        have huser : addUser uid aclg = aclg := by
          have hsame : upsert AclUser.uid uid id ⟨uid⟩ aclg.users = aclg.users :=
            (upsert_of_some hu).trans modify_id
          unfold addUser
          rw [hsame]
        have hsame : addGroup gid uid acld = acld := by
          rw [hgroup, modify_congr (g := id) hg huser, modify_id]
        exact ((modify_congr (g := id) hd hsame).trans modify_id).symm

/-! ## What is permitted -/

def Permits (devices : List AclDevice) (did gid uid : Word) : Prop :=
  ∃ acld, lookup AclDevice.did did devices = some acld ∧
    ∃ aclg, lookup AclGroup.gid gid acld.groups = some aclg ∧
      ∃ aclu, lookup AclUser.uid uid aclg.users = some aclu ∧ True

theorem getPermission_iff (execTask : TaskAcl) :
    getPermission devices 1 execTask did = 1 ↔ Permits devices did execTask.gid execTask.uid := by
  unfold getPermission Permits lookup
  rw [if_pos rfl]
  cases devices.find? fun d => d.did = did with
  | none => simp
  | some acld =>
    simp only
    cases hg : acld.groups.find? fun g => g.gid = execTask.gid with
    | none => simp [hg]
    | some aclg =>
      simp only
      cases hu : aclg.users.find? fun u => u.uid = execTask.uid with
      | none => simp [hg, hu]
      | some aclu => simp [hg, hu]

section
variable {did' gid' uid' : Word}

theorem permits_addUser (g : AclGroup) :
    (∃ aclu, lookup AclUser.uid uid' (addUser uid g).users = some aclu ∧ True) ↔
      uid' = uid ∨ ∃ aclu, lookup AclUser.uid uid' g.users = some aclu ∧ True :=
  (exists_lookup_upsert (fun _ => rfl) rfl (fun _ => (or_iff_left_of_imp fun _ => trivial).symm)
    Iff.rfl).trans (or_congr_left (and_iff_left trivial))

theorem permits_newUser :
    (∃ aclu, lookup AclUser.uid uid' [⟨uid⟩] = some aclu ∧ True) ↔ uid' = uid :=
  (exists_lookup_singleton rfl Iff.rfl).trans (and_iff_left trivial)

theorem permits_addGroup (d : AclDevice) :
    (∃ aclg, lookup AclGroup.gid gid' (addGroup gid uid d).groups = some aclg ∧
      ∃ aclu, lookup AclUser.uid uid' aclg.users = some aclu ∧ True) ↔
    (gid' = gid ∧ uid' = uid) ∨ ∃ aclg, lookup AclGroup.gid gid' d.groups = some aclg ∧
      ∃ aclu, lookup AclUser.uid uid' aclg.users = some aclu ∧ True :=
  exists_lookup_upsert (fun _ => rfl) rfl permits_addUser permits_newUser

theorem permits_addDevice : Permits (addDevice did gid uid devices) did' gid' uid' ↔
    (did' = did ∧ gid' = gid ∧ uid' = uid) ∨ Permits devices did' gid' uid' :=
  exists_lookup_upsert (fun _ => rfl) rfl permits_addGroup
    (exists_lookup_singleton rfl permits_newUser)

end

/-! ## No duplicates -/

structure NoDuplicates (devices : List AclDevice) : Prop where
  oneDevice : (devices.map AclDevice.did).Nodup
  oneGroup : ∀ d ∈ devices, (d.groups.map AclGroup.gid).Nodup
  oneUser : ∀ d ∈ devices, ∀ g ∈ d.groups, (g.users.map AclUser.uid).Nodup

theorem NoDuplicates.addDevice (h : NoDuplicates devices) (did gid uid : Word) :
    NoDuplicates (addDevice did gid uid devices) := by
  have hone {α : Type} (a : α) : [a].Nodup := List.pairwise_singleton _ _
  have huser (g : AclGroup) (hg : (g.users.map AclUser.uid).Nodup) :
      ((addUser uid g).users.map AclUser.uid).Nodup := nodup_upsert (fun _ => rfl) rfl hg
  refine ⟨nodup_upsert (fun _ => rfl) rfl h.oneDevice, ?_, ?_⟩
  · exact forall_upsert (fun d hd => nodup_upsert (fun _ => rfl) rfl hd) (hone gid) h.oneGroup
  · refine forall_upsert (fun d hd => forall_upsert huser (hone uid) hd) ?_ h.oneUser
    intro g hg
    rw [List.mem_singleton.mp hg]
    exact hone uid

/-! ## Runs -/

/-- a call of `update_global_ACL` -/
structure AclUpdate where
  did : Word
  gid : Word
  uid : Word
  heap : AclMemory

def step (devices : List AclDevice) (c : AclUpdate) : Option (List AclDevice) :=
  updateGlobalAcl devices c.did c.gid c.uid c.heap

theorem run_permits {calls : List AclUpdate} (h : run step devices calls = some devices') :
    Permits devices' did gid uid ↔
      (∃ c ∈ calls, did = c.did ∧ gid = c.gid ∧ uid = c.uid) ∨ Permits devices did gid uid := by
  induction calls generalizing devices with
  | nil =>
    cases h
    simp
  | cons c calls ih =>
    obtain ⟨devices₁, hc, hrun⟩ := run_cons_some h
    rw [ih hrun, update_eq hc, permits_addDevice]
    simp only [List.mem_cons, exists_eq_or_imp]
    exact or_left_comm.trans or_assoc.symm

theorem run_noDuplicates {calls : List AclUpdate} (hd : NoDuplicates devices)
    (h : run step devices calls = some devices') : NoDuplicates devices' :=
  run_invariant NoDuplicates (fun _ c _ hd _ hc => by
    rw [update_eq hc]
    exact hd.addDevice c.did c.gid c.uid) hd (along_true step devices calls) h

/-- **The access control list is right**: after any calls a task may access a device exactly if its
group and its user have been added for the device, and no id stands twice in a list. -/
theorem acl_correct (calls : List AclUpdate)
    (h : run step [] calls = some devices) :
    (∀ (execTask : TaskAcl) (did : Word), getPermission devices 1 execTask did = 1 ↔
      ∃ c ∈ calls, did = c.did ∧ execTask.gid = c.gid ∧ execTask.uid = c.uid) ∧
    NoDuplicates devices := by
  constructor
  · intro execTask did
    rw [getPermission_iff, run_permits h]
    refine or_iff_left ?_
    rintro ⟨_, hd, -⟩
    cases hd
  · have hnil : NoDuplicates [] := by
      refine ⟨List.nodup_nil, ?_, ?_⟩
      · intro d hd
        cases hd
      · intro d hd
        cases hd
    exact run_noDuplicates hnil h

/-- two users of one group -/
theorem acl_correct_two :
    let calls : List AclUpdate := [⟨1, 2, 3, ⟨true, true, true⟩⟩, ⟨1, 2, 4, ⟨true, false, false⟩⟩]
    let devices : List AclDevice := [⟨1, [⟨2, [⟨3⟩, ⟨4⟩]⟩]⟩]
    (∀ (execTask : TaskAcl) (did : Word), getPermission devices 1 execTask did = 1 ↔
      ∃ c ∈ calls, did = c.did ∧ execTask.gid = c.gid ∧ execTask.uid = c.uid) ∧
    NoDuplicates devices :=
  acl_correct _ (by decide)

end
end Acl
end SierraTee
