import SaltOperator.Api.Json
import SaltOperator.Api.SaltKeyConfig
import SaltOperator.Lib.MergePatch

/-!
# The `VirtualMachine` object the operator reads and patches

The operator handles VMs as unstructured objects: typed metadata, and `spec` and
`status` as JSON. Everything it remembers about a VM is in the VM's annotations
under `salt.vcf.io/`; `nonIntentAnnotations` are the keys that are not part of
what the tenant asks for.
-/

namespace SaltOperator

def saltFinalizer : String := "salt.vcf.io/cleanup"

def annotationManaged : String := "salt.vcf.io/managed"
def annotationKeyStatus : String := "salt.vcf.io/key-status"
def annotationMinionID : String := "salt.vcf.io/minion-id"
def annotationMatchMethod : String := "salt.vcf.io/match-method"
def annotationSaltStatus : String := "salt.vcf.io/salt-status"
def annotationReady : String := "salt.vcf.io/ready"
def annotationHighstateJID : String := "salt.vcf.io/highstate-jid"
def annotationHighstateStatus : String := "salt.vcf.io/highstate-status"
def annotationHighstateTime : String := "salt.vcf.io/highstate-time"
def annotationRoles : String := "salt.vcf.io/roles"
def annotationRolesHash : String := "salt.vcf.io/roles-hash"
def annotationAcceptedAt : String := "salt.vcf.io/accepted-at"
def annotationKeyCleared : String := "salt.vcf.io/key-cleared"
def annotationHighstateFailedCount : String := "salt.vcf.io/highstate-failed-count"
def annotationHighstateFailedStates : String := "salt.vcf.io/highstate-failed-states"
def annotationRetryRequest : String := "salt.vcf.io/retry-request"
def annotationRetryHandled : String := "salt.vcf.io/retry-handled"
def annotationBulkRetryHandled : String := "salt.vcf.io/bulk-retry-handled"

/-- The annotations the operator writes: those of `nonIntentAnnotations` other
than `retry-request`. -/
def ownAnnotations : List String :=
  [annotationKeyStatus, annotationMinionID, annotationMatchMethod, annotationSaltStatus,
   annotationReady, annotationHighstateJID, annotationHighstateStatus, annotationHighstateTime,
   annotationRolesHash, annotationAcceptedAt, annotationKeyCleared,
   annotationHighstateFailedCount, annotationHighstateFailedStates, annotationRetryHandled,
   annotationBulkRetryHandled]

/-- `nonIntentAnnotations`. -/
def nonIntentAnnotations : List String := ownAnnotations ++ [annotationRetryRequest]

/-- A `VirtualMachine` object. `resourceVersion` counts the writes to it. -/
structure VirtualMachine where
  name : String
  nspace : String
  uid : String
  resourceVersion : Nat := 0
  labels : StringMap := {}
  annotations : StringMap := {}
  finalizers : List String := []
  deletionTimestamp : Option Time := none
  spec : Json := .obj []
  status : Json := .obj []

namespace VirtualMachine

variable (vm : VirtualMachine)

/-- `client.ObjectKeyFromObject`. -/
def key : NamespacedName := ⟨vm.nspace, vm.name⟩

/-- `vm.GetAnnotations()[k]`. -/
def annotationOf (k : String) : String := StringMap.read vm.annotations k

/-- Whether the deletion timestamp is set. -/
def deleting : Bool := vm.deletionTimestamp.isSome

/-- `controllerutil.ContainsFinalizer`. -/
def containsFinalizer (f : String) : Bool := vm.finalizers.contains f

/-- `controllerutil.AddFinalizer`. -/
def addFinalizer (f : String) : VirtualMachine :=
  if vm.containsFinalizer f then vm else { vm with finalizers := vm.finalizers ++ [f] }

/-- `controllerutil.RemoveFinalizer`. -/
def removeFinalizer (f : String) : VirtualMachine :=
  { vm with finalizers := vm.finalizers.filter (· ≠ f) }

/-- The object with `additions` copied over its annotations. -/
def withAnnotations (additions : List (String × String)) : VirtualMachine :=
  { vm with annotations := StringMap.copy vm.annotations additions }

/-- What the API server makes of `cur` when it applies the JSON merge patch from
`base` to `obj`: annotations and labels member by member, finalizers as a whole.
The operator changes nothing else of a VM. -/
def patched (version : Nat) (base obj cur : VirtualMachine) : VirtualMachine :=
  { cur with
    resourceVersion := version
    annotations := mergeMap base.annotations obj.annotations cur.annotations
    labels := mergeMap base.labels obj.labels cur.labels
    finalizers := mergeWhole base.finalizers obj.finalizers cur.finalizers }

theorem annotationOf_eq_getD (k : String) : vm.annotationOf k = vm.annotations[k]?.getD "" :=
  StringMap.read_eq_getD _ _

theorem annotationOf_congr {m n : VirtualMachine} {k : String}
    (h : m.annotations[k]? = n.annotations[k]?) : m.annotationOf k = n.annotationOf k := by
  rw [annotationOf_eq_getD, annotationOf_eq_getD, h]

/-- An annotation after a patch is the last one the patch names, or as it was. -/
theorem annotationOf_withAnnotations (additions : List (String × String)) (k : String) :
    (vm.withAnnotations additions).annotationOf k =
      (additions.reverse.lookup k).getD (vm.annotationOf k) := by
  rw [annotationOf_eq_getD, annotationOf_eq_getD]
  show (StringMap.copy vm.annotations additions)[k]?.getD "" = _
  rw [StringMap.getElem?_copy]
  cases additions.reverse.lookup k <;> rfl

end VirtualMachine

end SaltOperator
