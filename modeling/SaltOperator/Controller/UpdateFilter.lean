import SaltOperator.Controller.VirtualMachine

/-!
# Which updates of a VM start a pass (virtualmachine_controller.go:1220–1283)

The watch on VMs skips an update when both objects are the same without what the operator
writes: its status annotations, and the backup annotations and the backup condition that
the VM operator writes after each of them. The objects are compared with
`equality.Semantic.DeepEqual`.
-/

namespace SaltOperator

namespace Json

mutual

/-- `equality.Semantic.DeepEqual` of two decoded values: objects as maps, so the order of
the members and all but the last of one name do not matter. -/
def deepEqual : Json → Json → Bool
  | .null, .null => true
  | .bool b, .bool b' => b = b'
  | .num q, .num q' => q = q'
  | .str s, .str s' => s = s'
  | .arr items, .arr items' => deepEqualItems items items'
  | .obj members, .obj members' =>
    members'.all (fun m => (members.map Prod.fst).contains m.1) &&
      deepEqualMembers members members'
  | _, _ => false

def deepEqualItems : List Json → List Json → Bool
  | [], [] => true
  | j :: items, j' :: items' => deepEqual j j' && deepEqualItems items items'
  | _, _ => false

/-- The members that decoding keeps are in `members'`, with equal values. -/
def deepEqualMembers : List (String × Json) → List (String × Json) → Bool
  | [], _ => true
  | (k, v) :: rest, members' =>
    ((rest.map Prod.fst).contains k ||
      match members'.reverse.lookup k with
      | none => false
      | some v' => deepEqual v v') && deepEqualMembers rest members'

end

/-- `delete(m, k)`; nothing for a value that is not an object. -/
def remove (k : String) : Json → Json
  | .obj members => .obj (members.filter (·.1 ≠ k))
  | j => j

/-- `m[k] = v`; nothing for a value that is not an object. -/
def set (j : Json) (k : String) (v : Json) : Json :=
  match j with
  | .obj members => .obj (members.filter (·.1 ≠ k) ++ [(k, v)])
  | j => j

end Json

def vmBackupVersionAnnotation : String := "vmoperator.vmware.com/backup-version"
def vmConversionAnnotation : String := "vmoperator.vmware.com/conversion"
def vmBackupCondition : String := "VirtualMachineBackupUpToDate"

/-- Whether `withoutOwnWrites` deletes an annotation. -/
def isStripped (k : String) : Bool :=
  (nonIntentAnnotations.contains k && k ≠ annotationRetryRequest) ||
    k = vmBackupVersionAnnotation || k = vmConversionAnnotation

/-- The annotations that are left. An object without annotations keeps none; one whose
annotations are all deleted keeps an empty map. -/
def strippedAnnotations (annotations : StringMap) : Option StringMap :=
  if annotations.isEmpty then none else some (annotations.filter fun k _ => !isStripped k)

/-- The conditions that are left. -/
def keptConditions (status : Json) : List Json :=
  (status.nestedSlice ["conditions"]).filter fun c => !c.hasString "type" vmBackupCondition

/-- The status that is left. Conditions that are no list are removed as well. -/
def strippedStatus (status : Json) : Json :=
  match keptConditions status with
  | [] => status.remove "conditions"
  | c :: cs => status.set "conditions" (.arr (c :: cs))

/-- The object `withoutOwnWrites` returns: no resource version, and the rest of the
metadata as it is. -/
structure StrippedVM where
  name : String
  nspace : String
  uid : String
  labels : StringMap
  annotations : Option StringMap
  finalizers : List String
  deletionTimestamp : Option Time
  spec : Json
  status : Json

/-- `withoutOwnWrites`. -/
def withoutOwnWrites (vm : VirtualMachine) : StrippedVM where
  name := vm.name
  nspace := vm.nspace
  uid := vm.uid
  labels := vm.labels
  annotations := strippedAnnotations vm.annotations
  finalizers := vm.finalizers
  deletionTimestamp := vm.deletionTimestamp
  spec := vm.spec
  status := strippedStatus vm.status

/-- `equality.Semantic.DeepEqual` of two such objects. -/
def StrippedVM.deepEqual (a b : StrippedVM) : Bool :=
  a.name = b.name && a.nspace = b.nspace && a.uid = b.uid && a.labels = b.labels &&
    a.annotations = b.annotations && a.finalizers = b.finalizers &&
    a.deletionTimestamp = b.deletionTimestamp && a.spec.deepEqual b.spec &&
    a.status.deepEqual b.status

/-- `ownWritesOnly`. -/
def ownWritesOnly (old new : VirtualMachine) : Bool :=
  (withoutOwnWrites old).deepEqual (withoutOwnWrites new)

end SaltOperator
