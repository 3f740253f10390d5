import SaltOperator.Go.Duration

/-!
# The `SaltKeyConfig` resource (api/v1alpha1/saltkeyconfig_types.go)

One per enrolled namespace. `IsReady` reads the `Ready` condition that
`SaltKeyConfigReconciler` writes.
-/

namespace SaltOperator

/-- `types.NamespacedName`. -/
structure NamespacedName where
  nspace : String
  name : String
  deriving DecidableEq, Repr

/-- A requirement of a `metav1.LabelSelector`. -/
structure LabelSelectorRequirement where
  key : String
  operator : String
  values : List String
  deriving DecidableEq, Repr

/-- `metav1.LabelSelector`. -/
structure LabelSelector where
  matchLabels : List (String × String) := []
  matchExpressions : List LabelSelectorRequirement := []
  deriving DecidableEq, Repr

/-- `SaltKeyConfigSpec`; an absent string field is empty. -/
structure SaltKeyConfigSpec where
  raasURL : String := ""
  credentialsSecret : String := ""
  keyAcceptance : String := "discovery"
  acceptTimeout : String := "10m"
  requeueInterval : String := "30s"
  masterID : String := ""
  skipTLSVerify : Bool := false
  vmSelector : Option LabelSelector := none
  retryToken : String := ""
  enforcementInterval : String := ""
  deriving DecidableEq, Repr

def keyAcceptanceDiscovery : String := "discovery"

def keyAcceptancePreseed : String := "preseed"

/-- `metav1.ConditionStatus`. -/
inductive ConditionStatus where
  | true
  | false
  | unknown
  deriving DecidableEq, Repr

/-- `metav1.Condition`. -/
structure Condition where
  type : String
  status : ConditionStatus
  observedGeneration : Int := 0
  reason : String := ""
  message : String := ""
  deriving DecidableEq, Repr

/-- The parts of a `SaltKeyConfig` the controllers read. -/
structure SaltKeyConfig where
  name : String
  nspace : String
  labels : StringMap := {}
  resourceVersion : String := ""
  generation : Int := 0
  spec : SaltKeyConfigSpec := {}
  conditions : List Condition := []

/-- `IsReady`: the first condition of type `Ready` has status `True`. -/
def SaltKeyConfig.isReady (cfg : SaltKeyConfig) : Bool :=
  match cfg.conditions.find? fun c => c.type = "Ready" with
  | some c => c.status = .true
  | none => false

end SaltOperator
