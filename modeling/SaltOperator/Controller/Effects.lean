import SaltOperator.Lib.Prog
import SaltOperator.Api.VirtualMachine
import SaltOperator.Salt.Client

/-!
# The calls a controller makes

Everything a reconcile does to the outside world, one constructor a call: reads
and writes of the Kubernetes API, methods of the RaaS client, the clock, events,
log lines, and the process's cache of logged-in clients. `Op.Ans` is what each
call returns.
-/

namespace SaltOperator

/-- An error of the Kubernetes API, as far as the code tells errors apart. -/
inductive ApiErr where
  | notFound (text : String)
  | alreadyExists (text : String)
  | other (text : String)
  deriving DecidableEq, Repr

def ApiErr.text : ApiErr → String
  | .notFound t => t
  | .alreadyExists t => t
  | .other t => t

/-- `raasconn.Connection`. `source` is `SourceNamespaceSecret` or
`SourceDefaultConnection`. -/
structure Connection where
  url : String
  masterID : String
  username : String
  password : String
  skipTLSVerify : Bool
  source : String
  deriving DecidableEq, Repr

/-- `metav1.OwnerReference`. -/
structure OwnerReference where
  apiVersion : String
  kind : String
  name : String
  uid : String
  deriving DecidableEq, Repr

/-- The `corev1.Secret` the operator writes. -/
structure Secret where
  name : String
  nspace : String
  labels : List (String × String)
  ownerReferences : List OwnerReference
  data : List (String × String)
  deriving DecidableEq, Repr

/-- The type of a Kubernetes event. -/
inductive EventType where
  | normal
  | warning
  deriving DecidableEq, Repr

inductive Op where
  /-- `time.Now()`. -/
  | now
  | getVM (key : NamespacedName)
  /-- `r.List` of VMs, in one namespace or in all. -/
  | listVMs (nspace : Option String)
  /-- `r.Patch(ctx, obj, client.MergeFrom(base))`. -/
  | patchVM (base obj : VirtualMachine)
  /-- `r.List` of `SaltKeyConfig`s, in one namespace or in all. -/
  | listConfigs (nspace : Option String)
  | getSecret (key : NamespacedName)
  | createSecret (secret : Secret)
  | updateSecret (secret : Secret)
  /-- A raw merge patch of entries of a Secret's data. -/
  | patchSecret (key : NamespacedName) (data : List (String × String))
  /-- `r.Recorder.Event`. -/
  | event (vm : NamespacedName) (type : EventType) (reason message : String)
  /-- A log line; `err` is the error of `log.Error`. -/
  | log (err : Option String) (message : String) (fields : List (String × String))
  | cacheGet (key : NamespacedName) (configRV : String)
  | cacheSet (key : NamespacedName) (configRV : String) (conn : Connection)
  /-- A method of the RaaS client for `conn`. -/
  | salt (conn : Connection) (call : SaltCall)

def Op.Ans : Op → Type
  | .now => Time
  | .getVM _ => Except ApiErr VirtualMachine
  | .listVMs _ => Except ApiErr (List VirtualMachine)
  | .patchVM _ _ => Except ApiErr VirtualMachine
  | .listConfigs _ => Except ApiErr (List SaltKeyConfig)
  | .getSecret _ => Except ApiErr StringMap
  | .createSecret _ => Except ApiErr Unit
  | .updateSecret _ => Except ApiErr Unit
  | .patchSecret _ _ => Except ApiErr Unit
  | .event _ _ _ _ => Unit
  | .log _ _ _ => Unit
  | .cacheGet _ _ => Option Connection
  | .cacheSet _ _ _ => Unit
  | .salt _ c => c.Ans

/-- A controller's program; it fails with the text of a Go error. -/
abbrev M (α : Type) := Prog Op Op.Ans String α

/-- `ctrl.Result`; the empty one asks for no requeue. -/
structure Result where
  requeueAfter : Duration := 0
  deriving DecidableEq, Repr

/-- `log.Info`. -/
def logInfo (message : String) (fields : List (String × String)) : M Unit :=
  Prog.perform (Op.log none message fields)

/-- `log.Error`. -/
def logError (err : Option String) (message : String) (fields : List (String × String)) : M Unit :=
  Prog.perform (Op.log (some (err.getD "")) message fields)

/-- `r.Recorder.Event(vm, ..)`. -/
def recordEvent (vm : VirtualMachine) (type : EventType) (reason message : String) : M Unit :=
  Prog.perform (Op.event vm.key type reason message)

def timeNow : M Time := Prog.perform Op.now

/-- A call of the RaaS client. -/
def salt (conn : Connection) (c : SaltCall) : M c.Ans := Prog.perform (Op.salt conn c)

end SaltOperator
