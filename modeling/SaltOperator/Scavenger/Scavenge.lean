import SaltOperator.Salt.Http
import SaltOperator.Controller.SaltKeyConfig
import SaltOperator.Api.VirtualMachine

/-!
# The scavenger (cmd/scavenger/main.go)

A job that runs once and deletes the accepted keys of minions without a VM. `scavenge`
groups the Ready configs by the URL their connections resolve to, and
`scavengeRaasGroup` compares the accepted keys of one RaaS with the VMs of the group's
namespaces.

Go's maps are iterated in no order: the order the groups are visited in is a parameter
of the job, and sets of minion IDs are lists whose order nothing reads.
-/

namespace SaltOperator

/-- The settings of a run; `glob` is `path.Match`, false for its errors. -/
structure Scavenger where
  dryRun : Bool := true
  exclude : List String := []
  defaultConnection : Default
  glob : (pattern name : String) → Bool

/-- `raasGroup`. -/
structure RaasGroup where
  conn : Connection
  namespaces : List String

/-- Put a namespace into the group of its connection's URL, a new one if there is none. -/
def addToGroup (conn : Connection) (nspace : String) : List RaasGroup → List RaasGroup
  | [] => [⟨conn, [nspace]⟩]
  | g :: groups =>
    if g.conn.url = conn.url then { g with namespaces := g.namespaces ++ [nspace] } :: groups
    else g :: addToGroup conn nspace groups

/-- The groups of configs with their connections. -/
def groupsOf (resolved : List (SaltKeyConfig × Connection)) : List RaasGroup :=
  resolved.foldl (fun groups c => addToGroup c.2 c.1.nspace groups) []

section scavenge

variable (rt : Runtime) (s : Scavenger)

/-- The Ready configs whose connections resolve, with their connections: the calls of the
first loop of `scavenge`. -/
def resolvable : List SaltKeyConfig → M (List (SaltKeyConfig × Connection))
  | [] => return []
  | cfg :: rest => do
    if !cfg.isReady then
      logInfo "Skipping unready SaltKeyConfig" [("namespace", cfg.nspace), ("name", cfg.name)]
      resolvable rest
    else
      match ← (resolve rt cfg s.defaultConnection).attempt with
      | .error e =>
        logError (some e.text) "Skipping SaltKeyConfig whose RaaS connection does not resolve"
          [("namespace", cfg.nspace), ("name", cfg.name)]
        resolvable rest
      | .ok conn => return (cfg, conn) :: (← resolvable rest)

/-- The IDs recorded on the VMs of a list. -/
def recordedIDs (vms : List VirtualMachine) : List String :=
  (vms.map fun vm => vm.annotationOf annotationMinionID).filter (· ≠ "")

/-- `liveVMMinionIDs`. -/
def liveVMMinionIDs (nspace : String) : M (List String) := do
  match ← Prog.perform (Op.listVMs (some nspace)) with
  | .error e => .fail e.text
  | .ok vms => return recordedIDs vms

/-- The fields of every log line of a group. -/
def RaasGroup.logFields (g : RaasGroup) : List (String × String) :=
  [("raasURL", g.conn.url), ("namespaces", "[" ++ Go.join " " g.namespaces ++ "]")]

/-- The live minions of a group's namespaces, `none` if one cannot be listed. -/
def liveMinions (g : RaasGroup) : List String → M (Option (List String))
  | [] => return some []
  | nspace :: rest => do
    match ← (liveVMMinionIDs nspace).attempt with
    | .error e =>
      logError (some e) "Could not list live VMs — skipping this RaaS group"
        (g.logFields ++ [("namespace", nspace)])
      return none
    | .ok ids => return (← liveMinions g rest).map (ids ++ ·)

/-- `matchesAny`. -/
def matchesAny (patterns : List String) (minionID : String) : Bool :=
  patterns.any fun p => s.glob p minionID

/-- The counters of a group. -/
structure Counts where
  deleted : Nat := 0
  stale : Nat := 0
  excluded : Nat := 0

/-- Delete a stale key; whether RaaS has done so. -/
def deleteStaleKey (g : RaasGroup) (key : String) : M Bool := do
  let fields := g.logFields ++ [("minionID", key)]
  logError none "Accepted key has no correlated VM, deleting" fields
  match ← salt g.conn (.deleteKey key) with
  | .error e =>
    logError (some e) "Could not delete stale key, continuing" fields
    return false
  | .ok () =>
    logInfo "Deleted stale Salt key" fields
    return true

/-- The loop over the accepted keys. -/
def deleteStale (g : RaasGroup) (live : List String) : List String → Counts → M Counts
  | [], counts => return counts
  | key :: rest, counts => do
    if live.contains key then deleteStale g live rest counts
    else if matchesAny s s.exclude key then
      deleteStale g live rest { counts with excluded := counts.excluded + 1 }
    else if s.dryRun then
      logError none "Accepted key has no correlated VM, not deleting in dry-run mode"
        (g.logFields ++ [("minionID", key)])
      deleteStale g live rest { counts with stale := counts.stale + 1 }
    else
      let done ← deleteStaleKey g key
      deleteStale g live rest
        { counts with stale := counts.stale + 1, deleted := counts.deleted + done.toNat }

/-- The part of `scavengeRaasGroup` for a RaaS with accepted keys. -/
def scavengeKeys (g : RaasGroup) (acceptedKeys : List String) : M Unit := do
  match ← liveMinions g g.namespaces with
  | none => return ()
  | some live =>
    let counts ← deleteStale s g live acceptedKeys {}
    logInfo "RaaS group scavenge complete" (g.logFields ++
      [("acceptedKeys", toString acceptedKeys.length), ("liveVMs", toString live.dedup.length),
       ("excluded", toString counts.excluded), ("staleFound", toString counts.stale),
       ("deleted", toString counts.deleted)])

/-- `scavengeRaasGroup`. -/
def scavengeRaasGroup (g : RaasGroup) : M Unit := do
  match ← salt g.conn .login with
  | .error e => .fail ("login to RaaS: " ++ e)
  | .ok () =>
    match ← salt g.conn .listAcceptedKeys with
    | .error e => .fail ("list accepted keys: " ++ e)
    | .ok [] => logInfo "No accepted keys found in RaaS" g.logFields
    | .ok acceptedKeys => scavengeKeys s g acceptedKeys

/-- The body of the loop over the groups. -/
def visitGroup (g : RaasGroup) : M Unit := do
  match ← (scavengeRaasGroup s g).attempt with
  | .error e => logError (some e) "Failed to scavenge RaaS group" [("raasURL", g.conn.url)]
  | .ok () => return ()

/-- The loop over the groups. -/
def scavengeGroups : List RaasGroup → M Unit
  | [] => return ()
  | g :: groups => do
    visitGroup s g
    scavengeGroups groups

/-- `scavenge`. -/
def scavenge (order : List RaasGroup → List RaasGroup) : M Unit := do
  match ← Prog.perform (Op.listConfigs none) with
  | .error e => .fail ("list SaltKeyConfigs: " ++ e.text)
  | .ok configs =>
    let resolved ← resolvable rt s configs
    scavengeGroups s (order (groupsOf resolved))

end scavenge

end SaltOperator
