import SaltOperator.Controller.Effects

/-!
# Resolving a RaaS connection (internal/raasconn/raasconn.go)

A `SaltKeyConfig` names its own credentials Secret, or uses the operator's
default connection, which it may restate but not change.
-/

namespace SaltOperator

/-- `raasconn.Default`. -/
structure Default where
  nspace : String
  secretName : String
  deriving DecidableEq, Repr

def Default.configured (d : Default) : Bool := d.nspace ≠ "" ∧ d.secretName ≠ ""

/-- `raasconn.Error`. -/
structure ConnError where
  reason : String
  message : String
  deriving DecidableEq, Repr

def ConnError.text (e : ConnError) : String := e.reason ++ ": " ++ e.message

def reasonSecretNotFound : String := "SecretNotFound"
def reasonSecretInvalid : String := "SecretInvalid"
def reasonGetSecretFailed : String := "GetSecretFailed"
def reasonIncompleteSpec : String := "IncompleteSpec"
def reasonDefaultNotSet : String := "DefaultConnectionNotConfigured"
def reasonConnectionMismatch : String := "ConnectionMismatch"

def sourceNamespaceSecret : String := "namespace"
def sourceDefaultConnection : String := "default"

/-- A program that fails with a `raasconn.Error`. -/
abbrev ConnM (α : Type) := Prog Op Op.Ans ConnError α

/-- `readSecret`. -/
def readSecret (nspace name : String) : ConnM StringMap := do
  match ← Prog.perform (Op.getSecret ⟨nspace, name⟩) with
  | .ok data => return data
  | .error (.notFound _) => .fail ⟨reasonSecretNotFound,
      "Secret " ++ Go.quote name ++ " not found in namespace " ++ Go.quote nspace⟩
  | .error e => .fail ⟨reasonGetSecretFailed,
      "Could not read Secret " ++ nspace ++ "/" ++ name ++ ": " ++ e.text⟩

/-- `resolveNamespaceSecret`. -/
def resolveNamespaceSecret (cfg : SaltKeyConfig) : ConnM Connection := do
  if cfg.spec.raasURL = "" ∨ cfg.spec.masterID = "" then
    .fail ⟨reasonIncompleteSpec,
      "spec.raasURL and spec.masterID are required when spec.credentialsSecret is set"⟩
  else
    let data ← readSecret cfg.nspace cfg.spec.credentialsSecret
    if StringMap.read data "username" = "" ∨ StringMap.read data "password" = "" then
      .fail ⟨reasonSecretInvalid, "Secret " ++ Go.quote cfg.spec.credentialsSecret ++
        " must contain non-empty keys \"username\" and \"password\""⟩
    else
      return {
        url := cfg.spec.raasURL
        masterID := cfg.spec.masterID
        username := StringMap.read data "username"
        password := StringMap.read data "password"
        skipTLSVerify := cfg.spec.skipTLSVerify
        source := sourceNamespaceSecret }

/-- `Default.Load`. -/
def Default.load (rt : Runtime) (d : Default) : ConnM Connection := do
  let data ← readSecret d.nspace d.secretName
  if ["url", "masterID", "username", "password"].any fun k => StringMap.read data k = "" then
    .fail ⟨reasonSecretInvalid,
      "default connection Secret " ++ d.nspace ++ "/" ++ d.secretName ++
      " must contain non-empty keys \"url\", \"masterID\", \"username\" and \"password\""⟩
  else
    return {
      url := StringMap.read data "url"
      masterID := StringMap.read data "masterID"
      username := StringMap.read data "username"
      password := StringMap.read data "password"
      skipTLSVerify := rt.equalFold (StringMap.read data "skipTLSVerify") "true"
      source := sourceDefaultConnection }

/-- `resolveDefault`. -/
def resolveDefault (rt : Runtime) (cfg : SaltKeyConfig) (d : Default) : ConnM Connection := do
  if !d.configured then
    .fail ⟨reasonDefaultNotSet, "spec.credentialsSecret is empty and the operator has no " ++
      "default connection (--default-connection-secret)"⟩
  else
    let conn ← d.load rt
    if cfg.spec.raasURL ≠ "" ∧ cfg.spec.raasURL ≠ conn.url then
      .fail ⟨reasonConnectionMismatch, "spec.raasURL " ++ Go.quote cfg.spec.raasURL ++
        " differs from the operator's default connection, set spec.credentialsSecret to use " ++
        "another endpoint"⟩
    else if cfg.spec.masterID ≠ "" ∧ cfg.spec.masterID ≠ conn.masterID then
      .fail ⟨reasonConnectionMismatch, "spec.masterID " ++ Go.quote cfg.spec.masterID ++
        " differs from the operator's default connection"⟩
    else if cfg.spec.skipTLSVerify && !conn.skipTLSVerify then
      .fail ⟨reasonConnectionMismatch,
        "spec.skipTLSVerify cannot disable TLS verification for the operator's default connection"⟩
    else
      return conn

/-- `Resolve`. -/
def resolve (rt : Runtime) (cfg : SaltKeyConfig) (d : Default) : ConnM Connection :=
  if cfg.spec.credentialsSecret ≠ "" then resolveNamespaceSecret cfg
  else resolveDefault rt cfg d

end SaltOperator
