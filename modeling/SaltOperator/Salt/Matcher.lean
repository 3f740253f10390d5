import SaltOperator.Runtime

/-!
# Matching a VM to a pending key (pkg/salt/matcher.go)

`FindMinionID` tries its strategies in order over the list of pending keys. A
match is always a key of the list (`findMinionID_mem`), and never the empty
string unless RaaS listed one.
-/

namespace SaltOperator

/-- `MatchMethod`; its text is what the `match-method` annotation shows. -/
inductive MatchMethod where
  | name
  | ip
  | shiftedIP
  | byPrefix
  | none
  deriving DecidableEq, Repr

def MatchMethod.text : MatchMethod → String
  | .name => "name"
  | .ip => "ip"
  | .shiftedIP => "shifted-ip"
  | .byPrefix => "prefix"
  | .none => "none"

structure MatchResult where
  minionID : String := ""
  method : MatchMethod
  deriving DecidableEq, Repr

/-- `strconv.Atoi` on digits with an optional sign. -/
def atoi (s : String) : Option Int :=
  let digits (cs : List Char) : Option Int :=
    if cs ≠ [] ∧ cs.all Char.isDigit then
      some (cs.foldl (fun n c => n * 10 + (c.toNat - '0'.toNat : Nat)) 0)
    else none
  match s.toList with
  | '-' :: cs => (digits cs).map (- ·)
  | '+' :: cs => digits cs
  | cs => digits cs

/-- Whether `shiftFirstOctet` takes `p` for an octet. -/
def isOctet (p : String) : Bool :=
  if p.length = 0 ∨ p.length > 3 then false
  else match atoi p with
    | none => false
    | some n => 0 ≤ n ∧ n ≤ 255

/-- `shiftFirstOctet`: the first octet moved to the end, empty when `ip` is not
an address. -/
def shiftFirstOctet (ip : String) : String :=
  match Go.split ip '.' with
  | [a, b, c, d] =>
    if [a, b, c, d].all isOctet then b ++ "." ++ c ++ "." ++ d ++ "." ++ a else ""
  | _ => ""

/-- The body of `FindMinionID`'s second loop, which tries two strategies on each
key. -/
def matchIP (vmIP shiftedIP key : String) : Option MatchResult :=
  if vmIP ≠ "" ∧ key = vmIP then some ⟨key, .ip⟩
  else if shiftedIP ≠ "" ∧ key = shiftedIP then some ⟨key, .shiftedIP⟩
  else none

/-- `FindMinionID`. -/
def findMinionID (rt : Runtime) (vmName vmIP : String) (pendingKeys : List String) : MatchResult :=
  let shiftedIP := shiftFirstOctet vmIP
  match pendingKeys.find? fun key => rt.equalFold key vmName with
  | some key => ⟨key, .name⟩
  | none =>
    match pendingKeys.findSome? (matchIP vmIP shiftedIP) with
    | some r => r
    | none =>
      match pendingKeys.find? fun key =>
          vmName ≠ "" && Go.hasPrefix (rt.toLower key) (rt.toLower vmName ++ ".") with
      | some key => ⟨key, .byPrefix⟩
      | none => { method := .none }

theorem matchIP_key {vmIP shiftedIP key : String} {r : MatchResult}
    (h : matchIP vmIP shiftedIP key = some r) : r.minionID = key ∧ r.method ≠ .none := by
  unfold matchIP at h
  split at h
  · cases h
    exact ⟨rfl, nofun⟩
  · split at h
    · cases h
      exact ⟨rfl, nofun⟩
    · cases h

/-- A match is one of the pending keys. -/
theorem findMinionID_mem {rt : Runtime} {vmName vmIP : String} {pendingKeys : List String}
    (h : (findMinionID rt vmName vmIP pendingKeys).method ≠ .none) :
    (findMinionID rt vmName vmIP pendingKeys).minionID ∈ pendingKeys := by
  unfold findMinionID at h ⊢
  dsimp only at h ⊢
  split
  · rename_i key hf
    exact List.mem_of_find?_eq_some hf
  · split
    · rename_i r hf
      obtain ⟨key, hmem, hr⟩ := List.exists_of_findSome?_eq_some hf
      rw [(matchIP_key hr).1]
      exact hmem
    · split
      · rename_i key hf
        exact List.mem_of_find?_eq_some hf
      · rename_i h₁ _ h₂ _ h₃
        rw [h₁, h₂] at h
        simp only [h₃] at h
        exact absurd rfl h

end SaltOperator
