import SaltOperator.Go.Text

/-!
# JSON values as Go decodes them

A JSON value with the members of its objects in the order of the text, and the
ways the program reads it: into an `any` (`get?`, the last of several members of
one name wins), and through the accessors of `unstructured`. A number is the
value of its `float64`.
-/

namespace SaltOperator

inductive Json where
  | null
  | bool (b : Bool)
  | num (q : ℚ)
  | str (s : String)
  | arr (items : List Json)
  | obj (members : List (String × Json))
  deriving Inhabited

namespace Json

/-- `m[k]` on a `map[string]any`; `none` when the key is absent or the value is
not an object. -/
def get? (k : String) : Json → Option Json
  | .obj members => members.reverse.lookup k
  | _ => none

/-- The entries of the `map[string]any` an object decodes to, in the order in which
`json.Marshal` writes them. -/
def entries (j : Json) : List (String × Json) :=
  match j with
  | .obj members => ((members.map Prod.fst).dedup.insertionSort (· ≤ ·)).filterMap fun k =>
      (j.get? k).map fun v => (k, v)
  | _ => []

/-- The value under a path of keys. -/
def path? (j : Json) : List String → Option Json
  | [] => some j
  | k :: ks => (j.get? k).bind fun j' => j'.path? ks

/-- `unstructured.NestedString` with its errors dropped. -/
def nestedString (j : Json) (ks : List String) : String :=
  match j.path? ks with
  | some (.str s) => s
  | _ => ""

/-- `unstructured.NestedSlice` with its errors dropped. -/
def nestedSlice (j : Json) (ks : List String) : List Json :=
  match j.path? ks with
  | some (.arr items) => items
  | _ => []

/-- Whether the value is an object whose member `k` is the string `s`. -/
def hasString (k s : String) (j : Json) : Bool :=
  match j.get? k with
  | some (.str s') => s' = s
  | _ => false

end Json

end SaltOperator
