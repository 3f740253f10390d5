import Mathlib

/-!
# Strings, hex and maps as Go's library has them

The functions of `strings`, `strconv`, `encoding/hex` and `fmt` the operator
uses, over the characters of a string so that they evaluate. A Go
`map[string]string` is a `StringMap`; reading an absent key gives the empty
string.
-/

namespace SaltOperator

/-- A Go `map[string]string`. -/
abbrev StringMap := Std.ExtTreeMap String String

namespace StringMap

/-- `m[k]` in Go: the empty string when `k` is absent. -/
def read (m : StringMap) (k : String) : String := m.getD k ""

/-- `maps.Copy(m, entries)`: later entries win. -/
def copy (m : StringMap) : List (String × String) → StringMap
  | [] => m
  | (k, v) :: rest => copy (m.insert k v) rest

theorem read_insert (m : StringMap) (k v a : String) :
    read (m.insert k v) a = if k = a then v else read m a := by
  unfold read
  rw [Std.ExtTreeMap.getD_insert]
  simp [Std.LawfulEqCmp.compare_eq_iff_eq]

theorem read_eq_getD (m : StringMap) (k : String) : read m k = m[k]?.getD "" := by
  unfold read
  rw [Std.ExtTreeMap.getD_eq_getD_getElem?]

/-- A copied map holds the last entry for a key, and what it held before
otherwise. -/
theorem getElem?_copy (k : String) : ∀ (entries : List (String × String)) (m : StringMap),
    (copy m entries)[k]? = (entries.reverse.lookup k).or m[k]?
  | [], m => by
    show m[k]? = _
    simp
  | (a, v) :: rest, m => by
    show (copy (m.insert a v) rest)[k]? = _
    rw [getElem?_copy k rest, List.reverse_cons, List.lookup_append, Option.or_assoc,
      Std.ExtTreeMap.getElem?_insert]
    congr 1
    by_cases h : k = a
    · subst h
      simp
    · have hne : compare a k ≠ .eq := fun hc => h (Std.LawfulEqCmp.compare_eq_iff_eq.mp hc).symm
      rw [if_neg hne]
      simp [h]

theorem copy_append (more : List (String × String)) :
    ∀ (entries : List (String × String)) (m : StringMap),
      copy m (entries ++ more) = copy (copy m entries) more
  | [], _ => rfl
  | (a, v) :: rest, m => copy_append more rest (m.insert a v)

end StringMap

/-- Dropping entries of other keys does not change what is found. -/
theorem lookup_filter {β : Type} {p : String × β → Bool} {e : String} (hp : ∀ v, p (e, v) = true) :
    ∀ l : List (String × β), (l.filter p).lookup e = l.lookup e
  | [] => rfl
  | (a, v) :: rest => by
    rcases eq_or_ne e a with rfl | hne
    · rw [List.filter_cons_of_pos (hp v)]
      simp
    · have hea : (e == a) = false := by simpa using hne
      rw [List.filter_cons]
      split <;> simp only [List.lookup_cons, hea, lookup_filter hp rest]

namespace Go

/-- `strings.HasPrefix`. -/
def hasPrefix (s pre : String) : Bool := pre.toList.isPrefixOf s.toList

/-- `strings.Split` on a one-character separator, over characters. -/
def splitChars (sep : Char) : List Char → List (List Char)
  | [] => [[]]
  | c :: cs =>
    if c = sep then [] :: splitChars sep cs
    else match splitChars sep cs with
      | [] => [[c]]
      | p :: ps => (c :: p) :: ps

/-- `strings.Split(s, sep)` for a one-character separator. -/
def split (s : String) (sep : Char) : List String :=
  (splitChars sep s.toList).map String.ofList

/-- `strings.Join`. -/
def join (sep : String) : List String → String
  | [] => ""
  | [s] => s
  | s :: rest => s ++ sep ++ join sep rest

/-- The two lower-case hex digits of a byte. -/
def hexByte (b : UInt8) : List Char :=
  [Nat.digitChar (b.toNat / 16), Nat.digitChar (b.toNat % 16)]

/-- `hex.EncodeToString`. -/
def hexEncode (bs : List UInt8) : String := String.ofList (bs.flatMap hexByte)

/-- A character inside a `%q` literal. -/
def quoteChar : Char → List Char
  | '"' => ['\\', '"']
  | '\\' => ['\\', '\\']
  | '\n' => ['\\', 'n']
  | '\r' => ['\\', 'r']
  | '\t' => ['\\', 't']
  | c => [c]

/-- The `%q` verb of `fmt`. -/
def quote (s : String) : String :=
  "\"" ++ String.ofList (s.toList.flatMap quoteChar) ++ "\""

end Go

end SaltOperator
