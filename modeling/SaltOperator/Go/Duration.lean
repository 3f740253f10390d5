import SaltOperator.Go.Text

/-!
# Durations

`time.Duration` is an `int64` count of nanoseconds and `time.ParseDuration`
reads it from text such as `"1h30m"`. Durations are `Int`s here; the places
where Go's 64-bit arithmetic wraps (`wrap64`) or saturates (`since`) say so.

`readDuration` follows the library's loop: an optional sign, then one or more
numbers with an optional fraction, each with its unit. The library computes in
`uint64`, and in `float64` for a fraction; Lean's `Float` is the same format, with the
same rounding.
-/

namespace SaltOperator

/-- Nanoseconds since the epoch. -/
abbrev Time := Int

/-- Nanoseconds. -/
abbrev Duration := Int

namespace Go

/-- The `int64` an integer wraps around to. -/
def wrap64 (n : Int) : Int := n.bmod (2 ^ 64)

theorem wrap64_of_lt {n : Int} (h : -2 ^ 63 ≤ n) (h' : n < 2 ^ 63) : wrap64 n = n := by
  unfold wrap64
  rw [Int.bmod_def]
  push_cast
  split <;> omega

theorem wrap64_of_ge {n : Int} (h : 2 ^ 63 ≤ n) (h' : n < 2 ^ 64) : wrap64 n = n - 2 ^ 64 := by
  unfold wrap64
  rw [Int.bmod_def]
  push_cast
  split <;> omega

def second : Duration := 1000000000

def minute : Duration := 60 * second

/-- The nearest `int64`. -/
def clamp64 (n : Int) : Int := max (-2 ^ 63) (min (2 ^ 63 - 1) n)

theorem clamp64_cases (n : Int) : -2 ^ 63 ≤ clamp64 n ∧ clamp64 n < 2 ^ 63 ∧
    (clamp64 n = n ∨ n < -2 ^ 63 ∧ clamp64 n = -2 ^ 63 ∨
      2 ^ 63 ≤ n ∧ clamp64 n = 2 ^ 63 - 1) := by
  unfold clamp64
  omega

/-- `time.Since(t)` at `now`: saturates at the ends of `int64`. -/
def since (now t : Time) : Duration := clamp64 (now - t)

/-- `d.Round(m)` for a positive `m`: to the nearest multiple, halfway values
away from zero. -/
def round (d m : Duration) : Duration :=
  let r := d.natAbs % m.natAbs
  let up := if 2 * r < m.natAbs then -(r : Int) else m - r
  clamp64 (if d < 0 then d - up else d + up)

/-- Nanoseconds in a unit (`unitMap`). -/
def unitNanos (u : String) : Option Nat :=
  match u with
  | "ns" => some 1
  | "us" => some 1000
  | "µs" => some 1000
  | "μs" => some 1000
  | "ms" => some 1000000
  | "s" => some 1000000000
  | "m" => some 60000000000
  | "h" => some 3600000000000
  | _ => none

/-- `leadingInt`: the digits at the front, `none` past `2^63`. -/
def leadingInt : List Char → Nat → Option (Nat × List Char)
  | [], x => some (x, [])
  | c :: cs, x =>
    if c.isDigit then
      let y := x * 10 + (c.toNat - '0'.toNat)
      if x > 2 ^ 63 / 10 ∨ y > 2 ^ 63 then none else leadingInt cs y
    else some (x, c :: cs)

/-- `leadingFraction`: the digits at the front and the power of ten they are
over; digits that no longer fit are skipped. -/
def leadingFraction : List Char → Nat → Float → Bool → Nat × Float × List Char
  | [], x, scale, _ => (x, scale, [])
  | c :: cs, x, scale, full =>
    if c.isDigit then
      let y := x * 10 + (c.toNat - '0'.toNat)
      if full ∨ x > (2 ^ 63 - 1) / 10 ∨ y > 2 ^ 63 then leadingFraction cs x scale true
      else leadingFraction cs y (scale * 10) false
    else (x, scale, c :: cs)

/-- The fraction after a number, if there is a point: its digits as a number, the power of
ten they are over, what follows, and whether there is a digit. -/
def fractionPart (s : List Char) : Nat × Float × List Char × Bool :=
  match s with
  | '.' :: s' =>
    let (f, scale, rest) := leadingFraction s' 0 1 false
    (f, scale, rest, rest.length != s'.length)
  | _ => (0, 1, s, false)

/-- `uint64(float64(f) * (float64(unit) / scale))`. -/
def fractionNanos (f unit : Nat) (scale : Float) : Nat :=
  (f.toUInt64.toFloat * (unit.toUInt64.toFloat / scale)).toUInt64.toNat

/-- The nanoseconds of `v + f/scale` units, `none` if a value on the way is past `2^63`. -/
def termNanos (v f : Nat) (scale : Float) (unit : Nat) : Option Nat :=
  if v > 2 ^ 63 / unit then none
  else if f > 0 then
    -- the addition is of `uint64`s
    let n := (v * unit + fractionNanos f unit scale) % 2 ^ 64
    if n > 2 ^ 63 then none else some n
  else some (v * unit)

/-- A character that ends a unit. -/
def endsUnit (c : Char) : Bool := c = '.' || c.isDigit

/-- A character as the package `time` quotes it: its bytes, unless it is printable ASCII. -/
def timeQuoteChar (c : Char) : List Char :=
  if c.toNat ≥ 0x80 ∨ c < ' ' then
    (String.utf8EncodeChar c).flatMap fun b => '\\' :: 'x' :: hexByte b
  else if c = '"' ∨ c = '\\' then ['\\', c]
  else [c]

/-- `quote` of the package `time`. -/
def timeQuote (s : String) : String :=
  "\"" ++ String.ofList (s.toList.flatMap timeQuoteChar) ++ "\""

def errInvalid (orig : String) : String := "time: invalid duration " ++ timeQuote orig

def errMissingUnit (orig : String) : String :=
  "time: missing unit in duration " ++ timeQuote orig

def errUnknownUnit (u orig : String) : String :=
  "time: unknown unit " ++ timeQuote u ++ " in duration " ++ timeQuote orig

/-- One number with its unit: its nanoseconds and what follows it. -/
def parseTerm (orig : String) (s : List Char) : Except String (Nat × List Char) :=
  if s.head?.any endsUnit = false then .error (errInvalid orig)
  else match leadingInt s 0 with
    | none => .error (errInvalid orig)
    | some (v, s₁) =>
      let (f, scale, s₂, post) := fractionPart s₁
      let u := String.ofList (s₂.takeWhile fun c => !endsUnit c)
      if s₁.length = s.length ∧ post = false then .error (errInvalid orig)
      else if u = "" then .error (errMissingUnit orig)
      else match unitNanos u with
        | none => .error (errUnknownUnit u orig)
        | some unit =>
          match termNanos v f scale unit with
          | none => .error (errInvalid orig)
          | some n => .ok (n, s₂.dropWhile fun c => !endsUnit c)

/-- The terms up to the end of the text, added up as `uint64`s. `fuel` bounds their number. -/
def parseTerms (orig : String) : Nat → List Char → Nat → Except String Nat
  | _, [], d => .ok d
  | 0, _ :: _, _ => .error (errInvalid orig)
  | fuel + 1, c :: cs, d =>
    match parseTerm orig (c :: cs) with
    | .error e => .error e
    | .ok (v, rest) =>
      if (d + v) % 2 ^ 64 > 2 ^ 63 then .error (errInvalid orig)
      else parseTerms orig fuel rest ((d + v) % 2 ^ 64)

/-- The part of the text after the sign. -/
def parseUnsigned (orig : String) (neg : Bool) (s : List Char) : Except String Duration :=
  if s = ['0'] then .ok 0
  else if s = [] then .error (errInvalid orig)
  else match parseTerms orig s.length s 0 with
    | .error e => .error e
    | .ok d =>
      if neg then .ok (-(d : Int))
      else if d > 2 ^ 63 - 1 then .error (errInvalid orig)
      else .ok d

/-- `time.ParseDuration`. -/
def readDuration (s : String) : Except String Duration :=
  match s.toList with
  | '-' :: cs => parseUnsigned s true cs
  | '+' :: cs => parseUnsigned s false cs
  | cs => parseUnsigned s false cs

/-- `time.ParseDuration` for callers that do not look into its error. -/
def parseDuration (s : String) : Option Duration := (readDuration s).toOption

/-- A duration is an `int64`. -/
theorem parseDuration_lt {s : String} {d : Int} (h : parseDuration s = some d) :
    d < 2 ^ 63 := by
  have unsigned : ∀ {neg cs}, (parseUnsigned s neg cs).toOption = some d → d < 2 ^ 63 := by
    intro neg cs h
    unfold parseUnsigned at h
    split at h
    · obtain rfl : 0 = d := Option.some.inj h
      decide
    · split at h
      · cases h
      · split at h
        · cases h
        · next n _ =>
          split at h
          · obtain rfl : -(n : Int) = d := Option.some.inj h
            omega
          · split at h
            · cases h
            · obtain rfl : (n : Int) = d := Option.some.inj h
              omega
  unfold parseDuration readDuration at h
  split at h <;> exact unsigned h

example : parseDuration "1h30m" = some 5400000000000 := by decide

example : parseDuration "0s" = some 0 := by decide

example : parseDuration "1.5h" = some 5400000000000 := by decide +kernel

-- the fraction is rounded, once to a `float64` and then down
example : parseDuration "0.9999999999999999999ns" = some 1 := by decide +kernel

example : readDuration "10" = .error "time: missing unit in duration \"10\"" := by decide

end Go

/-- `parseDurationOrDefault`. -/
def parseDurationOrDefault (s : String) (fallback : Duration) : Duration :=
  if s = "" then fallback
  else match Go.parseDuration s with
    | none => fallback
    | some d => d

end SaltOperator
