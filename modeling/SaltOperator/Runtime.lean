import SaltOperator.Api.SaltKeyConfig

/-!
# What the program takes from its libraries as it is

Library functions of which nothing here depends on more than that they are
functions: the hash, the clock's text format, Unicode case, and apimachinery's
label selectors. Every result of this development is about all of them.
-/

namespace SaltOperator

structure Runtime where
  /-- `sha256.Sum256`, its 32 bytes. -/
  sha256 : String → List UInt8
  /-- `time.Parse(time.RFC3339, s)`, `none` for its errors. -/
  parseRFC3339 : String → Option Time
  /-- `t.UTC().Format(time.RFC3339)`. -/
  formatRFC3339 : Time → String
  /-- `Duration.String`. -/
  durationString : Duration → String
  /-- `unicode.ToLower`. -/
  lower : Char → Char
  /-- One rune of each orbit of `unicode.SimpleFold`. -/
  fold : Char → Char
  /-- `metav1.LabelSelectorAsSelector` and the `Matches` of what it returns. -/
  selector : LabelSelector → Except String (StringMap → Bool)

namespace Runtime

variable (rt : Runtime)

/-- `strings.ToLower`. -/
def toLower (s : String) : String := String.ofList (s.toList.map rt.lower)

/-- `strings.EqualFold`. -/
def equalFold (s t : String) : Bool := s.toList.map rt.fold = t.toList.map rt.fold

variable {rt}

theorem equalFold_self (s : String) : rt.equalFold s s = true := decide_eq_true rfl

/-- A name matches names of one length only. -/
theorem equalFold_ne {a b k : String} (hlen : a.length ≠ b.length)
    (h : rt.equalFold k a = true) : rt.equalFold k b = false := by
  rw [← Bool.not_eq_true]
  intro h'
  have ha := congrArg List.length (of_decide_eq_true h)
  have hb := congrArg List.length (of_decide_eq_true h')
  simp only [List.length_map, String.length_toList] at ha hb
  exact hlen (ha.symm.trans hb)

end Runtime

end SaltOperator
