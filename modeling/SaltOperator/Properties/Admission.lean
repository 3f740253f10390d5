import SaltOperator.Properties.Schedule
import SaltOperator.Properties.Configs
import SaltOperator.Go.DurationText

/-!
# The enforcement interval: what is admitted

The API server admits an interval that matches the pattern of the CRD, `validate` leaves
it alone, and `enforcementDue` parses it. The pattern is the grammar of unsigned
durations (`mem_intervalPattern`), which says nothing of their size: **an admitted
interval is used exactly when its terms add up to a positive `int64`**, with no value past
`2^63` on the way (`admitted_usable_iff`). With `0s` or a sum past 292 years enforcement is
off and nothing reports it (`admitted_disabled`).
-/

namespace SaltOperator

open RegularExpression

/-! ## The pattern -/

/-- `r+`. -/
def oneOrMore (r : RegularExpression Char) : RegularExpression Char := r * r.star

/-- One of these characters. -/
def oneOf : List Char → RegularExpression Char
  | [] => 0
  | c :: cs => char c + oneOf cs

/-- These characters, one after the other. -/
def literal : List Char → RegularExpression Char
  | [] => 1
  | c :: cs => char c * literal cs

/-- `[0-9]+`. -/
def digits : RegularExpression Char := oneOrMore (oneOf "0123456789".toList)

/-- `(ns|us|ms|s|m|h)`. -/
def units : RegularExpression Char :=
  literal "ns".toList + literal "us".toList + literal "ms".toList + literal "s".toList +
    literal "m".toList + literal "h".toList

/-- `^([0-9]+(\.[0-9]+)?(ns|us|ms|s|m|h))+$`, the pattern of `spec.enforcementInterval`. -/
def intervalPattern : RegularExpression Char :=
  oneOrMore (digits * (1 + char '.' * digits) * units)

/-- The API server admits the text as an enforcement interval. -/
def Admitted (s : String) : Prop := s.toList ∈ intervalPattern.matches'

section pattern

variable {r : RegularExpression Char} {w : List Char}

theorem mem_oneOrMore : w ∈ (oneOrMore r).matches' ↔
    ∃ ws : List (List Char), ws ≠ [] ∧ w = ws.flatten ∧ ∀ v ∈ ws, v ∈ r.matches' := by
  unfold oneOrMore
  rw [matches'_mul, matches'_star, Language.mem_mul]
  constructor
  · rintro ⟨v, hv, rest, hrest, rfl⟩
    obtain ⟨ws, rfl, hws⟩ := Language.mem_kstar.mp hrest
    refine ⟨v :: ws, List.cons_ne_nil _ _, rfl, fun v' hv' => ?_⟩
    rcases List.mem_cons.mp hv' with rfl | hv'
    · exact hv
    · exact hws v' hv'
  · rintro ⟨ws, hne, rfl, hws⟩
    obtain ⟨v, ws, rfl⟩ := List.exists_cons_of_ne_nil hne
    refine ⟨v, hws v List.mem_cons_self, ws.flatten, ?_, rfl⟩
    exact Language.mem_kstar.mpr ⟨ws, rfl, fun v' hv' => hws v' (List.mem_cons_of_mem _ hv')⟩

theorem mem_oneOf {cs : List Char} : w ∈ (oneOf cs).matches' ↔ ∃ c ∈ cs, w = [c] := by
  induction cs with
  | nil => exact ⟨fun h => h.elim, fun ⟨c, hc, _⟩ => absurd hc List.not_mem_nil⟩
  | cons c cs ih =>
    unfold oneOf
    rw [matches'_add, Language.mem_add, ih, matches'_char, List.exists_mem_cons_iff]
    rfl

theorem mem_literal {cs : List Char} : w ∈ (literal cs).matches' ↔ w = cs := by
  induction cs generalizing w with
  | nil => exact Language.mem_one w
  | cons c cs ih =>
    unfold literal
    rw [matches'_mul, Language.mem_mul, matches'_char]
    constructor
    · rintro ⟨v, rfl, rest, hrest, rfl⟩
      rw [ih.mp hrest]
      rfl
    · rintro rfl
      exact ⟨[c], rfl, cs, ih.mpr rfl, rfl⟩

theorem isDigit_iff_mem (c : Char) : c.isDigit = true ↔ c ∈ "0123456789".toList := by
  constructor
  · intro h
    obtain ⟨hlo, hhi⟩ : 48 ≤ c.toNat ∧ c.toNat ≤ 57 := by
      simpa [Char.isDigit, UInt32.le_iff_toNat_le] using h
    rw [← Char.ofNat_toNat c]
    generalize c.toNat = n at hlo hhi
    interval_cases n <;> decide
  · have hall : ("0123456789".toList.all Char.isDigit) = true := by decide
    exact List.all_eq_true.mp hall c

theorem mem_digits : w ∈ digits.matches' ↔ w ≠ [] ∧ ∀ c ∈ w, c.isDigit = true := by
  unfold digits
  rw [mem_oneOrMore]
  constructor
  · rintro ⟨ws, hne, rfl, hws⟩
    obtain ⟨v, ws, rfl⟩ := List.exists_cons_of_ne_nil hne
    refine ⟨?_, fun c hc => ?_⟩
    · obtain ⟨c, -, rfl⟩ := mem_oneOf.mp (hws v List.mem_cons_self)
      exact List.cons_ne_nil _ _
    · obtain ⟨v', hv', hc⟩ := List.mem_flatten.mp hc
      obtain ⟨d, hd, rfl⟩ := mem_oneOf.mp (hws v' hv')
      obtain rfl := List.mem_singleton.mp hc
      exact (isDigit_iff_mem c).mpr hd
  · rintro ⟨hne, hall⟩
    refine ⟨w.map fun c => [c], fun h => hne (List.map_eq_nil_iff.mp h), ?_, fun v hv => ?_⟩
    · rw [← List.flatMap_def, List.flatMap_singleton']
    · obtain ⟨c, hc, rfl⟩ := List.mem_map.mp hv
      exact mem_oneOf.mpr ⟨c, (isDigit_iff_mem c).mp (hall c hc), rfl⟩

theorem mem_units : w ∈ units.matches' ↔ ∃ u : Go.TimeUnit, w = u.text.toList := by
  unfold units
  simp only [matches'_add, Language.mem_add, mem_literal]
  constructor
  · rintro (((((rfl | rfl) | rfl) | rfl) | rfl) | rfl)
    · exact ⟨.ns, rfl⟩
    · exact ⟨.us, rfl⟩
    · exact ⟨.ms, rfl⟩
    · exact ⟨.s, rfl⟩
    · exact ⟨.m, rfl⟩
    · exact ⟨.h, rfl⟩
  · rintro ⟨u, rfl⟩
    cases u <;> simp [Go.TimeUnit.text]

/-- `(\.[0-9]+)?` is the text of a fraction, an absent one included. -/
theorem mem_fraction : w ∈ (1 + char '.' * digits).matches' ↔
    ∃ ds : List Char, (∀ c ∈ ds, c.isDigit = true) ∧ w = if ds = [] then [] else '.' :: ds := by
  rw [matches'_add, matches'_mul, matches'_char, Language.mem_add, Language.mem_mul]
  constructor
  · rintro (hnil | ⟨_, rfl, ds, hds, rfl⟩)
    · exact ⟨[], by simp, (Language.mem_one w).mp hnil⟩
    · obtain ⟨hne, hall⟩ := mem_digits.mp hds
      exact ⟨ds, hall, by rw [if_neg hne]; rfl⟩
  · rintro ⟨ds, hall, rfl⟩
    by_cases hds : ds = []
    · rw [if_pos hds]
      exact .inl rfl
    · rw [if_neg hds]
      exact .inr ⟨['.'], rfl, ds, mem_digits.mpr ⟨hds, hall⟩, rfl⟩

/-- A term of the pattern is a term of a duration. -/
theorem mem_term : w ∈ (digits * (1 + char '.' * digits) * units).matches' ↔
    ∃ t : Go.DurationTerm, w = t.text := by
  rw [matches'_mul, Language.mem_mul]
  constructor
  · rintro ⟨_, hnumber, _, hunit, rfl⟩
    obtain ⟨whole, hwhole, _, hfraction, rfl⟩ := Language.mem_mul.mp hnumber
    obtain ⟨ds, hds, rfl⟩ := mem_fraction.mp hfraction
    obtain ⟨u, rfl⟩ := mem_units.mp hunit
    obtain ⟨hne, hall⟩ := mem_digits.mp hwhole
    exact ⟨⟨whole, ds, u, hne, hall, hds⟩, List.append_assoc _ _ _⟩
  · rintro ⟨t, rfl⟩
    refine ⟨t.whole ++ t.fractionText, ?_, _, mem_units.mpr ⟨t.unit, rfl⟩, List.append_assoc _ _ _⟩
    exact Language.mem_mul.mpr ⟨t.whole, mem_digits.mpr ⟨t.whole_ne, t.whole_digits⟩, _,
      mem_fraction.mpr ⟨t.fraction, t.fraction_digits, rfl⟩, rfl⟩

/-- **The pattern is the grammar of unsigned durations.** -/
theorem mem_intervalPattern : w ∈ intervalPattern.matches' ↔
    ∃ ts : List Go.DurationTerm, ts ≠ [] ∧ w = Go.termsText ts := by
  unfold intervalPattern Go.termsText
  rw [mem_oneOrMore]
  constructor
  · rintro ⟨ws, hne, rfl, hws⟩
    obtain ⟨ts, rfl⟩ : ws ∈ Set.range (List.map Go.DurationTerm.text) := by
      rw [Set.range_list_map]
      intro v hv
      obtain ⟨t, rfl⟩ := mem_term.mp (hws v hv)
      exact ⟨t, rfl⟩
    exact ⟨ts, fun h => hne (List.map_eq_nil_iff.mpr h), List.flatMap_def.symm⟩
  · rintro ⟨ts, hne, rfl⟩
    refine ⟨ts.map Go.DurationTerm.text, fun h => hne (List.map_eq_nil_iff.mp h),
      List.flatMap_def, fun v hv => ?_⟩
    obtain ⟨t, -, rfl⟩ := List.mem_map.mp hv
    exact mem_term.mpr ⟨t, rfl⟩

end pattern

/-! ## Admitted intervals -/

/-- The API server admits the interval of the config, and `validate` marks it Ready. -/
structure Accepted (rt : Runtime) (d : Default) (cfg : SaltKeyConfig) : Prop where
  admitted : Admitted cfg.spec.enforcementInterval
  ready : ∃ σ cond, ((validate rt d cfg).exec σ 0).2 = .ok cond ∧ cond.status = .true

/-- `enforcementDue` uses the interval: it is a positive duration, and a VM with a recorded
highstate is due or has a time to wait. -/
structure Usable (rt : Runtime) (cfg : SaltKeyConfig) : Prop where
  parsed : ∃ interval, Go.parseDuration cfg.spec.enforcementInterval = some interval ∧ 0 < interval
  enforced : ∀ uid text last now, text ≠ "" → rt.parseRFC3339 text = some last →
    enforcementDue rt cfg uid text now ≠ (false, 0)

/-- The terms of the text add up to a positive `int64`. The sum is one of `uint64`s, of which none
may be past `2^63`, and a fraction counts as its product in `float64`. -/
def Sized (s : String) : Prop :=
  ∃ ts, s.toList = Go.termsText ts ∧ Go.InRangeFrom 0 ts ∧
    0 < Go.totalNanos ts % 2 ^ 64 ∧ Go.totalNanos ts % 2 ^ 64 < 2 ^ 63

/-- **An admitted interval is used exactly when its terms add up to a positive `int64`.** -/
theorem admitted_usable_iff (rt : Runtime) (d : Default) (cfg : SaltKeyConfig)
    (h : Accepted rt d cfg) : Usable rt cfg ↔ Sized cfg.spec.enforcementInterval := by
  constructor
  · intro hu
    obtain ⟨interval, hparse, hpos⟩ := hu.parsed
    obtain ⟨ts, hne, hs⟩ := mem_intervalPattern.mp h.admitted
    obtain ⟨hrange, hlt, rfl⟩ := (Go.parseDuration_terms hne hs).mp hparse
    exact ⟨ts, hs, hrange, Int.natCast_pos.mp hpos, hlt⟩
  · rintro ⟨ts, hs, hrange, hpos, hlt⟩
    have hne : ts ≠ [] := by
      rintro rfl
      exact absurd hpos (lt_irrefl 0)
    have hparse := (Go.parseDuration_terms hne hs).mpr ⟨hrange, hlt, rfl⟩
    have hpos' : (0 : Int) < ((Go.totalNanos ts % 2 ^ 64 : Nat) : Int) := Int.natCast_pos.mpr hpos
    exact ⟨⟨_, hparse, hpos'⟩, fun uid text last now htext htime =>
      enforcementDue_ne uid now hparse hpos' htext htime⟩

namespace Sample

/-- The condition of a config on the operator's default connection. -/
def ready : Condition :=
  { type := "Ready", status := .true, reason := reasonReady,
    message := "Using the operator's default RaaS connection, TLS verification on" }

/-- The term `24h`. -/
def day : Go.DurationTerm := ⟨['2', '4'], [], .h, by decide, List.all_eq_true.mp rfl, nofun⟩

/-- The term `0s`. -/
def nothing : Go.DurationTerm := ⟨['0'], [], .s, by decide, List.all_eq_true.mp rfl, nofun⟩

end Sample

theorem admitted_usable_daily :
    Accepted Sample.runtime Sample.operatorDefault (Sample.enforced "24h") ∧
    Usable Sample.runtime (Sample.enforced "24h") := by
  have haccepted : Accepted Sample.runtime Sample.operatorDefault (Sample.enforced "24h") :=
    ⟨mem_intervalPattern.mpr ⟨[Sample.day], by decide, by decide⟩,
      fun _ => Sample.answer Sample.defaultData, Sample.ready, by decide +kernel, rfl⟩
  exact ⟨haccepted, (admitted_usable_iff _ _ _ haccepted).mpr
    ⟨[Sample.day], by decide, by decide +kernel, by decide +kernel, by decide +kernel⟩⟩

/-- A config with the interval `0s` is admitted and Ready, and has no enforcement. -/
theorem admitted_disabled :
    Accepted Sample.runtime Sample.operatorDefault (Sample.enforced "0s") ∧
    ¬ Usable Sample.runtime (Sample.enforced "0s") ∧
    enforcementDue Sample.runtime (Sample.enforced "0s") "web" "2026-01-01T00:00:00Z"
      (Sample.time + Go.minute) = (false, 0) := by
  refine ⟨⟨mem_intervalPattern.mpr ⟨[Sample.nothing], by decide, by decide⟩,
    fun _ => Sample.answer Sample.defaultData, Sample.ready, by decide +kernel, rfl⟩,
    fun h => ?_, by decide +kernel⟩
  obtain ⟨interval, hparse, hpos⟩ := h.parsed
  have hzero : Go.parseDuration (Sample.enforced "0s").spec.enforcementInterval = some 0 := by
    decide +kernel
  rw [hzero] at hparse
  cases hparse
  exact absurd hpos (by decide)

end SaltOperator
