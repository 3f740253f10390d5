import SaltOperator.Go.Duration

/-!
# Texts of durations

The texts of unsigned durations as a grammar: one or more terms, each a number with an
optional fraction and a unit (`DurationTerm`). Of a fraction the parser reads the first
digits, as many as have a value of at most `2^63`, and computes their nanoseconds in
`float64`; everything else is `uint64`.

**`parseDuration` returns the sum of the terms if neither a term nor a sum on the way is
past `2^63` and the sum is an `int64`, and an error otherwise** (`parseDuration_terms`).
-/

namespace SaltOperator

namespace Go

inductive TimeUnit where
  | ns
  | us
  | ms
  | s
  | m
  | h
  deriving DecidableEq, Repr

namespace TimeUnit

def text : TimeUnit → String
  | ns => "ns"
  | us => "us"
  | ms => "ms"
  | s => "s"
  | m => "m"
  | h => "h"

def nanos : TimeUnit → Nat
  | ns => 1
  | us => 1000
  | ms => 1000000
  | s => 1000000000
  | m => 60000000000
  | h => 3600000000000

theorem nanos_pos (u : TimeUnit) : 0 < u.nanos := by
  cases u <;> decide

theorem unitNanos_text (u : TimeUnit) : unitNanos u.text = some u.nanos := by
  cases u <;> rfl

/-- No character of a unit ends it. -/
theorem endsUnit_text (u : TimeUnit) : (u.text.toList.all fun c => !endsUnit c) = true := by
  cases u <;> decide

theorem text_ne_nil (u : TimeUnit) : u.text.toList ≠ [] := by
  cases u <;> decide

end TimeUnit

/-- The value of digits that follow a number `x`. -/
def digitsFrom (x : Nat) (ds : List Char) : Nat :=
  ds.foldl (fun x c => x * 10 + (c.toNat - '0'.toNat)) x

/-- The number of digits of a fraction that are read: as many as have a value of at most
`2^63`. -/
def digitsRead (ds : List Char) : Nat :=
  Nat.findGreatest (fun n => digitsFrom 0 (ds.take n) ≤ 2 ^ 63) ds.length

/-- `10^k` as the parser computes it, digit by digit. -/
def tenPow (k : Nat) : Float := (fun x => x * 10)^[k] 1

/-- A number with its unit; `fraction` has the digits after the point, none if there is
no point. -/
structure DurationTerm where
  whole : List Char
  fraction : List Char
  unit : TimeUnit
  whole_ne : whole ≠ []
  whole_digits : ∀ c ∈ whole, c.isDigit = true
  fraction_digits : ∀ c ∈ fraction, c.isDigit = true

namespace DurationTerm

variable (t : DurationTerm)

/-- The point and the digits after it. -/
def fractionText : List Char := if t.fraction = [] then [] else '.' :: t.fraction

def text : List Char := t.whole ++ (t.fractionText ++ t.unit.text.toList)

/-- The nanoseconds of the number before the point. -/
def wholeNanos : Nat := digitsFrom 0 t.whole * t.unit.nanos

/-- The number that the digits of the fraction make. -/
def fractionRead : Nat := digitsFrom 0 (t.fraction.take (digitsRead t.fraction))

/-- What the term denotes, a `uint64`. -/
def nanos : Nat :=
  if 0 < t.fractionRead then
    (t.wholeNanos + fractionNanos t.fractionRead t.unit.nanos (tenPow (digitsRead t.fraction))) %
      2 ^ 64
  else t.wholeNanos

/-- Neither the whole units nor the term is past `2^63`. -/
def Fits : Prop := t.wholeNanos ≤ 2 ^ 63 ∧ t.nanos ≤ 2 ^ 63

instance : Decidable t.Fits := inferInstanceAs (Decidable (_ ∧ _))

end DurationTerm

/-- The nanoseconds of all terms. -/
def totalNanos (ts : List DurationTerm) : Nat := (ts.map DurationTerm.nanos).sum

/-- Added to `d` one after the other, the terms and the sums on the way are at most `2^63`. -/
def InRangeFrom (d : Nat) (ts : List DurationTerm) : Prop :=
  (∀ t ∈ ts, t.Fits) ∧ ∀ us ∈ ts.inits, (d + totalNanos us) % 2 ^ 64 ≤ 2 ^ 63

instance (d : Nat) (ts : List DurationTerm) : Decidable (InRangeFrom d ts) :=
  inferInstanceAs (Decidable (_ ∧ _))

/-! ## Digits -/

section digits

variable {ds rest : List Char} {x : Nat}

@[simp] theorem digitsFrom_nil (x : Nat) : digitsFrom x [] = x := rfl

@[simp] theorem digitsFrom_cons (x : Nat) (c : Char) (ds : List Char) :
    digitsFrom x (c :: ds) = digitsFrom (x * 10 + (c.toNat - '0'.toNat)) ds := by
  unfold digitsFrom
  rw [List.foldl_cons]

theorem le_digitsFrom (x : Nat) (ds : List Char) : x ≤ digitsFrom x ds := by
  induction ds generalizing x with
  | nil => rw [digitsFrom_nil]
  | cons c ds ih =>
    rw [digitsFrom_cons]
    exact le_trans (by omega) (ih _)

/-- What follows does not go on with the digits. -/
def NoDigit (rest : List Char) : Prop := ∀ c ∈ rest.head?, c.isDigit = false

/-- `leadingInt` reads the digits at the front, if their value is at most `2^63`. -/
theorem leadingInt_append (hds : ∀ c ∈ ds, c.isDigit = true) (hrest : NoDigit rest)
    (hx : x ≤ 2 ^ 63) : leadingInt (ds ++ rest) x =
      if digitsFrom x ds ≤ 2 ^ 63 then some (digitsFrom x ds, rest) else none := by
  induction ds generalizing x with
  | nil =>
    rw [List.nil_append, digitsFrom_nil, if_pos hx]
    cases rest with
    | nil => rfl
    | cons c rest =>
      unfold leadingInt
      rw [hrest c rfl]
      rfl
  | cons c ds ih =>
    rw [List.cons_append, digitsFrom_cons]
    unfold leadingInt
    rw [if_pos (hds c List.mem_cons_self)]
    dsimp only
    have hge := le_digitsFrom (x * 10 + (c.toNat - '0'.toNat)) ds
    by_cases hy : x * 10 + (c.toNat - '0'.toNat) ≤ 2 ^ 63
    · rw [if_neg (by omega)]
      exact ih (fun c hc => hds c (List.mem_cons_of_mem _ hc)) hy
    · rw [if_pos (by omega), if_neg (by omega)]

/-- Once a digit does not fit, none is read any more. -/
theorem leadingFraction_full (hds : ∀ c ∈ ds, c.isDigit = true) (hrest : NoDigit rest)
    (scale : Float) : leadingFraction (ds ++ rest) x scale true = (x, scale, rest) := by
  induction ds with
  | nil =>
    cases rest with
    | nil => rfl
    | cons c rest =>
      rw [List.nil_append]
      unfold leadingFraction
      rw [hrest c rfl]
      rfl
  | cons c ds ih =>
    rw [List.cons_append]
    unfold leadingFraction
    rw [if_pos (hds c List.mem_cons_self), if_pos (.inl rfl)]
    exact ih fun c hc => hds c (List.mem_cons_of_mem _ hc)

/-- `leadingFraction` reads the most digits with a value of at most `2^63`. -/
theorem leadingFraction_append (hds : ∀ c ∈ ds, c.isDigit = true) (hrest : NoDigit rest)
    (hx : x ≤ 2 ^ 63) (scale : Float) : ∃ k ≤ ds.length,
      leadingFraction (ds ++ rest) x scale false =
        (digitsFrom x (ds.take k), (fun x => x * 10)^[k] scale, rest) ∧
      digitsFrom x (ds.take k) ≤ 2 ^ 63 ∧
      ∀ j, k < j → j ≤ ds.length → 2 ^ 63 < digitsFrom x (ds.take j) := by
  induction ds generalizing x scale with
  | nil =>
    refine ⟨0, le_rfl, ?_, hx, fun j hj hle => absurd hj (by simpa using hle)⟩
    cases rest with
    | nil => simp [leadingFraction]
    | cons c rest =>
      rw [List.nil_append]
      unfold leadingFraction
      rw [hrest c rfl]
      simp
  | cons c ds ih =>
    have htail : ∀ c ∈ ds, c.isDigit = true := fun c hc => hds c (List.mem_cons_of_mem _ hc)
    rw [List.cons_append]
    unfold leadingFraction
    rw [if_pos (hds c List.mem_cons_self)]
    dsimp only
    by_cases hy : x * 10 + (c.toNat - '0'.toNat) ≤ 2 ^ 63
    · -- the digit is read
      obtain ⟨k, hk, heq, hle, hmax⟩ := ih htail hy (scale * 10)
      rw [if_neg (by rintro (h | h | h) <;> [cases h; omega; omega])]
      refine ⟨k + 1, by simpa using hk, ?_, hle, fun j hj hj' => ?_⟩
      · rw [heq, List.take_succ_cons, digitsFrom_cons, Function.iterate_succ_apply]
      · obtain ⟨j, rfl⟩ : ∃ i, j = i + 1 := ⟨j - 1, by omega⟩
        exact hmax j (by omega) (by simpa using hj')
    · -- it is skipped, and so are all after it
      rw [if_pos (.inr (.inr (by omega))), leadingFraction_full htail hrest]
      refine ⟨0, Nat.zero_le _, by simp, hx, fun j hj hj' => ?_⟩
      obtain ⟨j, rfl⟩ : ∃ i, j = i + 1 := ⟨j - 1, by omega⟩
      rw [List.take_succ_cons, digitsFrom_cons]
      exact lt_of_lt_of_le (not_le.mp hy) (le_digitsFrom _ _)

/-- The digits `leadingFraction` reads from the beginning. -/
theorem leadingFraction_digitsRead (hds : ∀ c ∈ ds, c.isDigit = true) (hrest : NoDigit rest) :
    leadingFraction (ds ++ rest) 0 1 false =
      (digitsFrom 0 (ds.take (digitsRead ds)), tenPow (digitsRead ds), rest) := by
  obtain ⟨k, hk, heq, hle, hmax⟩ := leadingFraction_append hds hrest (x := 0) (by simp) 1
  have hread : digitsRead ds = k :=
    Nat.findGreatest_eq_iff.mpr ⟨hk, fun _ => hle, fun j hj hj' => not_le.mpr (hmax j hj hj')⟩
  rw [heq, hread]
  rfl

end digits

/-! ## Terms -/

section terms

variable {t : DurationTerm} {u : TimeUnit} {rest : List Char}

/-- What follows is the end, or begins another term. -/
def AtTerm (rest : List Char) : Prop := ∀ c ∈ rest.head?, endsUnit c = true

theorem noDigit_unit (u : TimeUnit) (rest : List Char) : NoDigit (u.text.toList ++ rest) := by
  cases u <;> (intro c hc; cases hc; decide)

theorem noDigit_fractionText (t : DurationTerm) (rest : List Char) :
    NoDigit (t.fractionText ++ (t.unit.text.toList ++ rest)) := by
  unfold DurationTerm.fractionText
  split
  · exact noDigit_unit t.unit rest
  · intro c hc
    cases hc
    decide

theorem fractionPart_point (s : List Char) : fractionPart ('.' :: s) =
    ((leadingFraction s 0 1 false).1, (leadingFraction s 0 1 false).2.1,
      (leadingFraction s 0 1 false).2.2,
      (leadingFraction s 0 1 false).2.2.length != s.length) := rfl

theorem fractionPart_text (t : DurationTerm) (rest : List Char) : ∃ post,
    fractionPart (t.fractionText ++ (t.unit.text.toList ++ rest)) =
      (t.fractionRead, tenPow (digitsRead t.fraction), t.unit.text.toList ++ rest, post) := by
  unfold DurationTerm.fractionText DurationTerm.fractionRead
  by_cases hf : t.fraction = []
  · refine ⟨false, ?_⟩
    rw [if_pos hf, hf]
    cases t.unit <;> rfl
  · rw [if_neg hf]
    have hread := leadingFraction_digitsRead t.fraction_digits (noDigit_unit t.unit rest)
    refine ⟨(t.unit.text.toList ++ rest).length !=
      (t.fraction ++ (t.unit.text.toList ++ rest)).length, ?_⟩
    rw [List.cons_append, fractionPart_point, hread]

theorem takeWhile_unit (hrest : AtTerm rest) :
    (u.text.toList ++ rest).takeWhile (fun c => !endsUnit c) = u.text.toList := by
  have hall := List.all_eq_true.mp u.endsUnit_text
  rw [List.takeWhile_append_of_pos hall]
  cases rest with
  | nil => simp
  | cons c rest => rw [List.takeWhile_cons_of_neg (by simp [hrest c rfl]), List.append_nil]

theorem dropWhile_unit (hrest : AtTerm rest) :
    (u.text.toList ++ rest).dropWhile (fun c => !endsUnit c) = rest := by
  have hall := List.all_eq_true.mp u.endsUnit_text
  rw [List.dropWhile_append_of_pos hall]
  cases rest with
  | nil => rfl
  | cons c rest => rw [List.dropWhile_cons_of_neg (by simp [hrest c rfl])]

/-- A term begins with a digit. -/
theorem DurationTerm.exists_text (t : DurationTerm) (rest : List Char) :
    ∃ c cs, t.text ++ rest = c :: cs ∧ c.isDigit = true := by
  obtain ⟨c, ds, hw⟩ := List.exists_cons_of_ne_nil t.whole_ne
  refine ⟨c, ds ++ (t.fractionText ++ t.unit.text.toList) ++ rest, ?_, t.whole_digits c ?_⟩
  · unfold DurationTerm.text
    rw [hw]
    simp
  · rw [hw]
    exact List.mem_cons_self

/-- A term has nanoseconds exactly if it fits. -/
theorem termNanos_eq (t : DurationTerm) :
    termNanos (digitsFrom 0 t.whole) t.fractionRead (tenPow (digitsRead t.fraction)) t.unit.nanos =
      if t.Fits then some t.nanos else none := by
  have hwhole : digitsFrom 0 t.whole > 2 ^ 63 / t.unit.nanos ↔ ¬ t.wholeNanos ≤ 2 ^ 63 := by
    rw [gt_iff_lt, Nat.div_lt_iff_lt_mul t.unit.nanos_pos, not_le]
    rfl
  unfold termNanos
  by_cases hle : t.wholeNanos ≤ 2 ^ 63
  · rw [if_neg (fun h => hwhole.mp h hle)]
    by_cases hf : 0 < t.fractionRead
    · have hnanos : t.nanos = (digitsFrom 0 t.whole * t.unit.nanos + fractionNanos t.fractionRead
          t.unit.nanos (tenPow (digitsRead t.fraction))) % 2 ^ 64 := if_pos hf
      rw [if_pos hf, ← hnanos]
      by_cases hn : t.nanos ≤ 2 ^ 63
      · rw [if_neg (not_lt.mpr hn), if_pos (show t.Fits from ⟨hle, hn⟩)]
      · rw [if_pos (not_le.mp hn), if_neg fun h : t.Fits => hn h.2]
    · have hnanos : t.nanos = t.wholeNanos := if_neg hf
      rw [if_neg hf, if_pos (show t.Fits from ⟨hle, hnanos.trans_le hle⟩), hnanos]
      rfl
  · rw [if_pos (hwhole.mpr hle), if_neg fun h : t.Fits => hle h.1]

/-- `parseTerm` reads one term, if it fits. -/
theorem parseTerm_text (orig : String) (hrest : AtTerm rest) : parseTerm orig (t.text ++ rest) =
    if t.Fits then .ok (t.nanos, rest) else .error (errInvalid orig) := by
  have hhead : (t.text ++ rest).head?.any endsUnit = true := by
    obtain ⟨c, cs, heq, hc⟩ := t.exists_text rest
    rw [heq]
    simp [endsUnit, hc]
  have hint := leadingInt_append (x := 0) t.whole_digits (noDigit_fractionText t rest) (by simp)
  obtain ⟨post, hfraction⟩ := fractionPart_text t rest
  have htext : t.text ++ rest = t.whole ++ (t.fractionText ++ (t.unit.text.toList ++ rest)) := by
    simp [DurationTerm.text]
  have hunit : String.ofList t.unit.text.toList = t.unit.text := String.ofList_toList
  have hne : t.unit.text ≠ "" := fun h => t.unit.text_ne_nil (by rw [h]; rfl)
  have hlen : (t.fractionText ++ (t.unit.text.toList ++ rest)).length ≠
      (t.text ++ rest).length := by
    have hpos := List.length_pos_of_ne_nil t.whole_ne
    rw [htext]
    simp only [List.length_append]
    omega
  rw [← htext] at hint
  unfold parseTerm
  rw [if_neg (by rw [hhead]; exact Bool.noConfusion), hint]
  by_cases hwhole : digitsFrom 0 t.whole ≤ 2 ^ 63
  · rw [if_pos hwhole]
    dsimp only
    rw [hfraction]
    dsimp only
    rw [takeWhile_unit hrest, dropWhile_unit hrest, hunit, if_neg fun h => hlen h.1, if_neg hne,
      t.unit.unitNanos_text]
    dsimp only
    rw [termNanos_eq]
    by_cases hfits : t.Fits
    · rw [if_pos hfits, if_pos hfits]
    · rw [if_neg hfits, if_neg hfits]
  · -- the number alone does not fit
    have hge := Nat.le_mul_of_pos_right (digitsFrom 0 t.whole) t.unit.nanos_pos
    rw [if_neg hwhole, if_neg fun h : t.Fits => hwhole (hge.trans h.1)]

/-- The texts of terms, one after the other. -/
def termsText (ts : List DurationTerm) : List Char := ts.flatMap DurationTerm.text

theorem atTerm_termsText : ∀ ts : List DurationTerm, AtTerm (termsText ts)
  | [] => nofun
  | t :: ts => by
    obtain ⟨c, cs, heq, hc⟩ := t.exists_text (termsText ts)
    intro c' hc'
    unfold termsText at hc' heq
    rw [List.flatMap_cons, heq] at hc'
    cases hc'
    simp [endsUnit, hc]

theorem length_le_termsText (ts : List DurationTerm) : ts.length ≤ (termsText ts).length := by
  induction ts with
  | nil => exact le_rfl
  | cons t ts ih =>
    have hwhole := List.length_pos_of_ne_nil t.whole_ne
    unfold termsText at ih ⊢
    simp only [List.flatMap_cons, DurationTerm.text, List.length_append, List.length_cons]
    omega

theorem inRangeFrom_cons {d : Nat} {ts : List DurationTerm} (hd : d ≤ 2 ^ 63) :
    InRangeFrom d (t :: ts) ↔ t.Fits ∧ (d + t.nanos) % 2 ^ 64 ≤ 2 ^ 63 ∧
      InRangeFrom ((d + t.nanos) % 2 ^ 64) ts := by
  have hsum : ∀ us, (d + totalNanos (t :: us)) % 2 ^ 64 =
      ((d + t.nanos) % 2 ^ 64 + totalNanos us) % 2 ^ 64 := by
    intro us
    rw [Nat.mod_add_mod, Nat.add_assoc]
    rfl
  have hmod : d % 2 ^ 64 ≤ 2 ^ 63 := (Nat.mod_le _ _).trans hd
  unfold InRangeFrom
  rw [List.forall_mem_cons, List.inits_cons, List.forall_mem_cons, List.forall_mem_map]
  simp only [hsum]
  constructor
  · rintro ⟨⟨ht, hts⟩, -, hus⟩
    have hnil := hus [] (List.mem_inits _ _ |>.mpr List.nil_prefix)
    rw [show totalNanos [] = 0 from rfl, Nat.add_zero, Nat.mod_mod] at hnil
    exact ⟨ht, hnil, hts, hus⟩
  · rintro ⟨ht, -, hts, hus⟩
    exact ⟨⟨ht, hts⟩, hmod, hus⟩

/-- `parseTerms` adds the terms up, as long as they are in range. -/
theorem parseTerms_termsText (orig : String) (ts : List DurationTerm) (fuel d n : Nat)
    (hfuel : ts.length ≤ fuel) (hd : d ≤ 2 ^ 63) :
    parseTerms orig fuel (termsText ts) d = .ok n ↔
      InRangeFrom d ts ∧ (d + totalNanos ts) % 2 ^ 64 = n := by
  induction ts generalizing fuel d with
  | nil =>
    have hmod : d % 2 ^ 64 = d := Nat.mod_eq_of_lt (by omega)
    have hrange : InRangeFrom d [] := by
      refine ⟨nofun, fun us hus => ?_⟩
      obtain rfl : us = [] := List.mem_singleton.mp hus
      exact (Nat.mod_le _ _).trans hd
    have hok : parseTerms orig fuel (termsText []) d = .ok d := by cases fuel <;> rfl
    rw [hok, show totalNanos [] = 0 from rfl, Nat.add_zero, hmod]
    exact ⟨fun h => ⟨hrange, Except.ok.inj h⟩, fun h => congrArg _ h.2⟩
  | cons t ts ih =>
    obtain ⟨fuel, rfl⟩ : ∃ n, fuel = n + 1 := ⟨fuel - 1, by simp at hfuel; omega⟩
    have hsum : totalNanos (t :: ts) = t.nanos + totalNanos ts := rfl
    have hterm := parseTerm_text (t := t) orig (atTerm_termsText ts)
    obtain ⟨c, cs, heq, -⟩ := t.exists_text (termsText ts)
    have htext : termsText (t :: ts) = c :: cs := heq
    rw [htext, inRangeFrom_cons hd]
    unfold parseTerms
    rw [← heq, hterm]
    by_cases ht : t.Fits
    · rw [if_pos ht]
      dsimp only
      by_cases hdt : (d + t.nanos) % 2 ^ 64 ≤ 2 ^ 63
      · rw [if_neg (not_lt.mpr hdt), ih fuel _ (by simpa using hfuel) hdt, Nat.mod_add_mod, hsum,
          Nat.add_assoc]
        exact ⟨fun h => ⟨⟨ht, hdt, h.1⟩, h.2⟩, fun h => ⟨h.1.2.2, h.2⟩⟩
      · rw [if_pos (not_le.mp hdt)]
        exact ⟨nofun, fun h => absurd h.1.2.1 hdt⟩
    · rw [if_neg ht]
      exact ⟨nofun, fun h => absurd h.1.1 ht⟩

/-- **A text of terms parses to their sum**, if they are in range and the sum is an `int64`. -/
theorem parseDuration_terms {s : String} {ts : List DurationTerm} {d : Duration} (hts : ts ≠ [])
    (hs : s.toList = termsText ts) : parseDuration s = some d ↔
      InRangeFrom 0 ts ∧ totalNanos ts % 2 ^ 64 < 2 ^ 63 ∧
        ((totalNanos ts % 2 ^ 64 : Nat) : Int) = d := by
  obtain ⟨t, ts', rfl⟩ := List.exists_cons_of_ne_nil hts
  obtain ⟨c, cs, heq, hc⟩ := t.exists_text (termsText ts')
  have htext : termsText (t :: ts') = c :: cs := heq
  have hsign : readDuration s = parseUnsigned s false (c :: cs) := by
    unfold readDuration
    rw [hs, htext]
    split
    · next h =>
      cases h
      cases hc
    · next h =>
      cases h
      cases hc
    · rfl
  have hlong : 1 < (termsText (t :: ts')).length := by
    have hwhole := List.length_pos_of_ne_nil t.whole_ne
    have hunit := List.length_pos_of_ne_nil t.unit.text_ne_nil
    simp only [termsText, List.flatMap_cons, DurationTerm.text, List.length_append]
    omega
  have hzero : c :: cs ≠ ['0'] := by
    intro h
    rw [htext, h] at hlong
    simp at hlong
  have hsum := parseTerms_termsText s (t :: ts') (termsText (t :: ts')).length 0
  unfold parseDuration
  rw [hsign]
  unfold parseUnsigned
  rw [if_neg hzero, if_neg (List.cons_ne_nil _ _), ← htext]
  cases hterms : parseTerms s (termsText (t :: ts')).length (termsText (t :: ts')) 0 with
  | error e =>
    refine ⟨nofun, fun h => ?_⟩
    have hok := (hsum _ (length_le_termsText _) (by simp)).mpr ⟨h.1, rfl⟩
    rw [hterms] at hok
    cases hok
  | ok n =>
    obtain ⟨hrange, hn⟩ := (hsum n (length_le_termsText _) (by simp)).mp hterms
    rw [Nat.zero_add] at hn
    rw [hn]
    dsimp only
    rw [if_neg Bool.false_ne_true]
    by_cases hfit : n > 2 ^ 63 - 1
    · rw [if_pos hfit]
      exact ⟨nofun, fun h => absurd h.2.1 (by omega)⟩
    · rw [if_neg hfit]
      exact ⟨fun h => ⟨hrange, by omega, Option.some.inj h⟩, fun h => congrArg some h.2.2⟩

end terms

end Go

end SaltOperator
