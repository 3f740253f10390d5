import SaltOperator.Cluster.Run

/-!
# The enforcement interval: when a run is due

`enforcementDue` adds a jitter to the interval and compares the sum with the time since
the last highstate, all in 64-bit nanoseconds. **It is exact, and the wait it returns
leads to the time the run is due, exactly when the sum fits or has passed anyway**
(`enforcement_exact_iff`). An interval near the largest duration wraps around with its
jitter to a time long past, and every evaluation finds a run due (`enforcement_endless`).
-/

namespace SaltOperator

section schedule

variable {rt : Runtime} {cfg : SaltKeyConfig} {uid text : String} {interval last now : Int}

/-- The jitter lies below a tenth of the interval. -/
theorem enforcementJitter_lt (rt : Runtime) (uid : String) (hpos : 0 < interval) :
    ∃ j : Int, enforcementJitter rt uid interval = j ∧ 0 ≤ j ∧ j < max 1 (interval / 10) := by
  unfold enforcementJitter
  dsimp only
  rw [Int.tdiv_eq_ediv_of_nonneg hpos.le]
  split
  · exact ⟨0, rfl, le_rfl, by omega⟩
  · rename_i hno
    have hlt : bigEndian64 (rt.sha256 uid) % (interval / 10).toNat < (interval / 10).toNat :=
      Nat.mod_lt _ (by omega)
    generalize bigEndian64 (rt.sha256 uid) % (interval / 10).toNat = n at hlt
    exact ⟨n, rfl, by omega, by omega⟩

theorem enforcementJitter_bounds (rt : Runtime) (uid : String) (hpos : 0 < interval) :
    (0 : Int) ≤ enforcementJitter rt uid interval ∧
      (10 : Int) * enforcementJitter rt uid interval ≤ interval := by
  obtain ⟨j, hj, hnonneg, hlt⟩ := enforcementJitter_lt rt uid hpos
  rw [hj]
  omega

/-- A usable interval and a recorded time are compared. -/
theorem enforcementDue_eq (uid : String) (now : Time)
    (hparse : Go.parseDuration cfg.spec.enforcementInterval = some interval)
    (hpos : 0 < interval) (htext : text ≠ "") (htime : rt.parseRFC3339 text = some last) :
    enforcementDue rt cfg uid text now =
      if Go.since now last ≥ Go.wrap64 (interval + enforcementJitter rt uid interval) then (true, 0)
      else (false, Go.wrap64 (Go.wrap64 (interval + enforcementJitter rt uid interval) -
        Go.since now last)) := by
  have hnone : Go.parseDuration "" = none := by decide
  have hset : cfg.spec.enforcementInterval ≠ "" := by
    intro hempty
    rw [hempty, hnone] at hparse
    cases hparse
  have husable : ¬ (interval ≤ 0 ∨ text = "") := by
    rintro (hle | hempty)
    · exact absurd hpos (not_lt.mpr hle)
    · exact htext hempty
  unfold enforcementDue
  rw [if_neg hset, hparse]
  dsimp only
  rw [if_neg husable, htime]

theorem Go.wrap64_bounds (n : Int) : -2 ^ 63 ≤ Go.wrap64 n ∧ Go.wrap64 n < 2 ^ 63 :=
  ⟨Int.le_bmod (by decide), Int.bmod_lt (by decide)⟩

/-- A usable interval is never taken for an absent one: a run is due, or there is a time to
wait. -/
theorem enforcementDue_ne (uid : String) (now : Time)
    (hparse : Go.parseDuration cfg.spec.enforcementInterval = some interval)
    (hpos : 0 < interval) (htext : text ≠ "") (htime : rt.parseRFC3339 text = some last) :
    enforcementDue rt cfg uid text now ≠ (false, 0) := by
  rw [enforcementDue_eq uid now hparse hpos htext htime]
  generalize interval + enforcementJitter rt uid interval = p
  have hp := Go.wrap64_bounds p
  have hsince := Go.clamp64_cases (now - last)
  unfold Go.since
  generalize Go.wrap64 p = e, Go.clamp64 (now - last) = elapsed at hp hsince ⊢
  split
  · nofun
  · rename_i hnot
    have hleft : elapsed < e := not_le.mp hnot
    intro h
    have hzero : Go.wrap64 (e - elapsed) = 0 := congrArg Prod.snd h
    -- the difference of two `int64`s is no multiple of `2^64`
    by_cases hfit : e - elapsed < 2 ^ 63
    · rw [Go.wrap64_of_lt (by omega) hfit] at hzero
      omega
    · rw [Go.wrap64_of_ge (by omega) (by omega)] at hzero
      omega

end schedule

/-- The schedule of a VM is exact at `now`: the jitter is in its bounds, a run is due when
the interval and the jitter have passed since the last one, and a VM that waits as told is
due afterwards. -/
structure ExactTiming (rt : Runtime) (cfg : SaltKeyConfig) (uid text : String)
    (interval : Duration) (last now : Time) : Prop where
  jitter : 0 ≤ enforcementJitter rt uid interval ∧
    enforcementJitter rt uid interval < max 1 (interval / 10)
  due_iff : (enforcementDue rt cfg uid text now).1 = true ↔
    interval + enforcementJitter rt uid interval ≤ now - last
  wait : (enforcementDue rt cfg uid text now).1 = false →
    0 < (enforcementDue rt cfg uid text now).2 ∧
    (enforcementDue rt cfg uid text now).2 ≤ interval + enforcementJitter rt uid interval ∧
    (enforcementDue rt cfg uid text (now + (enforcementDue rt cfg uid text now).2)).1 = true

/-- The interval and the UID's share of a tenth of it are an `int64` together, or have
passed in `elapsed`. -/
def PeriodFits (rt : Runtime) (uid : String) (interval elapsed : Duration) : Prop :=
  uid = "" ∨ interval < 10 ∨
    interval + (bigEndian64 (rt.sha256 uid) : Int) % (interval / 10) < 2 ^ 63 ∨
    interval + (bigEndian64 (rt.sha256 uid) : Int) % (interval / 10) ≤ elapsed

section timing

variable {rt : Runtime} {cfg : SaltKeyConfig} {uid text : String} {interval last now p : Int}

/-- The period is the interval with the UID's share, if the interval has a tenth. -/
theorem periodFits_iff (hpos : 0 < interval) (hlt : interval < 2 ^ 63) {elapsed : Int} :
    PeriodFits rt uid interval elapsed ↔
      interval + enforcementJitter rt uid interval < 2 ^ 63 ∨
      interval + enforcementJitter rt uid interval ≤ elapsed := by
  unfold PeriodFits enforcementJitter
  dsimp only
  rw [Int.tdiv_eq_ediv_of_nonneg hpos.le]
  by_cases hspread : interval / 10 ≤ 0 ∨ uid = ""
  · rw [if_pos hspread]
    have hten : uid = "" ∨ interval < 10 := by
      rcases hspread with hle | huid
      · exact .inr (by omega)
      · exact .inl huid
    refine ⟨fun _ => .inl ?_, fun _ => hten.imp_right .inl⟩
    show interval + 0 < 2 ^ 63
    omega
  · rw [if_neg hspread]
    have huid : uid ≠ "" := fun h => hspread (.inr h)
    have hten : ¬ interval < 10 := fun h => hspread (.inl (by omega))
    have hshare : ((bigEndian64 (rt.sha256 uid) % (interval / 10).toNat : Nat) : Int) =
        (bigEndian64 (rt.sha256 uid) : Int) % (interval / 10) := by
      rw [Int.natCast_emod, Int.toNat_of_nonneg (by omega)]
    rw [hshare]
    simp only [huid, hten, false_or]

/-- A period that fits is compared as it is. -/
theorem exactTiming_of_fits (hdue : ∀ now, enforcementDue rt cfg uid text now =
      if Go.since now last ≥ Go.wrap64 p then (true, 0)
      else (false, Go.wrap64 (Go.wrap64 p - Go.since now last)))
    (hp : interval + enforcementJitter rt uid interval = p) (hp₀ : 0 < p) (hfit : p < 2 ^ 63)
    (hlast : last ≤ now) (hj : 0 ≤ enforcementJitter rt uid interval ∧
      enforcementJitter rt uid interval < max 1 (interval / 10)) :
    ExactTiming rt cfg uid text interval last now := by
  have hwrap : Go.wrap64 p = p := Go.wrap64_of_lt (by omega) hfit
  have hcases : ∀ now, last ≤ now → (Go.since now last ≥ p ↔ p ≤ now - last) := by
    intro now hle
    have hsince := Go.clamp64_cases (now - last)
    unfold Go.since
    generalize Go.clamp64 (now - last) = e at hsince ⊢
    change p ≤ e ↔ p ≤ now - last
    omega
  have hiff : ∀ now, last ≤ now →
      ((enforcementDue rt cfg uid text now).1 = true ↔ p ≤ now - last) := by
    intro now hle
    rw [hdue, hwrap, ← hcases now hle]
    split <;> simp_all
  refine ⟨hj, hp ▸ hiff now hlast, fun hnot => ?_⟩
  have hleft : ¬ p ≤ now - last := by
    rw [← hiff now hlast, hnot]
    simp
  have hsince : Go.since now last = now - last := by
    have hc := Go.clamp64_cases (now - last)
    unfold Go.since
    generalize Go.clamp64 (now - last) = e at hc ⊢
    change e = now - last
    omega
  have hwait : (enforcementDue rt cfg uid text now).2 = p - (now - last) := by
    rw [hdue, hwrap, hsince, if_neg hleft]
    exact Go.wrap64_of_lt (by omega) (by omega)
  rw [hwait, hp]
  have hleft' : now - last < p := not_le.mp hleft
  refine ⟨?_, ?_, (hiff _ ?_).mpr ?_⟩
  · show (0 : Int) < p - (now - last)
    omega
  · show p - (now - last) ≤ p
    omega
  · show last ≤ now + (p - (now - last))
    omega
  · show p ≤ now + (p - (now - last)) - last
    omega

/-- A period that does not fit has always passed. -/
theorem due_of_wrapped (hdue : ∀ now, enforcementDue rt cfg uid text now =
      if Go.since now last ≥ Go.wrap64 p then (true, 0)
      else (false, Go.wrap64 (Go.wrap64 p - Go.since now last)))
    (hp : 2 ^ 63 ≤ p) (hp' : p < 2 ^ 64) (hlast : last ≤ now) :
    (enforcementDue rt cfg uid text now).1 = true := by
  have hwrap : Go.wrap64 p = p - 2 ^ 64 := Go.wrap64_of_ge hp hp'
  have hpassed : Go.since now last ≥ Go.wrap64 p := by
    have hsince := Go.clamp64_cases (now - last)
    rw [hwrap]
    unfold Go.since
    generalize Go.clamp64 (now - last) = e at hsince ⊢
    show p - 2 ^ 64 ≤ e
    omega
  rw [hdue, if_pos hpassed]

end timing

/-- **Enforcement is timed exactly** when the period fits an `int64` or has passed. -/
theorem enforcement_exact_iff (rt : Runtime) (cfg : SaltKeyConfig) (uid text : String)
    (interval last now : Int)
    (hparse : Go.parseDuration cfg.spec.enforcementInterval = some interval)
    (hpos : 0 < interval) (htext : text ≠ "") (htime : rt.parseRFC3339 text = some last)
    (hlast : last ≤ now) :
    ExactTiming rt cfg uid text interval last now ↔ PeriodFits rt uid interval (now - last) := by
  have hlt := Go.parseDuration_lt hparse
  obtain ⟨j, hj, hj₀, hj₁⟩ := enforcementJitter_lt rt uid hpos
  have hdue (now : Time) := enforcementDue_eq uid now hparse hpos htext htime
  rw [periodFits_iff hpos hlt]
  have hjitter : 0 ≤ enforcementJitter rt uid interval ∧
      enforcementJitter rt uid interval < max 1 (interval / 10) := by
    rw [hj]
    exact ⟨hj₀, hj₁⟩
  obtain ⟨p, hp⟩ : ∃ p : Int, interval + enforcementJitter rt uid interval = p := ⟨_, rfl⟩
  obtain ⟨hp₀, hp₁⟩ : 0 < p ∧ p < 2 ^ 64 := by
    rw [hj] at hp
    omega
  rw [hp] at hdue ⊢
  by_cases hfit : p < 2 ^ 63
  · exact ⟨fun _ => .inl hfit, fun _ => exactTiming_of_fits hdue hp hp₀ hfit hlast hjitter⟩
  · have hall := due_of_wrapped hdue (not_lt.mp hfit) hp₁ hlast
    constructor
    · intro h
      exact .inr (hp ▸ h.due_iff.mp hall)
    · intro h
      have hpassed := h.resolve_left hfit
      refine ⟨hjitter, ⟨fun _ => hp ▸ hpassed, fun _ => hall⟩, fun hnot => ?_⟩
      rw [hall] at hnot
      cases hnot

namespace Sample

/-- A config with this enforcement interval. -/
def enforced (interval : String) : SaltKeyConfig :=
  { name := "salt", nspace := "team", spec := { enforcementInterval := interval } }

end Sample

theorem enforcement_exact_daily :
    Go.parseDuration (Sample.enforced "24h").spec.enforcementInterval = some 86400000000000 ∧
    ExactTiming Sample.runtime (Sample.enforced "24h") "web" "2026-01-01T00:00:00Z" 86400000000000
      Sample.time (Sample.time + Go.minute) :=
  ⟨by decide +kernel, (enforcement_exact_iff _ _ _ _ _ _ _ (by decide +kernel) (by decide)
    (by decide) (by decide +kernel) (by decide)).mpr (.inr (.inr (.inl (by decide +kernel))))⟩

/-- With an interval of 292 years a run is due at the very time of the last one. -/
theorem enforcement_endless :
    Go.parseDuration (Sample.enforced "2562047h").spec.enforcementInterval =
      some 9223369200000000000 ∧
    enforcementDue Sample.runtime (Sample.enforced "2562047h") "web" "2026-01-01T00:00:00Z"
      Sample.time = (true, 0) ∧
    ¬ ExactTiming Sample.runtime (Sample.enforced "2562047h") "web" "2026-01-01T00:00:00Z"
      9223369200000000000 Sample.time Sample.time :=
  ⟨by decide +kernel, by decide +kernel, fun h =>
    absurd (h.due_iff.mp (by decide +kernel)) (by decide +kernel)⟩

end SaltOperator
