import Mathlib

/-!
# Sequences that come to rest

`settles`: a sequence whose every step loses some of a measure, or finds none left
and stays where it is, is at rest once it has made as many steps as it had to
lose.

`Inevitable step goal n s`: from `s` there is always a next step, and whichever steps
are made, one of the first `n` reaches the goal. `inevitable_of_rank` proves it with a
rank that every step lowers, `not_inevitable` refutes it with states that a step can
stay in.

`changes_le_measure`: where a step either changes nothing or loses some of a measure, there are
no more steps that change something than there is to lose.
-/

namespace SaltOperator

variable {α : Type} {step : α → α → Prop} {measure : α → ℕ} {f : ℕ → α}

/-- What is left after `n` steps. -/
theorem measure_le_sub
    (hstep : ∀ a b, step a b → measure b < measure a ∨ (measure a = 0 ∧ b = a))
    (hf : ∀ n, step (f n) (f (n + 1))) (n : ℕ) : measure (f n) ≤ measure (f 0) - n := by
  induction n with
  | zero => exact le_rfl
  | succ n ih =>
    rcases hstep _ _ (hf n) with hlt | ⟨hzero, heq⟩
    · omega
    · rw [heq, hzero]
      exact Nat.zero_le _

theorem settles (hstep : ∀ a b, step a b → measure b < measure a ∨ (measure a = 0 ∧ b = a))
    (hf : ∀ n, step (f n) (f (n + 1))) {n : ℕ} (hn : measure (f 0) ≤ n) :
    measure (f n) = 0 ∧ f (n + 1) = f n := by
  have hle := measure_le_sub hstep hf n
  rcases hstep _ _ (hf n) with hlt | hrest
  · omega
  · exact hrest

/-- The steps that change something lose some of the measure each. -/
theorem changes_le_measure {same : α → α → Prop} [DecidableRel same]
    (hstep : ∀ a b, step a b → (same a b ∧ measure b = measure a) ∨ measure b < measure a)
    (hf : ∀ n, step (f n) (f (n + 1))) (n : ℕ) :
    ((List.range n).countP fun i => ¬ same (f i) (f (i + 1))) + measure (f n) ≤ measure (f 0) := by
  induction n with
  | zero => simp
  | succ n ih =>
    rw [List.range_succ, List.countP_append, List.countP_singleton]
    rcases hstep _ _ (hf n) with ⟨hsame, heq⟩ | hlt
    · rw [if_neg (by simpa using hsame), heq]
      exact ih
    · split <;> omega

/-! ## Goals that are reached whatever happens -/

section inevitable

variable {goal : α → Prop} {a : α} {n : ℕ}

/-- One of the next `n` steps reaches the goal, whichever they are. -/
def Inevitable (step : α → α → Prop) (goal : α → Prop) : ℕ → α → Prop
  | 0, _ => False
  | n + 1, a => (∃ b, step a b) ∧ ∀ b, step a b → goal b ∨ Inevitable step goal n b

theorem Inevitable.mono {m : ℕ} (h : Inevitable step goal m a) (hmn : m ≤ n) :
    Inevitable step goal n a := by
  induction m generalizing a n with
  | zero => exact h.elim
  | succ m ih =>
    obtain ⟨n, rfl⟩ : ∃ l, n = l + 1 := ⟨n - 1, by omega⟩
    refine ⟨h.1, fun b hb => ?_⟩
    rcases h.2 b hb with hgoal | hrest
    · exact .inl hgoal
    · exact .inr (ih hrest (by omega))

/-- A rank that every step lowers before the goal is reached. -/
theorem inevitable_of_rank {I : α → Prop} (rank : α → ℕ) (hnext : ∀ a, I a → ∃ b, step a b)
    (hstep : ∀ a b, I a → step a b → goal b ∨ (I b ∧ rank b < rank a)) (ha : I a) :
    Inevitable step goal (rank a + 1) a := by
  induction hr : rank a using Nat.strong_induction_on generalizing a with
  | _ r ih =>
    refine ⟨hnext a ha, fun b hb => ?_⟩
    rcases hstep a b ha hb with hgoal | ⟨hI, hlt⟩
    · exact .inl hgoal
    · rw [hr] at hlt
      exact .inr ((ih (rank b) hlt hI rfl).mono hlt)

/-- States one can stay in without reaching the goal. -/
theorem not_inevitable {I : α → Prop} (htrap : ∀ a, I a → ∃ b, step a b ∧ ¬ goal b ∧ I b)
    (ha : I a) (n : ℕ) : ¬ Inevitable step goal n a := by
  induction n generalizing a with
  | zero => exact id
  | succ n ih =>
    intro h
    obtain ⟨b, hb, hno, hI⟩ := htrap a ha
    rcases h.2 b hb with hgoal | hrest
    · exact hno hgoal
    · exact ih hI hrest

end inevitable

end SaltOperator
