import Mathlib.Data.List.Infix

/-!
# How often a value has changed

The history of a value is a list, newest first. `changes` counts how often the
value changed, and `Noted l a n` says that an observer has last taken note of `a`,
at a point of the history `l` where the value had changed `n` times.

- `Noted.mono`: what is noted stays noted while the history goes on.
- `Noted.refresh`: **who notes the current value never falls back, and moves on if
  the value is another one than the one noted before**.

An observer who acts only on a value it has not noted, and notes it, therefore acts
at most as often as the value changes.
-/

namespace SaltOperator

variable {α β : Type} [DecidableEq α] [DecidableEq β]

/-- The number of neighbours that differ. -/
def changes : List α → Nat
  | a :: b :: l => (if a = b then 0 else 1) + changes (b :: l)
  | _ => 0

theorem changes_le_cons (a : α) (l : List α) : changes l ≤ changes (a :: l) := by
  cases l with
  | nil => exact Nat.zero_le _
  | cons b l => exact Nat.le_add_left _ _

theorem changes_le_of_suffix {l l' : List α} (h : l <:+ l') : changes l ≤ changes l' := by
  induction l' with
  | nil =>
    rw [List.suffix_nil.mp h]
  | cons a l' ih =>
    rcases List.suffix_cons_iff.mp h with rfl | h
    · exact le_rfl
    · exact (ih h).trans (changes_le_cons a l')

/-- Between two points of the history with different values there is a change. -/
theorem changes_lt_of_suffix {a b : α} {l l' : List α} (h : (b :: l) <:+ (a :: l'))
    (hne : a ≠ b) : changes (b :: l) < changes (a :: l') := by
  induction l' generalizing a with
  | nil =>
    rcases List.suffix_cons_iff.mp h with heq | h
    · exact absurd (List.cons.inj heq).1.symm hne
    · cases List.suffix_nil.mp h
  | cons c l' ih =>
    rcases List.suffix_cons_iff.mp h with heq | h
    · exact absurd (List.cons.inj heq).1.symm hne
    · show changes (b :: l) < (if a = c then 0 else 1) + changes (c :: l')
      by_cases hac : a = c
      · -- the last step was no change, so that there was one before it
        rw [if_pos hac, Nat.zero_add]
        exact ih h (hac ▸ hne)
      · rw [if_neg hac]
        have hle := changes_le_of_suffix h
        omega

theorem changes_map_le (f : α → β) : ∀ l : List α, changes (l.map f) ≤ changes l
  | [] => le_rfl
  | [a] => le_rfl
  | a :: b :: l => by
    have ih := changes_map_le f (b :: l)
    simp only [List.map_cons, changes] at ih ⊢
    by_cases hab : a = b
    · rw [if_pos hab, if_pos (congrArg f hab)]
      omega
    · rw [if_neg hab]
      split <;> omega

/-- A value before the first one counts as one change at most. -/
theorem changes_append_singleton_le (b : α) : ∀ l : List α, changes (l ++ [b]) ≤ changes l + 1
  | [] => Nat.zero_le _
  | [a] => by
    simp only [List.cons_append, List.nil_append, changes]
    split <;> omega
  | a :: c :: l => by
    have ih := changes_append_singleton_le b (c :: l)
    simp only [List.cons_append, changes] at ih ⊢
    omega

/-- `a` was noted when the history had come to a point within `l`, with `n`
changes until then. -/
def Noted (l : List α) (a : α) (n : Nat) : Prop :=
  ∃ rest, (a :: rest) <:+ l ∧ changes (a :: rest) = n

namespace Noted

variable {a b : α} {l l' : List α} {n : Nat}

/-- At the beginning. -/
theorem first (a : α) : Noted [a] a 0 := ⟨[], List.suffix_refl _, rfl⟩

theorem mono (h : Noted l a n) (hl : l <:+ l') : Noted l' a n := by
  obtain ⟨rest, hs, hn⟩ := h
  exact ⟨rest, hs.trans hl, hn⟩

theorem le_changes (h : Noted l a n) : n ≤ changes l := by
  obtain ⟨rest, hs, rfl⟩ := h
  exact changes_le_of_suffix hs

theorem lt_changes (h : Noted (b :: l) a n) (hne : b ≠ a) : n < changes (b :: l) := by
  obtain ⟨rest, hs, rfl⟩ := h
  exact changes_lt_of_suffix hs hne

/-- Noting the current value, or leaving the note as it is. -/
theorem refresh (h : Noted (b :: l) a n) {x : α} (hx : x = a ∨ x = b) :
    ∃ n', Noted (b :: l) x n' ∧ n ≤ n' ∧ (x ≠ a → n < n') := by
  rcases hx with rfl | rfl
  · exact ⟨n, h, le_rfl, fun hne => absurd rfl hne⟩
  · exact ⟨changes (x :: l), ⟨l, List.suffix_refl _, rfl⟩, h.le_changes, h.lt_changes⟩

end Noted

end SaltOperator
