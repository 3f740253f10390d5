import SaltOperator.Lib.Simulation
import SaltOperator.Lib.Relational

/-!
# How often

Bounds on the number of calls of a kind that a program makes, whatever it is answered.

- `Prog.AtMost`: at most so many operations, each with a weight.
- `Prog.Spends`: the same of calls, with their answers, the bound depending on how the program
  ends. This is what it takes to count requests that are sent again when they were refused.
- `Prog.AtMost.interp`: **a bound goes down to a lower interface**, where each operation is a
  program that spends no more than its weight.
-/

namespace SaltOperator

namespace Prog

variable {Op Op' : Type} {Ans : Op → Type} {Ans' : Op' → Type} {W ε ε' α β : Type}

/-- The weights of the operations on any path add up to at most this much. -/
def AtMost (weight : Op → Nat) : Nat → Prog Op Ans ε α → Prop
  | _, .ret _ => True
  | _, .fail _ => True
  | n, .call o k => weight o ≤ n ∧ ∀ a, (k a).AtMost weight (n - weight o)

section atMost

variable {weight : Op → Nat} {n m : Nat} {p : Prog Op Ans ε α}

theorem AtMost.mono (hp : p.AtMost weight n) (h : n ≤ m) : p.AtMost weight m := by
  induction p generalizing n m with
  | ret a => exact trivial
  | fail e => exact trivial
  | call o k ih => exact ⟨hp.1.trans h, fun a => ih a (hp.2 a) (Nat.sub_le_sub_right h _)⟩

theorem AtMost.bind {f : α → Prog Op Ans ε β} (hp : p.AtMost weight n)
    (hf : ∀ a, (f a).AtMost weight m) : (p >>= f).AtMost weight (n + m) := by
  induction p generalizing n with
  | ret a => exact (hf a).mono (Nat.le_add_left m n)
  | fail e => exact trivial
  | call o k ih =>
    refine ⟨hp.1.trans (Nat.le_add_right n m), fun a => ?_⟩
    rw [Nat.sub_add_comm hp.1]
    exact ih a (hp.2 a)

theorem AtMost.ite {q : Prog Op Ans ε α} {c : Prop} [Decidable c] (hp : c → p.AtMost weight n)
    (hq : ¬ c → q.AtMost weight n) : (if c then p else q).AtMost weight n := by
  split
  · exact hp ‹c›
  · exact hq ‹¬ c›

theorem AtMost.attempt (hp : p.AtMost weight n) :
    (p.attempt : Prog Op Ans ε' (Except ε α)).AtMost weight n := by
  induction p generalizing n with
  | ret a => exact trivial
  | fail e => exact trivial
  | call o k ih => exact ⟨hp.1, fun a => ih a (hp.2 a)⟩

/-- Operations without weight. -/
theorem Performs.atMost (hp : p.Performs fun o => weight o = 0) : p.AtMost weight n := by
  induction p generalizing n with
  | ret a => exact trivial
  | fail e => exact trivial
  | call o k ih =>
    refine ⟨hp.1.trans_le (Nat.zero_le n), fun a => ih a (hp.2 a)⟩

/-- A program of weightless operations, then another. -/
theorem Performs.bind_atMost {f : α → Prog Op Ans ε β} (hp : p.Performs fun o => weight o = 0)
    (hf : ∀ a, (f a).AtMost weight n) : (p >>= f).AtMost weight n := by
  have hbind := (hp.atMost (n := 0)).bind hf
  rwa [Nat.zero_add] at hbind

end atMost

/-- Of the calls it makes, at most `b r` are of the kind `χ` if it ends with `r`. -/
def Spends (W : Type) (χ : (o : Op) → Ans o → Bool) (b : Except ε α → Nat) (p : Prog Op Ans ε α) :
    Prop :=
  ∀ h : List (Call Op Ans W), p.Obeys (fun _ _ => True) (fun _ _ => True)
    (fun h' r => h'.countP (fun m => χ m.op m.ans) ≤ h.countP (fun m => χ m.op m.ans) + b r) h

section spends

variable {χ : (o : Op) → Ans o → Bool} {b d : Except ε α → Nat} {p : Prog Op Ans ε α}

theorem Spends.mono (hp : p.Spends W χ b) (h : ∀ r, b r ≤ d r) : p.Spends W χ d := fun hist =>
  (hp hist).mono fun _ r hr => hr.trans (Nat.add_le_add_left (h r) _)

theorem spends_call {o : Op} {k : Ans o → Prog Op Ans ε α}
    (hk : ∀ a, (k a).Spends W χ fun r => b r - (χ o a).toNat) (hb : ∀ a r, (χ o a).toNat ≤ b r) :
    (Prog.call o k).Spends W χ b := fun h =>
  ⟨trivial, fun w a _ => (hk a _).mono fun h' r hr => by
    rw [List.countP_cons] at hr
    have hle := hb a r
    cases hχ : χ o a <;> simp only [hχ, Bool.toNat_true, Bool.toNat_false] at hr hle <;>
      simp at hr <;> omega⟩

/-- A call that does not count. -/
theorem spends_free {o : Op} {k : Ans o → Prog Op Ans ε α} (ho : ∀ a, χ o a = false)
    (hk : ∀ a, (k a).Spends W χ b) : (Prog.call o k).Spends W χ b := by
  refine spends_call (fun a => ?_) fun a r => ?_
  · rw [ho a]
    exact hk a
  · rw [ho a]
    exact Nat.zero_le _

theorem Performs.spends (hp : p.Performs fun o => ∀ a, χ o a = false) : p.Spends W χ b := by
  induction p with
  | ret a => exact fun h => Nat.le_add_right _ _
  | fail e => exact fun h => Nat.le_add_right _ _
  | call o k ih => exact spends_free hp.1 fun a => ih a (hp.2 a)

theorem Spends.bind {f : α → Prog Op Ans ε β} {c : α → Except ε β → Nat} {d : Except ε β → Nat}
    (hp : p.Spends W χ b) (hf : ∀ a, (f a).Spends W χ (c a)) (hok : ∀ a r, b (.ok a) + c a r ≤ d r)
    (herr : ∀ e, b (.error e) ≤ d (.error e)) : (p >>= f).Spends W χ d := fun h =>
  Obeys.bind ((hp h).mono fun h' r hr => by
    rcases r with e | a
    · have := herr e
      show _ ≤ _
      omega
    · refine (hf a h').mono fun h'' r' hr' => ?_
      have := hok a r'
      omega)

/-- A program that spends, then one that does not. -/
theorem Spends.bind_free {f : α → Prog Op Ans ε β} {n : Nat} (hp : p.Spends W χ fun _ => n)
    (hf : ∀ a, (f a).Performs fun o => ∀ a, χ o a = false) : (p >>= f).Spends W χ fun _ => n :=
  hp.bind (c := fun _ _ => 0) (fun a => (hf a).spends) (fun _ _ => le_rfl) fun _ => le_rfl

theorem Spends.ite {q : Prog Op Ans ε α} {c : Prop} [Decidable c] (hp : c → p.Spends W χ b)
    (hq : ¬ c → q.Spends W χ b) : (if c then p else q).Spends W χ b := by
  split
  · exact hp ‹c›
  · exact hq ‹¬ c›

theorem Spends.attempt {b : Except ε' (Except ε α) → Nat} (hp : p.Spends W χ fun r => b (.ok r)) :
    (p.attempt : Prog Op Ans ε' (Except ε α)).Spends W χ b := fun h => Obeys.attempt (hp h)

/-- A script of answers gives a run. -/
theorem makes_exec (w : W) (σ : Nat → (o : Op) → Ans o) (n : Nat) (p : Prog Op Ans ε α)
    (h : List (Call Op Ans W)) : ∃ newer, p.Makes h (p.exec σ n).2 (newer ++ h) ∧
      (newer.map Call.op).reverse = (p.exec σ n).1 := by
  induction p generalizing n h with
  | ret a => exact ⟨[], .ret, rfl⟩
  | fail e => exact ⟨[], .fail, rfl⟩
  | call o k ih =>
    obtain ⟨newer, hm, hops⟩ := ih (σ n o) (n + 1) (⟨w, o, σ n o⟩ :: h)
    refine ⟨newer ++ [⟨w, o, σ n o⟩], ?_, ?_⟩
    · rw [List.append_assoc]
      exact .call hm
    · rw [List.map_append, List.reverse_append, hops]
      rfl

/-- A bound on the calls that were made. -/
theorem Makes.countP_le {r : Except ε α} {h h' : List (Call Op Ans W)} (hm : p.Makes h r h')
    (hp : p.Spends W χ b) :
    ∃ newer, h' = newer ++ h ∧ newer.countP (fun m => χ m.op m.ans) ≤ b r := by
  obtain ⟨newer, rfl⟩ := hm.suffix
  refine ⟨newer, rfl, ?_⟩
  have hle := hm.ends (hp h)
  rw [List.countP_append] at hle
  omega

end spends

/-- **A bound goes down to the lower interface.** -/
theorem AtMost.interp {weight : Op → Nat} {χ : (o : Op') → Ans' o → Bool} {n : Nat}
    {p : Prog Op Ans ε α} {H : (o : Op) → Prog Op' Ans' ε (Ans o)} (hp : p.AtMost weight n)
    (hH : ∀ o, (H o).Spends W χ fun _ => weight o) : (p.interp H).Spends W χ fun _ => n := by
  induction p generalizing n with
  | ret a => exact fun h => Nat.le_add_right _ _
  | fail e => exact fun h => Nat.le_add_right _ _
  | call o k ih =>
    refine (hH o).bind (c := fun _ _ => n - weight o) (fun a => ih a (hp.2 a)) (fun a r => ?_)
      fun e => ?_
    · have := hp.1
      omega
    · exact hp.1

end Prog

end SaltOperator
