import Mathlib

/-!
# Programs that call their environment

A `Prog` is a program reduced to what its environment can observe of it: the
operations it performs, one at a time, and how it goes on with each answer. The
environment is left open. Who answers, whether the answer is an error, and what
happens in the world between two calls is the business of a `System`
(`Lib/System.lean`); the same program runs under all of them.

- `Prog Op Ans ε α`: returns an `α`, fails with an `ε`, or performs an
  operation `o` and continues with its answer of type `Ans o`.
- `Prog.perform`: a single operation.
- `Prog.orFail`: turns an answer that reports an error into a failure.
- `Prog.attempt`: runs a program and hands its failure back as a value.
- `Prog.run`: runs a program to its end against a deterministic handler.
- `Prog.Obeys`: what a program guarantees about its own behaviour. Given answers
  within `E`, every operation it performs satisfies `Φ` and it ends in `Ψ`, both
  predicates of the calls made so far.
- `Prog.Performs`: the same of operations one by one, whatever the answers.
-/

namespace SaltOperator

/-- A program over the operations `Op`, operation `o` being answered by an
`Ans o`. -/
inductive Prog (Op : Type) (Ans : Op → Type) (ε α : Type) where
  | ret (a : α)
  | fail (e : ε)
  | call (o : Op) (k : Ans o → Prog Op Ans ε α)

namespace Prog

variable {Op : Type} {Ans : Op → Type} {ε ε' α β : Type}

/-- Run `p`, then `f` on what it returned; a failure of `p` is the failure of
the whole. -/
def bind : Prog Op Ans ε α → (α → Prog Op Ans ε β) → Prog Op Ans ε β
  | .ret a, f => f a
  | .fail e, _ => .fail e
  | .call o k, f => .call o fun a => (k a).bind f

instance : Monad (Prog Op Ans ε) where
  pure := .ret
  bind := .bind

/-- Perform one operation and return its answer. -/
def perform (o : Op) : Prog Op Ans ε (Ans o) := .call o .ret

/-- Continue with the value of a successful answer, and fail with the wrapped
error of an unsuccessful one. -/
def orFail (wrap : ε' → ε) : Except ε' α → Prog Op Ans ε α
  | .ok a => .ret a
  | .error e => .fail (wrap e)

/-- Run `p` and return its outcome, a failure included. -/
def attempt : Prog Op Ans ε α → Prog Op Ans ε' (Except ε α)
  | .ret a => .ret (.ok a)
  | .fail e => .ret (.error e)
  | .call o k => .call o fun a => (k a).attempt

/-- Run a program to its end, each operation answered by `H`. -/
def run {W : Type} (H : W → (o : Op) → Ans o × W) : Prog Op Ans ε α → W → Except ε α × W
  | .ret a, w => (.ok a, w)
  | .fail e, w => (.error e, w)
  | .call o k, w => (k (H w o).1).run H (H w o).2

/-- Whether the program has nothing left to perform. -/
def isDone : Prog Op Ans ε α → Bool
  | .call _ _ => false
  | _ => true

@[simp] theorem pure_eq (a : α) : (pure a : Prog Op Ans ε α) = .ret a := rfl

@[simp] theorem bind_ret (a : α) (f : α → Prog Op Ans ε β) : (.ret a >>= f) = f a := rfl

@[simp] theorem bind_fail (e : ε) (f : α → Prog Op Ans ε β) : (.fail e >>= f) = .fail e := rfl

@[simp] theorem bind_call (o : Op) (k : Ans o → Prog Op Ans ε α) (f : α → Prog Op Ans ε β) :
    (.call o k >>= f) = .call o fun a => k a >>= f := rfl

@[simp] theorem perform_bind (o : Op) (f : Ans o → Prog Op Ans ε β) :
    (perform o >>= f) = .call o f := rfl

end Prog

/-- A call that was made: the world it was made in, and its answer. -/
structure Call (Op : Type) (Ans : Op → Type) (W : Type) where
  before : W
  op : Op
  ans : Ans op

namespace Prog

variable {Op : Type} {Ans : Op → Type} {W ε ε' α β : Type}

/-- Run after the calls `h` (newest first), the program performs only operations
that satisfy `Φ` and ends in `Ψ`, as long as every answer is within `E`. -/
def Obeys (E : List (Call Op Ans W) → Call Op Ans W → Prop)
    (Φ : List (Call Op Ans W) → Op → Prop) (Ψ : List (Call Op Ans W) → Except ε α → Prop) :
    Prog Op Ans ε α → List (Call Op Ans W) → Prop
  | .ret a, h => Ψ h (.ok a)
  | .fail e, h => Ψ h (.error e)
  | .call o k, h => Φ h o ∧ ∀ w a, E h ⟨w, o, a⟩ → (k a).Obeys E Φ Ψ (⟨w, o, a⟩ :: h)

section rules

variable {E : List (Call Op Ans W) → Call Op Ans W → Prop}
  {Φ : List (Call Op Ans W) → Op → Prop} {h : List (Call Op Ans W)}

theorem Obeys.mono {p : Prog Op Ans ε α} {Ψ Ψ' : List (Call Op Ans W) → Except ε α → Prop}
    (hp : p.Obeys E Φ Ψ h) (hΨ : ∀ h r, Ψ h r → Ψ' h r) : p.Obeys E Φ Ψ' h := by
  induction p generalizing h with
  | ret a => exact hΨ _ _ hp
  | fail e => exact hΨ _ _ hp
  | call o k ih => exact ⟨hp.1, fun w a ha => ih a (hp.2 w a ha)⟩

/-- Two contracts about the same answers are one. -/
theorem Obeys.and {p : Prog Op Ans ε α} {Φ' : List (Call Op Ans W) → Op → Prop}
    {Ψ Ψ' : List (Call Op Ans W) → Except ε α → Prop} (hp : p.Obeys E Φ Ψ h)
    (hp' : p.Obeys E Φ' Ψ' h) :
    p.Obeys E (fun h o => Φ h o ∧ Φ' h o) (fun h r => Ψ h r ∧ Ψ' h r) h := by
  induction p generalizing h with
  | ret a => exact ⟨hp, hp'⟩
  | fail e => exact ⟨hp, hp'⟩
  | call o k ih =>
    exact ⟨⟨hp.1, hp'.1⟩, fun w a ha => ih a (hp.2 w a ha) (hp'.2 w a ha)⟩

/-- Sequencing: a failure of the first program skips the second. -/
theorem Obeys.bind {p : Prog Op Ans ε α} {f : α → Prog Op Ans ε β}
    {Ψ : List (Call Op Ans W) → Except ε β → Prop}
    (hp : p.Obeys E Φ (fun h r => match r with
      | .ok a => (f a).Obeys E Φ Ψ h
      | .error e => Ψ h (.error e)) h) : (p >>= f).Obeys E Φ Ψ h := by
  induction p generalizing h with
  | ret a => exact hp
  | fail e => exact hp
  | call o k ih => exact ⟨hp.1, fun w a ha => ih a (hp.2 w a ha)⟩

theorem Obeys.attempt {p : Prog Op Ans ε α}
    {Ψ : List (Call Op Ans W) → Except ε' (Except ε α) → Prop}
    (hp : p.Obeys E Φ (fun h r => Ψ h (.ok r)) h) :
    (p.attempt : Prog Op Ans ε' (Except ε α)).Obeys E Φ Ψ h := by
  induction p generalizing h with
  | ret a => exact hp
  | fail e => exact hp
  | call o k ih => exact ⟨hp.1, fun w a ha => ih a (hp.2 w a ha)⟩

end rules

/-! ## Operations one by one -/

/-- Every operation the program may ever perform satisfies `Φ`. -/
def Performs (Φ : Op → Prop) : Prog Op Ans ε α → Prop
  | .ret _ => True
  | .fail _ => True
  | .call o k => Φ o ∧ ∀ a, (k a).Performs Φ

section performs

variable {Φ : Op → Prop} {p : Prog Op Ans ε α}

theorem Performs.mono {Φ' : Op → Prop} (hp : p.Performs Φ) (hΦ : ∀ o, Φ o → Φ' o) :
    p.Performs Φ' := by
  induction p with
  | ret a => exact trivial
  | fail e => exact trivial
  | call o k ih => exact ⟨hΦ o hp.1, fun a => ih a (hp.2 a)⟩

theorem Performs.bind {f : α → Prog Op Ans ε β} (hp : p.Performs Φ) (hf : ∀ a, (f a).Performs Φ) :
    (p >>= f).Performs Φ := by
  induction p with
  | ret a => exact hf a
  | fail e => exact trivial
  | call o k ih => exact ⟨hp.1, fun a => ih a (hp.2 a)⟩

theorem Performs.ite {q : Prog Op Ans ε α} {c : Prop} [Decidable c] (hp : c → p.Performs Φ)
    (hq : ¬ c → q.Performs Φ) : (if c then p else q).Performs Φ := by
  split
  · exact hp ‹c›
  · exact hq ‹¬ c›

theorem Performs.attempt (hp : p.Performs Φ) :
    (p.attempt : Prog Op Ans ε' (Except ε α)).Performs Φ := by
  induction p with
  | ret a => exact trivial
  | fail e => exact trivial
  | call o k ih => exact ⟨hp.1, fun a => ih a (hp.2 a)⟩

/-- A property `I` of the calls so far under which `Φ` is within the contract, and that
the operations in `Φ` preserve, takes a program of such operations to its end. -/
theorem Performs.obeys {E : List (Call Op Ans W) → Call Op Ans W → Prop}
    {Φ' : List (Call Op Ans W) → Op → Prop} {I : List (Call Op Ans W) → Prop}
    (hp : p.Performs Φ)
    (hstep : ∀ h o, I h → Φ o → Φ' h o ∧ ∀ w a, I (⟨w, o, a⟩ :: h))
    {h : List (Call Op Ans W)} (hI : I h) : p.Obeys E Φ' (fun h' _ => I h') h := by
  induction p generalizing h with
  | ret a => exact hI
  | fail e => exact hI
  | call o k ih =>
    obtain ⟨ho, hI'⟩ := hstep h o hI hp.1
    exact ⟨ho, fun w a _ => ih a (hp.2 a) (hI' w a)⟩

end performs

end Prog

end SaltOperator
