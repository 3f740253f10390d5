import SaltOperator.Lib.Prog

/-!
# Two runs that look alike

Relational reasoning about programs. `Looks` says which operations of two runs an
observer takes for the same, and how far their answers may be apart;
`Prog.Alike` then says that two programs perform operations that look the same, as
long as the answers stay within that, and end alike.

- `Prog.Alike.bind`, `Prog.Alike.attempt`, `Prog.alike_refl`: its rules;
- `Prog.interp`: a program over a lower interface, each operation replaced by a
  program, and `Prog.Alike.interp`: **alikeness goes down to the lower interface**
  if the programs of operations that look the same are alike there;
- `Prog.exec`: what a program does and returns under a script of answers, and
  `Prog.Alike.exec`: **the executions of alike programs under scripts that stay
  within the allowed differences look the same**, operation by operation.
-/

namespace SaltOperator

/-- Which operations look the same, and which answers they may get. -/
abbrev Looks (Op : Type) (Ans : Op → Type) := (o o' : Op) → (Ans o → Ans o' → Prop) → Prop

namespace Prog

variable {Op Op' : Type} {Ans : Op → Type} {Ans' : Op' → Type} {ε ε' α β γ δ : Type}

/-- Results with values related by `V`, or with one error. -/
inductive SameOutcome (V : α → β → Prop) : Except ε α → Except ε β → Prop where
  | ok {a b} : V a b → SameOutcome V (.ok a) (.ok b)
  | error (e) : SameOutcome V (.error e) (.error e)

theorem SameOutcome.eq {r r' : Except ε α} : SameOutcome Eq r r' → r = r'
  | .ok h => congrArg Except.ok h
  | .error _ => rfl

/-- Two programs that perform operations that look the same, and return values related
by `V` or fail with one error. -/
inductive Alike (O : Looks Op Ans) (V : α → β → Prop) :
    Prog Op Ans ε α → Prog Op Ans ε β → Prop where
  | ret {a b} : V a b → Alike O V (.ret a) (.ret b)
  | fail (e) : Alike O V (.fail e) (.fail e)
  | call {o o' Q k k'} : O o o' Q → (∀ a a', Q a a' → Alike O V (k a) (k' a')) →
      Alike O V (.call o k) (.call o' k')

section rules

variable {O : Looks Op Ans} {V : α → β → Prop} {p : Prog Op Ans ε α} {p' : Prog Op Ans ε β}

theorem Alike.bind {U : γ → δ → Prop} {f : α → Prog Op Ans ε γ} {f' : β → Prog Op Ans ε δ}
    (hp : Alike O V p p') (hf : ∀ a b, V a b → Alike O U (f a) (f' b)) :
    Alike O U (p >>= f) (p' >>= f') := by
  induction hp with
  | ret hv => exact hf _ _ hv
  | fail e => exact .fail e
  | call ho _ ih => exact .call ho ih

theorem Alike.ite {q : Prog Op Ans ε α} {q' : Prog Op Ans ε β} {c : Prop} [Decidable c]
    (hp : c → Alike O V p p') (hq : ¬ c → Alike O V q q') :
    Alike O V (if c then p else q) (if c then p' else q') := by
  split
  · exact hp ‹c›
  · exact hq ‹¬ c›

/-- A failure that is handed back as a value is the same value. -/
theorem Alike.attempt (hp : Alike O V p p') :
    Alike O (SameOutcome V) (p.attempt : Prog Op Ans ε' (Except ε α)) p'.attempt := by
  induction hp with
  | ret hv => exact .ret (.ok hv)
  | fail e => exact .ret (.error e)
  | call ho _ ih => exact .call ho ih

theorem Alike.mono {U : α → β → Prop} (hp : Alike O V p p') (hV : ∀ a b, V a b → U a b) :
    Alike O U p p' := by
  induction hp with
  | ret hv => exact .ret (hV _ _ hv)
  | fail e => exact .fail e
  | call ho _ ih => exact .call ho ih

/-- Operations that look like themselves make a program alike to itself. -/
theorem alike_refl {p : Prog Op Ans ε α} {Φ : Op → Prop} (hp : p.Performs Φ)
    (hO : ∀ o, Φ o → O o o Eq) : Alike O Eq p p := by
  induction p with
  | ret a => exact .ret rfl
  | fail e => exact .fail e
  | call o k ih =>
    refine .call (hO o hp.1) fun a a' haa' => ?_
    subst haa'
    exact ih a (hp.2 a)

end rules

/-- Replace every operation by a program over another interface. -/
def interp (H : (o : Op) → Prog Op' Ans' ε (Ans o)) : Prog Op Ans ε α → Prog Op' Ans' ε α
  | .ret a => .ret a
  | .fail e => .fail e
  | .call o k => H o >>= fun a => (k a).interp H

theorem Alike.interp {O : Looks Op Ans} {O' : Looks Op' Ans'} {V : α → β → Prop}
    {p : Prog Op Ans ε α} {p' : Prog Op Ans ε β} {H : (o : Op) → Prog Op' Ans' ε (Ans o)}
    (hp : Alike O V p p') (hH : ∀ o o' Q, O o o' Q → Alike O' Q (H o) (H o')) :
    Alike O' V (p.interp H) (p'.interp H) := by
  induction hp with
  | ret hv => exact .ret hv
  | fail e => exact .fail e
  | call ho _ ih => exact (hH _ _ _ ho).bind ih

/-- The operations a program performs and its result, the `n`-th operation being answered
as `σ n` says. -/
def exec (σ : Nat → (o : Op) → Ans o) : Nat → Prog Op Ans ε α → List Op × Except ε α
  | _, .ret a => ([], .ok a)
  | _, .fail e => ([], .error e)
  | n, .call o k =>
    let rest := exec σ (n + 1) (k (σ n o))
    (o :: rest.1, rest.2)

section exec

variable {p : Prog Op Ans ε α} {f : α → Prog Op Ans ε β} {σ : Nat → (o : Op) → Ans o} {n : Nat}

/-- The second program goes on where the first has ended, unless that has failed. -/
theorem exec_bind : (p >>= f).exec σ n = match (p.exec σ n).2 with
    | .ok a => ((p.exec σ n).1 ++ ((f a).exec σ (n + (p.exec σ n).1.length)).1,
        ((f a).exec σ (n + (p.exec σ n).1.length)).2)
    | .error e => ((p.exec σ n).1, .error e) := by
  induction p generalizing n with
  | ret a => rfl
  | fail e => rfl
  | call o k ih =>
    have hlen (l : List Op) : n + (o :: l).length = n + 1 + l.length := by
      rw [List.length_cons]
      omega
    show (o :: ((k (σ n o) >>= f).exec σ (n + 1)).1, ((k (σ n o) >>= f).exec σ (n + 1)).2) =
      match ((k (σ n o)).exec σ (n + 1)).2 with
      | .ok a => _
      | .error e => _
    rw [ih]
    cases hres : ((k (σ n o)).exec σ (n + 1)).2 with
    | error e => rfl
    | ok a =>
      dsimp only
      show _ = (o :: ((k (σ n o)).exec σ (n + 1)).1 ++ ((f a).exec σ (n + (o :: _).length)).1,
        ((f a).exec σ (n + (o :: _).length)).2)
      rw [hlen]
      rfl

/-- A sequence returns when its parts do, one after the other. -/
theorem exec_bind_ok {b : β} : ((p >>= f).exec σ n).2 = .ok b ↔ ∃ a, (p.exec σ n).2 = .ok a ∧
    ((f a).exec σ (n + (p.exec σ n).1.length)).2 = .ok b := by
  rw [exec_bind]
  cases (p.exec σ n).2 with
  | error e => exact ⟨nofun, nofun⟩
  | ok a => exact ⟨fun h => ⟨a, rfl, h⟩, fun ⟨_, ha, h⟩ => by cases ha; exact h⟩

theorem exec_attempt : (p.attempt : Prog Op Ans ε' (Except ε α)).exec σ n =
    ((p.exec σ n).1, .ok (p.exec σ n).2) := by
  induction p generalizing n with
  | ret a => rfl
  | fail e => rfl
  | call o k ih =>
    show (o :: (Prog.exec σ (n + 1) (k (σ n o)).attempt).1, _) = _
    rw [ih]
    rfl

/-- Scripts that agree on the operations a program may perform give it one result. -/
theorem Performs.exec_congr {Φ : Op → Prop} (hp : p.Performs Φ) {σ τ : Nat → (o : Op) → Ans o}
    (h : ∀ i j o, Φ o → σ i o = τ j o) (n m : Nat) : (p.exec σ n).2 = (p.exec τ m).2 := by
  induction p generalizing n m with
  | ret a => rfl
  | fail e => rfl
  | call o k ih =>
    show ((k (σ n o)).exec σ (n + 1)).2 = ((k (τ m o)).exec τ (m + 1)).2
    rw [h n m o hp.1]
    exact ih _ (hp.2 _) (n + 1) (m + 1)

end exec

/-- **Alike programs look the same** under scripts whose answers are apart as far as
allowed. -/
theorem Alike.exec {O : Looks Op Ans} {p p' : Prog Op Ans ε α} (hp : Alike O Eq p p')
    {σ σ' : Nat → (o : Op) → Ans o} (hσ : ∀ n o o' Q, O o o' Q → Q (σ n o) (σ' n o')) (n : Nat) :
    List.Forall₂ (fun o o' => ∃ Q, O o o' Q) (p.exec σ n).1 (p'.exec σ' n).1 ∧
      (p.exec σ n).2 = (p'.exec σ' n).2 := by
  induction hp generalizing n with
  | ret hv => exact ⟨.nil, congrArg Except.ok hv⟩
  | fail e => exact ⟨.nil, rfl⟩
  | @call o o' Q k k' ho _ ih =>
    obtain ⟨hops, hres⟩ := ih _ _ (hσ n o o' Q ho) (n + 1)
    exact ⟨.cons ⟨Q, ho⟩ hops, hres⟩

end Prog

end SaltOperator
