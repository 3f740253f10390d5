import SaltOperator.Lib.Runs

/-!
# Runs that are cut short

`Prog.Stops R p w h w' h'`: from the world `w`, after the calls `h`, the program `p`
makes some of its calls, each answered as `R` allows, and then stops for whatever reason,
in the world `w'`, the calls made by then being `h'`.

- `stops_call`, `stops_bind`: where a composed program can stop.
- `Stops.preserves`: what the calls of a program preserve, stopping preserves.
- `runFor`, `runIf`: the first calls of a program, or all, under a handler.
-/

namespace SaltOperator

variable {Op : Type} {Ans : Op → Type} {W ε ε' α β : Type}

namespace Prog

/-- A run of `p` that may stop anywhere. -/
inductive Stops (R : W → (o : Op) → Ans o → W → Prop) :
    Prog Op Ans ε α → W → List (Call Op Ans W) → W → List (Call Op Ans W) → Prop where
  | here {p w h} : Stops R p w h w h
  | call {o k w h a w₁ w' h'} : R w o a w₁ → Stops R (k a) w₁ (⟨w, o, a⟩ :: h) w' h' →
      Stops R (.call o k) w h w' h'

section inversion

variable {R : W → (o : Op) → Ans o → W → Prop} {w w' : W} {h h' : List (Call Op Ans W)}
  {p : Prog Op Ans ε α}

theorem stops_ret {a : α} (hs : (Prog.ret a : Prog Op Ans ε α).Stops R w h w' h') :
    w' = w ∧ h' = h := by
  cases hs
  exact ⟨rfl, rfl⟩

theorem stops_fail {e : ε} (hs : (Prog.fail e : Prog Op Ans ε α).Stops R w h w' h') :
    w' = w ∧ h' = h := by
  cases hs
  exact ⟨rfl, rfl⟩

theorem stops_call {o : Op} {k : Ans o → Prog Op Ans ε α} (hs : (Prog.call o k).Stops R w h w' h') :
    (w' = w ∧ h' = h) ∨ ∃ a w₁, R w o a w₁ ∧ (k a).Stops R w₁ (⟨w, o, a⟩ :: h) w' h' := by
  cases hs with
  | here => exact .inl ⟨rfl, rfl⟩
  | call hx hk => exact .inr ⟨_, _, hx, hk⟩

theorem stops_perform_bind {o : Op} {f : Ans o → Prog Op Ans ε α}
    (hs : (perform o >>= f).Stops R w h w' h') :
    (w' = w ∧ h' = h) ∨ ∃ a w₁, R w o a w₁ ∧ (f a).Stops R w₁ (⟨w, o, a⟩ :: h) w' h' :=
  stops_call hs

/-- A sequence stops in its first part, or in the second after a run of the first. -/
theorem stops_bind {f : α → Prog Op Ans ε β} (hs : (p >>= f).Stops R w h w' h') :
    p.Stops R w h w' h' ∨
      ∃ a w₁ h₁, p.Runs R w h (.ok a) w₁ h₁ ∧ (f a).Stops R w₁ h₁ w' h' := by
  induction p generalizing w h with
  | ret a => exact .inr ⟨a, w, h, .ret, hs⟩
  | fail e =>
    obtain ⟨rfl, rfl⟩ := stops_fail hs
    exact .inl .here
  | call o k ih =>
    rw [bind_call] at hs
    rcases stops_call hs with ⟨rfl, rfl⟩ | ⟨a, w₁, hx, hs⟩
    · exact .inl .here
    · rcases ih a hs with hk | ⟨b, w₂, h₂, hk, hf⟩
      · exact .inl (.call hx hk)
      · exact .inr ⟨b, w₂, h₂, .call hx hk, hf⟩

/-- A run to the end stops there. -/
theorem Runs.stops {r : Except ε α} (hp : p.Runs R w h r w' h') : p.Stops R w h w' h' := by
  induction hp with
  | ret => exact .here
  | fail => exact .here
  | call hx _ ih => exact .call hx ih

theorem Stops.suffix (hs : p.Stops R w h w' h') : h <:+ h' := by
  induction hs with
  | here => exact List.suffix_refl _
  | call _ _ ih => exact (List.suffix_cons _ _).trans ih

/-- What the calls of a program preserve, stopping preserves. -/
theorem Stops.preserves {I : W → Prop} {Φ : Op → Prop} (hs : p.Stops R w h w' h')
    (hΦ : p.Performs Φ) (hI : ∀ w o a w', Φ o → R w o a w' → I w → I w') (hw : I w) : I w' := by
  induction hs with
  | here => exact hw
  | call hx _ ih => exact ih (hΦ.2 _) (hI _ _ _ _ hΦ.1 hx hw)

/-- The first `n` calls of a program under a handler, as long as its answers are `ok`. -/
def runFor (H : W → (o : Op) → Ans o × W) (ok : W → (o : Op) → Ans o → Bool) :
    ℕ → Prog Op Ans ε α → W → List (Call Op Ans W) → Option (W × List (Call Op Ans W))
  | n + 1, .call o k, w, h =>
    if ok w o (H w o).1 then (k (H w o).1).runFor H ok n (H w o).2 (⟨w, o, (H w o).1⟩ :: h)
    else none
  | _, _, w, h => some (w, h)

/-- They are a run that stops. -/
theorem stops_runFor {H : W → (o : Op) → Ans o × W} {ok : W → (o : Op) → Ans o → Bool}
    (hH : ∀ w o, ok w o (H w o).1 = true → R w o (H w o).1 (H w o).2) {n : ℕ}
    (hs : p.runFor H ok n w h = some (w', h')) : p.Stops R w h w' h' := by
  induction n generalizing p w h with
  | zero =>
    cases p <;> cases hs <;> exact .here
  | succ n ih =>
    cases p with
    | ret a => cases hs; exact .here
    | fail e => cases hs; exact .here
    | call o k =>
      unfold runFor at hs
      split at hs
      · rename_i hok
        exact .call (hH w o hok) (ih hs)
      · cases hs

/-- A program under a handler, as long as its answers are `ok`. -/
def runIf (H : W → (o : Op) → Ans o × W) (ok : W → (o : Op) → Ans o → Bool) :
    Prog Op Ans ε α → W → List (Call Op Ans W) → Option (Except ε α × W × List (Call Op Ans W))
  | .ret a, w, h => some (.ok a, w, h)
  | .fail e, w, h => some (.error e, w, h)
  | .call o k, w, h =>
    if ok w o (H w o).1 then (k (H w o).1).runIf H ok (H w o).2 (⟨w, o, (H w o).1⟩ :: h) else none

theorem runs_runIf {H : W → (o : Op) → Ans o × W} {ok : W → (o : Op) → Ans o → Bool}
    {r : Except ε α} (hH : ∀ w o, ok w o (H w o).1 = true → R w o (H w o).1 (H w o).2)
    (hr : p.runIf H ok w h = some (r, w', h')) : p.Runs R w h r w' h' := by
  induction p generalizing w h with
  | ret a => cases hr; exact .ret
  | fail e => cases hr; exact .fail
  | call o k ih =>
    unfold runIf at hr
    split at hr
    · rename_i hok
      exact .call (hH w o hok) (ih _ hr)
    · cases hr

end inversion

end Prog

end SaltOperator
