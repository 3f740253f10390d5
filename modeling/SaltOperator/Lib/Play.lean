import SaltOperator.Lib.System

/-!
# Playing a schedule

Runs of a system that can be computed: threads take turns as a schedule says, a server answers
their calls, and the environment makes the moves it is told to. `System.reach_play`: **what a
schedule leads to is reachable**.
-/

namespace SaltOperator

variable {T Op : Type} {Ans : Op → Type} {W ε α E : Type} [DecidableEq T]

/-- One step of a thread: it begins, makes its next call, or ends. -/
def Cfg.turn (boot : T → Prog Op Ans ε α) (serve : W → (o : Op) → Ans o × W) (t : T)
    (c : Cfg T Op Ans W ε α) : Cfg T Op Ans W ε α :=
  match c.threads t with
  | none => { c with threads := Function.update c.threads t (some (boot t)) }
  | some (.call o k) =>
    let (a, w') := serve c.world o
    ⟨w', Function.update c.threads t (some (k a)),
      Function.update c.hist t (⟨c.world, o, a⟩ :: c.hist t)⟩
  | some _ => { c with threads := Function.update c.threads t none }

/-- Turns of threads and moves of the environment, one after the other. -/
def Cfg.play (boot : T → Prog Op Ans ε α) (serve : W → (o : Op) → Ans o × W)
    (move : E → W → Option W) : List (T ⊕ E) → Cfg T Op Ans W ε α → Option (Cfg T Op Ans W ε α)
  | [], c => some c
  | .inl t :: rest, c => Cfg.play boot serve move rest (c.turn boot serve t)
  | .inr e :: rest, c => (move e c.world).bind fun w' =>
    Cfg.play boot serve move rest { c with world := w' }

namespace System

variable {S : System T Op Ans W ε α} {serve : W → (o : Op) → Ans o × W} {c c' : Cfg T Op Ans W ε α}

theorem reach_turn_of_serve (hserve : ∀ t w o, S.exec t w o (serve w o).1 (serve w o).2)
    (h : S.Reach c) (t : T) : S.Reach (c.turn S.boot serve t) := by
  unfold Cfg.turn
  split
  · rename_i hidle
    exact h.next (.start t hidle)
  · rename_i o k hth
    exact h.next (.call t hth (hserve t c.world o))
  · rename_i p hno hth
    refine h.next (.done t hth ?_)
    cases p with
    | call o k => exact absurd rfl (hno o k)
    | _ => rfl

/-- **What a schedule leads to is reachable.** -/
theorem reach_play {move : E → W → Option W}
    (hserve : ∀ t w o, S.exec t w o (serve w o).1 (serve w o).2)
    (hmove : ∀ e w w', move e w = some w' → S.env w w') {acts : List (T ⊕ E)} (h : S.Reach c)
    (hplay : c.play S.boot serve move acts = some c') : S.Reach c' := by
  induction acts generalizing c with
  | nil =>
    cases hplay
    exact h
  | cons act rest ih =>
    rcases act with t | e
    · exact ih (reach_turn_of_serve hserve h t) hplay
    · obtain ⟨w', hw, hrest⟩ := Option.bind_eq_some_iff.mp hplay
      exact ih (h.next (.env (hmove e _ _ hw))) hrest

/-- A thread that is about to make a call makes it. -/
theorem exists_call_step (hserve : ∀ t w o, S.exec t w o (serve w o).1 (serve w o).2) {t : T}
    (hbusy : (c.threads t).any (!·.isDone) = true) : ∃ o a c', S.Step c (.call t o a) c' := by
  obtain ⟨p, hth, hp⟩ := (Option.any_eq_true _ _).mp hbusy
  cases p with
  | ret a => cases hp
  | fail e => cases hp
  | call o k => exact ⟨o, _, _, .call t hth (hserve t c.world o)⟩

end System

end SaltOperator
