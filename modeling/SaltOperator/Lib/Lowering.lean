import SaltOperator.Lib.Simulation
import SaltOperator.Lib.Relational

/-!
# Operations that take several calls

A system whose operations are single steps is an abstraction when an operation is a program
over a lower interface, between whose calls everybody else takes steps. `System.lower` is the
system one level down, where the threads run the same programs with every operation replaced
(`Prog.interp`).

- `System.Realizes`: what the program of an operation has to be like. Its calls do nothing
  that the environment could not do, and its result is one the operation can have at the time
  it ends; or its last call is the operation.
- `System.simulates_lower`: **then every run of the lower system is one of the upper**, with
  the same worlds, and with the same calls as far as these are seen on both levels.
-/

namespace SaltOperator

namespace System

variable {T Op Op' : Type} {Ans : Op → Type} {Ans' : Op' → Type} {W ε α V : Type}

/-- The system with each operation replaced by a program over other ones. -/
def lower (S : System T Op Ans W ε α) (exec : T → W → (o : Op') → Ans' o → W → Prop)
    (H : (o : Op) → Prog Op' Ans' ε (Ans o)) : System T Op' Ans' W ε α where
  exec := exec
  env := S.env
  boot t := (S.boot t).interp H
  crash := S.crash
  init := S.init

/-- The program is one for the operation `o` of thread `t`: what its calls do the environment
could have done, and when it has a result, `o` can have that result; or the last call it makes
is the operation `o`. `see` and `see'` are what is to be seen of calls. -/
def Realizes (S : System T Op Ans W ε α) (exec : T → W → (o : Op') → Ans' o → W → Prop)
    (see : Call Op Ans W → Option V) (see' : Call Op' Ans' W → Option V) (t : T) (o : Op) :
    Prog Op' Ans' ε (Ans o) → Prop
  | .ret a => ∀ w, see ⟨w, o, a⟩ = none ∧ ∃ w₁, S.exec t w o a w₁ ∧ (w₁ = w ∨ S.env w₁ w)
  | .fail _ => False
  | .call o' k => ∀ w a' w', exec t w o' a' w' →
      (see' ⟨w, o', a'⟩ = none ∧ (w' = w ∨ S.env w w') ∧ Realizes S exec see see' t o (k a')) ∨
      ∃ a, k a' = .ret a ∧ S.exec t w o a w' ∧ see' ⟨w, o', a'⟩ = see ⟨w, o, a⟩

section lower

variable {S : System T Op Ans W ε α} {o : Op}
  {exec : T → W → (o : Op') → Ans' o → W → Prop} {H : (o : Op) → Prog Op' Ans' ε (Ans o)}
  {see : Call Op Ans W → Option V} {see' : Call Op' Ans' W → Option V}

/-- A program whose calls the environment could have made, and whose results the operation can
have at any time. -/
theorem realizes_of_obeys {Φ : Op' → Prop} {P : Ans o → Prop} {E : List (Call Op' Ans' W) →
    Call Op' Ans' W → Prop} {t : T} {h : List (Call Op' Ans' W)} {q : Prog Op' Ans' ε (Ans o)}
    (hE : ∀ h m, E h m)
    (hquiet : ∀ o' w a' w', Φ o' → exec t w o' a' w' →
      see' ⟨w, o', a'⟩ = none ∧ (w' = w ∨ S.env w w'))
    (hret : ∀ a, P a → ∀ w, see ⟨w, o, a⟩ = none ∧
      ∃ w₁, S.exec t w o a w₁ ∧ (w₁ = w ∨ S.env w₁ w))
    (hq : q.Obeys E (fun _ => Φ) (fun _ r => ∃ a, r = .ok a ∧ P a) h) :
    S.Realizes exec see see' t o q := by
  induction q generalizing h with
  | ret a =>
    obtain ⟨_, ha, hP⟩ := hq
    cases ha
    exact hret a hP
  | fail e =>
    obtain ⟨_, ha, -⟩ := hq
    cases ha
  | call o' k ih =>
    intro w a' w' hx
    obtain ⟨hsee, hw⟩ := hquiet o' w a' w' hq.1 hx
    exact .inl ⟨hsee, hw, ih a' (hq.2 w a' (hE _ _))⟩

/-- A program of the lower system, and where the upper one is meanwhile: within an operation it
has not performed. -/
inductive Matches (S : System T Op Ans W ε α) (exec : T → W → (o : Op') → Ans' o → W → Prop)
    (H : (o : Op) → Prog Op' Ans' ε (Ans o)) (see : Call Op Ans W → Option V)
    (see' : Call Op' Ans' W → Option V) (t : T) : Prog Op' Ans' ε α → Prog Op Ans ε α → Prop where
  | ret (a) : Matches S exec H see see' t (.ret a) (.ret a)
  | fail (e) : Matches S exec H see see' t (.fail e) (.fail e)
  | within {o q k} : S.Realizes exec see see' t o q → q.isDone = false →
      Matches S exec H see see' t (q >>= fun a => (k a).interp H) (.call o k)

theorem matches_interp (hH : ∀ t o, S.Realizes exec see see' t o (H o))
    (hcalls : ∀ o, (H o).isDone = false) (t : T) (p : Prog Op Ans ε α) :
    Matches S exec H see see' t (p.interp H) p := by
  cases p with
  | ret a => exact .ret a
  | fail e => exact .fail e
  | call o k => exact .within (hH t o) (hcalls o)

/-- Threads of the two systems. -/
inductive MatchesThread (S : System T Op Ans W ε α) (exec : T → W → (o : Op') → Ans' o → W → Prop)
    (H : (o : Op) → Prog Op' Ans' ε (Ans o)) (see : Call Op Ans W → Option V)
    (see' : Call Op' Ans' W → Option V) (t : T) :
    Option (Prog Op' Ans' ε α) → Option (Prog Op Ans ε α) → Prop where
  | idle : MatchesThread S exec H see see' t none none
  | busy {p' p} : Matches S exec H see see' t p' p →
      MatchesThread S exec H see see' t (some p') (some p)

/-- Configurations of the two systems: the same world, threads at the same point, and the same
calls to be seen. -/
structure Lowered (S : System T Op Ans W ε α) (exec : T → W → (o : Op') → Ans' o → W → Prop)
    (H : (o : Op) → Prog Op' Ans' ε (Ans o)) (see : Call Op Ans W → Option V)
    (see' : Call Op' Ans' W → Option V) (c₁ : Cfg T Op' Ans' W ε α) (c : Cfg T Op Ans W ε α) :
    Prop where
  world : c.world = c₁.world
  threads : ∀ t, MatchesThread S exec H see see' t (c₁.threads t) (c.threads t)
  seen : ∀ t, (c.hist t).filterMap see = (c₁.hist t).filterMap see'

/-- Threads that are not idle are not idle in the other system. -/
theorem Lowered.idle_iff {c₁ : Cfg T Op' Ans' W ε α} {c : Cfg T Op Ans W ε α}
    (h : Lowered S exec H see see' c₁ c) (t : T) : c.threads t = none ↔ c₁.threads t = none := by
  have ht := h.threads t
  revert ht
  cases c₁.threads t <;> cases c.threads t <;> intro ht <;> cases ht <;> simp

section update

variable [DecidableEq T] {c₁ : Cfg T Op' Ans' W ε α} {c : Cfg T Op Ans W ε α} {t : T}
  {p' : Option (Prog Op' Ans' ε α)} {p : Option (Prog Op Ans ε α)}

theorem Lowered.update_threads (h : Lowered S exec H see see' c₁ c)
    (hp : MatchesThread S exec H see see' t p' p) (s : T) :
    MatchesThread S exec H see see' s (Function.update c₁.threads t p' s)
      (Function.update c.threads t p s) := by
  rcases eq_or_ne s t with rfl | hne
  · rw [Function.update_self, Function.update_self]
    exact hp
  · rw [Function.update_of_ne hne, Function.update_of_ne hne]
    exact h.threads s

/-- One thread goes on in both systems. -/
theorem Lowered.thread (h : Lowered S exec H see see' c₁ c)
    (hp : MatchesThread S exec H see see' t p' p) :
    Lowered S exec H see see' { c₁ with threads := Function.update c₁.threads t p' }
      { c with threads := Function.update c.threads t p } :=
  ⟨h.world, h.update_threads hp, h.seen⟩

/-- The lower system makes a call that is not to be seen, within an operation. -/
theorem Lowered.hidden (h : Lowered S exec H see see' c₁ c) {w' : W} {m : Call Op' Ans' W}
    {q : Prog Op' Ans' ε α} {p : Prog Op Ans ε α} (hm : see' m = none)
    (hth : c.threads t = some p) (hp : Matches S exec H see see' t q p) :
    Lowered S exec H see see' ⟨w', Function.update c₁.threads t (some q),
      Function.update c₁.hist t (m :: c₁.hist t)⟩ { c with world := w' } := by
  refine ⟨rfl, fun s => ?_, fun s => ?_⟩
  · show MatchesThread S exec H see see' s (Function.update c₁.threads t (some q) s) (c.threads s)
    rcases eq_or_ne s t with rfl | hne
    · rw [Function.update_self, hth]
      exact .busy hp
    · rw [Function.update_of_ne hne]
      exact h.threads s
  · show _ = (Function.update c₁.hist t (m :: c₁.hist t) s).filterMap see'
    rcases eq_or_ne s t with rfl | hne
    · rw [Function.update_self, List.filterMap_cons_none hm]
      exact h.seen s
    · rw [Function.update_of_ne hne]
      exact h.seen s

/-- Both systems make a call, of which the same is to be seen. -/
theorem Lowered.call (h : Lowered S exec H see see' c₁ c) {w' : W} {m' : Call Op' Ans' W}
    {m : Call Op Ans W} {q : Prog Op' Ans' ε α} {p : Prog Op Ans ε α} (hm : see' m' = see m)
    (hp : Matches S exec H see see' t q p) :
    Lowered S exec H see see' ⟨w', Function.update c₁.threads t (some q),
      Function.update c₁.hist t (m' :: c₁.hist t)⟩ ⟨w', Function.update c.threads t (some p),
      Function.update c.hist t (m :: c.hist t)⟩ := by
  refine ⟨rfl, h.update_threads (.busy hp), fun s => ?_⟩
  show (Function.update c.hist t (m :: c.hist t) s).filterMap see =
    (Function.update c₁.hist t (m' :: c₁.hist t) s).filterMap see'
  rcases eq_or_ne s t with rfl | hne
  · rw [Function.update_self, Function.update_self, List.filterMap_cons, List.filterMap_cons, hm,
      h.seen s]
  · rw [Function.update_of_ne hne, Function.update_of_ne hne]
    exact h.seen s

end update

/-- The upper system follows the environment, if anything changed. -/
theorem Steps.follow [DecidableEq T] {c : Cfg T Op Ans W ε α} {w' : W}
    (h : w' = c.world ∨ S.env c.world w') : S.Steps c { c with world := w' } := by
  rcases h with rfl | he
  · exact .refl
  · exact .single (.env he)

/-- **Every run of the lower system is one of the upper.** -/
theorem simulates_lower [DecidableEq T] (hH : ∀ t o, S.Realizes exec see see' t o (H o))
    (hcalls : ∀ o, (H o).isDone = false) :
    Simulates (S.lower exec H) S (Lowered S exec H see see') where
  init w hw := ⟨w, hw, rfl, fun _ => .idle, fun _ => rfl⟩
  step := by
    intro c₁ c₂ act c _ hs hc
    cases hs with
    | env he =>
      refine ⟨{ c with world := _ }, .single (.env ?_), rfl, hc.threads, hc.seen⟩
      rw [hc.world]
      exact he
    | start t hidle =>
      refine ⟨_, .single (.start t ((hc.idle_iff t).mpr hidle)), hc.thread (.busy ?_)⟩
      exact matches_interp hH hcalls t _
    | stop t hcrash => exact ⟨_, .single (.stop t hcrash), hc.thread .idle⟩
    | @done t p' hth hdone =>
      -- a program that has ended has ended in the upper system
      obtain ⟨p, hp, hpdone⟩ : ∃ p, c.threads t = some p ∧ p.isDone = true := by
        have ht := hc.threads t
        rw [hth] at ht
        generalize hp : c.threads t = q at ht
        cases ht with
        | busy hm =>
          cases hm with
          | ret a => exact ⟨_, rfl, rfl⟩
          | fail e => exact ⟨_, rfl, rfl⟩
          | @within o q k _ hq =>
            cases q with
            | call o' kq => cases hdone
            | ret a => cases hq
            | fail e => cases hq
      exact ⟨_, .single (.done t hp hpdone), hc.thread .idle⟩
    | @call w' t o' k' a' hth hx =>
      have ht := hc.threads t
      rw [hth] at ht
      generalize hp : c.threads t = q at ht
      cases ht with
      | busy hm =>
        generalize hcall : Prog.call o' k' = p' at hm
        cases hm with
        | ret a => cases hcall
        | fail e => cases hcall
        | @within o q k hreal hq =>
          cases q with
          | ret a => cases hq
          | fail e => cases hq
          | call o'' kq =>
            obtain ⟨rfl, hk⟩ := Prog.call.inj hcall
            obtain rfl := eq_of_heq hk
            rcases hreal _ _ _ hx with ⟨hsee, hw, hrest⟩ | ⟨a, hret, hexec, hsee⟩
            · have hfollow : S.Steps c { c with world := w' } := by
                refine Steps.follow ?_
                rw [hc.world]
                exact hw
              generalize hnext : kq a' = q' at hrest
              cases q' with
              | call o₂ k₂ =>
                refine ⟨_, hfollow, ?_⟩
                refine hc.hidden hsee hp ?_
                dsimp only
                rw [hnext]
                exact .within hrest rfl
              | fail e => exact hrest.elim
              | ret a =>
                -- the operation is over: the upper system performs it now
                obtain ⟨hsee₁, w₁, hexec, hback⟩ := hrest w'
                have hstep : S.Step { c with world := w' } (.call t o a)
                    ⟨w₁, Function.update c.threads t (some (k a)),
                      Function.update c.hist t (⟨w', o, a⟩ :: c.hist t)⟩ := .call t hp hexec
                have hthen :=
                  Steps.follow (S := S) (c := ⟨w₁, Function.update c.threads t (some (k a)),
                  Function.update c.hist t (⟨w', o, a⟩ :: c.hist t)⟩) (hback.imp Eq.symm id)
                refine ⟨_, hfollow.trans ((Steps.single hstep).trans hthen), ?_⟩
                · dsimp only
                  rw [hnext]
                  exact hc.call (hsee.trans hsee₁.symm) (matches_interp hH hcalls t (k a))
            · have hstep : S.Step c (.call t o a) ⟨w', Function.update c.threads t (some (k a)),
                  Function.update c.hist t (⟨c.world, o, a⟩ :: c.hist t)⟩ := by
                refine .call t hp ?_
                rw [hc.world]
                exact hexec
              refine ⟨_, .single hstep, ?_⟩
              dsimp only
              rw [hret]
              refine hc.call ?_ (matches_interp hH hcalls t (k a))
              rw [hc.world]
              exact hsee

end lower

end System

end SaltOperator
