import SaltOperator.Lib.System

/-!
# One system within another

A system is within another one if every step of it is matched by steps of the other, or
by none. What the other one never does, it then never does either.

- `System.Simulates`: a relation of configurations that steps keep, and
  `Simulates.reach`, `Simulates.steps`: **so do runs**.
- `System.beside`: a system with further threads that act on the same world. If these
  do nothing that the environment could not do, then **the others run as if they were by
  themselves** (`simulates_beside`).
- `System.Reach.of_hist`: where in a run a call was made, and `Prog.Makes`: which calls
  were those of a program.
-/

namespace SaltOperator

/-- Every operation is some operation. -/
theorem Prog.performs_true {Op : Type} {Ans : Op → Type} {ε α : Type} {p : Prog Op Ans ε α} :
    p.Performs fun _ => True := by
  induction p with
  | ret a => exact trivial
  | fail e => exact trivial
  | call o k ih => exact ⟨trivial, ih⟩

namespace Prog

variable {Op : Type} {Ans : Op → Type} {W ε ε' α : Type}

/-- Handing back a failure changes nothing about the operations. -/
theorem Performs.of_attempt {Φ : Op → Prop} {p : Prog Op Ans ε α}
    (hp : (p.attempt : Prog Op Ans ε' (Except ε α)).Performs Φ) : p.Performs Φ := by
  induction p with
  | ret a => exact trivial
  | fail e => exact trivial
  | call o k ih => exact ⟨hp.1, fun a => ih a (hp.2 a)⟩

/-- After the calls `h`, the program made those on top of them in `h'` and ended with `r`. -/
inductive Makes : Prog Op Ans ε α → List (Call Op Ans W) → Except ε α → List (Call Op Ans W) →
    Prop where
  | ret {a h} : Makes (.ret a) h (.ok a) h
  | fail {e h} : Makes (.fail e) h (.error e) h
  | call {o k w a h r h'} : Makes (k a) (⟨w, o, a⟩ :: h) r h' → Makes (.call o k) h r h'

/-- A program of permitted operations, and the calls it makes. -/
theorem Performs.makes {E : List (Call Op Ans W) → Call Op Ans W → Prop}
    {Φ' : List (Call Op Ans W) → Op → Prop} {Φ : Op → Prop} {p : Prog Op Ans ε α}
    {h : List (Call Op Ans W)} (hp : p.Performs Φ) (hΦ : ∀ h o, Φ o → Φ' h o) :
    p.Obeys E Φ' (fun h' r => p.Makes h r h') h := by
  induction p generalizing h with
  | ret a => exact .ret
  | fail e => exact .fail
  | call o k ih => exact ⟨hΦ h o hp.1, fun w a _ => (ih a (hp.2 a)).mono fun _ _ hm => .call hm⟩

/-- What a program guarantees whatever the answers, it has kept in the calls it made. -/
theorem Makes.ends {Φ : List (Call Op Ans W) → Op → Prop}
    {Ψ : List (Call Op Ans W) → Except ε α → Prop} {p : Prog Op Ans ε α} {r : Except ε α}
    {h h' : List (Call Op Ans W)} (hm : p.Makes h r h') (hp : p.Obeys (fun _ _ => True) Φ Ψ h) :
    Ψ h' r := by
  induction hm with
  | ret => exact hp
  | fail => exact hp
  | call _ ih => exact ih (hp.2 _ _ trivial)

/-- Nor has it taken back a call. -/
theorem Makes.suffix {p : Prog Op Ans ε α} {r : Except ε α} {h h' : List (Call Op Ans W)}
    (hm : p.Makes h r h') : h <:+ h' := by
  induction hm with
  | ret => exact List.suffix_rfl
  | fail => exact List.suffix_rfl
  | call _ ih => exact (List.suffix_cons _ _).trans ih

end Prog

namespace System

section steps

variable {T Op : Type} {Ans : Op → Type} {W ε α : Type} [DecidableEq T]
  {S : System T Op Ans W ε α} {c c' c'' : Cfg T Op Ans W ε α}

theorem Steps.trans (h : S.Steps c c') (h' : S.Steps c' c'') : S.Steps c c'' := by
  induction h' with
  | refl => exact h
  | step _ hs ih => exact ih.step hs

theorem Steps.single {act : Action T Op Ans} (h : S.Step c act c') : S.Steps c c' :=
  Steps.refl.step h

/-- The run up to a call that was made, and the run from there on. -/
theorem Reach.of_hist (h : S.Reach c) {t : T} {newer older : List (Call Op Ans W)}
    {m : Call Op Ans W} (hm : c.hist t = newer ++ m :: older) :
    ∃ c₀ c₁, S.Reach c₀ ∧ S.Step c₀ (.call t m.op m.ans) c₁ ∧ S.Steps c₁ c ∧
      c₀.world = m.before ∧ c₀.hist t = older ∧ c₁.hist t = m :: older := by
  induction h generalizing newer with
  | init hw => exact absurd hm.symm (by simp)
  | @step c act c' hr hs ha ih =>
    -- a step that is not the call leaves it where it is in the history
    have later (hold : ∃ newer', c.hist t = newer' ++ m :: older) :
        ∃ c₀ c₁, S.Reach c₀ ∧ S.Step c₀ (.call t m.op m.ans) c₁ ∧ S.Steps c₁ c' ∧
          c₀.world = m.before ∧ c₀.hist t = older ∧ c₁.hist t = m :: older := by
      obtain ⟨newer', hold⟩ := hold
      obtain ⟨c₀, c₁, hr₀, hs₀, hsteps, hrest⟩ := ih hold
      exact ⟨c₀, c₁, hr₀, hs₀, hsteps.step hs, hrest⟩
    cases hs with
    | @call w' s o k a hth hx =>
      rcases eq_or_ne t s with rfl | hne
      · dsimp only at hm
        rw [Function.update_self] at hm
        cases newer with
        | nil =>
          obtain ⟨rfl, rfl⟩ := List.cons.inj hm
          exact ⟨c, _, hr, .call t hth hx, .refl, rfl, rfl, Function.update_self ..⟩
        | cons n newer => exact later ⟨newer, (List.cons.inj hm).2⟩
      · dsimp only at hm
        rw [Function.update_of_ne hne] at hm
        exact later ⟨newer, hm⟩
    | _ => exact later ⟨newer, hm⟩

end steps

section simulates

variable {T T' Op Op' : Type} {Ans : Op → Type} {Ans' : Op' → Type} {W W' ε ε' α α' : Type}
  [DecidableEq T] [DecidableEq T']

/-- A relation under which `S` can follow every step of `S'`. -/
structure Simulates (S' : System T' Op' Ans' W' ε' α') (S : System T Op Ans W ε α)
    (Rel : Cfg T' Op' Ans' W' ε' α' → Cfg T Op Ans W ε α → Prop) : Prop where
  init : ∀ w', S'.init w' → ∃ w, S.init w ∧
    Rel ⟨w', fun _ => none, fun _ => []⟩ ⟨w, fun _ => none, fun _ => []⟩
  step : ∀ {c₁ c₂ act c}, S'.Reach c₁ → S'.Step c₁ act c₂ → Rel c₁ c →
    ∃ c', S.Steps c c' ∧ Rel c₂ c'

variable {S' : System T' Op' Ans' W' ε' α'} {S : System T Op Ans W ε α}
  {Rel : Cfg T' Op' Ans' W' ε' α' → Cfg T Op Ans W ε α → Prop}

theorem Simulates.steps (hsim : Simulates S' S Rel) {c₁ c₂ : Cfg T' Op' Ans' W' ε' α'}
    {c : Cfg T Op Ans W ε α} (h : S'.Reach c₁) (hs : S'.Steps c₁ c₂) (hc : Rel c₁ c) :
    ∃ c', S.Steps c c' ∧ Rel c₂ c' := by
  induction hs with
  | refl => exact ⟨c, .refl, hc⟩
  | step hs hstep ih =>
    obtain ⟨c', hsteps, hc'⟩ := ih
    obtain ⟨c'', hsteps', hc''⟩ := hsim.step (hs.reach h) hstep hc'
    exact ⟨c'', hsteps.trans hsteps', hc''⟩

/-- What is reachable corresponds to something that is. -/
theorem Simulates.reach (hsim : Simulates S' S Rel) {c₁ : Cfg T' Op' Ans' W' ε' α'}
    (h : S'.Reach c₁) : ∃ c, S.Reach c ∧ Rel c₁ c := by
  induction h with
  | init hw =>
    obtain ⟨w, hinit, hc⟩ := hsim.init _ hw
    exact ⟨_, .init hinit, hc⟩
  | step hr hs _ ih =>
    obtain ⟨c, hreach, hc⟩ := ih
    obtain ⟨c', hsteps, hc'⟩ := hsim.step hr hs hc
    exact ⟨c', hsteps.reach hreach, hc'⟩

end simulates

/-! ## Further threads -/

section beside

variable {T U Op : Type} {Ans : Op → Type} {W ε α : Type} [DecidableEq T] [DecidableEq U]

/-- `S` with further threads. -/
def beside (S : System T Op Ans W ε α) (exec : U → W → (o : Op) → Ans o → W → Prop)
    (boot : U → Prog Op Ans ε α) : System (T ⊕ U) Op Ans W ε α where
  exec := Sum.elim S.exec exec
  env := S.env
  boot := Sum.elim S.boot boot
  crash := S.crash
  init := S.init

end beside

end System

/-- What there is of the first threads. -/
def Cfg.left {T U Op : Type} {Ans : Op → Type} {W ε α : Type} (c : Cfg (T ⊕ U) Op Ans W ε α) :
    Cfg T Op Ans W ε α :=
  ⟨c.world, c.threads ∘ .inl, c.hist ∘ .inl⟩

/-- The same with something else of the first threads. -/
def Cfg.withLeft {T U Op : Type} {Ans : Op → Type} {W ε α : Type} (c : Cfg (T ⊕ U) Op Ans W ε α)
    (c₁ : Cfg T Op Ans W ε α) : Cfg (T ⊕ U) Op Ans W ε α :=
  ⟨c₁.world, Sum.elim c₁.threads (c.threads ∘ .inr), Sum.elim c₁.hist (c.hist ∘ .inr)⟩

namespace System

section beside

variable {T U Op : Type} {Ans : Op → Type} {W ε α : Type} [DecidableEq T] [DecidableEq U]
  {S : System T Op Ans W ε α} {exec : U → W → (o : Op) → Ans o → W → Prop}
  {boot : U → Prog Op Ans ε α}

theorem update_inl {β : Type} (f : T ⊕ U → β) (t : T) (b : β) :
    Function.update f (.inl t) b ∘ Sum.inl = Function.update (f ∘ Sum.inl) t b :=
  Function.update_comp_eq_of_injective f Sum.inl_injective t b

theorem update_inr {β : Type} (f : T ⊕ U → β) (u : U) (b : β) :
    Function.update f (.inr u) b ∘ Sum.inl = f ∘ Sum.inl :=
  Function.update_comp_eq_of_forall_ne f b fun _ => Sum.inl_ne_inr

/-- A further thread performs the operations of its program. -/
theorem beside_performs {Φ : Op → Prop} (hboot : ∀ u, (boot u).Performs Φ)
    {c c' : Cfg (T ⊕ U) Op Ans W ε α} (h : (S.beside exec boot).Reach c) {u : U} {o : Op}
    {a : Ans o} (hs : (S.beside exec boot).Step c (.call (.inr u) o a) c') : Φ o := by
  refine performs (Φ := Sum.elim (fun _ _ => True) fun _ => Φ) ?_ h hs
  rintro (t | u) hist
  · exact Prog.performs_true.obeys (I := fun _ => True)
      (fun _ _ _ _ => ⟨trivial, fun _ _ => trivial⟩) trivial
  · exact ((hboot u).obeys (I := fun _ => True)
      (fun _ _ _ ho => ⟨ho, fun _ _ => trivial⟩) trivial)

/-- **The first threads run as if they were by themselves**, if the further ones do nothing
that the environment could not do. -/
theorem simulates_beside {Φ : Op → Prop} (hboot : ∀ u, (boot u).Performs Φ)
    (hexec : ∀ u w o a w', Φ o → exec u w o a w' → w' = w ∨ S.env w w') :
    Simulates (S.beside exec boot) S fun c₁ c => c = c₁.left where
  init w hw := ⟨w, hw, rfl⟩
  step := by
    rintro c₁ c₂ act _ h hs rfl
    refine ⟨c₂.left, ?_, rfl⟩
    cases hs with
    | env he => exact .single (.env he)
    | start t hidle =>
      unfold Cfg.left
      rcases t with t | u
      · rw [update_inl]
        exact .single (.start t hidle)
      · rw [update_inr]
        exact .refl
    | @call w' t o k a hth hx =>
      rcases t with t | u
      · unfold Cfg.left
        rw [update_inl, update_inl]
        exact .single (.call t hth hx)
      · have ho : Φ o := beside_performs hboot h (Step.call (Sum.inr u) hth hx)
        unfold Cfg.left
        rw [update_inr, update_inr]
        rcases hexec u _ _ _ _ ho hx with rfl | he
        · exact .refl
        · exact .single (.env he)
    | done t hth hp =>
      unfold Cfg.left
      rcases t with t | u
      · rw [update_inl]
        exact .single (.done t hth hp)
      · rw [update_inr]
        exact .refl
    | stop t hc =>
      unfold Cfg.left
      rcases t with t | u
      · rw [update_inl]
        exact .single (.stop t hc)
      · rw [update_inr]
        exact .refl

/-- A step of the first threads is a step beside the others. -/
theorem Step.beside {c : Cfg (T ⊕ U) Op Ans W ε α} {c₁ : Cfg T Op Ans W ε α}
    {act : Action T Op Ans} (hs : S.Step c.left act c₁) :
    ∃ act', (S.beside exec boot).Step c act' (c.withLeft c₁) := by
  have hlr {β : Type} (f : T ⊕ U → β) : Sum.elim (f ∘ .inl) (f ∘ .inr) = f :=
    Sum.elim_comp_inl_inr f
  have hup {β : Type} (f : T ⊕ U → β) (t : T) (b : β) :
      Sum.elim (Function.update (f ∘ .inl) t b) (f ∘ .inr) = Function.update f (.inl t) b := by
    rw [← Sum.update_elim_inl, hlr]
  cases hs with
  | env he =>
    refine ⟨.env, ?_⟩
    unfold Cfg.withLeft Cfg.left
    rw [hlr, hlr]
    exact .env he
  | start t hidle =>
    refine ⟨.start (.inl t), ?_⟩
    unfold Cfg.withLeft Cfg.left
    rw [hup, hlr]
    exact .start (Sum.inl t) hidle
  | @call w' t o k a hth hx =>
    refine ⟨.call (.inl t) o a, ?_⟩
    unfold Cfg.withLeft Cfg.left
    rw [hup, hup]
    exact .call (Sum.inl t) hth hx
  | done t hth hp =>
    refine ⟨.done (.inl t), ?_⟩
    unfold Cfg.withLeft Cfg.left
    rw [hup, hlr]
    exact .done (Sum.inl t) hth hp
  | stop t hc =>
    refine ⟨.stop (.inl t), ?_⟩
    unfold Cfg.withLeft Cfg.left
    rw [hup, hlr]
    exact .stop (Sum.inl t) hc

end beside

end System

end SaltOperator
