import SaltOperator.Lib.Prog

/-!
# Threads, interference and crashes

A `System` answers the operations of programs and says what everybody else may
do to the world in between. Its configurations hold the world, the program each
thread still has to run, and the calls each thread has made; a thread that is
not running may begin its program again, and a run may be cut off after any
call.

- `System.Step`, `System.ReachIf`, `System.Reach`: the interleaving semantics,
  one operation of one thread at a time; `ReachIf` are the runs all of whose
  steps meet a condition.
- `System.Contract`: what it takes for programs that obey their contracts in
  isolation to obey them together: an invariant of the world under which every
  answer is one the programs were promised. `System.ContractIf` is the same for the
  runs whose steps meet a condition.
- `System.Contract.obeys`: **every thread of a reachable configuration still
  obeys its contract**, whatever the others did.
- `System.Contract.invariantIf`: **one pass over the programs serves every
  invariant**. A property holds throughout if the environment and the permitted
  operations preserve it; the programs are not looked at again.
- `System.performs`: programs all of whose operations are of a kind perform none but
  those, in every interleaving.
-/

namespace SaltOperator

variable {T Op : Type} {Ans : Op → Type} {W ε α : Type}

/-- How operations of a thread act on a world, how the world changes by itself,
what each thread runs, and whether a run may be cut off. -/
structure System (T Op : Type) (Ans : Op → Type) (W ε α : Type) where
  exec : T → W → (o : Op) → Ans o → W → Prop
  env : W → W → Prop
  boot : T → Prog Op Ans ε α
  crash : Prop
  init : W → Prop

/-- A world, what each thread still has to run (`none` when idle), and the calls
each thread made, newest first. -/
structure Cfg (T Op : Type) (Ans : Op → Type) (W ε α : Type) where
  world : W
  threads : T → Option (Prog Op Ans ε α)
  hist : T → List (Call Op Ans W)

/-- Who takes a step: the environment, or a thread that begins, performs an
operation and gets an answer, ends, or is cut off. -/
inductive Action (T Op : Type) (Ans : Op → Type) where
  | env
  | start (t : T)
  | call (t : T) (o : Op) (a : Ans o)
  | done (t : T)
  | stop (t : T)

namespace System

variable [DecidableEq T] (S : System T Op Ans W ε α)

inductive Step : Cfg T Op Ans W ε α → Action T Op Ans → Cfg T Op Ans W ε α → Prop where
  | env {c w'} : S.env c.world w' → Step c .env { c with world := w' }
  | start {c} (t : T) : c.threads t = none →
      Step c (.start t) { c with threads := Function.update c.threads t (some (S.boot t)) }
  | call {c w'} (t : T) {o : Op} {k : Ans o → Prog Op Ans ε α} {a : Ans o} :
      c.threads t = some (.call o k) → S.exec t c.world o a w' →
      Step c (.call t o a) ⟨w', Function.update c.threads t (some (k a)),
        Function.update c.hist t (⟨c.world, o, a⟩ :: c.hist t)⟩
  | done {c} (t : T) {p} : c.threads t = some p → p.isDone →
      Step c (.done t) { c with threads := Function.update c.threads t none }
  | stop {c} (t : T) : S.crash →
      Step c (.stop t) { c with threads := Function.update c.threads t none }

/-- The configurations a system gets to, from an initial world with all threads
idle, by steps that meet `allow`. -/
inductive ReachIf (allow : Cfg T Op Ans W ε α → Action T Op Ans → Cfg T Op Ans W ε α → Prop) :
    Cfg T Op Ans W ε α → Prop where
  | init {w} : S.init w → ReachIf allow ⟨w, fun _ => none, fun _ => []⟩
  | step {c act c'} : ReachIf allow c → S.Step c act c' → allow c act c' → ReachIf allow c'

/-- The reachable configurations. -/
def Reach : Cfg T Op Ans W ε α → Prop := S.ReachIf fun _ _ _ => True

/-- Runs from one configuration to another. -/
inductive Steps (c : Cfg T Op Ans W ε α) : Cfg T Op Ans W ε α → Prop where
  | refl : Steps c c
  | step {c' act c''} : Steps c c' → S.Step c' act c'' → Steps c c''

/-- Runs by steps that meet `allow`. -/
inductive StepsIf (allow : Cfg T Op Ans W ε α → Action T Op Ans → Cfg T Op Ans W ε α → Prop)
    (c : Cfg T Op Ans W ε α) : Cfg T Op Ans W ε α → Prop where
  | refl : StepsIf allow c c
  | step {c' act c''} : StepsIf allow c c' → S.Step c' act c'' → allow c' act c'' →
      StepsIf allow c c''

variable {S} {allow : Cfg T Op Ans W ε α → Action T Op Ans → Cfg T Op Ans W ε α → Prop}
  {c c' : Cfg T Op Ans W ε α} {act : Action T Op Ans}

theorem Reach.next (h : S.Reach c) (hs : S.Step c act c') : S.Reach c' := .step h hs trivial

theorem ReachIf.reach (h : S.ReachIf allow c) : S.Reach c := by
  induction h with
  | init hw => exact .init hw
  | step _ hs _ ih => exact ih.next hs

theorem Steps.reach (hs : S.Steps c c') (h : S.Reach c) : S.Reach c' := by
  induction hs with
  | refl => exact h
  | step _ hstep ih => exact ih.next hstep

theorem StepsIf.steps (hs : S.StepsIf allow c c') : S.Steps c c' := by
  induction hs with
  | refl => exact .refl
  | step _ hstep _ ih => exact ih.step hstep

theorem StepsIf.trans {c'' : Cfg T Op Ans W ε α} (hs : S.StepsIf allow c c')
    (hs' : S.StepsIf allow c' c'') : S.StepsIf allow c c'' := by
  induction hs' with
  | refl => exact hs
  | step _ hstep hallow ih => exact ih.step hstep hallow

/-- What the steps preserve holds throughout. -/
theorem StepsIf.also {P : Cfg T Op Ans W ε α → Prop}
    (hP : ∀ c act c', S.Step c act c' → allow c act c' → P c → P c')
    (hs : S.StepsIf allow c c') (hc : P c) :
    S.StepsIf (fun c act c' => P c ∧ allow c act c') c c' ∧ P c' := by
  induction hs with
  | refl => exact ⟨.refl, hc⟩
  | step _ hstep hallow ih =>
    exact ⟨ih.1.step hstep ⟨ih.2, hallow⟩, hP _ _ _ hstep hallow ih.2⟩

/-- **A contract for the time being**: a thread that is idle keeps from then on to what its
program obeys, as long as the steps give it the answers it is promised. -/
theorem StepsIf.obeys {t : T} {E : List (Call Op Ans W) → Call Op Ans W → Prop}
    {Φ : List (Call Op Ans W) → Op → Prop} {Ψ : List (Call Op Ans W) → Except ε α → Prop}
    (hboot : ∀ h, (S.boot t).Obeys E Φ Ψ h)
    (hE : ∀ c o a c', S.Step c (.call t o a) c' → allow c (.call t o a) c' →
      E (c.hist t) ⟨c.world, o, a⟩)
    (hidle : c.threads t = none) (hs : S.StepsIf allow c c') {p : Prog Op Ans ε α}
    (hp : c'.threads t = some p) : p.Obeys E Φ Ψ (c'.hist t) := by
  induction hs generalizing p with
  | refl =>
    rw [hidle] at hp
    cases hp
  | @step c₁ act c₂ _ hstep hallow ih =>
    have hstep' := hstep
    cases hstep with
    | env he => exact ih hp
    | start u hth =>
      rcases eq_or_ne t u with rfl | hne
      · simp only [Function.update_self, Option.some.injEq] at hp
        exact hp ▸ hboot _
      · simp only [Function.update_of_ne hne] at hp
        exact ih hp
    | @call w' u o k a hth hx =>
      rcases eq_or_ne t u with rfl | hne
      · simp only [Function.update_self, Option.some.injEq] at hp ⊢
        exact hp ▸ (ih hth).2 _ _ (hE _ _ _ _ hstep' hallow)
      · simp only [Function.update_of_ne hne] at hp ⊢
        exact ih hp
    | done u hth hd =>
      rcases eq_or_ne t u with rfl | hne
      · simp only [Function.update_self, reduceCtorEq] at hp
      · simp only [Function.update_of_ne hne] at hp
        exact ih hp
    | stop u hc =>
      rcases eq_or_ne t u with rfl | hne
      · simp only [Function.update_self, reduceCtorEq] at hp
      · simp only [Function.update_of_ne hne] at hp
        exact ih hp

/-- A step adds at most one call to those of a thread. -/
theorem Step.hist_suffix (hs : S.Step c act c') (t : T) : c.hist t <:+ c'.hist t := by
  cases hs with
  | call s hth hx =>
    show c.hist t <:+ Function.update c.hist s _ t
    rcases eq_or_ne t s with rfl | hne
    · rw [Function.update_self]
      exact List.suffix_cons _ _
    · rw [Function.update_of_ne hne]
  | _ => exact List.suffix_refl _

/-- The calls a thread has made stay made. -/
theorem Steps.hist_suffix (hs : S.Steps c c') (t : T) : c.hist t <:+ c'.hist t := by
  induction hs with
  | refl => exact List.suffix_refl _
  | step _ hstep ih => exact ih.trans (hstep.hist_suffix t)

/-- A call of a thread was made before, or is the step. -/
theorem Step.mem_hist (hs : S.Step c act c') {t : T} {m : Call Op Ans W} (hm : m ∈ c'.hist t) :
    m ∈ c.hist t ∨ (act = .call t m.op m.ans ∧ c.world = m.before) := by
  cases hs with
  | call s hth hx =>
    rcases eq_or_ne t s with rfl | hne
    · simp only [Function.update_self] at hm
      rcases List.mem_cons.mp hm with rfl | hm
      · exact .inr ⟨rfl, rfl⟩
      · exact .inl hm
    · simp only [Function.update_of_ne hne] at hm
      exact .inl hm
  | _ => exact .inl hm

/-- Every call of a thread was a step of the run. -/
theorem ReachIf.of_mem_hist (h : S.ReachIf allow c) {t : T} {m : Call Op Ans W}
    (hm : m ∈ c.hist t) : ∃ c₀ c₁, S.ReachIf allow c₀ ∧ S.Step c₀ (.call t m.op m.ans) c₁ ∧
      allow c₀ (.call t m.op m.ans) c₁ ∧ c₀.world = m.before ∧ c₀.hist t <:+ c.hist t := by
  induction h with
  | init hw => cases hm
  | @step c act c' hr hs ha ih =>
    rcases hs.mem_hist hm with hm | ⟨rfl, hw⟩
    · obtain ⟨c₀, c₁, hr₀, hs₀, ha₀, hw, hsuf⟩ := ih hm
      exact ⟨c₀, c₁, hr₀, hs₀, ha₀, hw, hsuf.trans (hs.hist_suffix t)⟩
    · exact ⟨c, c', hr, hs, ha, hw, hs.hist_suffix t⟩

/-- A proof that the threads of a system keep their contracts in the runs whose steps
meet `allow`: thread `t` gets answers within `E t`, performs operations permitted by
`Φ t`, ends in `Ψ t`, and begins in `J t`. -/
structure ContractIf (S : System T Op Ans W ε α)
    (allow : Cfg T Op Ans W ε α → Action T Op Ans → Cfg T Op Ans W ε α → Prop)
    (I : W → (T → List (Call Op Ans W)) → Prop)
    (E : T → List (Call Op Ans W) → Call Op Ans W → Prop)
    (Φ : T → List (Call Op Ans W) → Op → Prop)
    (Ψ : T → List (Call Op Ans W) → Except ε α → Prop)
    (J : T → List (Call Op Ans W) → Prop) : Prop where
  init : ∀ w, S.init w → I w (fun _ => []) ∧ ∀ t, J t []
  env : ∀ c w', S.env c.world w' → allow c .env { c with world := w' } →
    I c.world c.hist → I w' c.hist
  call : ∀ c t o a w' c', I c.world c.hist → Φ t (c.hist t) o → S.exec t c.world o a w' →
    allow c (.call t o a) c' →
    E t (c.hist t) ⟨c.world, o, a⟩ ∧ I w' (Function.update c.hist t (⟨c.world, o, a⟩ :: c.hist t))
  boot : ∀ t h, J t h → (S.boot t).Obeys (E t) (Φ t) (Ψ t) h
  done : ∀ t h r, Ψ t h r → J t h
  crash : S.crash → ∀ t h, J t h

/-- The same for all runs. -/
structure Contract (S : System T Op Ans W ε α) (I : W → (T → List (Call Op Ans W)) → Prop)
    (E : T → List (Call Op Ans W) → Call Op Ans W → Prop)
    (Φ : T → List (Call Op Ans W) → Op → Prop)
    (Ψ : T → List (Call Op Ans W) → Except ε α → Prop)
    (J : T → List (Call Op Ans W) → Prop) : Prop where
  init : ∀ w, S.init w → I w (fun _ => []) ∧ ∀ t, J t []
  env : ∀ w w' H, S.env w w' → I w H → I w' H
  call : ∀ t w o a w' H, I w H → Φ t (H t) o → S.exec t w o a w' →
    E t (H t) ⟨w, o, a⟩ ∧ I w' (Function.update H t (⟨w, o, a⟩ :: H t))
  boot : ∀ t h, J t h → (S.boot t).Obeys (E t) (Φ t) (Ψ t) h
  done : ∀ t h r, Ψ t h r → J t h
  crash : S.crash → ∀ t h, J t h

section contract

variable {I : W → (T → List (Call Op Ans W)) → Prop}
  {E : T → List (Call Op Ans W) → Call Op Ans W → Prop}
  {Φ : T → List (Call Op Ans W) → Op → Prop}
  {Ψ : T → List (Call Op Ans W) → Except ε α → Prop}
  {J : T → List (Call Op Ans W) → Prop}

/-- What holds of a thread that has made the calls `h`. -/
def Keeps (E : List (Call Op Ans W) → Call Op Ans W → Prop)
    (Φ : List (Call Op Ans W) → Op → Prop) (Ψ : List (Call Op Ans W) → Except ε α → Prop)
    (J : List (Call Op Ans W) → Prop) (h : List (Call Op Ans W)) :
    Option (Prog Op Ans ε α) → Prop
  | none => J h
  | some p => p.Obeys E Φ Ψ h

namespace ContractIf

/-- The invariant holds and every thread keeps its contract. -/
theorem keeps (C : S.ContractIf allow I E Φ Ψ J) (h : S.ReachIf allow c) :
    I c.world c.hist ∧ ∀ t, Keeps (E t) (Φ t) (Ψ t) (J t) (c.hist t) (c.threads t) := by
  -- one thread's program or history changes at a time, the others keep theirs
  have idle : ∀ {c : Cfg T Op Ans W ε α} (t : T) (p : Option (Prog Op Ans ε α)),
      (∀ s, Keeps (E s) (Φ s) (Ψ s) (J s) (c.hist s) (c.threads s)) →
      Keeps (E t) (Φ t) (Ψ t) (J t) (c.hist t) p →
      ∀ s, Keeps (E s) (Φ s) (Ψ s) (J s) (c.hist s) (Function.update c.threads t p s) := by
    intro c t p ih hp s
    rcases eq_or_ne s t with rfl | hs
    · rwa [Function.update_self]
    · rw [Function.update_of_ne hs]
      exact ih s
  induction h with
  | init hw => exact C.init _ hw
  | @step c act c' _ hs ha ih =>
    obtain ⟨hI, hk⟩ := ih
    cases hs with
    | env he => exact ⟨C.env c _ he ha hI, hk⟩
    | start t hidle =>
      have hJ := hk t
      rw [hidle] at hJ
      exact ⟨hI, idle t _ hk (C.boot t _ hJ)⟩
    | @call w' t o k a hth hx =>
      have hp := hk t
      rw [hth] at hp
      obtain ⟨hE, hI'⟩ := C.call c t o a w' _ hI hp.1 hx ha
      refine ⟨hI', fun s => ?_⟩
      rcases eq_or_ne s t with rfl | hs
      · simp only [Function.update_self]
        exact hp.2 _ _ hE
      · simp only [Function.update_of_ne hs]
        exact hk s
    | @done t p hth hp =>
      have hob := hk t
      rw [hth] at hob
      refine ⟨hI, idle t _ hk ?_⟩
      cases p with
      | ret a => exact C.done t _ _ hob
      | fail e => exact C.done t _ _ hob
      | call o k => cases hp
    | stop t hc => exact ⟨hI, idle t _ hk (C.crash hc t _)⟩

/-- Every operation a thread is about to perform is permitted. -/
theorem permitted (C : S.ContractIf allow I E Φ Ψ J) (h : S.ReachIf allow c) {t : T} {o : Op}
    {k : Ans o → Prog Op Ans ε α} (hth : c.threads t = some (.call o k)) :
    Φ t (c.hist t) o := by
  have hk := (C.keeps h).2 t
  rw [hth] at hk
  exact hk.1

end ContractIf

namespace Contract

/-- A contract about all runs is one about those whose steps meet a condition. -/
theorem toIf (C : S.Contract I E Φ Ψ J) : S.ContractIf allow I E Φ Ψ J where
  init := C.init
  env c w' he _ := C.env c.world w' c.hist he
  call c t o a w' _ hI hp hx _ := C.call t c.world o a w' c.hist hI hp hx
  boot := C.boot
  done := C.done
  crash := C.crash

/-- The invariant holds and every thread keeps its contract. -/
theorem keeps (C : S.Contract I E Φ Ψ J) (h : S.Reach c) :
    I c.world c.hist ∧ ∀ t, Keeps (E t) (Φ t) (Ψ t) (J t) (c.hist t) (c.threads t) :=
  C.toIf.keeps h

/-- Every thread of a reachable configuration obeys its contract from there on. -/
theorem obeys (C : S.Contract I E Φ Ψ J) (h : S.Reach c) {t : T} {p : Prog Op Ans ε α}
    (hth : c.threads t = some p) : p.Obeys (E t) (Φ t) (Ψ t) (c.hist t) := by
  have hk := (C.keeps h).2 t
  rwa [hth] at hk

/-- Every operation a thread is about to perform is permitted. -/
theorem permitted (C : S.Contract I E Φ Ψ J) (h : S.Reach c) {t : T} {o : Op}
    {k : Ans o → Prog Op Ans ε α} (hth : c.threads t = some (.call o k)) :
    Φ t (c.hist t) o := C.toIf.permitted h hth

/-- More can be said about the operations, and about an idle thread, under the same
promises. -/
theorem refine (C : S.Contract I E Φ Ψ J) {Φ' : T → List (Call Op Ans W) → Op → Prop}
    {Ψ' : T → List (Call Op Ans W) → Except ε α → Prop} {J' : T → List (Call Op Ans W) → Prop}
    (hinit : ∀ t, J' t [])
    (hboot : ∀ t h, J t h → J' t h → (S.boot t).Obeys (E t) (Φ' t) (Ψ' t) h)
    (hdone : ∀ t h r, Ψ' t h r → J' t h) (hcrash : S.crash → ∀ t h, J' t h) :
    S.Contract I E (fun t h o => Φ t h o ∧ Φ' t h o) (fun t h r => Ψ t h r ∧ Ψ' t h r)
      (fun t h => J t h ∧ J' t h) where
  init w hw := ⟨(C.init w hw).1, fun t => ⟨(C.init w hw).2 t, hinit t⟩⟩
  env := C.env
  call t w o a w' H hI hp hx := C.call t w o a w' H hI hp.1 hx
  boot t h hJ := (C.boot t h hJ.1).and (hboot t h hJ.1 hJ.2)
  done t h r hr := ⟨C.done t h r hr.1, hdone t h r hr.2⟩
  crash hc t h := ⟨C.crash hc t h, hcrash hc t h⟩

/-- A property of the world and the calls made holds after a run if it holds at
the start and the steps of the run preserve it, an operation being a permitted
one. -/
theorem invariantIf (C : S.Contract I E Φ Ψ J)
    {K : W → (T → List (Call Op Ans W)) → Prop}
    (hinit : ∀ w, S.init w → K w fun _ => [])
    (henv : ∀ c w', S.Reach c → S.env c.world w' → allow c .env { c with world := w' } →
      I c.world c.hist → K c.world c.hist → K w' c.hist)
    (hcall : ∀ c t o a w' k, S.Reach c → c.threads t = some (.call o k) →
      S.exec t c.world o a w' →
      allow c (.call t o a) ⟨w', Function.update c.threads t (some (k a)),
        Function.update c.hist t (⟨c.world, o, a⟩ :: c.hist t)⟩ →
      I c.world c.hist → Φ t (c.hist t) o → K c.world c.hist →
      K w' (Function.update c.hist t (⟨c.world, o, a⟩ :: c.hist t)))
    (h : S.ReachIf allow c) : K c.world c.hist := by
  induction h with
  | init hw => exact hinit _ hw
  | @step c act _ hr hs ha ih =>
    have hI := (C.keeps hr.reach).1
    cases hs with
    | env he => exact henv c _ hr.reach he ha hI ih
    | start => exact ih
    | call t hth hx =>
      exact hcall c t _ _ _ _ hr.reach hth hx ha hI (C.permitted hr.reach hth) ih
    | done => exact ih
    | stop => exact ih

end Contract

end contract

/-- Operations that are permitted at any point, whatever was answered before. -/
theorem contract_performs {Φ : T → Op → Prop}
    (hboot : ∀ t (h : List (Call Op Ans W)),
      (S.boot t).Obeys (fun _ _ => True) (fun _ => Φ t) (fun _ _ => True) h) :
    S.Contract (fun _ _ => True) (fun _ _ _ => True) (fun t _ => Φ t) (fun _ _ _ => True)
      (fun _ _ => True) where
  init _ _ := ⟨trivial, fun _ => trivial⟩
  env _ _ _ _ _ := trivial
  call _ _ _ _ _ _ _ _ _ := ⟨trivial, trivial⟩
  boot t h _ := hboot t h
  done _ _ _ _ := trivial
  crash _ _ _ := trivial

/-- A thread performs operations of its program only. -/
theorem performs {Φ : T → Op → Prop}
    (hboot : ∀ t (h : List (Call Op Ans W)),
      (S.boot t).Obeys (fun _ _ => True) (fun _ => Φ t) (fun _ _ => True) h)
    (h : S.Reach c) {t : T} {o : Op} {a : Ans o} (hs : S.Step c (.call t o a) c') : Φ t o := by
  cases hs with
  | call t hth hx => exact (contract_performs hboot).permitted h hth

end System

end SaltOperator
