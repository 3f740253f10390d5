import SaltOperator.Cluster.Contract

/-!
# Calls that say nothing about a pass

Most calls of a pass are reads of the clock and of Secrets, log lines, events and
RaaS calls whose outcome the contract does not mention. They are permitted
at any point and change none of what the contract reads off a history:

- `History.Quietly h h'`: `h'` is `h` after quiet calls only;
- `Prog.Quiet`: a program that makes quiet calls only;
- `Prog.Quiet.obeys_bind`: such a program can be stepped over;
- `Prog.NoFail`: a program without a way to fail.
-/

namespace SaltOperator

namespace History

variable {c : Made} {h : History}

theorem vm?_of_quiet (hc : c.op.quiet = true) : c.vm? = none := by
  obtain ⟨w, o, a⟩ := c
  cases o <;> first | rfl | cases hc

theorem lastVM_of_quiet (hc : c.op.quiet = true) : lastVM (c :: h) = lastVM h := by
  unfold lastVM
  rw [List.findSome?_cons, vm?_of_quiet hc]

theorem served_of_quiet (hc : c.op.quiet = true) : served (c :: h) = served h := by
  unfold served
  rw [List.filterMap_cons, vm?_of_quiet hc]

theorem passInputs_of_quiet (hc : c.op.quiet = true) : passInputs (c :: h) = passInputs h := by
  obtain ⟨w, o, a⟩ := c
  cases o <;> first | rfl | cases hc

/-- The pass takes the config it selects for the VM it has read. -/
theorem passInputs_listConfigs {w : World} {nspace : Option String} {configs : List SaltKeyConfig}
    {vm : VirtualMachine} {cfg : SaltKeyConfig} :
    passInputs (⟨w, .listConfigs nspace, .ok configs⟩ :: h) = some (vm, cfg) ↔
      h.lastVM = some vm ∧ selectConfig configs = some cfg := by
  unfold passInputs
  cases lastVM h with
  | none => simp
  | some m => cases selectConfig configs <;> simp

theorem checkedFree_of_quiet {vm : VirtualMachine} (hc : c.op.quiet = true) :
    CheckedFree vm (c :: h) ↔ CheckedFree vm h := by
  obtain ⟨w, o, a⟩ := c
  cases o <;> first | exact Iff.rfl | cases hc

theorem startPending_of_quiet (hc : c.op.quiet = true) :
    startPending (c :: h) = startPending h := by
  obtain ⟨w, o, a⟩ := c
  cases o with
  | log err message fields =>
    have hm : isStart message = false := by
      simp only [Op.quiet, Bool.and_eq_true, Bool.not_eq_true'] at hc
      exact hc.1
    simp [startPending, hm]
  | _ => first | rfl | cases hc

theorem refreshPending_of_quiet (hc : c.op.quiet = true) :
    refreshPending (c :: h) = refreshPending h := by
  obtain ⟨w, o, a⟩ := c
  cases o with
  | salt conn s => cases s <;> first | rfl | cases hc
  | _ => first | rfl | cases hc

theorem ownKey_of_quiet (hc : c.op.quiet = true) : ownKey (c :: h) = ownKey h := by
  obtain ⟨w, o, a⟩ := c
  cases o with
  | salt conn s => cases s <;> first | rfl | cases hc
  | _ => rfl

theorem stored_of_quiet (hc : c.op.quiet = true) : stored (c :: h) = stored h := by
  obtain ⟨w, o, a⟩ := c
  cases o <;> first | rfl | cases hc

/-- `h'` is `h` after quiet calls. -/
def Quietly (h h' : History) : Prop := ∃ l : History, h' = l ++ h ∧ ∀ c ∈ l, c.op.quiet = true

theorem Quietly.refl (h : History) : Quietly h h := ⟨[], rfl, nofun⟩

theorem Quietly.cons {h' : History} (hq : Quietly h h') (hc : c.op.quiet = true) :
    Quietly h (c :: h') := by
  obtain ⟨l, rfl, hl⟩ := hq
  refine ⟨c :: l, rfl, fun x hx => ?_⟩
  rcases List.mem_cons.mp hx with rfl | hx
  · exact hc
  · exact hl x hx

/-- What a quiet call does not change, quiet calls do not change. -/
theorem Quietly.eq_of_quiet {α : Type} {f : History → α} {h' : History} (hq : Quietly h h')
    (hf : ∀ (c : Made) (h : History), c.op.quiet = true → f (c :: h) = f h) : f h' = f h := by
  obtain ⟨l, rfl, hl⟩ := hq
  induction l with
  | nil => rfl
  | cons c l ih =>
    show f (c :: (l ++ h)) = f h
    rw [hf c _ (hl c List.mem_cons_self)]
    exact ih fun x hx => hl x (List.mem_cons_of_mem _ hx)

variable {h' : History}

theorem Quietly.lastVM (hq : Quietly h h') : h'.lastVM = h.lastVM :=
  hq.eq_of_quiet fun _ _ => lastVM_of_quiet

theorem Quietly.served (hq : Quietly h h') : h'.served = h.served :=
  hq.eq_of_quiet fun _ _ => served_of_quiet

theorem Quietly.passInputs (hq : Quietly h h') : h'.passInputs = h.passInputs :=
  hq.eq_of_quiet fun _ _ => passInputs_of_quiet

theorem Quietly.checkedFree (hq : Quietly h h') {vm : VirtualMachine} :
    h'.CheckedFree vm ↔ h.CheckedFree vm :=
  iff_of_eq (hq.eq_of_quiet fun _ _ hc => propext (checkedFree_of_quiet hc))

theorem Quietly.startPending (hq : Quietly h h') : h'.startPending = h.startPending :=
  hq.eq_of_quiet fun _ _ => startPending_of_quiet

theorem Quietly.refreshPending (hq : Quietly h h') : h'.refreshPending = h.refreshPending :=
  hq.eq_of_quiet fun _ _ => refreshPending_of_quiet

theorem Quietly.ownKey (hq : Quietly h h') : h'.ownKey = h.ownKey :=
  hq.eq_of_quiet fun _ _ => ownKey_of_quiet

theorem Quietly.stored (hq : Quietly h h') : h'.stored = h.stored :=
  hq.eq_of_quiet fun _ _ => stored_of_quiet

theorem Quietly.mem (hq : Quietly h h') (hc : c ∈ h) : c ∈ h' := by
  obtain ⟨l, rfl, -⟩ := hq
  exact List.mem_append_right l hc

theorem ReportedOK.quietly {jid : String} (hr : ReportedOK h jid) (hq : Quietly h h') :
    ReportedOK h' jid := by
  obtain ⟨w, conn, minionID, r, hmem, hok⟩ := hr
  exact ⟨w, conn, minionID, r, hq.mem hmem, hok⟩

end History

theorem permitted_of_quiet {rt : Runtime} {crash : Prop} {k : NamespacedName} {h : History}
    {o : Op} (ho : o.quiet = true) : Permitted rt crash k h o := by
  cases o with
  | salt conn c => cases c <;> first | exact trivial | cases ho
  | log err message fields =>
    simp only [Op.quiet, Bool.and_eq_true, Bool.not_eq_true'] at ho
    intro hs
    rw [ho.1] at hs
    cases hs
  | _ => first | exact trivial | cases ho

namespace Prog

variable {ε ε' α β : Type}

/-- All calls of the program are quiet. -/
def Quiet : Prog Op Op.Ans ε α → Prop
  | .ret _ => True
  | .fail _ => True
  | .call o k => o.quiet = true ∧ ∀ a, (k a).Quiet

theorem Quiet.bind {p : Prog Op Op.Ans ε α} {f : α → Prog Op Op.Ans ε β} (hp : p.Quiet)
    (hf : ∀ a, (f a).Quiet) : (p >>= f).Quiet := by
  induction p with
  | ret a => exact hf a
  | fail e => exact trivial
  | call o k ih => exact ⟨hp.1, fun a => ih a (hp.2 a)⟩

theorem Quiet.attempt {p : Prog Op Op.Ans ε α} (hp : p.Quiet) :
    (p.attempt : Prog Op Op.Ans ε' (Except ε α)).Quiet := by
  induction p with
  | ret a => exact trivial
  | fail e => exact trivial
  | call o k ih => exact ⟨hp.1, fun a => ih a (hp.2 a)⟩

/-- The program never fails. -/
def NoFail : Prog Op Op.Ans ε α → Prop
  | .ret _ => True
  | .fail _ => False
  | .call _ k => ∀ a, (k a).NoFail

theorem NoFail.bind {p : Prog Op Op.Ans ε α} {f : α → Prog Op Op.Ans ε β} (hp : p.NoFail)
    (hf : ∀ a, (f a).NoFail) : (p >>= f).NoFail := by
  induction p with
  | ret a => exact hf a
  | fail e => exact hp.elim
  | call o k ih => exact fun a => ih a (hp a)

theorem quiet_perform {o : Op} (ho : o.quiet = true) :
    (perform o : Prog Op Op.Ans ε (Op.Ans o)).Quiet := ⟨ho, fun _ => trivial⟩

variable {rt : Runtime} {crash : Prop} {k : NamespacedName} {h : History}

theorem Quiet.performs {p : Prog Op Op.Ans ε α} (hp : p.Quiet) :
    p.Performs fun o => o.quiet = true := by
  induction p with
  | ret a => exact trivial
  | fail e => exact trivial
  | call o k ih => exact ⟨hp.1, fun a => ih a (hp.2 a)⟩

/-- A quiet program keeps every contract that permits quiet calls, whatever it is
answered. -/
theorem Quiet.obeys_of {p : Prog Op Op.Ans ε α} {E : History → Made → Prop}
    {Φ : History → Op → Prop} (hp : p.Quiet) (hΦ : ∀ h o, o.quiet = true → Φ h o) :
    p.Obeys E Φ (fun h' _ => h.Quietly h') h :=
  hp.performs.obeys (fun h' o hq ho => ⟨hΦ h' o ho, fun _ _ => hq.cons ho⟩) (.refl h)

/-- It keeps the contract of a worker. -/
theorem Quiet.obeys {p : Prog Op Op.Ans ε α} (hp : p.Quiet) :
    p.Obeys (fun _ => Promised rt) (Permitted rt crash k) (fun h' _ => h.Quietly h') h :=
  hp.obeys_of fun _ _ => permitted_of_quiet

/-- A quiet program can be stepped over. -/
theorem Quiet.obeys_bind {p : Prog Op Op.Ans ε α} {f : α → Prog Op Op.Ans ε β}
    {Ψ : History → Except ε β → Prop} (hp : p.Quiet)
    (hf : ∀ a h', h.Quietly h' → (f a).Obeys (fun _ => Promised rt) (Permitted rt crash k) Ψ h')
    (he : ∀ e h', h.Quietly h' → Ψ h' (.error e)) :
    (p >>= f).Obeys (fun _ => Promised rt) (Permitted rt crash k) Ψ h := by
  refine Obeys.bind (hp.obeys.mono fun h' r hq => ?_)
  cases r with
  | ok a => exact hf a h' hq
  | error e => exact he e h' hq

/-- A quiet program that cannot fail can be stepped over. -/
theorem Quiet.obeys_bind_noFail {p : Prog Op Op.Ans ε α} {f : α → Prog Op Op.Ans ε β}
    {Ψ : History → Except ε β → Prop} (hp : p.Quiet) (hn : p.NoFail)
    (hf : ∀ a h', h.Quietly h' →
      (f a).Obeys (fun _ => Promised rt) (Permitted rt crash k) Ψ h') :
    (p >>= f).Obeys (fun _ => Promised rt) (Permitted rt crash k) Ψ h := by
  suffices H : ∀ h', h.Quietly h' →
      (p >>= f).Obeys (fun _ => Promised rt) (Permitted rt crash k) Ψ h' from H h (.refl h)
  induction p with
  | ret a => exact fun h' hq => hf a h' hq
  | fail e => exact hn.elim
  | call o k ih =>
    intro h' hq
    exact ⟨permitted_of_quiet hp.1, fun w a _ => ih a (hp.2 a) (hn a) _ (hq.cons hp.1)⟩

end Prog

end SaltOperator
