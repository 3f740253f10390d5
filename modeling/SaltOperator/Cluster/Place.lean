import SaltOperator.Cluster.Alone
import SaltOperator.Cluster.Lifecycle

/-!
# Following a retry request, as a machine

Where a chain stands and which request it has followed (`Place`), and the passes that
take it from there to the highstate that follows a request (`Place.Step`), when one job
is lost and everything else succeeds. `Step.closer`: a pass dispatches that highstate or
leaves fewer of them to go (`passesLeft`), unless the chain waits for the lost job
(`Step.eq_of_lost`).
-/

namespace SaltOperator

/-- The annotations that say where a chain stands and which request it has followed. -/
structure Place where
  status : String
  jid : String
  hash : String
  handled : String

namespace Place

/-- What is always true of them. -/
structure Sound (p : Place) : Prop where
  status : KnownStatus p.status
  job : p.status ∈ [saltStatusHighstateDispatched, saltStatusReady] → p.jid ≠ "" ∧ p.hash ≠ ""
  version : p.hash = "" ∨ Go.hasPrefix p.hash intentHashVersion = true

/-- A pass over a VM with a request to follow, or whose chain has just been started again
for one, dispatching the jobs in `dispatched`. -/
inductive Step (request lost : String) (dispatched : String → Prop) : Place → Place → Prop where
  | pinged {p : Place} : p.status = "" →
      Step request lost dispatched p { p with status := saltStatusPinged }
  | refreshed {p : Place} : p.status = saltStatusPinged →
      Step request lost dispatched p { p with status := saltStatusPillarRefreshed }
  | dispatched {p : Place} (jid hash : String) : p.status = saltStatusPillarRefreshed →
      dispatched jid → Go.hasPrefix hash intentHashVersion = true →
      Step request lost dispatched p { p with status := saltStatusHighstateDispatched, jid, hash }
  | succeeded {p : Place} : p.status = saltStatusHighstateDispatched → p.jid ≠ lost →
      Step request lost dispatched p { p with status := saltStatusReady }
  | failed {p : Place} : p.status = saltStatusHighstateDispatched → p.jid ≠ lost →
      Step request lost dispatched p { p with status := saltStatusFailedHighstate }
  | stuck {p : Place} : p.status = saltStatusHighstateDispatched → p.jid = lost →
      Step request lost dispatched p p
  | restarted {p : Place} : Go.hasPrefix p.status failedStatusPrefix = true →
      Step request lost dispatched p { p with status := "", handled := request }
  | reset {p : Place} (hash : String) : Go.hasPrefix p.status failedStatusPrefix = true →
      Go.hasPrefix hash intentHashVersion = true →
      Step request lost dispatched p { p with status := "", hash, handled := request }
  | day2 {p : Place} (jid hash : String) : p.status = saltStatusReady → dispatched jid →
      Go.hasPrefix hash intentHashVersion = true →
      Step request lost dispatched p ⟨saltStatusHighstateDispatched, jid, hash, request⟩

/-- The request is not followed and the chain does not wait for the lost job, or it is
followed and its highstate is to come. -/
def Due (request lost : String) (p : Place) : Prop :=
  p.handled ≠ request ∧ ¬ (p.status = saltStatusHighstateDispatched ∧ p.jid = lost) ∨
  p.handled = request ∧ p.status ∈ ["", saltStatusPinged, saltStatusPillarRefreshed]

/-- The passes to the dispatch of a chain that is before it. -/
def toDispatch (status : String) : ℕ :=
  if status = "" then 3 else if status = saltStatusPinged then 2
  else if status = saltStatusPillarRefreshed then 1 else 0

/-- How far off the highstate is that follows the request. -/
def passesLeft (request : String) (p : Place) : ℕ :=
  if p.handled = request then toDispatch p.status
  else if p.status = saltStatusReady then 0
  else if Go.hasPrefix p.status failedStatusPrefix then 4
  else 5 + toDispatch p.status

variable {request lost : String} {dispatched : String → Prop} {p q : Place}

theorem hash_ne_empty {hash : String} (h : Go.hasPrefix hash intentHashVersion = true) :
    hash ≠ "" := by
  rintro rfl
  cases h

theorem Step.sound (hs : Step request lost dispatched p q) (hp : p.Sound)
    (hjob : ∀ jid, dispatched jid → jid ≠ "") : q.Sound := by
  have hbefore : "" ∉ [saltStatusHighstateDispatched, saltStatusReady] ∧
      saltStatusPinged ∉ [saltStatusHighstateDispatched, saltStatusReady] ∧
      saltStatusPillarRefreshed ∉ [saltStatusHighstateDispatched, saltStatusReady] := by decide
  have hfailed : KnownStatus saltStatusFailedHighstate := by decide
  cases hs with
  | pinged => exact ⟨.inl (by simp), fun hin => absurd hin hbefore.2.1, hp.version⟩
  | refreshed => exact ⟨.inl (by simp), fun hin => absurd hin hbefore.2.2, hp.version⟩
  | dispatched jid hash _ hd hv =>
    exact ⟨.inl (by simp), fun _ => ⟨hjob jid hd, hash_ne_empty hv⟩, .inr hv⟩
  | succeeded hst => exact ⟨.inl (by simp), fun _ => hp.job (by simp [hst]), hp.version⟩
  | failed hst => exact ⟨hfailed, fun _ => hp.job (by simp [hst]), hp.version⟩
  | stuck => exact hp
  | restarted => exact ⟨.inl (by simp), fun hin => absurd hin hbefore.1, hp.version⟩
  | reset hash _ hv => exact ⟨.inl (by simp), fun hin => absurd hin hbefore.1, .inr hv⟩
  | day2 jid hash _ hd hv =>
    exact ⟨.inl (by simp), fun _ => ⟨hjob jid hd, hash_ne_empty hv⟩, .inr hv⟩

theorem passesLeft_handled (h : p.handled = request) :
    passesLeft request p = toDispatch p.status := if_pos h

/-- A chain under way that has not seen the request. -/
theorem passesLeft_inChain (h : p.handled ≠ request) (hst : p.status ∈
    ["", saltStatusPinged, saltStatusPillarRefreshed, saltStatusHighstateDispatched]) :
    passesLeft request p = 5 + toDispatch p.status := by
  have hchain : ∀ s ∈ ["", saltStatusPinged, saltStatusPillarRefreshed,
      saltStatusHighstateDispatched], s ≠ saltStatusReady ∧
        Go.hasPrefix s failedStatusPrefix = false := by decide
  obtain ⟨hready, hfailed⟩ := hchain _ hst
  rw [passesLeft, if_neg h, if_neg hready, if_neg (by simp [hfailed])]

theorem passesLeft_failed (h : p.handled ≠ request)
    (hf : Go.hasPrefix p.status failedStatusPrefix = true) : passesLeft request p = 4 := by
  have hready : p.status ≠ saltStatusReady := by
    intro hst
    rw [hst] at hf
    exact absurd hf (by decide)
  rw [passesLeft, if_neg h, if_neg hready, if_pos hf]

/-- From one place before the dispatch to the next. -/
theorem Due.along (hp : Due request lost p) {status : String}
    (hfrom : p.status ∈ ["", saltStatusPinged, saltStatusPillarRefreshed])
    (hto : status ∈ ["", saltStatusPinged, saltStatusPillarRefreshed])
    (hlt : toDispatch status < toDispatch p.status) :
    Due request lost { p with status } ∧
      passesLeft request { p with status } < passesLeft request p := by
  have hchain : ∀ s ∈ ["", saltStatusPinged, saltStatusPillarRefreshed],
      s ≠ saltStatusHighstateDispatched ∧ s ∈
        ["", saltStatusPinged, saltStatusPillarRefreshed,
          saltStatusHighstateDispatched] := by decide
  rcases hp with ⟨hno, -⟩ | ⟨hyes, -⟩
  · refine ⟨.inl ⟨hno, fun hst => (hchain _ hto).1 hst.1⟩, ?_⟩
    rw [passesLeft_inChain hno (hchain _ hfrom).2,
      passesLeft_inChain (p := { p with status }) hno (hchain _ hto).2]
    exact Nat.add_lt_add_left hlt 5
  · refine ⟨.inr ⟨hyes, hto⟩, ?_⟩
    rwa [passesLeft_handled hyes, passesLeft_handled (p := { p with status }) hyes]

/-- From a failure to the start of a chain that follows the request. -/
theorem Due.again (hp : Due request lost p) (hf : Go.hasPrefix p.status failedStatusPrefix = true)
    (jid hash : String) : Due request lost ⟨"", jid, hash, request⟩ ∧
      passesLeft request ⟨"", jid, hash, request⟩ < passesLeft request p := by
  have hnone : ∀ s ∈ ["", saltStatusPinged, saltStatusPillarRefreshed],
      Go.hasPrefix s failedStatusPrefix = false := by decide
  have hno : p.handled ≠ request := by
    rcases hp with ⟨hno, -⟩ | ⟨-, hbefore⟩
    · exact hno
    · rw [hnone _ hbefore] at hf
      cases hf
  refine ⟨.inr ⟨rfl, by simp⟩, ?_⟩
  rw [passesLeft_failed hno hf]
  exact lt_of_eq_of_lt (passesLeft_handled rfl) (by decide : toDispatch "" < 4)

/-- A step brings a chain closer to the highstate that follows the request, or dispatches
it. -/
theorem Step.closer (hs : Step request lost dispatched p q) (hp : Due request lost p)
    (hjob : ∀ jid, dispatched jid → jid ≠ lost) :
    (q.handled = request ∧ dispatched q.jid) ∨
      (Due request lost q ∧ passesLeft request q < passesLeft request p) := by
  -- a chain that waits for a job has not seen the request
  have hunseen : p.status ∉ ["", saltStatusPinged, saltStatusPillarRefreshed] →
      p.handled ≠ request := fun hst => hp.elim And.left fun hyes => absurd hyes.2 hst
  have hwaits : saltStatusHighstateDispatched ∉
      ["", saltStatusPinged, saltStatusPillarRefreshed] := by decide
  have hfailed : Go.hasPrefix saltStatusFailedHighstate failedStatusPrefix = true := by decide
  cases hs with
  | pinged hst =>
    exact .inr (hp.along (by simp [hst]) (by simp) (by rw [hst]; decide))
  | refreshed hst =>
    exact .inr (hp.along (by simp [hst]) (by simp) (by rw [hst]; decide))
  | dispatched jid hash hst hd hv =>
    by_cases hyes : p.handled = request
    · exact .inl ⟨hyes, hd⟩
    · refine .inr ⟨.inl ⟨hyes, fun hlost => hjob jid hd hlost.2⟩, ?_⟩
      rw [passesLeft_inChain hyes (by simp [hst]), hst]
      exact lt_of_eq_of_lt (passesLeft_inChain hyes (by simp)) (by decide :
        5 + toDispatch saltStatusHighstateDispatched < 5 + toDispatch saltStatusPillarRefreshed)
  | succeeded hst hjid =>
    have hno := hunseen (hst ▸ hwaits)
    refine .inr ⟨.inl ⟨hno, fun hlost => hjid hlost.2⟩, ?_⟩
    rw [passesLeft_inChain hno (by simp [hst])]
    exact lt_of_eq_of_lt ((if_neg hno).trans (if_pos rfl)) (by omega)
  | failed hst hjid =>
    have hno := hunseen (hst ▸ hwaits)
    refine .inr ⟨.inl ⟨hno, fun hlost => hjid hlost.2⟩, ?_⟩
    rw [passesLeft_inChain hno (by simp [hst])]
    exact lt_of_eq_of_lt (passesLeft_failed hno hfailed) (by omega)
  | stuck hst hjid =>
    rcases hp with ⟨-, hno⟩ | ⟨-, hbefore⟩
    · exact absurd ⟨hst, hjid⟩ hno
    · exact absurd (hst ▸ hbefore) hwaits
  | restarted hf => exact .inr (hp.again hf _ _)
  | reset hash hf hv => exact .inr (hp.again hf _ _)
  | day2 jid hash hst hd hv => exact .inl ⟨rfl, hd⟩

/-- A chain that waits for the lost job stays where it is. -/
theorem Step.eq_of_lost (hs : Step request lost dispatched p q)
    (hst : p.status = saltStatusHighstateDispatched) (hjid : p.jid = lost) : q = p := by
  cases hs with
  | pinged h => exact absurd (hst.symm.trans h) (by decide)
  | refreshed h => exact absurd (hst.symm.trans h) (by decide)
  | dispatched _ _ h => exact absurd (hst.symm.trans h) (by decide)
  | succeeded _ hne => exact absurd hjid hne
  | failed _ hne => exact absurd hjid hne
  | stuck => rfl
  | restarted hf => rw [hst] at hf; exact absurd hf (by decide)
  | reset _ hf => rw [hst] at hf; exact absurd hf (by decide)
  | day2 _ _ h => exact absurd (hst.symm.trans h) (by decide)

end Place

def VirtualMachine.place (vm : VirtualMachine) : Place where
  status := vm.annotationOf annotationSaltStatus
  jid := vm.annotationOf annotationHighstateJID
  hash := vm.annotationOf annotationRolesHash
  handled := vm.annotationOf annotationRetryHandled

theorem place_written {m : VirtualMachine} (additions : List (String × String)) (version : Nat) :
    (m.written additions version).place =
      ⟨(additions.reverse.lookup annotationSaltStatus).getD m.place.status,
       (additions.reverse.lookup annotationHighstateJID).getD m.place.jid,
       (additions.reverse.lookup annotationRolesHash).getD m.place.hash,
       (additions.reverse.lookup annotationRetryHandled).getD m.place.handled⟩ := by
  unfold VirtualMachine.place
  simp only [VirtualMachine.annotationOf_written]

end SaltOperator
