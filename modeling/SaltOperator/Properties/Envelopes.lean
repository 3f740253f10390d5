import SaltOperator.Salt.Client

/-!
# When a response of RaaS is a failure

Every method of the client looks at the status of a response and at the `error`
member of its body before it takes anything from it. The methods that return
something decode the body and report what does not decode; `AcceptKey` and
`DeleteKey` return nothing, and their `checkBodyError` takes a body that does not
decode for a success.

**They report a failure whenever the others would exactly when the body of a response
with a good status is an object, and its error is not hidden by the case of the
member's name** (`setKeyState_agrees_iff`).
-/

namespace SaltOperator

namespace HttpResponse

/-- The body is a JSON object. -/
def IsObject (r : HttpResponse) : Prop := ∃ ms, r.json = some (.obj ms)

/-- The member `error` of the body is there and not null, whatever it is. -/
def ReportsError (r : HttpResponse) : Prop :=
  ∃ ms e, r.json = some (.obj ms) ∧ (Json.obj ms).get? "error" = some e ∧ e ≠ .null

/-- The same for a decoder that fills the field of a struct, as `saveJob` and `routeCmd`
do: the name of the member is matched without regard to case. -/
def ReportsTypedError (rt : Runtime) (r : HttpResponse) : Prop :=
  ∃ ms, r.json = some (.obj ms) ∧ objectField (structField rt "error" (.obj ms)) ≠ some none

/-- The envelope of a failure: a bad status, a body that is no object, or an error in
it. -/
def IsFailure (rt : Runtime) (r : HttpResponse) : Prop :=
  r.isSuccess = false ∨ ¬ r.IsObject ∨ r.ReportsError ∨ r.ReportsTypedError rt

end HttpResponse

/-- The method reports an error. -/
def Fails {α : Type} (a : Except String α) : Prop := ∃ e, a = .error e

section envelopes

variable {rt : Runtime} {r : HttpResponse} {what missing : String}

theorem body_of_bad_status (h : r.isSuccess = false) : Fails (Posted.body what (.ok r)) := by
  unfold Posted.body
  dsimp only
  rw [h]
  exact ⟨_, rfl⟩

theorem body_of_success (h : r.isSuccess = true) : Posted.body what (.ok r) = .ok r := by
  unfold Posted.body
  dsimp only
  rw [h]
  rfl

/-- A method fails if it fails with the status. -/
theorem fails_bind {α β : Type} {a : Except String α} {f : α → Except String β} (h : Fails a) :
    Fails (a >>= f) := by
  obtain ⟨e, rfl⟩ := h
  exact ⟨e, rfl⟩

theorem apiError_isSome_iff {m : Json} :
    (apiError m).isSome = true ↔ ∃ e, m.get? "error" = some e ∧ e ≠ .null := by
  unfold apiError
  split
  · rename_i h
    simp [h]
  · rename_i h
    simp [h]
  · rename_i e hne h
    simpa [h] using hne

/-- What the body of a response with a good status is taken for. -/
theorem toMap_cases (r : HttpResponse) :
    (∃ ms, r.json = some (.obj ms) ∧ r.toMap = some (.obj ms)) ∨
      (r.json = some .null ∧ r.toMap = some (.obj [])) ∨
      (r.toMap = none ∧ ¬ r.IsObject) := by
  unfold HttpResponse.toMap HttpResponse.IsObject
  split
  · rename_i ms h
    exact .inl ⟨ms, h, rfl⟩
  · rename_i h
    exact .inr (.inl ⟨h, rfl⟩)
  · rename_i hobj _
    exact .inr (.inr ⟨rfl, fun ⟨ms, hms⟩ => hobj ms hms⟩)

theorem not_fails_ok {α : Type} {a : α} : ¬ Fails (.ok a : Except String α) := by
  rintro ⟨_, h⟩
  cases h

/-- `AcceptKey` and `DeleteKey` fail for a bad status and for an error in the body only. -/
theorem setKeyState_fails_iff :
    Fails (setKeyState what (.ok r)) ↔ r.isSuccess = false ∨ r.ReportsError := by
  cases hs : r.isSuccess with
  | false => exact iff_of_true (fails_bind (body_of_bad_status hs)) (.inl rfl)
  | true =>
    have hcheck : Fails (setKeyState what (.ok r)) ↔ Fails (checkBodyError r) := by
      unfold setKeyState
      rw [body_of_success hs]
      dsimp only [bind, Except.bind]
      cases checkBodyError r with
      | error e => exact iff_of_true ⟨_, rfl⟩ ⟨_, rfl⟩
      | ok u => exact iff_of_false not_fails_ok not_fails_ok
    rw [hcheck]
    have hmap : Fails (checkBodyError r) ↔
        ∃ m, r.toMap = some m ∧ (apiError m).isSome = true := by
      unfold checkBodyError
      cases r.toMap with
      | none =>
        refine iff_of_false not_fails_ok ?_
        rintro ⟨_, h, _⟩
        cases h
      | some m =>
        dsimp only
        cases ha : apiError m with
        | none =>
          refine iff_of_false not_fails_ok ?_
          rintro ⟨_, h, hsome⟩
          cases h
          rw [ha] at hsome
          cases hsome
        | some e => exact iff_of_true ⟨_, rfl⟩ ⟨m, rfl, by rw [ha]; rfl⟩
    rw [hmap]
    constructor
    · rintro ⟨m, hm, hsome⟩
      obtain ⟨e, he, hne⟩ := apiError_isSome_iff.mp hsome
      rcases toMap_cases r with ⟨ms, hjson, htm⟩ | ⟨-, htm⟩ | ⟨htm, -⟩
      · rw [htm] at hm
        cases hm
        exact .inr ⟨ms, e, hjson, he, hne⟩
      · rw [htm] at hm
        cases hm
        cases he
      · rw [htm] at hm
        cases hm
    · rintro (hbad | ⟨ms, e, hjson, he, hne⟩)
      · cases hbad
      · refine ⟨.obj ms, ?_, apiError_isSome_iff.mpr ⟨e, he, hne⟩⟩
        unfold HttpResponse.toMap
        rw [hjson]

/-- An error in the body is one in an object. -/
theorem HttpResponse.ReportsError.isObject (h : r.ReportsError) : r.IsObject := by
  obtain ⟨ms, -, hjson, -⟩ := h
  exact ⟨ms, hjson⟩

/-- `ListPendingKeys` fails for every failure that a decoder into a map can see; a body
that is null decodes into an empty map. -/
theorem listPendingKeys_fails (h : r.isSuccess = false ∨ (¬ r.IsObject ∧ r.json ≠ some .null) ∨
    r.ReportsError) : Fails (listPendingKeys (.ok r)) := by
  cases hs : r.isSuccess with
  | false => exact fails_bind (body_of_bad_status hs)
  | true =>
    have heq : listPendingKeys (.ok r) = extractMinions r := by
      unfold listPendingKeys listKeys
      rw [body_of_success hs]
      rfl
    rw [heq]
    unfold extractMinions
    rcases h with hbad | ⟨hobj, hnull⟩ | ⟨ms, e, hjson, he, hne⟩
    · rw [hs] at hbad
      cases hbad
    · rcases toMap_cases r with ⟨ms, hjson, -⟩ | ⟨hjson, -⟩ | ⟨htm, -⟩
      · exact absurd ⟨ms, hjson⟩ hobj
      · exact absurd hjson hnull
      · rw [htm]
        exact ⟨_, rfl⟩
    · have htm : r.toMap = some (.obj ms) := by
        unfold HttpResponse.toMap
        rw [hjson]
      obtain ⟨text, htext⟩ := Option.isSome_iff_exists.mp
        (apiError_isSome_iff.mpr ⟨e, he, hne⟩)
      rw [htm]
      dsimp only
      rw [htext]
      exact ⟨_, rfl⟩

/-- `saveJob` and `routeCmd` fail for every failure that a decoder into a struct can
see. -/
theorem retString_fails (h : r.isSuccess = false ∨ ¬ r.IsObject ∨ r.ReportsTypedError rt) :
    Fails (retString rt what missing (.ok r)) := by
  cases hs : r.isSuccess with
  | false => exact fails_bind (body_of_bad_status hs)
  | true =>
    unfold retString
    rw [body_of_success hs]
    rcases toMap_cases r with ⟨ms, hjson, htm⟩ | ⟨-, htm⟩ | ⟨htm, -⟩
    · have htyped : objectField (structField rt "error" (.obj ms)) ≠ some none := by
        rcases h with hbad | hobj | ⟨ms', hjson', htyped⟩
        · rw [hs] at hbad
          cases hbad
        · exact absurd ⟨ms, hjson⟩ hobj
        · cases hjson.symm.trans hjson'
          exact htyped
      simp only [htm, bind, Except.bind]
      split
      · rename_i heq
        exact absurd heq htyped
      · exact ⟨_, rfl⟩
      · exact ⟨_, rfl⟩
    · -- nothing is in an empty map, the string that is asked for included
      simp only [htm, bind, Except.bind, structField]
      exact ⟨_, rfl⟩
    · simp only [htm, bind, Except.bind]
      exact ⟨_, rfl⟩

/-- Some other method fails for every envelope of a failure. -/
theorem HttpResponse.IsFailure.rejected (h : r.IsFailure rt) (fn minionID : String) :
    Fails (listPendingKeys (.ok r)) ∨
      (Fails (saveJob rt fn (.ok r)) ∧ Fails (routeCmd rt minionID (.ok r))) := by
  rcases h with hs | hobj | herr | htyped
  · exact .inl (listPendingKeys_fails (.inl hs))
  · exact .inr ⟨retString_fails (.inr (.inl hobj)), retString_fails (.inr (.inl hobj))⟩
  · exact .inl (listPendingKeys_fails (.inr (.inr herr)))
  · exact .inr ⟨retString_fails (.inr (.inr htyped)), retString_fails (.inr (.inr htyped))⟩

end envelopes

/-- **`AcceptKey` and `DeleteKey` fail on the envelope of every failure exactly when the
body of a response with a good status is an object, and what a decoder into a struct
takes for its error is an error for a decoder into a map.** -/
theorem setKeyState_agrees_iff (rt : Runtime) (r : HttpResponse) (minionID : String) :
    (r.IsFailure rt → Fails (acceptKey minionID (.ok r)) ∧ Fails (deleteKey minionID (.ok r))) ↔
      (r.isSuccess = true → r.IsObject ∧ (r.ReportsTypedError rt → r.ReportsError)) := by
  have hfails : Fails (acceptKey minionID (.ok r)) ∧ Fails (deleteKey minionID (.ok r)) ↔
      r.isSuccess = false ∨ r.ReportsError := by
    unfold acceptKey deleteKey
    rw [setKeyState_fails_iff, setKeyState_fails_iff, and_self]
  rw [hfails]
  unfold HttpResponse.IsFailure
  have hobj : r.ReportsError → r.IsObject := HttpResponse.ReportsError.isObject
  cases r.isSuccess with
  | false => simp
  | true =>
    simp only [Bool.true_eq_false, false_or, forall_const]
    tauto

/-- The page of a proxy, with a good status. -/
def proxyPage : HttpResponse := ⟨200, "<html>Service unavailable</html>", none⟩

/-- A proxy answers with a page of its own and status 200: no key was accepted or
deleted, but the two methods report that it was. -/
theorem setKeyState_proxyPage :
    (∃ e, listPendingKeys (.ok proxyPage) = .error e) ∧ acceptKey "web" (.ok proxyPage) = .ok () ∧
      deleteKey "web" (.ok proxyPage) = .ok () :=
  ⟨⟨_, rfl⟩, rfl, rfl⟩

end SaltOperator
