import SaltOperator.Controller.UpdateFilter
import SaltOperator.Cluster.Run

/-!
# The update filter is exact

**Two objects of a VM that the watch takes for the same agree on everything a pass decides
on besides the operator's own annotations, and what `patchAnnotations` makes of a managed VM
is the same as the VM before** (`updateFilter_exact`).

The objects are compared without some conditions and annotations, as nested JSON. Equal
values are equal to every accessor (`Json.deepEqual_get?`), and the conditions that are
dropped are not those that `guestSignalled` and `sinceVSphereCreate` look for.
-/

namespace SaltOperator

/-! ## Deep equality -/

namespace Json

variable {j j' : Json} {k : String}

theorem lookup_reverse_cons (m : String × Json) (rest : List (String × Json)) :
    (m :: rest).reverse.lookup k =
      (rest.reverse.lookup k).or (if k = m.1 then some m.2 else none) := by
  obtain ⟨a, v⟩ := m
  rw [List.reverse_cons, List.lookup_append]
  congr 1
  by_cases h : k = a
  · simp [h]
  · rw [List.lookup_cons, beq_false_of_ne h, if_neg h]
    rfl

theorem lookup_reverse_eq_none {members : List (String × Json)} :
    members.reverse.lookup k = none ↔ k ∉ members.map Prod.fst := by
  rw [List.lookup_eq_none_iff]
  constructor
  · intro h hk
    obtain ⟨m, hm, rfl⟩ := List.mem_map.mp hk
    simpa using h m (List.mem_reverse.mpr hm)
  · intro h m hm
    rw [bne_iff_ne]
    rintro rfl
    exact h (List.mem_map_of_mem (List.mem_reverse.mp hm))

/-- The members that decoding keeps are found in the other object, with equal values. -/
theorem deepEqualMembers_iff {members members' : List (String × Json)} :
    deepEqualMembers members members' = true ↔ ∀ k v, members.reverse.lookup k = some v →
      ∃ v', members'.reverse.lookup k = some v' ∧ deepEqual v v' = true := by
  induction members with
  | nil => simp [deepEqualMembers]
  | cons m rest ih =>
    obtain ⟨a, w⟩ := m
    rw [deepEqualMembers, Bool.and_eq_true, ih]
    constructor
    · rintro ⟨hfirst, hrest⟩ k v hk
      rw [lookup_reverse_cons] at hk
      cases hl : rest.reverse.lookup k with
      | some u =>
        rw [hl] at hk
        cases hk
        exact hrest k _ hl
      | none =>
        rw [hl, Option.none_or] at hk
        obtain ⟨rfl, rfl⟩ : k = a ∧ w = v := by simpa using hk
        rw [List.contains_eq_mem, decide_eq_false (lookup_reverse_eq_none.mp hl),
          Bool.false_or] at hfirst
        cases hl' : members'.reverse.lookup k with
        | none =>
          rw [hl'] at hfirst
          cases hfirst
        | some v' =>
          rw [hl'] at hfirst
          exact ⟨v', rfl, hfirst⟩
    · intro h
      constructor
      · rw [Bool.or_eq_true]
        by_cases ha : a ∈ rest.map Prod.fst
        · exact .inl (by rw [List.contains_eq_mem, decide_eq_true ha])
        · have hl : ((a, w) :: rest).reverse.lookup a = some w := by
            rw [lookup_reverse_cons, lookup_reverse_eq_none.mpr ha]
            simp
          obtain ⟨v', hv', heq⟩ := h a w hl
          rw [hv']
          exact .inr heq
      · intro k v hk
        refine h k v ?_
        rw [lookup_reverse_cons, hk, Option.some_or]

/-- Objects are equal when every accessor finds equal values in them. -/
theorem deepEqual_obj {members members' : List (String × Json)} :
    deepEqual (.obj members) (.obj members') = true ↔
      ∀ k, Option.Rel (fun v v' => deepEqual v v' = true) ((obj members).get? k)
        ((obj members').get? k) := by
  rw [deepEqual, Bool.and_eq_true, deepEqualMembers_iff]
  constructor
  · rintro ⟨hkeys, hvals⟩ k
    show Option.Rel _ (members.reverse.lookup k) (members'.reverse.lookup k)
    cases hl : members.reverse.lookup k with
    | some v =>
      obtain ⟨v', hv', heq⟩ := hvals k v hl
      rw [hv']
      exact .some heq
    | none =>
      have hl' : members'.reverse.lookup k = none := by
        rw [lookup_reverse_eq_none]
        intro hk
        obtain ⟨m, hm, rfl⟩ := List.mem_map.mp hk
        have hin := List.all_eq_true.mp hkeys m hm
        exact lookup_reverse_eq_none.mp hl (by simpa using hin)
      rw [hl']
      exact .none
  · intro h
    constructor
    · rw [List.all_eq_true]
      intro m hm
      by_contra hno
      have hl : members.reverse.lookup m.1 = none :=
        lookup_reverse_eq_none.mpr (by simpa using hno)
      have hrel : Option.Rel _ (members.reverse.lookup m.1) (members'.reverse.lookup m.1) := h m.1
      rw [hl] at hrel
      cases hl' : members'.reverse.lookup m.1 with
      | none => exact lookup_reverse_eq_none.mp hl' (List.mem_map_of_mem hm)
      | some v' =>
        rw [hl'] at hrel
        cases hrel
    · intro k v hk
      have hrel : Option.Rel _ (members.reverse.lookup k) (members'.reverse.lookup k) := h k
      rw [hk] at hrel
      cases hl' : members'.reverse.lookup k with
      | none =>
        rw [hl'] at hrel
        cases hrel
      | some v' =>
        rw [hl'] at hrel
        cases hrel with
        | some heq => exact ⟨v', rfl, heq⟩

mutual

theorem deepEqual_refl : ∀ j : Json, deepEqual j j = true
  | .null => rfl
  | .bool b => by simp [deepEqual]
  | .num q => by simp [deepEqual]
  | .str s => by simp [deepEqual]
  | .arr items => by
    rw [deepEqual]
    exact deepEqualItems_refl items
  | .obj members => by
    rw [deepEqual_obj]
    intro k
    show Option.Rel _ (members.reverse.lookup k) (members.reverse.lookup k)
    cases hl : members.reverse.lookup k with
    | none => exact .none
    | some v =>
      obtain ⟨l₁, l₂, hmem, -⟩ := List.lookup_eq_some_iff.mp hl
      have hin : (k, v) ∈ members.reverse := by
        rw [hmem]
        exact List.mem_append_right _ List.mem_cons_self
      exact .some (deepEqual_refl_members members (k, v) (List.mem_reverse.mp hin))

theorem deepEqualItems_refl : ∀ items : List Json, deepEqualItems items items = true
  | [] => rfl
  | j :: items => by
    rw [deepEqualItems, deepEqual_refl j, deepEqualItems_refl items]
    rfl

theorem deepEqual_refl_members : ∀ members : List (String × Json),
    ∀ m ∈ members, deepEqual m.2 m.2 = true
  | [], _, hm => absurd hm List.not_mem_nil
  | (k, v) :: rest, m, hm => by
    rcases List.mem_cons.mp hm with rfl | hm
    · exact deepEqual_refl v
    · exact deepEqual_refl_members rest m hm

end

/-- Equal values are equal to `m[k]`. -/
theorem deepEqual_get? (h : deepEqual j j' = true) (k : String) :
    Option.Rel (fun v v' => deepEqual v v' = true) (j.get? k) (j'.get? k) := by
  cases j with
  | obj members =>
    cases j' with
    | obj members' => exact deepEqual_obj.mp h k
    | _ => simp [deepEqual] at h
  | _ =>
    cases j' with
    | obj members' => simp [deepEqual] at h
    | _ => exact .none

theorem deepEqual_path? (ks : List String) : ∀ {j j' : Json}, deepEqual j j' = true →
    Option.Rel (fun v v' => deepEqual v v' = true) (j.path? ks) (j'.path? ks) := by
  induction ks with
  | nil => exact fun h => .some h
  | cons k ks ih =>
    intro j j' h
    have hrel := deepEqual_get? h k
    show Option.Rel _ ((j.get? k).bind _) ((j'.get? k).bind _)
    generalize j.get? k = o at hrel ⊢
    generalize j'.get? k = o' at hrel ⊢
    cases hrel with
    | none => exact .none
    | some hv => exact ih hv

theorem deepEqual_str {s : String} (h : deepEqual (.str s) j = true) : j = .str s := by
  cases j with
  | str s' =>
    rw [deepEqual, decide_eq_true_iff] at h
    rw [h]
  | _ => simp [deepEqual] at h

theorem deepEqual_arr {items : List Json} (h : deepEqual (.arr items) j = true) :
    ∃ items', j = .arr items' ∧ deepEqualItems items items' = true := by
  cases j with
  | arr items' =>
    rw [deepEqual] at h
    exact ⟨items', rfl, h⟩
  | _ => simp [deepEqual] at h

theorem forall₂_of_deepEqualItems : ∀ {items items' : List Json},
    deepEqualItems items items' = true →
      List.Forall₂ (fun v v' => deepEqual v v' = true) items items' := by
  intro items
  induction items with
  | nil =>
    intro items' h
    cases items' with
    | nil => exact .nil
    | cons j' items' => simp [deepEqualItems] at h
  | cons j items ih =>
    intro items' h
    cases items' with
    | nil => simp [deepEqualItems] at h
    | cons j' items' =>
      rw [deepEqualItems, Bool.and_eq_true] at h
      exact .cons h.1 (ih h.2)

theorem nestedString_congr (h : deepEqual j j' = true) (ks : List String) :
    j.nestedString ks = j'.nestedString ks := by
  have hrel := deepEqual_path? ks h
  unfold nestedString
  generalize j.path? ks = o at hrel ⊢
  generalize j'.path? ks = o' at hrel ⊢
  cases hrel with
  | none => rfl
  | @some v v' hv =>
    cases v with
    | str s => rw [deepEqual_str hv]
    | _ =>
      cases v' with
      | str s' => simp [deepEqual] at hv
      | _ => rfl

theorem nestedSlice_congr (h : deepEqual j j' = true) (ks : List String) :
    List.Forall₂ (fun v v' => deepEqual v v' = true) (j.nestedSlice ks) (j'.nestedSlice ks) := by
  have hrel := deepEqual_path? ks h
  unfold nestedSlice
  generalize j.path? ks = o at hrel ⊢
  generalize j'.path? ks = o' at hrel ⊢
  cases hrel with
  | none => exact .nil
  | @some v v' hv =>
    cases v with
    | arr items =>
      obtain ⟨items', rfl, hitems⟩ := deepEqual_arr hv
      exact forall₂_of_deepEqualItems hitems
    | _ =>
      cases v' with
      | arr items' => simp [deepEqual] at hv
      | _ => exact .nil

theorem hasString_congr (h : deepEqual j j' = true) (k s : String) :
    j.hasString k s = j'.hasString k s := by
  have hrel := deepEqual_get? h k
  unfold hasString
  generalize j.get? k = o at hrel ⊢
  generalize j'.get? k = o' at hrel ⊢
  cases hrel with
  | none => rfl
  | @some v v' hv =>
    cases v with
    | str t => rw [deepEqual_str hv]
    | _ =>
      cases v' with
      | str t' => simp [deepEqual] at hv
      | _ => rfl

/-! Members other than the one that is removed or set stay. -/

theorem get?_remove_of_ne {a : String} (h : a ≠ k) : (j.remove k).get? a = j.get? a := by
  cases j with
  | obj members =>
    show (members.filter (·.1 ≠ k)).reverse.lookup a = members.reverse.lookup a
    rw [← List.filter_reverse]
    exact lookup_filter (fun _ => by simpa using h) _
  | _ => rfl

theorem get?_remove_self : (j.remove k).get? k = none := by
  cases j with
  | obj members =>
    show (members.filter (·.1 ≠ k)).reverse.lookup k = none
    rw [lookup_reverse_eq_none]
    intro hk
    obtain ⟨m, hm, rfl⟩ := List.mem_map.mp hk
    simpa using List.of_mem_filter hm
  | _ => rfl

theorem get?_set_of_ne {a : String} {v : Json} (h : a ≠ k) : (j.set k v).get? a = j.get? a := by
  cases j with
  | obj members =>
    show (members.filter (·.1 ≠ k) ++ [(k, v)]).reverse.lookup a = members.reverse.lookup a
    rw [List.reverse_append, List.reverse_singleton, List.singleton_append, List.lookup_cons,
      beq_false_of_ne h, ← List.filter_reverse]
    exact lookup_filter (fun _ => by simpa using h) _
  | _ => rfl

theorem get?_set_self {members : List (String × Json)} {v : Json} :
    ((obj members).set k v).get? k = some v := by
  show (members.filter (·.1 ≠ k) ++ [(k, v)]).reverse.lookup k = some v
  rw [List.reverse_append, List.reverse_singleton, List.singleton_append, List.lookup_cons,
    beq_self_eq_true]

/-- A path depends on the member it begins with only. -/
theorem nestedString_of_get? (h : j.get? k = j'.get? k) (ks : List String) :
    j.nestedString (k :: ks) = j'.nestedString (k :: ks) := by
  unfold nestedString path?
  rw [h]

/-- A string member has one value. -/
theorem hasString_ne {s t : String} (hne : s ≠ t) (h : j.hasString k s = true) :
    j.hasString k t = false := by
  unfold hasString at h ⊢
  generalize j.get? k = o at h ⊢
  rcases o with _ | (_ | _ | _ | u | _ | _)
  · cases h
  · cases h
  · cases h
  · cases h
  · obtain rfl := of_decide_eq_true h
    exact decide_eq_false hne
  · cases h
  · cases h

end Json

/-! ## What is left of an object -/

section stripped

variable {status status' : Json}

theorem get?_strippedStatus {k : String} (h : k ≠ "conditions") :
    (strippedStatus status).get? k = status.get? k := by
  unfold strippedStatus
  split
  · exact Json.get?_remove_of_ne h
  · exact Json.get?_set_of_ne h

/-- The conditions of the status that is left are those that are kept, whatever was under
`conditions`. -/
theorem conditions_strippedStatus :
    (strippedStatus status).nestedSlice ["conditions"] = keptConditions status := by
  unfold strippedStatus
  split
  · rename_i hnone
    rw [hnone]
    unfold Json.nestedSlice Json.path?
    rw [Json.get?_remove_self]
    rfl
  · rename_i c cs hkept
    rw [hkept]
    cases status with
    | obj members =>
      unfold Json.nestedSlice Json.path?
      rw [Json.get?_set_self]
      rfl
    | _ => cases hkept

/-- A condition of another type is kept. -/
theorem filter_kept {type : String} (htype : type ≠ vmBackupCondition) {c : Json}
    (h : (c.hasString "type" type && c.hasString "status" "True") = true) :
    (!c.hasString "type" vmBackupCondition) = true := by
  rw [Bool.and_eq_true] at h
  rw [Json.hasString_ne htype h.1]
  rfl

theorem any_conditions {type : String} (htype : type ≠ vmBackupCondition) :
    (status.nestedSlice ["conditions"]).any
        (fun c => c.hasString "type" type && c.hasString "status" "True") =
      (keptConditions status).any
        (fun c => c.hasString "type" type && c.hasString "status" "True") := by
  unfold keptConditions
  rw [List.any_filter, Bool.eq_iff_iff, List.any_eq_true, List.any_eq_true]
  refine exists_congr fun c => and_congr_right fun _ => ?_
  rw [Bool.and_eq_true (!_)]
  exact (and_iff_right_of_imp (filter_kept htype)).symm

theorem find?_conditions {type : String} (htype : type ≠ vmBackupCondition) :
    (status.nestedSlice ["conditions"]).find?
        (fun c => c.hasString "type" type && c.hasString "status" "True") =
      (keptConditions status).find?
        (fun c => c.hasString "type" type && c.hasString "status" "True") := by
  unfold keptConditions
  rw [List.find?_filter]
  congr 1
  funext c
  rw [Bool.eq_iff_iff, decide_eq_true_iff]
  exact (and_iff_right_of_imp (filter_kept htype)).symm

end stripped

theorem getElem?_kept (annotations : StringMap) (k : String) :
    (annotations.filter fun k _ => !isStripped k)[k]? =
      if isStripped k then none else annotations[k]? := by
  rw [Std.ExtTreeMap.getElem?_filter']
  cases isStripped k <;> cases annotations[k]? <;> rfl

/-- Annotations that are not deleted are compared. -/
theorem getElem?_of_stripped {annotations annotations' : StringMap}
    (h : strippedAnnotations annotations = strippedAnnotations annotations') {k : String}
    (hk : isStripped k = false) : annotations[k]? = annotations'[k]? := by
  unfold strippedAnnotations at h
  cases he : annotations.isEmpty with
  | true =>
    cases he' : annotations'.isEmpty with
    | true => rw [Std.ExtTreeMap.isEmpty_iff.mp he, Std.ExtTreeMap.isEmpty_iff.mp he']
    | false =>
      rw [he, he'] at h
      cases h
  | false =>
    cases he' : annotations'.isEmpty with
    | true =>
      rw [he, he'] at h
      cases h
    | false =>
      rw [he, he'] at h
      have hget : (annotations.filter fun k _ => !isStripped k)[k]? =
          (annotations'.filter fun k _ => !isStripped k)[k]? := by
        rw [Option.some.inj h]
      rw [getElem?_kept, getElem?_kept, hk] at hget
      exact hget

theorem isStripped_of_isIntent {k : String} (h : isIntent k = true) : isStripped k = false := by
  unfold isIntent at h
  rw [Bool.and_eq_true, Bool.not_eq_true'] at h
  have hbackup : k ≠ vmBackupVersionAnnotation := by
    rintro rfl
    exact absurd h.1 (by decide)
  have hconversion : k ≠ vmConversionAnnotation := by
    rintro rfl
    exact absurd h.1 (by decide)
  unfold isStripped
  rw [h.2, decide_eq_false hbackup, decide_eq_false hconversion]
  rfl

/-! ## What a pass decides on -/

/-- The objects agree on what the reconciler reads of a VM besides its own annotations. -/
structure SameInputs (rt : Runtime) (old new : VirtualMachine) : Prop where
  managed : old.annotationOf annotationManaged = new.annotationOf annotationManaged
  retryRequest : old.annotationOf annotationRetryRequest = new.annotationOf annotationRetryRequest
  intent : intentSet old.annotations = intentSet new.annotations
  intentHash : computeIntentHash rt old.annotations = computeIntentHash rt new.annotations
  labels : old.labels = new.labels
  finalizers : old.finalizers = new.finalizers
  deletionTimestamp : old.deletionTimestamp = new.deletionTimestamp
  uid : old.uid = new.uid
  phase : old.status.nestedString ["phase"] = new.status.nestedString ["phase"]
  powerState : old.status.nestedString ["powerState"] = new.status.nestedString ["powerState"]
  primaryIP : old.primaryIP = new.primaryIP
  signalled : guestSignalled old = guestSignalled new
  sinceCreate : ∀ now, sinceVSphereCreate rt now old = sinceVSphereCreate rt now new

section inputs

variable {rt : Runtime} {old new : VirtualMachine}

theorem any_congr_of_forall₂ {R : Json → Json → Prop} {p : Json → Bool} {xs ys : List Json}
    (h : List.Forall₂ R xs ys) (hp : ∀ v v', R v v' → p v = p v') : xs.any p = ys.any p := by
  induction h with
  | nil => rfl
  | cons hv _ ih => rw [List.any_cons, List.any_cons, hp _ _ hv, ih]

theorem find?_congr_of_forall₂ {R : Json → Json → Prop} {p : Json → Bool} {xs ys : List Json}
    (h : List.Forall₂ R xs ys) (hp : ∀ v v', R v v' → p v = p v') :
    Option.Rel R (xs.find? p) (ys.find? p) := by
  induction h with
  | nil => exact .none
  | @cons v v' _ _ hv _ ih =>
    rw [List.find?_cons, List.find?_cons, hp _ _ hv]
    cases p v' with
    | true => exact .some hv
    | false => exact ih

/-- Equal statuses hold equal conditions of a type. -/
theorem condition_congr (type : String) {v v' : Json} (h : v.deepEqual v' = true) :
    (v.hasString "type" type && v.hasString "status" "True") =
      (v'.hasString "type" type && v'.hasString "status" "True") := by
  rw [Json.hasString_congr h, Json.hasString_congr h]

theorem guestSignalled_congr (hspec : old.spec.deepEqual new.spec = true)
    (hstatus : (strippedStatus old.status).deepEqual (strippedStatus new.status) = true) :
    guestSignalled old = guestSignalled new := by
  have hconds := Json.nestedSlice_congr hstatus ["conditions"]
  rw [conditions_strippedStatus, conditions_strippedStatus] at hconds
  unfold guestSignalled
  rw [any_conditions (by decide), any_conditions (by decide)]
  rw [any_congr_of_forall₂ (Json.nestedSlice_congr hspec _)
    (fun v v' hv => Json.hasString_congr hv "key" guestSignalKey)]
  rw [any_congr_of_forall₂ hconds fun v v' hv => condition_congr vmConditionReady hv]

theorem sinceVSphereCreate_congr (now : Time)
    (hstatus : (strippedStatus old.status).deepEqual (strippedStatus new.status) = true) :
    sinceVSphereCreate rt now old = sinceVSphereCreate rt now new := by
  have hconds := Json.nestedSlice_congr hstatus ["conditions"]
  rw [conditions_strippedStatus, conditions_strippedStatus] at hconds
  have hfound := find?_congr_of_forall₂ hconds fun v v' hv => condition_congr vmConditionCreated hv
  unfold sinceVSphereCreate
  rw [find?_conditions (by decide), find?_conditions (by decide)]
  generalize List.find? _ (keptConditions old.status) = o at hfound ⊢
  generalize List.find? _ (keptConditions new.status) = o' at hfound ⊢
  cases hfound with
  | none => rfl
  | some hc =>
    show Option.map _ (rt.parseRFC3339 _) = Option.map _ (rt.parseRFC3339 _)
    rw [Json.nestedString_congr hc]

theorem sameInputs_of_ownWritesOnly (h : ownWritesOnly old new = true) : SameInputs rt old new := by
  unfold ownWritesOnly StrippedVM.deepEqual at h
  simp only [Bool.and_eq_true, decide_eq_true_eq] at h
  obtain ⟨⟨⟨⟨⟨⟨⟨⟨-, -⟩, huid⟩, hlabels⟩, hannotations⟩, hfinalizers⟩, hdeletion⟩,
    hspec⟩, hstatus⟩ := h
  have hget : ∀ {k}, isStripped k = false → old.annotations[k]? = new.annotations[k]? :=
    getElem?_of_stripped hannotations
  have hread : ∀ {k}, isStripped k = false → old.annotationOf k = new.annotationOf k :=
    fun hk => VirtualMachine.annotationOf_congr (hget hk)
  have hintent : intentSet old.annotations = intentSet new.annotations := by
    refine Std.ExtTreeMap.ext_getElem? fun k => ?_
    unfold intentSet
    rw [Std.ExtTreeMap.getElem?_filter', Std.ExtTreeMap.getElem?_filter']
    cases hi : isIntent k with
    | false => simp
    | true => rw [hget (isStripped_of_isIntent hi)]
  have hpath : ∀ k ks, k ≠ "conditions" →
      old.status.nestedString (k :: ks) = new.status.nestedString (k :: ks) := by
    intro k ks hk
    calc old.status.nestedString (k :: ks)
      _ = (strippedStatus old.status).nestedString (k :: ks) :=
        (Json.nestedString_of_get? (get?_strippedStatus hk) ks).symm
      _ = (strippedStatus new.status).nestedString (k :: ks) := Json.nestedString_congr hstatus _
      _ = new.status.nestedString (k :: ks) := Json.nestedString_of_get? (get?_strippedStatus hk) ks
  refine ⟨hread (by decide), hread (by decide), hintent, ?_, hlabels, hfinalizers, hdeletion, huid,
    hpath _ _ (by decide), hpath _ _ (by decide), hpath _ _ (by decide),
    guestSignalled_congr hspec hstatus, fun now => sinceVSphereCreate_congr now hstatus⟩
  unfold computeIntentHash intentText
  rw [hintent]

/-- A patch of the operator's own annotations leaves the others. -/
theorem getElem?_patched_of_own {additions : List (String × String)} {k : String}
    (version : Nat) (base cur : VirtualMachine)
    (hown : ∀ e ∈ additions, e.1 ∈ nonIntentAnnotations ∧ e.1 ≠ annotationRetryRequest)
    (hk : isStripped k = false) :
    (VirtualMachine.patched version base (base.withAnnotations additions) cur).annotations[k]? =
      cur.annotations[k]? := by
  have hnone : additions.reverse.lookup k = none := by
    rw [List.lookup_eq_none_iff]
    intro e he
    rw [bne_iff_ne]
    rintro rfl
    obtain ⟨hmem, hne⟩ := hown e (List.mem_reverse.mp he)
    simp [isStripped, hmem, hne] at hk
  refine getElem?_mergeMap_of_eq ?_ _
  show _ = (StringMap.copy base.annotations additions)[k]?
  rw [StringMap.getElem?_copy, hnone, Option.none_or]

theorem isEmpty_eq_false_of_managed {annotations : StringMap}
    (h : annotations[annotationManaged]? = some annotationTrue) : annotations.isEmpty = false := by
  rw [Bool.eq_false_iff]
  intro he
  rw [Std.ExtTreeMap.isEmpty_iff.mp he] at h
  simp at h

theorem ownWritesOnly_patched {additions : List (String × String)} {base cur : VirtualMachine}
    (version : Nat) (hmanaged : cur.annotationOf annotationManaged = annotationTrue)
    (hown : ∀ e ∈ additions, e.1 ∈ nonIntentAnnotations ∧ e.1 ≠ annotationRetryRequest) :
    ownWritesOnly cur (.patched version base (base.withAnnotations additions) cur) = true := by
  have hcur : cur.annotations[annotationManaged]? = some annotationTrue := by
    rw [VirtualMachine.annotationOf_eq_getD] at hmanaged
    cases hget : cur.annotations[annotationManaged]? with
    | none =>
      rw [hget] at hmanaged
      exact absurd hmanaged (by decide)
    | some v =>
      rw [hget] at hmanaged
      exact congrArg some hmanaged
  have hnew : (VirtualMachine.patched version base (base.withAnnotations additions)
      cur).annotations[annotationManaged]? = some annotationTrue := by
    rw [getElem?_patched_of_own version base cur hown (by decide), hcur]
  have hkept : strippedAnnotations cur.annotations = strippedAnnotations
      (VirtualMachine.patched version base (base.withAnnotations additions) cur).annotations := by
    unfold strippedAnnotations
    rw [isEmpty_eq_false_of_managed hcur, isEmpty_eq_false_of_managed hnew]
    refine congrArg some (Std.ExtTreeMap.ext_getElem? fun k => ?_)
    rw [getElem?_kept, getElem?_kept]
    cases hk : isStripped k with
    | true => rfl
    | false => rw [getElem?_patched_of_own version base cur hown hk]
  have hlabels : cur.labels = mergeMap base.labels base.labels cur.labels :=
    Std.ExtTreeMap.ext_getElem? fun k => (getElem?_mergeMap_of_eq rfl _).symm
  unfold ownWritesOnly StrippedVM.deepEqual
  simp only [Bool.and_eq_true, decide_eq_true_eq]
  exact ⟨⟨⟨⟨⟨⟨⟨⟨rfl, rfl⟩, rfl⟩, hlabels⟩, hkept⟩, (mergeWhole_same _ _).symm⟩, rfl⟩,
    Json.deepEqual_refl _⟩, Json.deepEqual_refl _⟩

end inputs

/-- **The update filter is exact**: objects it takes for the same agree on everything a pass
decides on besides the operator's own annotations, and the objects before and after a patch
of these annotations of a managed VM are the same to it. -/
theorem updateFilter_exact (rt : Runtime) :
    (∀ old new, ownWritesOnly old new = true → SameInputs rt old new) ∧
    ∀ (version : Nat) (base cur : VirtualMachine) (additions : List (String × String)),
      cur.annotationOf annotationManaged = annotationTrue →
      (∀ e ∈ additions, e.1 ∈ nonIntentAnnotations ∧ e.1 ≠ annotationRetryRequest) →
      ownWritesOnly cur (.patched version base (base.withAnnotations additions) cur) = true :=
  ⟨fun _ _ => sameInputs_of_ownWritesOnly,
    fun version _ _ _ hmanaged hown => ownWritesOnly_patched version hmanaged hown⟩

/-- The operator records that a VM is ready: no pass starts, and none would see a
difference. -/
theorem updateFilter_exact_ready :
    let cur := Sample.vm "a" "u1"
    let next := VirtualMachine.patched 2 cur
      (cur.withAnnotations [(annotationSaltStatus, saltStatusReady)]) cur
    ownWritesOnly cur next = true ∧ SameInputs Sample.runtime cur next := by
  intro cur next
  have hsame : ownWritesOnly cur next = true := by
    refine (updateFilter_exact Sample.runtime).2 2 cur cur _ (by decide +kernel) fun e he => ?_
    obtain rfl := List.mem_singleton.mp he
    decide
  exact ⟨hsame, (updateFilter_exact Sample.runtime).1 cur next hsame⟩

end SaltOperator
