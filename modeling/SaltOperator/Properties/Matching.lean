import SaltOperator.Cluster.Run

/-!
# Which pending key a VM gets

The strategies of `FindMinionID` and their order are documented: `name`, `ip`,
`shifted-ip`, `prefix`. `Relates` says when a strategy relates a key to a VM, and
`Prioritised` that a result is the one the order asks for.

**`FindMinionID` keeps the order unless a key that is the shifted address comes
before the key that is the address, and its choice of a strategy depends on the
order of the keys exactly when both are there** (`findMinionID_prioritised_iff`):
one loop tries the two strategies on each key.
-/

namespace SaltOperator

/-- The strategy relates the key to the VM. -/
def Relates (rt : Runtime) (vmName vmIP : String) : MatchMethod → String → Prop
  | .name, key => rt.equalFold key vmName = true
  | .ip, key => vmIP ≠ "" ∧ key = vmIP
  | .shiftedIP, key => shiftFirstOctet vmIP ≠ "" ∧ key = shiftFirstOctet vmIP
  | .byPrefix, key => Go.hasPrefix (rt.toLower key) (rt.toLower vmName ++ ".") = true
  | .none, _ => False

/-- The strategy relates one of the keys to the VM. -/
def Applies (rt : Runtime) (vmName vmIP : String) (pending : List String)
    (s : MatchMethod) : Prop :=
  ∃ key ∈ pending, Relates rt vmName vmIP s key

/-- The place of a strategy in the documented order. -/
def MatchMethod.rank : MatchMethod → Nat
  | .name => 0
  | .ip => 1
  | .shiftedIP => 2
  | .byPrefix => 3
  | .none => 4

/-- The result is a pending key, by the first strategy of the order that applies. -/
structure Prioritised (rt : Runtime) (vmName vmIP : String) (pending : List String)
    (r : MatchResult) : Prop where
  none_iff : r.method = .none ↔ ∀ s, ¬ Applies rt vmName vmIP pending s
  related : r.method ≠ .none → r.minionID ∈ pending ∧ Relates rt vmName vmIP r.method r.minionID
  first : ∀ s, Applies rt vmName vmIP pending s → r.method.rank ≤ s.rank

/-- The shifted address comes before the address, and no key is the name of the VM. -/
def Overtaken (rt : Runtime) (vmName vmIP : String) (pending : List String) : Prop :=
  ¬ Applies rt vmName vmIP pending .name ∧ vmIP ∈ pending ∧ shiftFirstOctet vmIP ≠ "" ∧
    shiftFirstOctet vmIP ∈ pending.takeWhile (· ≠ vmIP)

/-- The address and another shifted address are there, and no key is the name of the VM. -/
def Ambiguous (rt : Runtime) (vmName vmIP : String) (pending : List String) : Prop :=
  ¬ Applies rt vmName vmIP pending .name ∧ Applies rt vmName vmIP pending .ip ∧
    Applies rt vmName vmIP pending .shiftedIP ∧ shiftFirstOctet vmIP ≠ vmIP

section loops

variable {rt : Runtime} {vmName vmIP : String} {pending : List String}

theorem shiftFirstOctet_empty : shiftFirstOctet "" = "" := by decide

theorem ne_empty_of_shifted (h : shiftFirstOctet vmIP ≠ "") : vmIP ≠ "" := by
  rintro rfl
  exact h shiftFirstOctet_empty

/-- The second loop stops at the shifted address if that comes before the address. -/
theorem findSome?_matchIP {ip shifted : String} (h : shifted ≠ "" → ip ≠ "") :
    pending.findSome? (matchIP ip shifted) =
      if shifted ≠ "" ∧ shifted ∈ pending.takeWhile (· ≠ ip) then some ⟨shifted, .shiftedIP⟩
      else if ip ≠ "" ∧ ip ∈ pending then some ⟨ip, .ip⟩
      else none := by
  induction pending with
  | nil => simp
  | cons key rest ih =>
    rw [List.findSome?_cons]
    by_cases hip : ip ≠ "" ∧ key = ip
    · -- the loop ends here, whatever comes later
      obtain ⟨hne, rfl⟩ := hip
      simp [matchIP, hne]
    · by_cases hsh : shifted ≠ "" ∧ key = shifted
      · obtain ⟨hne, rfl⟩ := hsh
        have hother : key ≠ ip := fun heq => hip ⟨h hne, heq⟩
        simp [matchIP, hne, hother]
      · have hnone : matchIP ip shifted key = none := by
          unfold matchIP
          rw [if_neg hip, if_neg hsh]
        rw [hnone, ih]
        by_cases hempty : ip = ""
        · have hsh' : shifted = "" := by
            by_contra hne
            exact h hne hempty
          simp [hempty, hsh']
        · have hother : key ≠ ip := fun heq => hip ⟨hempty, heq⟩
          have hshifted : ∀ l : List String, (shifted ≠ "" ∧ shifted ∈ key :: l) ↔
              (shifted ≠ "" ∧ shifted ∈ l) := by
            intro l
            rw [List.mem_cons]
            refine and_congr_right fun hne => or_iff_right fun heq => hsh ⟨hne, heq.symm⟩
          have hmem : (ip ∈ key :: rest) ↔ ip ∈ rest := by
            rw [List.mem_cons, or_iff_right hother.symm]
          rw [List.takeWhile_cons_of_pos (by simpa using hother)]
          simp only [hshifted, hmem]

/-- What `FindMinionID` returns when no key is the name of the VM. -/
theorem findMinionID_of_not_name (hname : vmName ≠ "")
    (h : ¬ Applies rt vmName vmIP pending .name) :
    findMinionID rt vmName vmIP pending =
      if shiftFirstOctet vmIP ≠ "" ∧ shiftFirstOctet vmIP ∈ pending.takeWhile (· ≠ vmIP) then
        ⟨shiftFirstOctet vmIP, .shiftedIP⟩
      else if vmIP ≠ "" ∧ vmIP ∈ pending then ⟨vmIP, .ip⟩
      else match pending.find? fun key =>
          Go.hasPrefix (rt.toLower key) (rt.toLower vmName ++ ".") with
        | some key => ⟨key, .byPrefix⟩
        | none => { method := .none } := by
  have hnone : (pending.find? fun key => rt.equalFold key vmName) = none := by
    rw [List.find?_eq_none]
    exact fun key hkey hfold => h ⟨key, hkey, hfold⟩
  unfold findMinionID
  simp only [hnone]
  rw [findSome?_matchIP ne_empty_of_shifted]
  by_cases hsh : shiftFirstOctet vmIP ≠ "" ∧ shiftFirstOctet vmIP ∈ pending.takeWhile (· ≠ vmIP)
  · rw [if_pos hsh, if_pos hsh]
  · rw [if_neg hsh, if_neg hsh]
    by_cases hip : vmIP ≠ "" ∧ vmIP ∈ pending
    · rw [if_pos hip, if_pos hip]
    · rw [if_neg hip, if_neg hip]
      have hpred : (fun key => decide (vmName ≠ "") &&
          Go.hasPrefix (rt.toLower key) (rt.toLower vmName ++ ".")) =
          fun key => Go.hasPrefix (rt.toLower key) (rt.toLower vmName ++ ".") := by
        simp only [hname, ne_eq, not_false_eq_true, decide_true, Bool.true_and]
      exact hpred ▸ rfl

theorem findMinionID_of_name (h : Applies rt vmName vmIP pending .name) :
    ∃ key ∈ pending, Relates rt vmName vmIP .name key ∧
      findMinionID rt vmName vmIP pending = ⟨key, .name⟩ := by
  obtain ⟨key, hkey, hfold⟩ := h
  obtain ⟨found, hfound⟩ :
    ∃ found, (pending.find? fun key => rt.equalFold key vmName) = some found :=
    Option.isSome_iff_exists.mp (List.find?_isSome.mpr ⟨key, hkey, hfold⟩)
  have hrel : rt.equalFold found vmName = true := by simpa using List.find?_some hfound
  refine ⟨found, List.mem_of_find?_eq_some hfound, hrel, ?_⟩
  unfold findMinionID
  simp only [hfound]

/-- A key found by a strategy that no other comes before. -/
theorem prioritised_of_found {key : String} {s : MatchMethod}
    (hs : s ≠ .none) (hkey : key ∈ pending)
    (hrel : Relates rt vmName vmIP s key)
    (hfirst : ∀ s', s'.rank < s.rank → ¬ Applies rt vmName vmIP pending s') :
    Prioritised rt vmName vmIP pending ⟨key, s⟩ := by
  refine ⟨iff_of_false hs fun hno => hno s ⟨key, hkey, hrel⟩,
    fun _ => ⟨hkey, hrel⟩, fun s' ha => ?_⟩
  by_contra hlt
  exact hfirst s' (not_le.mp hlt) ha

theorem applies_ip_iff : Applies rt vmName vmIP pending .ip ↔ vmIP ≠ "" ∧ vmIP ∈ pending := by
  constructor
  · rintro ⟨_, hkey, hne, rfl⟩
    exact ⟨hne, hkey⟩
  · rintro ⟨hne, hkey⟩
    exact ⟨vmIP, hkey, hne, rfl⟩

theorem applies_shiftedIP_iff : Applies rt vmName vmIP pending .shiftedIP ↔
    shiftFirstOctet vmIP ≠ "" ∧ shiftFirstOctet vmIP ∈ pending := by
  constructor
  · rintro ⟨_, hkey, hne, rfl⟩
    exact ⟨hne, hkey⟩
  · rintro ⟨hne, hkey⟩
    exact ⟨_, hkey, hne, rfl⟩

/-- A key before the address is overlooked only if the address is there. -/
theorem mem_takeWhile_of_not_mem {x : String} (h : vmIP ∉ pending) :
    x ∈ pending.takeWhile (· ≠ vmIP) ↔ x ∈ pending := by
  have hall : pending.takeWhile (· ≠ vmIP) = pending := by
    rw [List.takeWhile_eq_self_iff]
    intro key hkey
    simp only [decide_not, Bool.not_eq_eq_eq_not, Bool.not_true, decide_eq_false_iff_not]
    rintro rfl
    exact h hkey
  rw [hall]

/-- The order is kept exactly when the shifted address does not come first. -/
theorem findMinionID_prioritised (hname : vmName ≠ "") :
    Prioritised rt vmName vmIP pending (findMinionID rt vmName vmIP pending) ↔
      ¬ Overtaken rt vmName vmIP pending := by
  by_cases happ : Applies rt vmName vmIP pending .name
  · obtain ⟨key, hkey, hrel, heq⟩ := findMinionID_of_name happ
    rw [heq]
    refine iff_of_true (prioritised_of_found nofun hkey hrel fun s hs => ?_) fun ho => ho.1 happ
    exact absurd hs (Nat.not_lt_zero _)
  · rw [findMinionID_of_not_name hname happ]
    split
    · rename_i hsh
      have hmem := (List.takeWhile_subset _ hsh.2)
      by_cases hip : vmIP ∈ pending
      · -- the address is there, so its strategy should have been used
        refine iff_of_false (fun hp => ?_) (not_not.mpr ⟨happ, hip, hsh⟩)
        have hle : MatchMethod.shiftedIP.rank ≤ MatchMethod.ip.rank :=
          hp.first .ip (applies_ip_iff.mpr ⟨ne_empty_of_shifted hsh.1, hip⟩)
        exact absurd hle (by decide)
      · refine iff_of_true (prioritised_of_found nofun hmem ⟨hsh.1, rfl⟩ fun s hs => ?_)
          fun ho => hip ho.2.1
        cases s with
        | name => exact happ
        | ip => exact fun ha => hip (applies_ip_iff.mp ha).2
        | _ => exact absurd hs (by decide)
    · rename_i hsh
      refine iff_of_true ?_ fun ho => hsh ho.2.2
      split
      · rename_i hip
        refine prioritised_of_found nofun hip.2 ⟨hip.1, rfl⟩ fun s hs => ?_
        cases s with
        | name => exact happ
        | _ => exact absurd hs (by decide)
      · rename_i hip
        have hno : ¬ Applies rt vmName vmIP pending .shiftedIP := by
          rw [applies_shiftedIP_iff]
          rintro ⟨hne, hmem⟩
          have hip' : vmIP ∉ pending := fun h => hip ⟨ne_empty_of_shifted hne, h⟩
          exact hsh ⟨hne, (mem_takeWhile_of_not_mem hip').mpr hmem⟩
        have hip' : ¬ Applies rt vmName vmIP pending .ip := fun ha => hip (applies_ip_iff.mp ha)
        split
        · rename_i key hkey
          have hrel : Go.hasPrefix (rt.toLower key) (rt.toLower vmName ++ ".") = true := by
            simpa using List.find?_some hkey
          refine prioritised_of_found nofun (List.mem_of_find?_eq_some hkey) hrel fun s hs => ?_
          cases s with
          | name => exact happ
          | ip => exact hip'
          | shiftedIP => exact hno
          | _ => exact absurd hs (by decide)
        · rename_i hkey
          have hall : ∀ s, ¬ Applies rt vmName vmIP pending s := by
            intro s
            cases s with
            | name => exact happ
            | ip => exact hip'
            | shiftedIP => exact hno
            | byPrefix =>
              rintro ⟨key, hmem, hrel⟩
              exact List.find?_eq_none.mp hkey key hmem hrel
            | none =>
              rintro ⟨key, hmem, hrel⟩
              exact hrel
          exact ⟨iff_of_true rfl hall, fun hne => absurd rfl hne, fun s ha => absurd ha (hall s)⟩

theorem Prioritised.method_eq {pending' : List String} {r r' : MatchResult}
    (h : Prioritised rt vmName vmIP pending r) (h' : Prioritised rt vmName vmIP pending' r')
    (hperm : pending'.Perm pending) : r'.method = r.method := by
  have happ : ∀ s, Applies rt vmName vmIP pending' s ↔ Applies rt vmName vmIP pending s :=
    fun s => exists_congr fun key => and_congr_left' hperm.mem_iff
  have rank_injective : ∀ s s' : MatchMethod, s.rank = s'.rank → s = s' := by
    intro s s'
    cases s <;> cases s' <;> first | exact fun _ => rfl | exact fun h => absurd h (by decide)
  have hnone : r'.method = .none ↔ r.method = .none := by
    rw [h'.none_iff, h.none_iff]
    exact forall_congr' fun s => not_congr (happ s)
  by_cases hr : r.method = .none
  · rw [hr, hnone.mpr hr]
  · obtain ⟨hmem, hrel⟩ := h.related hr
    obtain ⟨hmem', hrel'⟩ := h'.related fun hr' => hr (hnone.mp hr')
    have hle := h'.first _ ((happ _).mpr ⟨_, hmem, hrel⟩)
    have hge := h.first _ ((happ _).mp ⟨_, hmem', hrel'⟩)
    exact rank_injective _ _ (le_antisymm hle hge)

/-- The strategy depends on the order of the keys exactly when both addresses are
there. -/
theorem findMinionID_perm_iff (hname : vmName ≠ "") :
    (∀ pending' : List String, pending'.Perm pending →
      (findMinionID rt vmName vmIP pending').method =
        (findMinionID rt vmName vmIP pending).method) ↔ ¬ Ambiguous rt vmName vmIP pending := by
  have happ : ∀ (pending' : List String) s, pending'.Perm pending →
      (Applies rt vmName vmIP pending' s ↔ Applies rt vmName vmIP pending s) :=
    fun pending' s hperm => exists_congr fun key => and_congr_left' hperm.mem_iff
  constructor
  · rintro h ⟨hno, hip, hsh, hne⟩
    obtain ⟨hipne, hipmem⟩ := applies_ip_iff.mp hip
    obtain ⟨hshne, hshmem⟩ := applies_shiftedIP_iff.mp hsh
    -- the list with either address first
    have hfront : ∀ x ∈ pending, (x :: pending.erase x).Perm pending :=
      fun x hx => (List.perm_cons_erase hx).symm
    have h₁ := h _ (hfront _ hipmem)
    have h₂ := h _ (hfront _ hshmem)
    have hno₁ := mt (happ _ .name (hfront _ hipmem)).mp hno
    have hno₂ := mt (happ _ .name (hfront _ hshmem)).mp hno
    rw [findMinionID_of_not_name hname hno₁] at h₁
    rw [findMinionID_of_not_name hname hno₂] at h₂
    rw [← h₂] at h₁
    simp [hipne, hshne, hne] at h₁
  · intro hamb pending' hperm
    have keeps : ∀ pending'' : List String, pending''.Perm pending →
        ¬ Overtaken rt vmName vmIP pending'' := by
      rintro pending'' hp ⟨hno, hip, hshne, hsh⟩
      refine hamb ⟨mt (happ _ _ hp).mpr hno, ?_, ?_, ?_⟩
      · exact applies_ip_iff.mpr ⟨ne_empty_of_shifted hshne, hp.mem_iff.mp hip⟩
      · exact applies_shiftedIP_iff.mpr
          ⟨hshne, hp.mem_iff.mp (List.takeWhile_subset _ hsh)⟩
      · simpa using List.mem_takeWhile_imp hsh
    exact ((findMinionID_prioritised hname).mpr (keeps _ (.refl _))).method_eq
      ((findMinionID_prioritised hname).mpr (keeps _ hperm)) hperm

end loops

/-- **`FindMinionID` returns a pending key by the first strategy that applies exactly
when the shifted address does not overtake the address, and the strategy is the same
for every order of the keys exactly when not both addresses are there.** -/
theorem findMinionID_prioritised_iff (rt : Runtime) (vmName vmIP : String) (pending : List String)
    (hname : vmName ≠ "") :
    (Prioritised rt vmName vmIP pending (findMinionID rt vmName vmIP pending) ↔
        ¬ Overtaken rt vmName vmIP pending) ∧
      ((∀ pending' : List String, pending'.Perm pending →
          (findMinionID rt vmName vmIP pending').method =
            (findMinionID rt vmName vmIP pending).method) ↔
        ¬ Ambiguous rt vmName vmIP pending) :=
  ⟨findMinionID_prioritised hname, findMinionID_perm_iff hname⟩

/-- The address comes first in this list, and the order is kept. -/
theorem findMinionID_prioritised_web :
    "web" ≠ "" ∧ Prioritised Sample.runtime "web" "10.1.2.3" ["10.1.2.3", "1.2.3.10", "web.example"]
      ⟨"10.1.2.3", .ip⟩ := by
  refine ⟨by decide, ?_⟩
  have heq : findMinionID Sample.runtime "web" "10.1.2.3"
      ["10.1.2.3", "1.2.3.10", "web.example"] = ⟨"10.1.2.3", .ip⟩ := by decide +kernel
  rw [← heq]
  refine ((findMinionID_prioritised_iff _ _ _ _ (by decide)).1).mpr fun ho => ?_
  exact absurd ho.2.2.2 (by decide +kernel)

/-- The pending list has the key of another machine first, whose ID is the shifted
address of the VM: that one is returned although the address itself is pending. -/
theorem findMinionID_overtaken :
    findMinionID Sample.runtime "web" "10.1.2.3" ["1.2.3.10", "10.1.2.3"] =
        ⟨"1.2.3.10", .shiftedIP⟩ ∧
      Relates Sample.runtime "web" "10.1.2.3" .ip "10.1.2.3" ∧
      MatchMethod.ip.rank < MatchMethod.shiftedIP.rank ∧
      findMinionID Sample.runtime "web" "10.1.2.3" ["10.1.2.3", "1.2.3.10"] =
        ⟨"10.1.2.3", .ip⟩ := by
  refine ⟨by decide +kernel, ⟨by decide, rfl⟩, by decide, by decide +kernel⟩

end SaltOperator
