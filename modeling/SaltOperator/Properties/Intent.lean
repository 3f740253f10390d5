import SaltOperator.Lib.Lines
import SaltOperator.Cluster.Run

/-!
# What the intent hash sees

`computeIntentHash` writes the intent annotations of a VM as lines `key=value` and
hashes the text. The order in which a Go map is iterated over does not matter
(`intentTextOver_eq`). A value may be several lines, though, and then the same
lines can be other annotations.

**The text tells intents apart exactly if no value has a later line that reads like an
intent annotation** (`intentText_faithful_iff`): this is the condition on the values
that may be written, whatever they are.
-/

namespace SaltOperator

/-- The text `computeIntentHash` hashes when the range over the map visits the keys in
this order. -/
def intentTextOver (order : List String) (annotations : StringMap) : String :=
  ((order.filter isIntent).insertionSort (· ≤ ·)).foldl
    (fun b k => b ++ k ++ "=" ++ StringMap.read annotations k ++ "\n") ""

/-- A key that Kubernetes takes for an annotation has neither of the two characters that
structure the text. -/
def ValidKeys (annotations : StringMap) : Prop :=
  ∀ k ∈ annotations, '=' ∉ k.toList ∧ '\n' ∉ k.toList

/-- The two agree on all intent annotations. -/
def SameIntent (m n : StringMap) : Prop := ∀ k, isIntent k = true → m[k]? = n[k]?

/-- An annotation in the text. -/
def intentRecord (e : String × String) : List Char := e.1.toList ++ '=' :: e.2.toList

/-- The intent annotations in the order of the text. -/
def intentRecords (annotations : StringMap) : List (List Char) :=
  (intentSet annotations).toList.map intentRecord

section text

variable {m n annotations : StringMap} {order : List String}

theorem mem_intentSet {k v : String} :
    (k, v) ∈ (intentSet annotations).toList ↔ isIntent k = true ∧ annotations[k]? = some v := by
  unfold intentSet
  rw [Std.ExtTreeMap.toList_filter, List.mem_filter,
    Std.ExtTreeMap.mem_toList_iff_getElem?_eq_some, and_comm]

/-- **The order in which a map is visited does not matter.** -/
theorem intentTextOver_eq (h : order.Perm annotations.keys) :
    intentTextOver order annotations = intentText annotations := by
  have hkeys : (order.filter isIntent).insertionSort (· ≤ ·) = (intentSet annotations).keys := by
    have hperm : ((order.filter isIntent).insertionSort (· ≤ ·)).Perm
        (intentSet annotations).keys := by
      unfold intentSet
      rw [Std.ExtTreeMap.keys_filter_key]
      exact (List.perm_insertionSort _ _).trans (h.filter _)
    refine hperm.eq_of_pairwise' (List.pairwise_insertionSort _ _) ?_
    exact Std.ExtTreeMap.ordered_keys.imp fun hlt => (compare_lt_iff_lt.mp hlt).le
  have hread : ∀ e ∈ (intentSet annotations).toList, StringMap.read annotations e.1 = e.2 := by
    rintro ⟨k, v⟩ he
    rw [StringMap.read_eq_getD, (mem_intentSet.mp he).2]
    rfl
  unfold intentTextOver intentText
  rw [hkeys, ← Std.ExtTreeMap.map_fst_toList_eq_keys, List.foldl_map]
  refine List.foldl_ext _ _ _ fun b e he => ?_
  rw [hread e he]

/-- The text is the records of the annotations, one after the other. -/
theorem toList_intentText (annotations : StringMap) :
    (intentText annotations).toList = lineText '\n' (intentRecords annotations) := by
  have hfold : ∀ (l : List (String × String)) (b : String),
      (l.foldl (fun b e => b ++ e.1 ++ "=" ++ e.2 ++ "\n") b).toList =
        b.toList ++ lineText '\n' (l.map intentRecord) := by
    intro l
    induction l with
    | nil => simp [lineText]
    | cons e l ih =>
      intro b
      rw [List.foldl_cons, ih]
      simp [lineText, intentRecord]
  unfold intentText intentRecords
  rw [hfold]
  simp

theorem intentText_eq_iff : intentText m = intentText n ↔
    lineText '\n' (intentRecords m) = lineText '\n' (intentRecords n) := by
  rw [← toList_intentText, ← toList_intentText, String.toList_inj]

theorem sameIntent_iff : SameIntent m n ↔ intentSet m = intentSet n := by
  rw [Std.ExtTreeMap.ext_getElem?_iff]
  refine forall_congr' fun k => ?_
  unfold intentSet
  rw [Std.ExtTreeMap.getElem?_filter', Std.ExtTreeMap.getElem?_filter']
  have hself : ∀ o : Option String, o.filter (fun _ => true) = o := fun o => by cases o <;> rfl
  cases isIntent k with
  | false => simp
  | true =>
    rw [hself, hself]
    exact ⟨fun h => h rfl, fun h _ => h⟩

theorem ValidKeys.intent (h : ValidKeys m) {e : String × String}
    (he : e ∈ (intentSet m).toList) : '=' ∉ e.1.toList := by
  obtain ⟨k, v⟩ := e
  refine (h k ?_).1
  rw [Std.ExtTreeMap.mem_iff_isSome_getElem?, (mem_intentSet.mp he).2]
  rfl

/-- A record is read back up to its first `=`. -/
theorem intentRecord_injective {e e' : String × String} (he : '=' ∉ e.1.toList)
    (he' : '=' ∉ e'.1.toList) (h : intentRecord e = intentRecord e') : e = e' := by
  have hcut : ∀ {x : String × String}, '=' ∉ x.1.toList →
      (intentRecord x).takeWhile (· ≠ '=') = x.1.toList ∧
        (intentRecord x).dropWhile (· ≠ '=') = '=' :: x.2.toList := by
    intro x hx
    have hall : ∀ c ∈ x.1.toList, decide (c ≠ '=') = true := by
      intro c hc
      simp only [ne_eq, decide_not, Bool.not_eq_eq_eq_not, Bool.not_true, decide_eq_false_iff_not]
      rintro rfl
      exact hx hc
    unfold intentRecord
    rw [List.takeWhile_append_of_pos hall, List.dropWhile_append_of_pos hall]
    simp
  have hkey : e.1.toList = e'.1.toList := by
    rw [← (hcut he).1, ← (hcut he').1, h]
  have hval : '=' :: e.2.toList = '=' :: e'.2.toList := by
    rw [← (hcut he).2, ← (hcut he').2, h]
  exact Prod.ext (String.toList_inj.mp hkey) (String.toList_inj.mp (List.cons.inj hval).2)

/-- The records are those of one set of intent annotations only. -/
theorem intentRecords_eq_iff (hm : ValidKeys m) (hn : ValidKeys n) :
    intentRecords m = intentRecords n ↔ SameIntent m n := by
  rw [sameIntent_iff, ← Std.ExtTreeMap.toList_inj]
  refine ⟨fun h => ?_, fun h => congrArg (List.map intentRecord) h⟩
  have hinj : ∀ (l l' : List (String × String)), (∀ e ∈ l, '=' ∉ e.1.toList) →
      (∀ e ∈ l', '=' ∉ e.1.toList) → l.map intentRecord = l'.map intentRecord → l = l' := by
    intro l
    induction l with
    | nil =>
      intro l' _ _ heq
      exact (List.map_eq_nil_iff.mp heq.symm).symm
    | cons e l ih =>
      intro l' hl hl' heq
      cases l' with
      | nil => cases heq
      | cons e' l' =>
        obtain ⟨hhead, htail⟩ := List.cons.inj heq
        rw [intentRecord_injective (hl e List.mem_cons_self) (hl' e' List.mem_cons_self) hhead,
          ih l' (fun x hx => hl x (List.mem_cons_of_mem _ hx))
            (fun x hx => hl' x (List.mem_cons_of_mem _ hx)) htail]
  exact hinj _ _ (fun e he => hm.intent he) (fun e he => hn.intent he) h

/-- The prefix of the intent annotations, which is the first key in their order. -/
def intentPrefix : String := "salt.vcf.io/"

/-- No line of a value after the first reads like an intent annotation. (A line that
reads like one with the bare prefix for its key does no harm: as an annotation it would
be the first line of all.) -/
def PlainValue (v : String) : Prop :=
  ∀ u k w, v = u ++ "\n" ++ k ++ "=" ++ w → isIntent k = true → '=' ∉ k.toList →
    '\n' ∉ k.toList → k = intentPrefix

theorem plainValue_of_single_line {v : String} (h : '\n' ∉ v.toList) : PlainValue v := by
  rintro u k w rfl
  simp at h

/-- The keys are valid and the values of the intent annotations are among `V`. -/
structure Written (V : String → Prop) (annotations : StringMap) : Prop where
  keys : ValidKeys annotations
  values : ∀ k v, isIntent k = true → annotations[k]? = some v → V v

/-- A record of a map: its key, its value and its lines. -/
theorem splitOn_intentRecord (hvalid : ValidKeys annotations) {t : List Char}
    (ht : t ∈ intentRecords annotations) : ∃ k v, isIntent k = true ∧ '=' ∉ k.toList ∧
      '\n' ∉ k.toList ∧ annotations[k]? = some v ∧ t = intentRecord (k, v) ∧
      t.splitOn '\n' = (v.toList.splitOn '\n').modifyHead (k.toList ++ '=' :: ·) := by
  obtain ⟨⟨k, v⟩, he, rfl⟩ := List.mem_map.mp ht
  obtain ⟨hk, hv⟩ := mem_intentSet.mp he
  have hmem : k ∈ annotations := by
    rw [Std.ExtTreeMap.mem_iff_isSome_getElem?, hv]
    rfl
  obtain ⟨heq, hnl⟩ := hvalid k hmem
  have hfree : '\n' ∉ k.toList ++ ['='] := by simp [hnl]
  have happ := splitOn_append_of_not_mem (t := v.toList) hfree
  exact ⟨k, v, hk, heq, hnl, hv, rfl, by simpa [intentRecord] using happ⟩

theorem intentPrefix_le {k : String} (h : isIntent k = true) : intentPrefix ≤ k := by
  unfold isIntent at h
  have hpre : intentPrefix.toList <+: k.toList :=
    List.isPrefixOf_iff_prefix.mp ((Bool.and_eq_true _ _).mp h).1
  exact not_lt.mp fun hlt => hpre.le (String.lt_iff_toList_lt.mp hlt)

/-- A record that is not the first has a longer key than the bare prefix. -/
theorem ne_intentPrefix_of_mem_tail (hvalid : ValidKeys m) {k v : String}
    (hk : '=' ∉ k.toList) (ht : intentRecord (k, v) ∈ (intentRecords m).tail) :
    k ≠ intentPrefix := by
  unfold intentRecords at ht
  rw [← List.map_tail] at ht
  obtain ⟨e, he, heq⟩ := List.mem_map.mp ht
  obtain rfl : e = (k, v) :=
    intentRecord_injective (hvalid.intent (List.mem_of_mem_tail he)) hk heq
  -- the first key is an intent key too, and it is smaller
  have hordered := Std.ExtTreeMap.ordered_keys_toList (t := intentSet m)
  cases hlist : (intentSet m).toList with
  | nil =>
    rw [hlist] at he
    cases he
  | cons first rest =>
    rw [hlist] at he hordered
    have hlt := compare_lt_iff_lt.mp ((List.pairwise_cons.mp hordered).1 _ he)
    have hfirst : first ∈ (intentSet m).toList := by
      rw [hlist]
      exact List.mem_cons_self
    exact ((intentPrefix_le (mem_intentSet.mp hfirst).1).trans_lt hlt).ne'

/-- An annotation of one map does not continue a plain value of another. -/
theorem not_continues (hm : ValidKeys m) (hn : Written PlainValue n) :
    ¬ Continues '\n' (intentRecords m) (intentRecords n) := by
  rintro ⟨t, ht, t', ht', line, hfirst, hlater⟩
  obtain ⟨k, v, hk, heq, hnl, -, rfl, hsplit⟩ := splitOn_intentRecord hm (List.mem_of_mem_tail ht)
  obtain ⟨k', v', hk', -, -, hv', -, hsplit'⟩ := splitOn_intentRecord hn.keys ht'
  obtain ⟨first, rest, hv⟩ := List.exists_cons_of_ne_nil (List.splitOn_ne_nil '\n' v.toList)
  obtain rfl : k.toList ++ '=' :: first = line := by
    rw [hsplit, hv] at hfirst
    exact Option.some.inj hfirst
  have htail : k.toList ++ '=' :: first ∈ (v'.toList.splitOn '\n').tail := by
    rw [hsplit'] at hlater
    rwa [List.tail_modifyHead] at hlater
  obtain ⟨u, w, hcut⟩ := mem_tail_splitOn htail
  refine ne_intentPrefix_of_mem_tail hm heq ht (hn.values k' v' hk' hv' (String.ofList u) k
    (String.ofList (first ++ w)) ?_ hk heq hnl)
  rw [← String.toList_inj, hcut]
  simp

/-- **Plain values are not taken for annotations.** -/
theorem intentText_faithful_of_plain (hm : Written PlainValue m) (hn : Written PlainValue n) :
    intentText m = intentText n ↔ SameIntent m n := by
  rw [intentText_eq_iff, ← intentRecords_eq_iff hm.keys hn.keys]
  refine lineText_faithful_iff.mpr fun hrecut => ?_
  rcases hrecut.exists_line with h | h
  · exact not_continues hm.keys hn h
  · exact not_continues hn.keys hm h

/-! ### A value that is not plain -/

/-- The annotations that a value reads like after its first line, and the value itself. -/
theorem intentText_cut {u k w : String} (hk : isIntent k = true) (hne : k ≠ intentPrefix) :
    intentTextOver [intentPrefix] (({} : StringMap).insert intentPrefix
        (u ++ "\n" ++ k ++ "=" ++ w)) =
      intentTextOver [intentPrefix, k] ((({} : StringMap).insert intentPrefix u).insert k w) := by
  have hprefix : isIntent intentPrefix = true := by decide
  have hsorted : [intentPrefix, k].Pairwise (· ≤ ·) := by simpa using intentPrefix_le hk
  unfold intentTextOver
  rw [List.filter_cons_of_pos hprefix, List.filter_nil, List.filter_cons_of_pos hprefix,
    List.filter_cons_of_pos hk, List.filter_nil, hsorted.insertionSort_eq]
  simp [StringMap.read_insert, hne, String.append_assoc]

theorem keys_insert_perm {k v : String} (hk : k ∉ m) : (k :: m.keys).Perm (m.insert k v).keys := by
  have hnodup : (k :: m.keys).Nodup :=
    List.nodup_cons.mpr ⟨fun h => hk (Std.ExtTreeMap.mem_keys.mp h), Std.ExtTreeMap.nodup_keys⟩
  refine (List.perm_ext_iff_of_nodup hnodup Std.ExtTreeMap.nodup_keys).mpr fun a => ?_
  rw [Std.ExtTreeMap.mem_keys, Std.ExtTreeMap.mem_insert, List.mem_cons, Std.ExtTreeMap.mem_keys,
    compare_eq_iff_eq, eq_comm]

end text

/-- A value that reads like a value and an annotation is among `V` only if both values are. -/
def CutClosed (V : String → Prop) : Prop :=
  ∀ u k w, isIntent k = true → V (u ++ "\n" ++ k ++ "=" ++ w) → V u ∧ V w

/-- **The text that is hashed tells intents apart exactly if no value that may be written has a
later line that reads like an intent annotation**, in whatever order the maps are visited. -/
theorem intentText_faithful_iff (V : String → Prop) (hV : CutClosed V) :
    (∀ m n order order', Written V m → Written V n → order.Perm m.keys → order'.Perm n.keys →
      (intentTextOver order m = intentTextOver order' n ↔ SameIntent m n)) ↔
      ∀ v, V v → PlainValue v := by
  constructor
  · rintro hfaithful v hv u k w rfl hk heq hnl
    by_contra hne
    obtain ⟨hu, hw⟩ := hV u k w hk hv
    have hprefix : '=' ∉ intentPrefix.toList ∧ '\n' ∉ intentPrefix.toList := by decide
    -- the value under the bare prefix, and the two it reads like
    let whole : StringMap := ({} : StringMap).insert intentPrefix (u ++ "\n" ++ k ++ "=" ++ w)
    let parts : StringMap := (({} : StringMap).insert intentPrefix u).insert k w
    have hwhole : Written V whole := by
      constructor
      · intro a ha
        obtain rfl : intentPrefix = a := by simpa [whole] using ha
        exact hprefix
      · intro a b _ hb
        obtain ⟨-, rfl⟩ : intentPrefix = a ∧ u ++ "\n" ++ k ++ "=" ++ w = b := by
          simpa [whole, Std.ExtTreeMap.getElem?_insert] using hb
        exact hv
    have hparts : Written V parts := by
      constructor
      · intro a ha
        rcases (by simpa [parts] using ha : k = a ∨ intentPrefix = a) with rfl | rfl
        · exact ⟨heq, hnl⟩
        · exact hprefix
      · intro a b _ hb
        by_cases ha : k = a
        · obtain rfl : w = b := by simpa [parts, Std.ExtTreeMap.getElem?_insert, ha] using hb
          exact hw
        · obtain ⟨-, rfl⟩ : intentPrefix = a ∧ u = b := by
            simpa [parts, Std.ExtTreeMap.getElem?_insert, ha] using hb
          exact hu
    have hone (v : String) : [intentPrefix].Perm (({} : StringMap).insert intentPrefix v).keys :=
      keys_insert_perm Std.ExtTreeMap.not_mem_empty
    have htwo : [intentPrefix, k].Perm parts.keys :=
      (List.Perm.swap ..).trans (((hone u).cons k).trans
        (keys_insert_perm (by simpa using Ne.symm hne)))
    have hsame := (hfaithful whole parts _ _ hwhole hparts (hone _) htwo).mp
      (intentText_cut hk hne) k hk
    have hnone : whole[k]? = none := by
      simp [whole, Ne.symm hne]
    have hsome : parts[k]? = some w := Std.ExtTreeMap.getElem?_insert_self
    rw [hnone, hsome] at hsame
    cases hsame
  · intro hplain m n order order' hm hn horder horder'
    rw [intentTextOver_eq horder, intentTextOver_eq horder']
    exact intentText_faithful_of_plain ⟨hm.keys, fun k v hk hv => hplain v (hm.values k v hk hv)⟩
      ⟨hn.keys, fun k v hk hv => hplain v (hn.values k v hk hv)⟩

namespace Sample

/-- A VM with these intent annotations. -/
def intent (entries : List (String × String)) : StringMap := StringMap.copy {} entries

theorem intent_mem {entries : List (String × String)} {k v : String}
    (h : (intent entries)[k]? = some v) : (k, v) ∈ entries := by
  unfold intent at h
  rw [StringMap.getElem?_copy] at h
  simp only [Std.ExtTreeMap.getElem?_empty, Option.or_none] at h
  obtain ⟨l₁, l₂, hl, -⟩ := List.lookup_eq_some_iff.mp h
  rw [← List.mem_reverse, hl]
  exact List.mem_append_right l₁ List.mem_cons_self

theorem intent_validKeys {entries : List (String × String)}
    (h : ∀ e ∈ entries, '=' ∉ e.1.toList ∧ '\n' ∉ e.1.toList) : ValidKeys (intent entries) := by
  intro k hk
  rw [Std.ExtTreeMap.mem_iff_isSome_getElem?] at hk
  obtain ⟨v, hv⟩ := Option.isSome_iff_exists.mp hk
  exact h _ (intent_mem hv)

theorem intent_written {V : String → Prop} {entries : List (String × String)}
    (hkeys : ∀ e ∈ entries, '=' ∉ e.1.toList ∧ '\n' ∉ e.1.toList)
    (hvalues : ∀ e ∈ entries, V e.2) : Written V (intent entries) :=
  ⟨intent_validKeys hkeys, fun _ _ _ hv => hvalues _ (intent_mem hv)⟩

/-- A value of one line. -/
abbrev SingleLine (v : String) : Prop := '\n' ∉ v.toList

/-- Two annotations. -/
def two : StringMap := intent [("salt.vcf.io/a", "x"), ("salt.vcf.io/b", "y")]

/-- One annotation whose value reads on like the second one. -/
def one : StringMap := intent [("salt.vcf.io/a", "x\nsalt.vcf.io/b=y")]

/-- One annotation of the two. -/
def first : StringMap := intent [("salt.vcf.io/a", "x")]

theorem two_validKeys : ValidKeys two := intent_validKeys (by decide)

theorem one_validKeys : ValidKeys one := intent_validKeys (by decide)

end Sample

/-- Values of one line are plain, so that the text tells that an annotation was taken away. -/
theorem intentText_faithful_first :
    intentTextOver ["salt.vcf.io/b", "salt.vcf.io/a"] Sample.two =
        intentTextOver ["salt.vcf.io/a"] Sample.first ↔
      SameIntent Sample.two Sample.first := by
  have hclosed : CutClosed Sample.SingleLine := by
    intro u k w _ hv
    simp [Sample.SingleLine] at hv
  exact (intentText_faithful_iff Sample.SingleLine hclosed).mpr
    (fun v hv => plainValue_of_single_line hv) Sample.two Sample.first _ _
    (Sample.intent_written (by decide) (by decide)) (Sample.intent_written (by decide) (by decide))
    (by decide +kernel) (by decide +kernel)

/-- Two VMs with different intents and the same text. -/
theorem intentText_ambiguous :
    ValidKeys Sample.one ∧ ValidKeys Sample.two ∧
      intentTextOver Sample.one.keys Sample.one = intentTextOver Sample.two.keys Sample.two ∧
      ¬ SameIntent Sample.one Sample.two := by
  refine ⟨Sample.one_validKeys, Sample.two_validKeys, by decide +kernel, fun h => ?_⟩
  have hb := h "salt.vcf.io/b" (by decide +kernel)
  revert hb
  decide +kernel

end SaltOperator
