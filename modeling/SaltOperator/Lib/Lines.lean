import Mathlib

/-!
# Texts made of records and lines

A text that is a list of records, each ended by a separator. Records without the
separator can be read back from the text. A record that has the separator inside
is several lines, and the same lines may make up another list of records:

- `lineText sep ts`: the text of the records `ts`;
- `markedLines sep ts`: its lines, marked where a record begins;
- `Recut sep ts us`: the lines are the same, but one of them begins a record in one
  list and continues one in the other;
- `lineText_faithful_iff`: **the text tells two lists of records apart exactly when
  they are not recut into each other**;
- `Recut.exists_line`: then a line in one of the lists begins a record that is not the
  first, and continues a record of the other list.
-/

namespace SaltOperator

variable {α : Type} [DecidableEq α] (sep : α)

/-- The records, each ended by the separator. -/
def lineText (ts : List (List α)) : List α := ts.flatMap (· ++ [sep])

/-- The lines of a record, the first one marked. -/
def markedRecord (t : List α) : List (Bool × List α) :=
  match t.splitOn sep with
  | [] => []
  | first :: rest => (true, first) :: rest.map fun line => (false, line)

/-- The lines of all records, marked where a record begins. -/
def markedLines (ts : List (List α)) : List (Bool × List α) := ts.flatMap (markedRecord sep)

/-- The two lists are made of the same lines, one of which begins a record in one of
them and continues a record in the other. -/
structure Recut (ts us : List (List α)) : Prop where
  lines : (markedLines sep ts).map Prod.snd = (markedLines sep us).map Prod.snd
  moved : ∃ (i : Nat) (line : List α) (begins : Bool),
    (markedLines sep ts)[i]? = some (begins, line) ∧ (markedLines sep us)[i]? = some (!begins, line)

variable {sep} {t u : List α} {ts us : List (List α)}

theorem splitOn_injective (h : t.splitOn sep = u.splitOn sep) : t = u := by
  have hjoin := congrArg [sep].intercalate h
  rwa [List.intercalate_splitOn, List.intercalate_splitOn] at hjoin

theorem markedRecord_eq (sep : α) (t : List α) : ∃ first rest, t.splitOn sep = first :: rest ∧
    markedRecord sep t = (true, first) :: rest.map fun line => (false, line) := by
  obtain ⟨first, rest, heq⟩ := List.exists_cons_of_ne_nil (List.splitOn_ne_nil sep t)
  refine ⟨first, rest, heq, ?_⟩
  unfold markedRecord
  rw [heq]

theorem map_snd_markedRecord (sep : α) (t : List α) :
    (markedRecord sep t).map Prod.snd = t.splitOn sep := by
  obtain ⟨first, rest, heq, hm⟩ := markedRecord_eq sep t
  rw [hm, heq, List.map_cons, List.map_map]
  exact congrArg (first :: ·) (List.map_id rest)

theorem map_snd_markedLines (sep : α) (ts : List (List α)) :
    (markedLines sep ts).map Prod.snd = ts.flatMap (List.splitOn sep) := by
  unfold markedLines
  rw [List.map_flatMap]
  simp only [map_snd_markedRecord]

/-- A text is cut at the separators of its records and after each of them. -/
theorem splitOn_lineText (sep : α) (ts : List (List α)) :
    (lineText sep ts).splitOn sep = ts.flatMap (List.splitOn sep) ++ [[]] := by
  induction ts with
  | nil => simp [lineText]
  | cons t ts ih =>
    have hcons : lineText sep (t :: ts) = t ++ sep :: lineText sep ts := by
      simp [lineText]
    rw [hcons, List.splitOn_append_cons_self, ih, List.flatMap_cons, List.append_assoc]

theorem lineText_eq_iff :
    lineText sep ts = lineText sep us ↔
      (markedLines sep ts).map Prod.snd = (markedLines sep us).map Prod.snd := by
  rw [map_snd_markedLines, map_snd_markedLines]
  constructor
  · intro h
    have hsplit := congrArg (List.splitOn sep) h
    rw [splitOn_lineText, splitOn_lineText] at hsplit
    exact List.append_cancel_right hsplit
  · intro h
    apply splitOn_injective
    rw [splitOn_lineText, splitOn_lineText, h]

theorem markedLines_cons (sep : α) (t : List α) (ts : List (List α)) :
    ∃ first rest, t.splitOn sep = first :: rest ∧ markedLines sep (t :: ts) =
      (true, first) :: (rest.map (fun line => (false, line)) ++ markedLines sep ts) := by
  obtain ⟨first, rest, hsplit, hm⟩ := markedRecord_eq sep t
  refine ⟨first, rest, hsplit, ?_⟩
  unfold markedLines
  rw [List.flatMap_cons, hm, List.cons_append]

/-- The lines up to the next mark are those of a record. -/
theorem dropWhile_markedLines (rest : List (List α)) (ts : List (List α)) :
    (rest.map (fun line => (false, line)) ++ markedLines sep ts).dropWhile (fun l => !l.1) =
      markedLines sep ts := by
  have hall : ∀ l ∈ rest.map fun line => (false, line), (!l.1) = true := by simp
  rw [List.dropWhile_append_of_pos hall]
  cases ts with
  | nil => rfl
  | cons t ts =>
    obtain ⟨first, rest, -, heq⟩ := markedLines_cons sep t ts
    rw [heq]
    rfl

/-- **Marked lines can be put together in one way only.** -/
theorem markedLines_injective (h : markedLines sep ts = markedLines sep us) : ts = us := by
  induction ts generalizing us with
  | nil =>
    cases us with
    | nil => rfl
    | cons u us =>
      obtain ⟨first, rest, -, heq⟩ := markedLines_cons sep u us
      rw [heq] at h
      cases h
  | cons t ts ih =>
    obtain ⟨first, rest, hsplit, heq⟩ := markedLines_cons sep t ts
    cases us with
    | nil =>
      rw [heq] at h
      cases h
    | cons u us =>
      obtain ⟨first', rest', hsplit', heq'⟩ := markedLines_cons sep u us
      rw [heq, heq'] at h
      obtain ⟨hfirst, hrest⟩ := List.cons.inj h
      have htail : markedLines sep ts = markedLines sep us := by
        have hdrop := congrArg (List.dropWhile fun l => !l.1) hrest
        rwa [dropWhile_markedLines, dropWhile_markedLines] at hdrop
      have hlines : rest = rest' := by
        have hinj : Function.Injective fun line : List α => (false, line) :=
          fun _ _ heq => (Prod.mk.inj heq).2
        rw [htail] at hrest
        exact hinj.list_map (List.append_cancel_right hrest)
      obtain ⟨-, rfl⟩ := Prod.mk.inj hfirst
      have htu : t.splitOn sep = u.splitOn sep := by rw [hsplit, hsplit', hlines]
      rw [splitOn_injective htu, ih htail]

/-- The first line of a record begins it, and the others continue it. -/
theorem mem_markedLines {begins : Bool} {line : List α} :
    (begins, line) ∈ markedLines sep ts ↔ ∃ t ∈ ts,
      if begins then (t.splitOn sep).head? = some line else line ∈ (t.splitOn sep).tail := by
  unfold markedLines
  rw [List.mem_flatMap]
  refine exists_congr fun t => and_congr_right fun _ => ?_
  obtain ⟨first, rest, hsplit, hm⟩ := markedRecord_eq sep t
  rw [hm, hsplit]
  cases begins <;> simp [eq_comm]

/-- What stands before the first separator belongs to the first line. -/
theorem splitOn_append_of_not_mem {x : List α} (hx : sep ∉ x) :
    (x ++ t).splitOn sep = (t.splitOn sep).modifyHead (x ++ ·) := by
  induction x with
  | nil =>
    rw [List.nil_append]
    cases t.splitOn sep <;> rfl
  | cons a x ih =>
    have ha : (a == sep) = false := by
      simp only [beq_eq_false_iff_ne, ne_eq]
      rintro rfl
      exact hx List.mem_cons_self
    rw [List.cons_append, List.splitOn_cons_eq_if_modifyHead, ha,
      ih fun h => hx (List.mem_cons_of_mem _ h)]
    cases t.splitOn sep <;> rfl

/-- The first line stands at the beginning. -/
theorem head_splitOn_prefix {line : List α} (h : (t.splitOn sep).head? = some line) :
    ∃ w, t = line ++ w := by
  induction t generalizing line with
  | nil =>
    obtain rfl : [] = line := by simpa using h
    exact ⟨[], rfl⟩
  | cons a t ih =>
    rw [List.splitOn_cons_eq_if_modifyHead] at h
    split at h
    · obtain rfl : [] = line := by simpa using h
      exact ⟨a :: t, rfl⟩
    · obtain ⟨first, rest, hsplit⟩ := List.exists_cons_of_ne_nil (List.splitOn_ne_nil sep t)
      rw [hsplit] at h ih
      obtain rfl : a :: first = line := by simpa using h
      obtain ⟨w, rfl⟩ := ih rfl
      exact ⟨w, rfl⟩

/-- A later line stands after a separator. -/
theorem mem_tail_splitOn {line : List α} (h : line ∈ (t.splitOn sep).tail) :
    ∃ u w, t = u ++ sep :: (line ++ w) := by
  induction t with
  | nil => simp at h
  | cons a t ih =>
    rw [List.splitOn_cons_eq_if_modifyHead] at h
    obtain ⟨first, rest, hsplit⟩ := List.exists_cons_of_ne_nil (List.splitOn_ne_nil sep t)
    rw [hsplit] at h ih
    split at h
    · next ha =>
      obtain rfl : a = sep := by simpa using ha
      rcases List.mem_cons.mp h with rfl | h
      · have hhead : (t.splitOn a).head? = some line := by
          rw [hsplit]
          rfl
        obtain ⟨w, rfl⟩ := head_splitOn_prefix hhead
        exact ⟨[], w, rfl⟩
      · obtain ⟨u, w, rfl⟩ := ih h
        exact ⟨a :: u, w, rfl⟩
    · obtain ⟨u, w, rfl⟩ := ih h
      exact ⟨a :: u, w, rfl⟩

theorem Recut.ne (h : Recut sep ts us) : ts ≠ us := by
  rintro rfl
  obtain ⟨i, line, begins, h₁, h₂⟩ := h.moved
  have heq := Option.some.inj (h₁.symm.trans h₂)
  cases begins <;> cases heq

omit [DecidableEq α] in
/-- Lists with equal second components differ in a first component. -/
theorem exists_moved {l l' : List (Bool × List α)} (hs : l.map Prod.snd = l'.map Prod.snd)
    (hne : l ≠ l') : ∃ (i : Nat) (line : List α) (begins : Bool),
      l[i]? = some (begins, line) ∧ l'[i]? = some (!begins, line) := by
  induction l generalizing l' with
  | nil =>
    cases l' with
    | nil => exact absurd rfl hne
    | cons x l' => cases hs
  | cons x l ih =>
    obtain ⟨b, line⟩ := x
    cases l' with
    | nil => cases hs
    | cons y l' =>
      obtain ⟨b', line'⟩ := y
      obtain ⟨hline, htail⟩ := List.cons.inj hs
      obtain rfl : line = line' := hline
      by_cases hb : b = b'
      · have hne' : l ≠ l' := by
          rintro rfl
          rw [hb] at hne
          exact hne rfl
        obtain ⟨i, line'', begins, h₁, h₂⟩ := ih htail hne'
        exact ⟨i + 1, line'', begins, h₁, h₂⟩
      · refine ⟨0, line, b, rfl, ?_⟩
        have hb' : b' = !b := by
          cases b <;> cases b' <;> first | rfl | exact absurd rfl hb
        rw [hb']
        rfl

/-- A mark that is not the first one is at the beginning of a later record. -/
theorem exists_mem_tail_of_marked {i : Nat} {line : List α} (hi : i ≠ 0)
    (h : (markedLines sep ts)[i]? = some (true, line)) :
    ∃ t ∈ ts.tail, (t.splitOn sep).head? = some line := by
  cases ts with
  | nil => cases h
  | cons t ts =>
    obtain ⟨first, rest, -, heq⟩ := markedLines_cons sep t ts
    obtain ⟨j, rfl⟩ : ∃ j, i = j + 1 := ⟨i - 1, by omega⟩
    rw [heq, List.getElem?_cons_succ] at h
    rcases List.mem_append.mp (List.mem_of_getElem? h) with hrest | hmem
    · simp at hrest
    · simpa using mem_markedLines.mp hmem

/-- The first line is marked. -/
theorem ne_zero_of_not_marked {i : Nat} {line : List α}
    (h : (markedLines sep ts)[i]? = some (false, line)) : i ≠ 0 := by
  rintro rfl
  cases ts with
  | nil => cases h
  | cons t ts =>
    obtain ⟨first, rest, -, heq⟩ := markedLines_cons sep t ts
    rw [heq] at h
    cases h

/-- A line begins a record of one list, not the first one, and continues a record of the
other. -/
def Continues (sep : α) (ts us : List (List α)) : Prop :=
  ∃ t ∈ ts.tail, ∃ u ∈ us, ∃ line, (t.splitOn sep).head? = some line ∧
    line ∈ (u.splitOn sep).tail

theorem Recut.exists_line (h : Recut sep ts us) : Continues sep ts us ∨ Continues sep us ts := by
  have continues : ∀ {ts us : List (List α)} {i : Nat} {line : List α},
      (markedLines sep ts)[i]? = some (true, line) →
      (markedLines sep us)[i]? = some (false, line) → Continues sep ts us := by
    intro ts us i line h₁ h₂
    obtain ⟨t, ht, hfirst⟩ := exists_mem_tail_of_marked (ne_zero_of_not_marked h₂) h₁
    obtain ⟨u, hu, hlater⟩ := mem_markedLines.mp (List.mem_of_getElem? h₂)
    exact ⟨t, ht, u, hu, line, hfirst, by simpa using hlater⟩
  obtain ⟨i, line, begins, h₁, h₂⟩ := h.moved
  cases begins with
  | true => exact .inl (continues h₁ h₂)
  | false => exact .inr (continues h₂ h₁)

/-- **A text tells two lists of records apart exactly when they are not recut into each
other.** -/
theorem lineText_faithful_iff :
    (lineText sep ts = lineText sep us ↔ ts = us) ↔ ¬ Recut sep ts us := by
  constructor
  · intro h hrecut
    exact hrecut.ne (h.mp (lineText_eq_iff.mpr hrecut.lines))
  · intro h
    refine ⟨fun htext => ?_, fun heq => by rw [heq]⟩
    have hlines := lineText_eq_iff.mp htext
    by_contra hne
    exact h ⟨hlines, exists_moved hlines fun heq => hne (markedLines_injective heq)⟩

end SaltOperator
