import Mathlib.Data.List.Nodup
import Mathlib.Algebra.Order.Group.Int

/-!
# A store of versioned objects

Objects are kept under keys. Each has an identity that no other object ever has, also none that
comes to stand under its key after it, and a generation that goes up with each change of what it
specifies. Readers may be behind: the versions there have been are remembered.

`Store.spec_eq` is what identity and generation are for: **two versions with the same identity and
generation specify the same**, however far apart they were stored.
-/

namespace SaltOperator

/-- What a store has to know of its objects. -/
structure Kind (V K S : Type) where
  key : V → K
  uid : V → Nat
  generation : V → Int
  spec : V → S

namespace Kind

variable {V K S : Type} (kind : Kind V K S)

/-- `v` can be stored in the place of `cur`: it is the same object, and if it specifies something
else its generation is higher. -/
structure Next (cur v : V) : Prop where
  key : kind.key v = kind.key cur
  uid : kind.uid v = kind.uid cur
  generation : kind.generation cur ≤ kind.generation v
  spec : kind.generation v = kind.generation cur → kind.spec v = kind.spec cur

theorem Next.refl (v : V) : kind.Next v v := ⟨rfl, rfl, le_rfl, fun _ => rfl⟩

end Kind

/-- The objects that are stored, the versions there have been, and the next identity. -/
structure Store {V K S : Type} (kind : Kind V K S) where
  objects : List V
  versions : List V
  next : Nat
  /-- One object is stored under a key. -/
  keys : (objects.map kind.key).Nodup
  stored : ∀ v ∈ objects, v ∈ versions
  fresh : ∀ v ∈ versions, kind.uid v < next
  /-- No version of a stored object is ahead of it. -/
  latest : ∀ cur ∈ objects, ∀ v ∈ versions, kind.uid v = kind.uid cur →
    kind.generation v ≤ kind.generation cur
  same : ∀ a ∈ versions, ∀ b ∈ versions, kind.uid a = kind.uid b → kind.key a = kind.key b
  specs : ∀ a ∈ versions, ∀ b ∈ versions, kind.uid a = kind.uid b →
    kind.generation a = kind.generation b → kind.spec a = kind.spec b

namespace Store

variable {V K S : Type} {kind : Kind V K S} (s : Store kind)

/-- Nothing has been stored. -/
def empty : Store kind where
  objects := []
  versions := []
  next := 0
  keys := List.nodup_nil
  stored := nofun
  fresh := nofun
  latest := nofun
  same := nofun
  specs := nofun

variable {s}

theorem eq_of_key {a b : V}
    (ha : a ∈ s.objects) (hb : b ∈ s.objects) (h : kind.key a = kind.key b) :
    a = b :=
  List.inj_on_of_nodup_map s.keys ha hb h

/-- **Versions of one identity and generation specify the same.** -/
theorem spec_eq {a b : V} (ha : a ∈ s.versions) (hb : b ∈ s.versions)
    (huid : kind.uid a = kind.uid b) (hgen : kind.generation a = kind.generation b) :
    kind.spec a = kind.spec b :=
  s.specs a ha b hb huid hgen

variable (s)

/-- An object is created under a key that is free. -/
def create (v : V) (hkey : kind.key v ∉ s.objects.map kind.key) (huid : kind.uid v = s.next) :
    Store kind where
  objects := v :: s.objects
  versions := v :: s.versions
  next := s.next + 1
  keys := List.nodup_cons.mpr ⟨hkey, s.keys⟩
  stored a ha := by
    rcases List.mem_cons.mp ha with rfl | ha
    · exact List.mem_cons_self
    · exact List.mem_cons_of_mem _ (s.stored a ha)
  fresh a ha := by
    rcases List.mem_cons.mp ha with rfl | ha
    · omega
    · exact Nat.lt_succ_of_lt (s.fresh a ha)
  latest cur hcur a ha heq := by
    -- a version that was there has an older identity than the new object
    rcases List.mem_cons.mp hcur with rfl | hold <;> rcases List.mem_cons.mp ha with rfl | ha'
    · exact le_rfl
    · have := s.fresh a ha'
      omega
    · have := s.fresh cur (s.stored cur hold)
      omega
    · exact s.latest cur hold a ha' heq
  same a ha b hb heq := by
    rcases List.mem_cons.mp ha with rfl | ha' <;> rcases List.mem_cons.mp hb with rfl | hb'
    · rfl
    · have := s.fresh b hb'
      omega
    · have := s.fresh a ha'
      omega
    · exact s.same a ha' b hb' heq
  specs a ha b hb heq hgen := by
    rcases List.mem_cons.mp ha with rfl | ha' <;> rcases List.mem_cons.mp hb with rfl | hb'
    · rfl
    · have := s.fresh b hb'
      omega
    · have := s.fresh a ha'
      omega
    · exact s.specs a ha' b hb' heq hgen

/-- The object under the key of `v` is gone. -/
def delete [DecidableEq K] (k : K) : Store kind where
  objects := s.objects.filter (kind.key · ≠ k)
  versions := s.versions
  next := s.next
  keys := s.keys.sublist (List.filter_sublist.map _)
  stored a ha := s.stored a (List.mem_filter.mp ha).1
  fresh := s.fresh
  latest cur hcur := s.latest cur (List.mem_filter.mp hcur).1
  same := s.same
  specs := s.specs

section replace

variable [DecidableEq K] {cur v : V}

/-- The objects with `v` in the place of the one under its key. -/
def putIn (kind : Kind V K S) (v : V) (objects : List V) : List V :=
  objects.map fun a => if kind.key a = kind.key v then v else a

theorem putIn_keys (objects : List V) :
    (putIn kind v objects).map kind.key = objects.map kind.key := by
  unfold putIn
  rw [List.map_map]
  refine List.map_congr_left fun a _ => ?_
  show kind.key (if _ then _ else _) = _
  split
  · exact Eq.symm ‹_›
  · rfl

theorem mem_putIn {objects : List V} {a : V} (ha : a ∈ putIn kind v objects) :
    a = v ∨ (a ∈ objects ∧ kind.key a ≠ kind.key v) := by
  obtain ⟨b, hb, rfl⟩ := List.mem_map.mp ha
  by_cases hkey : kind.key b = kind.key v
  · exact .inl (if_pos hkey)
  · rw [if_neg hkey]
    exact .inr ⟨hb, hkey⟩

/-- An object that stays what it was but for what `f` does not see. -/
theorem map_putIn {β : Type} {f : V → β} {objects : List V} (hkeys : (objects.map kind.key).Nodup)
    (hcur : cur ∈ objects) (hkey : kind.key v = kind.key cur) (hf : f v = f cur) :
    (putIn kind v objects).map f = objects.map f := by
  unfold putIn
  rw [List.map_map]
  refine List.map_congr_left fun a ha => ?_
  show f (if _ then _ else _) = f a
  split
  · rename_i heq
    rw [hf, List.inj_on_of_nodup_map hkeys ha hcur (heq.trans hkey)]
  · rfl

/-- Among the objects of some keys. -/
theorem filter_putIn {q : V → Bool} (hq : ∀ a, kind.key a = kind.key v → q a = q v)
    (objects : List V) : (putIn kind v objects).filter q = putIn kind v (objects.filter q) := by
  unfold putIn
  rw [List.filter_map]
  refine congrArg (List.map _) (List.filter_congr fun a _ => ?_)
  show q (if _ then _ else _) = q a
  split
  · exact (hq a ‹_›).symm
  · rfl

/-- How many objects are of a kind after one is replaced. -/
theorem countP_putIn {p : V → Bool} {objects : List V} (hkeys : (objects.map kind.key).Nodup)
    (hcur : cur ∈ objects) (hkey : kind.key v = kind.key cur) :
    (putIn kind v objects).countP p + (p cur).toNat = objects.countP p + (p v).toNat := by
  induction objects with
  | nil => cases hcur
  | cons a rest ih =>
    obtain ⟨hnotin, hrest⟩ := List.nodup_cons.mp hkeys
    have hput : putIn kind v (a :: rest) =
        (if kind.key a = kind.key v then v else a) :: putIn kind v rest := rfl
    have htoNat (b : Bool) : b.toNat = if b = true then 1 else 0 := by cases b <;> rfl
    rw [hput, List.countP_cons, List.countP_cons, htoNat, htoNat]
    rcases List.mem_cons.mp hcur with rfl | hmem
    · -- it is the first one, and the others stay
      have hsame : putIn kind v rest = rest := by
        refine (List.map_congr_left fun b hb => if_neg fun heq => hnotin ?_).trans
          (List.map_id rest)
        rw [← hkey, ← heq]
        exact List.mem_map_of_mem hb
      rw [hsame, if_pos hkey.symm]
      omega
    · have hne : kind.key a ≠ kind.key v := fun heq =>
        hnotin (heq.trans hkey ▸ List.mem_map_of_mem hmem)
      have hcount := ih hrest hmem
      rw [htoNat, htoNat] at hcount
      rw [if_neg hne]
      omega

/-- A new version of a stored object. -/
def replace (hcur : cur ∈ s.objects) (hv : kind.Next cur v) : Store kind where
  objects := putIn kind v s.objects
  versions := v :: s.versions
  next := s.next
  keys := by
    rw [putIn_keys]
    exact s.keys
  stored a ha := by
    rcases mem_putIn ha with rfl | ⟨ha, -⟩
    · exact List.mem_cons_self
    · exact List.mem_cons_of_mem _ (s.stored a ha)
  fresh a ha := by
    rcases List.mem_cons.mp ha with rfl | ha
    · exact hv.uid ▸ s.fresh cur (s.stored cur hcur)
    · exact s.fresh a ha
  latest a ha b hb heq := by
    rcases mem_putIn ha with rfl | ⟨ha', hne⟩ <;> rcases List.mem_cons.mp hb with rfl | hb'
    · exact le_rfl
    · exact le_trans (s.latest cur hcur b hb' (heq.trans hv.uid)) hv.generation
    · -- the same identity would mean the same key
      exact absurd (s.same a (s.stored a ha') cur (s.stored cur hcur) (heq.symm.trans hv.uid))
        (hv.key ▸ hne)
    · exact s.latest a ha' b hb' heq
  same a ha b hb heq := by
    rcases List.mem_cons.mp ha with rfl | ha' <;> rcases List.mem_cons.mp hb with rfl | hb'
    · rfl
    · exact hv.key.trans (s.same cur (s.stored cur hcur) b hb' (hv.uid.symm.trans heq))
    · exact (s.same a ha' cur (s.stored cur hcur) (heq.trans hv.uid)).trans hv.key.symm
    · exact s.same a ha' b hb' heq
  specs a ha b hb heq hgen := by
    have hnew {b : V} (hb : b ∈ s.versions) (hu : kind.uid b = kind.uid v)
        (hg : kind.generation b = kind.generation v) : kind.spec b = kind.spec v := by
      -- no version is ahead of `cur`, so the generation has not gone up
      have hle := s.latest cur hcur b hb (hu.trans hv.uid)
      have hgen : kind.generation v = kind.generation cur :=
        le_antisymm (hg ▸ hle) hv.generation
      rw [hv.spec hgen]
      exact s.specs b hb cur (s.stored cur hcur) (hu.trans hv.uid) (hg.trans hgen)
    rcases List.mem_cons.mp ha with rfl | ha' <;> rcases List.mem_cons.mp hb with rfl | hb'
    · rfl
    · exact (hnew hb' heq.symm hgen.symm).symm
    · exact hnew ha' heq hgen
    · exact s.specs a ha' b hb' heq hgen

end replace

end Store

end SaltOperator
