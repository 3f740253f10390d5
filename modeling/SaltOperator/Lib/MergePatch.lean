import Mathlib

/-!
# JSON merge patches

A client that changed its copy of an object from `base` to `obj` and sends the
difference as a JSON merge patch does not send `obj`. The server applies the
difference to whatever it holds by then:

- in an object (`mergeMap`) each member is a patch of its own: a member equal in
  `base` and `obj` is not mentioned and keeps its current value, a changed or
  added one is set, a dropped one is removed (`getElem?_mergeMap`);
- anything else, a list included (`mergeWhole`), is replaced as a whole when it
  differs.
-/

namespace SaltOperator

variable {α β : Type} {cmp : α → α → Ordering}

/-- The value of a member that is patched as a whole, `cur` being what the
server holds. -/
def mergeWhole {γ : Type} [DecidableEq γ] (base obj cur : γ) : γ :=
  if base = obj then cur else obj

@[simp] theorem mergeWhole_same {γ : Type} [DecidableEq γ] (base cur : γ) :
    mergeWhole base base cur = cur := if_pos rfl

theorem mergeWhole_ne {γ : Type} [DecidableEq γ] {base obj : γ} (h : base ≠ obj) (cur : γ) :
    mergeWhole base obj cur = obj := if_neg h

@[simp] theorem mergeWhole_cur {γ : Type} [DecidableEq γ] (base obj : γ) :
    mergeWhole base obj base = obj := by
  unfold mergeWhole
  split <;> simp_all

variable [Std.TransCmp cmp] [DecidableEq β]

/-- The members of an object after the patch from `base` to `obj`. -/
def mergeMap (base obj cur : Std.ExtTreeMap α β cmp) : Std.ExtTreeMap α β cmp :=
  cur.filter (fun k _ => obj.contains k || !base.contains k) ∪
    obj.filter (fun k v => base[k]? != some v)

variable [Std.LawfulEqCmp cmp]

/-- Members are patched one by one, each as a whole. -/
theorem getElem?_mergeMap (base obj cur : Std.ExtTreeMap α β cmp) (k : α) :
    (mergeMap base obj cur)[k]? = mergeWhole base[k]? obj[k]? cur[k]? := by
  unfold mergeMap mergeWhole
  rw [Std.ExtTreeMap.getElem?_union, Std.ExtTreeMap.getElem?_filter',
    Std.ExtTreeMap.getElem?_filter']
  cases hb : base[k]? <;> cases ho : obj[k]? <;> cases hc : cur[k]? <;>
    simp_all [Std.ExtTreeMap.contains_eq_isSome_getElem?, Option.filter]
  -- left: the member is in all three, and the author changed it or not
  split <;> rfl

/-- A patch leaves a member alone that its author did not change. -/
theorem getElem?_mergeMap_of_eq {base obj : Std.ExtTreeMap α β cmp} {k : α}
    (h : base[k]? = obj[k]?) (cur : Std.ExtTreeMap α β cmp) :
    (mergeMap base obj cur)[k]? = cur[k]? := by
  rw [getElem?_mergeMap, h, mergeWhole_same]

/-- A patch takes a member to its author's value where the author's copy was up
to date. -/
theorem getElem?_mergeMap_of_current {base obj cur : Std.ExtTreeMap α β cmp} {k : α}
    (h : cur[k]? = base[k]?) : (mergeMap base obj cur)[k]? = obj[k]? := by
  rw [getElem?_mergeMap, h, mergeWhole_cur]

end SaltOperator
