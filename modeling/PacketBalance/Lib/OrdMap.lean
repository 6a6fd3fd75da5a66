import Std.Data.ExtTreeMap
import Mathlib.Data.List.Nodup
import Mathlib.Data.List.Perm.Basic
import Mathlib.Tactic.Common
/-!
# Ordered maps over a lawful key order

The lookup rules of `Std.ExtTreeMap` stated with equality of keys in place of
`compare`, and the content of a map that is filled by a loop.
-/

namespace OrdMap

open Std

section Membership

variable {α β : Type} [Ord α] [TransOrd α]

theorem mem_iff {m : ExtTreeMap α β} {a : α} : a ∈ m ↔ ∃ v, m[a]? = some v := by
  rw [ExtTreeMap.mem_iff_isSome_getElem?, Option.isSome_iff_exists]

theorem notMem_iff {m : ExtTreeMap α β} {a : α} : a ∉ m ↔ m[a]? = none := by
  rw [mem_iff, not_exists, Option.eq_none_iff_forall_ne_some]

end Membership

variable {α β : Type} [Ord α] [TransOrd α] [LawfulEqOrd α] [DecidableEq α]

theorem getElem?_insert (m : ExtTreeMap α β) (k a : α) (v : β) :
    (m.insert k v)[a]? = if a = k then some v else m[a]? := by
  rw [ExtTreeMap.getElem?_insert]
  simp only [LawfulEqCmp.compare_eq_iff_eq, eq_comm (a := a)]

theorem getElem?_erase (m : ExtTreeMap α β) (k a : α) :
    (m.erase k)[a]? = if a = k then none else m[a]? := by
  rw [ExtTreeMap.getElem?_erase]
  simp only [LawfulEqCmp.compare_eq_iff_eq, eq_comm (a := a)]

theorem getElem?_insertIfNew (m : ExtTreeMap α β) (k a : α) (v : β) :
    (m.insertIfNew k v)[a]? = if a = k ∧ k ∉ m then some v else m[a]? := by
  rw [ExtTreeMap.getElem?_insertIfNew]
  simp only [LawfulEqCmp.compare_eq_iff_eq, eq_comm (a := a)]

theorem insertIfNew_eq_insert {m : ExtTreeMap α β} {k : α} (hk : k ∉ m) (v : β) :
    m.insertIfNew k v = m.insert k v := by
  apply ExtTreeMap.ext_getElem?
  intro a
  simp [getElem?_insertIfNew, getElem?_insert, hk]

@[simp] theorem insert_insert (m : ExtTreeMap α β) (k : α) (v v' : β) :
    (m.insert k v).insert k v' = m.insert k v' := by
  apply ExtTreeMap.ext_getElem?
  intro a
  simp only [getElem?_insert]
  split_ifs <;> rfl

theorem insert_self {m : ExtTreeMap α β} {k : α} {v : β} (h : m[k]? = some v) :
    m.insert k v = m := by
  apply ExtTreeMap.ext_getElem?
  intro a
  rw [getElem?_insert]
  split_ifs with ha
  · rw [ha, h]
  · rfl

omit [DecidableEq α] in
theorem toList_eq_singleton {m : ExtTreeMap α β} {k : α} {v : β} (hk : m[k]? = some v)
    (honly : ∀ a ∈ m, a = k) : m.toList = [(k, v)] := by
  have hnodup : m.toList.Nodup := by
    refine List.Nodup.of_map Prod.fst ?_
    rw [ExtTreeMap.map_fst_toList_eq_keys]
    exact m.nodup_keys
  refine List.perm_singleton.mp ?_
  rw [List.perm_ext_iff_of_nodup hnodup (List.nodup_singleton _)]
  rintro ⟨a, b⟩
  rw [ExtTreeMap.mem_toList_iff_getElem?_eq_some, List.mem_singleton]
  constructor
  · intro hb
    obtain rfl := honly a (mem_iff.mpr ⟨b, hb⟩)
    rw [Option.some.inj (hb.symm.trans hk)]
  · rintro ⟨⟩
    exact hk

theorem erase_of_notMem {m : ExtTreeMap α β} {k : α} (h : k ∉ m) : m.erase k = m := by
  apply ExtTreeMap.ext_getElem?
  intro a
  rw [getElem?_erase]
  split_ifs with ha
  · rw [ha, notMem_iff.mp h]
  · rfl

theorem getElem?_foldl_erase (l : List α) (m : ExtTreeMap α β) (a : α) :
    (l.foldl (fun m k => m.erase k) m)[a]? = if a ∈ l then none else m[a]? := by
  induction l generalizing m with
  | nil => simp
  | cons k l ih =>
      rw [List.foldl_cons, ih, getElem?_erase]
      by_cases hl : a ∈ l <;> by_cases hk : a = k <;> simp [hl, hk]

theorem getElem?_foldl_insert {ι : Type} (key : ι → α) (val : ι → β) (l : List ι)
    (m : ExtTreeMap α β) (hnodup : (l.map key).Nodup) (a : α) (v : β) :
    (l.foldl (fun m i => m.insert (key i) (val i)) m)[a]? = some v ↔
      (∃ i ∈ l, key i = a ∧ val i = v) ∨ (a ∉ l.map key ∧ m[a]? = some v) := by
  induction l generalizing m with
  | nil => simp
  | cons i l ih =>
      obtain ⟨hnot, hnodup⟩ := List.nodup_cons.mp hnodup
      rw [List.foldl_cons, ih _ hnodup, getElem?_insert]
      by_cases ha : a = key i
      · subst ha
        simp only [if_true, hnot, not_false_eq_true, true_and, List.mem_cons,
          exists_eq_or_imp, Option.some.injEq, List.map_cons, not_true_eq_false,
          false_and, or_false]
        exact or_comm
      · simp [ha, Ne.symm ha]

end OrdMap
