import Mathlib.Algebra.BigOperators.Fin
import Mathlib.Data.Fintype.BigOperators
/-!
# Counting

How many members of a family have a property, and what one change of one member does to that
number.  A tally counts occurrences by key; its total goes up by one with each occurrence.
-/

/-! ## Families -/

namespace Census

variable {ι α : Type} [Fintype ι] (p q : α → Prop) [DecidablePred p] [DecidablePred q]

def count (f : ι → α) : Nat := (Finset.univ.filter fun i => p (f i)).card

theorem count_eq_sum (f : ι → α) : count p f = ∑ i, if p (f i) then 1 else 0 :=
  Finset.card_filter _ _

theorem count_le_card (f : ι → α) : count p f ≤ Fintype.card ι :=
  Finset.card_le_univ _

theorem count_add_count (h : ∀ a, p a → ¬ q a) (f : ι → α) :
    count p f + count q f = count (fun a => p a ∨ q a) f := by
  classical
  rw [count, count, count, Finset.filter_or, Finset.card_union_of_disjoint]
  exact Finset.disjoint_filter.mpr fun i _ => h (f i)

theorem countP_finRange {n : Nat} (f : Fin n → α) :
    (List.finRange n).countP (fun i => p (f i)) = count p f := by
  rw [count, Finset.card_def, Finset.filter_val, ← Multiset.countP_eq_card_filter]
  rfl

theorem count_update [DecidableEq ι] (f : ι → α) (i : ι) (a : α) :
    count p (Function.update f i a) + (if p (f i) then 1 else 0) =
      count p f + (if p a then 1 else 0) := by
  have hrest : ∑ j ∈ Finset.univ.erase i, (if p (Function.update f i a j) then 1 else 0) =
      ∑ j ∈ Finset.univ.erase i, if p (f j) then 1 else 0 :=
    Finset.sum_congr rfl fun j hj => by
      rw [Function.update_of_ne (Finset.ne_of_mem_erase hj)]
  rw [count_eq_sum, count_eq_sum, ← Finset.add_sum_erase _ _ (Finset.mem_univ i),
    ← Finset.add_sum_erase Finset.univ (fun j => if p (f j) then 1 else 0) (Finset.mem_univ i),
    hrest, Function.update_self]
  omega

end Census

/-! ## Tallies -/

abbrev Tally (κ : Type) := List (κ × Nat)

namespace Tally

def total {κ : Type} (m : Tally κ) : Nat := (m.map Prod.snd).sum

variable {κ : Type} [LinearOrder κ]

def bump (k : κ) : Tally κ → Tally κ
  | [] => [(k, 1)]
  | (k', n) :: m =>
      if k = k' then (k', n + 1) :: m
      else if k < k' then (k, 1) :: (k', n) :: m
      else (k', n) :: bump k m

theorem total_bump (k : κ) (m : Tally κ) : total (bump k m) = total m + 1 := by
  induction m with
  | nil => rfl
  | cons e m ih =>
      obtain ⟨k', n⟩ := e
      rw [bump]
      simp only [total] at ih ⊢
      split_ifs <;> simp only [List.map_cons, List.sum_cons] <;> omega

theorem total_foldl_bump {β : Type} (p : β → Prop) [DecidablePred p] (key : β → κ) (l : List β)
    (m : Tally κ) :
    total (l.foldl (fun m b => if p b then bump (key b) m else m) m) = total m + l.countP p := by
  induction l generalizing m with
  | nil => simp
  | cons b l ih =>
      rw [List.foldl_cons, ih]
      by_cases hb : p b
      · rw [if_pos hb, total_bump, List.countP_cons_of_pos (by simpa using hb)]
        omega
      · rw [if_neg hb, List.countP_cons_of_neg (by simpa using hb)]

end Tally
