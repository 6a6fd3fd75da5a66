import Mathlib.Data.Nat.ModEq
import Mathlib.Data.Nat.GCD.Basic
import Mathlib.Data.Finset.Card
import Mathlib.Data.Finset.Range
import Mathlib.Algebra.Order.Group.Nat
/-!
# Walking a table in steps of a unit

Positions `c`, `c + skip`, `c + 2 * skip`, ... modulo the table size.  When the
step is coprime to the size the walk visits every position within one lap.
-/

namespace ModularWalk

def position (M c skip j : Nat) : Nat := (c + j * skip) % M

theorem position_zero {M c : Nat} (skip : Nat) (hc : c < M) :
    position M c skip 0 = c := by
  simp [position, Nat.mod_eq_of_lt hc]

theorem position_succ (M c skip j : Nat) :
    position M ((c + skip) % M) skip j = position M c skip (j + 1) := by
  unfold position
  rw [Nat.add_mod, Nat.mod_mod, ← Nat.add_mod, Nat.add_mul, Nat.one_mul]
  congr 1
  omega

theorem position_lt {M : Nat} (c skip j : Nat) (hM : 0 < M) :
    position M c skip j < M := Nat.mod_lt _ hM

theorem position_injOn {M skip : Nat} (hcop : Nat.Coprime M skip) (c : Nat) :
    Set.InjOn (position M c skip) (Finset.range M) := by
  intro i hi j hj hij
  have hi' : i < M := by simpa using hi
  have hj' : j < M := by simpa using hj
  have hmod : c + i * skip ≡ c + j * skip [MOD M] := hij
  have hmul : i * skip ≡ j * skip [MOD M] := Nat.ModEq.add_left_cancel' c hmod
  have hmodij : i ≡ j [MOD M] := Nat.ModEq.cancel_right_of_coprime hcop hmul
  exact Nat.ModEq.eq_of_lt_of_lt hmodij hi' hj'

theorem exists_position_eq {M skip : Nat} (hcop : Nat.Coprime M skip) (c : Nat)
    {x : Nat} (hx : x < M) : ∃ j < M, position M c skip j = x := by
  have hM : 0 < M := Nat.zero_lt_of_lt hx
  have hmaps : (Finset.range M).image (position M c skip) ⊆ Finset.range M := by
    intro y hy
    obtain ⟨j, -, rfl⟩ := Finset.mem_image.mp hy
    exact Finset.mem_range.mpr (position_lt c skip j hM)
  have hcard : (Finset.range M).card ≤
      ((Finset.range M).image (position M c skip)).card := by
    rw [Finset.card_image_of_injOn (position_injOn hcop c)]
  have himage := Finset.eq_of_subset_of_card_le hmaps hcard
  have hmem : x ∈ (Finset.range M).image (position M c skip) := by
    rw [himage]
    exact Finset.mem_range.mpr hx
  obtain ⟨j, hj, hjx⟩ := Finset.mem_image.mp hmem
  exact ⟨j, Finset.mem_range.mp hj, hjx⟩

end ModularWalk
