import Mathlib.Data.List.Basic
import Mathlib.Data.Nat.ModEq
/-!
# The Internet checksum

RFC 1071: the 16-bit words of a block of bytes, in network order, are added in ones'
complement arithmetic, where a carry out of the top comes back in at the bottom.  A
block that holds its own checksum adds up to `0xffff`.  Ones' complement addition is
addition modulo `0xffff`, and swapping the bytes of every word multiplies the sum by
`256` there, so it does not matter in which byte order the words are read.
-/

namespace InternetChecksum

/-- The words of a block in network order; an odd byte at the end is padded. -/
def words : List UInt8 → List Nat
  | a :: b :: rest => (a.toNat * 256 + b.toNat) :: words rest
  | [a] => [a.toNat * 256]
  | [] => []

def add (a b : Nat) : Nat := if a + b < 0x10000 then a + b else a + b - 0xffff

def sum (block : List UInt8) : Nat := (words block).foldl add 0

def Verifies (block : List UInt8) : Prop := sum block = 0xffff

instance (block : List UInt8) : Decidable (Verifies block) :=
  inferInstanceAs (Decidable (_ = _))

/-! ## Ones' complement sums are sums modulo `0xffff` -/

/-- What a partial sum is: a word, congruent to the sum, and zero only if the sum is. -/
structure Represents (s total : Nat) : Prop where
  word : s < 0x10000
  congr : s ≡ total [MOD 0xffff]
  pos : 0 < total → 0 < s

theorem Represents.add {s total w : Nat} (h : Represents s total) (hw : w < 0x10000) :
    Represents (add s w) (total + w) := by
  obtain ⟨hword, hcongr, hpos⟩ := h
  unfold InternetChecksum.add
  unfold Nat.ModEq at hcongr
  split
  · exact ⟨by omega, by unfold Nat.ModEq; omega, by omega⟩
  · exact ⟨by omega, by unfold Nat.ModEq; omega, by omega⟩

theorem Represents.foldl {ws : List Nat} (hws : ∀ w ∈ ws, w < 0x10000) {s total : Nat}
    (h : Represents s total) : Represents (ws.foldl InternetChecksum.add s) (total + ws.sum) := by
  induction ws generalizing s total with
  | nil => simpa using h
  | cons w ws ih =>
      have hnext := ih (fun w' hw' => hws w' (by simp [hw'])) (h.add (hws w (by simp)))
      simpa [Nat.add_assoc] using hnext

theorem words_lt (block : List UInt8) : ∀ w ∈ words block, w < 0x10000 := by
  induction block using words.induct with
  | case1 a b rest ih =>
      have ha := a.toNat_lt
      have hb := b.toNat_lt
      simp only [words, List.mem_cons, forall_eq_or_imp]
      exact ⟨by omega, ih⟩
  | case2 a =>
      have ha := a.toNat_lt
      simp only [words, List.mem_singleton, forall_eq]
      omega
  | case3 => simp [words]

theorem sum_represents (block : List UInt8) : Represents (sum block) (words block).sum := by
  have hzero : Represents 0 0 := ⟨by decide, rfl, id⟩
  have hsum := hzero.foldl (words_lt block)
  rwa [Nat.zero_add] at hsum

/-- The only word that is congruent to zero without being it is `0xffff`. -/
theorem verifies_of_modEq {block : List UInt8} (hmod : (words block).sum ≡ 0 [MOD 0xffff])
    (hpos : 0 < (words block).sum) : Verifies block := by
  obtain ⟨hword, hcongr, hsum⟩ := sum_represents block
  have hzero := hcongr.trans hmod
  have := hsum hpos
  unfold Verifies
  unfold Nat.ModEq at hzero
  omega

/-! ## The closed form -/

/-- The ones' complement sum of words that add up to `total`. -/
def reduce (total : Nat) : Nat := if total = 0 then 0 else (total - 1) % 0xffff + 1

theorem reduce_lt (total : Nat) : reduce total < 0x10000 := by
  rw [reduce]
  split_ifs <;> omega

theorem add_reduce (total : Nat) {w : Nat} (hw : w < 0x10000) :
    add (reduce total) w = reduce (total + w) := by
  simp only [add, reduce]
  split_ifs <;> omega

theorem foldl_add_reduce {ws : List Nat} (hws : ∀ w ∈ ws, w < 0x10000) (total : Nat) :
    ws.foldl add (reduce total) = reduce (total + ws.sum) := by
  induction ws generalizing total with
  | nil => simp
  | cons w ws ih =>
      rw [List.foldl_cons, add_reduce total (hws w (by simp)),
        ih (fun w' hw' => hws w' (by simp [hw'])), List.sum_cons, Nat.add_assoc]

/-! ## Byte order -/

/-- The words of a block as a little-endian host reads them. -/
def swappedWords : List UInt8 → List Nat
  | a :: b :: rest => (a.toNat + 256 * b.toNat) :: swappedWords rest
  | [a] => [a.toNat]
  | [] => []

theorem words_sum_modEq (block : List UInt8) :
    (words block).sum ≡ 256 * (swappedWords block).sum [MOD 0xffff] := by
  unfold Nat.ModEq
  induction block using words.induct with
  | case1 a b rest ih =>
      simp only [words, swappedWords, List.sum_cons]
      omega
  | case2 a =>
      simp only [words, swappedWords, List.sum_singleton]
      omega
  | case3 => rfl

theorem eq_map_range {g : List UInt8 → List Nat} {f : UInt8 → UInt8 → Nat} (hnil : g [] = [])
    (hcons : ∀ a b rest, g (a :: b :: rest) = f a b :: g rest) {n : Nat} {block : List UInt8}
    (h : block.length = 2 * n) :
    g block = (List.range n).map fun i => f (block.getD (2 * i) 0) (block.getD (2 * i + 1) 0) := by
  induction n generalizing block with
  | zero =>
      obtain rfl : block = [] := List.length_eq_zero_iff.mp h
      exact hnil
  | succ n ih =>
      match block, h with
      | a :: b :: rest, h =>
        have hrest : rest.length = 2 * n := by
          simp only [List.length_cons] at h
          omega
        rw [hcons, ih hrest, List.range_succ_eq_map, List.map_cons, List.map_map]
        rfl

theorem words_append {front : List UInt8} (h : front.length % 2 = 0) (back : List UInt8) :
    words (front ++ back) = words front ++ words back := by
  induction front using words.induct with
  | case1 a b rest ih =>
      rw [List.length_cons, List.length_cons] at h
      rw [List.cons_append, List.cons_append, words, words, ih (by omega), List.cons_append]
  | case2 a => cases h
  | case3 => rfl

/-- Reading the words in the other byte order swaps the bytes of their sum. -/
theorem reduce_words_sum (block : List UInt8) :
    reduce (words block).sum =
      reduce (swappedWords block).sum % 256 * 256 + reduce (swappedWords block).sum / 256 := by
  have hzero : (words block).sum = 0 ↔ (swappedWords block).sum = 0 := by
    induction block using words.induct with
    | case1 a b rest ih =>
        simp only [words, swappedWords, List.sum_cons]
        omega
    | case2 a =>
        simp only [words, swappedWords, List.sum_singleton]
        omega
    | case3 => simp [words, swappedWords]
  have hmod := words_sum_modEq block
  unfold Nat.ModEq at hmod
  simp only [reduce]
  split_ifs <;> omega

theorem verifies_of_swapped {block : List UInt8}
    (hmod : (swappedWords block).sum ≡ 0 [MOD 0xffff]) (hpos : 0 < (words block).sum) :
    Verifies block :=
  verifies_of_modEq ((words_sum_modEq block).trans (hmod.mul_left 256)) hpos

end InternetChecksum
