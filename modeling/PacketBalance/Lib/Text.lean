import PacketBalance.Lib.Lines
import Mathlib.Data.List.TakeWhile
import Mathlib.Data.Nat.Digits.Defs
import Mathlib.Tactic.Common
import Mathlib.Tactic.Ring
/-!
# Decimal numbers and separators in text

Text is a list of characters.  A decimal number is a non-empty run of digits, leading zeros
allowed; `Nat.toDigits 10` writes one and `value` reads it.  A text can be split at the last
place where a separator stands.
-/

namespace Text

variable {l m : List Char} {c : Char}

/-! ## Decimal numbers -/

structure IsDecimal (l : List Char) : Prop where
  ne_nil : l ≠ []
  digits : ∀ c ∈ l, c.isDigit = true

instance (l : List Char) : Decidable (IsDecimal l) :=
  decidable_of_iff (l ≠ [] ∧ l.all Char.isDigit = true)
    ⟨fun h => ⟨h.1, List.all_eq_true.mp h.2⟩, fun h => ⟨h.ne_nil, List.all_eq_true.mpr h.digits⟩⟩

theorem IsDecimal.notMem (h : IsDecimal l) (hc : c.isDigit = false) : c ∉ l := by
  intro hmem
  rw [h.digits c hmem] at hc
  cases hc

def digit (c : Char) : Nat := c.toNat - '0'.toNat

def value (l : List Char) : Nat := Nat.ofDigitChars 10 l 0

theorem digit_lt (h : c.isDigit = true) : digit c < 10 := by
  have hrange := Char.isDigit_iff_toNat.mp h
  simp only [Char.reduceToNat] at hrange
  simp only [digit, Char.reduceToNat]
  omega

@[simp] theorem value_nil : value [] = 0 := rfl

theorem value_cons (c : Char) (l : List Char) :
    value (c :: l) = 10 ^ l.length * digit c + value l := by
  rw [value, Nat.ofDigitChars_cons, Nat.ofDigitChars_eq_ofDigitChars_zero, Nat.mul_zero,
    Nat.zero_add]
  rfl

theorem add_value_cons (v : Nat) (c : Char) (l : List Char) :
    10 ^ (l.length + 1) * v + value (c :: l) = 10 ^ l.length * (v * 10 + digit c) + value l := by
  rw [value_cons, Nat.pow_succ]
  ring

theorem value_lt (h : ∀ c ∈ l, c.isDigit = true) : value l < 10 ^ l.length := by
  induction l with
  | nil => decide
  | cons c l ih =>
      have hc := digit_lt (h c (by simp))
      have hl := ih fun c' hc' => h c' (by simp [hc'])
      rw [value_cons, List.length_cons, Nat.pow_succ]
      calc 10 ^ l.length * digit c + value l
          < 10 ^ l.length * digit c + 10 ^ l.length := by omega
        _ = 10 ^ l.length * (digit c + 1) := (Nat.mul_succ _ _).symm
        _ ≤ 10 ^ l.length * 10 := Nat.mul_le_mul_left _ hc

theorem isDecimal_toDigits (n : Nat) : IsDecimal (Nat.toDigits 10 n) where
  ne_nil := Nat.toDigits_ne_nil
  digits _ hc := Nat.isDigit_of_mem_toDigits (by decide) (by decide) hc

@[simp] theorem value_toDigits (n : Nat) : value (Nat.toDigits 10 n) = n :=
  Nat.ofDigitChars_ten_toDigits

/-! ## Runs -/

/-- The longest run at the front: it ends with the text or before another character. -/
theorem takeWhile_dropWhile_iff {p : Char → Bool} {run rest : List Char} :
    l.takeWhile p = run ∧ l.dropWhile p = rest ↔
      l = run ++ rest ∧ (∀ c ∈ run, p c = true) ∧ ∀ c ∈ rest.head?, p c = false := by
  constructor
  · rintro ⟨rfl, rfl⟩
    refine ⟨List.takeWhile_append_dropWhile.symm, fun _ => List.mem_takeWhile_imp, ?_⟩
    intro c hc
    have hhead := List.head?_dropWhile_not p l
    rwa [Option.mem_def.mp hc] at hhead
  · rintro ⟨rfl, hrun, hrest⟩
    rw [List.takeWhile_append_of_pos hrun, List.dropWhile_append_of_pos hrun]
    cases rest with
    | nil => simp
    | cons c rest => simp [hrest c rfl]

/-! ## Separators -/

def rfind (c : Char) (l : List Char) : Option Nat :=
  (l.reverse.idxOf? c).map fun i => l.length - 1 - i

theorem rfind_eq_some_iff {i : Nat} :
    rfind c l = some i ↔ ∃ a b, l = a ++ c :: b ∧ c ∉ b ∧ a.length = i := by
  simp only [rfind, Option.map_eq_some_iff, Lines.idxOf?_eq_some_iff]
  constructor
  · rintro ⟨_, ⟨b, a, hl, hnot, rfl⟩, rfl⟩
    have hl' : l = a.reverse ++ c :: b.reverse := by
      rw [← l.reverse_reverse, hl]
      simp
    exact ⟨a.reverse, b.reverse, hl', by simpa using hnot, by simp [hl']⟩
  · rintro ⟨a, b, rfl, hnot, rfl⟩
    exact ⟨b.length, ⟨b.reverse, a.reverse, by simp, by simpa using hnot, by simp⟩, by simp⟩

end Text
