import Mathlib.Tactic.Common
import Mathlib.Tactic.IntervalCases
/-!
# Words in memory

A word and the bytes it is stored as, on a little-endian and on a big-endian host.  Storing
and loading are inverse to each other.  Bits are numbered in memory order, the high bit of
the first byte first, which is how network masks count them; the bitwise operations of a
word act on each of them.
-/

inductive ByteOrder where
  | little
  | big
deriving DecidableEq, Repr

namespace ByteOrder

/-- Bytes given from the low one on, in memory order; and the other way round. -/
def arrange (o : ByteOrder) (bytes : List UInt8) : List UInt8 :=
  match o with
  | .little => bytes
  | .big => bytes.reverse

def value : List UInt8 → Nat
  | [] => 0
  | b :: bs => b.toNat + 256 * value bs

def bytes16 (o : ByteOrder) (w : UInt16) : List UInt8 :=
  o.arrange [w.toUInt8, (w >>> 8).toUInt8]

def bytes32 (o : ByteOrder) (w : UInt32) : List UInt8 :=
  o.arrange [w.toUInt8, (w >>> 8).toUInt8, (w >>> 16).toUInt8, (w >>> 24).toUInt8]

def word16 (o : ByteOrder) (bytes : List UInt8) : UInt16 := UInt16.ofNat (value (o.arrange bytes))

def word32 (o : ByteOrder) (bytes : List UInt8) : UInt32 := UInt32.ofNat (value (o.arrange bytes))

/-! ## Storing and loading -/

@[simp] theorem length_bytes16 (o : ByteOrder) (w : UInt16) : (o.bytes16 w).length = 2 := by
  cases o <;> rfl

@[simp] theorem length_bytes32 (o : ByteOrder) (w : UInt32) : (o.bytes32 w).length = 4 := by
  cases o <;> rfl

@[simp] theorem arrange_arrange (o : ByteOrder) (bytes : List UInt8) :
    o.arrange (o.arrange bytes) = bytes := by
  cases o with
  | little => rfl
  | big => exact bytes.reverse_reverse

@[simp] theorem length_arrange (o : ByteOrder) (bytes : List UInt8) :
    (o.arrange bytes).length = bytes.length := by
  cases o with
  | little => rfl
  | big => exact bytes.length_reverse

theorem bytes16_ofNat_value (a b : UInt8) :
    [(UInt16.ofNat (value [a, b])).toUInt8, (UInt16.ofNat (value [a, b]) >>> 8).toUInt8] =
      [a, b] := by
  have ha := a.toNat_lt
  have hb := b.toNat_lt
  simp only [List.cons.injEq, and_true, ← UInt8.toNat_inj, UInt16.toNat_toUInt8,
    UInt16.toNat_shiftRight, UInt16.toNat_ofNat', value, UInt16.reduceToNat,
    Nat.shiftRight_eq_div_pow, Nat.reduceMod, Nat.reducePow]
  omega

theorem bytes32_ofNat_value (a b c d : UInt8) :
    [(UInt32.ofNat (value [a, b, c, d])).toUInt8, (UInt32.ofNat (value [a, b, c, d]) >>> 8).toUInt8,
      (UInt32.ofNat (value [a, b, c, d]) >>> 16).toUInt8,
      (UInt32.ofNat (value [a, b, c, d]) >>> 24).toUInt8] = [a, b, c, d] := by
  have ha := a.toNat_lt
  have hb := b.toNat_lt
  have hc := c.toNat_lt
  have hd := d.toNat_lt
  simp only [List.cons.injEq, and_true, ← UInt8.toNat_inj, UInt32.toNat_toUInt8,
    UInt32.toNat_shiftRight, UInt32.toNat_ofNat', value, UInt32.reduceToNat,
    Nat.shiftRight_eq_div_pow, Nat.reduceMod, Nat.reducePow]
  omega

theorem bytes16_word16 (o : ByteOrder) {bytes : List UInt8} (h : bytes.length = 2) :
    o.bytes16 (o.word16 bytes) = bytes := by
  obtain ⟨a, b, hab⟩ : ∃ a b, o.arrange bytes = [a, b] := by
    have hlen := (length_arrange o bytes).trans h
    match o.arrange bytes, hlen with
    | [a, b], _ => exact ⟨a, b, rfl⟩
  rw [bytes16, word16, hab, bytes16_ofNat_value, ← hab, arrange_arrange]

theorem bytes32_word32 (o : ByteOrder) {bytes : List UInt8} (h : bytes.length = 4) :
    o.bytes32 (o.word32 bytes) = bytes := by
  obtain ⟨a, b, c, d, habcd⟩ : ∃ a b c d, o.arrange bytes = [a, b, c, d] := by
    have hlen := (length_arrange o bytes).trans h
    match o.arrange bytes, hlen with
    | [a, b, c, d], _ => exact ⟨a, b, c, d, rfl⟩
  rw [bytes32, word32, habcd, bytes32_ofNat_value, ← habcd, arrange_arrange]

theorem word16_bytes16 (o : ByteOrder) (w : UInt16) : o.word16 (o.bytes16 w) = w := by
  have hw := w.toNat_lt
  rw [word16, bytes16, arrange_arrange, ← UInt16.toNat_inj]
  simp only [UInt16.toNat_toUInt8, UInt16.toNat_shiftRight, UInt16.toNat_ofNat', value,
    UInt16.reduceToNat, Nat.shiftRight_eq_div_pow, Nat.reduceMod, Nat.reducePow]
  omega

theorem word32_bytes32 (o : ByteOrder) (w : UInt32) : o.word32 (o.bytes32 w) = w := by
  have hw := w.toNat_lt
  rw [word32, bytes32, arrange_arrange, ← UInt32.toNat_inj]
  simp only [UInt32.toNat_toUInt8, UInt32.toNat_shiftRight, UInt32.toNat_ofNat', value,
    UInt32.reduceToNat, Nat.shiftRight_eq_div_pow, Nat.reduceMod, Nat.reducePow]
  omega

/-! ## Bits in memory order -/

def bit (o : ByteOrder) (w : UInt32) (i : Nat) : Bool :=
  ((o.bytes32 w).getD (i / 8) 0).toNat.testBit (7 - i % 8)

def place : ByteOrder → Nat → Nat
  | .little, i => 7 - i % 8 + 8 * (i / 8)
  | .big, i => 31 - i

theorem toNat_byte (w : UInt32) {k : Nat} (hk : k < 4) :
    ([w.toUInt8, (w >>> 8).toUInt8, (w >>> 16).toUInt8, (w >>> 24).toUInt8].getD k 0).toNat =
      w.toNat / 2 ^ (8 * k) % 2 ^ 8 := by
  interval_cases k <;>
    simp [UInt32.toNat_toUInt8, UInt32.toNat_shiftRight, Nat.shiftRight_eq_div_pow]

theorem bit_eq_testBit (o : ByteOrder) (w : UInt32) {i : Nat} (hi : i < 32) :
    o.bit w i = w.toNat.testBit (o.place i) := by
  cases o with
  | little =>
      rw [bit, bytes32, arrange, toNat_byte w (by omega), Nat.testBit_mod_two_pow,
        Nat.testBit_div_two_pow]
      simp only [place, show 7 - i % 8 < 8 by omega, decide_true, Bool.true_and]
  | big =>
      -- the byte is counted from the high end
      rw [bit, bytes32, arrange, List.getD_eq_getElem?_getD,
        List.getElem?_reverse (by simp only [List.length_cons, List.length_nil]; omega),
        ← List.getD_eq_getElem?_getD]
      have hplace : 7 - i % 8 + 8 * (4 - 1 - i / 8) = 31 - i := by omega
      simp only [List.length_cons, List.length_nil, Nat.zero_add, Nat.reduceAdd]
      rw [toNat_byte w (by omega), Nat.testBit_mod_two_pow, Nat.testBit_div_two_pow, hplace]
      simp only [place, show 7 - i % 8 < 8 by omega, decide_true, Bool.true_and]

theorem place_lt (o : ByteOrder) {i : Nat} (hi : i < 32) : o.place i < 32 := by
  cases o with
  | little => simp only [place]; omega
  | big => simp only [place]; omega

theorem place_place (o : ByteOrder) {i : Nat} (hi : i < 32) : o.place (o.place i) = i := by
  cases o with
  | little => simp only [place]; omega
  | big => simp only [place]; omega

theorem eq_of_bit (o : ByteOrder) {v w : UInt32} (h : ∀ i < 32, o.bit v i = o.bit w i) :
    v = w := by
  apply UInt32.toNat_inj.mp
  apply Nat.eq_of_testBit_eq
  intro j
  by_cases hj : j < 32
  · have hbit := h (o.place j) (o.place_lt hj)
    rwa [bit_eq_testBit o _ (o.place_lt hj), bit_eq_testBit o _ (o.place_lt hj),
      o.place_place hj] at hbit
  · have hpow : 2 ^ 32 ≤ 2 ^ j := Nat.pow_le_pow_right (by decide) (Nat.not_lt.mp hj)
    rw [Nat.testBit_lt_two_pow (v.toNat_lt.trans_le hpow),
      Nat.testBit_lt_two_pow (w.toNat_lt.trans_le hpow)]

section Bitwise

variable (o : ByteOrder) (v w : UInt32) {i : Nat}

theorem bit_and (hi : i < 32) : o.bit (v &&& w) i = (o.bit v i && o.bit w i) := by
  simp only [bit_eq_testBit o _ hi, UInt32.toNat_and, Nat.testBit_and]

theorem bit_or (hi : i < 32) : o.bit (v ||| w) i = (o.bit v i || o.bit w i) := by
  simp only [bit_eq_testBit o _ hi, UInt32.toNat_or, Nat.testBit_or]

theorem bit_not (hi : i < 32) : o.bit (~~~w) i = !o.bit w i := by
  have hw := w.toNat_lt
  rw [bit_eq_testBit o _ hi, bit_eq_testBit o _ hi, UInt32.toNat_not]
  have := Nat.testBit_two_pow_sub_succ hw (o.place i)
  simpa [place_lt o hi] using this

end Bitwise

end ByteOrder
