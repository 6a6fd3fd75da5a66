import PacketBalance.DataPlane.Encap
import PacketBalance.Lib.ByteOrder
/-!
# The outer checksum on every host

`ipv4_csum` adds the words of a header as they sit in memory and stores the result as it is.
Ones' complement addition does not care in which order the bytes of all words are read, so the
stored bytes are the same on a little-endian and on a big-endian host.
-/

namespace PacketBalance

open InternetChecksum

def csumWords (o : ByteOrder) (hdr : Frame) : List UInt16 :=
  (List.range 10).map fun i => o.word16 [hdr.byte (2 * i), hdr.byte (2 * i + 1)]

/-- The sum of the loop in `ipv4_csum`, after the two folds. -/
def foldedSum (ws : List UInt16) : UInt32 :=
  foldCarries (foldCarries (ws.foldl (fun s w => s + w.toUInt32) 0))

def ipv4CsumOn (o : ByteOrder) (hdr : Frame) : UInt16 := (~~~ foldedSum (csumWords o hdr)).toUInt16

/-- The header with `outer->check` assigned. -/
def storeCheck (o : ByteOrder) (hdr : Frame) (check : UInt16) : Frame :=
  hdr.take 10 ++ (o.bytes16 check ++ hdr.drop 12)

/-! ## Two folds -/

theorem toNat_foldedSum {ws : List UInt16} (h : ws.length = 10) :
    (foldedSum ws).toNat = reduce (ws.map UInt16.toNat).sum := by
  have hsum := sum_toNat_le ws
  have hloop := toNat_foldl_add ws 0 (by rw [h]; decide)
  have honce := toNat_foldCarries (ws.foldl (fun s w => s + w.toUInt32) 0)
  have htwice := toNat_foldCarries (foldCarries (ws.foldl (fun s w => s + w.toUInt32) 0))
  rw [UInt32.toNat_zero, Nat.zero_add] at hloop
  rw [foldedSum, reduce]
  split_ifs <;> omega

theorem toNat_ipv4CsumOn (o : ByteOrder) (hdr : Frame) :
    (ipv4CsumOn o hdr).toNat = 65535 - reduce ((csumWords o hdr).map UInt16.toNat).sum := by
  have hfolded := toNat_foldedSum (show (csumWords o hdr).length = 10 by simp [csumWords])
  have hreduce := reduce_lt ((csumWords o hdr).map UInt16.toNat).sum
  have hsize : UInt32.size = 4294967296 := rfl
  rw [ipv4CsumOn, UInt32.toNat_toUInt16, UInt32.toNat_not, hfolded]
  omega

/-! ## Byte order -/

section Order

variable {hdr : Frame}

theorem toNat_word16_big (a b : UInt8) :
    (ByteOrder.big.word16 [a, b]).toNat = a.toNat * 256 + b.toNat := by
  have ha := a.toNat_lt
  have hb := b.toNat_lt
  rw [show ByteOrder.big.word16 [a, b] = UInt16.ofNat (ByteOrder.value [b, a]) from rfl,
    UInt16.toNat_ofNat']
  simp only [ByteOrder.value]
  omega

theorem toNat_word16_little (a b : UInt8) :
    (ByteOrder.little.word16 [a, b]).toNat = a.toNat + 256 * b.toNat := by
  have ha := a.toNat_lt
  have hb := b.toNat_lt
  rw [show ByteOrder.little.word16 [a, b] = UInt16.ofNat (ByteOrder.value [a, b]) from rfl,
    UInt16.toNat_ofNat']
  simp only [ByteOrder.value]
  omega

theorem csumWords_big (h : hdr.length = 20) :
    (csumWords .big hdr).map UInt16.toNat = words hdr := by
  rw [csumWords, List.map_map, eq_map_range (g := words) (f := fun a b => a.toNat * 256 + b.toNat)
    rfl (fun _ _ _ => rfl) (show hdr.length = 2 * 10 from h)]
  exact List.map_congr_left fun i _ => toNat_word16_big _ _

theorem csumWords_little (h : hdr.length = 20) :
    (csumWords .little hdr).map UInt16.toNat = swappedWords hdr := by
  rw [csumWords, List.map_map, eq_map_range (g := swappedWords)
    (f := fun a b => a.toNat + 256 * b.toNat) rfl (fun _ _ _ => rfl)
    (show hdr.length = 2 * 10 from h)]
  exact List.map_congr_left fun i _ => toNat_word16_little _ _

theorem ipv4CsumOn_little (hdr : Frame) : ipv4CsumOn .little hdr = ipv4Csum hdr := by
  have hload : ∀ i, ByteOrder.little.word16 [hdr.byte (2 * i), hdr.byte (2 * i + 1)] =
      hdr.load16 (2 * i) := by
    intro i
    apply UInt16.toNat_inj.mp
    rw [toNat_word16_little, toNat_load16]
  simp only [ipv4CsumOn, foldedSum, csumWords, hload, List.foldl_map]
  rfl

/-- The bytes that are stored do not depend on the host. -/
theorem bytes16_ipv4CsumOn (h : hdr.length = 20) :
    ByteOrder.little.bytes16 (ipv4CsumOn .little hdr) =
      ByteOrder.big.bytes16 (ipv4CsumOn .big hdr) := by
  have hlittle := toNat_ipv4CsumOn .little hdr
  have hbig := toNat_ipv4CsumOn .big hdr
  rw [csumWords_little h] at hlittle
  rw [csumWords_big h, reduce_words_sum] at hbig
  have hreduce := reduce_lt (swappedWords hdr).sum
  have hstored : ∀ v w : UInt16, v.toNat % 256 = w.toNat / 256 → v.toNat / 256 = w.toNat % 256 →
      ByteOrder.little.bytes16 v = ByteOrder.big.bytes16 w := by
    intro v w hlo hhi
    have hfst : v.toUInt8 = (w >>> 8).toUInt8 := by
      rw [← UInt8.toNat_inj, toNat_byte0, toNat_byte1, hlo]
    have hsnd : (v >>> 8).toUInt8 = w.toUInt8 := by
      rw [← UInt8.toNat_inj, toNat_byte1, toNat_byte0, hhi]
    simp [ByteOrder.bytes16, ByteOrder.arrange, hfst, hsnd]
  generalize reduce (swappedWords hdr).sum = r at hlittle hbig hreduce
  obtain ⟨hi, lo, rfl, hlo, hhi⟩ : ∃ hi lo, r = 256 * hi + lo ∧ lo < 256 ∧ hi < 256 :=
    ⟨r / 256, r % 256, by omega, by omega, by omega⟩
  have hdivMod : ∀ {q r : Nat}, r < 256 → (256 * q + r) / 256 = q ∧ (256 * q + r) % 256 = r := by
    intro q r hr
    omega
  rw [(hdivMod hlo).1, (hdivMod hlo).2] at hbig
  have hlittle' : (ipv4CsumOn .little hdr).toNat = 256 * (255 - hi) + (255 - lo) := by omega
  have hbig' : (ipv4CsumOn .big hdr).toNat = 256 * (255 - lo) + (255 - hi) := by omega
  apply hstored
  · rw [hlittle', hbig', (hdivMod (by omega)).2, (hdivMod (by omega)).1]
  · rw [hlittle', hbig', (hdivMod (by omega)).1, (hdivMod (by omega)).2]

theorem sum_words_storeCheck (hlen : hdr.length = 20) (h10 : hdr.byte 10 = 0)
    (h11 : hdr.byte 11 = 0) (check : UInt16) :
    (words (storeCheck .big hdr check)).sum = (words hdr).sum + check.toNat := by
  have hfront : (hdr.take 10).length % 2 = 0 := by simp [hlen]
  have hsplit : hdr = hdr.take 10 ++ (0 :: 0 :: hdr.drop 12) := by
    have hb10 : hdr[10] = 0 := by simpa [Frame.byte, List.getD_eq_getElem?_getD, hlen] using h10
    have hb11 : hdr[11] = 0 := by simpa [Frame.byte, List.getD_eq_getElem?_getD, hlen] using h11
    have hdrop : hdr.drop 10 = hdr[10] :: hdr[11] :: hdr.drop 12 := by
      rw [List.drop_eq_getElem_cons (by omega), List.drop_eq_getElem_cons (by omega)]
    rw [← hb10]
    nth_rewrite 2 [hb10]
    rw [← hb11, ← hdrop, List.take_append_drop]
  have hbytes : ByteOrder.big.bytes16 check = [(check >>> 8).toUInt8, check.toUInt8] := rfl
  have hword := toNat_byte0 check
  have hword' := toNat_byte1 check
  have hzero : (0 : UInt8).toNat = 0 := rfl
  rw [storeCheck, hbytes, words_append hfront]
  conv_rhs => rw [hsplit, words_append hfront]
  simp only [List.cons_append, List.nil_append, words, List.sum_append, List.sum_cons]
  omega

theorem verifies_storeCheck_big (hlen : hdr.length = 20) (h10 : hdr.byte 10 = 0)
    (h11 : hdr.byte 11 = 0) : Verifies (storeCheck .big hdr (ipv4CsumOn .big hdr)) := by
  have hsum := sum_words_storeCheck hlen h10 h11 (ipv4CsumOn .big hdr)
  have hcheck := toNat_ipv4CsumOn .big hdr
  rw [csumWords_big hlen, reduce] at hcheck
  apply verifies_of_modEq
  · rw [hsum, hcheck]
    unfold Nat.ModEq
    split_ifs <;> omega
  · rw [hsum, hcheck]
    split_ifs <;> omega

theorem outerHeader_eq_storeCheck (saddr daddr : UInt32) (innerLen : Nat) (tos : UInt8) :
    outerHeader saddr daddr innerLen tos (ipv4Csum (outerHeader saddr daddr innerLen tos 0)) =
      storeCheck .little (outerHeader saddr daddr innerLen tos 0)
        (ipv4CsumOn .little (outerHeader saddr daddr innerLen tos 0)) := by
  rw [ipv4CsumOn_little]
  rfl

end Order

/-- Two folds bring ten words to their ones' complement sum; the checksum, stored as the host
stores a word, makes the header add up to `0xffff`, and it is the same bytes on every host. -/
theorem outer_checksum :
    (∀ ws : List UInt16, ws.length = 10 →
      (foldedSum ws).toNat < 0x10000 ∧ (foldedSum ws).toNat = (ws.map UInt16.toNat).foldl add 0) ∧
    ∀ hdr : Frame, hdr.length = 20 → hdr.byte 10 = 0 → hdr.byte 11 = 0 →
      (∀ o : ByteOrder, Verifies (storeCheck o hdr (ipv4CsumOn o hdr))) ∧
      storeCheck .little hdr (ipv4CsumOn .little hdr) =
        storeCheck .big hdr (ipv4CsumOn .big hdr) := by
  constructor
  · intro ws hws
    have hwords : ∀ w ∈ ws.map UInt16.toNat, w < 0x10000 := by
      intro w hw
      obtain ⟨v, -, rfl⟩ := List.mem_map.mp hw
      exact v.toNat_lt
    have hfold := foldl_add_reduce hwords 0
    rw [Nat.zero_add, ← toNat_foldedSum hws] at hfold
    exact ⟨toNat_foldedSum hws ▸ reduce_lt _, hfold.symm⟩
  · intro hdr hlen h10 h11
    have hsame : storeCheck .little hdr (ipv4CsumOn .little hdr) =
        storeCheck .big hdr (ipv4CsumOn .big hdr) := by
      rw [storeCheck, bytes16_ipv4CsumOn hlen, storeCheck]
    have hbig := verifies_storeCheck_big hlen h10 h11
    refine ⟨fun o => ?_, hsame⟩
    cases o with
    | little => exact hsame ▸ hbig
    | big => exact hbig

theorem outer_checksum_sample :
    Verifies (storeCheck .big (outerHeader 0x0100000a 0x1500000a 64 0 0)
      (ipv4CsumOn .big (outerHeader 0x0100000a 0x1500000a 64 0 0))) :=
  (outer_checksum.2 _ rfl rfl rfl).1 .big

end PacketBalance
