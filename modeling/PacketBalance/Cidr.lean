import PacketBalance.DataPlane.Encap
import PacketBalance.LbState
import PacketBalance.Lib.Strto
import PacketBalance.VipSpec
/-!
# Networks as text

`Cidr::str` and `parse_cidr` of `src/core/config.cpp`.  The mask is shifted into place in host
order and stored byte by byte, the high byte first, so that it masks addresses in network
order on every host.
-/

namespace PacketBalance

open Text

def Cidr.strOn (o : ByteOrder) (c : Cidr) : String :=
  ipv4ToStringOn o c.prefixBe ++ "/" ++ toString c.len

def hostMask (len : Nat) : UInt32 :=
  if len = 0 then 0 else ~~~(0 : UInt32) <<< UInt32.ofNat (32 - len)

def maskBytes (hostMask : UInt32) : List UInt8 :=
  [(hostMask >>> 24).toUInt8, (hostMask >>> 16).toUInt8, (hostMask >>> 8).toUInt8,
    hostMask.toUInt8]

/-- The part of `parse_cidr` behind its checks of the length. -/
def maskedCidr (o : ByteOrder) (addr : UInt32) (len : Nat) : Cidr :=
  let maskBe := o.word32 (maskBytes (hostMask len))
  ⟨addr &&& maskBe, maskBe, len⟩

def parseCidr (o : ByteOrder) (s : String) : Except String Cidr :=
  let text := s.toList
  match text.idxOf? '/' with
  | none => .error ("bad CIDR, want ADDR/LEN: " ++ s)
  | some slash =>
      let lenStr := text.drop (slash + 1)
      if lenStr = [] ∨ lenStr.length > 2 ∨ lenStr.any (· ∉ "0123456789".toList) then
        .error ("bad CIDR prefix length: " ++ s)
      else
        match Strto.stoi lenStr with
        | .error _ => .error "stoi"
        | .ok (len, _) =>
            if len > 32 then .error ("bad CIDR prefix length: " ++ s)
            else
              (parseIpv4 o (String.ofList (text.take slash))).map fun addr =>
                maskedCidr o addr len.toNat

/-! ## The grammar -/

/-- `ADDR/LEN`, with the address in network order. -/
structure IsCidr (o : ByteOrder) (s addr len : List Char) (addrBe : UInt32) (n : Nat) :
    Prop extends IsDecimal len where
  text : s = addr ++ '/' :: len
  addr : DottedQuad addr (o.bytes32 addrBe)
  length_le : len.length ≤ 2
  value_eq : value len = n
  le : n ≤ 32

/-! ## The mask -/

section Mask

variable {n i : Nat}

theorem testBit_hostMask (hn : n ≤ 32) (hi : i < 32) :
    (hostMask n).toNat.testBit (31 - i) = decide (i < n) := by
  by_cases hzero : n = 0
  · simp [hostMask, hzero]
  · have hshift : (UInt32.ofNat (32 - n)).toNat % 32 = 32 - n := by
      rw [UInt32.toNat_ofNat']
      omega
    rw [hostMask, if_neg hzero, UInt32.toNat_shiftLeft, hshift, Nat.testBit_mod_two_pow,
      Nat.testBit_shiftLeft, show (~~~(0 : UInt32)).toNat = 2 ^ 32 - 1 from rfl,
      Nat.testBit_two_pow_sub_one]
    rw [Bool.eq_iff_iff]
    simp only [Bool.and_eq_true, decide_eq_true_eq]
    omega

/-- In memory the mask is `n` one bits and then zeros, whatever the byte order. -/
theorem bit_maskedCidr (o : ByteOrder) (addr : UInt32) (hn : n ≤ 32) (hi : i < 32) :
    o.bit (maskedCidr o addr n).maskBe i = decide (i < n) := by
  have hbytes : maskBytes (hostMask n) = ByteOrder.big.bytes32 (hostMask n) := rfl
  have hsame : o.bit (maskedCidr o addr n).maskBe i = ByteOrder.big.bit (hostMask n) i := by
    have hlen : (maskBytes (hostMask n)).length = 4 := rfl
    rw [ByteOrder.bit, ByteOrder.bit, maskedCidr, o.bytes32_word32 hlen, hbytes]
  rw [hsame, ByteOrder.bit_eq_testBit _ _ hi]
  exact testBit_hostMask hn hi

/-- The mask and the prefix of a network that was read. -/
structure Cidr.Masked (o : ByteOrder) (addrBe : UInt32) (c : Cidr) : Prop where
  mask : ∀ i < 32, o.bit c.maskBe i = decide (i < c.len)
  network : c.prefixBe = addrBe &&& c.maskBe

theorem masked_iff (o : ByteOrder) (addrBe : UInt32) {c : Cidr} (hlen : c.len ≤ 32) :
    c.Masked o addrBe ↔ maskedCidr o addrBe c.len = c := by
  constructor
  · intro h
    have hmask : (maskedCidr o addrBe c.len).maskBe = c.maskBe :=
      o.eq_of_bit fun i hi => (bit_maskedCidr o addrBe hlen hi).trans (h.mask i hi).symm
    have hnetwork : (maskedCidr o addrBe c.len).prefixBe = c.prefixBe := by
      rw [h.network, ← hmask]
      rfl
    obtain ⟨prefixBe, maskBe, len⟩ := c
    simp only [maskedCidr, Cidr.mk.injEq] at hmask hnetwork ⊢
    exact ⟨hnetwork, hmask, trivial⟩
  · intro h
    rw [← h]
    exact ⟨fun i hi => bit_maskedCidr o addrBe hlen hi, rfl⟩

end Mask

/-! ## Reading -/

section Reading

variable {o : ByteOrder} {c : Cidr}

theorem mem_digits_iff {d : Char} : d ∈ "0123456789".toList ↔ d.isDigit = true := by
  rw [show "0123456789".toList = ['0', '1', '2', '3', '4', '5', '6', '7', '8', '9'] from rfl]
  constructor
  · intro h
    simp only [List.mem_cons, List.not_mem_nil, or_false] at h
    rcases h with rfl | rfl | rfl | rfl | rfl | rfl | rfl | rfl | rfl | rfl <;> rfl
  · intro h
    have hrange := Char.isDigit_iff_toNat.mp h
    simp only [Char.reduceToNat] at hrange
    have hchar : d = Char.ofNat d.toNat := (Char.ofNat_toNat d).symm
    generalize d.toNat = k at hchar hrange
    obtain ⟨hlo, hhi⟩ := hrange
    interval_cases k <;> subst hchar <;> decide

theorem stoi_of_isDecimal {len : List Char} (h : IsDecimal len) (hlen : len.length ≤ 2) :
    ∃ used, Strto.stoi len = .ok ((value len : Int), used) := by
  have hlt : value len < 10 ^ 2 :=
    (value_lt h.digits).trans_le (Nat.pow_le_pow_right (by decide) hlen)
  refine ⟨_, Strto.stoi_eq_ok_iff.mpr ⟨Strto.bare len, Strto.reads_bare_iff.mpr h, ?_, rfl⟩⟩
  simp only [Strto.Numeral.signed, Strto.bare, Bool.false_eq_true, if_false]
  omega

theorem lenStr_refused_iff {len : List Char} :
    (len = [] ∨ len.length > 2 ∨ len.any (· ∉ "0123456789".toList) = true) ↔
      ¬ (IsDecimal len ∧ len.length ≤ 2) := by
  simp only [List.any_eq_true, decide_eq_true_eq, mem_digits_iff]
  constructor
  · rintro (hnil | hlong | ⟨d, hd, hdigit⟩) ⟨hdec, hshort⟩
    · exact hdec.ne_nil hnil
    · omega
    · exact hdigit (hdec.digits d hd)
  · intro hbad
    by_contra hgood
    push Not at hgood
    exact hbad ⟨⟨hgood.1, hgood.2.2⟩, hgood.2.1⟩

theorem parseCidr_eq_ok_iff_of_split {s : String} {addr len : List Char}
    (htext : s.toList = addr ++ '/' :: len) (hnot : '/' ∉ addr) :
    parseCidr o s = .ok c ↔ (IsDecimal len ∧ len.length ≤ 2 ∧ value len ≤ 32) ∧
      ∃ addrBe, DottedQuad addr (o.bytes32 addrBe) ∧ maskedCidr o addrBe (value len) = c := by
  have hslash : s.toList.idxOf? '/' = some addr.length :=
    Lines.idxOf?_eq_some_iff.mpr ⟨addr, len, htext, hnot, rfl⟩
  have hdrop : s.toList.drop (addr.length + 1) = len := by simp [htext]
  have htake : s.toList.take addr.length = addr := by simp [htext]
  simp only [parseCidr, hslash, hdrop, htake, lenStr_refused_iff]
  by_cases hok : IsDecimal len ∧ len.length ≤ 2
  · obtain ⟨used, hstoi⟩ := stoi_of_isDecimal hok.1 hok.2
    rw [if_neg (not_not.mpr hok), hstoi]
    simp only [Int.toNat_natCast]
    by_cases hle : value len ≤ 32
    · rw [if_neg (by omega)]
      have haddr : ∀ a, parseIpv4 o (String.ofList addr) = .ok a ↔
          DottedQuad addr (o.bytes32 a) := by
        intro a
        rw [parseIpv4_eq_ok_iff, String.toList_ofList]
      simp only [← haddr, hok, hle, and_self, true_and]
      cases parseIpv4 o (String.ofList addr) with
      | error text => simp [Except.map]
      | ok a => simp [Except.map]
    · rw [if_pos (by omega)]
      simp [hle]
  · rw [if_pos hok]
    simp only [reduceCtorEq, false_iff]
    rintro ⟨⟨hdec, hshort, -⟩, -⟩
    exact hok ⟨hdec, hshort⟩

theorem parseCidr_eq_ok_iff {s : String} : parseCidr o s = .ok c ↔
    ∃ addr len addrBe, IsCidr o s.toList addr len addrBe c.len ∧ c.Masked o addrBe := by
  constructor
  · intro h
    cases hslash : s.toList.idxOf? '/' with
    | none => simp [parseCidr, hslash] at h
    | some slash =>
        obtain ⟨addr, len, htext, hnot, -⟩ := Lines.idxOf?_eq_some_iff.mp hslash
        obtain ⟨⟨hdec, hshort, hle⟩, addrBe, haddr, hc⟩ :=
          (parseCidr_eq_ok_iff_of_split htext hnot).mp h
        have hlen : c.len = value len := hc ▸ rfl
        refine ⟨addr, len, addrBe, ⟨hdec, htext, haddr, hshort, hlen.symm, hlen ▸ hle⟩, ?_⟩
        rw [masked_iff o addrBe (hlen ▸ hle), hlen]
        exact hc
  · rintro ⟨addr, len, addrBe, hcidr, hmasked⟩
    have hnot := hcidr.addr.notMem (show '/' ≠ '.' by decide) (by decide)
    rw [parseCidr_eq_ok_iff_of_split hcidr.text hnot, hcidr.value_eq]
    exact ⟨⟨hcidr.toIsDecimal, hcidr.length_le, hcidr.le⟩, addrBe, hcidr.addr,
      (masked_iff o addrBe hcidr.le).mp hmasked⟩

end Reading

/-! ## Writing, and the network -/

section Network

variable {o : ByteOrder} {c : Cidr} {addrBe : UInt32}

/-- The address has the network's prefix, bit for bit in memory order. -/
def Cidr.Contains (o : ByteOrder) (c : Cidr) (addrBe : UInt32) : Prop :=
  ∀ i < c.len, o.bit addrBe i = o.bit c.prefixBe i

theorem Cidr.Masked.self (h : c.Masked o addrBe) : c.Masked o c.prefixBe := by
  refine ⟨h.mask, o.eq_of_bit fun i hi => ?_⟩
  rw [o.bit_and _ _ hi, h.network, o.bit_and _ _ hi, Bool.and_assoc, Bool.and_self]

theorem isCidr_strOn (hlen : c.len ≤ 32) :
    IsCidr o (c.strOn o).toList (ipv4ToStringOn o c.prefixBe).toList (Nat.toDigits 10 c.len)
      c.prefixBe c.len where
  toIsDecimal := isDecimal_toDigits c.len
  text := by simp [Cidr.strOn]
  addr := dottedQuad_ipv4ToStringOn o c.prefixBe
  length_le := Nat.toDigits_length 10 _ 2 (by decide) (by omega)
  value_eq := value_toDigits c.len
  le := hlen

theorem Cidr.Masked.contains_outer (h : c.Masked o addrBe) (hlen : c.len ≤ 32) (hash : UInt32) :
    c.Contains o ((c.prefixBe &&& c.maskBe) ||| (hash &&& ~~~c.maskBe)) := by
  intro i hi
  have hi32 : i < 32 := by omega
  rw [o.bit_or _ _ hi32, o.bit_and _ _ hi32, o.bit_and _ _ hi32, o.bit_not _ hi32,
    h.mask i hi32]
  simp [hi]

/-- `parse_cidr` accepts exactly `ADDR/LEN` and returns the address masked to its first `LEN`
bits in memory; it reads back what `str` writes, and the outer source that is made from the
result and a flow's hash lies in the network. -/
theorem cidr_text_format (o : ByteOrder) :
    (∀ (s : String) (c : Cidr), parseCidr o s = .ok c ↔
      ∃ addr len addrBe, IsCidr o s.toList addr len addrBe c.len ∧
        (∀ i < 32, o.bit c.maskBe i = decide (i < c.len)) ∧
        c.prefixBe = addrBe &&& c.maskBe) ∧
    ∀ (s : String) (c : Cidr), parseCidr o s = .ok c →
      parseCidr o (c.strOn o) = .ok c ∧
      ∀ hash : UInt32, c.Contains o ((c.prefixBe &&& c.maskBe) ||| (hash &&& ~~~c.maskBe)) := by
  refine ⟨fun s c => ?_, fun s c hparse => ?_⟩
  · rw [parseCidr_eq_ok_iff]
    constructor
    · rintro ⟨addr, len, addrBe, hcidr, hmasked⟩
      exact ⟨addr, len, addrBe, hcidr, hmasked.mask, hmasked.network⟩
    · rintro ⟨addr, len, addrBe, hcidr, hmask, hnetwork⟩
      exact ⟨addr, len, addrBe, hcidr, hmask, hnetwork⟩
  · obtain ⟨addr, len, addrBe, hcidr, hmasked⟩ := parseCidr_eq_ok_iff.mp hparse
    exact ⟨parseCidr_eq_ok_iff.mpr ⟨_, _, _, isCidr_strOn hcidr.le, hmasked.self⟩,
      hmasked.contains_outer hcidr.le⟩

theorem cidr_text_format_sample :
    parseCidr .little "10.1.2.3/20" = .ok ⟨0x0000010a, 0x00f0ffff, 20⟩ ∧
    parseCidr .little ((⟨0x0000010a, 0x00f0ffff, 20⟩ : Cidr).strOn .little) =
      .ok ⟨0x0000010a, 0x00f0ffff, 20⟩ := by
  have hparse : parseCidr .little "10.1.2.3/20" = .ok ⟨0x0000010a, 0x00f0ffff, 20⟩ := by
    decide +kernel
  exact ⟨hparse, ((cidr_text_format .little).2 _ _ hparse).1⟩

/-- What the data plane makes of a configuration whose network was read from text. -/
theorem contains_outerSource {s : String} {cfg : Config} (mac : Mac) (f : Flow)
    (h : parseCidr o s = .ok cfg.encapSrc) :
    cfg.encapSrc.Contains o (outerSource (LbState.configValue cfg mac) f) := by
  obtain ⟨addr, len, addrBe, hcidr, hmasked⟩ := parseCidr_eq_ok_iff.mp h
  exact hmasked.contains_outer hcidr.le f.hash

end Network

end PacketBalance
