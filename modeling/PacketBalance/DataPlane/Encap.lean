import PacketBalance.DataPlane.Affinity
import PacketBalance.Lib.InternetChecksum
/-!
# Encapsulation

What a transmitted frame looks like: a new Ethernet header, an outer IPv4 header
whose checksum verifies, and the packet that came in, byte for byte.
-/

namespace PacketBalance

/-! ## Words in memory -/

theorem toNat_load16 (p : Frame) (off : Nat) :
    (p.load16 off).toNat = (p.byte off).toNat + 256 * (p.byte (off + 1)).toNat := by
  have hlo := (p.byte off).toNat_lt
  have hhi := (p.byte (off + 1)).toNat_lt
  have hshift : ((p.byte (off + 1)).toUInt16 <<< 8).toNat =
      (p.byte (off + 1)).toNat <<< 8 := by
    simp only [UInt16.toNat_shiftLeft, UInt8.toNat_toUInt16, UInt16.reduceToNat,
      Nat.shiftLeft_eq, Nat.reduceMod, Nat.reducePow]
    omega
  rw [Frame.load16, UInt16.toNat_or, hshift, UInt8.toNat_toUInt16, Nat.or_comm,
    ← Nat.shiftLeft_add_eq_or_of_lt (by omega), Nat.shiftLeft_eq]
  omega

theorem toNat_load32 (p : Frame) (off : Nat) :
    (p.load32 off).toNat = (p.load16 off).toNat + 65536 * (p.load16 (off + 2)).toNat := by
  have hlo := (p.load16 off).toNat_lt
  have hhi := (p.load16 (off + 2)).toNat_lt
  have hshift : ((p.load16 (off + 2)).toUInt32 <<< 16).toNat =
      (p.load16 (off + 2)).toNat <<< 16 := by
    simp only [UInt32.toNat_shiftLeft, UInt16.toNat_toUInt32, UInt32.reduceToNat,
      Nat.shiftLeft_eq, Nat.reduceMod, Nat.reducePow]
    omega
  rw [Frame.load32, UInt32.toNat_or, hshift, UInt16.toNat_toUInt32, Nat.or_comm,
    ← Nat.shiftLeft_add_eq_or_of_lt (by omega), Nat.shiftLeft_eq]
  omega

theorem toNat_byte0 (w : UInt16) : w.toUInt8.toNat = w.toNat % 256 := by
  simp

theorem toNat_byte1 (w : UInt16) : (w >>> 8).toUInt8.toNat = w.toNat / 256 := by
  have hlt := w.toNat_lt
  simp only [UInt16.toNat_toUInt8, UInt16.toNat_shiftRight, UInt16.reduceToNat,
    Nat.shiftRight_eq_div_pow, Nat.reduceMod, Nat.reducePow]
  omega

theorem load16_of_bytes {p : Frame} {off : Nat} {w : UInt16} (hlo : p.byte off = w.toUInt8)
    (hhi : p.byte (off + 1) = (w >>> 8).toUInt8) : p.load16 off = w := by
  apply UInt16.toNat_inj.mp
  rw [toNat_load16, hlo, hhi, toNat_byte0, toNat_byte1]
  omega

theorem load32_of_memBytes {p : Frame} {off : Nat} {w : UInt32}
    (h : [p.byte off, p.byte (off + 1), p.byte (off + 2), p.byte (off + 3)] = memBytes w) :
    p.load32 off = w := by
  simp only [memBytes, List.cons.injEq, and_true] at h
  obtain ⟨h0, h1, h2, h3⟩ := h
  have hlt := w.toNat_lt
  apply UInt32.toNat_inj.mp
  rw [toNat_load32, toNat_load16, toNat_load16, h0, h1, h2, h3]
  simp only [UInt32.toNat_toUInt8, UInt32.toNat_shiftRight, UInt32.reduceToNat,
    Nat.shiftRight_eq_div_pow, Nat.reduceMod, Nat.reducePow]
  omega

theorem bpfNtohs_bpfHtons {n : Nat} (h : n < 65536) : bpfNtohs (bpfHtons n) = n := by
  have hword : bpfHtons n = Frame.load16 [UInt8.ofNat (n / 256), UInt8.ofNat n] 0 := rfl
  have hnat : (bpfHtons n).toNat = n / 256 + 256 * (n % 256) := by
    rw [hword, toNat_load16]
    simp only [Frame.byte, List.getD_cons_zero, List.getD_cons_succ, UInt8.toNat_ofNat']
    omega
  rw [bpfNtohs, portFromBe, toNat_byte0, toNat_byte1, hnat]
  omega

/-! ## The checksum -/

theorem swappedWords_eq {n : Nat} {hdr : Frame} (h : hdr.length = 2 * n) :
    InternetChecksum.swappedWords hdr =
      (List.range n).map fun i => (hdr.load16 (2 * i)).toNat := by
  simp only [toNat_load16]
  exact InternetChecksum.eq_map_range (f := fun a b => a.toNat + 256 * b.toNat) rfl
    (fun _ _ _ => rfl) h

theorem sum_toNat_le (ws : List UInt16) : (ws.map UInt16.toNat).sum ≤ 65535 * ws.length := by
  induction ws with
  | nil => simp
  | cons w ws ih =>
      have hw := w.toNat_lt
      simp only [List.map_cons, List.sum_cons, List.length_cons]
      omega

/-- Up to `2^16` words can be added without a carry out of 32 bits. -/
theorem toNat_foldl_add (ws : List UInt16) (s : UInt32)
    (h : s.toNat + 65536 * ws.length < 2 ^ 32) :
    (ws.foldl (fun s w => s + w.toUInt32) s).toNat =
      s.toNat + (ws.map UInt16.toNat).sum := by
  induction ws generalizing s with
  | nil => simp
  | cons w ws ih =>
      have hw := w.toNat_lt
      rw [List.length_cons] at h
      have hadd : (s + w.toUInt32).toNat = s.toNat + w.toNat := by
        rw [UInt32.toNat_add, UInt16.toNat_toUInt32]
        omega
      rw [List.foldl_cons, ih _ (by rw [hadd]; omega), hadd, List.map_cons, List.sum_cons]
      omega

theorem toNat_foldCarries (s : UInt32) :
    (foldCarries s).toNat = s.toNat % 65536 + s.toNat / 65536 := by
  have hlt := s.toNat_lt
  have hmask : s.toNat &&& 65535 = s.toNat % 65536 := Nat.and_two_pow_sub_one_eq_mod _ 16
  simp only [foldCarries, UInt32.toNat_add, UInt32.toNat_and, UInt32.toNat_shiftRight,
    UInt32.reduceToNat, Nat.shiftRight_eq_div_pow, Nat.reduceMod, Nat.reducePow, hmask]
  omega

/-- What the two folds and the complement in `ipv4_csum` come to. -/
theorem complement_modEq {sum : UInt32} (h : sum.toNat < 0xa0000) :
    sum.toNat + (~~~ foldCarries (foldCarries sum)).toUInt16.toNat ≡ 0 [MOD 0xffff] := by
  have honce := toNat_foldCarries sum
  have htwice := toNat_foldCarries (foldCarries sum)
  have hsize : UInt32.size = 4294967296 := rfl
  have hneg : (~~~ foldCarries (foldCarries sum)).toUInt16.toNat =
      65535 - (foldCarries (foldCarries sum)).toNat := by
    rw [UInt32.toNat_toUInt16, UInt32.toNat_not]
    omega
  rw [hneg]
  unfold Nat.ModEq
  omega

theorem ipv4Csum_modEq {hdr : Frame} (h : hdr.length = 20) :
    (InternetChecksum.swappedWords hdr).sum + (ipv4Csum hdr).toNat ≡ 0 [MOD 0xffff] := by
  have hwords : InternetChecksum.swappedWords hdr =
      ((List.range 10).map fun i => hdr.load16 (2 * i)).map UInt16.toNat := by
    rw [swappedWords_eq (n := 10) h, List.map_map]
    rfl
  have hlt : (InternetChecksum.swappedWords hdr).sum < 0xa0000 := by
    rw [hwords]
    exact Nat.lt_of_le_of_lt (sum_toNat_le _) (by simp)
  have hloop : ((List.range 10).foldl (fun s i => s + (hdr.load16 (2 * i)).toUInt32) 0).toNat =
      (InternetChecksum.swappedWords hdr).sum := by
    have hadd := toNat_foldl_add ((List.range 10).map fun i => hdr.load16 (2 * i)) 0 (by simp)
    rw [List.foldl_map, ← hwords] at hadd
    exact hadd.trans (Nat.zero_add _)
  rw [← hloop] at hlt ⊢
  exact complement_modEq hlt

/-! ## The outer header -/

/-- A 20-byte IPv4 header of an encapsulated packet. -/
structure OuterIp (header : Frame) (tos : UInt8) (totLen : Nat) (src dst : UInt32) : Prop where
  length : header.length = 20
  versionIhl : header.byte 0 = 0x45
  tos : header.byte 1 = tos
  totLen : bpfNtohs (header.load16 2) = totLen
  id : header.load16 4 = 0
  fragOff : header.load16 6 = 0
  ttl : header.byte 8 = 64
  protocol : header.byte 9 = 4
  check : InternetChecksum.Verifies header
  saddr : header.load32 12 = src
  daddr : header.load32 16 = dst

variable (saddr daddr : UInt32) (innerLen : Nat) (tos : UInt8)

@[simp] theorem length_outerHeader (check : UInt16) :
    (outerHeader saddr daddr innerLen tos check).length = 20 := rfl

theorem sum_outerHeader (check : UInt16) :
    (InternetChecksum.swappedWords (outerHeader saddr daddr innerLen tos check)).sum =
      (InternetChecksum.swappedWords (outerHeader saddr daddr innerLen tos 0)).sum +
        check.toNat := by
  have hcheck : check.toUInt8.toNat + 256 * (check >>> 8).toUInt8.toNat = check.toNat := by
    rw [toNat_byte0, toNat_byte1]
    omega
  have hzero : (0 : UInt16).toUInt8.toNat + 256 * ((0 : UInt16) >>> 8).toUInt8.toNat = 0 := rfl
  simp only [outerHeader, store16, memBytes, List.cons_append, List.nil_append,
    InternetChecksum.swappedWords, List.sum_cons, hcheck, hzero]
  omega

theorem verifies_outerHeader :
    InternetChecksum.Verifies (outerHeader saddr daddr innerLen tos
      (ipv4Csum (outerHeader saddr daddr innerLen tos 0))) := by
  refine InternetChecksum.verifies_of_swapped ?_ ?_
  · rw [sum_outerHeader]
    exact ipv4Csum_modEq (length_outerHeader ..)
  · simp only [outerHeader, store16, List.cons_append, List.nil_append,
      InternetChecksum.words, List.sum_cons]
    have hversion : (0x45 : UInt8).toNat = 69 := rfl
    omega

theorem outerHeader_ok {innerLen : Nat} (h : innerLen + pbOuterLen < 65536) :
    OuterIp (outerHeader saddr daddr innerLen tos
      (ipv4Csum (outerHeader saddr daddr innerLen tos 0))) tos (innerLen + pbOuterLen)
      saddr daddr where
  length := rfl
  versionIhl := rfl
  tos := rfl
  totLen := by rw [load16_of_bytes rfl rfl, bpfNtohs_bpfHtons h]
  id := load16_of_bytes rfl rfl
  fragOff := load16_of_bytes rfl rfl
  ttl := rfl
  protocol := rfl
  check := verifies_outerHeader ..
  saddr := load32_of_memBytes rfl
  daddr := load32_of_memBytes rfl

/-! ## The frame -/

/-- The outer source of a flow's packets: the configured prefix, with the host bits
taken from the flow's hash. -/
def outerSource (cfg : PbConfig) (f : Flow) : UInt32 :=
  (cfg.encapSrcPrefix &&& cfg.encapSrcMask) ||| (f.hash &&& ~~~ cfg.encapSrcMask)

theorem outerSource_mask (cfg : PbConfig) (f : Flow) :
    outerSource cfg f &&& cfg.encapSrcMask = cfg.encapSrcPrefix &&& cfg.encapSrcMask := by
  apply UInt32.toBitVec_inj.mp
  ext i hi
  simp only [outerSource, UInt32.toBitVec_and, UInt32.toBitVec_or, UInt32.toBitVec_not,
    BitVec.getElem_and, BitVec.getElem_or, BitVec.getElem_not]
  cases cfg.encapSrcMask.toBitVec[i] <;> simp

/-- `out` is `p` on its way to real `r`. -/
structure Encapsulates (d : CtlMaps) (p : Frame) (r : Nat) (out : Frame) : Prop where
  sendable : Sendable d r
  layout : ∃ header, OuterIp header (p.byte 15) (bpfNtohs (p.load16 16) + 20)
      (outerSource d.config p.flow) (d.reals r) ∧
    out = (d.neigh r).bytes.toList ++ d.config.lbMac.bytes.toList ++ [0x08, 0x00] ++ header ++
      p.drop 14

theorem encapIpip_eq {x : PktEnv} {p out : Frame} {realAddr : UInt32} {dmac : Mac}
    {cfg : PbConfig} {f : Flow} {innerLen : Nat} {tos : UInt8}
    (h : encapIpip x p realAddr dmac cfg f.hash innerLen tos = some out) :
    out = dmac.bytes.toList ++ cfg.lbMac.bytes.toList ++ [0x08, 0x00] ++
      outerHeader (outerSource cfg f) realAddr innerLen tos
        (ipv4Csum (outerHeader (outerSource cfg f) realAddr innerLen tos 0)) ++ p.drop 14 := by
  have htype : store16 (bpfHtons ethPIp) = [0x08, 0x00] := by decide
  simp only [encapIpip, htype] at h
  split_ifs at h
  exact (Option.some.inj h).symm

theorem send_tx {d : CtlMaps} {x : PktEnv} {dp : DpMaps} {p out : Frame} {q : Request}
    {pick : Pick} (h : (send d x dp p q pick).1.action = .tx out) :
    Sendable d pick.realId ∧ encapIpip x p (d.reals pick.realId) (d.neigh pick.realId) d.config
      q.flow.hash q.innerLen q.tos = some out := by
  by_cases hok : Sendable d pick.realId
  · rw [send_sendable hok] at h
    split at h
    · cases h
    · next hout =>
        cases h
        exact ⟨hok, hout⟩
  · rw [send_not_sendable hok] at h
    cases h

theorem encapIpip_isSome {x : PktEnv} {p : Frame} (hhead : x.headOk = true)
    (hlen : ethLen ≤ p.length) (realAddr : UInt32) (dmac : Mac) (cfg : PbConfig) (hash : UInt32)
    (innerLen : Nat) (tos : UInt8) :
    ∃ out, encapIpip x p realAddr dmac cfg hash innerLen tos = some out := by
  have hroom : ¬ p.length + pbOuterLen < ethLen + 20 := by
    unfold pbOuterLen
    omega
  rw [← Option.isSome_iff_exists]
  simp only [encapIpip, hhead, Bool.not_true, Bool.false_eq_true, if_false, hroom,
    Option.isSome_some]

theorem send_encapsulates {d : CtlMaps} {x : PktEnv} {dp : DpMaps} {p out : Frame}
    {q : Request} {pick : Pick} (hq : classify d p = .forward q) (hlen : q.tooLong = false)
    (h : (send d x dp p q pick).1.action = .tx out) : Encapsulates d p pick.realId out := by
  obtain ⟨hok, hout⟩ := send_tx h
  obtain ⟨hreq, -⟩ := classify_request hq
  have hinner : bpfNtohs (p.load16 16) + pbOuterLen < 65536 := by
    rw [hreq] at hlen
    have hle : bpfNtohs (p.load16 16) + pbOuterLen ≤ 3500 := by
      simpa [Request.tooLong, Frame.request, pbMaxPacketLen] using hlen
    omega
  rw [hreq] at hout
  exact ⟨hok, _, outerHeader_ok _ _ _ hinner, encapIpip_eq hout⟩

theorem forward_ne_dropMtu {d : CtlMaps} {x : PktEnv} {dp : DpMaps} {p : Frame} {q : Request}
    (hlen : q.tooLong = false) : (forward d x dp p q).1.action ≠ .drop .dropMtu := by
  obtain ⟨pick, dp₁, hsend, -⟩ := forward_step d x dp p hlen
  rw [hsend]
  by_cases hok : Sendable d pick.realId
  · rw [send_sendable hok]
    split <;> simp [drop]
  · rw [send_not_sendable hok]
    simp [drop]

theorem forward_ne_dropAdjHead {d : CtlMaps} {x : PktEnv} {dp : DpMaps} {p : Frame}
    {q : Request} (hhead : x.headOk = true) (hframe : ethLen ≤ p.length) :
    (forward d x dp p q).1.action ≠ .drop .dropAdjHead := by
  by_cases hlen : q.tooLong = true
  · simp [forward, hlen, drop]
  obtain ⟨pick, dp₁, hsend, -⟩ := forward_step d x dp p (Bool.eq_false_iff.mpr hlen)
  rw [hsend]
  by_cases hok : Sendable d pick.realId
  · obtain ⟨out, hout⟩ := encapIpip_isSome hhead hframe (d.reals pick.realId)
      (d.neigh pick.realId) d.config q.flow.hash q.innerLen q.tos
    rw [send_sendable hok, hout]
    simp
  · rw [send_not_sendable hok]
    simp [drop]

theorem xdp_encapsulates {d : CtlMaps} {x : PktEnv} {dp : DpMaps} {p out : Frame}
    (h : (xdpPacketbalance d x dp p).1.action = .tx out) :
    ∃ pick, (xdpPacketbalance d x dp p).1.pick = some pick ∧
      Encapsulates d p pick.realId out := by
  cases hq : classify d p with
  | drop cnt => simp [xdpPacketbalance, hq, drop] at h
  | pass => simp [xdpPacketbalance, hq] at h
  | forward q =>
      simp only [xdpPacketbalance, hq] at h ⊢
      have hlen : q.tooLong = false := by
        by_contra hlen
        simp [forward, Bool.eq_true_of_not_eq_false hlen, drop] at h
      obtain ⟨pick, dp₁, hsend, -⟩ := forward_step d x dp p hlen
      rw [hsend] at h ⊢
      exact ⟨pick, send_pick .., send_encapsulates hq hlen h⟩

theorem Encapsulates.inner {d : CtlMaps} {p out : Frame} {r : Nat}
    (h : Encapsulates d p r out) : out.drop 34 = p.drop 14 := by
  obtain ⟨header, hheader, rfl⟩ := h.layout
  exact List.drop_left' (by simp [hheader.length])

/-- A transmitted frame is a new Ethernet header, a correct outer IPv4 header to the
real that was chosen, and the packet as it came in. -/
theorem encapsulation_exact {d : CtlMaps} {x : PktEnv} {dp : DpMaps} {p out : Frame}
    (h : (xdpPacketbalance d x dp p).1.action = .tx out) :
    ∃ pick, (xdpPacketbalance d x dp p).1.pick = some pick ∧
      Encapsulates d p pick.realId out ∧
      outerSource d.config p.flow &&& d.config.encapSrcMask =
        d.config.encapSrcPrefix &&& d.config.encapSrcMask ∧
      out.drop 34 = p.drop 14 := by
  obtain ⟨pick, hpick, henc⟩ := xdp_encapsulates h
  exact ⟨pick, hpick, henc, outerSource_mask .., henc.inner⟩

theorem sample_tx :
    ∃ out, (xdpPacketbalance samplePlane.ctl sampleCpu samplePlane.dp sampleFrame).1.action =
      .tx out := by
  have hq : classify samplePlane.ctl sampleFrame = _ := classify_sampleFrame sampleMaps_vip
  have hpick := samplePlane_pick
  simp only [xdpPacketbalance, hq] at hpick ⊢
  obtain ⟨pick, dp₁, hsend, -⟩ := forward_step samplePlane.ctl sampleCpu samplePlane.dp
    sampleFrame (q := ⟨sampleFlow, ⟨0, 0⟩, false, true, false, 28, 0⟩) (by decide)
  rw [hsend, send_pick] at hpick
  obtain rfl := Option.some.inj hpick
  have hok : Sendable samplePlane.ctl 1 := ⟨by decide, by decide, by decide⟩
  obtain ⟨out, hout⟩ := encapIpip_isSome (x := sampleCpu) (p := sampleFrame) rfl (by decide)
    (samplePlane.ctl.reals 1) (samplePlane.ctl.neigh 1) samplePlane.ctl.config sampleFlow.hash
    28 0
  exact ⟨out, by rw [hsend, send_sendable hok]; simp only [hout]⟩

theorem encapsulation_exact_sample :
    ∃ out pick,
      (xdpPacketbalance samplePlane.ctl sampleCpu samplePlane.dp sampleFrame).1 =
        ⟨.tx out, some pick⟩ ∧
      Encapsulates samplePlane.ctl sampleFrame pick.realId out ∧
      out.drop 34 = sampleFrame.drop 14 := by
  obtain ⟨out, hout⟩ := sample_tx
  obtain ⟨pick, hpick, henc, -, hdrop⟩ := encapsulation_exact hout
  exact ⟨out, pick, by rw [← hout, ← hpick], henc, hdrop⟩

end PacketBalance
