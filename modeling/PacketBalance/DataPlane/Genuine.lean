import PacketBalance.DataPlane.Dropped
import PacketBalance.DataPlane.Routing
/-!
# Genuine ports

A frame has two ends: its own, and that of the IPv4 packet in it, which Ethernet pads to its
minimum size.  The program checks transport headers against the first, and for an ICMP
message it looks at neither the second nor the quoted packet's fragment offset.
-/

namespace PacketBalance

/-! ## Statement -/

def Frame.totLen (p : Frame) : Nat := bpfNtohs (p.load16 16)

/-- The bytes a packet was put into flow `k` by are the ports of a datagram. -/
inductive Genuine (p : Frame) (k : Flow) : Prop
  | tcp (carries : Carries p k) (proto : k.proto = ipprotoTcp) (inside : 20 + 20 ≤ p.totLen)
  | udp (carries : Carries p k) (proto : k.proto = ipprotoUdp) (inside : 20 + 8 ≤ p.totLen)
  | fragNeeded (quotes : Quotes p k) (proto : k.proto = ipprotoTcp ∨ k.proto = ipprotoUdp)
      (inside : 20 + 8 + 20 + 4 ≤ p.totLen) (first : p.load16 48 &&& bpfHtons pbIpOffset = 0)

/-- The length of the transport header the program looks for. -/
def transportLen (proto : UInt8) : Option Nat :=
  if proto = ipprotoTcp then some 20
  else if proto = ipprotoUdp ∨ proto = ipprotoIcmp then some 8
  else none

/-- A datagram without room for its transport header. -/
structure TooShort (p : Frame) (header : Nat) : Prop where
  ip : IsIpv4 p (p.byte 23)
  transport : transportLen (p.byte 23) = some header
  short : p.totLen < 20 + header

/-- An ICMP message that is dropped as short because the frame ends in what it quotes. -/
structure CutShort (d : CtlMaps) (p : Frame) : Prop where
  icmp : p.byte 23 = ipprotoIcmp
  wanted : d.config.flags &&& pbCfgFIcmpPmtu ≠ 0
  type : p.byte 34 = icmpDestUnreach
  code : p.byte 35 = icmpFragNeeded
  cut : p.length < 62 ∨ p.byte 42 &&& 0xf = 5 ∧
    (p.byte 51 = ipprotoTcp ∨ p.byte 51 = ipprotoUdp) ∧ p.length < 66

def Request.realId (d : CtlMaps) (x : PktEnv) (dp : DpMaps) (q : Request) : Nat :=
  if q.useCt d && !q.bareSyn then
    (ctHit d x dp q.flow).elim (ringLookup d q.vip.vipId q.flow.hash) CtValue.realId
  else ringLookup d q.vip.vipId q.flow.hash

/-- Nothing stops the packet on its way out. -/
structure Leaves (d : CtlMaps) (x : PktEnv) (dp : DpMaps) (q : Request) : Prop where
  fits : q.tooLong = false
  sendable : Sendable d (q.realId d x dp)
  head : x.headOk = true

/-- A datagram whose transport header is completed by what follows it in the frame; or an
ICMP message that is sent on although what it quotes ends outside, or is a later fragment. -/
inductive Misread (d : CtlMaps) (x : PktEnv) (dp : DpMaps) (p : Frame) : Prop
  | header (n : Nat) (short : TooShort p n) (frame : ethLen + 20 + n ≤ p.length)
      (missed : ¬CutShort d p)
  | quoted (vip : VipValue) (quotes : Quotes p p.flow)
      (proto : p.flow.proto = ipprotoTcp ∨ p.flow.proto = ipprotoUdp)
      (wanted : d.config.flags &&& pbCfgFIcmpPmtu ≠ 0)
      (served : d.vipMap[p.flow.vip]? = some vip)
      (bad : p.totLen < 20 + 8 + 20 + 4 ∨ p.load16 48 &&& bpfHtons pbIpOffset ≠ 0)
      (leaves : Leaves d x dp (p.request vip))

/-! ## What the checks see -/

section

variable {d : CtlMaps} {x : PktEnv} {dp : DpMaps} {p : Frame} {n : Nat}

theorem transportLen_eq_some {proto : UInt8} (h : transportLen proto = some n) :
    proto = ipprotoTcp ∧ n = 20 ∨ proto = ipprotoUdp ∧ n = 8 ∨ proto = ipprotoIcmp ∧ n = 8 := by
  unfold transportLen at h
  split_ifs at h with htcp hother
  · exact .inl ⟨htcp, (Option.some.inj h).symm⟩
  · rcases hother with hudp | hicmp
    · exact .inr (.inl ⟨hudp, (Option.some.inj h).symm⟩)
    · exact .inr (.inr ⟨hicmp, (Option.some.inj h).symm⟩)

theorem TooShort.classify_dropped (h : TooShort p n) (hframe : p.length < ethLen + 20 + n) :
    classify d p = .drop .dropShort := by
  unfold ethLen at hframe
  rw [h.ip.classify, classifyL4]
  rcases transportLen_eq_some h.transport with ⟨hproto, rfl⟩ | ⟨hproto, rfl⟩ | ⟨hproto, rfl⟩
  · rw [if_pos hproto, if_pos (by omega)]
  · rw [hproto, if_neg (by decide), if_pos rfl, if_pos (by omega)]
  · rw [hproto, if_neg (by decide), if_neg (by decide), if_pos rfl, handleIcmp,
      if_pos (by omega)]

/-- A longer frame is not missed, unless what it quotes is. -/
theorem TooShort.classify_missed (h : TooShort p n) (hframe : ethLen + 20 + n ≤ p.length)
    (hmissed : ¬CutShort d p) : classify d p ≠ .drop .dropShort := by
  unfold ethLen at hframe
  have hlookup : ∀ f bareSyn mayInsert isIcmp innerLen tos,
      lookupVip d f bareSyn mayInsert isIcmp innerLen tos ≠ .drop .dropShort := by
    intro f bareSyn mayInsert isIcmp innerLen tos
    unfold lookupVip
    split <;> simp
  rw [h.ip.classify, classifyL4]
  rcases transportLen_eq_some h.transport with ⟨hproto, rfl⟩ | ⟨hproto, rfl⟩ | ⟨hproto, rfl⟩
  · rw [if_pos hproto, if_neg (by omega)]
    exact fun hdrop => hlookup _ _ _ _ _ _ hdrop
  · rw [hproto, if_neg (by decide), if_pos rfl, if_neg (by omega)]
    exact fun hdrop => hlookup _ _ _ _ _ _ hdrop
  · rw [hproto, if_neg (by decide), if_neg (by decide), if_pos rfl, handleIcmp,
      if_neg (by omega)]
    split_ifs with hwanted hlen hinner hports
    · simp
    · simp only [Bool.or_eq_true, beq_iff_eq, bne_iff_ne, not_or, not_not] at hwanted
      exact absurd ⟨hproto, hwanted.1.1, hwanted.1.2, hwanted.2, .inl hlen⟩ hmissed
    · simp
    · simp only [Bool.or_eq_true, beq_iff_eq, bne_iff_ne, not_or, not_not] at hwanted
      simp only [Bool.or_eq_true, Bool.and_eq_true, bne_iff_ne, not_or, not_not, not_and_or]
        at hinner
      exact absurd ⟨hproto, hwanted.1.1, hwanted.1.2, hwanted.2,
        .inr ⟨hinner.1, hinner.2, hports⟩⟩ hmissed
    · exact fun hdrop => hlookup _ _ _ _ _ _ hdrop

theorem CutShort.classify_dropped (h : CutShort d p) (hip : IsIpv4 p (p.byte 23)) :
    classify d p = .drop .dropShort := by
  have hwanted : ¬(d.config.flags &&& pbCfgFIcmpPmtu == 0 || p.byte 34 != icmpDestUnreach ||
      p.byte 35 != icmpFragNeeded) = true := by
    simp [h.wanted, h.type, h.code]
  rw [hip.classify, classifyL4, h.icmp, if_neg (by decide), if_neg (by decide), if_pos rfl,
    handleIcmp, if_neg hwanted]
  split_ifs with _ _ hinner
  · rfl
  · rfl
  · simp only [Bool.or_eq_true, Bool.and_eq_true, bne_iff_ne] at hinner
    rcases h.cut with hlen | ⟨hihl, hproto, -⟩
    · omega
    · rcases hinner with hne | ⟨htcp, hudp⟩
      · exact absurd hihl hne
      · exact (hproto.elim htcp hudp).elim
  · rfl
  · rcases h.cut with hlen | ⟨-, -, hlen⟩ <;> omega

theorem forward_ne_dropShort (q : Request) :
    (forward d x dp p q).1.action ≠ .drop .dropShort := by
  cases hlong : q.tooLong with
  | true => simp [forward, hlong, drop]
  | false =>
      obtain ⟨pick, dp₁, hsend, -⟩ := forward_step d x dp p hlong
      rw [hsend]
      by_cases hok : Sendable d pick.realId
      · rw [send_sendable hok]
        split <;> simp [drop]
      · simp [send_not_sendable hok, drop]

theorem PickStep.realId_choice {q : Request} {pick : Pick} {dp' : DpMaps}
    (h : PickStep d x dp q.flow q.vip.vipId (q.useCt d) q.bareSyn pick dp') :
    pick.realId = q.realId d x dp := by
  cases h with
  | hit ct _ huse hsyn hct _ => simp [Request.realId, huse, hsyn, hct]
  | store _ huse hmiss _ =>
      rcases hmiss with hsyn | hnone
      · simp [Request.realId, hsyn]
      · simp [Request.realId, hnone]
  | hash _ hmiss _ =>
      rcases hmiss with huse | hsyn | hnone
      · simp [Request.realId, huse]
      · simp [Request.realId, hsyn]
      · simp [Request.realId, hnone]

theorem forward_tx_iff {q : Request} (hlen : ethLen ≤ p.length) :
    (∃ out, (forward d x dp p q).1.action = .tx out) ↔ Leaves d x dp q := by
  cases hlong : q.tooLong with
  | true =>
      refine iff_of_false ?_ fun h => by simp [h.fits] at hlong
      simp [forward, hlong, drop]
  | false =>
      obtain ⟨pick, dp₁, hsend, hstep⟩ := forward_step d x dp p hlong
      rw [hsend]
      constructor
      · rintro ⟨out, hout⟩
        have hok : ¬(¬Sendable d pick.realId ∨ x.headOk = false) := by
          intro hbad
          obtain ⟨cnt, hcnt⟩ := (send_dropped_iff hlen).mpr hbad
          rw [hcnt] at hout
          cases hout
        rw [not_or, not_not, Bool.not_eq_false] at hok
        exact ⟨hlong, hstep.realId_choice ▸ hok.1, hok.2⟩
      · intro h
        rw [send_sendable (hstep.realId_choice ▸ h.sendable)]
        obtain ⟨out, hout⟩ := encapIpip_isSome h.head hlen (d.reals pick.realId)
          (d.neigh pick.realId) d.config q.flow.hash q.innerLen q.tos
        exact ⟨out, by simp [hout]⟩

theorem xdp_tx_iff : (∃ out, (xdpPacketbalance d x dp p).1.action = .tx out) ↔
    ∃ q, classify d p = .forward q ∧ Leaves d x dp q := by
  cases hq : classify d p with
  | drop cnt => simp [xdpPacketbalance, hq, drop]
  | pass => simp [xdpPacketbalance, hq]
  | forward q =>
      obtain ⟨-, -, hlen⟩ := classify_request hq
      simp only [xdpPacketbalance, hq, Parse.forward.injEq, exists_eq_left']
      exact forward_tx_iff (by unfold ethLen; omega)

theorem genuine_of_forward {q : Request} (hq : classify d p = .forward q)
    (hleaves : Leaves d x dp q) (h : ¬Misread d x dp p) : Genuine p q.flow := by
  have hflow : q.flow = p.flow := (classify_forward hq).1
  rw [hflow]
  have hshort : ∀ n, IsIpv4 p (p.byte 23) → transportLen (p.byte 23) = some n →
      p.byte 23 ≠ ipprotoIcmp → ethLen + 20 + n ≤ p.length → 20 + n ≤ p.totLen := by
    intro n hip hn hicmp hframe
    by_contra hlt
    exact h (.header n ⟨hip, hn, Nat.not_le.mp hlt⟩ hframe fun hcut => hicmp hcut.icmp)
  rcases classify_inv hq with hcarries | ⟨hquotes, hproto, hwanted⟩
  · have hip : IsIpv4 p (p.byte 23) := hcarries.ip.proto ▸ hcarries.ip
    rcases hcarries.transport with ⟨hproto, hlen⟩ | ⟨hproto, hlen⟩
    · have hbyte := hcarries.ip.proto.trans hproto
      exact .tcp hcarries hproto (hshort 20 hip (by rw [hbyte]; rfl) (by rw [hbyte]; decide)
        (by unfold ethLen; omega))
    · have hbyte := hcarries.ip.proto.trans hproto
      exact .udp hcarries hproto (hshort 8 hip (by rw [hbyte]; rfl) (by rw [hbyte]; decide)
        (by unfold ethLen; omega))
  · obtain ⟨hreq, hvip, -⟩ := classify_request hq
    have hgood : ¬(p.totLen < 20 + 8 + 20 + 4 ∨ p.load16 48 &&& bpfHtons pbIpOffset ≠ 0) :=
      fun hbad => h (.quoted q.vip hquotes hproto hwanted hvip hbad (hreq ▸ hleaves))
    rw [not_or, Nat.not_lt, not_not] at hgood
    exact .fragNeeded hquotes hproto hgood.1 hgood.2

theorem Quotes.not_genuine {k : Flow} (h : Quotes p k)
    (hbad : p.totLen < 20 + 8 + 20 + 4 ∨ p.load16 48 &&& bpfHtons pbIpOffset ≠ 0) (k' : Flow) :
    ¬Genuine p k' := by
  have hicmp : ∀ {proto : UInt8}, p.byte 23 = proto → proto = ipprotoIcmp :=
    fun hproto => hproto.symm.trans h.ip.proto
  rintro (⟨hcarries, hproto, -⟩ | ⟨hcarries, hproto, -⟩ | ⟨-, -, hinside, hfirst⟩)
  · exact absurd (hproto ▸ hicmp hcarries.ip.proto) (by decide)
  · exact absurd (hproto ▸ hicmp hcarries.ip.proto) (by decide)
  · rcases hbad with hshort | hoffset
    · omega
    · exact hoffset hfirst

end

/-! ## The law -/

/-- A frame is forwarded by genuine ports only, and dropped as short when its datagram has no
room for its header, exactly when it is not misread. -/
theorem genuine_ports_iff (d : CtlMaps) (x : PktEnv) (dp : DpMaps) (p : Frame) :
    ((∀ out, (xdpPacketbalance d x dp p).1.action = .tx out →
        ∃ q, classify d p = .forward q ∧ Genuine p q.flow) ∧
      ∀ n, TooShort p n → (xdpPacketbalance d x dp p).1.action = .drop .dropShort) ↔
      ¬Misread d x dp p := by
  constructor
  · rintro ⟨htx, hshort⟩ (⟨n, htoo, hframe, hmissed⟩ |
      ⟨vip, hquotes, hproto, hwanted, hvip, hbad, hleaves⟩)
    · have hdrop := hshort n htoo
      have hclass := htoo.classify_missed hframe hmissed
      unfold xdpPacketbalance at hdrop
      cases hq : classify d p with
      | drop cnt =>
          rw [hq] at hdrop hclass
          exact hclass (by simpa [drop] using hdrop)
      | pass => simp [hq] at hdrop
      | forward q =>
          rw [hq] at hdrop
          exact forward_ne_dropShort q hdrop
    · obtain ⟨q, hq⟩ := hquotes.classify hproto hwanted hvip
      obtain ⟨out, hout⟩ := xdp_tx_iff.mpr ⟨_, classify_eq_request hq rfl hvip, hleaves⟩
      obtain ⟨q', -, hgenuine⟩ := htx out hout
      exact hquotes.not_genuine hbad _ hgenuine
  · intro h
    refine ⟨fun out hout => ?_, fun n hshort => ?_⟩
    · obtain ⟨q, hq, hleaves⟩ := xdp_tx_iff.mp ⟨out, hout⟩
      exact ⟨q, hq, genuine_of_forward hq hleaves h⟩
    · have hclass : classify d p = .drop .dropShort := by
        by_cases hframe : p.length < ethLen + 20 + n
        · exact hshort.classify_dropped hframe
        · by_cases hcut : CutShort d p
          · exact hcut.classify_dropped hshort.ip
          · exact absurd (.header n hshort (Nat.not_lt.mp hframe) hcut) h
      simp [xdpPacketbalance, hclass, drop]

/-- A UDP packet that ends after its IPv4 header, padded to 60 bytes; the padding reads as
the ports of `sampleFlow`. -/
def paddedFrame : Frame :=
  [0x02, 0, 0, 0, 0, 0x0b, 0x02, 0, 0, 0, 0, 0x0a, 0x08, 0x00,
   0x45, 0, 0, 20, 0, 0, 0, 0, 64, 17, 0, 0, 10, 0, 0, 1, 198, 51, 100, 1,
   0x30, 0x39, 0, 80] ++ List.replicate 22 0

/-- The program takes the padding for ports and forwards the frame. -/
theorem padding_is_forwarded :
    TooShort paddedFrame 8 ∧ (∀ k, ¬Genuine paddedFrame k) ∧
    ∃ out, (xdpPacketbalance sampleMaps sampleCpu .empty paddedFrame).1.action = .tx out := by
  have hip : IsIpv4 paddedFrame (paddedFrame.byte 23) :=
    ⟨by decide, by decide, by decide, by decide, by decide, by decide, rfl⟩
  have htot : paddedFrame.totLen = 20 := by decide
  refine ⟨⟨hip, by decide, by omega⟩, ?_, ?_⟩
  · rintro k (⟨-, -, hinside⟩ | ⟨-, -, hinside⟩ | ⟨-, -, hinside, -⟩) <;> omega
  · have hcarries : Carries paddedFrame sampleFlow :=
      ⟨hip, by decide, by decide, by decide, by decide, by decide⟩
    obtain ⟨q, hq⟩ := hcarries.classify sampleMaps_vip
    refine xdp_tx_iff.mpr ⟨_, classify_eq_request hq hcarries.flow_eq sampleMaps_vip,
      request_fits (by decide) _, ?_, rfl⟩
    have hmiss : ∀ f, ctHit sampleMaps sampleCpu .empty f = none := fun _ => rfl
    have hvip : (paddedFrame.request ⟨0, 0⟩).vip.vipId = 0 := rfl
    simp only [Request.realId, hmiss, Option.elim_none, ite_self, hvip, ringLookup_sampleMaps]
    exact ⟨by decide, by decide, by decide⟩

end PacketBalance
