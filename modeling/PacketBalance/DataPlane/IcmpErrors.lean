import PacketBalance.DataPlane.SlotStable
/-!
# ICMP errors follow their flow

A frag-needed message quotes the reply of a flow, VIP to client.  It is given the
real, and sent with the outer source, that a packet of the flow itself would have,
and it leaves no trace in the connection table.
-/

namespace PacketBalance

/-! ## Frames -/

/-- A whole IPv4 packet without options, as far as its headers say. -/
structure IsIpv4 (p : Frame) (proto : UInt8) : Prop where
  ether : p.load16 12 = bpfHtons ethPIp
  version : p.byte 14 >>> 4 = 4
  ihl : p.byte 14 &&& 0xf = 5
  unfragmented : p.load16 20 &&& bpfHtons (pbIpMf ||| pbIpOffset) = 0
  header : 20 ≤ bpfNtohs (p.load16 16)
  complete : ethLen + bpfNtohs (p.load16 16) ≤ p.length
  proto : p.byte 23 = proto

/-- A TCP or UDP packet of the flow, with its transport header. -/
structure Carries (p : Frame) (k : Flow) : Prop where
  ip : IsIpv4 p k.proto
  saddr : p.load32 26 = k.saddr
  daddr : p.load32 30 = k.daddr
  sport : p.load16 34 = k.sport
  dport : p.load16 36 = k.dport
  transport : k.proto = ipprotoTcp ∧ 54 ≤ p.length ∨ k.proto = ipprotoUdp ∧ 42 ≤ p.length

def Frame.bareSyn (p : Frame) : Bool := p.byte 47 &&& 0x02 != 0 && p.byte 47 &&& 0x10 == 0

/-- A frag-needed message that quotes a reply of the flow: source and destination,
and the ports, are the flow's the other way round. -/
structure Quotes (p : Frame) (k : Flow) : Prop where
  ip : IsIpv4 p ipprotoIcmp
  type : p.byte 34 = icmpDestUnreach
  code : p.byte 35 = icmpFragNeeded
  length : 66 ≤ p.length
  ihl : p.byte 42 &&& 0xf = 5
  proto : p.byte 51 = k.proto
  saddr : p.load32 54 = k.daddr
  daddr : p.load32 58 = k.saddr
  sport : p.load16 62 = k.dport
  dport : p.load16 64 = k.sport

section

variable {d : CtlMaps} {p : Frame} {k : Flow} {proto : UInt8} {vip : VipValue}

theorem bpfNtohs_le (w : UInt16) : bpfNtohs w ≤ 0xffff := by
  have hlt := w.toNat_lt
  rw [bpfNtohs, portFromBe, toNat_byte0, toNat_byte1]
  omega

theorem IsIpv4.classify (h : IsIpv4 p proto) :
    classify d p = classifyL4 d p (bpfNtohs (p.load16 16)) := by
  have hlen : 34 ≤ p.length := by
    have := h.header
    have := h.complete
    unfold ethLen at *
    omega
  have hshort : ¬ (bpfNtohs (p.load16 16) < 20 ∨ ethLen + bpfNtohs (p.load16 16) > p.length) :=
    not_or.mpr ⟨Nat.not_lt.mpr h.header, Nat.not_lt.mpr h.complete⟩
  unfold PacketBalance.classify
  dsimp only
  rw [if_neg (by unfold ethLen; omega), if_neg (not_not.mpr h.ether),
    if_neg (by unfold ethLen; omega), if_neg (not_not.mpr h.version),
    if_neg (not_not.mpr h.ihl), if_neg (not_not.mpr h.unfragmented),
    if_neg (Nat.not_lt.mpr (bpfNtohs_le _)), if_neg hshort]

theorem Carries.flow_eq (h : Carries p k) : p.flow = k := by
  have hne : p.byte 23 ≠ ipprotoIcmp := by
    rw [h.ip.proto]
    rcases h.transport with ⟨hproto, -⟩ | ⟨hproto, -⟩ <;> rw [hproto] <;> decide
  rw [Frame.flow, if_neg hne, Frame.ownFlow, h.saddr, h.daddr, h.sport, h.dport, h.ip.proto]

theorem Quotes.flow_eq (h : Quotes p k) : p.flow = k := by
  rw [Frame.flow, if_pos h.ip.proto, Frame.quotedFlow, h.saddr, h.daddr, h.sport, h.dport,
    h.proto]

theorem lookupVip_found {f : Flow} {bareSyn mayInsert isIcmp : Bool} {innerLen : Nat}
    {tos : UInt8} (h : d.vipMap[f.vip]? = some vip) :
    lookupVip d f bareSyn mayInsert isIcmp innerLen tos =
      .forward ⟨f, vip, bareSyn, mayInsert, isIcmp, innerLen, tos⟩ := by
  simp [lookupVip, h]

theorem Carries.classify (h : Carries p k) (hvip : d.vipMap[k.vip]? = some vip) :
    ∃ q, classify d p = .forward q := by
  have hvip' : d.vipMap[p.ownFlow.vip]? = some vip := by
    have hown : p.ownFlow = k := by
      rw [Frame.ownFlow, h.saddr, h.daddr, h.sport, h.dport, h.ip.proto]
    rw [hown, hvip]
  rw [h.ip.classify]
  rcases h.transport with ⟨hproto, hlen⟩ | ⟨hproto, hlen⟩
  · have htcp : p.byte 23 = ipprotoTcp := h.ip.proto.trans hproto
    rw [classifyL4, if_pos htcp, if_neg (by omega)]
    exact ⟨_, lookupVip_found hvip'⟩
  · have hudp : p.byte 23 = ipprotoUdp := h.ip.proto.trans hproto
    rw [classifyL4, if_neg (by rw [hudp]; decide), if_pos hudp, if_neg (by omega)]
    exact ⟨_, lookupVip_found hvip'⟩

theorem Quotes.classify (h : Quotes p k) (hproto : k.proto = ipprotoTcp ∨ k.proto = ipprotoUdp)
    (hpmtu : d.config.flags &&& pbCfgFIcmpPmtu ≠ 0) (hvip : d.vipMap[k.vip]? = some vip) :
    ∃ q, classify d p = .forward q := by
  have hvip' : d.vipMap[p.quotedFlow.vip]? = some vip := by
    have hquoted : p.quotedFlow = k := by
      rw [Frame.quotedFlow, h.saddr, h.daddr, h.sport, h.dport, h.proto]
    rw [hquoted, hvip]
  have hlen := h.length
  have hours : ¬ (d.config.flags &&& pbCfgFIcmpPmtu == 0 || p.byte 34 != icmpDestUnreach ||
      p.byte 35 != icmpFragNeeded) = true := by
    simp [hpmtu, h.type, h.code]
  have hinner : ¬ (p.byte 42 &&& 0xf != 5 ||
      (p.byte 51 != ipprotoTcp && p.byte 51 != ipprotoUdp)) = true := by
    rw [h.ihl, h.proto]
    rcases hproto with hproto | hproto <;> rw [hproto] <;> decide
  rw [h.ip.classify, classifyL4, if_neg (by rw [h.ip.proto]; decide),
    if_neg (by rw [h.ip.proto]; decide), if_pos h.ip.proto, handleIcmp, if_neg (by omega),
    if_neg hours, if_neg (by omega), if_neg hinner, if_neg (by omega)]
  exact ⟨_, lookupVip_found hvip'⟩

theorem classify_inv {q : Request} (h : PacketBalance.classify d p = .forward q) :
    Carries p p.flow ∨ Quotes p p.flow ∧
      (p.flow.proto = ipprotoTcp ∨ p.flow.proto = ipprotoUdp) ∧
      d.config.flags &&& pbCfgFIcmpPmtu ≠ 0 := by
  unfold PacketBalance.classify at h
  dsimp only at h
  split_ifs at h with _ hether _ hversion hihl hfrag _ hlen
  simp only [not_or, Nat.not_lt] at hlen
  have hip : IsIpv4 p (p.byte 23) := ⟨not_not.mp hether, not_not.mp hversion, not_not.mp hihl,
    not_not.mp hfrag, hlen.1, hlen.2, rfl⟩
  have hown : p.byte 23 ≠ ipprotoIcmp → p.flow = p.ownFlow := fun hne => if_neg hne
  unfold classifyL4 at h
  split_ifs at h with htcp htcplen hudp hudplen hicmp
  · rw [hown (by rw [htcp]; decide)]
    exact .inl ⟨hip, rfl, rfl, rfl, rfl, .inl ⟨htcp, Nat.not_lt.mp htcplen⟩⟩
  · rw [hown (by rw [hudp]; decide)]
    exact .inl ⟨hip, rfl, rfl, rfl, rfl, .inr ⟨hudp, Nat.not_lt.mp hudplen⟩⟩
  · have hquoted : p.flow = p.quotedFlow := if_pos hicmp
    unfold handleIcmp at h
    split_ifs at h with _ hkind _ hinner hports
    simp only [Bool.or_eq_true, Bool.and_eq_true, bne_iff_ne, beq_iff_eq, not_or, not_not,
      not_and_or] at hkind hinner
    rw [hquoted]
    exact .inr ⟨⟨hicmp ▸ hip, hkind.1.2, hkind.2, Nat.not_lt.mp hports, hinner.1, rfl, rfl, rfl,
      rfl, rfl⟩, hinner.2, hkind.1.1⟩

/-! ## Which real -/

theorem PickStep.same_real {x x' : PktEnv} {dp dp' dp₁ dp₁' : DpMaps} {f : Flow}
    {vipId : Nat} {useCt bareSyn : Bool} {pick pick' : Pick}
    (h : PickStep d x dp f vipId useCt bareSyn pick dp₁)
    (h' : PickStep d x' dp' f vipId useCt bareSyn pick' dp₁')
    (hhit : (ctHit d x dp f).map CtValue.realId = (ctHit d x' dp' f).map CtValue.realId) :
    pick.realId = pick'.realId := by
  have hmiss : ∀ ct, useCt = true → bareSyn = false → ctHit d x dp f = some ct →
      ¬ (useCt = false ∨ bareSyn = true ∨ ctHit d x' dp' f = none) := by
    rintro ct huse hsyn hct (hno | hno | hno)
    · simp [hno] at huse
    · simp [hno] at hsyn
    · simp [hct, hno] at hhit
  have hmiss' : ∀ ct, useCt = true → bareSyn = false → ctHit d x' dp' f = some ct →
      ¬ (useCt = false ∨ bareSyn = true ∨ ctHit d x dp f = none) := by
    rintro ct huse hsyn hct (hno | hno | hno)
    · simp [hno] at huse
    · simp [hno] at hsyn
    · simp [hct, hno] at hhit
  cases h with
  | hit ct _ huse hsyn hct _ =>
      cases h' with
      | hit ct' _ _ _ hct' _ => simpa [hct, hct'] using hhit
      | store _ _ hno _ => exact absurd (.inr hno) (hmiss ct huse hsyn hct)
      | hash _ hno _ => exact absurd hno (hmiss ct huse hsyn hct)
  | store _ _ hno _ =>
      cases h' with
      | hit ct' _ huse hsyn hct' _ => exact absurd (.inr hno) (hmiss' ct' huse hsyn hct')
      | store => rfl
      | hash => rfl
  | hash _ hno _ =>
      cases h' with
      | hit ct' _ huse hsyn hct' _ => exact absurd hno (hmiss' ct' huse hsyn hct')
      | store => rfl
      | hash => rfl

/-! ## No trace -/

def SameReals (m m' : PercpuMap Flow CtValue) : Prop :=
  ∀ c f, (m'.lookup c f).map CtValue.realId = (m.lookup c f).map CtValue.realId

theorem SameReals.refl (m : PercpuMap Flow CtValue) : SameReals m m := fun _ _ => rfl

/-- What a store changes: nothing, when this CPU's copy names the real already. -/
theorem sameReals_update_iff {m : PercpuMap Flow CtValue} {cpu : Nat} {f : Flow} {v : CtValue} :
    SameReals m (m.update .zero cpu f v) ↔
      (m.lookup cpu f).map CtValue.realId = some v.realId := by
  constructor
  · intro h
    have hself := h cpu f
    rwa [PercpuMap.lookup_update_self, Option.map_some, eq_comm] at hself
  · intro h c f'
    obtain ⟨ct, hct, hreal⟩ := Option.map_eq_some_iff.mp h
    obtain ⟨copies, hcopies, hcopy⟩ := Option.map_eq_some_iff.mp hct
    rw [PercpuMap.lookup_update]
    split_ifs with hf hc
    · rw [hf, hc, hct, Option.map_some, Option.map_some, hreal]
    · rw [hf, PercpuMap.lookup, hcopies]
      rfl
    · rfl

/-- When `pick_real` takes a real from the ring and stores it. -/
structure Stores (d : CtlMaps) (x : PktEnv) (dp : DpMaps) (q : Request) : Prop where
  useCt : q.useCt d = true
  miss : q.bareSyn = true ∨ ctHit d x dp q.flow = none
  real : ringLookup d q.vip.vipId q.flow.hash ≠ pbRealNone
  mayInsert : q.mayInsert = true
  insertOk : x.insertOk = true

section Store

variable {x : PktEnv} {dp dp₁ : DpMaps} {q : Request}

theorem pickReal_stores (h : Stores d x dp q) (hct : dp₁.conntrack = dp.conntrack) :
    (pickReal d x dp₁ q.flow q.vip.vipId q.flow.hash (q.useCt d) q.bareSyn q.mayInsert).1.realId =
        ringLookup d q.vip.vipId q.flow.hash ∧
      (pickReal d x dp₁ q.flow q.vip.vipId q.flow.hash (q.useCt d) q.bareSyn
          q.mayInsert).2.conntrack =
        dp.conntrack.update .zero x.cpu q.flow
          ⟨ringLookup d q.vip.vipId q.flow.hash, q.vip.vipId, x.now⟩ := by
  have hhit : ctHit d x dp₁ q.flow = ctHit d x dp q.flow := by simp [ctHit, hct]
  have hmiss : (if q.bareSyn then none else ctHit d x dp₁ q.flow) = none := by
    rcases h.miss with hsyn | hnone
    · rw [if_pos hsyn]
    · rw [hhit, hnone, ite_self]
  simp [pickReal, h.useCt, hmiss, h.real, h.mayInsert, h.insertOk, hct]

theorem pickReal_keeps (h : ¬Stores d x dp q) (hct : dp₁.conntrack = dp.conntrack) :
    SameReals dp.conntrack (pickReal d x dp₁ q.flow q.vip.vipId q.flow.hash (q.useCt d) q.bareSyn
      q.mayInsert).2.conntrack := by
  have hhit : ctHit d x dp₁ q.flow = ctHit d x dp q.flow := by simp [ctHit, hct]
  unfold pickReal
  cases huse : q.useCt d with
  | false => simpa [hct] using SameReals.refl _
  | true =>
      simp only [Bool.not_true, Bool.false_eq_true, if_false]
      split
      · next ct hfound =>
          have hlookup : dp.conntrack.lookup x.cpu q.flow = some ct := by
            cases hsyn : q.bareSyn with
            | true => simp [hsyn] at hfound
            | false =>
                rw [hsyn, hhit] at hfound
                exact (ctHit_eq_some hfound).1
          rw [DpMaps.count_conntrack, hct, sameReals_update_iff, hlookup]
          rfl
      · next hnone =>
          have hmiss : q.bareSyn = true ∨ ctHit d x dp q.flow = none := by
            cases hsyn : q.bareSyn with
            | true => exact .inl rfl
            | false => exact .inr (by simpa [hsyn, hhit] using hnone)
          split
          · simpa [hct] using SameReals.refl _
          · next hskip =>
              split
              · simpa [hct] using SameReals.refl _
              · next hfail =>
                  simp only [Bool.or_eq_true, decide_eq_true_eq, Bool.not_eq_true', not_or,
                    Bool.not_eq_false] at hskip hfail
                  exact absurd ⟨huse, hmiss, hskip.1, hskip.2, hfail⟩ h

theorem forward_noInsert (h : q.mayInsert = false) :
    SameReals dp.conntrack (forward d x dp p q).2.conntrack := by
  by_cases hlen : q.tooLong = true
  · rw [(forward_tooLong hlen).2]
    exact .refl _
  · obtain ⟨dp₁, hct, hfwd⟩ := forward_eq_send d x dp p (Bool.eq_false_iff.mpr hlen)
    rw [hfwd, send_conntrack]
    exact pickReal_keeps (fun hstores => Bool.false_ne_true (h.symm.trans hstores.mayInsert)) hct

end Store

end

/-! ## The outer source -/

theorem Frame.byte_append (a b : Frame) {off i : Nat} (hoff : a.length = off) :
    Frame.byte (a ++ b) (off + i) = Frame.byte b i := by
  subst hoff
  simp [Frame.byte, List.getD_eq_getElem?_getD, List.getElem?_append_right]

theorem Frame.byte_append_left (a b : Frame) {i : Nat} (hi : i < a.length) :
    Frame.byte (a ++ b) i = Frame.byte a i := by
  simp [Frame.byte, List.getD_eq_getElem?_getD, List.getElem?_append_left hi]

theorem Encapsulates.source {d : CtlMaps} {p out : Frame} {r : Nat}
    (h : Encapsulates d p r out) : out.load32 26 = outerSource d.config p.flow := by
  obtain ⟨header, hheader, rfl⟩ := h.layout
  rw [← hheader.saddr]
  have hbyte : ∀ i < 20, Frame.byte ((d.neigh r).bytes.toList ++ d.config.lbMac.bytes.toList ++
      [0x08, 0x00] ++ header ++ p.drop 14) (14 + i) = header.byte i := by
    intro i hi
    rw [List.append_assoc, Frame.byte_append _ _ (by simp),
      Frame.byte_append_left _ _ (by rw [hheader.length]; exact hi)]
  simp only [Frame.load32, Frame.load16, ← hbyte 12 (by omega), ← hbyte 13 (by omega),
    ← hbyte 14 (by omega), ← hbyte 15 (by omega)]

theorem classify_eq_request {d : CtlMaps} {p : Frame} {k : Flow} {vip : VipValue} {q : Request}
    (hq : classify d p = .forward q) (hflow : p.flow = k) (hvip : d.vipMap[k.vip]? = some vip) :
    classify d p = .forward (p.request vip) := by
  obtain ⟨hreq, hv, -⟩ := classify_request hq
  rw [hflow, hvip] at hv
  rw [hq, hreq, ← Option.some.inj hv]

theorem Quotes.request_bareSyn {p : Frame} {k : Flow} (h : Quotes p k) (vip : VipValue) :
    (p.request vip).bareSyn = false := by
  rw [Frame.request, h.ip.proto]
  rfl

theorem Quotes.request_mayInsert {p : Frame} {k : Flow} (h : Quotes p k) (vip : VipValue) :
    (p.request vip).mayInsert = false := by
  rw [Frame.request, h.ip.proto]
  rfl

theorem Carries.request_bareSyn {p : Frame} {k : Flow} (h : Carries p k)
    (hsyn : k.proto = ipprotoTcp → p.bareSyn = false) (vip : VipValue) :
    (p.request vip).bareSyn = false := by
  simp only [Frame.request, h.ip.proto]
  rcases h.transport with ⟨htcp, -⟩ | ⟨hudp, -⟩
  · rw [htcp]
    exact hsyn htcp
  · rw [hudp]
    rfl

theorem request_fits {p : Frame} (h : bpfNtohs (p.load16 16) + pbOuterLen ≤ pbMaxPacketLen)
    (vip : VipValue) : (p.request vip).tooLong = false := by
  simpa [Request.tooLong, Frame.request] using h

/-- A frag-needed message about a flow and a packet of the flow, processed in one
state on one CPU, are given the same real and the same outer source, and the message
leaves the connection table with the keys and the reals it had. -/
theorem icmp_follows_flow {d : CtlMaps} {dp : DpMaps} {k : Flow} {vip : VipValue} {x x' : PktEnv}
    {p p' : Frame} (hvip : d.vipMap[k.vip]? = some vip)
    (hpmtu : d.config.flags &&& pbCfgFIcmpPmtu ≠ 0) (hquotes : Quotes p k)
    (hlen : bpfNtohs (p.load16 16) + pbOuterLen ≤ pbMaxPacketLen) (hcarries : Carries p' k)
    (hsyn : k.proto = ipprotoTcp → p'.bareSyn = false)
    (hlen' : bpfNtohs (p'.load16 16) + pbOuterLen ≤ pbMaxPacketLen) (hcpu : x'.cpu = x.cpu) :
    (∃ pick pick', (xdpPacketbalance d x dp p).1.pick = some pick ∧
      (xdpPacketbalance d x' dp p').1.pick = some pick' ∧ pick.realId = pick'.realId) ∧
    (∀ out out', (xdpPacketbalance d x dp p).1.action = .tx out →
      (xdpPacketbalance d x' dp p').1.action = .tx out' → out.load32 26 = out'.load32 26) ∧
    SameReals dp.conntrack (xdpPacketbalance d x dp p).2.conntrack := by
  have hproto : k.proto = ipprotoTcp ∨ k.proto = ipprotoUdp :=
    hcarries.transport.imp And.left And.left
  obtain ⟨_, hfound⟩ := hquotes.classify hproto hpmtu hvip
  obtain ⟨_, hfound'⟩ := hcarries.classify hvip
  have hq := classify_eq_request hfound hquotes.flow_eq hvip
  have hq' := classify_eq_request hfound' hcarries.flow_eq hvip
  refine ⟨?_, ?_, ?_⟩
  · obtain ⟨pick, dp₁, hsend, hstep⟩ := forward_step d x dp p (request_fits hlen vip)
    obtain ⟨pick', dp₁', hsend', hstep'⟩ := forward_step d x' dp p' (request_fits hlen' vip)
    refine ⟨pick, pick', by simp [xdpPacketbalance, hq, hsend, send_pick],
      by simp [xdpPacketbalance, hq', hsend', send_pick], ?_⟩
    have hflow : (p.request vip).flow = k := hquotes.flow_eq
    have hflow' : (p'.request vip).flow = k := hcarries.flow_eq
    rw [hquotes.request_bareSyn, hflow] at hstep
    rw [hcarries.request_bareSyn hsyn, hflow'] at hstep'
    exact hstep.same_real hstep' (by simp only [ctHit, hcpu])
  · intro out out' htx htx'
    obtain ⟨_, -, henc⟩ := xdp_encapsulates htx
    obtain ⟨_, -, henc'⟩ := xdp_encapsulates htx'
    rw [henc.source, henc'.source, hquotes.flow_eq, hcarries.flow_eq]
  · rw [xdpPacketbalance, hq]
    exact forward_noInsert (hquotes.request_mayInsert vip)

/-- A router on the way to 10.0.0.1 cannot forward a packet from 198.51.100.1:80 to
10.0.0.1:12345. -/
def sampleIcmp : Frame :=
  [0x02, 0, 0, 0, 0, 0x0b, 0x02, 0, 0, 0, 0, 0x0a, 0x08, 0x00,
   0x45, 0, 0, 52, 0, 0, 0, 0, 64, 1, 0, 0, 192, 0, 2, 1, 198, 51, 100, 1,
   3, 4, 0, 0, 0, 0, 0x05, 0xdc,
   0x45, 0, 0x05, 0xdc, 0, 0, 0x40, 0, 64, 17, 0, 0, 198, 51, 100, 1, 10, 0, 0, 1,
   0, 80, 0x30, 0x39]

theorem quotes_sampleIcmp : Quotes sampleIcmp sampleFlow where
  ip := ⟨by decide, by decide, by decide, by decide, by decide, by decide, by decide⟩
  type := by decide
  code := by decide
  length := by decide
  ihl := by decide
  proto := by decide
  saddr := by decide
  daddr := by decide
  sport := by decide
  dport := by decide

theorem carries_sampleFrame : Carries sampleFrame sampleFlow where
  ip := ⟨by decide, by decide, by decide, by decide, by decide, by decide, by decide⟩
  saddr := by decide
  daddr := by decide
  sport := by decide
  dport := by decide
  transport := by decide

def pmtuMaps : CtlMaps :=
  { sampleMaps with config := { sampleMaps.config with flags := pbCfgFIcmpPmtu } }

theorem icmp_follows_flow_sample :
    ∃ pick pick',
      (xdpPacketbalance pmtuMaps sampleCpu samplePlane.dp sampleIcmp).1.pick = some pick ∧
      (xdpPacketbalance pmtuMaps sampleCpu samplePlane.dp sampleFrame).1.pick = some pick' ∧
      pick.realId = pick'.realId := by
  have hvip : pmtuMaps.vipMap[sampleFlow.vip]? = some ⟨0, 0⟩ := sampleMaps_vip
  have hsizes : bpfNtohs (sampleIcmp.load16 16) + pbOuterLen ≤ pbMaxPacketLen ∧
      bpfNtohs (sampleFrame.load16 16) + pbOuterLen ≤ pbMaxPacketLen := by decide
  exact (icmp_follows_flow hvip (by decide) quotes_sampleIcmp hsizes.1 carries_sampleFrame
    (fun htcp => absurd htcp (by decide)) hsizes.2 rfl).1

end PacketBalance
