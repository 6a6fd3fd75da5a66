import PacketBalance.Maps
import PacketBalance.Hash
import PacketBalance.Lib.PercpuMap
/-!
# The data plane

`bpf/packetbalance.bpf.c`: what the XDP program does with one frame, given the
maps of the control plane and its own.  A frame is its bytes; a bounds check
against `data_end` is a check of the length, and every load below happens at an
offset that an earlier check has covered.
-/

namespace PacketBalance

/-! ## Frames -/

abbrev Frame := List UInt8

def Frame.byte (p : Frame) (off : Nat) : UInt8 := p.getD off 0

/-- A 16-bit load, as the little-endian host sees it. -/
def Frame.load16 (p : Frame) (off : Nat) : UInt16 :=
  (p.byte off).toUInt16 ||| ((p.byte (off + 1)).toUInt16 <<< 8)

def Frame.load32 (p : Frame) (off : Nat) : UInt32 :=
  (p.load16 off).toUInt32 ||| ((p.load16 (off + 2)).toUInt32 <<< 16)

def store16 (w : UInt16) : List UInt8 := [w.toUInt8, (w >>> 8).toUInt8]

def bpfNtohs (w : UInt16) : Nat := portFromBe w

def bpfHtons (n : Nat) : UInt16 :=
  (UInt8.ofNat (n / 256)).toUInt16 ||| ((UInt8.ofNat n).toUInt16 <<< 8)

def ethLen : Nat := 14
def pbOuterLen : Nat := 20
def pbOuterTtl : UInt8 := 64
def pbIpMf : Nat := 0x2000
def pbIpOffset : Nat := 0x1FFF
def ethPIp : Nat := 0x0800
def ipprotoIcmp : UInt8 := 1
def ipprotoIpip : UInt8 := 4
def ipprotoTcp : UInt8 := 6
def ipprotoUdp : UInt8 := 17
def icmpDestUnreach : UInt8 := 3
def icmpFragNeeded : UInt8 := 4

/-! ## The maps of the data plane -/

structure RealStats where
  packets : UInt64
  bytes : UInt64
deriving DecidableEq, Repr

/-- The maps the program writes: the connection table and the counters, all with
one copy per CPU. -/
structure DpMaps where
  conntrack : PercpuMap Flow CtValue
  stats : (idx cpu : Nat) → Counter → UInt64
  realStats : (realId cpu : Nat) → RealStats

def DpMaps.empty : DpMaps where
  conntrack := .empty
  stats := fun _ _ _ => 0
  realStats := fun _ _ => ⟨0, 0⟩

/-- What the kernel answers while one packet is processed. -/
structure PktEnv where
  cpu : Nat
  /-- `bpf_ktime_get_ns` -/
  now : Nat
  now_ne_zero : now ≠ 0
  /-- whether `bpf_map_update_elem` on `conntrack` succeeds -/
  insertOk : Bool
  /-- whether `bpf_xdp_adjust_head` succeeds -/
  headOk : Bool

/-- Add to one counter of this CPU; an index outside the array is no slot. -/
def DpMaps.count (dp : DpMaps) (x : PktEnv) (idx : Nat) (cnt : Counter) (n : Nat) : DpMaps :=
  if idx ≤ pbMaxVips then
    { dp with stats := fun i c k =>
        if i = idx ∧ c = x.cpu ∧ k = cnt then dp.stats i c k + UInt64.ofNat n
        else dp.stats i c k }
  else dp

def DpMaps.countReal (dp : DpMaps) (x : PktEnv) (realId innerLen : Nat) : DpMaps :=
  if realId < pbMaxReals then
    { dp with realStats := fun i c =>
        if i = realId ∧ c = x.cpu then
          ⟨(dp.realStats i c).packets + 1, (dp.realStats i c).bytes + UInt64.ofNat innerLen⟩
        else dp.realStats i c }
  else dp

@[simp] theorem DpMaps.count_conntrack (dp : DpMaps) (x : PktEnv) (idx : Nat) (cnt : Counter)
    (n : Nat) : (dp.count x idx cnt n).conntrack = dp.conntrack := by
  unfold DpMaps.count
  split <;> rfl

@[simp] theorem DpMaps.countUnless_conntrack (dp : DpMaps) (x : PktEnv) (idx : Nat)
    (cnt : Counter) (n : Nat) (skip : Bool) :
    (if skip then dp else dp.count x idx cnt n).conntrack = dp.conntrack := by
  split <;> simp

@[simp] theorem DpMaps.countReal_conntrack (dp : DpMaps) (x : PktEnv) (realId innerLen : Nat) :
    (dp.countReal x realId innerLen).conntrack = dp.conntrack := by
  unfold DpMaps.countReal
  split <;> rfl

/-- What a write of the control plane does here: it can clear a slot of the counters,
for all CPUs, when the slot's id is given out anew. -/
def DpMaps.reset (dp : DpMaps) : MapWrite → DpMaps
  | .statsReset vipId =>
      { dp with stats := fun i c k => if i = vipId then 0 else dp.stats i c k }
  | .realStatsReset realId =>
      { dp with realStats := fun i c => if i = realId then ⟨0, 0⟩ else dp.realStats i c }
  | _ => dp

@[simp] theorem DpMaps.reset_conntrack (dp : DpMaps) (w : MapWrite) :
    (dp.reset w).conntrack = dp.conntrack := by
  cases w <;> rfl

/-! ## Real selection -/

def ringLookup (d : CtlMaps) (vipId : Nat) (hash : UInt32) : Nat :=
  match d.rings vipId with
  | none => pbRealNone
  | some ring => ring.slots.getD (hash.toNat % pbRingSize) pbRealNone

def realAlive (d : CtlMaps) (realId : Nat) : Bool :=
  decide (realId < pbMaxReals) && d.reals realId != 0

inductive Source where
  | conntrack
  | ring
deriving DecidableEq, Repr

/-- What `pick_real` returned.  `source` and `tracked` (this CPU's entry now names
the real) are seen by no caller; they say which way the function took. -/
structure Pick where
  realId : Nat
  source : Source
  tracked : Bool
deriving DecidableEq, Repr

/-- The entry of this CPU, unless it is another CPU's blank or names a freed real. -/
def ctHit (d : CtlMaps) (x : PktEnv) (dp : DpMaps) (f : Flow) : Option CtValue :=
  (dp.conntrack.lookup x.cpu f).filter fun ct =>
    ct.lastSeenNs != 0 && realAlive d ct.realId

def pickReal (d : CtlMaps) (x : PktEnv) (dp : DpMaps) (f : Flow) (vipId : Nat)
    (hash : UInt32) (useCt bareSyn mayInsert : Bool) : Pick × DpMaps :=
  if !useCt then
    (⟨ringLookup d vipId hash, .ring, false⟩, dp.count x vipId .hash 1)
  else
    match if bareSyn then none else ctHit d x dp f with
    | some ct =>
        let dp := { dp with
          conntrack := dp.conntrack.update .zero x.cpu f { ct with lastSeenNs := x.now } }
        (⟨ct.realId, .conntrack, true⟩, dp.count x vipId .ctHit 1)
    | none =>
        let dp := if bareSyn then dp else dp.count x vipId .ctMiss 1
        let dp := dp.count x vipId .hash 1
        let realId := ringLookup d vipId hash
        if realId = pbRealNone || !mayInsert then (⟨realId, .ring, false⟩, dp)
        else if !x.insertOk then (⟨realId, .ring, false⟩, dp)
        else
          let entry : CtValue := ⟨realId, vipId, x.now⟩
          (⟨realId, .ring, true⟩,
            { dp with conntrack := dp.conntrack.update .zero x.cpu f entry })

/-! ## Encapsulation -/

def foldCarries (sum : UInt32) : UInt32 := (sum &&& (0xffff : UInt32)) + (sum >>> (16 : UInt32))

def ipv4Csum (hdr : Frame) : UInt16 :=
  let sum := (List.range 10).foldl (fun s i => s + (hdr.load16 (2 * i)).toUInt32) 0
  (~~~ foldCarries (foldCarries sum)).toUInt16

def outerHeader (saddr daddr : UInt32) (innerLen : Nat) (tos : UInt8) (check : UInt16) :
    List UInt8 :=
  [0x45, tos] ++ store16 (bpfHtons (innerLen + pbOuterLen)) ++ store16 0 ++ store16 0 ++
    [pbOuterTtl, ipprotoIpip] ++ store16 check ++ memBytes saddr ++ memBytes daddr

/-- The frame with its Ethernet header replaced and an outer header in front of the
packet; `none` when the head cannot be grown. -/
def encapIpip (x : PktEnv) (p : Frame) (realAddr : UInt32) (dmac : Mac) (cfg : PbConfig)
    (hash : UInt32) (innerLen : Nat) (tos : UInt8) : Option Frame :=
  if !x.headOk then none
  else if p.length + pbOuterLen < ethLen + 20 then none
  else
    let saddr := (cfg.encapSrcPrefix &&& cfg.encapSrcMask) ||| (hash &&& ~~~ cfg.encapSrcMask)
    let header := outerHeader saddr realAddr innerLen tos
    some (dmac.bytes.toList ++ cfg.lbMac.bytes.toList ++ store16 (bpfHtons ethPIp) ++
      header (ipv4Csum (header 0)) ++ p.drop ethLen)

/-! ## Forwarding -/

/-- What the program returns; a drop carries the counter it was counted under. -/
inductive Action where
  | pass
  | drop (cnt : Counter)
  | tx (out : Frame)
deriving DecidableEq, Repr

/-- The arguments of `forward` that come from the packet and from `vip_map`. -/
structure Request where
  flow : Flow
  vip : VipValue
  bareSyn : Bool
  mayInsert : Bool
  isIcmp : Bool
  innerLen : Nat
  tos : UInt8
deriving DecidableEq, Repr

/-- The action, and what `pick_real` answered on the way if it was asked. -/
structure Result where
  action : Action
  pick : Option Pick
deriving DecidableEq, Repr

def Request.useCt (d : CtlMaps) (q : Request) : Bool :=
  d.config.flags &&& pbCfgFNoConntrack == 0 && q.vip.flags &&& pbVipFNoConntrack == 0

def Request.tooLong (q : Request) : Bool := decide (q.innerLen + pbOuterLen > pbMaxPacketLen)

def drop (dp : DpMaps) (x : PktEnv) (idx : Nat) (cnt : Counter) (pick : Option Pick) :
    Result × DpMaps :=
  (⟨.drop cnt, pick⟩, dp.count x idx cnt 1)

/-- The part of `forward` after the real is chosen. -/
def send (d : CtlMaps) (x : PktEnv) (dp : DpMaps) (p : Frame) (q : Request) (pick : Pick) :
    Result × DpMaps :=
  let st := q.vip.vipId
  if pick.realId ≥ pbMaxReals then drop dp x st .dropNoReal pick
  else if d.reals pick.realId = 0 then drop dp x st .dropNoReal pick
  else if (d.neigh pick.realId).isZero then drop dp x st .dropNoReal pick
  else
    match encapIpip x p (d.reals pick.realId) (d.neigh pick.realId) d.config q.flow.hash
        q.innerLen q.tos with
    | none => drop dp x st .dropAdjHead pick
    | some out =>
        let dp := dp.count x st .tx 1
        let dp := if q.isIcmp then dp.count x st .icmpPmtuFwd 1 else dp
        (⟨.tx out, pick⟩, dp.countReal x pick.realId q.innerLen)

def forward (d : CtlMaps) (x : PktEnv) (dp : DpMaps) (p : Frame) (q : Request) :
    Result × DpMaps :=
  let st := q.vip.vipId
  let dp := dp.count x st .packets 1
  let dp := dp.count x st .bytes q.innerLen
  let dp := if q.bareSyn then dp.count x st .syn 1 else dp
  if q.tooLong then drop dp x st .dropMtu none
  else
    let (pick, dp) := pickReal d x dp q.flow q.vip.vipId q.flow.hash (q.useCt d) q.bareSyn
      q.mayInsert
    send d x dp p q pick

/-! ## Parsing -/

inductive Parse where
  | drop (cnt : Counter)
  | pass
  | forward (q : Request)
deriving DecidableEq, Repr

def Flow.vip (f : Flow) : VipSpec := ⟨f.daddr, f.dport, f.proto⟩

/-- The common end of both paths: `vip_map` decides whether the flow is ours. -/
def lookupVip (d : CtlMaps) (f : Flow) (bareSyn mayInsert isIcmp : Bool) (innerLen : Nat)
    (tos : UInt8) : Parse :=
  match d.vipMap[f.vip]? with
  | none => .pass
  | some vip => .forward ⟨f, vip, bareSyn, mayInsert, isIcmp, innerLen, tos⟩

def Frame.ownFlow (p : Frame) : Flow :=
  { saddr := p.load32 26, daddr := p.load32 30, sport := p.load16 34, dport := p.load16 36,
    proto := p.byte 23 }

/-- The flow an ICMP message is about.  The quoted packet goes from the VIP to the
client, the flow the other way. -/
def Frame.quotedFlow (p : Frame) : Flow :=
  { saddr := p.load32 58, daddr := p.load32 54, sport := p.load16 64, dport := p.load16 62,
    proto := p.byte 51 }

def handleIcmp (d : CtlMaps) (p : Frame) : Parse :=
  if p.length < 42 then .drop .dropShort
  else if d.config.flags &&& pbCfgFIcmpPmtu == 0 || p.byte 34 != icmpDestUnreach ||
      p.byte 35 != icmpFragNeeded then .pass
  else if p.length < 62 then .drop .dropShort
  else if p.byte 42 &&& 0xf != 5 || (p.byte 51 != ipprotoTcp && p.byte 51 != ipprotoUdp) then
    .pass
  else if p.length < 66 then .drop .dropShort
  else lookupVip d p.quotedFlow false false true (bpfNtohs (p.load16 16)) (p.byte 15)

/-- The transport header of a packet whose IP header was accepted. -/
def classifyL4 (d : CtlMaps) (p : Frame) (totLen : Nat) : Parse :=
  if p.byte 23 = ipprotoTcp then
    if p.length < 54 then .drop .dropShort
    else
      let flags := p.byte 47
      let bareSyn := flags &&& 0x02 != 0 && flags &&& 0x10 == 0
      lookupVip d p.ownFlow bareSyn (flags &&& 0x04 == 0) false totLen (p.byte 15)
  else if p.byte 23 = ipprotoUdp then
    if p.length < 42 then .drop .dropShort
    else lookupVip d p.ownFlow false true false totLen (p.byte 15)
  else if p.byte 23 = ipprotoIcmp then handleIcmp d p
  else .pass

def classify (d : CtlMaps) (p : Frame) : Parse :=
  if p.length < ethLen then .drop .dropShort
  else if p.load16 12 ≠ bpfHtons ethPIp then .pass
  else if p.length < ethLen + 20 then .drop .dropShort
  else if p.byte 14 >>> 4 ≠ 4 then .drop .dropOther
  else if p.byte 14 &&& 0xf ≠ 5 then .drop .dropOpts
  else if p.load16 20 &&& bpfHtons (pbIpMf ||| pbIpOffset) ≠ 0 then .drop .dropFrag
  else
    let totLen := bpfNtohs (p.load16 16)
    if totLen > 0xffff then .drop .dropOther
    else if totLen < 20 ∨ ethLen + totLen > p.length then .drop .dropShort
    else classifyL4 d p totLen

def xdpPacketbalance (d : CtlMaps) (x : PktEnv) (dp : DpMaps) (p : Frame) :
    Result × DpMaps :=
  match classify d p with
  | .drop cnt => drop dp x pbStatsGlobal cnt none
  | .pass => (⟨.pass, none⟩, dp.count x pbStatsGlobal .pass 1)
  | .forward q => forward d x dp p q

/-! ## What one packet can do -/

def Frame.flow (p : Frame) : Flow :=
  if p.byte 23 = ipprotoIcmp then p.quotedFlow else p.ownFlow

/-- What `forward` is called with for a frame, once its VIP is found. -/
def Frame.request (p : Frame) (vip : VipValue) : Request where
  flow := p.flow
  vip := vip
  bareSyn := p.byte 23 == ipprotoTcp && (p.byte 47 &&& 0x02 != 0 && p.byte 47 &&& 0x10 == 0)
  mayInsert := p.byte 23 == ipprotoUdp || p.byte 23 == ipprotoTcp && p.byte 47 &&& 0x04 == 0
  isIcmp := p.byte 23 == ipprotoIcmp
  innerLen := bpfNtohs (p.load16 16)
  tos := p.byte 15

theorem lookupVip_forward {d : CtlMaps} {f : Flow} {bareSyn mayInsert isIcmp : Bool}
    {innerLen : Nat} {tos : UInt8} {q : Request}
    (h : lookupVip d f bareSyn mayInsert isIcmp innerLen tos = .forward q) :
    q = ⟨f, q.vip, bareSyn, mayInsert, isIcmp, innerLen, tos⟩ ∧
      d.vipMap[f.vip]? = some q.vip := by
  unfold lookupVip at h
  split at h
  · cases h
  · next vip hvip =>
      cases h
      exact ⟨rfl, hvip⟩

theorem handleIcmp_forward {d : CtlMaps} {p : Frame} {q : Request}
    (h : handleIcmp d p = .forward q) (hicmp : p.byte 23 = ipprotoIcmp) :
    q = p.request q.vip ∧ d.vipMap[p.flow.vip]? = some q.vip := by
  have hreq : ∀ vip, p.request vip =
      ⟨p.quotedFlow, vip, false, false, true, bpfNtohs (p.load16 16), p.byte 15⟩ := by
    intro vip
    simp [Frame.request, Frame.flow, hicmp, ipprotoIcmp, ipprotoTcp, ipprotoUdp]
  have hflow : p.flow = p.quotedFlow := if_pos hicmp
  unfold handleIcmp at h
  repeat' split at h
  all_goals first
    | cases h
    | (rw [hreq, hflow]; exact lookupVip_forward h)

theorem classifyL4_forward {d : CtlMaps} {p : Frame} {q : Request}
    (h : classifyL4 d p (bpfNtohs (p.load16 16)) = .forward q) :
    q = p.request q.vip ∧ d.vipMap[p.flow.vip]? = some q.vip := by
  have hown : ∀ {proto : UInt8}, p.byte 23 = proto → proto ≠ ipprotoIcmp →
      p.flow = p.ownFlow := by
    intro proto hproto hne
    rw [Frame.flow, if_neg (hproto ▸ hne)]
  unfold classifyL4 at h
  split_ifs at h with htcp _ hudp _ hicmp
  · have hreq : ∀ vip, p.request vip = ⟨p.ownFlow, vip,
        p.byte 47 &&& 0x02 != 0 && p.byte 47 &&& 0x10 == 0, p.byte 47 &&& 0x04 == 0, false,
        bpfNtohs (p.load16 16), p.byte 15⟩ := by
      intro vip
      simp [Frame.request, Frame.flow, htcp, ipprotoTcp, ipprotoUdp, ipprotoIcmp]
    rw [hreq, hown htcp (by decide)]
    exact lookupVip_forward h
  · have hreq : ∀ vip, p.request vip =
        ⟨p.ownFlow, vip, false, true, false, bpfNtohs (p.load16 16), p.byte 15⟩ := by
      intro vip
      simp [Frame.request, Frame.flow, hudp, ipprotoTcp, ipprotoUdp, ipprotoIcmp]
    rw [hreq, hown hudp (by decide)]
    exact lookupVip_forward h
  · exact handleIcmp_forward h hicmp

theorem classify_request {d : CtlMaps} {p : Frame} {q : Request}
    (h : classify d p = .forward q) :
    q = p.request q.vip ∧ d.vipMap[p.flow.vip]? = some q.vip ∧ 34 ≤ p.length := by
  unfold classify at h
  dsimp only at h
  split_ifs at h
  obtain ⟨hq, hvip⟩ := classifyL4_forward h
  exact ⟨hq, hvip, by unfold ethLen at *; omega⟩

/-- A packet is forwarded only for its own flow, and only if the flow's VIP is in
`vip_map`. -/
theorem classify_forward {d : CtlMaps} {p : Frame} {q : Request}
    (h : classify d p = .forward q) :
    q.flow = p.flow ∧ d.vipMap[p.flow.vip]? = some q.vip := by
  obtain ⟨hq, hvip, -⟩ := classify_request h
  exact ⟨by rw [hq]; rfl, hvip⟩

structure Sendable (d : CtlMaps) (r : Nat) : Prop where
  range : r < pbMaxReals
  addr : d.reals r ≠ 0
  mac : d.neigh r ≠ Mac.zero

theorem send_sendable {d : CtlMaps} {pick : Pick} (h : Sendable d pick.realId) (x : PktEnv)
    (dp : DpMaps) (p : Frame) (q : Request) :
    send d x dp p q pick =
      match encapIpip x p (d.reals pick.realId) (d.neigh pick.realId) d.config q.flow.hash
          q.innerLen q.tos with
      | none => drop dp x q.vip.vipId .dropAdjHead pick
      | some out =>
          let dp := dp.count x q.vip.vipId .tx 1
          let dp := if q.isIcmp then dp.count x q.vip.vipId .icmpPmtuFwd 1 else dp
          (⟨.tx out, pick⟩, dp.countReal x pick.realId q.innerLen) := by
  have hmac : ¬ (d.neigh pick.realId).isZero = true := mt (Mac.isZero_iff _).mp h.mac
  rw [send]
  dsimp only
  rw [if_neg (Nat.not_le.mpr h.range), if_neg h.addr, if_neg hmac]

theorem send_not_sendable {d : CtlMaps} {pick : Pick} (h : ¬ Sendable d pick.realId)
    (x : PktEnv) (dp : DpMaps) (p : Frame) (q : Request) :
    send d x dp p q pick = drop dp x q.vip.vipId .dropNoReal pick := by
  rw [send]
  dsimp only
  split
  · rfl
  · next hrange =>
      split
      · rfl
      · next haddr =>
          have hmac : (d.neigh pick.realId).isZero = true := by
            by_contra hmac
            exact h ⟨Nat.not_le.mp hrange, haddr, mt (Mac.isZero_iff _).mpr hmac⟩
          rw [if_pos hmac]

theorem classify_vip {d : CtlMaps} {p : Frame} {q : Request}
    (h : classify d p = .forward q) : d.vipMap[q.flow.vip]? = some q.vip := by
  obtain ⟨hflow, hvip⟩ := classify_forward h
  rw [hflow, hvip]

end PacketBalance
