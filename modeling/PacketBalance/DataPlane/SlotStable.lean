import PacketBalance.DataPlane.Encap
/-!
# A stable slot decides on every CPU

While the ring slot of a flow keeps naming one real, it does not matter which CPU a
packet of the flow runs on, what the connection table has lost, or whether it is in
use at all: no copy of the flow's entry can name another real.
-/

namespace PacketBalance

open WriteLog

theorem ctHit_eq_some {d : CtlMaps} {x : PktEnv} {dp : DpMaps} {f : Flow} {ct : CtValue}
    (h : ctHit d x dp f = some ct) :
    dp.conntrack.lookup x.cpu f = some ct ∧ ct.lastSeenNs ≠ 0 ∧
      realAlive d ct.realId = true := by
  simpa [ctHit, Option.filter_eq_some_iff] using h

/-- The flow's VIP has id `vipId`, the slot of the flow's hash names `r`, and `r` has
the address and the MAC. -/
structure SlotNames (k : Flow) (vipId r : Nat) (addr : UInt32) (mac : Mac) (d : CtlMaps) :
    Prop where
  vip : ∃ v, d.vipMap[k.vip]? = some v ∧ v.vipId = vipId
  slot : ∃ ring, d.rings vipId = some ring ∧ ring.slots[k.hash.toNat % pbRingSize]? = some r
  range : r < pbMaxReals
  addr : d.reals r = addr ∧ addr ≠ 0
  mac : d.neigh r = mac ∧ mac ≠ Mac.zero

def CopiesName (k : Flow) (r : Nat) (dp : DpMaps) : Prop :=
  ∀ c ct, dp.conntrack.lookup c k = some ct → ct = CtValue.zero ∨ ct.realId = r

/-- Any step after which the slot still names the real. -/
structure StableStep (k : Flow) (vipId r : Nat) (addr : UInt32) (mac : Mac) (e : PlaneEvent)
    (s s' : Plane) : Prop where
  step : s' = s.step e
  slot : SlotNames k vipId r addr mac s'.ctl

section

variable {k : Flow} {vipId r : Nat} {addr : UInt32} {mac : Mac} {d : CtlMaps}

theorem SlotNames.sendable (h : SlotNames k vipId r addr mac d) : Sendable d r :=
  ⟨h.range, h.addr.1.trans_ne h.addr.2, h.mac.1.trans_ne h.mac.2⟩

theorem SlotNames.ringLookup (h : SlotNames k vipId r addr mac d) :
    ringLookup d vipId k.hash = r := by
  obtain ⟨ring, hring, hslot⟩ := h.slot
  simp [PacketBalance.ringLookup, hring, hslot]

theorem SlotNames.vipId_eq (h : SlotNames k vipId r addr mac d) {p : Frame} {q : Request}
    (hq : classify d p = .forward q) (hk : q.flow = k) : q.vip.vipId = vipId := by
  obtain ⟨v, hv, hid⟩ := h.vip
  have hvip := classify_vip hq
  rw [hk, hv] at hvip
  rw [← Option.some.inj hvip, hid]

theorem CopiesName.update {m : PercpuMap Flow CtValue} {dp dp' : DpMaps} {c : Nat} {f : Flow}
    {v : CtValue} (h : CopiesName k r dp) (hdp : dp.conntrack = m)
    (hdp' : dp'.conntrack = m.update .zero c f v) (hv : f = k → v.realId = r) :
    CopiesName k r dp' := by
  intro c' ct hct
  rw [hdp', PercpuMap.lookup_update] at hct
  split_ifs at hct with hkf hc
  · obtain rfl := Option.some.inj hct
    exact .inr (hv hkf.symm)
  · obtain rfl := Option.some.inj hct
    cases hold : m.lookup c' f with
    | none => exact .inl rfl
    | some old => exact h c' old (by rw [hdp, hkf, hold])
  · exact h c' ct (hdp ▸ hct)

theorem PickStep.names {x : PktEnv} {dp dp' : DpMaps} {useCt bareSyn : Bool} {pick : Pick}
    (h : PickStep d x dp k vipId useCt bareSyn pick dp') (hd : SlotNames k vipId r addr mac d)
    (hcopies : CopiesName k r dp) : pick.realId = r := by
  cases h with
  | hit ct _ _ _ hct _ =>
      obtain ⟨hlookup, hseen, -⟩ := ctHit_eq_some hct
      rcases hcopies x.cpu ct hlookup with rfl | hr
      · exact absurd rfl hseen
      · exact hr
  | store => exact hd.ringLookup
  | hash => exact hd.ringLookup

theorem PickStep.copiesName {x : PktEnv} {dp dp' : DpMaps} {f : Flow} {vipId' : Nat}
    {useCt bareSyn : Bool} {pick : Pick}
    (h : PickStep d x dp f vipId' useCt bareSyn pick dp') (hcopies : CopiesName k r dp)
    (hpick : f = k → pick.realId = r) : CopiesName k r dp' := by
  cases h with
  | hit _ _ _ _ _ hdp => exact hcopies.update rfl hdp hpick
  | store _ _ _ hdp => exact hcopies.update rfl hdp hpick
  | hash _ _ hdp =>
      intro c ct hct
      exact hcopies c ct (hdp ▸ hct)

theorem CopiesName.step {s : Plane} (h : CopiesName k r s.dp)
    (hslot : SlotNames k vipId r addr mac s.ctl) (e : PlaneEvent) :
    CopiesName k r (s.step e).dp := by
  cases e with
  | control ctl => exact h
  | evict k' =>
      intro c ct hct
      simp only [Plane.step, PercpuMap.lookup_evict] at hct
      split_ifs at hct
      exact h c ct hct
  | packet x p =>
      rcases xdp_step s.ctl x s.dp p with ⟨hdp, -⟩ | ⟨q, pick, -, hq, -, -, hpick⟩
      · intro c ct hct
        exact h c ct (hdp ▸ hct)
      · refine hpick.copiesName h fun hk => ?_
        rw [hk, hslot.vipId_eq hq hk] at hpick
        exact hpick.names hslot h

theorem stable_run {es : List PlaneEvent} {s s' : Plane}
    (hrun : Path (StableStep k vipId r addr mac) es s s')
    (hslot : SlotNames k vipId r addr mac s.ctl) (hcopies : CopiesName k r s.dp) :
    SlotNames k vipId r addr mac s'.ctl ∧ CopiesName k r s'.dp := by
  refine hrun.invariant
    (I := fun _ s => SlotNames k vipId r addr mac s.ctl ∧ CopiesName k r s.dp)
    ⟨hslot, hcopies⟩ ?_
  rintro _ e _ _ s s' ⟨hslot, hcopies⟩ ⟨rfl, hslot'⟩
  exact ⟨hslot', hcopies.step hslot e⟩

end

/-- In every run in which the slot of `k` keeps naming `r`, every packet of `k` is
transmitted to `r`'s address, on whichever CPU it runs, unless it is too long or its
head cannot be grown. -/
theorem cpu_independent {k : Flow} {vipId r : Nat} {addr : UInt32} {mac : Mac}
    {es : List PlaneEvent} {s₀ s : Plane} {x : PktEnv} {p : Frame} {q : Request}
    (hslot : SlotNames k vipId r addr mac s₀.ctl) (hcopies : CopiesName k r s₀.dp)
    (hrun : Path (StableStep k vipId r addr mac) es s₀ s)
    (hq : classify s.ctl p = .forward q) (hk : q.flow = k)
    (hmtu : (xdpPacketbalance s.ctl x s.dp p).1.action ≠ .drop .dropMtu)
    (hhead : (xdpPacketbalance s.ctl x s.dp p).1.action ≠ .drop .dropAdjHead) :
    ∃ out, (xdpPacketbalance s.ctl x s.dp p).1.action = .tx out ∧
      Encapsulates s.ctl p r out ∧ s.ctl.reals r = addr := by
  obtain ⟨hslot', hcopies'⟩ := stable_run hrun hslot hcopies
  simp only [xdpPacketbalance, hq] at hmtu hhead ⊢
  have hlen : q.tooLong = false := by
    by_contra hlen
    exact hmtu (by simp [forward, Bool.eq_true_of_not_eq_false hlen, drop])
  obtain ⟨pick, dp₁, hsend, hstep⟩ := forward_step s.ctl x s.dp p hlen
  rw [hk, hslot'.vipId_eq hq hk] at hstep
  obtain rfl : pick.realId = r := hstep.names hslot' hcopies'
  rw [hsend] at hhead ⊢
  have htx : ∃ out, (send s.ctl x dp₁ p q pick).1.action = .tx out := by
    rw [send_sendable hslot'.sendable] at hhead ⊢
    split at hhead
    · exact absurd rfl hhead
    · exact ⟨_, rfl⟩
  obtain ⟨out, hout⟩ := htx
  exact ⟨out, hout, send_encapsulates hq hlen hout, hslot'.addr.1⟩

theorem slotNames_sampleMaps :
    SlotNames sampleFlow 0 1 0x1500000a ⟨Vector.replicate 6 2⟩ sampleMaps where
  vip := ⟨⟨0, 0⟩, sampleMaps_vip, rfl⟩
  slot := ⟨_, rfl, by
    have hlt : sampleFlow.hash.toNat % pbRingSize < pbRingSize := Nat.mod_lt _ (by decide)
    simp [hlt]⟩
  range := by decide
  addr := ⟨rfl, by decide⟩
  mac := ⟨rfl, by decide⟩

/-- A packet on CPU 0 stores an entry, the entry is evicted, and a packet on CPU 1
still goes where the first one went. -/
theorem cpu_independent_evicted :
    let s := (samplePlane.step (.packet sampleCpu sampleFrame)).step (.evict sampleFlow)
    let x : PktEnv := { sampleCpu with cpu := 1 }
    ∃ out, (xdpPacketbalance s.ctl x s.dp sampleFrame).1.action = .tx out ∧
      Encapsulates s.ctl sampleFrame 1 out ∧ s.ctl.reals 1 = 0x1500000a := by
  intro s x
  have hq : classify s.ctl sampleFrame = _ := classify_sampleFrame sampleMaps_vip
  have hcopies : CopiesName sampleFlow 1 samplePlane.dp := by
    intro c ct hct
    cases hct
  have hrun : Path (StableStep sampleFlow 0 1 0x1500000a ⟨Vector.replicate 6 2⟩)
      [.packet sampleCpu sampleFrame, .evict sampleFlow] samplePlane s :=
    ⟨_, ⟨rfl, slotNames_sampleMaps⟩, _, ⟨rfl, slotNames_sampleMaps⟩, rfl⟩
  exact cpu_independent slotNames_sampleMaps hcopies hrun hq rfl
    (by rw [xdpPacketbalance, hq]; exact forward_ne_dropMtu (by decide))
    (by rw [xdpPacketbalance, hq]; exact forward_ne_dropAdjHead rfl (by decide))

end PacketBalance
