import PacketBalance.System.Capacity
import PacketBalance.DataPlane.Routing
/-!
# What the data plane sees

Whenever a packet arrives, between any two writes and across any restart, what a ring
leads it to is there.
-/

namespace PacketBalance

open WriteLog Std LbState

namespace System

/-- No dangling reference is ever visible: every VIP has its ring, every slot of it is
empty or leads to the address the ring was built with and to a MAC, and so a packet
placed by the ring is dropped for want of a real only if its slot is empty. -/
theorem no_dangling_reference {s : System} (h : s.Reachable) :
    (∀ (spec : VipSpec) (val : VipValue), s.ctl.vipMap[spec]? = some val →
      ∃ r, s.ctl.rings val.vipId = some r ∧
        buildRing r.backends r.mode pbRingSize = .ok r.slots ∧
        ∀ id ∈ r.slots, id = pbRealNone ∨ LiveSlot s.ctl r id) ∧
    ∀ (x : PktEnv) (p : Frame) (pick : Pick),
      (xdpPacketbalance s.ctl x s.dp p).1 = ⟨.drop .dropNoReal, some pick⟩ →
      pick.source = .ring →
      ∃ q r, classify s.ctl p = .forward q ∧ s.ctl.rings q.vip.vipId = some r ∧
        r.slots[p.flow.hash.toNat % pbRingSize]? = some pbRealNone := by
  have hpinned := h.inv.pinned
  constructor
  · intro spec val hval
    obtain ⟨r, hr, hok⟩ := hpinned.ring spec val hval
    exact ⟨r, hr, hok.built, fun id hid => hok.live_slot hpinned.reals hid⟩
  · intro x p pick hres hring
    exact hpinned.noReal (by rw [hres]) hring (by rw [hres])

def sampleConfig : ValidConfig where
  interface := "eth0"
  encapSrc := ⟨0, 0, 16⟩
  vips := [{ spec := sampleFlow.vip, reals := [{ addrBe := 0x1500000a }] }]
  valid := by decide +kernel

/-- A kernel in which every call succeeds and every neighbour answers. -/
def answeringEnv : Env :=
  { quietEnv with macLookup := fun _ _ _ => some ⟨⟨Vector.replicate 6 2⟩, by decide⟩ }

theorem answeringEnv_healthy : Healthy answeringEnv := ⟨fun _ => rfl, fun _ => rfl, rfl⟩

theorem sample_applied : ∃ (s : System) (val : VipValue), s.Reachable ∧ s.pending = none ∧
    s.dp.conntrack = .empty ∧ s.ctl.vipMap[sampleFlow.vip]? = some val := by
  obtain ⟨s, hs, hidle, hct, happ⟩ :=
    Reachable.first_apply "eth0" sampleConfig answeringEnv_healthy
  have hmem : sampleFlow.vip ∈ s.ctl.vipMap :=
    (happ.mem_vipMap ((init_inv "eth0").usable rfl) sampleConfig.ok).mpr (by decide)
  obtain ⟨val, hval⟩ := OrdMap.mem_iff.mp hmem
  exact ⟨s, val, hs, hidle, hct, hval⟩

theorem no_dangling_reference_sample :
    ∃ (s : System) (val : VipValue) (r : InstalledRing), s.Reachable ∧
      s.ctl.vipMap[sampleFlow.vip]? = some val ∧ s.ctl.rings val.vipId = some r ∧
      ∀ id ∈ r.slots, id = pbRealNone ∨ LiveSlot s.ctl r id := by
  obtain ⟨s, val, hs, -, -, hval⟩ := sample_applied
  obtain ⟨r, hr, -, hslots⟩ := (no_dangling_reference hs).1 _ val hval
  exact ⟨s, val, r, hs, hval, hr, hslots⟩

theorem pick_of_empty {d : CtlMaps} {dp : DpMaps} {val : VipValue}
    (hct : dp.conntrack = .empty) (hval : d.vipMap[sampleFlow.vip]? = some val) :
    ∃ pick, (xdpPacketbalance d sampleCpu dp sampleFrame).1.pick = some pick ∧
      pick.source = .ring := by
  have hq := classify_sampleFrame hval
  obtain ⟨pick, dp₁, hsend, hstep⟩ := forward_step d sampleCpu dp sampleFrame
    (q := ⟨sampleFlow, val, false, true, false, 28, 0⟩) rfl
  refine ⟨pick, by rw [xdpPacketbalance, hq]; simp only [hsend, send_pick], ?_⟩
  cases hstep with
  | hit ct _ _ _ hhit _ =>
      simp [ctHit, hct, PercpuMap.lookup, PercpuMap.empty] at hhit
  | store => rfl
  | hash => rfl

end System

end PacketBalance
