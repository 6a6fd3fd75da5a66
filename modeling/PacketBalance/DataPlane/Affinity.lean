import PacketBalance.DataPlane
/-!
# Flow affinity

The connection table under packets of any flows on any CPUs, under arbitrary
changes of the maps the control plane owns, and under evictions.  An entry that
CPU `c` has written for a flow is only ever touched by `c` itself (by a bare SYN
of that flow, or to refresh its time) or by an eviction, so it keeps deciding
where `c` sends the flow.
-/

namespace PacketBalance

open WriteLog

/-! ## What one packet does to the connection table -/

/-- The three ways through `pick_real`. -/
inductive PickStep (d : CtlMaps) (x : PktEnv) (dp : DpMaps) (f : Flow) (vipId : Nat)
    (useCt bareSyn : Bool) : Pick → DpMaps → Prop
  | hit (ct : CtValue) (dp' : DpMaps) (huse : useCt = true) (hsyn : bareSyn = false)
      (hct : ctHit d x dp f = some ct)
      (hdp : dp'.conntrack = dp.conntrack.update .zero x.cpu f { ct with lastSeenNs := x.now }) :
      PickStep d x dp f vipId useCt bareSyn ⟨ct.realId, .conntrack, true⟩ dp'
  | store (dp' : DpMaps) (huse : useCt = true)
      (hmiss : bareSyn = true ∨ ctHit d x dp f = none)
      (hdp : dp'.conntrack = dp.conntrack.update .zero x.cpu f
        ⟨ringLookup d vipId f.hash, vipId, x.now⟩) :
      PickStep d x dp f vipId useCt bareSyn ⟨ringLookup d vipId f.hash, .ring, true⟩ dp'
  | hash (dp' : DpMaps)
      (hmiss : useCt = false ∨ bareSyn = true ∨ ctHit d x dp f = none)
      (hdp : dp'.conntrack = dp.conntrack) :
      PickStep d x dp f vipId useCt bareSyn ⟨ringLookup d vipId f.hash, .ring, false⟩ dp'

theorem pickReal_step (d : CtlMaps) (x : PktEnv) (dp : DpMaps) (f : Flow) (vipId : Nat)
    (useCt bareSyn mayInsert : Bool) :
    PickStep d x dp f vipId useCt bareSyn
      (pickReal d x dp f vipId f.hash useCt bareSyn mayInsert).1
      (pickReal d x dp f vipId f.hash useCt bareSyn mayInsert).2 := by
  unfold pickReal
  cases useCt with
  | false => exact .hash _ (.inl rfl) (by simp)
  | true =>
      simp only [Bool.not_true, Bool.false_eq_true, if_false]
      split
      · next ct hct =>
          cases bareSyn with
          | true => cases hct
          | false => exact .hit ct _ rfl rfl hct (by simp)
      · next hnone =>
          have hmiss : bareSyn = true ∨ ctHit d x dp f = none := by
            cases bareSyn with
            | true => exact .inl rfl
            | false => exact .inr hnone
          split
          · exact .hash _ (.inr hmiss) (by simp)
          · split
            · exact .hash _ (.inr hmiss) (by simp)
            · exact .store _ rfl hmiss (by simp)

theorem PickStep.congr {d : CtlMaps} {x : PktEnv} {dp₁ dp₁' dp dp' : DpMaps} {f : Flow}
    {vipId : Nat} {useCt bareSyn : Bool} {pick : Pick}
    (h : PickStep d x dp₁ f vipId useCt bareSyn pick dp₁')
    (hct : dp₁.conntrack = dp.conntrack) (hct' : dp'.conntrack = dp₁'.conntrack) :
    PickStep d x dp f vipId useCt bareSyn pick dp' := by
  have hhit : ctHit d x dp₁ f = ctHit d x dp f := by simp [ctHit, hct]
  cases h with
  | hit ct _ huse hsyn hval hdp =>
      exact .hit ct dp' huse hsyn (hhit ▸ hval) (by rw [hct', hdp, hct])
  | store _ huse hmiss hdp => exact .store dp' huse (hhit ▸ hmiss) (by rw [hct', hdp, hct])
  | hash _ hmiss hdp => exact .hash dp' (hhit ▸ hmiss) (by rw [hct', hdp, hct])

@[simp] theorem drop_pick (dp : DpMaps) (x : PktEnv) (idx : Nat) (cnt : Counter)
    (pick : Option Pick) : (drop dp x idx cnt pick).1.pick = pick := rfl

@[simp] theorem drop_conntrack (dp : DpMaps) (x : PktEnv) (idx : Nat) (cnt : Counter)
    (pick : Option Pick) : (drop dp x idx cnt pick).2.conntrack = dp.conntrack := by
  simp [drop]

theorem send_pick (d : CtlMaps) (x : PktEnv) (dp : DpMaps) (p : Frame) (q : Request)
    (pick : Pick) : (send d x dp p q pick).1.pick = some pick := by
  unfold send
  repeat' split
  all_goals simp

theorem send_conntrack (d : CtlMaps) (x : PktEnv) (dp : DpMaps) (p : Frame) (q : Request)
    (pick : Pick) : (send d x dp p q pick).2.conntrack = dp.conntrack := by
  unfold send
  repeat' split
  all_goals simp

/-- A forwarded packet that is not too long is counted and goes to `pick_real` and on to
the end of `forward`. -/
theorem forward_eq_send (d : CtlMaps) (x : PktEnv) (dp : DpMaps) (p : Frame) {q : Request}
    (hlen : q.tooLong = false) :
    ∃ dp₁ : DpMaps, dp₁.conntrack = dp.conntrack ∧
      forward d x dp p q =
        send d x (pickReal d x dp₁ q.flow q.vip.vipId q.flow.hash (q.useCt d) q.bareSyn
            q.mayInsert).2 p q
          (pickReal d x dp₁ q.flow q.vip.vipId q.flow.hash (q.useCt d) q.bareSyn
            q.mayInsert).1 := by
  let counted : DpMaps :=
    let dp := dp.count x q.vip.vipId .packets 1
    let dp := dp.count x q.vip.vipId .bytes q.innerLen
    if q.bareSyn then dp.count x q.vip.vipId .syn 1 else dp
  refine ⟨counted, ?_, by simp [forward, hlen, counted]⟩
  simp only [counted]
  split <;> simp

/-- A forwarded packet asks `pick_real` once, with the connection table as it found it, and is
sent where the answer says. -/
theorem forward_step (d : CtlMaps) (x : PktEnv) (dp : DpMaps) (p : Frame) {q : Request}
    (hlen : q.tooLong = false) :
    ∃ pick dp₁, forward d x dp p q = send d x dp₁ p q pick ∧
      PickStep d x dp q.flow q.vip.vipId (q.useCt d) q.bareSyn pick
        (forward d x dp p q).2 := by
  obtain ⟨dp₁, hct, hfwd⟩ := forward_eq_send d x dp p hlen
  rw [hfwd]
  exact ⟨_, _, rfl, (pickReal_step ..).congr hct (send_conntrack ..)⟩

theorem forward_tooLong {d : CtlMaps} {x : PktEnv} {dp : DpMaps} {p : Frame} {q : Request}
    (hlen : q.tooLong = true) :
    (forward d x dp p q).1.pick = none ∧ (forward d x dp p q).2.conntrack = dp.conntrack := by
  simp only [forward, hlen, if_true, drop_pick, drop_conntrack, true_and]
  split <;> simp

/-- One packet either leaves the connection table alone and is given no real, or goes
once through `pick_real`. -/
theorem xdp_step (d : CtlMaps) (x : PktEnv) (dp : DpMaps) (p : Frame) :
    ((xdpPacketbalance d x dp p).2.conntrack = dp.conntrack ∧
      (xdpPacketbalance d x dp p).1.pick = none) ∨
    ∃ q pick dp₁, classify d p = .forward q ∧ q.tooLong = false ∧
      xdpPacketbalance d x dp p = send d x dp₁ p q pick ∧
      PickStep d x dp q.flow q.vip.vipId (q.useCt d) q.bareSyn pick
        (xdpPacketbalance d x dp p).2 := by
  cases hq : classify d p with
  | drop cnt => exact .inl (by simp [xdpPacketbalance, hq])
  | pass => exact .inl (by simp [xdpPacketbalance, hq])
  | forward q =>
      simp only [xdpPacketbalance, hq]
      by_cases hlen : q.tooLong = true
      · exact .inl (forward_tooLong hlen).symm
      have hfits : q.tooLong = false := Bool.eq_false_iff.mpr hlen
      obtain ⟨pick, dp₁, hsend, hstep⟩ := forward_step d x dp p hfits
      exact .inr ⟨q, pick, dp₁, rfl, hfits, hsend, hstep⟩

/-! ## Runs of the data plane -/

structure Plane where
  ctl : CtlMaps
  dp : DpMaps

/-- What can happen between two packets, or be one. -/
inductive PlaneEvent where
  | packet (x : PktEnv) (p : Frame)
  | control (ctl : CtlMaps)
  | evict (k : Flow)

def Plane.step (s : Plane) : PlaneEvent → Plane
  | .packet x p => { s with dp := (xdpPacketbalance s.ctl x s.dp p).2 }
  | .control ctl => { s with ctl }
  | .evict k => { s with dp := { s.dp with conntrack := s.dp.conntrack.evict k } }

/-- The packet `p`, processed on `x.cpu`, reaches `forward` with request `q`. -/
def PlaneEvent.forwards (s : Plane) (x : PktEnv) (q : Request) (e : PlaneEvent) : Prop :=
  ∃ p, e = .packet x p ∧ classify s.ctl p = .forward q

def Tracks (dp : DpMaps) (c : Nat) (k : Flow) (r : Nat) : Prop :=
  ∃ ct, dp.conntrack.lookup c k = some ct ∧ ct.realId = r ∧ ct.lastSeenNs ≠ 0

/-- The real is alive and the flow's VIP uses the connection table. -/
structure Serves (d : CtlMaps) (k : Flow) (r : Nat) : Prop where
  alive : realAlive d r = true
  global : d.config.flags &&& pbCfgFNoConntrack = 0
  vip : ∃ v, d.vipMap[k.vip]? = some v ∧ v.flags &&& pbVipFNoConntrack = 0

/-- A step that leaves `c`'s entry for `k` alone: `k` is not evicted, the real and
the VIP stay, and `c` sees no bare SYN of `k`. -/
structure Undisturbed (c : Nat) (k : Flow) (r : Nat) (e : PlaneEvent) (s s' : Plane) :
    Prop where
  step : s' = s.step e
  kept : e ≠ .evict k
  serves : Serves s'.ctl k r
  no_syn : ∀ x q, e.forwards s x q → x.cpu = c → q.flow = k → q.bareSyn = false

theorem Serves.useCt {d : CtlMaps} {k : Flow} {r : Nat} (h : Serves d k r) {p : Frame}
    {q : Request} (hq : classify d p = .forward q) (hk : q.flow = k) : q.useCt d = true := by
  obtain ⟨v, hv, hflags⟩ := h.vip
  have hvip : q.vip = v := by
    have hmap := classify_vip hq
    rw [hk, hv] at hmap
    exact (Option.some.inj hmap).symm
  simp [Request.useCt, h.global, hvip, hflags]

theorem Tracks.ctHit {d : CtlMaps} {x : PktEnv} {dp : DpMaps} {k : Flow} {r : Nat}
    (h : Tracks dp x.cpu k r) (halive : realAlive d r = true) :
    ∃ ct, ctHit d x dp k = some ct ∧ ct.realId = r := by
  obtain ⟨ct, hct, hr, hseen⟩ := h
  exact ⟨ct, by simp [PacketBalance.ctHit, hct, hseen, hr, halive, Option.filter], hr⟩

theorem Tracks.of_update {m : PercpuMap Flow CtValue} {dp : DpMaps} {c : Nat} {k : Flow}
    {v : CtValue} {r : Nat} (hdp : dp.conntrack = m.update .zero c k v) (hr : v.realId = r)
    (hseen : v.lastSeenNs ≠ 0) : Tracks dp c k r :=
  ⟨v, by rw [hdp, PercpuMap.lookup_update_self], hr, hseen⟩

theorem Tracks.pick {d : CtlMaps} {x : PktEnv} {dp dp' : DpMaps} {k : Flow} {r vipId : Nat}
    {pick : Pick} (h : Tracks dp x.cpu k r) (halive : realAlive d r = true)
    (hstep : PickStep d x dp k vipId true false pick dp') :
    pick = ⟨r, .conntrack, true⟩ ∧ Tracks dp' x.cpu k r := by
  obtain ⟨ct, hct, hr⟩ := h.ctHit halive
  cases hstep with
  | hit ct' _ _ _ hct' hdp =>
      obtain rfl : ct = ct' := by simpa [hct] using hct'
      subst hr
      exact ⟨rfl, .of_update hdp rfl x.now_ne_zero⟩
  | store _ _ hmiss _ => simp [hct] at hmiss
  | hash _ hmiss _ => simp [hct] at hmiss

theorem PickStep.tracks {d : CtlMaps} {x : PktEnv} {dp dp' : DpMaps} {k : Flow}
    {vipId : Nat} {useCt bareSyn : Bool} {pick : Pick}
    (h : PickStep d x dp k vipId useCt bareSyn pick dp') (htracked : pick.tracked = true) :
    Tracks dp' x.cpu k pick.realId := by
  cases h with
  | hit ct _ _ _ _ hdp => exact .of_update hdp rfl x.now_ne_zero
  | store _ _ _ hdp => exact .of_update hdp rfl x.now_ne_zero
  | hash => cases htracked

theorem PickStep.tracks_other {d : CtlMaps} {x : PktEnv} {dp dp' : DpMaps} {f k : Flow}
    {vipId c r : Nat} {useCt bareSyn : Bool} {pick : Pick}
    (h : PickStep d x dp f vipId useCt bareSyn pick dp') (ht : Tracks dp c k r)
    (hother : k ≠ f ∨ c ≠ x.cpu) : Tracks dp' c k r := by
  obtain ⟨ct, hct, hr, hseen⟩ := ht
  have hkeep : ∀ v, dp'.conntrack = dp.conntrack.update .zero x.cpu f v →
      Tracks dp' c k r := by
    intro v hdp
    refine ⟨ct, ?_, hr, hseen⟩
    rw [hdp]
    by_cases hkf : k = f
    · subst hkf
      exact PercpuMap.lookup_update_of_ne_cpu _ _ _ _ _ (hother.resolve_left (by simp)) hct
    · rw [PercpuMap.lookup_update_of_ne_key _ _ _ _ _ hkf, hct]
  cases h with
  | hit _ _ _ _ _ hdp => exact hkeep _ hdp
  | store _ _ _ hdp => exact hkeep _ hdp
  | hash _ _ hdp => exact ⟨ct, by rw [hdp, hct], hr, hseen⟩

theorem Undisturbed.tracks {c r : Nat} {k : Flow} {e : PlaneEvent} {s s' : Plane}
    (h : Undisturbed c k r e s s') (hserves : Serves s.ctl k r) (ht : Tracks s.dp c k r) :
    Tracks s'.dp c k r := by
  obtain ⟨hstep, hkept, -, hsyn⟩ := h
  subst hstep
  cases e with
  | control ctl => exact ht
  | evict k' =>
      have hne : k ≠ k' := by
        rintro rfl
        exact hkept rfl
      obtain ⟨ct, hct, hr, hseen⟩ := ht
      exact ⟨ct, by simp only [Plane.step, PercpuMap.lookup_evict_of_ne _ _ hne, hct], hr,
        hseen⟩
  | packet x p =>
      rcases xdp_step s.ctl x s.dp p with ⟨hdp, -⟩ | ⟨q, pick, -, hq, -, -, hpick⟩
      · obtain ⟨ct, hct, hr, hseen⟩ := ht
        exact ⟨ct, by simp only [Plane.step, hdp, hct], hr, hseen⟩
      by_cases hother : k ≠ q.flow ∨ c ≠ x.cpu
      · exact hpick.tracks_other ht hother
      push Not at hother
      obtain ⟨hk, rfl⟩ := hother
      rw [hserves.useCt hq hk.symm, hsyn x q ⟨p, rfl, hq⟩ rfl hk.symm, ← hk] at hpick
      exact (ht.pick hserves.alive hpick).2

theorem tracks_run {c r : Nat} {k : Flow} {es : List PlaneEvent} {s s' : Plane}
    (hrun : Path (Undisturbed c k r) es s s') (hserves : Serves s.ctl k r)
    (ht : Tracks s.dp c k r) : Serves s'.ctl k r ∧ Tracks s'.dp c k r :=
  hrun.invariant (I := fun _ s => Serves s.ctl k r ∧ Tracks s.dp c k r) ⟨hserves, ht⟩
    fun _ _ _ _ _ _ hI hstep => ⟨hstep.serves, hstep.tracks hI.1 hI.2⟩

/-- Once CPU `c` has stored or hit an entry that maps `k` to `r`, every later packet
of `k` on `c` that is neither a bare SYN nor too long is assigned `r`: whatever
happens to the maps, to other flows and on other CPUs, as long as `k` is not evicted,
the real and the VIP stay, and `c` sees no bare SYN of `k`. -/
theorem flow_affinity {c r : Nat} {k : Flow} (s₀ s : Plane) {es : List PlaneEvent}
    {x₀ x : PktEnv} {p₀ p : Frame} {q₀ q : Request} {pick₀ : Pick}
    (hcpu₀ : x₀.cpu = c) (hq₀ : classify s₀.ctl p₀ = .forward q₀) (hk₀ : q₀.flow = k)
    (hpick₀ : (xdpPacketbalance s₀.ctl x₀ s₀.dp p₀).1.pick = some pick₀)
    (htracked : pick₀.tracked = true) (hr : pick₀.realId = r)
    (hserves : Serves s₀.ctl k r)
    (hrun : Path (Undisturbed c k r) es (s₀.step (.packet x₀ p₀)) s)
    (hcpu : x.cpu = c) (hq : classify s.ctl p = .forward q) (hk : q.flow = k)
    (hsyn : q.bareSyn = false) (hlen : q.innerLen + pbOuterLen ≤ pbMaxPacketLen) :
    (xdpPacketbalance s.ctl x s.dp p).1.pick = some ⟨r, .conntrack, true⟩ := by
  have hfirst : Tracks (s₀.step (.packet x₀ p₀)).dp c k r := by
    simp only [xdpPacketbalance, hq₀] at hpick₀
    have hlen₀ : q₀.tooLong = false := by
      by_contra hlen₀
      rw [(forward_tooLong (Bool.eq_true_of_not_eq_false hlen₀)).1] at hpick₀
      cases hpick₀
    obtain ⟨pick, dp₁, hsend, hstep⟩ := forward_step s₀.ctl x₀ s₀.dp p₀ hlen₀
    obtain rfl : pick = pick₀ := by simpa [hsend, send_pick] using hpick₀
    simpa [Plane.step, xdpPacketbalance, hq₀, hcpu₀, hk₀, hr] using hstep.tracks htracked
  obtain ⟨hserves', ht⟩ := tracks_run hrun hserves hfirst
  have hlen' : q.tooLong = false := by simpa [Request.tooLong] using hlen
  obtain ⟨pick, dp₁, hsend, hstep⟩ := forward_step s.ctl x s.dp p hlen'
  rw [hserves'.useCt hq hk, hsyn, hk] at hstep
  subst hcpu
  rw [xdpPacketbalance, hq]
  simp only [hsend, send_pick, (ht.pick hserves'.alive hstep).1]

/-- A UDP packet from 10.0.0.1:12345 to 198.51.100.1:80. -/
def sampleFrame : Frame :=
  [0x02, 0, 0, 0, 0, 0x0b, 0x02, 0, 0, 0, 0, 0x0a, 0x08, 0x00,
   0x45, 0, 0, 28, 0, 0, 0, 0, 64, 17, 0, 0, 10, 0, 0, 1, 198, 51, 100, 1,
   0x30, 0x39, 0, 80, 0, 8, 0, 0]

def sampleFlow : Flow := ⟨0x0100000a, 0x016433c6, 0x3930, 0x5000, 17⟩

theorem classify_sampleFrame {d : CtlMaps} {vip : VipValue}
    (h : d.vipMap[sampleFlow.vip]? = some vip) :
    classify d sampleFrame = .forward ⟨sampleFlow, vip, false, true, false, 28, 0⟩ := by
  have hip : sampleFrame.length = 42 ∧ sampleFrame.load16 12 = bpfHtons ethPIp ∧
      sampleFrame.byte 14 >>> 4 = 4 ∧ sampleFrame.byte 14 &&& 0xf = 5 ∧
      sampleFrame.load16 20 &&& bpfHtons (pbIpMf ||| pbIpOffset) = 0 ∧
      bpfNtohs (sampleFrame.load16 16) = 28 := by decide
  have hudp : sampleFrame.byte 23 = 17 ∧ sampleFrame.byte 15 = 0 ∧
      sampleFrame.load32 26 = 0x0100000a ∧ sampleFrame.load32 30 = 0x016433c6 ∧
      sampleFrame.load16 34 = 0x3930 ∧ sampleFrame.load16 36 = 0x5000 := by decide
  simp only [sampleFlow] at h ⊢
  simp [classify, classifyL4, Frame.ownFlow, hip, hudp, ethLen, ipprotoTcp, ipprotoUdp,
    lookupVip, h]

/-- One VIP whose ring names real 1 in every slot. -/
def sampleMaps : CtlMaps :=
  { CtlMaps.empty with
    vipMap := Std.ExtTreeMap.empty.insert sampleFlow.vip ⟨0, 0⟩
    rings := fun _ => some ⟨List.replicate pbRingSize 1, [⟨1, 0x1500000a, 1⟩], .maglev⟩
    reals := fun id => if id = 1 then 0x1500000a else 0
    neigh := fun id => if id = 1 then ⟨Vector.replicate 6 2⟩ else Mac.zero }

theorem sampleMaps_vip : sampleMaps.vipMap[sampleFlow.vip]? = some ⟨0, 0⟩ := by
  simp [sampleMaps]

theorem ringLookup_sampleMaps (hash : UInt32) : ringLookup sampleMaps 0 hash = 1 := by
  have hlt : hash.toNat % pbRingSize < pbRingSize := Nat.mod_lt _ (by decide)
  simp [ringLookup, sampleMaps, hlt]

def sampleCpu : PktEnv := ⟨0, 1, by decide, true, true⟩

theorem serves_sampleMaps : Serves sampleMaps sampleFlow 1 where
  alive := by decide
  global := by decide
  vip := ⟨⟨0, 0⟩, sampleMaps_vip, by decide⟩

def samplePlane : Plane := ⟨sampleMaps, .empty⟩

theorem samplePlane_pick :
    (xdpPacketbalance samplePlane.ctl sampleCpu samplePlane.dp sampleFrame).1.pick =
      some ⟨1, .ring, true⟩ := by
  have hq : classify samplePlane.ctl sampleFrame = _ := classify_sampleFrame sampleMaps_vip
  have hmiss : ∀ dp : DpMaps, dp.conntrack = samplePlane.dp.conntrack →
      ctHit samplePlane.ctl sampleCpu dp sampleFlow = none := by
    intro dp hdp
    simp [ctHit, hdp, samplePlane, DpMaps.empty, PercpuMap.lookup, PercpuMap.empty]
  have hring : ringLookup samplePlane.ctl 0 sampleFlow.hash = 1 := ringLookup_sampleMaps _
  have hflags : samplePlane.ctl.config.flags = 0 := rfl
  have hinsert : sampleCpu.insertOk = true := rfl
  simp [xdpPacketbalance, hq, forward, send_pick, pickReal, hmiss, hring, Request.tooLong,
    Request.useCt, hflags, hinsert, pbRealNone, pbOuterLen, pbMaxPacketLen]

/-- The same plane after one packet and the loss of every ring. -/
def ringlessPlane : Plane :=
  (samplePlane.step (.packet sampleCpu sampleFrame)).step
    (.control { sampleMaps with rings := fun _ => none })

/-- The first packet is placed by the ring and stored; with the ring gone, the next
one still reaches the same real. -/
theorem flow_affinity_ringless :
    (xdpPacketbalance ringlessPlane.ctl sampleCpu ringlessPlane.dp sampleFrame).1.pick =
      some ⟨1, .conntrack, true⟩ := by
  have hq : classify samplePlane.ctl sampleFrame = _ := classify_sampleFrame sampleMaps_vip
  have hq' : classify ringlessPlane.ctl sampleFrame = _ :=
    classify_sampleFrame sampleMaps_vip
  have hserves : Serves ringlessPlane.ctl sampleFlow 1 :=
    ⟨serves_sampleMaps.alive, serves_sampleMaps.global, serves_sampleMaps.vip⟩
  have hrun : Path (Undisturbed 0 sampleFlow 1)
      [.control { sampleMaps with rings := fun _ => none }]
      (samplePlane.step (.packet sampleCpu sampleFrame)) ringlessPlane :=
    ⟨_, ⟨rfl, by simp, hserves, by rintro x q ⟨p, hp, -⟩; cases hp⟩, rfl⟩
  exact flow_affinity samplePlane ringlessPlane rfl hq rfl samplePlane_pick rfl rfl
    serves_sampleMaps hrun rfl hq' rfl rfl (by decide)

end PacketBalance
