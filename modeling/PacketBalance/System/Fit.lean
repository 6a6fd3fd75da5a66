import PacketBalance.System.Coherence
import PacketBalance.System.Safety
/-!
# Who gets new flows

A ring can be behind the model: a real whose MAC became known for another VIP is missing
until the next rebuild.  It is never ahead.  Whoever has a slot in it is a member that a
rebuild would take in again, with the same id and weight, so no new flow goes to a real that
is down, draining, without weight or no member any more.
-/

namespace PacketBalance

open WriteLog Std

namespace LbState

variable {lb lb' : LbState} {d d' : CtlMaps} {env : Env} {spec s : VipSpec} {u v : Vip}
  {a : UInt32} {b : Backend}

/-- Who has weight in the installed ring of a VIP would have it in one built now. -/
def FitAt (lb : LbState) (d : CtlMaps) (s : VipSpec) : Prop :=
  ∀ v r, lb.vips[s]? = some v → d.rings v.id = some r →
    ∀ b ∈ r.backends, 0 < b.weight → b ∈ lb.backendsOf v

def Fit (lb : LbState) (d : CtlMaps) : Prop := ∀ s, FitAt lb d s

theorem eligible_of_mem_backendsOf (hb : b ∈ lb.backendsOf v) (hpos : 0 < b.weight) :
    ∃ m, v.members[b.addr]? = some m ∧ lb.eligible b.addr m = true ∧
      b = lb.backendOf b.addr m := by
  obtain ⟨a, m, hm, rfl⟩ := mem_backendsOf.mp hb
  refine ⟨m, hm, ?_, rfl⟩
  change 0 < if lb.eligible a m then m.weight else 0 at hpos
  split_ifs at hpos with helig
  · exact helig
  · exact absurd hpos (Nat.lt_irrefl 0)

theorem FitAt.of_none (h : lb.vips[s]? = none) : FitAt lb d s := by
  intro v r hv
  rw [h] at hv
  cases hv

theorem RingKept.fit (h : RingKept s lb d lb' d') (hs : FitAt lb d s) : FitAt lb' d' s := by
  intro v' r hv' hr b hb hpos
  obtain ⟨v, hv, hback, hring⟩ := h.vip v' hv'
  rw [hring] at hr
  rw [hback]
  exact hs v r hv hr b hb hpos

section Step

variable {flags : UInt32} {want : ExtTreeMap UInt32 Nat} {v' : Vip} {hashChanged : Bool}

/-- Somebody else's member that was eligible stays so: its MAC is known and stays known. -/
theorem VipStep.backend_else (h : VipStep env hashChanged lb d spec flags want v' d' lb')
    (hc : Consistent [] lb d) (hne : s ≠ spec) (hu : lb.vips[s]? = some u)
    (hb : b ∈ lb.backendsOf u) (hpos : 0 < b.weight) : b ∈ lb'.backendsOf u := by
  obtain ⟨m, hm, helig, hback⟩ := eligible_of_mem_backendsOf hb hpos
  obtain ⟨e, e', he, he', hid, hmac⟩ := h.entry_else hc hne hu (OrdMap.mem_iff.mpr ⟨m, hm⟩)
  have hknown : e.mac.isSome := by
    rw [eligible_eq, RealTable.macOf_eq, he, Option.bind_some, Bool.and_eq_true] at helig
    exact helig.2
  have hsame : e'.mac = e.mac := by
    obtain ⟨mac, hsome⟩ := Option.isSome_iff_exists.mp hknown
    rw [hmac, hsome, Option.some_or]
  refine mem_backendsOf.mpr ⟨b.addr, m, hm, hback.trans ?_⟩
  refine (backendOf_ext ?_ ?_ m).symm
  · rw [RealTable.idOf_eq, RealTable.idOf_eq, he, he', Option.map_some, Option.map_some, hid]
  · rw [RealTable.macOf_eq, RealTable.macOf_eq, he, he', Option.bind_some, Option.bind_some,
      hsame]

theorem VipStep.fit (h : VipStep env hashChanged lb d spec flags want v' d' lb')
    (hc : Consistent [] lb d) (hfit : Fit lb d) : Fit lb' d' := by
  intro s
  by_cases hs : s = spec
  · subst hs
    cases htouched : lb.touched hashChanged s want with
    | false => exact (h.kept_untouched htouched).fit (hfit s)
    | true =>
        intro v r hv hr b hb _
        obtain rfl := Option.some.inj (h.vip.symm.trans hv)
        obtain ⟨slots, -, hrings⟩ := h.ring htouched
        rw [hrings, Function.update_self] at hr
        rwa [← Option.some.inj hr] at hb
  · intro u r hu hr b hb hpos
    have hold : lb.vips[s]? = some u := (h.vip_else hs).symm.trans hu
    rw [h.ring_else hs hu] at hr
    exact h.backend_else hc hs hold (hfit s u r hold hr b hb hpos) hpos

end Step

theorem Edited.kept {R : VipSpec → Prop} (h : Edited R lb d d' lb') (hR : ¬R s) :
    RingKept s lb d lb' d' := by
  refine ⟨?_, fun v' hv' => ?_⟩
  · obtain ⟨t, vips, rfl⟩ := h.state
    rfl
  · obtain ⟨v, hv⟩ := OrdMap.mem_iff.mp ((h.mem s).mp (OrdMap.mem_iff.mpr ⟨v', hv'⟩))
    exact ⟨v, hv, h.backends s v v' hR hv hv', by rw [h.same.rings, (h.vip s v v' hv hv').1]⟩

theorem Rebuilt.fit {R : VipSpec → Prop} (h : Rebuilt R lb d d' lb')
    (hs : ¬R s → FitAt lb d s) : FitAt lb' d' s := by
  intro v' r hv' hr b hb hpos
  by_cases hR : R s
  · obtain ⟨slots, -, hring⟩ := h.ring s v' hR hv'
    rw [hring] at hr
    rwa [← Option.some.inj hr] at hb
  · have hcore := h.core s
    rw [hv', Option.map_some] at hcore
    obtain ⟨v, hv, hcore⟩ := Option.map_eq_some_iff.mp hcore.symm
    rw [h.ring_else s v' hR hv', ← (core_inj hcore).2.1] at hr
    have hmem := hs hR v r hv hr b hb hpos
    obtain ⟨vips, rfl⟩ := h.state
    rwa [lb.backendsOf_core hcore] at hmem

theorem Refreshed.fit {R : VipSpec → Prop} (h : Refreshed R lb d d' lb')
    (hs : FitAt lb d s) : FitAt lb' d' s := by
  obtain ⟨d₁, lb₁, hedit, hreb⟩ := h
  exact hreb.fit fun hR => (hedit.kept hR).fit hs

theorem Start.fit {cfg : Config} (h : Start env cfg lb d d' lb') (hs : Startable lb d)
    (hfit : FitAt lb d s) : FitAt lb' d' s := by
  intro v r hv hr b hb hpos
  obtain ⟨mac, -, rfl⟩ := h.maps
  rw [h.vips] at hv
  cases hs with
  | restarted interface hlb _ => simp [hlb] at hv
  | running hc =>
      rw [backendsOf_congr fun a _ => congrFun (h.entry_eq hc) a]
      exact hfit v r hv hr b hb hpos

theorem Applied.fit {cfg : Config} (h : Applied env cfg lb d d' lb') (hs : Startable lb d)
    (hfit : Fit lb d) : Fit lb' d' := by
  obtain ⟨z, ⟨z₁, ⟨d₀, lb₀, hstart, hdrop⟩, hpath⟩, hend⟩ := h
  have hfit₀ : Fit lb₀ d₀ := fun s => hstart.fit hs (hfit s)
  have hfit₁ : Consistent [] z₁.2 z₁.1 ∧ Fit z₁.2 z₁.1 := by
    refine hdrop.invariant (I := fun _ z => Consistent [] z.2 z.1 ∧ Fit z.2 z.1)
      ⟨hstart.consistent, hfit₀⟩ ?_
    rintro before spec rest - z z' ⟨hz, hzfit⟩ hstep
    rw [DropR] at hstep
    split_ifs at hstep
    · exact hstep ▸ ⟨hz, hzfit⟩
    · obtain ⟨v, hv, hdel⟩ := hstep
      exact ⟨hdel.consistent, fun s => (hdel.kept hz hv).fit (hzfit s)⟩
  have hfit₂ : Consistent [] z.2 z.1 ∧ Fit z.2 z.1 := by
    refine hpath.invariant (I := fun _ z => Consistent [] z.2 z.1 ∧ Fit z.2 z.1) hfit₁ ?_
    rintro before vc rest - z z' ⟨hz, hzfit⟩ ⟨v', hstep⟩
    exact ⟨hstep.consistent, hstep.fit hz hzfit⟩
  split_ifs at hend
  · rw [hend] at hfit₂
    exact hfit₂.2
  · exact fun s => (hend.kept hfit₂.1).fit (hfit₂.2 s)

end LbState

open LbState

section Slots

variable {lb : LbState} {d : CtlMaps}

theorem LbState.Fit.slot_eligible (h : Fit lb d) (hset : Settled lb d) (hpinned : PinnedOk d)
    {spec : VipSpec} {v : Vip} {r : InstalledRing} (hv : lb.vips[spec]? = some v)
    (hr : d.rings v.id = some r) {id : Nat} (hid : id ∈ r.slots) :
    id = pbRealNone ∨ ∃ m, v.members[d.reals id]? = some m ∧
      lb.eligible (d.reals id) m = true ∧ lb.reals.idOf (d.reals id) = some id := by
  obtain ⟨r', hr', hok⟩ := hpinned.ring spec _ (hset.entry_of_vip spec v hv)
  obtain rfl : r = r' := Option.some.inj (hr.symm.trans hr')
  rcases hok.live_slot hpinned.reals hid with hnone | hlive
  · exact .inl hnone
  · obtain ⟨b, hb, hpos, hreal⟩ := hlive.built
    have haddr := (hlive.addr b hb hpos hreal).1
    obtain ⟨m, hm, helig, hback⟩ := eligible_of_mem_backendsOf (h _ v r hv hr b hb hpos) hpos
    obtain ⟨e, he⟩ := hset.consistent.member_entry hv (OrdMap.mem_iff.mpr ⟨m, hm⟩)
    rw [haddr]
    refine .inr ⟨m, hm, helig, ?_⟩
    rw [← hreal, hback, backendOf, RealTable.idOf_eq, he, Option.map_some, Option.getD_some]

theorem LbState.Fit.eligible_of_pick {dp : DpMaps} (h : Fit lb d) (hset : Settled lb d)
    (hpinned : PinnedOk d) {x : PktEnv} {p : Frame} {pick : Pick}
    (hpick : (xdpPacketbalance d x dp p).1.pick = some pick) (hring : pick.source = .ring) :
    pick.realId = pbRealNone ∨ ∃ v m, lb.vips[p.flow.vip]? = some v ∧
      v.members[d.reals pick.realId]? = some m ∧
      lb.eligible (d.reals pick.realId) m = true ∧
      lb.reals.idOf (d.reals pick.realId) = some pick.realId := by
  obtain ⟨q, _, _, hq, -, hstep⟩ := xdp_picked hpick
  obtain ⟨r, hr, hok, hslot⟩ := hpinned.lookup hq
  rw [← hstep.realId_eq hring] at hslot
  have hval : d.vipMap[p.flow.vip]? = some q.vip := (classify_forward hq).2
  obtain ⟨v, hv⟩ := OrdMap.mem_iff.mp (hset.owned _ (OrdMap.mem_iff.mpr ⟨_, hval⟩))
  have hvid : q.vip.vipId = v.id := by
    rw [hset.entry_of_vip _ v hv] at hval
    rw [← Option.some.inj hval]
  rcases h.slot_eligible hset hpinned hv (hvid ▸ hr) (List.mem_of_getElem? hslot) with
    hnone | ⟨m, hm⟩
  · exact .inl hnone
  · exact .inr ⟨v, m, hv, hm⟩

end Slots

theorem Effect.fit {env : Env} {op : Op} {lb lb' : LbState} {d d' : CtlMaps}
    (h : Effect env op lb d d' lb') (hs : Startable lb d)
    (hc : op.isApply = false → Consistent [] lb d) (hfit : Fit lb d) : Fit lb' d' := by
  cases h with
  | apply cfg hop h => exact h.fit hs hfit
  | delete spec v hop hv h => exact fun s => (h.kept (hc hop) hv).fit (hfit s)
  | reshape spec flags want v' hop hnew htouched h => exact h.fit (hc hop) hfit
  | refresh R hop h => exact fun s => h.fit (hfit s)

namespace System

variable {s : System}

/-- No ring is ever ahead of the model between operations. -/
theorem Reachable.fit (h : Reachable s) (hidle : s.pending = none) : Fit s.lb s.ctl := by
  obtain ⟨interface, es, hrun⟩ := h
  have hnew : ∀ d interface, Fit { interface } d := fun _ _ _ => .of_none (by simp)
  have hinv : Inv s ∧ Between (fun d lb => Fit lb d) s := by
    refine hrun.invariant (I := fun _ s => Inv s ∧ Between (fun d lb => Fit lb d) s)
      ⟨init_inv interface, fun _ => hnew _ interface, nofun⟩ ?_
    rintro _ e _ - s s' ⟨hinv, hfit⟩ hstep
    refine ⟨hinv.step hstep, hfit.step hstep (fun env op _ hidle henv hready hok hall => ?_) hnew⟩
    have hu := (hinv.usable hidle).startable
    have hc : op.isApply = false → Consistent [] s.lb s.ctl := fun hop =>
      (hinv.settled hidle (hready hop)).consistent
    exact ((Op.run_spec henv hu hc).of_ok hok).fit hu hc hall
  exact hinv.2.idle hidle

/-- While a daemon is serving and no operation is under way, a packet placed by the ring finds
an empty slot or goes to a member of its VIP that is up, not draining, has weight and whose
MAC is known. -/
theorem new_flows_reach_eligible (h : Reachable s) (hidle : s.pending = none)
    (hready : s.ready = true) {x : PktEnv} {p : Frame} {pick : Pick}
    (hpick : (xdpPacketbalance s.ctl x s.dp p).1.pick = some pick)
    (hring : pick.source = .ring) :
    pick.realId = pbRealNone ∨ ∃ v m, s.lb.vips[p.flow.vip]? = some v ∧
      v.members[s.ctl.reals pick.realId]? = some m ∧
      s.lb.eligible (s.ctl.reals pick.realId) m = true ∧
      s.lb.reals.idOf (s.ctl.reals pick.realId) = some pick.realId :=
  (h.fit hidle).eligible_of_pick (h.inv.settled hidle hready) h.inv.pinned hpick hring

/-- The first packet after the first `apply`. -/
theorem new_flows_reach_eligible_sample :
    ∃ (s : System) (pick : Pick), s.Reachable ∧ s.pending = none ∧ s.ready = true ∧
      (xdpPacketbalance s.ctl sampleCpu s.dp sampleFrame).1.pick = some pick ∧
      pick.source = .ring ∧
      (pick.realId = pbRealNone ∨ ∃ v m, s.lb.vips[sampleFrame.flow.vip]? = some v ∧
        v.members[s.ctl.reals pick.realId]? = some m ∧
        s.lb.eligible (s.ctl.reals pick.realId) m = true ∧
        s.lb.reals.idOf (s.ctl.reals pick.realId) = some pick.realId) := by
  obtain ⟨s, hs, hidle, hct, happ⟩ :=
    Reachable.first_apply "eth0" sampleConfig answeringEnv_healthy
  have hready : s.ready = true := by simp [ready, happ.initialized]
  have hmem : sampleFlow.vip ∈ s.ctl.vipMap :=
    (happ.mem_vipMap ((init_inv "eth0").usable rfl) sampleConfig.ok).mpr (by decide)
  obtain ⟨val, hval⟩ := OrdMap.mem_iff.mp hmem
  obtain ⟨pick, hpick, hring⟩ := pick_of_empty hct hval
  exact ⟨s, pick, hs, hidle, hready, hpick, hring,
    new_flows_reach_eligible hs hidle hready hpick hring⟩

end System

end PacketBalance
