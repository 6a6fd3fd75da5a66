import PacketBalance.LbState.Noted
import PacketBalance.Ring.Balance
import PacketBalance.System.Capacity
import PacketBalance.System.Safety
/-!
# What the API says of a real being in the ring

`in_ring` is the note that the last rebuild left: the member took part, with its weight.
In Maglev everybody who takes part gets a slot.  In modulo the reals stand in the order of
their addresses, and once the weights before a real have used up the ring, it gets none.
-/

namespace PacketBalance

open WriteLog Std LbState

/-! ## Notes and slots -/

/-- The weights of the members that are noted as in the ring and have a lower address. -/
def Vip.weightBefore (v : Vip) (a : UInt32) : Nat :=
  ((v.members.toList.filter fun p => p.2.inRing && p.1 < a).map fun p => p.2.weight).sum

def notedBelow (notes : List Note) (a : UInt32) : Nat :=
  ((notes.filter fun n => n.2.1 && n.1 < a).map fun n => n.2.2).sum

section Slots

variable {d : CtlMaps} {r : InstalledRing} {mode : HashMode} {v : Vip} {a : UInt32} {m : Member}

/-- Two active backends of a ring have different ids, because their addresses differ. -/
theorem RingOk.ids_nodup (h : RingOk d r) : ((weighted r.backends).map Backend.realId).Nodup := by
  have hsorted : AddrSorted (weighted r.backends) := h.sorted.filter _
  rw [List.Nodup, List.pairwise_map]
  refine List.Pairwise.imp_of_mem ?_ hsorted
  intro b c hb hc hlt heq
  obtain ⟨hb, hbpos⟩ := mem_weighted.mp hb
  obtain ⟨hc, hcpos⟩ := mem_weighted.mp hc
  have hsame : b.addr = c.addr := by
    rw [← (h.live b hb hbpos).2.1, heq, (h.live c hc hcpos).2.1]
  exact UInt32.ne_of_lt hlt hsame

/-- There are no more active backends than ids. -/
theorem RingOk.weighted_le (h : RingOk d r) (hreals : d.RealsOk) :
    (weighted r.backends).length ≤ pbRingSize := by
  have hsub : (weighted r.backends).map Backend.realId ⊆ List.range pbMaxReals := by
    intro id hid
    obtain ⟨b, hb, rfl⟩ := List.mem_map.mp hid
    obtain ⟨hb, hpos⟩ := mem_weighted.mp hb
    obtain ⟨hne, hreal, -⟩ := h.live b hb hpos
    exact List.mem_range.mpr (hreals.range _ (hreal.trans_ne hne)).2
  have hle := (h.ids_nodup.subperm hsub).length_le
  rw [List.length_map, List.length_range] at hle
  exact hle.trans (by decide)

theorem LbState.Tells.weightBelow_eq (h : Tells mode v r) (b : Backend) :
    weightBelow (weighted r.backends) b = v.weightBefore b.addr := by
  have hring : weightBelow (weighted r.backends) b =
      notedBelow (r.backends.map Backend.note) b.addr := by
    simp only [weightBelow, weighted, totalWeight, notedBelow, List.filter_filter,
      List.filter_map, List.map_map]
    congr 2
    exact List.filter_congr fun c _ => Bool.and_comm _ _
  have hvip : v.weightBefore b.addr = notedBelow v.notes b.addr := by
    simp only [Vip.weightBefore, Vip.notes, notedBelow, List.filter_map, List.map_map]
    congr 1
    refine List.map_congr_left fun p hp => ?_
    have hin : p.2.inRing = true := (Bool.and_eq_true_iff.mp (List.mem_filter.mp hp).2).1
    simp [Member.note, hin]
  rw [hring, hvip, h.notes_eq]

/-- The real behind a member has a slot exactly when the member is noted as in the ring and
the weights before it leave room. -/
theorem LbState.Tells.mem_slots_iff (h : Tells mode v r) (hring : RingOk d r)
    (hreals : d.RealsOk) (hm : v.members[a]? = some m) {id : Nat} (hid : d.reals id = a)
    (hne : a ≠ 0) :
    id ∈ r.slots ↔ m.inRing = true ∧ (mode = .modulo → v.weightBefore a < pbRingSize) := by
  have hslot : ∀ b ∈ weighted r.backends, b.addr = a →
      (b.realId ∈ r.slots ↔ (mode = .modulo → v.weightBefore a < pbRingSize)) := by
    intro b hb haddr
    rw [mem_ring_iff (.inr pbRingSize_prime) hring.sorted hring.ids_nodup
      (hring.weighted_le hreals) hring.built hb, h.weightBelow_eq, h.mode_eq, haddr]
  constructor
  · intro hmem
    have hnone : id ≠ pbRealNone := by
      have hlt := (hreals.range id (hid.trans_ne hne)).2
      rintro rfl
      exact absurd hlt (by decide)
    obtain ⟨b, hb, hpos, rfl⟩ :=
      (mem_buildRing hring.sorted hring.built hmem).resolve_left hnone
    have haddr : b.addr = a := (hring.live b hb hpos).2.1.symm.trans hid
    refine ⟨?_, (hslot b (mem_weighted.mpr ⟨hb, hpos⟩) haddr).mp hmem⟩
    have hnote : b.note ∈ v.notes := h.notes_eq ▸ List.mem_map_of_mem hb
    obtain ⟨m', hm', heq⟩ := Vip.mem_notes.mp hnote
    simp only [Backend.note, haddr] at hm' heq
    obtain rfl := Option.some.inj (hm.symm.trans hm')
    have hin := congrArg (fun n : Note => n.2.1) heq
    simpa [Member.note, hpos] using hin
  · rintro ⟨hin, hroom⟩
    have hnote : m.note a ∈ r.backends.map Backend.note :=
      h.notes_eq ▸ Vip.mem_notes.mpr ⟨m, hm, rfl⟩
    obtain ⟨b, hb, heq⟩ := List.mem_map.mp hnote
    simp only [Backend.note, Member.note, hin, Prod.mk.injEq, decide_eq_true_eq] at heq
    obtain ⟨haddr, hpos, -⟩ := heq
    have hreal : d.reals b.realId = a := (hring.live b hb hpos).2.1.trans haddr
    have hsame : b.realId = id := hreals.inj _ _ (hreal.trans_ne hne) (hreal.trans hid.symm)
    rw [← hsame]
    exact (hslot b (mem_weighted.mpr ⟨hb, hpos⟩) haddr).mpr hroom

end Slots

/-! ## What is reported -/

/-- Every reported `in_ring` says whether the real owns a slot of the VIP's installed ring. -/
def Truthful (lb : LbState) (d : CtlMaps) : Prop :=
  ∀ view ∈ lb.snapshot, ∀ real ∈ view.reals, real.inRing = true ↔
    ∃ ring, d.rings view.vipId = some ring ∧ real.realId ∈ ring.slots

/-- In modulo mode, no member that counts comes after a whole ring of others. -/
def Roomy (lb : LbState) : Prop :=
  lb.hash = .modulo → ∀ (s : VipSpec) (v : Vip), lb.vips[s]? = some v →
    ∀ (a : UInt32) (m : Member), v.members[a]? = some m → m.inRing = true →
      v.weightBefore a < pbRingSize

theorem truthful_iff {lb : LbState} {d : CtlMaps} :
    Truthful lb d ↔ ∀ (s : VipSpec) (v : Vip), lb.vips[s]? = some v →
      ∀ (a : UInt32) (m : Member), v.members[a]? = some m → (m.inRing = true ↔
        ∃ ring, d.rings v.id = some ring ∧ (lb.reals.idOf a).getD 0 ∈ ring.slots) := by
  simp only [Truthful, snapshot, List.mem_insertionSort, List.mem_map, Prod.exists,
    ExtTreeMap.mem_toList_iff_getElem?_eq_some]
  constructor
  · intro h s v hv a m hm
    exact h _ ⟨s, v, hv, rfl⟩ _ (List.mem_map.mpr
      ⟨(a, m), ExtTreeMap.mem_toList_iff_getElem?_eq_some.mpr hm, rfl⟩)
  · rintro h _ ⟨s, v, hv, rfl⟩ real hreal
    obtain ⟨⟨a, m⟩, hm, rfl⟩ := List.mem_map.mp hreal
    exact h s v hv a m (ExtTreeMap.mem_toList_iff_getElem?_eq_some.mp hm)

theorem LbState.Noted.truthful_iff {lb : LbState} {d : CtlMaps} (h : Noted d lb)
    (hs : Settled lb d) (hpinned : PinnedOk d) : Truthful lb d ↔ Roomy lb := by
  have hmember : ∀ (s : VipSpec) (v : Vip), lb.vips[s]? = some v →
      ∀ (a : UInt32) (m : Member), v.members[a]? = some m →
        ((∃ ring, d.rings v.id = some ring ∧ (lb.reals.idOf a).getD 0 ∈ ring.slots) ↔
          m.inRing = true ∧ (lb.hash = .modulo → v.weightBefore a < pbRingSize)) := by
    intro s v hv a m hm
    obtain ⟨r, hr, htells⟩ := h s v hv
    obtain ⟨r', hr', hring⟩ := hpinned.ring s _ (hs.entry_of_vip s v hv)
    obtain rfl := Option.some.inj (hr.symm.trans hr')
    obtain ⟨e, he⟩ := hs.consistent.member_entry hv (OrdMap.mem_iff.mpr ⟨m, hm⟩)
    have hwf := hs.consistent.table.wf
    have hreal : d.reals e.id = a := by
      rw [hs.consistent.table.mirror.reals, hwf.entry_slot he]
    have hid : (lb.reals.idOf a).getD 0 = e.id := by
      rw [RealTable.idOf_eq, he, Option.map_some, Option.getD_some]
    rw [hid, ← htells.mem_slots_iff hring hpinned.reals hm hreal (hwf.entry_ne_zero he)]
    constructor
    · rintro ⟨ring, hring', hmem⟩
      rwa [Option.some.inj (hr.symm.trans hring')]
    · exact fun hmem => ⟨r, hr, hmem⟩
  rw [PacketBalance.truthful_iff]
  constructor
  · intro htruth hmode s v hv a m hm hin
    exact ((hmember s v hv a m hm).mp ((htruth s v hv a m hm).mp hin)).2 hmode
  · intro hroom s v hv a m hm
    rw [hmember s v hv a m hm]
    exact ⟨fun hin => ⟨hin, fun hmode => hroom hmode s v hv a m hm hin⟩, And.left⟩

namespace System

variable {s s' : System}

/-- In every reachable state between operations the notes are those of the rings. -/
theorem Reachable.noted (h : Reachable s) (hidle : s.pending = none) : Noted s.ctl s.lb := by
  obtain ⟨interface, es, hrun⟩ := h
  have hnew : ∀ d interface, Noted d { interface } := fun _ _ _ => .of_none (by simp)
  have hinv : Inv s ∧ Between Noted s := by
    refine hrun.invariant (I := fun _ s => Inv s ∧ Between Noted s)
      ⟨init_inv interface, fun _ => hnew _ interface, nofun⟩ ?_
    rintro _ e _ - s s' ⟨hinv, hnoted⟩ hstep
    refine ⟨hinv.step hstep, hnoted.step hstep (fun env op _ hidle henv hready hok hall => ?_) hnew⟩
    exact (Op.run_noted henv (hinv.usable hidle).startable
      (fun hop => (hinv.settled hidle (hready hop)).consistent) hall).of_ok hok
  exact hinv.2.idle hidle

/-- Between operations, what is reported is true exactly when every member that counts has
room for its first slot. -/
theorem in_ring_truthful_iff (h : Reachable s) (hidle : s.pending = none) :
    Truthful s.lb s.ctl ↔ Roomy s.lb := by
  have hinv := h.inv
  cases hready : s.ready with
  | true => exact (h.noted hidle).truthful_iff (hinv.settled hidle hready) hinv.pinned
  | false =>
      obtain ⟨interface, hlb⟩ := hinv.restarted hidle hready
      have hnone : ∀ (spec : VipSpec) (v : Vip), s.lb.vips[spec]? ≠ some v := by
        intro spec v
        simp [hlb]
      rw [truthful_iff]
      exact iff_of_true (fun spec v hv => absurd hv (hnone spec v))
        fun _ spec v hv => absurd hv (hnone spec v)

theorem in_ring_truthful_iff_sample :
    ∃ s : System, s.Reachable ∧ s.pending = none ∧ sampleFlow.vip ∈ s.lb.vips ∧
      Truthful s.lb s.ctl := by
  obtain ⟨s, hs, hidle, -, happ⟩ := Reachable.first_apply "eth0" sampleConfig answeringEnv_healthy
  have hmode : s.lb.hash = .maglev := happ.hash
  refine ⟨s, hs, hidle, ((happ.vips sampleConfig.ok).1 _).mpr (List.mem_singleton.mpr rfl),
    (in_ring_truthful_iff hs hidle).mpr fun hmodulo => ?_⟩
  rw [hmode] at hmodulo
  cases hmodulo

/-! ## More weight than slots -/

theorem Vip.weightBefore_uniform {v : Vip} {addrs : List UInt32} {w : Nat} (hnodup : addrs.Nodup)
    (hmem : ∀ a, a ∈ v.members ↔ a ∈ addrs)
    (hall : ∀ (a : UInt32) (m : Member), v.members[a]? = some m → m.inRing = true ∧ m.weight = w)
    (a : UInt32) : v.weightBefore a = (addrs.filter (· < a)).length * w := by
  have hget : ∀ p ∈ v.members.toList, v.members[p.1]? = some p.2 := fun p hp =>
    ExtTreeMap.mem_toList_iff_getElem?_eq_some.mp hp
  have hfilter : (v.members.toList.filter fun p => p.2.inRing && p.1 < a) =
      v.members.toList.filter fun p => p.1 < a :=
    List.filter_congr fun p hp => by rw [(hall p.1 p.2 (hget p hp)).1, Bool.true_and]
  have hkeys : ((v.members.toList.filter fun p => p.1 < a).map Prod.fst).Perm
      (addrs.filter (· < a)) := by
    have hmap : (v.members.toList.filter fun p => p.1 < a).map Prod.fst =
        v.members.keys.filter (· < a) := by
      rw [← ExtTreeMap.map_fst_toList_eq_keys, List.filter_map]
      rfl
    rw [hmap, List.perm_ext_iff_of_nodup (v.members.nodup_keys.filter _) (hnodup.filter _)]
    intro b
    rw [List.mem_filter, List.mem_filter, ExtTreeMap.mem_keys, hmem]
  have hweights : ∀ p ∈ v.members.toList.filter fun p => p.1 < a, p.2.weight = w := fun p hp =>
    (hall p.1 p.2 (hget p (List.mem_of_mem_filter hp))).2
  rw [Vip.weightBefore, hfilter, ← hkeys.length_eq, List.length_map, List.map_congr_left hweights,
    List.map_const', List.sum_replicate_nat]

section Single

variable {env : Env} {cfg : Config} {interface : String} {d d' : CtlMaps} {lb' : LbState}
  {vc : VipConfig}

theorem single_ring (happ : Applied env cfg { interface } d d' lb') (hvips : cfg.vips = [vc]) :
    ∃ z v slots, Along env cfg { interface } d [vc] z ∧ lb'.vips[vc.spec]? = some v ∧
      d'.rings v.id = some ⟨slots, z.2.backendsOf v, cfg.hash⟩ := by
  obtain ⟨z, ⟨z₁, hopen, hpath⟩, hend⟩ := happ
  rw [hvips] at hpath
  have halong : Along env cfg { interface } d [vc] z := ⟨z₁, hopen, hpath⟩
  have hbegin : Along env cfg { interface } d [] z₁ := ⟨z₁, hopen, rfl⟩
  have hnone : z₁.2.vips[vc.spec]? = none := by simp [hopen.vips]
  obtain ⟨z₂, ⟨v, hstep⟩, rfl⟩ := hpath
  obtain ⟨slots, -, hrings⟩ := hstep.ring (by simp [touched, hnone])
  replace hend : Finished z.2 z.1 d' lb' := by simpa using hend
  refine ⟨z, v, slots, halong, ?_, ?_⟩
  · obtain ⟨t, rfl⟩ := hend.state
    exact hstep.vip
  · rw [hend.rings _ v hstep.vip, hrings, Function.update_self, hbegin.facts.2.2.1]

theorem single_inRing (happ : Applied env cfg { interface } d d' lb') (hok : cfg.Ok)
    (hvips : cfg.vips = [vc]) (hanswer : ∀ spec a ip, (env.macLookup spec a ip).isSome)
    (hnoted : Noted d' lb') :
    ∃ v, lb'.vips[vc.spec]? = some v ∧ (∀ a, a ∈ v.members ↔ a ∈ vc.addrs) ∧
      ∀ (a : UInt32) (m : Member), v.members[a]? = some m →
        (wantOf vc)[a]? = some m.weight ∧ (0 < m.weight → m.inRing = true) := by
  have hvc : vc ∈ cfg.vips := by simp [hvips]
  have hpre : [vc] <+: cfg.vips := by rw [hvips]
  obtain ⟨z, v, slots, halong, hv, hring⟩ := single_ring happ hvips
  obtain ⟨v', hv', hconf⟩ := (happ.vips hok).2 vc hvc
  obtain rfl := Option.some.inj (hv.symm.trans hv')
  have hmem : ∀ a, a ∈ v.members ↔ a ∈ vc.addrs := fun a =>
    hconf.mem_members (hok.vip_ok vc hvc)
  refine ⟨v, hv, hmem, fun a m hm => ?_⟩
  have hstep := hconf.member a
  rw [hm] at hstep
  have hweight : (wantOf vc)[a]? = some m.weight := hstep.weight_eq.symm
  refine ⟨hweight, fun hpos => ?_⟩
  -- the member is new, so it is up and not draining, and its neighbour has answered
  have hready : m.ready = true := by
    rw [hweight, membersAt] at hstep
    obtain ⟨m', hm', i, r, hnew⟩ := hstep
    rw [Option.some.inj hm', hnew]
    simp [Member.ready, newMember, hpos]
  have hheard := halong.heard hok hpre (List.mem_singleton.mpr rfl)
    ⟨(hmem a).mp (OrdMap.mem_iff.mpr ⟨m, hm⟩), by simp [membersAt], hanswer ..⟩
  obtain ⟨r, hr, htells⟩ := hnoted vc.spec v hv
  obtain rfl := Option.some.inj (hring.symm.trans hr)
  rw [htells.inRing_eq rfl hm, eligible_eq, hready, hheard, Bool.true_and]

end Single

/-- A VIP with 67 reals of the greatest weight. -/
def crowdedVip : VipConfig where
  spec := sampleFlow.vip
  reals := (List.range 67).map fun i =>
    { addrBe := UInt32.ofNat (0x0100000a + 0x01000000 * i), weight := 1000 }

def crowdedConfig : ValidConfig where
  interface := "eth0"
  encapSrc := ⟨0, 0, 16⟩
  hash := .modulo
  vips := [crowdedVip]
  valid := by decide +kernel

/-- The first 66 reals weigh 66000, which is more than there are slots: the last one has none,
and is reported as in the ring. -/
theorem in_ring_not_truthful :
    ∃ s : System, s.Reachable ∧ s.pending = none ∧ ¬Truthful s.lb s.ctl := by
  obtain ⟨s, hs, hidle, -, happ⟩ := Reachable.first_apply "eth0" crowdedConfig answeringEnv_healthy
  have hinv := hs.inv
  have hnoted := hs.noted hidle
  have hready : s.ready = true := by simp [ready, happ.initialized]
  obtain ⟨v, hv, hmem, hall⟩ := single_inRing happ crowdedConfig.ok rfl (fun _ _ _ => rfl) hnoted
  have hvc := crowdedConfig.ok.vip_ok crowdedVip (List.mem_singleton.mpr rfl)
  have huniform : ∀ (a : UInt32) (m : Member), v.members[a]? = some m →
      m.inRing = true ∧ m.weight = 1000 := by
    intro a m hm
    obtain ⟨hwant, hin⟩ := hall a m hm
    obtain ⟨r, hr, -, hweight⟩ := (getElem?_wantOf hvc).mp hwant
    obtain ⟨i, -, rfl⟩ := List.mem_map.mp hr
    exact ⟨hin (hweight ▸ Nat.zero_lt_succ 999), hweight.symm⟩
  refine ⟨s, hs, hidle, fun htruth => ?_⟩
  have hroom := (hnoted.truthful_iff (hinv.settled hidle hready) hinv.pinned).mp htruth
  obtain ⟨m, hm⟩ := OrdMap.mem_iff.mp ((hmem 0x4300000a).mpr (by decide +kernel))
  have hlt := hroom happ.hash _ v hv _ m hm (huniform _ m hm).1
  rw [Vip.weightBefore_uniform hvc.addrs_nodup hmem huniform] at hlt
  exact absurd hlt (by decide +kernel)

end System

end PacketBalance
