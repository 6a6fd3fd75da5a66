import PacketBalance.System.Calls
import PacketBalance.System.Reconcile
import PacketBalance.LbState.Stability
import PacketBalance.LbState.Unchanged
/-!
# A restart that nobody notices

A daemon that serves a configuration, with every MAC known and every ring built from
all configured members, is replaced by a new one with the same configuration.  The new
one adopts ids and MACs, builds the same rings from the same members and, if no exception
has left anything behind, has nothing to add and nothing to remove: at no moment do the
maps look different to a packet.
-/

namespace PacketBalance

open WriteLog Std LbState

/-- A VIP's members with the weights they are configured with. -/
def LbState.fullBackends (lb : LbState) (v : Vip) : List Backend :=
  v.members.toList.map fun p => ⟨(lb.reals.idOf p.1).getD 0, p.1, p.2.weight⟩

theorem DpMaps.reset_eq {w : MapWrite} (hstats : ∀ id, w ≠ .statsReset id)
    (hreals : ∀ id, w ≠ .realStatsReset id) (dp : DpMaps) : dp.reset w = dp := by
  cases w with
  | statsReset id => exact absurd rfl (hstats id)
  | realStatsReset id => exact absurd rfl (hreals id)
  | _ => rfl

theorem RealTable.Sound.idOf_iff {t : RealTable} {d : CtlMaps} (h : t.Sound d) {a : UInt32}
    {id : Nat} : t.idOf a = some id ↔ a ≠ 0 ∧ d.reals id = a := by
  rw [RealTable.idOf, h.wf.byAddr_iff, h.mirror.reals]

namespace System

/-- The daemon has applied the configuration, every member has a MAC, and every ring is
that of all members with their configured weights. -/
structure Steady (cfg : Config) (d : CtlMaps) (lb : LbState) : Prop where
  specs : ∀ s : VipSpec, s ∈ lb.vips ↔ s ∈ cfg.specs
  vip : ∀ vc ∈ cfg.vips, ∃ v, lb.vips[vc.spec]? = some v ∧
    v.flags = (if vc.noConntrack then 1 else 0) ∧
    ∀ (a : UInt32) (w : Nat), (∃ m, v.members[a]? = some m ∧ m.weight = w) ↔
      ∃ r ∈ vc.reals, r.addrBe = a ∧ r.weight = w
  config : ∃ mac, d.config = configValue cfg mac
  known : ∀ (s : VipSpec) (v : Vip), lb.vips[s]? = some v → ∀ a ∈ v.members,
    (lb.reals.macOf a).isSome
  ring : ∀ (s : VipSpec) (v : Vip), lb.vips[s]? = some v →
    ∃ r, d.rings v.id = some r ∧ buildRing (lb.fullBackends v) cfg.hash pbRingSize = .ok r.slots

/-- No exception has left anything behind: `vip_map` has the entry of every VIP, and `reals`
holds configured addresses only. -/
structure Tidy (cfg : Config) (d : CtlMaps) (lb : LbState) : Prop where
  entry : ∀ (s : VipSpec) (v : Vip), lb.vips[s]? = some v → d.vipMap[s]? = some ⟨v.id, v.flags⟩
  reals : ∀ id, d.reals id ≠ 0 → d.reals id ∈ cfg.addrs

/-- A new daemon's first `apply` is not noticed.  Between any two of its writes the maps look
as before the restart, so every packet gets the real it would have got; no counter and no
tracked connection is touched; and when it returns, as it does if the kernel plays along,
all ids are the old ones. -/
def Hitless (cfg : ValidConfig) (d : CtlMaps) (lb : LbState) : Prop :=
  ∀ (interface : String) (env : Env), ArrayOk env →
    (∀ log, log <+: ((Op.apply cfg).run env d { interface }).log →
      SameView d (replay d log) ∧ ∀ x dp p,
        (xdpPacketbalance (replay d log) x dp p).1.pick = (xdpPacketbalance d x dp p).1.pick) ∧
    (∀ w ∈ ((Op.apply cfg).run env d { interface }).log, ∀ dp : DpMaps, dp.reset w = dp) ∧
    (((Op.apply cfg).run env d { interface }).res = .ok () →
      (∀ (spec : VipSpec) (v : Vip), lb.vips[spec]? = some v →
        ∃ v', ((Op.apply cfg).run env d { interface }).mem.vips[spec]? = some v' ∧
          v'.id = v.id) ∧
      ∀ a, ((Op.apply cfg).run env d { interface }).mem.reals.idOf a = lb.reals.idOf a) ∧
    (Healthy env → ((Op.apply cfg).run env d { interface }).res = .ok ())

/-- All of it, for a model that goes with its maps. -/
structure Intact (cfg : Config) (d : CtlMaps) (lb : LbState) : Prop
    extends Steady cfg d lb, Tidy cfg d lb where
  live : Live lb d

variable {lb lb' lb₁ : LbState} {d d' d₁ : CtlMaps} {env : Env} {cfg : Config}
variable {interface : String} {done : List VipConfig} {z : CtlMaps × LbState}

/-! ## What the new daemon finds -/

/-- A configured VIP in the old model and in the maps. -/
structure Found (d : CtlMaps) (lb : LbState) (vc : VipConfig) (v : Vip) : Prop where
  vip : lb.vips[vc.spec]? = some v
  entry : d.vipMap[vc.spec]? = some ⟨v.id, vipFlags vc.noConntrack⟩
  weight : ∀ a : UInt32, v.members[a]?.map Member.weight = (wantOf vc)[a]?

theorem Intact.found (h : Intact cfg d lb) (hok : cfg.Ok) {vc : VipConfig}
    (hvc : vc ∈ cfg.vips) : ∃ v, Found d lb vc v := by
  obtain ⟨v, hv, hflags, hweight⟩ := h.vip vc hvc
  refine ⟨v, hv, (h.entry _ v hv).trans (by rw [hflags]; rfl), fun a => ?_⟩
  apply Option.ext
  intro w
  rw [Option.map_eq_some_iff, hweight, getElem?_wantOf (hok.vip_ok vc hvc)]

theorem Found.mem_members {vc : VipConfig} {v : Vip} (h : Found d lb vc v) {a : UInt32} :
    a ∈ v.members ↔ a ∈ wantOf vc := by
  rw [OrdMap.mem_iff, OrdMap.mem_iff, ← h.weight]
  simp

theorem Steady.spec_of_entry (h : Steady cfg d lb) (hl : Live lb d) {s : VipSpec}
    (hs : s ∈ d.vipMap) : s ∈ cfg.specs := by
  obtain ⟨val, hval⟩ := OrdMap.mem_iff.mp hs
  rcases hl.consistent.entry_named s val hval with ⟨v, hv, -⟩ | hpin
  · exact (h.specs s).mp (OrdMap.mem_iff.mpr ⟨v, hv⟩)
  · simp [hl.adopted] at hpin

theorem Steady.exists_entry (h : Steady cfg d lb) (hl : Live lb d) {a : UInt32}
    (ha : a ∈ cfg.addrs) : ∃ e, lb.reals.entry a = some e := by
  obtain ⟨vc, hvc, hin⟩ := Config.mem_addrs.mp ha
  obtain ⟨v, hv, -, hweight⟩ := h.vip vc hvc
  obtain ⟨r, hr, rfl⟩ := List.mem_map.mp (List.mem_toFinset.mp hin)
  obtain ⟨m, hm, -⟩ := (hweight r.addrBe r.weight).mpr ⟨r, hr, rfl, rfl⟩
  exact hl.consistent.member_entry hv (OrdMap.mem_iff.mpr ⟨m, hm⟩)

theorem Steady.addrs_subset (h : Steady cfg d lb) (hl : Live lb d) : cfg.addrs ⊆ d.addrs := by
  intro a ha
  obtain ⟨e, he⟩ := h.exists_entry hl ha
  have ht := hl.consistent.table
  exact ht.realsOk.mem_addrs.mpr ⟨ht.wf.entry_ne_zero he, e.id, ht.mirror.reals_entry ht.wf he⟩

theorem Intact.addrs_eq (h : Intact cfg d lb) : d.addrs = cfg.addrs := by
  refine Finset.Subset.antisymm (fun a ha => ?_) (h.addrs_subset h.live)
  obtain ⟨hne, id, rfl⟩ := h.live.consistent.table.realsOk.mem_addrs.mp ha
  exact h.reals id hne

/-- What is known of a configured address in the middle of the new daemon's first
`apply`. -/
structure KnownAgain (lb : LbState) (a : UInt32) (e : RealTable.Entry) : Prop where
  id_eq : lb.reals.idOf a = some e.id
  mac : e.mac.isSome

theorem Intact.known_again (h : Intact cfg d lb) (hok : cfg.Ok)
    (halong : Along env cfg { interface } d done z) (hpre : done <+: cfg.vips)
    {a : UInt32} (ha : a ∈ cfg.addrs) :
    ∃ e, z.2.reals.entry a = some e ∧ KnownAgain lb a e := by
  obtain ⟨vc, hvc, hin⟩ := Config.mem_addrs.mp ha
  obtain ⟨v, hfound⟩ := h.found hok hvc
  have hmem : a ∈ v.members := hfound.mem_members.mpr ((mem_wantOf (hok.vip_ok vc hvc)).mpr hin)
  have ht := h.live.consistent.table
  obtain ⟨e₀, he₀⟩ := h.live.consistent.member_entry hfound.vip hmem
  obtain ⟨m, hm⟩ := Option.isSome_iff_exists.mp (h.known _ v hfound.vip a hmem)
  rw [RealTable.macOf_eq, he₀, Option.bind_some] at hm
  have hneigh := ht.mirror.neigh_entry ht.wf he₀
  rw [hm, Option.getD_some] at hneigh
  obtain ⟨e, he, hid, hmac⟩ := halong.known hok hpre
    (.inl (.inl (by simp [holders]))) (ht.wf.entry_ne_zero he₀) (ht.mirror.reals_entry ht.wf he₀)
  refine ⟨e, he, by rw [RealTable.idOf_eq, he₀, hid, Option.map_some], ?_⟩
  rw [hmac (by rw [hneigh]; exact ht.wf.entry_mac_ne he₀ hm)]
  rfl

theorem Found.idFor {vc : VipConfig} {v : Vip} (h : Found d lb vc v) (hok : cfg.Ok)
    {rest : List VipConfig} (hvips : cfg.vips = done ++ vc :: rest)
    (halong : Along env cfg { interface } d done z) : z.2.idFor vc.spec = some v.id := by
  have hnew := halong.new_vip hok hvips
  have hspec : vc.spec ∈ cfg.specs := List.mem_map_of_mem (by simp [hvips])
  obtain ⟨flags, hz⟩ := halong.entry_id hspec h.entry
  rcases halong.facts.1.entry_named _ _ hz with ⟨u, hu, -⟩ | hadopted
  · exact absurd (OrdMap.mem_iff.mpr ⟨u, hu⟩) hnew
  · rw [LbState.idFor, OrdMap.notMem_iff.mp hnew, hadopted]
    rfl

/-! ## The same ring again -/

theorem fullBackends_eq (lb : LbState) (v : Vip) :
    lb.fullBackends v = (v.members.map fun a m =>
      (⟨(lb.reals.idOf a).getD 0, a, m.weight⟩ : Backend)).toList.map Prod.snd := by
  rw [ExtTreeMap.toList_map, List.map_map]
  rfl

theorem backendOf_new {a : UInt32} {w : Nat} {m : Member} (hm : MemberAfter env none w m)
    (hmac : (lb₁.reals.macOf a).isSome) :
    lb₁.backendOf a m = ⟨(lb₁.reals.idOf a).getD 0, a, w⟩ := by
  obtain ⟨i, r, rfl⟩ := hm
  by_cases hw : 0 < w
  · simp [backendOf, eligible, newMember, hmac, hw]
  · have hzero : w = 0 := by omega
    simp [backendOf, eligible, newMember, hzero]

/-- The new daemon builds a VIP's ring from the backends the old one had. -/
theorem Intact.backends_again (h : Intact cfg d lb) (hok : cfg.Ok) {vc : VipConfig}
    {rest : List VipConfig} {v v₁ : Vip} {flags : UInt32}
    (hvips : cfg.vips = done ++ vc :: rest) (halong : Along env cfg { interface } d done z)
    (hfound : Found d lb vc v) (hshape : Shaped env z.2 vc.spec flags (wantOf vc) v₁ lb₁)
    (hjoin : Joins env z.2 vc.spec (wantOf vc) lb₁.reals) :
    lb₁.backendsOf v₁ = lb.fullBackends v := by
  have hnone : z.2.membersAt vc.spec = ∅ := membersAt_new (halong.new_vip hok hvips)
  have hvc : vc ∈ cfg.vips := by simp [hvips]
  rw [backendsOf_eq, fullBackends_eq]
  congr 2
  apply ExtTreeMap.ext_getElem?
  intro a
  simp only [ExtTreeMap.getElem?_map]
  have hstep := hshape.member a
  have hweight := hfound.weight a
  rw [hnone, ExtTreeMap.getElem?_empty] at hstep
  cases hw : (wantOf vc)[a]? with
  | none =>
      rw [hw] at hstep hweight
      rw [MemberStep] at hstep
      rw [hstep, Option.map_eq_none_iff.mp hweight]
      rfl
  | some w =>
      rw [hw] at hstep hweight
      obtain ⟨m₁, hm₁, hafter⟩ := hstep
      obtain ⟨m, hm, hmw⟩ := Option.map_eq_some_iff.mp hweight
      have hin : a ∈ wantOf vc := OrdMap.mem_iff.mpr ⟨w, hw⟩
      have haddr : a ∈ cfg.addrs :=
        Config.mem_addrs.mpr ⟨vc, hvc, (mem_wantOf (hok.vip_ok vc hvc)).mp hin⟩
      obtain ⟨e, he, hknown⟩ := h.known_again hok halong ⟨_, hvips.symm⟩ haddr
      obtain ⟨e₁, he₁, hjoined⟩ := hjoin.new a hin (by simp [hnone])
      have hid : lb₁.reals.idOf a = lb.reals.idOf a := by
        rw [RealTable.idOf_eq, he₁, hknown.id_eq, Option.map_some, hjoined.id e he]
      have hmac : (lb₁.reals.macOf a).isSome := by
        rw [RealTable.macOf_eq, he₁, Option.bind_some, hjoined.mac, he, Option.bind_some]
        obtain ⟨mac, hmac⟩ := Option.isSome_iff_exists.mp hknown.mac
        simp [hmac]
      rw [hm₁, hm, Option.map_some, Option.map_some, backendOf_new hafter hmac, hid, hmw]

/-! ## Every write -/

/-- The new daemon's writes change nothing that a packet could see and no counter. -/
def Invisible (d d₁ : CtlMaps) (w : MapWrite) : Prop :=
  (SameView d d₁ → SameView d (Durable.write d₁ w)) ∧
    (∀ id, w ≠ .statsReset id) ∧ ∀ id, w ≠ .realStatsReset id

theorem Intact.vip_invisible (h : Intact cfg d lb) (hok : cfg.Ok) {vc : VipConfig}
    {rest : List VipConfig} {w : MapWrite}
    (hvips : cfg.vips = done ++ vc :: rest) (halong : Along env cfg { interface } d done z)
    (hw : VipWrite env z.2 z.1 vc.spec (vipFlags vc.noConntrack) (wantOf vc) d₁ w) :
    Invisible d d₁ w := by
  have hvc : vc ∈ cfg.vips := by simp [hvips]
  have hnew := halong.new_vip hok hvips
  obtain ⟨v, hfound⟩ := h.found hok hvc
  have hidFor := hfound.idFor hok hvips halong
  cases hw with
  | reset id hnew' hpin =>
      exfalso
      have hmem := halong.named_sup rfl (.inl (OrdMap.mem_iff.mpr ⟨_, hfound.entry⟩))
      simp only [named, List.mem_toFinset, List.mem_append, ExtTreeMap.mem_keys] at hmem
      exact hmem.elim hnew' hpin
  | slot _ a ha hnot hmac hslot =>
      exfalso
      have haddr : a ∈ cfg.addrs :=
        Config.mem_addrs.mpr ⟨vc, hvc, (mem_wantOf (hok.vip_ok vc hvc)).mp ha⟩
      obtain ⟨e, he, hknown⟩ := h.known_again hok halong ⟨_, hvips.symm⟩ haddr
      rw [RealTable.macOf_eq, he, Option.bind_some] at hmac
      simpa [hmac] using hknown.mac
  | ring v₁ lb₁ slots hshape hjoin hringOk =>
      refine ⟨fun hview => ?_, by simp, by simp⟩
      have hback := h.backends_again hok hvips halong hfound hshape hjoin
      have hid : v₁.id = v.id := Option.some.inj (hshape.id_eq.symm.trans hidFor)
      obtain ⟨r, hr, hbuilt⟩ := h.ring _ v hfound.vip
      have hslots : r.slots = slots := by
        have hbuilt₁ := hringOk.built
        simp only [ringOf, hback, hshape.hash, halong.facts.2.2.1] at hbuilt₁
        exact Except.ok.inj (hbuilt.symm.trans hbuilt₁)
      refine ⟨hview.vipMap, fun id => ?_, hview.reals, hview.neigh, hview.flags⟩
      simp only [write_ringSwap]
      by_cases heq : id = v₁.id
      · rw [heq, Function.update_self, hid, hr]
        simp [ringOf, hslots]
      · rw [Function.update_of_ne heq]
        exact hview.rings id
  | entry id r _ hid _ _ _ _ =>
      refine ⟨fun hview => ?_, by simp, by simp⟩
      obtain rfl : v.id = id := Option.some.inj (hidFor.symm.trans hid)
      have hsame : d₁.vipMap.insert vc.spec ⟨v.id, vipFlags vc.noConntrack⟩ = d₁.vipMap :=
        OrdMap.insert_self (by rw [hview.vipMap, hfound.entry])
      exact ⟨by rw [write_vipUpdate, hsame, hview.vipMap], hview.rings, hview.reals,
        hview.neigh, hview.flags⟩
  | flags u hu => exact absurd (OrdMap.mem_iff.mpr ⟨u, hu⟩) hnew
  | free u _ _ _ hu => exact absurd (OrdMap.mem_iff.mpr ⟨u, hu⟩) hnew
  | blank u _ _ hu => exact absurd (OrdMap.mem_iff.mpr ⟨u, hu⟩) hnew

theorem Intact.finish_nothing (h : Intact cfg d lb) (hok : cfg.Ok) {w : MapWrite}
    (halong : Along env cfg { interface } d cfg.vips z) (hw : FinishWrite z.2 z.1 d₁ w) :
    False := by
  have hclaimed : ∀ s, s ∈ z.2.adoptedVipIds → s ∈ z.2.vips := by
    intro s hpin
    have hnamed : s ∈ z.2.named := by
      simp only [named, List.mem_toFinset, List.mem_append, ExtTreeMap.mem_keys]
      exact .inr hpin
    have hspec : s ∈ cfg.specs := by
      rcases halong.named_sub rfl hok List.prefix_rfl hnamed with ⟨-, hin⟩ | hspec
      · exact h.spec_of_entry h.live hin
      · exact hspec
    obtain ⟨vc, hvc, rfl⟩ := List.mem_map.mp hspec
    obtain ⟨v', hv', -⟩ := (halong.vips hok List.prefix_rfl).2 vc hvc
    exact OrdMap.mem_iff.mpr ⟨v', hv'⟩
  have hcounted : ∀ a e, z.2.reals.entry a = some e → e.refs ≠ 0 := by
    intro a e he hrefs
    have hused := (halong.mem_used_restarted hok List.prefix_rfl).mp
      (RealTable.mem_used.mpr ⟨e, he⟩)
    have haddr : a ∈ cfg.addrs := by
      rcases hused with hin | hin
      · rwa [h.addrs_eq] at hin
      · exact Config.mem_addrs.mpr hin
    have := halong.refs_pos hok haddr he
    omega
  cases hw with
  | entry spec hpin hnot => exact hnot (hclaimed spec hpin)
  | ring spec _ hpin hnot => exact hnot (hclaimed spec hpin)
  | free a e he hrefs => exact hcounted a e he hrefs
  | blank a e he hrefs => exact hcounted a e he hrefs

theorem Intact.apply_invisible (h : Intact cfg d lb) (hok : cfg.Ok) {w : MapWrite}
    (hw : ApplyWrite env cfg { interface } d d₁ w) : Invisible d d₁ w := by
  cases hw with
  | config mac _ =>
      obtain ⟨mac₀, hmac₀⟩ := h.config
      refine ⟨fun hview => ?_, by simp, by simp⟩
      exact ⟨hview.vipMap, hview.rings, hview.reals, hview.neigh, by simp [hmac₀, configValue]⟩
  | drop gone spec rest v d₀ lb₀ z _ hkeys =>
      rw [keys_new] at hkeys
      cases gone <;> cases hkeys
  | vip done vc rest z _ hvips halong hw => exact h.vip_invisible hok hvips halong hw
  | finish z _ _ halong hw => exact (h.finish_nothing hok halong hw).elim

/-! ## The restart -/

theorem Steady.fits (h : Steady cfg d lb) (hl : Live lb d) (hok : cfg.Ok)
    (interface : String) : LbState.Fits { interface } d cfg where
  reals done vc rest hperm := by
    have hused : d.addrs ⊆ lb.reals.used := by
      intro a ha
      have ht := hl.consistent.table
      obtain ⟨hne, id, rfl⟩ := ht.realsOk.mem_addrs.mp ha
      rw [ht.mirror.reals] at hne ⊢
      exact RealTable.mem_used.mpr ⟨_, ht.wf.exists_entry hne⟩
    refine Nat.le_trans (Finset.card_le_card fun a ha => ?_) hl.consistent.table.wf.card_used_le
    rw [mem_peak, orphans_new] at ha
    rcases ha with ha | ⟨u, hu, ha⟩ | ⟨u, -, -, ha⟩ | ha
    · exact hused ha
    · exact hused (h.addrs_subset hl
        (Config.mem_addrs.mpr ⟨u, hperm.subset (by simp [hu]), ha⟩))
    · simp [membersAt] at ha
    · exact hused (h.addrs_subset hl
        (Config.mem_addrs.mpr ⟨vc, hperm.subset (by simp), ha⟩))
  vips _ := by
    have hkeys : (d.vipMap.keys ++ cfg.specs).toFinset = cfg.specs.toFinset := by
      ext s
      simp only [List.mem_toFinset, List.mem_append, ExtTreeMap.mem_keys, or_iff_right_iff_imp]
      exact h.spec_of_entry hl
    have hcard := cfg.specs.toFinset_card_le
    rw [Config.specs, List.length_map] at hcard
    rw [hkeys, Config.specs]
    exact Nat.le_trans hcard hok.few_vips

theorem Live.pinned (hl : Live lb d) : PinnedOn ∅ d where
  vip_lt s val hval := hl.consistent.named_lt s _ (hl.consistent.entry_named s val hval)
  vip_inj s s' val val' hval hval' heq :=
    hl.consistent.named_inj s s' _ (hl.consistent.entry_named s val hval)
      (heq ▸ hl.consistent.entry_named s' val' hval')
  ring _ _ _ hid := hid.elim
  reals := hl.consistent.table.realsOk

theorem Steady.restart_ok (h : Steady cfg d lb) (hl : Live lb d) (hok : cfg.Ok)
    (interface : String) (henv : Healthy env) : (apply env cfg d { interface }).res = .ok () :=
  (h.fits hl hok interface).apply_ok henv (.restarted interface rfl (Live.pinned hl)) rfl hok

theorem Intact.hitless {cfg : ValidConfig} (h : Intact cfg.toConfig d lb) :
    Hitless cfg d lb := by
  intro interface env henv
  have hc := h.live.consistent
  have husable : Usable { interface } d := .restarted interface rfl (Live.pinned h.live)
  have hspec : wp ((Op.apply cfg).run env) _ _ _ d { interface } :=
    apply_spec henv cfg.ok husable.startable
  have hguard : Guarded (Invisible d) d ((Op.apply cfg).run env d { interface }).log :=
    hspec.1.mono fun d₁ w hw => h.apply_invisible cfg.ok hw
  have hview : ∀ log, log <+: ((Op.apply cfg).run env d { interface }).log →
      SameView d (replay d log) := fun log hlog =>
    (Guarded.keeps (hguard.mono fun d₁ w hw => hw.1) (.refl d)).at_cut (.refl d) hlog
  refine ⟨fun log hlog => ⟨hview log hlog, fun x dp p => (hview log hlog).pick_eq x dp p⟩,
    fun w hw dp => ?_, fun hok => ?_, h.restart_ok h.live cfg.ok interface⟩
  · have hno := Guarded.of_mem (hguard.mono fun d₁ w hw => hw.2) w hw
    exact dp.reset_eq hno.1 hno.2
  · have happ := hspec.of_ok hok
    have hsettled := happ.settled husable
    have hsame := hview _ List.prefix_rfl
    refine ⟨fun spec v hv => ?_, fun a => Option.ext fun id => ?_⟩
    · obtain ⟨v', hv'⟩ := OrdMap.mem_iff.mp (((happ.vips cfg.ok).1 spec).mpr
        ((h.specs spec).mp (OrdMap.mem_iff.mpr ⟨v, hv⟩)))
      have hentry := hsettled.entry_of_vip spec v' hv'
      rw [hsame.vipMap, h.entry spec v hv] at hentry
      exact ⟨v', hv', (VipValue.mk.inj (Option.some.inj hentry)).1.symm⟩
    · rw [hsettled.consistent.table.idOf_iff, hc.table.idOf_iff, hsame.reals]

/-- The new daemon leaves what the configuration says, so what it must not change was there. -/
theorem Hitless.tidy {cfg : ValidConfig} (h : Hitless cfg d lb)
    (hsteady : Steady cfg.toConfig d lb) (hl : Live lb d) : Tidy cfg.toConfig d lb := by
  have henv := quietEnv_healthy
  have husable : Usable { interface := "eth0" } d := .restarted "eth0" rfl (Live.pinned hl)
  have hspec : wp ((Op.apply cfg).run quietEnv) _ _ _ d { interface := "eth0" } :=
    apply_spec henv.arrayOk cfg.ok husable.startable
  have happ := hspec.of_ok (hsteady.restart_ok hl cfg.ok "eth0" henv)
  have hrec := applied_reconciled happ husable cfg.ok
  have hview := ((h "eth0" quietEnv henv.arrayOk).1 _ List.prefix_rfl).1
  refine ⟨fun s v hv => ?_, fun id hne => ?_⟩
  · obtain ⟨vc, hvc, rfl⟩ := List.mem_map.mp ((hsteady.specs s).mp (OrdMap.mem_iff.mpr ⟨v, hv⟩))
    obtain ⟨u, hu, hflags, -⟩ := hsteady.vip vc hvc
    obtain rfl : u = v := Option.some.inj (hu.symm.trans hv)
    obtain ⟨v', hv', hflags', -⟩ := hrec.vip vc hvc
    have hentry := (hrec.vipMap vc.spec _).mpr ⟨v', hv', rfl⟩
    rw [hview.vipMap] at hentry
    have hid : v'.id = u.id := hl.consistent.named_fun _ _ _
      (hl.consistent.entry_named _ _ hentry) (.inl ⟨u, hv, rfl⟩)
    rw [hentry, hid, hflags, hflags']
  · exact (hrec.reals _ hne).mp ⟨id, by rw [hview.reals]⟩

/-! ## A state to restart from -/

theorem fullBackends_new {lb₀ lb₁ lb₂ : LbState} {d₀ d₁ : CtlMaps} {hashChanged : Bool}
    {spec : VipSpec} {flags : UInt32} {want : ExtTreeMap UInt32 Nat} {v : Vip}
    (hstep : VipStep env hashChanged lb₀ d₀ spec flags want v d₁ lb₁)
    (hnone : lb₀.vips[spec]? = none) (hentry : ∀ a ∈ want, ∃ e, lb₂.reals.entry a = some e ∧
      lb₁.reals.entry a = some e ∧ e.mac.isSome) : lb₂.fullBackends v = lb₁.backendsOf v := by
  rw [fullBackends_eq, backendsOf_eq]
  congr 2
  apply ExtTreeMap.ext_getElem?
  intro a
  simp only [ExtTreeMap.getElem?_map]
  have hmember := hstep.member a
  simp only [membersAt, hnone, Option.elim_none, ExtTreeMap.getElem?_empty] at hmember
  cases hw : want[a]? with
  | none =>
      rw [hw, MemberStep] at hmember
      rw [hmember]
      rfl
  | some w =>
      rw [hw] at hmember
      obtain ⟨m, hm, hafter⟩ := hmember
      obtain ⟨e, he₂, he₁, hmac⟩ := hentry a (OrdMap.mem_iff.mpr ⟨w, hw⟩)
      have hid : lb₂.reals.idOf a = lb₁.reals.idOf a := by
        rw [RealTable.idOf_eq, RealTable.idOf_eq, he₂, he₁]
      rw [hm, Option.map_some, Option.map_some, backendOf_new hafter
        (by rwa [RealTable.macOf_eq, he₁, Option.bind_some]), hid]
      obtain ⟨i, r, rfl⟩ := hafter
      rfl

/-- After the first `apply` of a single VIP, with every neighbour answering, its ring is
that of all its members. -/
theorem steady_of_single {vc : VipConfig}
    (happ : Applied env cfg { interface } CtlMaps.empty d' lb') (hok : cfg.Ok)
    (hvips : cfg.vips = [vc]) (hanswer : ∀ spec a ip, (env.macLookup spec a ip).isSome) :
    Steady cfg d' lb' := by
  have hrec := applied_reconciled happ (.running (settled_empty interface)) hok
  obtain ⟨z, ⟨z₁, hopen, hpath⟩, hend⟩ := happ
  have hnone : z₁.2.vips[vc.spec]? = none := by simp [hopen.vips]
  obtain ⟨d₀, lb₀, hstart, hdrop⟩ := hopen
  rw [keys_new] at hdrop
  obtain rfl : z₁ = (d₀, lb₀) := hdrop
  rw [hvips] at hpath
  obtain ⟨z₂, ⟨v', hstep⟩, rfl⟩ := hpath
  replace hend : Finished z.2 z.1 d' lb' := by simpa using hend
  obtain ⟨mac, -, hd₀⟩ := hstart.maps
  -- every member has joined just now, and its neighbour has answered
  have hentry : ∀ a ∈ wantOf vc, ∃ e, lb'.reals.entry a = some e ∧ z.2.reals.entry a = some e ∧
      e.mac.isSome := by
    intro a ha
    obtain ⟨e, he, hjoin⟩ := hstep.entry_new a ha (by simp [membersAt, hnone])
    refine ⟨e, ?_, he, ?_⟩
    · rw [hend.entry, he]
      simp [Option.filter, hjoin.refs]
    · rw [hjoin.mac]
      have hans := hanswer vc.spec a (lb₀.nextHop.getD a)
      simp [answer, hans]
  have hvip : ∀ {s : VipSpec} {v : Vip}, lb'.vips[s]? = some v → s = vc.spec ∧ v = v' := by
    intro s v hv
    have hs : s = vc.spec := by
      have hin := (hrec.specs s).mp (OrdMap.mem_iff.mpr ⟨v, hv⟩)
      simpa [Config.specs, hvips] using hin
    obtain ⟨t, rfl⟩ := hend.state
    rw [hs, hstep.vip] at hv
    exact ⟨hs, (Option.some.inj hv).symm⟩
  refine ⟨hrec.specs, hrec.vip, ⟨mac, ?_⟩, fun s v hv a ha => ?_, fun s v hv => ?_⟩
  · rw [hend.config, hstep.config, hd₀]
  · obtain ⟨-, rfl⟩ := hvip hv
    obtain ⟨e, he, -, hmac⟩ := hentry a (hstep.mem_members.mp ha)
    rwa [RealTable.macOf_eq, he, Option.bind_some]
  · obtain ⟨rfl, rfl⟩ := hvip hv
    obtain ⟨slots, hslots, hrings⟩ := hstep.ring (by simp [touched, hnone])
    have hz : z.2.vips[vc.spec]? = some v := hstep.vip
    refine ⟨_, by rw [hend.rings _ v hz, hrings, Function.update_self], ?_⟩
    rw [fullBackends_new hstep hnone hentry]
    have hhash : lb₀.hash = cfg.hash := by
      obtain ⟨t, ids, rfl⟩ := hstart.state
      rfl
    rwa [← hhash]

end System

namespace Serving

/-- A restart is hitless exactly when no exception has left a VIP without its entry or an
address without a VIP. -/
theorem restart_hitless_iff {s : Serving} (h : Reachable s) (cfg : ValidConfig)
    (hsteady : System.Steady cfg.toConfig s.ctl s.lb) :
    System.Hitless cfg s.ctl s.lb ↔ System.Tidy cfg.toConfig s.ctl s.lb :=
  ⟨fun hhit => hhit.tidy hsteady h.live,
    fun htidy => System.Intact.hitless ⟨hsteady, htidy, h.live⟩⟩

theorem restart_hitless_iff_sample :
    ∃ s, Reachable s ∧ System.Steady System.sampleConfig.toConfig s.ctl s.lb ∧
      System.Hitless System.sampleConfig s.ctl s.lb := by
  obtain ⟨s, hs, happ⟩ := sample_reachable
  have hu := (System.init_inv "eth0").usable rfl
  have hsteady := System.steady_of_single happ System.sampleConfig.ok rfl fun _ _ _ => rfl
  have hrec := System.applied_reconciled happ hu System.sampleConfig.ok
  refine ⟨s, hs, hsteady, (restart_hitless_iff hs System.sampleConfig hsteady).mpr ⟨?_, ?_⟩⟩
  · exact (happ.settled hu).entry_of_vip
  · exact fun id hne => (hrec.reals _ hne).mp ⟨id, rfl⟩

/-! ## An address without a VIP -/

/-- `sampleConfig` is in force, and a second address is still in the table. -/
structure Leaked (s : Serving) (v : Vip) (m : Member) (e e' : RealTable.Entry)
    (slots : List Nat) : Prop where
  reachable : Reachable s
  inForce : InForce System.sampleConfig.toConfig s.lb
  only : ∀ (x : VipSpec) (u : Vip), s.lb.vips[x]? = some u → u = v
  member : v.members[(0x1500000a : UInt32)]? = some m
  members : ∀ x ∈ v.members, x = 0x1500000a
  weight : m.weight = 1
  entry : s.lb.reals.entry 0x1500000a = some e
  mac : e.mac.isSome
  single : s.Single sampleFlow.vip 0x1500000a e.id .maglev ⟨v.id, v.flags⟩ slots
  other : s.lb.reals.entry 0x1600000a = some e'
  otherMac : e'.mac.isSome

theorem FirstReal.stuck {s s' : Serving} {spec : VipSpec} {v v' : Vip} {a : UInt32}
    {e : RealTable.Entry} (h : FirstReal s spec v a s' v' e) (hb : Bare s spec v)
    (hr : Reachable s') : ∃ u, u.id = v'.id ∧ u.flags = v'.flags ∧
      Bare (s'.after ringlessEnv (.delReal spec a)) spec u ∧
      (s'.after ringlessEnv (.delReal spec a)).lb =
        { s'.lb with vips := s'.lb.vips.insert spec u } := by
  obtain ⟨-, hafter⟩ := hr.real_stuck h.step.vip ((h.mem a).mpr rfl)
    (rfl : ringlessEnv.ringFault v'.id = _)
  obtain ⟨slots, hsingle⟩ := h.single hb
  refine ⟨s'.lb.markInRing { v' with members := v'.members.erase a }, rfl, rfl, ?_,
    by rw [hafter]⟩
  rw [hafter]
  refine ⟨ExtTreeMap.getElem?_insert_self, ?_, ?_⟩
  · rw [hsingle.entry, h.step.flags_eq.symm, ← h.step.id_of_vip hb.vip]
    rfl
  · rw [ExtTreeMap.eq_empty_iff_forall_not_mem]
    intro x hx
    have hx : x ∈ v'.members.erase a := by simpa [markInRing] using hx
    obtain ⟨hne, hin⟩ := ExtTreeMap.mem_erase.mp hx
    exact hne (by simp [(h.mem x).mp hin])

theorem Leaked.of_real {s s' : Serving} {u v : Vip} {e e' : RealTable.Entry}
    (hb : Bare s sampleFlow.vip u) (hreal : FirstReal s sampleFlow.vip u 0x1500000a s' v e)
    (hr : Reachable s') (honly : ∀ x : VipSpec, x ≠ sampleFlow.vip → s.lb.vips[x]? = none)
    (hflags : u.flags = vipFlags false) (hhash : s.lb.hash = .maglev)
    (hhop : s.lb.nextHop = none) (hhealth : s.lb.healthEnabled = true)
    (hother : s.lb.reals.entry 0x1600000a = some e') (hmac : e'.mac.isSome) :
    ∃ m slots, Leaked s' v m e e' slots := by
  obtain ⟨slots, hsingle⟩ := hreal.single hb
  obtain ⟨incarnation, inRing, hm⟩ := hreal.member hb
  have hvip : ∀ (x : VipSpec) (w : Vip), s'.lb.vips[x]? = some w →
      x = sampleFlow.vip ∧ w = v := by
    intro x w hw
    by_cases hx : x = sampleFlow.vip
    · rw [hx, hreal.step.vip] at hw
      exact ⟨hx, (Option.some.inj hw).symm⟩
    · rw [hreal.step.vip_else hx, honly x hx] at hw
      cases hw
  refine ⟨_, slots, hr, ⟨hr.live.initialized, hreal.step.hash.trans hhash,
    hreal.step.settings.1.trans hhop, hreal.step.settings.2.trans hhealth, ?_, ?_⟩,
    fun x w hw => (hvip x w hw).2, hm, fun x => (hreal.mem x).mp, rfl, hreal.entry, hreal.mac,
    ?_, (hreal.entry_else _ (by decide)).trans hother, hmac⟩
  · intro x hx
    obtain ⟨w, hw⟩ := OrdMap.mem_iff.mp hx
    simp [Config.specs, System.sampleConfig, (hvip x w hw).1]
  · intro vc hvc
    obtain rfl := List.mem_singleton.mp hvc
    refine ⟨v, hreal.step.vip, hreal.step.flags_eq.trans hflags, fun a w => ?_⟩
    constructor
    · rintro ⟨m, hm', rfl⟩
      obtain rfl := (hreal.mem a).mp (OrdMap.mem_iff.mpr ⟨m, hm'⟩)
      rw [hm] at hm'
      exact ⟨_, List.mem_singleton.mpr rfl, rfl, by rw [← Option.some.inj hm']; rfl⟩
    · rintro ⟨r, hr, rfl, rfl⟩
      obtain rfl := List.mem_singleton.mp hr
      exact ⟨_, hm, rfl⟩
  · rw [hhash] at hsingle
    rw [hreal.step.id_of_vip hb.vip, hreal.step.flags_eq]
    exact hsingle

/-- `add_vip`, `add_real`, a `del_real` that throws, and `add_real` of another address. -/
theorem Idle.leaked {s : Serving} (h : Idle s) (hforce : InForce idleConfig.toConfig s.lb) :
    ∃ xs s' v m e e' slots, Path Step xs s s' ∧ Leaked s' v m e e' slots := by
  have henv := System.answeringEnv_healthy
  have hnew : sampleFlow.vip ∉ s.lb.vips := by simp [h.vips]
  obtain ⟨k, hk⟩ := exists_vipId (fun x (_ : x ≠ sampleFlow.vip) => by simp [h.vips])
    h.reachable.live.adopted
  obtain ⟨v₁, -, hstep₁, hreals₁⟩ := h.reachable.vip_added henv hnew hk false
  have hr₁ := h.reachable.after henv.arrayOk (.addVip sampleFlow.vip false)
  have hbare₁ := bare_added hnew hstep₁
  have hcard₁ : (s.after System.answeringEnv (.addVip sampleFlow.vip false)).lb.reals.used.card =
      0 := by rw [hreals₁, h.used, Finset.card_empty]
  obtain ⟨v₂, e', hfirst⟩ := hbare₁.real_added hr₁ (by decide : (0x1600000a : UInt32) ≠ 0)
    (hreals₁ ▸ h.entry _) (by rw [hcard₁]; decide)
  have hr₂ := hr₁.after henv.arrayOk (.addReal sampleFlow.vip 0x1600000a 1)
  obtain ⟨u, hid, hflags, hbare₃, hlb₃⟩ := hfirst.stuck hbare₁ hr₂
  have hr₃ := hr₂.after ringlessEnv_arrayOk (.delReal sampleFlow.vip 0x1600000a)
  have hcard₂ := hfirst.used_card
  rw [hcard₁] at hcard₂
  obtain ⟨v₄, e, hsecond⟩ := hbare₃.real_added hr₃ (by decide : (0x1500000a : UInt32) ≠ 0)
    (by rw [hlb₃, hfirst.entry_else _ (by decide), hreals₁, h.entry])
    (by rw [hlb₃]; exact Nat.lt_of_le_of_lt hcard₂ (by decide))
  have honly : ∀ x : VipSpec, x ≠ sampleFlow.vip → (((s.after System.answeringEnv
      (.addVip sampleFlow.vip false)).after System.answeringEnv
      (.addReal sampleFlow.vip 0x1600000a 1)).after ringlessEnv
      (.delReal sampleFlow.vip 0x1600000a)).lb.vips[x]? = none := by
    intro x hx
    rw [hlb₃, OrdMap.getElem?_insert, if_neg hx, hfirst.step.vip_else hx, hstep₁.vip_else hx,
      h.vips]
    exact ExtTreeMap.getElem?_empty
  obtain ⟨m, slots, hleaked⟩ := Leaked.of_real hbare₃ hsecond
    (hr₃.after henv.arrayOk (.addReal sampleFlow.vip 0x1500000a 1)) honly
    (hflags.trans (hfirst.step.flags_eq.trans hstep₁.flags_eq))
    (by rw [hlb₃]; exact hfirst.step.hash.trans (hstep₁.hash.trans hforce.hash))
    (by rw [hlb₃]; exact hfirst.step.settings.1.trans (hstep₁.settings.1.trans hforce.nextHop))
    (by
      rw [hlb₃]
      exact hfirst.step.settings.2.trans (hstep₁.settings.2.trans hforce.healthEnabled))
    (by rw [hlb₃]; exact hfirst.entry) hfirst.mac
  exact ⟨[(System.answeringEnv, .addVip sampleFlow.vip false),
      (System.answeringEnv, .addReal sampleFlow.vip 0x1600000a 1),
      (ringlessEnv, .delReal sampleFlow.vip 0x1600000a),
      (System.answeringEnv, .addReal sampleFlow.vip 0x1500000a 1)], _, v₄, m, e, e', slots,
    ⟨_, ⟨henv.arrayOk, rfl⟩, _, ⟨henv.arrayOk, rfl⟩, _, ⟨ringlessEnv_arrayOk, rfl⟩,
      _, ⟨henv.arrayOk, rfl⟩, rfl⟩, hleaked⟩

theorem Leaked.applied {s : Serving} {v : Vip} {m : Member} {e e' : RealTable.Entry}
    {slots : List Nat} (h : Leaked s v m e e' slots) :
    ((Op.apply System.sampleConfig).run System.quietEnv s.ctl s.lb).res = .ok () ∧
      (s.after System.quietEnv (.apply System.sampleConfig)).lb = s.lb ∧
      (s.after System.quietEnv (.apply System.sampleConfig)).ctl.rings = s.ctl.rings := by
  have hspec : wp ((Op.apply System.sampleConfig).run System.quietEnv) _ _ _ s.ctl s.lb :=
    h.inForce.apply_again System.sampleConfig.ok
  have hrings : (replay s.ctl
      ((Op.apply System.sampleConfig).run System.quietEnv s.ctl s.lb).log).rings =
      s.ctl.rings := by
    have hguard : Guarded (fun d w => d.rings = s.ctl.rings →
        (Durable.write d w).rings = s.ctl.rings) s.ctl _ := hspec.1.mono fun d w hw hd => by
      obtain ⟨value, rfl⟩ := hw
      exact hd
    exact Guarded.at_cut (C := fun d : CtlMaps => d.rings = s.ctl.rings)
      (Guarded.keeps (C := fun d : CtlMaps => d.rings = s.ctl.rings) hguard rfl) rfl
      List.prefix_rfl
  cases hres : ((Op.apply System.sampleConfig).run System.quietEnv s.ctl s.lb).res with
  | ok u => exact ⟨rfl, hspec.of_ok hres, hrings⟩
  | error err => exact absurd System.quietEnv_healthy (hspec.of_error hres).2

theorem Leaked.steady {s : Serving} {v : Vip} {m : Member} {e e' : RealTable.Entry}
    {slots : List Nat} (h : Leaked s v m e e' slots) :
    ((Op.apply System.sampleConfig).run System.quietEnv s.ctl s.lb).res = .ok () ∧
      System.Steady System.sampleConfig.toConfig
        (s.after System.quietEnv (.apply System.sampleConfig)).ctl
        (s.after System.quietEnv (.apply System.sampleConfig)).lb := by
  obtain ⟨hok, hlb, hrings⟩ := h.applied
  have happ := (apply_spec System.quietEnv_healthy.arrayOk System.sampleConfig.ok
    (.running h.reachable.live.consistent)).of_ok hok
  rw [hlb]
  refine ⟨hok, fun x => ⟨h.inForce.specs x, fun hx => ?_⟩, fun vc hvc => ?_, happ.config,
    fun x u hu a ha => ?_, fun x u hu => ?_⟩
  · obtain ⟨vc, hvc, rfl⟩ := List.mem_map.mp hx
    obtain ⟨u, hu, -⟩ := h.inForce.vip vc hvc
    exact OrdMap.mem_iff.mpr ⟨u, hu⟩
  · obtain ⟨u, hu, hconf⟩ := h.inForce.vip vc hvc
    exact ⟨u, hu, hconf.flags_eq, hconf.member_iff⟩
  · obtain rfl := h.only x u hu
    obtain rfl := h.members a ha
    rw [RealTable.macOf_eq, h.entry, Option.bind_some]
    exact h.mac
  · obtain rfl := h.only x u hu
    refine ⟨_, by rw [hrings]; exact h.single.ring, ?_⟩
    have hfull : s.lb.fullBackends u = [⟨e.id, 0x1500000a, 1⟩] := by
      rw [fullBackends, OrdMap.toList_eq_singleton h.member h.members]
      simp [RealTable.idOf_eq, h.entry, h.weight]
    rw [hfull]
    exact h.single.built

/-- A `del_real` has thrown and the configuration has been applied since, with success.  The
address that no VIP has any more is there, with its MAC, until a restart removes it. -/
theorem leaked_real_cleared : ∃ s, Reachable s ∧
    ((Op.apply System.sampleConfig).run System.quietEnv s.ctl s.lb).res = .ok () ∧
    let s' := s.after System.quietEnv (.apply System.sampleConfig)
    System.Steady System.sampleConfig.toConfig s'.ctl s'.lb ∧
      (∃ id, s'.ctl.reals id = 0x1600000a ∧ s'.ctl.neigh id ≠ Mac.zero) ∧
      ¬System.Hitless System.sampleConfig s'.ctl s'.lb := by
  have henv := System.answeringEnv_healthy
  have hpinned := CtlMaps.empty_pinned.on ∅
  obtain ⟨-, s, v, m, e, e', slots, -, h⟩ := (idle_started henv "eth0").leaked
    ((started_applied hpinned henv.arrayOk (idleConfig_ok henv "eth0")).inForce idleConfig.ok)
  obtain ⟨hok, hsteady⟩ := h.steady
  have hlive := (h.reachable.after System.quietEnv_healthy.arrayOk
    (.apply System.sampleConfig)).live
  have ht := hlive.consistent.table
  rw [h.applied.2.1] at ht
  have hreal := ht.mirror.reals_entry ht.wf h.other
  refine ⟨s, h.reachable, hok, hsteady, ⟨e'.id, hreal, ?_⟩, fun hhit => ?_⟩
  · obtain ⟨mac, hmac⟩ := Option.isSome_iff_exists.mp h.otherMac
    rw [ht.mirror.neigh_entry ht.wf h.other, hmac]
    exact ht.wf.entry_mac_ne h.other hmac
  · have htidy := hhit.tidy hsteady hlive
    have hin := htidy.reals e'.id (by rw [hreal]; decide)
    rw [hreal] at hin
    exact absurd hin (by decide)

end Serving

end PacketBalance
