import PacketBalance.LbState.Along
/-!
# How much room an `apply` needs

`apply` moves from the old VIPs to the configured ones one at a time, so in the middle
it holds the new addresses of the VIPs that have had their turn and the old ones of
the rest; its first call keeps everything it adopted besides.  `Fits` bounds what is
in use at every such moment, whatever the order of the VIPs, and is exactly what every
order needs in order to succeed.
-/

namespace PacketBalance

open WriteLog Std

def CtlMaps.addrs (d : CtlMaps) : Finset UInt32 :=
  ((List.range pbMaxReals).map d.reals).toFinset.erase 0

theorem CtlMaps.RealsOk.mem_addrs {d : CtlMaps} (h : d.RealsOk) {a : UInt32} :
    a ∈ d.addrs ↔ a ≠ 0 ∧ ∃ id, d.reals id = a := by
  simp only [CtlMaps.addrs, Finset.mem_erase, List.mem_toFinset, List.mem_map, List.mem_range]
  constructor
  · rintro ⟨hne, id, -, hid⟩
    exact ⟨hne, id, hid⟩
  · rintro ⟨hne, id, rfl⟩
    exact ⟨hne, id, (h.range id hne).2, rfl⟩

theorem RealTable.Sound.mem_used {t : RealTable} {d : CtlMaps} (h : t.Sound d) {a : UInt32} :
    a ∈ t.used ↔ a ∈ d.addrs := by
  rw [h.realsOk.mem_addrs, RealTable.mem_used]
  constructor
  · rintro ⟨e, he⟩
    exact ⟨h.wf.entry_ne_zero he, e.id, h.mirror.reals_entry h.wf he⟩
  · rintro ⟨hne, id, hid⟩
    refine ⟨⟨id, (t.slots id).refs, (t.slots id).mac⟩, ?_⟩
    rw [RealTable.entry_eq_some h.wf, ← hid, h.mirror.reals]
    exact ⟨by rwa [← h.mirror.reals, hid], rfl⟩

namespace LbState

variable {lb : LbState} {d : CtlMaps} {env : Env} {cfg : Config}
variable {done : List VipConfig} {z : CtlMaps × LbState}

/-! ## The room in use -/

/-- Addresses that are in `reals` and belong to no VIP of the model: what a new daemon
has yet to claim. -/
def orphans (lb : LbState) (d : CtlMaps) : Finset UInt32 :=
  d.addrs.filter fun a => holders lb.vips a = ∅

/-- The addresses in use when `vc` has its turn after `done` and has taken its own. -/
def peak (lb : LbState) (d : CtlMaps) (cfg : Config) (done : List VipConfig)
    (vc : VipConfig) : Finset UInt32 :=
  lb.orphans d ∪ (done.flatMap fun u => u.reals.map RealConfig.addrBe).toFinset ∪
    ((cfg.vips.filter fun u => u.spec ∉ done.map VipConfig.spec).flatMap fun u =>
      (lb.membersAt u.spec).keys).toFinset ∪ vc.addrs

/-- There is room for every moment of an `apply`, in whatever order the VIPs are
listed; on the first one, there are ids for the pinned and the configured VIPs
together. -/
structure Fits (lb : LbState) (d : CtlMaps) (cfg : Config) : Prop where
  reals : ∀ done vc rest, (done ++ vc :: rest).Perm cfg.vips →
    (lb.peak d cfg done vc).card ≤ pbMaxReals - 1
  vips : lb.initialized = false → (d.vipMap.keys ++ cfg.specs).toFinset.card ≤ pbMaxVips

theorem mem_peak {vc : VipConfig} {a : UInt32} :
    a ∈ lb.peak d cfg done vc ↔ a ∈ lb.orphans d ∨ (∃ u ∈ done, a ∈ u.addrs) ∨
      (∃ u ∈ cfg.vips, u.spec ∉ done.map VipConfig.spec ∧ a ∈ lb.membersAt u.spec) ∨
      a ∈ vc.addrs := by
  simp only [peak, Finset.mem_union, List.mem_toFinset, List.mem_flatMap, List.mem_filter,
    ExtTreeMap.mem_keys, VipConfig.addrs, decide_eq_true_eq, and_assoc, or_assoc]

theorem Settled.mem_used (hs : Settled lb d) {a : UInt32} :
    a ∈ lb.reals.used ↔ ∃ (s : VipSpec) (v : Vip), lb.vips[s]? = some v ∧ a ∈ v.members := by
  rw [RealTable.mem_used]
  constructor
  · rintro ⟨e, he⟩
    have hpos := hs.counted a e he
    rw [hs.refs_of_entry he] at hpos
    obtain ⟨s, hmem⟩ := Finset.card_pos.mp hpos
    exact ⟨s, mem_holders.mp hmem⟩
  · rintro ⟨s, v, hv, ha⟩
    exact hs.consistent.member_entry hv ha

theorem Settled.orphans_eq (hs : Settled lb d) : lb.orphans d = ∅ := by
  rw [orphans, Finset.filter_eq_empty_iff]
  intro a ha
  obtain ⟨s, v, hv, hmem⟩ := hs.mem_used.mp (hs.consistent.table.mem_used.mpr ha)
  exact Finset.ne_empty_of_mem (mem_holders.mpr ⟨v, hv, hmem⟩)

theorem Along.mem_used_running (h : Along env cfg lb d done z) (hs : Settled lb d)
    (hok : cfg.Ok) (hpre : done <+: cfg.vips) {a : UInt32} :
    a ∈ z.2.reals.used ↔ (∃ u ∈ done, a ∈ u.addrs) ∨
      ∃ u ∈ cfg.vips, u.spec ∉ done.map VipConfig.spec ∧ a ∈ lb.membersAt u.spec := by
  have hused : a ∈ z.2.reals.used ↔ ∃ s, s ∈ holders z.2.vips a := by
    simp only [(h.settled hs).mem_used, mem_holders]
  rw [hused]
  simp only [h.holder_iff hok hpre]
  constructor
  · rintro ⟨s, ⟨u, hu, -, ha⟩ | ⟨u, hu, rfl, hin, ha⟩⟩
    · exact .inl ⟨u, hu, ha⟩
    · exact .inr ⟨u, hu, hin, ha⟩
  · rintro (⟨u, hu, ha⟩ | ⟨u, hu, hin, ha⟩)
    · exact ⟨u.spec, .inl ⟨u, hu, rfl, ha⟩⟩
    · exact ⟨u.spec, .inr ⟨u, hu, rfl, hin, ha⟩⟩

theorem Along.mem_used_restarted {interface : String}
    (h : Along env cfg { interface } d done z) (hok : cfg.Ok) (hpre : done <+: cfg.vips)
    {a : UInt32} :
    a ∈ z.2.reals.used ↔ a ∈ d.addrs ∨ ∃ u ∈ done, a ∈ u.addrs := by
  obtain ⟨z₁, hopen, hpath⟩ := h
  refine (hpath.invariant (I := fun done z =>
    Path (VipR env (hashChanges { interface } cfg)) done z₁ z ∧
      ∀ a, a ∈ z.2.reals.used ↔ a ∈ d.addrs ∨ ∃ u ∈ done, a ∈ u.addrs)
    ⟨rfl, fun a => ?_⟩ ?_).2 a
  · obtain ⟨d₀, lb₀, hstart, hdrop⟩ := hopen
    rw [keys_new] at hdrop
    obtain rfl : z₁ = (d₀, lb₀) := hdrop
    obtain ⟨mac, -, hd₀⟩ := hstart.maps
    rw [hstart.consistent.table.mem_used]
    simp [hd₀, CtlMaps.addrs]
  · rintro before vc rest hdone z z' ⟨hbefore, hused⟩ hround
    refine ⟨hbefore.snoc hround, fun a => ?_⟩
    obtain ⟨v', hstep⟩ := hround
    have hvc : vc.Ok := hok.vip_ok vc (hpre.subset (by simp [hdone]))
    -- a VIP that has its turn is new, so addresses only ever come in
    have hnew : vc.spec ∉ z.2.vips := by
      obtain ⟨later, hlater⟩ := hpre
      have hvips : cfg.vips = before ++ vc :: (rest ++ later) := by simp [← hlater, hdone]
      exact Along.new_vip ⟨z₁, hopen, hbefore⟩ hok hvips
    have hnone : ∀ a, a ∉ z.2.membersAt vc.spec := by simp [membersAt_new hnew]
    by_cases ha : a ∈ vc.addrs
    · obtain ⟨e, he, -⟩ := hstep.entry_new a ((mem_wantOf hvc).mpr ha) (hnone a)
      exact iff_of_true (RealTable.mem_used.mpr ⟨e, he⟩) (.inr ⟨vc, by simp, ha⟩)
    · have hsame := hstep.entry_same a (iff_of_false (mt (mem_wantOf hvc).mp ha) (hnone a))
      rw [RealTable.mem_used, hsame, ← RealTable.mem_used, hused]
      simp [or_and_right, exists_or, ha]

theorem orphans_new (interface : String) (d : CtlMaps) :
    orphans { interface } d = d.addrs := by
  simp [orphans, holders]

theorem Along.used_eq_peak (h : Along env cfg lb d done z) (hu : Usable lb d) (hok : cfg.Ok)
    {vc : VipConfig} {rest : List VipConfig} (hvips : cfg.vips = done ++ vc :: rest) :
    z.2.reals.used ∪ (wantOf vc).keys.toFinset = lb.peak d cfg done vc := by
  have hpre : done <+: cfg.vips := ⟨_, hvips.symm⟩
  have hvc : vc.Ok := hok.vip_ok vc (by simp [hvips])
  ext a
  rw [Finset.mem_union, mem_peak, List.mem_toFinset, ExtTreeMap.mem_keys, mem_wantOf hvc]
  cases hu with
  | running hs =>
      rw [h.mem_used_running hs hok hpre, hs.orphans_eq]
      simp [or_assoc]
  | restarted interface hlb hd =>
      subst hlb
      rw [h.mem_used_restarted hok hpre, orphans_new]
      simp [membersAt, or_assoc]

theorem peak_reorder (cfg' : Config) (hperm : cfg'.vips.Perm cfg.vips) (vc : VipConfig) :
    lb.peak d cfg' done vc = lb.peak d cfg done vc := by
  ext a
  simp only [mem_peak, hperm.mem_iff]

theorem Fits.reorder (h : lb.Fits d cfg) {cfg' : Config} (hperm : cfg'.vips.Perm cfg.vips) :
    lb.Fits d cfg' where
  reals done vc rest hdone := by
    rw [peak_reorder cfg' hperm]
    exact h.reals done vc rest (hdone.trans hperm)
  vips hfirst := by
    have hspecs : cfg'.specs.Perm cfg.specs := hperm.map _
    rw [List.toFinset_eq_of_perm _ _ (hspecs.append_left _)]
    exact h.vips hfirst

/-! ## The ids in use -/

def named (lb : LbState) : Finset VipSpec :=
  (lb.vips.keys ++ lb.adoptedVipIds.keys).toFinset

theorem mem_named {s : VipSpec} : s ∈ lb.named ↔ ∃ id, lb.Named s id := by
  simp only [named, List.mem_toFinset, List.mem_append, ExtTreeMap.mem_keys, OrdMap.mem_iff,
    Named]
  constructor
  · rintro (⟨v, hv⟩ | ⟨id, hid⟩)
    · exact ⟨v.id, .inl ⟨v, hv, rfl⟩⟩
    · exact ⟨id, .inr hid⟩
  · rintro ⟨id, ⟨v, hv, -⟩ | hid⟩
    · exact .inl ⟨v, hv⟩
    · exact .inr ⟨id, hid⟩

/-- Different VIPs have different ids, and there are `PB_MAX_VIPS` of them. -/
theorem Consistent.card_named (h : Consistent [] lb d) : lb.named.card ≤ pbMaxVips := by
  have hid : ∀ s ∈ lb.named, ∃ id, lb.Named s id := fun s hs => mem_named.mp hs
  choose! f hf using hid
  rw [← Finset.card_range pbMaxVips]
  refine Finset.card_le_card_of_injOn f (fun s hs => ?_) fun s hs s' hs' heq => ?_
  · exact Finset.mem_coe.mpr (Finset.mem_range.mpr (h.named_lt s _ (hf s hs)))
  · exact h.named_inj s s' _ (hf s hs) (heq ▸ hf s' hs')

theorem Consistent.named_full (h : Consistent [] lb d) (hnone : lb.allocateVipId = none) :
    pbMaxVips ≤ lb.named.card := by
  have hspec : ∀ id ∈ Finset.range pbMaxVips, ∃ s, lb.Named s id := fun id hid =>
    allocateVipId_none hnone (Finset.mem_range.mp hid)
  have : Nonempty VipSpec := ⟨⟨0, 0, 0⟩⟩
  choose! f hf using hspec
  rw [← Finset.card_range pbMaxVips]
  refine Finset.card_le_card_of_injOn f (fun id hid => ?_) fun i hi j hj heq => ?_
  · exact Finset.mem_coe.mpr (mem_named.mpr ⟨id, hf id hid⟩)
  · exact h.named_fun _ i j (hf i hi) (heq ▸ hf j hj)

theorem Along.adopted_of (h : Along env cfg lb d done z) {s : VipSpec}
    (hs : s ∈ z.2.adoptedVipIds) :
    ∃ d₀ lb₀, Start env cfg lb d d₀ lb₀ ∧ s ∈ lb₀.adoptedVipIds := by
  obtain ⟨z₁, ⟨d₀, lb₀, hstart, hdrop⟩, hpath⟩ := h
  refine ⟨d₀, lb₀, hstart, ?_⟩
  revert hs
  refine hpath.invariant (I := fun _ z => s ∈ z.2.adoptedVipIds → s ∈ lb₀.adoptedVipIds) ?_ ?_
  · obtain ⟨t, vips, hstate⟩ := (Path.drop_facts hstart.consistent hdrop).2.1
    rw [hstate]
    exact id
  · rintro before vc rest - z z' hz ⟨v', hstep⟩ hs
    obtain ⟨id, hid⟩ := OrdMap.mem_iff.mp hs
    exact hz (OrdMap.mem_iff.mpr ⟨id, hstep.adopted_of hid⟩)

theorem Along.named_sub (h : Along env cfg lb d done z) (ha : lb.adoptedVipIds = ∅)
    (hok : cfg.Ok) (hpre : done <+: cfg.vips) {s : VipSpec} (hs : s ∈ z.2.named) :
    (lb.initialized = false ∧ s ∈ d.vipMap) ∨ s ∈ cfg.specs := by
  simp only [named, List.mem_toFinset, List.mem_append, ExtTreeMap.mem_keys] at hs
  rcases hs with hs | hs
  · obtain ⟨v, hv⟩ := OrdMap.mem_iff.mp hs
    by_cases hin : s ∈ done.map VipConfig.spec
    · exact .inr ((hpre.map VipConfig.spec).subset hin)
    · rw [(h.vips hok hpre).1 s hin] at hv
      split_ifs at hv with hspec
      exact .inr hspec
  · obtain ⟨d₀, lb₀, hstart, hs₀⟩ := h.adopted_of hs
    cases hinit : lb.initialized with
    | true =>
        rw [(hstart.running hinit).2, ha] at hs₀
        simp at hs₀
    | false =>
        obtain ⟨id, hid⟩ := OrdMap.mem_iff.mp hs₀
        rw [hstart.pinned hinit, ha, ExtTreeMap.getElem?_empty, Option.or_none] at hid
        obtain ⟨val, hval, -⟩ := Option.map_eq_some_iff.mp hid
        exact .inl ⟨rfl, OrdMap.mem_iff.mpr ⟨val, hval⟩⟩

/-- The first `apply` keeps the ids of all pinned VIPs and adds those it has
created. -/
theorem Along.named_sup (h : Along env cfg lb d done z) (hfirst : lb.initialized = false)
    {s : VipSpec} (hs : s ∈ d.vipMap ∨ s ∈ done.map VipConfig.spec) : s ∈ z.2.named := by
  simp only [named, List.mem_toFinset, List.mem_append, ExtTreeMap.mem_keys]
  revert hs
  obtain ⟨z₁, ⟨d₀, lb₀, hstart, hdrop⟩, hpath⟩ := h
  refine hpath.invariant (I := fun done z => s ∈ d.vipMap ∨ s ∈ done.map VipConfig.spec →
    s ∈ z.2.vips ∨ s ∈ z.2.adoptedVipIds) ?_ ?_
  · rintro (hs | hs)
    · obtain ⟨val, hval⟩ := OrdMap.mem_iff.mp hs
      obtain ⟨t, vips, hstate⟩ := (Path.drop_facts hstart.consistent hdrop).2.1
      rw [hstate]
      refine .inr (OrdMap.mem_iff.mpr ⟨val.vipId, ?_⟩)
      rw [hstart.pinned hfirst, hval]
      rfl
    · simp at hs
  · rintro before vc rest - z z' hz ⟨v', hstep⟩ hs
    by_cases hspec : s = vc.spec
    · exact .inl (OrdMap.mem_iff.mpr ⟨v', hspec ▸ hstep.vip⟩)
    · have hold := hz (by simpa [hspec] using hs)
      simp only [OrdMap.mem_iff, hstep.vip_else hspec, hstep.adopted, hspec, false_and,
        if_false] at hold ⊢
      exact hold

/-! ## Enough room -/

theorem NoRoom.not_fits {err : LbError} (h : NoRoom env cfg lb d err) (hu : Usable lb d)
    (ha : lb.adoptedVipIds = ∅) (hok : cfg.Ok) : ¬lb.Fits d cfg := by
  obtain ⟨done, vc, rest, z, hvips, halong, hcause⟩ := h
  have hpre : done <+: cfg.vips := ⟨_, hvips.symm⟩
  intro hfits
  rcases hcause with ⟨-, hnone⟩ | ⟨-, hcard⟩
  · have hnot : vc.spec ∉ z.2.named := by
      simp only [idFor, Option.or_eq_none_iff, Option.map_eq_none_iff] at hnone
      simp only [named, List.mem_toFinset, List.mem_append, ExtTreeMap.mem_keys, not_or]
      exact ⟨OrdMap.notMem_iff.mpr hnone.1, OrdMap.notMem_iff.mpr hnone.2.1⟩
    have hspec : vc.spec ∈ cfg.specs := List.mem_map_of_mem (by simp [hvips])
    have hfull : pbMaxVips < (insert vc.spec z.2.named).card := by
      simp only [idFor, Option.or_eq_none_iff] at hnone
      rw [Finset.card_insert_of_notMem hnot]
      exact Nat.lt_succ_of_le (halong.facts.1.named_full hnone.2.2)
    have hsub : ∀ s ∈ insert vc.spec z.2.named,
        (lb.initialized = false ∧ s ∈ d.vipMap) ∨ s ∈ cfg.specs := by
      intro s hs
      rcases Finset.mem_insert.mp hs with rfl | hs
      · exact .inr hspec
      · exact halong.named_sub ha hok hpre hs
    cases hinit : lb.initialized with
    | true =>
        have hle : (insert vc.spec z.2.named).card ≤ cfg.specs.toFinset.card :=
          Finset.card_le_card fun s hs => by simpa [hinit] using hsub s hs
        have hfew := hok.few_vips
        rw [← cfg.vips.length_map (f := VipConfig.spec)] at hfew
        have := cfg.specs.toFinset_card_le
        rw [Config.specs] at this hle
        omega
    | false =>
        have hle : (insert vc.spec z.2.named).card ≤ (d.vipMap.keys ++ cfg.specs).toFinset.card :=
          Finset.card_le_card fun s hs => by simpa [hinit] using hsub s hs
        have := hfits.vips hinit
        omega
  · rw [halong.used_eq_peak hu hok hvips] at hcard
    exact absurd (hfits.reals done vc rest (by rw [hvips])) (Nat.not_le.mpr hcard)

/-- With room for every moment, and a kernel that plays along, `apply` returns. -/
theorem Fits.apply_ok (h : lb.Fits d cfg) (henv : Healthy env) (hu : Usable lb d)
    (ha : lb.adoptedVipIds = ∅) (hok : cfg.Ok) : (apply env cfg d lb).res = .ok () := by
  cases hres : (apply env cfg d lb).res with
  | ok _ => rfl
  | error err =>
      have hfail := (apply_spec henv.arrayOk hok hu.startable).of_error hres
      exact absurd h ((hfail.cause henv).not_fits hu ha hok)

theorem Settled.fits (hs : Settled lb d) (hinit : lb.initialized) (cfg : Config)
    (hcard : (d.addrs ∪ cfg.addrs).card ≤ pbMaxReals - 1) : lb.Fits d cfg := by
  refine ⟨fun done vc rest hperm => ?_, fun hfirst => by simp [hinit] at hfirst⟩
  refine Nat.le_trans (Finset.card_le_card fun a ha => ?_) hcard
  rw [mem_peak, hs.orphans_eq] at ha
  rw [Finset.mem_union, Config.mem_addrs]
  rcases ha with ha | ⟨u, hu, ha⟩ | ⟨u, -, -, ha⟩ | ha
  · simp at ha
  · exact .inr ⟨u, hperm.subset (by simp [hu]), ha⟩
  · obtain ⟨v, hv, ha⟩ := mem_holders.mp (mem_holders_membersAt.mpr ha)
    exact .inl (hs.consistent.table.mem_used.mp (hs.mem_used.mpr ⟨_, v, hv, ha⟩))
  · exact .inr ⟨vc, hperm.subset (by simp), ha⟩

variable {d' : CtlMaps} {lb' : LbState}

theorem Applied.peak_le (h : Applied env cfg lb d d' lb') (hu : Usable lb d) (hok : cfg.Ok)
    {vc : VipConfig} {rest : List VipConfig} (hvips : cfg.vips = done ++ vc :: rest) :
    (lb.peak d cfg done vc).card ≤ pbMaxReals - 1 := by
  obtain ⟨z, ⟨z₁, hopen, hpath⟩, -⟩ := h
  rw [hvips, path_append] at hpath
  obtain ⟨z₂, hdone, z₃, ⟨v', hstep⟩, -⟩ := hpath
  rw [← Along.used_eq_peak ⟨z₁, hopen, hdone⟩ hu hok hvips]
  exact hstep.fits

theorem Applied.mem_addrs (h : Applied env cfg lb d d' lb') (hu : Usable lb d) (hok : cfg.Ok)
    {a : UInt32} : a ∈ d'.addrs ↔ a ∈ cfg.addrs := by
  have hsettled := h.settled hu
  obtain ⟨hspecs, hconf⟩ := h.vips hok
  rw [← hsettled.consistent.table.mem_used, hsettled.mem_used, Config.mem_addrs]
  constructor
  · rintro ⟨s, v, hv, ha⟩
    obtain ⟨vc, hvc, rfl⟩ := List.mem_map.mp ((hspecs s).mp (OrdMap.mem_iff.mpr ⟨v, hv⟩))
    obtain ⟨v', hv', hvc'⟩ := hconf vc hvc
    rw [hv] at hv'
    rw [Option.some.inj hv'] at ha
    exact ⟨vc, hvc, (hvc'.mem_members (hok.vip_ok vc hvc)).mp ha⟩
  · rintro ⟨vc, hvc, ha⟩
    obtain ⟨v', hv', hvc'⟩ := hconf vc hvc
    exact ⟨vc.spec, v', hv', (hvc'.mem_members (hok.vip_ok vc hvc)).mpr ha⟩

theorem Applied.addrs_eq (h : Applied env cfg lb d d' lb') (hu : Usable lb d) (hok : cfg.Ok) :
    d'.addrs = cfg.addrs :=
  Finset.ext fun _ => h.mem_addrs hu hok

theorem Applied.vips_le (h : Applied env cfg lb d d' lb') (hfirst : lb.initialized = false) :
    (d.vipMap.keys ++ cfg.specs).toFinset.card ≤ pbMaxVips := by
  obtain ⟨z, halong, -⟩ := h
  refine Nat.le_trans (Finset.card_le_card fun s hs => ?_) halong.facts.1.card_named
  exact halong.named_sup hfirst (by simpa [Config.specs] using hs)

end LbState

end PacketBalance
