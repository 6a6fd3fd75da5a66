import PacketBalance.LbState.Settled
/-!
# What is left of each VIP along the path

In the middle of an `apply`, a configured VIP that has had its turn is what the
configuration says, one that has not is what it was before the call, and everything
else is gone.
-/

namespace PacketBalance

open WriteLog Std

namespace LbState

variable {lb lb' : LbState} {d d' : CtlMaps} {env : Env} {cfg : Config}
variable {done : List VipConfig} {z : CtlMaps × LbState}

theorem MemberStep.weight_eq {old new : Option Member} {want : Option Nat}
    (h : MemberStep env old want new) : new.map Member.weight = want := by
  cases want with
  | none => simp_all [MemberStep]
  | some w =>
      obtain ⟨m, rfl, hm⟩ := h
      cases old with
      | none =>
          obtain ⟨i, r, rfl⟩ := hm
          rfl
      | some m₀ =>
          obtain ⟨r, rfl⟩ := hm
          rfl

theorem MemberStep.kept {m m' : Member} {want : Option Nat}
    (h : MemberStep env (some m) want (some m')) :
    m' = { m with weight := m'.weight, inRing := m'.inRing } := by
  cases want with
  | none => simp [MemberStep] at h
  | some w =>
      obtain ⟨m₁, hm₁, r, rfl⟩ := h
      rw [Option.some.inj hm₁]

/-- A VIP that has been made what the configuration says. -/
structure Configured (env : Env) (lb : LbState) (vc : VipConfig) (v' : Vip) : Prop where
  spec_eq : v'.spec = vc.spec
  flags_eq : v'.flags = vipFlags vc.noConntrack
  id_eq : ∀ v : Vip, lb.vips[vc.spec]? = some v → v'.id = v.id
  member : ∀ a : UInt32,
    MemberStep env (lb.membersAt vc.spec)[a]? (wantOf vc)[a]? v'.members[a]?

theorem Configured.mem_members {vc : VipConfig} {v' : Vip} (h : Configured env lb vc v')
    (hok : vc.Ok) {a : UInt32} : a ∈ v'.members ↔ a ∈ vc.addrs := by
  rw [← mem_wantOf hok, OrdMap.mem_iff, OrdMap.mem_iff, ← (h.member a).weight_eq]
  simp

theorem Opened.vips (h : Opened env cfg lb d z) (s : VipSpec) :
    z.2.vips[s]? = if s ∈ cfg.specs then lb.vips[s]? else none := by
  obtain ⟨d₀, lb₀, hstart, hdrop⟩ := h
  rw [(Path.drop_facts hstart.consistent hdrop).2.2, hstart.vips]
  by_cases hs : s ∈ cfg.specs
  · simp [hs]
  · rw [if_neg hs]
    by_cases hkey : s ∈ lb.vips.keys
    · rw [if_pos ⟨hkey, hs⟩]
    · rw [if_neg fun hin => hkey hin.1, ← OrdMap.notMem_iff]
      rwa [ExtTreeMap.mem_keys] at hkey

theorem Opened.vipMap (h : Opened env cfg lb d z) {s : VipSpec} (hs : s ∈ cfg.specs) :
    z.1.vipMap[s]? = d.vipMap[s]? := by
  obtain ⟨d₀, lb₀, hstart, hdrop⟩ := h
  obtain ⟨mac, -, hd₀⟩ := hstart.maps
  refine hdrop.invariant (I := fun _ z => z.1.vipMap[s]? = d.vipMap[s]?) (by rw [hd₀]) ?_
  rintro before spec rest - z z' hz hstep
  rw [DropR] at hstep
  split_ifs at hstep with hspec
  · exact hstep ▸ hz
  · obtain ⟨v, hv, hdel⟩ := hstep
    have hne : s ≠ spec := fun heq => hspec (heq ▸ hs)
    rw [hdel.maps.vipMap, withoutVip_vipMap, OrdMap.getElem?_erase, if_neg hne, hz]

theorem Along.snoc (h : Along env cfg lb d done z) {vc : VipConfig} {z' : CtlMaps × LbState}
    (hstep : VipR env (lb.hashChanges cfg) vc z z') : Along env cfg lb d (done ++ [vc]) z' := by
  obtain ⟨z₁, hopen, hpath⟩ := h
  exact ⟨z₁, hopen, hpath.snoc hstep⟩

theorem Along.vips (h : Along env cfg lb d done z) (hok : cfg.Ok) (hpre : done <+: cfg.vips) :
    (∀ s : VipSpec, s ∉ done.map VipConfig.spec →
      z.2.vips[s]? = if s ∈ cfg.specs then lb.vips[s]? else none) ∧
    ∀ vc ∈ done, ∃ v', z.2.vips[vc.spec]? = some v' ∧ Configured env lb vc v' := by
  have hnodup : (done.map VipConfig.spec).Nodup :=
    hok.specs_nodup.sublist (hpre.sublist.map _)
  have hsub : ∀ vc ∈ done, vc.spec ∈ cfg.specs := fun vc hvc =>
    List.mem_map_of_mem (hpre.subset hvc)
  obtain ⟨z₁, hopen, hpath⟩ := h
  refine hpath.invariant (I := fun done z =>
    (∀ s : VipSpec, s ∉ done.map VipConfig.spec →
      z.2.vips[s]? = if s ∈ cfg.specs then lb.vips[s]? else none) ∧
    ∀ vc ∈ done, ∃ v', z.2.vips[vc.spec]? = some v' ∧ Configured env lb vc v')
    ⟨fun s _ => hopen.vips s, by simp⟩ ?_
  rintro before vc rest hdone z z' ⟨hlater, hbefore⟩ ⟨v', hstep⟩
  have hfresh : vc.spec ∉ before.map VipConfig.spec := by
    rw [hdone, List.map_append, List.nodup_append] at hnodup
    exact fun hin => hnodup.2.2 _ hin _ (by simp) rfl
  have hold : z.2.vips[vc.spec]? = lb.vips[vc.spec]? := by
    rw [hlater _ hfresh, if_pos (hsub vc (by simp [hdone]))]
  constructor
  · intro s hs
    simp only [List.map_append, List.mem_append, not_or, List.map_cons, List.map_nil,
      List.mem_singleton] at hs
    rw [hstep.vip_else hs.2, hlater s hs.1]
  · intro u hu
    rcases List.mem_append.mp hu with hu | hu
    · obtain ⟨v, hv, hconf⟩ := hbefore u hu
      have hne : u.spec ≠ vc.spec := fun heq => hfresh (heq ▸ List.mem_map_of_mem hu)
      exact ⟨v, by rw [hstep.vip_else hne, hv], hconf⟩
    · obtain rfl := List.mem_singleton.mp hu
      refine ⟨v', hstep.vip, hstep.spec_eq, hstep.flags_eq, fun v hv => ?_, fun a => ?_⟩
      · exact hstep.id_of_vip (hold.trans hv)
      · have hm := hstep.member a
        rwa [membersAt, hold] at hm

theorem Along.holder_iff (h : Along env cfg lb d done z) (hok : cfg.Ok)
    (hpre : done <+: cfg.vips) {a : UInt32} {s : VipSpec} :
    s ∈ holders z.2.vips a ↔ (∃ u ∈ done, u.spec = s ∧ a ∈ u.addrs) ∨
      ∃ u ∈ cfg.vips, u.spec = s ∧ s ∉ done.map VipConfig.spec ∧ a ∈ lb.membersAt s := by
  obtain ⟨hlater, hdone⟩ := h.vips hok hpre
  rw [mem_holders]
  constructor
  · rintro ⟨v, hv, ha⟩
    by_cases hin : s ∈ done.map VipConfig.spec
    · obtain ⟨u, hu, rfl⟩ := List.mem_map.mp hin
      obtain ⟨v', hv', hconf⟩ := hdone u hu
      rw [hv] at hv'
      rw [Option.some.inj hv'] at ha
      exact .inl ⟨u, hu, rfl, (hconf.mem_members (hok.vip_ok u (hpre.subset hu))).mp ha⟩
    · rw [hlater s hin] at hv
      split_ifs at hv with hspec
      obtain ⟨u, hu, rfl⟩ := List.mem_map.mp hspec
      exact .inr ⟨u, hu, rfl, hin, by rwa [membersAt_eq hv]⟩
  · rintro (⟨u, hu, rfl, ha⟩ | ⟨u, hu, rfl, hin, ha⟩)
    · obtain ⟨v', hv', hconf⟩ := hdone u hu
      exact ⟨v', hv', (hconf.mem_members (hok.vip_ok u (hpre.subset hu))).mpr ha⟩
    · have hspec : u.spec ∈ cfg.specs := List.mem_map_of_mem hu
      rw [hlater _ hin, if_pos hspec]
      exact mem_holders.mp (mem_holders_membersAt.mpr ha)

/-! ## Ids in `vip_map` -/

theorem VipStep.id_of_entry {hashChanged : Bool} {spec : VipSpec} {flags : UInt32}
    {want : ExtTreeMap UInt32 Nat} {v' : Vip}
    (h : VipStep env hashChanged lb d spec flags want v' d' lb') (hc : Consistent [] lb d)
    {val : VipValue} (hval : d.vipMap[spec]? = some val) : v'.id = val.vipId := by
  have hnamed := hc.entry_named spec val hval
  have hid := h.id_eq
  rw [idFor] at hid
  cases hv : lb.vips[spec]? with
  | some v => exact hc.named_fun spec _ _ (.inl ⟨v, hv, (h.id_of_vip hv).symm⟩) hnamed
  | none =>
      have hadopted : lb.adoptedVipIds[spec]? = some val.vipId := by
        rcases hnamed with ⟨v, hv', -⟩ | hadopted
        · rw [hv] at hv'
          cases hv'
        · exact hadopted
      simpa [hv, hadopted] using hid.symm

theorem Along.entry_id (h : Along env cfg lb d done z) {s : VipSpec} (hs : s ∈ cfg.specs)
    {val : VipValue} (hval : d.vipMap[s]? = some val) :
    ∃ flags, z.1.vipMap[s]? = some ⟨val.vipId, flags⟩ := by
  obtain ⟨z₁, hopen, hpath⟩ := h
  have hbegin : Along env cfg lb d [] z₁ := ⟨z₁, hopen, rfl⟩
  refine (hpath.invariant (I := fun _ z => Consistent [] z.2 z.1 ∧
    ∃ flags, z.1.vipMap[s]? = some ⟨val.vipId, flags⟩)
    ⟨hbegin.facts.1, val.flags, (hopen.vipMap hs).trans hval⟩ ?_).2
  rintro before vc rest - z z' ⟨hc, flags, hz⟩ ⟨v', hstep⟩
  refine ⟨hstep.consistent, ?_⟩
  by_cases heq : s = vc.spec
  · subst heq
    rw [hstep.vipMap, entriesAfter]
    split_ifs with hflags
    · exact ⟨flags, hz⟩
    · exact ⟨_, by rw [OrdMap.getElem?_insert, if_pos rfl, hstep.id_of_entry hc hz]⟩
  · exact ⟨flags, by rw [hstep.vipMap_else heq, hz]⟩

/-! ## The end -/

theorem Applied.vips (h : Applied env cfg lb d d' lb') (hok : cfg.Ok) :
    (∀ s : VipSpec, s ∈ lb'.vips ↔ s ∈ cfg.specs) ∧
    ∀ vc ∈ cfg.vips, ∃ v', lb'.vips[vc.spec]? = some v' ∧ Configured env lb vc v' := by
  obtain ⟨z, halong, hend⟩ := h
  have hvips : lb'.vips = z.2.vips := by
    split_ifs at hend with hinit
    · rw [hend]
    · obtain ⟨t, rfl⟩ := hend.state
      rfl
  obtain ⟨hlater, hdone⟩ := halong.vips hok List.prefix_rfl
  rw [hvips]
  refine ⟨fun s => ⟨fun hs => ?_, fun hs => ?_⟩, hdone⟩
  · by_contra hnot
    obtain ⟨v, hv⟩ := OrdMap.mem_iff.mp hs
    rw [hlater s hnot, if_neg hnot] at hv
    cases hv
  · obtain ⟨vc, hvc, rfl⟩ := List.mem_map.mp hs
    obtain ⟨v', hv', -⟩ := hdone vc hvc
    exact OrdMap.mem_iff.mpr ⟨v', hv'⟩

theorem Applied.mem_vipMap (h : Applied env cfg lb d d' lb') (hu : Usable lb d) (hok : cfg.Ok)
    {s : VipSpec} : s ∈ d'.vipMap ↔ s ∈ cfg.specs := by
  have hsettled := h.settled hu
  rw [← (h.vips hok).1]
  refine ⟨hsettled.owned s, fun hs => ?_⟩
  obtain ⟨v, hv⟩ := OrdMap.mem_iff.mp hs
  exact OrdMap.mem_iff.mpr ⟨_, hsettled.entry_of_vip s v hv⟩

theorem Applied.entry_id (h : Applied env cfg lb d d' lb') (hok : cfg.Ok) {s : VipSpec}
    (hs : s ∈ cfg.specs) {val : VipValue} (hval : d.vipMap[s]? = some val) :
    ∃ flags, d'.vipMap[s]? = some ⟨val.vipId, flags⟩ := by
  have hmem := ((h.vips hok).1 s).mpr hs
  obtain ⟨z, halong, hend⟩ := h
  obtain ⟨flags, hz⟩ := halong.entry_id hs hval
  refine ⟨flags, ?_⟩
  split_ifs at hend with hinit
  · rw [← hz, hend]
  · obtain ⟨t, rfl⟩ := hend.state
    rw [hend.vipMap, if_pos hmem, hz]

end LbState

end PacketBalance
