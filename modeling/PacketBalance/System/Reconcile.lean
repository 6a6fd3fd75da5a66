import PacketBalance.System.Safety
/-!
# `apply` is an exact reconcile

Whatever was configured before, in a running daemon or in the maps a new one found,
afterwards the model and the maps hold what the configuration says and nothing else,
and what was there already and stays keeps its id and its state.
-/

namespace PacketBalance

open WriteLog Std LbState

namespace System

/-- The model and the maps are what the configuration says. -/
structure Reconciled (cfg : Config) (d' : CtlMaps) (lb' : LbState) : Prop where
  specs : ∀ s : VipSpec, s ∈ lb'.vips ↔ s ∈ cfg.specs
  vip : ∀ vc ∈ cfg.vips, ∃ v, lb'.vips[vc.spec]? = some v ∧
    v.flags = (if vc.noConntrack then 1 else 0) ∧
    ∀ (a : UInt32) (w : Nat), (∃ m, v.members[a]? = some m ∧ m.weight = w) ↔
      ∃ r ∈ vc.reals, r.addrBe = a ∧ r.weight = w
  vipMap : ∀ (s : VipSpec) (val : VipValue), d'.vipMap[s]? = some val ↔
    ∃ v, lb'.vips[s]? = some v ∧ val = ⟨v.id, v.flags⟩
  ids_lt : ∀ (s : VipSpec) (val : VipValue), d'.vipMap[s]? = some val → val.vipId < pbMaxVips
  ids_inj : ∀ (s s' : VipSpec) (val val' : VipValue), d'.vipMap[s]? = some val →
    d'.vipMap[s']? = some val' → val.vipId = val'.vipId → s = s'
  reals : ∀ a : UInt32, a ≠ 0 → ((∃ id, d'.reals id = a) ↔ a ∈ cfg.addrs)

/-- What was there before and is there after. -/
structure Kept (lb : LbState) (d : CtlMaps) (d' : CtlMaps) (lb' : LbState) : Prop where
  entry : ∀ (s : VipSpec) (val val' : VipValue), d.vipMap[s]? = some val →
    d'.vipMap[s]? = some val' → val'.vipId = val.vipId
  vip : ∀ (s : VipSpec) (v v' : Vip), lb.vips[s]? = some v → lb'.vips[s]? = some v' →
    v'.id = v.id
  member : ∀ (s : VipSpec) (v v' : Vip) (a : UInt32) (m m' : Member), lb.vips[s]? = some v →
    lb'.vips[s]? = some v' → v.members[a]? = some m → v'.members[a]? = some m' →
    m' = { m with weight := m'.weight, inRing := m'.inRing }

variable {lb lb' : LbState} {d d' : CtlMaps} {env : Env} {cfg : Config}

theorem applied_reconciled (h : Applied env cfg lb d d' lb') (hu : Usable lb d) (hok : cfg.Ok) :
    Reconciled cfg d' lb' := by
  have hsettled := h.settled hu
  obtain ⟨hspecs, hconf⟩ := h.vips hok
  have hentry : ∀ (s : VipSpec) (val : VipValue), d'.vipMap[s]? = some val ↔
      ∃ v, lb'.vips[s]? = some v ∧ val = ⟨v.id, v.flags⟩ := by
    intro s val
    constructor
    · intro hval
      obtain ⟨v, hv⟩ := OrdMap.mem_iff.mp (hsettled.owned s (OrdMap.mem_iff.mpr ⟨val, hval⟩))
      rw [hsettled.entry_of_vip s v hv] at hval
      exact ⟨v, hv, (Option.some.inj hval).symm⟩
    · rintro ⟨v, hv, rfl⟩
      exact hsettled.entry_of_vip s v hv
  refine ⟨hspecs, fun vc hvc => ?_, hentry, fun s val hval => ?_,
    fun s s' val val' hval hval' heq => ?_, fun a ha => ?_⟩
  · obtain ⟨v, hv, hvc'⟩ := hconf vc hvc
    refine ⟨v, hv, hvc'.flags_eq, fun a w => ?_⟩
    rw [← getElem?_wantOf (hok.vip_ok vc hvc), ← (hvc'.member a).weight_eq,
      Option.map_eq_some_iff]
  · obtain ⟨v, hv, rfl⟩ := (hentry s val).mp hval
    exact hsettled.consistent.named_lt s _ (.inl ⟨v, hv, rfl⟩)
  · exact hsettled.consistent.named_inj s s' _ (hsettled.consistent.entry_named s val hval)
      (heq ▸ hsettled.consistent.entry_named s' val' hval')
  · rw [← h.mem_addrs hu hok, hsettled.consistent.table.realsOk.mem_addrs]
    simp [ha]

theorem applied_kept (h : Applied env cfg lb d d' lb') (hu : Usable lb d) (hok : cfg.Ok) :
    Kept lb d d' lb' := by
  obtain ⟨hspecs, hconf⟩ := h.vips hok
  have hvip : ∀ {s : VipSpec} {v' : Vip}, lb'.vips[s]? = some v' →
      ∃ vc ∈ cfg.vips, vc.spec = s ∧ Configured env lb vc v' := by
    intro s v' hv'
    obtain ⟨vc, hvc, rfl⟩ := List.mem_map.mp ((hspecs s).mp (OrdMap.mem_iff.mpr ⟨v', hv'⟩))
    obtain ⟨v, hv, hvc'⟩ := hconf vc hvc
    rw [hv'] at hv
    exact ⟨vc, hvc, rfl, Option.some.inj hv ▸ hvc'⟩
  refine ⟨fun s val val' hval hval' => ?_, fun s v v' hv hv' => ?_,
    fun s v v' a m m' hv hv' hm hm' => ?_⟩
  · have hs := (h.mem_vipMap hu hok).mp (OrdMap.mem_iff.mpr ⟨val', hval'⟩)
    obtain ⟨flags, hflags⟩ := h.entry_id hok hs hval
    rw [hflags] at hval'
    rw [← Option.some.inj hval']
  · obtain ⟨vc, -, rfl, hvc⟩ := hvip hv'
    exact hvc.id_eq v hv
  · obtain ⟨vc, -, rfl, hvc⟩ := hvip hv'
    have hstep := hvc.member a
    rw [membersAt_eq hv, hm, hm'] at hstep
    exact hstep.kept

/-- An `apply` that returns leaves exactly what the configuration says, and keeps the
id, health, drain state, counters and incarnation of what stays. -/
theorem apply_exact_reconcile {s : System} (h : s.Reachable) (hidle : s.pending = none)
    (cfg : ValidConfig) {env : Env} (henv : ArrayOk env)
    (hok : ((Op.apply cfg).run env s.ctl s.lb).res = .ok ()) :
    Reconciled cfg.toConfig (replay s.ctl ((Op.apply cfg).run env s.ctl s.lb).log)
      ((Op.apply cfg).run env s.ctl s.lb).mem ∧
    Kept s.lb s.ctl (replay s.ctl ((Op.apply cfg).run env s.ctl s.lb).log)
      ((Op.apply cfg).run env s.ctl s.lb).mem := by
  have husable := h.inv.usable hidle
  have happ := (h.inv.apply hidle cfg henv).of_ok hok
  exact ⟨applied_reconciled happ husable cfg.ok, applied_kept happ husable cfg.ok⟩

/-- The VIP of `sampleConfig` without tracking, its real with another weight and one more. -/
def grownConfig : ValidConfig where
  interface := "eth0"
  encapSrc := ⟨0, 0, 16⟩
  vips := [{
    spec := sampleFlow.vip
    noConntrack := true
    reals := [{ addrBe := 0x1500000a, weight := 5 }, { addrBe := 0x1600000a }] }]
  valid := by decide +kernel

/-- A reload that finds a VIP and a member that stay. -/
theorem apply_exact_reconcile_again :
    ∃ (s : System) (v : Vip), s.Reachable ∧ s.lb.vips[sampleFlow.vip]? = some v ∧
      0x1500000a ∈ v.members ∧ v.flags = 0 ∧
      Reconciled grownConfig.toConfig
        (replay s.ctl ((Op.apply grownConfig).run answeringEnv s.ctl s.lb).log)
        ((Op.apply grownConfig).run answeringEnv s.ctl s.lb).mem ∧
      Kept s.lb s.ctl (replay s.ctl ((Op.apply grownConfig).run answeringEnv s.ctl s.lb).log)
        ((Op.apply grownConfig).run answeringEnv s.ctl s.lb).mem := by
  have henv := answeringEnv_healthy
  have hinit := (init_inv "eth0").usable rfl
  obtain ⟨s, hs, hidle, -, happ⟩ := Reachable.first_apply "eth0" sampleConfig henv
  have hvc : { spec := sampleFlow.vip, reals := [{ addrBe := 0x1500000a }] } ∈
      sampleConfig.vips := List.mem_singleton.mpr rfl
  obtain ⟨v, hv, hconf⟩ := (happ.vips sampleConfig.ok).2 _ hvc
  have hmem : 0x1500000a ∈ v.members :=
    (hconf.mem_members (sampleConfig.ok.vip_ok _ hvc)).mpr (by decide)
  have hok := (hs.reload hidle happ hinit sampleConfig.ok grownConfig henv (by decide)).1
  obtain ⟨hrec, hkept⟩ := apply_exact_reconcile hs hidle grownConfig henv.arrayOk hok
  exact ⟨s, v, hs, hv, hmem, hconf.flags_eq, hrec, hkept⟩

end System

end PacketBalance
