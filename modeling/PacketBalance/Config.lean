import PacketBalance.Maglev
import Mathlib.Data.Finset.Card
/-!
# The configuration and its checks

`include/packetbalance/config.h` and `validate_config` of `src/core/config.cpp`.
`Daemon::load_config` validates every configuration before the daemon uses it, so
`LbState::apply` is only ever called with a `ValidConfig`.
-/

namespace PacketBalance

structure Cidr where
  prefixBe : UInt32 := 0
  maskBe : UInt32 := 0
  len : Nat := 0
deriving DecidableEq, Repr

structure RealConfig where
  addrBe : UInt32 := 0
  weight : Nat := 1
deriving DecidableEq, Repr

structure VipConfig where
  spec : VipSpec
  noConntrack : Bool := false
  reals : List RealConfig := []
deriving DecidableEq, Repr

structure HealthCheckConfig where
  enabled : Bool := true
  intervalMs : Nat := 1000
  timeoutMs : Nat := 500
  fall : Nat := 3
  rise : Nat := 2
deriving DecidableEq, Repr

/-- The keys that `validate_config` or `LbState::apply` reads. -/
structure Config where
  interface : String := ""
  hash : HashMode := .maglev
  encapSrc : Cidr := {}
  nextHopBe : Option UInt32 := none
  conntrackEnabled : Bool := true
  conntrackSize : Nat := pbCtDefaultSize
  icmpPmtu : Bool := false
  health : HealthCheckConfig := {}
  vips : List VipConfig := []
deriving DecidableEq, Repr

/-! ## validate_config -/

/-- The inner loop, over the reals of one VIP.  `seen` are the VIP's addresses
so far, `all` those of the whole configuration. -/
def validateReals (spec : VipSpec) :
    List RealConfig → Finset UInt32 → Finset UInt32 → Except String (Finset UInt32)
  | [], _, all => .ok all
  | r :: rest, seen, all =>
      if r.addrBe = 0 then
        .error ("config: real 0.0.0.0 on " ++ spec.str)
      else if r.addrBe ∈ seen then
        .error ("config: duplicate real " ++ ipv4ToString r.addrBe ++ " on " ++ spec.str)
      else if kMaxRealWeight < r.weight then
        .error ("config: weight of " ++ ipv4ToString r.addrBe ++ " exceeds " ++
          toString kMaxRealWeight)
      else
        validateReals spec rest (insert r.addrBe seen) (insert r.addrBe all)

def validateVips :
    List VipConfig → Finset VipSpec → Finset UInt32 → Except String (Finset UInt32)
  | [], _, all => .ok all
  | v :: rest, seen, all =>
      if v.spec ∈ seen then .error ("config: duplicate vip " ++ v.spec.str)
      else
        match validateReals v.spec v.reals ∅ all with
        | .error text => .error text
        | .ok all' => validateVips rest (insert v.spec seen) all'

/-- `.error` carries the text of the `std::runtime_error`. -/
def validateConfig (cfg : Config) : Except String Unit :=
  if cfg.interface = "" then .error "config: `interface` is required"
  else if cfg.encapSrc.len = 0 then
    .error "config: `encap_src_prefix` is required and must not be /0"
  else if cfg.conntrackSize = 0 then .error "config: conntrack.size must be > 0"
  else if cfg.health.intervalMs = 0 ∨ cfg.health.timeoutMs = 0 ∨ cfg.health.fall = 0 ∨
      cfg.health.rise = 0 then
    .error "config: health_check values must be > 0"
  else if cfg.health.intervalMs < cfg.health.timeoutMs then
    .error "config: health_check.timeout_ms must be <= interval_ms"
  else if pbMaxVips < cfg.vips.length then
    .error ("config: too many vips (max " ++ toString pbMaxVips ++ ")")
  else
    match validateVips cfg.vips ∅ ∅ with
    | .error text => .error text
    | .ok all =>
        if pbMaxReals - 1 < all.card then
          .error ("config: too many distinct reals (max " ++ toString (pbMaxReals - 1) ++ ")")
        else .ok ()

/-- A configuration that `validate_config` lets pass. -/
structure ValidConfig extends Config where
  valid : validateConfig toConfig = .ok ()

/-! ## What a valid configuration satisfies -/

def VipConfig.addrs (vc : VipConfig) : Finset UInt32 :=
  (vc.reals.map RealConfig.addrBe).toFinset

def Config.specs (cfg : Config) : List VipSpec := cfg.vips.map VipConfig.spec

def Config.addrs (cfg : Config) : Finset UInt32 :=
  (cfg.vips.flatMap fun vc => vc.reals.map RealConfig.addrBe).toFinset

structure VipConfig.Ok (vc : VipConfig) : Prop where
  addr_ne_zero : ∀ r ∈ vc.reals, r.addrBe ≠ 0
  addrs_nodup : (vc.reals.map RealConfig.addrBe).Nodup
  weight_le : ∀ r ∈ vc.reals, r.weight ≤ kMaxRealWeight

structure Config.Ok (cfg : Config) : Prop where
  few_vips : cfg.vips.length ≤ pbMaxVips
  specs_nodup : cfg.specs.Nodup
  vip_ok : ∀ vc ∈ cfg.vips, vc.Ok
  few_addrs : cfg.addrs.card ≤ pbMaxReals - 1

theorem validateReals_iff {spec : VipSpec} {reals : List RealConfig}
    {seen all all' : Finset UInt32} :
    validateReals spec reals seen all = .ok all' ↔
      (∀ r ∈ reals, r.addrBe ≠ 0 ∧ r.addrBe ∉ seen ∧ r.weight ≤ kMaxRealWeight) ∧
      (reals.map RealConfig.addrBe).Nodup ∧
      all' = all ∪ (reals.map RealConfig.addrBe).toFinset := by
  induction reals generalizing seen all with
  | nil => simp [validateReals, eq_comm]
  | cons r rest ih =>
      simp only [validateReals, List.map_cons, List.nodup_cons, List.mem_cons, forall_eq_or_imp,
        List.toFinset_cons]
      split_ifs with hzero hseen hweight
      · simp [hzero]
      · simp [hseen]
      · exact iff_of_false nofun fun h => absurd h.1.1.2.2 (Nat.not_le.mpr hweight)
      · rw [ih, Finset.insert_union, Finset.union_insert]
        simp only [Finset.mem_insert, not_or, Nat.not_lt] at hweight ⊢
        constructor
        · rintro ⟨hrest, hnodup, hall⟩
          refine ⟨⟨⟨hzero, hseen, hweight⟩, fun r' hr' => ?_⟩, ⟨fun hmem => ?_, hnodup⟩, hall⟩
          · obtain ⟨hne, hnot, hle⟩ := hrest r' hr'
            exact ⟨hne, hnot.2, hle⟩
          · obtain ⟨r', hr', heq⟩ := List.mem_map.mp hmem
            exact (hrest r' hr').2.1.1 heq
        · rintro ⟨⟨-, hrest⟩, ⟨hfresh, hnodup⟩, hall⟩
          refine ⟨fun r' hr' => ?_, hnodup, hall⟩
          obtain ⟨hne, hnot, hle⟩ := hrest r' hr'
          exact ⟨hne, ⟨fun heq => hfresh (heq ▸ List.mem_map_of_mem hr'), hnot⟩, hle⟩

theorem VipConfig.validateReals_iff {vc : VipConfig} {all all' : Finset UInt32} :
    validateReals vc.spec vc.reals ∅ all = .ok all' ↔ vc.Ok ∧ all' = all ∪ vc.addrs := by
  rw [PacketBalance.validateReals_iff]
  constructor
  · rintro ⟨hreals, hnodup, hall⟩
    exact ⟨⟨fun r hr => (hreals r hr).1, hnodup, fun r hr => (hreals r hr).2.2⟩, hall⟩
  · rintro ⟨hok, hall⟩
    exact ⟨fun r hr => ⟨hok.addr_ne_zero r hr, by simp, hok.weight_le r hr⟩, hok.addrs_nodup,
      hall⟩

theorem validateVips_iff {vips : List VipConfig} {seen : Finset VipSpec}
    {all all' : Finset UInt32} :
    validateVips vips seen all = .ok all' ↔
      (∀ vc ∈ vips, vc.spec ∉ seen ∧ vc.Ok) ∧ (vips.map VipConfig.spec).Nodup ∧
      all' = all ∪ (vips.flatMap fun vc => vc.reals.map RealConfig.addrBe).toFinset := by
  induction vips generalizing seen all with
  | nil => simp [validateVips, eq_comm]
  | cons v rest ih =>
      simp only [validateVips, List.map_cons, List.nodup_cons, List.mem_cons, forall_eq_or_imp,
        List.flatMap_cons, List.toFinset_append]
      split_ifs with hseen
      · simp [hseen]
      split
      · rename_i text hreals
        refine iff_of_false nofun ?_
        rintro ⟨⟨⟨-, hok⟩, -⟩, -⟩
        rw [VipConfig.validateReals_iff.mpr ⟨hok, rfl⟩] at hreals
        cases hreals
      · rename_i all₁ hreals
        obtain ⟨hok, rfl⟩ := VipConfig.validateReals_iff.mp hreals
        rw [ih, Finset.union_assoc]
        simp only [Finset.mem_insert, not_or]
        constructor
        · rintro ⟨hrest, hnodup, hall⟩
          refine ⟨⟨⟨hseen, hok⟩, fun u hu => ⟨(hrest u hu).1.2, (hrest u hu).2⟩⟩,
            ⟨fun hmem => ?_, hnodup⟩, hall⟩
          obtain ⟨u, hu, heq⟩ := List.mem_map.mp hmem
          exact (hrest u hu).1.1 heq
        · rintro ⟨⟨-, hrest⟩, ⟨hfresh, hnodup⟩, hall⟩
          exact ⟨fun u hu => ⟨⟨fun heq => hfresh (heq ▸ List.mem_map_of_mem hu), (hrest u hu).1⟩,
            (hrest u hu).2⟩, hnodup, hall⟩

/-- What `validate_config` checks about everything but the VIPs. -/
structure Config.SettingsOk (cfg : Config) : Prop where
  interface : cfg.interface ≠ ""
  encapSrc : cfg.encapSrc.len ≠ 0
  conntrackSize : cfg.conntrackSize ≠ 0
  health : ¬(cfg.health.intervalMs = 0 ∨ cfg.health.timeoutMs = 0 ∨ cfg.health.fall = 0 ∨
    cfg.health.rise = 0)
  timeout : cfg.health.timeoutMs ≤ cfg.health.intervalMs

theorem validateConfig_iff {cfg : Config} :
    validateConfig cfg = .ok () ↔ cfg.SettingsOk ∧ cfg.Ok := by
  unfold validateConfig
  split_ifs with hinterface hencap hsize hhealth htimeout hvips
  · exact iff_of_false nofun fun h => h.1.interface hinterface
  · exact iff_of_false nofun fun h => h.1.encapSrc hencap
  · exact iff_of_false nofun fun h => h.1.conntrackSize hsize
  · exact iff_of_false nofun fun h => h.1.health hhealth
  · exact iff_of_false nofun fun h => absurd h.1.timeout (Nat.not_le.mpr htimeout)
  · exact iff_of_false nofun fun h => absurd h.2.few_vips (Nat.not_le.mpr hvips)
  · have hsettings : cfg.SettingsOk :=
      ⟨hinterface, hencap, hsize, hhealth, Nat.not_lt.mp htimeout⟩
    split
    · rename_i text hloop
      refine iff_of_false nofun ?_
      rintro ⟨-, hok⟩
      rw [validateVips_iff.mpr ⟨fun vc hvc => ⟨by simp, hok.vip_ok vc hvc⟩, hok.specs_nodup,
        rfl⟩] at hloop
      cases hloop
    · rename_i all hloop
      obtain ⟨hok, hnodup, hall⟩ := validateVips_iff.mp hloop
      rw [Finset.empty_union] at hall
      subst hall
      split_ifs with hreals
      · exact iff_of_false nofun fun h => absurd h.2.few_addrs (Nat.not_le.mpr hreals)
      · exact iff_of_true rfl ⟨hsettings, Nat.not_lt.mp hvips, hnodup,
          fun vc hvc => (hok vc hvc).2, Nat.not_lt.mp hreals⟩

theorem ValidConfig.ok (cfg : ValidConfig) : cfg.toConfig.Ok :=
  (validateConfig_iff.mp cfg.valid).2

/-- The order in which the VIPs are listed does not matter to `validate_config`. -/
theorem Config.Ok.reorder {cfg : Config} (h : cfg.Ok) {vips : List VipConfig}
    (hperm : vips.Perm cfg.vips) : Config.Ok { cfg with vips } where
  few_vips := hperm.length_eq ▸ h.few_vips
  specs_nodup := (hperm.map _).nodup_iff.mpr h.specs_nodup
  vip_ok vc hvc := h.vip_ok vc (hperm.mem_iff.mp hvc)
  few_addrs := by
    have haddrs : Config.addrs { cfg with vips } = cfg.addrs :=
      List.toFinset_eq_of_perm _ _ (hperm.flatMap_right _)
    rw [haddrs]
    exact h.few_addrs

/-- A valid configuration with its VIPs listed in another order. -/
def ValidConfig.reorder (cfg : ValidConfig) (vips : List VipConfig)
    (hperm : vips.Perm cfg.vips) : ValidConfig where
  toConfig := { cfg.toConfig with vips }
  valid := by
    obtain ⟨hsettings, hok⟩ := validateConfig_iff.mp cfg.valid
    exact validateConfig_iff.mpr ⟨⟨hsettings.interface, hsettings.encapSrc,
      hsettings.conntrackSize, hsettings.health, hsettings.timeout⟩, hok.reorder hperm⟩

theorem VipConfig.mem_addrs {vc : VipConfig} {a : UInt32} :
    a ∈ vc.addrs ↔ ∃ r ∈ vc.reals, r.addrBe = a := by
  simp [VipConfig.addrs]

theorem Config.mem_addrs {cfg : Config} {a : UInt32} :
    a ∈ cfg.addrs ↔ ∃ vc ∈ cfg.vips, a ∈ vc.addrs := by
  simp [Config.addrs, VipConfig.addrs]

end PacketBalance
