import PacketBalance.System
import PacketBalance.LbState.Capacity
/-!
# Room for a configuration

A validated configuration fits an empty load balancer.  It does not always fit the
one at hand: `Fits` says exactly when every order of its VIPs can be applied.
-/

namespace PacketBalance

open WriteLog Std LbState

namespace System

variable {s : System}

/-- `apply` throws neither of the two exceptions that mean "full", in whatever order
the configuration lists its VIPs, when every call into the kernel succeeds. -/
def NeverFull (s : System) (cfg : ValidConfig) : Prop :=
  ∀ (vips : List VipConfig) (hperm : vips.Perm cfg.vips) (env : Env), Healthy env →
    ((Op.apply (cfg.reorder vips hperm)).run env s.ctl s.lb).res ≠ .error RealTable.tooManyReals ∧
    ((Op.apply (cfg.reorder vips hperm)).run env s.ctl s.lb).res ≠ .error tooManyVips

theorem Inv.apply_ok_iff (h : Inv s) (hidle : s.pending = none) (cfg : ValidConfig) {env : Env}
    (henv : Healthy env) :
    ((Op.apply cfg).run env s.ctl s.lb).res = .ok () ↔
      ((Op.apply cfg).run env s.ctl s.lb).res ≠ .error RealTable.tooManyReals ∧
      ((Op.apply cfg).run env s.ctl s.lb).res ≠ .error tooManyVips := by
  constructor
  · intro hok
    rw [hok]
    exact ⟨nofun, nofun⟩
  · rintro ⟨hreals, hvips⟩
    cases hres : ((Op.apply cfg).run env s.ctl s.lb).res with
    | ok _ => rfl
    | error err =>
        have hfail := (h.apply hidle cfg henv.arrayOk).of_error hres
        obtain ⟨done, vc, rest, z, -, -, ⟨rfl, -⟩ | ⟨rfl, -⟩⟩ := hfail.cause henv
        · exact absurd hres hvips
        · exact absurd hres hreals

/-- A configuration can be applied in every order of its VIPs exactly when it fits. -/
theorem neverFull_iff_fits (h : s.Reachable) (hidle : s.pending = none) (cfg : ValidConfig) :
    s.NeverFull cfg ↔ s.lb.Fits s.ctl cfg.toConfig := by
  have hinv := h.inv
  have husable := hinv.usable hidle
  constructor
  · intro hnever
    -- each order succeeds, and its own moments are among those that `Fits` bounds
    have happlied : ∀ vips (hperm : vips.Perm cfg.vips), ∃ d' lb',
        Applied quietEnv (cfg.reorder vips hperm).toConfig s.lb s.ctl d' lb' := by
      intro vips hperm
      have hok := (hinv.apply_ok_iff hidle _ quietEnv_healthy).mpr
        (hnever vips hperm quietEnv quietEnv_healthy)
      exact ⟨_, _, (hinv.apply hidle _ quietEnv_healthy.arrayOk).of_ok hok⟩
    constructor
    · intro done vc rest hperm
      obtain ⟨d', lb', happ⟩ := happlied _ hperm
      rw [← peak_reorder (cfg.reorder _ hperm).toConfig hperm vc]
      exact happ.peak_le husable (cfg.reorder _ hperm).ok rfl
    · intro hfirst
      obtain ⟨d', lb', happ⟩ := happlied cfg.vips (.refl _)
      exact happ.vips_le hfirst
  · intro hfits vips hperm env henv
    rw [← hinv.apply_ok_iff hidle _ henv]
    exact (hfits.reorder hperm).apply_ok henv husable (hinv.adopted hidle)
      (cfg.reorder vips hperm).ok

theorem init_fits (interface : String) (cfg : ValidConfig) :
    (init interface).lb.Fits (init interface).ctl cfg.toConfig where
  reals done vc rest hperm := by
    refine Nat.le_trans (Finset.card_le_card fun a ha => ?_) cfg.ok.few_addrs
    rw [mem_peak, init, orphans_new] at ha
    rw [Config.mem_addrs]
    rcases ha with ha | ⟨u, hu, ha⟩ | ⟨u, hu, -, ha⟩ | ha
    · simp only [CtlMaps.addrs, CtlMaps.empty, Finset.mem_erase, List.mem_toFinset,
        List.mem_map] at ha
      obtain ⟨hne, -, -, rfl⟩ := ha
      exact absurd rfl hne
    · exact ⟨u, hperm.subset (by simp [hu]), ha⟩
    · simp [membersAt] at ha
    · exact ⟨vc, hperm.subset (by simp), ha⟩
  vips _ := by
    have hcard := cfg.specs.toFinset_card_le
    rw [Config.specs, List.length_map] at hcard
    have hkeys : (init interface).ctl.vipMap.keys = [] := rfl
    rw [hkeys, List.nil_append, Config.specs]
    exact Nat.le_trans hcard cfg.ok.few_vips

theorem Reachable.apply (h : Reachable s) (hidle : s.pending = none) {cfg : ValidConfig}
    {env : Env} (henv : Healthy env) (hfits : s.lb.Fits s.ctl cfg.toConfig) :
    ((Op.apply cfg).run env s.ctl s.lb).res = .ok () ∧
    ∃ s', Reachable s' ∧ s'.pending = none ∧ s'.dp.conntrack = s.dp.conntrack ∧
      Applied env cfg.toConfig s.lb s.ctl s'.ctl s'.lb := by
  have hok : ((Op.apply cfg).run env s.ctl s.lb).res = .ok () :=
    hfits.apply_ok henv (h.inv.usable hidle) (h.inv.adopted hidle) cfg.ok
  obtain ⟨s', hs', hctl, hlb, -, hct, hidle'⟩ :=
    h.complete hidle (.apply cfg) henv.arrayOk nofun hok
  refine ⟨hok, s', hs', hidle', hct, ?_⟩
  rw [hctl, hlb]
  exact (h.inv.apply hidle cfg henv.arrayOk).of_ok hok

theorem Reachable.first_apply (interface : String) (cfg : ValidConfig) {env : Env}
    (henv : Healthy env) :
    ∃ s, Reachable s ∧ s.pending = none ∧ s.dp.conntrack = .empty ∧
      Applied env cfg.toConfig { interface } CtlMaps.empty s.ctl s.lb :=
  ((Reachable.init interface).apply rfl henv (init_fits interface cfg)).2

theorem Reachable.reload (h : Reachable s) (hidle : s.pending = none) {lb : LbState}
    {d : CtlMaps} {cfg₀ : Config} {env₀ : Env} (happ : Applied env₀ cfg₀ lb d s.ctl s.lb)
    (hu : Usable lb d) (hok₀ : cfg₀.Ok) (cfg : ValidConfig) {env : Env} (henv : Healthy env)
    (hcard : (cfg₀.addrs ∪ cfg.addrs).card ≤ pbMaxReals - 1) :
    ((Op.apply cfg).run env s.ctl s.lb).res = .ok () ∧
    ∃ s', Reachable s' ∧ s'.pending = none ∧ s'.dp.conntrack = s.dp.conntrack ∧
      Applied env cfg.toConfig s.lb s.ctl s'.ctl s'.lb :=
  h.apply hidle henv ((happ.settled hu).fits happ.initialized cfg.toConfig
    (by rwa [happ.addrs_eq hu hok₀]))

/-! ## A restart that does not fit -/

def bareVips (first count : Nat) : List VipConfig :=
  (List.range count).map fun i => { spec := ⟨0x0101a8c0, UInt16.ofNat (first + i), 6⟩ }

def fullConfig : ValidConfig where
  interface := "eth0"
  encapSrc := ⟨0, 0, 16⟩
  vips := bareVips 1 64
  valid := by decide +kernel

def otherConfig : ValidConfig where
  interface := "eth0"
  encapSrc := ⟨0, 0, 16⟩
  vips := bareVips 65 1
  valid := by decide +kernel

/-- A daemon that serves another configuration can change to it. -/
theorem neverFull_fullConfig : ∃ s, Reachable s ∧ s.pending = none ∧
    Applied quietEnv otherConfig.toConfig { interface := "eth0" } CtlMaps.empty s.ctl s.lb ∧
    s.NeverFull fullConfig := by
  obtain ⟨s, hs, hidle, -, happ⟩ := Reachable.first_apply "eth0" otherConfig quietEnv_healthy
  have husable : Usable { interface := "eth0" } CtlMaps.empty := (init_inv "eth0").usable rfl
  refine ⟨s, hs, hidle, happ, (neverFull_iff_fits hs hidle fullConfig).mpr ?_⟩
  refine (happ.settled husable).fits happ.initialized fullConfig.toConfig ?_
  rw [happ.addrs_eq husable otherConfig.ok]
  decide +kernel

theorem addrs_of_bareVips {first count : Nat} {vc : VipConfig} (h : vc ∈ bareVips first count) :
    vc.addrs = ∅ := by
  obtain ⟨i, -, rfl⟩ := List.mem_map.mp h
  rfl

/-- The maps hold 64 VIPs when a daemon starts that is to serve one other: adoption
reserves all ids, and none is left for it. -/
theorem restart_not_neverFull :
    ∃ s, Reachable s ∧ s.pending = none ∧ s.lb = { interface := "eth0" } ∧
      ((Op.apply otherConfig).run quietEnv s.ctl s.lb).res = .error tooManyVips := by
  obtain ⟨s₀, hs₀, -, -, happ⟩ := Reachable.first_apply "eth0" fullConfig quietEnv_healthy
  have husable₀ : Usable { interface := "eth0" } CtlMaps.empty := (init_inv "eth0").usable rfl
  have hs := hs₀.restart "eth0"
  have husable := hs.inv.usable rfl
  have hspec := hs.inv.apply rfl otherConfig quietEnv_healthy.arrayOk
  refine ⟨_, hs, rfl, rfl, ?_⟩
  cases hres : ((Op.apply otherConfig).run quietEnv s₀.ctl { interface := "eth0" }).res with
  | ok _ =>
      have hle := (hspec.of_ok hres).vips_le rfl
      have hkeys : (s₀.ctl.vipMap.keys ++ otherConfig.specs).toFinset =
          (fullConfig.specs ++ otherConfig.specs).toFinset := by
        ext spec
        simp [happ.mem_vipMap husable₀ fullConfig.ok]
      rw [hkeys] at hle
      exact absurd hle (by decide +kernel)
  | error err =>
      obtain ⟨done, vc, rest, z, hvips, halong, ⟨rfl, -⟩ | ⟨-, hcard⟩⟩ :=
        (hspec.of_error hres).cause quietEnv_healthy
      · rfl
      · rw [halong.used_eq_peak husable otherConfig.ok hvips] at hcard
        -- nobody has a real, neither in the maps nor in the configuration
        have hnone : ∀ a, a ∉ peak { interface := "eth0" } s₀.ctl otherConfig.toConfig done vc := by
          intro a ha
          rw [mem_peak, orphans_new, happ.mem_addrs husable₀ fullConfig.ok,
            Config.mem_addrs] at ha
          rcases ha with ⟨u, hu, ha⟩ | ⟨u, hu, ha⟩ | ⟨u, -, -, ha⟩ | ha
          · simp [addrs_of_bareVips hu] at ha
          · have hin : u ∈ otherConfig.vips := by simp [hvips, hu]
            simp [addrs_of_bareVips hin] at ha
          · simp [membersAt] at ha
          · have hin : vc ∈ otherConfig.vips := by simp [hvips]
            simp [addrs_of_bareVips hin] at ha
        rw [Finset.eq_empty_of_forall_notMem hnone] at hcard
        exact absurd hcard (by decide)

end System

end PacketBalance
