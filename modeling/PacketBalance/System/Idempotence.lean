import PacketBalance.LbState.Unchanged
import PacketBalance.System.Safety
/-!
# Reloading twice

A reload changes what the configuration changes and nothing else: the ring of a VIP that is
as configured is not swapped, and a second reload of the same configuration writes the
`config` map only.
-/

namespace PacketBalance

open WriteLog Std LbState

namespace System

/-- A call that leaves the model as it is and writes no map but `config`; it throws only when
the kernel refuses that. -/
structure OnlyConfig (env : Env) (lb : LbState) (o : Outcome MapWrite LbState LbError Unit) :
    Prop where
  writes : ∀ w ∈ o.log, ∃ value, w = .configWrite value
  mem : o.mem = lb
  returns : Healthy env → o.res = .ok ()

theorem inForce_onlyConfig {env : Env} {lb : LbState} {d : CtlMaps} {cfg : ValidConfig}
    (h : InForce cfg.toConfig lb) : OnlyConfig env lb ((Op.apply cfg).run env d lb) := by
  have hspec : wp ((Op.apply cfg).run env) _ _ _ d lb := h.apply_again cfg.ok
  refine ⟨hspec.1.of_mem, ?_, fun hhealthy => ?_⟩
  · exact (wp_mono hspec (fun _ _ hw => hw) (fun _ _ _ hlb => hlb) fun _ _ _ hlb => hlb.1).at_end
  · cases hres : ((Op.apply cfg).run env d lb).res with
    | ok _ => rfl
    | error err => exact absurd hhealthy (hspec.of_error hres).2

/-- After an `apply` that returned, the same `apply` leaves everything but the `config` map;
and the first one has swapped no ring of a VIP that was as configured already. -/
theorem reload_idempotent {s : System} (h : s.Reachable) (hidle : s.pending = none)
    (hinit : s.lb.initialized = true) (cfg : ValidConfig) {env : Env} (henv : ArrayOk env)
    (hok : ((Op.apply cfg).run env s.ctl s.lb).res = .ok ()) :
    (∀ env' : Env, OnlyConfig env' ((Op.apply cfg).run env s.ctl s.lb).mem
      ((Op.apply cfg).run env' (replay s.ctl ((Op.apply cfg).run env s.ctl s.lb).log)
        ((Op.apply cfg).run env s.ctl s.lb).mem)) ∧
    ∀ vc ∈ cfg.vips, ∀ v : Vip, s.lb.vips[vc.spec]? = some v → AsConfigured vc v →
      s.lb.hash = cfg.hash → ∀ ring,
        .ringSwap v.id ring ∉ ((Op.apply cfg).run env s.ctl s.lb).log := by
  have husable := h.inv.usable hidle
  have happ := (h.inv.apply hidle cfg henv).of_ok hok
  refine ⟨fun env' => inForce_onlyConfig (happ.inForce cfg.ok), ?_⟩
  intro vc hvc v hv hsame hhash ring hring
  have hkeeps : wp ((Op.apply cfg).run env) _ _ _ s.ctl s.lb :=
    apply_keeps_ring henv cfg.ok husable.startable hinit hvc hv hsame hhash
  exact hkeeps.1.of_mem _ hring ring rfl

/-- The sample VIP is as configured after the first `apply`, so the second swaps no ring. -/
theorem reload_idempotent_sample :
    ∃ (s : System) (v : Vip), s.Reachable ∧ s.pending = none ∧
      s.lb.vips[sampleFlow.vip]? = some v ∧
      OnlyConfig quietEnv ((Op.apply sampleConfig).run answeringEnv s.ctl s.lb).mem
        ((Op.apply sampleConfig).run quietEnv
          (replay s.ctl ((Op.apply sampleConfig).run answeringEnv s.ctl s.lb).log)
          ((Op.apply sampleConfig).run answeringEnv s.ctl s.lb).mem) ∧
      ∀ ring, .ringSwap v.id ring ∉
        ((Op.apply sampleConfig).run answeringEnv s.ctl s.lb).log := by
  obtain ⟨s, hs, hidle, -, happ⟩ := Reachable.first_apply "eth0" sampleConfig answeringEnv_healthy
  have hforce := happ.inForce sampleConfig.ok
  obtain ⟨v, hv, hsame⟩ := hforce.vip _ (List.mem_singleton.mpr rfl)
  obtain ⟨hok, -⟩ := hs.reload hidle happ ((init_inv "eth0").usable rfl) sampleConfig.ok
    sampleConfig answeringEnv_healthy (by decide)
  obtain ⟨hagain, hring⟩ := reload_idempotent hs hidle hforce.initialized sampleConfig
    answeringEnv_healthy.arrayOk hok
  exact ⟨s, v, hs, hidle, hv, hagain quietEnv,
    hring _ (List.mem_singleton.mpr rfl) v hv hsame hforce.hash⟩

end System

end PacketBalance
