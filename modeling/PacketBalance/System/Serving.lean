import PacketBalance.LbState.Live
import PacketBalance.System.Safety
/-!
# A daemon that goes on after exceptions

`CommandHandler::handle_line` reports an exception to its client, and a failed reload
leaves the daemon running: the next operation finds whatever the last one has left.
`Live` is what it can rely on.
-/

namespace PacketBalance

open WriteLog Std LbState

/-- The maps and the model between two operations. -/
structure Serving where
  ctl : CtlMaps
  lb : LbState

namespace Serving

def after (s : Serving) (env : Env) (op : Op) : Serving :=
  ⟨replay s.ctl (op.run env s.ctl s.lb).log, (op.run env s.ctl s.lb).mem⟩

def Step (x : Env × Op) (s s' : Serving) : Prop := ArrayOk x.1 ∧ s' = s.after x.1 x.2

/-- The states of a daemon whose first `apply`, on maps that are in order, has returned.
Nothing is asked of the rings it found. -/
def Reachable (s : Serving) : Prop :=
  ∃ d interface env, ∃ cfg : ValidConfig, ∃ xs, PinnedOn ∅ d ∧ ArrayOk env ∧
    ((Op.apply cfg).run env d { interface }).res = .ok () ∧
    Path Step xs (after ⟨d, { interface }⟩ env (.apply cfg)) s

variable {s s' : Serving}

theorem started_applied {d : CtlMaps} {interface : String} {env : Env} {cfg : ValidConfig}
    (hpinned : PinnedOn ∅ d) (henv : ArrayOk env)
    (hok : ((Op.apply cfg).run env d { interface }).res = .ok ()) :
    Applied env cfg.toConfig { interface } d (after ⟨d, { interface }⟩ env (.apply cfg)).ctl
      (after ⟨d, { interface }⟩ env (.apply cfg)).lb :=
  (apply_spec henv cfg.ok (.restarted interface rfl hpinned)).of_ok hok

theorem Reachable.live (h : Reachable s) : Live s.lb s.ctl := by
  obtain ⟨d, interface, env, cfg, xs, hpinned, henv, hok, hrun⟩ := h
  refine hrun.invariant (I := fun _ s => Live s.lb s.ctl)
    ((started_applied hpinned henv hok).live hpinned) ?_
  rintro _ _ _ s _ _ hlive ⟨henv', rfl⟩
  exact hlive.run henv' _

theorem Reachable.step (h : Reachable s) {x : Env × Op} (hstep : Step x s s') : Reachable s' := by
  obtain ⟨d, interface, env, cfg, xs, hpinned, henv, hok, hrun⟩ := h
  exact ⟨d, interface, env, cfg, xs ++ [x], hpinned, henv, hok, hrun.snoc hstep⟩

theorem Reachable.after (h : Reachable s) {env : Env} (henv : ArrayOk env) (op : Op) :
    Reachable (s.after env op) :=
  h.step (x := (env, op)) ⟨henv, rfl⟩

theorem Reachable.run (h : Reachable s) {xs : List (Env × Op)} (hrun : Path Step xs s s') :
    Reachable s' :=
  hrun.invariant (I := fun _ => Reachable) h fun _ _ _ _ _ _ h hstep => h.step hstep

theorem sample_reachable : ∃ s, Reachable s ∧ Applied System.answeringEnv
    System.sampleConfig.toConfig { interface := "eth0" } CtlMaps.empty s.ctl s.lb := by
  have henv := System.answeringEnv_healthy
  have hpinned := CtlMaps.empty_pinned.on ∅
  have hok := (System.init_fits "eth0" System.sampleConfig).apply_ok henv
    (.restarted "eth0" rfl hpinned) rfl System.sampleConfig.ok
  exact ⟨_, ⟨_, "eth0", _, System.sampleConfig, [], hpinned, henv.arrayOk, hok, rfl⟩,
    started_applied hpinned henv.arrayOk hok⟩

def idleConfig : ValidConfig where
  interface := "eth0"
  encapSrc := ⟨0, 0, 16⟩
  vips := []
  valid := by decide +kernel

theorem idleConfig_ok {env : Env} (henv : Healthy env) (interface : String) :
    ((Op.apply idleConfig).run env CtlMaps.empty { interface }).res = .ok () :=
  (System.init_fits interface idleConfig).apply_ok henv
    (.restarted interface rfl (CtlMaps.empty_pinned.on ∅)) rfl idleConfig.ok

/-- A daemon that serves without any VIP. -/
structure Idle (s : Serving) : Prop where
  reachable : s.Reachable
  vips : s.lb.vips = ∅
  entry : ∀ a, s.lb.reals.entry a = none

theorem Idle.used (h : Idle s) : s.lb.reals.used = ∅ :=
  Finset.eq_empty_of_forall_notMem fun a => RealTable.notMem_used.mpr (h.entry a)

theorem idle_started {env : Env} (henv : Healthy env) (interface : String) :
    Idle (after ⟨CtlMaps.empty, { interface }⟩ env (.apply idleConfig)) := by
  have hpinned := CtlMaps.empty_pinned.on ∅
  have hok := idleConfig_ok henv interface
  have happ := started_applied hpinned henv.arrayOk hok
  have hsettled := happ.settled (.restarted interface rfl hpinned)
  have hvips : (after ⟨CtlMaps.empty, { interface }⟩ env
      (.apply idleConfig)).lb.vips = ∅ := by
    rw [ExtTreeMap.eq_empty_iff_forall_not_mem]
    intro s
    rw [(happ.vips idleConfig.ok).1]
    exact List.not_mem_nil
  refine ⟨⟨_, interface, env, idleConfig, [], hpinned, henv.arrayOk, hok, rfl⟩, hvips,
    fun a => ?_⟩
  refine Option.eq_none_iff_forall_ne_some.mpr fun e he => ?_
  have hpos := hsettled.counted a e he
  rw [hsettled.refs_of_entry he, hvips] at hpos
  simp [holders] at hpos

/-- No ring can be created; every other call into the kernel succeeds. -/
def ringlessEnv : Env := { System.quietEnv with ringFault := fun _ => some (.create "ENOMEM") }

theorem ringlessEnv_fault (w : MapWrite) : ringlessEnv.fault w = none := rfl

theorem ringlessEnv_arrayOk : ArrayOk ringlessEnv := ⟨fun _ _ => rfl, fun _ _ => rfl⟩

end Serving

end PacketBalance
