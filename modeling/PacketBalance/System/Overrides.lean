import PacketBalance.DataPlane.Affinity
import PacketBalance.LbState.Unchanged
import PacketBalance.Options
import PacketBalance.System.Serving
/-!
# Options across reloads

`options.h` says that the flags keep overriding the file on a reload.  They do so down to the
maps, whatever is reloaded and whatever fails: an `apply` that throws half way has taken its
settings from a configuration that the options have overridden too.
-/

namespace PacketBalance

open WriteLog Std LbState

variable {env : Env} {op : Op} {lb lb' : LbState} {d d' : CtlMaps} {cfg : Config} {o : Options}

/-! ## The settings in the model -/

/-- The model's own settings are what the options say. -/
structure Options.Holds (o : Options) (lb : LbState) : Prop where
  hash : ∀ mode, o.hash = some mode → lb.hash = mode
  noHealthCheck : o.noHealthCheck = true → lb.healthEnabled = false

namespace Options

theorem Holds.congr (h : o.Holds lb) (hhash : lb'.hash = lb.hash)
    (henabled : lb'.healthEnabled = lb.healthEnabled) : o.Holds lb' :=
  ⟨fun mode hm => hhash.trans (h.hash mode hm), fun hn => henabled.trans (h.noHealthCheck hn)⟩

theorem Governs.holds (h : o.Governs cfg) (lb : LbState) : o.Holds { lb with
    healthEnabled := cfg.health.enabled
    nextHop := cfg.nextHopBe
    hash := cfg.hash } :=
  ⟨h.hash, h.noHealthCheck⟩

theorem Holds.preserves_onReals {α : Type} (m : TableM α) :
    Preserves (fun _ => o.Holds) (onReals m) := by
  refine Preserves.zoom (I := o.Holds) ?_ m
  exact fun _ _ h => h.congr rfl rfl

theorem Holds.closed {K : VipSpec → UInt32 → Prop} : Closed env K (fun _ => o.Holds) where
  edit h _ _ := h.congr rfl rfl
  tick h := h.congr rfl rfl
  join _ h _ _ _ := h.congr rfl rfl
  leave h _ _ := h.congr rfl rfl
  enter _ _ _ h := h.congr rfl rfl
  remove h _ := h.congr rfl rfl
  ids _ h := h.congr rfl rfl
  other h _ := h
  acquire _ := preserves_onReals _
  release _ := preserves_onReals _
  ask _ := by
    refine Preserves.of_get.bind fun lb => .ite (fun _ => .of_pure _) fun _ => ?_
    split
    · exact .of_pure _
    · exact (preserves_onReals _).bind fun _ => .of_pure _

theorem Holds.adoptLocked : Preserves (fun _ => o.Holds) adoptLocked :=
  (preserves_onReals _).bind fun _ => Preserves.of_durable.bind fun _ =>
    .of_modify fun _ _ h => h.congr rfl rfl

theorem Governs.apply_holds (h : o.Governs cfg) (hok : cfg.Ok) (env : Env) (d : CtlMaps)
    (lb : LbState) : wp (LbState.apply env cfg) (fun _ _ => True) (fun _ _ lb' => o.Holds lb')
      (fun _ _ _ => True) d lb :=
  Holds.closed.wp_apply hok (Holds.preserves_onReals _) (fun _ _ h => h.congr rfl rfl)
    (fun _ _ _ => trivial)
    (wp_mono (wp_true _) (fun _ _ hw => hw) (fun _ _ lb _ => h.holds lb) fun _ _ _ h => h)

theorem Governs.preserves_apply (h : o.Governs cfg) (hok : cfg.Ok) :
    Preserves (fun _ => o.Holds) (LbState.apply env cfg) := by
  intro d lb hlb
  refine Holds.closed.wp_apply hok (Holds.preserves_onReals _) (fun _ _ h => h.congr rfl rfl)
    (fun _ _ h => h) ?_
  have hconfig : Preserves (fun _ => o.Holds) (writeConfigMap env cfg) :=
    Closed.preserves_writeConfigMap (fun h _ => h) cfg
  exact wp_imp ((Holds.adoptLocked.when.bind fun _ => hconfig) d lb hlb) fun _ _ lb _ => h.holds lb

theorem Holds.preserves_run (hgov : ∀ cfg, op = .apply cfg → o.Governs cfg.toConfig) :
    Preserves (fun _ => o.Holds) (op.run env) := by
  refine Holds.closed.preserves_run ?_ ?_ ?_
  · exact fun cfg hop => (hgov cfg hop).preserves_apply cfg.ok
  · exact fun t r rise fall _ =>
      Holds.closed (K := fun _ _ => True).preserves_reportHealth (fun _ _ _ _ h => h.congr rfl rfl)
        t r rise fall
  · intro ip mac _
    refine Holds.closed (K := fun _ _ => True).preserves_neighborResolved fun d lb h => ?_
    have hset : Preserves (fun _ => o.Holds)
        (Prog.fold (lb.resolvedAddrs ip) [] (setOne env mac.mac)) :=
      .fold fun a _ newly => Preserves.of_get.bind fun _ => (Holds.preserves_onReals _).bind
        fun _ => .of_pure _
    exact hset d lb h

end Options

/-! ## The `config` map -/

/-- The map holds what `write_config_map` makes of a configuration that the options govern. -/
def Options.Written (o : Options) (d : CtlMaps) : Prop :=
  ∃ cfg mac, d.config = configValue cfg mac ∧ o.Governs cfg

theorem OpWrite.config {d₁ : CtlMaps} {v : PbConfig}
    (h : OpWrite env op lb d d₁ (.configWrite v)) :
    ∃ cfg mac, op = .apply cfg ∧ v = configValue cfg.toConfig mac := by
  cases h with
  | apply cfg hop hw =>
      cases hw with
      | config mac hd => exact ⟨cfg, mac, hop, rfl⟩
      | drop _ _ _ _ _ _ _ _ _ _ _ _ _ hw => cases hw
      | vip _ _ _ _ _ _ _ hw =>
          cases hw with
          | slot _ _ _ _ _ hw => cases hw
      | finish _ _ _ _ hw => cases hw
  | delete _ _ _ _ hw => cases hw
  | reshape _ _ _ _ hw =>
      cases hw with
      | slot _ _ _ _ _ hw => cases hw
  | harmless hw =>
      cases hw with
      | slot _ hw => cases hw

theorem write_config {w : MapWrite} (hw : ∀ v, w ≠ .configWrite v) (d : CtlMaps) :
    (Durable.write d w).config = d.config := by
  cases w with
  | configWrite v => exact absurd rfl (hw v)
  | _ => rfl

/-- At every moment of an operation, also of one that throws. -/
theorem Options.Written.run (h : o.Written d) (henv : ArrayOk env) (hc : Consistent [] lb d)
    (hgov : ∀ cfg, op = .apply cfg → o.Governs cfg.toConfig) {log : List MapWrite}
    (hlog : log <+: (op.run env d lb).log) : o.Written (replay d log) := by
  have hspec := (Op.run_spec henv (.running hc) fun _ => hc : wp (op.run env) _ _ _ d lb)
  have hwrites : Guarded (fun d w => o.Written d → o.Written (Durable.write d w)) d
      (op.run env d lb).log := by
    refine hspec.1.mono fun d₁ w hw hold => ?_
    by_cases hconfig : ∃ v, w = .configWrite v
    · obtain ⟨v, rfl⟩ := hconfig
      obtain ⟨cfg, mac, hop, rfl⟩ := hw.config
      exact ⟨cfg.toConfig, mac, rfl, hgov cfg hop⟩
    · obtain ⟨cfg, mac, heq, hcfg⟩ := hold
      exact ⟨cfg, mac, (write_config (fun v hv => hconfig ⟨v, hv⟩) d₁).trans heq, hcfg⟩
  exact (hwrites.keeps h).at_cut h hlog

/-! ## Packets -/

theorem Options.Written.flags_noConntrack (h : o.Written d) (hno : o.noConntrack = true) :
    d.config.flags &&& pbCfgFNoConntrack ≠ 0 := by
  obtain ⟨cfg, mac, heq, hgov⟩ := h
  rw [heq]
  simp only [configValue, hgov.noConntrack hno]
  cases cfg.icmpPmtu <;> decide

theorem Options.Written.flags_icmpPmtu (h : o.Written d) (hpmtu : o.icmpPmtu = true) :
    d.config.flags &&& pbCfgFIcmpPmtu ≠ 0 := by
  obtain ⟨cfg, mac, heq, hgov⟩ := h
  rw [heq]
  simp only [configValue, hgov.icmpPmtu hpmtu]
  cases cfg.conntrackEnabled <;> decide

def Untracked (d : CtlMaps) : Prop :=
  ∀ (x : PktEnv) (dp : DpMaps) (p : Frame),
    (xdpPacketbalance d x dp p).2.conntrack = dp.conntrack ∧
      ∀ pick, (xdpPacketbalance d x dp p).1.pick = some pick → pick.source = .ring

theorem untracked_of_flags (h : d.config.flags &&& pbCfgFNoConntrack ≠ 0) : Untracked d := by
  intro x dp p
  obtain ⟨hct, hpick⟩ | ⟨q, pick, dp₁, -, -, hsend, hstep⟩ := xdp_step d x dp p
  · exact ⟨hct, fun pick hp => by simp [hpick] at hp⟩
  · have huse : q.useCt d = false := by simp [Request.useCt, h]
    have hpick : (xdpPacketbalance d x dp p).1.pick = some pick := by rw [hsend, send_pick]
    rw [huse] at hstep
    generalize (xdpPacketbalance d x dp p).2 = dp' at hstep
    cases hstep with
    | hit _ _ hyes => cases hyes
    | store _ hyes => cases hyes
    | hash _ _ hdp =>
        refine ⟨hdp, fun pick' hp => ?_⟩
        obtain rfl := Option.some.inj (hpick.symm.trans hp)
        rfl

/-! ## Runs -/

namespace Serving

/-- What a reload applies: what it has read under the options, with the keys that take effect
on restart only as the daemon was started with. -/
def Reloads (o : Options) (first : FileConfig) (cfg : ValidConfig) : Prop :=
  ∃ src read, loadConfig src o = .ok read ∧ cfg = (read.keepRunning first).toValidConfig

theorem Reloads.governs {first : FileConfig} {cfg : ValidConfig} (h : Reloads o first cfg)
    (hfirst : o.Governs first.toConfig) : o.Governs cfg.toConfig := by
  obtain ⟨src, read, hread, rfl⟩ := h
  exact (Options.governs_of_loadConfig hread).keepRunning hfirst

/-- Options that the daemon was started with hold for as long as it runs: whatever files are
reloaded, whatever else is done, and whatever of it fails.  The data plane keeps to them after
every write of the operation that is under way. -/
theorem options_survive_reloads {src : Sources} {first : FileConfig}
    (hfirst : loadConfig src o = .ok first) (hpinned : PinnedOn ∅ d) (henv : ArrayOk env)
    (hok : ((Op.apply first.toValidConfig).run env d { interface := first.interface }).res = .ok ())
    {xs : List (Env × Op)} {s : Serving}
    (hrun : Path Step xs
      (after ⟨d, { interface := first.interface }⟩ env (.apply first.toValidConfig)) s)
    (hreloads : ∀ env cfg, (env, Op.apply cfg) ∈ xs → Reloads o first cfg) :
    (∀ mode, o.hash = some mode → s.lb.hash = mode) ∧
    (o.noHealthCheck = true → s.lb.healthEnabled = false) ∧
    (o.noConntrack = true → Untracked s.ctl) ∧
    (o.icmpPmtu = true → s.ctl.config.flags &&& pbCfgFIcmpPmtu ≠ 0) ∧
    ∀ env' (op : Op) log, ArrayOk env' → (∀ cfg, op = .apply cfg → Reloads o first cfg) →
      log <+: (op.run env' s.ctl s.lb).log →
      (o.noConntrack = true → Untracked (replay s.ctl log)) ∧
      (o.icmpPmtu = true → (replay s.ctl log).config.flags &&& pbCfgFIcmpPmtu ≠ 0) := by
  have hgov := Options.governs_of_loadConfig hfirst
  have happ := started_applied hpinned henv hok
  have hstart : Reachable
      (after ⟨d, { interface := first.interface }⟩ env (.apply first.toValidConfig)) :=
    ⟨d, _, env, _, [], hpinned, henv, hok, rfl⟩
  have hend : Reachable s ∧ o.Holds s.lb ∧ o.Written s.ctl := by
    refine hrun.invariant (I := fun _ s => Reachable s ∧ o.Holds s.lb ∧ o.Written s.ctl) ?_ ?_
    · obtain ⟨mac, hmac⟩ := happ.config
      exact ⟨hstart, (hgov.apply_holds first.ok env d _).of_ok hok, _, mac, hmac, hgov⟩
    · rintro done ⟨env', op⟩ rest hxs s₁ s₂ ⟨hreach, hholds, hwritten⟩ hstep
      have hgov' : ∀ cfg, op = .apply cfg → o.Governs cfg.toConfig := by
        rintro cfg rfl
        exact (hreloads env' cfg (by simp [hxs])).governs hgov
      refine ⟨hreach.step hstep, ?_⟩
      obtain ⟨henv', rfl⟩ := hstep
      exact ⟨(Options.Holds.preserves_run hgov').at_end hholds,
        hwritten.run henv' hreach.live.consistent hgov' List.prefix_rfl⟩
  obtain ⟨hreach, hholds, hwritten⟩ := hend
  refine ⟨hholds.hash, hholds.noHealthCheck,
    fun hno => untracked_of_flags (hwritten.flags_noConntrack hno), hwritten.flags_icmpPmtu, ?_⟩
  intro env' op log henv' hop hlog
  have hnow : o.Written (replay s.ctl log) :=
    hwritten.run henv' hreach.live.consistent (fun cfg h => (hop cfg h).governs hgov) hlog
  exact ⟨fun hno => untracked_of_flags (hnow.flags_noConntrack hno), hnow.flags_icmpPmtu⟩

def webSources : Sources where
  conv := Yaml.plain
  load _ := .ok (ConfigFile.render Yaml.plainSpelling ConfigFile.webFile)
  files _ := some ""

def naiveOptions : Options := { hash := some .modulo, noConntrack := true }

theorem options_survive_reloads_web : ∃ (first : FileConfig) (s : Serving),
    loadConfig webSources naiveOptions = .ok first ∧ first.hash = .modulo ∧
    s.lb.hash = .modulo ∧
    ∀ log, log <+: ((Op.apply first.toValidConfig).run ringlessEnv s.ctl s.lb).log →
      Untracked (replay s.ctl log) := by
  have hfile : loadConfigFile webSources naiveOptions.configPath = .ok ConfigFile.webFile :=
    ConfigFile.parseDocument_render Yaml.plainSpelling ConfigFile.webFile_writable
  have hparse : Options.parseOptions [(.hash, "modulo"), (.noConntrack, "")] [] =
      .ok naiveOptions := rfl
  have hload : ∃ c, loadConfig webSources naiveOptions = .ok c :=
    (Options.exists_loadConfig_iff hparse).mpr ⟨⟨_, hfile⟩, nofun⟩
  obtain ⟨first, hfirst⟩ := hload
  have henv := System.answeringEnv_healthy
  have hpinned := CtlMaps.empty_pinned.on ∅
  have hok := (System.init_fits first.interface first.toValidConfig).apply_ok henv
    (.restarted first.interface rfl hpinned) rfl first.ok
  have hrun : Path Step [(ringlessEnv, .apply first.toValidConfig)]
      (after ⟨.empty, { interface := first.interface }⟩ System.answeringEnv
        (.apply first.toValidConfig)) _ := ⟨_, ⟨ringlessEnv_arrayOk, rfl⟩, rfl⟩
  have hsame : ∀ cfg, Op.apply first.toValidConfig = .apply cfg →
      Reloads naiveOptions first cfg := by
    intro cfg hop
    obtain rfl := Op.apply.inj hop
    exact ⟨webSources, first, hfirst, rfl⟩
  have hreloads : ∀ env cfg, (env, Op.apply cfg) ∈ [(ringlessEnv, .apply first.toValidConfig)] →
      Reloads naiveOptions first cfg :=
    fun env cfg hmem => hsame cfg (Prod.mk.inj (List.mem_singleton.mp hmem)).2.symm
  obtain ⟨hhash, -, -, -, hwhile⟩ :=
    options_survive_reloads hfirst hpinned henv.arrayOk hok hrun hreloads
  refine ⟨first, _, hfirst, (Options.governs_of_loadConfig hfirst).hash _ rfl, hhash _ rfl, ?_⟩
  exact fun log hlog => (hwhile ringlessEnv _ log ringlessEnv_arrayOk hsame hlog).1 rfl

end Serving

end PacketBalance
