import PacketBalance.System.Reconcile
import PacketBalance.System.Capacity
/-!
# Concurrent reloads

`Daemon::reload` reads the file before it takes the lock under which it applies what it
has read, and every client of the API has a thread of its own.  The lock orders the
applies, not the reads: a reload that waits for it may bring back what a later one has
replaced.  As long as reloads apply in the order in which they read, the last read wins.
-/

namespace PacketBalance

open WriteLog Std LbState

/-! ## The configuration of the daemon -/

inductive XdpMode where
  | native
  | generic
  | auto
deriving DecidableEq, Repr

/-- What `load_config` returns: a valid configuration, with the keys that only the
constructor of the daemon reads. -/
structure FileConfig extends ValidConfig where
  xdpMode : XdpMode := .auto
  socket : String := "/run/packetbalance.sock"
  pinPath : String := "/sys/fs/bpf/packetbalance"
  metricsListen : String := "127.0.0.1:9101"

theorem Config.SettingsOk.keepRunning {next config : Config} (hnext : next.SettingsOk)
    (hconfig : config.SettingsOk) :
    { next with
      interface := config.interface
      conntrackSize := config.conntrackSize
      health := { next.health with enabled := config.health.enabled } : Config }.SettingsOk :=
  { hnext with interface := hconfig.interface, conntrackSize := hconfig.conntrackSize }

/-- What a reload applies: what it has read, except that what takes effect on restart
only stays as it is. -/
def FileConfig.keepRunning (next config : FileConfig) : FileConfig where
  toConfig :=
    { next.toConfig with
      interface := config.interface
      conntrackSize := config.conntrackSize
      health := { next.health with enabled := config.health.enabled } }
  valid := by
    obtain ⟨hsettings, hok⟩ := validateConfig_iff.mp next.valid
    exact validateConfig_iff.mpr
      ⟨hsettings.keepRunning (validateConfig_iff.mp config.valid).1, { hok with }⟩
  xdpMode := config.xdpMode
  socket := config.socket
  pinPath := config.pinPath
  metricsListen := config.metricsListen

@[simp] theorem FileConfig.keepRunning_self (c : FileConfig) : c.keepRunning c = c := rfl

@[simp] theorem FileConfig.keepRunning_keepRunning (next read config : FileConfig) :
    next.keepRunning (read.keepRunning config) = next.keepRunning config := rfl

/-! ## Reloads -/

/-- The file, the daemon, and what its reloads have done.  `reads` is what they have read,
in that order, and `finished` are the positions there of those that have been answered.
The daemon's own start is the first of them. -/
structure Daemon where
  file : FileConfig
  config : FileConfig
  health : HealthCheckConfig
  ctl : CtlMaps
  lb : LbState
  reads : List FileConfig
  finished : List Nat

namespace Daemon

/-- The second half of `Daemon::reload`, under `config_mu_`.  An exception of `apply` goes
to the client. -/
def reload (s : Daemon) (env : Env) (i : Nat) (read : FileConfig) : Daemon :=
  let next := read.keepRunning s.config
  let run := (Op.apply next.toValidConfig).run env s.ctl s.lb
  let s' := { s with ctl := replay s.ctl run.log, lb := run.mem, finished := i :: s.finished }
  match run.res with
  | .ok _ => { s' with health := next.health, config := next }
  | .error _ => s'

/-- The daemon once its constructor has applied what it has read from the file. -/
def start (config : FileConfig) (env : Env) (d : CtlMaps) : Daemon :=
  let run := (Op.apply config.toValidConfig).run env d { interface := config.interface }
  { file := config
    config
    health := config.health
    ctl := replay d run.log
    lb := run.mem
    reads := [config]
    finished := [0] }

inductive Event where
  | write (file : FileConfig)
  | read
  | reload (env : Env) (i : Nat)

/-- Somebody rewrites the file, a client's reload reads it, or one that has read gets the
lock and applies. -/
inductive Step : Event → Daemon → Daemon → Prop
  | write (file : FileConfig) (s : Daemon) : Step (.write file) s { s with file }
  | read (s : Daemon) : Step .read s { s with reads := s.reads ++ [s.file] }
  | reload (env : Env) (i : Nat) (s : Daemon) (read : FileConfig)
      (hread : s.reads[i]? = some read) (hnew : i ∉ s.finished) :
      Step (.reload env i) s (s.reload env i read)

def Quiet (s : Daemon) : Prop := ∀ i < s.reads.length, i ∈ s.finished

/-- The model, the maps, the health checker and `config_` have what was read last. -/
def UpToDate (config : FileConfig) (s : Daemon) : Prop :=
  ∀ read, s.reads.getLast? = some read → s.config = read.keepRunning config ∧
    s.health = s.config.health ∧ System.Reconciled s.config.toConfig s.ctl s.lb

/-- The reload, if the event is one, has read later than every other that has applied, and
what it has read can be applied. -/
def InOrder (e : Event) (s : Daemon) : Prop :=
  ∀ env i read, e = .reload env i → s.reads[i]? = some read →
    (∀ j ∈ s.finished, j < i) ∧ Healthy env ∧
      s.lb.Fits s.ctl (read.keepRunning s.config).toConfig

variable {s s' : Daemon}

theorem InOrder.of_ne {e : Event} (h : ∀ env i, e ≠ .reload env i) : InOrder e s :=
  fun env i _ he => absurd he (h env i)

/-! ## The last read wins -/

/-- What `config_` says is in force. -/
structure Current (s : Daemon) : Prop where
  settled : Settled s.lb s.ctl
  initialized : s.lb.initialized = true
  adopted : s.lb.adoptedVipIds = ∅
  health : s.health = s.config.health
  reconciled : System.Reconciled s.config.toConfig s.ctl s.lb

theorem Current.reload_ok (h : Current s) {env : Env} (henv : Healthy env) {read : FileConfig}
    (hfits : s.lb.Fits s.ctl (read.keepRunning s.config).toConfig) (i : Nat) :
    let run := (Op.apply (read.keepRunning s.config).toValidConfig).run env s.ctl s.lb
    s.reload env i read = { s with
      config := read.keepRunning s.config
      health := (read.keepRunning s.config).health
      ctl := replay s.ctl run.log
      lb := run.mem
      finished := i :: s.finished } := by
  have hok := hfits.apply_ok henv (.running h.settled) h.adopted (read.keepRunning s.config).ok
  simp only [reload, Op.run, hok]

theorem Current.reload (h : Current s) {env : Env} (henv : Healthy env) {read : FileConfig}
    (hfits : s.lb.Fits s.ctl (read.keepRunning s.config).toConfig) (i : Nat) :
    Current (s.reload env i read) := by
  have hu : Usable s.lb s.ctl := .running h.settled
  have hcfg := (read.keepRunning s.config).ok
  have happ := (apply_spec henv.arrayOk hcfg hu.startable).of_ok
    (hfits.apply_ok henv hu h.adopted hcfg)
  rw [h.reload_ok henv hfits]
  exact ⟨happ.settled hu, happ.initialized, Effect.adopted (.apply _ rfl happ) h.adopted, rfl,
    System.applied_reconciled happ hu hcfg⟩

/-- What is in force came from the last read among the reloads that are answered. -/
structure Inv (config : FileConfig) (s : Daemon) : Prop extends Current s where
  latest : ∃ l read, s.reads[l]? = some read ∧ (∀ j ∈ s.finished, j ≤ l) ∧
    s.config = read.keepRunning config

section Steps

variable {config : FileConfig}

theorem Inv.reload (h : Inv config s) {env : Env} {i : Nat} {read : FileConfig}
    (hread : s.reads[i]? = some read) (horder : ∀ j ∈ s.finished, j < i) (henv : Healthy env)
    (hfits : s.lb.Fits s.ctl (read.keepRunning s.config).toConfig) :
    Inv config (s.reload env i read) := by
  obtain ⟨-, before, -, -, hbefore⟩ := h.latest
  refine ⟨h.toCurrent.reload henv hfits i, i, read, ?_⟩
  rw [h.reload_ok henv hfits]
  refine ⟨hread, fun j hj => ?_, ?_⟩
  · rcases List.mem_cons.mp hj with rfl | hj
    · exact Nat.le_refl j
    · exact (horder j hj).le
  · rw [hbefore, FileConfig.keepRunning_keepRunning]

theorem Inv.step (h : Inv config s) {e : Event} (hstep : Step e s s') (horder : InOrder e s) :
    Inv config s' := by
  cases hstep with
  | write file _ => exact { h with }
  | read _ =>
      obtain ⟨l, read, hread, hle, hconfig⟩ := h.latest
      have hlt : l < s.reads.length := (List.getElem?_eq_some_iff.mp hread).1
      exact { h with latest := ⟨l, read, by rwa [List.getElem?_append_left hlt], hle, hconfig⟩ }
  | reload env i _ read hread hnew =>
      obtain ⟨hlater, henv, hfits⟩ := horder env i read rfl hread
      exact h.reload hread hlater henv hfits

theorem Inv.upToDate (h : Inv config s) (hquiet : s.Quiet) : UpToDate config s := by
  intro read hlast
  obtain ⟨l, read', hread, hle, hconfig⟩ := h.latest
  obtain ⟨hlt, -⟩ := List.getElem?_eq_some_iff.mp hread
  -- the reload that read last is answered too
  have hl : l = s.reads.length - 1 :=
    Nat.le_antisymm (by omega) (hle _ (hquiet (s.reads.length - 1) (by omega)))
  rw [List.getLast?_eq_getElem?, ← hl, hread] at hlast
  obtain rfl := Option.some.inj hlast
  exact ⟨hconfig, h.health, h.reconciled⟩

end Steps

section Start

variable {config : FileConfig} {env : Env} {d : CtlMaps}

theorem start_inv (henv : ArrayOk env) (hpinned : PinnedOn ∅ d)
    (hok : ((Op.apply config.toValidConfig).run env d { interface := config.interface }).res =
      .ok ()) : Inv config (start config env d) := by
  have hu : Usable { interface := config.interface } d := .restarted _ rfl hpinned
  have happ : Applied env config.toConfig { interface := config.interface } d
      (start config env d).ctl (start config env d).lb :=
    (apply_spec henv config.ok hu.startable).of_ok hok
  exact ⟨⟨happ.settled hu, happ.initialized, Effect.adopted (.apply _ rfl happ) rfl, rfl,
    System.applied_reconciled happ hu config.ok⟩, 0, config, rfl, by simp [start], rfl⟩

/-- Where reloads apply in the order in which they have read, and each can, then whenever
none is in progress the last that was read is in force. -/
theorem last_read_in_force (henv : ArrayOk env) (hpinned : PinnedOn ∅ d)
    (hok : ((Op.apply config.toValidConfig).run env d { interface := config.interface }).res =
      .ok ()) {es : List Event}
    (hrun : Path (fun e s s' => Step e s s' ∧ InOrder e s) es (start config env d) s)
    (hquiet : s.Quiet) : UpToDate config s :=
  (hrun.invariant (I := fun _ => Inv config) (start_inv henv hpinned hok)
    fun _ _ _ _ _ _ hI hstep => hI.step hstep.1 hstep.2).upToDate hquiet

end Start

/-! ## An older reload that applies later -/

theorem Current.fits (h : Current s) (cfg : Config)
    (hcard : (s.config.addrs ∪ cfg.addrs).card ≤ pbMaxReals - 1) : s.lb.Fits s.ctl cfg := by
  refine h.settled.fits h.initialized cfg (Nat.le_trans (Finset.card_le_card ?_) hcard)
  refine Finset.union_subset_union_left fun a ha => ?_
  obtain ⟨hne, hid⟩ := h.settled.consistent.table.realsOk.mem_addrs.mp ha
  exact (h.reconciled.reals a hne).mp hid

def oldFile : FileConfig where
  toValidConfig := System.sampleConfig

def newFile : FileConfig where
  interface := "eth0"
  encapSrc := ⟨0, 0, 16⟩
  vips := [{ spec := sampleFlow.vip
             reals := [{ addrBe := 0x1500000a }, { addrBe := 0x1600000a }] }]
  valid := by decide +kernel

theorem start_ok : ((Op.apply oldFile.toValidConfig).run System.answeringEnv CtlMaps.empty
    { interface := oldFile.interface }).res = .ok () :=
  (System.init_fits _ System.sampleConfig).apply_ok System.answeringEnv_healthy
    (.restarted _ rfl (CtlMaps.empty_pinned.on ∅)) rfl System.sampleConfig.ok

theorem sample_start :
    Inv oldFile (start oldFile System.answeringEnv .empty) :=
  start_inv System.answeringEnv_healthy.arrayOk (CtlMaps.empty_pinned.on ∅) start_ok

theorem Current.exists_reload (h : Current s) {i : Nat} {read : FileConfig}
    (hread : s.reads[i]? = some read) (hnew : i ∉ s.finished)
    (hconfig : s.config.addrs ⊆ newFile.addrs) (hsub : read.addrs ⊆ newFile.addrs) :
    ∃ s', Step (.reload System.quietEnv i) s s' ∧ Current s' ∧ s'.file = s.file ∧
      s'.config = read.keepRunning s.config ∧ s'.reads = s.reads ∧
      s'.finished = i :: s.finished ∧ s.lb.Fits s.ctl (read.keepRunning s.config).toConfig := by
  have hfits : s.lb.Fits s.ctl (read.keepRunning s.config).toConfig :=
    h.fits _ (Nat.le_trans (Finset.card_le_card (Finset.union_subset hconfig hsub)) (by decide))
  have hafter := h.reload_ok System.quietEnv_healthy hfits i
  exact ⟨_, .reload System.quietEnv i s read hread hnew,
    h.reload System.quietEnv_healthy hfits i, by rw [hafter], by rw [hafter], by rw [hafter],
    by rw [hafter], hfits⟩

theorem inOrder_reload {i : Nat} {read : FileConfig} (hread : s.reads[i]? = some read)
    (horder : ∀ j ∈ s.finished, j < i)
    (hfits : s.lb.Fits s.ctl (read.keepRunning s.config).toConfig) :
    InOrder (.reload System.quietEnv i) s := by
  rintro _ _ read' ⟨⟩ hread'
  obtain rfl := Option.some.inj (hread.symm.trans hread')
  exact ⟨horder, System.quietEnv_healthy, hfits⟩

/-- One reload reads the old file and another the new one, and they get the lock in this order. -/
theorem Current.followed (h : Current s) (hfile : s.file = oldFile) (hreads : s.reads = [oldFile])
    (hfinished : s.finished = [0]) (hconfig : s.config = oldFile) :
    ∃ s', Path (fun e s s' => Step e s s' ∧ InOrder e s)
      [.read, .write newFile, .read, .reload System.quietEnv 1, .reload System.quietEnv 2] s s' ∧
      s'.Quiet := by
  have hcur : Current { s with
      file := newFile, reads := s.reads ++ [s.file] ++ [newFile] } := { h with }
  have hread₁ : (s.reads ++ [s.file] ++ [newFile])[1]? = some oldFile := by simp [hreads, hfile]
  obtain ⟨s₁, hstep₁, hcur₁, -, hconfig₁, hreads₁, hfinished₁, hfits₁⟩ :=
    hcur.exists_reload hread₁ (by simp [hfinished]) (by simp only [hconfig]; decide) (by decide)
  have hread₂ : s₁.reads[2]? = some newFile := by simp [hreads₁, hreads]
  obtain ⟨s₂, hstep₂, -, -, -, hreads₂, hfinished₂, hfits₂⟩ :=
    hcur₁.exists_reload hread₂ (by simp [hfinished₁, hfinished])
      (by simp only [hconfig₁, hconfig]; decide) subset_rfl
  have hrun : Path (fun e s s' => Step e s s' ∧ InOrder e s) [.read, .write newFile, .read] s
      { s with file := newFile, reads := s.reads ++ [s.file] ++ [newFile] } :=
    ⟨_, ⟨.read s, .of_ne nofun⟩, _, ⟨.write newFile _, .of_ne nofun⟩, _,
      ⟨.read _, .of_ne nofun⟩, rfl⟩
  refine ⟨s₂, (hrun.snoc ⟨hstep₁, inOrder_reload hread₁ ?_ hfits₁⟩).snoc
    ⟨hstep₂, inOrder_reload hread₂ ?_ hfits₂⟩, ?_⟩
  · simp [hfinished]
  · simp [hfinished₁, hfinished]
  · simp only [Quiet, hreads₂, hreads₁, hreads, hfile, hfinished₂, hfinished₁, hfinished]
    decide

theorem last_read_in_force_sample :
    ∃ s, Path (fun e s s' => Step e s s' ∧ InOrder e s)
        [.read, .write newFile, .read, .reload System.quietEnv 1, .reload System.quietEnv 2]
        (start oldFile System.answeringEnv .empty) s ∧ s.Quiet ∧ UpToDate oldFile s := by
  obtain ⟨s, hrun, hquiet⟩ := sample_start.followed rfl rfl rfl rfl
  exact ⟨s, hrun, hquiet, last_read_in_force System.answeringEnv_healthy.arrayOk
    (CtlMaps.empty_pinned.on ∅) start_ok hrun hquiet⟩

/-- One reload reads the old file and another the new one, which gets the lock first. -/
theorem Current.overtaken (h : Current s) (hfile : s.file = oldFile)
    (hreads : s.reads = [oldFile]) (hfinished : s.finished = [0])
    (hconfig : s.config = oldFile) :
    ∃ s', Path Step [.read, .write newFile, .read, .reload System.quietEnv 2,
        .reload System.quietEnv 1] s s' ∧ s'.Quiet ∧ s'.file = newFile ∧
      s'.reads.getLast? = some newFile ∧ s'.config = oldFile := by
  have hcur : Current { s with
      file := newFile, reads := s.reads ++ [s.file] ++ [newFile] } := { h with }
  obtain ⟨s₁, hstep₁, hcur₁, hfile₁, hconfig₁, hreads₁, hfinished₁, -⟩ :=
    hcur.exists_reload (i := 2) (by simp [hreads]) (by simp [hfinished])
      (by simp only [hconfig]; decide) subset_rfl
  have hread : s₁.reads[1]? = some oldFile := by simp [hreads₁, hreads, hfile]
  obtain ⟨s₂, hstep₂, -, hfile₂, hconfig₂, hreads₂, hfinished₂, -⟩ :=
    hcur₁.exists_reload hread (by simp [hfinished₁, hfinished])
      (by rw [hconfig₁]; exact subset_rfl) (by decide)
  have hrun : Path Step [.read, .write newFile, .read] s { s with
      file := newFile, reads := s.reads ++ [s.file] ++ [newFile] } :=
    ⟨_, .read s, _, .write newFile _, _, .read _, rfl⟩
  refine ⟨s₂, (hrun.snoc hstep₁).snoc hstep₂, ?_, hfile₂.trans hfile₁, ?_, ?_⟩
  · simp only [Quiet, hreads₂, hreads₁, hreads, hfile, hfinished₂, hfinished₁, hfinished]
    decide
  · simp [hreads₂, hreads₁]
  · simp only [hconfig₂, hconfig₁, hconfig, FileConfig.keepRunning_keepRunning,
      FileConfig.keepRunning_self]

/-- Both reloads are answered, the one that has read the new file last in reading order
and first in applying, and the daemon is left with the old file. -/
theorem older_reload_wins :
    ∃ s, Path Step [.read, .write newFile, .read, .reload System.quietEnv 2,
        .reload System.quietEnv 1] (start oldFile System.answeringEnv .empty) s ∧
      s.Quiet ∧ s.file = newFile ∧ s.config = oldFile ∧ ¬UpToDate oldFile s := by
  obtain ⟨s, hrun, hquiet, hfile, hlast, hconfig⟩ := sample_start.overtaken rfl rfl rfl rfl
  refine ⟨s, hrun, hquiet, hfile, hconfig, fun hnot => ?_⟩
  have hsame := (hnot newFile hlast).1
  rw [hconfig] at hsame
  exact absurd (congrArg (fun c : FileConfig => c.addrs) hsame) (by decide)

end Daemon

end PacketBalance
