import PacketBalance.Arguments
import PacketBalance.ConfigFile.Format
/-!
# The command line of the daemon

`src/daemon/options.cpp`, and `Daemon::load_config`: the options override what the file says,
and what they make of it is validated again.  What `getopt_long` makes of `argv` is given: the
options in their order with their arguments, and what is left over.
-/

namespace PacketBalance

open ConfigFile

inductive LogLevel where
  | debug
  | info
  | warn
  | error
deriving DecidableEq, Repr

def parseLevel (s : String) : Except String LogLevel :=
  if s = "debug" then .ok .debug
  else if s = "info" then .ok .info
  else if s = "warn" then .ok .warn
  else if s = "error" then .ok .error
  else .error ("bad log level (debug|info|warn|error): " ++ s)

structure Options where
  configPath : String := "/etc/packetbalance/packetbalance.yaml"
  interface : Option String := none
  xdpMode : Option XdpMode := none
  hash : Option HashMode := none
  noConntrack : Bool := false
  icmpPmtu : Bool := false
  conntrackSize : Option UInt32 := none
  socket : Option String := none
  pinPath : Option String := none
  metricsListen : Option String := none
  noHealthCheck : Bool := false
  detachOnExit : Bool := false
  recreateMaps : Bool := false
  logLevel : LogLevel := .info
deriving DecidableEq, Repr

namespace Options

/-! ## Parsing -/

/-- What `getopt_long` returns; `unknown` is its question mark. -/
inductive Flag where
  | config
  | interface
  | xdpMode
  | hash
  | noConntrack
  | icmpPmtu
  | conntrackSize
  | socket
  | pinPath
  | metricsListen
  | noHealthCheck
  | recreateMaps
  | detachOnExit
  | logLevel
  | help
  | unknown
deriving DecidableEq, Repr

/-- How the daemon ends before it starts: with status 0, or with status 2 and a text. -/
inductive Exit where
  | help
  | usage (text : String)
deriving DecidableEq, Repr

/-- The `catch` around the cases. -/
def badValue (arg what : String) : Exit := .usage ("bad value '" ++ arg ++ "': " ++ what)

def set (o : Options) (flag : Flag) (arg : String) : Except Exit Options :=
  match flag with
  | .config => .ok { o with configPath := arg }
  | .interface => .ok { o with interface := some arg }
  | .xdpMode => do
      let mode ← (parseXdpMode arg).mapError (badValue arg)
      .ok { o with xdpMode := some mode }
  | .hash => do
      let mode ← (parseHashMode arg).mapError (badValue arg)
      .ok { o with hash := some mode }
  | .noConntrack => .ok { o with noConntrack := true }
  | .icmpPmtu => .ok { o with icmpPmtu := true }
  | .conntrackSize => do
      let n ← (conntrackSizeOption arg).mapError .usage
      .ok { o with conntrackSize := some n }
  | .socket => .ok { o with socket := some arg }
  | .pinPath => .ok { o with pinPath := some arg }
  | .metricsListen => .ok { o with metricsListen := some arg }
  | .noHealthCheck => .ok { o with noHealthCheck := true }
  | .recreateMaps => .ok { o with recreateMaps := true }
  | .detachOnExit => .ok { o with detachOnExit := true }
  | .logLevel => do
      let level ← (parseLevel arg).mapError (badValue arg)
      .ok { o with logLevel := level }
  | .help => .error .help
  | .unknown => .error (.usage "unknown option")

def parseOptions (flags : List (Flag × String)) (rest : List String) : Except Exit Options := do
  let o ← flags.foldlM (fun o f => o.set f.1 f.2) {}
  match rest with
  | [] => .ok o
  | arg :: _ => .error (.usage ("unexpected argument: " ++ arg))

/-! ## Overriding the file -/

/-- The two halves of a `Config`. -/
def applyTo (o : Options) (cfg : Config) (p : Paths) : Config × Paths :=
  ({ cfg with
      interface := o.interface.getD cfg.interface
      hash := o.hash.getD cfg.hash
      conntrackEnabled := if o.noConntrack then false else cfg.conntrackEnabled
      icmpPmtu := if o.icmpPmtu then true else cfg.icmpPmtu
      conntrackSize := (o.conntrackSize.map UInt32.toNat).getD cfg.conntrackSize
      health := { cfg.health with
        enabled := if o.noHealthCheck then false else cfg.health.enabled } },
    { xdpMode := o.xdpMode.getD p.xdpMode
      socket := o.socket.getD p.socket
      pinPath := o.pinPath.getD p.pinPath
      metricsListen := o.metricsListen.getD p.metricsListen })

end Options

/-- What the daemon finds outside: the YAML library and the files. -/
structure Sources where
  conv : Yaml.Conversions
  load : String → Except String Yaml
  files : String → Option String

def loadConfigFile (src : Sources) (path : String) : Except ConfigError FileConfig :=
  match src.files path with
  | none => .error (.runtime ("config: cannot open " ++ path))
  | some text => parseConfig src.conv src.load text

def FileConfig.paths (c : FileConfig) : Paths :=
  ⟨c.xdpMode, c.socket, c.pinPath, c.metricsListen⟩

def loadConfig (src : Sources) (o : Options) : Except ConfigError FileConfig := do
  let cfg ← loadConfigFile src o.configPath
  let (cfg, p) := o.applyTo cfg.toConfig cfg.paths
  validated cfg p

namespace Options

/-! ## What was parsed -/

def SizeOk (o : Options) : Prop := ∀ n, o.conntrackSize = some n → 1 ≤ n.toNat ∧ n.toNat ≤ 2 ^ 27

theorem SizeOk.congr {o o' : Options} (h : o.SizeOk) (hsize : o'.conntrackSize = o.conntrackSize) :
    o'.SizeOk := fun n hn => h n (hsize ▸ hn)

theorem set_sizeOk {o o' : Options} {flag : Flag} {arg : String} (h : o.SizeOk)
    (hset : o.set flag arg = .ok o') : o'.SizeOk := by
  cases flag with
  | conntrackSize =>
      obtain ⟨n, hn, ho⟩ := Except.bind_eq_ok_iff.mp hset
      obtain ⟨u, -, htakes⟩ := conntrackSizeOption_eq_ok_iff.mp (Except.mapError_eq_ok_iff.mp hn)
      obtain rfl := Except.ok.inj ho
      intro m hm
      obtain rfl := Option.some.inj hm
      exact ⟨htakes.pos, htakes.le⟩
  | xdpMode | hash | logLevel =>
      obtain ⟨_, -, ho⟩ := Except.bind_eq_ok_iff.mp hset
      obtain rfl := Except.ok.inj ho
      exact h.congr rfl
  | help | unknown => cases hset
  | _ =>
      obtain rfl := Except.ok.inj hset
      exact h.congr rfl

theorem parseOptions_sizeOk {flags : List (Flag × String)} {rest : List String} {o : Options}
    (h : parseOptions flags rest = .ok o) : o.SizeOk := by
  obtain ⟨o', hflags, hrest⟩ := Except.bind_eq_ok_iff.mp h
  have hloop : ∀ (fs : List (Flag × String)) (o₀ o₁ : Options), o₀.SizeOk →
      fs.foldlM (fun o f => o.set f.1 f.2) o₀ = .ok o₁ → o₁.SizeOk := by
    intro fs
    induction fs with
    | nil => exact fun o₀ o₁ h₀ hfold => Except.ok.inj hfold ▸ h₀
    | cons f fs ih =>
        intro o₀ o₁ h₀ hfold
        rw [List.foldlM_cons] at hfold
        obtain ⟨o₂, hset, hfold⟩ := Except.bind_eq_ok_iff.mp hfold
        exact ih o₂ o₁ (set_sizeOk h₀ hset) hfold
  cases rest with
  | nil => exact Except.ok.inj hrest ▸ hloop flags {} o' nofun hflags
  | cons arg rest => cases hrest

/-! ## What is loaded -/

/-- An interface is the only thing on the command line that can make a valid file invalid. -/
theorem validateConfig_applyTo {o : Options} (ho : o.SizeOk) (c : FileConfig) :
    validateConfig (o.applyTo c.toConfig c.paths).1 = .ok () ↔ o.interface ≠ some "" := by
  obtain ⟨hsettings, hok⟩ := validateConfig_iff.mp c.valid
  rw [validateConfig_iff]
  constructor
  · rintro ⟨hset, -⟩ hempty
    exact hset.interface (by simp [applyTo, hempty])
  · intro hne
    refine ⟨{ interface := ?_, encapSrc := hsettings.encapSrc, conntrackSize := ?_,
              health := hsettings.health, timeout := hsettings.timeout }, { hok with }⟩
    · cases hi : o.interface with
      | none => simpa [applyTo, hi] using hsettings.interface
      | some i => simpa [applyTo, hi] using fun h => hne (hi.trans (congrArg some h))
    · cases hn : o.conntrackSize with
      | none => simpa [applyTo, hn] using hsettings.conntrackSize
      | some n =>
          have hpos := (ho n hn).1
          simp only [applyTo, hn, Option.map_some, Option.getD_some]
          omega

theorem loadConfig_eq_ok_iff {src : Sources} {o : Options} {c : FileConfig} :
    loadConfig src o = .ok c ↔ ∃ file, loadConfigFile src o.configPath = .ok file ∧
      o.applyTo file.toConfig file.paths = (c.toConfig, c.paths) := by
  simp only [loadConfig, Except.bind_eq_ok_iff, validated_eq_ok_iff, Prod.ext_iff]
  refine exists_congr fun file => and_congr_right fun _ => ?_
  constructor
  · rintro ⟨hcfg, hmode, hsocket, hpin, hlisten⟩
    exact ⟨hcfg.symm, by simp only [FileConfig.paths, hmode, hsocket, hpin, hlisten]⟩
  · rintro ⟨hcfg, hpaths⟩
    rw [hpaths]
    exact ⟨hcfg.symm, rfl, rfl, rfl, rfl⟩

theorem exists_loadConfig_iff {src : Sources} {o : Options} {flags : List (Flag × String)}
    {rest : List String} (hparse : parseOptions flags rest = .ok o) :
    (∃ c, loadConfig src o = .ok c) ↔
      (∃ file, loadConfigFile src o.configPath = .ok file) ∧ o.interface ≠ some "" := by
  have ho := parseOptions_sizeOk hparse
  simp only [loadConfig_eq_ok_iff]
  constructor
  · rintro ⟨c, file, hfile, happ⟩
    refine ⟨⟨file, hfile⟩, (validateConfig_applyTo ho file).mp ?_⟩
    rw [happ]
    exact c.valid
  · rintro ⟨⟨file, hfile⟩, hne⟩
    have hvalid := (validateConfig_applyTo ho file).mpr hne
    exact ⟨{ toConfig := _, valid := hvalid
             xdpMode := (o.applyTo file.toConfig file.paths).2.xdpMode
             socket := (o.applyTo file.toConfig file.paths).2.socket
             pinPath := (o.applyTo file.toConfig file.paths).2.pinPath
             metricsListen := (o.applyTo file.toConfig file.paths).2.metricsListen },
      file, hfile, rfl⟩

/-- A configuration has what the options say of the keys that a reload can change and of the
health checks. -/
structure Governs (o : Options) (cfg : Config) : Prop where
  hash : ∀ mode, o.hash = some mode → cfg.hash = mode
  noConntrack : o.noConntrack = true → cfg.conntrackEnabled = false
  icmpPmtu : o.icmpPmtu = true → cfg.icmpPmtu = true
  noHealthCheck : o.noHealthCheck = true → cfg.health.enabled = false

theorem governs_applyTo (o : Options) (cfg : Config) (p : Paths) :
    o.Governs (o.applyTo cfg p).1 where
  hash mode h := by simp [applyTo, h]
  noConntrack h := by simp [applyTo, h]
  icmpPmtu h := by simp [applyTo, h]
  noHealthCheck h := by simp [applyTo, h]

theorem governs_of_loadConfig {src : Sources} {o : Options} {c : FileConfig}
    (h : loadConfig src o = .ok c) : o.Governs c.toConfig := by
  obtain ⟨file, -, happ⟩ := loadConfig_eq_ok_iff.mp h
  have hcfg : (o.applyTo file.toConfig file.paths).1 = c.toConfig := congrArg Prod.fst happ
  exact hcfg ▸ o.governs_applyTo _ _

theorem Governs.keepRunning {o : Options} {read first : FileConfig}
    (hread : o.Governs read.toConfig) (hfirst : o.Governs first.toConfig) :
    o.Governs (read.keepRunning first).toConfig :=
  { hread with noHealthCheck := hfirst.noHealthCheck }

end Options

end PacketBalance
