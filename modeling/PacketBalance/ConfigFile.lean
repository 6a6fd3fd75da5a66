import PacketBalance.Cidr
import PacketBalance.Commands
import PacketBalance.Lib.Except
import PacketBalance.Lib.Yaml
import PacketBalance.System.Reload
/-!
# The configuration file

`parse_config` of `src/core/config.cpp`, behind the YAML library, with its helpers.  What it
returns has passed `validate_config`.
-/

namespace PacketBalance

open Text

/-! ## Errors -/

/-- What goes out of the parser: its own `std::runtime_error`, or an exception of the YAML
library, whose text it does not choose. -/
inductive ConfigError where
  | runtime (text : String)
  | yaml
deriving DecidableEq, Repr

namespace ConfigFile

/-! ## Helpers of the parser -/

section Helpers

variable (conv : Yaml.Conversions)

def checkKey (place : String) (allowed : List String) (key : Yaml) : Except ConfigError Unit :=
  match conv.string key with
  | none => .error .yaml
  | some key =>
      if key ∈ allowed then .ok ()
      else .error (.runtime ("config: unknown key `" ++ place ++ key ++ "`"))

/-- `place` is the source's `where`. -/
def checkKeys (node : Yaml) (place : String) (allowed : List String) : Except ConfigError Unit :=
  match node with
  | .map entries => forM entries fun kv => checkKey conv place allowed kv.1
  | _ => .error (.runtime ("config: `" ++ place ++ "` must be a mapping"))

variable {α : Type} (as : Yaml → Option α)

/-- `v.as<T>()` with its `catch`. -/
def convert (v : Yaml) (key place : String) : Except ConfigError α :=
  match as v with
  | some a => .ok a
  | none => .error (.runtime ("config: bad value for `" ++ place ++ key ++ "`"))

def get (node : Yaml) (key place : String) (fallback : α) : Except ConfigError α :=
  match node.find? conv key with
  | none => .ok fallback
  | some v => convert as v key place

def require (node : Yaml) (key place : String) : Except ConfigError α :=
  match node.find? conv key with
  | none => .error (.runtime ("config: `" ++ place ++ key ++ "` is required"))
  | some v => convert as v key place

/-- The `std::invalid_argument` of a shared parser gets the key it came from. -/
def withKey (key : String) (x : Except String α) : Except ConfigError α :=
  x.mapError fun e => .runtime ("config: `" ++ key ++ "`: " ++ e)

end Helpers

def parseXdpMode (s : String) : Except String XdpMode :=
  if s = "native" then .ok .native
  else if s = "generic" then .ok .generic
  else if s = "auto" then .ok .auto
  else .error ("bad xdp_mode (native|generic|auto): " ++ s)

def xdpModeName : XdpMode → String
  | .native => "native"
  | .generic => "generic"
  | .auto => "auto"

def parseHashMode (s : String) : Except String HashMode :=
  if s = "maglev" then .ok .maglev
  else if s = "modulo" then .ok .modulo
  else .error ("bad hash mode (maglev|modulo): " ++ s)

def parseProto (s place : String) : Except ConfigError UInt8 :=
  if s = "tcp" then .ok 6
  else if s = "udp" then .ok 17
  else .error (.runtime ("config: `" ++ place ++ "proto` must be tcp or udp, got " ++ s))

/-! ## VIPs -/

section Parser

variable (conv : Yaml.Conversions)

def realKeys : List String := ["address", "weight"]

def vipKeys : List String := ["address", "port", "proto", "no_conntrack", "reals"]

def parseReal (n : Yaml) (rwhere : String) : Except ConfigError RealConfig := do
  checkKeys conv n rwhere realKeys
  let addr ← require conv conv.string n "address" rwhere
  let addrBe ← withKey (rwhere ++ "address") (parseIpv4 .little addr)
  let w ← get conv conv.int n "weight" rwhere 1
  if w.toInt < 0 then .error (.runtime ("config: `" ++ rwhere ++ "weight` must be >= 0"))
  else .ok { addrBe, weight := w.toInt.toNat }

def parseReals (n : Yaml) (place : String) : Except ConfigError (List RealConfig) :=
  match n.find? conv "reals" with
  | none => .ok []
  | some .null => .ok []
  | some (.seq reals) =>
      reals.zipIdx.mapM fun (real, i) =>
        parseReal conv real (place ++ "reals[" ++ toString i ++ "].")
  | some _ => .error (.runtime ("config: `" ++ place ++ "reals` must be a list"))

def parsePortKey (n : Yaml) (place : String) : Except ConfigError UInt16 := do
  let port ← require conv conv.int n "port" place
  if port.toInt < 1 ∨ 65535 < port.toInt then
    .error (.runtime ("config: `" ++ place ++ "port` out of range"))
  else .ok (portToBe .little (UInt16.ofNat port.toInt.toNat))

def parseVip (n : Yaml) (index : Nat) : Except ConfigError VipConfig := do
  let place := "vips[" ++ toString index ++ "]."
  checkKeys conv n place vipKeys
  let addr ← require conv conv.string n "address" place
  let addrBe ← withKey (place ++ "address") (parseIpv4 .little addr)
  let portBe ← parsePortKey conv n place
  let proto ← require conv conv.string n "proto" place
  let proto ← parseProto proto place
  let noConntrack ← get conv conv.bool n "no_conntrack" place false
  let reals ← parseReals conv n place
  .ok { spec := ⟨addrBe, portBe, proto⟩, noConntrack, reals }

def parseVips (root : Yaml) : Except ConfigError (List VipConfig) :=
  match root.find? conv "vips" with
  | none => .ok []
  | some .null => .ok []
  | some (.seq vips) => vips.zipIdx.mapM fun (vip, i) => parseVip conv vip i
  | some _ => .error (.runtime "config: `vips` must be a list")

/-! ## The other sections -/

/-- The conversion stands outside of `get`, so that nothing catches its exception. -/
def parseNextHop (root : Yaml) : Except ConfigError (Option UInt32) :=
  match root.find? conv "next_hop" with
  | none => .ok none
  | some .null => .ok none
  | some v =>
      match conv.string v with
      | none => .error .yaml
      | some s => (withKey "next_hop" (parseIpv4 .little s)).map some

def conntrackKeys : List String := ["enabled", "size"]

def parseConntrack (root : Yaml) : Except ConfigError (Bool × Nat) :=
  match root.find? conv "conntrack" with
  | none => .ok (true, pbCtDefaultSize)
  | some ct => do
      checkKeys conv ct "conntrack." conntrackKeys
      let enabled ← get conv conv.bool ct "enabled" "conntrack." true
      let size ← get conv conv.longLong ct "size" "conntrack." (Int64.ofNat pbCtDefaultSize)
      if size.toInt ≤ 0 ∨ 2 ^ 27 < size.toInt then
        .error (.runtime "config: `conntrack.size` must be in 1..134217728")
      else .ok (enabled, size.toInt.toNat)

def metricsKeys : List String := ["listen"]

def parseMetrics (root : Yaml) (fallback : String) : Except ConfigError String :=
  match root.find? conv "metrics" with
  | none => .ok fallback
  | some m => do
      checkKeys conv m "metrics." metricsKeys
      get conv conv.string m "listen" "metrics." fallback

def healthKeys : List String := ["enabled", "interval_ms", "timeout_ms", "fall", "rise"]

/-- A count or a time of the `health_check` section. -/
def getUint32 (h : Yaml) (key : String) (fallback : Nat) : Except ConfigError Nat :=
  (get conv conv.uint32 h key "health_check." (UInt32.ofNat fallback)).map UInt32.toNat

def parseHealthCheck (root : Yaml) : Except ConfigError HealthCheckConfig :=
  let c : HealthCheckConfig := {}
  match root.find? conv "health_check" with
  | none => .ok c
  | some h => do
      checkKeys conv h "health_check." healthKeys
      let enabled ← get conv conv.bool h "enabled" "health_check." true
      let intervalMs ← getUint32 conv h "interval_ms" c.intervalMs
      let timeoutMs ← getUint32 conv h "timeout_ms" c.timeoutMs
      let fall ← getUint32 conv h "fall" c.fall
      let rise ← getUint32 conv h "rise" c.rise
      .ok { enabled, intervalMs, timeoutMs, fall, rise }

/-! ## The document -/

/-- The keys that `validate_config` does not read. -/
structure Paths where
  xdpMode : XdpMode := .auto
  socket : String := "/run/packetbalance.sock"
  pinPath : String := "/sys/fs/bpf/packetbalance"
  metricsListen : String := "127.0.0.1:9101"

/-- The call of `validate_config` and the return. -/
def validated (cfg : Config) (p : Paths) : Except ConfigError FileConfig :=
  match h : validateConfig cfg with
  | .error text => .error (.runtime text)
  | .ok () => .ok { toConfig := cfg, valid := h, xdpMode := p.xdpMode, socket := p.socket,
                    pinPath := p.pinPath, metricsListen := p.metricsListen }

def rootKeys : List String :=
  ["interface", "xdp_mode", "hash", "encap_src_prefix", "next_hop", "icmp_pmtu", "conntrack",
    "socket", "pin_path", "metrics", "health_check", "vips"]

/-- `parse_config` on what the YAML library has read. -/
def parseDocument (root : Yaml) : Except ConfigError FileConfig := do
  let c : Paths := {}
  checkKeys conv root "" rootKeys
  let interface ← require conv conv.string root "interface" ""
  let mode ← get conv conv.string root "xdp_mode" "" "auto"
  let xdpMode ← withKey "xdp_mode" (parseXdpMode mode)
  let mode ← get conv conv.string root "hash" "" "maglev"
  let hash ← withKey "hash" (parseHashMode mode)
  let network ← require conv conv.string root "encap_src_prefix" ""
  let encapSrc ← withKey "encap_src_prefix" (parseCidr .little network)
  let nextHopBe ← parseNextHop conv root
  let icmpPmtu ← get conv conv.bool root "icmp_pmtu" "" false
  let (conntrackEnabled, conntrackSize) ← parseConntrack conv root
  let socket ← get conv conv.string root "socket" "" c.socket
  let pinPath ← get conv conv.string root "pin_path" "" c.pinPath
  let metricsListen ← parseMetrics conv root c.metricsListen
  let health ← parseHealthCheck conv root
  let vips ← parseVips conv root
  validated { interface, hash, encapSrc, nextHopBe, conntrackEnabled, conntrackSize, icmpPmtu,
              health, vips } { xdpMode, socket, pinPath, metricsListen }

/-- `load` is the YAML library's reader. -/
def parseConfig (load : String → Except String Yaml) (text : String) :
    Except ConfigError FileConfig :=
  match load text with
  | .error e => .error (.runtime ("config: YAML syntax: " ++ e))
  | .ok root => parseDocument conv root

end Parser

end ConfigFile

end PacketBalance
