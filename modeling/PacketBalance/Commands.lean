import PacketBalance.Lib.Json
import PacketBalance.LbState
import PacketBalance.MapReader.Counters
import PacketBalance.RingMap
import PacketBalance.VipSpec
/-!
# The commands of the API

`src/daemon/commands.cpp`.  A command is a program of the control plane: what changes the model
does so in one call of `LbState`, which holds its mutex; what only looks takes the mutex several
times, and the maps not at all, so each of its reads may find another state.  Log lines are left
out.
-/

namespace PacketBalance

open WriteLog

namespace LbState

def find (lb : LbState) (vip : VipSpec) : Option VipView :=
  lb.snapshot.find? fun v => v.spec = vip

def realAddrs (lb : LbState) : Std.ExtTreeMap Nat UInt32 :=
  lb.reals.addrs.foldl (fun out addr => out.insert ((lb.reals.idOf addr).getD 0) addr) ∅

def realIdOf (lb : LbState) (addr : UInt32) : Option Nat := lb.reals.idOf addr

end LbState

/-- `what` of an exception; undefined behaviour has none. -/
def LbError.what : LbError → String
  | .api text | .runtime text | .invalidArgument text | .logic text => text
  | .undefined => ""

namespace Commands

/-! ## Arguments -/

def arg (req : Json) (name : String) : Except String Json :=
  match req.find? name with
  | none => .error ("missing argument '" ++ name ++ "'")
  | some v => .ok v

def argString (req : Json) (name : String) : Except String String := do
  match ← arg req name with
  | .str s => .ok s
  | _ => .error ("argument '" ++ name ++ "' must be a string")

def argVip (req : Json) (name : String) : Except String VipSpec := do
  VipSpec.parse .little (← argString req name)

def argAddr (req : Json) (name : String) : Except String UInt32 := do
  parseIpv4 .little (← argString req name)

def argBool (req : Json) (name : String) (fallback : Bool) : Except String Bool :=
  match req.find? name with
  | none => .ok fallback
  | some (.bool b) => .ok b
  | some _ => .error ("argument '" ++ name ++ "' must be a boolean")

/-- The error of `arg_uint`. -/
def notUint (name : String) : String := "argument '" ++ name ++ "' must be a non-negative integer"

/-- `arg_uint` on an integer: 64 bits, taken for signed, of which the low 32 are returned. -/
def uintOf (name : String) (n : Int) : Except String Nat :=
  if Json.int64 n < 0 ∨ Json.int64 n > 0xffffffff then .error (notUint name)
  else .ok (n % 0x100000000).toNat

def argUint (req : Json) (name : String) (fallback : Option Nat) : Except String Nat :=
  match req.find? name, fallback with
  | none, some n => .ok n
  | _, _ => do
      match ← arg req name with
      | .int n => uintOf name n
      | _ => .error (notUint name)

/-- The language leaves open in which order a call evaluates its arguments; compilers go one way
or the other. -/
inductive ArgOrder where
  | leftToRight
  | rightToLeft
deriving DecidableEq, Repr

def ArgOrder.both {α β : Type} (order : ArgOrder) (x : Except String α) (y : Except String β) :
    Except String (α × β) :=
  match order with
  | .leftToRight => do
      let a ← x
      let b ← y
      pure (a, b)
  | .rightToLeft => do
      let b ← y
      let a ← x
      pure (a, b)

/-! ## What a request finds -/

/-- What is there when a request is handled.  `reads` holds the state at each of the request's
reads, one after the other. -/
structure Host where
  order : ArgOrder
  env : Env
  reader : MapReader
  /-- what `Daemon::reload` has read and is about to apply, or the exception on the way -/
  loaded : Except String ValidConfig
  /-- what the hook `config` returns -/
  config : Json
  lbAt : Nat → LbState
  dpAt : Nat → DpMaps
  /-- `MapReader::flows` -/
  rowsAt : FlowFilter → Nat → List FlowRow
  /-- `read_ring` -/
  ringAt : Nat → Except String (List Nat)
  /-- `monotonic_ns` -/
  now : Nat

/-- The result of a command, and whether it has called `reals_changed`. -/
structure Answer where
  result : Json
  realsChanged : Bool := false

/-! ## The commands that look -/

def macStr (mac : Mac) : String :=
  ":".intercalate (mac.bytes.toList.map fun b =>
    String.ofList [Nat.digitChar (b.toNat / 16), Nat.digitChar (b.toNat % 16)])

def protoName (p : UInt8) : String := if p = 6 then "tcp" else if p = 17 then "udp" else "?"

def hashModeName : HashMode → String
  | .maglev => "maglev"
  | .modulo => "modulo"

def kCounterNames : List (String × Counter) :=
  [("packets", .packets), ("bytes", .bytes), ("ct_hit", .ctHit), ("ct_miss", .ctMiss),
    ("hash", .hash), ("syn", .syn), ("tx", .tx), ("pass", .pass), ("drop_frag", .dropFrag),
    ("drop_opts", .dropOpts), ("drop_no_real", .dropNoReal), ("drop_adj_head", .dropAdjHead),
    ("drop_mtu", .dropMtu), ("drop_short", .dropShort), ("drop_other", .dropOther),
    ("icmp_pmtu_fwd", .icmpPmtuFwd)]

def countersJson (c : Counter → UInt64) : Json :=
  .object (kCounterNames.map fun p => (p.1, .int (c p.2).toNat))

def realJson (r : LbState.RealView) : Json :=
  .object [("addr", .str (ipv4ToString r.addr)), ("real_id", .int r.realId),
    ("weight", .int r.weight), ("up", .bool r.up), ("draining", .bool r.draining),
    ("in_ring", .bool r.inRing), ("mac", r.mac.elim .null fun mac => .str (macStr mac))]

def vipList (h : Host) : Json :=
  .arr ((h.lbAt 0).snapshot.map fun v =>
    .object [("vip", .str v.spec.str), ("vip_id", .int v.vipId), ("flags", .int v.flags.toNat),
      ("generation", .int v.generation), ("reals", .arr (v.reals.map realJson))])

/-- What `stats` has collected after some VIPs, and how often it has read a counter map. -/
structure StatsSoFar where
  vips : List (String × Json) := []
  reals : List (String × Json) := []
  counterReads : Nat := 0

def statsReal (h : Host) (acc : StatsSoFar) (r : LbState.RealView) : StatsSoFar :=
  let rs := h.reader.realCounters (h.dpAt acc.counterReads) r.realId
  { acc with
    reals := Json.put acc.reals (ipv4ToString r.addr)
      (.object [("packets", .int rs.packets.toNat), ("bytes", .int rs.bytes.toNat)])
    counterReads := acc.counterReads + 1 }

def statsVip (h : Host) (acc : StatsSoFar) (v : LbState.VipView) : StatsSoFar :=
  let c := h.reader.counters (h.dpAt acc.counterReads) v.vipId
  v.reals.foldl (statsReal h)
    { acc with
      vips := Json.put acc.vips v.spec.str (countersJson c)
      counterReads := acc.counterReads + 1 }

def optional {α : Type} (req : Json) (name : String) (read : Json → String → Except String α) :
    Except String (Option α) :=
  match req.find? name with
  | none => .ok none
  | some _ => do pure (some (← read req name))

/-- `stats`, once its argument is read. -/
def statsOf (h : Host) (only : Option VipSpec) : Except String Json := do
  let views := (h.lbAt 0).snapshot.filter fun v => only.all (v.spec = ·)
  let acc := views.foldl (statsVip h) {}
  match only with
  | some vip => if views = [] then .error ("unknown vip " ++ vip.str) else pure ()
  | none => pure ()
  let c := h.reader.counters (h.dpAt acc.counterReads) pbStatsGlobal
  pure (.object [("global", countersJson c), ("vips", .obj acc.vips), ("reals", .obj acc.reals)])

def stats (h : Host) (req : Json) : Except String Json := do
  let only ← optional req "vip" argVip
  statsOf h only

/-- The filter of `flows`. -/
def flowFilter (vip : Option VipSpec) (realId : Option Nat) (k : Flow) (v : CtValue) : Bool :=
  vip.all (fun s => decide (k.daddr = s.addrBe ∧ k.dport = s.portBe ∧ k.proto = s.proto)) &&
    realId.all fun id => decide (v.realId = id)

def realName (names : Std.ExtTreeMap Nat UInt32) (id : Nat) : String :=
  match names[id]? with
  | some addr => ipv4ToString addr
  | none => "#" ++ toString id

def flowJson (names : Std.ExtTreeMap Nat UInt32) (now : Nat) (f : FlowRow) : Json :=
  .object [("src", .str (ipv4ToString f.key.saddr)), ("dst", .str (ipv4ToString f.key.daddr)),
    ("sport", .int (portFromBe f.key.sport)), ("dport", .int (portFromBe f.key.dport)),
    ("proto", .str (protoName f.key.proto)), ("real", .str (realName names f.value.realId)),
    ("vip", .str f.key.vip.str),
    ("age_ms", .int (if now > f.value.lastSeenNs then (now - f.value.lastSeenNs) / 1000000 else 0)),
    ("cpu", .int f.cpu)]

/-- `flows`, once its filter is read; `limit` is read when the filter is known to be good. -/
def flowsOf (h : Host) (vip : Option VipSpec) (addr : Option UInt32)
    (limit : Except String Nat) : Except String Json := do
  let realId ← match addr with
    | none => pure none
    | some addr =>
        match (h.lbAt 0).realIdOf addr with
        | none => .error ("unknown real " ++ ipv4ToString addr)
        | some id => pure (some id)
  let limit ← limit
  let names := (h.lbAt 1).realAddrs
  pure (.arr ((h.rowsAt (some (flowFilter vip realId)) limit).map (flowJson names h.now)))

def flows (h : Host) (req : Json) : Except String Json := do
  let vip ← optional req "vip" argVip
  let addr ← optional req "real" argAddr
  flowsOf h vip addr (argUint req "limit" (some 1000))

/-- `++by_id[id]`. -/
def bump (byId : Std.ExtTreeMap Nat Nat) (id : Nat) : Std.ExtTreeMap Nat Nat :=
  byId.insert id (byId.getD id 0 + 1)

/-- The loop of `ring_show` over the ids. -/
def slotsJson (names : Std.ExtTreeMap Nat UInt32) (byId : Std.ExtTreeMap Nat Nat) :
    List (String × Json) :=
  byId.toList.foldl (fun slots p =>
      if p.1 = pbRealNone then Json.put slots "none" (.int p.2)
      else Json.put slots (realName names p.1) (.int p.2))
    [("none", .int 0)]

/-- `ring_show`, once its argument is read. -/
def ringShowOf (h : Host) (spec : VipSpec) : Except String Json :=
  match (h.lbAt 0).find spec with
  | none => .error ("unknown vip " ++ spec.str)
  | some view => do
      let names := (h.lbAt 1).realAddrs
      let ring ← h.ringAt view.vipId
      let byId := ring.foldl bump ∅
      pure (.object [("size", .int ring.length), ("hash", .str (hashModeName (h.lbAt 2).hash)),
        ("slots", .obj (slotsJson names byId)), ("generation", .int view.generation)])

def ringShow (h : Host) (req : Json) : Except String Json := do
  let spec ← argVip req "vip"
  ringShowOf h spec

def healthJson (v : LbState.VipView) (r : LbState.RealView) : Json :=
  .object [("vip", .str v.spec.str), ("addr", .str (ipv4ToString r.addr)), ("up", .bool r.up),
    ("checked", .bool r.checked), ("consecutive_ok", .int r.consecutiveOk.toNat),
    ("consecutive_fail", .int r.consecutiveFail.toNat), ("last_change_ms", .int r.lastChangeMs),
    ("last_rtt_us", .int r.lastRttUs.toNat)]

def health (h : Host) : Json :=
  .arr ((h.lbAt 0).snapshot.flatMap fun v => v.reals.map (healthJson v))

/-! ## Dispatch -/

/-- A failed argument is an `ApiError`. -/
def check {α : Type} (x : Except String α) : LbM α :=
  match x with
  | .ok a => pure a
  | .error text => throw (.api text)

/-- `dispatch`, once it has the name of the command. -/
def perform (h : Host) (req : Json) (cmd : String) : LbM Answer :=
  if cmd = "ping" then pure { result := .str "pong" }
  else if cmd = "vip.add" then do
    let noCt ← check (argBool req "no_conntrack" false)
    let vip ← check (argVip req "vip")
    let id ← LbState.addVip h.env vip noCt
    pure { result := .object [("vip_id", .int id)] }
  else if cmd = "vip.del" then do
    let vip ← check (argVip req "vip")
    LbState.delVip h.env vip
    pure { result := .object [] }
  else if cmd = "vip.list" then pure { result := vipList h }
  else if cmd = "real.add" then do
    let (vip, addr, weight) ← check
      (h.order.both (argVip req "vip")
        (h.order.both (argAddr req "addr") (argUint req "weight" (some 1))))
    let id ← LbState.addReal h.env vip addr weight
    pure { result := .object [("real_id", .int id)], realsChanged := true }
  else if cmd = "real.del" then do
    let (vip, addr) ← check (h.order.both (argVip req "vip") (argAddr req "addr"))
    LbState.delReal h.env vip addr
    pure { result := .object [] }
  else if cmd = "real.weight" then do
    let (vip, addr, weight) ← check
      (h.order.both (argVip req "vip")
        (h.order.both (argAddr req "addr") (argUint req "weight" none)))
    LbState.setWeight h.env vip addr weight
    pure { result := .object [] }
  else if cmd = "real.drain" ∨ cmd = "real.undrain" then do
    let (vip, addr) ← check (h.order.both (argVip req "vip") (argAddr req "addr"))
    LbState.setDraining h.env vip addr (cmd = "real.drain")
    pure { result := .object [] }
  else if cmd = "stats" then do
    let result ← check (stats h req)
    pure { result }
  else if cmd = "flows" then do
    let result ← check (flows h req)
    pure { result }
  else if cmd = "ring.show" then do
    let result ← check (ringShow h req)
    pure { result }
  else if cmd = "health" then pure { result := health h }
  else if cmd = "reload" then
    match h.loaded with
    | .error text => throw (.runtime text)
    | .ok cfg => do
        LbState.apply h.env cfg.toConfig
        pure { result := .object [], realsChanged := true }
  else if cmd = "config" then pure { result := h.config }
  else throw (.api ("unknown command '" ++ cmd ++ "'"))

def dispatch (h : Host) (req : Json) : LbM Answer := do
  let cmd ← check (argString req "cmd")
  perform h req cmd

def okResponse (result : Json) : Json := .object [("ok", .bool true), ("result", result)]

def errorResponse (text : String) : Json := .object [("ok", .bool false), ("error", .str text)]

/-- The `catch` clauses of `handle_line`: an exception becomes an answer, undefined behaviour
nothing at all. -/
def report (err : LbError) : LbM Answer :=
  match err with
  | .undefined => throw .undefined
  | err => pure { result := errorResponse err.what }

/-- What `json::parse` throws, with its `what`: a number may be out of range. -/
inductive JsonError where
  | parseError (what : String)
  | outOfRange (what : String)
deriving DecidableEq, Repr

/-- `handle_line` on what `json::parse` makes of the line. -/
def handleLine (h : Host) (line : Except JsonError Json) : LbM Answer :=
  match line with
  | .error (.parseError what) => pure { result := errorResponse ("bad json: " ++ what) }
  | .error (.outOfRange what) => pure { result := errorResponse what }
  | .ok req =>
      tryCatch (do
        if !req.isObject then throw (.api "request must be a JSON object")
        let answer ← dispatch h req
        pure { answer with result := okResponse answer.result }) report

end Commands

end PacketBalance
