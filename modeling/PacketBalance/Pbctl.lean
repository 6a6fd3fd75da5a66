import PacketBalance.Arguments
import PacketBalance.Commands
import PacketBalance.Lib.Except
/-!
# The command-line client

`Args`, `vip_arg` and `build_request` of `src/pbctl/main.cpp`: the words of a command become one
JSON request.  An error is the text given to `usage`.  Of what a request asks for, the daemon
checks the addresses and the size of the numbers, which the client does not.
-/

namespace PacketBalance.Pbctl

open Commands Text Strto

/-! ## Arguments -/

/-- Positional arguments, and options with their values. -/
structure Args where
  positional : List String := []
  flags : List (String × String) := []
deriving DecidableEq, Repr

def isOption (w : String) : Bool := ['-', '-'].isPrefixOf w.toList

/-- The constructor of `Args`, with what it has collected; of an option given twice the last
value counts. -/
def scanArgs (valueFlags boolFlags : List String) (a : Args) : List String → Except String Args
  | [] => .ok a
  | w :: words =>
      if !isOption w then
        scanArgs valueFlags boolFlags { a with positional := a.positional ++ [w] } words
      else if w ∈ boolFlags then
        scanArgs valueFlags boolFlags { a with flags := (w, "") :: a.flags } words
      else if w ∈ valueFlags then
        match words with
        | [] => .error (w ++ " needs a value")
        | v :: words => scanArgs valueFlags boolFlags { a with flags := (w, v) :: a.flags } words
      else .error ("unknown option " ++ w)

namespace Args

def pos (a : Args) (i : Nat) (what : String) : Except String String :=
  match a.positional[i]? with
  | none => .error ("missing " ++ what)
  | some w => .ok w

def expectCount (a : Args) (n : Nat) : Except String Unit :=
  match a.positional[n]? with
  | none => .ok ()
  | some w => .error ("unexpected argument " ++ w)

def flag? (a : Args) (f : String) : Option String := a.flags.lookup f

end Args

def vipArg (s : String) : Except String String :=
  match VipSpec.parse .little s with
  | .error what => .error what
  | .ok _ => .ok s

/-! ## Global options -/

/-- How `main` ends without a request: `usage` with or without a message. -/
inductive Exit where
  | help
  | usage (text : String)
deriving DecidableEq, Repr

/-- The global options, and the words that are left. -/
structure Globals where
  socketPath : String
  rawJson : Bool := false
  words : List String := []
deriving DecidableEq, Repr

/-- The loop of `main`. -/
def scanGlobals (g : Globals) : List String → Except Exit Globals
  | [] => .ok g
  | w :: argv =>
      if w = "--socket" then
        match argv with
        | [] => .error (.usage "--socket needs a value")
        | path :: argv => scanGlobals { g with socketPath := path } argv
      else if w = "--json" then scanGlobals { g with rawJson := true } argv
      else if w = "-h" ∨ w = "--help" ∨ w = "help" then .error .help
      else scanGlobals { g with words := g.words ++ [w] } argv

def defaultSocket (env : Option String) : String := env.getD "/run/packetbalance.sock"

/-! ## Requests -/

def member (key : String) : Option Json → List (String × Json)
  | none => []
  | some v => [(key, v)]

def numberOption (a : Args) (f what : String) : Except String (Option Json) :=
  match a.flag? f with
  | none => .ok none
  | some s => do pure (some (.int (← number s what).toNat))

def vipOption (a : Args) : Except String (Option Json) :=
  match a.flag? "--vip" with
  | none => .ok none
  | some s => do pure (some (.str (← vipArg s)))

def vipRequest (verb : String) (rest : List String) : Except String Json :=
  if verb = "add" then do
    let a ← scanArgs [] ["--no-conntrack"] {} rest
    a.expectCount 1
    let vip ← vipArg (← a.pos 0 "VIP")
    pure (.object ([("cmd", .str "vip.add"), ("vip", .str vip)] ++
      member "no_conntrack" ((a.flag? "--no-conntrack").map fun _ => .bool true)))
  else if verb = "del" then do
    let a ← scanArgs [] [] {} rest
    a.expectCount 1
    let vip ← vipArg (← a.pos 0 "VIP")
    pure (.object [("cmd", .str "vip.del"), ("vip", .str vip)])
  else if verb = "list" then do
    let a ← scanArgs [] [] {} rest
    a.expectCount 0
    pure (.object [("cmd", .str "vip.list")])
  else .error "vip needs add|del|list"

def realRequest (verb : String) (rest : List String) : Except String Json :=
  if verb = "add" then do
    let a ← scanArgs ["--weight"] [] {} rest
    a.expectCount 2
    let vip ← vipArg (← a.pos 0 "VIP")
    let addr ← a.pos 1 "ADDR"
    let weight ← numberOption a "--weight" "weight"
    pure (.object ([("cmd", .str "real.add"), ("vip", .str vip), ("addr", .str addr)] ++
      member "weight" weight))
  else if verb = "weight" then do
    let a ← scanArgs [] [] {} rest
    a.expectCount 3
    let vip ← vipArg (← a.pos 0 "VIP")
    let addr ← a.pos 1 "ADDR"
    let weight ← number (← a.pos 2 "WEIGHT") "weight"
    pure (.object [("cmd", .str "real.weight"), ("vip", .str vip), ("addr", .str addr),
      ("weight", .int weight.toNat)])
  else if verb = "del" ∨ verb = "drain" ∨ verb = "undrain" then do
    let a ← scanArgs [] [] {} rest
    a.expectCount 2
    let vip ← vipArg (← a.pos 0 "VIP")
    let addr ← a.pos 1 "ADDR"
    pure (.object [("cmd", .str ("real." ++ verb)), ("vip", .str vip), ("addr", .str addr)])
  else .error "real needs add|del|weight|drain|undrain"

def statsRequest (rest : List String) : Except String Json := do
  let a ← scanArgs ["--vip"] [] {} rest
  a.expectCount 0
  pure (.object ([("cmd", .str "stats")] ++ member "vip" (← vipOption a)))

def flowsRequest (rest : List String) : Except String Json := do
  let a ← scanArgs ["--vip", "--real", "--limit"] [] {} rest
  a.expectCount 0
  let vip ← vipOption a
  let limit ← numberOption a "--limit" "limit"
  pure (.object ([("cmd", .str "flows")] ++ member "vip" vip ++
    member "real" ((a.flag? "--real").map .str) ++ member "limit" limit))

def ringRequest (verb : String) (rest : List String) : Except String Json :=
  if verb ≠ "show" then .error "ring needs show"
  else do
    let a ← scanArgs [] [] {} rest
    a.expectCount 1
    let vip ← vipArg (← a.pos 0 "VIP")
    pure (.object [("cmd", .str "ring.show"), ("vip", .str vip)])

/-- `words` is everything behind the global options. -/
def buildRequest : List String → Except String Json
  | [] => .error "missing command"
  | noun :: rest =>
      let verb := rest.headD ""
      if noun = "ping" ∨ noun = "health" ∨ noun = "reload" ∨ noun = "config" then
        match rest with
        | [] => .ok (.object [("cmd", .str noun)])
        | w :: _ => .error ("unexpected argument " ++ w)
      else if noun = "vip" then vipRequest verb rest.tail
      else if noun = "real" then realRequest verb rest.tail
      else if noun = "stats" then statsRequest rest
      else if noun = "flows" then flowsRequest rest
      else if noun = "ring" then ringRequest verb rest.tail
      else .error ("unknown command " ++ noun)

/-- `main` up to the call: what is to be asked, and at which socket. -/
def invocation (pbctlSocket : Option String) (argv : List String) : Except Exit (Globals × Json) :=
  match scanGlobals { socketPath := defaultSocket pbctlSocket } argv with
  | .error exit => .error exit
  | .ok g =>
      match buildRequest g.words with
      | .error text => .error (.usage text)
      | .ok req => .ok (g, req)

/-! ## What a command line means -/

/-- A text that `vip_arg` lets through. -/
structure VipText where
  text : String
  spec : VipSpec
  parses : VipSpec.parse .little text = .ok spec

inductive Command where
  | ping
  | health
  | reload
  | config
  | vipAdd (vip : VipText) (noConntrack : Bool)
  | vipDel (vip : VipText)
  | vipList
  | realAdd (vip : VipText) (addr : String) (weight : Option UInt64)
  | realWeight (vip : VipText) (addr : String) (weight : UInt64)
  | realDel (vip : VipText) (addr : String)
  | realDrain (vip : VipText) (addr : String) (draining : Bool)
  | stats (vip : Option VipText)
  | flows (vip : Option VipText) (real : Option String) (limit : Option UInt64)
  | ringShow (vip : VipText)

namespace Command

def drainVerb (draining : Bool) : String := if draining then "drain" else "undrain"

def request : Command → Json
  | ping => .object [("cmd", .str "ping")]
  | health => .object [("cmd", .str "health")]
  | reload => .object [("cmd", .str "reload")]
  | config => .object [("cmd", .str "config")]
  | vipAdd vip noConntrack =>
      .object ([("cmd", .str "vip.add"), ("vip", .str vip.text)] ++
        member "no_conntrack" (if noConntrack then some (.bool true) else none))
  | vipDel vip => .object [("cmd", .str "vip.del"), ("vip", .str vip.text)]
  | vipList => .object [("cmd", .str "vip.list")]
  | realAdd vip addr weight =>
      .object ([("cmd", .str "real.add"), ("vip", .str vip.text), ("addr", .str addr)] ++
        member "weight" (weight.map fun n => .int n.toNat))
  | realWeight vip addr weight =>
      .object [("cmd", .str "real.weight"), ("vip", .str vip.text), ("addr", .str addr),
        ("weight", .int weight.toNat)]
  | realDel vip addr =>
      .object [("cmd", .str "real.del"), ("vip", .str vip.text), ("addr", .str addr)]
  | realDrain vip addr draining =>
      .object [("cmd", .str ("real." ++ drainVerb draining)), ("vip", .str vip.text),
        ("addr", .str addr)]
  | stats vip => .object ([("cmd", .str "stats")] ++ member "vip" (vip.map fun v => .str v.text))
  | flows vip real limit =>
      .object ([("cmd", .str "flows")] ++ member "vip" (vip.map fun v => .str v.text) ++
        member "real" (real.map .str) ++ member "limit" (limit.map fun n => .int n.toNat))
  | ringShow vip => .object [("cmd", .str "ring.show"), ("vip", .str vip.text)]

def words : Command → List String
  | ping => ["ping"]
  | health => ["health"]
  | reload => ["reload"]
  | config => ["config"]
  | vipAdd vip noConntrack =>
      ["vip", "add", vip.text] ++ if noConntrack then ["--no-conntrack"] else []
  | vipDel vip => ["vip", "del", vip.text]
  | vipList => ["vip", "list"]
  | realAdd vip addr weight =>
      ["real", "add", vip.text, addr] ++
        weight.elim [] fun n => ["--weight", toString n.toNat]
  | realWeight vip addr weight => ["real", "weight", vip.text, addr, toString weight.toNat]
  | realDel vip addr => ["real", "del", vip.text, addr]
  | realDrain vip addr draining => ["real", drainVerb draining, vip.text, addr]
  | stats vip => ["stats"] ++ vip.elim [] fun v => ["--vip", v.text]
  | flows vip real limit =>
      ["flows"] ++ (vip.elim [] fun v => ["--vip", v.text]) ++
        (real.elim [] fun addr => ["--real", addr]) ++
        limit.elim [] fun n => ["--limit", toString n.toNat]
  | ringShow vip => ["ring", "show", vip.text]

def uint32 (name : String) (n : UInt64) : Except String Nat :=
  if n.toNat < 0x100000000 then .ok n.toNat else .error (notUint name)

def realArg : Option String → Except String (Option UInt32)
  | none => .ok none
  | some addr => do pure (some (← parseIpv4 .little addr))

/-- What the daemon does about a request of the command. -/
def run (h : Host) : Command → LbM Answer
  | ping => pure { result := .str "pong" }
  | health => pure { result := Commands.health h }
  | reload =>
      match h.loaded with
      | .error text => throw (.runtime text)
      | .ok cfg => do
          LbState.apply h.env cfg.toConfig
          pure { result := .object [], realsChanged := true }
  | config => pure { result := h.config }
  | vipAdd vip noConntrack => do
      let id ← LbState.addVip h.env vip.spec noConntrack
      pure { result := .object [("vip_id", .int id)] }
  | vipDel vip => do
      LbState.delVip h.env vip.spec
      pure { result := .object [] }
  | vipList => pure { result := Commands.vipList h }
  | realAdd vip addr weight => do
      let (addr, weight) ← check (h.order.both (parseIpv4 .little addr)
        (weight.elim (.ok 1) (uint32 "weight")))
      let id ← LbState.addReal h.env vip.spec addr weight
      pure { result := .object [("real_id", .int id)], realsChanged := true }
  | realWeight vip addr weight => do
      let (addr, weight) ← check (h.order.both (parseIpv4 .little addr) (uint32 "weight" weight))
      LbState.setWeight h.env vip.spec addr weight
      pure { result := .object [] }
  | realDel vip addr => do
      let addr ← check (parseIpv4 .little addr)
      LbState.delReal h.env vip.spec addr
      pure { result := .object [] }
  | realDrain vip addr draining => do
      let addr ← check (parseIpv4 .little addr)
      LbState.setDraining h.env vip.spec addr draining
      pure { result := .object [] }
  | stats vip => do
      let result ← check (statsOf h (vip.map VipText.spec))
      pure { result }
  | flows vip real limit => do
      let result ← check (do
        let addr ← realArg real
        flowsOf h (vip.map VipText.spec) addr (limit.elim (.ok 1000) (uint32 "limit")))
      pure { result }
  | ringShow vip => do
      let result ← check (ringShowOf h vip.spec)
      pure { result }

end Command

/-- A command whose arguments the daemon takes. -/
inductive Action where
  | ping
  | health
  | reload
  | config
  | vipAdd (vip : VipSpec) (noConntrack : Bool)
  | vipDel (vip : VipSpec)
  | vipList
  | realAdd (vip : VipSpec) (addr : UInt32) (weight : Nat)
  | realWeight (vip : VipSpec) (addr : UInt32) (weight : Nat)
  | realDel (vip : VipSpec) (addr : UInt32)
  | realDrain (vip : VipSpec) (addr : UInt32) (draining : Bool)
  | stats (vip : Option VipSpec)
  | flows (vip : Option VipSpec) (real : Option UInt32) (limit : Nat)
  | ringShow (vip : VipSpec)

/-- What a command asks for, if its addresses are addresses and its numbers are not too large. -/
def Command.action : Command → Option Action
  | .ping => some .ping
  | .health => some .health
  | .reload => some .reload
  | .config => some .config
  | .vipAdd vip noConntrack => some (.vipAdd vip.spec noConntrack)
  | .vipDel vip => some (.vipDel vip.spec)
  | .vipList => some .vipList
  | .realAdd vip addr weight => do
      let addr ← (parseIpv4 .little addr).toOption
      let weight ← (weight.elim (.ok 1) (uint32 "weight")).toOption
      pure (.realAdd vip.spec addr weight)
  | .realWeight vip addr weight => do
      let addr ← (parseIpv4 .little addr).toOption
      let weight ← (uint32 "weight" weight).toOption
      pure (.realWeight vip.spec addr weight)
  | .realDel vip addr => do
      let addr ← (parseIpv4 .little addr).toOption
      pure (.realDel vip.spec addr)
  | .realDrain vip addr draining => do
      let addr ← (parseIpv4 .little addr).toOption
      pure (.realDrain vip.spec addr draining)
  | .stats vip => some (.stats (vip.map VipText.spec))
  | .flows vip real limit => do
      let real ← (realArg real).toOption
      let limit ← (limit.elim (.ok 1000) (uint32 "limit")).toOption
      pure (.flows (vip.map VipText.spec) real limit)
  | .ringShow vip => some (.ringShow vip.spec)

def Action.run (h : Host) : Action → LbM Answer
  | ping => pure { result := .str "pong" }
  | health => pure { result := Commands.health h }
  | reload =>
      match h.loaded with
      | .error text => throw (.runtime text)
      | .ok cfg => do
          LbState.apply h.env cfg.toConfig
          pure { result := .object [], realsChanged := true }
  | config => pure { result := h.config }
  | vipAdd vip noConntrack => do
      let id ← LbState.addVip h.env vip noConntrack
      pure { result := .object [("vip_id", .int id)] }
  | vipDel vip => do
      LbState.delVip h.env vip
      pure { result := .object [] }
  | vipList => pure { result := Commands.vipList h }
  | realAdd vip addr weight => do
      let id ← LbState.addReal h.env vip addr weight
      pure { result := .object [("real_id", .int id)], realsChanged := true }
  | realWeight vip addr weight => do
      LbState.setWeight h.env vip addr weight
      pure { result := .object [] }
  | realDel vip addr => do
      LbState.delReal h.env vip addr
      pure { result := .object [] }
  | realDrain vip addr draining => do
      LbState.setDraining h.env vip addr draining
      pure { result := .object [] }
  | stats vip => do
      let result ← check (statsOf h vip)
      pure { result }
  | flows vip real limit => do
      let result ← check (flowsOf h vip real (.ok limit))
      pure { result }
  | ringShow vip => do
      let result ← check (ringShowOf h vip)
      pure { result }

/-! ## The daemon reads what was meant -/

section Understood

variable {fields : List (String × Json)} {name : String}

theorem argString_object {s : String} (h : fields.reverse.lookup name = some (.str s)) :
    argString (.object fields) name = .ok s := by
  rw [argString, arg, Json.find?_object, h]
  rfl

theorem argVip_object (vip : VipText) (h : fields.reverse.lookup name = some (.str vip.text)) :
    argVip (.object fields) name = .ok vip.spec := by
  rw [argVip, argString_object h]
  exact vip.parses

theorem argAddr_object {s : String} (h : fields.reverse.lookup name = some (.str s)) :
    argAddr (.object fields) name = parseIpv4 .little s := by
  rw [argAddr, argString_object h]
  rfl

theorem argBool_object {b : Bool}
    (h : fields.reverse.lookup name = if b then some (.bool true) else none) :
    argBool (.object fields) name false = .ok b := by
  rw [argBool, Json.find?_object, h]
  cases b <;> rfl

theorem uintOf_toNat (name : String) (n : UInt64) :
    uintOf name n.toNat = Command.uint32 name n := by
  have hn := n.toNat_lt
  rw [uintOf, Command.uint32, Json.int64, Int.bmod_def]
  by_cases hlt : n.toNat < 0x100000000
  · have hmod : ((n.toNat : Int) % 0x100000000).toNat = n.toNat := by omega
    rw [if_pos hlt, if_neg (by omega), hmod]
  · rw [if_neg hlt, if_pos (by omega)]

theorem argUint_object {n : UInt64} {fallback : Option Nat}
    (h : fields.reverse.lookup name = some (.int n.toNat)) :
    argUint (.object fields) name fallback = Command.uint32 name n := by
  rw [← uintOf_toNat]
  unfold argUint
  simp only [arg, Json.find?_object, h, bind, Except.bind]

theorem argUint_absent {n : Nat} (h : fields.reverse.lookup name = none) :
    argUint (.object fields) name (some n) = .ok n := by
  unfold argUint
  rw [Json.find?_object, h]

theorem both_ok_left {α β : Type} (order : ArgOrder) (a : α) (y : Except String β) :
    order.both (.ok a) y = y.map fun b => (a, b) := by
  cases order with
  | leftToRight => cases y <;> rfl
  | rightToLeft => cases y <;> rfl

theorem check_map {α β γ : Type} (x : Except String α) (f : α → β) (k : β → LbM γ) :
    (check (x.map f) >>= k) = check x >>= fun a => k (f a) := by
  cases x <;> rfl

theorem dispatch_object {h : Host} (cmd : String)
    (hcmd : fields.reverse.lookup "cmd" = some (.str cmd)) :
    dispatch h (.object fields) = perform h (.object fields) cmd := by
  rw [dispatch, argString_object hcmd]
  rfl

theorem optional_vip_object (vip : Option VipText)
    (h : fields.reverse.lookup name = vip.map fun v => .str v.text) :
    optional (.object fields) name argVip = .ok (vip.map VipText.spec) := by
  unfold Commands.optional
  rw [Json.find?_object, h]
  cases vip with
  | none => rfl
  | some v =>
    rw [argVip_object v h]
    rfl

theorem optional_addr_object (real : Option String)
    (h : fields.reverse.lookup name = real.map .str) :
    optional (.object fields) name argAddr = Command.realArg real := by
  unfold Commands.optional
  rw [Json.find?_object, h]
  cases real with
  | none => rfl
  | some addr =>
    rw [argAddr_object h]
    rfl

end Understood

theorem Command.dispatch_request (c : Command) (h : Host) : dispatch h c.request = c.run h := by
  cases c with
  | ping | health | config | vipList =>
    rw [request, dispatch_object _ rfl]
    simp only [perform, String.reduceEq, or_self, reduceIte, run]
  | reload =>
    rw [request, dispatch_object _ rfl]
    cases hload : h.loaded <;>
      simp only [perform, String.reduceEq, or_self, reduceIte, run, hload]
  | vipAdd vip noConntrack =>
    rw [request, dispatch_object "vip.add" (by cases noConntrack <;> rfl)]
    simp only [perform, String.reduceEq, or_self, reduceIte, run]
    rw [argVip_object vip (by cases noConntrack <;> rfl),
      argBool_object (b := noConntrack) (by cases noConntrack <;> rfl)]
    rfl
  | vipDel vip =>
    rw [request, dispatch_object _ rfl]
    simp only [perform, String.reduceEq, or_self, reduceIte, run]
    rw [argVip_object vip rfl]
    rfl
  | realAdd vip addr weight =>
    rw [request, dispatch_object "real.add" (by cases weight <;> rfl)]
    simp only [perform, String.reduceEq, or_self, reduceIte, run]
    rw [argVip_object vip (by cases weight <;> rfl), both_ok_left, check_map,
      argAddr_object (s := addr) (by cases weight <;> rfl)]
    cases weight with
    | none => rw [argUint_absent rfl]; rfl
    | some n => rw [argUint_object (n := n) rfl]; rfl
  | realWeight vip addr weight =>
    rw [request, dispatch_object _ rfl]
    simp only [perform, String.reduceEq, or_self, reduceIte, run]
    rw [argVip_object vip rfl, both_ok_left, check_map, argAddr_object rfl,
      argUint_object rfl]
  | realDel vip addr =>
    rw [request, dispatch_object _ rfl]
    simp only [perform, String.reduceEq, or_self, reduceIte, run]
    rw [argVip_object vip rfl, both_ok_left, check_map, argAddr_object rfl]
  | realDrain vip addr draining =>
    have hcmd : "real." ++ drainVerb draining =
        if draining then "real.drain" else "real.undrain" := by cases draining <;> rfl
    rw [request, dispatch_object _ rfl, hcmd]
    cases draining with
    | false =>
      simp only [perform, Bool.false_eq_true, String.reduceEq, or_true, reduceIte, run]
      rw [argVip_object vip rfl, both_ok_left, check_map, argAddr_object rfl]
      rfl
    | true =>
      simp only [perform, String.reduceEq, true_or, reduceIte, run]
      rw [argVip_object vip rfl, both_ok_left, check_map, argAddr_object rfl]
      rfl
  | stats vip =>
    rw [request, dispatch_object "stats" (by cases vip <;> rfl)]
    simp only [perform, String.reduceEq, or_self, reduceIte, run, Commands.stats]
    rw [optional_vip_object vip (by cases vip <;> rfl)]
    rfl
  | flows vip real limit =>
    rw [request,
      dispatch_object "flows" (by cases vip <;> cases real <;> cases limit <;> rfl)]
    simp only [perform, String.reduceEq, or_self, reduceIte, run, Commands.flows]
    rw [optional_vip_object vip (by cases vip <;> cases real <;> cases limit <;> rfl),
      optional_addr_object real (by cases vip <;> cases real <;> cases limit <;> rfl)]
    cases limit with
    | none => rw [argUint_absent (by cases vip <;> cases real <;> rfl)]; rfl
    | some n => rw [argUint_object (n := n) (by cases vip <;> cases real <;> rfl)]; rfl
  | ringShow vip =>
    rw [request, dispatch_object _ rfl]
    simp only [perform, String.reduceEq, or_self, reduceIte, run, Commands.ringShow]
    rw [argVip_object vip rfl]
    rfl

section Actions

variable {α β : Type} {x : Except String α} {y : Except String β}

theorem eq_ok_of_toOption {a : α} (h : x.toOption = some a) : x = .ok a := by
  cases x with
  | error text => cases h
  | ok a' => exact congrArg Except.ok (Option.some.inj h)

theorem exists_error_of_toOption (h : x.toOption = none) : ∃ text, x = .error text := by
  cases x with
  | error text => exact ⟨text, rfl⟩
  | ok a => cases h

/-- An action that needs one argument, or two, is missing for want of one of them. -/
theorem toOption_eq_none {γ : Type} {f : α → γ}
    (h : (do let a ← x.toOption; pure (f a)) = none) : x.toOption = none := by
  cases x with
  | error text => rfl
  | ok a => cases h

theorem toOption_eq_none_or {γ : Type} {f : α → β → γ}
    (h : (do let a ← x.toOption; let b ← y.toOption; pure (f a b)) = none) :
    x.toOption = none ∨ y.toOption = none := by
  cases x with
  | error text => exact .inl rfl
  | ok a => exact .inr (toOption_eq_none h)

theorem both_ok (order : ArgOrder) (a : α) (b : β) : order.both (.ok a) (.ok b) = .ok (a, b) := by
  cases order <;> rfl

theorem exists_both_error (order : ArgOrder) (h : x.toOption = none ∨ y.toOption = none) :
    ∃ text, order.both x y = .error text := by
  cases x with
  | error text =>
      cases y with
      | error text' => cases order <;> exact ⟨_, rfl⟩
      | ok b => cases order <;> exact ⟨_, rfl⟩
  | ok a =>
      obtain ⟨text, rfl⟩ := exists_error_of_toOption (h.resolve_left nofun)
      cases order <;> exact ⟨_, rfl⟩

end Actions

namespace Command

variable {c : Command} {act : Action}

theorem run_action (hact : c.action = some act) (h : Host) : c.run h = act.run h := by
  cases c with
  | ping | health | reload | config | vipAdd | vipDel | vipList | stats | ringShow =>
      obtain rfl := Option.some.inj hact
      rfl
  | realAdd vip addr weight =>
      simp only [action, Option.bind_eq_bind, Option.bind_eq_some_iff] at hact
      obtain ⟨a, ha, n, hn, hact⟩ := hact
      obtain rfl := Option.some.inj hact
      rw [run, eq_ok_of_toOption ha, eq_ok_of_toOption hn, both_ok]
      rfl
  | realWeight vip addr weight =>
      simp only [action, Option.bind_eq_bind, Option.bind_eq_some_iff] at hact
      obtain ⟨a, ha, n, hn, hact⟩ := hact
      obtain rfl := Option.some.inj hact
      rw [run, eq_ok_of_toOption ha, eq_ok_of_toOption hn, both_ok]
      rfl
  | realDel vip addr =>
      simp only [action, Option.bind_eq_bind, Option.bind_eq_some_iff] at hact
      obtain ⟨a, ha, hact⟩ := hact
      obtain rfl := Option.some.inj hact
      rw [run, eq_ok_of_toOption ha]
      rfl
  | realDrain vip addr draining =>
      simp only [action, Option.bind_eq_bind, Option.bind_eq_some_iff] at hact
      obtain ⟨a, ha, hact⟩ := hact
      obtain rfl := Option.some.inj hact
      rw [run, eq_ok_of_toOption ha]
      rfl
  | flows vip real limit =>
      simp only [action, Option.bind_eq_bind, Option.bind_eq_some_iff] at hact
      obtain ⟨a, ha, n, hn, hact⟩ := hact
      obtain rfl := Option.some.inj hact
      rw [run, eq_ok_of_toOption ha, eq_ok_of_toOption hn]
      rfl

/-- `flows` looks for the real before it reads the limit, and fails in any case. -/
theorem exists_flowsOf_error (h : Host) (vip : Option VipSpec) (addr : Option UInt32)
    (text : String) : ∃ text', flowsOf h vip addr (.error text) = .error text' := by
  cases addr with
  | none => exact ⟨text, rfl⟩
  | some a =>
      cases hid : (h.lbAt 0).realIdOf a with
      | none => exact ⟨_, by rw [flowsOf]; simp only [hid]; rfl⟩
      | some id => exact ⟨text, by rw [flowsOf]; simp only [hid]; rfl⟩

theorem run_refused (hact : c.action = none) (h : Host) :
    ∃ text, c.run h = throw (.api text) := by
  cases c with
  | ping | health | reload | config | vipAdd | vipDel | vipList | stats | ringShow => cases hact
  | realAdd vip addr weight =>
      obtain ⟨text, htext⟩ := exists_both_error h.order (toOption_eq_none_or hact)
      rw [run, htext]
      exact ⟨text, rfl⟩
  | realWeight vip addr weight =>
      obtain ⟨text, htext⟩ := exists_both_error h.order (toOption_eq_none_or hact)
      rw [run, htext]
      exact ⟨text, rfl⟩
  | realDel vip addr =>
      obtain ⟨text, htext⟩ := exists_error_of_toOption (toOption_eq_none hact)
      rw [run, htext]
      exact ⟨text, rfl⟩
  | realDrain vip addr draining =>
      obtain ⟨text, htext⟩ := exists_error_of_toOption (toOption_eq_none hact)
      rw [run, htext]
      exact ⟨text, rfl⟩
  | flows vip real limit =>
      cases hreal : realArg real with
      | error text =>
          rw [run, hreal]
          exact ⟨text, rfl⟩
      | ok a =>
          have hlimit := (toOption_eq_none_or hact).resolve_left (by rw [hreal]; nofun)
          obtain ⟨text, htext⟩ := exists_error_of_toOption hlimit
          obtain ⟨text', htext'⟩ := exists_flowsOf_error h (vip.map VipText.spec) a text
          refine ⟨text', ?_⟩
          rw [run, hreal, htext]
          change (check (flowsOf h (vip.map VipText.spec) a (.error text)) >>= _) = _
          rw [htext']
          rfl

end Command

end PacketBalance.Pbctl
