import PacketBalance.Config
import PacketBalance.RealTable
/-!
# The control plane's model of the load balancer

`src/daemon/lb_state.cpp`.  Every public method holds one mutex, so an operation
is a program that runs to its end or to its exception over the in-memory model
and the pinned maps.  Log lines are left out.  A `Vip&` is the key of the VIP in
`vips`; `vipAt` reads it.
-/

namespace PacketBalance

open WriteLog

/-! ## State -/

structure Member where
  weight : Nat := 1
  draining : Bool := false
  up : Bool := true
  consecutiveOk : UInt32 := 0
  consecutiveFail : UInt32 := 0
  lastChangeMs : Int := 0
  lastRttUs : UInt32 := 0
  inRing : Bool := false
  incarnation : Nat := 0
deriving DecidableEq, Repr

structure Vip where
  spec : VipSpec
  id : Nat := 0
  flags : UInt32 := 0
  generation : Nat := 0
  members : Std.ExtTreeMap UInt32 Member := ∅

structure LbState where
  interface : String
  reals : RealTable := {}
  vips : Std.ExtTreeMap VipSpec Vip := ∅
  adoptedVipIds : Std.ExtTreeMap VipSpec Nat := ∅
  hash : HashMode := .maglev
  nextHop : Option UInt32 := none
  healthEnabled : Bool := true
  initialized : Bool := false
  nextIncarnation : Nat := 1

abbrev LbM := Prog CtlMaps MapWrite LbState LbError

namespace LbState

def onReals {α : Type} (m : TableM α) : LbM α :=
  Prog.zoom LbState.reals (fun reals lb => { lb with reals }) m

/-- The VIP behind a `Vip&`. -/
def vipAt (spec : VipSpec) : LbM Vip := do
  match (← get).vips[spec]? with
  | some v => pure v
  | none => throw .undefined

def putVip (spec : VipSpec) (v : Vip) : LbM Unit :=
  modify fun lb => { lb with vips := lb.vips.insert spec v }

def vipOrThrow (spec : VipSpec) : LbM Vip := do
  match (← get).vips[spec]? with
  | some v => pure v
  | none => throw (.api ("unknown vip " ++ spec.str))

def memberOrThrow (v : Vip) (addr : UInt32) : LbM Member :=
  match v.members[addr]? with
  | some m => pure m
  | none =>
      throw (.api ("unknown real " ++ ipv4ToString addr ++ " on vip " ++ v.spec.str))

/-! ## Rings -/

def eligible (lb : LbState) (addr : UInt32) (m : Member) : Bool :=
  0 < m.weight && !m.draining && m.up && (lb.reals.macOf addr).isSome

/-- A member's backend; its id when the table has none is never read. -/
def backendOf (lb : LbState) (addr : UInt32) (m : Member) : Backend where
  realId := (lb.reals.idOf addr).getD 0
  addr := addr
  weight := if lb.eligible addr m then m.weight else 0

/-- What `rebuild_locked` hands to `build_ring`. -/
def backendsOf (lb : LbState) (v : Vip) : List Backend :=
  v.members.toList.map fun p => lb.backendOf p.1 p.2

/-- `install_ring`; the inner map is created and filled before the swap. -/
def installRing (env : Env) (vipId : Nat) (ring : InstalledRing) : LbM Unit :=
  if ring.slots.length ≠ pbRingSize then throw (.logic "ring has the wrong size")
  else
    match env.ringFault vipId with
    | some fault => throw (.runtime (fault.text vipId))
    | none => Prog.emit (.ringSwap vipId ring)

def removeRing (env : Env) (vipId : Nat) : LbM Unit :=
  match env.fault (.ringRemove vipId) with
  | some err =>
      throw (.runtime ("remove ring for vip_id " ++ toString vipId ++ ": " ++ err))
  | none => Prog.emit (.ringRemove vipId)

/-- The loop over the members, which notes who is in the ring. -/
def markInRing (lb : LbState) (v : Vip) : Vip :=
  { v with members := v.members.map fun addr m => { m with inRing := lb.eligible addr m } }

def rebuildLocked (env : Env) (spec : VipSpec) : LbM Unit := do
  let lb ← get
  let v := lb.markInRing (← vipAt spec)
  putVip spec v
  if v.members.keys.any fun addr => (lb.reals.idOf addr).isNone then throw .undefined
  else
    let backends := lb.backendsOf v
    match buildRing backends lb.hash pbRingSize with
    | .error (.invalidArgument text) => throw (.invalidArgument text)
    | .error .diverges => throw .undefined
    | .ok slots =>
        installRing env v.id ⟨slots, backends, lb.hash⟩
        putVip spec { v with generation := v.generation + 1 }

/-! ## Members -/

/-- Ask the kernel's neighbour table for a MAC that is not known yet. -/
def askNeighbor (env : Env) (spec : VipSpec) (addr : UInt32) : LbM Unit := do
  let lb ← get
  if (lb.reals.macOf addr).isSome then pure ()
  else
    match env.macLookup spec addr (lb.nextHop.getD addr) with
    | none => pure ()
    | some mac => let _ ← onReals (RealTable.setMac env addr mac.mac)

def newMember (env : Env) (weight incarnation : Nat) : Member :=
  { weight, lastChangeMs := env.epochMs, incarnation }

def addMemberLocked (env : Env) (spec : VipSpec) (addr : UInt32) (weight : Nat) :
    LbM Unit := do
  let _ ← onReals (RealTable.acquire env addr)
  askNeighbor env spec addr
  let incarnation := (← get).nextIncarnation
  modify fun lb => { lb with nextIncarnation := lb.nextIncarnation + 1 }
  let v ← vipAt spec
  putVip spec
    { v with members := v.members.insertIfNew addr (newMember env weight incarnation) }

/-- The caller rebuilds the ring and then releases the `real_id`. -/
def removeMemberLocked (spec : VipSpec) (addr : UInt32) : LbM Unit := do
  let v ← vipAt spec
  putVip spec { v with members := v.members.erase addr }

/-! ## VIPs -/

def allocateVipId (lb : LbState) : Option Nat :=
  let used := lb.vips.toList.map (fun p => p.2.id) ++ lb.adoptedVipIds.toList.map Prod.snd
  (List.range pbMaxVips).find? fun id => id ∉ used

def tooManyVips : LbError :=
  .api ("too many vips (max " ++ toString pbMaxVips ++ ")")

def writeVipEntry (env : Env) (spec : VipSpec) : LbM Unit := do
  let v ← vipAt spec
  let value : VipValue := ⟨v.id, v.flags⟩
  match env.fault (.vipUpdate v.spec value) with
  | some err => throw (.runtime ("write vip_map for " ++ v.spec.str ++ ": " ++ err))
  | none => Prog.emit (.vipUpdate v.spec value)

/-- The id the new VIP gets: its old one when it was adopted, else a free one
with its counters cleared. -/
def takeVipId (spec : VipSpec) : LbM Nat := do
  let lb ← get
  match lb.adoptedVipIds[spec]? with
  | some id =>
      modify fun lb => { lb with adoptedVipIds := lb.adoptedVipIds.erase spec }
      pure id
  | none =>
      match lb.allocateVipId with
      | none => throw tooManyVips
      | some id =>
          Prog.emit (.statsReset id)
          pure id

/-- The ring, built with the reals already in it, is installed before the
`vip_map` entry. -/
def createVipLocked (env : Env) (spec : VipSpec) (flags : UInt32)
    (reals : Std.ExtTreeMap UInt32 Nat) : LbM Vip := do
  let id ← takeVipId spec
  modify fun lb => { lb with vips := lb.vips.insertIfNew spec { spec, id, flags } }
  Prog.each reals.toList fun r => addMemberLocked env spec r.1 r.2
  rebuildLocked env spec
  writeVipEntry env spec
  vipAt spec

/-- The opposite order: entry, ring, references. -/
def deleteVipLocked (env : Env) (spec : VipSpec) : LbM Unit := do
  match (← get).vips[spec]? with
  | none => pure ()
  | some v =>
      Prog.emit (.vipDelete spec)
      removeRing env v.id
      Prog.each v.members.keys fun addr => onReals (RealTable.release env addr)
      modify fun lb => { lb with vips := lb.vips.erase spec }

/-! ## Configuration -/

def adoptLocked : LbM Unit := do
  onReals RealTable.adopt
  let d ← Prog.durable
  modify fun lb =>
    { lb with
      adoptedVipIds := d.vipMap.toList.foldl (fun ids p => ids.insert p.1 p.2.vipId)
        lb.adoptedVipIds }

/-- The content of the `config` map. -/
def configValue (cfg : Config) (mac : Mac) : PbConfig where
  lbMac := mac
  encapSrcPrefix := cfg.encapSrc.prefixBe
  encapSrcMask := cfg.encapSrc.maskBe
  flags := (if cfg.conntrackEnabled then 0 else pbCfgFNoConntrack) |||
    (if cfg.icmpPmtu then pbCfgFIcmpPmtu else 0)

def writeConfigMap (env : Env) (cfg : Config) : LbM Unit := do
  let lb ← get
  match env.interfaceMac with
  | none => throw (.runtime ("cannot read MAC of " ++ lb.interface))
  | some mac =>
      match env.fault (.configWrite (configValue cfg mac)) with
      | some err => throw (.runtime ("write config map: " ++ err))
      | none => Prog.emit (.configWrite (configValue cfg mac))

def vipFlags (noConntrack : Bool) : UInt32 :=
  if noConntrack then pbVipFNoConntrack else 0

def wantOf (vc : VipConfig) : Std.ExtTreeMap UInt32 Nat :=
  vc.reals.foldl (fun want r => want.insert r.addrBe r.weight) ∅

/-- One wanted real of a VIP that exists; the result says whether the ring has to
be rebuilt. -/
def reconcileMember (env : Env) (spec : VipSpec) (changed : Bool) (r : UInt32 × Nat) :
    LbM Bool := do
  let v ← vipAt spec
  match v.members[r.1]? with
  | none =>
      addMemberLocked env spec r.1 r.2
      pure true
  | some m =>
      if m.weight ≠ r.2 then
        putVip spec { v with members := v.members.insert r.1 { m with weight := r.2 } }
        pure true
      else pure changed

/-- The members of a VIP that the configuration no longer lists. -/
def removedMembers (v : Vip) (want : Std.ExtTreeMap UInt32 Nat) : List UInt32 :=
  v.members.keys.filter fun addr => addr ∉ want

/-- The entry of a VIP that exists already is written again when its flags change. -/
def setFlags (env : Env) (spec : VipSpec) (flags : UInt32) : LbM Unit := do
  let v ← vipAt spec
  if v.flags ≠ flags then
    putVip spec { v with flags }
    writeVipEntry env spec
  else pure ()

/-- A VIP that exists already; removed reals are released after the new ring is
live. -/
def reconcileVip (env : Env) (hashChanged : Bool) (spec : VipSpec) (flags : UInt32)
    (want : Std.ExtTreeMap UInt32 Nat) : LbM Unit := do
  setFlags env spec flags
  let removed := removedMembers (← vipAt spec) want
  Prog.each removed (removeMemberLocked spec)
  let changed ← Prog.fold want.toList (hashChanged || !removed.isEmpty)
    (reconcileMember env spec)
  Prog.when changed (rebuildLocked env spec)
  Prog.each removed fun addr => onReals (RealTable.release env addr)

/-- The body of `apply`'s loop over the configured VIPs. -/
def applyVip (env : Env) (hashChanged : Bool) (vc : VipConfig) : LbM Unit := do
  match (← get).vips[vc.spec]? with
  | none =>
      let _ ← createVipLocked env vc.spec (vipFlags vc.noConntrack) (wantOf vc)
  | some _ => reconcileVip env hashChanged vc.spec (vipFlags vc.noConntrack) (wantOf vc)

/-- Remove a pinned VIP that the configuration does not have. -/
def dropAdopted (env : Env) (p : VipSpec × Nat) : LbM Unit := do
  if p.1 ∈ (← get).vips then pure ()
  else
    Prog.emit (.vipDelete p.1)
    removeRing env p.2

def finishFirst (env : Env) : LbM Unit := do
  Prog.each (← get).adoptedVipIds.toList (dropAdopted env)
  modify fun lb => { lb with adoptedVipIds := ∅ }
  onReals (RealTable.dropUnreferenced env)
  modify fun lb => { lb with initialized := true }

def dropUnwanted (env : Env) (cfg : Config) (spec : VipSpec) : LbM Unit :=
  if spec ∈ cfg.specs then pure () else deleteVipLocked env spec

/-- The part of `apply` before its loop over the configured VIPs; the result says
whether the hash mode changes. -/
def applyOpening (env : Env) (cfg : Config) (first : Bool) : LbM Bool := do
  Prog.when first adoptLocked
  writeConfigMap env cfg
  let lb ← get
  modify fun lb =>
    { lb with healthEnabled := cfg.health.enabled, nextHop := cfg.nextHopBe, hash := cfg.hash }
  Prog.each lb.vips.keys (dropUnwanted env cfg)
  pure (decide (lb.hash ≠ cfg.hash))

def apply (env : Env) (cfg : Config) : LbM Unit := do
  let first := !(← get).initialized
  let hashChanged ← applyOpening env cfg first
  Prog.each cfg.vips (applyVip env hashChanged)
  Prog.when first (finishFirst env)

/-! ## API mutations -/

def addVip (env : Env) (vip : VipSpec) (noConntrack : Bool) : LbM Nat := do
  if vip ∈ (← get).vips then throw (.api "vip already exists")
  else
    let v ← createVipLocked env vip (vipFlags noConntrack) ∅
    pure v.id

def delVip (env : Env) (vip : VipSpec) : LbM Unit := do
  let _ ← vipOrThrow vip
  deleteVipLocked env vip

def badWeight : LbError := .api ("weight must be 0.." ++ toString kMaxRealWeight)

/-- `*reals_.id_of(addr)`. -/
def derefId (addr : UInt32) : LbM Nat := do
  match (← get).reals.idOf addr with
  | some id => pure id
  | none => throw .undefined

def addReal (env : Env) (vip : VipSpec) (addr : UInt32) (weight : Nat) : LbM Nat := do
  let v ← vipOrThrow vip
  if addr = 0 then throw (.api "bad real address 0.0.0.0")
  else if addr ∈ v.members then throw (.api "real already exists")
  else if kMaxRealWeight < weight then throw badWeight
  else
    addMemberLocked env vip addr weight
    rebuildLocked env vip
    derefId addr

def delReal (env : Env) (vip : VipSpec) (addr : UInt32) : LbM Unit := do
  let v ← vipOrThrow vip
  let _ ← memberOrThrow v addr
  removeMemberLocked vip addr
  rebuildLocked env vip
  onReals (RealTable.release env addr)

def setWeight (env : Env) (vip : VipSpec) (addr : UInt32) (weight : Nat) : LbM Unit :=
  if kMaxRealWeight < weight then throw badWeight
  else do
    let v ← vipOrThrow vip
    let m ← memberOrThrow v addr
    if m.weight = weight then pure ()
    else
      putVip vip { v with members := v.members.insert addr { m with weight } }
      rebuildLocked env vip

def setDraining (env : Env) (vip : VipSpec) (addr : UInt32) (draining : Bool) :
    LbM Unit := do
  let v ← vipOrThrow vip
  let m ← memberOrThrow v addr
  if m.draining = draining then pure ()
  else
    putVip vip { v with members := v.members.insert addr { m with draining } }
    rebuildLocked env vip

/-! ## Health -/

structure HealthTarget where
  vip : VipSpec
  addr : UInt32
  incarnation : Nat
deriving DecidableEq, Repr

structure ProbeResult where
  ok : Bool := false
  rttUs : UInt32 := 0
  localError : Bool := false
deriving DecidableEq, Repr

def healthTargets (lb : LbState) : List HealthTarget :=
  if !lb.healthEnabled then []
  else
    (lb.vips.toList.filter fun p => p.1.proto = 6).flatMap fun p =>
      p.2.members.toList.map fun q => ⟨p.1, q.1, q.2.incarnation⟩

/-- A member after a probe, before the verdict: the counters of one outcome grow
and those of the other restart. -/
def countProbe (m : Member) (r : ProbeResult) : Member :=
  if r.ok then
    { m with
      lastRttUs := r.rttUs
      consecutiveFail := 0
      consecutiveOk := m.consecutiveOk + 1 }
  else { m with consecutiveOk := 0, consecutiveFail := m.consecutiveFail + 1 }

def flips (m : Member) (r : ProbeResult) (rise fall : UInt32) : Bool :=
  if r.ok then !m.up && rise ≤ m.consecutiveOk else m.up && fall ≤ m.consecutiveFail

def reportHealth (env : Env) (t : HealthTarget) (r : ProbeResult) (rise fall : UInt32) :
    LbM Unit := do
  match (← get).vips[t.vip]? with
  | none => pure ()
  | some v =>
      match v.members[t.addr]? with
      | none => pure ()
      | some m =>
          if m.incarnation ≠ t.incarnation then pure ()
          else if r.localError then pure ()
          else
            let m := countProbe m r
            if flips m r rise fall then
              let m := { m with up := r.ok, lastChangeMs := env.epochMs }
              putVip t.vip { v with members := v.members.insert t.addr m }
              rebuildLocked env t.vip
            else putVip t.vip { v with members := v.members.insert t.addr m }

/-! ## Neighbours -/

def neighborTargets (lb : LbState) : List UInt32 :=
  match lb.nextHop with
  | some hop => [hop]
  | none => lb.reals.addrs

def unresolvedNeighbors (lb : LbState) : List UInt32 :=
  let unresolved := lb.reals.addrs.filter fun addr => (lb.reals.macOf addr).isNone
  match lb.nextHop with
  | some hop => if unresolved.isEmpty then [] else [hop]
  | none => unresolved

/-- Set one address's MAC; it is newly usable when it had none. -/
def setOne (env : Env) (mac : Mac) (newlyUsable : List UInt32) (addr : UInt32) :
    LbM (List UInt32) := do
  let wasKnown := ((← get).reals.macOf addr).isSome
  let changed ← onReals (RealTable.setMac env addr mac)
  pure (if changed && !wasKnown then newlyUsable ++ [addr] else newlyUsable)

/-- The addresses an answer for `ip` is about. -/
def resolvedAddrs (lb : LbState) (ip : UInt32) : List UInt32 :=
  match lb.nextHop with
  | some hop => if ip = hop then lb.reals.addrs else []
  | none => [ip]

def neighborResolved (env : Env) (ip : UInt32) (mac : NeighMac) : LbM Unit := do
  let lb ← get
  let newlyUsable ← Prog.fold (lb.resolvedAddrs ip) [] (setOne env mac.mac)
  if newlyUsable.isEmpty then pure ()
  else
    Prog.each lb.vips.keys fun spec => do
      let v ← vipAt spec
      if v.members.keys.any (· ∈ newlyUsable) then rebuildLocked env spec else pure ()

/-! ## Views -/

structure RealView where
  addr : UInt32 := 0
  realId : Nat := 0
  weight : Nat := 0
  up : Bool := true
  draining : Bool := false
  checked : Bool := false
  inRing : Bool := false
  mac : Option Mac := none
  consecutiveOk : UInt32 := 0
  consecutiveFail : UInt32 := 0
  lastChangeMs : Int := 0
  lastRttUs : UInt32 := 0
deriving DecidableEq, Repr

structure VipView where
  spec : VipSpec
  vipId : Nat := 0
  flags : UInt32 := 0
  generation : Nat := 0
  reals : List RealView
deriving DecidableEq, Repr

def viewOf (lb : LbState) (v : Vip) (addr : UInt32) (m : Member) : RealView where
  addr := addr
  realId := (lb.reals.idOf addr).getD 0
  weight := m.weight
  up := m.up
  draining := m.draining
  checked := lb.healthEnabled && v.spec.proto = 6
  inRing := m.inRing
  mac := lb.reals.macOf addr
  consecutiveOk := m.consecutiveOk
  consecutiveFail := m.consecutiveFail
  lastChangeMs := m.lastChangeMs
  lastRttUs := m.lastRttUs

/-- What the API shows of every VIP, by id. -/
def snapshot (lb : LbState) : List VipView :=
  (lb.vips.toList.map fun p =>
    { spec := p.1
      vipId := p.2.id
      flags := p.2.flags
      generation := p.2.generation
      reals := p.2.members.toList.map fun q => lb.viewOf p.2 q.1 q.2 : VipView }).insertionSort
    (·.vipId ≤ ·.vipId)

end LbState

end PacketBalance
