import PacketBalance.Maglev
import PacketBalance.Lib.Prog
import Mathlib.Logic.Function.Basic
/-!
# The maps the control plane writes

`vip_map`, `rings`, `reals`, `neigh` and `config` are written by `LbState` alone
and only read by the data plane.  They are pinned, so they outlive the daemon.
Every change is one `bpf_map_update_elem` or `bpf_map_delete_elem` call, here one
`MapWrite`; clearing a counter is such a call too, on maps that the control plane
otherwise leaves to the data plane.
-/

namespace PacketBalance

open WriteLog

/-- An inner map of `rings`.  `slots` is its content; `backends` and `mode` record
what the ring was built from and exist in no map. -/
structure InstalledRing where
  slots : List Nat
  backends : List Backend
  mode : HashMode
deriving DecidableEq, Repr

/-- The maps owned by the control plane.  An address of 0 marks an unused slot of
`reals`, an all-zero MAC an unresolved one of `neigh`. -/
structure CtlMaps where
  vipMap : Std.ExtTreeMap VipSpec VipValue
  rings : Nat → Option InstalledRing
  reals : Nat → UInt32
  neigh : Nat → Mac
  config : PbConfig

/-- The maps of a load that reused no pins. -/
def CtlMaps.empty : CtlMaps where
  vipMap := ∅
  rings := fun _ => none
  reals := fun _ => 0
  neigh := fun _ => Mac.zero
  config := ⟨Mac.zero, 0, 0, 0⟩

inductive MapWrite where
  | vipUpdate (spec : VipSpec) (value : VipValue)
  | vipDelete (spec : VipSpec)
  | ringSwap (vipId : Nat) (ring : InstalledRing)
  | ringRemove (vipId : Nat)
  | realWrite (realId : Nat) (addr : UInt32)
  | neighWrite (realId : Nat) (mac : Mac)
  | configWrite (config : PbConfig)
  | statsReset (vipId : Nat)
  | realStatsReset (realId : Nat)
deriving DecidableEq, Repr

/-- The effect of one call; the counters live in maps of the data plane. -/
def CtlMaps.apply (d : CtlMaps) : MapWrite → CtlMaps
  | .vipUpdate spec value => { d with vipMap := d.vipMap.insert spec value }
  | .vipDelete spec => { d with vipMap := d.vipMap.erase spec }
  | .ringSwap vipId ring => { d with rings := Function.update d.rings vipId (some ring) }
  | .ringRemove vipId => { d with rings := Function.update d.rings vipId none }
  | .realWrite realId addr => { d with reals := Function.update d.reals realId addr }
  | .neighWrite realId mac => { d with neigh := Function.update d.neigh realId mac }
  | .configWrite config => { d with config }
  | .statsReset _ | .realStatsReset _ => d

instance : Durable CtlMaps MapWrite := ⟨CtlMaps.apply⟩

/-! ## Reading a map after a write -/

section Apply

variable (d : CtlMaps)

@[simp] theorem write_vipUpdate (spec : VipSpec) (value : VipValue) :
    Durable.write d (.vipUpdate spec value) =
      { d with vipMap := d.vipMap.insert spec value } := rfl

@[simp] theorem write_vipDelete (spec : VipSpec) :
    Durable.write d (.vipDelete spec) = { d with vipMap := d.vipMap.erase spec } := rfl

@[simp] theorem write_ringSwap (vipId : Nat) (ring : InstalledRing) :
    Durable.write d (.ringSwap vipId ring) =
      { d with rings := Function.update d.rings vipId (some ring) } := rfl

@[simp] theorem write_ringRemove (vipId : Nat) :
    Durable.write d (.ringRemove vipId) =
      { d with rings := Function.update d.rings vipId none } := rfl

@[simp] theorem write_realWrite (realId : Nat) (addr : UInt32) :
    Durable.write d (.realWrite realId addr) =
      { d with reals := Function.update d.reals realId addr } := rfl

@[simp] theorem write_neighWrite (realId : Nat) (mac : Mac) :
    Durable.write d (.neighWrite realId mac) =
      { d with neigh := Function.update d.neigh realId mac } := rfl

@[simp] theorem write_configWrite (config : PbConfig) :
    Durable.write d (.configWrite config) = { d with config } := rfl

@[simp] theorem write_statsReset (vipId : Nat) :
    Durable.write d (.statsReset vipId) = d := rfl

@[simp] theorem write_realStatsReset (realId : Nat) :
    Durable.write d (.realStatsReset realId) = d := rfl

end Apply

/-! ## What the kernel may answer -/

/-- Where `install_ring` can fail, each with `strerror`'s text. -/
inductive RingFault where
  | create (err : String)
  | fill (err : String) (count : Nat)
  | swap (err : String)
deriving DecidableEq, Repr

/-- The text `install_ring` throws. -/
def RingFault.text (vipId : Nat) : RingFault → String
  | .create err => "create ring map: " ++ err
  | .fill err count =>
      "fill ring map: " ++ err ++ " after " ++ toString count ++ " slots"
  | .swap err => "swap ring for vip_id " ++ toString vipId ++ ": " ++ err

/-- A neighbour table's answer: `read_arp_table` keeps no all-zero MAC. -/
structure NeighMac where
  mac : Mac
  ne_zero : mac ≠ Mac.zero

/-- What the world answers during one operation.  Within one operation a question
is asked at most once per argument (updates of the two arrays apart), so the
answers differ freely between questions and between operations. -/
structure Env where
  /-- the answer for the next hop `ip`, asked when `addr` joins the VIP -/
  macLookup : VipSpec → (addr ip : UInt32) → Option NeighMac
  epochMs : Int
  /-- `read_interface_mac`; `none` when the file cannot be parsed -/
  interfaceMac : Option Mac
  /-- `strerror`'s text when the call fails -/
  fault : MapWrite → Option String
  /-- the failure of `install_ring` for a `vip_id` -/
  ringFault : Nat → Option RingFault

end PacketBalance
