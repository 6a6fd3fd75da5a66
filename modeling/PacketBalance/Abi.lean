import Std.Data.ExtTreeMap
import Mathlib.Tactic.Common
/-!
# Shared constants and map entries

The part of `include/packetbalance/abi.h` and `include/packetbalance/vipspec.h`
that both planes use.  Addresses and ports keep their C types and hold the
network-order value as it sits in memory on a little-endian host; ids, weights
and lengths are natural numbers, since every one of them stays far below `2^32`.
-/

namespace PacketBalance

/-! ## Sizes -/

def pbRingSize : Nat := 65537

def pbMaxVips : Nat := 64

/-- Size of the `reals`, `neigh` and `real_stats` arrays; id 0 is reserved. -/
def pbMaxReals : Nat := 512

def pbCtDefaultSize : Nat := 1 <<< 20

/-- "No real" in a ring slot or a lookup result. -/
def pbRealNone : Nat := 0xFFFFFFFF

/-- Index of the counters of packets that belong to no VIP. -/
def pbStatsGlobal : Nat := pbMaxVips

def pbMaxPacketLen : Nat := 3500

def kMaxRealWeight : Nat := 1000

/-- Per-VIP flag: hash every packet, never consult the connection table. -/
def pbVipFNoConntrack : UInt32 := 1

def pbCfgFNoConntrack : UInt32 := 1

/-- Forward ICMP "fragmentation needed" to the real that owns the flow. -/
def pbCfgFIcmpPmtu : UInt32 := 2

/-! ## MAC addresses -/

structure Mac where
  bytes : Vector UInt8 6
deriving DecidableEq, Repr

/-- The all-zero address, which marks an unresolved neighbour. -/
def Mac.zero : Mac := ⟨Vector.replicate 6 0⟩

def Mac.isZero (m : Mac) : Bool := m.bytes.all (· == 0)

theorem Mac.isZero_iff (m : Mac) : m.isZero = true ↔ m = Mac.zero := by
  obtain ⟨bytes⟩ := m
  simp only [Mac.isZero, Mac.zero, Vector.all_eq_true, beq_iff_eq, Mac.mk.injEq]
  constructor
  · intro h
    ext i hi
    simp [h i hi]
  · rintro rfl i hi
    simp

/-! ## VIP specifications -/

/-- `ADDR:PORT/PROTO`.  `pb_vip_key` has the same fields and a pad byte that
both planes keep zero, so the key of `vip_map` is the specification itself. -/
structure VipSpec where
  addrBe : UInt32
  portBe : UInt16
  proto : UInt8
deriving DecidableEq, Repr

/-- The order of `VipSpec::operator<`, which `std::map` iterates in. -/
instance : Ord VipSpec where
  compare x y :=
    (compare x.addrBe y.addrBe).then
      ((compare x.portBe y.portBe).then (compare x.proto y.proto))

theorem VipSpec.compare_eq_lex :
    (compare : VipSpec → VipSpec → Ordering) =
      compareLex (compareOn VipSpec.addrBe)
        (compareLex (compareOn VipSpec.portBe) (compareOn VipSpec.proto)) := rfl

instance : Std.TransOrd VipSpec := by
  unfold Std.TransOrd
  rw [VipSpec.compare_eq_lex]
  infer_instance

instance : Std.LawfulEqOrd VipSpec where
  eq_of_compare {x y} h := by
    obtain ⟨xa, xp, xt⟩ := x
    obtain ⟨ya, yp, yt⟩ := y
    have hfields : compare xa ya = .eq ∧ compare xp yp = .eq ∧ compare xt yt = .eq := by
      simpa only [VipSpec.compare_eq_lex, compareLex, compareOn,
        Ordering.then_eq_eq] using h
    obtain ⟨ha, hp, ht⟩ := hfields
    rw [Std.LawfulEqCmp.eq_of_compare ha, Std.LawfulEqCmp.eq_of_compare hp,
      Std.LawfulEqCmp.eq_of_compare ht]

def memBytes (w : UInt32) : List UInt8 :=
  [w.toUInt8, (w >>> 8).toUInt8, (w >>> 16).toUInt8, (w >>> 24).toUInt8]

def ipv4ToString (addrBe : UInt32) : String :=
  ".".intercalate ((memBytes addrBe).map fun b => toString b.toNat)

def portFromBe (portBe : UInt16) : Nat :=
  portBe.toUInt8.toNat * 256 + (portBe >>> 8).toUInt8.toNat

def VipSpec.str (v : VipSpec) : String :=
  ipv4ToString v.addrBe ++ ":" ++ toString (portFromBe v.portBe) ++
    (if v.proto = 6 then "/tcp" else if v.proto = 17 then "/udp" else "/?")

/-! ## Map values -/

structure VipValue where
  vipId : Nat
  flags : UInt32
deriving DecidableEq, Repr

structure PbConfig where
  lbMac : Mac
  encapSrcPrefix : UInt32
  encapSrcMask : UInt32
  flags : UInt32
deriving DecidableEq, Repr

/-- The flow as the load balancer sees it, client to VIP.  `pb_ct_key` has the
same fields and zeroed padding, so a flow is also the key of `conntrack`. -/
structure Flow where
  saddr : UInt32
  daddr : UInt32
  sport : UInt16
  dport : UInt16
  proto : UInt8
deriving DecidableEq, Repr

structure CtValue where
  realId : Nat
  vipId : Nat
  lastSeenNs : Nat
deriving DecidableEq, Repr

/-- What the kernel fills the other CPUs' copies of a new key with. -/
def CtValue.zero : CtValue := ⟨0, 0, 0⟩

inductive Counter where
  | packets | bytes | ctHit | ctMiss | hash | syn | tx | pass
  | dropFrag | dropOpts | dropNoReal | dropAdjHead | dropMtu | dropShort | dropOther
  | icmpPmtuFwd
deriving DecidableEq, Repr

end PacketBalance
