import PacketBalance.Abi
/-!
# The flow hash

`include/packetbalance/hash.h`: the final mix of Jenkins' lookup3, used by the
data plane to index a ring and by the control plane to derive a backend's
permutation.
-/

namespace PacketBalance

def pbJhashInitval : UInt32 := 0xdeadbeef

def pbHashSeed : UInt32 := 0x50424C42

def pbRol32 (word shift : UInt32) : UInt32 :=
  (word <<< (shift &&& 31)) ||| (word >>> ((-shift) &&& 31))

/-- `PB_JHASH_FINAL`, returning the word the caller keeps. -/
def pbJhashFinal (a b c : UInt32) : UInt32 :=
  let c := (c ^^^ b) - pbRol32 b 14
  let a := (a ^^^ c) - pbRol32 c 11
  let b := (b ^^^ a) - pbRol32 a 25
  let c := (c ^^^ b) - pbRol32 b 16
  let a := (a ^^^ c) - pbRol32 c 4
  let b := (b ^^^ a) - pbRol32 a 14
  (c ^^^ b) - pbRol32 b 24

def pbJhash3Words (a b c initval : UInt32) : UInt32 :=
  pbJhashFinal (a + pbJhashInitval) (b + pbJhashInitval) (c + initval)

def pbFlowHash (saddr daddr : UInt32) (sport dport : UInt16) (proto : UInt8) : UInt32 :=
  let ports := (sport.toUInt32 <<< 16) ||| dport.toUInt32
  pbJhash3Words saddr daddr ports (pbHashSeed ^^^ proto.toUInt32)

def Flow.hash (f : Flow) : UInt32 :=
  pbFlowHash f.saddr f.daddr f.sport f.dport f.proto

def pbBackendHashOffset (addr : UInt32) : UInt32 :=
  pbJhash3Words addr 0x9e3779b9 0 0x0f0f0f0f

def pbBackendHashSkip (addr : UInt32) : UInt32 :=
  pbJhash3Words addr 0x7f4a7c15 1 0xf0f0f0f0

-- 10.0.0.1:12345 -> 198.51.100.1:80/tcp, as `tests/core/hash_test.cpp` pins it
example : pbFlowHash 0x0100000a 0x016433c6 0x3930 0x5000 6 = 0xde1e4d19 := by decide

example : pbBackendHashOffset 0x1500000a = 0x13814be4 := by decide

example : pbBackendHashSkip 0x1500000a = 0x2c509bd8 := by decide

end PacketBalance
