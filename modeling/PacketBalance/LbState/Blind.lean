import PacketBalance.Lib.Blind
import PacketBalance.Operation
/-!
# The control plane reads no ring

Adoption reads `vip_map`, `reals` and `neigh`; everything else works from the model.  So
what an operation writes does not depend on the rings that are installed.
-/

namespace PacketBalance

open WriteLog Std

/-- Maps that differ in their rings at most. -/
structure SameButRings (d d' : CtlMaps) : Prop where
  vipMap : d'.vipMap = d.vipMap
  reals : d'.reals = d.reals
  neigh : d'.neigh = d.neigh

instance : Stable SameButRings where
  write h w := by
    obtain ⟨hvips, hreals, hneigh⟩ := h
    cases w <;> constructor <;> simp [hvips, hreals, hneigh]

namespace RealTable

variable (env : Env)

instance (id : Nat) (mac : Mac) : Blind SameButRings (writeNeigh env id mac) := by
  unfold writeNeigh
  split <;> infer_instance

instance (id : Nat) (addr : UInt32) : Blind SameButRings (writeReal env id addr) := by
  unfold writeReal
  split <;> infer_instance

instance (id : Nat) : Blind SameButRings (writeSlot env id) := by
  unfold writeSlot
  infer_instance

instance : Blind SameButRings (adopt : TableM Unit) := by
  unfold adopt
  refine .durable fun {d d'} h => ?_
  have hone : adoptOne d' = adoptOne d := by
    funext acc id
    simp only [adoptOne, h.reals, h.neigh]
  simp only [hone]

instance : Blind SameButRings (dropUnreferenced env) := by
  unfold dropUnreferenced
  infer_instance

instance (addr : UInt32) : Blind SameButRings (acquire env addr) := by
  unfold acquire
  split
  · infer_instance
  · refine .seq fun t => ?_
    split
    · infer_instance
    · refine .seq fun _ => ?_
      split <;> infer_instance

instance (addr : UInt32) : Blind SameButRings (release env addr) := by
  unfold release
  refine .seq fun t => ?_
  split <;> infer_instance

instance (addr : UInt32) (mac : Mac) : Blind SameButRings (setMac env addr mac) := by
  unfold setMac
  refine .seq fun t => ?_
  split <;> infer_instance

end RealTable

namespace LbState

variable (env : Env) (spec : VipSpec)

instance {α : Type} (m : TableM α) [Blind SameButRings m] : Blind SameButRings (onReals m) := by
  unfold onReals
  infer_instance

instance : Blind SameButRings (vipAt spec) := by
  unfold vipAt
  refine .seq fun lb => ?_
  split <;> infer_instance

instance (v : Vip) : Blind SameButRings (putVip spec v) := by
  unfold putVip
  infer_instance

instance : Blind SameButRings (vipOrThrow spec) := by
  unfold vipOrThrow
  refine .seq fun lb => ?_
  split <;> infer_instance

instance (v : Vip) (addr : UInt32) : Blind SameButRings (memberOrThrow v addr) := by
  unfold memberOrThrow
  split <;> infer_instance

instance (id : Nat) (ring : InstalledRing) : Blind SameButRings (installRing env id ring) := by
  unfold installRing
  split
  · infer_instance
  · split <;> infer_instance

instance (id : Nat) : Blind SameButRings (removeRing env id) := by
  unfold removeRing
  split <;> infer_instance

instance : Blind SameButRings (rebuildLocked env spec) := by
  unfold rebuildLocked
  refine .seq fun lb => ?_
  refine .seq fun v => ?_
  refine .seq fun _ => ?_
  split
  · infer_instance
  · dsimp only
    split <;> infer_instance

instance (addr : UInt32) : Blind SameButRings (askNeighbor env spec addr) := by
  unfold askNeighbor
  refine .seq fun lb => ?_
  split
  · infer_instance
  · split <;> infer_instance

instance (addr : UInt32) (weight : Nat) :
    Blind SameButRings (addMemberLocked env spec addr weight) := by
  unfold addMemberLocked
  infer_instance

instance (addr : UInt32) : Blind SameButRings (removeMemberLocked spec addr) := by
  unfold removeMemberLocked
  infer_instance

instance : Blind SameButRings (writeVipEntry env spec) := by
  unfold writeVipEntry
  refine .seq fun v => ?_
  dsimp only
  split <;> infer_instance

instance : Blind SameButRings (takeVipId spec) := by
  unfold takeVipId
  refine .seq fun lb => ?_
  split
  · infer_instance
  · split <;> infer_instance

instance (flags : UInt32) (reals : ExtTreeMap UInt32 Nat) :
    Blind SameButRings (createVipLocked env spec flags reals) := by
  unfold createVipLocked
  infer_instance

instance : Blind SameButRings (deleteVipLocked env spec) := by
  unfold deleteVipLocked
  refine .seq fun lb => ?_
  split <;> infer_instance

instance (cfg : Config) : Blind SameButRings (writeConfigMap env cfg) := by
  unfold writeConfigMap
  refine .seq fun lb => ?_
  split
  · infer_instance
  · split <;> infer_instance

instance (changed : Bool) (r : UInt32 × Nat) :
    Blind SameButRings (reconcileMember env spec changed r) := by
  unfold reconcileMember
  refine .seq fun v => ?_
  split <;> infer_instance

instance (flags : UInt32) : Blind SameButRings (setFlags env spec flags) := by
  unfold setFlags
  infer_instance

instance (hashChanged : Bool) (flags : UInt32) (want : ExtTreeMap UInt32 Nat) :
    Blind SameButRings (reconcileVip env hashChanged spec flags want) := by
  unfold reconcileVip
  infer_instance

instance (hashChanged : Bool) (vc : VipConfig) :
    Blind SameButRings (applyVip env hashChanged vc) := by
  unfold applyVip
  refine .seq fun lb => ?_
  split <;> infer_instance

instance (cfg : Config) : Blind SameButRings (dropUnwanted env cfg spec) := by
  unfold dropUnwanted
  infer_instance

instance : Blind SameButRings adoptLocked := by
  unfold adoptLocked
  refine .seq fun _ => .durable fun {d d'} h => ?_
  simp only [h.vipMap]

instance (cfg : Config) (first : Bool) : Blind SameButRings (applyOpening env cfg first) := by
  unfold applyOpening
  infer_instance

instance (p : VipSpec × Nat) : Blind SameButRings (dropAdopted env p) := by
  unfold dropAdopted
  infer_instance

instance : Blind SameButRings (finishFirst env) := by
  unfold finishFirst
  infer_instance

instance (cfg : Config) : Blind SameButRings (apply env cfg) := by
  unfold apply
  infer_instance

instance (noConntrack : Bool) : Blind SameButRings (addVip env spec noConntrack) := by
  unfold addVip
  infer_instance

instance : Blind SameButRings (delVip env spec) := by
  unfold delVip
  infer_instance

instance (addr : UInt32) : Blind SameButRings (derefId addr) := by
  unfold derefId
  refine .seq fun lb => ?_
  split <;> infer_instance

instance (addr : UInt32) (weight : Nat) : Blind SameButRings (addReal env spec addr weight) := by
  unfold addReal
  infer_instance

instance (addr : UInt32) : Blind SameButRings (delReal env spec addr) := by
  unfold delReal
  infer_instance

instance (addr : UInt32) (weight : Nat) : Blind SameButRings (setWeight env spec addr weight) := by
  unfold setWeight
  infer_instance

instance (addr : UInt32) (draining : Bool) :
    Blind SameButRings (setDraining env spec addr draining) := by
  unfold setDraining
  infer_instance

instance (t : HealthTarget) (r : ProbeResult) (rise fall : UInt32) :
    Blind SameButRings (reportHealth env t r rise fall) := by
  unfold reportHealth
  refine .seq fun lb => ?_
  split
  · infer_instance
  · split <;> infer_instance

instance (mac : Mac) (newly : List UInt32) (addr : UInt32) :
    Blind SameButRings (setOne env mac newly addr) := by
  unfold setOne
  infer_instance

instance (ip : UInt32) (mac : NeighMac) : Blind SameButRings (neighborResolved env ip mac) := by
  unfold neighborResolved
  infer_instance

end LbState

instance (env : Env) (op : Op) : Blind SameButRings (op.run env) := by
  cases op <;> (unfold Op.run; infer_instance)

end PacketBalance
