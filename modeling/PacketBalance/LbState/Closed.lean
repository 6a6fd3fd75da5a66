import PacketBalance.LbState.Reconcile
/-!
# What every small step keeps

The operations are made of few kinds of small steps: a VIP is edited, a member joins or
leaves, a VIP is entered or removed, the real table is used, another map is written.  A
condition that each of them keeps is kept by every operation, whether it returns or
throws and whatever the kernel answers.  `K` tells the memberships that the operation may
add from those that it may remove.
-/

namespace PacketBalance

open WriteLog Std

structure Health where
  up : Bool
  consecutiveOk : UInt32
  consecutiveFail : UInt32
deriving DecidableEq, Repr

def Member.health (m : Member) : Health := ⟨m.up, m.consecutiveOk, m.consecutiveFail⟩

/-- What `report_health` compares and changes. -/
def Member.mark (m : Member) : Health × Nat := (m.health, m.incarnation)

def MapWrite.ofTable : MapWrite → Bool
  | .realWrite .. | .neighWrite .. => true
  | _ => false

theorem write_arrays {w : MapWrite} (hw : w.ofTable = false) (d : CtlMaps) :
    (Durable.write d w).reals = d.reals ∧ (Durable.write d w).neigh = d.neigh := by
  cases w <;> first | exact ⟨rfl, rfl⟩ | cases hw

namespace LbState

/-- A condition that is kept while no address is taken on or given up. -/
structure Edits (I : CtlMaps → LbState → Prop) : Prop where
  edit : ∀ {d lb spec} {v v' : Vip}, I d lb → lb.vips[spec]? = some v →
    (∀ a : UInt32, v'.members[a]?.map Member.mark = v.members[a]?.map Member.mark) →
    I d { lb with vips := lb.vips.insert spec v' }
  tick : ∀ {d lb}, I d lb → I d { lb with nextIncarnation := lb.nextIncarnation + 1 }
  enter : ∀ {d lb} (spec : VipSpec) (id : Nat) (flags : UInt32), I d lb →
    I d { lb with vips := lb.vips.insertIfNew spec { spec, id, flags } }
  ids : ∀ {d lb} (ids : ExtTreeMap VipSpec Nat), I d lb → I d { lb with adoptedVipIds := ids }
  other : ∀ {d lb} {w : MapWrite}, I d lb → w.ofTable = false → I (Durable.write d w) lb

/-- A condition that the small steps keep. -/
structure Closed (env : Env) (K : VipSpec → UInt32 → Prop) (I : CtlMaps → LbState → Prop) :
    Prop extends Edits I where
  join : ∀ {d lb spec a} {v : Vip} (weight : Nat), I d lb → lb.vips[spec]? = some v → K spec a →
    a ∉ v.members → I d { lb with
      nextIncarnation := lb.nextIncarnation + 1
      vips := lb.vips.insert spec
        { v with members := v.members.insert a (newMember env weight lb.nextIncarnation) } }
  leave : ∀ {d lb spec a} {v : Vip}, I d lb → lb.vips[spec]? = some v → ¬K spec a →
    I d { lb with vips := lb.vips.insert spec { v with members := v.members.erase a } }
  remove : ∀ {d lb spec}, I d lb → (∀ a, ¬K spec a) →
    I d { lb with vips := lb.vips.erase spec }
  acquire : ∀ a, Preserves I (onReals (RealTable.acquire env a))
  release : ∀ a, Preserves I (onReals (RealTable.release env a))
  ask : ∀ {spec a}, K spec a → Preserves I (askNeighbor env spec a)

theorem Edits.of_reals (P : RealTable → Prop) : Edits fun _ lb => P lb.reals :=
  ⟨fun h _ _ => h, fun h => h, fun _ _ _ h => h, fun _ h => h, fun h _ => h⟩

section Steps

variable {env : Env} {K : VipSpec → UInt32 → Prop} {I : CtlMaps → LbState → Prop}
variable {spec : VipSpec} {v : Vip}

theorem mark_insert {m m' : Member} {a : UInt32} (hm : v.members[a]? = some m)
    (hmark : m'.mark = m.mark) (b : UInt32) :
    (v.members.insert a m')[b]?.map Member.mark = v.members[b]?.map Member.mark := by
  rw [OrdMap.getElem?_insert]
  split_ifs with hb
  · rw [hb, hm, Option.map_some, Option.map_some, hmark]
  · rfl

theorem mark_markInRing (lb : LbState) (v : Vip) (a : UInt32) :
    (lb.markInRing v).members[a]?.map Member.mark = v.members[a]?.map Member.mark := by
  simp only [markInRing, ExtTreeMap.getElem?_map, Option.map_map]
  rfl

namespace Edits

/-! ## The helpers of the operations -/

theorem preserves_vipAt (spec : VipSpec) : Preserves I (vipAt spec) := by
  refine Preserves.of_get.bind fun lb => ?_
  split
  · exact .of_pure _
  · exact .of_throw _

theorem preserves_vipOrThrow (spec : VipSpec) : Preserves I (vipOrThrow spec) := by
  refine Preserves.of_get.bind fun lb => ?_
  split
  · exact .of_pure _
  · exact .of_throw _

theorem preserves_memberOrThrow (v : Vip) (a : UInt32) : Preserves I (memberOrThrow v a) := by
  unfold memberOrThrow
  split
  · exact .of_pure _
  · exact .of_throw _

theorem preserves_emit (hI : Edits I) {w : MapWrite} (hw : w.ofTable = false) :
    Preserves I (Prog.emit w : LbM Unit) :=
  .of_emit fun _ _ h => hI.other h hw

theorem preserves_removeRing (hI : Edits I) (id : Nat) :
    Preserves I (removeRing env id) := by
  unfold removeRing
  split
  · exact .of_throw _
  · exact hI.preserves_emit rfl

theorem preserves_rebuildLocked (hI : Edits I) (spec : VipSpec) :
    Preserves I (rebuildLocked env spec) := by
  intro d lb h
  simp only [rebuildLocked, vipAt, putVip, wp_bind, wp_get]
  cases hv : lb.vips[spec]? with
  | none => exact (wp_throw _).mpr h
  | some v =>
      have hmarked := hI.edit h hv (mark_markInRing lb v)
      simp only [wp_pure, wp_modify, wp_ite, wp_throw]
      refine ⟨fun _ => hmarked, fun _ => ?_⟩
      split
      · exact (wp_throw _).mpr hmarked
      · exact (wp_throw _).mpr hmarked
      · simp only [installRing, wp_bind, wp_ite, wp_throw]
        refine ⟨fun _ => hmarked, fun _ => ?_⟩
        split
        · exact (wp_throw _).mpr hmarked
        · simp only [wp_emit, wp_modify, OrdMap.insert_insert, true_and]
          exact hI.other (hI.edit h hv (mark_markInRing lb v)) rfl

theorem preserves_writeVipEntry (hI : Edits I) (spec : VipSpec) :
    Preserves I (writeVipEntry env spec) := by
  refine (preserves_vipAt spec).bind fun v => ?_
  simp only
  split
  · exact .of_throw _
  · exact hI.preserves_emit rfl

theorem preserves_takeVipId (hI : Edits I) (spec : VipSpec) :
    Preserves I (takeVipId spec) := by
  refine Preserves.of_get.bind fun lb => ?_
  split
  · exact (Preserves.of_modify fun _ _ h => hI.ids _ h).bind fun _ => .of_pure _
  · split
    · exact .of_throw _
    · exact (hI.preserves_emit rfl).bind fun _ => .of_pure _

theorem preserves_setFlags (hI : Edits I) (flags : UInt32) :
    Preserves I (setFlags env spec flags) := by
  intro d lb h
  simp only [setFlags, vipAt, putVip, wp_bind, wp_get]
  cases hv : lb.vips[spec]? with
  | none => exact (wp_throw _).mpr h
  | some v =>
      have hput : I d { lb with vips := lb.vips.insert spec { v with flags } } :=
        hI.edit h hv fun _ => rfl
      simp only [wp_pure, wp_ite, wp_modify, wp_bind]
      exact ⟨fun _ => hI.preserves_writeVipEntry spec _ _ hput, fun _ => h⟩

theorem preserves_addVip (hI : Edits I) (noConntrack : Bool) :
    Preserves I (addVip env spec noConntrack) := by
  refine Preserves.of_get.bind fun lb => .ite (fun _ => .of_throw _) fun _ => ?_
  refine Preserves.bind ?_ fun _ => .of_pure _
  refine (hI.preserves_takeVipId spec).bind fun id => ?_
  refine (Preserves.of_modify fun _ _ h => hI.enter spec id _ h).bind fun _ => ?_
  refine (Preserves.each fun r hr => ?_).bind fun _ => ?_
  · exact absurd (ExtTreeMap.mem_toList_iff_getElem?_eq_some.mp hr) (by simp)
  · exact (hI.preserves_rebuildLocked spec).bind fun _ =>
      (hI.preserves_writeVipEntry spec).bind fun _ => preserves_vipAt spec

end Edits

namespace Closed

open Edits

theorem preserves_addMemberLocked (hI : Closed env K I) {a : UInt32} (hK : K spec a)
    (weight : Nat) : Preserves I (addMemberLocked env spec a weight) := by
  refine (hI.acquire a).bind fun _ => (hI.ask hK).bind fun _ d lb h => ?_
  simp only [vipAt, putVip, wp_bind, wp_get, wp_modify]
  cases hv : lb.vips[spec]? with
  | none => exact (wp_throw _).mpr (hI.tick h)
  | some v =>
      simp only [wp_pure]
      by_cases hin : a ∈ v.members
      · refine hI.edit (hI.tick h) hv fun b => ?_
        simp only [OrdMap.getElem?_insertIfNew, hin, not_true_eq_false, and_false, if_false]
      · rw [OrdMap.insertIfNew_eq_insert hin]
        exact hI.join weight h hv hK hin

theorem preserves_removeMemberLocked (hI : Closed env K I) {a : UInt32} (hK : ¬K spec a) :
    Preserves I (removeMemberLocked spec a) := by
  intro d lb h
  simp only [removeMemberLocked, vipAt, putVip, wp_bind, wp_get]
  cases hv : lb.vips[spec]? with
  | none => exact (wp_throw _).mpr h
  | some v =>
      simp only [wp_pure, wp_modify]
      exact hI.leave h hv hK

theorem preserves_createVipLocked (hI : Closed env K I) {flags : UInt32}
    {reals : ExtTreeMap UInt32 Nat} (hK : ∀ a ∈ reals, K spec a) :
    Preserves I (createVipLocked env spec flags reals) := by
  refine (hI.preserves_takeVipId spec).bind fun id => ?_
  refine (Preserves.of_modify fun _ _ h => hI.enter spec id flags h).bind fun _ => ?_
  refine (Preserves.each fun r hr => hI.preserves_addMemberLocked (hK r.1 ?_) r.2).bind
    fun _ => ?_
  · exact OrdMap.mem_iff.mpr ⟨r.2, ExtTreeMap.mem_toList_iff_getElem?_eq_some.mp hr⟩
  · exact (hI.preserves_rebuildLocked spec).bind fun _ =>
      (hI.preserves_writeVipEntry spec).bind fun _ => preserves_vipAt spec

theorem preserves_deleteVipLocked (hI : Closed env K I) (hK : ∀ a, ¬K spec a) :
    Preserves I (deleteVipLocked env spec) := by
  refine Preserves.of_get.bind fun lb => ?_
  split
  · exact .of_pure _
  · refine (hI.preserves_emit rfl).bind fun _ => (hI.preserves_removeRing _).bind fun _ => ?_
    refine (Preserves.each fun a _ => hI.release a).bind fun _ => ?_
    exact .of_modify fun _ lb h => hI.remove h hK

/-! ## apply -/

theorem preserves_reconcileMember (hI : Closed env K I) {r : UInt32 × Nat} (hK : K spec r.1)
    (changed : Bool) : Preserves I (reconcileMember env spec changed r) := by
  intro d lb h
  simp only [reconcileMember, vipAt, putVip, wp_bind, wp_get]
  cases hv : lb.vips[spec]? with
  | none => exact (wp_throw _).mpr h
  | some v =>
      rw [wp_pure]
      split
      · exact ((hI.preserves_addMemberLocked hK r.2).bind fun _ => .of_pure true) _ _ h
      · next m hm =>
          simp only [wp_ite, wp_bind, wp_modify, wp_pure]
          exact ⟨fun _ => hI.edit h hv (mark_insert hm rfl), fun _ => h⟩

theorem preserves_reconcileVip (hI : Closed env K I) {hashChanged : Bool} {flags : UInt32}
    {want : ExtTreeMap UInt32 Nat} (hK : ∀ a, K spec a ↔ a ∈ want) :
    Preserves I (reconcileVip env hashChanged spec flags want) := by
  refine (hI.preserves_setFlags flags).bind fun _ => (preserves_vipAt spec).bind fun v => ?_
  refine (Preserves.each fun a ha => hI.preserves_removeMemberLocked ?_).bind fun _ => ?_
  · rw [hK]
    simpa [removedMembers] using (List.mem_filter.mp ha).2
  refine (Preserves.fold fun r hr changed => hI.preserves_reconcileMember ?_ changed).bind
    fun changed => ?_
  · exact (hK r.1).mpr
      (OrdMap.mem_iff.mpr ⟨r.2, ExtTreeMap.mem_toList_iff_getElem?_eq_some.mp hr⟩)
  exact (Preserves.when (hI.preserves_rebuildLocked spec)).bind fun _ =>
    .each fun a _ => hI.release a

end Closed

def Lists (cfg : Config) (s : VipSpec) (a : UInt32) : Prop :=
  ∃ vc ∈ cfg.vips, vc.spec = s ∧ a ∈ wantOf vc

theorem lists_iff {cfg : Config} (hok : cfg.Ok) {vc : VipConfig} (hvc : vc ∈ cfg.vips)
    (a : UInt32) : Lists cfg vc.spec a ↔ a ∈ wantOf vc := by
  constructor
  · rintro ⟨vc', hvc', hspec, ha⟩
    rwa [← List.inj_on_of_nodup_map hok.specs_nodup hvc' hvc hspec]
  · exact fun ha => ⟨vc, hvc, rfl, ha⟩

namespace Closed

open Edits

variable {cfg : Config}

theorem preserves_applyVip (hI : Closed env (Lists cfg) I) (hok : cfg.Ok) {vc : VipConfig}
    (hvc : vc ∈ cfg.vips) (hashChanged : Bool) : Preserves I (applyVip env hashChanged vc) := by
  refine Preserves.of_get.bind fun lb => ?_
  split
  · exact (hI.preserves_createVipLocked fun a => (lists_iff hok hvc a).mpr).bind
      fun _ => .of_pure _
  · exact hI.preserves_reconcileVip (lists_iff hok hvc)

theorem preserves_dropUnwanted (hI : Closed env (Lists cfg) I) (spec : VipSpec) :
    Preserves I (dropUnwanted env cfg spec) := by
  refine .ite (fun _ => .of_pure _) fun hspec => hI.preserves_deleteVipLocked ?_
  rintro a ⟨vc, hvc, rfl, -⟩
  exact hspec (List.mem_map_of_mem hvc)

theorem preserves_writeConfigMap
    (hother : ∀ {d lb} {w : MapWrite}, I d lb → w.ofTable = false → I (Durable.write d w) lb)
    (cfg : Config) : Preserves I (writeConfigMap env cfg) := by
  refine Preserves.of_get.bind fun lb => ?_
  split
  · exact .of_throw _
  · split
    · exact .of_throw _
    · exact .of_emit fun _ _ h => hother h rfl

theorem preserves_finishFirst (hI : Closed env K I)
    (hdrop : Preserves I (onReals (RealTable.dropUnreferenced env)))
    (hinit : ∀ d lb, I d lb → I d { lb with initialized := true }) :
    Preserves I (finishFirst env) := by
  refine Preserves.of_get.bind fun lb => ?_
  refine (Preserves.each fun p _ => ?_).bind fun _ => ?_
  · exact Preserves.of_get.bind fun _ => .ite (fun _ => .of_pure _) fun _ =>
      (hI.preserves_emit rfl).bind fun _ => hI.preserves_removeRing _
  refine (Preserves.of_modify fun _ _ h => hI.ids ∅ h).bind fun _ => ?_
  exact hdrop.bind fun _ => .of_modify hinit

/-- `apply` once its settings are made: what holds then holds at the end.  The condition
`E` of an error covers one before that point. -/
theorem wp_apply (hI : Closed env (Lists cfg) I) (hok : cfg.Ok)
    (hdrop : Preserves I (onReals (RealTable.dropUnreferenced env)))
    (hinit : ∀ d lb, I d lb → I d { lb with initialized := true })
    {E : CtlMaps → LbState → Prop} (hE : ∀ d lb, I d lb → E d lb) {d : CtlMaps} {lb : LbState}
    (hopen : wp (Prog.when (!lb.initialized) adoptLocked >>= fun _ => writeConfigMap env cfg)
      (fun _ _ => True)
      (fun _ d lb => I d { lb with
        healthEnabled := cfg.health.enabled
        nextHop := cfg.nextHopBe
        hash := cfg.hash })
      (fun _ => E) d lb) :
    wp (apply env cfg) (fun _ _ => True) (fun _ => I) (fun _ => E) d lb := by
  simp only [wp_bind] at hopen
  simp only [apply, applyOpening, wp_bind, wp_get, wp_modify, wp_pure]
  refine wp_imp hopen fun _ d₁ lb₁ h₁ => wp_imp h₁ fun _ d₂ lb₂ h₂ => ?_
  have hrest : Preserves I (Prog.each lb₂.vips.keys (dropUnwanted env cfg) >>= fun _ =>
      Prog.each cfg.vips (applyVip env (decide (lb₂.hash ≠ cfg.hash))) >>= fun _ =>
      Prog.when (!lb.initialized) (finishFirst env)) :=
    (Preserves.each fun spec _ => hI.preserves_dropUnwanted spec).bind fun _ =>
      (Preserves.each fun vc hvc => hI.preserves_applyVip hok hvc _).bind fun _ =>
        .when (hI.preserves_finishFirst hdrop hinit)
  have hend := wp_mono (hrest _ _ h₂) (fun _ _ hw => hw) (fun _ _ _ h => h)
    fun _ d lb h => hE d lb h
  simpa only [wp_bind] using hend

/-! ## API mutations and neighbours -/

theorem preserves_delVip (hI : Closed env K I) (hK : ∀ a, ¬K spec a) :
    Preserves I (delVip env spec) :=
  (preserves_vipOrThrow spec).bind fun _ => hI.preserves_deleteVipLocked hK

theorem preserves_addReal (hI : Closed env K I) {a : UInt32} (hK : K spec a) (weight : Nat) :
    Preserves I (addReal env spec a weight) := by
  refine (preserves_vipOrThrow spec).bind fun v => ?_
  refine .ite (fun _ => .of_throw _) fun _ => .ite (fun _ => .of_throw _) fun _ =>
    .ite (fun _ => .of_throw _) fun _ => ?_
  refine (hI.preserves_addMemberLocked hK weight).bind fun _ =>
    (hI.preserves_rebuildLocked spec).bind fun _ => Preserves.of_get.bind fun lb => ?_
  split
  · exact .of_pure _
  · exact .of_throw _

theorem preserves_delReal (hI : Closed env K I) {a : UInt32} (hK : ¬K spec a) :
    Preserves I (delReal env spec a) :=
  (preserves_vipOrThrow spec).bind fun v => (preserves_memberOrThrow v a).bind fun _ =>
    (hI.preserves_removeMemberLocked hK).bind fun _ =>
      (hI.preserves_rebuildLocked spec).bind fun _ => hI.release a

theorem preserves_editMember (hI : Closed env K I) {a : UInt32} (skip : Member → Prop)
    [DecidablePred skip] (edit : Member → Member) (hedit : ∀ m, (edit m).mark = m.mark) :
    Preserves I (do
      let v ← vipOrThrow spec
      let m ← memberOrThrow v a
      if skip m then pure ()
      else
        putVip spec { v with members := v.members.insert a (edit m) }
        rebuildLocked env spec) := by
  intro d lb h
  simp only [vipOrThrow, memberOrThrow, putVip, wp_bind, wp_get]
  cases hv : lb.vips[spec]? with
  | none => exact (wp_throw _).mpr h
  | some v =>
      rw [wp_pure]
      cases hm : v.members[a]? with
      | none => exact (wp_throw _).mpr h
      | some m =>
          simp only [wp_pure, wp_ite, wp_bind, wp_modify]
          refine ⟨fun _ => h, fun _ => ?_⟩
          exact hI.preserves_rebuildLocked spec _ _ (hI.edit h hv (mark_insert hm (hedit m)))

theorem preserves_setWeight (hI : Closed env K I) (a : UInt32) (weight : Nat) :
    Preserves I (setWeight env spec a weight) := by
  refine .ite (fun _ => .of_throw _) fun _ => ?_
  exact hI.preserves_editMember (fun m => m.weight = weight) (fun m => { m with weight })
    fun _ => rfl

theorem preserves_setDraining (hI : Closed env K I) (a : UInt32) (draining : Bool) :
    Preserves I (setDraining env spec a draining) :=
  hI.preserves_editMember (fun m => m.draining = draining) (fun m => { m with draining })
    fun _ => rfl

theorem preserves_neighborResolved (hI : Closed env K I) {ip : UInt32} {mac : NeighMac}
    (hset : ∀ d lb, I d lb → wp (Prog.fold (lb.resolvedAddrs ip) [] (setOne env mac.mac))
      (fun _ _ => True) (fun _ => I) (fun _ => I) d lb) :
    Preserves I (neighborResolved env ip mac) := by
  intro d lb h
  simp only [neighborResolved, wp_bind, wp_get]
  refine wp_imp (hset d lb h) fun newly d₁ lb₁ h₁ => ?_
  have hrest : Preserves I (Prog.each lb.vips.keys fun spec => do
      let v ← vipAt spec
      if v.members.keys.any (· ∈ newly) then rebuildLocked env spec else pure ()) :=
    .each fun spec _ => (preserves_vipAt spec).bind fun _ =>
      .ite (fun _ => hI.preserves_rebuildLocked spec) fun _ => .of_pure _
  simp only [wp_ite, wp_pure]
  exact ⟨fun _ => h₁, fun _ => hrest _ _ h₁⟩

theorem preserves_reportHealth (hI : Closed env K I)
    (hvip : ∀ d lb spec v, I d lb → I d { lb with vips := lb.vips.insert spec v })
    (t : HealthTarget) (r : ProbeResult) (rise fall : UInt32) :
    Preserves I (reportHealth env t r rise fall) := by
  refine Preserves.of_get.bind fun lb => ?_
  have hput : ∀ v, Preserves I (putVip t.vip v) := fun v =>
    .of_modify fun d lb h => hvip d lb t.vip v h
  split
  · exact .of_pure _
  · split
    · exact .of_pure _
    · exact .ite (fun _ => .of_pure _) fun _ => .ite (fun _ => .of_pure _) fun _ =>
        .ite (fun _ => (hput _).bind fun _ => hI.preserves_rebuildLocked _) fun _ => hput _

end Closed

end Steps

end LbState

end PacketBalance
