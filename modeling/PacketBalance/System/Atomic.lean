import PacketBalance.System.Serving
/-!
# API mutations and exceptions

A mutation that is turned down, by its arguments or by a full table, has changed nothing.
One that is accepted changes the model first and installs the ring then; when
`install_ring` fails the change stays, without its ring.
-/

namespace PacketBalance

open WriteLog Std LbState

/-! ## Statement -/

def Op.isMutation : Op → Bool
  | .addVip .. | .addReal .. | .delReal .. | .setWeight .. | .setDraining .. => true
  | _ => false

def RealTable.NoIdFor (t : RealTable) (addr : UInt32) : Prop :=
  t.idOf addr = none ∧ t.used.card = pbMaxReals - 1

instance (t : RealTable) (addr : UInt32) : Decidable (t.NoIdFor addr) :=
  inferInstanceAs (Decidable (_ ∧ _))

/-- The `vip_id` whose ring the mutation installs; none when it is turned down or has
nothing to do. -/
def Op.installs (lb : LbState) : Op → Option Nat
  | .addVip vip _ => if vip ∈ lb.vips then none else lb.idFor vip
  | .addReal vip addr weight =>
      lb.vips[vip]?.bind fun v =>
        if addr = 0 ∨ addr ∈ v.members ∨ kMaxRealWeight < weight ∨ lb.reals.NoIdFor addr then none
        else some v.id
  | .delReal vip addr =>
      lb.vips[vip]?.bind fun v => if addr ∈ v.members then some v.id else none
  | .setWeight vip addr weight =>
      if kMaxRealWeight < weight then none
      else lb.vips[vip]?.bind fun v => v.members[addr]?.bind fun m =>
        if m.weight = weight then none else some v.id
  | .setDraining vip addr draining =>
      lb.vips[vip]?.bind fun v => v.members[addr]?.bind fun m =>
        if m.draining = draining then none else some v.id
  | _ => none

/-- The mutation gets as far as `install_ring`, which fails. -/
def Op.Blocked (env : Env) (lb : LbState) (op : Op) : Prop :=
  ∃ id, op.installs lb = some id ∧ (env.ringFault id).isSome

/-- The model and the maps are what they were.  `Vip.core` leaves out what a rebuild
notes about a ring. -/
structure Unchanged (lb : LbState) (d : CtlMaps) (d' : CtlMaps) (lb' : LbState) : Prop where
  vips : ∀ s : VipSpec, lb'.vips[s]?.map Vip.core = lb.vips[s]?.map Vip.core
  refs : ∀ a, lb'.reals.refsOf a = lb.reals.refsOf a
  realIds : ∀ a, lb'.reals.idOf a = lb.reals.idOf a
  vipIds : lb'.allocateVipId = lb.allocateVipId
  vipMap : d'.vipMap = d.vipMap
  rings : d'.rings = d.rings
  reals : d'.reals = d.reals
  neigh : d'.neigh = d.neigh

/-- A call that throws has changed nothing, and made again has the effect that it would
have had. -/
def Op.Atomic (env : Env) (op : Op) (d : CtlMaps) (lb : LbState) : Prop :=
  ∀ err, (op.run env d lb).res = .error err →
    Unchanged lb d (replay d (op.run env d lb).log) (op.run env d lb).mem ∧
    ∀ env', op.run env' (replay d (op.run env d lb).log) (op.run env d lb).mem =
      op.run env' d lb

/-! ## How a mutation ends -/

section Ends

variable {env : Env} {op : Op} {lb lb₁ : LbState} {d d₁ : CtlMaps} {spec : VipSpec}
  {pend : List UInt32} {v v₁ : Vip}

/-- An exception: the mutation was turned down, or the ring was due and the model has
changed. -/
def Op.Ends (env : Env) (op : Op) (lb : LbState) (d : CtlMaps) (_err : LbError)
    (d' : CtlMaps) (lb' : LbState) : Prop :=
  (d' = d ∧ lb' = lb ∧ op.installs lb = none) ∨
    (op.Blocked env lb ∧ ∃ s : VipSpec, lb'.vips[s]?.map Vip.core ≠ lb.vips[s]?.map Vip.core)

theorem Op.not_blocked_of_none (h : op.installs lb = none) : ¬op.Blocked env lb :=
  fun ⟨id, hid, _⟩ => by rw [h] at hid; cases hid

theorem Op.atomic_of_ends
    (h : wp (op.run env) (fun _ _ => True) (fun _ _ _ => ¬op.Blocked env lb) (op.Ends env lb d)
      d lb) : op.Atomic env d lb ↔ ¬op.Blocked env lb := by
  constructor
  · intro hatomic
    cases hres : (op.run env d lb).res with
    | ok _ => exact h.of_ok hres
    | error err =>
        rcases h.of_error hres with ⟨-, -, hnone⟩ | ⟨-, s, hs⟩
        · exact Op.not_blocked_of_none hnone
        · exact absurd ((hatomic err hres).1.vips s) hs
  · intro hnot err hres
    rcases h.of_error hres with ⟨hd, hlb, -⟩ | ⟨hblocked, -⟩
    · rw [hd, hlb]
      exact ⟨⟨fun _ => rfl, fun _ => rfl, fun _ => rfl, rfl, rfl, rfl, rfl, rfl⟩, fun _ => rfl⟩
    · exact absurd hblocked hnot

theorem Op.Ends.rejected {err : LbError} (h : op.installs lb = none) :
    op.Ends env lb d err d lb := .inl ⟨rfl, rfl, h⟩

theorem Op.ok_of_installs
    (h : wp (op.run env) (fun _ _ => True) (fun _ _ _ => ¬op.Blocked env lb) (op.Ends env lb d)
      d lb) {id : Nat} (hinst : op.installs lb = some id) (hfault : env.ringFault id = none) :
    (op.run env d lb).res = .ok () := by
  cases hres : (op.run env d lb).res with
  | ok _ => rfl
  | error err =>
      rcases h.of_error hres with ⟨-, -, hnone⟩ | ⟨⟨id', hid', hfault'⟩, -⟩
      · rw [hinst] at hnone
        cases hnone
      · rw [hinst] at hid'
        rw [← Option.some.inj hid', hfault] at hfault'
        cases hfault'

theorem rebuild_ends (hc : Consistent pend lb₁ d₁) (hv₁ : lb₁.vips[spec]? = some v₁)
    (hinst : op.installs lb = some v₁.id)
    (hdiff : lb.vips[spec]?.map Vip.core ≠ some v₁.core) :
    wp (rebuildLocked env spec) (fun _ _ => True)
      (fun _ d' lb' => ¬op.Blocked env lb ∧ Consistent pend lb' d' ∧ lb'.reals = lb₁.reals ∧
        ∃ v', lb'.vips[spec]? = some v' ∧ v'.core = v₁.core)
      (op.Ends env lb d) d₁ lb₁ := by
  refine wp_mono (rebuild_spec hc hv₁ fun _ _ => trivial) (fun _ _ hw => hw) ?_ ?_
  · rintro _ d' lb' ⟨hc', hnone, slots, -, -, rfl⟩
    refine ⟨?_, hc', rfl, _, ExtTreeMap.getElem?_insert_self,
      lb₁.core_markInRing v₁ _⟩
    rintro ⟨id, hid, hfault⟩
    rw [hinst] at hid
    obtain rfl := Option.some.inj hid
    simp [hnone] at hfault
  · rintro err d' lb' ⟨-, -, rfl, fault, hfault, -⟩
    refine .inr ⟨⟨v₁.id, hinst, by simp [hfault]⟩, spec, ?_⟩
    simp only [ExtTreeMap.getElem?_insert_self, Option.map_some]
    exact fun heq => hdiff (heq.symm.trans (congrArg some (lb₁.core_markInRing v₁ _)))

theorem core_insert_ne {a : UInt32} {m m' : Member} (hm : v.members[a]? = some m)
    (hne : { m with inRing := false } ≠ { m' with inRing := false }) :
    some v.core ≠ some (Vip.core { v with members := v.members.insert a m' }) := by
  intro heq
  have hmem := (core_inj (Option.some.inj heq)).2.2.2 a
  simp only [hm, ExtTreeMap.getElem?_insert_self, Option.map_some, Option.some.injEq] at hmem
  exact hne hmem

theorem core_ne_of_mem {a : UInt32} (hne : ¬(a ∈ v.members ↔ a ∈ v₁.members)) :
    some v.core ≠ some v₁.core := fun heq => hne (mem_of_core (Option.some.inj heq) a)

theorem addVip_ends (hfault : ∀ w, env.fault w = none) (hc : Consistent [] lb d)
    (noConntrack : Bool) :
    let op := Op.addVip spec noConntrack
    wp (op.run env) (fun _ _ => True) (fun _ _ _ => ¬op.Blocked env lb) (op.Ends env lb d) d
      lb := by
  intro op
  simp only [op, Op.run, addVip, wp_bind, wp_get, wp_ite, wp_throw]
  refine ⟨fun hold => .rejected (by simp [Op.installs, hold]), fun hnew => ?_⟩
  simp only [createVipLocked, wp_bind]
  refine wp_mono (takeVipId_spec hnew fun _ _ => trivial) (fun _ _ hw => hw) ?_ ?_
  swap
  · rintro err _ _ ⟨-, hid, rfl, rfl⟩
    exact .rejected (by simp [Op.installs, hnew, hid])
  rintro id _ _ ⟨hid, rfl, rfl⟩
  simp only [wp_modify, OrdMap.insertIfNew_eq_insert hnew, toList_empty, Prog.each, wp_pure]
  have hinst : op.installs lb = some id := by simp [op, Op.installs, hnew, hid]
  have hc₁ := hc.insertNew hnew hid (vipFlags noConntrack)
  refine wp_mono (rebuild_ends hc₁ ExtTreeMap.getElem?_insert_self hinst
    (by simp [OrdMap.notMem_iff.mp hnew])) (fun _ _ hw => hw) ?_ (fun _ _ _ hend => hend)
  rintro _ d' lb' ⟨hnot, -, -, v', hv', -⟩
  simp only [writeVipEntry, vipAt, wp_bind, wp_get, hv', wp_pure, hfault, wp_emit]
  exact ⟨trivial, hnot⟩

theorem addReal_ends (henv : ArrayOk env) (hc : Consistent [] lb d) (a : UInt32) (w : Nat) :
    let op := Op.addReal spec a w
    wp (op.run env) (fun _ _ => True) (fun _ _ _ => ¬op.Blocked env lb) (op.Ends env lb d) d
      lb := by
  intro op
  simp only [op, Op.run, addReal, wp_bind]
  refine wp_vipOrThrow (fun hv => .rejected (by simp [Op.installs, hv])) fun v hv => ?_
  simp only [wp_ite, wp_throw, wp_bind]
  refine ⟨fun hzero => .rejected (by simp [Op.installs, hv, hzero]), fun hzero =>
    ⟨fun hold => .rejected (by simp [Op.installs, hv, hold]), fun hnew =>
    ⟨fun hbig => .rejected (by simp [Op.installs, hv, hbig]), fun hsmall => ?_⟩⟩⟩
  refine wp_mono (addMember_spec henv hc hv hzero hnew w fun _ _ _ _ => trivial)
    (fun _ _ hw => hw) ?_ ?_
  swap
  · rintro err d' lb' ⟨-, rfl, rfl, hentry, hfull⟩
    have hroom : lb'.reals.NoIdFor a := ⟨by rw [RealTable.idOf_eq, hentry]; rfl, hfull⟩
    exact .rejected (by simp [Op.installs, hv, hroom])
  rintro _ d₁ lb₁ ⟨hc₁, -, t, e, hentry, -, -, rfl⟩
  have hroom : ¬lb.reals.NoIdFor a := by
    rintro ⟨hid, hfull⟩
    rw [RealTable.idOf_eq, Option.map_eq_none_iff] at hid
    exact absurd hfull (hc₁.table.wf.card_used_lt hid hentry).ne
  have hinst : op.installs lb = some v.id := by
    simp [op, Op.installs, hv, hzero, hnew, hsmall, hroom]
  refine wp_mono (rebuild_ends hc₁ ExtTreeMap.getElem?_insert_self hinst ?_)
    (fun _ _ hw => hw) ?_ (fun _ _ _ hend => hend)
  · rw [hv, Option.map_some]
    exact core_ne_of_mem (a := a) (by simp [hnew])
  · rintro _ d₂ lb₂ ⟨hnot, -, hreals, -⟩
    have hid : lb₂.reals.idOf a = some e.id := by
      rw [hreals, RealTable.idOf_eq, hentry, Function.update_self, Option.map_some]
    simp only [derefId, wp_bind, wp_get, hid, wp_pure]
    exact hnot

theorem delReal_ends (henv : ArrayOk env) (hc : Consistent [] lb d) (a : UInt32) :
    let op := Op.delReal spec a
    wp (op.run env) (fun _ _ => True) (fun _ _ _ => ¬op.Blocked env lb) (op.Ends env lb d) d
      lb := by
  intro op
  simp only [op, Op.run, delReal, wp_bind]
  refine wp_vipOrThrow (fun hv => .rejected (by simp [Op.installs, hv])) fun v hv => ?_
  refine wp_memberOrThrow (fun hm => .rejected ?_) fun m hm => ?_
  · simp [Op.installs, hv, OrdMap.notMem_iff.mpr hm]
  have ha : a ∈ v.members := OrdMap.mem_iff.mpr ⟨m, hm⟩
  obtain ⟨e, he⟩ := hc.member_entry hv ha
  simp only [removeMemberLocked, vipAt, putVip, wp_bind, wp_get, hv, wp_pure, wp_modify]
  have hc₁ := (hc.eraseMember hv a).weaken
  refine wp_mono (rebuild_ends hc₁ ExtTreeMap.getElem?_insert_self
    (by simp [Op.installs, hv, ha]) ?_) (fun _ _ hw => hw) ?_ (fun _ _ _ hend => hend)
  · rw [hv, Option.map_some]
    exact core_ne_of_mem (a := a) (by simp [ha])
  · rintro _ d₂ lb₂ ⟨hnot, hc₂, hreals, -⟩
    rw [onReals, wp_zoom]
    refine wp_mono (RealTable.release_spec henv hc₂.table (by rw [hreals]; exact he)
      fun _ => ⟨trivial, fun _ _ => trivial⟩) (fun _ _ hw => hw) (fun _ _ _ _ => hnot)
      (fun _ _ _ hf => hf.elim)

theorem replaceMember_ends (hc : Consistent [] lb d) (hv : lb.vips[spec]? = some v) {a : UInt32}
    {m : Member} (hm : v.members[a]? = some m) (m' : Member)
    (hinst : op.installs lb = some v.id)
    (hne : { m with inRing := false } ≠ { m' with inRing := false }) :
    wp (rebuildLocked env spec) (fun _ _ => True) (fun _ _ _ => ¬op.Blocked env lb)
      (op.Ends env lb d) d
      { lb with vips := lb.vips.insert spec { v with members := v.members.insert a m' } } := by
  have hc₁ := (Edited.member (R := fun _ => True) hc hv hm m' (.inl trivial)).consistent
  refine wp_mono (rebuild_ends hc₁ ExtTreeMap.getElem?_insert_self hinst ?_)
    (fun _ _ hw => hw) (fun _ _ _ hend => hend.1) (fun _ _ _ hend => hend)
  rw [hv, Option.map_some]
  exact core_insert_ne hm hne

theorem setWeight_ends (hc : Consistent [] lb d) (a : UInt32) (w : Nat) :
    let op := Op.setWeight spec a w
    wp (op.run env) (fun _ _ => True) (fun _ _ _ => ¬op.Blocked env lb) (op.Ends env lb d) d
      lb := by
  intro op
  simp only [op, Op.run, setWeight, wp_ite, wp_throw]
  refine ⟨fun hbig => .rejected (by simp [Op.installs, hbig]), fun hsmall => ?_⟩
  refine wp_editMember (fun m => m.weight = w) (fun m => { m with weight := w })
    (fun hv => .rejected (by simp [Op.installs, hv]))
    (fun v hv hm => .rejected (by simp [Op.installs, hv, hm]))
    (fun v m hv hm hsame => Op.not_blocked_of_none (by simp [Op.installs, hv, hm, hsame])) ?_
  intro v m hv hm hne
  refine replaceMember_ends hc hv hm _ (by simp [Op.installs, hv, hm, hsmall, hne]) ?_
  exact fun heq => hne (congrArg Member.weight heq)

theorem setDraining_ends (hc : Consistent [] lb d) (a : UInt32) (draining : Bool) :
    let op := Op.setDraining spec a draining
    wp (op.run env) (fun _ _ => True) (fun _ _ _ => ¬op.Blocked env lb) (op.Ends env lb d) d
      lb := by
  intro op
  refine wp_editMember (fun m => m.draining = draining) (fun m => { m with draining })
    (fun hv => .rejected (by simp [op, Op.installs, hv]))
    (fun v hv hm => .rejected (by simp [op, Op.installs, hv, hm]))
    (fun v m hv hm hsame => Op.not_blocked_of_none (by simp [op, Op.installs, hv, hm, hsame])) ?_
  intro v m hv hm hne
  refine replaceMember_ends hc hv hm _ (by simp [op, Op.installs, hv, hm, hne]) ?_
  exact fun heq => hne (congrArg Member.draining heq)

end Ends

/-! ## When a mutation is atomic -/

namespace Serving

/-- In every state that a daemon reaches, also through exceptions, a mutation is atomic
exactly when it is not one whose ring cannot be installed. -/
theorem atomic_iff_not_blocked {s : Serving} (h : Reachable s) {env : Env}
    (hfault : ∀ w, env.fault w = none) {op : Op} (hop : op.isMutation = true) :
    op.Atomic env s.ctl s.lb ↔ ¬op.Blocked env s.lb := by
  have hc := h.live.consistent
  have henv : ArrayOk env := ⟨fun _ _ => hfault _, fun _ _ => hfault _⟩
  apply Op.atomic_of_ends
  cases op with
  | addVip vip noConntrack => exact addVip_ends hfault hc noConntrack
  | addReal vip addr weight => exact addReal_ends henv hc addr weight
  | delReal vip addr => exact delReal_ends henv hc addr
  | setWeight vip addr weight => exact setWeight_ends hc addr weight
  | setDraining vip addr draining => exact setDraining_ends hc addr draining
  | _ => cases hop

theorem exists_sample_member : ∃ s v, Reachable s ∧ s.lb.vips[sampleFlow.vip]? = some v ∧
    0x1500000a ∈ v.members := by
  obtain ⟨s, hreach, happ⟩ := sample_reachable
  have hvc : { spec := sampleFlow.vip, reals := [{ addrBe := 0x1500000a }] } ∈
      System.sampleConfig.vips := List.mem_singleton.mpr rfl
  obtain ⟨v, hv, hconf⟩ := (happ.vips System.sampleConfig.ok).2 _ hvc
  exact ⟨s, v, hreach, hv,
    (hconf.mem_members (System.sampleConfig.ok.vip_ok _ hvc)).mpr (by decide)⟩

/-- A weight out of range is turned down before `install_ring` could fail. -/
theorem atomic_iff_not_blocked_sample : ∃ s v, Reachable s ∧
    s.lb.vips[sampleFlow.vip]? = some v ∧ 0x1500000a ∈ v.members ∧
    let op := Op.setWeight sampleFlow.vip 0x1500000a (kMaxRealWeight + 1)
    (op.run ringlessEnv s.ctl s.lb).res = .error badWeight ∧ op.Atomic ringlessEnv s.ctl s.lb := by
  obtain ⟨s, v, hreach, hv, ha⟩ := exists_sample_member
  refine ⟨s, v, hreach, hv, ha, rfl, (atomic_iff_not_blocked hreach ringlessEnv_fault rfl).mpr ?_⟩
  rintro ⟨id, hid, -⟩
  simp [Op.installs] at hid

/-- `install_ring` fails while the only real is deleted: the model has lost it, its ring
and its reference are still there. -/
theorem delReal_not_atomic : ∃ s env, Reachable s ∧ (∀ w, env.fault w = none) ∧
    ¬(Op.delReal sampleFlow.vip 0x1500000a).Atomic env s.ctl s.lb := by
  obtain ⟨s, v, hreach, hv, ha⟩ := exists_sample_member
  refine ⟨s, ringlessEnv, hreach, ringlessEnv_fault, fun hatomic => ?_⟩
  refine (Op.atomic_of_ends (delReal_ends ringlessEnv_arrayOk hreach.live.consistent _)).mp
    hatomic ?_
  exact ⟨v.id, by simp [Op.installs, hv, ha], rfl⟩

end Serving

end PacketBalance
