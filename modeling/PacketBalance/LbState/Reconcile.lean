import PacketBalance.LbState.Backed
/-!
# Giving a VIP its members

`create_vip_locked`, the reconciling branch of `apply` and the API calls that add,
delete or reweigh a real all do one thing to one VIP: they give it wanted weights,
install the ring of its members and drop the references of those that left.
`VipStep` relates the states before and after, `VipWrite` lists the writes on the
way with what is known of the maps each of them is made in, and `StepFailed` says
what an exception leaves behind.
-/

namespace PacketBalance

open WriteLog Std

structure Healthy (env : Env) : Prop where
  fault : ∀ w, env.fault w = none
  ringFault : ∀ id, env.ringFault id = none
  interfaceMac : env.interfaceMac.isSome

theorem Healthy.arrayOk {env : Env} (h : Healthy env) : ArrayOk env :=
  ⟨fun _ _ => h.fault _, fun _ _ => h.fault _⟩

namespace LbState

variable {pend : List UInt32} {lb : LbState} {d : CtlMaps} {env : Env}

/-! ## The relations -/

def membersAt (lb : LbState) (spec : VipSpec) : ExtTreeMap UInt32 Member :=
  lb.vips[spec]?.elim ∅ Vip.members

/-- The id a VIP has, was pinned with, or would be given. -/
def idFor (lb : LbState) (spec : VipSpec) : Option Nat :=
  (lb.vips[spec]?.map Vip.id).or (lb.adoptedVipIds[spec]?.or lb.allocateVipId)

def leaving (lb : LbState) (spec : VipSpec) (want : ExtTreeMap UInt32 Nat) : List UInt32 :=
  (lb.membersAt spec).keys.filter fun addr => addr ∉ want

/-- A member after its VIP has been given the wanted weights. -/
def MemberStep (env : Env) (old : Option Member) (want : Option Nat) (new : Option Member) :
    Prop :=
  match want with
  | none => new = none
  | some w => ∃ m, new = some m ∧ MemberAfter env old w m

/-- The model once a VIP has its wanted members. -/
structure Shaped (env : Env) (lb : LbState) (spec : VipSpec) (flags : UInt32)
    (want : ExtTreeMap UInt32 Nat) (v' : Vip) (lb' : LbState) : Prop where
  state : ∃ t n ids, lb' = { lb with
    reals := t
    nextIncarnation := n
    adoptedVipIds := ids
    vips := lb.vips.insert spec v' }
  spec_eq : v'.spec = spec
  flags_eq : v'.flags = flags
  id_eq : lb.idFor spec = some v'.id
  adopted : ∀ s : VipSpec, lb'.adoptedVipIds[s]? =
    if s = spec ∧ spec ∉ lb.vips then none else lb.adoptedVipIds[s]?
  member : ∀ a : UInt32, MemberStep env (lb.membersAt spec)[a]? want[a]? v'.members[a]?

/-- The table once the new members have joined. -/
structure Joins (env : Env) (lb : LbState) (spec : VipSpec) (want : ExtTreeMap UInt32 Nat)
    (t : RealTable) : Prop where
  new : ∀ a ∈ want, a ∉ lb.membersAt spec → ∃ e, t.entry a = some e ∧
    RealTable.Joined (lb.reals.entry a) (answer env lb spec a) e
  other : ∀ a, (a ∈ want → a ∈ lb.membersAt spec) → t.entry a = lb.reals.entry a

/-- The `vip_map` once the VIP has its entry; it is written for a new VIP and for new
flags only. -/
def entriesAfter (lb : LbState) (d : CtlMaps) (spec : VipSpec) (flags : UInt32) (id : Nat) :
    ExtTreeMap VipSpec VipValue :=
  if lb.vips[spec]?.map Vip.flags = some flags then d.vipMap
  else d.vipMap.insert spec ⟨id, flags⟩

def touched (hashChanged : Bool) (lb : LbState) (spec : VipSpec)
    (want : ExtTreeMap UInt32 Nat) : Bool :=
  lb.vips[spec]?.all fun v =>
    hashChanged || !(lb.leaving spec want).isEmpty || want.toList.any (differs v)

/-- A VIP has been given the wanted weights. -/
structure VipStep (env : Env) (hashChanged : Bool) (lb : LbState) (d : CtlMaps)
    (spec : VipSpec) (flags : UInt32) (want : ExtTreeMap UInt32 Nat) (v' : Vip)
    (d' : CtlMaps) (lb' : LbState) : Prop
    extends Shaped env lb spec flags want v' lb' where
  consistent : Consistent [] lb' d'
  entry_new : ∀ a ∈ want, a ∉ lb.membersAt spec → ∃ e, lb'.reals.entry a = some e ∧
    RealTable.Joined (lb.reals.entry a) (answer env lb spec a) e
  entry_gone : ∀ a ∈ lb.membersAt spec, a ∉ want →
    lb'.reals.entry a = (lb.reals.entry a).bind RealTable.Entry.drop
  entry_same : ∀ a, (a ∈ want ↔ a ∈ lb.membersAt spec) →
    lb'.reals.entry a = lb.reals.entry a
  vipMap : d'.vipMap = lb.entriesAfter d spec flags v'.id
  ring : lb.touched hashChanged spec want → ∃ slots,
    buildRing (lb'.backendsOf v') lb.hash pbRingSize = .ok slots ∧
    d'.rings = Function.update d.rings v'.id (some ⟨slots, lb'.backendsOf v', lb.hash⟩)
  ring_same : lb.touched hashChanged spec want = false → d'.rings = d.rings
  config : d'.config = d.config
  fits : (lb.reals.used ∪ want.keys.toFinset).card ≤ pbMaxReals - 1

/-- The writes of giving a VIP its members; `d` holds the maps before the first of
them, `d₁` those the write is made in. -/
inductive VipWrite (env : Env) (lb : LbState) (d : CtlMaps) (spec : VipSpec)
    (flags : UInt32) (want : ExtTreeMap UInt32 Nat) (d₁ : CtlMaps) : MapWrite → Prop
  | reset (id : Nat) (hnew : spec ∉ lb.vips) (hpin : spec ∉ lb.adoptedVipIds) :
      VipWrite env lb d spec flags want d₁ (.statsReset id)
  | slot (w : MapWrite) (a : UInt32) (ha : a ∈ want) (hnew : a ∉ lb.membersAt spec)
      (hmac : lb.reals.macOf a = none) (hw : SlotWrite d₁ w) :
      VipWrite env lb d spec flags want d₁ w
  | ring (v₁ : Vip) (lb₁ : LbState) (slots : List Nat)
      (hshape : Shaped env lb spec flags want v₁ lb₁) (hjoin : Joins env lb spec want lb₁.reals)
      (hok : RingOk d₁ (lb₁.ringOf v₁ slots)) :
      VipWrite env lb d spec flags want d₁ (.ringSwap v₁.id (lb₁.ringOf v₁ slots))
  | entry (id : Nat) (r : InstalledRing) (hnew : spec ∉ lb.vips)
      (hid : lb.idFor spec = some id) (hlt : id < pbMaxVips)
      (hother : ∀ (s : VipSpec) (val : VipValue), s ≠ spec → d₁.vipMap[s]? = some val →
        val.vipId ≠ id)
      (hring : d₁.rings id = some r) (hok : RingOk d₁ r) :
      VipWrite env lb d spec flags want d₁ (.vipUpdate spec ⟨id, flags⟩)
  | flags (v : Vip) (hv : lb.vips[spec]? = some v) (hne : v.flags ≠ flags) (hd : d₁ = d) :
      VipWrite env lb d spec flags want d₁ (.vipUpdate spec ⟨v.id, flags⟩)
  | free (v : Vip) (a : UInt32) (e : RealTable.Entry) (r : InstalledRing)
      (hv : lb.vips[spec]? = some v) (ha : a ∈ v.members) (hgone : a ∉ want)
      (he : lb.reals.entry a = some e) (hrefs : e.refs ≤ 1) (haddr : d₁.reals e.id = a)
      (hmap : ∀ s : VipSpec, s ≠ spec → d₁.vipMap[s]? = d.vipMap[s]?)
      (hown : ∀ val : VipValue, d₁.vipMap[spec]? = some val → val.vipId = v.id)
      (hring : d₁.rings = Function.update d.rings v.id (some r))
      (hids : ∀ b ∈ r.backends, b.realId ≠ e.id) :
      VipWrite env lb d spec flags want d₁ (.realWrite e.id 0)
  | blank (v : Vip) (a : UInt32) (e : RealTable.Entry) (hv : lb.vips[spec]? = some v)
      (ha : a ∈ v.members) (hgone : a ∉ want) (he : lb.reals.entry a = some e)
      (hrefs : e.refs ≤ 1) (hfree : d₁.reals e.id = 0) :
      VipWrite env lb d spec flags want d₁ (.neighWrite e.id Mac.zero)

/-- What an exception leaves behind, whatever threw it. -/
structure Failed (lb : LbState) (d d' : CtlMaps) (lb' : LbState) : Prop where
  consistent : Consistent [] lb' d'
  backed : Backed lb d → Backed lb' d'
  initialized : lb'.initialized = lb.initialized
  adopted : ∀ (s : VipSpec) (id : Nat), lb'.adoptedVipIds[s]? = some id →
    lb.adoptedVipIds[s]? = some id

/-- An exception on the way; without a failing call it was for want of room. -/
structure StepFailed (env : Env) (lb : LbState) (d : CtlMaps) (spec : VipSpec)
    (want : ExtTreeMap UInt32 Nat) (err : LbError) (d' : CtlMaps) (lb' : LbState) : Prop
    extends Failed lb d d' lb' where
  cause : Healthy env →
    (err = tooManyVips ∧ lb.idFor spec = none) ∨
    (err = RealTable.tooManyReals ∧
      pbMaxReals - 1 < (lb.reals.used ∪ want.keys.toFinset).card)

/-! ## Facts about the relations -/

section Facts

variable {spec : VipSpec} {flags : UInt32} {want : ExtTreeMap UInt32 Nat} {v' : Vip}
variable {lb' : LbState}

theorem Failed.refl (h : Consistent [] lb d) : Failed lb d d lb := ⟨h, id, rfl, fun _ _ hs => hs⟩

theorem membersAt_eq {v : Vip} (hv : lb.vips[spec]? = some v) :
    lb.membersAt spec = v.members := by
  simp [membersAt, hv]

theorem membersAt_new (hnew : spec ∉ lb.vips) : lb.membersAt spec = ∅ := by
  simp [membersAt, OrdMap.notMem_iff.mp hnew]

theorem mem_leaving {a : UInt32} :
    a ∈ lb.leaving spec want ↔ a ∈ lb.membersAt spec ∧ a ∉ want := by
  simp [leaving]

theorem nodup_leaving : (lb.leaving spec want).Nodup :=
  (lb.membersAt spec).nodup_keys.filter _

theorem idFor_of_vip {v : Vip} (hv : lb.vips[spec]? = some v) : lb.idFor spec = some v.id := by
  simp [idFor, hv]

theorem exists_of_untouched {hashChanged : Bool}
    (h : lb.touched hashChanged spec want = false) :
    ∃ v, lb.vips[spec]? = some v ∧ lb.leaving spec want = [] ∧
      ∀ p ∈ want.toList, ¬differs v p = true := by
  cases hv : lb.vips[spec]? with
  | none => simp [touched, hv] at h
  | some v =>
      simp only [touched, hv, Option.all_some, Bool.or_eq_false_iff, Bool.not_eq_false',
        List.isEmpty_iff, List.any_eq_false] at h
      exact ⟨v, rfl, h.1.2, h.2⟩

theorem Shaped.id_of_vip (h : Shaped env lb spec flags want v' lb') {v : Vip}
    (hv : lb.vips[spec]? = some v) : v'.id = v.id :=
  Option.some.inj (h.id_eq.symm.trans (idFor_of_vip hv))

theorem Shaped.vip (h : Shaped env lb spec flags want v' lb') :
    lb'.vips[spec]? = some v' := by
  obtain ⟨t, n, ids, rfl⟩ := h.state
  simp

theorem Shaped.vip_else (h : Shaped env lb spec flags want v' lb') {s : VipSpec}
    (hs : s ≠ spec) : lb'.vips[s]? = lb.vips[s]? := by
  obtain ⟨t, n, ids, rfl⟩ := h.state
  simp only [OrdMap.getElem?_insert, if_neg hs]

theorem Shaped.hash (h : Shaped env lb spec flags want v' lb') : lb'.hash = lb.hash := by
  obtain ⟨t, n, ids, rfl⟩ := h.state
  rfl

theorem Shaped.settings (h : Shaped env lb spec flags want v' lb') :
    lb'.nextHop = lb.nextHop ∧ lb'.healthEnabled = lb.healthEnabled := by
  obtain ⟨t, n, ids, rfl⟩ := h.state
  exact ⟨rfl, rfl⟩

theorem Shaped.initialized (h : Shaped env lb spec flags want v' lb') :
    lb'.initialized = lb.initialized := by
  obtain ⟨t, n, ids, rfl⟩ := h.state
  rfl

theorem Shaped.adopted_of (h : Shaped env lb spec flags want v' lb') {s : VipSpec} {id : Nat}
    (hs : lb'.adoptedVipIds[s]? = some id) : lb.adoptedVipIds[s]? = some id := by
  rw [h.adopted] at hs
  split_ifs at hs
  exact hs

theorem Shaped.named (h : Shaped env lb spec flags want v' lb') (hc : Consistent [] lb d)
    {s : VipSpec} {id : Nat} (hs : lb.Named s id) : lb'.Named s id := by
  by_cases hne : s = spec
  · subst hne
    refine .inl ⟨v', h.vip, Option.some.inj (h.id_eq.symm.trans ?_)⟩
    cases hv : lb.vips[s]? with
    | some v => rw [idFor_of_vip hv, hc.named_fun s id v.id hs (.inl ⟨v, hv, rfl⟩)]
    | none =>
        rcases hs with ⟨v, hv', -⟩ | hpin
        · rw [hv] at hv'
          cases hv'
        · simp [idFor, hv, hpin]
  · rcases hs with ⟨v, hv, hid⟩ | hpin
    · exact .inl ⟨v, (h.vip_else hne).trans hv, hid⟩
    · exact .inr (by rw [h.adopted, if_neg fun hc => hne hc.1, hpin])

theorem Shaped.mem_members (h : Shaped env lb spec flags want v' lb') {a : UInt32} :
    a ∈ v'.members ↔ a ∈ want := by
  have hm := h.member a
  rw [OrdMap.mem_iff, OrdMap.mem_iff]
  cases hw : want[a]? with
  | none =>
      simp only [hw, MemberStep] at hm
      simp [hm]
  | some w =>
      simp only [hw, MemberStep] at hm
      obtain ⟨m, hm, -⟩ := hm
      simp [hm]

theorem MemberStep.inRing {old new : Option Member} {w : Option Nat}
    (h : MemberStep env old w new) (f : Member → Bool) :
    MemberStep env old w (new.map fun m => { m with inRing := f m }) := by
  cases w with
  | none => simp_all [MemberStep]
  | some w =>
      obtain ⟨m, rfl, hm⟩ := h
      refine ⟨_, rfl, ?_⟩
      cases old with
      | none =>
          obtain ⟨i, r, rfl⟩ := hm
          exact ⟨i, _, rfl⟩
      | some m₀ =>
          obtain ⟨r, rfl⟩ := hm
          exact ⟨_, rfl⟩

theorem backendOf_ext {a : UInt32} (hid : lb'.reals.idOf a = lb.reals.idOf a)
    (hknown : (lb'.reals.macOf a).isSome = (lb.reals.macOf a).isSome) (m : Member) :
    lb'.backendOf a m = lb.backendOf a m := by
  have helig : lb'.eligible a m = lb.eligible a m := by simp only [eligible, hknown]
  simp only [backendOf, hid, helig]

theorem backendOf_congr {a : UInt32} (h : lb'.reals.entry a = lb.reals.entry a) (m : Member) :
    lb'.backendOf a m = lb.backendOf a m :=
  backendOf_ext (by rw [RealTable.idOf_eq, RealTable.idOf_eq, h])
    (by rw [RealTable.macOf_eq, RealTable.macOf_eq, h]) m

theorem backendsOf_eq (lb : LbState) (v : Vip) :
    lb.backendsOf v = (v.members.map fun a m => lb.backendOf a m).toList.map Prod.snd := by
  rw [ExtTreeMap.toList_map, List.map_map]
  rfl

theorem backendsOf_ext {v v' : Vip}
    (h : ∀ a : UInt32, v'.members[a]?.map (lb'.backendOf a) = v.members[a]?.map (lb.backendOf a)) :
    lb'.backendsOf v' = lb.backendsOf v := by
  rw [backendsOf_eq, backendsOf_eq]
  congr 2
  apply ExtTreeMap.ext_getElem?
  simpa only [ExtTreeMap.getElem?_map] using h

theorem backendsOf_congr {v : Vip}
    (h : ∀ a ∈ v.members, lb'.reals.entry a = lb.reals.entry a) :
    lb'.backendsOf v = lb.backendsOf v := by
  refine backendsOf_ext fun a => ?_
  cases hm : v.members[a]? with
  | none => rfl
  | some m =>
      rw [Option.map_some, Option.map_some, backendOf_congr (h a (OrdMap.mem_iff.mpr ⟨m, hm⟩))]

theorem mem_membersAt {a : UInt32} :
    a ∈ lb.membersAt spec ↔ ∃ v : Vip, lb.vips[spec]? = some v ∧ a ∈ v.members := by
  rw [membersAt]
  cases lb.vips[spec]? <;> simp

end Facts

/-! ## Rings stay backed -/

section Backed

variable {spec : VipSpec} {flags : UInt32} {want : ExtTreeMap UInt32 Nat} {v' : Vip}
variable {lb' : LbState} {d' : CtlMaps} {hashChanged : Bool}

theorem VipStep.ring_of_ne (h : VipStep env hashChanged lb d spec flags want v' d' lb') {id : Nat}
    (hne : id ≠ v'.id) : d'.rings id = d.rings id := by
  cases htouched : lb.touched hashChanged spec want with
  | true =>
      obtain ⟨slots, -, hrings⟩ := h.ring htouched
      rw [hrings, Function.update_of_ne hne]
  | false => rw [h.ring_same htouched]

theorem VipStep.ring_cases (h : VipStep env hashChanged lb d spec flags want v' d' lb')
    {r : InstalledRing} (hr : d'.rings v'.id = some r) :
    (∃ slots, buildRing (lb'.backendsOf v') lb.hash pbRingSize = .ok slots ∧
      r = ⟨slots, lb'.backendsOf v', lb.hash⟩) ∨
    ∃ v, lb.vips[spec]? = some v ∧ lb.leaving spec want = [] ∧ d.rings v.id = some r := by
  cases htouched : lb.touched hashChanged spec want with
  | true =>
      obtain ⟨slots, hslots, hrings⟩ := h.ring htouched
      rw [hrings, Function.update_self] at hr
      exact .inl ⟨slots, hslots, (Option.some.inj hr).symm⟩
  | false =>
      obtain ⟨v, hv, hstay, -⟩ := exists_of_untouched htouched
      rw [h.ring_same htouched, h.id_of_vip hv] at hr
      exact .inr ⟨v, hv, hstay, hr⟩

theorem VipStep.stays (h : VipStep env hashChanged lb d spec flags want v' d' lb') {a : UInt32}
    (hgone : a ∈ lb.leaving spec want → ∀ e, lb.reals.entry a = some e → 1 < e.refs) :
    lb.reals.Stays lb'.reals a := by
  by_cases hw : a ∈ want <;> by_cases ha : a ∈ lb.membersAt spec
  · exact .of_eq (h.entry_same a (iff_of_true hw ha))
  · obtain ⟨e, he, hjoin⟩ := h.entry_new a hw ha
    exact .of_joined he hjoin
  · exact .of_drop (h.entry_gone a ha hw) (hgone (mem_leaving.mpr ⟨ha, hw⟩))
  · exact .of_eq (h.entry_same a (iff_of_false hw ha))

theorem VipStep.refsOf_eq (h : VipStep env hashChanged lb d spec flags want v' d' lb')
    (a : UInt32) : lb'.reals.refsOf a =
      if a ∈ want then
        if a ∈ lb.membersAt spec then lb.reals.refsOf a else lb.reals.refsOf a + 1
      else if a ∈ lb.membersAt spec then lb.reals.refsOf a - 1 else lb.reals.refsOf a := by
  simp only [RealTable.refsOf]
  split_ifs with hw ha ha
  · rw [h.entry_same a (iff_of_true hw ha)]
  · obtain ⟨e, he, hjoin⟩ := h.entry_new a hw ha
    rw [he, Option.elim_some, hjoin.refs]
  · rw [h.entry_gone a ha hw, refs_drop]
  · rw [h.entry_same a (iff_of_false hw ha)]

theorem VipStep.backed (h : VipStep env hashChanged lb d spec flags want v' d' lb')
    (hc : Consistent [] lb d) (hb : Backed lb d) : Backed lb' d' := by
  have hneeds : ∀ {a}, a ∈ lb.membersAt spec → Needs lb d a spec := fun ha =>
    have ⟨_, hv, ha⟩ := mem_membersAt.mp ha
    .of_member hv ha
  have hv' : ∀ {w : Vip}, lb'.vips[spec]? = some w → w = v' := fun hw =>
    Option.some.inj (hw.symm.trans h.vip)
  refine hb.change hc.table h.consistent.table spec (fun s hne => h.vip_else hne) ?_ ?_ ?_ ?_ ?_
  · intro id r hr
    by_cases hid : v'.id = id
    · exact .inl ⟨v', h.vip, hid⟩
    · exact .inr ⟨h.ring_of_ne (Ne.symm hid) ▸ hr,
        fun v hv heq => hid ((h.id_of_vip hv).trans heq)⟩
  · intro s u w hne hu hw
    exact h.consistent.id_ne ((h.vip_else hne).trans hu) hw hne
  · intro w r hw hr
    obtain rfl := hv' hw
    rcases h.ring_cases hr with ⟨slots, hslots, rfl⟩ | ⟨v, hv, hstay, hr'⟩
    · exact h.consistent.ringOk h.vip hslots
    · exact (hb.ring spec v r hv hr').stays hc.table h.consistent.table fun a _ =>
        h.stays fun hl => by rw [hstay] at hl; cases hl
  · intro a s hne hs
    exact h.stays fun hl e he => hb.covered.one_lt_refs hne hs (hneeds (mem_leaving.mp hl).1) he
  · intro a
    obtain ⟨hle, hlt⟩ := hb.covered.others spec a
    have hrefs := h.refsOf_eq a
    constructor
    · split_ifs at hrefs with hw ha ha
      · omega
      · omega
      · have := hlt (hneeds ha)
        omega
      · omega
    · -- the VIP needs its wanted members, and the rest only while nobody has left
      rintro ⟨w, hw, ha⟩
      obtain rfl := hv' hw
      have hcases : a ∈ want ∨ (Needs lb d a spec ∧ lb.leaving spec want = []) := by
        rcases ha with ha | ⟨r, hr, ha⟩
        · exact .inl (h.mem_members.mp ha)
        · rcases h.ring_cases hr with ⟨slots, -, rfl⟩ | ⟨v, hv, hstay, hr'⟩
          · exact .inl (h.mem_members.mp (serves_backendsOf ha))
          · exact .inr ⟨.of_ring hv hr' ha, hstay⟩
      by_cases hold : a ∈ lb.membersAt spec
      · have := hlt (hneeds hold)
        by_cases hwant : a ∈ want
        · simp only [hwant, hold, if_true] at hrefs
          omega
        · obtain ⟨-, hstay⟩ := hcases.resolve_left hwant
          have hl := mem_leaving.mpr ⟨hold, hwant⟩
          rw [hstay] at hl
          cases hl
      · by_cases hwant : a ∈ want
        · simp only [hwant, hold, if_true, if_false] at hrefs
          omega
        · have := hlt (hcases.resolve_left hwant).1
          simp only [hwant, hold, if_false] at hrefs
          omega

end Backed

/-! ## The steps on the way -/

section Steps

variable {spec : VipSpec} {flags : UInt32} {want : ExtTreeMap UInt32 Nat}

theorem idFor_new (hnew : spec ∉ lb.vips) {id : Nat} (hid : lb.idFor spec = some id) :
    lb.adoptedVipIds[spec]? = some id ∨
      lb.adoptedVipIds[spec]? = none ∧ lb.allocateVipId = some id := by
  simp only [idFor, OrdMap.notMem_iff.mp hnew, Option.map_none, Option.none_or] at hid
  cases hpin : lb.adoptedVipIds[spec]? with
  | none => exact .inr ⟨rfl, by simpa [hpin] using hid⟩
  | some i => exact .inl (by simpa [hpin] using hid)

theorem Consistent.idFor_lt (h : Consistent [] lb d) (hnew : spec ∉ lb.vips) {id : Nat}
    (hid : lb.idFor spec = some id) : id < pbMaxVips := by
  rcases idFor_new hnew hid with hpin | ⟨-, halloc⟩
  · exact h.named_lt spec id (.inr hpin)
  · exact (allocateVipId_some halloc).1

theorem Consistent.idFor_own (h : Consistent [] lb d) (hnew : spec ∉ lb.vips) {id : Nat}
    (hid : lb.idFor spec = some id) {s : VipSpec} (hs : lb.Named s id) : s = spec := by
  rcases idFor_new hnew hid with hpin | ⟨-, halloc⟩
  · exact h.named_inj s spec id hs (.inr hpin)
  · exact absurd hs ((allocateVipId_some halloc).2 s)

theorem Backed.fresh (hb : Backed lb d) (h : Consistent [] lb d) (hnew : spec ∉ lb.vips) {id : Nat}
    (hid : lb.idFor spec = some id) : d.rings id = none := by
  cases hr : d.rings id with
  | none => rfl
  | some r =>
      obtain ⟨s, v, hv, hvid⟩ := hb.named id r hr
      have hs := h.idFor_own hnew hid (.inl ⟨v, hv, hvid⟩)
      exact absurd (OrdMap.mem_iff.mpr ⟨v, hs ▸ hv⟩) hnew

theorem named_insertNew {id i : Nat} {s : VipSpec} (h : Named { lb with
      adoptedVipIds := lb.adoptedVipIds.erase spec
      vips := lb.vips.insert spec { spec, id, flags } } s i) :
    (s = spec ∧ i = id) ∨ (s ≠ spec ∧ lb.Named s i) := by
  simp only [Named, OrdMap.getElem?_insert, OrdMap.getElem?_erase] at h
  by_cases heq : s = spec
  · simp only [heq, if_true, Option.some.injEq, exists_eq_left', reduceCtorEq, or_false] at h
    exact .inl ⟨heq, h.symm⟩
  · simp only [heq, if_false] at h
    exact .inr ⟨heq, h⟩

theorem Named.insertNew {s : VipSpec} {i id : Nat} (h : lb.Named s i) (hnew : spec ∉ lb.vips)
    (hid : lb.idFor spec = some id) (flags : UInt32) : Named { lb with
      adoptedVipIds := lb.adoptedVipIds.erase spec
      vips := lb.vips.insert spec { spec, id, flags } } s i := by
  by_cases heq : s = spec
  · subst heq
    have hi : i = id := by
      rcases h with ⟨v, hv, -⟩ | hpin
      · exact absurd (OrdMap.mem_iff.mpr ⟨v, hv⟩) hnew
      · rcases idFor_new hnew hid with hpin' | ⟨hnone, -⟩
        · exact Option.some.inj (hpin.symm.trans hpin')
        · rw [hnone] at hpin
          cases hpin
    exact .inl ⟨{ spec := s, id, flags }, by simp, hi.symm⟩
  · rcases h with ⟨v, hv, hvid⟩ | hpin
    · exact .inl ⟨v, by simpa only [OrdMap.getElem?_insert, if_neg heq] using hv, hvid⟩
    · exact .inr (by simpa only [OrdMap.getElem?_erase, if_neg heq] using hpin)

theorem Consistent.insertNew (h : Consistent [] lb d) (hnew : spec ∉ lb.vips) {id : Nat}
    (hid : lb.idFor spec = some id) (flags : UInt32) :
    Consistent [] { lb with
      adoptedVipIds := lb.adoptedVipIds.erase spec
      vips := lb.vips.insert spec { spec, id, flags } } d := by
  refine ⟨h.table, ?_, ?_, ?_, ?_, ?_, ?_⟩
  · intro s v hv
    simp only [OrdMap.getElem?_insert] at hv
    split_ifs at hv with hs
    · rw [← Option.some.inj hv, hs]
    · exact h.key s v hv
  · intro s i hs
    rcases named_insertNew hs with ⟨-, rfl⟩ | ⟨-, hs⟩
    · exact h.idFor_lt hnew hid
    · exact h.named_lt s i hs
  · intro s s' i hs hs'
    rcases named_insertNew hs with ⟨rfl, rfl⟩ | ⟨hne, hold⟩ <;>
      rcases named_insertNew hs' with ⟨rfl, hi⟩ | ⟨hne', hold'⟩
    · rfl
    · exact (h.idFor_own hnew hid hold').symm
    · exact h.idFor_own hnew hid (hi ▸ hold)
    · exact h.named_inj s s' i hold hold'
  · intro s i i' hs hs'
    rcases named_insertNew hs with ⟨heq, rfl⟩ | ⟨hne, hold⟩ <;>
      rcases named_insertNew hs' with ⟨heq', rfl⟩ | ⟨hne', hold'⟩
    · rfl
    · exact absurd heq hne'
    · exact absurd heq' hne
    · exact h.named_fun s i i' hold hold'
  · exact fun s val hval => (h.entry_named s val hval).insertNew hnew hid flags
  · intro a
    have hheld := h.held a
    have hnot : spec ∉ holders lb.vips a := by
      rw [mem_holders]
      rintro ⟨v, hv, -⟩
      exact hnew (OrdMap.mem_iff.mpr ⟨v, hv⟩)
    simpa [owed, holders_insert, Finset.erase_eq_of_notMem hnot] using hheld

theorem Consistent.released (h : Consistent pend lb d) (hnodup : pend.Nodup) {t : RealTable}
    {d' : CtlMaps} (ht : t.Sound d') (hmap : d'.vipMap = d.vipMap)
    (hentry : ∀ a, t.entry a = if a ∈ pend then (lb.reals.entry a).bind RealTable.Entry.drop
      else lb.reals.entry a) :
    Consistent [] { lb with reals := t } d' := by
  refine ⟨ht, h.key, h.named_lt, h.named_inj, h.named_fun, ?_, fun a => ?_⟩
  · rw [hmap]
    exact h.entry_named
  · have hheld := h.held a
    rw [refsOf_release hentry]
    simp only [owed, List.count_nil, Nat.add_zero] at hheld ⊢
    split_ifs with ha
    · rw [List.count_eq_one_of_mem hnodup ha] at hheld
      omega
    · omega

theorem Shaped.rebuild {v₁ : Vip} {lb₁ : LbState} {d₁ : CtlMaps}
    {G : CtlMaps → MapWrite → Prop} (hs : Shaped env lb spec flags want v₁ lb₁)
    (hc : Consistent pend lb₁ d₁)
    (hG : ∀ slots, RingOk d₁ (lb₁.ringOf v₁ slots) →
      G d₁ (.ringSwap v₁.id (lb₁.ringOf v₁ slots))) :
    wp (rebuildLocked env spec) G
      (fun _ d₂ lb₂ => ∃ v₂ slots, Shaped env lb spec flags want v₂ lb₂ ∧
        Consistent pend lb₂ d₂ ∧ lb₂.reals = lb₁.reals ∧ v₂.id = v₁.id ∧
        buildRing (lb₂.backendsOf v₂) lb.hash pbRingSize = .ok slots ∧
        d₂ = { d₁ with
          rings := Function.update d₁.rings v₂.id
            (some ⟨slots, lb₂.backendsOf v₂, lb.hash⟩) })
      (fun _ d₂ lb₂ => Consistent pend lb₂ d₂ ∧ (Backed lb₁ d₁ → Backed lb₂ d₂) ∧
        lb₂.initialized = lb.initialized ∧
        (∀ (s : VipSpec) (id : Nat), lb₂.adoptedVipIds[s]? = some id →
          lb.adoptedVipIds[s]? = some id) ∧ (env.ringFault v₁.id).isSome) d₁ lb₁ := by
  refine wp_mono (rebuild_spec hc hs.vip fun slots hslots =>
    hG slots (hc.ringOk hs.vip hslots)) (fun _ _ hw => hw) ?_ ?_
  · rintro _ _ _ ⟨hc₂, -, slots, hslots, rfl, rfl⟩
    have hback : LbState.backendsOf { lb₁ with
        vips := lb₁.vips.insert spec
          { lb₁.markInRing v₁ with generation := v₁.generation + 1 } }
        { lb₁.markInRing v₁ with generation := v₁.generation + 1 } = lb₁.backendsOf v₁ :=
      lb₁.backendsOf_markInRing v₁
    refine ⟨{ lb₁.markInRing v₁ with generation := v₁.generation + 1 }, slots, ?_, ?_, rfl, rfl,
      ?_, ?_⟩
    · obtain ⟨t, n, ids, hstate⟩ := hs.state
      refine ⟨⟨t, n, ids, by rw [hstate, OrdMap.insert_insert]⟩, hs.spec_eq, hs.flags_eq,
        hs.id_eq, hs.adopted, fun a => ?_⟩
      simp only [markInRing, ExtTreeMap.getElem?_map]
      exact (hs.member a).inRing _
    · exact hc₂
    · rw [hback, ← hs.hash]
      exact hslots
    · rw [hback, ← hs.hash]
      rfl
  · rintro err _ _ ⟨hc₂, rfl, rfl, fault, hfault, -⟩
    refine ⟨hc₂, fun hb => ?_, hs.initialized, fun s id => hs.adopted_of, ?_⟩
    · exact hb.edit hc.weaken hs.vip (lb₁.markInRing v₁) rfl (by simp [markInRing]) rfl rfl
        hc₂ rfl
    · rw [hfault]
      rfl

theorem Grown.shaped {lb₀ : LbState} {v₀ : Vip} {done : List (UInt32 × Nat)}
    {lb₁ : LbState} {d₀ d₁ : CtlMaps} {members : ExtTreeMap UInt32 Member}
    (hg : Grown env pend lb₀ d₀ spec v₀ done lb₁ d₁ members) (ids : ExtTreeMap VipSpec Nat)
    (hid : lb.idFor spec = some v₀.id)
    (hlb₀ : lb₀ = { lb with adoptedVipIds := ids, vips := lb.vips.insert spec v₀ })
    (hspec : v₀.spec = spec) (hflags : v₀.flags = flags)
    (hids : ∀ s : VipSpec, ids[s]? =
      if s = spec ∧ spec ∉ lb.vips then none else lb.adoptedVipIds[s]?)
    (hmem : ∀ a : UInt32, v₀.members[a]? =
      if a ∈ want then (lb.membersAt spec)[a]? else none)
    (hdone : ∀ p ∈ done, want[p.1]? = some p.2)
    (hrest : ∀ (a : UInt32) (w : Nat), want[a]? = some w → a ∉ done.map Prod.fst →
      ∃ m : Member, (lb.membersAt spec)[a]? = some m ∧ m.weight = w) :
    Shaped env lb spec flags want { v₀ with members } lb₁ ∧ Joins env lb spec want lb₁.reals := by
  have hin : ∀ {a : UInt32} {w : Nat}, want[a]? = some w → a ∈ want := fun h =>
    OrdMap.mem_iff.mpr ⟨_, h⟩
  have hiff : ∀ {a : UInt32}, a ∈ want → (a ∈ v₀.members ↔ a ∈ lb.membersAt spec) := by
    intro a ha
    rw [OrdMap.mem_iff, OrdMap.mem_iff, hmem, if_pos ha]
  obtain ⟨t, n, hstate⟩ := hg.state
  have hreals : lb₀.reals = lb.reals := by rw [hlb₀]
  have hans : ∀ a, answer env lb₀ spec a = answer env lb spec a := by
    intro a
    rw [hlb₀]
    rfl
  refine ⟨⟨⟨t, n, ids, by rw [hstate, hlb₀, OrdMap.insert_insert]⟩, hspec, hflags, hid, ?_, ?_⟩,
    ?_, ?_⟩
  · rw [hstate, hlb₀]
    exact hids
  · intro a
    cases hw : want[a]? with
    | none =>
        have hnot : a ∉ done.map Prod.fst := by
          rintro ha
          obtain ⟨p, hp, rfl⟩ := List.mem_map.mp ha
          rw [hdone p hp] at hw
          cases hw
        exact (hg.member_else a hnot).trans (by
          rw [hmem, if_neg (OrdMap.notMem_iff.mpr hw)])
    | some w =>
        have hold : v₀.members[a]? = (lb.membersAt spec)[a]? := by
          rw [hmem, if_pos (hin hw)]
        by_cases ha : a ∈ done.map Prod.fst
        · obtain ⟨p, hp, rfl⟩ := List.mem_map.mp ha
          obtain rfl : p.2 = w := Option.some.inj ((hdone p hp).symm.trans hw)
          rw [← hold]
          exact hg.member_done p hp
        · obtain ⟨m, hm, rfl⟩ := hrest a w hw ha
          refine ⟨m, (hg.member_else a ha).trans (hold.trans hm), ?_⟩
          rw [hm]
          exact ⟨m.inRing, rfl⟩
  · intro a ha hnew
    obtain ⟨w, hw⟩ := OrdMap.mem_iff.mp ha
    have hmemd : a ∈ done.map Prod.fst := by
      by_contra hnot
      obtain ⟨m, hm, -⟩ := hrest a w hw hnot
      exact hnew (OrdMap.mem_iff.mpr ⟨m, hm⟩)
    obtain ⟨p, hp, rfl⟩ := List.mem_map.mp hmemd
    rw [← hans, ← hreals]
    exact hg.entry_new p hp (fun h => hnew ((hiff ha).mp h))
  · intro a ha
    rw [← hreals]
    apply hg.entry_else
    by_cases hw : a ∈ want
    · exact .inr ((hiff hw).mpr (ha hw))
    · refine .inl fun hmemd => hw ?_
      obtain ⟨p, hp, rfl⟩ := List.mem_map.mp hmemd
      exact hin (hdone p hp)

theorem Joins.used_eq (h : Consistent [] lb d) {t : RealTable}
    (hj : Joins env lb spec want t) : t.used = lb.reals.used ∪ want.keys.toFinset := by
  ext a
  rw [Finset.mem_union, List.mem_toFinset, ExtTreeMap.mem_keys, RealTable.mem_used,
    RealTable.mem_used]
  by_cases ha : a ∈ want
  · simp only [ha, or_true, iff_true]
    by_cases hold : a ∈ lb.membersAt spec
    · rw [hj.other a fun _ => hold]
      cases hv : lb.vips[spec]? with
      | none => simp [membersAt, hv] at hold
      | some v => exact h.member_entry hv (membersAt_eq hv ▸ hold)
    · obtain ⟨e, he, -⟩ := hj.new a ha hold
      exact ⟨e, he⟩
  · rw [hj.other a fun hin => absurd hin ha]
    simp [ha]

/-- The maps other than the table's once the VIP's entry and ring are written. -/
structure StepMaps (hashChanged : Bool) (lb : LbState) (d : CtlMaps) (spec : VipSpec)
    (flags : UInt32) (want : ExtTreeMap UInt32 Nat) (v₂ : Vip) (d₂ : CtlMaps) (lb₂ : LbState) :
    Prop where
  vipMap : d₂.vipMap = lb.entriesAfter d spec flags v₂.id
  ring : lb.touched hashChanged spec want → ∃ slots,
    buildRing (lb₂.backendsOf v₂) lb.hash pbRingSize = .ok slots ∧
    d₂.rings = Function.update d.rings v₂.id (some ⟨slots, lb₂.backendsOf v₂, lb.hash⟩)
  ring_same : lb.touched hashChanged spec want = false → d₂.rings = d.rings
  config : d₂.config = d.config

theorem Shaped.finish (h : Consistent [] lb d) (hashChanged : Bool) {v₂ : Vip}
    {lb₂ : LbState} {d₂ d₃ : CtlMaps} {t : RealTable}
    (hs : Shaped env lb spec flags want v₂ lb₂) (hj : Joins env lb spec want lb₂.reals)
    (hc : Consistent (lb.leaving spec want) lb₂ d₂) (ht : t.Sound d₃) (hsame : d₂.SameElse d₃)
    (hentry : ∀ a, t.entry a = if a ∈ lb.leaving spec want
      then (lb₂.reals.entry a).bind RealTable.Entry.drop else lb₂.reals.entry a)
    (hm : StepMaps hashChanged lb d spec flags want v₂ d₂ lb₂) :
    VipStep env hashChanged lb d spec flags want v₂ d₃ { lb₂ with reals := t } := by
  have hback : LbState.backendsOf { lb₂ with reals := t } v₂ = lb₂.backendsOf v₂ := by
    refine backendsOf_congr fun a ha => ?_
    have hnot : a ∉ lb.leaving spec want := fun hl =>
      (mem_leaving.mp hl).2 (hs.mem_members.mp ha)
    simp only [hentry, if_neg hnot]
  obtain ⟨t', n, ids, hstate⟩ := hs.state
  refine ⟨⟨⟨t, n, ids, by rw [hstate]⟩, hs.spec_eq, hs.flags_eq, hs.id_eq, hs.adopted, hs.member⟩,
    hc.released nodup_leaving ht hsame.vipMap hentry, ?_, ?_, ?_, hsame.vipMap.trans hm.vipMap,
    ?_, ?_, hsame.config.trans hm.config, ?_⟩
  · intro a ha hnew
    have hnot : a ∉ lb.leaving spec want := fun hl => (mem_leaving.mp hl).2 ha
    simp only [hentry, if_neg hnot]
    exact hj.new a ha hnew
  · intro a hold hgone
    simp only [hentry, if_pos (mem_leaving.mpr ⟨hold, hgone⟩)]
    rw [hj.other a fun hw => absurd hw hgone]
  · intro a hiff
    have hnot : a ∉ lb.leaving spec want := fun hl =>
      (mem_leaving.mp hl).2 (hiff.mpr (mem_leaving.mp hl).1)
    simp only [hentry, if_neg hnot]
    exact hj.other a hiff.mp
  · intro htouched
    obtain ⟨slots, hslots, hrings⟩ := hm.ring htouched
    rw [hback]
    exact ⟨slots, hslots, hsame.rings.trans hrings⟩
  · exact fun hkeep => hsame.rings.trans (hm.ring_same hkeep)
  · rw [← hj.used_eq h]
    exact hc.table.wf.card_used_le

/-- The references of those who left are dropped once the ring without them is live. -/
theorem Shaped.release {v v₂ : Vip} {lb₂ : LbState} {d₂ : CtlMaps}
    (hs : Shaped env lb spec flags want v₂ lb₂) (hashChanged : Bool) (henv : ArrayOk env)
    (h : Consistent [] lb d) (hv : lb.vips[spec]? = some v) (hj : Joins env lb spec want lb₂.reals)
    (hc : Consistent (lb.leaving spec want) lb₂ d₂)
    (hm : StepMaps hashChanged lb d spec flags want v₂ d₂ lb₂) :
    wp (Prog.each (lb.leaving spec want) fun a => onReals (RealTable.release env a))
      (VipWrite env lb d spec flags want)
      (fun _ d₃ lb₃ => VipStep env hashChanged lb d spec flags want v₂ d₃ lb₃)
      (StepFailed env lb d spec want) d₂ lb₂ := by
  have hid := hs.id_of_vip hv
  have hold : ∀ {a : UInt32}, a ∈ lb.leaving spec want →
      lb₂.reals.entry a = lb.reals.entry a := fun hl =>
    hj.other _ fun hw => absurd hw (mem_leaving.mp hl).2
  refine wp_mono (releaseAll_spec henv hc.table _ nodup_leaving ?_ ?_ ?_) (fun _ _ hw => hw) ?_
    (fun _ _ _ hf => hf.elim)
  · intro a hl
    refine hc.exists_entry ?_
    have := List.count_pos_iff.mpr hl
    simp only [owed]
    omega
  · intro d' a e hsame hl he hrefs haddr
    have hleave := mem_leaving.mp hl
    have htouched : lb.touched hashChanged spec want := by
      have hne : (lb.leaving spec want).isEmpty = false := by
        rw [List.isEmpty_eq_false_iff]
        exact List.ne_nil_of_mem hl
      simp [touched, hv, hne]
    obtain ⟨slots, -, hrings⟩ := hm.ring htouched
    refine .free v a e _ hv (membersAt_eq hv ▸ hleave.1) hleave.2 (hold hl ▸ he) hrefs haddr
      ?_ ?_ (hsame.rings.trans (hid ▸ hrings)) ?_
    · intro s hne
      rw [hsame.vipMap, hm.vipMap, entriesAfter]
      split_ifs
      · rfl
      · rw [OrdMap.getElem?_insert, if_neg hne]
    · intro val hval
      rw [hsame.vipMap] at hval
      exact hc.named_fun spec _ _ (hc.entry_named spec val hval) (.inl ⟨v₂, hs.vip, hid⟩)
    · -- the new ring names wanted members only, and no two addresses share an id
      intro b hb heq
      obtain ⟨a', m, hmem, rfl⟩ := mem_backendsOf.mp hb
      have ha' : a' ∈ v₂.members := OrdMap.mem_iff.mpr ⟨m, hmem⟩
      obtain ⟨e', he'⟩ := hc.member_entry hs.vip ha'
      simp only [backendOf, RealTable.idOf_eq, he', Option.map_some, Option.getD_some] at heq
      have haa : a' = a := hc.table.wf.entry_inj he' he heq
      exact hleave.2 (haa ▸ hs.mem_members.mp ha')
  · intro d' a e hl he hrefs hfree
    have hleave := mem_leaving.mp hl
    exact .blank v a e hv (membersAt_eq hv ▸ hleave.1) hleave.2 (hold hl ▸ he) hrefs hfree
  · rintro _ d₃ _ ⟨hsame, t, ht, rfl, hentry⟩
    exact hs.finish h _ hj hc ht hsame hentry hm

end Steps

/-! ## create_vip_locked -/

section Create

variable {spec : VipSpec} {flags : UInt32} {want : ExtTreeMap UInt32 Nat}

theorem mem_toList {p : UInt32 × Nat} : p ∈ want.toList ↔ want[p.1]? = some p.2 :=
  ExtTreeMap.mem_toList_iff_getElem?_eq_some

theorem toList_empty : (∅ : ExtTreeMap UInt32 Nat).toList = [] :=
  List.eq_nil_iff_forall_not_mem.mpr fun p hp => by simpa using mem_toList.mp hp

theorem toFinset_toList : (want.toList.map Prod.fst).toFinset = want.keys.toFinset := by
  rw [ExtTreeMap.map_fst_toList_eq_keys]

theorem takeVipId_spec {G : CtlMaps → MapWrite → Prop} (hnew : spec ∉ lb.vips)
    (hG : spec ∉ lb.adoptedVipIds → ∀ id, G d (.statsReset id)) :
    wp (takeVipId spec) G
      (fun id d' lb' => lb.idFor spec = some id ∧ d' = d ∧
        lb' = { lb with adoptedVipIds := lb.adoptedVipIds.erase spec })
      (fun err d' lb' => err = tooManyVips ∧ lb.idFor spec = none ∧ d' = d ∧ lb' = lb)
      d lb := by
  have hvip : lb.vips[spec]? = none := OrdMap.notMem_iff.mp hnew
  simp only [takeVipId, wp_bind, wp_get]
  cases hpin : lb.adoptedVipIds[spec]? with
  | some id => simp [idFor, hvip, hpin]
  | none =>
      have hnot : spec ∉ lb.adoptedVipIds := OrdMap.notMem_iff.mpr hpin
      cases halloc : lb.allocateVipId with
      | none => simp [idFor, hvip, hpin, halloc]
      | some id =>
          simp only [wp_bind, wp_emit, write_statsReset, wp_pure, OrdMap.erase_of_notMem hnot]
          exact ⟨hG hnot id, by simp [idFor, hvip, hpin, halloc], trivial, trivial⟩

theorem Consistent.insertEntry {pend : List UInt32} (h : Consistent pend lb d) {id : Nat}
    (hown : lb.Named spec id) (flags : UInt32) :
    Consistent pend lb { d with vipMap := d.vipMap.insert spec ⟨id, flags⟩ } := by
  refine h.of_maps rfl rfl fun s val hval => ?_
  simp only [OrdMap.getElem?_insert] at hval
  split_ifs at hval with hs
  · rw [hs, ← Option.some.inj hval]
    exact hown
  · exact h.entry_named s val hval

theorem createVip_spec (henv : ArrayOk env) (h : Consistent [] lb d) (hnew : spec ∉ lb.vips)
    (flags : UInt32) (hne : ∀ a ∈ want, a ≠ 0) (hashChanged : Bool) :
    wp (createVipLocked env spec flags want) (VipWrite env lb d spec flags want)
      (fun v d' lb' => VipStep env hashChanged lb d spec flags want v d' lb')
      (StepFailed env lb d spec want) d lb := by
  have hvip : lb.vips[spec]? = none := OrdMap.notMem_iff.mp hnew
  have hold : ∀ a, a ∉ lb.membersAt spec := by simp [membersAt_new hnew]
  have hleaving : lb.leaving spec want = [] := by simp [leaving, membersAt_new hnew]
  simp only [createVipLocked, wp_bind]
  refine wp_mono (takeVipId_spec hnew fun hpin id => .reset id hnew hpin) (fun _ _ hw => hw) ?_ ?_
  swap
  · rintro err _ _ ⟨rfl, hid, rfl, rfl⟩
    exact ⟨.refl h, fun _ => .inl ⟨rfl, hid⟩⟩
  rintro id d' _ ⟨hid, hd, rfl⟩
  subst d'
  simp only [wp_modify, OrdMap.insertIfNew_eq_insert hnew]
  have hc₀ := h.insertNew hnew hid flags
  have hbacked : ∀ {done lb₁ d₁ members}, Grown env [] { lb with
      adoptedVipIds := lb.adoptedVipIds.erase spec
      vips := lb.vips.insert spec { spec, id, flags } } d spec { spec, id, flags } done lb₁ d₁
      members → Backed lb d → Backed lb₁ d₁ := fun hg hb =>
    hg.backed h hb rfl rfl (fun v hv => absurd (OrdMap.mem_iff.mpr ⟨v, hv⟩) hnew)
      (fun _ => hb.fresh h hnew hid) (by simp) rfl
  refine wp_mono (addMembers_spec henv hc₀ (v := { spec, id, flags }) (by simp) want.toList ?_ ?_ ?_
    ?_) (fun _ _ hw => hw) ?_ ?_
  · rw [ExtTreeMap.map_fst_toList_eq_keys]
    exact want.nodup_keys
  · simp
  · exact fun p hp => hne p.1 (OrdMap.mem_iff.mpr ⟨p.2, mem_toList.mp hp⟩)
  · rintro ⟨p, hp, hmac⟩ d₁ w hw
    exact .slot w p.1 (OrdMap.mem_iff.mpr ⟨p.2, mem_toList.mp hp⟩) (hold p.1) hmac hw
  swap
  · rintro err d₁ lb₁ ⟨rfl, ⟨done, members, hg⟩, hfull⟩
    have hb := hbacked hg
    obtain ⟨t, n, rfl⟩ := hg.state
    refine ⟨⟨hg.consistent, hb, rfl, fun s i hs => ?_⟩, fun _ => .inr ⟨rfl, ?_⟩⟩
    · simp only [OrdMap.getElem?_erase] at hs
      split_ifs at hs
      exact hs
    · rwa [toFinset_toList] at hfull
  rintro _ d₁ lb₁ ⟨members, hg⟩
  obtain ⟨hs₁, hj₁⟩ := hg.shaped _ hid rfl rfl rfl
    (fun s => by by_cases hs : s = spec <;> simp [OrdMap.getElem?_erase, hs, hnew])
    (fun a => by simp [membersAt_new hnew]) (fun p hp => mem_toList.mp hp)
    (fun a w hw hnot => absurd (List.mem_map.mpr ⟨(a, w), mem_toList.mpr hw, rfl⟩) hnot)
  refine wp_mono (hs₁.rebuild hg.consistent fun slots hok => .ring _ lb₁ slots hs₁ hj₁ hok)
    (fun _ _ hw => hw) ?_ ?_
  swap
  · rintro err d₂ lb₂ ⟨hc, hb, hinit, hadopted, hfault⟩
    refine ⟨⟨hc, hb ∘ hbacked hg, hinit, hadopted⟩, fun hhealthy => ?_⟩
    simp [hhealthy.ringFault] at hfault
  rintro _ _ lb₂ ⟨v₂, slots, hs₂, hc₂, hreals, -, hslots, rfl⟩
  have hown : lb₂.Named spec v₂.id := .inl ⟨v₂, hs₂.vip, rfl⟩
  have hc₃ := hc₂.insertEntry hown flags
  have hstep := hs₂.finish h hashChanged (hreals ▸ hj₁) (hleaving ▸ hc₃) hc₃.table
    (.refl _) (by simp [hleaving])
    ⟨by simp [entriesAfter, hvip, hg.same.vipMap],
      fun _ => ⟨slots, hslots, by rw [hg.same.rings]⟩,
      fun hkeep => by simp [touched, hvip] at hkeep, hg.same.config⟩
  simp only [writeVipEntry, vipAt, wp_bind, wp_get, hs₂.vip, wp_pure, hs₂.spec_eq, hs₂.flags_eq]
  cases hfault : env.fault (.vipUpdate spec ⟨v₂.id, flags⟩) with
  | some err =>
      simp only [wp_throw]
      exact ⟨⟨hc₂, fun hb => (hstep.backed h hb).congr rfl rfl rfl rfl rfl, hs₂.initialized,
        fun s i => hs₂.adopted_of⟩, fun hhealthy => by simp [hhealthy.fault] at hfault⟩
  | none =>
      simp only [wp_emit, write_vipUpdate, hs₂.vip, wp_pure]
      constructor
      · refine .entry v₂.id _ hnew hs₂.id_eq (hc₂.named_lt _ _ hown) ?_
          (Function.update_self ..) (hc₂.ringOk hs₂.vip hslots)
        intro s val hs hval heq
        exact hs (hc₂.named_inj _ _ _ (heq ▸ hc₂.entry_named s val hval) hown)
      · exact hstep

end Create

/-! ## The reconciling branch of apply -/

section Reconcile

variable {spec : VipSpec} {flags : UInt32} {want : ExtTreeMap UInt32 Nat}

theorem removeMembers_spec {v : Vip} {G : CtlMaps → MapWrite → Prop}
    {E : LbError → CtlMaps → LbState → Prop} (hv : lb.vips[spec]? = some v)
    (l : List UInt32) :
    wp (Prog.each l (removeMemberLocked spec)) G
      (fun _ d' lb' => d' = d ∧ lb' = { lb with
        vips := lb.vips.insert spec
          { v with members := l.foldl (fun m a => m.erase a) v.members } }) E d lb := by
  refine wp_each (I := fun done d' lb' => d' = d ∧ lb' = { lb with
    vips := lb.vips.insert spec
      { v with members := done.foldl (fun m a => m.erase a) v.members } }) l ?_ ?_
  · simp [OrdMap.insert_self hv]
  · rintro done a rest - _ _ ⟨rfl, rfl⟩
    simp [removeMemberLocked, vipAt, putVip]

/-- A VIP loses members, whose references are still there. -/
theorem Consistent.leave (h : Consistent [] lb d) {v : Vip} (hv : lb.vips[spec]? = some v)
    (v₀ : Vip) (hspec : v₀.spec = v.spec) (hid : v₀.id = v.id)
    (hmem : ∀ a, a ∈ v₀.members ↔ a ∈ v.members ∧ a ∈ want) {d₀ : CtlMaps}
    (hreals : d₀.reals = d.reals) (hneigh : d₀.neigh = d.neigh)
    (hmap : ∀ (s : VipSpec) (val : VipValue), d₀.vipMap[s]? = some val →
      d.vipMap[s]? = some val ∨ (s = spec ∧ val.vipId = v.id)) :
    Consistent (lb.leaving spec want) { lb with vips := lb.vips.insert spec v₀ } d₀ := by
  refine h.replace hv rfl hspec hid rfl (h.table.congr hreals hneigh) hmap fun a => ?_
  have hheld := h.held a
  have hin : a ∈ v.members → spec ∈ holders lb.vips a := fun ha =>
    mem_holders.mpr ⟨v, hv, ha⟩
  simp only [owed, List.count_nil, Nat.add_zero, holders_insert, hmem] at hheld ⊢
  by_cases ha : a ∈ v.members
  · by_cases hw : a ∈ want
    · have hnot : a ∉ lb.leaving spec want := fun hl => (mem_leaving.mp hl).2 hw
      rw [if_pos ⟨ha, hw⟩, Finset.insert_eq_of_mem (hin ha), List.count_eq_zero_of_not_mem hnot]
      exact hheld
    · have hl : a ∈ lb.leaving spec want :=
        mem_leaving.mpr ⟨membersAt_eq hv ▸ ha, hw⟩
      have hpos := Finset.card_pos.mpr ⟨spec, hin ha⟩
      rw [if_neg fun hc => hw hc.2, Finset.card_erase_of_mem (hin ha),
        List.count_eq_one_of_mem nodup_leaving hl]
      omega
  · have hnot : a ∉ lb.leaving spec want := fun hl =>
      ha (membersAt_eq hv ▸ (mem_leaving.mp hl).1)
    rw [if_neg fun hc => ha hc.1, List.count_eq_zero_of_not_mem hnot]
    exact (Finset.card_erase_le).trans hheld

theorem setFlags_spec (h : Consistent [] lb d) {v : Vip} (hv : lb.vips[spec]? = some v)
    (flags : UInt32) :
    wp (setFlags env spec flags) (VipWrite env lb d spec flags want)
      (fun _ d' lb' => d' = { d with vipMap := lb.entriesAfter d spec flags v.id } ∧
        lb' = { lb with vips := lb.vips.insert spec { v with flags } })
      (StepFailed env lb d spec want) d lb := by
  have hkey := h.key spec v hv
  simp only [setFlags, vipAt, wp_bind, wp_get, hv, wp_pure, wp_ite]
  constructor
  · intro hdiff
    simp only [putVip, writeVipEntry, vipAt, wp_bind, wp_modify, wp_get,
      OrdMap.getElem?_insert, if_true, wp_pure]
    cases hfault : env.fault (.vipUpdate v.spec ⟨v.id, flags⟩) with
    | some err =>
        simp only [wp_throw]
        let lb₁ : LbState := { lb with vips := lb.vips.insert spec { v with flags } }
        have hc : Consistent [] lb₁ d :=
          h.edit hv { v with flags } rfl rfl (fun _ => .rfl) rfl rfl rfl
        have hbacked : Backed lb d → Backed lb₁ d := fun hb =>
          hb.edit h hv { v with flags } rfl (fun _ => id) rfl rfl hc rfl
        exact ⟨⟨hc, hbacked, rfl, fun _ _ hs => hs⟩,
          fun hhealthy => by simp [hhealthy.fault] at hfault⟩
    | none =>
        simp only [wp_emit, write_vipUpdate, hkey]
        refine ⟨.flags v hv hdiff rfl, ?_, trivial⟩
        simp [entriesAfter, hv, hdiff]
  · intro hsame
    rw [not_not] at hsame
    constructor
    · simp [entriesAfter, hv, hsame]
    · rw [← hsame, OrdMap.insert_self hv]

/-- The VIP with its new flags and without those who leave. -/
def staying (lb : LbState) (spec : VipSpec) (flags : UInt32) (want : ExtTreeMap UInt32 Nat)
    (v : Vip) : Vip :=
  { v with flags, members := (lb.leaving spec want).foldl (fun m a => m.erase a) v.members }

theorem getElem?_staying {v : Vip} (hv : lb.vips[spec]? = some v) (a : UInt32) :
    (lb.staying spec flags want v).members[a]? =
      if a ∈ want then (lb.membersAt spec)[a]? else none := by
  rw [staying, OrdMap.getElem?_foldl_erase, membersAt_eq hv]
  by_cases hw : a ∈ want
  · rw [if_neg fun hl => (mem_leaving.mp hl).2 hw, if_pos hw]
  · rw [if_neg hw]
    split_ifs with hl
    · rfl
    · rw [← OrdMap.notMem_iff]
      exact fun ha => hl (mem_leaving.mpr ⟨membersAt_eq hv ▸ ha, hw⟩)

theorem mem_staying {v : Vip} (hv : lb.vips[spec]? = some v) {a : UInt32} :
    a ∈ (lb.staying spec flags want v).members ↔ a ∈ v.members ∧ a ∈ want := by
  rw [← membersAt_eq hv, OrdMap.mem_iff, getElem?_staying hv]
  by_cases hw : a ∈ want <;> simp [hw, OrdMap.mem_iff]

theorem Consistent.staying (h : Consistent [] lb d) {v : Vip} (hv : lb.vips[spec]? = some v)
    (flags : UInt32) : Consistent (lb.leaving spec want)
      { lb with vips := lb.vips.insert spec (lb.staying spec flags want v) }
      { d with vipMap := lb.entriesAfter d spec flags v.id } := by
  refine h.leave hv (lb.staying spec flags want v) rfl rfl (fun a => mem_staying hv) rfl rfl
    fun s val hval => ?_
  simp only [entriesAfter] at hval
  split_ifs at hval
  · exact .inl hval
  · rw [OrdMap.getElem?_insert] at hval
    split_ifs at hval with hs
    · exact .inr ⟨hs, by rw [← Option.some.inj hval]⟩
    · exact .inl hval

theorem touched_staying {v : Vip} (hv : lb.vips[spec]? = some v) (hashChanged : Bool) :
    (hashChanged || !(lb.leaving spec want).isEmpty ||
      want.toList.any (differs (lb.staying spec flags want v))) =
    lb.touched hashChanged spec want := by
  have hdiffers : ∀ p ∈ want.toList, differs (lb.staying spec flags want v) p = differs v p := by
    intro p hp
    have hpw : p.1 ∈ want := OrdMap.mem_iff.mpr ⟨p.2, mem_toList.mp hp⟩
    rw [differs, differs, getElem?_staying hv, if_pos hpw, membersAt_eq hv]
  rw [touched, hv, Option.all_some]
  congr 1
  rw [Bool.eq_iff_iff, List.any_eq_true, List.any_eq_true]
  exact exists_congr fun p => and_congr_right fun hp => by rw [hdiffers p hp]

theorem reconcileVip_spec (henv : ArrayOk env) (h : Consistent [] lb d) {v : Vip}
    (hv : lb.vips[spec]? = some v) (hashChanged : Bool) (flags : UInt32)
    (hne : ∀ a ∈ want, a ≠ 0) :
    wp (reconcileVip env hashChanged spec flags want) (VipWrite env lb d spec flags want)
      (fun _ d' lb' => ∃ v', VipStep env hashChanged lb d spec flags want v' d' lb')
      (StepFailed env lb d spec want) d lb := by
  have hid := idFor_of_vip hv
  have hremoved : removedMembers { v with flags } want = lb.leaving spec want := by
    rw [leaving, membersAt_eq hv]
    rfl
  simp only [reconcileVip, wp_bind]
  refine wp_imp (setFlags_spec h hv flags) ?_
  rintro _ _ _ ⟨rfl, rfl⟩
  simp only [vipAt, wp_bind, wp_get, OrdMap.getElem?_insert, if_true, wp_pure, hremoved]
  refine wp_imp (removeMembers_spec (v := { v with flags }) (by simp) (lb.leaving spec want)) ?_
  rintro _ _ _ ⟨rfl, rfl⟩
  simp only [OrdMap.insert_insert]
  have hc₀ : Consistent (lb.leaving spec want) _ _ := h.staying hv flags
  have hbacked : ∀ {done lb₁ d₁ members}, Grown env (lb.leaving spec want)
      { lb with vips := lb.vips.insert spec (lb.staying spec flags want v) }
      { d with vipMap := lb.entriesAfter d spec flags v.id } spec
      (lb.staying spec flags want v) done lb₁ d₁ members → Backed lb d → Backed lb₁ d₁ :=
    fun hg hb => hg.backed h hb rfl rfl
      (fun u hu => by rw [Option.some.inj (hu.symm.trans hv)]; rfl)
      (fun hnew => absurd (OrdMap.mem_iff.mpr ⟨v, hv⟩) hnew)
      (fun a ha => ⟨v, hv, (mem_staying hv).mp ha |>.1⟩) rfl
  refine wp_mono (reconcileMembers_spec henv hc₀ (v := lb.staying spec flags want v) (by simp)
    want.toList ?_ ?_ ?_ (hashChanged || !(lb.leaving spec want).isEmpty)) (fun _ _ hw => hw) ?_ ?_
  · rw [ExtTreeMap.map_fst_toList_eq_keys]
    exact want.nodup_keys
  · exact fun p hp => hne p.1 (OrdMap.mem_iff.mpr ⟨p.2, mem_toList.mp hp⟩)
  · rintro ⟨p, hp, hnew, hmac⟩ d₁ w hw
    have hpw : p.1 ∈ want := OrdMap.mem_iff.mpr ⟨p.2, mem_toList.mp hp⟩
    refine .slot w p.1 hpw ?_ hmac hw
    rwa [OrdMap.notMem_iff, getElem?_staying hv, if_pos hpw, ← OrdMap.notMem_iff] at hnew
  swap
  · rintro err d₁ lb₁ ⟨rfl, ⟨done, members, hg⟩, hfull⟩
    have hb := hbacked hg
    obtain ⟨t, n, rfl⟩ := hg.state
    refine ⟨⟨hg.consistent.weaken, hb, rfl, fun _ _ hs => hs⟩, fun _ => .inr ⟨rfl, ?_⟩⟩
    rwa [toFinset_toList] at hfull
  rintro changed d₁ lb₁ ⟨hchanged, members, hg⟩
  obtain ⟨hs₁, hj₁⟩ := hg.shaped _ hid rfl (h.key spec v hv) rfl
    (fun s => by simp [OrdMap.mem_iff.mpr ⟨v, hv⟩]) (getElem?_staying hv)
    (fun p hp => mem_toList.mp hp)
    (fun a w hw hnot => absurd (List.mem_map.mpr ⟨(a, w), mem_toList.mpr hw, rfl⟩) hnot)
  rw [hchanged, touched_staying hv, wp_when]
  constructor
  · intro hyes
    refine wp_mono (hs₁.rebuild hg.consistent fun slots hok => .ring _ lb₁ slots hs₁ hj₁ hok)
      (fun _ _ hw => hw) ?_ ?_
    · rintro _ _ lb₂ ⟨v₂, slots, hs₂, hc₂, hreals, hid₂, hslots, rfl⟩
      refine wp_imp (hs₂.release hashChanged henv h hv (hreals ▸ hj₁) hc₂
        ⟨by rw [hid₂]; exact hg.same.vipMap, fun _ => ⟨slots, hslots, by rw [hg.same.rings]⟩,
          fun hno => Bool.noConfusion (hno.symm.trans hyes), hg.same.config⟩) ?_
      exact fun _ _ _ hstep => ⟨v₂, hstep⟩
    · rintro err d₂ lb₂ ⟨hc, hb, hinit, hadopted, hfault⟩
      refine ⟨⟨hc.weaken, hb ∘ hbacked hg, hinit, hadopted⟩, fun hhealthy => ?_⟩
      simp [hhealthy.ringFault] at hfault
  · intro hno
    refine wp_imp (hs₁.release hashChanged henv h hv hj₁ hg.consistent
      ⟨hg.same.vipMap, fun hyes => Bool.noConfusion (hno.symm.trans hyes),
        fun _ => hg.same.rings, hg.same.config⟩) ?_
    exact fun _ _ _ hstep => ⟨_, hstep⟩

/-- The body of `apply`'s loop. -/
theorem applyVip_spec (henv : ArrayOk env) (h : Consistent [] lb d) (hashChanged : Bool)
    (vc : VipConfig) (hne : ∀ a ∈ wantOf vc, a ≠ 0) :
    wp (applyVip env hashChanged vc)
      (VipWrite env lb d vc.spec (vipFlags vc.noConntrack) (wantOf vc))
      (fun _ d' lb' => ∃ v', VipStep env hashChanged lb d vc.spec (vipFlags vc.noConntrack)
        (wantOf vc) v' d' lb')
      (StepFailed env lb d vc.spec (wantOf vc)) d lb := by
  simp only [applyVip, wp_bind, wp_get]
  cases hv : lb.vips[vc.spec]? with
  | none =>
      simp only [wp_bind, wp_pure]
      exact wp_imp (createVip_spec henv h (OrdMap.notMem_iff.mpr hv) _ hne hashChanged)
        fun v _ _ hstep => ⟨v, hstep⟩
  | some v => exact reconcileVip_spec henv h hv hashChanged _ hne

end Reconcile

end LbState

end PacketBalance
