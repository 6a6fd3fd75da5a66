import PacketBalance.System.Atomic
/-!
# Single calls

When `add_vip` and `add_real` are accepted by a kernel in which nothing fails, which ids they
give out, and what a `del_real` whose ring cannot be installed leaves behind.
-/

namespace PacketBalance

open WriteLog Std LbState

namespace Serving

variable {s : Serving} {spec : VipSpec} {v : Vip} {a : UInt32} {env : Env}

theorem exists_vipId {lb : LbState} {spec : VipSpec}
    (hvips : ∀ s : VipSpec, s ≠ spec → lb.vips[s]? = none) (hadopted : lb.adoptedVipIds = ∅) :
    ∃ id, lb.allocateVipId = some id := by
  refine Option.ne_none_iff_exists'.mp fun hnone => ?_
  have hown : ∀ id, id < pbMaxVips → lb.vips[spec]?.map Vip.id = some id := by
    intro id hid
    obtain ⟨s, ⟨v, hv, rfl⟩ | hs⟩ := allocateVipId_none hnone hid
    · by_cases hs : s = spec
      · rw [← hs, hv, Option.map_some]
      · simp [hvips s hs] at hv
    · simp [hadopted] at hs
  exact absurd ((hown 0 (by decide)).symm.trans (hown 1 (by decide))) (by decide)

theorem Reachable.vip_added (h : Reachable s) (henv : Healthy env) (hnew : spec ∉ s.lb.vips)
    {id : Nat} (hid : s.lb.allocateVipId = some id) (noConntrack : Bool) :
    ∃ v, v.id = id ∧ VipStep env false s.lb s.ctl spec (vipFlags noConntrack) ∅ v
        (s.after env (.addVip spec noConntrack)).ctl (s.after env (.addVip spec noConntrack)).lb ∧
      (s.after env (.addVip spec noConntrack)).lb.reals = s.lb.reals := by
  have hc := h.live.consistent
  have hfor : s.lb.idFor spec = some id := by
    simp [idFor, OrdMap.notMem_iff.mp hnew, h.live.adopted, hid]
  have hok := Op.ok_of_installs (addVip_ends henv.fault hc noConntrack)
    (show (Op.addVip spec noConntrack).installs s.lb = some id by simp [Op.installs, hnew, hfor])
    (henv.ringFault id)
  have hspec : wp ((Op.addVip spec noConntrack).run env) (fun _ _ => True)
      (fun _ d' lb' => (∃ v, VipStep env false s.lb s.ctl spec (vipFlags noConntrack) ∅ v d' lb') ∧
        lb'.reals = s.lb.reals) (fun _ _ _ => True) s.ctl s.lb := by
    rw [Op.run, wp_bind]
    refine wp_mono (wp_and (addVip_spec henv.arrayOk hc noConntrack)
      ((Edits.of_reals (· = s.lb.reals)).preserves_addVip noConntrack s.ctl s.lb rfl))
      (fun _ _ _ => trivial) ?_ (fun _ _ _ _ => trivial)
    rintro _ d' lb' ⟨⟨-, v, -, hstep⟩, hreals⟩
    exact (wp_pure _).mpr ⟨⟨v, hstep⟩, hreals⟩
  obtain ⟨⟨v, hstep⟩, hreals⟩ := hspec.of_ok hok
  exact ⟨v, Option.some.inj (hstep.id_eq.symm.trans hfor), hstep, hreals⟩

theorem addReal_nextId {lb : LbState} {d : CtlMaps} (henv : ArrayOk env) (hc : Consistent [] lb d)
    (hnone : lb.reals.entry a = none) {weight : Nat} :
    wp (addReal env spec a weight) (fun _ _ => True)
      (fun _ _ lb' => lb'.reals.idOf a = lb.reals.nextId) (fun _ _ _ => True) d lb := by
  rw [addReal, wp_bind]
  refine wp_vipOrThrow (fun _ => trivial) fun v hv => ?_
  simp only [wp_ite, wp_throw, wp_bind]
  refine ⟨fun _ => trivial, fun ha => ⟨fun _ => trivial, fun hnew => ⟨fun _ => trivial,
    fun _ => ?_⟩⟩⟩
  refine wp_mono (addMember_spec henv hc hv ha hnew weight fun _ _ _ _ => trivial)
    (fun _ _ hw => hw) ?_ (fun _ _ _ _ => trivial)
  rintro _ d₁ lb₁ ⟨-, -, t, e, hentry, -, hnext, rfl⟩
  have hid : t.idOf a = lb.reals.nextId := by
    rw [RealTable.idOf_eq, hentry, Function.update_self, Option.map_some, hnext hnone]
  refine wp_mono ((Edits.of_reals (RealTable.idOf · a = lb.reals.nextId)).preserves_rebuildLocked
    spec d₁ _ hid) (fun _ _ hw => hw) (fun _ d₂ lb₂ hid => ?_) (fun _ _ _ _ => trivial)
  simp only [derefId, wp_bind, wp_get]
  split
  · exact (wp_pure _).mpr hid
  · exact (wp_throw _).mpr trivial

theorem Reachable.real_added (h : Reachable s) (henv : Healthy env)
    (hv : s.lb.vips[spec]? = some v) (ha : a ≠ 0) (hnone : s.lb.reals.entry a = none)
    (hroom : s.lb.reals.used.card ≠ pbMaxReals - 1) {weight : Nat}
    (hweight : weight ≤ kMaxRealWeight) :
    ∃ v', VipStep env false s.lb s.ctl spec v.flags ((weightsOf v).insert a weight) v'
        (s.after env (.addReal spec a weight)).ctl (s.after env (.addReal spec a weight)).lb ∧
      (s.after env (.addReal spec a weight)).lb.reals.idOf a = s.lb.reals.nextId := by
  have hc := h.live.consistent
  have hnew : a ∉ v.members := fun ha => by
    obtain ⟨e, he⟩ := hc.member_entry hv ha
    simp [hnone] at he
  have hfree : ¬s.lb.reals.NoIdFor a := fun hfull => hroom hfull.2
  have hinst : (Op.addReal spec a weight).installs s.lb = some v.id := by
    simp [Op.installs, hv, ha, hnew, Nat.not_lt.mpr hweight, hfree]
  have hok := Op.ok_of_installs (addReal_ends henv.arrayOk hc a weight) hinst (henv.ringFault _)
  have hspec : wp ((Op.addReal spec a weight).run env) (fun _ _ => True)
      (fun _ d' lb' => (∃ v', VipStep env false s.lb s.ctl spec v.flags
        ((weightsOf v).insert a weight) v' d' lb') ∧ lb'.reals.idOf a = s.lb.reals.nextId)
      (fun _ _ _ => True) s.ctl s.lb := by
    rw [Op.run, wp_bind]
    refine wp_mono (wp_and (addReal_spec henv.arrayOk hc) (addReal_nextId henv.arrayOk hc hnone))
      (fun _ _ _ => trivial) ?_ (fun _ _ _ _ => trivial)
    rintro _ d' lb' ⟨⟨v₀, v', hv₀, -, hstep⟩, hid⟩
    obtain rfl : v₀ = v := Option.some.inj (hv₀.symm.trans hv)
    exact (wp_pure _).mpr ⟨⟨v', hstep⟩, hid⟩
  obtain ⟨⟨v', hstep⟩, hid⟩ := hspec.of_ok hok
  exact ⟨v', hstep, hid⟩

theorem Reachable.real_deleted (h : Reachable s) (henv : Healthy env)
    (hv : s.lb.vips[spec]? = some v) (ha : a ∈ v.members) :
    ∃ v', VipStep env false s.lb s.ctl spec v.flags ((weightsOf v).erase a) v'
      (s.after env (.delReal spec a)).ctl (s.after env (.delReal spec a)).lb := by
  have hc := h.live.consistent
  have hok := Op.ok_of_installs (delReal_ends henv.arrayOk hc a)
    (show (Op.delReal spec a).installs s.lb = some v.id by simp [Op.installs, hv, ha])
    (henv.ringFault _)
  have hspec : wp ((Op.delReal spec a).run env) _ _ _ s.ctl s.lb := delReal_spec henv.arrayOk hc
  obtain ⟨v₀, v', hv₀, -, hstep⟩ := hspec.of_ok hok
  obtain rfl : v₀ = v := Option.some.inj (hv₀.symm.trans hv)
  exact ⟨v', hstep⟩

/-- A `del_real` whose ring cannot be installed has written nothing and released nothing, but
the member is gone. -/
theorem Reachable.real_stuck (h : Reachable s) (hv : s.lb.vips[spec]? = some v)
    (ha : a ∈ v.members) {fault : RingFault} (hfault : env.ringFault v.id = some fault) :
    (∃ err, ((Op.delReal spec a).run env s.ctl s.lb).res = .error err) ∧
      s.after env (.delReal spec a) = ⟨s.ctl, { s.lb with
        vips := s.lb.vips.insert spec
          (s.lb.markInRing { v with members := v.members.erase a }) }⟩ := by
  obtain ⟨m, hm⟩ := OrdMap.mem_iff.mp ha
  have hspec : wp ((Op.delReal spec a).run env) (fun _ _ => True) (fun _ _ _ => False)
      (fun _ d' lb' => d' = s.ctl ∧ lb' = { s.lb with
        vips := s.lb.vips.insert spec
          (s.lb.markInRing { v with members := v.members.erase a }) }) s.ctl s.lb := by
    simp only [Op.run, delReal, vipOrThrow, memberOrThrow, removeMemberLocked, vipAt, putVip,
      wp_bind, wp_get, hv, hm, wp_pure, wp_modify]
    refine wp_mono (rebuild_spec (h.live.consistent.eraseMember hv a).weaken
      ExtTreeMap.getElem?_insert_self fun _ _ => trivial) (fun _ _ hw => hw) ?_ ?_
    · rintro _ d' lb' ⟨-, hnone, -⟩
      simp [hfault] at hnone
    · rintro err d' lb' ⟨-, rfl, rfl, -⟩
      refine ⟨rfl, ?_⟩
      rw [OrdMap.insert_insert]
      rfl
  cases hres : ((Op.delReal spec a).run env s.ctl s.lb).res with
  | ok u => exact (hspec.of_ok hres).elim
  | error err =>
      obtain ⟨hctl, hlb⟩ := hspec.of_error hres
      exact ⟨⟨err, rfl⟩, by rw [Serving.after, hctl, hlb]⟩

/-! ## A VIP and its first real -/

/-- The VIP has its entry, and nobody serves it yet. -/
structure Bare (s : Serving) (spec : VipSpec) (v : Vip) : Prop where
  vip : s.lb.vips[spec]? = some v
  entry : s.ctl.vipMap[spec]? = some ⟨v.id, v.flags⟩
  members : v.members = ∅

/-- The VIP has its entry, and its ring was built from one real of weight 1. -/
structure Single (s : Serving) (spec : VipSpec) (a : UInt32) (id : Nat) (mode : HashMode)
    (val : VipValue) (slots : List Nat) : Prop where
  entry : s.ctl.vipMap[spec]? = some val
  ring : s.ctl.rings val.vipId = some ⟨slots, [⟨id, a, 1⟩], mode⟩
  built : buildRing [⟨id, a, 1⟩] mode pbRingSize = .ok slots

section FirstReals

variable {s s' : Serving} {spec other : VipSpec} {v v' : Vip} {a : UInt32} {flags : UInt32}
  {want : ExtTreeMap UInt32 Nat}

theorem Bare.of_step (hb : Bare s other v) (hne : other ≠ spec)
    (hstep : VipStep System.answeringEnv false s.lb s.ctl spec flags want v' s'.ctl s'.lb) :
    Bare s' other v :=
  ⟨(hstep.vip_else hne).trans hb.vip, (hstep.vipMap_else hne).trans hb.entry, hb.members⟩

theorem bare_added (hnew : spec ∉ s.lb.vips)
    (hstep : VipStep System.answeringEnv false s.lb s.ctl spec flags ∅ v' s'.ctl s'.lb) :
    Bare s' spec v' := by
  refine ⟨hstep.vip, ?_, ?_⟩
  · rw [hstep.vipMap, entriesAfter, if_neg (by simp [OrdMap.notMem_iff.mp hnew])]
    simp [hstep.flags_eq]
  · rw [ExtTreeMap.eq_empty_iff_forall_not_mem]
    intro a
    rw [hstep.mem_members]
    exact ExtTreeMap.not_mem_empty

/-- The state once a VIP has its first real, at an address that was new. -/
structure FirstReal (s : Serving) (spec : VipSpec) (v : Vip) (a : UInt32) (s' : Serving)
    (v' : Vip) (e : RealTable.Entry) : Prop where
  step : VipStep System.answeringEnv false s.lb s.ctl spec v.flags ((weightsOf v).insert a 1) v'
    s'.ctl s'.lb
  entry : s'.lb.reals.entry a = some e
  refs : e.refs = 1
  mac : e.mac.isSome
  next : s.lb.reals.nextId = some e.id
  entry_else : ∀ x ≠ a, s'.lb.reals.entry x = s.lb.reals.entry x
  mem : ∀ x : UInt32, x ∈ v'.members ↔ x = a

theorem Bare.real_added (hb : Bare s spec v) (h : Reachable s) (ha : a ≠ 0)
    (hnone : s.lb.reals.entry a = none) (hroom : s.lb.reals.used.card < pbMaxReals - 1) :
    ∃ v' e, FirstReal s spec v a (s.after System.answeringEnv (.addReal spec a 1)) v' e := by
  obtain ⟨v', hstep, hid⟩ := h.real_added System.answeringEnv_healthy hb.vip ha hnone hroom.ne
    (by decide : 1 ≤ kMaxRealWeight)
  have hin : ∀ x : UInt32, x ∈ (weightsOf v).insert a 1 ↔ x = a := by
    intro x
    rw [OrdMap.mem_iff, OrdMap.getElem?_insert]
    split_ifs with hx
    · simp [hx]
    · simp [hx, getElem?_weightsOf, hb.members]
  have hnot : ∀ x : UInt32, x ∉ s.lb.membersAt spec := by
    intro x
    rw [membersAt_eq hb.vip, hb.members]
    exact ExtTreeMap.not_mem_empty
  obtain ⟨e, he, hjoin⟩ := hstep.entry_new a ((hin a).mpr rfl) (hnot a)
  refine ⟨v', e, hstep, he, ?_, ?_, ?_, fun x hx => ?_, fun x => ?_⟩
  · rw [hjoin.refs, hnone]
    rfl
  · rw [hjoin.mac, hnone]
    rfl
  · rw [← hid, RealTable.idOf_eq, he, Option.map_some]
  · exact hstep.entry_same x (iff_of_false (mt (hin x).mp hx) (hnot x))
  · rw [hstep.mem_members, hin]

namespace FirstReal

variable {e : RealTable.Entry}

theorem used_card (h : FirstReal s spec v a s' v' e) :
    s'.lb.reals.used.card ≤ s.lb.reals.used.card + 1 := by
  refine Nat.le_trans (Finset.card_le_card fun x hx => ?_) (Finset.card_insert_le a _)
  by_cases hxa : x = a
  · exact Finset.mem_insert.mpr (.inl hxa)
  · obtain ⟨e', he'⟩ := RealTable.mem_used.mp hx
    exact Finset.mem_insert_of_mem (RealTable.mem_used.mpr ⟨e', h.entry_else x hxa ▸ he'⟩)

theorem member (h : FirstReal s spec v a s' v' e) (hb : Bare s spec v) :
    ∃ incarnation inRing, v'.members[a]? =
      some { newMember System.answeringEnv 1 incarnation with inRing } := by
  have hafter := h.step.member a
  simp only [membersAt_eq hb.vip, hb.members, ExtTreeMap.getElem?_empty, OrdMap.getElem?_insert,
    if_true, MemberStep, MemberAfter] at hafter
  obtain ⟨_, hm, incarnation, inRing, rfl⟩ := hafter
  exact ⟨incarnation, inRing, hm⟩

theorem backends (h : FirstReal s spec v a s' v' e) (hb : Bare s spec v) :
    s'.lb.backendsOf v' = [⟨e.id, a, 1⟩] := by
  obtain ⟨incarnation, inRing, hm⟩ := h.member hb
  rw [backendsOf, OrdMap.toList_eq_singleton hm fun x => (h.mem x).mp]
  simp [backendOf, eligible, newMember, RealTable.macOf_eq, RealTable.idOf_eq, h.entry, h.mac]

theorem single (h : FirstReal s spec v a s' v' e) (hb : Bare s spec v) :
    ∃ slots, Single s' spec a e.id s.lb.hash ⟨v.id, v.flags⟩ slots := by
  have htouched : s.lb.touched false spec ((weightsOf v).insert a 1) :=
    touched_insert hb.vip (by simp [differs, hb.members])
  obtain ⟨slots, hslots, hrings⟩ := h.step.ring htouched
  rw [h.backends hb] at hslots hrings
  refine ⟨slots, ?_, ?_, hslots⟩
  · rw [h.step.vipMap, entriesAfter, if_pos (by simp [hb.vip])]
    exact hb.entry
  · rw [hrings, h.step.id_of_vip hb.vip]
    exact Function.update_self ..

theorem deleted (h : FirstReal s spec v a s' v' e) (hb : Bare s spec v) (hr : Reachable s') :
    let s₂ := s'.after System.answeringEnv (.delReal spec a)
    ∃ u, Bare s₂ spec u ∧ s₂.lb.reals.entry a = none ∧
      s₂.lb.reals.used.card ≤ s.lb.reals.used.card ∧
      s₂.lb.healthEnabled = s'.lb.healthEnabled := by
  intro s₂
  obtain ⟨u, hstep⟩ := hr.real_deleted System.answeringEnv_healthy h.step.vip ((h.mem a).mpr rfl)
  have hnone : ∀ x : UInt32, x ∉ (weightsOf v').erase a := by
    intro x hx
    obtain ⟨w, hw⟩ := OrdMap.mem_iff.mp hx
    rw [OrdMap.getElem?_erase] at hw
    split_ifs at hw with hxa
    exact hxa ((h.mem x).mp (mem_weightsOf.mp (OrdMap.mem_iff.mpr ⟨w, hw⟩)))
  have hmem : a ∈ s'.lb.membersAt spec := by
    rw [membersAt_eq h.step.vip]
    exact (h.mem a).mpr rfl
  have hgone : s₂.lb.reals.entry a = none := by
    rw [hstep.entry_gone a hmem (hnone a), h.entry, Option.bind_some, RealTable.Entry.drop,
      if_neg (by rw [h.refs]; decide)]
  obtain ⟨slots, hsingle⟩ := h.single hb
  refine ⟨u, ⟨hstep.vip, ?_, ?_⟩, hgone, Finset.card_le_card fun x hx => ?_, hstep.settings.2⟩
  · rw [hstep.vipMap, entriesAfter, if_pos (by rw [h.step.vip]; rfl), hsingle.entry,
      hstep.id_of_vip h.step.vip, h.step.id_of_vip hb.vip, hstep.flags_eq, h.step.flags_eq]
  · rw [ExtTreeMap.eq_empty_iff_forall_not_mem]
    intro x hx
    exact hnone x (hstep.mem_members.mp hx)
  · obtain ⟨e', he'⟩ := RealTable.mem_used.mp hx
    have hxa : x ≠ a := by
      rintro rfl
      rw [hgone] at he'
      cases he'
    rw [hstep.entry_same x (iff_of_false (hnone x) ?_), h.entry_else x hxa] at he'
    · exact RealTable.mem_used.mpr ⟨e', he'⟩
    · rw [membersAt_eq h.step.vip]
      exact fun hin => hxa ((h.mem x).mp hin)

end FirstReal

end FirstReals

end Serving

end PacketBalance
