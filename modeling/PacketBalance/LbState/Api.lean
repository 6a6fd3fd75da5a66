import PacketBalance.LbState.Settled
/-!
# API mutations that change a VIP's weights

`add_vip`, `add_real`, `del_real` and `set_weight` each give one VIP other wanted
weights, so each is a `VipStep` whose flags and hash mode stay.
-/

namespace PacketBalance

open WriteLog Std

namespace LbState

variable {lb : LbState} {d : CtlMaps} {env : Env} {spec : VipSpec} {v : Vip}

def weightsOf (v : Vip) : ExtTreeMap UInt32 Nat := v.members.map fun _ m => m.weight

theorem getElem?_weightsOf (v : Vip) (a : UInt32) :
    (weightsOf v)[a]? = v.members[a]?.map Member.weight := by
  simp only [weightsOf, ExtTreeMap.getElem?_map]

theorem mem_weightsOf {a : UInt32} : a ∈ weightsOf v ↔ a ∈ v.members := by
  simp [weightsOf]

theorem wp_vipOrThrow {G : CtlMaps → MapWrite → Prop} {Q : Vip → CtlMaps → LbState → Prop}
    {E : LbError → CtlMaps → LbState → Prop}
    (hnone : lb.vips[spec]? = none → E (.api ("unknown vip " ++ spec.str)) d lb)
    (hsome : ∀ v, lb.vips[spec]? = some v → Q v d lb) :
    wp (vipOrThrow spec) G Q E d lb := by
  simp only [vipOrThrow, wp_bind, wp_get]
  cases hv : lb.vips[spec]? with
  | none => exact (wp_throw _).mpr (hnone hv)
  | some v => exact (wp_pure v).mpr (hsome v hv)

theorem wp_memberOrThrow {G : CtlMaps → MapWrite → Prop}
    {Q : Member → CtlMaps → LbState → Prop} {E : LbError → CtlMaps → LbState → Prop}
    {a : UInt32}
    (hnone : v.members[a]? = none →
      E (.api ("unknown real " ++ ipv4ToString a ++ " on vip " ++ v.spec.str)) d lb)
    (hsome : ∀ m, v.members[a]? = some m → Q m d lb) :
    wp (memberOrThrow v a) G Q E d lb := by
  rw [memberOrThrow]
  cases hm : v.members[a]? with
  | none => exact (wp_throw _).mpr (hnone hm)
  | some m => exact (wp_pure m).mpr (hsome m hm)

/-- The shape of `set_weight` and `set_draining`: one member is edited and its VIP rebuilt,
unless there is nothing to do. -/
theorem wp_editMember {G : CtlMaps → MapWrite → Prop} {Q : Unit → CtlMaps → LbState → Prop}
    {E : LbError → CtlMaps → LbState → Prop} {a : UInt32} (skip : Member → Prop)
    [DecidablePred skip] (edit : Member → Member)
    (hvip : lb.vips[spec]? = none → E (.api ("unknown vip " ++ spec.str)) d lb)
    (hmember : ∀ v, lb.vips[spec]? = some v → v.members[a]? = none →
      E (.api ("unknown real " ++ ipv4ToString a ++ " on vip " ++ v.spec.str)) d lb)
    (hskip : ∀ v m, lb.vips[spec]? = some v → v.members[a]? = some m → skip m → Q () d lb)
    (hedit : ∀ v m, lb.vips[spec]? = some v → v.members[a]? = some m → ¬skip m →
      wp (rebuildLocked env spec) G Q E d
        { lb with vips := lb.vips.insert spec { v with members := v.members.insert a (edit m) } }) :
    wp (do
        let v ← vipOrThrow spec
        let m ← memberOrThrow v a
        if skip m then pure ()
        else
          putVip spec { v with members := v.members.insert a (edit m) }
          rebuildLocked env spec) G Q E d lb := by
  rw [wp_bind]
  refine wp_vipOrThrow hvip fun v hv => ?_
  rw [wp_bind]
  refine wp_memberOrThrow (hmember v hv) fun m hm => ?_
  simp only [wp_ite, wp_pure, wp_bind, putVip, wp_modify]
  exact ⟨hskip v m hv hm, hedit v m hv hm⟩

theorem addVip_spec (henv : ArrayOk env) (h : Consistent [] lb d) (noConntrack : Bool) :
    wp (addVip env spec noConntrack) (VipWrite env lb d spec (vipFlags noConntrack) ∅)
      (fun id d' lb' => spec ∉ lb.vips ∧ ∃ v, v.id = id ∧
        VipStep env false lb d spec (vipFlags noConntrack) ∅ v d' lb')
      (fun _ d' lb' => Failed lb d d' lb') d lb := by
  simp only [addVip, wp_bind, wp_get, wp_ite, wp_throw, wp_pure]
  refine ⟨fun _ => .refl h, fun hnew => ?_⟩
  refine wp_mono (createVip_spec henv h hnew _ (by simp) false) (fun _ _ hw => hw) ?_
    (fun _ _ _ hfail => hfail.toFailed)
  exact fun v d' lb' hstep => ⟨hnew, v, rfl, hstep⟩

theorem delVip_spec (henv : ArrayOk env) (h : Consistent [] lb d) :
    wp (delVip env spec)
      (fun d₁ w => ∃ v, lb.vips[spec]? = some v ∧ DeleteWrite lb d spec v d₁ w)
      (fun _ d' lb' => ∃ v, lb.vips[spec]? = some v ∧ Deleted lb d spec v lb' d')
      (fun _ d' lb' => Failed lb d d' lb') d lb := by
  rw [delVip, wp_bind]
  refine wp_vipOrThrow (fun _ => .refl h) fun v hv => ?_
  refine wp_mono (deleteVip_spec henv h hv) (fun _ _ hw => ⟨v, hv, hw⟩) ?_ ?_
  · exact fun _ d' lb' hdel => ⟨v, hv, hdel⟩
  · rintro err _ lb' ⟨rfl, rfl, hcons, -⟩
    exact ⟨hcons, fun hb => hb.congr rfl rfl rfl rfl rfl, rfl, fun _ _ hs => hs⟩

/-! ## The members -/

/-- The rest of a mutation once its VIP has the wanted weights: nobody's reference is
dropped. -/
theorem Shaped.rebuild_only {want : ExtTreeMap UInt32 Nat} {v₁ : Vip} {lb₁ : LbState}
    {d₁ : CtlMaps} (h : Consistent [] lb d) (hv : lb.vips[spec]? = some v)
    (hs : Shaped env lb spec v.flags want v₁ lb₁) (hj : Joins env lb spec want lb₁.reals)
    (hc : Consistent [] lb₁ d₁) (hb : Backed lb d → Backed lb₁ d₁) (hsame : d.SameElse d₁)
    (hleaving : lb.leaving spec want = []) (htouched : lb.touched false spec want) :
    wp (rebuildLocked env spec) (VipWrite env lb d spec v.flags want)
      (fun _ d' lb' => ∃ v', VipStep env false lb d spec v.flags want v' d' lb')
      (fun _ d' lb' => Failed lb d d' lb') d₁ lb₁ := by
  refine wp_mono (hs.rebuild hc fun slots hok => .ring _ lb₁ slots hs hj hok)
    (fun _ _ hw => hw) ?_ ?_
  · rintro _ _ lb₂ ⟨v₂, slots, hs₂, hc₂, hreals, -, hslots, rfl⟩
    exact ⟨v₂, hs₂.finish h false (hreals ▸ hj) (by rw [hleaving]; exact hc₂) hc₂.table (.refl _)
      (by simp [hleaving]) ⟨by simp [entriesAfter, hv, hsame.vipMap],
        fun _ => ⟨slots, hslots, by rw [hsame.rings]⟩,
        fun hno => Bool.noConfusion (hno.symm.trans htouched), hsame.config⟩⟩
  · rintro err d₂ lb₂ ⟨hc₂, hb₂, hinit, hadopted, -⟩
    exact ⟨hc₂, hb₂ ∘ hb, hinit, hadopted⟩

section Members

variable {a : UInt32} {w : Nat}

theorem leaving_insert (hv : lb.vips[spec]? = some v) :
    lb.leaving spec ((weightsOf v).insert a w) = [] := by
  rw [List.eq_nil_iff_forall_not_mem]
  intro b hb
  obtain ⟨hmem, hnot⟩ := mem_leaving.mp hb
  rw [membersAt_eq hv] at hmem
  apply hnot
  rw [ExtTreeMap.mem_insert]
  exact .inr (mem_weightsOf.mpr hmem)

theorem touched_insert (hv : lb.vips[spec]? = some v) (hdiff : differs v (a, w)) :
    lb.touched false spec ((weightsOf v).insert a w) := by
  have hin : (a, w) ∈ ((weightsOf v).insert a w).toList := mem_toList.mpr (by simp)
  simp only [touched, hv, Option.all_some, Bool.or_eq_true, List.any_eq_true]
  exact .inr ⟨(a, w), hin, hdiff⟩

theorem Grown.backed_own {pend : List UInt32} {done : List (UInt32 × Nat)} {lb₁ : LbState}
    {d₁ : CtlMaps} {members : ExtTreeMap UInt32 Member} (h : Consistent [] lb d)
    (hv : lb.vips[spec]? = some v) (hg : Grown env pend lb d spec v done lb₁ d₁ members)
    (hb : Backed lb d) : Backed lb₁ d₁ :=
  hg.backed h hb rfl (OrdMap.insert_self hv).symm
    (fun u hu => by rw [Option.some.inj (hu.symm.trans hv)])
    (fun hnew => absurd (OrdMap.mem_iff.mpr ⟨v, hv⟩) hnew) (fun _ ha => ⟨v, hv, ha⟩) rfl

theorem Grown.shaped_one {lb₁ : LbState} {d₁ : CtlMaps} {members : ExtTreeMap UInt32 Member}
    (h : Consistent [] lb d) (hv : lb.vips[spec]? = some v)
    (hg : Grown env [] lb d spec v [(a, w)] lb₁ d₁ members) :
    Shaped env lb spec v.flags ((weightsOf v).insert a w) { v with members } lb₁ ∧
      Joins env lb spec ((weightsOf v).insert a w) lb₁.reals := by
  have hid := idFor_of_vip hv
  refine hg.shaped lb.adoptedVipIds hid ?_ (h.key spec v hv) rfl ?_ ?_ ?_ ?_
  · rw [OrdMap.insert_self hv]
  · simp [OrdMap.mem_iff.mpr ⟨v, hv⟩]
  · intro b
    rw [membersAt_eq hv]
    split_ifs with hb
    · rfl
    · rw [← OrdMap.notMem_iff]
      intro hmem
      exact hb (by rw [ExtTreeMap.mem_insert]; exact .inr (mem_weightsOf.mpr hmem))
  · simp
  · intro b w' hw' hnot
    have hne : b ≠ a := by simpa using hnot
    rw [OrdMap.getElem?_insert, if_neg hne, getElem?_weightsOf] at hw'
    rw [membersAt_eq hv]
    exact Option.map_eq_some_iff.mp hw'

theorem addReal_spec (henv : ArrayOk env) (h : Consistent [] lb d) :
    wp (addReal env spec a w)
      (fun d₁ wr => ∃ v, lb.vips[spec]? = some v ∧
        VipWrite env lb d spec v.flags ((weightsOf v).insert a w) d₁ wr)
      (fun _ d' lb' => ∃ v v', lb.vips[spec]? = some v ∧ a ∉ v.members ∧
        VipStep env false lb d spec v.flags ((weightsOf v).insert a w) v' d' lb')
      (fun _ d' lb' => Failed lb d d' lb') d lb := by
  rw [addReal, wp_bind]
  refine wp_vipOrThrow (fun _ => .refl h) fun v hv => ?_
  simp only [wp_ite, wp_throw, wp_bind]
  refine ⟨fun _ => .refl h, fun ha => ⟨fun _ => .refl h, fun hnew => ⟨fun _ => .refl h,
    fun _ => ?_⟩⟩⟩
  have hnot : a ∉ lb.membersAt spec := membersAt_eq hv ▸ hnew
  refine wp_mono ((Grown.refl h hv).join henv (w := w) (by simp) hnew ha fun hmac d₁ wr hw =>
    ⟨v, hv, .slot wr a (by simp) hnot hmac hw⟩) (fun _ _ hw => hw) ?_ ?_
  swap
  · rintro err d₁ lb₁ ⟨rfl, hg, -, -⟩
    have hb := hg.backed_own h hv
    obtain ⟨t, n, rfl⟩ := hg.state
    exact ⟨hg.consistent, hb, rfl, fun _ _ hs => hs⟩
  rintro _ d₁ lb₁ ⟨members, hg⟩
  obtain ⟨hs₁, hj₁⟩ := hg.shaped_one h hv
  refine wp_mono (hs₁.rebuild_only h hv hj₁ hg.consistent (hg.backed_own h hv) hg.same
    (leaving_insert hv) (touched_insert hv (by simp [differs, OrdMap.notMem_iff.mp hnew]))) ?_ ?_
    (fun _ _ _ hf => hf)
  · exact fun d₂ wr hw => ⟨v, hv, hw⟩
  · rintro _ d' lb' ⟨v', hstep⟩
    obtain ⟨e, he, -⟩ := hstep.entry_new a (by simp) hnot
    simp only [derefId, wp_bind, wp_get, RealTable.idOf_eq, he, Option.map_some, wp_pure]
    exact ⟨v, v', hv, hnew, hstep⟩

theorem setWeight_spec (h : Consistent [] lb d) :
    wp (setWeight env spec a w)
      (fun d₁ wr => ∃ v, lb.vips[spec]? = some v ∧
        VipWrite env lb d spec v.flags ((weightsOf v).insert a w) d₁ wr)
      (fun _ d' lb' => (d' = d ∧ lb' = lb) ∨ ∃ v v', lb.vips[spec]? = some v ∧
        a ∈ v.members ∧ lb.touched false spec ((weightsOf v).insert a w) ∧
        VipStep env false lb d spec v.flags ((weightsOf v).insert a w) v' d' lb')
      (fun _ d' lb' => Failed lb d d' lb') d lb := by
  rw [setWeight, wp_ite]
  refine ⟨fun _ => (wp_throw _).mpr (.refl h), fun _ => ?_⟩
  refine wp_editMember (fun m => m.weight = w) (fun m => { m with weight := w })
    (fun _ => .refl h) (fun _ _ _ => .refl h) (fun _ _ _ _ _ => .inl ⟨rfl, rfl⟩) ?_
  intro v m hv hm hne
  have hrefl : Grown env [] lb d spec v [] lb d v.members := .refl h hv
  have hg := hrefl.reweigh w (by simp) hm
  obtain ⟨hs₁, hj₁⟩ := hg.shaped_one h hv
  have htouched := touched_insert (w := w) hv (a := a) (by simp [differs, hm, hne])
  refine wp_mono (hs₁.rebuild_only h hv hj₁ hg.consistent (hg.backed_own h hv) hg.same
    (leaving_insert hv) htouched) ?_ ?_ (fun _ _ _ hf => hf)
  · exact fun d₂ wr hw => ⟨v, hv, hw⟩
  · rintro _ d' lb' ⟨v', hstep⟩
    exact .inr ⟨v, v', hv, OrdMap.mem_iff.mpr ⟨m, hm⟩, htouched, hstep⟩

theorem leaving_erase (hv : lb.vips[spec]? = some v) (ha : a ∈ v.members) :
    lb.leaving spec ((weightsOf v).erase a) = [a] := by
  rw [← List.perm_singleton, List.perm_ext_iff_of_nodup nodup_leaving (List.nodup_singleton a)]
  intro b
  rw [mem_leaving, membersAt_eq hv, List.mem_singleton, OrdMap.notMem_iff,
    OrdMap.getElem?_erase]
  by_cases hb : b = a
  · simp [hb, ha]
  · simp only [hb, if_false, iff_false, not_and]
    rw [← OrdMap.notMem_iff, mem_weightsOf, not_not]
    exact id

theorem getElem?_eraseMember (hv : lb.vips[spec]? = some v) (a b : UInt32) :
    (v.members.erase a)[b]? =
      if b ∈ (weightsOf v).erase a then (lb.membersAt spec)[b]? else none := by
  rw [OrdMap.getElem?_erase, membersAt_eq hv]
  by_cases hb : b = a
  · simp [hb]
  · simp only [hb, if_false, ExtTreeMap.mem_erase, mem_weightsOf]
    split_ifs with hin
    · rfl
    · rw [← OrdMap.notMem_iff]
      exact fun hbm => hin ⟨by simpa using Ne.symm hb, hbm⟩

theorem Consistent.eraseMember (h : Consistent [] lb d) (hv : lb.vips[spec]? = some v)
    (a : UInt32) : Consistent (lb.leaving spec ((weightsOf v).erase a)) { lb with
      vips := lb.vips.insert spec { v with members := v.members.erase a } } d := by
  refine h.leave hv { v with members := v.members.erase a } rfl rfl (fun b => ?_) rfl rfl
    fun s val hval => .inl hval
  rw [ExtTreeMap.mem_erase, ExtTreeMap.mem_erase, mem_weightsOf]
  exact ⟨fun hb => ⟨hb.2, hb⟩, And.right⟩

theorem delReal_spec (henv : ArrayOk env) (h : Consistent [] lb d) :
    wp (delReal env spec a)
      (fun d₁ wr => ∃ v, lb.vips[spec]? = some v ∧
        VipWrite env lb d spec v.flags ((weightsOf v).erase a) d₁ wr)
      (fun _ d' lb' => ∃ v v', lb.vips[spec]? = some v ∧ a ∈ v.members ∧
        VipStep env false lb d spec v.flags ((weightsOf v).erase a) v' d' lb')
      (fun _ d' lb' => Failed lb d d' lb') d lb := by
  rw [delReal, wp_bind]
  refine wp_vipOrThrow (fun _ => .refl h) fun v hv => ?_
  rw [wp_bind]
  refine wp_memberOrThrow (fun _ => .refl h) fun m hm => ?_
  have ha : a ∈ v.members := OrdMap.mem_iff.mpr ⟨m, hm⟩
  have hleaving := leaving_erase hv ha
  have hid := idFor_of_vip hv
  simp only [removeMemberLocked, vipAt, putVip, wp_bind, wp_get, hv, wp_pure, wp_modify]
  have hc₀ := h.eraseMember hv a
  have hg : Grown env (lb.leaving spec ((weightsOf v).erase a)) { lb with
      vips := lb.vips.insert spec { v with members := v.members.erase a } } d spec
      { v with members := v.members.erase a } [] _ d _ := Grown.refl hc₀ (by simp)
  obtain ⟨hs₁, hj₁⟩ := hg.shaped lb.adoptedVipIds hid rfl (h.key spec v hv) rfl
    (by simp [OrdMap.mem_iff.mpr ⟨v, hv⟩]) (getElem?_eraseMember hv a) (by simp)
    (fun b w hw _ => by
      rw [OrdMap.getElem?_erase] at hw
      split_ifs at hw
      rw [getElem?_weightsOf] at hw
      rw [membersAt_eq hv]
      exact Option.map_eq_some_iff.mp hw)
  refine wp_mono (hs₁.rebuild hg.consistent fun slots hok =>
    ⟨v, rfl, .ring _ _ slots hs₁ hj₁ hok⟩)
    (fun _ _ hw => hw) ?_ ?_
  swap
  · rintro err d₂ lb₂ ⟨hc₂, hb₂, hinit, hadopted, -⟩
    refine ⟨hc₂.weaken, fun hb => hb₂ ?_, hinit, hadopted⟩
    exact hb.edit h hv { v with members := v.members.erase a } rfl
      (fun b hb => ExtTreeMap.mem_of_mem_erase hb) rfl rfl hg.consistent rfl
  rintro _ _ lb₂ ⟨v₂, slots, hs₂, hc₂, hreals, -, hslots, rfl⟩
  have hrel := hs₂.release false henv h hv (hreals ▸ hj₁) hc₂
    ⟨by simp [entriesAfter, hv], fun _ => ⟨slots, hslots, rfl⟩,
      fun hno => by simp [touched, hv, hleaving] at hno, rfl⟩
  rw [hleaving] at hrel
  simp only [Prog.each, wp_bind, wp_pure] at hrel
  refine wp_mono hrel (fun _ _ hw => ⟨v, rfl, hw⟩) ?_ (fun _ _ _ hf => hf.toFailed)
  exact fun _ d' lb' hstep => ⟨v, v₂, rfl, ha, hstep⟩

end Members

end LbState

end PacketBalance
