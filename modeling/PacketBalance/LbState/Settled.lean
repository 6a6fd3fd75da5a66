import PacketBalance.LbState.Apply
/-!
# What holds while nothing fails

As long as no operation throws, the model and the maps stay in step: every VIP has
its entry, every ring names members of its VIP only, and references are counted
exactly (`Synced`).  A daemon that has finished its first `apply` owns everything in
the maps besides (`Settled`).  Every write of `apply` is then one that keeps
`PinnedOk`.
-/

namespace PacketBalance

open WriteLog Std

theorem Config.Ok.split {cfg : Config} (hok : cfg.Ok) {done rest : List VipConfig}
    {vc : VipConfig} (hvips : cfg.vips = done ++ vc :: rest) :
    (∀ u ∈ done, u.spec ≠ vc.spec) ∧ (∀ u ∈ rest, u.spec ≠ vc.spec) ∧
      ∀ u ∈ rest, u.spec ∉ done.map VipConfig.spec := by
  have hnodup := hok.specs_nodup
  rw [Config.specs, hvips, List.map_append, List.map_cons, List.nodup_append,
    List.nodup_cons] at hnodup
  refine ⟨fun u hu => hnodup.2.2 _ (List.mem_map_of_mem hu) _ (by simp), fun u hu heq => ?_,
    fun u hu hin => ?_⟩
  · exact hnodup.2.1.1 (heq ▸ List.mem_map_of_mem hu)
  · exact hnodup.2.2 _ hin _ (List.mem_cons_of_mem _ (List.mem_map_of_mem hu)) rfl

namespace LbState

variable {lb lb' : LbState} {d d' : CtlMaps} {env : Env} {spec : VipSpec}

structure Synced (lb : LbState) (d : CtlMaps) : Prop where
  consistent : Consistent [] lb d
  refs_eq : ∀ a, lb.reals.refsOf a = (holders lb.vips a).card
  entry_of_vip : ∀ (s : VipSpec) (v : Vip), lb.vips[s]? = some v →
    d.vipMap[s]? = some ⟨v.id, v.flags⟩
  covered : ∀ (s : VipSpec) (v : Vip) (r : InstalledRing), lb.vips[s]? = some v →
    d.rings v.id = some r → ∀ b ∈ r.backends, b.addr ∈ v.members

/-- The model owns everything that is in the maps. -/
structure Settled (lb : LbState) (d : CtlMaps) : Prop extends Synced lb d where
  owned : ∀ s ∈ d.vipMap, s ∈ lb.vips
  counted : ∀ a e, lb.reals.entry a = some e → 0 < e.refs

theorem Synced.refs_of_entry (h : Synced lb d) {a : UInt32} {e : RealTable.Entry}
    (he : lb.reals.entry a = some e) : e.refs = (holders lb.vips a).card := by
  rw [← h.refs_eq, RealTable.refsOf, he]
  rfl

theorem Synced.refs_cover (h : Synced lb d) : Covered lb d := by
  intro a
  rw [h.refs_eq]
  refine Finset.card_le_card fun s hs => ?_
  obtain ⟨v, hv, ha⟩ := mem_users.mp hs
  refine mem_holders.mpr ⟨v, hv, ?_⟩
  rcases ha with ha | ⟨r, hr, b, hb, -, rfl⟩
  · exact ha
  · exact h.covered s v r hv hr b hb

def Owns (lb : LbState) (d : CtlMaps) : Prop :=
  ∀ (s : VipSpec) (val : VipValue), d.vipMap[s]? = some val →
    ∃ u : Vip, lb.vips[s]? = some u ∧ u.id = val.vipId

theorem Settled.owns (h : Settled lb d) : Owns lb d := by
  intro s val hval
  obtain ⟨u, hu⟩ := OrdMap.mem_iff.mp (h.owned s (OrdMap.mem_iff.mpr ⟨val, hval⟩))
  rw [h.entry_of_vip s u hu] at hval
  exact ⟨u, hu, by rw [← Option.some.inj hval]⟩

theorem Consistent.owns {pend : List UInt32} (h : Consistent pend lb d)
    (hadopted : lb.adoptedVipIds = ∅) : Owns lb d := by
  intro s val hval
  rcases h.entry_named s val hval with hv | hpin
  · exact hv
  · simp [hadopted] at hpin

/-! ## Deleting a VIP -/

section Delete

variable {v : Vip}

theorem Deleted.vips (h : Deleted lb d spec v lb' d') : lb'.vips = lb.vips.erase spec := by
  obtain ⟨t, rfl⟩ := h.state
  rfl

theorem Deleted.leak (h : Deleted lb d spec v lb' d') (hc : Consistent [] lb d)
    (hv : lb.vips[spec]? = some v) (a : UInt32) :
    lb'.reals.refsOf a + (holders lb.vips a).card =
      lb.reals.refsOf a + (holders lb'.vips a).card := by
  have hheld := hc.held a
  have hentry : ∀ a, lb'.reals.entry a = if a ∈ v.members.keys
      then (lb.reals.entry a).bind RealTable.Entry.drop else lb.reals.entry a := by
    simpa only [ExtTreeMap.mem_keys] using h.entry
  rw [refsOf_release hentry, h.vips, holders_erase]
  simp only [owed, List.count_nil, Nat.add_zero, ExtTreeMap.mem_keys] at hheld ⊢
  by_cases ha : a ∈ v.members
  · have hmem : spec ∈ holders lb.vips a := mem_holders.mpr ⟨v, hv, ha⟩
    have hpos := Finset.card_pos.mpr ⟨spec, hmem⟩
    rw [if_pos ha, Finset.card_erase_of_mem hmem]
    omega
  · have hnot : spec ∉ holders lb.vips a := by
      rw [mem_holders]
      rintro ⟨v', hv', ha'⟩
      rw [hv] at hv'
      exact ha (Option.some.inj hv' ▸ ha')
    rw [if_neg ha, Finset.erase_eq_of_notMem hnot]

theorem Deleted.synced (h : Deleted lb d spec v lb' d') (hs : Synced lb d)
    (hv : lb.vips[spec]? = some v) : Synced lb' d' := by
  have hold : ∀ {s : VipSpec} {u : Vip}, lb'.vips[s]? = some u →
      s ≠ spec ∧ lb.vips[s]? = some u := by
    intro s u hu
    rw [h.vips, OrdMap.getElem?_erase] at hu
    split_ifs at hu with hne
    exact ⟨hne, hu⟩
  refine ⟨h.consistent, fun a => ?_, fun s u hu => ?_, fun s u r hu hr => ?_⟩
  · have := h.leak hs.consistent hv a
    have := hs.refs_eq a
    omega
  · obtain ⟨hne, hu⟩ := hold hu
    rw [h.maps.vipMap, withoutVip_vipMap, OrdMap.getElem?_erase, if_neg hne]
    exact hs.entry_of_vip s u hu
  · obtain ⟨hne, hu⟩ := hold hu
    rw [h.maps.rings, withoutVip_rings,
      Function.update_of_ne (hs.consistent.id_ne hu hv hne)] at hr
    exact hs.covered s u r hu hr

theorem Deleted.refs_pos (h : Deleted lb d spec v lb' d')
    (hpos : ∀ a e, lb.reals.entry a = some e → 0 < e.refs) {a : UInt32} {e : RealTable.Entry}
    (he : lb'.reals.entry a = some e) : 0 < e.refs := by
  rw [h.entry] at he
  split_ifs at he with ha
  · obtain ⟨e₀, -, hdrop⟩ := Option.bind_eq_some_iff.mp he
    exact RealTable.Entry.drop_refs_pos hdrop
  · exact hpos a e he

theorem Deleted.settled (h : Deleted lb d spec v lb' d') (hs : Settled lb d)
    (hv : lb.vips[spec]? = some v) : Settled lb' d' := by
  refine ⟨h.synced hs.toSynced hv, fun s hmem => ?_, fun a e he => ?_⟩
  · obtain ⟨val, hval⟩ := OrdMap.mem_iff.mp hmem
    rw [h.maps.vipMap, withoutVip_vipMap, OrdMap.getElem?_erase] at hval
    split_ifs at hval with hne
    obtain ⟨u, hu⟩ := OrdMap.mem_iff.mp (hs.owned s (OrdMap.mem_iff.mpr ⟨val, hval⟩))
    exact OrdMap.mem_iff.mpr ⟨u, by rw [h.vips, OrdMap.getElem?_erase, if_neg hne, hu]⟩
  · exact h.refs_pos hs.counted he

theorem DeleteWrite.pinned {d₁ : CtlMaps} {w : MapWrite} (hw : DeleteWrite lb d spec v d₁ w)
    (hc : Consistent [] lb d) (hcov : Covered lb d) (howns : Owns lb d)
    (hv : lb.vips[spec]? = some v) {ids : Set Nat} (h : PinnedOn ids d₁) :
    PinnedOn (w.relied ids) (Durable.write d₁ w) := by
  cases hw with
  | entry _ => exact h.vipDelete spec
  | ring hd =>
      subst hd
      refine h.ringRemove fun s val hval heq => ?_
      simp only [OrdMap.getElem?_erase] at hval
      split_ifs at hval with hne
      exact hne (hc.named_inj s spec v.id (heq ▸ hc.entry_named s val hval) (.inl ⟨v, hv, rfl⟩))
  | free a e hd ha he hrefs haddr =>
      -- another VIP whose ring still uses the address has a reference of its own
      refine h.freeAddr haddr fun s val r b hval _ hr hb hpos _ hba => ?_
      rw [hd.vipMap, withoutVip_vipMap, OrdMap.getElem?_erase] at hval
      split_ifs at hval with hne
      obtain ⟨u, hu, hid⟩ := howns s val hval
      rw [← hid, hd.rings, withoutVip_rings, Function.update_of_ne (hc.id_ne hu hv hne)] at hr
      have := hcov.one_lt_refs hne (.of_ring hu hr ⟨b, hb, hpos, hba⟩) (.of_member hv ha) he
      omega
  | blank a e _ _ _ hfree => exact h.slotWrite (.blankMac e.id _ hfree)

end Delete

/-! ## Giving a VIP its members -/

section Step

variable {flags : UInt32} {want : ExtTreeMap UInt32 Nat} {v' : Vip} {hashChanged : Bool}

theorem VipStep.holders_eq (h : VipStep env hashChanged lb d spec flags want v' d' lb')
    (a : UInt32) : holders lb'.vips a =
      if a ∈ want then insert spec (holders lb.vips a) else (holders lb.vips a).erase spec := by
  obtain ⟨t, n, ids, rfl⟩ := h.state
  simp only [holders_insert, h.mem_members]

theorem mem_holders_membersAt {a : UInt32} :
    spec ∈ holders lb.vips a ↔ a ∈ lb.membersAt spec := by
  rw [mem_holders, membersAt]
  cases lb.vips[spec]? <;> simp

theorem VipStep.leak (h : VipStep env hashChanged lb d spec flags want v' d' lb')
    (hc : Consistent [] lb d) (a : UInt32) :
    lb'.reals.refsOf a + (holders lb.vips a).card =
      lb.reals.refsOf a + (holders lb'.vips a).card := by
  rw [h.holders_eq]
  have hmem : spec ∈ holders lb.vips a ↔ a ∈ lb.membersAt spec := mem_holders_membersAt
  by_cases hw : a ∈ want <;> by_cases ha : a ∈ lb.membersAt spec
  · rw [if_pos hw, Finset.insert_eq_of_mem (hmem.mpr ha), RealTable.refsOf, RealTable.refsOf,
      h.entry_same a (iff_of_true hw ha)]
  · obtain ⟨e, he, hjoin⟩ := h.entry_new a hw ha
    rw [if_pos hw, Finset.card_insert_of_notMem fun hin => ha (hmem.mp hin),
      RealTable.refsOf, he, RealTable.refsOf]
    simp only [Option.elim_some, hjoin.refs]
    omega
  · have hheld := hc.held a
    have hpos := Finset.card_pos.mpr ⟨spec, hmem.mpr ha⟩
    simp only [owed, List.count_nil, Nat.add_zero, RealTable.refsOf] at hheld
    rw [if_neg hw, Finset.card_erase_of_mem (hmem.mpr ha), RealTable.refsOf, RealTable.refsOf,
      h.entry_gone a ha hw, refs_drop]
    omega
  · rw [if_neg hw, Finset.erase_eq_of_notMem fun hin => ha (hmem.mp hin), RealTable.refsOf,
      RealTable.refsOf, h.entry_same a (iff_of_false hw ha)]

theorem VipStep.ring_else (h : VipStep env hashChanged lb d spec flags want v' d' lb')
    {s : VipSpec} {u : Vip} (hne : s ≠ spec) (hu : lb'.vips[s]? = some u) :
    d'.rings u.id = d.rings u.id :=
  h.ring_of_ne (h.consistent.id_ne hu h.vip hne)

theorem VipStep.vipMap_else (h : VipStep env hashChanged lb d spec flags want v' d' lb')
    {s : VipSpec} (hne : s ≠ spec) : d'.vipMap[s]? = d.vipMap[s]? := by
  rw [h.vipMap, entriesAfter]
  split_ifs
  · rfl
  · rw [OrdMap.getElem?_insert, if_neg hne]

theorem VipStep.synced (h : VipStep env hashChanged lb d spec flags want v' d' lb')
    (hs : Synced lb d) : Synced lb' d' := by
  have hvip : ∀ {s : VipSpec} {u : Vip}, lb'.vips[s]? = some u →
      (s = spec ∧ u = v') ∨ (s ≠ spec ∧ lb.vips[s]? = some u) := by
    intro s u hu
    by_cases hne : s = spec
    · subst hne
      exact .inl ⟨rfl, Option.some.inj (hu.symm.trans h.vip)⟩
    · exact .inr ⟨hne, (h.vip_else hne).symm.trans hu⟩
  refine ⟨h.consistent, fun a => ?_, fun s u hu => ?_, fun s u r hu hr => ?_⟩
  · have := h.leak hs.consistent a
    have := hs.refs_eq a
    omega
  · rcases hvip hu with ⟨rfl, rfl⟩ | ⟨hne, hold⟩
    · rw [h.vipMap, entriesAfter]
      split_ifs with hflags
      · obtain ⟨v, hv, hvf⟩ := Option.map_eq_some_iff.mp hflags
        rw [hs.entry_of_vip _ v hv, h.id_of_vip hv, hvf, h.flags_eq]
      · rw [OrdMap.getElem?_insert, if_pos rfl, h.flags_eq]
    · rw [h.vipMap_else hne]
      exact hs.entry_of_vip s u hold
  · rcases hvip hu with ⟨rfl, rfl⟩ | ⟨hne, hold⟩
    · cases htouched : lb.touched hashChanged s want with
      | true =>
          obtain ⟨slots, -, hrings⟩ := h.ring htouched
          rw [hrings, Function.update_self] at hr
          rw [← Option.some.inj hr]
          intro b hb
          obtain ⟨a, m, hm, rfl⟩ := mem_backendsOf.mp hb
          exact OrdMap.mem_iff.mpr ⟨m, hm⟩
      | false =>
          rw [h.ring_same htouched] at hr
          obtain ⟨v, hv, hstay, -⟩ := exists_of_untouched htouched
          intro b hb
          have hmem := hs.covered s v r hv (h.id_of_vip hv ▸ hr) b hb
          -- nobody has left an untouched VIP
          rw [h.mem_members]
          by_contra hgone
          have hl : b.addr ∈ lb.leaving s want :=
            mem_leaving.mpr ⟨membersAt_eq hv ▸ hmem, hgone⟩
          rw [hstay] at hl
          cases hl
    · rw [h.ring_else hne hu] at hr
      exact hs.covered s u r hold hr

theorem VipStep.refs_pos (h : VipStep env hashChanged lb d spec flags want v' d' lb')
    (hpos : ∀ a e, lb.reals.entry a = some e → 0 < e.refs) {a : UInt32} {e : RealTable.Entry}
    (he : lb'.reals.entry a = some e) : 0 < e.refs := by
  by_cases hw : a ∈ want <;> by_cases ha : a ∈ lb.membersAt spec
  · exact hpos a e (h.entry_same a (iff_of_true hw ha) ▸ he)
  · obtain ⟨e', he', hjoin⟩ := h.entry_new a hw ha
    rw [Option.some.inj (he.symm.trans he'), hjoin.refs]
    omega
  · rw [h.entry_gone a ha hw] at he
    obtain ⟨e₀, -, hdrop⟩ := Option.bind_eq_some_iff.mp he
    exact RealTable.Entry.drop_refs_pos hdrop
  · exact hpos a e (h.entry_same a (iff_of_false hw ha) ▸ he)

theorem VipStep.settled (h : VipStep env hashChanged lb d spec flags want v' d' lb')
    (hs : Settled lb d) : Settled lb' d' := by
  refine ⟨h.synced hs.toSynced, fun s hmem => ?_, fun a e he => ?_⟩
  · by_cases hne : s = spec
    · subst hne
      exact OrdMap.mem_iff.mpr ⟨v', h.vip⟩
    · have hold : s ∈ d.vipMap := by
        rwa [OrdMap.mem_iff, h.vipMap_else hne, ← OrdMap.mem_iff] at hmem
      rw [OrdMap.mem_iff, h.vip_else hne, ← OrdMap.mem_iff]
      exact hs.owned s hold
  · exact h.refs_pos hs.counted he

/-- Freeing a slot needs that the model owns every entry; a new VIP frees none. -/
theorem VipWrite.pinned {d₁ : CtlMaps} {w : MapWrite}
    (hw : VipWrite env lb d spec flags want d₁ w) (hc : Consistent [] lb d) (hcov : Covered lb d)
    (howns : spec ∈ lb.vips → Owns lb d) {ids : Set Nat}
    (hown : ∀ v : Vip, lb.vips[spec]? = some v → d₁ = d → v.id ∈ ids →
      ∃ r, d.rings v.id = some r ∧ RingOk d r)
    (h : PinnedOn ids d₁) : PinnedOn (w.relied ids) (Durable.write d₁ w) := by
  cases hw with
  | reset id _ _ => exact h
  | slot _ a _ _ _ hslot => exact h.slotWrite hslot
  | ring v₁ lb₁ slots _ _ hok => exact h.ringSwap hok _
  | entry id r _ _ hlt hother hring hok =>
      exact h.vipUpdate hlt (fun _ => ⟨r, hring, hok⟩) hother
  | flags v hv _ hd =>
      subst hd
      have hnamed : lb.Named spec v.id := .inl ⟨v, hv, rfl⟩
      refine h.vipUpdate (hc.named_lt spec v.id hnamed) (hown v hv rfl) fun s val hne hval heq => ?_
      have hs := hc.entry_named s val hval
      rw [heq] at hs
      exact hne (hc.named_inj s spec v.id hs hnamed)
  | free v a e r hv ha hgone he hrefs haddr hmap hentry hring hids =>
      refine h.freeAddr haddr fun s val r' b hval _ hr hb hpos hid hba => ?_
      by_cases hne : s = spec
      · subst hne
        rw [hentry val hval, hring, Function.update_self] at hr
        exact hids b (Option.some.inj hr ▸ hb) hid
      · rw [hmap s hne] at hval
        obtain ⟨u, hu, huid⟩ := howns (OrdMap.mem_iff.mpr ⟨v, hv⟩) s val hval
        rw [← huid, hring, Function.update_of_ne (hc.id_ne hu hv hne)] at hr
        have := hcov.one_lt_refs hne (.of_ring hu hr ⟨b, hb, hpos, hba⟩) (.of_member hv ha) he
        omega
  | blank v a e _ _ _ _ _ hfree => exact h.slotWrite (.blankMac e.id _ hfree)

theorem Synced.own_ring (h : Synced lb d) {ids : Set Nat} {d₁ : CtlMaps} (hp : PinnedOn ids d₁)
    (v : Vip) (hv : lb.vips[spec]? = some v) (hd : d₁ = d) (hid : v.id ∈ ids) :
    ∃ r, d.rings v.id = some r ∧ RingOk d r :=
  (hd ▸ hp).ring spec ⟨v.id, v.flags⟩ (h.entry_of_vip spec v hv) hid

end Step

/-! ## The end of the first apply -/

theorem Finished.settled (h : Finished lb d d' lb') (hs : Synced lb d) : Settled lb' d' := by
  obtain ⟨t, hstate⟩ := h.state
  have hvips : lb'.vips = lb.vips := by rw [hstate]
  refine ⟨⟨h.consistent, fun a => ?_, fun s v hv => ?_, fun s v r hv hr => ?_⟩,
    fun s hmem => ?_, fun a e he => ?_⟩
  · rw [hvips, ← hs.refs_eq, RealTable.refsOf, RealTable.refsOf, h.entry]
    cases lb.reals.entry a with
    | none => rfl
    | some e =>
        by_cases hrefs : 0 < e.refs
        · simp [Option.filter, hrefs]
        · simp only [Option.filter, hrefs, decide_false, Bool.false_eq_true, if_false,
            Option.elim_none, Option.elim_some]
          omega
  · rw [hvips] at hv
    rw [h.vipMap, if_pos (OrdMap.mem_iff.mpr ⟨v, hv⟩)]
    exact hs.entry_of_vip s v hv
  · rw [hvips] at hv
    rw [h.rings s v hv] at hr
    exact hs.covered s v r hv hr
  · obtain ⟨val, hval⟩ := OrdMap.mem_iff.mp hmem
    rw [h.vipMap] at hval
    split_ifs at hval with hvip
    exact hvips ▸ hvip
  · rw [h.entry] at he
    exact of_decide_eq_true (Option.filter_eq_some_iff.mp he).2

theorem FinishWrite.pinned {d₁ : CtlMaps} {w : MapWrite} (hw : FinishWrite lb d d₁ w)
    (hs : Synced lb d) {ids : Set Nat} (h : PinnedOn ids d₁) :
    PinnedOn (w.relied ids) (Durable.write d₁ w) := by
  cases hw with
  | entry s _ _ => exact h.vipDelete s
  | ring s id _ _ hother => exact h.ringRemove hother
  | free a e he hrefs haddr hmap hrings =>
      refine h.freeAddr haddr fun s val r b hval _ hr hb _ _ hba => ?_
      rw [hmap] at hval
      split_ifs at hval with hvip
      obtain ⟨u, hu⟩ := OrdMap.mem_iff.mp hvip
      have hid : val.vipId = u.id := by
        rw [hs.entry_of_vip s u hu] at hval
        rw [← Option.some.inj hval]
      rw [hid, hrings s u hu] at hr
      have hau : a ∈ u.members := hba ▸ hs.covered s u r hu hr b hb
      have hpos := Finset.card_pos.mpr ⟨s, mem_holders.mpr ⟨u, hu, hau⟩⟩
      rw [← hs.refs_of_entry he] at hpos
      omega
  | blank a e _ _ hfree => exact h.slotWrite (.blankMac e.id _ hfree)

/-! ## A whole apply -/

section Apply

variable {cfg : Config} {z : CtlMaps × LbState} {d₀ : CtlMaps} {lb₀ : LbState}

/-- The states in which a daemon applies a configuration when nothing has failed. -/
inductive Usable (lb : LbState) (d : CtlMaps) : Prop
  | running (h : Settled lb d)
  | restarted (interface : String) (hlb : lb = { interface }) (h : PinnedOn ∅ d)

theorem Usable.startable (h : Usable lb d) : Startable lb d := by
  cases h with
  | running h => exact .running h.consistent
  | restarted interface hlb h => exact .restarted interface hlb h

/-- A daemon that maintains the maps itself learns nothing from adopting them. -/
theorem Start.entry_eq (h : Start env cfg lb d d₀ lb₀) (hc : Consistent [] lb d) :
    lb₀.reals.entry = lb.reals.entry := by
  cases hinit : lb.initialized with
  | true => rw [(h.running hinit).1]
  | false =>
      obtain ⟨mac, -, hd⟩ := h.maps
      exact hc.table.entry_adopted (h.consistent.table.congr (by rw [hd]) (by rw [hd]))
        (h.slots hinit)

theorem Start.settled (h : Start env cfg lb d d₀ lb₀) (hs : Settled lb d) :
    Settled lb₀ d₀ := by
  have hentry := h.entry_eq hs.consistent
  obtain ⟨mac, -, hd⟩ := h.maps
  refine ⟨⟨h.consistent, fun a => ?_, ?_, ?_⟩, ?_, ?_⟩
  · rw [h.vips, ← hs.refs_eq, RealTable.refsOf, RealTable.refsOf, hentry]
  · rw [h.vips, hd]
    exact hs.entry_of_vip
  · rw [h.vips, hd]
    exact hs.covered
  · rw [h.vips, hd]
    exact hs.owned
  · rw [hentry]
    exact hs.counted

theorem Start.restarted {interface : String} (h : Start env cfg { interface } d d₀ lb₀) :
    Synced lb₀ d₀ := by
  have hnone : ∀ s : VipSpec, lb₀.vips[s]? = none := by
    intro s
    rw [h.vips]
    simp
  obtain ⟨mac, -, hd⟩ := h.maps
  refine ⟨h.consistent, fun a => ?_, fun s v hv => ?_, fun s v r hv => ?_⟩
  · have hholders : holders lb₀.vips a = ∅ := by
      rw [h.vips]
      simp [holders]
    rw [hholders, Finset.card_empty, RealTable.refsOf]
    cases he : lb₀.reals.entry a with
    | none => rfl
    | some e =>
        have hslots := h.slots rfl
        exact ((RealTable.entry_adopted_new (h.consistent.table.congr (by rw [hd]) (by rw [hd]))
          hslots).mp he).2.2.1
  · rw [hnone] at hv
    cases hv
  · rw [hnone] at hv
    cases hv

theorem keys_new (interface : String) : (LbState.vips { interface }).keys = [] := rfl

theorem Path.drop_settled {done : List VipSpec} (hs : Settled lb₀ d₀)
    (hpath : Path (DropR cfg) done (d₀, lb₀) z) : Settled z.2 z.1 := by
  refine hpath.invariant (I := fun _ z => Settled z.2 z.1) hs ?_
  rintro done spec rest - z z' hz hstep
  rw [DropR] at hstep
  split_ifs at hstep with hspec
  · exact hstep ▸ hz
  · obtain ⟨v, hv, hdel⟩ := hstep
    exact hdel.settled hz hv

theorem Along.settled {done : List VipConfig} (h : Along env cfg lb d done z)
    (hs : Settled lb d) : Settled z.2 z.1 := by
  obtain ⟨z₁, ⟨d₀, lb₀, hstart, hdrop⟩, hpath⟩ := h
  refine hpath.invariant (I := fun _ z => Settled z.2 z.1)
    (Path.drop_settled (hstart.settled hs) hdrop) ?_
  rintro done vc rest - z z' hz ⟨v', hstep⟩
  exact hstep.settled hz

/-- After a restart the model holds only what has been configured so far. -/
theorem Along.restarted {interface : String} {done : List VipConfig}
    (h : Along env cfg { interface } d done z) :
    Synced z.2 z.1 ∧ ∀ s ∈ z.2.vips, s ∈ done.map VipConfig.spec := by
  obtain ⟨z₁, ⟨d₀, lb₀, hstart, hdrop⟩, hpath⟩ := h
  rw [keys_new] at hdrop
  obtain rfl : z₁ = (d₀, lb₀) := hdrop
  refine hpath.invariant (I := fun done z => Synced z.2 z.1 ∧
    ∀ s ∈ z.2.vips, s ∈ done.map VipConfig.spec) ⟨hstart.restarted, ?_⟩ ?_
  · intro s hs
    simp only [hstart.vips] at hs
    simp at hs
  · rintro done vc rest - z z' ⟨hz, hvips⟩ ⟨v', hstep⟩
    refine ⟨hstep.synced hz, fun s hs => ?_⟩
    rw [List.map_append, List.mem_append]
    by_cases hne : s = vc.spec
    · exact .inr (by simp [hne])
    · rw [OrdMap.mem_iff, hstep.vip_else hne, ← OrdMap.mem_iff] at hs
      exact .inl (hvips s hs)

theorem Along.new_vip {interface : String} {done rest : List VipConfig} {vc : VipConfig}
    (h : Along env cfg { interface } d done z) (hok : cfg.Ok)
    (hvips : cfg.vips = done ++ vc :: rest) : vc.spec ∉ z.2.vips := by
  intro hin
  obtain ⟨u, hu, heq⟩ := List.mem_map.mp (h.restarted.2 _ hin)
  exact (hok.split hvips).1 u hu heq

theorem Along.synced (hu : Usable lb d) {done : List VipConfig}
    (h : Along env cfg lb d done z) : Synced z.2 z.1 := by
  cases hu with
  | running hs => exact (h.settled hs).toSynced
  | restarted interface hlb _ =>
      subst hlb
      exact h.restarted.1

/-- Every write of `apply` is made where it does no harm. -/
theorem ApplyWrite.pinned {d₁ : CtlMaps} {w : MapWrite} (hw : ApplyWrite env cfg lb d d₁ w)
    (hok : cfg.Ok) (hu : Usable lb d) {ids : Set Nat} (h : PinnedOn ids d₁) :
    PinnedOn (w.relied ids) (Durable.write d₁ w) := by
  cases hw with
  | config mac _ => exact h.configWrite _
  | drop done s rest v d₀ lb₀ z _ hkeys hstart hpath hspec hv hw =>
      cases hu with
      | running hs =>
          have hz := Path.drop_settled (hstart.settled hs) hpath
          exact hw.pinned hz.consistent hz.refs_cover hz.owns hv h
      | restarted interface hlb _ =>
          subst hlb
          rw [keys_new] at hkeys
          cases done <;> cases hkeys
  | vip done vc rest z _ hvips halong hw =>
      have hz := halong.synced hu
      refine hw.pinned hz.consistent hz.refs_cover (fun hmem => ?_) (hz.own_ring h) h
      cases hu with
      | running hs => exact (halong.settled hs).owns
      | restarted interface hlb _ =>
          subst hlb
          exact absurd hmem (halong.new_vip hok hvips)
  | finish z _ _ halong hw => exact hw.pinned (halong.synced hu) h

/-- From a state that exceptions have left, a write of `apply` harms no ring there is. -/
theorem ApplyWrite.pinned_running {d₁ : CtlMaps} {w : MapWrite}
    (hw : ApplyWrite env cfg lb d d₁ w) (hinit : lb.initialized)
    (hadopted : lb.adoptedVipIds = ∅) (hb : Backed lb d) (h : PinnedOn d₁.ringIds d₁) :
    PinnedOn (w.relied d₁.ringIds) (Durable.write d₁ w) := by
  cases hw with
  | config mac _ => exact h.configWrite _
  | drop done s rest v d₀ lb₀ z _ hkeys hstart hpath hspec hv hw =>
      obtain ⟨hc, ⟨t, vips, hstate⟩, -⟩ := Path.drop_facts hstart.consistent hpath
      have hz := Path.drop_backed hstart.consistent (hstart.backed hinit hb) hpath
      refine hw.pinned hc hz.covered (hc.owns ?_) hv h
      rw [hstate]
      exact (hstart.running hinit).2.trans hadopted
  | vip done vc rest z _ hvips halong hw =>
      have hz := halong.backed hinit hb
      have howns := halong.facts.1.owns (halong.adopted_empty hinit hadopted)
      refine hw.pinned halong.facts.1 hz.covered (fun _ => howns) (fun v hv hd hid => ?_) h
      obtain ⟨r, hr⟩ := Option.isSome_iff_exists.mp (hd ▸ hid)
      exact ⟨r, hr, hz.ring vc.spec v r hv hr⟩
  | finish z _ hfirst _ _ => simp [hfirst] at hinit

theorem Applied.settled (h : Applied env cfg lb d d' lb') (hu : Usable lb d) :
    Settled lb' d' := by
  obtain ⟨z, halong, hend⟩ := h
  split_ifs at hend with hinit
  · subst hend
    cases hu with
    | running hs => exact halong.settled hs
    | restarted interface hlb _ => simp [hlb] at hinit
  · exact hend.settled (halong.synced hu)

theorem Along.ring_named {interface : String} {done : List VipConfig}
    (h : Along env cfg { interface } d done z)
    (hd : ∀ id r, d.rings id = some r → ∃ (s : VipSpec) (val : VipValue),
      d.vipMap[s]? = some val ∧ val.vipId = id) (id : Nat) (r : InstalledRing)
    (hr : z.1.rings id = some r) : ∃ s, z.2.Named s id := by
  obtain ⟨z₁, ⟨d₀, lb₀, hstart, hdrop⟩, hpath⟩ := h
  rw [keys_new] at hdrop
  obtain rfl : z₁ = (d₀, lb₀) := hdrop
  refine (hpath.invariant (I := fun _ z => Consistent [] z.2 z.1 ∧
    ∀ id r, z.1.rings id = some r → ∃ s, z.2.Named s id) ⟨hstart.consistent, ?_⟩ ?_).2 id r hr
  · intro id r hr
    obtain ⟨mac, -, rfl⟩ := hstart.maps
    obtain ⟨s, val, hval, rfl⟩ := hd id r hr
    exact ⟨s, .inr (by rw [hstart.pinned rfl, hval]; rfl)⟩
  · rintro done vc rest - z z' ⟨hc, hz⟩ ⟨v', hstep⟩
    refine ⟨hstep.consistent, fun id r hr => ?_⟩
    by_cases hid : id = v'.id
    · exact ⟨vc.spec, .inl ⟨v', hstep.vip, hid.symm⟩⟩
    · obtain ⟨s, hs⟩ := hz id r (hstep.ring_of_ne hid ▸ hr)
      exact ⟨s, hstep.named hc hs⟩

/-- The first `apply` leaves no ring without a VIP and none without its references. -/
theorem Applied.backed_first {interface : String} (h : Applied env cfg { interface } d d' lb')
    (hpinned : PinnedOn ∅ d)
    (hd : ∀ id r, d.rings id = some r → ∃ (s : VipSpec) (val : VipValue),
      d.vipMap[s]? = some val ∧ val.vipId = id)
    (hpinned' : PinnedOn d'.ringIds d') : Backed lb' d' := by
  have hs := h.settled (.restarted interface rfl hpinned)
  obtain ⟨z, halong, hend⟩ := h
  rw [if_neg (by simp)] at hend
  refine ⟨fun s v r hv hr => ?_, hs.refs_cover, fun id r hr => ?_⟩
  · obtain ⟨r', hr', hok⟩ := hpinned'.ring s _ (hs.entry_of_vip s v hv)
      (Option.isSome_iff_exists.mpr ⟨r, hr⟩)
    exact Option.some.inj (hr'.symm.trans hr) ▸ hok
  · obtain ⟨hr', hother⟩ := hend.ring_of id r hr
    obtain ⟨t, hstate⟩ := hend.state
    obtain ⟨s, hs⟩ := halong.ring_named hd id r hr'
    have hvips : lb'.vips = z.2.vips := by rw [hstate]
    rw [hvips]
    rcases hs with ⟨v, hv, hid⟩ | hpin
    · exact ⟨s, v, hv, hid⟩
    · have hin : s ∈ z.2.vips := by
        by_contra hnot
        exact hother s hnot hpin
      obtain ⟨v, hv⟩ := OrdMap.mem_iff.mp hin
      exact ⟨s, v, hv, halong.facts.1.named_fun s _ _ (.inl ⟨v, hv, rfl⟩) (.inr hpin)⟩

end Apply

end LbState

end PacketBalance
