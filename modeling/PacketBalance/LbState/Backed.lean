import PacketBalance.LbState.Delete
/-!
# Rings that references back

An exception can leave a VIP with a ring that names reals which are no members of it any
more.  Their references are then still there, so the slots keep their addresses.  `Backed`
says so: a VIP needs its members and whatever its installed ring gives slots to, and every
address has a reference for each VIP that needs it.
-/

namespace PacketBalance

open WriteLog Std

def InstalledRing.Serves (r : InstalledRing) (a : UInt32) : Prop :=
  ∃ b ∈ r.backends, 0 < b.weight ∧ b.addr = a

def RealTable.Stays (t t' : RealTable) (a : UInt32) : Prop :=
  ∀ e, t.entry a = some e → ∃ e', t'.entry a = some e' ∧ e'.id = e.id ∧
    (e.mac.isSome → e'.mac.isSome)

theorem RealTable.Stays.of_eq {t t' : RealTable} {a : UInt32} (h : t'.entry a = t.entry a) :
    t.Stays t' a := fun e he => ⟨e, h.trans he, rfl, id⟩

theorem RealTable.Stays.of_joined {t t' : RealTable} {a : UInt32} {answer : Option Mac}
    {e' : RealTable.Entry} (he' : t'.entry a = some e')
    (h : RealTable.Joined (t.entry a) answer e') : t.Stays t' a := by
  intro e he
  refine ⟨e', he', h.id e he, fun hmac => ?_⟩
  rw [h.mac, he, Option.bind_some, Option.isSome_or, hmac, Bool.true_or]

theorem RealTable.Stays.of_drop {t t' : RealTable} {a : UInt32}
    (h : t'.entry a = (t.entry a).bind RealTable.Entry.drop)
    (hrefs : ∀ e, t.entry a = some e → 1 < e.refs) : t.Stays t' a := by
  intro e he
  have hlt := hrefs e he
  rw [he, Option.bind_some, RealTable.Entry.drop, if_pos hlt] at h
  exact ⟨_, h, rfl, id⟩

theorem RingOk.stays {t t' : RealTable} {d d' : CtlMaps} {r : InstalledRing} (h : RingOk d r)
    (ht : t.Sound d) (ht' : t'.Sound d') (hkept : ∀ a, r.Serves a → t.Stays t' a) :
    RingOk d' r := by
  refine ⟨h.built, h.sorted, h.ids, fun b hb hpos => ?_⟩
  obtain ⟨hne, hreal, hmac⟩ := h.live b hb hpos
  obtain ⟨e, he, hid⟩ := ht.mirror.entry_of_reals ht.wf (hreal.trans_ne hne)
  rw [hreal] at he
  obtain ⟨e', he', hid', hknown⟩ := hkept b.addr ⟨b, hb, hpos, rfl⟩ e he
  have hsome : e.mac.isSome := by
    rw [← hid, ht.mirror.neigh_entry ht.wf he] at hmac
    cases hm : e.mac with
    | none => simp [hm] at hmac
    | some _ => rfl
  obtain ⟨mac, hmac'⟩ := Option.isSome_iff_exists.mp (hknown hsome)
  rw [← hid, ← hid']
  refine ⟨hne, ht'.mirror.reals_entry ht'.wf he', ?_⟩
  rw [ht'.mirror.neigh_entry ht'.wf he', hmac']
  exact ht'.wf.entry_mac_ne he' hmac'

namespace LbState

variable {lb lb' : LbState} {d d' : CtlMaps} {env : Env} {spec : VipSpec} {v : Vip}

/-! ## Who needs an address -/

def Needs (lb : LbState) (d : CtlMaps) (a : UInt32) (s : VipSpec) : Prop :=
  ∃ v : Vip, lb.vips[s]? = some v ∧
    (a ∈ v.members ∨ ∃ r, d.rings v.id = some r ∧ r.Serves a)

open Classical in
noncomputable def users (lb : LbState) (d : CtlMaps) (a : UInt32) : Finset VipSpec :=
  lb.vips.keys.toFinset.filter (Needs lb d a)

theorem mem_users {a : UInt32} {s : VipSpec} : s ∈ users lb d a ↔ Needs lb d a s := by
  simp only [users, Finset.mem_filter, List.mem_toFinset, ExtTreeMap.mem_keys,
    and_iff_right_iff_imp]
  rintro ⟨v, hv, -⟩
  exact OrdMap.mem_iff.mpr ⟨v, hv⟩

theorem Needs.of_member {a : UInt32} (hv : lb.vips[spec]? = some v) (ha : a ∈ v.members) :
    Needs lb d a spec := ⟨v, hv, .inl ha⟩

theorem Needs.of_ring {a : UInt32} (hv : lb.vips[spec]? = some v) {r : InstalledRing}
    (hr : d.rings v.id = some r) (ha : r.Serves a) : Needs lb d a spec := ⟨v, hv, .inr ⟨r, hr, ha⟩⟩

theorem serves_backendsOf {a : UInt32} {slots : List Nat} {mode : HashMode}
    (h : InstalledRing.Serves ⟨slots, lb.backendsOf v, mode⟩ a) : a ∈ v.members := by
  obtain ⟨b, hb, -, rfl⟩ := h
  obtain ⟨a, m, hm, rfl⟩ := mem_backendsOf.mp hb
  exact OrdMap.mem_iff.mpr ⟨m, hm⟩

def Covered (lb : LbState) (d : CtlMaps) : Prop :=
  ∀ a, (users lb d a).card ≤ lb.reals.refsOf a

theorem Covered.one_lt_refs (h : Covered lb d) {s s' : VipSpec} (hne : s ≠ s') {a : UInt32}
    (hs : Needs lb d a s) (hs' : Needs lb d a s') {e : RealTable.Entry}
    (he : lb.reals.entry a = some e) : 1 < e.refs :=
  one_lt_refs_of_mem (h a) (mem_users.mpr hs) (mem_users.mpr hs') hne he

theorem Covered.others (h : Covered lb d) (s : VipSpec) (a : UInt32) :
    ((users lb d a).erase s).card ≤ lb.reals.refsOf a ∧
      (Needs lb d a s → ((users lb d a).erase s).card + 1 ≤ lb.reals.refsOf a) := by
  refine ⟨Finset.card_erase_le.trans (h a), fun hs => ?_⟩
  rw [Finset.card_erase_add_one (mem_users.mpr hs)]
  exact h a

/-! ## The invariant -/

/-- The rings there are belong to VIPs of the model, lead to reachable reals, and have the
references they need. -/
structure Backed (lb : LbState) (d : CtlMaps) : Prop where
  ring : ∀ (s : VipSpec) (v : Vip) (r : InstalledRing), lb.vips[s]? = some v →
    d.rings v.id = some r → RingOk d r
  covered : Covered lb d
  named : ∀ (id : Nat) (r : InstalledRing), d.rings id = some r →
    ∃ (s : VipSpec) (v : Vip), lb.vips[s]? = some v ∧ v.id = id

theorem Backed.change (h : Backed lb d) (ht : lb.reals.Sound d) (ht' : lb'.reals.Sound d')
    (spec : VipSpec)
    (helse : ∀ s, s ≠ spec → lb'.vips[s]? = lb.vips[s]?)
    (hrings : ∀ id r, d'.rings id = some r →
      (∃ v' : Vip, lb'.vips[spec]? = some v' ∧ v'.id = id) ∨
        (d.rings id = some r ∧ ∀ v : Vip, lb.vips[spec]? = some v → v.id ≠ id))
    (hids : ∀ (s : VipSpec) (u v' : Vip), s ≠ spec → lb.vips[s]? = some u →
      lb'.vips[spec]? = some v' → u.id ≠ v'.id)
    (hown : ∀ (v' : Vip) r, lb'.vips[spec]? = some v' → d'.rings v'.id = some r → RingOk d' r)
    (hkept : ∀ a s, s ≠ spec → Needs lb d a s → lb.reals.Stays lb'.reals a)
    (hrefs : ∀ a, ((users lb d a).erase spec).card ≤ lb'.reals.refsOf a ∧
      (Needs lb' d' a spec → ((users lb d a).erase spec).card + 1 ≤ lb'.reals.refsOf a)) :
    Backed lb' d' := by
  have hold : ∀ {s : VipSpec} {u : Vip} {r : InstalledRing}, s ≠ spec → lb'.vips[s]? = some u →
      d'.rings u.id = some r → lb.vips[s]? = some u ∧ d.rings u.id = some r := by
    intro s u r hne hu hr
    have hu' := (helse s hne).symm.trans hu
    rcases hrings u.id r hr with ⟨v', hv', hid⟩ | ⟨hr', -⟩
    · exact absurd hid.symm (hids s u v' hne hu' hv')
    · exact ⟨hu', hr'⟩
  have hneeds : ∀ {s : VipSpec} {a : UInt32}, s ≠ spec → Needs lb' d' a s → Needs lb d a s := by
    rintro s a hne ⟨u, hu, ha | ⟨r, hr, ha⟩⟩
    · exact .of_member ((helse s hne).symm.trans hu) ha
    · obtain ⟨hu', hr'⟩ := hold hne hu hr
      exact .of_ring hu' hr' ha
  refine ⟨fun s u r hu hr => ?_, fun a => ?_, fun id r hr => ?_⟩
  · by_cases hne : s = spec
    · exact hown u r (hne ▸ hu) hr
    · obtain ⟨hu', hr'⟩ := hold hne hu hr
      exact (h.ring s u r hu' hr').stays ht ht' fun a ha => hkept a s hne (.of_ring hu' hr' ha)
  · obtain ⟨hle, hlt⟩ := hrefs a
    by_cases hspec : Needs lb' d' a spec
    · refine Nat.le_trans (Finset.card_le_card fun s hs => ?_)
        ((Finset.card_insert_le spec _).trans (hlt hspec))
      rw [Finset.mem_insert, Finset.mem_erase, mem_users]
      by_cases hne : s = spec
      · exact .inl hne
      · exact .inr ⟨hne, hneeds hne (mem_users.mp hs)⟩
    · refine Nat.le_trans (Finset.card_le_card fun s hs => ?_) hle
      have hne : s ≠ spec := fun heq => hspec (heq ▸ mem_users.mp hs)
      exact Finset.mem_erase.mpr ⟨hne, mem_users.mpr (hneeds hne (mem_users.mp hs))⟩
  · rcases hrings id r hr with ⟨v', hv', hid⟩ | ⟨hr', hother⟩
    · exact ⟨spec, v', hv', hid⟩
    · obtain ⟨s, u, hu, hid⟩ := h.named id r hr'
      have hne : s ≠ spec := fun heq => hother u (heq ▸ hu) hid
      exact ⟨s, u, (helse s hne).trans hu, hid⟩

theorem Backed.congr (h : Backed lb d) (hrings : d'.rings = d.rings) (hreals : d'.reals = d.reals)
    (hneigh : d'.neigh = d.neigh) (hvips : lb'.vips = lb.vips)
    (htable : lb'.reals = lb.reals) : Backed lb' d' := by
  have hneeds : ∀ {a : UInt32} {s : VipSpec}, Needs lb' d' a s ↔ Needs lb d a s := by
    intro a s
    rw [Needs, Needs, hvips, hrings]
  refine ⟨fun s v r hv hr => ?_, fun a => ?_, fun id r hr => ?_⟩
  · exact (h.ring s v r (hvips ▸ hv) (hrings ▸ hr)).congr hreals hneigh
  · have : users lb' d' a = users lb d a := by
      ext s
      rw [mem_users, mem_users, hneeds]
    rw [this, htable]
    exact h.covered a
  · rw [hvips]
    exact h.named id r (hrings ▸ hr)

/-- A VIP under its own id, or under one that has no ring, whose new members have brought
their references; the rings are those of before. -/
theorem Backed.grow (h : Backed lb d) (hc : Consistent [] lb d) {pend : List UInt32}
    (hc' : Consistent pend lb' d') (v' : Vip) (hvips : lb'.vips = lb.vips.insert spec v')
    (hid : ∀ v : Vip, lb.vips[spec]? = some v → v'.id = v.id)
    (hnew : spec ∉ lb.vips → d.rings v'.id = none) (hrings : d'.rings = d.rings)
    (hkept : ∀ a, lb.reals.Stays lb'.reals a)
    (hrefs : ∀ a, lb.reals.refsOf a ≤ lb'.reals.refsOf a)
    (hjoin : ∀ a ∈ v'.members, (∃ v : Vip, lb.vips[spec]? = some v ∧ a ∈ v.members) ∨
      lb.reals.refsOf a < lb'.reals.refsOf a) : Backed lb' d' := by
  have hspec : lb'.vips[spec]? = some v' := by rw [hvips, OrdMap.getElem?_insert, if_pos rfl]
  have helse : ∀ s, s ≠ spec → lb'.vips[s]? = lb.vips[s]? := fun s hne => by
    rw [hvips, OrdMap.getElem?_insert, if_neg hne]
  -- a ring of the VIP is the one it had
  have hring : ∀ r, d'.rings v'.id = some r →
      ∃ v, lb.vips[spec]? = some v ∧ d.rings v.id = some r := by
    intro r hr
    rw [hrings] at hr
    cases hv : lb.vips[spec]? with
    | none =>
        rw [hnew (OrdMap.notMem_iff.mpr hv)] at hr
        cases hr
    | some v => exact ⟨v, rfl, hid v hv ▸ hr⟩
  refine h.change hc.table hc'.table spec helse (fun id r hr => ?_) ?_ ?_ (fun a _ _ _ => hkept a)
    fun a => ?_
  · by_cases hown : v'.id = id
    · exact .inl ⟨v', hspec, hown⟩
    · exact .inr ⟨hrings ▸ hr, fun v hv heq => hown ((hid v hv).trans heq)⟩
  · intro s u w hne hu hw
    exact hc'.id_ne ((helse s hne).trans hu) hw hne
  · intro w r hw hr
    obtain rfl := Option.some.inj (hspec.symm.trans hw)
    obtain ⟨v, hv, hr'⟩ := hring r hr
    exact (h.ring spec v r hv hr').stays hc.table hc'.table fun a _ => hkept a
  · obtain ⟨hle, hlt⟩ := h.covered.others spec a
    have hmono := hrefs a
    refine ⟨hle.trans hmono, ?_⟩
    rintro ⟨w, hw, ha | ⟨r, hr, ha⟩⟩
    · obtain rfl := Option.some.inj (hspec.symm.trans hw)
      rcases hjoin a ha with ⟨v, hv, hav⟩ | hmore
      · exact (hlt (.of_member hv hav)).trans hmono
      · omega
    · obtain rfl := Option.some.inj (hspec.symm.trans hw)
      obtain ⟨v, hv, hr'⟩ := hring r hr
      exact (hlt (.of_ring hv hr' ha)).trans hmono

theorem Backed.edit (h : Backed lb d) (hc : Consistent [] lb d) {pend : List UInt32}
    (hv : lb.vips[spec]? = some v) (v' : Vip) (hid : v'.id = v.id)
    (hmem : ∀ a, a ∈ v'.members → a ∈ v.members) (hvips : lb'.vips = lb.vips.insert spec v')
    (htable : lb'.reals = lb.reals) (hc' : Consistent pend lb' d') (hrings : d'.rings = d.rings) :
    Backed lb' d' :=
  h.grow hc hc' v' hvips (fun u hu => by rw [Option.some.inj (hu.symm.trans hv), hid])
    (fun hnew => absurd (OrdMap.mem_iff.mpr ⟨v, hv⟩) hnew) hrings
    (fun a => .of_eq (by rw [htable])) (fun a => by rw [htable])
    fun a ha => .inl ⟨v, hv, hmem a ha⟩

/-- The loops that give a VIP its members take references before anything is installed. -/
theorem Grown.backed {pend : List UInt32} {lb₀ lb₁ : LbState} {d₀ d₁ : CtlMaps} {v₀ : Vip}
    {done : List (UInt32 × Nat)} {members : ExtTreeMap UInt32 Member}
    (hg : Grown env pend lb₀ d₀ spec v₀ done lb₁ d₁ members) (hc : Consistent [] lb d)
    (hb : Backed lb d) (htable : lb₀.reals = lb.reals)
    (hvips : lb₀.vips = lb.vips.insert spec v₀)
    (hid : ∀ v : Vip, lb.vips[spec]? = some v → v₀.id = v.id)
    (hnew : spec ∉ lb.vips → d.rings v₀.id = none)
    (hmem : ∀ a ∈ v₀.members, ∃ v : Vip, lb.vips[spec]? = some v ∧ a ∈ v.members)
    (hrings : d₀.rings = d.rings) : Backed lb₁ d₁ := by
  obtain ⟨t, n, hstate⟩ := hg.state
  have hentry : ∀ a, lb₁.reals.entry a = lb.reals.entry a ∨ (a ∉ v₀.members ∧ ∃ e,
      lb₁.reals.entry a = some e ∧
        RealTable.Joined (lb.reals.entry a) (answer env lb₀ spec a) e) := by
    intro a
    by_cases hdone : a ∈ done.map Prod.fst ∧ a ∉ v₀.members
    · obtain ⟨p, hp, rfl⟩ := List.mem_map.mp hdone.1
      exact .inr ⟨hdone.2, htable ▸ hg.entry_new p hp hdone.2⟩
    · rw [not_and_or, not_not] at hdone
      exact .inl (htable ▸ hg.entry_else a hdone)
  refine hb.grow hc hg.consistent { v₀ with members } ?_ hid hnew
    (hg.same.rings.trans hrings) (fun a => ?_) (fun a => ?_) fun a ha => ?_
  · rw [hstate, hvips, OrdMap.insert_insert]
  · rcases hentry a with hsame | ⟨-, e, he, hjoin⟩
    · exact .of_eq hsame
    · exact .of_joined he hjoin
  · rcases hentry a with hsame | ⟨-, e, he, hjoin⟩
    · rw [RealTable.refsOf, RealTable.refsOf, hsame]
    · rw [RealTable.refsOf, RealTable.refsOf, he, Option.elim_some, hjoin.refs]
      exact Nat.le_succ _
  · by_cases hold : a ∈ v₀.members
    · exact .inl (hmem a hold)
    · have hdone : a ∈ done.map Prod.fst := by
        by_contra hnot
        rw [OrdMap.mem_iff, hg.member_else a hnot, ← OrdMap.mem_iff] at ha
        exact hold ha
      obtain ⟨p, hp, rfl⟩ := List.mem_map.mp hdone
      obtain ⟨e, he, hjoin⟩ := hg.entry_new p hp hold
      rw [htable] at hjoin
      refine .inr ?_
      rw [RealTable.refsOf, RealTable.refsOf, he, Option.elim_some, hjoin.refs]
      exact Nat.lt_succ_self _

/-! ## Deleting a VIP -/

theorem Deleted.backed (h : Deleted lb d spec v lb' d') (hc : Consistent [] lb d)
    (hv : lb.vips[spec]? = some v) (hb : Backed lb d) : Backed lb' d' := by
  obtain ⟨t, hstate⟩ := h.state
  have hvips : lb'.vips = lb.vips.erase spec := by rw [hstate]
  have hgone : lb'.vips[spec]? = none := by rw [hvips, OrdMap.getElem?_erase, if_pos rfl]
  refine hb.change hc.table h.consistent.table spec (fun s hne => ?_) ?_ ?_ ?_ ?_ ?_
  · rw [hvips, OrdMap.getElem?_erase, if_neg hne]
  · intro id r hr
    rw [h.maps.rings, withoutVip_rings] at hr
    by_cases hid : id = v.id
    · rw [hid, Function.update_self] at hr
      cases hr
    · rw [Function.update_of_ne hid] at hr
      exact .inr ⟨hr, fun u hu heq => hid (by rw [← heq, Option.some.inj (hu.symm.trans hv)])⟩
  · intro s u w _ _ hw
    rw [hgone] at hw
    cases hw
  · intro w r hw
    rw [hgone] at hw
    cases hw
  · intro a s hne hs
    have hentry := h.entry a
    split_ifs at hentry with ha
    · exact .of_drop hentry fun e he => hb.covered.one_lt_refs hne hs (.of_member hv ha) he
    · exact .of_eq hentry
  · intro a
    obtain ⟨hle, hlt⟩ := hb.covered.others spec a
    have hrefs := refsOf_release (l := v.members.keys)
      (by simpa only [ExtTreeMap.mem_keys] using h.entry) a
    refine ⟨?_, fun ⟨w, hw, _⟩ => by rw [hgone] at hw; cases hw⟩
    rw [hrefs]
    split_ifs with ha
    · have := hlt (.of_member hv (ExtTreeMap.mem_keys.mp ha))
      omega
    · exact hle

end LbState

end PacketBalance
