import PacketBalance.LbState
import PacketBalance.Pinned
/-!
# Consistency of the control plane's model

`Consistent pend lb d` holds between any two steps of any operation, also after
an exception: the real table is sound, no two VIPs share a `vip_id`, every
`vip_map` entry belongs to a VIP of the model or to an adopted one, and no
reference is missing.  `pend` lists the references that the operation under way
still has to drop.
-/

namespace PacketBalance

def RealTable.refsOf (t : RealTable) (a : UInt32) : Nat := (t.entry a).elim 0 RealTable.Entry.refs

namespace LbState

open Std

/-! ## Who uses an address -/

def holders (vips : ExtTreeMap VipSpec Vip) (a : UInt32) : Finset VipSpec :=
  (vips.keys.filter fun spec => vips[spec]?.any fun v => v.members.contains a).toFinset

theorem mem_holders {vips : ExtTreeMap VipSpec Vip} {a : UInt32} {spec : VipSpec} :
    spec ∈ holders vips a ↔ ∃ v : Vip, vips[spec]? = some v ∧ a ∈ v.members := by
  simp only [holders, List.mem_toFinset, List.mem_filter, ExtTreeMap.mem_keys,
    Option.any_eq_true, ExtTreeMap.contains_iff_mem]
  constructor
  · rintro ⟨-, v, hv, ha⟩
    exact ⟨v, hv, ha⟩
  · rintro ⟨v, hv, ha⟩
    exact ⟨OrdMap.mem_iff.mpr ⟨v, hv⟩, v, hv, ha⟩

theorem holders_insert (vips : ExtTreeMap VipSpec Vip) (spec : VipSpec) (v : Vip)
    (a : UInt32) :
    holders (vips.insert spec v) a =
      if a ∈ v.members then insert spec (holders vips a) else (holders vips a).erase spec := by
  ext s
  by_cases hs : s = spec
  · subst hs
    split_ifs with ha <;> simp [mem_holders, ha]
  · split_ifs <;> simp [mem_holders, OrdMap.getElem?_insert, hs]

theorem holders_erase (vips : ExtTreeMap VipSpec Vip) (spec : VipSpec) (a : UInt32) :
    holders (vips.erase spec) a = (holders vips a).erase spec := by
  ext s
  by_cases hs : s = spec
  · subst hs
    simp [mem_holders]
  · simp [mem_holders, OrdMap.getElem?_erase, hs]

/-- The references that must be there: one for each VIP that lists the address,
and those still to be dropped. -/
def owed (pend : List UInt32) (vips : ExtTreeMap VipSpec Vip) (a : UInt32) : Nat :=
  (holders vips a).card + pend.count a

/-! ## Who owns a vip_id -/

/-- The id belongs to a VIP of the model or is reserved for an adopted one. -/
def Named (lb : LbState) (spec : VipSpec) (id : Nat) : Prop :=
  (∃ v, lb.vips[spec]? = some v ∧ v.id = id) ∨ lb.adoptedVipIds[spec]? = some id

theorem allocateVipId_some {lb : LbState} {id : Nat} (h : lb.allocateVipId = some id) :
    id < pbMaxVips ∧ ∀ spec, ¬lb.Named spec id := by
  have hlt := List.mem_range.mp (List.mem_of_find?_eq_some h)
  have hfree := List.find?_some h
  simp only [decide_eq_true_eq, List.mem_append, List.mem_map, not_or, not_exists,
    not_and, Prod.forall, ExtTreeMap.mem_toList_iff_getElem?_eq_some] at hfree
  refine ⟨hlt, ?_⟩
  rintro spec (⟨v, hv, hid⟩ | hadopted)
  · exact hfree.1 spec v hv hid
  · exact hfree.2 spec id hadopted rfl

theorem allocateVipId_none {lb : LbState} (h : lb.allocateVipId = none) {id : Nat}
    (hid : id < pbMaxVips) : ∃ spec, lb.Named spec id := by
  have hused := List.find?_eq_none.mp h id (List.mem_range.mpr hid)
  simp only [decide_eq_true_eq, not_not, List.mem_append, List.mem_map, Prod.exists,
    ExtTreeMap.mem_toList_iff_getElem?_eq_some] at hused
  rcases hused with ⟨spec, v, hv, rfl⟩ | ⟨spec, id, hadopted, rfl⟩
  · exact ⟨spec, .inl ⟨v, hv, rfl⟩⟩
  · exact ⟨spec, .inr hadopted⟩

/-! ## Consistency -/

structure Consistent (pend : List UInt32) (lb : LbState) (d : CtlMaps) : Prop where
  table : lb.reals.Sound d
  key : ∀ (spec : VipSpec) (v : Vip), lb.vips[spec]? = some v → v.spec = spec
  named_lt : ∀ spec id, lb.Named spec id → id < pbMaxVips
  named_inj : ∀ s s' id, lb.Named s id → lb.Named s' id → s = s'
  named_fun : ∀ spec id id', lb.Named spec id → lb.Named spec id' → id = id'
  entry_named : ∀ (spec : VipSpec) (val : VipValue), d.vipMap[spec]? = some val →
    lb.Named spec val.vipId
  held : ∀ a, owed pend lb.vips a ≤ lb.reals.refsOf a

section Facts

variable {pend : List UInt32} {lb : LbState} {d : CtlMaps}

theorem Consistent.exists_entry (h : Consistent pend lb d) {a : UInt32}
    (ha : 0 < owed pend lb.vips a) : ∃ e, lb.reals.entry a = some e := by
  have hheld := h.held a
  cases he : lb.reals.entry a with
  | none =>
      rw [RealTable.refsOf, he] at hheld
      simp only [Option.elim_none] at hheld
      omega
  | some e => exact ⟨e, rfl⟩

theorem Consistent.member_entry (h : Consistent pend lb d) {spec : VipSpec} {v : Vip}
    (hv : lb.vips[spec]? = some v) {a : UInt32} (ha : a ∈ v.members) :
    ∃ e, lb.reals.entry a = some e := by
  apply h.exists_entry
  have hmem : spec ∈ holders lb.vips a := mem_holders.mpr ⟨v, hv, ha⟩
  have hpos := Finset.card_pos.mpr ⟨spec, hmem⟩
  rw [owed]
  omega

theorem one_lt_refs_of_mem {t : RealTable} {a : UInt32} {users : Finset VipSpec}
    (h : users.card ≤ t.refsOf a) {s s' : VipSpec} (hs : s ∈ users) (hs' : s' ∈ users)
    (hne : s ≠ s') {e : RealTable.Entry} (he : t.entry a = some e) : 1 < e.refs := by
  rw [RealTable.refsOf, he, Option.elim_some] at h
  exact (Finset.one_lt_card.mpr ⟨s, hs, s', hs', hne⟩).trans_le h

theorem Consistent.one_lt_refs (h : Consistent [] lb d) {s s' : VipSpec} {v v' : Vip}
    (hv : lb.vips[s]? = some v) (hv' : lb.vips[s']? = some v') (hne : s ≠ s') {a : UInt32}
    (ha : a ∈ v.members) (ha' : a ∈ v'.members) {e : RealTable.Entry}
    (he : lb.reals.entry a = some e) : 1 < e.refs := by
  have hheld : (holders lb.vips a).card ≤ lb.reals.refsOf a := by simpa [owed] using h.held a
  exact one_lt_refs_of_mem hheld (mem_holders.mpr ⟨v, hv, ha⟩) (mem_holders.mpr ⟨v', hv', ha'⟩)
    hne he

theorem Consistent.id_ne (h : Consistent pend lb d) {s s' : VipSpec} {v v' : Vip}
    (hv : lb.vips[s]? = some v) (hv' : lb.vips[s']? = some v') (hne : s ≠ s') :
    v.id ≠ v'.id := fun heq =>
  hne (h.named_inj s s' v.id (.inl ⟨v, hv, rfl⟩) (.inl ⟨v', hv', heq.symm⟩))

theorem Consistent.weaken (h : Consistent pend lb d) : Consistent [] lb d :=
  { h with held := fun a => Nat.le_trans (by simp [owed]) (h.held a) }

theorem Consistent.of_maps (h : Consistent pend lb d) {d' : CtlMaps}
    (hreals : d'.reals = d.reals) (hneigh : d'.neigh = d.neigh)
    (hmap : ∀ (spec : VipSpec) (val : VipValue), d'.vipMap[spec]? = some val →
      lb.Named spec val.vipId) : Consistent pend lb d' :=
  { h with table := h.table.congr hreals hneigh, entry_named := hmap }

end Facts

/-! ## The ring of a VIP -/

section Ring

variable {pend : List UInt32} {lb : LbState} {d : CtlMaps}

theorem mem_backendsOf {v : Vip} {b : Backend} :
    b ∈ lb.backendsOf v ↔
      ∃ (a : UInt32) (m : Member), v.members[a]? = some m ∧ b = lb.backendOf a m := by
  simp only [backendsOf, List.mem_map, Prod.exists,
    ExtTreeMap.mem_toList_iff_getElem?_eq_some]
  constructor
  · rintro ⟨a, m, hm, rfl⟩
    exact ⟨a, m, hm, rfl⟩
  · rintro ⟨a, m, hm, rfl⟩
    exact ⟨a, m, hm, rfl⟩

theorem backendsOf_sorted (lb : LbState) (v : Vip) : AddrSorted (lb.backendsOf v) := by
  rw [AddrSorted, backendsOf, List.pairwise_map]
  exact v.members.ordered_keys_toList.imp fun h => compare_eq_lt.mp h

theorem backendOf_weight_pos {a : UInt32} {m : Member}
    (h : 0 < (lb.backendOf a m).weight) : lb.eligible a m = true := by
  by_contra hne
  simp [backendOf, hne] at h

theorem Consistent.backendsOf_ids (h : Consistent pend lb d) {spec : VipSpec} {v : Vip}
    (hv : lb.vips[spec]? = some v) : ∀ b ∈ lb.backendsOf v, b.realId ≠ pbRealNone := by
  intro b hb
  obtain ⟨a, m, hm, rfl⟩ := mem_backendsOf.mp hb
  obtain ⟨e, he⟩ := h.member_entry hv (OrdMap.mem_iff.mpr ⟨m, hm⟩)
  have hrange := (h.table.wf.entry_range he).2
  simp only [backendOf, RealTable.idOf_eq, he, Option.map_some, Option.getD_some]
  simp only [pbMaxReals] at hrange
  simp only [pbRealNone]
  omega

theorem Consistent.ringOk (h : Consistent pend lb d) {spec : VipSpec} {v : Vip}
    (hv : lb.vips[spec]? = some v) {mode : HashMode} {slots : List Nat}
    (hslots : buildRing (lb.backendsOf v) mode pbRingSize = .ok slots) :
    RingOk d ⟨slots, lb.backendsOf v, mode⟩ := by
  refine ⟨hslots, lb.backendsOf_sorted v, h.backendsOf_ids hv, fun b hb hpos => ?_⟩
  obtain ⟨a, m, hm, rfl⟩ := mem_backendsOf.mp hb
  obtain ⟨e, he⟩ := h.member_entry hv (OrdMap.mem_iff.mpr ⟨m, hm⟩)
  have helig := backendOf_weight_pos hpos
  simp only [eligible, Bool.and_eq_true, RealTable.macOf_eq, he, Option.bind_some,
    Option.isSome_iff_exists] at helig
  obtain ⟨-, mac, hmac⟩ := helig
  simp only [backendOf, RealTable.idOf_eq, he, Option.map_some, Option.getD_some]
  refine ⟨h.table.wf.entry_ne_zero he, h.table.mirror.reals_entry h.table.wf he, ?_⟩
  rw [h.table.mirror.neigh_entry h.table.wf he, hmac]
  exact h.table.wf.entry_mac_ne he hmac

/-- `build_ring` never throws for a VIP of the model. -/
theorem Consistent.buildRing_ok (h : Consistent pend lb d) {spec : VipSpec} {v : Vip}
    (hv : lb.vips[spec]? = some v) (mode : HashMode) :
    ∃ slots, buildRing (lb.backendsOf v) mode pbRingSize = .ok slots ∧
      slots.length = pbRingSize := by
  obtain ⟨slots, hslots, hlen, -⟩ :=
    PacketBalance.buildRing_ok (lb.backendsOf_sorted v) (h.backendsOf_ids hv) mode
  exact ⟨slots, hslots, hlen⟩

end Ring

end LbState

end PacketBalance
