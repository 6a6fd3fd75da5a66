import PacketBalance.LbState.Members
/-!
# Deleting a VIP

`delete_vip_locked` takes the VIP out of `vip_map`, then its ring, then drops its
references.  `DeleteWrite` lists the writes with what is known of the maps each is
made in, `Deleted` relates the states before and after.
-/

namespace PacketBalance

open WriteLog Std

namespace LbState

variable {lb : LbState} {d : CtlMaps} {env : Env}

theorem refs_drop (o : Option RealTable.Entry) :
    (o.bind RealTable.Entry.drop).elim 0 RealTable.Entry.refs =
      o.elim 0 RealTable.Entry.refs - 1 := by
  cases o with
  | none => rfl
  | some e =>
      simp only [Option.bind_some, RealTable.Entry.drop, Option.elim_some]
      split_ifs with hrefs
      · rfl
      · simp only [Option.elim_none]
        omega

theorem refsOf_release {t t' : RealTable} {l : List UInt32}
    (h : ∀ a, t'.entry a = if a ∈ l then (t.entry a).bind RealTable.Entry.drop
      else t.entry a) (a : UInt32) :
    t'.refsOf a = if a ∈ l then t.refsOf a - 1 else t.refsOf a := by
  simp only [RealTable.refsOf, h]
  split_ifs
  · exact refs_drop _
  · rfl

def withoutVip (d : CtlMaps) (spec : VipSpec) (v : Vip) : CtlMaps :=
  { d with vipMap := d.vipMap.erase spec, rings := Function.update d.rings v.id none }

@[simp] theorem withoutVip_vipMap (d : CtlMaps) (spec : VipSpec) (v : Vip) :
    (withoutVip d spec v).vipMap = d.vipMap.erase spec := rfl

@[simp] theorem withoutVip_rings (d : CtlMaps) (spec : VipSpec) (v : Vip) :
    (withoutVip d spec v).rings = Function.update d.rings v.id none := rfl

/-- The writes of deleting a VIP: entry, ring, slots of reals nobody else uses. -/
inductive DeleteWrite (lb : LbState) (d : CtlMaps) (spec : VipSpec) (v : Vip)
    (d₁ : CtlMaps) : MapWrite → Prop
  | entry (hd : d₁ = d) : DeleteWrite lb d spec v d₁ (.vipDelete spec)
  | ring (hd : d₁ = { d with vipMap := d.vipMap.erase spec }) :
      DeleteWrite lb d spec v d₁ (.ringRemove v.id)
  | free (a : UInt32) (e : RealTable.Entry) (hd : (withoutVip d spec v).SameElse d₁)
      (ha : a ∈ v.members) (he : lb.reals.entry a = some e) (hrefs : e.refs ≤ 1)
      (haddr : d₁.reals e.id = a) :
      DeleteWrite lb d spec v d₁ (.realWrite e.id 0)
  | blank (a : UInt32) (e : RealTable.Entry) (ha : a ∈ v.members)
      (he : lb.reals.entry a = some e) (hrefs : e.refs ≤ 1) (hfree : d₁.reals e.id = 0) :
      DeleteWrite lb d spec v d₁ (.neighWrite e.id Mac.zero)

structure Deleted (lb : LbState) (d : CtlMaps) (spec : VipSpec) (v : Vip) (lb' : LbState)
    (d' : CtlMaps) : Prop where
  consistent : Consistent [] lb' d'
  maps : (withoutVip d spec v).SameElse d'
  state : ∃ t, lb' = { lb with reals := t, vips := lb.vips.erase spec }
  entry : ∀ a, lb'.reals.entry a =
    if a ∈ v.members then (lb.reals.entry a).bind RealTable.Entry.drop
    else lb.reals.entry a

theorem Consistent.erase {pend : List UInt32} (h : Consistent pend lb d) {spec : VipSpec}
    (lb' : LbState) {d' : CtlMaps} (hvips : lb'.vips = lb.vips.erase spec)
    (hadopted : lb'.adoptedVipIds = lb.adoptedVipIds) (ht : lb'.reals.Sound d')
    (hmap : ∀ (s : VipSpec) (val : VipValue), d'.vipMap[s]? = some val →
      s ≠ spec ∧ d.vipMap[s]? = some val) {pend' : List UInt32}
    (hheld : ∀ a, owed pend' (lb.vips.erase spec) a ≤ lb'.reals.refsOf a) :
    Consistent pend' lb' d' := by
  have hnamed : ∀ s id, lb'.Named s id → lb.Named s id := by
    rintro s id (⟨v, hv, rfl⟩ | hs)
    · rw [hvips, OrdMap.getElem?_erase] at hv
      split_ifs at hv
      exact .inl ⟨v, hv, rfl⟩
    · exact .inr (hadopted ▸ hs)
  refine ⟨ht, ?_, fun s id hs => h.named_lt s id (hnamed s id hs),
    fun s s' id hs hs' => h.named_inj s s' id (hnamed s id hs) (hnamed s' id hs'),
    fun s id id' hs hs' => h.named_fun s id id' (hnamed s id hs) (hnamed s id' hs'),
    ?_, by rw [hvips]; exact hheld⟩
  · intro s v hv
    rw [hvips, OrdMap.getElem?_erase] at hv
    split_ifs at hv
    exact h.key s v hv
  · intro s val hval
    obtain ⟨hs, hold⟩ := hmap s val hval
    rcases h.entry_named s val hold with ⟨v, hv, hid⟩ | hs'
    · exact .inl ⟨v, by rw [hvips, OrdMap.getElem?_erase, if_neg hs, hv], hid⟩
    · exact .inr (hadopted ▸ hs')

theorem deleteVip_spec (henv : ArrayOk env) (h : Consistent [] lb d) {spec : VipSpec}
    {v : Vip} (hv : lb.vips[spec]? = some v) :
    wp (deleteVipLocked env spec) (DeleteWrite lb d spec v)
      (fun _ d' lb' => Deleted lb d spec v lb' d')
      (fun _ d' lb' => lb' = lb ∧ d' = { d with vipMap := d.vipMap.erase spec } ∧
        Consistent [] lb' d' ∧ (env.fault (.ringRemove v.id)).isSome) d lb := by
  have hcons : Consistent [] lb { d with vipMap := d.vipMap.erase spec } := by
    refine h.of_maps rfl rfl fun s val hval => ?_
    rw [OrdMap.getElem?_erase] at hval
    split_ifs at hval
    exact h.entry_named s val hval
  simp only [deleteVipLocked, wp_bind, wp_get, hv, wp_emit, write_vipDelete, removeRing]
  refine ⟨.entry rfl, ?_⟩
  cases hfault : env.fault (.ringRemove v.id) with
  | some err => simp [hcons]
  | none =>
      simp only [wp_emit, write_ringRemove, wp_modify]
      refine ⟨.ring rfl, ?_⟩
      have hmem : ∀ a, a ∈ v.members.keys ↔ a ∈ v.members := fun a => ExtTreeMap.mem_keys
      have ht : lb.reals.Sound (withoutVip d spec v) := h.table.congr rfl rfl
      refine wp_mono (releaseAll_spec henv ht v.members.keys v.members.nodup_keys ?_ ?_ ?_)
        (fun _ _ hw => hw) ?_ (fun _ _ _ hf => hf.elim)
      · intro a ha
        exact h.member_entry hv ((hmem a).mp ha)
      · intro d' a e hsame ha he hrefs haddr
        exact .free a e hsame ((hmem a).mp ha) he hrefs haddr
      · intro d' a e ha he hrefs hfree
        exact .blank a e ((hmem a).mp ha) he hrefs hfree
      · rintro _ d' _ ⟨hsame, t, ht', rfl, hentry⟩
        simp only [hmem] at hentry
        refine ⟨?_, hsame, ⟨t, rfl⟩, hentry⟩
        refine h.erase { lb with reals := t, vips := lb.vips.erase spec } rfl rfl ht' ?_ ?_
        · intro s val hval
          rw [hsame.vipMap, withoutVip, OrdMap.getElem?_erase] at hval
          split_ifs at hval with hs
          exact ⟨hs, hval⟩
        · intro a
          have hheld := h.held a
          have hrefs := refsOf_release (l := v.members.keys) (by simpa only [hmem] using hentry) a
          simp only [owed, List.count_nil, Nat.add_zero, holders_erase] at hheld ⊢
          rw [hrefs]
          by_cases ha : a ∈ v.members
          · rw [if_pos ((hmem a).mpr ha),
              Finset.card_erase_of_mem (mem_holders.mpr ⟨v, hv, ha⟩)]
            omega
          · rw [if_neg (fun hin => ha ((hmem a).mp hin))]
            exact (Finset.card_erase_le).trans hheld

end LbState

end PacketBalance
