import PacketBalance.LbState.Reconcile
/-!
# The first apply: adopting pinned maps and dropping what is left of them

A daemon that starts takes over ids and MACs from the maps a previous one left.
Adoption itself writes nothing.  What no configured VIP has claimed by the end of
the first `apply` is removed: `vip_map` entries first, then the rings they named,
then the reals nobody lists.
-/

namespace PacketBalance

open WriteLog Std

theorem RealTable.Sound.realsOk {t : RealTable} {d : CtlMaps} (h : t.Sound d) : d.RealsOk := by
  constructor
  · intro id hne
    rw [h.mirror.reals] at hne
    exact h.wf.in_range id hne
  · intro i j hne heq
    simp only [h.mirror.reals] at hne heq
    have hi := (h.wf.byAddr_iff _ i).mpr ⟨hne, rfl⟩
    have hj := (h.wf.byAddr_iff _ j).mpr ⟨hne, heq.symm⟩
    exact Option.some.inj (hi.symm.trans hj)

namespace LbState

variable {lb : LbState} {d : CtlMaps} {env : Env}

/-- The states in which a daemon applies a configuration: it has maintained the maps
itself so far, or it has just been started on maps that another one left. -/
inductive Startable (lb : LbState) (d : CtlMaps) : Prop
  | running (h : Consistent [] lb d)
  | restarted (interface : String) (hlb : lb = { interface }) (h : PinnedOn ∅ d)

structure Adopted (lb : LbState) (d : CtlMaps) (lb' : LbState) : Prop where
  consistent : Consistent [] lb' d
  state : ∃ t ids, lb' = { lb with reals := t, adoptedVipIds := ids }
  slots : ∀ id, lb'.reals.slots id = lb.reals.pinnedSlot d id
  pinned : ∀ s : VipSpec, lb'.adoptedVipIds[s]? =
    (d.vipMap[s]?.map VipValue.vipId).or lb.adoptedVipIds[s]?

theorem getElem?_pinnedIds (vipMap : ExtTreeMap VipSpec VipValue)
    (ids : ExtTreeMap VipSpec Nat) (s : VipSpec) :
    (vipMap.toList.foldl (fun ids p => ids.insert p.1 p.2.vipId) ids)[s]? =
      (vipMap[s]?.map VipValue.vipId).or ids[s]? := by
  have hnodup : (vipMap.toList.map Prod.fst).Nodup := by
    rw [ExtTreeMap.map_fst_toList_eq_keys]
    exact vipMap.nodup_keys
  apply Option.ext
  intro id
  rw [OrdMap.getElem?_foldl_insert Prod.fst (fun p => p.2.vipId) vipMap.toList ids hnodup,
    ExtTreeMap.map_fst_toList_eq_keys, ExtTreeMap.mem_keys, OrdMap.notMem_iff]
  cases hs : vipMap[s]? with
  | none =>
      simp only [true_and, Option.map_none, Option.none_or, or_iff_right_iff_imp,
        forall_exists_index, and_imp, Prod.forall,
        ExtTreeMap.mem_toList_iff_getElem?_eq_some]
      rintro _ val hval rfl -
      rw [hs] at hval
      cases hval
  | some val =>
      simp only [reduceCtorEq, false_and, or_false, Option.map_some, Option.some_or,
        Option.some.injEq, Prod.exists, ExtTreeMap.mem_toList_iff_getElem?_eq_some]
      constructor
      · rintro ⟨_, val', hval, rfl, rfl⟩
        rw [hs] at hval
        rw [Option.some.inj hval]
      · rintro rfl
        exact ⟨s, val, hs, rfl, rfl⟩

/-- Adoption adds no owner of an id to those that a daemon knows already. -/
theorem Consistent.adopted (h : Consistent [] lb d) {t : RealTable}
    {ids : ExtTreeMap VipSpec Nat} (ht : t.Sound d) (hentry : t.entry = lb.reals.entry)
    (hids : ∀ s : VipSpec, ids[s]? =
      (d.vipMap[s]?.map VipValue.vipId).or lb.adoptedVipIds[s]?) :
    Consistent [] { lb with reals := t, adoptedVipIds := ids } d := by
  have hnamed : ∀ s id, Named { lb with reals := t, adoptedVipIds := ids } s id →
      lb.Named s id := by
    rintro s id (hv | hs)
    · exact .inl hv
    · simp only [hids] at hs
      cases hval : d.vipMap[s]? with
      | none => exact .inr (by simpa [hval] using hs)
      | some val =>
          simp only [hval, Option.map_some, Option.some_or, Option.some.injEq] at hs
          exact hs ▸ h.entry_named s val hval
  refine ⟨ht, h.key, fun s id hs => h.named_lt s id (hnamed s id hs),
    fun s s' id hs hs' => h.named_inj s s' id (hnamed s id hs) (hnamed s' id hs'),
    fun s id id' hs hs' => h.named_fun s id id' (hnamed s id hs) (hnamed s id' hs'), ?_, ?_⟩
  · intro s val hval
    exact .inr (by simp [hids, hval])
  · intro a
    simpa only [RealTable.refsOf, hentry] using h.held a

/-- The maps alone tell a new daemon all there is to know. -/
theorem consistent_of_pinned (h : PinnedOn ∅ d) (interface : String) {t : RealTable}
    {ids : ExtTreeMap VipSpec Nat} (ht : t.Sound d)
    (hids : ∀ s : VipSpec, ids[s]? = d.vipMap[s]?.map VipValue.vipId) :
    Consistent [] { interface, reals := t, adoptedVipIds := ids } d := by
  have hnamed : ∀ s id, Named { interface, reals := t, adoptedVipIds := ids } s id →
      ∃ val, d.vipMap[s]? = some val ∧ val.vipId = id := by
    rintro s id (⟨v, hv, -⟩ | hs)
    · simp at hv
    · simpa [hids] using hs
  refine ⟨ht, by simp, ?_, ?_, ?_, ?_, ?_⟩
  · intro s id hs
    obtain ⟨val, hval, rfl⟩ := hnamed s id hs
    exact h.vip_lt s val hval
  · intro s s' id hs hs'
    obtain ⟨val, hval, rfl⟩ := hnamed s id hs
    obtain ⟨val', hval', heq⟩ := hnamed s' _ hs'
    exact h.vip_inj s s' val val' hval hval' heq.symm
  · intro s id id' hs hs'
    obtain ⟨val, hval, rfl⟩ := hnamed s id hs
    obtain ⟨val', hval', rfl⟩ := hnamed s id' hs'
    rw [hval] at hval'
    rw [Option.some.inj hval']
  · intro s val hval
    exact .inr (by simp [hids, hval])
  · intro a
    simp [owed, holders]

theorem adoptLocked_spec {G : CtlMaps → MapWrite → Prop}
    {E : LbError → CtlMaps → LbState → Prop} (h : Startable lb d) :
    wp adoptLocked G (fun _ d' lb' => d' = d ∧ Adopted lb d lb') E d lb := by
  have hstart : lb.reals.WF ∧ d.RealsOk ∧ lb.reals.Behind d := by
    cases h with
    | running h => exact ⟨h.table.wf, h.table.realsOk, h.table.behind⟩
    | restarted interface hlb h =>
        rw [hlb]
        exact ⟨RealTable.new_wf, h.reals, RealTable.new_behind d⟩
  simp only [adoptLocked, onReals, wp_bind, wp_zoom, wp_durable, wp_modify]
  refine wp_imp (RealTable.adopt_spec hstart.1 hstart.2.1 hstart.2.2) ?_
  rintro _ _ t ⟨rfl, ht, hslots⟩
  refine ⟨rfl, ?_, ⟨t, _, rfl⟩, hslots, fun s => getElem?_pinnedIds _ _ s⟩
  cases h with
  | running h =>
      exact h.adopted ht (h.table.entry_adopted ht hslots) fun s => getElem?_pinnedIds _ _ s
  | restarted interface hlb h =>
      subst hlb
      exact consistent_of_pinned h interface ht fun s => by simp [getElem?_pinnedIds]

/-! ## The end of the first apply -/

/-- The writes that remove what nobody has claimed. -/
inductive FinishWrite (lb : LbState) (d : CtlMaps) (d₁ : CtlMaps) : MapWrite → Prop
  | entry (spec : VipSpec) (hpin : spec ∈ lb.adoptedVipIds) (hnot : spec ∉ lb.vips) :
      FinishWrite lb d d₁ (.vipDelete spec)
  | ring (spec : VipSpec) (id : Nat) (hpin : spec ∈ lb.adoptedVipIds) (hnot : spec ∉ lb.vips)
      (hother : ∀ (s : VipSpec) (val : VipValue), d₁.vipMap[s]? = some val → val.vipId ≠ id) :
      FinishWrite lb d d₁ (.ringRemove id)
  | free (a : UInt32) (e : RealTable.Entry) (he : lb.reals.entry a = some e) (hrefs : e.refs = 0)
      (haddr : d₁.reals e.id = a)
      (hmap : ∀ s : VipSpec, d₁.vipMap[s]? = if s ∈ lb.vips then d.vipMap[s]? else none)
      (hrings : ∀ (s : VipSpec) (v : Vip), lb.vips[s]? = some v → d₁.rings v.id = d.rings v.id) :
      FinishWrite lb d d₁ (.realWrite e.id 0)
  | blank (a : UInt32) (e : RealTable.Entry) (he : lb.reals.entry a = some e)
      (hrefs : e.refs = 0) (hfree : d₁.reals e.id = 0) :
      FinishWrite lb d d₁ (.neighWrite e.id Mac.zero)

/-- The first `apply` is over. -/
structure Finished (lb : LbState) (d : CtlMaps) (d' : CtlMaps) (lb' : LbState) : Prop where
  consistent : Consistent [] lb' d'
  state : ∃ t, lb' = { lb with reals := t, adoptedVipIds := ∅, initialized := true }
  entry : ∀ a, lb'.reals.entry a = (lb.reals.entry a).filter fun e => 0 < e.refs
  vipMap : ∀ s : VipSpec, d'.vipMap[s]? = if s ∈ lb.vips then d.vipMap[s]? else none
  rings : ∀ (s : VipSpec) (v : Vip), lb.vips[s]? = some v → d'.rings v.id = d.rings v.id
  ring_of : ∀ id r, d'.rings id = some r → d.rings id = some r ∧
    ∀ s : VipSpec, s ∉ lb.vips → lb.adoptedVipIds[s]? ≠ some id
  config : d'.config = d.config

/-- The maps once those of the pinned VIPs `done` that nobody has claimed are gone. -/
structure Unpinned (lb : LbState) (d : CtlMaps) (done : List VipSpec) (d' : CtlMaps) : Prop where
  reals : d'.reals = d.reals
  neigh : d'.neigh = d.neigh
  config : d'.config = d.config
  vipMap : ∀ s : VipSpec, d'.vipMap[s]? = if s ∈ done ∧ s ∉ lb.vips then none else d.vipMap[s]?
  rings : ∀ (s : VipSpec) (v : Vip), lb.vips[s]? = some v → d'.rings v.id = d.rings v.id
  ring_of : ∀ id r, d'.rings id = some r → d.rings id = some r ∧
    ∀ s ∈ done, s ∉ lb.vips → lb.adoptedVipIds[s]? ≠ some id

section Unpinned

variable {done : List VipSpec} {d₁ : CtlMaps} {spec : VipSpec} {id : Nat}

theorem Unpinned.keep (h : Unpinned lb d done d₁) (hvip : spec ∈ lb.vips) :
    Unpinned lb d (done ++ [spec]) d₁ := by
  have hiff : ∀ s, (s ∈ done ++ [spec] ∧ s ∉ lb.vips) ↔ (s ∈ done ∧ s ∉ lb.vips) := by
    intro s
    simp only [List.mem_append, List.mem_singleton]
    constructor
    · rintro ⟨hs | rfl, hnot⟩
      · exact ⟨hs, hnot⟩
      · exact absurd hvip hnot
    · exact fun hs => ⟨.inl hs.1, hs.2⟩
  refine ⟨h.reals, h.neigh, h.config, fun s => ?_, h.rings, fun id r hr => ?_⟩
  · simp only [h.vipMap, hiff]
  · obtain ⟨hold, hother⟩ := h.ring_of id r hr
    exact ⟨hold, fun s hs hnot => hother s ((hiff s).mp ⟨hs, hnot⟩).1 hnot⟩

/-- No entry uses the ring of a pinned VIP whose own entry is gone. -/
theorem Unpinned.unused (h : Unpinned lb d done d₁) (hc : Consistent [] lb d)
    (hpin : lb.adoptedVipIds[spec]? = some id) {s : VipSpec} {val : VipValue}
    (hval : (d₁.vipMap.erase spec)[s]? = some val) : val.vipId ≠ id := by
  intro heq
  simp only [OrdMap.getElem?_erase, h.vipMap] at hval
  split_ifs at hval with hs _
  exact hs (hc.named_inj s spec id (heq ▸ hc.entry_named s val hval) (.inr hpin))

theorem Unpinned.drop (h : Unpinned lb d done d₁) (hc : Consistent [] lb d)
    (hpin : lb.adoptedVipIds[spec]? = some id) (hvip : spec ∉ lb.vips) :
    Unpinned lb d (done ++ [spec]) { d₁ with
      vipMap := d₁.vipMap.erase spec
      rings := Function.update d₁.rings id none } := by
  refine ⟨h.reals, h.neigh, h.config, fun s => ?_, fun s v hv => ?_, fun i r hr => ?_⟩
  · rw [OrdMap.getElem?_erase, h.vipMap]
    by_cases hs : s = spec
    · simp [hs, hvip]
    · simp only [if_false, List.mem_append, List.mem_singleton, hs, or_false]
  · have hne : v.id ≠ id := by
      rintro rfl
      have hs := hc.named_inj s spec v.id (.inl ⟨v, hv, rfl⟩) (.inr hpin)
      exact hvip (hs ▸ OrdMap.mem_iff.mpr ⟨v, hv⟩)
    simp only [Function.update_of_ne hne, h.rings s v hv]
  · by_cases hi : i = id
    · simp [hi] at hr
    · simp only [Function.update_of_ne hi] at hr
      obtain ⟨hold, hother⟩ := h.ring_of i r hr
      refine ⟨hold, fun s hs hnot => ?_⟩
      rcases List.mem_append.mp hs with hs | hs
      · exact hother s hs hnot
      · rw [List.mem_singleton.mp hs, hpin]
        exact fun heq => hi (Option.some.inj heq).symm

/-- An entry that belongs to no VIP was adopted, so none is left. -/
theorem Unpinned.vipMap_all (h : Unpinned lb d lb.adoptedVipIds.keys d₁) (hc : Consistent [] lb d)
    (s : VipSpec) : d₁.vipMap[s]? = if s ∈ lb.vips then d.vipMap[s]? else none := by
  rw [h.vipMap]
  by_cases hvip : s ∈ lb.vips
  · simp [hvip]
  · simp only [hvip, not_false_eq_true, and_true, if_false, ite_eq_left_iff, ExtTreeMap.mem_keys]
    intro hnot
    cases hval : d.vipMap[s]? with
    | none => rfl
    | some val =>
        rcases hc.entry_named s val hval with ⟨v, hv, -⟩ | hpin
        · exact absurd (OrdMap.mem_iff.mpr ⟨v, hv⟩) hvip
        · exact absurd (OrdMap.mem_iff.mpr ⟨_, hpin⟩) hnot

end Unpinned

theorem dropAdopted_spec (h : Consistent [] lb d) :
    wp (Prog.each lb.adoptedVipIds.toList (dropAdopted env)) (FinishWrite lb d)
      (fun _ d' lb' => lb' = lb ∧ Unpinned lb d lb.adoptedVipIds.keys d')
      (fun _ _ lb' => lb' = lb ∧ ¬Healthy env) d lb := by
  refine wp_imp (wp_each (I := fun done d' lb' => lb' = lb ∧
    Unpinned lb d (done.map Prod.fst) d') lb.adoptedVipIds.toList
    ⟨rfl, rfl, rfl, rfl, by simp, fun _ _ _ => rfl, fun _ _ hr => ⟨hr, by simp⟩⟩ ?_) ?_
  · rintro done ⟨spec, id⟩ rest hlist d₁ lb₁ ⟨hlb, hun⟩
    subst lb₁
    have hpin : lb.adoptedVipIds[spec]? = some id := by
      rw [← ExtTreeMap.mem_toList_iff_getElem?_eq_some, hlist]
      simp
    have hmem : spec ∈ lb.adoptedVipIds := OrdMap.mem_iff.mpr ⟨id, hpin⟩
    simp only [dropAdopted, removeRing, wp_bind, wp_get, wp_ite, wp_pure, wp_emit,
      write_vipDelete, List.map_append, List.map_cons, List.map_nil]
    refine ⟨fun hvip => ⟨trivial, hun.keep hvip⟩, fun hvip => ⟨.entry spec hmem hvip, ?_⟩⟩
    cases hfault : env.fault (.ringRemove id) with
    | some err =>
        simp only [wp_throw, true_and]
        exact fun hhealthy => by simp [hhealthy.fault] at hfault
    | none =>
        simp only [wp_emit, write_ringRemove]
        exact ⟨.ring spec id hmem hvip fun s val => hun.unused h hpin, trivial,
          hun.drop h hpin hvip⟩
  · rintro _ d' lb₁ ⟨hlb, hun⟩
    rw [ExtTreeMap.map_fst_toList_eq_keys] at hun
    exact ⟨hlb, hun⟩

theorem finishFirst_spec (henv : ArrayOk env) (h : Consistent [] lb d) :
    wp (finishFirst env) (FinishWrite lb d) (fun _ d' lb' => Finished lb d d' lb')
      (fun _ _ lb' => lb' = lb ∧ ¬Healthy env) d lb := by
  simp only [finishFirst, wp_bind, wp_get]
  refine wp_imp (dropAdopted_spec h) ?_
  rintro _ d₁ lb₁ ⟨hlb, hun⟩
  subst lb₁
  have hmap := hun.vipMap_all h
  have ht₁ := h.table.congr hun.reals hun.neigh
  simp only [wp_modify, onReals, wp_zoom]
  refine wp_mono (RealTable.dropUnreferenced_spec henv ht₁ ?_
    fun d₂ a e he hrefs hfree => .blank a e he hrefs hfree) (fun _ _ hw => hw) ?_
    (fun _ _ _ hf => hf.elim)
  · intro d₂ a e hsame he hrefs haddr
    exact .free a e he hrefs haddr (by rw [hsame.vipMap]; exact hmap)
      (by rw [hsame.rings]; exact hun.rings)
  · rintro _ d₂ t ⟨ht, hsame, hentry⟩
    have hnamed : ∀ s id, Named { lb with
        reals := t, adoptedVipIds := ∅, initialized := true } s id → lb.Named s id := by
      rintro s id (hv | hs)
      · exact .inl hv
      · simp at hs
    refine ⟨⟨ht, h.key, fun s id hs => h.named_lt s id (hnamed s id hs),
      fun s s' id hs hs' => h.named_inj s s' id (hnamed s id hs) (hnamed s' id hs'),
      fun s id id' hs hs' => h.named_fun s id id' (hnamed s id hs) (hnamed s id' hs'),
      ?_, fun a => ?_⟩, ⟨t, rfl⟩, hentry, by rw [hsame.vipMap]; exact hmap,
      by rw [hsame.rings]; exact hun.rings, ?_, hsame.config.trans hun.config⟩
    · intro s val hval
      rw [hsame.vipMap, hmap] at hval
      split_ifs at hval with hvip
      obtain ⟨v, hv⟩ := OrdMap.mem_iff.mp hvip
      exact .inl ⟨v, hv, h.named_fun s _ _ (.inl ⟨v, hv, rfl⟩) (h.entry_named s val hval)⟩
    · refine Nat.le_trans (h.held a) ?_
      simp only [RealTable.refsOf, hentry]
      cases lb.reals.entry a with
      | none => simp
      | some e =>
          by_cases hrefs : 0 < e.refs
          · simp [Option.filter, hrefs]
          · simp [Option.filter, hrefs]
            omega
    · intro id r hr
      rw [hsame.rings] at hr
      obtain ⟨hold, hother⟩ := hun.ring_of id r hr
      refine ⟨hold, fun s hnot hpin => ?_⟩
      exact hother s (ExtTreeMap.mem_keys.mpr (OrdMap.mem_iff.mpr ⟨id, hpin⟩)) hnot hpin

end LbState

end PacketBalance
