import PacketBalance.System.Api
import PacketBalance.System.Fit
/-!
# What `ring.show` says

The command reads the installed ring back in pieces, counts its slots by id and names the
ids by the addresses of the model.  Between operations the counts are those of the ring, every
id has a name, and nobody is named who is not a member fit for new flows.
-/

namespace PacketBalance

open WriteLog Std LbState

namespace Commands

/-! ## Counting -/

theorem getD_bump (byId : ExtTreeMap Nat Nat) (x id : Nat) :
    (bump byId x).getD id 0 = byId.getD id 0 + if id = x then 1 else 0 := by
  rw [bump, ExtTreeMap.getD_eq_getD_getElem?, OrdMap.getElem?_insert,
    ExtTreeMap.getD_eq_getD_getElem?, ExtTreeMap.getD_eq_getD_getElem?]
  by_cases hid : id = x
  · simp [hid]
  · simp [hid]

theorem foldl_bump (ring : List Nat) (byId : ExtTreeMap Nat Nat) (id : Nat) :
    (ring.foldl bump byId).getD id 0 = byId.getD id 0 + ring.count id ∧
      (id ∈ ring.foldl bump byId ↔ id ∈ byId ∨ id ∈ ring) := by
  induction ring generalizing byId with
  | nil => simp
  | cons x ring ih =>
      obtain ⟨hcount, hmem⟩ := ih (bump byId x)
      rw [List.foldl_cons]
      constructor
      · rw [hcount, getD_bump, List.count_cons]
        by_cases hid : id = x
        · simp [hid]
          omega
        · have hne : (x == id) = false := beq_eq_false_iff_ne.mpr (Ne.symm hid)
          simp [hid, hne]
      · have hput : id ∈ bump byId x ↔ id = x ∨ id ∈ byId := by
          rw [OrdMap.mem_iff, bump, OrdMap.getElem?_insert, OrdMap.mem_iff]
          by_cases hid : id = x <;> simp [hid]
        rw [hmem, hput, List.mem_cons]
        tauto

theorem mem_counts {ring : List Nat} {p : Nat × Nat} :
    p ∈ (ring.foldl bump ∅).toList ↔ p.1 ∈ ring ∧ p.2 = ring.count p.1 := by
  obtain ⟨id, n⟩ := p
  obtain ⟨hcount, hmem⟩ := foldl_bump ring ∅ id
  rw [ExtTreeMap.mem_toList_iff_getElem?_eq_some]
  rw [ExtTreeMap.getD_eq_getD_getElem?] at hcount
  constructor
  · intro hn
    refine ⟨by simpa using hmem.mp (OrdMap.mem_iff.mpr ⟨n, hn⟩), ?_⟩
    simpa [hn] using hcount
  · rintro ⟨hid, hn⟩
    obtain ⟨n', hn'⟩ := OrdMap.mem_iff.mp (hmem.mpr (.inr hid))
    have heq : n' = ring.count id := by simpa [hn'] using hcount
    rw [hn', heq, ← hn]

/-! ## Naming -/

def slotName (names : ExtTreeMap Nat UInt32) (id : Nat) : String :=
  if id = pbRealNone then "none" else realName names id

theorem slotsJson_eq (names : ExtTreeMap Nat UInt32) (byId : ExtTreeMap Nat Nat) :
    slotsJson names byId = byId.toList.foldl
      (fun slots p => Json.put slots (slotName names p.1) (.int p.2)) [("none", .int 0)] := by
  rw [slotsJson]
  congr 1
  funext slots p
  unfold slotName
  split_ifs <;> rfl

theorem ipv4ToString_inj {a b : UInt32} (h : ipv4ToString a = ipv4ToString b) : a = b := by
  have hparse : ∀ c : UInt32, parseIpv4 .little (ipv4ToString c) = .ok c := fun c =>
    parseIpv4_eq_ok_iff.mpr (dottedQuad_ipv4ToStringOn .little c)
  exact Except.ok.inj ((hparse a).symm.trans (h ▸ hparse b))

theorem ipv4ToString_ne_none (a : UInt32) : ipv4ToString a ≠ "none" := by
  intro h
  have hparse : parseIpv4 .little (ipv4ToString a) = .ok a :=
    parseIpv4_eq_ok_iff.mpr (dottedQuad_ipv4ToStringOn .little a)
  rw [h] at hparse
  cases hparse

end Commands

/-! ## The model's names -/

namespace LbState

variable {lb : LbState} {d : CtlMaps}

theorem getElem?_realAddrs (hwf : lb.reals.WF) {id : Nat} {a : UInt32} :
    lb.realAddrs[id]? = some a ↔ lb.reals.idOf a = some id := by
  have hentry : ∀ {a}, a ∈ lb.reals.addrs → ∃ e, lb.reals.entry a = some e ∧
      (lb.reals.idOf a).getD 0 = e.id := by
    intro a ha
    obtain ⟨e, he⟩ := RealTable.mem_used.mp (RealTable.mem_addrs.mp ha)
    exact ⟨e, he, by rw [RealTable.idOf_eq, he, Option.map_some, Option.getD_some]⟩
  have hnodup : (lb.reals.addrs.map fun a => (lb.reals.idOf a).getD 0).Nodup := by
    refine List.Nodup.map_on (fun a ha b hb heq => ?_) lb.reals.byAddr.nodup_keys
    obtain ⟨e, he, hid⟩ := hentry ha
    obtain ⟨e', he', hid'⟩ := hentry hb
    exact hwf.entry_inj he he' (by rw [← hid, ← hid', heq])
  rw [realAddrs, OrdMap.getElem?_foldl_insert _ _ _ _ hnodup]
  constructor
  · rintro (⟨b, hb, hid, rfl⟩ | ⟨-, hnone⟩)
    · obtain ⟨e, he, hid'⟩ := hentry hb
      rw [RealTable.idOf_eq, he, Option.map_some, ← hid', hid]
    · simp at hnone
  · intro hid
    rw [RealTable.idOf_eq] at hid
    obtain ⟨e, he, heq⟩ := Option.map_eq_some_iff.mp hid
    refine .inl ⟨a, ?_, ?_, rfl⟩
    · exact RealTable.mem_addrs.mpr (RealTable.mem_used.mpr ⟨e, he⟩)
    · rw [RealTable.idOf_eq, he, Option.map_some, Option.getD_some, heq]

theorem find_eq {spec : VipSpec} {v : Vip} (hv : lb.vips[spec]? = some v) :
    ∃ view, lb.find spec = some view ∧ view.vipId = v.id ∧ view.generation = v.generation := by
  have hmem : ∀ view, view ∈ lb.snapshot ↔ ∃ s u, lb.vips[s]? = some u ∧
      view = { spec := s, vipId := u.id, flags := u.flags, generation := u.generation,
               reals := u.members.toList.map fun q => lb.viewOf u q.1 q.2 } := by
    intro view
    simp only [snapshot, List.mem_insertionSort, List.mem_map, Prod.exists,
      ExtTreeMap.mem_toList_iff_getElem?_eq_some, eq_comm (a := view)]
  cases hfind : lb.find spec with
  | none =>
      have hnot := List.find?_eq_none.mp hfind _ ((hmem _).mpr ⟨spec, v, hv, rfl⟩)
      simp at hnot
  | some view =>
      obtain ⟨s, u, hu, rfl⟩ := (hmem view).mp (List.mem_of_find?_eq_some hfind)
      obtain rfl : s = spec := by simpa using List.find?_some hfind
      obtain rfl : u = v := Option.some.inj (hu.symm.trans hv)
      exact ⟨_, rfl, rfl, rfl⟩

end LbState

namespace System

open Commands

variable {s : System}

/-- What the command finds when nothing happens meanwhile: the model as it is, and the ring of
the VIP, read back by whatever calls of the kernel. -/
structure Shows (s : System) (v : Vip) (r : InstalledRing) (h : Host) : Prop where
  model : ∀ i, h.lbAt i = s.lb
  ring : ∃ calls id, calls.innerId = some id ∧ calls.openError = none ∧
    Batches r.slots 0 calls.batches ∧ readRing calls = some (h.ringAt v.id)

/-- The slots that are shown for a ring: how many are empty, how many each member has, and
nothing else. -/
structure Shown (lb : LbState) (v : Vip) (r : InstalledRing) (slots : List (String × Json)) :
    Prop where
  none : slots.lookup "none" = some (.int (r.slots.count pbRealNone))
  member : ∀ a id, a ∈ v.members → lb.reals.idOf a = some id → slots.lookup (ipv4ToString a) =
    if id ∈ r.slots then some (.int (r.slots.count id)) else .none
  only : ∀ name, slots.lookup name ≠ .none → name = "none" ∨
    ∃ a m, v.members[a]? = some m ∧ lb.eligible a m = true ∧ name = ipv4ToString a

section Slots

variable {v : Vip} {r : InstalledRing} {spec : VipSpec}

theorem slotName_eq (hs : Reachable s) (hidle : s.pending = none) (hready : s.ready = true)
    (hv : s.lb.vips[spec]? = some v) (hr : s.ctl.rings v.id = some r) {id : Nat}
    (hid : id ∈ r.slots) (hne : id ≠ pbRealNone) :
    slotName s.lb.realAddrs id = ipv4ToString (s.ctl.reals id) ∧
      s.lb.reals.idOf (s.ctl.reals id) = some id ∧
      ∃ m, v.members[s.ctl.reals id]? = some m ∧ s.lb.eligible (s.ctl.reals id) m = true := by
  have hset := hs.inv.settled hidle hready
  obtain ⟨m, hm, helig, hidOf⟩ :=
    ((hs.fit hidle).slot_eligible hset hs.inv.pinned hv hr hid).resolve_left hne
  refine ⟨?_, hidOf, m, hm, helig⟩
  rw [slotName, if_neg hne, realName, (getElem?_realAddrs hset.consistent.table.wf).mpr hidOf]

theorem slotName_inj (hs : Reachable s) (hidle : s.pending = none) (hready : s.ready = true)
    (hv : s.lb.vips[spec]? = some v) (hr : s.ctl.rings v.id = some r) {x y : Nat}
    (hx : x ∈ r.slots) (hy : y ∈ r.slots)
    (heq : slotName s.lb.realAddrs x = slotName s.lb.realAddrs y) : x = y := by
  by_cases hnx : x = pbRealNone <;> by_cases hny : y = pbRealNone
  · rw [hnx, hny]
  · rw [hnx, (slotName_eq hs hidle hready hv hr hy hny).1, slotName, if_pos rfl] at heq
    exact absurd heq.symm (ipv4ToString_ne_none _)
  · rw [hny, (slotName_eq hs hidle hready hv hr hx hnx).1, slotName, if_pos rfl] at heq
    exact absurd heq (ipv4ToString_ne_none _)
  · obtain ⟨hnamex, hidx, -⟩ := slotName_eq hs hidle hready hv hr hx hnx
    obtain ⟨hnamey, hidy, -⟩ := slotName_eq hs hidle hready hv hr hy hny
    rw [hnamex, hnamey] at heq
    rw [ipv4ToString_inj heq, hidy] at hidx
    exact (Option.some.inj hidx).symm

theorem lookup_slotsJson (hs : Reachable s) (hidle : s.pending = none) (hready : s.ready = true)
    (hv : s.lb.vips[spec]? = some v) (hr : s.ctl.rings v.id = some r) (name : String)
    (value : Json) :
    (slotsJson s.lb.realAddrs (r.slots.foldl bump ∅)).lookup name = some value ↔
      (∃ id ∈ r.slots, slotName s.lb.realAddrs id = name ∧ value = .int (r.slots.count id)) ∨
        (∀ id ∈ r.slots, slotName s.lb.realAddrs id ≠ name) ∧ name = "none" ∧
          value = .int 0 := by
  have hnodup : ((r.slots.foldl bump ∅).toList.map
      fun p => slotName s.lb.realAddrs p.1).Nodup := by
    have hkeys : ((r.slots.foldl bump ∅).toList.map Prod.fst).Nodup := by
      rw [ExtTreeMap.map_fst_toList_eq_keys]
      exact ExtTreeMap.nodup_keys
    rw [← Function.comp_def, ← List.map_map]
    refine List.Nodup.map_on (fun x hx y hy heq => ?_) hkeys
    obtain ⟨p, hp, rfl⟩ := List.mem_map.mp hx
    obtain ⟨q, hq, rfl⟩ := List.mem_map.mp hy
    exact slotName_inj hs hidle hready hv hr (mem_counts.mp hp).1 (mem_counts.mp hq).1 heq
  rw [slotsJson_eq, Json.lookup_foldl_put _ _ _ hnodup]
  constructor
  · rintro (⟨p, hp, hname, rfl⟩ | ⟨hnot, hold⟩)
    · obtain ⟨hid, hcount⟩ := mem_counts.mp hp
      exact .inl ⟨p.1, hid, hname, by rw [hcount]⟩
    · refine .inr ⟨fun id hid hname => hnot (List.mem_map.mpr ⟨(id, r.slots.count id), ?_, hname⟩),
        ?_⟩
      · exact mem_counts.mpr ⟨hid, rfl⟩
      · rw [Json.lookup_cons] at hold
        split_ifs at hold with hnone
        · exact ⟨hnone, (Option.some.inj hold).symm⟩
        · cases hold
  · rintro (⟨id, hid, hname, rfl⟩ | ⟨hnot, rfl, rfl⟩)
    · exact .inl ⟨(id, r.slots.count id), mem_counts.mpr ⟨hid, rfl⟩, hname, rfl⟩
    · refine .inr ⟨fun hin => ?_, by rw [Json.lookup_cons, if_pos rfl]⟩
      obtain ⟨p, hp, hname⟩ := List.mem_map.mp hin
      exact hnot p.1 (mem_counts.mp hp).1 hname

theorem slotsJson_shown (hs : Reachable s) (hidle : s.pending = none) (hready : s.ready = true)
    (hv : s.lb.vips[spec]? = some v) (hr : s.ctl.rings v.id = some r) :
    Shown s.lb v r (slotsJson s.lb.realAddrs (r.slots.foldl bump ∅)) := by
  have hlookup := lookup_slotsJson hs hidle hready hv hr
  have hset := hs.inv.settled hidle hready
  have hwf := hset.consistent.table.wf
  refine ⟨?_, fun a id ha hid => ?_, fun name hname => ?_⟩
  · rw [hlookup]
    by_cases hmem : pbRealNone ∈ r.slots
    · exact .inl ⟨_, hmem, by rw [slotName, if_pos rfl], rfl⟩
    · refine .inr ⟨fun id hid hname => ?_, rfl, by rw [List.count_eq_zero.mpr hmem]; rfl⟩
      have hne : id ≠ pbRealNone := fun heq => hmem (heq ▸ hid)
      rw [(slotName_eq hs hidle hready hv hr hid hne).1] at hname
      exact ipv4ToString_ne_none _ hname
  · obtain ⟨e, he⟩ := hset.consistent.member_entry hv ha
    have hzero := hwf.entry_ne_zero he
    rw [RealTable.idOf_eq, he, Option.map_some] at hid
    obtain rfl := Option.some.inj hid
    have hreal : s.ctl.reals e.id = a := by
      rw [hset.consistent.table.mirror.reals, hwf.entry_slot he]
    -- the name of a member is that of its id and of no other
    have hown : ∀ x ∈ r.slots, slotName s.lb.realAddrs x = ipv4ToString a → x = e.id := by
      intro x hx hname
      have hne : x ≠ pbRealNone := by
        rintro rfl
        rw [slotName, if_pos rfl] at hname
        exact ipv4ToString_ne_none _ hname.symm
      obtain ⟨hname', hidx, -⟩ := slotName_eq hs hidle hready hv hr hx hne
      rw [hname'] at hname
      rw [ipv4ToString_inj hname, RealTable.idOf_eq, he, Option.map_some] at hidx
      exact (Option.some.inj hidx).symm
    split_ifs with hmem
    · rw [hlookup]
      have hne : e.id ≠ pbRealNone := by
        have hlt := (hs.inv.pinned.reals.range e.id (hreal.trans_ne hzero)).2
        intro heq
        rw [heq] at hlt
        exact absurd hlt (by decide)
      refine .inl ⟨e.id, hmem, ?_, rfl⟩
      rw [(slotName_eq hs hidle hready hv hr hmem hne).1, hreal]
    · refine Option.eq_none_iff_forall_ne_some.mpr fun value hvalue => ?_
      rcases (hlookup _ _).mp hvalue with ⟨x, hx, hname, -⟩ | ⟨-, hname, -⟩
      · exact hmem (hown x hx hname ▸ hx)
      · exact ipv4ToString_ne_none _ hname
  · obtain ⟨value, hvalue⟩ := Option.ne_none_iff_exists'.mp hname
    rcases (hlookup _ _).mp hvalue with ⟨id, hid, rfl, -⟩ | ⟨-, hnone, -⟩
    · by_cases hne : id = pbRealNone
      · exact .inl (by rw [slotName, if_pos hne])
      · obtain ⟨hname', -, m, hm, helig⟩ := slotName_eq hs hidle hready hv hr hid hne
        exact .inr ⟨_, m, hm, helig, hname'⟩
    · exact .inl hnone

end Slots

/-- Between operations every VIP has a ring, and `ring.show` gives its counts under the names of
members that are fit for new flows. -/
theorem ring_show_truthful (hs : Reachable s) (hidle : s.pending = none)
    (hready : s.ready = true) {spec : VipSpec} {v : Vip} (hv : s.lb.vips[spec]? = some v) :
    ∃ r, s.ctl.rings v.id = some r ∧ ∀ h : Host, Shows s v r h →
      ∃ slots, ringShowOf h spec = .ok (.object [("size", .int pbRingSize),
          ("hash", .str (hashModeName s.lb.hash)), ("slots", .obj slots),
          ("generation", .int v.generation)]) ∧
        Shown s.lb v r slots := by
  obtain ⟨view, hfind, hvipId, hgen⟩ := find_eq hv
  obtain ⟨r, hr, hok⟩ :=
    hs.inv.pinned.ring spec _ ((hs.inv.settled hidle hready).entry_of_vip spec v hv)
  refine ⟨r, hr, fun h hshows => ?_⟩
  have hlen := hok.length_eq
  obtain ⟨calls, id, hinner, hopen, hbatches, hread⟩ := hshows.ring
  rw [readRing_eq hlen hinner hopen hbatches] at hread
  refine ⟨_, ?_, slotsJson_shown hs hidle hready hv hr⟩
  rw [ringShowOf, hshows.model 0, hfind]
  simp only [hshows.model, hvipId, ← Option.some.inj hread, hgen, ← hlen]
  rfl

/-- The ring of the first VIP, read in one call. -/
theorem ring_show_truthful_sample :
    ∃ (s : System) (v : Vip) (r : InstalledRing) (h : Host) (slots : List (String × Json)),
      s.Reachable ∧ s.lb.vips[sampleFlow.vip]? = some v ∧ s.ctl.rings v.id = some r ∧
      Shows s v r h ∧ Shown s.lb v r slots := by
  obtain ⟨s, hs, hidle, -, happ⟩ :=
    Reachable.first_apply "eth0" sampleConfig answeringEnv_healthy
  have hready : s.ready = true := by simp [ready, happ.initialized]
  obtain ⟨v, hv, -⟩ := (happ.vips sampleConfig.ok).2 _ (List.mem_singleton.mpr rfl)
  obtain ⟨r, hr, hshow⟩ := ring_show_truthful hs hidle hready hv
  obtain ⟨r', hr', hok⟩ :=
    hs.inv.pinned.ring _ _ ((hs.inv.settled hidle hready).entry_of_vip _ v hv)
  obtain rfl : r = r' := Option.some.inj (hr.symm.trans hr')
  let calls : RingCalls :=
    ⟨some 1, none, [⟨(r.slots.zipIdx.drop 0).map Prod.swap, .noEntry⟩]⟩
  have hbatches : Batches r.slots 0 calls.batches := .last 0 (Nat.zero_le _)
  let h : Host := { Serving.sampleHost ⟨s.ctl, s.lb⟩ with
    lbAt := fun _ => s.lb
    ringAt := fun _ => .ok r.slots }
  have hshows : Shows s v r h := ⟨fun _ => rfl, calls, 1, rfl, rfl, hbatches,
    readRing_eq hok.length_eq rfl rfl hbatches⟩
  obtain ⟨slots, -, hshown⟩ := hshow h hshows
  exact ⟨s, v, r, h, slots, hs, hv, hr, hshows, hshown⟩

end System

end PacketBalance
