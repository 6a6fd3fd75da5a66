import PacketBalance.LbState.Refresh
import PacketBalance.LbState.Stability
/-!
# Rings that are up to date

The ring of a VIP depends on its members and on the table: a member counts when its MAC
is known, and the table is shared.  A step on one VIP rebuilds that VIP's ring only, so
the others' rings stay right as long as the step makes no MAC known that one of them was
waiting for.
-/

namespace PacketBalance

open WriteLog Std

/-- The member would be in the ring if its MAC were known. -/
def Member.ready (m : Member) : Bool := 0 < m.weight && !m.draining && m.up

namespace LbState

variable {lb lb' : LbState} {d d' : CtlMaps} {env : Env} {spec s : VipSpec} {u v : Vip}
  {a : UInt32}

/-- The installed ring of a VIP is what `build_ring` makes of its members now. -/
def CoherentAt (lb : LbState) (d : CtlMaps) (s : VipSpec) : Prop :=
  ∀ v, lb.vips[s]? = some v → ∃ r, d.rings v.id = some r ∧
    buildRing (lb.backendsOf v) lb.hash pbRingSize = .ok r.slots

def Coherent (lb : LbState) (d : CtlMaps) : Prop := ∀ s, CoherentAt lb d s

/-- The ring of a VIP, and all that it should be built from, are what they were. -/
structure RingKept (s : VipSpec) (lb : LbState) (d : CtlMaps) (lb' : LbState) (d' : CtlMaps) :
    Prop where
  hash : lb'.hash = lb.hash
  vip : ∀ v', lb'.vips[s]? = some v' → ∃ v, lb.vips[s]? = some v ∧
    lb'.backendsOf v' = lb.backendsOf v ∧ d'.rings v'.id = d.rings v.id

theorem RingKept.refl (s : VipSpec) (lb : LbState) (d : CtlMaps) : RingKept s lb d lb d :=
  ⟨rfl, fun v hv => ⟨v, hv, rfl, rfl⟩⟩

theorem RingKept.trans {lb'' : LbState} {d'' : CtlMaps} (h : RingKept s lb d lb' d')
    (h' : RingKept s lb' d' lb'' d'') : RingKept s lb d lb'' d'' := by
  refine ⟨h'.hash.trans h.hash, fun v'' hv'' => ?_⟩
  obtain ⟨v', hv', hback', hring'⟩ := h'.vip v'' hv''
  obtain ⟨v, hv, hback, hring⟩ := h.vip v' hv'
  exact ⟨v, hv, hback'.trans hback, hring'.trans hring⟩

theorem RingKept.coherent (h : RingKept s lb d lb' d') (hs : CoherentAt lb d s) :
    CoherentAt lb' d' s := by
  intro v' hv'
  obtain ⟨v, hv, hback, hring⟩ := h.vip v' hv'
  rw [hback, h.hash, hring]
  exact hs v hv

theorem RingKept.coherent_before (h : RingKept s lb d lb' d') (hmem : s ∈ lb'.vips)
    (hs : CoherentAt lb' d' s) : CoherentAt lb d s := by
  intro v hv
  obtain ⟨v', hv'⟩ := OrdMap.mem_iff.mp hmem
  obtain ⟨v₀, hv₀, hback, hring⟩ := h.vip v' hv'
  obtain rfl := Option.some.inj (hv.symm.trans hv₀)
  rw [← hback, ← h.hash, ← hring]
  exact hs v' hv'

theorem eligible_eq (lb : LbState) (a : UInt32) (m : Member) :
    lb.eligible a m = (m.ready && (lb.reals.macOf a).isSome) := rfl

/-- The backend of a member: unless the member is ready, it does not depend on the MAC. -/
theorem backendOf_of_ready {m : Member} (hid : lb'.reals.idOf a = lb.reals.idOf a)
    (hknown : m.ready = true →
      (lb'.reals.macOf a).isSome = (lb.reals.macOf a).isSome) :
    lb'.backendOf a m = lb.backendOf a m := by
  have helig : lb'.eligible a m = lb.eligible a m := by
    rw [eligible_eq, eligible_eq]
    cases hready : m.ready with
    | false => rfl
    | true => rw [hknown hready]
  simp only [backendOf, hid, helig]

/-! ## Somebody else's members -/

theorem Deleted.entry_else (h : Deleted lb d spec v lb' d') (hc : Consistent [] lb d)
    (hv : lb.vips[spec]? = some v) (hne : s ≠ spec) (hu : lb.vips[s]? = some u)
    (ha : a ∈ u.members) :
    ∃ e e', lb.reals.entry a = some e ∧ lb'.reals.entry a = some e' ∧ e'.id = e.id ∧
      e'.mac = e.mac := by
  obtain ⟨e, he⟩ := hc.member_entry hu ha
  by_cases hgone : a ∈ v.members
  · refine ⟨e, { e with refs := e.refs - 1 }, he, ?_, rfl, rfl⟩
    rw [h.entry, if_pos hgone, he, Option.bind_some, RealTable.Entry.drop,
      if_pos (hc.one_lt_refs hu hv hne ha hgone he)]
  · exact ⟨e, e, he, by rw [h.entry, if_neg hgone, he], rfl, rfl⟩

section Step

variable {flags : UInt32} {want : ExtTreeMap UInt32 Nat} {v' : Vip} {hashChanged : Bool}

/-- When a VIP is given its members, the member of another VIP keeps its id, and its MAC
may become known. -/
theorem VipStep.entry_else (h : VipStep env hashChanged lb d spec flags want v' d' lb')
    (hc : Consistent [] lb d) (hne : s ≠ spec) (hu : lb.vips[s]? = some u)
    (ha : a ∈ u.members) :
    ∃ e e', lb.reals.entry a = some e ∧ lb'.reals.entry a = some e' ∧ e'.id = e.id ∧
      e'.mac = e.mac.or
        (if a ∈ want ∧ a ∉ lb.membersAt spec then answer env lb spec a else none) := by
  obtain ⟨e, he⟩ := hc.member_entry hu ha
  by_cases hw : a ∈ want <;> by_cases hm : a ∈ lb.membersAt spec
  · exact ⟨e, e, he, by rw [h.entry_same a (iff_of_true hw hm), he], rfl, by simp [hm]⟩
  · obtain ⟨e', he', hjoin⟩ := h.entry_new a hw hm
    refine ⟨e, e', he, he', hjoin.id e he, ?_⟩
    rw [hjoin.mac, he, Option.bind_some, if_pos ⟨hw, hm⟩]
  · obtain ⟨v, hv, hmem⟩ := mem_holders.mp (mem_holders_membersAt.mpr hm)
    refine ⟨e, { e with refs := e.refs - 1 }, he, ?_, rfl, by simp [hw]⟩
    rw [h.entry_gone a hm hw, he, Option.bind_some, RealTable.Entry.drop,
      if_pos (hc.one_lt_refs hu hv hne ha hmem he)]
  · exact ⟨e, e, he, by rw [h.entry_same a (iff_of_false hw hm), he], rfl, by simp [hw]⟩

/-- The step makes no MAC known that a ready member of the VIP `u` was waiting for. -/
def Unheard (env : Env) (lb : LbState) (spec : VipSpec) (want : ExtTreeMap UInt32 Nat)
    (u : Vip) : Prop :=
  ∀ (a : UInt32) (m : Member), u.members[a]? = some m → m.ready = true → a ∈ want →
    a ∉ lb.membersAt spec → lb.reals.macOf a = none → answer env lb spec a = none

theorem VipStep.backends_else (h : VipStep env hashChanged lb d spec flags want v' d' lb')
    (hc : Consistent [] lb d) (hne : s ≠ spec) (hu : lb.vips[s]? = some u)
    (hquiet : Unheard env lb spec want u) : lb'.backendsOf u = lb.backendsOf u := by
  refine backendsOf_ext fun a => ?_
  cases hm : u.members[a]? with
  | none => rfl
  | some m =>
      obtain ⟨e, e', he, he', hid, hmac⟩ :=
        h.entry_else hc hne hu (OrdMap.mem_iff.mpr ⟨m, hm⟩)
      rw [Option.map_some, Option.map_some, backendOf_of_ready]
      · rw [RealTable.idOf_eq, RealTable.idOf_eq, he, he', Option.map_some, Option.map_some, hid]
      · intro hready
        rw [RealTable.macOf_eq, RealTable.macOf_eq, he, he', Option.bind_some, Option.bind_some,
          hmac]
        cases hknown : e.mac with
        | some mac => rfl
        | none =>
            split_ifs with hnew
            · have hnone : lb.reals.macOf a = none := by
                rw [RealTable.macOf_eq, he, Option.bind_some, hknown]
              rw [hquiet a m hm hready hnew.1 hnew.2 hnone]
              rfl
            · rfl

theorem VipStep.kept_else (h : VipStep env hashChanged lb d spec flags want v' d' lb')
    (hc : Consistent [] lb d) (hne : s ≠ spec)
    (hquiet : ∀ u, lb.vips[s]? = some u → Unheard env lb spec want u) :
    RingKept s lb d lb' d' := by
  refine ⟨h.hash, fun u hu => ?_⟩
  have hold : lb.vips[s]? = some u := (h.vip_else hne).symm.trans hu
  exact ⟨u, hold, h.backends_else hc hne hold (hquiet u hold), h.ring_else hne hu⟩

/-- The ring of another VIP that could use nobody yet stays empty, although one of its
members has become known. -/
theorem VipStep.stale (h : VipStep env hashChanged lb d spec flags want v' d' lb')
    (hc : Consistent [] lb d) (hne : s ≠ spec) (hu : lb.vips[s]? = some u) {m : Member}
    (hm : u.members[a]? = some m) (hready : m.ready = true) (ha : a ∈ want)
    (hnew : a ∉ lb.membersAt spec) (hans : (answer env lb spec a).isSome)
    (hnone : ∀ b ∈ u.members, lb.reals.macOf b = none) (hs : CoherentAt lb d s) :
    ¬CoherentAt lb' d' s := by
  intro hs'
  have hu' : lb'.vips[s]? = some u := (h.vip_else hne).trans hu
  obtain ⟨r, hr, hslots⟩ := hs u hu
  obtain ⟨r', hr', hslots'⟩ := hs' u hu'
  obtain rfl : r = r' := Option.some.inj (hr.symm.trans ((h.ring_else hne hu').symm.trans hr'))
  -- before: nobody is eligible
  have hzero : ∀ b ∈ lb.backendsOf u, b.weight = 0 := by
    intro b hb
    obtain ⟨c, mc, hmc, rfl⟩ := mem_backendsOf.mp hb
    simp [backendOf, eligible_eq, hnone c (OrdMap.mem_iff.mpr ⟨mc, hmc⟩)]
  rw [buildRing_inactive (lb.backendsOf_sorted u) hzero] at hslots
  -- now the member is
  obtain ⟨e, e', -, he', -, hmac⟩ := h.entry_else hc hne hu (OrdMap.mem_iff.mpr ⟨m, hm⟩)
  have hknown : (lb'.reals.macOf a).isSome := by
    rw [RealTable.macOf_eq, he', Option.bind_some, hmac, if_pos ⟨ha, hnew⟩, Option.isSome_or,
      hans, Bool.or_true]
  have hpos : ∃ b ∈ lb'.backendsOf u, 0 < b.weight := by
    refine ⟨_, mem_backendsOf.mpr ⟨a, m, hm, rfl⟩, ?_⟩
    have hweight := hready
    simp only [Member.ready, Bool.and_eq_true, decide_eq_true_eq] at hweight
    simp [backendOf, eligible_eq, hready, hknown, hweight.1.1]
  obtain ⟨slots, hok, -, hfull⟩ := PacketBalance.buildRing_ok (lb'.backendsOf_sorted u)
    (h.consistent.backendsOf_ids hu') lb'.hash
  have heq : r.slots = slots := Except.ok.inj (hslots'.symm.trans hok)
  rw [← heq, ← Except.ok.inj hslots] at hfull
  exact hfull hpos (List.mem_replicate.mpr ⟨by decide, rfl⟩)

theorem VipStep.coherent_touched (h : VipStep env hashChanged lb d spec flags want v' d' lb')
    (htouched : lb.touched hashChanged spec want) : CoherentAt lb' d' spec := by
  intro v hv
  obtain rfl := Option.some.inj (h.vip.symm.trans hv)
  obtain ⟨slots, hslots, hrings⟩ := h.ring htouched
  refine ⟨_, by rw [hrings, Function.update_self], ?_⟩
  rw [h.hash]
  exact hslots

theorem VipStep.untouched (h : VipStep env hashChanged lb d spec flags want v' d' lb')
    (htouched : lb.touched hashChanged spec want = false) :
    ∃ v, lb.vips[spec]? = some v ∧ v'.id = v.id ∧ lb'.backendsOf v' = lb.backendsOf v := by
  obtain ⟨v, hv, hstay, hsame⟩ := exists_of_untouched htouched
  refine ⟨v, hv, h.id_of_vip hv, backendsOf_ext fun a => ?_⟩
  have hstep := h.member a
  rw [membersAt_eq hv] at hstep
  cases hw : want[a]? with
  | none =>
      have hnot : a ∉ v.members := fun ha => by
        have hl : a ∈ lb.leaving spec want :=
          mem_leaving.mpr ⟨by rwa [membersAt_eq hv], OrdMap.notMem_iff.mpr hw⟩
        rw [hstay] at hl
        cases hl
      simp only [hw, MemberStep] at hstep
      rw [hstep, OrdMap.notMem_iff.mp hnot]
      rfl
  | some w =>
      have hdiff := hsame (a, w) (mem_toList.mpr hw)
      cases hm : v.members[a]? with
      | none => simp [differs, hm] at hdiff
      | some m =>
          have hweight : m.weight = w := by simpa [differs, hm] using hdiff
          rw [hw, hm] at hstep
          obtain ⟨m', hm', r, rfl⟩ := hstep
          have hentry := h.entry_same a (iff_of_true (OrdMap.mem_iff.mpr ⟨w, hw⟩)
            (by rw [membersAt_eq hv]; exact OrdMap.mem_iff.mpr ⟨m, hm⟩))
          rw [hm', Option.map_some, Option.map_some, backendOf_congr hentry, ← hweight]
          rfl

theorem VipStep.kept_untouched (h : VipStep env hashChanged lb d spec flags want v' d' lb')
    (htouched : lb.touched hashChanged spec want = false) : RingKept spec lb d lb' d' := by
  refine ⟨h.hash, fun w hw => ?_⟩
  obtain rfl := Option.some.inj (h.vip.symm.trans hw)
  obtain ⟨v, hv, hid, hback⟩ := h.untouched htouched
  exact ⟨v, hv, hback, by rw [h.ring_same htouched, hid]⟩

end Step

/-! ## The other operations -/

theorem Deleted.kept (h : Deleted lb d spec v lb' d') (hc : Consistent [] lb d)
    (hv : lb.vips[spec]? = some v) : RingKept s lb d lb' d' := by
  have hhash : lb'.hash = lb.hash := by
    obtain ⟨t, rfl⟩ := h.state
    rfl
  refine ⟨hhash, fun u hu => ?_⟩
  rw [h.vips, OrdMap.getElem?_erase] at hu
  split_ifs at hu with hne
  refine ⟨u, hu, backendsOf_ext fun a => ?_, ?_⟩
  · cases hm : u.members[a]? with
    | none => rfl
    | some m =>
        obtain ⟨e, e', he, he', hid, hmac⟩ :=
          h.entry_else hc hv hne hu (OrdMap.mem_iff.mpr ⟨m, hm⟩)
        rw [Option.map_some, Option.map_some, backendOf_ext]
        · rw [RealTable.idOf_eq, RealTable.idOf_eq, he, he', Option.map_some, Option.map_some,
            hid]
        · rw [RealTable.macOf_eq, RealTable.macOf_eq, he, he', Option.bind_some,
            Option.bind_some, hmac]
  · rw [h.maps.rings, withoutVip_rings, Function.update_of_ne (hc.id_ne hu hv hne)]

theorem Refreshed.coherent {R : VipSpec → Prop} (h : Refreshed R lb d d' lb')
    (hs : CoherentAt lb d s) : CoherentAt lb' d' s := by
  obtain ⟨d₁, lb₁, hedit, hreb⟩ := h
  have hhash : lb'.hash = lb₁.hash ∧ lb₁.hash = lb.hash := by
    obtain ⟨vips, rfl⟩ := hreb.state
    obtain ⟨t, vips', rfl⟩ := hedit.state
    exact ⟨rfl, rfl⟩
  by_cases hR : R s
  · intro v' hv'
    obtain ⟨slots, hslots, hring⟩ := hreb.ring s v' hR hv'
    exact ⟨_, hring, by rw [hhash.1]; exact hslots⟩
  · refine RingKept.coherent ⟨hhash.1.trans hhash.2, fun v' hv' => ?_⟩ hs
    have hcore := hreb.core s
    rw [hv', Option.map_some] at hcore
    obtain ⟨v₁, hv₁, hcore⟩ := Option.map_eq_some_iff.mp hcore.symm
    obtain ⟨v, hv⟩ := OrdMap.mem_iff.mp ((hedit.mem s).mp (OrdMap.mem_iff.mpr ⟨v₁, hv₁⟩))
    have hreals : lb'.reals = lb₁.reals := by
      obtain ⟨vips, rfl⟩ := hreb.state
      rfl
    refine ⟨v, hv, ?_, ?_⟩
    · calc lb'.backendsOf v' = lb₁.backendsOf v' :=
            backendsOf_congr fun a _ => by rw [hreals]
        _ = lb₁.backendsOf v₁ := lb₁.backendsOf_core hcore.symm
        _ = lb.backendsOf v := hedit.backends s v v₁ hR hv hv₁
    · rw [hreb.ring_else s v' hR hv', ← (core_inj hcore).2.1, (hedit.vip s v v₁ hv hv₁).1,
        hedit.same.rings]

theorem Finished.kept (h : Finished lb d d' lb') (hc : Consistent [] lb d) :
    RingKept s lb d lb' d' := by
  obtain ⟨t, hstate⟩ := h.state
  refine ⟨by rw [hstate], fun v hv => ?_⟩
  rw [hstate] at hv
  refine ⟨v, hv, backendsOf_congr fun a ha => ?_, h.rings s v hv⟩
  obtain ⟨e, he⟩ := hc.member_entry hv ha
  have hheld := hc.held a
  have hpos := Finset.card_pos.mpr ⟨s, mem_holders.mpr ⟨v, hv, ha⟩⟩
  rw [owed, List.count_nil, RealTable.refsOf, he] at hheld
  have hrefs : 0 < e.refs := by simpa using Nat.lt_of_lt_of_le hpos hheld
  rw [h.entry, he]
  simp [Option.filter, hrefs]

/-! ## A whole apply -/

section Apply

variable {cfg : Config} {done rest : List VipConfig} {vc : VipConfig} {z : CtlMaps × LbState}

/-- The VIP gets the address as a new member, and the neighbour table has an answer. -/
def Hears (env : Env) (cfg : Config) (lb : LbState) (vc : VipConfig) (a : UInt32) : Prop :=
  a ∈ vc.addrs ∧ a ∉ lb.membersAt vc.spec ∧
    (env.macLookup vc.spec a (cfg.nextHopBe.getD a)).isSome

def KnowsMac (d : CtlMaps) (a : UInt32) : Prop := ∃ id, d.reals id = a ∧ d.neigh id ≠ Mac.zero

/-- The configured VIP has the address as a ready member once it has had its turn. -/
def ReadyIn (lb : LbState) (vc : VipConfig) (a : UInt32) : Prop :=
  ∃ w, (wantOf vc)[a]? = some w ∧ 0 < w ∧ ∀ m, (lb.membersAt vc.spec)[a]? = some m →
    m.draining = false ∧ m.up = true

/-- Where an `apply` learns a MAC from the neighbour table, no VIP that waits for it has
had its turn already, and those that are still to come are rebuilt. -/
def Aligned (env : Env) (cfg : Config) (lb : LbState) (d : CtlMaps) : Prop :=
  ∀ done vc rest a, cfg.vips = done ++ vc :: rest → Hears env cfg lb vc a →
    (∀ u ∈ done, ¬Hears env cfg lb u a) → ¬(KnowsMac d a ∧ lb.Carried cfg a) →
    (∀ u ∈ done, ¬ReadyIn lb u a) ∧
    ∀ u ∈ rest, ∀ m, (lb.membersAt u.spec)[a]? = some m → m.ready = true →
      lb.touched (lb.hashChanges cfg) u.spec (wantOf u)

/-- The VIP has its turn still to come, and will be rebuilt then. -/
def Due (lb : LbState) (cfg : Config) (done : List VipConfig) (s : VipSpec) : Prop :=
  s ∉ done.map VipConfig.spec ∧
    ∃ u ∈ cfg.vips, u.spec = s ∧ lb.touched (lb.hashChanges cfg) s (wantOf u)

theorem touched_congr {hashChanged : Bool} {want : ExtTreeMap UInt32 Nat}
    (h : lb'.vips[s]? = lb.vips[s]?) :
    lb'.touched hashChanged s want = lb.touched hashChanged s want := by
  simp only [touched, leaving, membersAt, h]

theorem Along.nextHop (h : Along env cfg lb d done z) : z.2.nextHop = cfg.nextHopBe := by
  obtain ⟨z₁, ⟨d₀, lb₀, hstart, hdrop⟩, hpath⟩ := h
  obtain ⟨-, ⟨t, vips, hstate⟩, -⟩ := Path.drop_facts hstart.consistent hdrop
  obtain ⟨t₀, ids, hstate₀⟩ := hstart.state
  refine hpath.invariant (I := fun _ z => z.2.nextHop = cfg.nextHopBe)
    (by rw [hstate, hstate₀]) ?_
  rintro before vc rest - z z' hz ⟨v', hstep⟩
  obtain ⟨t', n, ids', hstate'⟩ := hstep.state
  rw [hstate']
  exact hz

theorem Along.vip_eq (h : Along env cfg lb d done z) (hok : cfg.Ok)
    (hvips : cfg.vips = done ++ vc :: rest) : z.2.vips[vc.spec]? = lb.vips[vc.spec]? := by
  have hnot : vc.spec ∉ done.map VipConfig.spec := fun hin => by
    obtain ⟨u, hu, heq⟩ := List.mem_map.mp hin
    exact (hok.split hvips).1 u hu heq
  have hin : vc.spec ∈ cfg.specs := List.mem_map_of_mem (by simp [hvips])
  rw [(h.vips hok ⟨_, hvips.symm⟩).1 _ hnot, if_pos hin]

theorem Along.heard (h : Along env cfg lb d done z) (hok : cfg.Ok) (hpre : done <+: cfg.vips)
    {u : VipConfig} (hu : u ∈ done) (hears : Hears env cfg lb u a) :
    (z.2.reals.macOf a).isSome := by
  obtain ⟨z₁, hopen, hpath⟩ := h
  refine (hpath.invariant (I := fun done z => Along env cfg lb d done z ∧
    ∀ u ∈ done, Hears env cfg lb u a → (z.2.reals.macOf a).isSome)
    ⟨⟨z₁, hopen, rfl⟩, by simp⟩ ?_).2 u hu hears
  rintro before vc rest hdone z z' ⟨halong, hz⟩ ⟨v', hstep⟩
  obtain ⟨later, hlater⟩ := hpre
  have hvips : cfg.vips = before ++ vc :: (rest ++ later) := by simp [← hlater, hdone]
  refine ⟨halong.snoc ⟨v', hstep⟩, fun u hu hears => ?_⟩
  rcases List.mem_append.mp hu with hu | hu
  · -- a VIP that has had its turn holds the address
    obtain ⟨v, hv, hconf⟩ := (halong.vips hok ⟨_, hvips.symm⟩).2 u hu
    have hmem := (hconf.mem_members (hok.vip_ok u (by simp [hvips, hu]))).mpr hears.1
    obtain ⟨e, e', he, he', -, hmac⟩ := hstep.entry_else halong.facts.1
      ((hok.split hvips).1 u hu) hv hmem
    have hknown := hz u hu hears
    rw [RealTable.macOf_eq, he, Option.bind_some] at hknown
    rw [RealTable.macOf_eq, he', Option.bind_some, hmac, Option.isSome_or, hknown, Bool.true_or]
  · obtain rfl := List.mem_singleton.mp hu
    have hwant : a ∈ wantOf u := (mem_wantOf (hok.vip_ok u (by simp [hvips]))).mpr hears.1
    have hnew : a ∉ z.2.membersAt u.spec := by
      rw [membersAt, halong.vip_eq hok hvips]
      exact hears.2.1
    obtain ⟨e, he, hjoin⟩ := hstep.entry_new a hwant hnew
    rw [RealTable.macOf_eq, he, Option.bind_some, hjoin.mac, Option.isSome_or, answer,
      halong.nextHop, Option.isSome_map, hears.2.2, Bool.or_true]

theorem Opened.kept (h : Opened env cfg lb d z) (hs : Startable lb d)
    (hhash : lb.hashChanges cfg = false) : RingKept s lb d z.2 z.1 := by
  have hsame : cfg.hash = lb.hash := by
    have : lb.hash = cfg.hash := by simpa [hashChanges] using hhash
    exact this.symm
  obtain ⟨d₀, lb₀, hstart, hdrop⟩ := h
  obtain ⟨mac, -, hd₀⟩ := hstart.maps
  have hkept : RingKept s lb d lb₀ d₀ := by
    refine ⟨?_, fun v hv => ?_⟩
    · obtain ⟨t, ids, rfl⟩ := hstart.state
      exact hsame
    · rw [hstart.vips] at hv
      cases hs with
      | running hc =>
          exact ⟨v, hv, backendsOf_congr fun a _ => by rw [hstart.entry_eq hc], by rw [hd₀]⟩
      | restarted interface hlb _ => simp [hlb] at hv
  refine (hdrop.invariant (I := fun _ z => Consistent [] z.2 z.1 ∧ RingKept s lb d z.2 z.1)
    ⟨hstart.consistent, hkept⟩ ?_).2
  rintro before spec rest - z z' ⟨hz, hzs⟩ hstep
  rw [DropR] at hstep
  split_ifs at hstep
  · exact hstep ▸ ⟨hz, hzs⟩
  · obtain ⟨v, hv, hdel⟩ := hstep
    exact ⟨hdel.consistent, hzs.trans (hdel.kept hz hv)⟩

/-- A VIP that is not due was not waiting for what the one at hand hears. -/
theorem Along.unheard (h : Along env cfg lb d done z) (hok : cfg.Ok)
    (hvips : cfg.vips = done ++ vc :: rest) (hal : Aligned env cfg lb d) (hne : s ≠ vc.spec)
    (hdue : ¬Due lb cfg done s) (hu : z.2.vips[s]? = some u) :
    Unheard env z.2 vc.spec (wantOf vc) u := by
  have hpre : done <+: cfg.vips := ⟨_, hvips.symm⟩
  have hvc : vc ∈ cfg.vips := by simp [hvips]
  intro a m hm hready hwant hnew hnone
  by_contra hans
  -- the address is new here, nobody has heard of it before, and the table does not know it
  have haddr : a ∈ vc.addrs := (mem_wantOf (hok.vip_ok vc hvc)).mp hwant
  have hears : Hears env cfg lb vc a := by
    refine ⟨haddr, ?_, ?_⟩
    · rwa [membersAt, h.vip_eq hok hvips] at hnew
    · rwa [answer, h.nextHop, Option.map_eq_none_iff, ← ne_eq, ← Option.isSome_iff_ne_none]
        at hans
  have hfirst : ∀ w ∈ done, ¬Hears env cfg lb w a := fun w hw hears' => by
    have hknown := h.heard hok hpre hw hears'
    simp [hnone] at hknown
  have hunknown : ¬(KnowsMac d a ∧ lb.Carried cfg a) := by
    rintro ⟨⟨id, hid, hmac⟩, hcarried⟩
    obtain ⟨e, he, -, hknown⟩ :=
      h.known hok hpre (.inl hcarried) (wantOf_ne_zero (hok.vip_ok vc hvc) a hwant) hid
    rw [RealTable.macOf_eq, he, Option.bind_some, hknown hmac] at hnone
    cases hnone
  obtain ⟨hbefore, hafter⟩ := hal done vc rest a hvips hears hfirst hunknown
  by_cases hin : s ∈ done.map VipConfig.spec
  · obtain ⟨w, hw, rfl⟩ := List.mem_map.mp hin
    obtain ⟨v', hv', hconf⟩ := (h.vips hok hpre).2 w hw
    obtain rfl := Option.some.inj (hu.symm.trans hv')
    refine hbefore w hw ?_
    have hstep := hconf.member a
    rw [hm] at hstep
    have hweight := hstep.weight_eq
    simp only [Member.ready, Bool.and_eq_true, decide_eq_true_eq, Bool.not_eq_true'] at hready
    refine ⟨m.weight, hweight.symm, hready.1.1, fun m₀ hm₀ => ?_⟩
    rw [hm₀] at hstep
    rw [hstep.kept] at hready
    exact ⟨hready.1.2, hready.2⟩
  · rw [(h.vips hok hpre).1 s hin] at hu
    split_ifs at hu with hspec
    obtain ⟨w, hw, rfl⟩ := List.mem_map.mp hspec
    have hrest : w ∈ rest := by
      rw [hvips] at hw
      rcases List.mem_append.mp hw with hw | hw
      · exact absurd (List.mem_map_of_mem hw) hin
      · exact (List.mem_cons.mp hw).resolve_left fun heq => hne (heq ▸ rfl)
    refine hdue ⟨hin, w, hw, rfl, hafter w hrest m ?_ hready⟩
    rw [membersAt_eq hu, hm]

theorem Along.kept (h : Along env cfg lb d done z) (hs : Startable lb d) (hok : cfg.Ok)
    (hpre : done <+: cfg.vips) (hal : Aligned env cfg lb d) (hin : s ∈ cfg.specs)
    (hdue : ¬Due lb cfg [] s) : RingKept s lb d z.2 z.1 := by
  obtain ⟨w, hw, rfl⟩ := List.mem_map.mp hin
  have htouched : lb.touched (lb.hashChanges cfg) w.spec (wantOf w) = false := by
    rw [← Bool.not_eq_true]
    exact fun htouched => hdue ⟨by simp, w, hw, rfl, htouched⟩
  have hhash : lb.hashChanges cfg = false := by
    rw [← Bool.not_eq_true]
    intro hhash
    cases hv : lb.vips[w.spec]? <;> simp [touched, hv, hhash] at htouched
  obtain ⟨z₁, hopen, hpath⟩ := h
  refine (hpath.invariant (I := fun done z => Along env cfg lb d done z ∧
    RingKept w.spec lb d z.2 z.1) ⟨⟨z₁, hopen, rfl⟩, hopen.kept hs hhash⟩ ?_).2
  rintro before vc rest hdone z z' ⟨halong, hz⟩ hstep
  refine ⟨halong.snoc hstep, hz.trans ?_⟩
  obtain ⟨v', hstep⟩ := hstep
  obtain ⟨later, hlater⟩ := hpre
  have hvips : cfg.vips = before ++ vc :: (rest ++ later) := by simp [← hlater, hdone]
  by_cases hvc : w.spec = vc.spec
  · obtain rfl : w = vc := List.inj_on_of_nodup_map hok.specs_nodup hw (by simp [hvips]) hvc
    exact hstep.kept_untouched ((touched_congr (halong.vip_eq hok hvips)).trans htouched)
  · refine hstep.kept_else halong.facts.1 hvc fun u hu => ?_
    refine halong.unheard hok hvips hal hvc ?_ hu
    rintro ⟨-, u', hu', heq, htouched'⟩
    obtain rfl : u' = w := List.inj_on_of_nodup_map hok.specs_nodup hu' hw heq
    rw [htouched] at htouched'
    cases htouched'

theorem Along.rebuilt (h : Along env cfg lb d done z) (hok : cfg.Ok)
    (hpre : done <+: cfg.vips) (hal : Aligned env cfg lb d) (hdue : Due lb cfg [] s) :
    Due lb cfg done s ∨ CoherentAt z.2 z.1 s := by
  obtain ⟨z₁, hopen, hpath⟩ := h
  refine (hpath.invariant (I := fun done z => Along env cfg lb d done z ∧
    (Due lb cfg done s ∨ CoherentAt z.2 z.1 s)) ⟨⟨z₁, hopen, rfl⟩, .inl hdue⟩ ?_).2
  rintro before vc rest hdone z z' ⟨halong, hz⟩ hstep
  refine ⟨halong.snoc hstep, ?_⟩
  obtain ⟨v', hstep⟩ := hstep
  obtain ⟨later, hlater⟩ := hpre
  have hvips : cfg.vips = before ++ vc :: (rest ++ later) := by simp [← hlater, hdone]
  by_cases hsvc : s = vc.spec
  · subst hsvc
    obtain ⟨-, u, hu, heq, htouched⟩ := hdue
    obtain rfl : u = vc := List.inj_on_of_nodup_map hok.specs_nodup hu (by simp [hvips]) heq
    exact .inr (hstep.coherent_touched
      ((touched_congr (halong.vip_eq hok hvips)).trans htouched))
  · by_cases hdue' : Due lb cfg before s
    · obtain ⟨hnot, hu⟩ := hdue'
      exact .inl ⟨by simp [hnot, hsvc], hu⟩
    · exact .inr ((hstep.kept_else halong.facts.1 hsvc
        (fun u hu => halong.unheard hok hvips hal hsvc hdue' hu)).coherent
        (hz.resolve_left hdue'))

/-- Every ring is up to date after an `apply` exactly when those that it did not rebuild
were before. -/
theorem Applied.coherent_iff (h : Applied env cfg lb d d' lb') (hs : Startable lb d)
    (hok : cfg.Ok) (hal : Aligned env cfg lb d) :
    Coherent lb' d' ↔ ∀ s ∈ cfg.specs, Due lb cfg [] s ∨ CoherentAt lb d s := by
  have hspecs := (h.vips hok).1
  obtain ⟨z, halong, hend⟩ := h
  have hkept : ∀ s, RingKept s z.2 z.1 lb' d' := by
    intro s
    split_ifs at hend
    · rw [hend]
      exact .refl s lb' d'
    · exact hend.kept halong.facts.1
  constructor
  · intro hco s hin
    by_cases hdue : Due lb cfg [] s
    · exact .inl hdue
    · have hall := (halong.kept hs hok List.prefix_rfl hal hin hdue).trans (hkept s)
      exact .inr (hall.coherent_before ((hspecs s).mpr hin) (hco s))
  · intro hco s
    refine (hkept s).coherent ?_
    by_cases hin : s ∈ cfg.specs
    · by_cases hdue : Due lb cfg [] s
      · refine (halong.rebuilt hok List.prefix_rfl hal hdue).resolve_left ?_
        exact fun hnot => hnot.1 hin
      · exact (halong.kept hs hok List.prefix_rfl hal hin hdue).coherent
          ((hco s hin).resolve_left hdue)
    · intro v hv
      rw [(halong.vips hok List.prefix_rfl).1 s hin, if_neg hin] at hv
      cases hv

end Apply

end LbState

end PacketBalance
