import PacketBalance.LbState.Coherence
import PacketBalance.Ring.Order
/-!
# The rings that an `apply` leaves

A VIP's turn builds its ring from the members whose MAC is known by then, or leaves the
ring as it is.  What is known at each turn, and at the end, follows from the state before
the call and from the neighbour table.
-/

namespace PacketBalance

open WriteLog Std

namespace LbState

variable {lb lb' lb₁ : LbState} {d d' : CtlMaps} {env : Env} {cfg : Config}
variable {done rest : List VipConfig} {vc u : VipConfig} {z : CtlMaps × LbState} {a : UInt32}
variable {v v' : Vip} {spec : VipSpec}

/-! ## Which MACs are known -/

/-- The MAC of the address is known once the VIPs `turns` have had their turn: it was, and
the address lasts, or one of them has heard of it. -/
def KnownBy (env : Env) (cfg : Config) (lb : LbState) (d : CtlMaps) (turns : List VipConfig)
    (a : UInt32) : Prop :=
  KnowsMac d a ∧ lb.Lasting cfg a ∨ ∃ u ∈ turns, Hears env cfg lb u a

theorem Consistent.knowsMac {pend : List UInt32} (h : Consistent pend lb d)
    (hmac : (lb.reals.macOf a).isSome) : KnowsMac d a := by
  rw [RealTable.macOf_eq, Option.isSome_iff_exists] at hmac
  obtain ⟨m, hm⟩ := hmac
  obtain ⟨e, he, hm⟩ := Option.bind_eq_some_iff.mp hm
  refine ⟨e.id, h.table.mirror.reals_entry h.table.wf he, ?_⟩
  rw [h.table.mirror.neigh_entry h.table.wf he, hm]
  exact h.table.wf.entry_mac_ne he hm

theorem Deleted.macOf_before (h : Deleted lb d spec v lb' d')
    (hmac : (lb'.reals.macOf a).isSome) : (lb.reals.macOf a).isSome := by
  rw [RealTable.macOf_eq, h.entry] at hmac
  rw [RealTable.macOf_eq]
  split_ifs at hmac
  · cases he : lb.reals.entry a with
    | none => simp [he] at hmac
    | some e =>
        rw [he, Option.bind_some, RealTable.Entry.drop] at hmac
        split_ifs at hmac
        · exact hmac
        · simp at hmac
  · exact hmac

theorem VipStep.macOf_before {hashChanged : Bool} {flags : UInt32} {want : ExtTreeMap UInt32 Nat}
    (h : VipStep env hashChanged lb d spec flags want v' d' lb')
    (hmac : (lb'.reals.macOf a).isSome) : (lb.reals.macOf a).isSome ∨
      (a ∈ want ∧ a ∉ lb.membersAt spec ∧ (answer env lb spec a).isSome) := by
  rw [RealTable.macOf_eq] at hmac
  rw [RealTable.macOf_eq]
  by_cases hw : a ∈ want <;> by_cases ha : a ∈ lb.membersAt spec
  · rw [h.entry_same a (iff_of_true hw ha)] at hmac
    exact .inl hmac
  · obtain ⟨e, he, hjoin⟩ := h.entry_new a hw ha
    rw [he, Option.bind_some, hjoin.mac, Option.isSome_or, Bool.or_eq_true] at hmac
    exact hmac.imp id fun hans => ⟨hw, ha, hans⟩
  · rw [h.entry_gone a ha hw] at hmac
    cases he : lb.reals.entry a with
    | none => simp [he] at hmac
    | some e =>
        rw [he, Option.bind_some, RealTable.Entry.drop] at hmac
        split_ifs at hmac
        · exact .inl hmac
        · simp at hmac
  · rw [h.entry_same a (iff_of_false hw ha)] at hmac
    exact .inl hmac

theorem Opened.knowsMac (h : Opened env cfg lb d z) (hl : Live lb d)
    (hmac : (z.2.reals.macOf a).isSome) : KnowsMac d a := by
  obtain ⟨d₀, lb₀, hstart, hdrop⟩ := h
  refine hl.consistent.knowsMac ?_
  rw [← (hstart.running hl.initialized).1]
  refine hdrop.invariant (I := fun _ z => (z.2.reals.macOf a).isSome → (lb₀.reals.macOf a).isSome)
    (fun h => h) ?_ hmac
  rintro gone spec rest - z z' hz hstep hmac
  rw [DropR] at hstep
  split_ifs at hstep
  · exact hz (hstep ▸ hmac)
  · obtain ⟨v, -, hdel⟩ := hstep
    exact hz (hdel.macOf_before hmac)

/-- Where a MAC is known from.  A MAC from before the call is the old one only while no
configured VIP has taken the address on; the first that does finds it gone, unless the
address lasts. -/
theorem Along.known_from (h : Along env cfg lb d done z) (hl : Live lb d) (hok : cfg.Ok)
    (hpre : done <+: cfg.vips) (hmac : (z.2.reals.macOf a).isSome) :
    (∃ u ∈ done, Hears env cfg lb u a) ∨
      KnowsMac d a ∧ ((∀ u ∈ done, a ∉ u.addrs) ∨ lb.Lasting cfg a) := by
  obtain ⟨z₁, hopen, hpath⟩ := h
  refine (hpath.invariant (I := fun done z => Along env cfg lb d done z ∧
    ((z.2.reals.macOf a).isSome → (∃ u ∈ done, Hears env cfg lb u a) ∨
      KnowsMac d a ∧ ((∀ u ∈ done, a ∉ u.addrs) ∨ lb.Lasting cfg a)))
    ⟨⟨z₁, hopen, rfl⟩, fun hmac => .inr ⟨hopen.knowsMac hl hmac, .inl (by simp)⟩⟩ ?_).2 hmac
  rintro before vc rest hdone z z' ⟨halong, hz⟩ ⟨v', hstep⟩
  obtain ⟨later, hlater⟩ := hpre
  have hvips : cfg.vips = before ++ vc :: (rest ++ later) := by simp [← hlater, hdone]
  refine ⟨halong.snoc ⟨v', hstep⟩, fun hmac => ?_⟩
  rcases hstep.macOf_before hmac with hold | ⟨hwant, hnew, hans⟩
  · rcases hz hold with ⟨u, hu, hears⟩ | ⟨hk, hno | hlast⟩
    · exact .inl ⟨u, List.mem_append_left _ hu, hears⟩
    · refine .inr ⟨hk, ?_⟩
      by_cases ha : a ∈ vc.addrs
      · -- the first VIP that lists the address
        have hused : a ∈ z.2.reals.used := by
          rw [RealTable.macOf_eq, Option.isSome_iff_exists] at hold
          obtain ⟨m, hm⟩ := hold
          obtain ⟨e, he, -⟩ := Option.bind_eq_some_iff.mp hm
          exact RealTable.mem_used.mpr ⟨e, he⟩
        rcases (halong.mem_used_iff hl hok hvips).mp hused with
          (⟨u, hu, hu'⟩ | ⟨u, hu, hmem⟩) | hleak
        · exact absurd hu' (hno u hu)
        · exact .inr (.inl (.inr ⟨before, vc, _, hvips, ha, u, hu, hmem⟩))
        · exact .inr (.inr hleak)
      · refine .inl fun u hu => ?_
        rcases List.mem_append.mp hu with hu | hu
        · exact hno u hu
        · exact List.mem_singleton.mp hu ▸ ha
    · exact .inr ⟨hk, .inr hlast⟩
  · refine .inl ⟨vc, by simp, (mem_wantOf (hok.vip_ok vc (by simp [hvips]))).mp hwant, ?_, ?_⟩
    · rwa [membersAt, halong.vip_eq hok hvips] at hnew
    · rwa [answer, halong.nextHop, Option.isSome_map] at hans

theorem Along.macOf_iff (h : Along env cfg lb d done z) (hl : Live lb d) (hok : cfg.Ok)
    (hpre : done <+: cfg.vips) (hu : u ∈ done) (ha : a ∈ wantOf u) :
    (z.2.reals.macOf a).isSome ↔ KnownBy env cfg lb d done a := by
  have huok := hok.vip_ok u (hpre.subset hu)
  constructor
  · intro hmac
    rcases h.known_from hl hok hpre hmac with hheard | ⟨hk, hno | hlast⟩
    · exact .inr hheard
    · exact absurd ((mem_wantOf huok).mp ha) (hno u hu)
    · exact .inl ⟨hk, hlast⟩
  · rintro (⟨⟨id, hid, hmac⟩, hlast⟩ | ⟨w, hw, hears⟩)
    · obtain ⟨e, he, -, hknown⟩ := h.known hok hpre hlast (wantOf_ne_zero huok a ha) hid
      rw [RealTable.macOf_eq, he, Option.bind_some, hknown hmac]
      rfl
    · exact h.heard hok hpre hw hears

/-! ## The backends of a turn -/

open Classical in
/-- The backends of a configured VIP when the MACs of `K` are known; `name` stands for the
ids. -/
noncomputable def backendsBy (name : UInt32 → Nat) (lb : LbState) (vc : VipConfig)
    (K : UInt32 → Prop) : List Backend :=
  (wantOf vc).toList.map fun r =>
    ⟨name r.1, r.1, if lb.ReadyIn vc r.1 ∧ K r.1 then r.2 else 0⟩

def ownName (a : UInt32) : Nat := pbRealNone + 1 + a.toNat

def tableName (lb : LbState) (a : UInt32) : Nat := (lb.reals.idOf a).getD 0

theorem backendsBy_congr {name name' : UInt32 → Nat} {K : UInt32 → Prop}
    (h : ∀ a ∈ wantOf vc, name a = name' a) :
    lb.backendsBy name vc K = lb.backendsBy name' vc K := by
  refine List.map_congr_left fun r hr => ?_
  rw [h r.1 (OrdMap.mem_iff.mpr ⟨r.2, mem_toList.mp hr⟩)]

theorem Configured.ready_iff (h : Configured env lb vc v') {m : Member}
    (hm : v'.members[a]? = some m) : m.ready = true ↔ lb.ReadyIn vc a := by
  have hstep := h.member a
  rw [hm] at hstep
  have hweight := hstep.weight_eq
  simp only [Member.ready, Bool.and_eq_true, decide_eq_true_eq, Bool.not_eq_true', ReadyIn,
    ← hweight, Option.map_some, Option.some.injEq, exists_eq_left', and_assoc]
  refine and_congr_right fun _ => ?_
  cases hold : (lb.membersAt vc.spec)[a]? with
  | none =>
      rw [hold, ← hweight] at hstep
      obtain ⟨m', hm', i, r, rfl⟩ := hstep
      have hup : m.draining = false ∧ m.up = true := by
        rw [Option.some.inj hm']
        exact ⟨rfl, rfl⟩
      exact iff_of_true hup (by simp)
  | some m₀ =>
      rw [hold] at hstep
      rw [hstep.kept]
      simp

theorem Configured.backendsOf_eq (h : Configured env lb vc v') {K : UInt32 → Prop}
    (hK : ∀ a ∈ wantOf vc, (lb₁.reals.macOf a).isSome ↔ K a) :
    lb₁.backendsOf v' = lb.backendsBy lb₁.tableName vc K := by
  classical
  have hmap : lb.backendsBy lb₁.tableName vc K = ((wantOf vc).map fun a w =>
      (⟨lb₁.tableName a, a, if lb.ReadyIn vc a ∧ K a then w else 0⟩ : Backend)).toList.map
        Prod.snd := by
    rw [ExtTreeMap.toList_map, List.map_map, backendsBy]
    refine List.map_congr_left fun r _ => ?_
    simp only [Function.comp_apply]
  rw [LbState.backendsOf_eq, hmap]
  congr 2
  refine ExtTreeMap.ext_getElem? fun a => ?_
  rw [ExtTreeMap.getElem?_map, ExtTreeMap.getElem?_map]
  have hweight := (h.member a).weight_eq
  cases hm : v'.members[a]? with
  | none => rw [← hweight, hm]; rfl
  | some m =>
      rw [hm, Option.map_some] at hweight
      rw [← hweight, Option.map_some, Option.map_some]
      have helig : lb₁.eligible a m = true ↔ lb.ReadyIn vc a ∧ K a := by
        rw [eligible_eq, Bool.and_eq_true, h.ready_iff hm,
          hK a (OrdMap.mem_iff.mpr ⟨_, hweight.symm⟩)]
      simp only [backendOf, helig, tableName]

theorem mem_backendsBy {name : UInt32 → Nat} {K : UInt32 → Prop} {b : Backend}
    (h : b ∈ lb.backendsBy name vc K) : b.addr ∈ wantOf vc ∧ b.realId = name b.addr := by
  obtain ⟨r, hr, rfl⟩ := List.mem_map.mp h
  exact ⟨OrdMap.mem_iff.mpr ⟨r.2, mem_toList.mp hr⟩, rfl⟩

theorem backendsBy_rename {name : UInt32 → Nat} {K : UInt32 → Prop} (f : Nat → Nat) :
    (lb.backendsBy name vc K).map (Backend.rename f) =
      lb.backendsBy (fun a => f (name a)) vc K := by
  rw [backendsBy, List.map_map]
  rfl

theorem renames_backendsBy (hc : Consistent [] lb₁ d')
    (hmem : ∀ a ∈ wantOf vc, ∃ e, lb₁.reals.entry a = some e) (K : UInt32 → Prop) :
    Renames (fun id => ownName (d'.reals id))
      (fun n => lb₁.tableName (UInt32.ofNat (n - (pbRealNone + 1))))
      (lb.backendsBy lb₁.tableName vc K) := by
  have hentry : ∀ b ∈ lb.backendsBy lb₁.tableName vc K, ∃ e,
      lb₁.reals.entry b.addr = some e ∧ b.realId = e.id := by
    intro b hb
    obtain ⟨hwant, hid⟩ := mem_backendsBy hb
    obtain ⟨e, he⟩ := hmem _ hwant
    exact ⟨e, he, by rw [hid, tableName, RealTable.idOf_eq, he]; rfl⟩
  refine ⟨?_, fun b hb => ?_, fun b hb => ?_, fun b _ => ?_⟩
  · rw [backendsBy, List.map_map, List.Nodup, List.pairwise_map]
    exact (wantOf vc).ordered_keys_toList.imp fun h => UInt32.ne_of_lt (compare_eq_lt.mp h)
  · obtain ⟨e, he, hid⟩ := hentry b hb
    have hreal := hc.table.mirror.reals_entry hc.table.wf he
    rw [hid, hreal, ownName, Nat.add_sub_cancel_left, UInt32.ofNat_toNat, tableName,
      RealTable.idOf_eq, he]
    rfl
  · obtain ⟨e, he, hid⟩ := hentry b hb
    have hrange := (hc.table.wf.entry_range he).2
    rw [hid]
    simp only [pbMaxReals] at hrange
    simp only [pbRealNone]
    omega
  · simp only [ownName]
    omega

theorem backendsBy_ownName (hc : Consistent [] lb₁ d')
    (hmem : ∀ a ∈ wantOf vc, ∃ e, lb₁.reals.entry a = some e) (K : UInt32 → Prop) :
    lb.backendsBy ownName vc K = (lb.backendsBy lb₁.tableName vc K).map
      (Backend.rename fun id => ownName (d'.reals id)) := by
  rw [backendsBy_rename]
  refine backendsBy_congr fun a ha => ?_
  obtain ⟨e, he⟩ := hmem a ha
  have hreal := hc.table.mirror.reals_entry hc.table.wf he
  simp only [tableName, RealTable.idOf_eq, he, Option.map_some, Option.getD_some, hreal]

/-! ## The rings -/

/-- The ring that the VIP has at the end is that of the members which are eligible at the
end: the one it gets after the turns `done`, or the one it has. -/
def RingRight (env : Env) (cfg : Config) (lb : LbState) (d : CtlMaps) (done : List VipConfig)
    (vc : VipConfig) : Prop :=
  if lb.touched (lb.hashChanges cfg) vc.spec (wantOf vc) then
    buildRing (lb.backendsBy ownName vc (KnownBy env cfg lb d (done ++ [vc]))) cfg.hash
        pbRingSize =
      buildRing (lb.backendsBy ownName vc (KnownBy env cfg lb d cfg.vips)) cfg.hash pbRingSize
  else
    ∃ (v : Vip) (r : InstalledRing), lb.vips[vc.spec]? = some v ∧ d.rings v.id = some r ∧
      buildRing (lb.backendsBy lb.tableName vc (KnownBy env cfg lb d cfg.vips)) cfg.hash
        pbRingSize = .ok r.slots

theorem Applied.along (h : Applied env cfg lb d d' lb') (hinit : lb.initialized = true) :
    Along env cfg lb d cfg.vips (d', lb') := by
  obtain ⟨z, halong, hend⟩ := h
  rw [if_pos hinit] at hend
  exact hend ▸ halong

theorem VipStep.tableName_else {hashChanged : Bool} {flags : UInt32}
    {want : ExtTreeMap UInt32 Nat} {s : VipSpec} {w : Vip}
    (h : VipStep env hashChanged lb d spec flags want v' d' lb') (hc : Consistent [] lb d)
    (hne : s ≠ spec) (hw : lb.vips[s]? = some w) (ha : a ∈ w.members) :
    lb'.tableName a = lb.tableName a := by
  obtain ⟨e, e', he, he', hid, -⟩ := h.entry_else hc hne hw ha
  simp only [tableName, RealTable.idOf_eq, he, he', Option.map_some, hid]

theorem Along.ring_rebuilt {turns : List VipConfig} (h : Along env cfg lb d turns z)
    (hl : Live lb d) (hok : cfg.Ok) (hpre : turns <+: cfg.vips)
    (hvips : cfg.vips = done ++ vc :: rest)
    (htouched : lb.touched (lb.hashChanges cfg) vc.spec (wantOf vc)) (hin : vc ∈ turns) :
    ∃ (v' : Vip) (r : InstalledRing), z.2.vips[vc.spec]? = some v' ∧
      z.1.rings v'.id = some r ∧
      buildRing (lb.backendsBy z.2.tableName vc (KnownBy env cfg lb d (done ++ [vc]))) cfg.hash
        pbRingSize = .ok r.slots := by
  obtain ⟨z₁, hopen, hpath⟩ := h
  refine (hpath.invariant (I := fun turns z => Along env cfg lb d turns z ∧
    (vc ∈ turns → ∃ (v' : Vip) (r : InstalledRing), z.2.vips[vc.spec]? = some v' ∧
      z.1.rings v'.id = some r ∧
      buildRing (lb.backendsBy z.2.tableName vc (KnownBy env cfg lb d (done ++ [vc]))) cfg.hash
        pbRingSize = .ok r.slots)) ⟨⟨z₁, hopen, rfl⟩, by simp⟩ ?_).2 hin
  rintro before u later' hturns z z' ⟨halong, hz⟩ ⟨v', hstep⟩
  have halong' := halong.snoc ⟨v', hstep⟩
  obtain ⟨later, hlater⟩ := hpre
  have hvips' : cfg.vips = before ++ u :: (later' ++ later) := by simp [← hlater, hturns]
  refine ⟨halong', fun hin => ?_⟩
  rcases List.mem_append.mp hin with hin | hin
  · -- the VIP has had its turn
    have hne := (hok.split hvips').1 vc hin
    obtain ⟨w, r, hw, hr, hslots⟩ := hz hin
    obtain ⟨w', hw', hconf⟩ := (halong.vips hok ⟨_, hvips'.symm⟩).2 vc hin
    obtain rfl := Option.some.inj (hw.symm.trans hw')
    have hvcok := hok.vip_ok vc (by simp [hvips])
    have hnames : ∀ a ∈ wantOf vc, z'.2.tableName a = z.2.tableName a := fun a ha =>
      hstep.tableName_else halong.facts.1 hne hw
        ((hconf.mem_members hvcok).mpr ((mem_wantOf hvcok).mp ha))
    have hw₁ : z'.2.vips[vc.spec]? = some w := (hstep.vip_else hne).trans hw
    exact ⟨w, r, hw₁, (hstep.ring_else hne hw₁).trans hr, by rwa [backendsBy_congr hnames]⟩
  · -- this is its turn
    obtain rfl := List.mem_singleton.mp hin
    obtain ⟨rfl, -⟩ : before = done ∧ later' ++ later = rest := by
      have hnot : ∀ {xs ys}, cfg.vips = xs ++ vc :: ys → vc ∉ xs ∧ vc ∉ ys := fun hsplit =>
        ⟨fun hmem => (hok.split hsplit).1 vc hmem rfl,
          fun hmem => (hok.split hsplit).2.1 vc hmem rfl⟩
      have heq := (List.append_cons_inj_of_notMem (hnot hvips').1 (hnot hvips').2).mp
        (hvips'.symm.trans hvips)
      exact ⟨heq.1, heq.2.2⟩
    have hpre' : before ++ [vc] <+: cfg.vips := ⟨later' ++ later, by simp [hvips']⟩
    obtain ⟨w, hw, hconf⟩ := (halong'.vips hok hpre').2 vc (by simp)
    obtain rfl := Option.some.inj (hw.symm.trans hstep.vip)
    obtain ⟨slots, hslots, hrings⟩ :=
      hstep.ring ((touched_congr (halong.vip_eq hok hvips')).trans htouched)
    refine ⟨w, _, hw, by rw [hrings, Function.update_self], ?_⟩
    rw [← hconf.backendsOf_eq fun a ha => halong'.macOf_iff hl hok hpre' (by simp) ha,
      ← halong.facts.2.2.1]
    exact hslots

theorem Along.ring_untouched {turns : List VipConfig} (h : Along env cfg lb d turns z)
    (hl : Live lb d) (hok : cfg.Ok) (hpre : turns <+: cfg.vips) (hvc : vc ∈ cfg.vips)
    (htouched : lb.touched (lb.hashChanges cfg) vc.spec (wantOf vc) = false)
    (hv : lb.vips[vc.spec]? = some v) :
    ∃ v' : Vip, z.2.vips[vc.spec]? = some v' ∧ z.1.rings v'.id = d.rings v.id := by
  have hhash : lb.hashChanges cfg = false := by
    rw [← Bool.not_eq_true]
    intro hhash
    simp [touched, hv, hhash] at htouched
  obtain ⟨z₁, hopen, hpath⟩ := h
  have hspec : vc.spec ∈ cfg.specs := List.mem_map_of_mem hvc
  have hv₁ : z₁.2.vips[vc.spec]? = some v := by rw [hopen.vips, if_pos hspec, hv]
  refine (hpath.invariant (I := fun turns z => Along env cfg lb d turns z ∧
    ∃ v' : Vip, z.2.vips[vc.spec]? = some v' ∧ z.1.rings v'.id = d.rings v.id)
    ⟨⟨z₁, hopen, rfl⟩, v, hv₁, ?_⟩ ?_).2
  · obtain ⟨v₀, hv₀, -, hring⟩ := (hopen.kept (.running hl.consistent) hhash).vip v hv₁
    rw [hring, Option.some.inj (hv₀.symm.trans hv)]
  · rintro before u later' hturns z z' ⟨halong, w, hw, hring⟩ ⟨v', hstep⟩
    obtain ⟨later, hlater⟩ := hpre
    have hvips : cfg.vips = before ++ u :: (later' ++ later) := by simp [← hlater, hturns]
    refine ⟨halong.snoc ⟨v', hstep⟩, ?_⟩
    by_cases hne : vc.spec = u.spec
    · obtain rfl : vc = u := List.inj_on_of_nodup_map hok.specs_nodup hvc (by simp [hvips]) hne
      refine ⟨v', hstep.vip, ?_⟩
      rw [hstep.ring_same ((touched_congr (halong.vip_eq hok hvips)).trans htouched),
        hstep.id_of_vip hw, hring]
    · have hw' : z'.2.vips[vc.spec]? = some w := (hstep.vip_else hne).trans hw
      exact ⟨w, hw', (hstep.ring_else hne hw').trans hring⟩

theorem Along.tableName_eq (h : Along env cfg lb d done z) (hl : Live lb d) (hok : cfg.Ok)
    (hpre : done <+: cfg.vips) (hvc : vc ∈ cfg.vips) (ha : a ∈ wantOf vc)
    (hmem : a ∈ lb.membersAt vc.spec) : z.2.tableName a = lb.tableName a := by
  obtain ⟨before, rest, hvips⟩ := List.append_of_mem hvc
  have hlast : lb.Lasting cfg a := .inl (.inr ⟨before, vc, rest, hvips,
    (mem_wantOf (hok.vip_ok vc hvc)).mp ha, vc, List.mem_cons_self, hmem⟩)
  obtain ⟨v, hv, hmem⟩ := mem_membersAt.mp hmem
  obtain ⟨e, he⟩ := hl.consistent.member_entry hv hmem
  have ht := hl.consistent.table
  obtain ⟨e', he', hid, -⟩ := h.known hok hpre hlast (ht.wf.entry_ne_zero he)
    (ht.mirror.reals_entry ht.wf he)
  simp only [tableName, RealTable.idOf_eq, he, he', Option.map_some, hid]

theorem mem_membersAt_of_untouched {hashChanged : Bool}
    (h : lb.touched hashChanged vc.spec (wantOf vc) = false) (ha : a ∈ wantOf vc) :
    a ∈ lb.membersAt vc.spec := by
  obtain ⟨v, hv, -, hsame⟩ := exists_of_untouched h
  obtain ⟨n, hn⟩ := OrdMap.mem_iff.mp ha
  have hdiff := hsame (a, n) (mem_toList.mpr hn)
  refine mem_membersAt.mpr ⟨v, hv, ?_⟩
  cases hm : v.members[a]? with
  | none => simp [differs, hm] at hdiff
  | some m => exact OrdMap.mem_iff.mpr ⟨m, hm⟩

theorem Applied.coherentAt_iff (h : Applied env cfg lb d d' lb') (hl : Live lb d) (hok : cfg.Ok)
    (hvips : cfg.vips = done ++ vc :: rest) :
    CoherentAt lb' d' vc.spec ↔ RingRight env cfg lb d done vc := by
  have halong := h.along hl.initialized
  have hvc : vc ∈ cfg.vips := by simp [hvips]
  have hvcok := hok.vip_ok vc hvc
  obtain ⟨v', hv', hconf⟩ := (halong.vips hok List.prefix_rfl).2 vc hvc
  have hback : lb'.backendsOf v' =
      lb.backendsBy lb'.tableName vc (KnownBy env cfg lb d cfg.vips) :=
    hconf.backendsOf_eq fun a ha => halong.macOf_iff hl hok List.prefix_rfl hvc ha
  have hco : CoherentAt lb' d' vc.spec ↔ ∃ r, d'.rings v'.id = some r ∧
      buildRing (lb.backendsBy lb'.tableName vc (KnownBy env cfg lb d cfg.vips)) cfg.hash
        pbRingSize = .ok r.slots := by
    rw [← hback, ← h.hash]
    constructor
    · exact fun hs => hs v' hv'
    · intro hr w hw
      obtain rfl := Option.some.inj (hw.symm.trans hv')
      exact hr
  rw [hco, RingRight]
  split_ifs with htouched
  · -- rebuilt: the ids do not matter
    obtain ⟨w, r, hw, hr, hslots⟩ := halong.ring_rebuilt hl hok List.prefix_rfl hvips htouched hvc
    obtain rfl := Option.some.inj (hw.symm.trans hv')
    have hmem : ∀ a ∈ wantOf vc, ∃ e, lb'.reals.entry a = some e := fun a ha =>
      h.consistent.member_entry hv' ((hconf.mem_members hvcok).mpr ((mem_wantOf hvcok).mp ha))
    have hren : ∀ K, Renames _ _ (lb.backendsBy lb'.tableName vc K) :=
      renames_backendsBy h.consistent hmem
    have hown : ∀ K, lb.backendsBy ownName vc K = _ := backendsBy_ownName h.consistent hmem
    rw [hown, hown, (hren _).buildRing_eq_iff (hren _) (.inr pbRingSize_prime), hslots]
    constructor
    · rintro ⟨r', hr', hslots'⟩
      rw [hslots', Option.some.inj (hr.symm.trans hr')]
    · exact fun heq => ⟨r, hr, heq.symm⟩
  · -- left alone: the members and their ids are what they were
    rw [Bool.not_eq_true] at htouched
    obtain ⟨v, hv, -, -⟩ := exists_of_untouched htouched
    obtain ⟨w, hw, hring⟩ := halong.ring_untouched hl hok List.prefix_rfl hvc htouched hv
    obtain rfl := Option.some.inj (hw.symm.trans hv')
    have hnames : ∀ a ∈ wantOf vc, lb'.tableName a = lb.tableName a := fun a ha =>
      halong.tableName_eq hl hok List.prefix_rfl hvc ha (mem_membersAt_of_untouched htouched ha)
    rw [backendsBy_congr hnames]
    constructor
    · rintro ⟨r, hr, hslots⟩
      exact ⟨v, r, hv, hring ▸ hr, hslots⟩
    · rintro ⟨v₀, r, hv₀, hr, hslots⟩
      obtain rfl := Option.some.inj (hv.symm.trans hv₀)
      exact ⟨r, hring.trans hr, hslots⟩

theorem Applied.coherent_iff_right (h : Applied env cfg lb d d' lb') (hl : Live lb d)
    (hok : cfg.Ok) : Coherent lb' d' ↔ ∀ done vc rest, cfg.vips = done ++ vc :: rest →
      RingRight env cfg lb d done vc := by
  constructor
  · exact fun hco done vc rest hvips => (h.coherentAt_iff hl hok hvips).mp (hco vc.spec)
  · intro hright s
    by_cases hin : s ∈ cfg.specs
    · obtain ⟨vc, hvc, rfl⟩ := List.mem_map.mp hin
      obtain ⟨done, rest, hvips⟩ := List.append_of_mem hvc
      exact (h.coherentAt_iff hl hok hvips).mpr (hright done vc rest hvips)
    · intro v hv
      exact absurd (((h.vips hok).1 s).mp (OrdMap.mem_iff.mpr ⟨v, hv⟩)) hin

end LbState

end PacketBalance
