import PacketBalance.LbState.Repair
import PacketBalance.System.Serving
/-!
# Reloading after a failed reload

`apply` works by difference against the model, which an exception may have left ahead of
the maps.  The next `apply` puts right what it finds different and no more: an entry whose
flags are up to date in the model, a ring whose members are, and a reference that nobody
will drop stay as they are.
-/

namespace PacketBalance

open WriteLog Std LbState

/-- The model and the maps are what the configuration says. -/
structure Converged (cfg : Config) (d : CtlMaps) (lb : LbState) : Prop where
  vips : ∀ s, s ∈ lb.vips ↔ s ∈ cfg.specs
  vipMap : ∀ s ∈ d.vipMap, s ∈ cfg.specs
  entry : ∀ vc ∈ cfg.vips, ∃ v, lb.vips[vc.spec]? = some v ∧
    d.vipMap[vc.spec]? = some ⟨v.id, if vc.noConntrack then 1 else 0⟩
  hash : lb.hash = cfg.hash
  rings : Coherent lb d
  refs : ∀ a, lb.reals.refsOf a = (cfg.vips.filter fun vc => a ∈ vc.addrs).length

/-- What `apply` will not put right is right already. -/
structure Recoverable (env : Env) (cfg : Config) (d : CtlMaps) (lb : LbState) : Prop where
  entry : ∀ vc ∈ cfg.vips, ∀ v, lb.vips[vc.spec]? = some v →
    v.flags = (if vc.noConntrack then 1 else 0) → d.vipMap[vc.spec]? = some ⟨v.id, v.flags⟩
  ring : ∀ done vc rest, cfg.vips = done ++ vc :: rest → RingRight env cfg lb d done vc
  refs : ∀ a, lb.reals.refsOf a = (holders lb.vips a).card

namespace LbState

variable {lb lb' : LbState} {d d' : CtlMaps} {env : Env} {cfg : Config} {z : CtlMaps × LbState}
  {done : List VipConfig}

/-! ## References -/

theorem Along.card_holders (h : Along env cfg lb d cfg.vips z) (hok : cfg.Ok) (a : UInt32) :
    (holders z.2.vips a).card = (cfg.vips.filter fun vc => a ∈ vc.addrs).length := by
  have heq : holders z.2.vips a =
      ((cfg.vips.filter fun vc => a ∈ vc.addrs).map VipConfig.spec).toFinset := by
    ext s
    rw [h.holder_iff hok List.prefix_rfl]
    simp only [List.mem_toFinset, List.mem_map, List.mem_filter, decide_eq_true_eq]
    constructor
    · rintro (⟨u, hu, rfl, ha⟩ | ⟨u, hu, rfl, hnot, -⟩)
      · exact ⟨u, ⟨hu, ha⟩, rfl⟩
      · exact absurd ⟨u, hu, rfl⟩ hnot
    · rintro ⟨u, ⟨hu, ha⟩, rfl⟩
      exact .inl ⟨u, hu, rfl, ha⟩
  have hnodup : ((cfg.vips.filter fun vc => a ∈ vc.addrs).map VipConfig.spec).Nodup :=
    hok.specs_nodup.sublist (List.filter_sublist.map _)
  rw [heq, List.toFinset_card_of_nodup hnodup, List.length_map]

/-! ## Entries -/

theorem Along.entry (h : Along env cfg lb d done z) (hok : cfg.Ok) (hpre : done <+: cfg.vips)
    {vc : VipConfig} (hvc : vc ∈ cfg.vips) :
    (vc.spec ∉ done.map VipConfig.spec → z.1.vipMap[vc.spec]? = d.vipMap[vc.spec]?) ∧
    (vc ∈ done → ∃ v', z.2.vips[vc.spec]? = some v' ∧ z.1.vipMap[vc.spec]? =
      if lb.vips[vc.spec]?.map Vip.flags = some (vipFlags vc.noConntrack)
      then d.vipMap[vc.spec]? else some ⟨v'.id, vipFlags vc.noConntrack⟩) := by
  obtain ⟨z₁, hopen, hpath⟩ := h
  refine (hpath.invariant (I := fun done z => Along env cfg lb d done z ∧
    (vc.spec ∉ done.map VipConfig.spec → z.1.vipMap[vc.spec]? = d.vipMap[vc.spec]?) ∧
    (vc ∈ done → ∃ v', z.2.vips[vc.spec]? = some v' ∧ z.1.vipMap[vc.spec]? =
      if lb.vips[vc.spec]?.map Vip.flags = some (vipFlags vc.noConntrack)
      then d.vipMap[vc.spec]? else some ⟨v'.id, vipFlags vc.noConntrack⟩))
    ⟨⟨z₁, hopen, rfl⟩, fun _ => ?_, by simp⟩ ?_).2
  · exact hopen.vipMap (List.mem_map_of_mem hvc)
  · rintro before u rest hdone z z' ⟨halong, hbefore, hdone'⟩ ⟨v', hstep⟩
    obtain ⟨later, hlater⟩ := hpre
    have hvips : cfg.vips = before ++ u :: (rest ++ later) := by simp [← hlater, hdone]
    refine ⟨halong.snoc ⟨v', hstep⟩, fun hnot => ?_, fun hin => ?_⟩
    · simp only [List.map_append, List.mem_append, not_or, List.map_cons, List.map_nil,
        List.mem_singleton] at hnot
      rw [hstep.vipMap_else hnot.2, hbefore hnot.1]
    · rcases List.mem_append.mp hin with hin | hin
      · have hne := (hok.split hvips).1 vc hin
        obtain ⟨v, hv, hentry⟩ := hdone' hin
        exact ⟨v, by rw [hstep.vip_else hne, hv], by rw [hstep.vipMap_else hne, hentry]⟩
      · obtain rfl := List.mem_singleton.mp hin
        have hfresh : vc.spec ∉ before.map VipConfig.spec := fun hin => by
          obtain ⟨u, hu, heq⟩ := List.mem_map.mp hin
          exact (hok.split hvips).1 u hu heq
        refine ⟨v', hstep.vip, ?_⟩
        rw [hstep.vipMap, entriesAfter, halong.vip_eq hok hvips]
        split_ifs
        · exact hbefore hfresh
        · rw [OrdMap.getElem?_insert, if_pos rfl]

/-! ## The end -/

theorem Applied.refs_iff (h : Applied env cfg lb d d' lb') (hl : Live lb d) (hok : cfg.Ok)
    (a : UInt32) : lb'.reals.refsOf a = (cfg.vips.filter fun vc => a ∈ vc.addrs).length ↔
      lb.reals.refsOf a = (holders lb.vips a).card := by
  have halong := h.along hl.initialized
  have hleak : lb'.reals.refsOf a + (holders lb.vips a).card =
      lb.reals.refsOf a + (holders lb'.vips a).card := halong.leak hl.initialized a
  have hcard : (holders lb'.vips a).card = _ := halong.card_holders hok a
  rw [← hcard]
  omega

theorem Applied.entry_iff (h : Applied env cfg lb d d' lb') (hl : Live lb d) (hok : cfg.Ok)
    {vc : VipConfig} (hvc : vc ∈ cfg.vips) :
    (∃ v', lb'.vips[vc.spec]? = some v' ∧
      d'.vipMap[vc.spec]? = some ⟨v'.id, vipFlags vc.noConntrack⟩) ↔
    ∀ v, lb.vips[vc.spec]? = some v → v.flags = vipFlags vc.noConntrack →
      d.vipMap[vc.spec]? = some ⟨v.id, v.flags⟩ := by
  obtain ⟨v', hv', hentry⟩ :=
    ((h.along hl.initialized).entry hok List.prefix_rfl hvc).2 hvc
  obtain ⟨v'', hv'', hconf⟩ := (h.vips hok).2 vc hvc
  obtain rfl : v' = v'' := Option.some.inj (hv'.symm.trans hv'')
  constructor
  · rintro ⟨v₁, hv₁, hval⟩ v hv hflags
    obtain rfl : v' = v₁ := Option.some.inj (hv'.symm.trans hv₁)
    rw [hv, Option.map_some, hflags, if_pos rfl] at hentry
    rw [← hentry, hval, hflags, hconf.id_eq v hv]
  · intro hold
    refine ⟨v', hv', hentry.trans ?_⟩
    split_ifs with hflags
    · obtain ⟨v, hv, hflags⟩ := Option.map_eq_some_iff.mp hflags
      rw [hold v hv hflags, hflags, hconf.id_eq v hv]
    · rfl

theorem Applied.not_mem_vipMap (h : Applied env cfg lb d d' lb') (hl : Live lb d) (hok : cfg.Ok)
    {vc : VipConfig} (hvc : vc ∈ cfg.vips) {v : Vip} (hv : lb.vips[vc.spec]? = some v)
    (hflags : v.flags = vipFlags vc.noConntrack) (hnot : vc.spec ∉ d.vipMap) :
    vc.spec ∉ d'.vipMap := by
  obtain ⟨v', -, hentry⟩ := ((h.along hl.initialized).entry hok List.prefix_rfl hvc).2 hvc
  rw [hv, Option.map_some, hflags, if_pos rfl] at hentry
  rw [OrdMap.notMem_iff] at hnot ⊢
  rw [← hnot]
  exact hentry

theorem Applied.vipMap_sub (h : Applied env cfg lb d d' lb') (hl : Live lb d) (hok : cfg.Ok)
    {s : VipSpec} (hs : s ∈ d'.vipMap) : s ∈ cfg.specs := by
  obtain ⟨hcons, -, -, hadopted⟩ := (h.along hl.initialized).facts
  obtain ⟨val, hval⟩ := OrdMap.mem_iff.mp hs
  rcases hcons.entry_named s val hval with ⟨v, hv, -⟩ | hid
  · exact ((h.vips hok).1 s).mp (OrdMap.mem_iff.mpr ⟨v, hv⟩)
  · have hold := hadopted hl.initialized s _ hid
    simp [hl.adopted] at hold

/-- An `apply` that returns leaves everything right exactly when what it does not touch
was right. -/
theorem Applied.converged_iff (h : Applied env cfg lb d d' lb') (hl : Live lb d)
    (hok : cfg.Ok) : Converged cfg d' lb' ↔ Recoverable env cfg d lb := by
  have hrings := h.coherent_iff_right hl hok
  constructor
  · intro hconv
    exact ⟨fun vc hvc => (h.entry_iff hl hok hvc).mp (hconv.entry vc hvc), hrings.mp hconv.rings,
      fun a => (h.refs_iff hl hok a).mp (hconv.refs a)⟩
  · intro hrec
    exact ⟨(h.vips hok).1, fun s => h.vipMap_sub hl hok,
      fun vc hvc => (h.entry_iff hl hok hvc).mpr (hrec.entry vc hvc),
      (h.along hl.initialized).facts.2.2.1, hrings.mpr hrec.ring,
      fun a => (h.refs_iff hl hok a).mpr (hrec.refs a)⟩

/-! ## A VIP that never got its entry -/

/-- The model has a new VIP without reals, and no map has it. -/
structure Unwritten (lb : LbState) (d : CtlMaps) (spec : VipSpec) (flags : UInt32)
    (d' : CtlMaps) (lb' : LbState) : Prop where
  vipMap : d'.vipMap = d.vipMap
  reals : lb'.reals = lb.reals
  vip : ∃ v, lb'.vips = lb.vips.insert spec v ∧ v.flags = flags ∧ v.members = ∅

theorem createVip_ring_fault (hc : Consistent [] lb d) {spec : VipSpec} (hnew : spec ∉ lb.vips)
    (hid : lb.idFor spec ≠ none) (hring : ∀ id, env.ringFault id ≠ none) (flags : UInt32) :
    wp (createVipLocked env spec flags ∅) (fun _ _ => True) (fun _ _ _ => False)
      (fun _ => Unwritten lb d spec flags) d lb := by
  simp only [createVipLocked, wp_bind, toList_empty, Prog.each, wp_modify, wp_pure]
  refine wp_mono (takeVipId_spec hnew fun _ _ => trivial) (fun _ _ hw => hw) ?_ ?_
  · rintro id _ _ ⟨hsome, rfl, rfl⟩
    simp only [OrdMap.insertIfNew_eq_insert hnew]
    refine wp_mono (rebuild_spec (hc.insertNew hnew hsome flags) ExtTreeMap.getElem?_insert_self
      fun _ _ => trivial) (fun _ _ hw => hw) ?_ ?_
    · rintro _ _ _ ⟨-, hnone, -⟩
      exact absurd hnone (hring id)
    · rintro _ _ _ ⟨-, rfl, rfl, -⟩
      refine ⟨rfl, rfl, _, OrdMap.insert_insert _ _ _ _, rfl, ?_⟩
      exact ExtTreeMap.ext_getElem? fun a => by simp [markInRing]
  · rintro _ _ _ ⟨-, hnone, -⟩
    exact absurd hnone hid

theorem apply_ring_fault (hl : Live lb d) (hnone : lb.vips = ∅) {vc : VipConfig}
    (hvips : cfg.vips = [vc]) (hreals : vc.reals = []) (hfault : ∀ w, env.fault w = none)
    {mac : Mac} (hmac : env.interfaceMac = some mac) (hring : ∀ id, env.ringFault id ≠ none) :
    wp (apply env cfg) (fun _ _ => True) (fun _ _ _ => False)
      (fun _ => Unwritten lb d vc.spec (vipFlags vc.noConntrack)) d lb := by
  have hkeys : lb.vips.keys = [] := by simp [hnone]
  have hwant : wantOf vc = ∅ := by simp [wantOf, hreals]
  have hvip : lb.vips[vc.spec]? = none := by simp [hnone]
  simp only [apply, applyOpening, writeConfigMap, applyVip, Prog.when, Prog.each, wp_bind, wp_get,
    wp_modify, wp_emit, wp_pure, write_configWrite, hl.initialized, hmac, hfault, hkeys, hvips,
    hvip, hwant, Bool.not_true, Bool.false_eq_true, if_false, true_and]
  have hid : idFor { lb with
      healthEnabled := cfg.health.enabled
      nextHop := cfg.nextHopBe
      hash := cfg.hash } vc.spec ≠ none := by
    intro hid
    simp only [idFor, hvip, hl.adopted, ExtTreeMap.getElem?_empty, Option.map_none,
      Option.none_or] at hid
    obtain ⟨s, ⟨v, hv, -⟩ | hs⟩ := allocateVipId_none hid (by decide : 0 < pbMaxVips)
    · simp [hnone] at hv
    · simp at hs
  have hfail := createVip_ring_fault (hl.consistent.configured cfg mac)
    (OrdMap.notMem_iff.mpr hvip) hid hring (vipFlags vc.noConntrack)
  simp only [hl.initialized] at hfail
  exact wp_mono hfail (fun _ _ hw => hw) (fun _ _ _ h => h)
    fun _ _ _ h => ⟨h.vipMap, h.reals, h.vip⟩

theorem apply_known_ok (hl : Live lb d) (henv : Healthy env) (hok : cfg.Ok) {vc : VipConfig}
    (hvips : cfg.vips = [vc]) (hv : vc.spec ∈ lb.vips) (hnone : ∀ a, lb.reals.entry a = none) :
    (apply env cfg d lb).res = .ok () := by
  cases hres : (apply env cfg d lb).res with
  | ok u => rfl
  | error err =>
      have hfail := (apply_spec henv.arrayOk hok (.running hl.consistent)).of_error hres
      obtain ⟨done, u, rest, z, hsplit, halong, hfull⟩ := hfail.cause henv
      obtain ⟨rfl, rfl⟩ : done = [] ∧ vc = u := by
        have hone : [vc] = done ++ u :: rest := hvips.symm.trans hsplit
        rcases List.singleton_eq_append_iff.mp hone with ⟨rfl, h⟩ | ⟨-, h⟩
        · exact ⟨rfl, (List.cons.inj h).1.symm⟩
        · cases h
      obtain ⟨v, hv⟩ := OrdMap.mem_iff.mp hv
      rcases hfull with ⟨-, hid⟩ | ⟨-, hcard⟩
      · rw [idFor, halong.vip_eq hok hsplit, hv] at hid
        cases hid
      · refine absurd hcard (Nat.not_lt.mpr (Nat.le_trans (Finset.card_le_card fun a ha => ?_)
          hok.few_addrs))
        have hvc : vc ∈ cfg.vips := by simp [hvips]
        rcases Finset.mem_union.mp ha with ha | ha
        · rcases (halong.mem_used_iff hl hok hsplit).mp ha with
            (⟨w, hw, -⟩ | ⟨w, -, hmem⟩) | ⟨-, hmore⟩
          · cases hw
          · obtain ⟨x, hx, hmem⟩ := mem_membersAt.mp hmem
            obtain ⟨e, he⟩ := hl.consistent.member_entry hx hmem
            rw [hnone] at he
            cases he
          · simp [RealTable.refsOf, hnone] at hmore
        · rw [List.mem_toFinset, ExtTreeMap.mem_keys, mem_wantOf (hok.vip_ok vc hvc)] at ha
          exact Config.mem_addrs.mpr ⟨vc, hvc, ha⟩

end LbState

namespace Serving

def bareConfig : ValidConfig where
  interface := "eth0"
  encapSrc := ⟨0, 0, 16⟩
  vips := [{ spec := sampleFlow.vip }]
  valid := by decide +kernel

/-- `apply` throws while it creates the VIP. -/
theorem Idle.unwritten {s : Serving} (h : Idle s) :
    (∃ err, ((Op.apply bareConfig).run ringlessEnv s.ctl s.lb).res = .error err) ∧
      Unwritten s.lb s.ctl sampleFlow.vip 0 (s.after ringlessEnv (.apply bareConfig)).ctl
        (s.after ringlessEnv (.apply bareConfig)).lb := by
  have hring : ∀ id, ringlessEnv.ringFault id ≠ none := fun _ => nofun
  have hspec : wp ((Op.apply bareConfig).run ringlessEnv) _ _ _ s.ctl s.lb :=
    apply_ring_fault h.reachable.live h.vips rfl rfl ringlessEnv_fault rfl hring
  cases hres : ((Op.apply bareConfig).run ringlessEnv s.ctl s.lb).res with
  | ok u => exact (hspec.of_ok hres).elim
  | error err => exact ⟨⟨err, rfl⟩, hspec.of_error hres⟩

theorem Idle.apply_ok {s : Serving} (h : Idle s) {cfg : ValidConfig} {vc : VipConfig}
    (hvips : cfg.vips = [vc]) (hvc : vc.spec = sampleFlow.vip) :
    ((Op.apply cfg).run System.quietEnv (s.after ringlessEnv (.apply bareConfig)).ctl
      (s.after ringlessEnv (.apply bareConfig)).lb).res = .ok () := by
  obtain ⟨-, hun⟩ := h.unwritten
  obtain ⟨v, hv, -⟩ := hun.vip
  refine apply_known_ok (h.reachable.after ringlessEnv_arrayOk _).live System.quietEnv_healthy
    cfg.ok hvips ?_ fun a => by rw [hun.reals, h.entry]
  rw [hvc, hv]
  exact ExtTreeMap.mem_insert_self

/-- In every state of a daemon, whatever has thrown before, an `apply` that returns
converges exactly when what it finds nothing to do about was right. -/
theorem converges_iff_recoverable {s : Serving} (h : Reachable s) (cfg : ValidConfig) {env : Env}
    (henv : ArrayOk env) (hok : ((Op.apply cfg).run env s.ctl s.lb).res = .ok ()) :
    Converged cfg.toConfig (s.after env (.apply cfg)).ctl (s.after env (.apply cfg)).lb ↔
      Recoverable env cfg.toConfig s.ctl s.lb :=
  ((apply_spec henv cfg.ok (.running h.live.consistent)).of_ok hok).converged_iff h.live cfg.ok

/-- The VIP of `bareConfig` with other flags and a real. -/
def flaggedConfig : ValidConfig where
  interface := "eth0"
  encapSrc := ⟨0, 0, 16⟩
  vips := [{ spec := sampleFlow.vip, noConntrack := true, reals := [{ addrBe := 0x1500000a }] }]
  valid := by decide +kernel

/-- After an `apply` that threw, one that changes the flags and the members of the VIP
converges. -/
theorem converges_iff_recoverable_sample : ∃ s env, Reachable s ∧
    (∃ err, ((Op.apply bareConfig).run env s.ctl s.lb).res = .error err) ∧
    let s₁ := s.after env (.apply bareConfig)
    ((Op.apply flaggedConfig).run System.quietEnv s₁.ctl s₁.lb).res = .ok () ∧
      Converged flaggedConfig.toConfig (s₁.after System.quietEnv (.apply flaggedConfig)).ctl
        (s₁.after System.quietEnv (.apply flaggedConfig)).lb := by
  obtain ⟨s, h⟩ : ∃ s, Idle s := ⟨_, idle_started System.quietEnv_healthy "eth0"⟩
  obtain ⟨hfail, hun⟩ := h.unwritten
  have hok : ((Op.apply flaggedConfig).run System.quietEnv _ _).res = .ok () := h.apply_ok rfl rfl
  have hreach := h.reachable.after ringlessEnv_arrayOk (.apply bareConfig)
  obtain ⟨v, hv, hflags, hnone⟩ := hun.vip
  have hvip : ∀ (x : VipSpec) (u : Vip),
      (s.after ringlessEnv (.apply bareConfig)).lb.vips[x]? = some u → u = v := by
    intro x u hu
    rw [hv, h.vips, OrdMap.getElem?_insert] at hu
    split_ifs at hu
    · exact (Option.some.inj hu).symm
    · simp at hu
  refine ⟨s, ringlessEnv, h.reachable, hfail, hok, (converges_iff_recoverable hreach _
    System.quietEnv_healthy.arrayOk hok).mpr ⟨?_, ?_, ?_⟩⟩
  · intro vc hvc u hu hset
    obtain rfl := List.mem_singleton.mp hvc
    rw [hvip _ u hu, hflags] at hset
    exact absurd hset (by decide)
  · intro done vc rest hvips
    obtain ⟨rfl, rfl⟩ : done = [] ∧ _ = vc := by
      rcases List.singleton_eq_append_iff.mp hvips with ⟨rfl, h⟩ | ⟨-, h⟩
      · exact ⟨rfl, (List.cons.inj h).1.symm⟩
      · cases h
    rw [RingRight, if_pos]
    · rfl
    · -- the real is new
      rw [← Bool.not_eq_false]
      intro htouched
      obtain ⟨u, hu, -, hsame⟩ := exists_of_untouched htouched
      refine hsame (0x1500000a, 1) (mem_toList.mpr rfl) ?_
      simp [differs, hvip _ u hu, hnone]
  · intro a
    have hempty : holders (s.after ringlessEnv (.apply bareConfig)).lb.vips a = ∅ := by
      refine Finset.eq_empty_of_forall_notMem fun x hx => ?_
      obtain ⟨u, hu, ha⟩ := mem_holders.mp hx
      simp [hvip x u hu, hnone] at ha
    rw [hempty, hun.reals, RealTable.refsOf, h.entry]
    rfl

/-- The reload that failed is repeated with success and the VIP is still not in `vip_map`. -/
theorem failed_reload_not_repaired : ∃ s env, Reachable s ∧ ArrayOk env ∧
    (∃ err, ((Op.apply bareConfig).run env s.ctl s.lb).res = .error err) ∧
    let s₁ := s.after env (.apply bareConfig)
    ((Op.apply bareConfig).run System.quietEnv s₁.ctl s₁.lb).res = .ok () ∧
      ¬Converged bareConfig.toConfig (s₁.after System.quietEnv (.apply bareConfig)).ctl
        (s₁.after System.quietEnv (.apply bareConfig)).lb := by
  obtain ⟨s, h⟩ : ∃ s, Idle s := ⟨_, idle_started System.quietEnv_healthy "eth0"⟩
  obtain ⟨hfail, hun⟩ := h.unwritten
  have hok : ((Op.apply bareConfig).run System.quietEnv _ _).res = .ok () := h.apply_ok rfl rfl
  have hlive := (h.reachable.after ringlessEnv_arrayOk (.apply bareConfig)).live
  have happ := (apply_spec System.quietEnv_healthy.arrayOk bareConfig.ok
    (.running hlive.consistent)).of_ok hok
  refine ⟨s, ringlessEnv, h.reachable, ringlessEnv_arrayOk, hfail, hok, fun hconv => ?_⟩
  have hvc : { spec := sampleFlow.vip } ∈ bareConfig.vips := List.mem_singleton.mpr rfl
  obtain ⟨v, hv, hflags, -⟩ := hun.vip
  have hold : sampleFlow.vip ∉ (s.after ringlessEnv (.apply bareConfig)).ctl.vipMap := by
    rw [hun.vipMap, OrdMap.notMem_iff, Option.eq_none_iff_forall_ne_some]
    intro val hval
    rcases h.reachable.live.consistent.entry_named _ val hval with ⟨u, hu, -⟩ | hs
    · simp [h.vips] at hu
    · simp [h.reachable.live.adopted] at hs
  refine happ.not_mem_vipMap hlive bareConfig.ok hvc (v := v) ?_ hflags hold ?_
  · rw [hv]
    exact ExtTreeMap.getElem?_insert_self
  · obtain ⟨w, -, hentry⟩ := hconv.entry _ hvc
    exact OrdMap.mem_iff.mpr ⟨_, hentry⟩

end Serving

end PacketBalance
