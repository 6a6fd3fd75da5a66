import PacketBalance.LbState.Along
/-!
# Applying what is in force already

`apply` writes the `config` map always and everything else only where the configuration
differs from the model.  A VIP that is as configured is left alone (`applyVip_unchanged`);
when every VIP is, the model does not change at all.
-/

namespace PacketBalance

open WriteLog Std

namespace LbState

variable {lb lb' : LbState} {d d' : CtlMaps} {env : Env} {cfg : Config} {vc : VipConfig} {v : Vip}

structure AsConfigured (vc : VipConfig) (v : Vip) : Prop where
  flags_eq : v.flags = vipFlags vc.noConntrack
  member_iff : ∀ (a : UInt32) (w : Nat), (∃ m, v.members[a]? = some m ∧ m.weight = w) ↔
    ∃ r ∈ vc.reals, r.addrBe = a ∧ r.weight = w

theorem AsConfigured.weight_eq (h : AsConfigured vc v) (hok : vc.Ok) (a : UInt32) :
    v.members[a]?.map Member.weight = (wantOf vc)[a]? := by
  ext w
  rw [Option.map_eq_some_iff, h.member_iff, getElem?_wantOf hok]

theorem Configured.asConfigured (h : Configured env lb vc v) (hok : vc.Ok) : AsConfigured vc v where
  flags_eq := h.flags_eq
  member_iff a w := by
    rw [← getElem?_wantOf hok, ← (h.member a).weight_eq, Option.map_eq_some_iff]

/-! ## One VIP -/

theorem AsConfigured.removed_eq (h : AsConfigured vc v) (hok : vc.Ok) :
    removedMembers v (wantOf vc) = [] := by
  rw [removedMembers, List.filter_eq_nil_iff]
  intro a ha
  have hmem : a ∈ wantOf vc := by
    obtain ⟨m, hm⟩ := OrdMap.mem_iff.mp (ExtTreeMap.mem_keys.mp ha)
    exact OrdMap.mem_iff.mpr ⟨m.weight, by rw [← h.weight_eq hok, hm]; rfl⟩
  simp [hmem]

theorem AsConfigured.fold_unchanged (h : AsConfigured vc v) (hok : vc.Ok)
    (hv : lb.vips[vc.spec]? = some v) :
    wp (Prog.fold (wantOf vc).toList false (reconcileMember env vc.spec)) (fun _ _ => False)
      (fun changed d' lb' => changed = false ∧ d' = d ∧ lb' = lb) (fun _ _ _ => False) d lb := by
  refine wp_fold (I := fun _ changed d' lb' => changed = false ∧ d' = d ∧ lb' = lb) _
    ⟨rfl, rfl, rfl⟩ ?_
  rintro done r rest hlist _ _ _ ⟨rfl, rfl, rfl⟩
  have hwant : (wantOf vc)[r.1]? = some r.2 :=
    ExtTreeMap.mem_toList_iff_getElem?_eq_some.mp (by rw [hlist]; simp)
  rw [← h.weight_eq hok, Option.map_eq_some_iff] at hwant
  obtain ⟨m, hm, hweight⟩ := hwant
  simp [reconcileMember, vipAt, hv, hm, hweight]

theorem reconcileVip_unchanged (h : AsConfigured vc v) (hok : vc.Ok)
    (hv : lb.vips[vc.spec]? = some v) :
    wp (reconcileVip env false vc.spec (vipFlags vc.noConntrack) (wantOf vc)) (fun _ _ => False)
      (fun _ d' lb' => d' = d ∧ lb' = lb) (fun _ _ _ => False) d lb := by
  have hflags : ¬v.flags ≠ vipFlags vc.noConntrack := not_not.mpr h.flags_eq
  simp only [reconcileVip, setFlags, vipAt, wp_bind, wp_get, hv, wp_pure, hflags, if_false,
    h.removed_eq hok, Prog.each, List.isEmpty_nil, Bool.not_true, Bool.or_false]
  refine wp_imp (h.fold_unchanged hok hv) ?_
  rintro _ _ _ ⟨rfl, rfl, rfl⟩
  simp [Prog.when]

theorem applyVip_unchanged (h : AsConfigured vc v) (hok : vc.Ok)
    (hv : lb.vips[vc.spec]? = some v) :
    wp (applyVip env false vc) (fun _ _ => False) (fun _ d' lb' => d' = d ∧ lb' = lb)
      (fun _ _ _ => False) d lb := by
  simp only [applyVip, wp_bind, wp_get, hv]
  exact reconcileVip_unchanged h hok hv

/-! ## A whole `apply` -/

structure InForce (cfg : Config) (lb : LbState) : Prop where
  initialized : lb.initialized = true
  hash : lb.hash = cfg.hash
  nextHop : lb.nextHop = cfg.nextHopBe
  healthEnabled : lb.healthEnabled = cfg.health.enabled
  specs : ∀ s ∈ lb.vips, s ∈ cfg.specs
  vip : ∀ vc ∈ cfg.vips, ∃ v, lb.vips[vc.spec]? = some v ∧ AsConfigured vc v

theorem InForce.dropNone (h : InForce cfg lb) {G : CtlMaps → MapWrite → Prop}
    {E : LbError → CtlMaps → LbState → Prop} :
    wp (Prog.each lb.vips.keys (dropUnwanted env cfg)) G (fun _ d' lb' => d' = d ∧ lb' = lb) E
      d lb := by
  refine wp_each (I := fun _ d' lb' => d' = d ∧ lb' = lb) _ ⟨rfl, rfl⟩ ?_
  rintro done spec rest hkeys d₁ lb₁ ⟨hd, hlb⟩
  have hmem : spec ∈ lb.vips.keys := by rw [hkeys]; simp
  simpa [dropUnwanted, h.specs spec (ExtTreeMap.mem_keys.mp hmem)] using ⟨hd, hlb⟩

theorem InForce.apply_again (h : InForce cfg lb) (hok : cfg.Ok) :
    wp (apply env cfg) (fun _ w => ∃ value, w = .configWrite value) (fun _ _ lb' => lb' = lb)
      (fun _ _ lb' => lb' = lb ∧ ¬Healthy env) d lb := by
  have hsame : { lb with
      healthEnabled := cfg.health.enabled
      nextHop := cfg.nextHopBe
      hash := cfg.hash } = lb := by
    rw [← h.hash, ← h.nextHop, ← h.healthEnabled]
  simp only [apply, applyOpening, wp_bind, wp_get, h.initialized, Bool.not_true, Prog.when,
    Bool.false_eq_true, if_false, wp_pure, wp_modify]
  refine wp_mono (writeConfigMap_spec fun mac => ⟨_, rfl⟩) (fun _ _ hw => hw) ?_
    fun err _ _ hfail => hfail.2
  rintro _ d₁ lb₁ ⟨hlb₁, -⟩
  subst lb₁
  rw [hsame, h.hash]
  simp only [ne_eq, not_true_eq_false, decide_false]
  refine wp_imp h.dropNone ?_
  rintro _ d₂ lb₂ ⟨-, hlb₂⟩
  subst lb₂
  refine wp_each (I := fun _ _ lb' => lb' = lb) cfg.vips rfl ?_
  rintro done vc rest hvips d₃ lb₃ hlb₃
  subst lb₃
  obtain ⟨v, hv, hvc⟩ := h.vip vc (by simp [hvips])
  exact wp_mono (applyVip_unchanged hvc (hok.vip_ok vc (by simp [hvips])) hv)
    (fun _ _ hw => hw.elim) (fun _ _ _ hend => hend.2) fun _ _ _ he => he.elim

theorem Along.settings {done : List VipConfig} {z : CtlMaps × LbState}
    (h : Along env cfg lb d done z) :
    z.2.nextHop = cfg.nextHopBe ∧ z.2.healthEnabled = cfg.health.enabled := by
  obtain ⟨z₁, ⟨d₀, lb₀, hstart, hdrop⟩, hpath⟩ := h
  obtain ⟨-, ⟨t, vips, hstate⟩, -⟩ := Path.drop_facts hstart.consistent hdrop
  obtain ⟨t₀, ids, hstate₀⟩ := hstart.state
  refine hpath.invariant (I := fun _ z => z.2.nextHop = cfg.nextHopBe ∧
    z.2.healthEnabled = cfg.health.enabled) (by rw [hstate, hstate₀]; exact ⟨rfl, rfl⟩) ?_
  rintro before vc rest - z z' hz ⟨v', hstep⟩
  obtain ⟨t, n, ids, hz'⟩ := hstep.state
  rw [hz']
  exact hz

theorem Applied.config (h : Applied env cfg lb d d' lb') :
    ∃ mac, d'.config = configValue cfg mac := by
  obtain ⟨z, ⟨z₁, ⟨d₀, lb₀, hstart, hdrop⟩, hvips⟩, hend⟩ := h
  obtain ⟨mac, -, rfl⟩ := hstart.maps
  have hz₁ : z₁.1.config = configValue cfg mac := by
    refine hdrop.invariant (I := fun _ z => z.1.config = configValue cfg mac) rfl ?_
    rintro _ spec _ _ z z' hz hstep
    unfold DropR at hstep
    split_ifs at hstep with hspec
    · rw [hstep, hz]
    · obtain ⟨v, -, hdel⟩ := hstep
      exact hdel.maps.config.trans hz
  have hz : z.1.config = configValue cfg mac := by
    refine hvips.invariant (I := fun _ z => z.1.config = configValue cfg mac) hz₁ ?_
    rintro _ vc _ _ z z' hz ⟨v', hstep⟩
    exact hstep.config.trans hz
  refine ⟨mac, ?_⟩
  split_ifs at hend
  · subst hend
    exact hz
  · exact hend.config.trans hz

theorem Applied.inForce (h : Applied env cfg lb d d' lb') (hok : cfg.Ok) : InForce cfg lb' := by
  obtain ⟨hspecs, hvips⟩ := h.vips hok
  have hsettings : lb'.nextHop = cfg.nextHopBe ∧ lb'.healthEnabled = cfg.health.enabled := by
    obtain ⟨z, halong, hend⟩ := h
    split_ifs at hend with hinit
    · obtain rfl : z = (d', lb') := hend
      exact halong.settings
    · obtain ⟨t, rfl⟩ := hend.state
      exact halong.settings
  refine ⟨h.initialized, h.hash, hsettings.1, hsettings.2, fun s hs => (hspecs s).mp hs, ?_⟩
  intro vc hvc
  obtain ⟨v, hv, hconf⟩ := hvips vc hvc
  exact ⟨v, hv, hconf.asConfigured (hok.vip_ok vc hvc)⟩

/-! ## The ring of a VIP that is as configured -/

theorem VipWrite.swap_ne {spec s : VipSpec} {flags : UInt32} {want : ExtTreeMap UInt32 Nat}
    {d₁ : CtlMaps} {id : Nat} {ring : InstalledRing}
    (hw : VipWrite env lb d spec flags want d₁ (.ringSwap id ring)) (hc : Consistent [] lb d)
    (hv : lb.vips[s]? = some v) (hne : s ≠ spec) : id ≠ v.id := by
  cases hw with
  | slot _ a ha hnew hmac hw => cases hw
  | ring v₁ lb₁ slots hshape hjoin hok =>
      intro heq
      have hnamed : lb.Named s v₁.id := .inl ⟨v, hv, heq.symm⟩
      by_cases hin : spec ∈ lb.vips
      · obtain ⟨u, hu⟩ := OrdMap.mem_iff.mp hin
        exact hc.id_ne hv hu hne (heq.symm.trans (hshape.id_of_vip hu))
      · exact hne (hc.idFor_own hin hshape.id_eq hnamed)

theorem Along.vip_id {done : List VipConfig} {z : CtlMaps × LbState}
    (h : Along env cfg lb d done z) (hok : cfg.Ok) (hpre : done <+: cfg.vips)
    (hvc : vc ∈ cfg.vips) (hv : lb.vips[vc.spec]? = some v) :
    ∃ v', z.2.vips[vc.spec]? = some v' ∧ v'.id = v.id := by
  obtain ⟨hlater, hdone⟩ := h.vips hok hpre
  by_cases hin : vc.spec ∈ done.map VipConfig.spec
  · obtain ⟨u, hu, heq⟩ := List.mem_map.mp hin
    obtain rfl : u = vc := List.inj_on_of_nodup_map hok.specs_nodup (hpre.subset hu) hvc heq
    obtain ⟨v', hv', hconf⟩ := hdone u hu
    exact ⟨v', hv', hconf.id_eq v hv⟩
  · have hspec : vc.spec ∈ cfg.specs := List.mem_map_of_mem hvc
    exact ⟨v, by rw [hlater _ hin, if_pos hspec, hv], rfl⟩

theorem Opened.keeps_ring {z : CtlMaps × LbState} (h : Opened env cfg lb d z)
    (henv : ArrayOk env) (hok : cfg.Ok) (hvc : vc ∈ cfg.vips) (hv : lb.vips[vc.spec]? = some v)
    (hsame : AsConfigured vc v) (hhash : lb.hash = cfg.hash) :
    wp (Prog.each cfg.vips (applyVip env (lb.hashChanges cfg)))
      (fun _ w => ∀ ring, w ≠ .ringSwap v.id ring) (fun _ _ _ => True) (fun _ _ _ => True)
      z.1 z.2 := by
  have hchanged : lb.hashChanges cfg = false := by simp [hashChanges, hhash]
  refine wp_imp (wp_each (I := fun done d' lb' => Along env cfg lb d done (d', lb')) cfg.vips
    ⟨z, h, rfl⟩ ?_) fun _ _ _ _ => trivial
  intro done u rest hvips d₁ lb₁ halong
  have hpre : done <+: cfg.vips := ⟨_, hvips.symm⟩
  have hu : u ∈ cfg.vips := by simp [hvips]
  have hspec := applyVip_spec henv halong.facts.1 (lb.hashChanges cfg) u
    (wantOf_ne_zero (hok.vip_ok u hu))
  by_cases heq : vc.spec = u.spec
  · -- its own turn: it still is what it was, and nothing is written
    obtain rfl : vc = u := List.inj_on_of_nodup_map hok.specs_nodup hvc hu heq
    have hv₁ : lb₁.vips[vc.spec]? = some v := by
      have hlater := (halong.vips hok hpre).1 vc.spec fun hin => by
        obtain ⟨x, hx, hxu⟩ := List.mem_map.mp hin
        exact (hok.split hvips).1 x hx hxu
      have hmem : vc.spec ∈ cfg.specs := List.mem_map_of_mem hvc
      rw [hlater, if_pos hmem, hv]
    rw [hchanged] at hspec ⊢
    refine wp_mono (wp_and hspec (applyVip_unchanged hsame (hok.vip_ok vc hvc) hv₁))
      (fun _ _ hw => hw.2.elim) (fun _ _ _ hend => ?_) fun _ _ _ _ => trivial
    exact halong.snoc (by rw [hchanged]; exact hend.1)
  · obtain ⟨v₁, hv₁, hid⟩ := halong.vip_id hok hpre hvc hv
    refine wp_mono hspec ?_ (fun _ _ _ hend => halong.snoc hend) fun _ _ _ _ => trivial
    rintro d₂ w hw ring rfl
    exact hw.swap_ne halong.facts.1 hv₁ heq hid.symm

theorem apply_keeps_ring (henv : ArrayOk env) (hok : cfg.Ok) (h : Startable lb d)
    (hinit : lb.initialized = true) (hvc : vc ∈ cfg.vips) (hv : lb.vips[vc.spec]? = some v)
    (hsame : AsConfigured vc v) (hhash : lb.hash = cfg.hash) :
    wp (apply env cfg) (fun _ w => ∀ ring, w ≠ .ringSwap v.id ring) (fun _ _ _ => True)
      (fun _ _ _ => True) d lb := by
  simp only [apply, wp_bind, wp_get]
  refine wp_mono (applyOpening_spec (G := fun _ w => ∀ ring, w ≠ .ringSwap v.id ring) henv h
    (fun _ _ h => by cases h) ?_) (fun _ _ hw => hw) ?_ fun _ _ _ _ => trivial
  · rintro done spec rest u d₀ lb₀ z d₁ w - - - - - hw ring rfl
    cases hw
  · rintro _ d₁ lb₁ ⟨rfl, hopen⟩
    refine wp_imp (hopen.keeps_ring henv hok hvc hv hsame hhash) fun _ _ _ _ => ?_
    simp [hinit, Prog.when]

end LbState

end PacketBalance
