import PacketBalance.LbState.Adopt
/-!
# Applying a configuration

One `apply` is a path: from the start (after adoption on the first call) through
the deletions of VIPs that are not configured, then through the configured VIPs in
order.  `Applied`, `ApplyWrite` and `ApplyFailed` describe its normal end, its
writes and its exceptions by the states on that path, whatever state it started
from.
-/

namespace PacketBalance

open WriteLog Std

namespace LbState

variable {lb : LbState} {d : CtlMaps} {env : Env}

theorem getElem?_wantOf {vc : VipConfig} (hok : vc.Ok) {a : UInt32} {w : Nat} :
    (wantOf vc)[a]? = some w ↔ ∃ r ∈ vc.reals, r.addrBe = a ∧ r.weight = w := by
  rw [wantOf, OrdMap.getElem?_foldl_insert _ _ _ _ hok.addrs_nodup]
  simp

theorem mem_wantOf {vc : VipConfig} (hok : vc.Ok) {a : UInt32} :
    a ∈ wantOf vc ↔ a ∈ vc.addrs := by
  rw [OrdMap.mem_iff, VipConfig.mem_addrs]
  simp only [getElem?_wantOf hok]
  constructor
  · rintro ⟨w, r, hr, ha, -⟩
    exact ⟨r, hr, ha⟩
  · rintro ⟨r, hr, ha⟩
    exact ⟨r.weight, r, hr, ha, rfl⟩

theorem wantOf_ne_zero {vc : VipConfig} (hok : vc.Ok) : ∀ a ∈ wantOf vc, a ≠ 0 := by
  intro a ha
  obtain ⟨r, hr, rfl⟩ := VipConfig.mem_addrs.mp ((mem_wantOf hok).mp ha)
  exact hok.addr_ne_zero r hr

/-! ## The path -/

/-- The start: adoption is over and the `config` map is written. -/
structure Start (env : Env) (cfg : Config) (lb : LbState) (d : CtlMaps) (d₀ : CtlMaps)
    (lb₀ : LbState) : Prop where
  consistent : Consistent [] lb₀ d₀
  maps : ∃ mac, env.interfaceMac = some mac ∧ d₀ = { d with config := configValue cfg mac }
  state : ∃ t ids, lb₀ = { lb with
    reals := t
    adoptedVipIds := ids
    healthEnabled := cfg.health.enabled
    nextHop := cfg.nextHopBe
    hash := cfg.hash }
  running : lb.initialized → lb₀.reals = lb.reals ∧ lb₀.adoptedVipIds = lb.adoptedVipIds
  slots : lb.initialized = false → ∀ id, lb₀.reals.slots id = lb.reals.pinnedSlot d id
  pinned : lb.initialized = false → ∀ s : VipSpec, lb₀.adoptedVipIds[s]? =
    (d.vipMap[s]?.map VipValue.vipId).or lb.adoptedVipIds[s]?

def DropR (cfg : Config) (spec : VipSpec) (z z' : CtlMaps × LbState) : Prop :=
  if spec ∈ cfg.specs then z' = z
  else ∃ v, z.2.vips[spec]? = some v ∧ Deleted z.2 z.1 spec v z'.2 z'.1

/-- The state when the loop over the configured VIPs begins. -/
def Opened (env : Env) (cfg : Config) (lb : LbState) (d : CtlMaps) (z : CtlMaps × LbState) :
    Prop :=
  ∃ d₀ lb₀, Start env cfg lb d d₀ lb₀ ∧ Path (DropR cfg) lb.vips.keys (d₀, lb₀) z

def hashChanges (lb : LbState) (cfg : Config) : Bool := decide (lb.hash ≠ cfg.hash)

def VipR (env : Env) (hashChanged : Bool) (vc : VipConfig) (z z' : CtlMaps × LbState) :
    Prop :=
  ∃ v', VipStep env hashChanged z.2 z.1 vc.spec (vipFlags vc.noConntrack) (wantOf vc) v'
    z'.1 z'.2

/-- The state when the configured VIPs `done` have been dealt with. -/
def Along (env : Env) (cfg : Config) (lb : LbState) (d : CtlMaps) (done : List VipConfig)
    (z : CtlMaps × LbState) : Prop :=
  ∃ z₁, Opened env cfg lb d z₁ ∧ Path (VipR env (lb.hashChanges cfg)) done z₁ z

def Applied (env : Env) (cfg : Config) (lb : LbState) (d : CtlMaps) (d' : CtlMaps)
    (lb' : LbState) : Prop :=
  ∃ z, Along env cfg lb d cfg.vips z ∧
    if lb.initialized then z = (d', lb') else Finished z.2 z.1 d' lb'

inductive ApplyWrite (env : Env) (cfg : Config) (lb : LbState) (d : CtlMaps)
    (d₁ : CtlMaps) : MapWrite → Prop
  | config (mac : Mac) (hd : d₁ = d) :
      ApplyWrite env cfg lb d d₁ (.configWrite (configValue cfg mac))
  | drop (done : List VipSpec) (spec : VipSpec) (rest : List VipSpec) (v : Vip)
      (d₀ : CtlMaps) (lb₀ : LbState) (z : CtlMaps × LbState) (w : MapWrite)
      (hkeys : lb.vips.keys = done ++ spec :: rest) (hstart : Start env cfg lb d d₀ lb₀)
      (hpath : Path (DropR cfg) done (d₀, lb₀) z) (hspec : spec ∉ cfg.specs)
      (hv : z.2.vips[spec]? = some v) (hw : DeleteWrite z.2 z.1 spec v d₁ w) :
      ApplyWrite env cfg lb d d₁ w
  | vip (done : List VipConfig) (vc : VipConfig) (rest : List VipConfig)
      (z : CtlMaps × LbState) (w : MapWrite) (hvips : cfg.vips = done ++ vc :: rest)
      (halong : Along env cfg lb d done z)
      (hw : VipWrite env z.2 z.1 vc.spec (vipFlags vc.noConntrack) (wantOf vc) d₁ w) :
      ApplyWrite env cfg lb d d₁ w
  | finish (z : CtlMaps × LbState) (w : MapWrite) (hfirst : lb.initialized = false)
      (halong : Along env cfg lb d cfg.vips z) (hw : FinishWrite z.2 z.1 d₁ w) :
      ApplyWrite env cfg lb d d₁ w

/-- Why an `apply` throws when every call into the kernel succeeds: the VIP at hand
finds no free id or one of its addresses does not. -/
def NoRoom (env : Env) (cfg : Config) (lb : LbState) (d : CtlMaps) (err : LbError) : Prop :=
  ∃ done vc rest z, cfg.vips = done ++ vc :: rest ∧ Along env cfg lb d done z ∧
    ((err = tooManyVips ∧ z.2.idFor vc.spec = none) ∨
      (err = RealTable.tooManyReals ∧
        pbMaxReals - 1 < (z.2.reals.used ∪ (wantOf vc).keys.toFinset).card))

structure ApplyFailed (env : Env) (cfg : Config) (lb : LbState) (d : CtlMaps) (err : LbError)
    (d' : CtlMaps) (lb' : LbState) : Prop where
  kept : lb.initialized → Failed lb d d' lb'
  initialized : lb'.initialized = lb.initialized
  cause : Healthy env → NoRoom env cfg lb d err

/-! ## Facts along the path -/

section Along

variable {cfg : Config} {z : CtlMaps × LbState}

theorem Path.drop_facts {d₀ : CtlMaps} {lb₀ : LbState} {done : List VipSpec}
    (h : Consistent [] lb₀ d₀) (hpath : Path (DropR cfg) done (d₀, lb₀) z) :
    Consistent [] z.2 z.1 ∧
      (∃ t vips, z.2 = { lb₀ with reals := t, vips }) ∧
      ∀ s : VipSpec, z.2.vips[s]? =
        if s ∈ done ∧ s ∉ cfg.specs then none else lb₀.vips[s]? := by
  refine hpath.invariant (I := fun done z => Consistent [] z.2 z.1 ∧
    (∃ t vips, z.2 = { lb₀ with reals := t, vips }) ∧ ∀ s : VipSpec, z.2.vips[s]? =
      if s ∈ done ∧ s ∉ cfg.specs then none else lb₀.vips[s]?)
    ⟨h, ⟨lb₀.reals, lb₀.vips, rfl⟩, by simp⟩ ?_
  rintro done spec rest - z z' ⟨hc, ⟨t, vips, hstate⟩, hvips⟩ hstep
  rw [DropR] at hstep
  split_ifs at hstep with hspec
  · subst hstep
    refine ⟨hc, ⟨t, vips, hstate⟩, fun s => ?_⟩
    rw [hvips]
    by_cases hs : s = spec <;> simp [hs, hspec]
  · obtain ⟨v, hv, hdel⟩ := hstep
    obtain ⟨t', hstate'⟩ := hdel.state
    refine ⟨hdel.consistent, ⟨t', z.2.vips.erase spec, by rw [hstate', hstate]⟩, fun s => ?_⟩
    rw [hstate', OrdMap.getElem?_erase, hvips]
    by_cases hs : s = spec <;> simp [hs, hspec]

theorem Along.facts {done : List VipConfig} (h : Along env cfg lb d done z) :
    Consistent [] z.2 z.1 ∧ z.2.initialized = lb.initialized ∧ z.2.hash = cfg.hash ∧
      (lb.initialized → ∀ (s : VipSpec) (id : Nat), z.2.adoptedVipIds[s]? = some id →
        lb.adoptedVipIds[s]? = some id) := by
  obtain ⟨z₁, ⟨d₀, lb₀, hstart, hdrop⟩, hpath⟩ := h
  obtain ⟨hc, ⟨t, vips, hstate⟩, -⟩ := Path.drop_facts hstart.consistent hdrop
  obtain ⟨t₀, ids, hstate₀⟩ := hstart.state
  refine hpath.invariant (I := fun _ z => Consistent [] z.2 z.1 ∧
    z.2.initialized = lb.initialized ∧ z.2.hash = cfg.hash ∧
    (lb.initialized → ∀ (s : VipSpec) (id : Nat), z.2.adoptedVipIds[s]? = some id →
      lb.adoptedVipIds[s]? = some id)) ?_ ?_
  · refine ⟨hc, by rw [hstate, hstate₀], by rw [hstate, hstate₀], fun hinit s id hs => ?_⟩
    rw [hstate] at hs
    rwa [(hstart.running hinit).2] at hs
  · rintro done vc rest - z z' ⟨-, hinit, hhash, hadopted⟩ ⟨v', hstep⟩
    exact ⟨hstep.consistent, hstep.initialized.trans hinit, hstep.hash.trans hhash,
      fun hi s id hs => hadopted hi s id (hstep.adopted_of hs)⟩

theorem Start.vips {d₀ : CtlMaps} {lb₀ : LbState} (h : Start env cfg lb d d₀ lb₀) :
    lb₀.vips = lb.vips := by
  obtain ⟨t, ids, rfl⟩ := h.state
  rfl

theorem Start.backed {d₀ : CtlMaps} {lb₀ : LbState} (h : Start env cfg lb d d₀ lb₀)
    (hinit : lb.initialized) (hb : Backed lb d) : Backed lb₀ d₀ := by
  obtain ⟨mac, -, rfl⟩ := h.maps
  exact hb.congr rfl rfl rfl h.vips (h.running hinit).1

theorem Path.drop_backed {d₀ : CtlMaps} {lb₀ : LbState} {done : List VipSpec}
    (h : Consistent [] lb₀ d₀) (hb : Backed lb₀ d₀) (hpath : Path (DropR cfg) done (d₀, lb₀) z) :
    Backed z.2 z.1 := by
  refine (hpath.invariant (I := fun _ z => Consistent [] z.2 z.1 ∧ Backed z.2 z.1)
    ⟨h, hb⟩ ?_).2
  rintro done spec rest - z z' ⟨hc, hb⟩ hstep
  rw [DropR] at hstep
  split_ifs at hstep with hspec
  · exact hstep ▸ ⟨hc, hb⟩
  · obtain ⟨v, hv, hdel⟩ := hstep
    exact ⟨hdel.consistent, hdel.backed hc hv hb⟩

theorem Along.backed {done : List VipConfig} (h : Along env cfg lb d done z)
    (hinit : lb.initialized) (hb : Backed lb d) : Backed z.2 z.1 := by
  obtain ⟨z₁, ⟨d₀, lb₀, hstart, hdrop⟩, hpath⟩ := h
  have hc₁ := (Path.drop_facts hstart.consistent hdrop).1
  have hb₁ := Path.drop_backed hstart.consistent (hstart.backed hinit hb) hdrop
  refine (hpath.invariant (I := fun _ z => Consistent [] z.2 z.1 ∧ Backed z.2 z.1)
    ⟨hc₁, hb₁⟩ ?_).2
  rintro done vc rest - z z' ⟨hc, hb⟩ ⟨v', hstep⟩
  exact ⟨hstep.consistent, hstep.backed hc hb⟩

theorem Along.adopted_empty {done : List VipConfig} (h : Along env cfg lb d done z)
    (hinit : lb.initialized) (hadopted : lb.adoptedVipIds = ∅) : z.2.adoptedVipIds = ∅ := by
  rw [ExtTreeMap.eq_empty_iff_forall_not_mem]
  intro s hmem
  obtain ⟨id, hs⟩ := OrdMap.mem_iff.mp hmem
  have hold := h.facts.2.2.2 hinit s id hs
  simp [hadopted] at hold

theorem Applied.initialized {d' : CtlMaps} {lb' : LbState} (h : Applied env cfg lb d d' lb') :
    lb'.initialized := by
  obtain ⟨z, halong, hend⟩ := h
  split_ifs at hend with hinit
  · obtain rfl : z = (d', lb') := hend
    exact halong.facts.2.1.trans hinit
  · obtain ⟨t, rfl⟩ := hend.state
    rfl

theorem Applied.consistent {d' : CtlMaps} {lb' : LbState} (h : Applied env cfg lb d d' lb') :
    Consistent [] lb' d' := by
  obtain ⟨z, halong, hend⟩ := h
  split_ifs at hend
  · subst hend
    exact halong.facts.1
  · exact hend.consistent

theorem Applied.hash {d' : CtlMaps} {lb' : LbState} (h : Applied env cfg lb d d' lb') :
    lb'.hash = cfg.hash := by
  obtain ⟨z, halong, hend⟩ := h
  split_ifs at hend with hinit
  · obtain rfl : z = (d', lb') := hend
    exact halong.facts.2.2.1
  · obtain ⟨t, rfl⟩ := hend.state
    exact halong.facts.2.2.1

end Along

/-! ## The specification -/

section Spec

variable {cfg : Config}

/-- The model when the `config` map is about to be written. -/
structure Entered (lb : LbState) (d : CtlMaps) (lb' : LbState) : Prop where
  consistent : Consistent [] lb' d
  state : ∃ t ids, lb' = { lb with reals := t, adoptedVipIds := ids }
  running : lb.initialized → lb' = lb
  slots : lb.initialized = false → ∀ id, lb'.reals.slots id = lb.reals.pinnedSlot d id
  pinned : lb.initialized = false → ∀ s : VipSpec, lb'.adoptedVipIds[s]? =
    (d.vipMap[s]?.map VipValue.vipId).or lb.adoptedVipIds[s]?

theorem adoptFirst_spec {G : CtlMaps → MapWrite → Prop}
    {E : LbError → CtlMaps → LbState → Prop} (h : Startable lb d) :
    wp (Prog.when (!lb.initialized) adoptLocked) G (fun _ d' lb' => d' = d ∧ Entered lb d lb')
      E d lb := by
  rw [wp_when]
  constructor
  · intro hfirst
    simp only [Bool.not_eq_true'] at hfirst
    refine wp_imp (adoptLocked_spec h) ?_
    rintro _ d' lb' ⟨rfl, ha⟩
    exact ⟨rfl, ha.consistent, ha.state, fun hinit => by simp [hfirst] at hinit,
      fun _ => ha.slots, fun _ => ha.pinned⟩
  · intro hinit
    simp only [Bool.not_eq_false'] at hinit
    cases h with
    | running h =>
        exact ⟨rfl, h, ⟨lb.reals, lb.adoptedVipIds, rfl⟩, fun _ => rfl,
          fun hno => by simp [hinit] at hno, fun hno => by simp [hinit] at hno⟩
    | restarted interface hlb h => simp [hlb] at hinit

theorem Consistent.configured (h : Consistent [] lb d) (cfg : Config) (mac : Mac) :
    Consistent [] { lb with
      healthEnabled := cfg.health.enabled
      nextHop := cfg.nextHopBe
      hash := cfg.hash } { d with config := configValue cfg mac } :=
  ⟨h.table.congr rfl rfl, h.key, h.named_lt, h.named_inj, h.named_fun, h.entry_named, h.held⟩

theorem writeConfigMap_spec {G : CtlMaps → MapWrite → Prop}
    (hG : ∀ mac, G d (.configWrite (configValue cfg mac))) :
    wp (writeConfigMap env cfg) G
      (fun _ d' lb' => lb' = lb ∧ ∃ mac, env.interfaceMac = some mac ∧
        d' = { d with config := configValue cfg mac })
      (fun _ d' lb' => d' = d ∧ lb' = lb ∧ ¬Healthy env) d lb := by
  simp only [writeConfigMap, wp_bind, wp_get]
  cases hmac : env.interfaceMac with
  | none =>
      simp only [wp_throw, true_and]
      exact fun hhealthy => by simpa [hmac] using hhealthy.interfaceMac
  | some mac =>
      cases hfault : env.fault (.configWrite (configValue cfg mac)) with
      | some err =>
          simp only [wp_throw, hfault, true_and]
          exact fun hhealthy => by simp [hhealthy.fault] at hfault
      | none =>
          simp only [hfault, wp_emit, write_configWrite, true_and]
          exact ⟨hG _, mac, rfl, rfl⟩

theorem dropUnwanted_spec {G : CtlMaps → MapWrite → Prop} (henv : ArrayOk env) {d₀ : CtlMaps}
    {lb₀ : LbState} (hstart : Start env cfg lb d d₀ lb₀)
    (hG : ∀ done spec rest v z d₁ w, lb.vips.keys = done ++ spec :: rest →
      Path (DropR cfg) done (d₀, lb₀) z → spec ∉ cfg.specs → z.2.vips[spec]? = some v →
      DeleteWrite z.2 z.1 spec v d₁ w → G d₁ w) :
    wp (Prog.each lb.vips.keys (dropUnwanted env cfg)) G
      (fun _ d' lb' => Path (DropR cfg) lb.vips.keys (d₀, lb₀) (d', lb'))
      (ApplyFailed env cfg lb d) d₀ lb₀ := by
  have hvips₀ : lb₀.vips = lb.vips := by
    obtain ⟨t, ids, rfl⟩ := hstart.state
    rfl
  refine wp_mono (wp_each_path (R := DropR cfg)
    (P := fun spec z d₁ w => spec ∉ cfg.specs ∧ ∃ v, z.2.vips[spec]? = some v ∧
      DeleteWrite z.2 z.1 spec v d₁ w)
    (F := fun spec z _ d' lb' => lb' = z.2 ∧ Consistent [] lb' d' ∧
      (Backed z.2 z.1 → Backed z.2 d') ∧ ¬Healthy env)
    lb.vips.keys ?_) ?_ (fun _ _ _ hq => hq) ?_
  · intro done spec rest hkeys d₁ lb₁ hpath
    obtain ⟨hc, -, hvips⟩ := Path.drop_facts hstart.consistent hpath
    rw [dropUnwanted, wp_ite]
    constructor
    · intro hspec
      rw [wp_pure, DropR, if_pos hspec]
    · intro hspec
      have hdone : spec ∉ done := by
        have hnodup := hkeys ▸ lb.vips.nodup_keys
        rw [List.nodup_append] at hnodup
        exact fun hin => hnodup.2.2 _ hin _ (by simp) rfl
      have hmem : spec ∈ lb.vips := by
        rw [← ExtTreeMap.mem_keys, hkeys]
        simp
      obtain ⟨v, hv⟩ := OrdMap.mem_iff.mp hmem
      have hv₁ : lb₁.vips[spec]? = some v := by
        rw [hvips, if_neg fun hin => hdone hin.1, hvips₀, hv]
      refine wp_mono (deleteVip_spec henv hc hv₁) ?_ ?_ ?_
      · exact fun d' w hw => ⟨hspec, v, hv₁, hw⟩
      · intro _ d' lb' hdel
        rw [DropR, if_neg hspec]
        exact ⟨v, hv₁, hdel⟩
      · rintro err _ lb' ⟨rfl, rfl, hcons, hfault⟩
        exact ⟨rfl, hcons, fun hb => hb.congr rfl rfl rfl rfl rfl,
          fun hhealthy => by simp [hhealthy.fault] at hfault⟩
  · rintro d' w ⟨done, spec, rest, z, hkeys, hpath, hspec, v, hv, hw⟩
    exact hG done spec rest v z d' w hkeys hpath hspec hv hw
  · rintro err d' _ ⟨done, spec, rest, z, hkeys, hpath, rfl, hcons, hback, hfault⟩
    obtain ⟨t, vips, hstate⟩ := (Path.drop_facts hstart.consistent hpath).2.1
    have hinit : z.2.initialized = lb.initialized := by
      obtain ⟨t₀, ids, hstate₀⟩ := hstart.state
      rw [hstate, hstate₀]
    refine ⟨fun hi => ⟨hcons, fun hb => hback ?_, hinit, fun s id hs => ?_⟩, hinit,
      fun hhealthy => absurd hhealthy hfault⟩
    · exact Path.drop_backed hstart.consistent (hstart.backed hi hb) hpath
    · rw [hstate] at hs
      rwa [(hstart.running hi).2] at hs

theorem applyOpening_spec {G : CtlMaps → MapWrite → Prop} (henv : ArrayOk env)
    (h : Startable lb d) (hconfig : ∀ mac, G d (.configWrite (configValue cfg mac)))
    (hdrop : ∀ done spec rest v d₀ lb₀ z d₁ w, lb.vips.keys = done ++ spec :: rest →
      Start env cfg lb d d₀ lb₀ → Path (DropR cfg) done (d₀, lb₀) z → spec ∉ cfg.specs →
      z.2.vips[spec]? = some v → DeleteWrite z.2 z.1 spec v d₁ w → G d₁ w) :
    wp (applyOpening env cfg (!lb.initialized)) G
      (fun hashChanged d' lb' => hashChanged = lb.hashChanges cfg ∧
        Opened env cfg lb d (d', lb'))
      (ApplyFailed env cfg lb d) d lb := by
  simp only [applyOpening, wp_bind]
  refine wp_imp (adoptFirst_spec h) ?_
  rintro _ d' lbA ⟨hd, hA⟩
  subst d'
  refine wp_mono (writeConfigMap_spec hconfig) (fun _ _ hw => hw) ?_ ?_
  swap
  · rintro err d' lb' ⟨hd, hlb, hsick⟩
    subst d' lb'
    refine ⟨fun hinit => ?_, ?_, fun hhealthy => absurd hhealthy hsick⟩
    · obtain rfl := hA.running hinit
      exact .refl hA.consistent
    · obtain ⟨t, ids, hstate⟩ := hA.state
      rw [hstate]
  rintro _ _ lb' ⟨hlb, mac, hmac, rfl⟩
  subst lb'
  obtain ⟨t, ids, hstate⟩ := hA.state
  simp only [wp_get, wp_modify, wp_pure]
  have hstart : Start env cfg lb d { d with config := configValue cfg mac }
      { lbA with
        healthEnabled := cfg.health.enabled
        nextHop := cfg.nextHopBe
        hash := cfg.hash } :=
    { consistent := hA.consistent.configured cfg mac
      maps := ⟨mac, hmac, rfl⟩
      state := ⟨t, ids, by rw [hstate]⟩
      running := fun hinit => by rw [hA.running hinit]; exact ⟨rfl, rfl⟩
      slots := hA.slots
      pinned := hA.pinned }
  have hkeys : lbA.vips.keys = lb.vips.keys := by rw [hstate]
  have hhash : lbA.hash = lb.hash := by rw [hstate]
  rw [hkeys, hhash]
  refine wp_imp (dropUnwanted_spec henv hstart fun done spec rest v z d₁ w hkeys =>
    hdrop done spec rest v _ _ z d₁ w hkeys hstart) ?_
  exact fun _ d' lb'' hpath => ⟨rfl, _, _, hstart, hpath⟩

theorem applyOpening_opened (henv : ArrayOk env) (h : Startable lb d) :
    wp (applyOpening env cfg (!lb.initialized)) (fun _ _ => True)
      (fun hashChanged d' lb' => hashChanged = lb.hashChanges cfg ∧
        Opened env cfg lb d (d', lb'))
      (ApplyFailed env cfg lb d) d lb :=
  applyOpening_spec henv h (fun _ => trivial) fun _ _ _ _ _ _ _ _ _ _ _ _ _ _ _ => trivial

theorem applyVips_spec (henv : ArrayOk env) {z₁ : CtlMaps × LbState}
    (hopen : Opened env cfg lb d z₁) {vips : List VipConfig} (hok : ∀ vc ∈ vips, vc.Ok) :
    wp (Prog.each vips (applyVip env (lb.hashChanges cfg)))
      (fun d₁ w => ∃ done vc rest z, vips = done ++ vc :: rest ∧ Along env cfg lb d done z ∧
        VipWrite env z.2 z.1 vc.spec (vipFlags vc.noConntrack) (wantOf vc) d₁ w)
      (fun _ d' lb' => Along env cfg lb d vips (d', lb'))
      (fun err d' lb' => ∃ done vc rest z, vips = done ++ vc :: rest ∧
        Along env cfg lb d done z ∧ StepFailed env z.2 z.1 vc.spec (wantOf vc) err d' lb')
      z₁.1 z₁.2 := by
  have halong : ∀ {done z}, Path (VipR env (lb.hashChanges cfg)) done z₁ z →
      Along env cfg lb d done z := fun hpath => ⟨_, hopen, hpath⟩
  refine wp_mono (wp_each_path (R := VipR env (lb.hashChanges cfg))
    (P := fun vc z d₁ w =>
      VipWrite env z.2 z.1 vc.spec (vipFlags vc.noConntrack) (wantOf vc) d₁ w)
    (F := fun vc z => StepFailed env z.2 z.1 vc.spec (wantOf vc)) vips ?_) ?_ ?_ ?_
  · intro done vc rest hvips d₂ lb₂ hpath
    exact applyVip_spec henv (halong hpath).facts.1 _ vc
      (wantOf_ne_zero (hok vc (by rw [hvips]; simp)))
  · rintro d' w ⟨done, vc, rest, z, hvips, hpath, hw⟩
    exact ⟨done, vc, rest, z, hvips, halong hpath, hw⟩
  · exact fun _ _ _ hpath => halong hpath
  · rintro err d' lb' ⟨done, vc, rest, z, hvips, hpath, hfail⟩
    exact ⟨done, vc, rest, z, hvips, halong hpath, hfail⟩

theorem apply_spec (henv : ArrayOk env) (hok : cfg.Ok) (h : Startable lb d) :
    wp (apply env cfg) (ApplyWrite env cfg lb d) (fun _ d' lb' => Applied env cfg lb d d' lb')
      (ApplyFailed env cfg lb d) d lb := by
  simp only [apply, wp_bind, wp_get]
  refine wp_imp (applyOpening_spec henv h (fun mac => .config mac rfl)
    fun done spec rest v d₀ lb₀ z _ w => .drop done spec rest v d₀ lb₀ z w) ?_
  rintro _ d₁ lb₁ ⟨rfl, hopen⟩
  refine wp_mono (applyVips_spec henv hopen hok.vip_ok) ?_ ?_ ?_
  · rintro d' w ⟨done, vc, rest, z, hvips, halong, hw⟩
    exact .vip done vc rest z w hvips halong hw
  · intro _ d₂ lb₂ halong
    rw [wp_when]
    constructor
    · intro hfirst
      simp only [Bool.not_eq_true'] at hfirst
      refine wp_mono (finishFirst_spec henv halong.facts.1) ?_ ?_ ?_
      · exact fun d' w hw => .finish _ w hfirst halong hw
      · exact fun _ d' lb' hfin => ⟨_, halong, by simpa [hfirst] using hfin⟩
      · rintro _ _ _ ⟨rfl, hsick⟩
        exact ⟨fun hinit => by simp [hfirst] at hinit, halong.facts.2.1,
          fun hhealthy => absurd hhealthy hsick⟩
    · intro hinit
      simp only [Bool.not_eq_false'] at hinit
      exact ⟨_, halong, by simp [hinit]⟩
  · rintro err d' lb' ⟨done, vc, rest, z, hvips, halong, hfail⟩
    obtain ⟨-, hinit, -, hadopted⟩ := halong.facts
    exact ⟨fun hi => ⟨hfail.consistent, fun hb => hfail.backed (halong.backed hi hb),
      hfail.initialized.trans hinit, fun s id hs => hadopted hi s id (hfail.adopted s id hs)⟩,
      hfail.initialized.trans hinit,
      fun hhealthy => ⟨done, vc, rest, z, hvips, halong, hfail.cause hhealthy⟩⟩

/-- The states on the path are met by a run that returns: after some of its writes the
maps are those of the state. -/
theorem Along.of_apply (henv : ArrayOk env) (hok : cfg.Ok) (h : Startable lb d)
    (hres : (apply env cfg d lb).res = .ok ()) {done : List VipConfig}
    (hpre : done <+: cfg.vips) :
    ∃ log lb', log <+: (apply env cfg d lb).log ∧
      Along env cfg lb d done (replay d log, lb') := by
  obtain ⟨rest, hvips⟩ := hpre
  have hget : (get : LbM LbState) d lb = ⟨[], lb, .ok lb⟩ := rfl
  rw [apply, Prog.bind_of_ok (b := lb) (by rw [hget])] at hres ⊢
  simp only [hget, replay_nil, List.nil_append] at hres ⊢
  obtain ⟨hashChanged, hopening⟩ := Prog.ok_of_bind hres
  obtain ⟨rfl, hopen⟩ := (applyOpening_opened henv h).of_ok hopening
  rw [Prog.bind_of_ok hopening] at hres ⊢
  simp only [← hvips] at hres ⊢
  obtain ⟨_, hvipsOk⟩ := Prog.ok_of_bind hres
  rw [Prog.bind_of_ok hvipsOk]
  obtain ⟨hdone, hlog⟩ := Prog.ok_each_append hvipsOk
  have hvc : ∀ vc ∈ done, vc.Ok := fun vc hvc => hok.vip_ok vc (by simp [← hvips, hvc])
  have halong := (applyVips_spec henv hopen hvc).of_ok hdone
  refine ⟨_, _, ?_, by rw [replay_append]; exact halong⟩
  exact (List.prefix_append_right_inj _).mpr (hlog.trans (List.prefix_append _ _))

end Spec

end LbState

end PacketBalance
