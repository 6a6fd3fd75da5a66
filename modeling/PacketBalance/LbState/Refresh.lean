import PacketBalance.LbState.Api
/-!
# Operations that change who is eligible

Draining, health reports and neighbour answers leave every VIP its id, its flags and
its members.  They first change what the model knows (`Edited`) and then rebuild the
rings of some VIPs (`Rebuilt`).  The predicate `R` says which VIPs are rebuilt; the
backends of all others have to come out as they were.
-/

namespace PacketBalance

open WriteLog Std

def Vip.core (v : Vip) : Vip :=
  { v with generation := 0, members := v.members.map fun _ m => { m with inRing := false } }

namespace LbState

variable {lb lb' lb₁ : LbState} {d d' d₁ : CtlMaps} {env : Env} {spec : VipSpec} {v : Vip}
variable {R : VipSpec → Prop}

/-! ## Rebuilding -/

theorem core_inj {v v' : Vip} (h : v'.core = v.core) :
    v'.spec = v.spec ∧ v'.id = v.id ∧ v'.flags = v.flags ∧
      ∀ a : UInt32, v'.members[a]?.map (fun m => { m with inRing := false }) =
        v.members[a]?.map fun m => { m with inRing := false } := by
  simp only [Vip.core, Vip.mk.injEq] at h
  refine ⟨h.1, h.2.1, h.2.2.1, fun a => ?_⟩
  have := congrArg (fun m : ExtTreeMap UInt32 Member => m[a]?) h.2.2.2.2
  simpa only [ExtTreeMap.getElem?_map] using this

theorem mem_of_core {v v' : Vip} (h : v'.core = v.core) (a : UInt32) :
    a ∈ v'.members ↔ a ∈ v.members := by
  have hm := (core_inj h).2.2.2 a
  rw [ExtTreeMap.mem_iff_isSome_getElem?, ExtTreeMap.mem_iff_isSome_getElem?,
    ← Option.isSome_map, hm, Option.isSome_map]

theorem backendsOf_core (lb : LbState) {v v' : Vip} (h : v'.core = v.core) :
    lb.backendsOf v' = lb.backendsOf v := by
  refine backendsOf_ext fun a => ?_
  have hm := congrArg (Option.map (lb.backendOf a)) ((core_inj h).2.2.2 a)
  rw [Option.map_map, Option.map_map] at hm
  exact hm

theorem core_markInRing (lb : LbState) (v : Vip) (generation : Nat) :
    Vip.core { lb.markInRing v with generation } = v.core := by
  simp only [Vip.core, markInRing, Vip.mk.injEq, true_and]
  apply ExtTreeMap.ext_getElem?
  intro a
  simp only [ExtTreeMap.getElem?_map, Option.map_map]
  rfl

/-- The rings of the VIPs in `R` have been built from the model as it is. -/
structure Rebuilt (R : VipSpec → Prop) (lb : LbState) (d : CtlMaps) (d' : CtlMaps)
    (lb' : LbState) : Prop where
  consistent : Consistent [] lb' d'
  state : ∃ vips, lb' = { lb with vips }
  maps : ∃ rings, d' = { d with rings }
  core : ∀ s : VipSpec, lb'.vips[s]?.map Vip.core = lb.vips[s]?.map Vip.core
  ring : ∀ (s : VipSpec) (v' : Vip), R s → lb'.vips[s]? = some v' → ∃ slots,
    buildRing (lb'.backendsOf v') lb.hash pbRingSize = .ok slots ∧
    d'.rings v'.id = some ⟨slots, lb'.backendsOf v', lb.hash⟩
  ring_else : ∀ (s : VipSpec) (v' : Vip), ¬R s → lb'.vips[s]? = some v' →
    d'.rings v'.id = d.rings v'.id
  ring_other : ∀ id, (∀ (s : VipSpec) (v' : Vip), lb'.vips[s]? = some v' → v'.id ≠ id) →
    d'.rings id = d.rings id

theorem Rebuilt.refl (h : Consistent [] lb d) : Rebuilt (fun _ => False) lb d d lb where
  consistent := h
  state := ⟨lb.vips, rfl⟩
  maps := ⟨d.rings, rfl⟩
  core _ := rfl
  ring _ _ hR := hR.elim
  ring_else _ _ _ _ := rfl
  ring_other _ _ := rfl

theorem Rebuilt.vip (h : Rebuilt R lb d d' lb') {s : VipSpec} {v' : Vip}
    (hv' : lb'.vips[s]? = some v') : ∃ v : Vip, lb.vips[s]? = some v ∧ v'.core = v.core := by
  have hcore := h.core s
  rw [hv', Option.map_some] at hcore
  obtain ⟨v, hv, hcore⟩ := Option.map_eq_some_iff.mp hcore.symm
  exact ⟨v, hv, hcore.symm⟩

theorem Rebuilt.vip_of (h : Rebuilt R lb d d' lb') {s : VipSpec} {v : Vip}
    (hv : lb.vips[s]? = some v) : ∃ v' : Vip, lb'.vips[s]? = some v' ∧ v'.core = v.core := by
  have hcore := h.core s
  rw [hv, Option.map_some] at hcore
  exact Option.map_eq_some_iff.mp hcore

theorem Rebuilt.backed (h : Rebuilt R lb d d' lb') (hb : Backed lb d) : Backed lb' d' := by
  obtain ⟨vips, hstate⟩ := h.state
  obtain ⟨rings, hd⟩ := h.maps
  have hold : ∀ {s : VipSpec} {v' : Vip} {r : InstalledRing}, lb'.vips[s]? = some v' →
      d'.rings v'.id = some r →
      (∃ slots, buildRing (lb'.backendsOf v') lb.hash pbRingSize = .ok slots ∧
        r = ⟨slots, lb'.backendsOf v', lb.hash⟩) ∨
      ∃ v : Vip, lb.vips[s]? = some v ∧ d.rings v.id = some r := by
    intro s v' r hv' hr
    by_cases hR : R s
    · obtain ⟨slots, hslots, hring⟩ := h.ring s v' hR hv'
      exact .inl ⟨slots, hslots, Option.some.inj (hr.symm.trans hring)⟩
    · obtain ⟨v, hv, hcore⟩ := h.vip hv'
      rw [h.ring_else s v' hR hv', (core_inj hcore).2.1] at hr
      exact .inr ⟨v, hv, hr⟩
  refine ⟨fun s v' r hv' hr => ?_, fun a => ?_, fun id r hr => ?_⟩
  · rcases hold hv' hr with ⟨slots, hslots, rfl⟩ | ⟨v, hv, hr'⟩
    · exact h.consistent.ringOk hv' hslots
    · exact (hb.ring s v r hv hr').congr (by rw [hd]) (by rw [hd])
  · have hsub : users lb' d' a ⊆ users lb d a := by
      intro s hs
      rw [mem_users] at hs ⊢
      obtain ⟨v', hv', ha⟩ := hs
      obtain ⟨v, hv, hcore⟩ := h.vip hv'
      rcases ha with ha | ⟨r, hr, ha⟩
      · exact .of_member hv ((mem_of_core hcore a).mp ha)
      · rcases hold hv' hr with ⟨slots, -, rfl⟩ | ⟨u, hu, hr'⟩
        · exact .of_member hv ((mem_of_core hcore a).mp (serves_backendsOf ha))
        · exact .of_ring hu hr' ha
    have hreals : lb'.reals = lb.reals := by rw [hstate]
    rw [hreals]
    exact (Finset.card_le_card hsub).trans (hb.covered a)
  · by_cases hown : ∃ (s : VipSpec) (v' : Vip), lb'.vips[s]? = some v' ∧ v'.id = id
    · exact hown
    · have hr' := h.ring_other id fun s v' hv' hid => hown ⟨s, v', hv', hid⟩
      obtain ⟨s, v, hv, hid⟩ := hb.named id r (hr' ▸ hr)
      obtain ⟨v', hv', hcore⟩ := h.vip_of hv
      exact ⟨s, v', hv', (core_inj hcore).2.1.trans hid⟩

theorem Rebuilt.failed (h : Rebuilt R lb d d' lb') : Failed lb d d' lb' := by
  have hb := h.backed
  obtain ⟨vips, rfl⟩ := h.state
  exact ⟨h.consistent, hb, rfl, fun _ _ hs => hs⟩

theorem Rebuilt.congr {R' : VipSpec → Prop} (h : Rebuilt R lb d d' lb')
    (hR : ∀ s ∈ lb.vips, R s ↔ R' s) : Rebuilt R' lb d d' lb' := by
  have hmem : ∀ {s : VipSpec} {v' : Vip}, lb'.vips[s]? = some v' → s ∈ lb.vips := fun hv' =>
    have ⟨v, hv, _⟩ := h.vip hv'
    OrdMap.mem_iff.mpr ⟨v, hv⟩
  exact { h with
    ring := fun s v' hs hv' => h.ring s v' ((hR s (hmem hv')).mpr hs) hv'
    ring_else := fun s v' hs hv' =>
      h.ring_else s v' (fun hold => hs ((hR s (hmem hv')).mp hold)) hv' }

theorem Rebuilt.step (h : Rebuilt R lb d d₁ lb₁) {v₁ : Vip} (hv₁ : lb₁.vips[spec]? = some v₁)
    {G : CtlMaps → MapWrite → Prop}
    (hG : ∀ r, RingOk d₁ r → G d₁ (.ringSwap v₁.id r)) :
    wp (rebuildLocked env spec) G
      (fun _ d' lb' => Rebuilt (fun s => R s ∨ s = spec) lb d d' lb')
      (fun _ d' lb' => Failed lb d d' lb') d₁ lb₁ := by
  have hc := h.consistent
  obtain ⟨vips, hstate⟩ := h.state
  refine wp_mono (rebuild_spec hc hv₁ fun slots hslots => hG _ (hc.ringOk hv₁ hslots))
    (fun _ _ hw => hw) ?_ ?_
  · rintro _ _ _ ⟨hc₂, -, slots, hslots, rfl, rfl⟩
    have hhash : lb₁.hash = lb.hash := by rw [hstate]
    have hcore := lb₁.core_markInRing v₁ (v₁.generation + 1)
    have hback := lb₁.backendsOf_core hcore
    obtain ⟨rings, hd₁⟩ := h.maps
    refine ⟨hc₂, ⟨_, by rw [hstate]⟩, ⟨_, by rw [hd₁]⟩, ?_, ?_, ?_, ?_⟩
    · intro s
      rw [← h.core, OrdMap.getElem?_insert]
      by_cases hs : s = spec
      · rw [if_pos hs, hs, hv₁, Option.map_some, Option.map_some, hcore]
      · rw [if_neg hs]
    · intro s v' hs hv'
      rw [OrdMap.getElem?_insert] at hv'
      by_cases hspec : s = spec
      · rw [if_pos hspec] at hv'
        obtain rfl := Option.some.inj hv'
        refine ⟨slots, ?_, ?_⟩
        · rw [← hhash]
          exact hback ▸ hslots
        · rw [← hhash]
          exact (Function.update_self ..).trans (by rw [ringOf, ← hback]; rfl)
      · rw [if_neg hspec] at hv'
        obtain ⟨slots', hslots', hring'⟩ := h.ring s v' (hs.resolve_right hspec) hv'
        have hid : v'.id ≠ v₁.id := hc.id_ne hv' hv₁ hspec
        exact ⟨slots', hslots', (Function.update_of_ne hid _ _).trans hring'⟩
    · intro s v' hs hv'
      rw [not_or] at hs
      rw [OrdMap.getElem?_insert, if_neg hs.2] at hv'
      exact (Function.update_of_ne (hc.id_ne hv' hv₁ hs.2) _ _).trans (h.ring_else s v' hs.1 hv')
    · intro id hother
      have hid : id ≠ v₁.id := fun heq =>
        hother spec { lb₁.markInRing v₁ with generation := v₁.generation + 1 } (by simp) heq.symm
      refine (Function.update_of_ne hid _ _).trans (h.ring_other id fun s v' hv' => ?_)
      by_cases hs : s = spec
      · rw [Option.some.inj (hv'.symm.trans (hs ▸ hv₁))]
        exact Ne.symm hid
      · exact hother s v' (by rw [OrdMap.getElem?_insert, if_neg hs, hv'])
  · rintro err _ _ ⟨hc₂, rfl, rfl, -⟩
    have hfailed := h.failed
    refine ⟨hc₂, fun hb => ?_, hfailed.initialized, hfailed.adopted⟩
    exact (hfailed.backed hb).edit hc hv₁ (lb₁.markInRing v₁) rfl (by simp [markInRing])
      rfl rfl hc₂ rfl

/-! ## Editing -/

/-- What the model knows has changed, but no VIP its id, flags or members; the backends
of the VIPs outside `R` are what they were. -/
structure Edited (R : VipSpec → Prop) (lb : LbState) (d : CtlMaps) (d₁ : CtlMaps)
    (lb₁ : LbState) : Prop where
  consistent : Consistent [] lb₁ d₁
  state : ∃ t vips, lb₁ = { lb with reals := t, vips }
  same : d.SameElse d₁
  mem : ∀ s : VipSpec, s ∈ lb₁.vips ↔ s ∈ lb.vips
  vip : ∀ (s : VipSpec) (v v₁ : Vip), lb.vips[s]? = some v → lb₁.vips[s]? = some v₁ →
    v₁.id = v.id ∧ v₁.flags = v.flags ∧ ∀ a, a ∈ v₁.members ↔ a ∈ v.members
  backends : ∀ (s : VipSpec) (v v₁ : Vip), ¬R s → lb.vips[s]? = some v →
    lb₁.vips[s]? = some v₁ → lb₁.backendsOf v₁ = lb.backendsOf v
  entry : ∀ a, (lb₁.reals.entry a).map (fun e => (e.id, e.refs)) =
    (lb.reals.entry a).map fun e => (e.id, e.refs)
  known : ∀ a, (lb.reals.macOf a).isSome → (lb₁.reals.macOf a).isSome

def Refreshed (R : VipSpec → Prop) (lb : LbState) (d : CtlMaps) (d' : CtlMaps)
    (lb' : LbState) : Prop :=
  ∃ d₁ lb₁, Edited R lb d d₁ lb₁ ∧ Rebuilt R lb₁ d₁ d' lb'

/-- Writes that are safe in every state: a slot is filled or gets its MAC, or a ring
of reachable backends is installed. -/
inductive Harmless (d₁ : CtlMaps) : MapWrite → Prop
  | slot (w : MapWrite) (hw : SlotWrite d₁ w) : Harmless d₁ w
  | ring (id : Nat) (r : InstalledRing) (hok : RingOk d₁ r) : Harmless d₁ (.ringSwap id r)

theorem Edited.refl (h : Consistent [] lb d) : Edited R lb d d lb where
  consistent := h
  state := ⟨lb.reals, lb.vips, rfl⟩
  same := .refl d
  mem _ := .rfl
  vip s v v₁ hv hv₁ := by
    rw [hv] at hv₁
    rw [Option.some.inj hv₁]
    exact ⟨rfl, rfl, fun _ => .rfl⟩
  backends s v v₁ _ hv hv₁ := by
    rw [hv] at hv₁
    rw [Option.some.inj hv₁]
  entry _ := rfl
  known _ := id

theorem Refreshed.refl (h : Consistent [] lb d) : Refreshed (fun _ => False) lb d d lb :=
  ⟨d, lb, .refl h, .refl h⟩

theorem refsOf_congr {t t' : RealTable} {a : UInt32}
    (h : (t'.entry a).map (fun e => (e.id, e.refs)) =
      (t.entry a).map fun e => (e.id, e.refs)) : t'.refsOf a = t.refsOf a := by
  cases he : t.entry a <;> cases he' : t'.entry a <;> simp_all [RealTable.refsOf]

theorem Edited.vip_of (h : Edited R lb d d₁ lb₁) {s : VipSpec} {v₁ : Vip}
    (hv₁ : lb₁.vips[s]? = some v₁) : ∃ v : Vip, lb.vips[s]? = some v ∧ v₁.id = v.id ∧
      v₁.flags = v.flags ∧ ∀ a, a ∈ v₁.members ↔ a ∈ v.members := by
  obtain ⟨v, hv⟩ := OrdMap.mem_iff.mp ((h.mem s).mp (OrdMap.mem_iff.mpr ⟨v₁, hv₁⟩))
  exact ⟨v, hv, h.vip s v v₁ hv hv₁⟩

theorem Edited.stays (h : Edited R lb d d₁ lb₁) (a : UInt32) : lb.reals.Stays lb₁.reals a := by
  intro e he
  have hentry := h.entry a
  have hknown := h.known a
  rw [he, Option.map_some] at hentry
  obtain ⟨e', he', heq⟩ := Option.map_eq_some_iff.mp hentry
  rw [RealTable.macOf_eq, RealTable.macOf_eq, he, he'] at hknown
  exact ⟨e', he', (Prod.mk.inj heq).1, hknown⟩

theorem Edited.backed (h : Edited R lb d d₁ lb₁) (hc : Consistent [] lb d) (hb : Backed lb d) :
    Backed lb₁ d₁ := by
  refine ⟨fun s v₁ r hv₁ hr => ?_, fun a => ?_, fun id r hr => ?_⟩
  · obtain ⟨v, hv, hid, -⟩ := h.vip_of hv₁
    rw [h.same.rings, hid] at hr
    exact (hb.ring s v r hv hr).stays hc.table h.consistent.table fun a _ => h.stays a
  · have hsub : users lb₁ d₁ a ⊆ users lb d a := by
      intro s hs
      rw [mem_users] at hs ⊢
      obtain ⟨v₁, hv₁, ha⟩ := hs
      obtain ⟨v, hv, hid, -, hmem⟩ := h.vip_of hv₁
      rw [h.same.rings, hid] at ha
      exact ⟨v, hv, ha.imp_left (hmem a).mp⟩
    rw [refsOf_congr (h.entry a)]
    exact (Finset.card_le_card hsub).trans (hb.covered a)
  · rw [h.same.rings] at hr
    obtain ⟨s, v, hv, hid⟩ := hb.named id r hr
    obtain ⟨v₁, hv₁⟩ := OrdMap.mem_iff.mp ((h.mem s).mpr (OrdMap.mem_iff.mpr ⟨v, hv⟩))
    exact ⟨s, v₁, hv₁, (h.vip s v v₁ hv hv₁).1.trans hid⟩

theorem Refreshed.backed (h : Refreshed R lb d d' lb') (hc : Consistent [] lb d)
    (hb : Backed lb d) : Backed lb' d' := by
  obtain ⟨d₁, lb₁, hedit, hreb⟩ := h
  exact hreb.backed (hedit.backed hc hb)

theorem Edited.failed (h : Edited R lb d d₁ lb₁) (hc : Consistent [] lb d)
    (hf : Failed lb₁ d₁ d' lb') : Failed lb d d' lb' := by
  obtain ⟨t, vips, hstate⟩ := h.state
  refine ⟨hf.consistent, fun hb => hf.backed (h.backed hc hb), by rw [hf.initialized, hstate],
    fun s id hs => ?_⟩
  have := hf.adopted s id hs
  rwa [hstate] at this

theorem Edited.member (h : Consistent [] lb d) (hv : lb.vips[spec]? = some v) {a : UInt32}
    {m : Member} (hm : v.members[a]? = some m) (m' : Member)
    (hR : R spec ∨ lb.backendOf a m' = lb.backendOf a m) :
    Edited R lb d d { lb with
      vips := lb.vips.insert spec { v with members := v.members.insert a m' } } := by
  have hmem : ∀ b, b ∈ v.members.insert a m' ↔ b ∈ v.members := by
    intro b
    simp only [OrdMap.mem_iff, OrdMap.getElem?_insert]
    by_cases hb : b = a <;> simp [hb, hm]
  have hget : ∀ {s : VipSpec} {u u₁ : Vip}, lb.vips[s]? = some u →
      (lb.vips.insert spec { v with members := v.members.insert a m' })[s]? = some u₁ →
      (s = spec ∧ u = v ∧ u₁ = { v with members := v.members.insert a m' }) ∨
        (s ≠ spec ∧ u₁ = u) := by
    intro s u u₁ hu hu₁
    rw [OrdMap.getElem?_insert] at hu₁
    split_ifs at hu₁ with hs
    · subst hs
      exact .inl ⟨rfl, Option.some.inj (hu.symm.trans hv), (Option.some.inj hu₁).symm⟩
    · exact .inr ⟨hs, Option.some.inj (hu₁.symm.trans hu)⟩
  refine ⟨h.edit hv { v with members := v.members.insert a m' } rfl rfl hmem rfl rfl rfl,
    ⟨_, _, rfl⟩, .refl d, fun s => ?_, ?_, ?_, fun _ => rfl, fun _ => id⟩
  · rw [OrdMap.mem_iff, OrdMap.mem_iff, OrdMap.getElem?_insert]
    by_cases hs : s = spec <;> simp [hs, hv]
  · intro s u u₁ hu hu₁
    rcases hget hu hu₁ with ⟨-, rfl, rfl⟩ | ⟨-, rfl⟩
    · exact ⟨rfl, rfl, hmem⟩
    · exact ⟨rfl, rfl, fun _ => .rfl⟩
  · intro s u u₁ hs hu hu₁
    rcases hget hu hu₁ with ⟨rfl, rfl, rfl⟩ | ⟨-, rfl⟩
    · refine backendsOf_ext fun b => ?_
      rw [OrdMap.getElem?_insert]
      split_ifs with hb
      · rw [hb, hm, Option.map_some, Option.map_some]
        exact congrArg some (hR.resolve_left hs)
      · rfl
    · rfl

theorem rebuildMember_spec (h : Consistent [] lb d) (hv : lb.vips[spec]? = some v) {a : UInt32}
    {m : Member} (hm : v.members[a]? = some m) (m' : Member) :
    wp (rebuildLocked env spec) Harmless
      (fun _ d' lb' => ∃ R, Refreshed R lb d d' lb') (fun _ d' lb' => Failed lb d d' lb') d
      { lb with vips := lb.vips.insert spec { v with members := v.members.insert a m' } } := by
  have hedit : Edited (fun s => s = spec) lb d d { lb with
      vips := lb.vips.insert spec { v with members := v.members.insert a m' } } :=
    .member h hv hm m' (.inl rfl)
  have hrefl := Rebuilt.refl hedit.consistent
  have hv' : (lb.vips.insert spec { v with members := v.members.insert a m' })[spec]? =
      some { v with members := v.members.insert a m' } := by simp
  refine wp_mono (hrefl.step hv' fun r hok => .ring _ r hok) (fun _ _ hw => hw) ?_
    (fun _ _ _ hf => hedit.failed h hf)
  intro _ d' lb' hreb
  exact ⟨_, d, _, hedit, hreb.congr fun s _ => by simp⟩

theorem setDraining_spec (h : Consistent [] lb d) {a : UInt32} {draining : Bool} :
    wp (setDraining env spec a draining) Harmless
      (fun _ d' lb' => ∃ R, Refreshed R lb d d' lb') (fun _ d' lb' => Failed lb d d' lb') d lb := by
  refine wp_editMember (fun m => m.draining = draining) (fun m => { m with draining })
    (fun _ => .refl h) (fun _ _ _ => .refl h) (fun _ _ _ _ _ => ⟨_, .refl h⟩) ?_
  exact fun v m hv hm _ => rebuildMember_spec h hv hm _

theorem reportHealth_spec (h : Consistent [] lb d) {t : HealthTarget} {r : ProbeResult}
    {rise fall : UInt32} :
    wp (reportHealth env t r rise fall) Harmless
      (fun _ d' lb' => ∃ R, Refreshed R lb d d' lb') (fun _ d' lb' => Failed lb d d' lb') d lb := by
  simp only [reportHealth, wp_bind, wp_get]
  cases hv : lb.vips[t.vip]? with
  | none => exact (wp_pure _).mpr ⟨_, .refl h⟩
  | some v =>
      cases hm : v.members[t.addr]? with
      | none =>
          simp only [hm, wp_pure]
          exact ⟨_, .refl h⟩
      | some m =>
          simp only [hm, wp_ite, wp_pure, wp_bind, putVip, wp_modify]
          refine ⟨fun _ => ⟨_, .refl h⟩, fun _ => ⟨fun _ => ⟨_, .refl h⟩, fun _ =>
            ⟨fun _ => rebuildMember_spec h hv hm _, fun _ => ?_⟩⟩⟩
          -- counting alone changes nobody's eligibility
          have hback : lb.backendOf t.addr (countProbe m r) = lb.backendOf t.addr m := by
            rw [countProbe]
            split_ifs <;> rfl
          have hedit := Edited.member (R := fun _ => False) h hv hm (countProbe m r) (.inr hback)
          exact ⟨_, d, _, hedit, .refl hedit.consistent⟩

/-! ## Neighbour answers -/

section Neighbor

variable {mac : Mac}

/-- The table once the addresses `done` have their MAC. -/
structure Resolved (lb : LbState) (d : CtlMaps) (mac : Mac) (done : List UInt32)
    (newlyUsable : List UInt32) (d₁ : CtlMaps) (lb₁ : LbState) : Prop where
  same : d.SameElse d₁
  state : ∃ t, lb₁ = { lb with reals := t }
  sound : lb₁.reals.Sound d₁
  entry : ∀ a, lb₁.reals.entry a = if a ∈ done
    then (lb.reals.entry a).map fun e => { e with mac := some mac } else lb.reals.entry a
  newly : ∀ a, a ∈ newlyUsable ↔
    a ∈ done ∧ ∃ e, lb.reals.entry a = some e ∧ e.mac = none

theorem Resolved.skip {done newly : List UInt32} (h : Resolved lb d mac done newly d₁ lb₁)
    {a : UInt32} (hsame : ∀ e, lb₁.reals.entry a = some e → e.mac = some mac) :
    Resolved lb d mac (done ++ [a]) newly d₁ lb₁ := by
  refine ⟨h.same, h.state, h.sound, fun b => ?_, fun b => ?_⟩
  · by_cases hb : b = a
    · subst hb
      rw [if_pos (by simp)]
      have hentry := h.entry b
      split_ifs at hentry with hin
      · exact hentry
      · cases he : lb.reals.entry b with
        | none => simp [hentry, he]
        | some e =>
            rw [he] at hentry
            have hm := hsame e hentry
            simp only [hentry, Option.map_some, ← hm]
    · simp only [h.entry, List.mem_append, List.mem_singleton, hb, or_false]
  · simp only [h.newly, List.mem_append, List.mem_singleton]
    constructor
    · exact fun hb => ⟨.inl hb.1, hb.2⟩
    · rintro ⟨hb | rfl, e, he, hnone⟩
      · exact ⟨hb, e, he, hnone⟩
      · by_cases hin : b ∈ done
        · exact ⟨hin, e, he, hnone⟩
        · have hentry := h.entry b
          rw [if_neg hin, he] at hentry
          rw [hsame e hentry] at hnone
          cases hnone

/-- An address is dealt with at most once: while its MAC is another one, its entry is still
the old one. -/
theorem Resolved.entry_old {done newly : List UInt32} (h : Resolved lb d mac done newly d₁ lb₁)
    {a : UInt32} {e : RealTable.Entry} (he : lb₁.reals.entry a = some e) (hne : e.mac ≠ some mac) :
    lb.reals.entry a = some e := by
  have hentry := h.entry a
  split_ifs at hentry with hin
  · rw [he] at hentry
    obtain ⟨e', -, he'⟩ := Option.map_eq_some_iff.mp hentry.symm
    exact absurd (by rw [← he']) hne
  · rw [← hentry, he]

theorem Resolved.put {done newly : List UInt32} (h : Resolved lb d mac done newly d₁ lb₁)
    {a : UInt32} {e : RealTable.Entry} (he : lb.reals.entry a = some e) {d₂ : CtlMaps}
    {t : RealTable} (hsame : d₁.SameElse d₂) (ht : t.Sound d₂)
    (hupd : t.entry = Function.update lb₁.reals.entry a (some { e with mac := some mac })) :
    Resolved lb d mac (done ++ [a]) (if e.mac = none then newly ++ [a] else newly) d₂
      { lb₁ with reals := t } := by
  obtain ⟨t₁, hstate⟩ := h.state
  refine ⟨h.same.trans hsame, ⟨t, by rw [hstate]⟩, ht, fun b => ?_, fun b => ?_⟩
  · simp only [hupd]
    by_cases hb : b = a
    · subst hb
      simp [he]
    · simp only [Function.update_of_ne hb, h.entry, List.mem_append, List.mem_singleton, hb,
        or_false]
  · by_cases hnone : e.mac = none
    · simp only [hnone, if_true, List.mem_append, List.mem_singleton, h.newly]
      constructor
      · rintro (hb | rfl)
        · exact ⟨.inl hb.1, hb.2⟩
        · exact ⟨.inr rfl, e, he, hnone⟩
      · rintro ⟨hb | rfl, hrest⟩
        · exact .inl ⟨hb, hrest⟩
        · exact .inr rfl
    · simp only [hnone, if_false, h.newly, List.mem_append, List.mem_singleton]
      constructor
      · exact fun hb => ⟨.inl hb.1, hb.2⟩
      · rintro ⟨hb | rfl, e', hb', hnone'⟩
        · exact ⟨hb, e', hb', hnone'⟩
        · rw [he] at hb'
          exact absurd (Option.some.inj hb' ▸ hnone') hnone

theorem setOne_spec (henv : ArrayOk env) (hmac : mac ≠ Mac.zero) {done newly : List UInt32}
    (h : Resolved lb d mac done newly d₁ lb₁) (a : UInt32) :
    wp (setOne env mac newly a) Harmless
      (fun newly' d' lb' => Resolved lb d mac (done ++ [a]) newly' d' lb')
      (fun _ _ _ => False) d₁ lb₁ := by
  simp only [setOne, onReals, wp_bind, wp_get, wp_zoom, wp_pure]
  by_cases hsame : ∀ e, lb₁.reals.entry a = some e → e.mac = some mac
  · refine wp_imp (RealTable.setMac_same hsame) ?_
    rintro changed d' t' ⟨rfl, rfl, rfl⟩
    simpa only [Bool.false_and, Bool.false_eq_true, if_false] using h.skip hsame
  · simp only [not_forall] at hsame
    obtain ⟨e, he₁, hne⟩ := hsame
    have he := h.entry_old he₁ hne
    refine wp_mono (RealTable.setMac_spec henv h.sound he₁ hmac hne fun d₂ w hw => .slot w hw)
      (fun _ _ hw => hw) ?_ (fun _ _ _ hf => hf)
    rintro changed d' t' ⟨rfl, ht, hsame', hupd⟩
    have hput := h.put he hsame' ht hupd
    have hknown : (lb₁.reals.macOf a).isSome = e.mac.isSome := by
      simp [RealTable.macOf_eq, he₁]
    simpa only [Bool.true_and, hknown, Bool.not_eq_true', Option.isSome_eq_false_iff,
      Option.isNone_iff_eq_none] using hput

def Hit (lb : LbState) (newly : List UInt32) (s : VipSpec) : Prop :=
  ∃ v : Vip, lb.vips[s]? = some v ∧ ∃ a ∈ v.members, a ∈ newly

/-- Only a member that has just become usable looks different to the ring. -/
theorem Resolved.backendOf_eq {done newly : List UInt32}
    (hr : Resolved lb d mac done newly d₁ lb₁) {a : UInt32} (hold : a ∉ newly) (m : Member) :
    lb₁.backendOf a m = lb.backendOf a m := by
  by_cases hin : a ∈ done
  · have hid : lb₁.reals.idOf a = lb.reals.idOf a := by
      rw [RealTable.idOf_eq, RealTable.idOf_eq, hr.entry, if_pos hin, Option.map_map]
      rfl
    have hknown : (lb₁.reals.macOf a).isSome = (lb.reals.macOf a).isSome := by
      rw [RealTable.macOf_eq, RealTable.macOf_eq, hr.entry, if_pos hin]
      cases he : lb.reals.entry a with
      | none => rfl
      | some e =>
          cases hmac : e.mac with
          | none => exact absurd ((hr.newly a).mpr ⟨hin, e, he, hmac⟩) hold
          | some _ => simp [hmac]
    exact backendOf_ext hid hknown m
  · have hentry : lb₁.reals.entry a = lb.reals.entry a := by rw [hr.entry, if_neg hin]
    exact backendOf_congr hentry m

theorem Resolved.edited {done newly : List UInt32} (h : Consistent [] lb d)
    (hr : Resolved lb d mac done newly d₁ lb₁) : Edited (Hit lb newly) lb d d₁ lb₁ := by
  obtain ⟨t, hstate⟩ := hr.state
  have hvips : lb₁.vips = lb.vips := by rw [hstate]
  have hidrefs : ∀ a, (lb₁.reals.entry a).map (fun e => (e.id, e.refs)) =
      (lb.reals.entry a).map fun e => (e.id, e.refs) := by
    intro a
    rw [hr.entry]
    split_ifs
    · rw [Option.map_map]
      rfl
    · rfl
  have hrefs : ∀ a, lb₁.reals.refsOf a = lb.reals.refsOf a := fun a =>
    refsOf_congr (hidrefs a)
  refine ⟨⟨hr.sound, by rw [hvips]; exact h.key, ?_, ?_, ?_, ?_, ?_⟩, ⟨t, lb.vips, hstate⟩,
    hr.same, by rw [hvips]; exact fun _ => .rfl, ?_, ?_, hidrefs, fun a hknown => ?_⟩
  · rw [hstate]
    exact h.named_lt
  · rw [hstate]
    exact h.named_inj
  · rw [hstate]
    exact h.named_fun
  · rw [hstate, hr.same.vipMap]
    exact h.entry_named
  · intro a
    rw [hrefs, hvips]
    exact h.held a
  · intro s v v₁ hv hv₁
    rw [hvips, hv] at hv₁
    rw [Option.some.inj hv₁]
    exact ⟨rfl, rfl, fun _ => .rfl⟩
  · intro s v v₁ hnot hv hv₁
    rw [hvips, hv] at hv₁
    obtain rfl := Option.some.inj hv₁
    refine backendsOf_ext fun a => ?_
    cases hm : v.members[a]? with
    | none => rfl
    | some m =>
        have ha : a ∈ v.members := OrdMap.mem_iff.mpr ⟨m, hm⟩
        have hold : a ∉ newly := fun hin => hnot ⟨v, hv, a, ha, hin⟩
        rw [Option.map_some, Option.map_some, hr.backendOf_eq hold]
  · rw [RealTable.macOf_eq] at hknown ⊢
    rw [hr.entry]
    split_ifs
    · cases he : lb.reals.entry a with
      | none => simp [he] at hknown
      | some e => rfl
    · exact hknown

theorem Rebuilt.visit {done : List VipSpec} {newly : List UInt32} {d₂ : CtlMaps} {lb₂ : LbState}
    (h : Rebuilt (fun s => s ∈ done ∧ Hit lb newly s) lb₁ d₁ d₂ lb₂) (hvips : lb₁.vips = lb.vips)
    {spec : VipSpec} (hmem : spec ∈ lb.vips) :
    wp (do
        let v ← vipAt spec
        if v.members.keys.any (· ∈ newly) then rebuildLocked env spec else pure ()) Harmless
      (fun _ d' lb' => Rebuilt (fun s => s ∈ done ++ [spec] ∧ Hit lb newly s) lb₁ d₁ d' lb')
      (fun _ d' lb' => Failed lb₁ d₁ d' lb') d₂ lb₂ := by
  obtain ⟨v, hv⟩ := OrdMap.mem_iff.mp hmem
  have hcore := h.core spec
  rw [hvips, hv, Option.map_some] at hcore
  obtain ⟨v₂, hv₂, hcore⟩ := Option.map_eq_some_iff.mp hcore
  have hhit : (v₂.members.keys.any (· ∈ newly)) = true ↔ Hit lb newly spec := by
    simp only [List.any_eq_true, decide_eq_true_eq, ExtTreeMap.mem_keys, Hit, hv,
      Option.some.injEq, exists_eq_left', mem_of_core hcore]
  simp only [vipAt, wp_bind, wp_get, hv₂, wp_pure, wp_ite]
  constructor
  · intro hyes
    refine wp_imp (h.step hv₂ fun r hok => .ring _ r hok) ?_
    intro _ d' lb' hreb'
    refine hreb'.congr fun s _ => ?_
    rw [List.mem_append, List.mem_singleton]
    constructor
    · rintro (⟨hs, hit⟩ | rfl)
      · exact ⟨.inl hs, hit⟩
      · exact ⟨.inr rfl, hhit.mp hyes⟩
    · rintro ⟨hs | rfl, hit⟩
      · exact .inl ⟨hs, hit⟩
      · exact .inr rfl
  · intro hno
    refine h.congr fun s _ => ?_
    rw [List.mem_append, List.mem_singleton]
    constructor
    · exact fun hs => ⟨.inl hs.1, hs.2⟩
    · rintro ⟨hs | rfl, hit⟩
      · exact ⟨hs, hit⟩
      · exact absurd (hhit.mpr hit) hno

theorem neighborResolved_spec (henv : ArrayOk env) (h : Consistent [] lb d) (ip : UInt32)
    (mac : NeighMac) :
    wp (neighborResolved env ip mac) Harmless
      (fun _ d' lb' => ∃ R, Refreshed R lb d d' lb') (fun _ d' lb' => Failed lb d d' lb') d lb := by
  simp only [neighborResolved, wp_bind, wp_get]
  refine wp_mono (wp_fold (I := fun done newly d₁ lb₁ =>
    Resolved lb d mac.mac done newly d₁ lb₁) (E := fun _ _ _ => False) (lb.resolvedAddrs ip) ?_ ?_)
    (fun _ _ hw => hw) ?_ (fun _ _ _ hf => hf.elim)
  · exact ⟨.refl d, ⟨lb.reals, rfl⟩, h.table, by simp, by simp⟩
  · rintro done a rest - newly d₁ lb₁ hr
    exact setOne_spec henv mac.ne_zero hr a
  rintro newly d₁ lb₁ hr
  have hedit := hr.edited h
  have hvips : lb₁.vips = lb.vips := by
    obtain ⟨t, rfl⟩ := hr.state
    rfl
  rw [wp_ite]
  constructor
  · intro hempty
    rw [wp_pure]
    refine ⟨Hit lb newly, d₁, lb₁, hedit, (Rebuilt.refl hedit.consistent).congr fun s _ => ?_⟩
    simp [Hit, List.isEmpty_iff.mp hempty]
  · intro _
    refine wp_mono (wp_each (I := fun done d' lb' =>
      Rebuilt (fun s => s ∈ done ∧ Hit lb newly s) lb₁ d₁ d' lb')
      (E := fun _ d' lb' => Failed lb₁ d₁ d' lb') lb.vips.keys ?_ ?_)
      (fun _ _ hw => hw) ?_ (fun _ _ _ hf => hedit.failed h hf)
    · exact (Rebuilt.refl hedit.consistent).congr fun s _ => by simp
    · rintro done spec rest hkeys d₂ lb₂ hreb
      refine hreb.visit hvips ?_
      rw [← ExtTreeMap.mem_keys, hkeys]
      simp
    · intro _ d' lb' hreb
      refine ⟨Hit lb newly, d₁, lb₁, hedit, hreb.congr fun s hs => ?_⟩
      rw [hvips, ← ExtTreeMap.mem_keys] at hs
      simp [hs]

end Neighbor

/-! ## What a refresh keeps -/

theorem Harmless.pinned {w : MapWrite} (hw : Harmless d₁ w) {ids : Set Nat}
    (h : PinnedOn ids d₁) : PinnedOn (w.relied ids) (Durable.write d₁ w) := by
  cases hw with
  | slot _ hslot => exact h.slotWrite hslot
  | ring id r hok => exact h.ringSwap hok id

theorem Edited.settled (h : Edited R lb d d₁ lb₁) (hs : Settled lb d) : Settled lb₁ d₁ := by
  have hholders : ∀ a, holders lb₁.vips a = holders lb.vips a := by
    intro a
    ext s
    rw [mem_holders, mem_holders]
    constructor
    · rintro ⟨v₁, hv₁, ha⟩
      obtain ⟨v, hv, -, -, hmem⟩ := h.vip_of hv₁
      exact ⟨v, hv, (hmem a).mp ha⟩
    · rintro ⟨v, hv, ha⟩
      obtain ⟨v₁, hv₁⟩ := OrdMap.mem_iff.mp ((h.mem s).mpr (OrdMap.mem_iff.mpr ⟨v, hv⟩))
      exact ⟨v₁, hv₁, ((h.vip s v v₁ hv hv₁).2.2 a).mpr ha⟩
  refine ⟨⟨h.consistent, fun a => ?_, fun s v₁ hv₁ => ?_, fun s v₁ r hv₁ hr b hb => ?_⟩,
    fun s hmem => ?_, fun a e he => ?_⟩
  · rw [hholders, ← hs.refs_eq]
    exact refsOf_congr (h.entry a)
  · obtain ⟨v, hv, hid, hflags, -⟩ := h.vip_of hv₁
    rw [h.same.vipMap, hid, hflags]
    exact hs.entry_of_vip s v hv
  · obtain ⟨v, hv, hid, -, hmem⟩ := h.vip_of hv₁
    rw [h.same.rings, hid] at hr
    exact (hmem b.addr).mpr (hs.covered s v r hv hr b hb)
  · rw [h.same.vipMap] at hmem
    exact (h.mem s).mpr (hs.owned s hmem)
  · have hentry := h.entry a
    rw [he, Option.map_some] at hentry
    obtain ⟨e₀, he₀, heq⟩ := Option.map_eq_some_iff.mp hentry.symm
    rw [← (Prod.mk.inj heq).2]
    exact hs.counted a e₀ he₀

theorem Rebuilt.settled (h : Rebuilt R lb d d' lb') (hs : Settled lb d) : Settled lb' d' := by
  have hholders : ∀ a, holders lb'.vips a = holders lb.vips a := by
    intro a
    ext s
    rw [mem_holders, mem_holders]
    constructor
    · rintro ⟨v', hv', ha⟩
      obtain ⟨v, hv, hcore⟩ := h.vip hv'
      exact ⟨v, hv, (mem_of_core hcore a).mp ha⟩
    · rintro ⟨v, hv, ha⟩
      obtain ⟨v', hv', hcore⟩ := h.vip_of hv
      exact ⟨v', hv', (mem_of_core hcore a).mpr ha⟩
  obtain ⟨vips, hstate⟩ := h.state
  obtain ⟨rings, hd⟩ := h.maps
  have hreals : lb'.reals = lb.reals := by rw [hstate]
  have hmap : d'.vipMap = d.vipMap := by rw [hd]
  refine ⟨⟨h.consistent, fun a => ?_, fun s v' hv' => ?_, fun s v' r hv' hr b hb => ?_⟩,
    fun s hmem => ?_, ?_⟩
  · rw [hholders, hreals]
    exact hs.refs_eq a
  · obtain ⟨v, hv, hcore⟩ := h.vip hv'
    obtain ⟨-, hid, hflags, -⟩ := core_inj hcore
    rw [hmap, hid, hflags]
    exact hs.entry_of_vip s v hv
  · by_cases hR : R s
    · obtain ⟨slots, -, hring⟩ := h.ring s v' hR hv'
      rw [hring] at hr
      rw [← Option.some.inj hr] at hb
      obtain ⟨a, m, hm, rfl⟩ := mem_backendsOf.mp hb
      exact OrdMap.mem_iff.mpr ⟨m, hm⟩
    · obtain ⟨v, hv, hcore⟩ := h.vip hv'
      rw [h.ring_else s v' hR hv', (core_inj hcore).2.1] at hr
      exact (mem_of_core hcore _).mpr (hs.covered s v r hv hr b hb)
  · rw [hmap] at hmem
    obtain ⟨v, hv⟩ := OrdMap.mem_iff.mp (hs.owned s hmem)
    obtain ⟨v', hv', -⟩ := h.vip_of hv
    exact OrdMap.mem_iff.mpr ⟨v', hv'⟩
  · rw [hreals]
    exact hs.counted

theorem Refreshed.settled (h : Refreshed R lb d d' lb') (hs : Settled lb d) :
    Settled lb' d' := by
  obtain ⟨d₁, lb₁, hedit, hreb⟩ := h
  exact hreb.settled (hedit.settled hs)

end LbState

end PacketBalance
