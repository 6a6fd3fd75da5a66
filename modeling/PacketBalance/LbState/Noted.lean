import PacketBalance.LbState.Coherence
import PacketBalance.Operation
/-!
# Who is noted as being in the ring

`rebuild_locked` notes in every member whether it takes part, and hands `build_ring` the
weights of those who do.  A ring may be out of date, but the notes are then as old as the
ring: nothing changes a member's weight or its note without a rebuild.
-/

namespace PacketBalance

open WriteLog Std

/-- An address, whether it takes part in a ring, and the weight it has there. -/
abbrev Note := UInt32 × Bool × Nat

def Backend.note (b : Backend) : Note := (b.addr, decide (0 < b.weight), b.weight)

def Member.note (a : UInt32) (m : Member) : Note :=
  (a, m.inRing, if m.inRing then m.weight else 0)

def Vip.notes (v : Vip) : List Note := v.members.toList.map fun p => p.2.note p.1

theorem Vip.notes_ext {v v' : Vip}
    (h : ∀ a : UInt32, v'.members[a]?.map (Member.note a) = v.members[a]?.map (Member.note a)) :
    v'.notes = v.notes := by
  have hnotes : ∀ u : Vip, u.notes = (u.members.map Member.note).toList.map Prod.snd := by
    intro u
    rw [Vip.notes, ExtTreeMap.toList_map, List.map_map]
    rfl
  rw [hnotes, hnotes]
  congr 2
  apply ExtTreeMap.ext_getElem?
  simpa only [ExtTreeMap.getElem?_map] using h

theorem Vip.mem_notes {v : Vip} {n : Note} :
    n ∈ v.notes ↔ ∃ m, v.members[n.1]? = some m ∧ m.note n.1 = n := by
  simp only [Vip.notes, List.mem_map, Prod.exists, ExtTreeMap.mem_toList_iff_getElem?_eq_some]
  constructor
  · rintro ⟨a, m, hm, rfl⟩
    exact ⟨m, hm, rfl⟩
  · rintro ⟨m, hm, hn⟩
    exact ⟨n.1, m, hm, hn⟩

namespace LbState

variable {lb lb' : LbState} {d d' : CtlMaps} {env : Env} {spec s : VipSpec} {v v' : Vip}

/-- The ring was built in this mode and from these notes. -/
structure Tells (mode : HashMode) (v : Vip) (r : InstalledRing) : Prop where
  mode_eq : r.mode = mode
  notes_eq : r.backends.map Backend.note = v.notes

def NotedAt (s : VipSpec) (d : CtlMaps) (lb : LbState) : Prop :=
  ∀ v, lb.vips[s]? = some v → ∃ r, d.rings v.id = some r ∧ Tells lb.hash v r

def Noted (d : CtlMaps) (lb : LbState) : Prop := ∀ s, NotedAt s d lb

theorem NotedAt.congr (h : NotedAt s d lb) (hhash : lb'.hash = lb.hash)
    (hvip : ∀ v', lb'.vips[s]? = some v' → ∃ v, lb.vips[s]? = some v ∧ v'.notes = v.notes ∧
      d'.rings v'.id = d.rings v.id) : NotedAt s d' lb' := by
  intro v' hv'
  obtain ⟨v, hv, hnotes, hring⟩ := hvip v' hv'
  obtain ⟨r, hr, htells⟩ := h v hv
  refine ⟨r, hring.trans hr, htells.mode_eq.trans hhash.symm, ?_⟩
  rw [hnotes]
  exact htells.notes_eq

theorem NotedAt.of_same (h : NotedAt s d lb) (hhash : lb'.hash = lb.hash)
    (hvip : lb'.vips[s]? = lb.vips[s]?)
    (hring : ∀ v, lb'.vips[s]? = some v → d'.rings v.id = d.rings v.id) : NotedAt s d' lb' :=
  h.congr hhash fun v hv => ⟨v, hvip ▸ hv, rfl, hring v hv⟩

theorem NotedAt.of_none (h : lb.vips[s]? = none) : NotedAt s d lb := by
  intro v hv
  rw [h] at hv
  cases hv

/-! ## rebuild_locked -/

theorem note_backendOf (lb : LbState) (a : UInt32) (m : Member) :
    (lb.backendOf a m).note = Member.note a { m with inRing := lb.eligible a m } := by
  cases helig : lb.eligible a m with
  | false => simp [Backend.note, Member.note, backendOf, helig]
  | true =>
      have hpos : 0 < m.weight := by
        simp only [eligible, Bool.and_eq_true, decide_eq_true_eq] at helig
        exact helig.1.1.1
      simp [Backend.note, Member.note, backendOf, helig, hpos]

theorem notes_markInRing (lb : LbState) (v : Vip) :
    (lb.backendsOf v).map Backend.note = (lb.markInRing v).notes := by
  simp only [backendsOf, Vip.notes, markInRing, ExtTreeMap.toList_map, List.map_map]
  exact List.map_congr_left fun p _ => lb.note_backendOf p.1 p.2

theorem Tells.inRing_eq {mode : HashMode} {r : InstalledRing} (h : Tells mode v r)
    (hbackends : r.backends = lb.backendsOf v) {a : UInt32} {m : Member}
    (hm : v.members[a]? = some m) : m.inRing = lb.eligible a m := by
  have hnotes : (lb.markInRing v).notes = v.notes := by
    rw [← notes_markInRing, ← hbackends, h.notes_eq]
  have hmem : m.note a ∈ (lb.markInRing v).notes := by
    rw [hnotes]
    exact Vip.mem_notes.mpr ⟨m, hm, rfl⟩
  obtain ⟨m', hm', heq⟩ := Vip.mem_notes.mp hmem
  have hmarked : (lb.markInRing v).members[a]? =
      some { m with inRing := lb.eligible a m } := by
    simp only [markInRing, ExtTreeMap.getElem?_map, hm, Option.map_some]
  obtain rfl := Option.some.inj (hmarked.symm.trans hm')
  exact (congrArg (fun n : Note => n.2.1) heq).symm

/-- Whatever the state, a rebuild that returns leaves the notes of the ring it installed. -/
theorem rebuild_notedAt : wp (rebuildLocked env spec) (fun _ _ => True)
    (fun _ => NotedAt spec) (fun _ _ _ => True) d lb := by
  simp only [rebuildLocked, vipAt, putVip, wp_bind, wp_get]
  cases hv : lb.vips[spec]? with
  | none => exact (wp_throw _).mpr trivial
  | some v =>
      simp only [wp_pure, wp_modify, wp_ite, wp_throw, backendsOf_markInRing]
      refine ⟨fun _ => trivial, fun _ => ?_⟩
      split
      · exact (wp_throw _).mpr trivial
      · exact (wp_throw _).mpr trivial
      · simp only [installRing, wp_bind, wp_ite, wp_throw]
        refine ⟨fun _ => trivial, fun _ => ?_⟩
        split
        · exact (wp_throw _).mpr trivial
        · simp only [wp_emit, write_ringSwap, wp_modify, true_and]
          intro u hu
          rw [ExtTreeMap.getElem?_insert_self] at hu
          obtain rfl := Option.some.inj hu
          exact ⟨_, Function.update_self .., rfl, lb.notes_markInRing v⟩

theorem rebuild_noted {pend : List UInt32} (h : Consistent pend lb d)
    (hv : lb.vips[spec]? = some v) (hall : ∀ s, s ≠ spec → NotedAt s d lb) :
    wp (rebuildLocked env spec) (fun _ _ => True)
      (fun _ d' lb' => Consistent pend lb' d' ∧ Noted d' lb') (fun _ _ _ => True) d lb := by
  refine (wp_and (rebuild_spec (G := fun _ _ => True) h hv fun _ _ => trivial)
    rebuild_notedAt).returns ?_
  rintro _ _ _ ⟨⟨hc, -, slots, -, rfl, rfl⟩, hown⟩
  refine ⟨hc, fun s => ?_⟩
  by_cases hs : s = spec
  · rw [hs]
    exact hown
  · have hsame : (lb.vips.insert spec
        { lb.markInRing v with generation := v.generation + 1 })[s]? = lb.vips[s]? := by
      rw [OrdMap.getElem?_insert, if_neg hs]
    refine (hall s hs).of_same rfl hsame fun u hu => ?_
    exact Function.update_of_ne (h.weaken.id_ne (hsame.symm.trans hu) hv hs) _ _

theorem rebuildMember_noted (h : Consistent [] lb d) (hv : lb.vips[spec]? = some v) {a : UInt32}
    {m : Member} (hm : v.members[a]? = some m) (m' : Member) (hall : Noted d lb) :
    wp (rebuildLocked env spec) (fun _ _ => True) (fun _ => Noted) (fun _ _ _ => True) d
      { lb with vips := lb.vips.insert spec { v with members := v.members.insert a m' } } := by
  have hedit := Edited.member (R := fun s => s = spec) h hv hm m' (.inl rfl)
  refine wp_imp (rebuild_noted hedit.consistent (ExtTreeMap.getElem?_insert_self ..) ?_)
    fun _ _ _ hend => hend.2
  intro s hs
  exact (hall s).of_same rfl (by rw [OrdMap.getElem?_insert, if_neg hs]) fun _ _ => rfl

/-! ## What leaves the rings alone -/

theorem writeSlot_rings (rings : Nat → Option InstalledRing) (id : Nat) :
    Preserves (fun d _ => d.rings = rings) (RealTable.writeSlot env id) := by
  have hneigh : ∀ mac,
      Preserves (fun d _ => d.rings = rings) (RealTable.writeNeigh env id mac) := by
    intro mac
    unfold RealTable.writeNeigh
    split
    · exact .of_throw _
    · exact .of_emit fun _ _ h => h
  have hreal : ∀ a, Preserves (fun d _ => d.rings = rings) (RealTable.writeReal env id a) := by
    intro a
    unfold RealTable.writeReal
    split
    · exact .of_throw _
    · exact .of_emit fun _ _ h => h
  exact Preserves.of_get.bind fun t => .ite (fun _ => (hneigh _).bind fun _ => hreal _)
    fun _ => (hreal _).bind fun _ => hneigh _

theorem release_rings (rings : Nat → Option InstalledRing) (a : UInt32) :
    Preserves (fun d _ => d.rings = rings) (RealTable.release env a) := by
  refine Preserves.of_get.bind fun t => ?_
  split
  · exact .of_pure _
  · refine .ite (fun _ => .of_modify fun _ _ h => h) fun _ => ?_
    refine Preserves.bind (.of_modify fun _ _ h => ?_) fun _ => writeSlot_rings rings _
    exact h

theorem preserves_release (s : VipSpec) (a : UInt32) :
    Preserves (NotedAt s) (onReals (RealTable.release env a)) := by
  intro d lb h
  rw [onReals, wp_zoom]
  have hend : ∀ (d' : CtlMaps) (t : RealTable), d'.rings = d.rings →
      NotedAt s d' { lb with reals := t } := fun d' t hrings =>
    h.of_same rfl rfl fun _ _ => by rw [hrings]
  exact wp_mono (release_rings d.rings a d lb.reals rfl) (fun _ _ hw => hw)
    (fun _ d' t => hend d' t) fun _ d' t => hend d' t

theorem preserves_writeVipEntry (s spec : VipSpec) :
    Preserves (NotedAt s) (writeVipEntry env spec) := by
  refine (Edits.preserves_vipAt spec).bind fun v => ?_
  simp only
  split
  · exact .of_throw _
  · exact .of_emit fun _ _ h => h.of_same rfl rfl fun _ _ => rfl

theorem preserves_setFlags (flags : UInt32) :
    Preserves (NotedAt spec) (setFlags env spec flags) := by
  intro d lb h
  simp only [setFlags, vipAt, putVip, wp_bind, wp_get]
  cases hv : lb.vips[spec]? with
  | none => exact (wp_throw _).mpr h
  | some v =>
      have hput : NotedAt spec d { lb with vips := lb.vips.insert spec { v with flags } } := by
        refine h.congr rfl fun v' hv' => ⟨v, hv, ?_⟩
        rw [ExtTreeMap.getElem?_insert_self] at hv'
        obtain rfl := Option.some.inj hv'
        exact ⟨rfl, rfl⟩
      simp only [wp_pure, wp_ite, wp_modify, wp_bind]
      exact ⟨fun _ => preserves_writeVipEntry spec spec _ _ hput, fun _ => h⟩

/-! ## The VIP at hand -/

section Own

variable {flags : UInt32} {want : ExtTreeMap UInt32 Nat} {hashChanged : Bool}

theorem createVip_notedAt : wp (createVipLocked env spec flags want) (fun _ _ => True)
    (fun _ => NotedAt spec) (fun _ _ _ => True) d lb := by
  simp only [createVipLocked, wp_bind, wp_modify]
  refine wp_imp (wp_true _) fun id _ _ _ => wp_imp (wp_true _) fun _ _ _ _ => ?_
  refine wp_imp rebuild_notedAt fun _ d lb h => ?_
  rw [← wp_bind]
  exact ((preserves_writeVipEntry spec spec).bind fun _ =>
    Edits.preserves_vipAt spec).to_wp h fun _ _ _ h => h

theorem reconcileMember_notedAt {changed : Bool} (r : UInt32 × Nat)
    (h : changed = false → NotedAt spec d lb) :
    wp (reconcileMember env spec changed r) (fun _ _ => True)
      (fun changed' d' lb' => changed' = false → NotedAt spec d' lb') (fun _ _ _ => True) d lb := by
  simp only [reconcileMember, vipAt, putVip, wp_bind, wp_get]
  cases hv : lb.vips[spec]? with
  | none => exact (wp_throw _).mpr trivial
  | some v =>
      rw [wp_pure]
      split
      · rw [wp_bind]
        exact wp_imp (wp_true _) fun _ _ _ _ => (wp_pure true).mpr fun hno => by cases hno
      · simp only [wp_ite, wp_bind, wp_modify, wp_pure]
        exact ⟨fun _ hno => (by cases hno), fun _ => h⟩

theorem removeMembers_notedAt {removed : List UInt32}
    (h : hashChanged = false → NotedAt spec d lb) :
    wp (Prog.each removed (removeMemberLocked spec)) (fun _ _ => True)
      (fun _ d' lb' => (hashChanged || !removed.isEmpty) = false → NotedAt spec d' lb')
      (fun _ _ _ => True) d lb := by
  cases removed with
  | nil =>
      refine (wp_pure ()).mpr fun hno => h ?_
      simpa using hno
  | cons a rest => exact wp_imp (wp_true _) fun _ _ _ _ hno => by simp at hno

theorem reconcileVip_notedAt (h : hashChanged = false → NotedAt spec d lb) :
    wp (reconcileVip env hashChanged spec flags want) (fun _ _ => True)
      (fun _ => NotedAt spec) (fun _ _ _ => True) d lb := by
  simp only [reconcileVip, wp_bind]
  refine (preserves_setFlags flags).imp.to_wp h fun _ d₁ lb₁ h₁ => ?_
  have hvip : Preserves (fun d lb => hashChanged = false → NotedAt spec d lb) (vipAt spec) :=
    Edits.preserves_vipAt spec
  refine hvip.to_wp h₁ fun v d₂ lb₂ h₂ => ?_
  refine wp_imp (removeMembers_notedAt h₂) fun _ d₃ lb₃ h₃ => ?_
  refine wp_imp (wp_fold (I := fun _ changed d lb => changed = false → NotedAt spec d lb)
    want.toList h₃ fun _ r _ _ _ _ _ hr => reconcileMember_notedAt r hr) fun changed d₄ lb₄ h₄ => ?_
  have hrelease : Preserves (NotedAt spec) (Prog.each (removedMembers v want) fun a =>
      onReals (RealTable.release env a)) := .each fun a _ => preserves_release spec a
  rw [wp_when]
  constructor
  · exact fun _ => wp_imp rebuild_notedAt fun _ d lb h => hrelease.to_wp h fun _ _ _ h => h
  · exact fun hno => hrelease.to_wp (h₄ hno) fun _ _ _ h => h

theorem applyVip_notedAt {vc : VipConfig} (h : hashChanged = false → NotedAt vc.spec d lb) :
    wp (applyVip env hashChanged vc) (fun _ _ => True) (fun _ => NotedAt vc.spec)
      (fun _ _ _ => True) d lb := by
  simp only [applyVip, wp_bind, wp_get]
  cases hv : lb.vips[vc.spec]? with
  | none =>
      simp only [wp_bind, wp_pure]
      exact createVip_notedAt
  | some v => exact reconcileVip_notedAt h

theorem VipStep.notedAt_else (h : VipStep env hashChanged lb d spec flags want v' d' lb')
    (hne : s ≠ spec) (hs : NotedAt s d lb) : NotedAt s d' lb' :=
  hs.of_same h.hash (h.vip_else hne) fun _ hv => h.ring_else hne hv

theorem VipStep.noted (h : VipStep env hashChanged lb d spec flags want v' d' lb')
    (hown : NotedAt spec d' lb') (hall : Noted d lb) : Noted d' lb' := by
  intro s
  by_cases hs : s = spec
  · rw [hs]
    exact hown
  · exact h.notedAt_else hs (hall s)

end Own

/-! ## apply -/

theorem RingKept.notedAt (h : RingKept s lb d lb' d')
    (hsame : ∀ v, lb'.vips[s]? = some v → lb.vips[s]? = some v) (hs : NotedAt s d lb) :
    NotedAt s d' lb' := by
  refine hs.congr h.hash fun v' hv' => ?_
  obtain ⟨v, hv, -, hring⟩ := h.vip v' hv'
  obtain rfl : v = v' := Option.some.inj (hv.symm.trans (hsame v' hv'))
  exact ⟨v, hv, rfl, hring⟩

theorem Deleted.noted (h : Deleted lb d spec v lb' d') (hc : Consistent [] lb d)
    (hv : lb.vips[spec]? = some v) (hall : Noted d lb) : Noted d' lb' := by
  intro s
  refine (h.kept hc hv).notedAt (fun u hu => ?_) (hall s)
  rw [h.vips, OrdMap.getElem?_erase] at hu
  split_ifs at hu
  exact hu

section Apply

variable {cfg : Config} {z : CtlMaps × LbState}

theorem Opened.noted (h : Opened env cfg lb d z) (hs : Startable lb d)
    (hhash : lb.hashChanges cfg = false) (hall : Noted d lb) : Noted z.1 z.2 := by
  intro s
  refine (h.kept hs hhash).notedAt (fun v hv => ?_) (hall s)
  rw [h.vips] at hv
  split_ifs at hv
  exact hv

theorem Finished.noted (h : Finished lb d d' lb') (hc : Consistent [] lb d) (hall : Noted d lb) :
    Noted d' lb' := by
  intro s
  refine (h.kept hc).notedAt (fun v hv => ?_) (hall s)
  obtain ⟨t, rfl⟩ := h.state
  exact hv

/-- A VIP's notes are right once it has had its turn; if the hash mode stays, they are right
before that. -/
theorem applyVips_noted (henv : ArrayOk env) (hok : cfg.Ok) (hopen : Opened env cfg lb d z)
    (hz : lb.hashChanges cfg = false → Noted z.1 z.2) :
    wp (Prog.each cfg.vips (applyVip env (lb.hashChanges cfg))) (fun _ _ => True)
      (fun _ d' lb' => Along env cfg lb d cfg.vips (d', lb') ∧ Noted d' lb')
      (fun _ _ _ => True) z.1 z.2 := by
  refine wp_imp (wp_each (I := fun done d' lb' => Along env cfg lb d done (d', lb') ∧
    ∀ s, lb.hashChanges cfg = false ∨ s ∈ done.map VipConfig.spec → NotedAt s d' lb')
    cfg.vips ?_ ?_) ?_
  · exact ⟨⟨z, hopen, rfl⟩, fun s hs => hz (hs.resolve_right (by simp)) s⟩
  · rintro done vc rest hvips d₁ lb₁ ⟨halong, hnoted⟩
    have hne := wantOf_ne_zero (hok.vip_ok vc (by simp [hvips]))
    refine (wp_and (applyVip_spec henv halong.facts.1 _ vc hne)
      (applyVip_notedAt fun hstays => hnoted vc.spec (.inl hstays))).returns ?_
    rintro _ d' lb' ⟨⟨v', hstep⟩, hown⟩
    refine ⟨halong.snoc ⟨v', hstep⟩, fun s hs => ?_⟩
    by_cases heq : s = vc.spec
    · rw [heq]
      exact hown
    · refine hstep.notedAt_else heq (hnoted s ?_)
      simpa [heq] using hs
  · rintro _ d' lb' ⟨halong, hnoted⟩
    refine ⟨halong, fun s => ?_⟩
    by_cases hin : s ∈ cfg.specs
    · exact hnoted s (.inr hin)
    · refine .of_none ?_
      rw [(halong.vips hok List.prefix_rfl).1 s hin, if_neg hin]

theorem apply_noted (henv : ArrayOk env) (hok : cfg.Ok) (hs : Startable lb d)
    (hall : Noted d lb) :
    wp (apply env cfg) (fun _ _ => True) (fun _ => Noted) (fun _ _ _ => True) d lb := by
  simp only [apply, wp_bind, wp_get]
  refine (applyOpening_opened henv hs).returns ?_
  rintro _ d₁ lb₁ ⟨rfl, hopen⟩
  refine wp_imp (applyVips_noted henv hok hopen fun hstays => hopen.noted hs hstays hall) ?_
  rintro _ d₂ lb₂ ⟨halong, hnoted⟩
  rw [wp_when]
  refine ⟨fun _ => ?_, fun _ => hnoted⟩
  exact (finishFirst_spec henv halong.facts.1).returns fun _ _ _ hfin =>
    hfin.noted halong.facts.1 hnoted

end Apply

/-! ## API mutations, health and neighbours -/

section Api

variable {a : UInt32}

theorem addVip_noted (henv : ArrayOk env) (h : Consistent [] lb d) (noConntrack : Bool)
    (hall : Noted d lb) :
    wp (addVip env spec noConntrack) (fun _ _ => True) (fun _ => Noted) (fun _ _ _ => True)
      d lb := by
  have hown : wp (addVip env spec noConntrack) (fun _ _ => True) (fun _ => NotedAt spec)
      (fun _ _ _ => True) d lb := by
    simp only [addVip, wp_bind, wp_get, wp_ite, wp_throw, wp_pure]
    exact ⟨fun _ => trivial, fun _ => createVip_notedAt⟩
  refine (wp_and (addVip_spec henv h noConntrack) hown).returns ?_
  rintro id d' lb' ⟨⟨-, v, -, hstep⟩, hspec⟩
  exact hstep.noted hspec hall

theorem addReal_noted (henv : ArrayOk env) (h : Consistent [] lb d) (weight : Nat)
    (hall : Noted d lb) :
    wp (addReal env spec a weight) (fun _ _ => True) (fun _ => Noted) (fun _ _ _ => True)
      d lb := by
  have hown : wp (addReal env spec a weight) (fun _ _ => True) (fun _ => NotedAt spec)
      (fun _ _ _ => True) d lb := by
    rw [addReal, wp_bind]
    refine wp_vipOrThrow (fun _ => trivial) fun v hv => ?_
    simp only [wp_ite, wp_throw, wp_bind]
    refine ⟨fun _ => trivial, fun _ => ⟨fun _ => trivial, fun _ => ⟨fun _ => trivial,
      fun _ => ?_⟩⟩⟩
    refine wp_imp (wp_true _) fun _ d₁ lb₁ _ => wp_imp rebuild_notedAt fun _ d₂ lb₂ h₂ => ?_
    simp only [derefId, wp_bind, wp_get]
    split
    · exact (wp_pure _).mpr h₂
    · exact (wp_throw _).mpr trivial
  refine (wp_and (addReal_spec henv h) hown).returns ?_
  rintro id d' lb' ⟨⟨v, v', -, -, hstep⟩, hspec⟩
  exact hstep.noted hspec hall

theorem delReal_noted (henv : ArrayOk env) (h : Consistent [] lb d) (hall : Noted d lb) :
    wp (delReal env spec a) (fun _ _ => True) (fun _ => Noted) (fun _ _ _ => True) d lb := by
  have hown : wp (delReal env spec a) (fun _ _ => True) (fun _ => NotedAt spec)
      (fun _ _ _ => True) d lb := by
    simp only [delReal, wp_bind]
    refine wp_imp (wp_true _) fun v _ _ _ => wp_imp (wp_true _) fun m _ _ _ => ?_
    refine wp_imp (wp_true _) fun _ _ _ _ => wp_imp rebuild_notedAt fun _ d₁ lb₁ h₁ => ?_
    exact (preserves_release spec a).to_wp h₁ fun _ _ _ h => h
  refine (wp_and (delReal_spec henv h) hown).returns ?_
  rintro _ d' lb' ⟨⟨v, v', -, -, hstep⟩, hspec⟩
  exact hstep.noted hspec hall

theorem setWeight_noted (h : Consistent [] lb d) (hall : Noted d lb) (weight : Nat) :
    wp (setWeight env spec a weight) (fun _ _ => True) (fun _ => Noted) (fun _ _ _ => True)
      d lb := by
  rw [setWeight, wp_ite]
  refine ⟨fun _ => (wp_throw _).mpr trivial, fun _ => ?_⟩
  refine wp_editMember (fun m => m.weight = weight) (fun m => { m with weight })
    (fun _ => trivial) (fun _ _ _ => trivial) (fun _ _ _ _ _ => hall) ?_
  exact fun v m hv hm _ => rebuildMember_noted h hv hm _ hall

theorem setDraining_noted (h : Consistent [] lb d) (hall : Noted d lb) (draining : Bool) :
    wp (setDraining env spec a draining) (fun _ _ => True) (fun _ => Noted) (fun _ _ _ => True)
      d lb := by
  refine wp_editMember (fun m => m.draining = draining) (fun m => { m with draining })
    (fun _ => trivial) (fun _ _ _ => trivial) (fun _ _ _ _ _ => hall) ?_
  exact fun v m hv hm _ => rebuildMember_noted h hv hm _ hall

theorem note_countProbe (a : UInt32) (m : Member) (r : ProbeResult) :
    (countProbe m r).note a = m.note a := by
  unfold countProbe
  split <;> rfl

theorem Noted.countProbe (hall : Noted d lb) (hv : lb.vips[spec]? = some v) {m : Member}
    (hm : v.members[a]? = some m) (r : ProbeResult) :
    Noted d { lb with
      vips := lb.vips.insert spec
        { v with members := v.members.insert a (LbState.countProbe m r) } } := by
  intro s
  by_cases hs : s = spec
  · subst hs
    refine (hall s).congr rfl fun v' hv' => ⟨v, hv, ?_⟩
    rw [ExtTreeMap.getElem?_insert_self] at hv'
    obtain rfl := Option.some.inj hv'
    refine ⟨Vip.notes_ext fun b => ?_, rfl⟩
    rw [OrdMap.getElem?_insert]
    split_ifs with hb
    · rw [hb, hm, Option.map_some, Option.map_some, note_countProbe]
    · rfl
  · exact (hall s).of_same rfl (by rw [OrdMap.getElem?_insert, if_neg hs]) fun _ _ => rfl

theorem reportHealth_noted (h : Consistent [] lb d) (hall : Noted d lb) (t : HealthTarget)
    (r : ProbeResult) (rise fall : UInt32) :
    wp (reportHealth env t r rise fall) (fun _ _ => True) (fun _ => Noted) (fun _ _ _ => True)
      d lb := by
  simp only [reportHealth, wp_bind, wp_get]
  cases hv : lb.vips[t.vip]? with
  | none => exact (wp_pure _).mpr hall
  | some v =>
      cases hm : v.members[t.addr]? with
      | none =>
          simp only [hm, wp_pure]
          exact hall
      | some m =>
          simp only [hm, wp_ite, wp_pure, wp_bind, putVip, wp_modify]
          exact ⟨fun _ => hall, fun _ => ⟨fun _ => hall, fun _ =>
            ⟨fun _ => rebuildMember_noted h hv hm _ hall, fun _ => hall.countProbe hv hm r⟩⟩⟩

theorem neighborResolved_noted (henv : ArrayOk env) (h : Consistent [] lb d) (hall : Noted d lb)
    (ip : UInt32) (mac : NeighMac) :
    wp (neighborResolved env ip mac) (fun _ _ => True) (fun _ => Noted) (fun _ _ _ => True)
      d lb := by
  simp only [neighborResolved, wp_bind, wp_get]
  refine wp_mono (wp_fold (G := Harmless) (I := fun done newly d₁ lb₁ =>
    Resolved lb d mac.mac done newly d₁ lb₁) (E := fun _ _ _ => False) (lb.resolvedAddrs ip) ?_ ?_)
    (fun _ _ _ => trivial) ?_ (fun _ _ _ hf => hf.elim)
  · exact ⟨.refl d, ⟨lb.reals, rfl⟩, h.table, by simp, by simp⟩
  · rintro done addr rest - newly d₁ lb₁ hr
    exact setOne_spec henv mac.ne_zero hr addr
  rintro newly d₁ lb₁ hr
  have hc₁ := (hr.edited h).consistent
  have hall₁ : Noted d₁ lb₁ := by
    intro s
    obtain ⟨t, rfl⟩ := hr.state
    exact (hall s).of_same rfl rfl fun _ _ => by rw [hr.same.rings]
  rw [wp_ite]
  refine ⟨fun _ => (wp_pure _).mpr hall₁, fun _ => ?_⟩
  refine wp_imp (wp_each (I := fun _ d lb => Consistent [] lb d ∧ Noted d lb) lb.vips.keys
    ⟨hc₁, hall₁⟩ ?_) fun _ _ _ hend => hend.2
  rintro done spec rest - d₂ lb₂ ⟨hc₂, hall₂⟩
  simp only [vipAt, wp_bind, wp_get]
  cases hv : lb₂.vips[spec]? with
  | none => exact (wp_throw _).mpr trivial
  | some v =>
      simp only [wp_pure, wp_ite]
      exact ⟨fun _ => rebuild_noted hc₂ hv fun s _ => hall₂ s, fun _ => ⟨hc₂, hall₂⟩⟩

end Api

end LbState

open LbState

/-- Every operation that returns leaves the notes of the rings it leaves. -/
theorem Op.run_noted {env : Env} {op : Op} {lb : LbState} {d : CtlMaps} (henv : ArrayOk env)
    (hs : Startable lb d) (hc : op.isApply = false → Consistent [] lb d) (hall : Noted d lb) :
    wp (op.run env) (fun _ _ => True) (fun _ => Noted) (fun _ _ _ => True) d lb := by
  cases op with
  | apply cfg => exact apply_noted henv cfg.ok hs hall
  | addVip vip noConntrack =>
      rw [run, wp_bind]
      exact wp_imp (addVip_noted henv (hc rfl) noConntrack hall) fun _ _ _ h => (wp_pure _).mpr h
  | delVip vip =>
      refine (delVip_spec henv (hc rfl)).returns ?_
      rintro _ d' lb' ⟨v, hv, hdel⟩
      exact hdel.noted (hc rfl) hv hall
  | addReal vip addr weight =>
      rw [run, wp_bind]
      exact wp_imp (addReal_noted henv (hc rfl) weight hall) fun _ _ _ h => (wp_pure _).mpr h
  | delReal vip addr => exact delReal_noted henv (hc rfl) hall
  | setWeight vip addr weight => exact setWeight_noted (hc rfl) hall weight
  | setDraining vip addr draining => exact setDraining_noted (hc rfl) hall draining
  | reportHealth target result rise fall =>
      exact reportHealth_noted (hc rfl) hall target result rise fall
  | neighborResolved ip mac => exact neighborResolved_noted henv (hc rfl) hall ip mac

end PacketBalance
