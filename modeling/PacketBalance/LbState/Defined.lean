import PacketBalance.Operation
/-!
# No undefined behaviour

`*reals_.id_of(addr)` reads through a `std::optional` without a test, a `Vip&` is used
across calls that change the map it points into, and the loop that fills a ring has no
bound of its own.  On a consistent model the optional is never empty, the VIP is still
there and the loop ends: an operation returns, or throws an exception that
`handle_line` reports.
-/

namespace PacketBalance

open WriteLog Std

namespace LbState

variable {pend : List UInt32} {env : Env} {lb : LbState} {d : CtlMaps} {spec : VipSpec} {v : Vip}

/-- The error is an exception and not undefined behaviour. -/
def Declared (err : LbError) (_ : CtlMaps) (_ : LbState) : Prop := err ≠ .undefined

/-- Every error of `m` is an exception. -/
def Defined {α : Type} (m : LbM α) (d : CtlMaps) (lb : LbState) : Prop :=
  wp m (fun _ _ => True) (fun _ _ _ => True) Declared d lb

/-! ## Rules -/

section Rules

variable {α β : Type} {m : LbM α} {G : CtlMaps → MapWrite → Prop}
variable {Q : α → CtlMaps → LbState → Prop} {E : LbError → CtlMaps → LbState → Prop}

theorem Defined.of_wp (h : wp m G Q E d lb) (hE : ∀ err d' lb', E err d' lb' → err ≠ .undefined) :
    Defined m d lb :=
  wp_mono h (fun _ _ _ => trivial) (fun _ _ _ _ => trivial) hE

theorem Defined.bind (h : Defined m d lb) (hm : wp m G Q E d lb) {f : α → LbM β}
    (hf : ∀ a d' lb', Q a d' lb' → Defined (f a) d' lb') : Defined (m >>= f) d lb := by
  refine (wp_bind m f).mpr (wp_mono (wp_and h hm) (fun _ _ _ => trivial) ?_ fun _ _ _ he => he.1)
  exact fun a d' lb' hq => hf a d' lb' hq.2

/-- A specification that rules undefined behaviour out itself. -/
theorem Defined.bind_wp (hm : wp m G Q E d lb)
    (hE : ∀ err d' lb', E err d' lb' → err ≠ .undefined) {f : α → LbM β}
    (hf : ∀ a d' lb', Q a d' lb' → Defined (f a) d' lb') : Defined (m >>= f) d lb :=
  (Defined.of_wp hm hE).bind hm hf

theorem Defined.each {ι : Type} {f : ι → LbM Unit} {I : List ι → CtlMaps → LbState → Prop}
    (xs : List ι) (hinit : I [] d lb)
    (hstep : ∀ done x rest, xs = done ++ x :: rest → ∀ d lb, I done d lb →
      Defined (f x) d lb ∧
        wp (f x) (fun _ _ => True) (fun _ d' lb' => I (done ++ [x]) d' lb') (fun _ _ _ => True)
          d lb) : Defined (Prog.each xs f) d lb := by
  refine wp_imp (wp_each (I := I) (E := Declared) xs hinit ?_) fun _ _ _ _ => trivial
  intro done x rest hxs d' lb' hI
  obtain ⟨hdef, hbody⟩ := hstep done x rest hxs d' lb' hI
  exact wp_mono (wp_and hdef hbody) (fun _ _ _ => trivial) (fun _ _ _ hq => hq.2)
    fun _ _ _ he => he.1

end Rules

/-! ## One VIP -/

theorem rebuildLocked_defined (h : Consistent pend lb d) (hv : lb.vips[spec]? = some v) :
    Defined (rebuildLocked env spec) d lb := by
  refine .of_wp (rebuild_spec (G := fun _ _ => True) h hv fun _ _ => trivial) ?_
  rintro err d' lb' ⟨-, -, -, fault, -, rfl⟩
  exact LbError.noConfusion

theorem rebuildLocked_keeps (h : Consistent pend lb d) (hv : lb.vips[spec]? = some v) :
    wp (rebuildLocked env spec) (fun _ _ => True)
      (fun _ d' lb' => Consistent pend lb' d' ∧ ∃ v', lb'.vips[spec]? = some v')
      (fun _ _ _ => True) d lb := by
  refine (rebuild_spec (G := fun _ _ => True) h hv fun _ _ => trivial).returns ?_
  rintro _ d' lb' ⟨hc, -, slots, -, -, rfl⟩
  exact ⟨hc, _, by rw [OrdMap.getElem?_insert, if_pos rfl]⟩

theorem writeVipEntry_declared (hv : lb.vips[spec]? = some v) :
    wp (writeVipEntry env spec) (fun _ _ => True) (fun _ _ lb' => lb' = lb) Declared d lb := by
  simp only [writeVipEntry, vipAt, wp_bind, wp_get, hv, wp_pure]
  split
  · exact (wp_throw _).mpr LbError.noConfusion
  · exact (wp_emit _).mpr ⟨trivial, rfl⟩

theorem vipAt_defined (hv : lb.vips[spec]? = some v) : Defined (vipAt spec) d lb := by
  simp [Defined, vipAt, hv]

theorem createVipLocked_defined (henv : ArrayOk env) (h : Consistent [] lb d)
    (hnew : spec ∉ lb.vips) (flags : UInt32) {want : ExtTreeMap UInt32 Nat}
    (hne : ∀ a ∈ want, a ≠ (0 : UInt32)) : Defined (createVipLocked env spec flags want) d lb := by
  refine .bind_wp (takeVipId_spec (G := fun _ _ => True) hnew fun _ _ => trivial) ?_ ?_
  · rintro err _ _ ⟨rfl, -⟩
    exact LbError.noConfusion
  rintro id _ _ ⟨hid, rfl, rfl⟩
  have hc₀ := h.insertNew hnew hid flags
  have hmembers := addMembers_spec (G := fun _ _ => True) henv hc₀
    (v := { spec, id, flags }) (show _[spec]? = some _ by simp) want.toList
    (by rw [ExtTreeMap.map_fst_toList_eq_keys]; exact want.nodup_keys)
    (by simp) (fun p hp => hne p.1 (OrdMap.mem_iff.mpr ⟨p.2, mem_toList.mp hp⟩))
    fun _ _ _ _ => trivial
  simp only [Defined, wp_bind, wp_modify, OrdMap.insertIfNew_eq_insert hnew]
  refine wp_mono hmembers (fun _ _ hw => hw) ?_ ?_
  swap
  · rintro err d₁ lb₁ ⟨rfl, -⟩
    exact LbError.noConfusion
  rintro _ d₁ lb₁ ⟨members, hg⟩
  obtain ⟨t, n, hstate⟩ := hg.state
  have hv₁ : lb₁.vips[spec]? = some { spec, id, flags, members } := by simp [hstate]
  have htail : Defined (rebuildLocked env spec >>= fun _ => writeVipEntry env spec >>=
      fun _ => vipAt spec) d₁ lb₁ := by
    refine (rebuildLocked_defined hg.consistent hv₁).bind
      (rebuildLocked_keeps hg.consistent hv₁) ?_
    rintro _ d₂ lb₂ ⟨-, v₂, hv₂⟩
    refine .bind_wp (writeVipEntry_declared hv₂) (fun _ _ _ he => he) ?_
    rintro _ d₃ _ rfl
    exact vipAt_defined hv₂
  simpa only [Defined, wp_bind] using htail

theorem deleteVipLocked_defined (henv : ArrayOk env) (h : Consistent [] lb d)
    (hv : lb.vips[spec]? = some v) : Defined (deleteVipLocked env spec) d lb := by
  simp only [Defined, deleteVipLocked, wp_bind, wp_get, hv, wp_emit, write_vipDelete, removeRing,
    true_and]
  split
  · exact (wp_throw _).mpr LbError.noConfusion
  · simp only [wp_emit, write_ringRemove, wp_modify, true_and]
    have ht : lb.reals.Sound (withoutVip d spec v) := h.table.congr rfl rfl
    refine wp_mono (releaseAll_spec (G := fun _ _ => True) henv ht
      v.members.keys v.members.nodup_keys ?_ (fun _ _ _ _ _ _ _ _ => trivial)
      fun _ _ _ _ _ _ _ => trivial) (fun _ _ hw => hw) (fun _ _ _ _ => trivial)
      fun _ _ _ => False.elim
    exact fun a ha => h.member_entry hv (ExtTreeMap.mem_keys.mp ha)

theorem setFlags_declared (hv : lb.vips[spec]? = some v) (flags : UInt32) :
    Defined (setFlags env spec flags) d lb := by
  simp only [Defined, setFlags, vipAt, putVip, wp_bind, wp_get, hv, wp_pure, wp_ite, wp_modify]
  refine ⟨fun _ => ?_, fun _ => trivial⟩
  have hput : { lb with vips := lb.vips.insert spec { v with flags } }.vips[spec]? =
      some { v with flags } := by simp
  exact Defined.of_wp (writeVipEntry_declared hput) fun _ _ _ he => he

theorem reconcileVip_defined (henv : ArrayOk env) (h : Consistent [] lb d)
    (hv : lb.vips[spec]? = some v) (hashChanged : Bool) (flags : UInt32)
    {want : ExtTreeMap UInt32 Nat} (hne : ∀ a ∈ want, a ≠ (0 : UInt32)) :
    Defined (reconcileVip env hashChanged spec flags want) d lb := by
  have hremoved : removedMembers { v with flags } want = lb.leaving spec want := by
    rw [leaving, membersAt_eq hv]
    rfl
  refine (setFlags_declared hv flags).bind (setFlags_spec h hv flags :
    wp _ (VipWrite env lb d spec flags want) _ _ d lb) ?_
  rintro _ _ _ ⟨rfl, rfl⟩
  simp only [Defined, vipAt, wp_bind, wp_get, OrdMap.getElem?_insert, if_true, wp_pure, hremoved]
  refine wp_imp (removeMembers_spec (v := { v with flags }) (by simp) (lb.leaving spec want)) ?_
  rintro _ _ _ ⟨rfl, rfl⟩
  simp only [OrdMap.insert_insert]
  have hc₀ : Consistent (lb.leaving spec want) _ _ := h.staying hv flags
  refine wp_mono (reconcileMembers_spec (G := fun _ _ => True) henv hc₀
    (v := lb.staying spec flags want v) (by simp) want.toList ?_ ?_ (fun _ _ _ _ => trivial)
    (hashChanged || !(lb.leaving spec want).isEmpty)) (fun _ _ hw => hw) ?_ ?_
  · rw [ExtTreeMap.map_fst_toList_eq_keys]
    exact want.nodup_keys
  · exact fun p hp => hne p.1 (OrdMap.mem_iff.mpr ⟨p.2, mem_toList.mp hp⟩)
  swap
  · rintro err d₁ lb₁ ⟨rfl, -⟩
    exact LbError.noConfusion
  rintro changed d₁ lb₁ ⟨-, members, hg⟩
  obtain ⟨t, n, hstate⟩ := hg.state
  have hv₁ : lb₁.vips[spec]? = some { lb.staying spec flags want v with members } := by
    simp [hstate]
  -- the references of those who leave are still there, so releasing them finds every entry
  have hrelease : ∀ d₂ lb₂, Consistent (lb.leaving spec want) lb₂ d₂ →
      Defined (Prog.each (lb.leaving spec want) fun a => onReals (RealTable.release env a))
        d₂ lb₂ := by
    intro d₂ lb₂ hc₂
    refine .of_wp (releaseAll_spec (G := fun _ _ => True) henv hc₂.table (lb.leaving spec want)
      nodup_leaving ?_ (fun _ _ _ _ _ _ _ _ => trivial) fun _ _ _ _ _ _ _ => trivial)
      fun _ _ _ => False.elim
    intro a ha
    apply hc₂.exists_entry
    rw [owed, List.count_eq_one_of_mem nodup_leaving ha]
    omega
  rw [wp_when]
  refine ⟨fun _ => ?_, fun _ => hrelease d₁ lb₁ hg.consistent⟩
  refine wp_mono (wp_and (rebuildLocked_defined hg.consistent hv₁)
    (rebuildLocked_keeps hg.consistent hv₁)) (fun _ _ _ => trivial) ?_ fun _ _ _ he => he.1
  rintro _ d₂ lb₂ ⟨-, hc₂, -⟩
  exact hrelease d₂ lb₂ hc₂

theorem applyVip_defined (henv : ArrayOk env) (h : Consistent [] lb d) (hashChanged : Bool)
    {vc : VipConfig} (hok : vc.Ok) : Defined (applyVip env hashChanged vc) d lb := by
  simp only [Defined, applyVip, wp_bind, wp_get]
  cases hv : lb.vips[vc.spec]? with
  | none =>
      simp only [wp_bind, wp_pure]
      exact createVipLocked_defined henv h (OrdMap.notMem_iff.mpr hv) _ (wantOf_ne_zero hok)
  | some v => exact reconcileVip_defined henv h hv hashChanged _ (wantOf_ne_zero hok)

/-! ## apply -/

variable {cfg : Config}

theorem writeConfigMap_defined : Defined (writeConfigMap env cfg) d lb := by
  simp only [Defined, writeConfigMap, wp_bind, wp_get]
  split
  · exact (wp_throw _).mpr LbError.noConfusion
  · split
    · exact (wp_throw _).mpr LbError.noConfusion
    · exact (wp_emit _).mpr ⟨trivial, trivial⟩

theorem dropUnwanted_defined (henv : ArrayOk env) (h : Consistent [] lb d)
    (specs : List VipSpec) : Defined (Prog.each specs (dropUnwanted env cfg)) d lb := by
  refine .each (I := fun _ d' lb' => Consistent [] lb' d') specs h ?_
  rintro done spec rest - d₁ lb₁ hc
  rw [dropUnwanted]
  split_ifs with hspec
  · exact ⟨(wp_pure _).mpr trivial, (wp_pure _).mpr hc⟩
  · cases hv : lb₁.vips[spec]? with
    | none => exact ⟨by simp [Defined, deleteVipLocked, hv], by simp [deleteVipLocked, hv, hc]⟩
    | some v =>
        exact ⟨deleteVipLocked_defined henv hc hv,
          (deleteVip_spec henv hc hv).returns fun _ _ _ hdel => hdel.consistent⟩

theorem applyVips_defined (henv : ArrayOk env) (h : Consistent [] lb d) (hashChanged : Bool)
    {vips : List VipConfig} (hok : ∀ vc ∈ vips, vc.Ok) :
    Defined (Prog.each vips (applyVip env hashChanged)) d lb := by
  refine .each (I := fun _ d' lb' => Consistent [] lb' d') vips h ?_
  intro done vc rest hvips d₁ lb₁ hc
  have hvc := hok vc (by simp [hvips])
  refine ⟨applyVip_defined henv hc hashChanged hvc,
    (applyVip_spec henv hc hashChanged vc (wantOf_ne_zero hvc)).returns ?_⟩
  rintro _ d₂ lb₂ ⟨v', hstep⟩
  exact hstep.consistent

theorem dropAdopted_defined (p : VipSpec × Nat) : Defined (dropAdopted env p) d lb := by
  simp only [Defined, dropAdopted, removeRing, wp_bind, wp_get, wp_ite, wp_pure, wp_emit,
    implies_true, true_and]
  intro _
  split
  · exact (wp_throw _).mpr LbError.noConfusion
  · exact (wp_emit _).mpr ⟨trivial, trivial⟩

theorem finishFirst_defined (henv : ArrayOk env) (h : Consistent [] lb d) :
    Defined (finishFirst env) d lb := by
  have hloop : Defined (Prog.each lb.adoptedVipIds.toList (dropAdopted env)) d lb :=
    .each (I := fun _ _ _ => True) _ trivial fun _ p _ _ _ _ _ =>
      ⟨dropAdopted_defined p, wp_true _⟩
  simp only [Defined, finishFirst, wp_bind, wp_get]
  refine wp_mono (wp_and hloop (dropAdopted_spec h)) (fun _ _ _ => trivial) ?_
    fun _ _ _ he => he.1
  rintro _ d₁ lb₁ ⟨-, rfl, hun⟩
  simp only [wp_modify, onReals, wp_zoom]
  exact wp_mono (RealTable.dropUnreferenced_spec (G := fun _ _ => True) henv
    (h.table.congr hun.reals hun.neigh) (fun _ _ _ _ _ _ _ => trivial)
    fun _ _ _ _ _ _ => trivial) (fun _ _ hw => hw) (fun _ _ _ _ => trivial)
    fun _ _ _ => False.elim

theorem applyOpening_defined (henv : ArrayOk env) (h : Startable lb d) :
    Defined (applyOpening env cfg (!lb.initialized)) d lb := by
  simp only [Defined, applyOpening, wp_bind]
  refine wp_imp (adoptFirst_spec (E := Declared) h) ?_
  rintro _ _ lb₁ ⟨rfl, hentered⟩
  refine wp_mono (wp_and writeConfigMap_defined (writeConfigMap_spec (G := fun _ _ => True)
    fun _ => trivial)) (fun _ _ _ => trivial) ?_ fun _ _ _ he => he.1
  rintro _ _ _ ⟨-, rfl, mac, -, rfl⟩
  simp only [wp_get, wp_modify, wp_pure]
  exact dropUnwanted_defined henv (hentered.consistent.configured cfg mac) _

theorem apply_defined (henv : ArrayOk env) (hok : cfg.Ok) (h : Startable lb d) :
    Defined (apply env cfg) d lb := by
  simp only [Defined, apply, wp_bind, wp_get]
  refine wp_mono (wp_and (applyOpening_defined henv h) (applyOpening_opened henv h))
    (fun _ _ _ => trivial) ?_ fun _ _ _ he => he.1
  rintro hashChanged d₁ lb₁ ⟨-, rfl, hopen⟩
  have hc₁ : Consistent [] lb₁ d₁ := (show Along env cfg lb d [] (d₁, lb₁) from
    ⟨_, hopen, rfl⟩).facts.1
  refine wp_mono (wp_and (applyVips_defined henv hc₁ (lb.hashChanges cfg) hok.vip_ok)
    (applyVips_spec henv hopen hok.vip_ok)) (fun _ _ _ => trivial) ?_ fun _ _ _ he => he.1
  rintro _ d₂ lb₂ ⟨-, halong⟩
  rw [wp_when]
  exact ⟨fun _ => finishFirst_defined henv halong.facts.1, fun _ => trivial⟩

/-! ## API mutations, health and neighbours -/

section Api

variable {a : UInt32} {w : Nat}

theorem addVip_defined (henv : ArrayOk env) (h : Consistent [] lb d) (noConntrack : Bool) :
    Defined (addVip env spec noConntrack) d lb := by
  simp only [Defined, addVip, wp_bind, wp_get, wp_ite, wp_throw, wp_pure]
  exact ⟨fun _ => LbError.noConfusion, fun hnew =>
    createVipLocked_defined henv h hnew _ (by simp)⟩

theorem delVip_defined (henv : ArrayOk env) (h : Consistent [] lb d) :
    Defined (delVip env spec) d lb := by
  rw [Defined, delVip, wp_bind]
  exact wp_vipOrThrow (fun _ => LbError.noConfusion) fun v hv =>
    deleteVipLocked_defined henv h hv

theorem addReal_defined (henv : ArrayOk env) (h : Consistent [] lb d) :
    Defined (addReal env spec a w) d lb := by
  rw [Defined, addReal, wp_bind]
  refine wp_vipOrThrow (fun _ => LbError.noConfusion) fun v hv => ?_
  simp only [wp_ite, wp_throw, wp_bind]
  refine ⟨fun _ => LbError.noConfusion, fun ha => ⟨fun _ => LbError.noConfusion, fun hnew =>
    ⟨fun _ => LbError.noConfusion, fun _ => ?_⟩⟩⟩
  refine wp_mono (addMember_spec (G := fun _ _ => True) henv h hv ha hnew w
    fun _ _ _ _ => trivial) (fun _ _ hw => hw) ?_ ?_
  swap
  · rintro err d₁ lb₁ ⟨rfl, -⟩
    exact LbError.noConfusion
  rintro _ d₁ lb₁ ⟨hc₁, -, t, e, hentry, -, -, rfl⟩
  have hv₁ := OrdMap.getElem?_insert lb.vips spec spec { v with
    members := v.members.insert a (newMember env w lb.nextIncarnation) }
  rw [if_pos rfl] at hv₁
  refine wp_mono (wp_and (rebuildLocked_defined hc₁ hv₁) (rebuild_spec (G := fun _ _ => True)
    hc₁ hv₁ fun _ _ => trivial)) (fun _ _ _ => trivial) ?_ fun _ _ _ he => he.1
  rintro _ d₂ lb₂ ⟨-, -, -, slots, -, -, rfl⟩
  -- the new member has its id
  simp [derefId, RealTable.idOf_eq, hentry]

theorem rebuildMember_defined (h : Consistent [] lb d) (hv : lb.vips[spec]? = some v)
    {m : Member} (hm : v.members[a]? = some m) (m' : Member) :
    Defined (rebuildLocked env spec) d
      { lb with vips := lb.vips.insert spec { v with members := v.members.insert a m' } } := by
  have hedit : Edited (fun s => s = spec) lb d d { lb with
      vips := lb.vips.insert spec { v with members := v.members.insert a m' } } :=
    .member h hv hm m' (.inl rfl)
  exact rebuildLocked_defined hedit.consistent (by rw [OrdMap.getElem?_insert, if_pos rfl])

theorem editMember_defined (skip : Member → Prop) [DecidablePred skip] (edit : Member → Member)
    (h : Consistent [] lb d) : Defined (do
        let v ← vipOrThrow spec
        let m ← memberOrThrow v a
        if skip m then pure ()
        else
          putVip spec { v with members := v.members.insert a (edit m) }
          rebuildLocked env spec) d lb := by
  refine wp_editMember skip edit (fun _ => LbError.noConfusion)
    (fun _ _ _ => LbError.noConfusion) (fun _ _ _ _ _ => trivial) ?_
  exact fun v m hv hm _ => rebuildMember_defined h hv hm (edit m)

theorem setWeight_defined (h : Consistent [] lb d) : Defined (setWeight env spec a w) d lb := by
  rw [Defined, setWeight, wp_ite]
  exact ⟨fun _ => (wp_throw _).mpr LbError.noConfusion, fun _ =>
    editMember_defined (fun m => m.weight = w) (fun m => { m with weight := w }) h⟩

theorem setDraining_defined (h : Consistent [] lb d) (draining : Bool) :
    Defined (setDraining env spec a draining) d lb :=
  editMember_defined (fun m => m.draining = draining) (fun m => { m with draining }) h

theorem delReal_defined (henv : ArrayOk env) (h : Consistent [] lb d) :
    Defined (delReal env spec a) d lb := by
  rw [Defined, delReal, wp_bind]
  refine wp_vipOrThrow (fun _ => LbError.noConfusion) fun v hv => ?_
  rw [wp_bind]
  refine wp_memberOrThrow (fun _ => LbError.noConfusion) fun m hm => ?_
  have ha : a ∈ v.members := OrdMap.mem_iff.mpr ⟨m, hm⟩
  have hc₁ := h.eraseMember hv a
  simp only [removeMemberLocked, vipAt, putVip, wp_bind, wp_get, hv, wp_pure, wp_modify]
  refine wp_mono (wp_and (rebuildLocked_defined hc₁ (by simp; rfl))
    (rebuildLocked_keeps hc₁ (by simp; rfl))) (fun _ _ _ => trivial) ?_ fun _ _ _ he => he.1
  rintro _ d₂ lb₂ ⟨-, hc₂, -⟩
  rw [leaving_erase hv ha] at hc₂
  obtain ⟨e, he⟩ := hc₂.exists_entry (a := a) (by simp [owed])
  rw [onReals, wp_zoom]
  exact wp_mono (RealTable.release_spec (G := fun _ _ => True) henv hc₂.table he fun _ =>
    ⟨trivial, fun _ _ => trivial⟩) (fun _ _ hw => hw) (fun _ _ _ _ => trivial)
    fun _ _ _ => False.elim

theorem reportHealth_defined (h : Consistent [] lb d) (t : HealthTarget) (r : ProbeResult)
    (rise fall : UInt32) : Defined (reportHealth env t r rise fall) d lb := by
  simp only [Defined, reportHealth, wp_bind, wp_get]
  cases hv : lb.vips[t.vip]? with
  | none => exact (wp_pure _).mpr trivial
  | some v =>
      cases hm : v.members[t.addr]? with
      | none => simp only [hm, wp_pure]
      | some m =>
          simp only [hm, wp_ite, wp_pure, wp_bind, putVip, wp_modify, implies_true, and_true,
            true_and]
          exact fun _ _ _ => rebuildMember_defined h hv hm _

theorem neighborResolved_defined (henv : ArrayOk env) (h : Consistent [] lb d) (ip : UInt32)
    (mac : NeighMac) : Defined (neighborResolved env ip mac) d lb := by
  simp only [Defined, neighborResolved, wp_bind, wp_get]
  refine wp_mono (wp_fold (G := Harmless) (E := fun _ _ _ => False) (I := fun done newly d₁ lb₁ =>
    Resolved lb d mac.mac done newly d₁ lb₁) (lb.resolvedAddrs ip) ?_ ?_)
    (fun _ _ _ => trivial) ?_ (fun _ _ _ => False.elim)
  · exact ⟨.refl d, ⟨lb.reals, rfl⟩, h.table, by simp, by simp⟩
  · rintro done a rest - newly d₁ lb₁ hr
    exact setOne_spec henv mac.ne_zero hr a
  rintro newly d₁ lb₁ hr
  have hedit := hr.edited h
  have hvips : lb₁.vips = lb.vips := by
    obtain ⟨t, rfl⟩ := hr.state
    rfl
  rw [wp_ite]
  refine ⟨fun _ => (wp_pure _).mpr trivial, fun _ => ?_⟩
  refine Defined.each (I := fun done d' lb' =>
    Rebuilt (fun s => s ∈ done ∧ Hit lb newly s) lb₁ d₁ d' lb') lb.vips.keys
    ((Rebuilt.refl hedit.consistent).congr fun s _ => by simp) ?_
  rintro done spec rest hkeys d₂ lb₂ hreb
  have hmem : spec ∈ lb.vips := by
    rw [← ExtTreeMap.mem_keys, hkeys]
    simp
  refine ⟨?_, (hreb.visit hvips hmem).returns fun _ _ _ h => h⟩
  have hcore := hreb.core spec
  obtain ⟨v, hv⟩ := OrdMap.mem_iff.mp hmem
  rw [hvips, hv, Option.map_some] at hcore
  obtain ⟨v₂, hv₂, -⟩ := Option.map_eq_some_iff.mp hcore
  simp only [Defined, vipAt, wp_bind, wp_get, hv₂, wp_pure, wp_ite, implies_true, and_true]
  exact fun _ => rebuildLocked_defined hreb.consistent hv₂

end Api

end LbState

open LbState

/-- Every operation, from a state in which it may be called. -/
theorem Op.run_defined {env : Env} {op : Op} {lb : LbState} {d : CtlMaps} (henv : ArrayOk env)
    (hs : Startable lb d) (hc : op.isApply = false → Consistent [] lb d) :
    Defined (op.run env) d lb := by
  cases op with
  | apply cfg => exact apply_defined henv cfg.ok hs
  | addVip vip noConntrack =>
      simp only [Defined, run, wp_bind, wp_pure]
      exact addVip_defined henv (hc rfl) noConntrack
  | delVip vip => exact delVip_defined henv (hc rfl)
  | addReal vip addr weight =>
      simp only [Defined, run, wp_bind, wp_pure]
      exact addReal_defined henv (hc rfl)
  | delReal vip addr => exact delReal_defined henv (hc rfl)
  | setWeight vip addr weight => exact setWeight_defined (hc rfl)
  | setDraining vip addr draining => exact setDraining_defined (hc rfl) draining
  | reportHealth target result rise fall =>
      exact reportHealth_defined (hc rfl) target result rise fall
  | neighborResolved ip mac => exact neighborResolved_defined henv (hc rfl) ip mac

end PacketBalance
