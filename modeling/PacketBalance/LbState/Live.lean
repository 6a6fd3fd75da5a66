import PacketBalance.Operation
/-!
# What every operation leaves, whether it returns or throws

An exception may leave references too many, never too few: a slot is taken with a reference
and freed with the last one.  Only adoption fills slots that nobody refers to yet, and a
daemon whose first `apply` has returned has none of these.
-/

namespace PacketBalance

open WriteLog Std

namespace RealTable

variable {t : RealTable} {env : Env} {a : UInt32}

def Referred (t : RealTable) : Prop := ∀ id, (t.slots id).addr ≠ 0 → 0 < (t.slots id).refs

theorem Referred.setSlot (h : t.Referred) (id : Nat) {s : Slot} (hs : s.addr ≠ 0 → 0 < s.refs) :
    (t.setSlot id s).Referred := by
  intro i hi
  by_cases heq : i = id
  · subst heq
    simp only [RealTable.setSlot, Function.update_self] at hi ⊢
    exact hs hi
  · simp only [RealTable.setSlot, Function.update_of_ne heq] at hi ⊢
    exact h i hi

theorem WF.referred_iff (hwf : t.WF) :
    t.Referred ↔ ∀ a e, t.entry a = some e → 0 < e.refs := by
  constructor
  · intro h a e he
    have hslot := hwf.entry_slot he
    have hpos := h e.id (by rw [hslot]; exact hwf.entry_ne_zero he)
    rwa [hslot] at hpos
  · exact fun h id hne => h _ _ (hwf.exists_entry hne)

theorem preserves_writeSlot (P : RealTable → Prop) (id : Nat) :
    Preserves (fun _ t => P t) (writeSlot env id) := by
  have hneigh : ∀ mac, Preserves (fun _ t => P t) (writeNeigh env id mac) := fun mac => by
    unfold writeNeigh
    split
    · exact .of_throw _
    · exact .of_emit fun _ _ h => h
  have hreal : ∀ addr, Preserves (fun _ t => P t) (writeReal env id addr) := fun addr => by
    unfold writeReal
    split
    · exact .of_throw _
    · exact .of_emit fun _ _ h => h
  exact Preserves.of_get.bind fun _ => .ite (fun _ => (hneigh _).bind fun _ => hreal _)
    fun _ => (hreal _).bind fun _ => hneigh _

theorem preserves_acquire : Preserves (fun _ t => Referred t) (acquire env a) := by
  intro d t h
  simp only [acquire, wp_bind, wp_ite, wp_throw, wp_get]
  refine ⟨fun _ => h, fun _ => ?_⟩
  cases t.byAddr[a]? with
  | some id =>
      simp only [wp_bind, wp_modify, wp_pure]
      exact h.setSlot id fun _ => Nat.succ_pos _
  | none =>
      dsimp only
      split
      · simp only [wp_bind, wp_modify, wp_throw]
        exact h
      · next id _ =>
          simp only [wp_bind, wp_modify, wp_emit, wp_pure, true_and]
          exact preserves_writeSlot Referred id _ _ (h.setSlot id fun _ => Nat.one_pos)

theorem preserves_release : Preserves (fun _ t => Referred t) (release env a) := by
  intro d t h
  simp only [release, wp_bind, wp_get]
  cases t.byAddr[a]? with
  | none => exact (wp_pure _).mpr h
  | some id =>
      simp only [wp_ite, wp_modify, wp_bind]
      refine ⟨fun hrefs => h.setSlot id fun _ => Nat.sub_pos_of_lt hrefs, fun _ => ?_⟩
      exact preserves_writeSlot Referred id _ _ (h.setSlot id fun hne => absurd rfl hne)

theorem preserves_setMac (mac : Mac) : Preserves (fun _ t => Referred t) (setMac env a mac) := by
  intro d t h
  simp only [setMac, wp_bind, wp_get]
  cases t.idOf a with
  | none => exact (wp_pure _).mpr h
  | some id =>
      simp only [wp_ite, wp_pure, wp_bind, wp_modify]
      exact ⟨fun _ => h, fun _ => preserves_writeSlot Referred id _ _ (h.setSlot id (h id))⟩

theorem preserves_dropUnreferenced :
    Preserves (fun _ t => Referred t) (dropUnreferenced env) := by
  refine .each fun id _ d t h => ?_
  simp only [wp_bind, wp_get, wp_ite, wp_pure, wp_modify]
  exact ⟨fun _ => h, fun _ =>
    preserves_writeSlot Referred id _ _ (h.setSlot id fun hne => absurd rfl hne)⟩

end RealTable

open RealTable LbState

namespace LbState

variable {env : Env} {K : VipSpec → UInt32 → Prop}

theorem preserves_onReals {α : Type} {m : TableM α} {P : RealTable → Prop}
    (h : Preserves (fun _ t => P t) m) : Preserves (fun _ lb => P lb.reals) (onReals m) := by
  intro d lb hlb
  rw [onReals, wp_zoom]
  exact h d lb.reals hlb

theorem closed_referred (env : Env) (K : VipSpec → UInt32 → Prop) :
    Closed env K fun _ lb => lb.reals.Referred where
  toEdits := .of_reals Referred
  join _ h _ _ _ := h
  leave h _ _ := h
  remove h _ := h
  acquire _ := preserves_onReals RealTable.preserves_acquire
  release _ := preserves_onReals RealTable.preserves_release
  ask _ := by
    refine Preserves.of_get.bind fun lb => .ite (fun _ => .of_pure _) fun _ => ?_
    split
    · exact .of_pure _
    · exact (preserves_onReals (RealTable.preserves_setMac _)).bind fun _ => .of_pure _

end LbState

/-- An operation of a daemon whose first `apply` has returned, however it ends. -/
theorem Op.run_referred {env : Env} {lb : LbState} (hinit : lb.initialized = true)
    (h : lb.reals.Referred) (op : Op) (d : CtlMaps) :
    wp (op.run env) (fun _ _ => True) (fun _ _ lb => lb.reals.Referred)
      (fun _ _ lb => lb.reals.Referred) d lb := by
  cases hop : op.isApply with
  | false =>
      have hI := closed_referred env op.Adds
      refine hI.preserves_run ?_ ?_ ?_ d lb h
      · rintro cfg rfl
        cases hop
      · rintro t r rise fall rfl
        exact hI.preserves_reportHealth (fun _ _ _ _ h => h) t r rise fall
      · rintro ip mac rfl
        refine hI.preserves_neighborResolved fun d lb h => ?_
        refine (Preserves.fold fun a _ newly => ?_) d lb h
        exact Preserves.of_get.bind fun _ =>
          (preserves_onReals (RealTable.preserves_setMac _)).bind fun _ => .of_pure _
  | true =>
      cases op with
      | apply cfg =>
          have hI := closed_referred env (Lists cfg.toConfig)
          refine hI.wp_apply cfg.ok (preserves_onReals RealTable.preserves_dropUnreferenced)
            (fun _ _ h => h) (fun _ _ h => h) ?_
          have hskip : Preserves (fun _ lb => lb.reals.Referred)
              (Prog.when (!lb.initialized) adoptLocked) := by
            rw [hinit]
            exact .of_pure ()
          exact (hskip.bind fun _ => Closed.preserves_writeConfigMap (fun h _ => h) _) d lb h
      | _ => cases hop

/-- The model of a daemon that goes on after an exception. -/
structure Live (lb : LbState) (d : CtlMaps) : Prop where
  consistent : Consistent [] lb d
  initialized : lb.initialized = true
  adopted : lb.adoptedVipIds = ∅
  referred : lb.reals.Referred

section Operations

variable {env : Env} {op : Op} {lb lb' : LbState} {d d' : CtlMaps}

theorem LbState.Failed.adopted_eq (h : Failed lb d d' lb') (hl : Live lb d) :
    lb'.adoptedVipIds = ∅ := by
  rw [ExtTreeMap.eq_empty_iff_forall_not_mem]
  intro s hmem
  obtain ⟨id, hs⟩ := OrdMap.mem_iff.mp hmem
  have hold := h.adopted s id hs
  simp [hl.adopted] at hold

theorem Effect.consistent (h : Effect env op lb d d' lb') : Consistent [] lb' d' := by
  cases h with
  | apply cfg hop h => exact h.consistent
  | delete spec v hop hv h => exact h.consistent
  | reshape spec flags want v' hop _ _ h => exact h.consistent
  | refresh R hop h =>
      obtain ⟨d₁, lb₁, -, hreb⟩ := h
      exact hreb.consistent

theorem Live.run (hl : Live lb d) (henv : ArrayOk env) (op : Op) :
    Live (op.run env d lb).mem (replay d (op.run env d lb).log) := by
  have hspec : wp (op.run env) _ _ _ d lb :=
    Op.run_spec henv (.running hl.consistent) fun _ => hl.consistent
  have hreferred : wp (op.run env) _ _ _ d lb := Op.run_referred hl.initialized hl.referred op d
  cases hres : (op.run env d lb).res with
  | ok u =>
      have heffect := hspec.of_ok hres
      exact ⟨heffect.consistent, by rw [heffect.initialized, hl.initialized, Bool.or_true],
        heffect.adopted hl.adopted, hreferred.of_ok hres⟩
  | error err =>
      have hfail := hspec.of_error hres hl.initialized
      exact ⟨hfail.consistent, hfail.initialized.trans hl.initialized, hfail.adopted_eq hl,
        hreferred.of_error hres⟩

theorem LbState.Settled.live (h : Settled lb d) (hinit : lb.initialized = true)
    (hadopted : lb.adoptedVipIds = ∅) : Live lb d :=
  ⟨h.consistent, hinit, hadopted, h.consistent.table.wf.referred_iff.mpr h.counted⟩

theorem LbState.Applied.live {cfg : ValidConfig} {interface : String}
    (h : Applied env cfg.toConfig { interface } d d' lb') (hpinned : PinnedOn ∅ d) :
    Live lb' d' :=
  (h.settled (.restarted interface rfl hpinned)).live h.initialized
    (Effect.adopted (.apply cfg rfl h) rfl)

end Operations

end PacketBalance
