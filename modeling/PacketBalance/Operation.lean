import PacketBalance.LbState.Closed
import PacketBalance.LbState.Refresh
/-!
# The operations of `LbState`

The public mutations as one type.  Each is one of four kinds of change: `apply`
follows its path, `del_vip` deletes, the operations on weights reshape one VIP, and
those on drain state, health and neighbours refresh the rings of some.  Whatever is
true of the four kinds is true of every operation.
-/

namespace PacketBalance

open WriteLog Std LbState

/-- A call of a public mutation.  `Daemon::load_config` validates what it passes to
`apply`, and the resolver passes no all-zero MAC on. -/
inductive Op where
  | apply (cfg : ValidConfig)
  | addVip (vip : VipSpec) (noConntrack : Bool)
  | delVip (vip : VipSpec)
  | addReal (vip : VipSpec) (addr : UInt32) (weight : Nat)
  | delReal (vip : VipSpec) (addr : UInt32)
  | setWeight (vip : VipSpec) (addr : UInt32) (weight : Nat)
  | setDraining (vip : VipSpec) (addr : UInt32) (draining : Bool)
  | reportHealth (target : HealthTarget) (result : ProbeResult) (rise fall : UInt32)
  | neighborResolved (ip : UInt32) (mac : NeighMac)

namespace Op

/-- The call itself; what `add_vip` and `add_real` return is shown to the user only. -/
def run (env : Env) : Op → LbM Unit
  | .apply cfg => LbState.apply env cfg.toConfig
  | .addVip vip noConntrack => do
      let _ ← LbState.addVip env vip noConntrack
      pure ()
  | .delVip vip => LbState.delVip env vip
  | .addReal vip addr weight => do
      let _ ← LbState.addReal env vip addr weight
      pure ()
  | .delReal vip addr => LbState.delReal env vip addr
  | .setWeight vip addr weight => LbState.setWeight env vip addr weight
  | .setDraining vip addr draining => LbState.setDraining env vip addr draining
  | .reportHealth target result rise fall =>
      LbState.reportHealth env target result rise fall
  | .neighborResolved ip mac => LbState.neighborResolved env ip mac

def isApply : Op → Bool
  | .apply _ => true
  | _ => false

def isReport : Op → Bool
  | .reportHealth .. => true
  | _ => false

/-- The memberships an operation may add; it removes none of them. -/
def Adds : Op → VipSpec → UInt32 → Prop
  | .apply cfg => Lists cfg.toConfig
  | .addReal vip addr _ => fun s a => s = vip ∧ a = addr
  | _ => fun _ _ => False

end Op

variable {env : Env} {op : Op} {lb lb' : LbState} {d d' d₁ : CtlMaps}

/-- What an operation that returns normally has done. -/
inductive Effect (env : Env) (op : Op) (lb : LbState) (d d' : CtlMaps) (lb' : LbState) : Prop
  | apply (cfg : ValidConfig) (hop : op = .apply cfg)
      (h : Applied env cfg.toConfig lb d d' lb')
  | delete (spec : VipSpec) (v : Vip) (hop : op.isApply = false)
      (hv : lb.vips[spec]? = some v) (h : Deleted lb d spec v lb' d')
  | reshape (spec : VipSpec) (flags : UInt32) (want : ExtTreeMap UInt32 Nat) (v' : Vip)
      (hop : op.isApply = false)
      (hnew : ∀ a ∈ want, a ∉ lb.membersAt spec → ∃ w, op = .addReal spec a w)
      (htouched : lb.touched false spec want)
      (h : VipStep env false lb d spec flags want v' d' lb')
  | refresh (R : VipSpec → Prop) (hop : op.isApply = false) (h : Refreshed R lb d d' lb')

inductive OpWrite (env : Env) (op : Op) (lb : LbState) (d : CtlMaps) (d₁ : CtlMaps)
    (w : MapWrite) : Prop
  | apply (cfg : ValidConfig) (hop : op = .apply cfg)
      (hw : ApplyWrite env cfg.toConfig lb d d₁ w)
  | delete (spec : VipSpec) (v : Vip) (hop : op.isApply = false)
      (hv : lb.vips[spec]? = some v) (hw : DeleteWrite lb d spec v d₁ w)
  | reshape (spec : VipSpec) (flags : UInt32) (want : ExtTreeMap UInt32 Nat)
      (hop : op.isApply = false) (hw : VipWrite env lb d spec flags want d₁ w)
  | harmless (hw : Harmless d₁ w)

/-- What an operation that throws leaves of a daemon that was serving. -/
def OpFailed (lb : LbState) (d : CtlMaps) (_err : LbError) (d' : CtlMaps) (lb' : LbState) : Prop :=
  lb.initialized → Failed lb d d' lb'

theorem LbState.ApplyFailed.failed {cfg : Config} {err : LbError}
    (h : ApplyFailed env cfg lb d err d' lb') : OpFailed lb d err d' lb' := h.kept

theorem mem_members_of_want {spec : VipSpec} {v : Vip} (hv : lb.vips[spec]? = some v)
    {a : UInt32} (ha : a ∈ weightsOf v) : a ∈ lb.membersAt spec := by
  rw [membersAt_eq hv]
  exact mem_weightsOf.mp ha

/-- Every operation, from a state in which it may be called. -/
theorem Op.run_spec (henv : ArrayOk env) (hs : Startable lb d)
    (hc : op.isApply = false → Consistent [] lb d) :
    wp (op.run env) (OpWrite env op lb d) (fun _ d' lb' => Effect env op lb d d' lb')
      (OpFailed lb d) d lb := by
  cases op with
  | apply cfg =>
      exact wp_mono (apply_spec henv cfg.ok hs) (fun _ w hw => .apply cfg rfl hw)
        (fun _ _ _ h => .apply cfg rfl h) (fun _ _ _ h => h.failed)
  | addVip vip noConntrack =>
      rw [run, wp_bind]
      refine wp_mono (addVip_spec henv (hc rfl) noConntrack)
        (fun _ w hw => .reshape _ _ _ rfl hw) ?_ (fun _ _ _ h _ => h)
      rintro id d' lb' ⟨hnew, v, -, hstep⟩
      exact (wp_pure _).mpr (.reshape vip _ ∅ v rfl (by simp)
        (by simp [touched, OrdMap.notMem_iff.mp hnew]) hstep)
  | delVip vip =>
      refine wp_mono (delVip_spec henv (hc rfl)) ?_ ?_ (fun _ _ _ h _ => h)
      · rintro _ w ⟨v, hv, hw⟩
        exact .delete vip v rfl hv hw
      · rintro _ d' lb' ⟨v, hv, hdel⟩
        exact .delete vip v rfl hv hdel
  | addReal vip addr weight =>
      rw [run, wp_bind]
      refine wp_mono (addReal_spec henv (hc rfl)) ?_ ?_ (fun _ _ _ h _ => h)
      · rintro _ w ⟨v, -, hw⟩
        exact .reshape _ _ _ rfl hw
      · rintro id d' lb' ⟨v, v', hv, hnew, hstep⟩
        refine (wp_pure _).mpr (.reshape vip _ _ v' rfl (fun a ha hnot => ?_)
          (touched_insert hv (by simp [differs, OrdMap.notMem_iff.mp hnew])) hstep)
        rcases ExtTreeMap.mem_insert.mp ha with heq | hold
        · exact ⟨weight, by rw [LawfulEqCmp.eq_of_compare heq]⟩
        · exact absurd (mem_members_of_want hv hold) hnot
  | delReal vip addr =>
      refine wp_mono (delReal_spec henv (hc rfl)) ?_ ?_ (fun _ _ _ h _ => h)
      · rintro _ w ⟨v, -, hw⟩
        exact .reshape _ _ _ rfl hw
      · rintro _ d' lb' ⟨v, v', hv, ha, hstep⟩
        refine .reshape vip _ _ v' rfl (fun b hb hnot => ?_)
          (by simp [touched, hv, leaving_erase hv ha]) hstep
        exact absurd (mem_members_of_want hv (ExtTreeMap.mem_of_mem_erase hb)) hnot
  | setWeight vip addr weight =>
      refine wp_mono (setWeight_spec (hc rfl)) ?_ ?_ (fun _ _ _ h _ => h)
      · rintro _ w ⟨v, -, hw⟩
        exact .reshape _ _ _ rfl hw
      · rintro _ d' lb' (⟨rfl, rfl⟩ | ⟨v, v', hv, hin, htouched, hstep⟩)
        · exact .refresh _ rfl (.refl (hc rfl))
        · refine .reshape vip _ _ v' rfl (fun a ha hnot => ?_) htouched hstep
          rcases ExtTreeMap.mem_insert.mp ha with heq | hold
          · rw [← LawfulEqCmp.eq_of_compare heq, membersAt_eq hv] at hnot
            exact absurd hin hnot
          · exact absurd (mem_members_of_want hv hold) hnot
  | setDraining vip addr draining =>
      refine wp_mono (setDraining_spec (hc rfl)) (fun _ w hw => .harmless hw) ?_
        (fun _ _ _ h _ => h)
      rintro _ d' lb' ⟨R, h⟩
      exact .refresh R rfl h
  | reportHealth target result rise fall =>
      refine wp_mono (reportHealth_spec (hc rfl)) (fun _ w hw => .harmless hw) ?_
        (fun _ _ _ h _ => h)
      rintro _ d' lb' ⟨R, h⟩
      exact .refresh R rfl h
  | neighborResolved ip mac =>
      refine wp_mono (neighborResolved_spec henv (hc rfl) ip mac)
        (fun _ w hw => .harmless hw) ?_ (fun _ _ _ h _ => h)
      rintro _ d' lb' ⟨R, h⟩
      exact .refresh R rfl h

/-! ## While nothing fails -/

/-- An operation that returns normally leaves model and maps in step. -/
theorem Effect.settled (h : Effect env op lb d d' lb') (hu : Usable lb d)
    (hs : op.isApply = false → Settled lb d) : Settled lb' d' := by
  cases h with
  | apply cfg hop h => exact h.settled hu
  | delete spec v hop hv h => exact h.settled (hs hop) hv
  | reshape spec flags want v' hop _ _ h => exact h.settled (hs hop)
  | refresh R hop h => exact h.settled (hs hop)

theorem Effect.initialized (h : Effect env op lb d d' lb') :
    lb'.initialized = (op.isApply || lb.initialized) := by
  cases h with
  | apply cfg hop h => rw [hop, h.initialized, Op.isApply, Bool.true_or]
  | delete spec v hop hv h =>
      obtain ⟨t, rfl⟩ := h.state
      rw [hop, Bool.false_or]
  | reshape spec flags want v' hop _ _ h => rw [h.initialized, hop, Bool.false_or]
  | refresh R hop h =>
      obtain ⟨d₁, lb₁, hedit, hreb⟩ := h
      obtain ⟨vips, rfl⟩ := hreb.state
      obtain ⟨t, vips', rfl⟩ := hedit.state
      rw [hop, Bool.false_or]

theorem Effect.adopted (h : Effect env op lb d d' lb') (ha : lb.adoptedVipIds = ∅) :
    lb'.adoptedVipIds = ∅ := by
  cases h with
  | apply cfg hop h =>
      obtain ⟨z, halong, hend⟩ := h
      split_ifs at hend with hinit
      · obtain rfl : z = (d', lb') := hend
        exact halong.adopted_empty hinit ha
      · obtain ⟨t, rfl⟩ := hend.state
        rfl
  | delete spec v hop hv h =>
      obtain ⟨t, rfl⟩ := h.state
      exact ha
  | reshape spec flags want v' hop _ _ h =>
      apply ExtTreeMap.ext_getElem?
      intro s
      rw [h.adopted, ha]
      simp
  | refresh R hop h =>
      obtain ⟨d₁, lb₁, hedit, hreb⟩ := h
      obtain ⟨vips, rfl⟩ := hreb.state
      obtain ⟨t, vips', rfl⟩ := hedit.state
      exact ha

/-- Every write of an operation keeps what the maps promise the data plane. -/
theorem OpWrite.pinned {w : MapWrite} (hw : OpWrite env op lb d d₁ w) (hu : Usable lb d)
    (hs : op.isApply = false → Settled lb d) {ids : Set Nat} (h : PinnedOn ids d₁) :
    PinnedOn (w.relied ids) (Durable.write d₁ w) := by
  cases hw with
  | apply cfg hop hw => exact hw.pinned cfg.ok hu h
  | delete spec v hop hv hw =>
      exact hw.pinned (hs hop).consistent (hs hop).refs_cover (hs hop).owns hv h
  | reshape spec flags want hop hw =>
      exact hw.pinned (hs hop).consistent (hs hop).refs_cover (fun _ => (hs hop).owns)
        ((hs hop).own_ring h) h
  | harmless hw => exact hw.pinned h

/-! ## After exceptions -/

theorem Effect.backed (h : Effect env op lb d d' lb') (hinit : lb.initialized)
    (hc : Consistent [] lb d) (hb : Backed lb d) : Backed lb' d' := by
  cases h with
  | apply cfg hop h =>
      obtain ⟨z, halong, hend⟩ := h
      rw [if_pos hinit] at hend
      subst hend
      exact halong.backed hinit hb
  | delete spec v hop hv h => exact h.backed hc hv hb
  | reshape spec flags want v' hop _ _ h => exact h.backed hc hb
  | refresh R hop h => exact h.backed hc hb

/-- Every write of an operation keeps what the rings there are promise the data plane. -/
theorem OpWrite.pinned_running {w : MapWrite} (hw : OpWrite env op lb d d₁ w)
    (hinit : lb.initialized) (hadopted : lb.adoptedVipIds = ∅) (hc : Consistent [] lb d)
    (hb : Backed lb d) (h : PinnedOn d₁.ringIds d₁) :
    PinnedOn (w.relied d₁.ringIds) (Durable.write d₁ w) := by
  cases hw with
  | apply cfg hop hw => exact hw.pinned_running hinit hadopted hb h
  | delete spec v hop hv hw => exact hw.pinned hc hb.covered (hc.owns hadopted) hv h
  | reshape spec flags want hop hw =>
      refine hw.pinned hc hb.covered (fun _ => hc.owns hadopted) (fun v hv hd hid => ?_) h
      obtain ⟨r, hr⟩ := Option.isSome_iff_exists.mp (hd ▸ hid)
      exact ⟨r, hr, hb.ring spec v r hv hr⟩
  | harmless hw => exact hw.pinned h

/-! ## Whether it returns or throws -/

/-- What the small steps keep is kept by every operation, given the three that do more
than that. -/
theorem LbState.Closed.preserves_run {I : CtlMaps → LbState → Prop} (hI : Closed env op.Adds I)
    (happly : ∀ cfg, op = .apply cfg → Preserves I (LbState.apply env cfg.toConfig))
    (hreport : ∀ t r rise fall, op = .reportHealth t r rise fall →
      Preserves I (LbState.reportHealth env t r rise fall))
    (hresolved : ∀ ip mac, op = .neighborResolved ip mac →
      Preserves I (LbState.neighborResolved env ip mac)) : Preserves I (op.run env) := by
  cases op with
  | apply cfg => exact happly cfg rfl
  | addVip vip noConntrack => exact (hI.preserves_addVip noConntrack).bind fun _ => .of_pure _
  | delVip vip => exact hI.preserves_delVip fun _ => id
  | addReal vip addr weight =>
      exact (hI.preserves_addReal ⟨rfl, rfl⟩ weight).bind fun _ => .of_pure _
  | delReal vip addr => exact hI.preserves_delReal id
  | setWeight vip addr weight => exact hI.preserves_setWeight addr weight
  | setDraining vip addr draining => exact hI.preserves_setDraining addr draining
  | reportHealth t r rise fall => exact hreport t r rise fall rfl
  | neighborResolved ip mac => exact hresolved ip mac rfl

end PacketBalance
