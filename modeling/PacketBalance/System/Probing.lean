import PacketBalance.LbState.Membership
import PacketBalance.LbState.Unchanged
import PacketBalance.System.Calls
/-!
# Probe results and memberships

The health checker takes the targets from `LbState`, probes them and reports the
results, while other operations run.  A membership begins with the operation that adds it
and ends with the one that removes it; the same address can be a member of the same VIP
again later.  Here a target remembers the membership it was taken for, and a member's
health is what the results for its own membership make of a fresh one.
-/

namespace PacketBalance

open WriteLog Std LbState

/-! ## Memberships under every operation -/

theorem Op.evolved {op : Op} (hop : op.isReport = false) (env : Env) (d : CtlMaps)
    (lb : LbState) : Evolved op.Adds lb (op.run env d lb).mem := by
  refine (Evolved.closed.preserves_run ?_ ?_ ?_).at_end (.refl lb)
  · rintro cfg rfl
    exact Evolved.preserves_apply cfg.ok
  · rintro t r rise fall rfl
    cases hop
  · rintro ip mac rfl
    exact Evolved.preserves_neighborResolved ip mac

/-! ## One report -/

def Counted (t : HealthTarget) (r : ProbeResult) (s : VipSpec) (a : UInt32) (m : Member) : Prop :=
  s = t.vip ∧ a = t.addr ∧ m.incarnation = t.incarnation ∧ r.localError = false

instance (t : HealthTarget) (r : ProbeResult) (s : VipSpec) (a : UInt32) (m : Member) :
    Decidable (Counted t r s a m) := inferInstanceAs (Decidable (_ ∧ _))

def markAfter (t : HealthTarget) (r : ProbeResult) (rise fall : UInt32) (s : VipSpec)
    (a : UInt32) (m : Member) : Health × Nat :=
  if Counted t r s a m then (m.health.probe r.ok rise fall, m.incarnation) else m.mark

theorem LbState.Evolved.same {lb lb' : LbState} (hall : Evolved (fun _ _ => True) lb lb')
    (hnone : Evolved (fun _ _ => False) lb lb') (s : VipSpec) (a : UInt32) :
    (lb'.memberAt s a).map Member.mark = (lb.memberAt s a).map Member.mark := by
  cases hm' : lb'.memberAt s a with
  | none => rw [hall.kept s a trivial hm']
  | some m' =>
      rcases hnone.member s a m' hm' with ⟨m, hm, hmark⟩ | ⟨-, hfalse, -⟩
      · rw [hm, Option.map_some, Option.map_some, hmark]
      · exact hfalse.elim

structure Reported (t : HealthTarget) (r : ProbeResult) (rise fall : UInt32)
    (lb lb' : LbState) : Prop where
  clock : lb.nextIncarnation ≤ lb'.nextIncarnation
  mark : ∀ s a, (lb'.memberAt s a).map Member.mark =
    (lb.memberAt s a).map (markAfter t r rise fall s a)

section Report

variable {env : Env} {t : HealthTarget} {r : ProbeResult} {rise fall : UInt32}
variable {lb lb' : LbState}

theorem markAfter_other {s : VipSpec} {a : UInt32} (h : ¬(s = t.vip ∧ a = t.addr)) :
    markAfter t r rise fall s a = Member.mark := by
  funext m
  exact if_neg fun hc => h ⟨hc.1, hc.2.1⟩

theorem Reported.unchanged (h : ∀ m, lb.memberAt t.vip t.addr = some m →
    m.incarnation = t.incarnation → r.localError = true) :
    Reported t r rise fall lb lb := by
  refine ⟨le_rfl, fun s a => ?_⟩
  cases hm : lb.memberAt s a with
  | none => rfl
  | some m =>
      have hnot : ¬Counted t r s a m := by
        rintro ⟨rfl, rfl, hinc, hlocal⟩
        simp [h m hm hinc] at hlocal
      rw [Option.map_some, Option.map_some, markAfter, if_neg hnot]

theorem Reported.put {v : Vip} {m m' : Member} (hv : lb.vips[t.vip]? = some v)
    (hm : v.members[t.addr]? = some m) (hinc : m.incarnation = t.incarnation)
    (hlocal : r.localError = false)
    (hmark : m'.mark = (m.health.probe r.ok rise fall, m.incarnation)) :
    Reported t r rise fall lb { lb with
      vips := lb.vips.insert t.vip { v with members := v.members.insert t.addr m' } } := by
  refine ⟨le_rfl, fun s a => ?_⟩
  rw [memberAt_insert]
  by_cases hs : s = t.vip
  · subst hs
    simp only [if_true, OrdMap.getElem?_insert, memberAt_eq hv]
    by_cases ha : a = t.addr
    · subst ha
      rw [if_pos rfl, hm, Option.map_some, Option.map_some, hmark, markAfter,
        if_pos ⟨rfl, rfl, hinc, hlocal⟩]
    · rw [if_neg ha, markAfter_other fun h => ha h.2]
  · rw [if_neg hs, markAfter_other fun h => hs h.1]

theorem Reported.member (h : Reported t r rise fall lb lb') {s : VipSpec} {a : UInt32}
    {m' : Member} (hm' : lb'.memberAt s a = some m') :
    ∃ m, lb.memberAt s a = some m ∧ m'.incarnation = m.incarnation ∧
      m'.health = if Counted t r s a m then m.health.probe r.ok rise fall else m.health := by
  have hmark := h.mark s a
  rw [hm', Option.map_some] at hmark
  obtain ⟨m, hm, hmark⟩ := Option.map_eq_some_iff.mp hmark.symm
  refine ⟨m, hm, ?_⟩
  unfold markAfter at hmark
  split_ifs at hmark ⊢ <;> exact ⟨(congrArg Prod.snd hmark).symm, (congrArg Prod.fst hmark).symm⟩

theorem Reported.preserves_rebuild (spec : VipSpec) :
    Preserves (fun _ => Reported t r rise fall lb) (rebuildLocked env spec) := by
  intro d lb₁ h
  have hend : ∀ lb', Evolved (fun _ _ => True) lb₁ lb' ∧ Evolved (fun _ _ => False) lb₁ lb' →
      Reported t r rise fall lb lb' := fun lb' ⟨hall, hnone⟩ =>
    ⟨h.clock.trans hall.clock, fun s a => (hall.same hnone s a).trans (h.mark s a)⟩
  have hkeep : ∀ K : VipSpec → UInt32 → Prop,
      Preserves (fun _ => Evolved K lb₁) (rebuildLocked env spec) := fun K =>
    (Evolved.closed : Closed env K _).preserves_rebuildLocked spec
  exact wp_mono (wp_and (hkeep _ d lb₁ (.refl lb₁)) (hkeep _ d lb₁ (.refl lb₁)))
    (fun _ _ _ => trivial)
    (fun _ _ lb' h => hend lb' h) fun _ _ lb' h => hend lb' h

/-- The counters and the verdict of the code are those of `Health.probe`. -/
theorem countProbe_mark (m : Member) (r : ProbeResult) (rise fall : UInt32) (now : Int) :
    (if flips (countProbe m r) r rise fall then
      { countProbe m r with up := r.ok, lastChangeMs := now } else countProbe m r).mark =
    (m.health.probe r.ok rise fall, m.incarnation) := by
  cases hok : r.ok with
  | true =>
      by_cases hrise : rise ≤ m.consecutiveOk + 1 <;> cases hup : m.up <;>
        simp [flips, countProbe, Health.probe, Member.mark, Member.health, hok, hup, hrise]
  | false =>
      by_cases hfall : fall ≤ m.consecutiveFail + 1 <;> cases hup : m.up <;>
        simp [flips, countProbe, Health.probe, Member.mark, Member.health, hok, hup, hfall]

theorem reportHealth_reported (env : Env) (d : CtlMaps) (lb : LbState) :
    Reported t r rise fall lb (reportHealth env t r rise fall d lb).mem := by
  suffices h : wp (reportHealth env t r rise fall) (fun _ _ => True)
      (fun _ _ => Reported t r rise fall lb) (fun _ _ => Reported t r rise fall lb) d lb from
    h.at_end
  simp only [reportHealth, putVip, wp_bind, wp_get]
  cases hv : lb.vips[t.vip]? with
  | none =>
      refine (wp_pure _).mpr (.unchanged fun m hm _ => ?_)
      simp [memberAt, membersAt, hv] at hm
  | some v =>
      dsimp only
      cases hm : v.members[t.addr]? with
      | none =>
          refine (wp_pure _).mpr (.unchanged fun m hm' _ => ?_)
          simp [memberAt_eq hv, hm] at hm'
      | some m =>
          have hat : lb.memberAt t.vip t.addr = some m := (memberAt_eq hv _).trans hm
          simp only [wp_ite, wp_pure]
          refine ⟨fun hinc => .unchanged fun m' hm' hinc' => ?_, fun hinc => ⟨fun hlocal =>
            .unchanged fun _ _ _ => hlocal, fun hlocal => ?_⟩⟩
          · obtain rfl : m = m' := Option.some.inj (hat.symm.trans hm')
            exact absurd hinc' hinc
          · have hinc : m.incarnation = t.incarnation := not_not.mp hinc
            have hput := fun (m' : Member) (hmark : m'.mark =
                (m.health.probe r.ok rise fall, m.incarnation)) =>
              Reported.put hv hm hinc (Bool.eq_false_of_not_eq_true hlocal) hmark
            have hmark := countProbe_mark m r rise fall env.epochMs
            simp only [wp_bind, wp_modify]
            refine ⟨fun hflips => ?_, fun hflips => hput _ ?_⟩
            · rw [if_pos hflips] at hmark
              exact Reported.preserves_rebuild t.vip _ _ (hput _ hmark)
            · rwa [if_neg hflips] at hmark

end Report

/-! ## The health checker at work -/

/-- A target that was handed out, and the operation that had begun the membership it
was taken for. -/
structure Issue where
  target : HealthTarget
  born : Nat

/-- A result on its way to `report_health`. -/
structure Report where
  issue : Issue
  result : ProbeResult
  rise : UInt32
  fall : UInt32

/-- One daemon: `now` counts its operations, `born` is the one that began the present
membership of an address in a VIP. -/
structure Probing where
  ctl : CtlMaps
  lb : LbState
  now : Nat
  born : VipSpec → UInt32 → Nat
  issued : List Issue
  reports : List Report

namespace Probing

def start (ctl : CtlMaps) (interface : String) : Probing where
  ctl := ctl
  lb := { interface }
  now := 0
  born _ _ := 0
  issued := []
  reports := []

inductive Event where
  | call (env : Env) (op : Op)
  | snapshot
  | report (env : Env) (r : Report)

/-- The operations may return or throw, and the results come in any order, late, more
than once or never. -/
inductive Step : Event → Probing → Probing → Prop
  | call (env : Env) (op : Op) (s : Probing) (hop : op.isReport = false) :
      Step (.call env op) s { s with
        ctl := replay s.ctl (op.run env s.ctl s.lb).log
        lb := (op.run env s.ctl s.lb).mem
        now := s.now + 1
        born := fun v a => if (s.lb.memberAt v a).isSome then s.born v a else s.now + 1 }
  | snapshot (s : Probing) :
      Step .snapshot s { s with
        issued := s.issued ++ s.lb.healthTargets.map fun t => ⟨t, s.born t.vip t.addr⟩ }
  | report (env : Env) (r : Report) (s : Probing) (hissued : r.issue ∈ s.issued) :
      Step (.report env r) s { s with
        ctl := replay s.ctl
          (reportHealth env r.issue.target r.result r.rise r.fall s.ctl s.lb).log
        lb := (reportHealth env r.issue.target r.result r.rise r.fall s.ctl s.lb).mem
        reports := s.reports ++ [r] }

/-- Whether a report counts for the membership that began with the operation `n`. -/
def For (v : VipSpec) (a : UInt32) (n : Nat) (r : Report) : Bool :=
  !r.result.localError && decide (r.issue.target.vip = v ∧ r.issue.target.addr = a) &&
    decide (r.issue.born = n)

/-- A fresh member after the reports for the present membership, in their order. -/
def expected (s : Probing) (v : VipSpec) (a : UInt32) : Health :=
  (s.reports.filter (For v a (s.born v a))).foldl
    (fun h r => h.probe r.result.ok r.rise r.fall) .fresh

/-- Incarnations tell memberships apart, and so every result has gone to its own. -/
structure Inv (s : Probing) : Prop where
  incarnation_lt : ∀ v a m, s.lb.memberAt v a = some m → m.incarnation < s.lb.nextIncarnation
  issued_lt : ∀ i ∈ s.issued, i.target.incarnation < s.lb.nextIncarnation ∧ i.born ≤ s.now
  issued_iff : ∀ v a m, s.lb.memberAt v a = some m → ∀ i ∈ s.issued,
    i.target.vip = v → i.target.addr = a → (m.incarnation = i.target.incarnation ↔
      i.born = s.born v a)
  born_le : ∀ v a, s.born v a ≤ s.now
  reported : ∀ r ∈ s.reports, r.issue ∈ s.issued
  health : ∀ v a m, s.lb.memberAt v a = some m → m.health = s.expected v a

section Run

variable {s s' : Probing}

theorem Inv.start (ctl : CtlMaps) (interface : String) : Inv (start ctl interface) where
  incarnation_lt v a m hm := by simp [Probing.start, memberAt, membersAt] at hm
  issued_lt i hi := by simp [Probing.start] at hi
  issued_iff v a m hm := by simp [Probing.start, memberAt, membersAt] at hm
  born_le _ _ := le_rfl
  reported r hr := by simp [Probing.start] at hr
  health v a m hm := by simp [Probing.start, memberAt, membersAt] at hm

theorem mem_healthTargets {lb : LbState} {t : HealthTarget} (h : t ∈ lb.healthTargets) :
    ∃ m, lb.memberAt t.vip t.addr = some m ∧ t.incarnation = m.incarnation := by
  unfold healthTargets at h
  split_ifs at h
  · simp at h
  · simp only [List.mem_flatMap, List.mem_filter, List.mem_map] at h
    obtain ⟨⟨spec, v⟩, ⟨hv, -⟩, ⟨a, m⟩, hm, rfl⟩ := h
    have hv' := ExtTreeMap.mem_toList_iff_getElem?_eq_some.mp hv
    exact ⟨m, (memberAt_eq hv' a).trans (ExtTreeMap.mem_toList_iff_getElem?_eq_some.mp hm), rfl⟩

theorem mem_healthTargets_of_member {lb : LbState} {spec : VipSpec} {a : UInt32} {m : Member}
    (henabled : lb.healthEnabled = true) (htcp : spec.proto = 6)
    (hm : lb.memberAt spec a = some m) : ⟨spec, a, m.incarnation⟩ ∈ lb.healthTargets := by
  obtain ⟨v, hv, hm⟩ := exists_of_memberAt hm
  have hmem : (spec, v) ∈ lb.vips.toList.filter fun p => p.1.proto = 6 :=
    List.mem_filter.mpr
      ⟨ExtTreeMap.mem_toList_iff_getElem?_eq_some.mpr hv, decide_eq_true htcp⟩
  simp only [healthTargets, henabled, Bool.not_true, Bool.false_eq_true, if_false]
  refine List.mem_flatMap.mpr ⟨_, hmem, List.mem_map.mpr ⟨(a, m), ?_, rfl⟩⟩
  exact ExtTreeMap.mem_toList_iff_getElem?_eq_some.mpr hm

/-- Every operation but a report. -/
theorem Inv.call (h : Inv s) (env : Env) {op : Op} (hop : op.isReport = false) :
    Inv { s with
      ctl := replay s.ctl (op.run env s.ctl s.lb).log
      lb := (op.run env s.ctl s.lb).mem
      now := s.now + 1
      born := fun v a => if (s.lb.memberAt v a).isSome then s.born v a else s.now + 1 } := by
  have hev := op.evolved hop env s.ctl s.lb
  refine ⟨fun v a m' hm' => ?_, fun i hi => ?_, fun v a m' hm' i hi hv ha => ?_, fun v a => ?_,
    h.reported, fun v a m' hm' => ?_⟩
  · rcases hev.member v a m' hm' with ⟨m, hm, hmark⟩ | ⟨-, -, -, -, hlt⟩
    · have hinc : m'.incarnation = m.incarnation := congrArg Prod.snd hmark
      exact hinc ▸ (h.incarnation_lt v a m hm).trans_le hev.clock
    · exact hlt
  · obtain ⟨hinc, hborn⟩ := h.issued_lt i hi
    exact ⟨hinc.trans_le hev.clock, Nat.le_succ_of_le hborn⟩
  · rcases hev.member v a m' hm' with ⟨m, hm, hmark⟩ | ⟨hnone, -, -, hle, -⟩
    · have hinc : m'.incarnation = m.incarnation := congrArg Prod.snd hmark
      simpa [hm, hinc] using h.issued_iff v a m hm i hi hv ha
    · -- the membership is younger than every target
      obtain ⟨hlt, hborn⟩ := h.issued_lt i hi
      simp only [hnone, Option.isSome_none, Bool.false_eq_true, if_false]
      omega
  · have hborn := h.born_le v a
    simp only
    split_ifs <;> omega
  · rcases hev.member v a m' hm' with ⟨m, hm, hmark⟩ | ⟨hnone, -, hfresh, -, -⟩
    · have hhealth : m'.health = m.health := congrArg Prod.fst hmark
      simpa [expected, hm, hhealth] using h.health v a m hm
    · have hnothing : s.reports.filter (For v a (s.now + 1)) = [] := by
        rw [List.filter_eq_nil_iff]
        intro r hr
        have hborn := (h.issued_lt _ (h.reported r hr)).2
        simp only [For, Bool.and_eq_true, decide_eq_true_eq, not_and]
        omega
      simp [expected, hnone, hnothing, hfresh]

theorem Inv.snapshot (h : Inv s) :
    Inv { s with
      issued := s.issued ++ s.lb.healthTargets.map fun t => ⟨t, s.born t.vip t.addr⟩ } := by
  refine ⟨h.incarnation_lt, fun i hi => ?_, fun v a m hm i hi hv ha => ?_, h.born_le,
    fun r hr => ?_, h.health⟩
  · rcases List.mem_append.mp hi with hold | hnew
    · exact h.issued_lt i hold
    · obtain ⟨t, ht, rfl⟩ := List.mem_map.mp hnew
      obtain ⟨m, hm, hinc⟩ := mem_healthTargets ht
      exact ⟨hinc ▸ h.incarnation_lt _ _ m hm, h.born_le _ _⟩
  · rcases List.mem_append.mp hi with hold | hnew
    · exact h.issued_iff v a m hm i hold hv ha
    · obtain ⟨t, ht, rfl⟩ := List.mem_map.mp hnew
      obtain ⟨m', hm', hinc⟩ := mem_healthTargets ht
      obtain ⟨rfl, rfl⟩ : t.vip = v ∧ t.addr = a := ⟨hv, ha⟩
      obtain rfl : m = m' := Option.some.inj (hm.symm.trans hm')
      exact iff_of_true hinc.symm rfl
  · exact List.mem_append_left _ (h.reported r hr)

/-- A report counts for the member exactly when it is for the present membership. -/
theorem Inv.counted_iff (h : Inv s) {r : Report} (hissued : r.issue ∈ s.issued) {v : VipSpec}
    {a : UInt32} {m : Member} (hm : s.lb.memberAt v a = some m) :
    Counted r.issue.target r.result v a m ↔ For v a (s.born v a) r = true := by
  simp only [Counted, For, Bool.and_eq_true, Bool.not_eq_true', decide_eq_true_eq]
  constructor
  · rintro ⟨rfl, rfl, hinc, hlocal⟩
    exact ⟨⟨hlocal, rfl, rfl⟩, (h.issued_iff _ _ m hm _ hissued rfl rfl).mp hinc⟩
  · rintro ⟨⟨hlocal, rfl, rfl⟩, hborn⟩
    exact ⟨rfl, rfl, (h.issued_iff _ _ m hm _ hissued rfl rfl).mpr hborn, hlocal⟩

theorem Inv.report (h : Inv s) (env : Env) {r : Report} (hissued : r.issue ∈ s.issued) :
    Inv { s with
      ctl := replay s.ctl
        (reportHealth env r.issue.target r.result r.rise r.fall s.ctl s.lb).log
      lb := (reportHealth env r.issue.target r.result r.rise r.fall s.ctl s.lb).mem
      reports := s.reports ++ [r] } := by
  have hrep : Reported r.issue.target r.result r.rise r.fall s.lb _ :=
    reportHealth_reported env s.ctl s.lb
  refine ⟨fun v a m' hm' => ?_, fun i hi => ?_, fun v a m' hm' i hi hv ha => ?_, h.born_le,
    fun q hq => ?_, fun v a m' hm' => ?_⟩
  · obtain ⟨m, hm, hinc, -⟩ := hrep.member hm'
    exact hinc ▸ (h.incarnation_lt v a m hm).trans_le hrep.clock
  · exact (h.issued_lt i hi).imp_left fun hlt => hlt.trans_le hrep.clock
  · obtain ⟨m, hm, hinc, -⟩ := hrep.member hm'
    rw [hinc]
    exact h.issued_iff v a m hm i hi hv ha
  · rcases List.mem_append.mp hq with hold | hnew
    · exact h.reported q hold
    · rwa [List.mem_singleton.mp hnew]
  · obtain ⟨m, hm, -, hhealth⟩ := hrep.member hm'
    have hm₀ : m.health = s.expected v a := h.health v a m hm
    rw [hhealth, expected, List.filter_append, List.foldl_append]
    by_cases hfor : For v a (s.born v a) r = true
    · rw [if_pos ((h.counted_iff hissued hm).mpr hfor), hm₀]
      simp [expected, hfor]
    · rw [if_neg fun hc => hfor ((h.counted_iff hissued hm).mp hc), hm₀]
      simp [expected, hfor]

theorem Inv.step {e : Event} (h : Inv s) (hstep : Step e s s') : Inv s' := by
  cases hstep with
  | call env op _ hop => exact h.call env hop
  | snapshot => exact h.snapshot
  | report env r _ hissued => exact h.report env hissued

/-- Every member's health is that of a fresh one after exactly the results of the probes
that were started for its own membership, in the order of their reports. -/
theorem probes_reach_their_membership {ctl : CtlMaps} {interface : String} {es : List Event}
    (hrun : Path Step es (start ctl interface) s) {v : VipSpec} {a : UInt32} {m : Member}
    (hm : s.lb.memberAt v a = some m) : m.health = s.expected v a := by
  have hinv : Inv s := hrun.invariant (I := fun _ => Inv) (.start ctl interface)
    fun _ _ _ _ _ _ hI hstep => hI.step hstep
  exact hinv.health v a m hm

def tcpVip : VipSpec := { sampleFlow.vip with proto := 6 }

/-- A call of a daemon in the state `t`. -/
structure Called (s : Probing) (t : Serving) (s' : Probing) : Prop where
  ctl : s'.ctl = t.ctl
  lb : s'.lb = t.lb
  now : s'.now = s.now + 1
  born : ∀ v a, s'.born v a = if (s.lb.memberAt v a).isSome then s.born v a else s.now + 1
  issued : s'.issued = s.issued
  reports : s'.reports = s.reports

theorem exists_called {t : Serving} (hctl : s.ctl = t.ctl) (hlb : s.lb = t.lb) (env : Env)
    (op : Op) (hop : op.isReport = false) :
    ∃ s', Step (.call env op) s s' ∧ Called s (t.after env op) s' := by
  refine ⟨_, .call env op s hop, ?_⟩
  rw [Serving.after, ← hctl, ← hlb]
  exact ⟨rfl, rfl, rfl, fun _ _ => rfl, rfl, rfl⟩

theorem exists_reported (env : Env) (r : Report) (hissued : r.issue ∈ s.issued) {v : VipSpec}
    {a : UInt32} {m : Member} (hm : s.lb.memberAt v a = some m) :
    ∃ s' m', Step (.report env r) s s' ∧ s'.lb.memberAt v a = some m' ∧ s'.born = s.born ∧
      s'.issued = s.issued ∧ s'.reports = s.reports ++ [r] := by
  have hrep : Reported r.issue.target r.result r.rise r.fall s.lb _ :=
    reportHealth_reported env s.ctl s.lb
  have hmark := hrep.mark v a
  rw [hm, Option.map_some] at hmark
  obtain ⟨m', hm', -⟩ := Option.map_eq_some_iff.mp hmark
  exact ⟨_, m', .report env r s hissued, hm', rfl, rfl, rfl⟩

/-- The real has been added to a VIP without reals, and a snapshot taken. -/
structure Added (s : Probing) (t : Serving) (s' : Probing) (m : Member) : Prop where
  ctl : s'.ctl = t.ctl
  lb : s'.lb = t.lb
  now : s'.now = s.now + 1
  born : s'.born tcpVip 0x1500000a = s.now + 1
  reports : s'.reports = s.reports
  member : s'.lb.memberAt tcpVip 0x1500000a = some m
  old : ∀ i ∈ s.issued, i ∈ s'.issued
  new : ⟨⟨tcpVip, 0x1500000a, m.incarnation⟩, s.now + 1⟩ ∈ s'.issued

theorem exists_added {t : Serving} {v : Vip} (hctl : s.ctl = t.ctl) (hlb : s.lb = t.lb)
    (hb : t.Bare tcpVip v) (hr : t.Reachable) (henabled : t.lb.healthEnabled = true)
    (hnone : t.lb.reals.entry 0x1500000a = none)
    (hroom : t.lb.reals.used.card < pbMaxReals - 1) :
    ∃ s₁ s₂ v' e m, Step (.call System.answeringEnv (.addReal tcpVip 0x1500000a 1)) s s₁ ∧
      Step .snapshot s₁ s₂ ∧ t.FirstReal tcpVip v 0x1500000a
        (t.after System.answeringEnv (.addReal tcpVip 0x1500000a 1)) v' e ∧
      Added s (t.after System.answeringEnv (.addReal tcpVip 0x1500000a 1)) s₂ m := by
  obtain ⟨v', e, hfirst⟩ := hb.real_added hr (by decide) hnone hroom
  obtain ⟨s₁, hs₁, hc₁⟩ := exists_called hctl hlb System.answeringEnv
    (.addReal tcpVip 0x1500000a 1) rfl
  obtain ⟨m, hm⟩ := OrdMap.mem_iff.mp ((hfirst.mem 0x1500000a).mpr rfl)
  have hat : s₁.lb.memberAt tcpVip 0x1500000a = some m := by
    rw [hc₁.lb]
    exact (memberAt_eq hfirst.step.vip _).trans hm
  have hold : s.lb.memberAt tcpVip 0x1500000a = none := by
    rw [hlb, memberAt_eq hb.vip, hb.members]
    exact ExtTreeMap.getElem?_empty
  have hborn : s₁.born tcpVip 0x1500000a = s.now + 1 := by rw [hc₁.born, hold]; rfl
  have htarget := mem_healthTargets_of_member (by rw [hc₁.lb, hfirst.step.settings.2, henabled])
    rfl hat
  refine ⟨s₁, _, v', e, _, hs₁, .snapshot s₁, hfirst, hc₁.ctl, hc₁.lb, hc₁.now, hborn,
    hc₁.reports, hat, fun i hi => List.mem_append_left _ (hc₁.issued ▸ hi), ?_⟩
  rw [← hborn]
  exact List.mem_append_right _ (List.mem_map.mpr ⟨_, htarget, rfl⟩)

/-- A real is added, deleted and added again, with a snapshot after each addition. -/
theorem exists_readded {t : Serving} (h : t.Idle) (henabled : t.lb.healthEnabled = true)
    (hctl : s.ctl = t.ctl) (hlb : s.lb = t.lb) :
    ∃ (s' : Probing) (i j : Nat) (m : Member),
      Path Step [.call System.answeringEnv (.addVip tcpVip false),
        .call System.answeringEnv (.addReal tcpVip 0x1500000a 1), .snapshot,
        .call System.answeringEnv (.delReal tcpVip 0x1500000a),
        .call System.answeringEnv (.addReal tcpVip 0x1500000a 1), .snapshot] s s' ∧
      s'.lb.memberAt tcpVip 0x1500000a = some m ∧ s'.reports = s.reports ∧
      s'.born tcpVip 0x1500000a = s.now + 4 ∧
      ⟨⟨tcpVip, 0x1500000a, i⟩, s.now + 2⟩ ∈ s'.issued ∧
      ⟨⟨tcpVip, 0x1500000a, j⟩, s.now + 4⟩ ∈ s'.issued := by
  have henv := System.answeringEnv_healthy
  have hnew : tcpVip ∉ t.lb.vips := by simp [h.vips]
  obtain ⟨k, hk⟩ := Serving.exists_vipId (fun x (_ : x ≠ tcpVip) => by simp [h.vips])
    h.reachable.live.adopted
  obtain ⟨v, -, hstep, hreals⟩ := h.reachable.vip_added henv hnew hk false
  have hr₁ := h.reachable.after henv.arrayOk (.addVip tcpVip false)
  have hb₁ := Serving.bare_added hnew hstep
  obtain ⟨s₁, hs₁, hc₁⟩ := exists_called hctl hlb System.answeringEnv
    (.addVip tcpVip false) rfl
  have hempty : (t.after System.answeringEnv (.addVip tcpVip false)).lb.reals.used.card = 0 := by
    rw [hreals, h.used, Finset.card_empty]
  obtain ⟨s₂, s₃, v', e, m, hs₂, hs₃, hfirst, hadd⟩ := exists_added hc₁.ctl hc₁.lb hb₁ hr₁
    (hstep.settings.2.trans henabled) (by rw [hreals, h.entry]) (by rw [hempty]; decide)
  have hr₂ := hr₁.after henv.arrayOk (.addReal tcpVip 0x1500000a 1)
  obtain ⟨u, hb₂, hgone, hcard, hhealth⟩ := hfirst.deleted hb₁ hr₂
  have hr₃ := hr₂.after henv.arrayOk (.delReal tcpVip 0x1500000a)
  obtain ⟨s₄, hs₄, hc₄⟩ := exists_called hadd.ctl hadd.lb System.answeringEnv
    (.delReal tcpVip 0x1500000a) rfl
  obtain ⟨s₅, s₆, -, -, m', hs₅, hs₆, -, hadd'⟩ := exists_added hc₄.ctl hc₄.lb hb₂ hr₃
    (hhealth.trans (hfirst.step.settings.2.trans (hstep.settings.2.trans henabled))) hgone
    (Nat.lt_of_le_of_lt hcard (by rw [hempty]; decide))
  have hnow : s₄.now = s.now + 3 := by rw [hc₄.now, hadd.now, hc₁.now]
  refine ⟨s₆, m.incarnation, m'.incarnation, m', ⟨s₁, hs₁, s₂, hs₂, s₃, hs₃, s₄, hs₄, s₅, hs₅,
    s₆, hs₆, rfl⟩, hadd'.member, ?_, by rw [hadd'.born, hnow], ?_, ?_⟩
  · rw [hadd'.reports, hc₄.reports, hadd.reports, hc₁.reports]
  · have hold := hadd.new
    rw [hc₁.now] at hold
    exact hadd'.old _ (hc₄.issued ▸ hold)
  · have hlate := hadd'.new
    rwa [hnow] at hlate

/-- A target taken before the real was deleted is reported when the real is there again, then
one taken since: only the second counts. -/
theorem probes_reach_their_membership_sample : ∃ (s : Probing) (i j : Nat) (m : Member),
    Path Step [.call System.answeringEnv (.apply Serving.idleConfig),
        .call System.answeringEnv (.addVip tcpVip false),
        .call System.answeringEnv (.addReal tcpVip 0x1500000a 1), .snapshot,
        .call System.answeringEnv (.delReal tcpVip 0x1500000a),
        .call System.answeringEnv (.addReal tcpVip 0x1500000a 1), .snapshot,
        .report System.answeringEnv ⟨⟨⟨tcpVip, 0x1500000a, i⟩, 3⟩, { ok := true }, 1, 1⟩,
        .report System.answeringEnv ⟨⟨⟨tcpVip, 0x1500000a, j⟩, 5⟩, {}, 1, 1⟩]
      (start .empty "eth0") s ∧
    s.lb.memberAt tcpVip 0x1500000a = some m ∧ m.health = ⟨false, 0, 1⟩ := by
  have henv := System.answeringEnv_healthy
  have henabled := ((Serving.started_applied (CtlMaps.empty_pinned.on ∅) henv.arrayOk
    (Serving.idleConfig_ok henv "eth0")).inForce Serving.idleConfig.ok).healthEnabled
  obtain ⟨s₀, hs₀, hc₀⟩ := exists_called (s := start .empty "eth0")
    (t := ⟨CtlMaps.empty, { interface := "eth0" }⟩) rfl rfl System.answeringEnv
    (.apply Serving.idleConfig) rfl
  obtain ⟨s, i, j, m, hrun, hm, hreports, hborn, hi, hj⟩ := exists_readded
    (Serving.idle_started henv "eth0") henabled hc₀.ctl hc₀.lb
  rw [hc₀.now] at hborn hi hj
  rw [hc₀.reports] at hreports
  obtain ⟨s₁, m₁, hstep₁, hm₁, hborn₁, hissued₁, hreports₁⟩ := exists_reported
    System.answeringEnv ⟨⟨⟨tcpVip, 0x1500000a, i⟩, 3⟩, { ok := true }, 1, 1⟩ hi hm
  obtain ⟨s₂, m₂, hstep₂, hm₂, hborn₂, -, hreports₂⟩ := exists_reported
    System.answeringEnv ⟨⟨⟨tcpVip, 0x1500000a, j⟩, 5⟩, {}, 1, 1⟩ (hissued₁ ▸ hj) hm₁
  have hpath : Path Step (_ :: _) (start .empty "eth0") s := ⟨s₀, hs₀, hrun⟩
  have hrun₂ := (hpath.snoc hstep₁).snoc hstep₂
  refine ⟨s₂, i, j, m₂, hrun₂, hm₂, ?_⟩
  rw [probes_reach_their_membership hrun₂ hm₂, expected, hborn₂, hborn₁, hborn, hreports₂,
    hreports₁, hreports]
  rfl

end Run

end Probing

end PacketBalance
