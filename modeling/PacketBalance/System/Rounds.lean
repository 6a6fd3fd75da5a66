import PacketBalance.HealthChecker
import PacketBalance.LbState.Unchanged
import PacketBalance.System.Fit
import PacketBalance.System.Hysteresis
/-!
# Health checks of a running system

The health checker's thread beside everything else: between taking the targets and each
report, other operations are called, their writes land and packets pass.  However all this
is interleaved, a real that answers no probe for `fall` rounds is out of the ring when the
last of them has been reported, and one that answers for `rise` rounds is back.
-/

namespace PacketBalance

open WriteLog Std LbState Streak

/-! ## Operations whose writes land one by one, and operations at once -/

namespace System

variable {s s' : System} {e : Event}

/-- The maps and the model when the operation under way, if there is one, has ended. -/
def landed (s : System) : PacketBalance.Serving :=
  s.pending.elim ⟨s.ctl, s.lb⟩ fun p => ⟨replay s.ctl p.1, p.2⟩

theorem landed_idle (h : s.pending = none) : s.landed = ⟨s.ctl, s.lb⟩ := by
  rw [landed, h, Option.elim_none]

def Event.called : Event → List (Env × Op)
  | .call env op => [(env, op)]
  | _ => []

def Event.isRestart : Event → Bool
  | .restart _ => true
  | _ => false

/-- One daemon of the running system is, in the end, one that makes all writes of an
operation at once. -/
theorem Step.landed (h : Step e s s') (hlife : e.isRestart = false) :
    Path PacketBalance.Serving.Step e.called s.landed s'.landed := by
  cases h with
  | call env op _ hidle harray hready =>
      refine ⟨_, ⟨harray, rfl⟩, ?_⟩
      rw [landed_idle hidle]
      rfl
  | write _ w ws mem hpending =>
      change _ = _
      rw [System.landed, System.landed, hpending]
      rfl
  | finish _ mem hpending =>
      change _ = _
      rw [System.landed, System.landed, hpending]
      rfl
  | packet => rfl
  | evict => rfl
  | restart => cases hlife

theorem Reachable.clocked (h : Reachable s) : s.landed.Clocked := by
  obtain ⟨interface, es, hrun⟩ := h
  have hnew : ∀ d interface, PacketBalance.Serving.Clocked ⟨d, { interface }⟩ := by
    intro d interface v a m hm
    simp [memberAt, membersAt] at hm
  refine hrun.invariant (I := fun _ s => s.landed.Clocked) (hnew _ interface) ?_
  rintro _ e _ - s s' hI ⟨hstep, -⟩
  by_cases hlife : e.isRestart = true
  · cases hstep with
    | restart interface => exact hnew _ interface
    | _ => cases hlife
  · refine (hstep.landed (Bool.eq_false_of_not_eq_true hlife)).invariant
      (I := fun _ => PacketBalance.Serving.Clocked) hI ?_
    rintro _ _ _ - s _ hI ⟨-, rfl⟩
    exact hI.after _ _

end System

namespace Serving

variable {s s' : Serving} {t : HealthTarget}

def Has (s : Serving) (t : HealthTarget) : Prop :=
  ∃ m, s.lb.memberAt t.vip t.addr = some m ∧ m.incarnation = t.incarnation

theorem has_before {xs : List (Env × Op)} (hrun : Path Step xs s s')
    (hlt : t.incarnation < s.lb.nextIncarnation) :
    t.incarnation < s'.lb.nextIncarnation ∧ (s'.Has t → s.Has t) := by
  refine hrun.invariant (I := fun _ s' => t.incarnation < s'.lb.nextIncarnation ∧
    (s'.Has t → s.Has t)) ⟨hlt, id⟩ ?_
  rintro _ x _ - s₁ _ ⟨hlt₁, hback⟩ ⟨-, rfl⟩
  obtain ⟨hclock, hmember⟩ := s₁.member_after x.1 x.2
  refine ⟨hlt₁.trans_le hclock, fun ⟨m', hm', hinc⟩ => hback ?_⟩
  rcases hmember _ _ m' hm' with ⟨m, hm, hsame, -⟩ | ⟨hyoung, -⟩
  · exact ⟨m, hm, hsame.symm.trans hinc⟩
  · omega

end Serving

/-! ## The checker's thread -/

open HealthChecker (Kernel)

/-- The running system and the checker: its parameters, and the reports of the present round
that are still to be made. -/
structure Watch where
  sys : System
  params : HealthCheckConfig
  todo : List Op

namespace Watch

inductive Event where
  | system (e : System.Event)
  | setParams (p : HealthCheckConfig)
  | round (k : Kernel)
  | report (env : Env)

/-- One step in the life of a daemon.  A round begins when the last one has been reported;
`health_targets` and `report_health` wait for the operation under way.  The thread has no
handler, so a report that throws ends the daemon. -/
inductive Step : Event → Watch → Watch → Prop
  | system (e : System.Event) (w : Watch) (s' : System) (h : System.CalmStep e w.sys s')
      (hlife : e.isRestart = false) (hother : ∀ x ∈ e.called, x.2.isReport = false) :
      Step (.system e) w { w with sys := s' }
  | setParams (p : HealthCheckConfig) (w : Watch) :
      Step (.setParams p) w { w with params := p }
  | round (k : Kernel) (w : Watch) (hdone : w.todo = []) (hidle : w.sys.pending = none) :
      Step (.round k) w { w with
        todo := HealthChecker.round w.params k w.sys.lb.healthTargets }
  | report (env : Env) (w : Watch) (op : Op) (rest : List Op) (s' : System)
      (htodo : w.todo = op :: rest) (h : System.CalmStep (.call env op) w.sys s') :
      Step (.report env) w { w with sys := s', todo := rest }

def Event.hears (t : HealthTarget) (ok : Bool) : Event → Bool
  | .round k => k.heard t = some ok
  | _ => false

def Quiet (t : HealthTarget) (w : Watch) : Prop :=
  ∀ r rise fall, .reportHealth t r rise fall ∉ w.todo

def Uses (rise fall : UInt32) (p : HealthCheckConfig) : Prop :=
  UInt32.ofNat p.rise = rise ∧ UInt32.ofNat p.fall = fall

section Results

variable {w w₀ w' : Watch} {t : HealthTarget} {rise fall : UInt32} {xs : List (Env × Op)}
  {k : Kernel}

/-- The results for a target that have been reported or will be. -/
def results (w : Watch) (t : HealthTarget) (xs : List (Env × Op)) : List Bool :=
  resultsFor t xs ++ w.todo.filterMap (Op.resultFor t)

/-- What a step adds to them: the outcome of a round in which the target is taken. -/
def added (w : Watch) (t : HealthTarget) : Event → List Bool
  | .round k =>
      (HealthChecker.round w.params k w.sys.lb.healthTargets).filterMap (Op.resultFor t)
  | _ => []

theorem resultsFor_append (t : HealthTarget) (xs ys : List (Env × Op)) :
    resultsFor t (xs ++ ys) = resultsFor t xs ++ resultsFor t ys := List.filterMap_append

theorem resultFor_of_not_report {op : Op} (h : op.isReport = false) : op.resultFor t = none := by
  cases op <;> first | rfl | cases h

theorem resultFor_probe (p : HealthCheckConfig) (t' : HealthTarget) (rise fall : UInt32) :
    (Op.reportHealth t' (HealthChecker.probeOne k p.timeoutMs t').result rise fall).resultFor t =
      if t' = t then k.heard t else none := by
  by_cases ht : t' = t
  · subst ht
    have hsays := HealthChecker.probeOne_says k p.timeoutMs t'
    cases hheard : k.heard t' with
    | none =>
        rw [hheard] at hsays
        have hlocal : (HealthChecker.probeOne k p.timeoutMs t').result.localError = true := hsays
        simp [Op.resultFor, hlocal]
    | some ok =>
        rw [hheard] at hsays
        obtain ⟨hlocal, hok⟩ := hsays
        simp [Op.resultFor, hlocal, hok]
  · simp [Op.resultFor, ht]

theorem mem_added_round {ok : Bool} :
    ok ∈ w.added t (.round k) ↔ t ∈ w.sys.lb.healthTargets ∧ k.heard t = some ok := by
  rw [added, HealthChecker.round_eq, List.filterMap_map, List.mem_filterMap]
  simp only [Function.comp_apply, resultFor_probe]
  constructor
  · rintro ⟨t', ht', hok⟩
    split_ifs at hok with heq
    exact ⟨heq ▸ ht', hok⟩
  · rintro ⟨ht, hok⟩
    exact ⟨t, ht, by rw [if_pos rfl, hok]⟩

theorem mem_healthTargets_of_has (henabled : w.sys.lb.healthEnabled = true)
    (htcp : t.vip.proto = 6) (h : Serving.Has ⟨w.sys.ctl, w.sys.lb⟩ t) :
    t ∈ w.sys.lb.healthTargets := by
  obtain ⟨m, hm, hinc⟩ := h
  have ht : t = ⟨t.vip, t.addr, m.incarnation⟩ := by rw [hinc]
  rw [ht]
  exact Probing.mem_healthTargets_of_member henabled htcp hm

/-- What a stretch of the daemon's life comes to: the operations it has made, and reports
with the given parameters. -/
structure Made (t : HealthTarget) (rise fall : UInt32) (w₀ w : Watch) (xs : List (Env × Op)) :
    Prop where
  path : Path Serving.Step xs w₀.sys.landed w.sys.landed
  const : ConstantFor t rise fall xs
  todo : ∀ r rise' fall', .reportHealth t r rise' fall' ∈ w.todo → rise' = rise ∧ fall' = fall
  params : Uses rise fall w.params

theorem Made.refl (hquiet : w.Quiet t) (hparams : Uses rise fall w.params) :
    Made t rise fall w w [] where
  path := rfl
  const x hx := by cases hx
  todo r rise' fall' hr := absurd hr (hquiet r rise' fall')
  params := hparams

theorem Quiet.results_eq (h : w.Quiet t) (xs : List (Env × Op)) :
    w.results t xs = resultsFor t xs := by
  have hnone : w.todo.filterMap (Op.resultFor t) = [] := by
    rw [List.filterMap_eq_nil_iff]
    intro op hop
    cases op with
    | reportHealth t' r rise fall =>
        have hne : t' ≠ t := by
          rintro rfl
          exact h r rise fall hop
        simp [Op.resultFor, hne]
    | _ => rfl
  rw [results, hnone, List.append_nil]

theorem Made.step {e : Event} (h : Made t rise fall w₀ w xs) (hstep : Step e w w')
    (hconst : ∀ p, e = .setParams p → Uses rise fall p) :
    ∃ ys, Made t rise fall w₀ w' (xs ++ ys) ∧
      Path Serving.Step ys w.sys.landed w'.sys.landed ∧
      w'.results t (xs ++ ys) = w.results t xs ++ w.added t e := by
  cases hstep with
  | system e _ s' hcalm hlife hother =>
      have hpath := hcalm.1.landed hlife
      have hnone : resultsFor t e.called = [] := by
        rw [resultsFor, List.filterMap_eq_nil_iff]
        exact fun x hx => resultFor_of_not_report (hother x hx)
      refine ⟨e.called, ⟨path_append.mpr ⟨_, h.path, hpath⟩, ?_, h.todo, h.params⟩, hpath, ?_⟩
      · intro x hx r rise' fall' hop
        rcases List.mem_append.mp hx with hx | hx
        · exact h.const x hx r rise' fall' hop
        · have hreport := hother x hx
          rw [hop] at hreport
          cases hreport
      · simp [results, added, resultsFor_append, hnone]
  | setParams p =>
      exact ⟨[], by simpa using { h with params := hconst p rfl }, rfl, by simp [results, added]⟩
  | round k _ hdone hidle =>
      refine ⟨[], ⟨by simpa using h.path, by simpa using h.const, ?_, h.params⟩, rfl, ?_⟩
      · intro r rise' fall' hr
        rw [HealthChecker.round_eq] at hr
        obtain ⟨t', -, heq⟩ := List.mem_map.mp hr
        cases heq
        exact h.params
      · simp [results, added, hdone]
  | report env _ op rest s' htodo hcalm =>
      have hpath := hcalm.1.landed rfl
      refine ⟨[(env, op)], ⟨path_append.mpr ⟨_, h.path, hpath⟩, ?_, ?_, h.params⟩, hpath, ?_⟩
      · intro x hx r rise' fall' hop
        rcases List.mem_append.mp hx with hx | hx
        · exact h.const x hx r rise' fall' hop
        · rw [List.mem_singleton.mp hx] at hop
          refine h.todo r rise' fall' ?_
          rw [htodo]
          exact hop ▸ List.mem_cons_self
      · intro r rise' fall' hr
        refine h.todo r rise' fall' ?_
        rw [htodo]
        exact List.mem_cons_of_mem _ hr
      · cases hres : op.resultFor t <;>
          simp [results, added, resultsFor, htodo, hres]

theorem Made.run {es : List Event} (hquiet : w₀.Quiet t) (hparams : Uses rise fall w₀.params)
    (hconst : ∀ p, .setParams p ∈ es → Uses rise fall p) (hrun : Path Step es w₀ w) :
    ∃ xs, Made t rise fall w₀ w xs := by
  refine hrun.invariant (I := fun _ w => ∃ xs, Made t rise fall w₀ w xs)
    ⟨[], .refl hquiet hparams⟩ ?_
  rintro done e rest hes w w' ⟨xs, hmade⟩ hstep
  obtain ⟨ys, hmade', -⟩ := hmade.step hstep fun p hp => hconst p (by simp [hes, hp])
  exact ⟨_, hmade'⟩

/-- A stretch in which every probe of a target that could be made had the same outcome: all its
results are that outcome, and while the membership lasts there is one for each such round. -/
structure Steady (t : HealthTarget) (rise fall : UInt32) (ok : Bool) (w₀ w : Watch)
    (es : List Event) (xs : List (Env × Op)) : Prop extends Made t rise fall w₀ w xs where
  clock : t.incarnation < w.sys.landed.lb.nextIncarnation
  same : ∀ x ∈ w.results t xs, x = ok
  enough : w.sys.landed.Has t → es.countP (Event.hears t ok) ≤ (w.results t xs).length

theorem Steady.step {e : Event} {es : List Event} {ok : Bool}
    (h : Steady t rise fall ok w₀ w es xs) (hstep : Step e w w')
    (henabled : w.sys.lb.healthEnabled = true) (htcp : t.vip.proto = 6)
    (hconst : ∀ p, e = .setParams p → Uses rise fall p)
    (hheard : ∀ k, e = .round k → k.heard t = none ∨ k.heard t = some ok) :
    ∃ ys, Steady t rise fall ok w₀ w' (es ++ [e]) (xs ++ ys) := by
  obtain ⟨ys, hmade, hpath, hresults⟩ := h.toMade.step hstep hconst
  obtain ⟨hclock, hback⟩ := Serving.has_before hpath h.clock
  refine ⟨ys, hmade, hclock, fun x hx => ?_, fun hhas => ?_⟩
  · rw [hresults] at hx
    rcases List.mem_append.mp hx with hx | hx
    · exact h.same x hx
    · cases e with
      | round k =>
          have hx := (mem_added_round.mp hx).2
          rcases hheard k rfl with hnone | hsome
          · rw [hnone] at hx
            cases hx
          · exact Option.some.inj (hx.symm.trans hsome)
      | _ => cases hx
  · have hbefore := h.enough (hback hhas)
    rw [hresults, List.length_append, List.countP_append, List.countP_singleton]
    by_cases hhears : e.hears t ok = true
    · rw [if_pos hhears]
      cases hstep with
      | round k _ hdone hidle =>
          have hnow := hback hhas
          rw [System.landed_idle hidle] at hnow
          have hmem : ok ∈ w.added t (.round k) := mem_added_round.mpr
            ⟨mem_healthTargets_of_has henabled htcp hnow, of_decide_eq_true hhears⟩
          have hpos := List.length_pos_of_mem hmem
          omega
      | _ => cases hhears
    · rw [if_neg hhears]
      omega

theorem Steady.run {es : List Event} {ok : Bool} (hquiet : w₀.Quiet t)
    (hclock : t.incarnation < w₀.sys.landed.lb.nextIncarnation)
    (hparams : Uses rise fall w₀.params) (htcp : t.vip.proto = 6)
    (hconst : ∀ p, .setParams p ∈ es → Uses rise fall p)
    (hheard : ∀ k, .round k ∈ es → k.heard t = none ∨ k.heard t = some ok)
    (hrun : Path (fun e w w' => Step e w w' ∧ w.sys.lb.healthEnabled = true) es w₀ w) :
    ∃ xs, Steady t rise fall ok w₀ w es xs := by
  refine hrun.invariant (I := fun es w => ∃ xs, Steady t rise fall ok w₀ w es xs) ?_ ?_
  · refine ⟨[], .refl hquiet hparams, hclock, ?_, fun _ => Nat.zero_le _⟩
    rw [hquiet.results_eq]
    intro x hx
    cases hx
  · rintro done e rest hes w w' ⟨xs, hsteady⟩ ⟨hstep, henabled⟩
    obtain ⟨ys, hsteady'⟩ := hsteady.step hstep henabled htcp
      (fun p hp => hconst p (by simp [hes, hp])) fun k hk => hheard k (by simp [hes, hk])
    exact ⟨_, hsteady'⟩

end Results

/-! ## The verdict -/

section Verdict

variable {w w₀ w₁ w' : Watch} {t : HealthTarget} {rise fall : UInt32} {m₀ m : Member}
  {es es₁ es₂ : List Event} {ok : Bool}

/-- A daemon's steps are steps of the system. -/
theorem reachable_run (h : w.sys.Reachable) (hrun : Path Step es w w') : w'.sys.Reachable := by
  have hone : ∀ {e : System.Event} {s s' : System}, s.Reachable → System.CalmStep e s s' →
      s'.Reachable := fun ⟨interface, es, hrun⟩ hstep => ⟨interface, es ++ [_], hrun.snoc hstep⟩
  refine hrun.invariant (I := fun _ w => w.sys.Reachable) h ?_
  rintro _ e _ - w w' hw hstep
  cases hstep with
  | system e _ s' hcalm _ _ => exact hone hw hcalm
  | setParams => exact hw
  | round => exact hw
  | report env _ op rest s' _ hcalm => exact hone hw hcalm

theorem ready_of_member {s : System} (h : s.Reachable) (hidle : s.pending = none)
    (hm : s.lb.memberAt t.vip t.addr = some m) : s.ready = true := by
  cases hready : s.ready with
  | true => rfl
  | false =>
      obtain ⟨interface, hlb⟩ := h.inv.restarted hidle hready
      simp [hlb, memberAt, membersAt] at hm

/-- A membership begins: its member is new, and nothing has been heard of it. -/
structure Begins (t : HealthTarget) (rise fall : UInt32) (w : Watch) : Prop where
  reachable : w.sys.Reachable
  idle : w.sys.pending = none
  member : ∃ m, w.sys.lb.memberAt t.vip t.addr = some m ∧ m.incarnation = t.incarnation ∧
    m.health = .fresh
  quiet : w.Quiet t
  params : Uses rise fall w.params

/-- Whatever has happened since a membership began: when in the rounds that follow every probe
that could be made had the outcome `ok`, and they are as many as the outcome takes, the
member's flag is `ok`; and if that means down, no ring lookup for its VIP finds it. -/
theorem rounds_decide (h₀ : Begins t rise fall w₀) (hrise : 1 ≤ rise) (hfall : 1 ≤ fall)
    (htcp : t.vip.proto = 6) (hconst : ∀ p, .setParams p ∈ es₁ ++ es₂ → Uses rise fall p)
    (hrun₁ : Path Step es₁ w₀ w₁) (hquiet₁ : w₁.Quiet t)
    (hrun₂ : Path (fun e w w' => Step e w w' ∧ w.sys.lb.healthEnabled = true) es₂ w₁ w)
    (hheard : ∀ k, .round k ∈ es₂ → k.heard t = none ∨ k.heard t = some ok)
    (henough : (if ok then rise else fall).toNat ≤ es₂.countP (Event.hears t ok))
    (hquiet : w.Quiet t) (hidle : w.sys.pending = none)
    (hm : w.sys.lb.memberAt t.vip t.addr = some m) (hinc : m.incarnation = t.incarnation) :
    m.up = ok ∧
      (ok = false → ∀ (x : PktEnv) (p : Frame) (pick : Pick), p.flow.vip = t.vip →
        (xdpPacketbalance w.sys.ctl x w.sys.dp p).1.pick = some pick → pick.source = .ring →
        pick.realId = pbRealNone ∨ w.sys.ctl.reals pick.realId ≠ t.addr) := by
  obtain ⟨m₀, hm₀, hinc₀, hfresh⟩ := h₀.member
  have hland₀ := System.landed_idle h₀.idle
  have hland := System.landed_idle hidle
  have hlt₀ : t.incarnation < w₀.sys.landed.lb.nextIncarnation := by
    have hclocked := h₀.reachable.clocked
    rw [hland₀] at hclocked ⊢
    exact hinc₀ ▸ hclocked _ _ _ hm₀
  have hconst₁ : ∀ p, .setParams p ∈ es₁ → Uses rise fall p := fun p hp =>
    hconst p (List.mem_append_left _ hp)
  have hconst₂ : ∀ p, .setParams p ∈ es₂ → Uses rise fall p := fun p hp =>
    hconst p (List.mem_append_right _ hp)
  obtain ⟨xs₁, hmade₁⟩ := Made.run h₀.quiet h₀.params hconst₁ hrun₁
  obtain ⟨xs₂, hsteady⟩ := Steady.run hquiet₁ (Serving.has_before hmade₁.path hlt₀).1
    hmade₁.params htcp hconst₂ hheard hrun₂
  -- the history ends in a streak of the outcome
  have hstreak : (if ok then rise else fall).toNat ≤ streak ok (resultsFor t (xs₁ ++ xs₂)) := by
    have hcount := hsteady.enough (by rw [hland]; exact ⟨m, hm, hinc⟩)
    have hsame := hsteady.same
    rw [hquiet.results_eq] at hcount hsame
    refine (henough.trans hcount).trans (replicate_suffix_iff.mp ?_)
    rw [← List.eq_replicate_of_mem hsame, resultsFor_append]
    exact List.suffix_append _ _
  have hhealth : m.health =
      (resultsFor t (xs₁ ++ xs₂)).foldl (fun h ok => h.probe ok rise fall) .fresh := by
    refine Serving.health_of_run hlt₀ (by rw [hland₀]; exact hm₀) hfresh
      (path_append.mpr ⟨_, hmade₁.path, hsteady.path⟩) ?_ (by rw [hland]; exact hm) hinc
    intro x hx
    rcases List.mem_append.mp hx with hx | hx
    · exact hmade₁.const x hx
    · exact hsteady.const x hx
  have htracks := Health.tracks_foldl hrise hfall (resultsFor t (xs₁ ++ xs₂))
  rw [← hhealth] at htracks
  have hup : m.up = ok := by
    cases ok with
    | true =>
        by_contra hdown
        exact absurd (htracks.down (Bool.eq_false_of_not_eq_true hdown)) (Nat.not_lt.mpr hstreak)
    | false =>
        by_contra hup
        exact absurd (htracks.up (Bool.eq_true_of_not_eq_false hup)) (Nat.not_lt.mpr hstreak)
  refine ⟨hup, ?_⟩
  rintro rfl x p pick hvip hpick hring
  have hreach : w.sys.Reachable :=
    reachable_run (reachable_run h₀.reachable hrun₁) (hrun₂.imp fun _ _ _ hstep => hstep.1)
  have hset := hreach.inv.settled hidle (ready_of_member hreach hidle hm)
  rcases (hreach.fit hidle).eligible_of_pick hset hreach.inv.pinned hpick hring with
    hnone | ⟨v, m', hv, hm', helig, -⟩
  · exact .inl hnone
  · refine .inr fun haddr => ?_
    rw [haddr] at hm' helig
    rw [hvip] at hv
    obtain rfl : m = m' := Option.some.inj ((hm.symm.trans (memberAt_eq hv _)).trans hm')
    simp [eligible, hup] at helig

theorem exists_landing {ws : List MapWrite} {mem : LbState}
    (hpending : w.sys.pending = some (ws, mem)) (henabled : w.sys.lb.healthEnabled = true) :
    ∃ es s', Path (fun e w w' => Step e w w' ∧ w.sys.lb.healthEnabled = true) es w
        { w with sys := s' } ∧
      (∀ e ∈ es, ∃ e', e = .system e') ∧ s'.pending = none ∧ s'.landed = w.sys.landed := by
  induction ws generalizing w with
  | nil =>
      have hstep : Step (.system .finish) w
          { w with sys := { w.sys with lb := mem, pending := none } } :=
        .system .finish w _ ⟨.finish _ mem hpending, .of_ne (by simp)⟩ rfl nofun
      refine ⟨[.system .finish], _, ⟨_, ⟨hstep, henabled⟩, rfl⟩, by simp, rfl, ?_⟩
      simp [System.landed, hpending]
  | cons x ws ih =>
      let s₁ : System := { w.sys with
        ctl := Durable.write w.sys.ctl x
        dp := w.sys.dp.reset x
        pending := some (ws, mem) }
      have hstep : Step (.system .write) w { w with sys := s₁ } :=
        .system .write w _ ⟨.write _ x ws mem hpending, .of_ne (by simp)⟩ rfl nofun
      obtain ⟨es, s', hpath, hsys, hidle, hlanded⟩ :=
        ih (w := { w with sys := s₁ }) rfl henabled
      refine ⟨.system .write :: es, s', ⟨_, ⟨hstep, henabled⟩, hpath⟩, ?_, hidle,
        hlanded.trans ?_⟩
      · intro e he
        rcases List.mem_cons.mp he with rfl | he
        · exact ⟨_, rfl⟩
        · exact hsys e he
      · simp [System.landed, hpending, s₁]

def webConfig : ValidConfig where
  interface := "eth0"
  encapSrc := ⟨0, 0, 16⟩
  vips := [{ spec := { sampleFlow.vip with proto := 6 }, reals := [{ addrBe := 0x1500000a }] }]
  valid := by decide +kernel

def silentKernel : Kernel where
  strerror _ := ""
  socket _ := none
  connect _ := some .einprogress
  connectUs _ := 0
  polls := []
  expiredUs _ := 0

theorem exists_target : ∃ (s : System) (t : HealthTarget) (m : Member), s.Reachable ∧
    s.pending = none ∧ s.lb.healthEnabled = true ∧ t.vip.proto = 6 ∧
    s.lb.healthTargets = [t] ∧ s.lb.memberAt t.vip t.addr = some m ∧
    m.incarnation = t.incarnation ∧ m.health = .fresh := by
  obtain ⟨s, hs, hidle, -, happ⟩ :=
    System.Reachable.first_apply "eth0" webConfig System.answeringEnv_healthy
  have henabled : s.lb.healthEnabled = true := (happ.inForce webConfig.ok).healthEnabled
  obtain ⟨hspecs, hvips⟩ := happ.vips webConfig.ok
  obtain ⟨v, hv, hconf⟩ := hvips _ (List.mem_singleton.mpr rfl)
  have hvc := webConfig.ok.vip_ok _ (List.mem_singleton.mpr rfl)
  have hmem : ∀ a : UInt32, a ∈ v.members ↔ a = 0x1500000a := fun a => by
    rw [hconf.mem_members hvc]
    exact List.mem_singleton
  obtain ⟨m, hm⟩ := OrdMap.mem_iff.mp ((hmem 0x1500000a).mpr rfl)
  have hfresh : m.health = .fresh := by
    have hstep := hconf.member 0x1500000a
    rw [hm] at hstep
    have hweight := hstep.weight_eq
    rw [Option.map_some] at hweight
    rw [← hweight] at hstep
    obtain ⟨m', hm', i, r, hnew⟩ := hstep
    rw [Option.some.inj hm', hnew]
    rfl
  refine ⟨s, ⟨{ sampleFlow.vip with proto := 6 }, 0x1500000a, m.incarnation⟩, m, hs, hidle,
    henabled, rfl, ?_, (memberAt_eq hv _).trans hm, rfl, hfresh⟩
  have hone : ∀ spec ∈ s.lb.vips, spec = { sampleFlow.vip with proto := 6 } := fun spec hspec =>
    List.mem_singleton.mp ((hspecs spec).mp hspec)
  rw [healthTargets, henabled, OrdMap.toList_eq_singleton hv hone]
  simp [OrdMap.toList_eq_singleton hm fun a ha => (hmem a).mp ha]

/-- One silent round takes a real down when `fall` is 1. -/
theorem rounds_decide_silent : ∃ (w₀ w : Watch) (es : List Event) (t : HealthTarget) (m : Member),
    Begins t 1 1 w₀ ∧ Path Step es w₀ w ∧ w.sys.pending = none ∧
      w.sys.lb.memberAt t.vip t.addr = some m ∧ m.up = false := by
  obtain ⟨s, t, m₀, hs, hidle, henabled, htcp, htargets, hm₀, hinc₀, hfresh⟩ := exists_target
  let w₀ : Watch := ⟨s, { rise := 1, fall := 1 }, []⟩
  have hbegins : Begins t 1 1 w₀ :=
    ⟨hs, hidle, ⟨m₀, hm₀, hinc₀, hfresh⟩, fun _ _ _ => List.not_mem_nil, rfl, rfl⟩
  let op : Op := .reportHealth t (HealthChecker.probeOne silentKernel 500 t).result 1 1
  let s₁ : System := { s with
    pending := some ((op.run System.quietEnv s.ctl s.lb).log,
      (op.run System.quietEnv s.ctl s.lb).mem) }
  have hround : Step (.round silentKernel) w₀ { w₀ with todo := [op] } := by
    have hstep := Step.round silentKernel w₀ rfl hidle
    rwa [HealthChecker.round_eq, htargets] at hstep
  have hconsistent := (hs.inv.settled hidle (ready_of_member hs hidle hm₀)).consistent
  obtain ⟨v, hv, hm⟩ := exists_of_memberAt hm₀
  have hok : (op.run System.quietEnv s.ctl s.lb).res = .ok () := by
    have heffect : RingEffect System.quietEnv s.ctl t v m₀ _ _
        (op.run System.quietEnv s.ctl s.lb).res := reportHealth_ringEffect hconsistent hv hm
    cases hres : (op.run System.quietEnv s.ctl s.lb).res with
    | ok u => rfl
    | error err =>
        rw [hres] at heffect
        cases heffect with
        | refused _ _ fault _ _ _ hfault _ => cases hfault
  have hreport : Step (.report System.quietEnv) { w₀ with todo := [op] }
      { w₀ with sys := s₁, todo := [] } := by
    refine .report System.quietEnv _ op [] s₁ rfl ⟨.call _ op s hidle
      System.quietEnv_healthy.arrayOk fun _ => ready_of_member hs hidle hm₀, ?_⟩
    rintro _ _ ⟨⟩
    exact hok
  obtain ⟨es, s', hland, hsys, hidle', hlanded⟩ :=
    exists_landing (w := { w₀ with sys := s₁, todo := [] }) rfl henabled
  have hrun : Path (fun e w w' => Step e w w' ∧ w.sys.lb.healthEnabled = true)
      (.round silentKernel :: .report System.quietEnv :: es) w₀
      { w₀ with sys := s', todo := [] } :=
    ⟨_, ⟨hround, henabled⟩, _, ⟨hreport, henabled⟩, hland⟩
  have hlb : s'.lb = (op.run System.quietEnv s.ctl s.lb).mem := by
    rw [System.landed_idle hidle'] at hlanded
    exact congrArg Serving.lb hlanded
  -- the report keeps the member
  have hrep : Reported t _ 1 1 s.lb s'.lb :=
    hlb ▸ reportHealth_reported System.quietEnv s.ctl s.lb
  have hkept := hrep.mark t.vip t.addr
  rw [hm₀, Option.map_some] at hkept
  obtain ⟨m', hm', -⟩ := Option.map_eq_some_iff.mp hkept
  obtain ⟨m₁, hm₁, hinc, -⟩ := hrep.member hm'
  obtain rfl := Option.some.inj (hm₀.symm.trans hm₁)
  have hnot : ∀ p, Event.setParams p ∉ .round silentKernel :: .report System.quietEnv :: es := by
    intro p hp
    rcases List.mem_cons.mp hp with h | hp
    · cases h
    rcases List.mem_cons.mp hp with h | hp
    · cases h
    · obtain ⟨e', he'⟩ := hsys _ hp
      cases he'
  have hheard : ∀ k, Event.round k ∈ .round silentKernel :: .report System.quietEnv :: es →
      k.heard t = none ∨ k.heard t = some false := by
    intro k hk
    rcases List.mem_cons.mp hk with h | hk
    · cases h
      exact .inr rfl
    rcases List.mem_cons.mp hk with h | hk
    · cases h
    · obtain ⟨e', he'⟩ := hsys _ hk
      cases he'
  have hnil : Path Step [] w₀ w₀ := rfl
  have hdecided := rounds_decide hbegins (by decide) (by decide) htcp
    (fun p hp => absurd hp (hnot p)) hnil hbegins.quiet hrun hheard
    (by
      rw [List.countP_cons_of_pos (by rfl)]
      exact Nat.le_add_left 1 _)
    (fun _ _ _ => List.not_mem_nil) hidle' hm' (hinc.trans hinc₀)
  exact ⟨w₀, _, _, t, m', hbegins, hrun.imp fun _ _ _ hstep => hstep.1, hidle', hm',
    hdecided.1⟩

end Verdict

end Watch

end PacketBalance
