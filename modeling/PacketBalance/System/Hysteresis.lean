import PacketBalance.Lib.Streak
import PacketBalance.System.Probing
import PacketBalance.System.Serving
/-!
# Rise and fall

A member goes down after `fall` failures in a row and comes back after `rise` successes in
a row.  The code counts both, in 32 bits, and goes on counting when the count is of no use;
here the flag is compared with the whole history of a membership's results, while other
operations run in between and may fail.
-/

namespace PacketBalance

open WriteLog Std LbState Streak

/-! ## Counters and history -/

/-- A counter that has not come round compares as the streak does. -/
theorem le_counter_iff {a : UInt32} {n : Nat} (hn : n < 2 ^ 32) :
    a ≤ UInt32.ofNat n ↔ a.toNat ≤ n := by
  rw [UInt32.le_iff_toNat_le, UInt32.toNat_ofNat_of_lt' hn]

/-- A member's health after the results `results`: the counters are the streaks, modulo
`2 ^ 32`, and the one that decides has not come round. -/
structure Health.Tracks (rise fall : UInt32) (results : List Bool) (h : Health) : Prop where
  ok : h.consecutiveOk = UInt32.ofNat (streak true results)
  fail : h.consecutiveFail = UInt32.ofNat (streak false results)
  up : h.up = true → streak false results < fall.toNat
  down : h.up = false → streak true results < rise.toNat
  law : h.up = false ↔ SetSince rise.toNat fall.toNat false true results

section History

variable {rise fall : UInt32} {results : List Bool} {h : Health}

theorem Health.Tracks.fresh (hfall : 1 ≤ fall) :
    Health.Tracks rise fall [] .fresh := by
  have hpos : 0 < fall.toNat := UInt32.le_iff_toNat_le.mp hfall
  refine ⟨rfl, rfl, fun _ => hpos, fun hup => absurd hup (by decide), ?_⟩
  exact iff_of_false (by decide) (not_setSince_nil hpos)

theorem Health.Tracks.failure (ht : Health.Tracks rise fall results h) (hrise : 1 ≤ rise) :
    Health.Tracks rise fall (results ++ [false]) (h.probe false rise fall) := by
  have hpos : 0 < rise.toNat := UInt32.le_iff_toNat_le.mp hrise
  have hlaw : SetSince rise.toNat fall.toNat false true (results ++ [false]) ↔
      SetSince rise.toNat fall.toNat false true results ∨
        fall.toNat ≤ streak false results + 1 := setSince_concat_set hpos Bool.false_ne_true
  have hcount : h.consecutiveFail + 1 = UInt32.ofNat (streak false results + 1) := by
    rw [ht.fail, UInt32.ofNat_add]
    rfl
  -- the count is only looked at while the member is up, and then it is below `fall`
  have hflip : h.up = true →
      (fall ≤ h.consecutiveFail + 1 ↔ fall.toNat ≤ streak false results + 1) := by
    intro hup
    have hlt := ht.up hup
    have hfits := fall.toNat_lt
    rw [hcount, le_counter_iff (by omega)]
  simp only [Health.probe, Bool.false_eq_true, if_false]
  refine ⟨by simp, by simpa using hcount, ?_, by simp [hpos], ?_⟩
  · intro hup
    obtain ⟨hup, hbelow⟩ : h.up = true ∧ ¬fall ≤ h.consecutiveFail + 1 := by simpa using hup
    rw [hflip hup] at hbelow
    simpa using hbelow
  · rw [hlaw, ← ht.law]
    cases hup : h.up with
    | false => simp
    | true => simpa using hflip hup

theorem Health.Tracks.success (ht : Health.Tracks rise fall results h) (hfall : 1 ≤ fall) :
    Health.Tracks rise fall (results ++ [true]) (h.probe true rise fall) := by
  have hpos : 0 < fall.toNat := UInt32.le_iff_toNat_le.mp hfall
  have hlaw : SetSince rise.toNat fall.toNat false true (results ++ [true]) ↔
      SetSince rise.toNat fall.toNat false true results ∧
        streak true results + 1 < rise.toNat := setSince_concat_clear hpos Bool.false_ne_true
  have hcount : h.consecutiveOk + 1 = UInt32.ofNat (streak true results + 1) := by
    rw [ht.ok, UInt32.ofNat_add]
    rfl
  have hflip : h.up = false →
      (rise ≤ h.consecutiveOk + 1 ↔ rise.toNat ≤ streak true results + 1) := by
    intro hup
    have hlt := ht.down hup
    have hfits := rise.toNat_lt
    rw [hcount, le_counter_iff (by omega)]
  simp only [Health.probe, if_true]
  refine ⟨by simpa using hcount, by simp, by simp [hpos], ?_, ?_⟩
  · intro hup
    obtain ⟨hup, hbelow⟩ : h.up = false ∧ ¬rise ≤ h.consecutiveOk + 1 := by simpa using hup
    rw [hflip hup] at hbelow
    simpa using hbelow
  · rw [hlaw, ← ht.law]
    cases hup : h.up with
    | true => simp
    | false => simpa using not_congr (hflip hup)

theorem Health.tracks_foldl (hrise : 1 ≤ rise) (hfall : 1 ≤ fall) (results : List Bool) :
    Health.Tracks rise fall results
      (results.foldl (fun h ok => h.probe ok rise fall) .fresh) := by
  induction results using List.reverseRecOn with
  | nil => exact .fresh hfall
  | append_singleton results ok ih =>
      rw [List.foldl_append]
      cases ok with
      | true => exact ih.success hfall
      | false => exact ih.failure hrise

end History

/-! ## The results of a membership -/

/-- The outcome an operation counts for the membership of a target. -/
def Op.resultFor (t : HealthTarget) : Op → Option Bool
  | .reportHealth t' r _ _ => if t' = t ∧ r.localError = false then some r.ok else none
  | _ => none

/-- The results for a membership in a run, local errors removed, the oldest first. -/
def resultsFor (t : HealthTarget) (xs : List (Env × Op)) : List Bool :=
  xs.filterMap fun x => x.2.resultFor t

/-- All reports for a target in a run have the same parameters. -/
def ConstantFor (t : HealthTarget) (rise fall : UInt32) (xs : List (Env × Op)) : Prop :=
  ∀ x ∈ xs, ∀ r rise' fall', x.2 = .reportHealth t r rise' fall' → rise' = rise ∧ fall' = fall

def Op.healthAfter (v : VipSpec) (a : UInt32) (m : Member) : Op → Health
  | .reportHealth t r rise fall =>
      if Counted t r v a m then m.health.probe r.ok rise fall else m.health
  | _ => m.health

theorem Op.healthAfter_of_not_report {op : Op} (hop : op.isReport = false) (v : VipSpec)
    (a : UInt32) (m : Member) : op.healthAfter v a m = m.health := by
  cases op <;> first | rfl | cases hop

/-! ## The ring and the generation -/

/-- What a report for a member does to its flag and to the ring and the generation of its
VIP.  The health checker has no handler: a ring that is refused ends the daemon. -/
inductive RingEffect (env : Env) (d : CtlMaps) (t : HealthTarget) (v : Vip) (m : Member)
    (d' : CtlMaps) (lb' : LbState) : Except LbError Unit → Prop
  /-- The flag stays, and so do the maps and the generation. -/
  | kept (v' : Vip) (m' : Member) (hv' : lb'.vips[t.vip]? = some v')
      (hm' : v'.members[t.addr]? = some m') (hup : m'.up = m.up)
      (hmaps : d' = d) (hgen : v'.generation = v.generation) :
      RingEffect env d t v m d' lb' (.ok ())
  /-- The flag changes; the ring of the members as they are now is installed. -/
  | rebuilt (v' : Vip) (m' : Member) (slots : List Nat) (hv' : lb'.vips[t.vip]? = some v')
      (hm' : v'.members[t.addr]? = some m') (hup : m'.up = !m.up)
      (hring : buildRing (lb'.backendsOf v') lb'.hash pbRingSize = .ok slots)
      (hmaps : d' = { d with
        rings := Function.update d.rings v.id (some (lb'.ringOf v' slots)) })
      (hgen : v'.generation = v.generation + 1) :
      RingEffect env d t v m d' lb' (.ok ())
  /-- The flag changes, and the kernel refuses the ring. -/
  | refused (v' : Vip) (m' : Member) (fault : RingFault) (hv' : lb'.vips[t.vip]? = some v')
      (hm' : v'.members[t.addr]? = some m') (hup : m'.up = !m.up)
      (hfault : env.ringFault v.id = some fault) (hmaps : d' = d) :
      RingEffect env d t v m d' lb' (.error (.runtime (fault.text v.id)))

section Ring

variable {env : Env} {lb : LbState} {d : CtlMaps} {t : HealthTarget} {r : ProbeResult}
variable {rise fall : UInt32} {v : Vip} {m : Member}

theorem countProbe_up (m : Member) (r : ProbeResult) : (countProbe m r).up = m.up := by
  unfold countProbe
  split_ifs <;> rfl

theorem up_of_flips (h : flips (countProbe m r) r rise fall = true) : r.ok = !m.up := by
  unfold flips at h
  rw [countProbe_up] at h
  cases hok : r.ok with
  | true => simp_all
  | false => simp_all

theorem rebuild_ringEffect (hc : Consistent [] lb d) {v₁ : Vip} {m₁ : Member}
    (hv₁ : lb.vips[t.vip]? = some v₁) (hm₁ : v₁.members[t.addr]? = some m₁)
    (hid : v₁.id = v.id) (hgen : v₁.generation = v.generation) (hup : m₁.up = !m.up) :
    wp (rebuildLocked env t.vip) (fun _ _ => True)
      (fun _ d' lb' => RingEffect env d t v m d' lb' (.ok ()))
      (fun err d' lb' => RingEffect env d t v m d' lb' (.error err)) d lb := by
  have hmark : (lb.markInRing v₁).members[t.addr]? =
      some { m₁ with inRing := lb.eligible t.addr m₁ } := by
    simp [markInRing, hm₁]
  refine wp_mono (rebuild_spec (G := fun _ _ => True) hc hv₁ fun _ _ => trivial)
    (fun _ _ _ => trivial) ?_ ?_
  · rintro - d' lb' ⟨-, -, slots, hslots, rfl, rfl⟩
    -- marking the members does not change what they hand to `build_ring`
    have hback := backendsOf_markInRing lb v₁
    refine .rebuilt _ _ slots ExtTreeMap.getElem?_insert_self hmark hup ?_ ?_
      (congrArg (· + 1) hgen)
    · exact hback ▸ hslots
    · simp only [ringOf, ← hback, hid]
      rfl
  · rintro err d' lb' ⟨-, rfl, rfl, fault, hfault, rfl⟩
    rw [hid] at hfault ⊢
    exact .refused _ _ fault ExtTreeMap.getElem?_insert_self hmark hup hfault rfl

theorem reportHealth_ringEffect (hc : Consistent [] lb d) (hv : lb.vips[t.vip]? = some v)
    (hm : v.members[t.addr]? = some m) :
    RingEffect env d t v m (replay d (reportHealth env t r rise fall d lb).log)
      (reportHealth env t r rise fall d lb).mem (reportHealth env t r rise fall d lb).res := by
  have hspec : wp (reportHealth env t r rise fall) (fun _ _ => True)
      (fun _ d' lb' => RingEffect env d t v m d' lb' (.ok ()))
      (fun err d' lb' => RingEffect env d t v m d' lb' (.error err)) d lb := by
    have hsame : RingEffect env d t v m d lb (.ok ()) := .kept v m hv hm rfl rfl rfl
    simp only [reportHealth, putVip, wp_bind, wp_get, hv, hm, wp_ite, wp_pure, wp_modify]
    refine ⟨fun _ => hsame, fun _ => ⟨fun _ => hsame, fun _ => ⟨fun hflips => ?_, fun _ => ?_⟩⟩⟩
    · have hedit := Edited.member (R := fun _ => True) hc hv hm
        { countProbe m r with up := r.ok, lastChangeMs := env.epochMs } (.inl trivial)
      exact rebuild_ringEffect hedit.consistent ExtTreeMap.getElem?_insert_self
        ExtTreeMap.getElem?_insert_self rfl rfl (up_of_flips hflips)
    · exact .kept _ _ ExtTreeMap.getElem?_insert_self ExtTreeMap.getElem?_insert_self
        (countProbe_up m r) rfl rfl
  cases hres : (reportHealth env t r rise fall d lb).res with
  | ok u => exact hspec.of_ok hres
  | error err => exact hspec.of_error hres

end Ring

/-! ## A membership in a run, and the law -/

namespace Serving

variable {s s' : Serving} {t : HealthTarget} {rise fall : UInt32}

/-- A member after an operation was there before, or is younger than all that were. -/
theorem member_after (s : Serving) (env : Env) (op : Op) :
    s.lb.nextIncarnation ≤ (s.after env op).lb.nextIncarnation ∧
    ∀ v a m', (s.after env op).lb.memberAt v a = some m' →
      (∃ m, s.lb.memberAt v a = some m ∧ m'.incarnation = m.incarnation ∧
        m'.health = op.healthAfter v a m) ∨
      (s.lb.nextIncarnation ≤ m'.incarnation ∧
        m'.incarnation < (s.after env op).lb.nextIncarnation) := by
  cases hop : op.isReport with
  | false =>
      have hev : Evolved op.Adds s.lb (s.after env op).lb := op.evolved hop env s.ctl s.lb
      refine ⟨hev.clock, fun v a m' hm' => ?_⟩
      rcases hev.member v a m' hm' with ⟨m, hm, hmark⟩ | ⟨-, -, -, hlo, hhi⟩
      · refine .inl ⟨m, hm, congrArg Prod.snd hmark, ?_⟩
        rw [Op.healthAfter_of_not_report hop]
        exact congrArg Prod.fst hmark
      · exact .inr ⟨hlo, hhi⟩
  | true =>
      cases op with
      | reportHealth t r rise fall =>
          have hrep : Reported t r rise fall s.lb
              (s.after env (.reportHealth t r rise fall)).lb :=
            reportHealth_reported env s.ctl s.lb
          exact ⟨hrep.clock, fun v a m' hm' => .inl (hrep.member hm')⟩
      | _ => cases hop

/-- Incarnations are handed out in ascending order. -/
def Clocked (s : Serving) : Prop :=
  ∀ v a m, s.lb.memberAt v a = some m → m.incarnation < s.lb.nextIncarnation

theorem Clocked.after (h : Clocked s) (env : Env) (op : Op) : Clocked (s.after env op) := by
  obtain ⟨hclock, hmember⟩ := s.member_after env op
  intro v a m' hm'
  rcases hmember v a m' hm' with ⟨m, hm, hinc, -⟩ | ⟨-, hlt⟩
  · rw [hinc]
    exact (h v a m hm).trans_le hclock
  · exact hlt

theorem Reachable.clocked (h : Reachable s) : Clocked s := by
  obtain ⟨d, interface, env, cfg, xs, -, -, -, hrun⟩ := h
  have hnew : Clocked ⟨d, { interface }⟩ := by
    intro v a m hm
    simp [memberAt, membersAt] at hm
  refine hrun.invariant (I := fun _ => Clocked) (hnew.after env _) ?_
  rintro _ _ _ s _ _ hI ⟨-, rfl⟩
  exact hI.after _ _

theorem healthAfter_eq {op : Op} {m : Member} (hinc : m.incarnation = t.incarnation)
    (hconst : ∀ r rise' fall', op = .reportHealth t r rise' fall' → rise' = rise ∧ fall' = fall) :
    op.healthAfter t.vip t.addr m =
      (op.resultFor t).elim m.health fun ok => m.health.probe ok rise fall := by
  cases op with
  | reportHealth t' r rise' fall' =>
      have hcounted : Counted t' r t.vip t.addr m ↔ t' = t ∧ r.localError = false := by
        constructor
        · rintro ⟨hvip, haddr, hinc', hlocal⟩
          refine ⟨?_, hlocal⟩
          cases t'
          cases t
          simp_all
        · rintro ⟨rfl, hlocal⟩
          exact ⟨rfl, rfl, hinc, hlocal⟩
      simp only [Op.healthAfter, Op.resultFor, hcounted]
      split_ifs with ht
      · obtain ⟨rfl, rfl⟩ := hconst r rise' fall' (by rw [ht.1])
        rfl
      · rfl
  | _ => rfl

/-- A membership's health is what its own results make of a fresh one. -/
theorem health_of_run {s₀ : Serving} {m₀ : Member} {xs : List (Env × Op)}
    (hlt : t.incarnation < s₀.lb.nextIncarnation)
    (hm₀ : s₀.lb.memberAt t.vip t.addr = some m₀) (hfresh : m₀.health = .fresh)
    (hrun : Path Step xs s₀ s) (hconst : ConstantFor t rise fall xs) {m : Member}
    (hm : s.lb.memberAt t.vip t.addr = some m) (hinc : m.incarnation = t.incarnation) :
    m.health = (resultsFor t xs).foldl (fun h ok => h.probe ok rise fall) .fresh := by
  suffices h : t.incarnation < s.lb.nextIncarnation ∧
      ∀ m, s.lb.memberAt t.vip t.addr = some m → m.incarnation = t.incarnation →
        m.health = (resultsFor t xs).foldl (fun h ok => h.probe ok rise fall) .fresh from
    h.2 m hm hinc
  refine hrun.invariant (I := fun done s => t.incarnation < s.lb.nextIncarnation ∧
    ∀ m, s.lb.memberAt t.vip t.addr = some m → m.incarnation = t.incarnation →
      m.health = (resultsFor t done).foldl (fun h ok => h.probe ok rise fall) .fresh) ?_ ?_
  · refine ⟨hlt, fun m hm _ => ?_⟩
    obtain rfl := Option.some.inj (hm₀.symm.trans hm)
    exact hfresh
  · rintro done x rest hxs s s' ⟨hlt, hold⟩ ⟨-, rfl⟩
    obtain ⟨hclock, hmember⟩ := s.member_after x.1 x.2
    refine ⟨hlt.trans_le hclock, fun m' hm' hinc' => ?_⟩
    rcases hmember _ _ m' hm' with ⟨m, hm, hsame, hhealth⟩ | ⟨hyoung, -⟩
    · have hinc : m.incarnation = t.incarnation := hsame.symm.trans hinc'
      have hx : x ∈ xs := by rw [hxs]; exact List.mem_append_right _ List.mem_cons_self
      rw [hhealth, healthAfter_eq hinc (hconst x hx), resultsFor, List.filterMap_append,
        List.foldl_append, hold m hm hinc, ← resultsFor]
      cases hres : x.2.resultFor t <;> simp [hres]
    · -- a member that joined later has another incarnation
      omega

/-- For any run in which the results for a membership that began fresh are counted with
constant parameters: it is down exactly when `fall` failures in a row have occurred and no
`rise` successes in a row since the last time, and the next report installs a ring and
bumps the generation exactly when it changes the flag. -/
theorem health_hysteresis {s₀ : Serving} {m₀ m : Member} {xs : List (Env × Op)}
    (h₀ : Reachable s₀) (hm₀ : s₀.lb.memberAt t.vip t.addr = some m₀)
    (hinc₀ : m₀.incarnation = t.incarnation) (hfresh : m₀.health = .fresh)
    (hrise : 1 ≤ rise) (hfall : 1 ≤ fall)
    (hrun : Path Step xs s₀ s) (hconst : ConstantFor t rise fall xs)
    (hm : s.lb.memberAt t.vip t.addr = some m) (hinc : m.incarnation = t.incarnation) :
    (m.up = false ↔ SetSince rise.toNat fall.toNat false true (resultsFor t xs)) ∧
    ∀ env r, ∃ v, s.lb.vips[t.vip]? = some v ∧
      RingEffect env s.ctl t v m (s.after env (.reportHealth t r rise fall)).ctl
        (s.after env (.reportHealth t r rise fall)).lb
        ((Op.reportHealth t r rise fall).run env s.ctl s.lb).res := by
  have hlt : t.incarnation < s₀.lb.nextIncarnation := hinc₀ ▸ h₀.clocked _ _ _ hm₀
  have hhealth := health_of_run hlt hm₀ hfresh hrun hconst hm hinc
  have hlive := (h₀.run hrun).live
  constructor
  · have htracks := Health.tracks_foldl hrise hfall (resultsFor t xs)
    rw [← hhealth] at htracks
    exact htracks.law
  · intro env r
    obtain ⟨v, hv, hm⟩ := exists_of_memberAt hm
    exact ⟨v, hv, reportHealth_ringEffect hlive.consistent hv hm⟩

theorem fresh_of_started {d : CtlMaps} {interface : String} {env : Env} {cfg : ValidConfig}
    {spec : VipSpec} {a : UInt32} {m : Member}
    (hm : (after ⟨d, { interface }⟩ env (.apply cfg)).lb.memberAt spec a = some m) :
    m.health = .fresh := by
  have hev : Evolved (Op.apply cfg).Adds { interface }
      (after ⟨d, { interface }⟩ env (.apply cfg)).lb := Op.evolved rfl env d { interface }
  rcases hev.member spec a m hm with ⟨m₀, hm₀, -⟩ | ⟨-, -, hfresh, -⟩
  · simp [memberAt, membersAt] at hm₀
  · exact hfresh

theorem exists_fresh_member : ∃ s m, Reachable s ∧
    s.lb.memberAt sampleFlow.vip 0x1500000a = some m ∧ m.health = .fresh := by
  have henv := System.answeringEnv_healthy
  have hpinned := CtlMaps.empty_pinned.on ∅
  have hok := (System.init_fits "eth0" System.sampleConfig).apply_ok henv
    (.restarted "eth0" rfl hpinned) rfl System.sampleConfig.ok
  have hvc : { spec := sampleFlow.vip, reals := [{ addrBe := 0x1500000a }] } ∈
      System.sampleConfig.vips := List.mem_singleton.mpr rfl
  obtain ⟨v, hv, hconf⟩ :=
    ((started_applied hpinned henv.arrayOk hok).vips System.sampleConfig.ok).2 _ hvc
  have hmem : 0x1500000a ∈ v.members :=
    (hconf.mem_members (System.sampleConfig.ok.vip_ok _ hvc)).mpr (by decide)
  obtain ⟨m, hm⟩ := OrdMap.mem_iff.mp hmem
  have hat := (memberAt_eq hv 0x1500000a).trans hm
  exact ⟨_, m, ⟨_, "eth0", _, System.sampleConfig, [], hpinned, henv.arrayOk, hok, rfl⟩, hat,
    fresh_of_started hat⟩

theorem exists_after_report {s : Serving} {t : HealthTarget} {m : Member}
    (hm : s.lb.memberAt t.vip t.addr = some m) (env : Env) (r : ProbeResult)
    (rise fall : UInt32) :
    ∃ m', (s.after env (.reportHealth t r rise fall)).lb.memberAt t.vip t.addr = some m' ∧
      m'.incarnation = m.incarnation := by
  have hrep : Reported t r rise fall s.lb (s.after env (.reportHealth t r rise fall)).lb :=
    reportHealth_reported env s.ctl s.lb
  have hkept := hrep.mark t.vip t.addr
  rw [hm, Option.map_some] at hkept
  obtain ⟨m', hm', -⟩ := Option.map_eq_some_iff.mp hkept
  obtain ⟨m₁, hm₁, hinc, -⟩ := hrep.member hm'
  obtain rfl := Option.some.inj (hm.symm.trans hm₁)
  exact ⟨m', hm', hinc⟩

/-- Two failures, with a local error between them, take the real down when `fall` is 2. -/
theorem health_hysteresis_sample : ∃ s₀ s m t, Reachable s₀ ∧
    Path Step [(System.quietEnv, .reportHealth t {} 1 2),
      (System.quietEnv, .reportHealth t { localError := true } 1 2),
      (System.quietEnv, .reportHealth t {} 1 2)] s₀ s ∧
    s.lb.memberAt sampleFlow.vip 0x1500000a = some m ∧ m.up = false := by
  obtain ⟨s₀, m₀, hreach, hm₀, hfresh⟩ := exists_fresh_member
  let t : HealthTarget := ⟨sampleFlow.vip, 0x1500000a, m₀.incarnation⟩
  have henv := System.quietEnv_healthy.arrayOk
  obtain ⟨m₁, hm₁, hinc₁⟩ := exists_after_report (t := t) hm₀ System.quietEnv {} 1 2
  obtain ⟨m₂, hm₂, hinc₂⟩ := exists_after_report (t := t) hm₁ System.quietEnv
    { localError := true } 1 2
  obtain ⟨m, hm, hinc⟩ := exists_after_report (t := t) hm₂ System.quietEnv {} 1 2
  have hrun : Path Step [(System.quietEnv, .reportHealth t {} 1 2),
      (System.quietEnv, .reportHealth t { localError := true } 1 2),
      (System.quietEnv, .reportHealth t {} 1 2)] s₀ _ :=
    ⟨_, ⟨henv, rfl⟩, _, ⟨henv, rfl⟩, _, ⟨henv, rfl⟩, rfl⟩
  have hconst : ConstantFor t 1 2 [(System.quietEnv, .reportHealth t {} 1 2),
      (System.quietEnv, .reportHealth t { localError := true } 1 2),
      (System.quietEnv, .reportHealth t {} 1 2)] := by
    intro x hx r rise fall hop
    simp only [List.mem_cons, List.not_mem_nil, or_false] at hx
    rcases hx with rfl | rfl | rfl <;> cases hop <;> exact ⟨rfl, rfl⟩
  have hresults : resultsFor t [(System.quietEnv, .reportHealth t {} 1 2),
      (System.quietEnv, .reportHealth t { localError := true } 1 2),
      (System.quietEnv, .reportHealth t {} 1 2)] = [false, false] := by
    simp [resultsFor, Op.resultFor]
  have hlaw := (health_hysteresis hreach hm₀ rfl hfresh (by decide) (by decide) hrun hconst hm
    (hinc.trans (hinc₂.trans hinc₁))).1
  rw [hresults, setSince_iff] at hlaw
  exact ⟨s₀, _, m, t, hreach, hrun, hm, hlaw.mpr ⟨[], by decide, by decide⟩⟩

end Serving

end PacketBalance
