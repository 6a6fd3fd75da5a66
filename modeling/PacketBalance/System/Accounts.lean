import PacketBalance.DataPlane.Receipts
import PacketBalance.LbState.Cleared
import PacketBalance.MapReader.Counters
import PacketBalance.System.Safety
/-!
# Whose counters they are

The counters are kept by id and outlive both their owners and the daemon.  An account kept beside
the system says what each VIP and each address is owed since it last appeared in the maps, and
`MapReader` reads exactly that, whatever ids were reused on the way and however often the daemon
was killed and started again.
-/

namespace PacketBalance

open WriteLog Std LbState

structure RealCredit where
  packets : Nat
  bytes : Nat
deriving DecidableEq, Repr

def RealCredit.stats (t : RealCredit) : RealStats := ⟨.ofNat t.packets, .ofNat t.bytes⟩

/-- What every VIP and every address is owed. -/
structure Credits where
  vips : VipSpec → Counter → Nat
  reals : UInt32 → RealCredit

namespace Credits

def zero : Credits := ⟨fun _ _ => 0, fun _ => ⟨0, 0⟩⟩

def write (t : Credits) (d : CtlMaps) : MapWrite → Credits
  | .vipUpdate spec _ =>
      if spec ∈ d.vipMap then t else { t with vips := Function.update t.vips spec fun _ => 0 }
  | .realWrite id addr =>
      if d.reals id = addr then t else { t with reals := Function.update t.reals addr ⟨0, 0⟩ }
  | _ => t

def sent (t : Credits) (addr : UInt32) (bytes : Nat) : UInt32 → RealCredit :=
  Function.update t.reals addr ⟨(t.reals addr).packets + 1, (t.reals addr).bytes + bytes⟩

/-- A frame is credited to its VIP, and to the address it is sent to. -/
def packet (t : Credits) (d : CtlMaps) (p : Frame) (r : Result) : Credits :=
  match classify d p with
  | .forward q =>
      { vips := Function.update t.vips q.flow.vip fun k =>
          t.vips q.flow.vip k + receipt q r.action k
        reals := r.sentTo.elim t.reals fun id => t.sent (d.reals id) q.innerLen }
  | _ => t

end Credits

/-! ## The counters in the maps -/

structure Owed (cpus : Finset Nat) (d : CtlMaps) (dp : DpMaps) (t : Credits) : Prop where
  vips : ∀ (spec : VipSpec) (val : VipValue), d.vipMap[spec]? = some val →
    ∀ c ∈ plainCounters, dp.total cpus val.vipId c = .ofNat (t.vips spec c)
  reals : ∀ id, d.reals id ≠ 0 → dp.realTotals cpus id = (t.reals (d.reals id)).stats

/-- The counters nobody owns that were cleared for their next owner. -/
structure Blank (cpus : Finset Nat) (k : Cleared) (d : CtlMaps) (dp : DpMaps) : Prop where
  vips : ∀ id ∈ k.vips, d.Unowned id ∧
    (id < pbMaxVips → ∀ c ∈ plainCounters, dp.total cpus id c = 0)
  reals : ∀ id ∈ k.reals, d.reals id = 0 ∧ dp.realTotals cpus id = ⟨0, 0⟩

section Maps

variable {cpus : Finset Nat} {k : Cleared} {d : CtlMaps} {dp : DpMaps} {t : Credits}

theorem blank_none (cpus : Finset Nat) (d : CtlMaps) (dp : DpMaps) : Blank cpus .none d dp where
  vips id hid := absurd hid (Set.notMem_empty id)
  reals id hid := absurd hid (Set.notMem_empty id)

theorem owed_empty (cpus : Finset Nat) (dp : DpMaps) (t : Credits) :
    Owed cpus CtlMaps.empty dp t where
  vips spec val hval := by simp [CtlMaps.empty] at hval
  reals id hid := by simp [CtlMaps.empty] at hid

theorem total_statsReset (id i : Nat) (c : Counter) :
    (dp.reset (.statsReset id)).total cpus i c = if i = id then 0 else dp.total cpus i c := by
  by_cases hi : i = id <;> simp [DpMaps.reset, DpMaps.total, hi]

theorem realTotals_realStatsReset (id i : Nat) :
    (dp.reset (.realStatsReset id)).realTotals cpus i =
      if i = id then ⟨0, 0⟩ else dp.realTotals cpus i := by
  by_cases hi : i = id <;> simp [DpMaps.reset, DpMaps.realTotals, hi]

theorem Owed.congr {d' : CtlMaps} (h : Owed cpus d dp t) (hvips : d'.vipMap = d.vipMap)
    (hreals : d'.reals = d.reals) : Owed cpus d' dp t where
  vips spec val hval := h.vips spec val (hvips ▸ hval)
  reals id := by rw [hreals]; exact h.reals id

theorem Blank.congr {d' : CtlMaps} (h : Blank cpus k d dp) (hvips : d'.vipMap = d.vipMap)
    (hreals : d'.reals = d.reals) : Blank cpus k d' dp where
  vips id hid := by rw [CtlMaps.Unowned, hvips]; exact h.vips id hid
  reals id hid := by rw [hreals]; exact h.reals id hid

theorem Owed.clearVip {id : Nat} (h : Owed cpus d dp t) (hfree : d.Unowned id) :
    Owed cpus d (dp.reset (.statsReset id)) t where
  vips spec val hval c hc := by
    rw [total_statsReset, if_neg (hfree spec val hval)]
    exact h.vips spec val hval c hc
  reals := h.reals

theorem Blank.clearVip {id : Nat} (h : Blank cpus k d dp) (hfree : d.Unowned id) :
    Blank cpus { k with vips := insert id k.vips } d (dp.reset (.statsReset id)) where
  vips i hi := by
    rcases hi with rfl | hi
    · exact ⟨hfree, fun _ c _ => by rw [total_statsReset, if_pos rfl]⟩
    · refine ⟨(h.vips i hi).1, fun hlt c hc => ?_⟩
      rw [total_statsReset, (h.vips i hi).2 hlt c hc, ite_self]
  reals := h.reals

theorem Owed.clearReal {id : Nat} (h : Owed cpus d dp t) (hfree : d.reals id = 0) :
    Owed cpus d (dp.reset (.realStatsReset id)) t where
  vips := h.vips
  reals i hi := by
    rw [realTotals_realStatsReset, if_neg fun heq : i = id => hi (heq ▸ hfree)]
    exact h.reals i hi

theorem Blank.clearReal {id : Nat} (h : Blank cpus k d dp) (hfree : d.reals id = 0) :
    Blank cpus { k with reals := insert id k.reals } d (dp.reset (.realStatsReset id)) where
  vips := h.vips
  reals i hi := by
    rcases hi with rfl | hi
    · exact ⟨hfree, by rw [realTotals_realStatsReset, if_pos rfl]⟩
    · exact ⟨(h.reals i hi).1, by rw [realTotals_realStatsReset, (h.reals i hi).2, ite_self]⟩

theorem Owed.vipUpdate {spec : VipSpec} {value : VipValue} (h : Owed cpus d dp t)
    (hown : ∀ c ∈ plainCounters, dp.total cpus value.vipId c =
      .ofNat ((t.write d (.vipUpdate spec value)).vips spec c)) :
    Owed cpus (Durable.write d (.vipUpdate spec value)) dp
      (t.write d (.vipUpdate spec value)) where
  vips spec' val hval c hc := by
    by_cases hspec : spec' = spec
    · subst hspec
      obtain rfl : value = val := by simpa using hval
      exact hown c hc
    · have hval' : d.vipMap[spec']? = some val := by
        simpa [OrdMap.getElem?_insert, hspec, Ne.symm hspec] using hval
      have hsame : (t.write d (.vipUpdate spec value)).vips spec' = t.vips spec' := by
        rw [Credits.write]
        split_ifs
        · rfl
        · exact Function.update_of_ne hspec _ _
      rw [hsame]
      exact h.vips spec' val hval' c hc
  reals id hid := by
    have hsame : (t.write d (.vipUpdate spec value)).reals = t.reals := by
      rw [Credits.write]
      split_ifs <;> rfl
    rw [hsame]
    exact h.reals id hid

theorem Blank.vipUpdate {spec : VipSpec} {value : VipValue} (h : Blank cpus k d dp) :
    Blank cpus { k with vips := k.vips \ {value.vipId} }
      (Durable.write d (.vipUpdate spec value)) dp where
  vips id hid := by
    refine ⟨fun spec' val hval => ?_, (h.vips id hid.1).2⟩
    by_cases hspec : spec' = spec
    · subst hspec
      obtain rfl : value = val := by simpa using hval
      exact fun heq => hid.2 heq.symm
    · refine (h.vips id hid.1).1 spec' val ?_
      simpa [OrdMap.getElem?_insert, hspec, Ne.symm hspec] using hval
  reals := h.reals

theorem Owed.realWrite {id : Nat} {addr : UInt32} (h : Owed cpus d dp t)
    (hd : (Durable.write d (.realWrite id addr)).RealsOk)
    (hown : addr ≠ 0 → dp.realTotals cpus id =
      ((t.write d (.realWrite id addr)).reals addr).stats) :
    Owed cpus (Durable.write d (.realWrite id addr)) dp (t.write d (.realWrite id addr)) where
  vips spec val hval c hc := by
    have hsame : (t.write d (.realWrite id addr)).vips = t.vips := by
      rw [Credits.write]
      split_ifs <;> rfl
    rw [hsame]
    exact h.vips spec val hval c hc
  reals i hi := by
    by_cases hid : i = id
    · subst hid
      simp only [write_realWrite, Function.update_self] at hi ⊢
      exact hown hi
    · have hne : d.reals i ≠ addr := fun heq => hid (hd.inj i id hi (by simp [hid, heq]))
      simp only [write_realWrite, Function.update_of_ne hid] at hi ⊢
      have hsame : (t.write d (.realWrite id addr)).reals (d.reals i) = t.reals (d.reals i) := by
        rw [Credits.write]
        split_ifs
        · rfl
        · exact Function.update_of_ne hne _ _
      rw [hsame]
      exact h.reals i hi

theorem Blank.realWrite {id : Nat} {addr : UInt32} (h : Blank cpus k d dp) :
    Blank cpus { k with reals := k.reals \ {id} } (Durable.write d (.realWrite id addr)) dp where
  vips := h.vips
  reals i hi := by
    simp only [write_realWrite, Function.update_of_ne hi.2]
    exact h.reals i hi.1

/-- A fair write leaves everyone their own counters. -/
theorem Owed.write {w : MapWrite} (h : Owed cpus d dp t) (hblank : Blank cpus k d dp)
    (hfair : Fair k d w) (hd : PinnedOk (Durable.write d w)) :
    Owed cpus (Durable.write d w) (dp.reset w) (t.write d w) ∧
      Blank cpus (fairness.note k w) (Durable.write d w) (dp.reset w) := by
  cases hfair with
  | clearVip id hfree => exact ⟨h.clearVip hfree, hblank.clearVip hfree⟩
  | clearReal id hfree => exact ⟨h.clearReal hfree, hblank.clearReal hfree⟩
  | sameVip spec value val hval hid =>
      refine ⟨h.vipUpdate fun c hc => ?_, hblank.vipUpdate⟩
      rw [Credits.write, if_pos (OrdMap.mem_iff.mpr ⟨val, hval⟩), ← hid]
      exact h.vips spec val hval c hc
  | newVip spec value hnew hfree hid =>
      refine ⟨h.vipUpdate fun c hc => ?_, hblank.vipUpdate⟩
      have hlt : value.vipId < pbMaxVips := hd.vip_lt spec value (by simp)
      rw [Credits.write, if_neg hnew, (hblank.vips _ hid).2 hlt c hc]
      simp
  | sameReal id addr haddr =>
      refine ⟨h.realWrite hd.reals fun hne => ?_, hblank.realWrite⟩
      rw [Credits.write, if_pos haddr, ← haddr]
      exact h.reals id (haddr ▸ hne)
  | newReal id addr hfree hid =>
      refine ⟨h.realWrite hd.reals fun hne => ?_, hblank.realWrite⟩
      rw [Credits.write, if_neg fun heq => hne (heq.symm.trans hfree), (hblank.reals id hid).2]
      simp [RealCredit.stats]
  | freeReal id => exact ⟨h.realWrite hd.reals fun hne => absurd rfl hne, hblank.realWrite⟩
  | vipDelete spec =>
      have hentry : ∀ (s : VipSpec) (val : VipValue), (d.vipMap.erase spec)[s]? = some val →
          d.vipMap[s]? = some val := by
        intro s val hval
        rw [OrdMap.getElem?_erase] at hval
        split_ifs at hval
        exact hval
      exact ⟨⟨fun s val hval => h.vips s val (hentry s val hval), h.reals⟩,
        ⟨fun id hid => ⟨fun s val hval => (hblank.vips id hid).1 s val (hentry s val hval),
          (hblank.vips id hid).2⟩, hblank.reals⟩⟩
  | ringSwap id ring => exact ⟨h.congr rfl rfl, hblank.congr rfl rfl⟩
  | ringRemove id => exact ⟨h.congr rfl rfl, hblank.congr rfl rfl⟩
  | neighWrite id mac => exact ⟨h.congr rfl rfl, hblank.congr rfl rfl⟩
  | configWrite config => exact ⟨h.congr rfl rfl, hblank.congr rfl rfl⟩

/-! ## A frame -/

variable {x : PktEnv}

theorem total_count_global (cnt : Counter) (n : Nat) {i : Nat} (hi : i < pbMaxVips) (c : Counter) :
    (dp.count x pbStatsGlobal cnt n).total cpus i c = dp.total cpus i c := by
  have hne : i ≠ pbMaxVips := Nat.ne_of_lt hi
  simp [DpMaps.total, count_stats, pbStatsGlobal, hne]

theorem realTotals_count (idx : Nat) (cnt : Counter) (n i : Nat) :
    (dp.count x idx cnt n).realTotals cpus i = dp.realTotals cpus i := by
  simp [DpMaps.realTotals]

theorem Owed.count_global (h : Owed cpus d dp t) (hd : PinnedOk d) (cnt : Counter) (n : Nat) :
    Owed cpus d (dp.count x pbStatsGlobal cnt n) t where
  vips spec val hval c hc := by
    rw [total_count_global _ _ (hd.vip_lt spec val hval)]
    exact h.vips spec val hval c hc
  reals id hid := by rw [realTotals_count]; exact h.reals id hid

theorem Blank.count_global (h : Blank cpus k d dp) (cnt : Counter) (n : Nat) :
    Blank cpus k d (dp.count x pbStatsGlobal cnt n) where
  vips id hid := by
    refine ⟨(h.vips id hid).1, fun hlt c hc => ?_⟩
    rw [total_count_global _ _ hlt]
    exact (h.vips id hid).2 hlt c hc
  reals id hid := by rw [realTotals_count]; exact h.reals id hid

/-- A frame for a VIP is credited to this VIP and the address it goes to, by the injectivity of
the ids. -/
theorem Owed.forward {p : Frame} {q : Request} (h : Owed cpus d dp t) (hd : PinnedOk d)
    (hcpu : x.cpu ∈ cpus) (hq : classify d p = .forward q) :
    Owed cpus d (forward d x dp p q).2 (t.packet d p (forward d x dp p q).1) where
  vips spec val hval c hc := by
    have hvip := classify_vip hq
    rw [forward_total d dp p hcpu (hd.vip_lt _ _ hvip).le hc, h.vips spec val hval c hc,
      Credits.packet, hq]
    by_cases hspec : spec = q.flow.vip
    · subst hspec
      obtain rfl : q.vip = val := by simpa [hvip] using hval
      simp [UInt64.ofNat_add]
    · have hne : val.vipId ≠ q.vip.vipId := fun heq => hspec (hd.vip_inj _ _ _ _ hval hvip heq)
      simp [hne, hspec]
  reals id hid := by
    rw [forward_realTotals d dp p hcpu, h.reals id hid, Credits.packet, hq]
    cases hsent : (PacketBalance.forward d x dp p q).1.sentTo with
    | none => simp
    | some r =>
        by_cases hr : r = id
        · subst hr
          simp [Credits.sent, RealCredit.stats, UInt64.ofNat_add]
        · have hne : d.reals id ≠ d.reals r := fun heq => hr (hd.reals.inj id r hid heq).symm
          simp [Credits.sent, hr, hne]

theorem Blank.forward {p : Frame} {q : Request} (h : Blank cpus k d dp) (hd : PinnedOk d)
    (hcpu : x.cpu ∈ cpus) (hq : classify d p = .forward q) :
    Blank cpus k d (forward d x dp p q).2 where
  vips id hid := by
    obtain ⟨hfree, hzero⟩ := h.vips id hid
    refine ⟨hfree, fun hlt c hc => ?_⟩
    have hvip := classify_vip hq
    rw [forward_total d dp p hcpu (hd.vip_lt _ _ hvip).le hc, hzero hlt c hc,
      if_neg (hfree _ _ hvip).symm, add_zero]
  reals id hid := by
    obtain ⟨hfree, hzero⟩ := h.reals id hid
    have hnot : (PacketBalance.forward d x dp p q).1.sentTo ≠ some id := fun hsent =>
      (forward_sentTo _ _ _ _ _ hsent).addr hfree
    exact ⟨hfree, by rw [forward_realTotals d dp p hcpu, if_neg hnot, hzero]⟩

theorem Owed.packet (h : Owed cpus d dp t) (hblank : Blank cpus k d dp) (hd : PinnedOk d)
    (hcpu : x.cpu ∈ cpus) (p : Frame) :
    Owed cpus d (xdpPacketbalance d x dp p).2 (t.packet d p (xdpPacketbalance d x dp p).1) ∧
      Blank cpus k d (xdpPacketbalance d x dp p).2 := by
  rw [xdpPacketbalance]
  cases hq : classify d p with
  | forward q => exact ⟨h.forward hd hcpu hq, hblank.forward hd hcpu hq⟩
  | pass =>
      rw [Credits.packet, hq]
      exact ⟨h.count_global hd .pass 1, hblank.count_global .pass 1⟩
  | drop cnt =>
      rw [Credits.packet, hq]
      exact ⟨h.count_global hd cnt 1, hblank.count_global cnt 1⟩

end Maps

/-! ## What the API shows -/

section Views

variable {lb : LbState} {d : CtlMaps} {v : VipView}

theorem LbState.mem_snapshot (h : v ∈ lb.snapshot) :
    ∃ u, lb.vips[v.spec]? = some u ∧ u.id = v.vipId ∧
      ∀ r ∈ v.reals, r.addr ∈ u.members ∧ r.realId = (lb.reals.idOf r.addr).getD 0 := by
  rw [snapshot, List.mem_insertionSort, List.mem_map] at h
  obtain ⟨⟨spec, u⟩, hu, rfl⟩ := h
  refine ⟨u, ExtTreeMap.mem_toList_iff_getElem?_eq_some.mp hu, rfl, fun r hr => ?_⟩
  obtain ⟨⟨a, m⟩, hm, rfl⟩ := List.mem_map.mp hr
  exact ⟨OrdMap.mem_iff.mpr ⟨m, ExtTreeMap.mem_toList_iff_getElem?_eq_some.mp hm⟩, rfl⟩

theorem LbState.Settled.viewed_vip (h : Settled lb d) (hv : v ∈ lb.snapshot) :
    ∃ val, d.vipMap[v.spec]? = some val ∧ val.vipId = v.vipId := by
  obtain ⟨u, hu, hid, -⟩ := LbState.mem_snapshot hv
  exact ⟨_, h.entry_of_vip _ u hu, hid⟩

theorem LbState.Settled.viewed_real (h : Settled lb d) (hv : v ∈ lb.snapshot) {r : RealView}
    (hr : r ∈ v.reals) : d.reals r.realId = r.addr ∧ r.addr ≠ 0 := by
  obtain ⟨u, hu, -, hreals⟩ := LbState.mem_snapshot hv
  obtain ⟨hmem, hid⟩ := hreals r hr
  obtain ⟨e, he⟩ := h.consistent.member_entry hu hmem
  have hidOf : lb.reals.idOf r.addr = some e.id := by rw [RealTable.idOf_eq, he]; rfl
  obtain ⟨hne, haddr⟩ := (h.consistent.table.wf.byAddr_iff _ _).mp hidOf
  rw [hid, hidOf, Option.getD_some, h.consistent.table.mirror.reals]
  exact ⟨haddr, hne⟩

end Views

/-! ## Runs -/

namespace System

def creditsAfter (t : Credits) (s : System) : Event → Credits
  | .write =>
      match s.pending with
      | some (w :: _, _) => t.write s.ctl w
      | _ => t
  | .packet x p => t.packet s.ctl p (xdpPacketbalance s.ctl x s.dp p).1
  | .call .. | .finish | .evict _ | .restart _ => t

/-- A step of the system and its account, on a machine with so many CPUs. -/
def CountedStep (ncpus : Nat) (e : Event) (y y' : System × Credits) : Prop :=
  CalmStep e y.1 y'.1 ∧ (∀ x p, e = .packet x p → x.cpu < ncpus) ∧ y'.2 = creditsAfter y.2 y.1 e

/-- The counters show what is owed, and will once the pending writes have landed. -/
structure Accounted (cpus : Finset Nat) (y : System × Credits) : Prop where
  inv : Inv y.1
  owed : Owed cpus y.1.ctl y.1.dp y.2
  ahead : ∃ k, Blank cpus k y.1.ctl y.1.dp ∧
    ∀ ws mem, y.1.pending = some (ws, mem) → fairness.Accepts k y.1.ctl ws

theorem Accounted.step {ncpus : Nat} {e : Event} {y y' : System × Credits}
    (h : Accounted (Finset.range ncpus) y) (hstep : CountedStep ncpus e y y') :
    Accounted (Finset.range ncpus) y' := by
  obtain ⟨s, t⟩ := y
  obtain ⟨s', t'⟩ := y'
  obtain ⟨hcalm, hcpu, hcredits⟩ := hstep
  dsimp only at hcalm hcredits
  obtain ⟨hinv, howed, k, hblank, hahead⟩ := h
  dsimp only at hinv howed hblank hahead
  have hinv' : Inv s' := hinv.step hcalm
  obtain ⟨hstep, hcalm⟩ := hcalm
  subst hcredits
  cases hstep with
  | call env op _ hidle harray hready =>
      refine ⟨hinv', howed, .none, blank_none _ _ _, ?_⟩
      rintro ws mem hpending
      obtain ⟨rfl, rfl⟩ : _ = ws ∧ _ = mem := by simpa using hpending
      exact Op.run_fair (hinv.usable hidle) (fun hop => hinv.settled hidle (hready hop))
        (hinv.adopted hidle) _
  | write _ w ws mem hpending =>
      obtain ⟨hfair, hrest⟩ := hahead _ _ hpending
      obtain ⟨howed', hblank'⟩ := howed.write hblank hfair hinv'.pinned
      refine ⟨hinv', ?_, _, hblank', ?_⟩
      · simpa only [creditsAfter, hpending] using howed'
      · rintro ws' mem' hpending'
        obtain ⟨rfl, rfl⟩ : ws = ws' ∧ mem = mem' := by simpa using hpending'
        exact hrest
  | finish _ mem hpending => exact ⟨hinv', howed, k, hblank, by simp⟩
  | packet x p _ =>
      obtain ⟨howed', hblank'⟩ :=
        howed.packet hblank hinv.pinned (Finset.mem_range.mpr (hcpu x p rfl)) p
      exact ⟨hinv', howed', k, hblank', hahead⟩
  | evict f _ =>
      exact ⟨hinv', ⟨howed.vips, howed.reals⟩, k, ⟨hblank.vips, hblank.reals⟩, hahead⟩
  | restart interface _ => exact ⟨hinv', howed, k, hblank, by simp⟩

theorem Accounted.run {ncpus : Nat} {interface : String} {es : List Event} {y : System × Credits}
    (hrun : Path (CountedStep ncpus) es (init interface, .zero) y) :
    Accounted (Finset.range ncpus) y :=
  hrun.invariant (I := fun _ y => Accounted (Finset.range ncpus) y)
    ⟨init_inv interface, owed_empty _ _ _, .none, blank_none _ _ _, by simp [System.init]⟩
    fun _ _ _ _ _ _ hI hstep => hI.step hstep

/-- The counters of a VIP are those of the frames for it since it appeared in `vip_map`, and the
counters of an address those of the frames sent to it since it appeared in `reals`, at every
moment of a run.  So are the counters `stats` looks up between two operations. -/
theorem counters_follow_owner (r : MapReader) {interface : String} {es : List Event}
    {s : System} {t : Credits}
    (hrun : Path (CountedStep r.ncpus) es (init interface, .zero) (s, t)) :
    (∀ (spec : VipSpec) (val : VipValue), s.ctl.vipMap[spec]? = some val →
      ∀ c ∈ plainCounters, r.counters s.dp val.vipId c = .ofNat (t.vips spec c)) ∧
    (∀ id, s.ctl.reals id ≠ 0 →
      r.realCounters s.dp id = (t.reals (s.ctl.reals id)).stats) ∧
    (s.pending = none → s.ready = true → ∀ v ∈ s.lb.snapshot,
      (∀ c ∈ plainCounters, r.counters s.dp v.vipId c = .ofNat (t.vips v.spec c)) ∧
      ∀ x ∈ v.reals, r.realCounters s.dp x.realId = (t.reals x.addr).stats) := by
  obtain ⟨hinv, howed, -⟩ := Accounted.run hrun
  have hvips : ∀ (spec : VipSpec) (val : VipValue), s.ctl.vipMap[spec]? = some val →
      ∀ c ∈ plainCounters, r.counters s.dp val.vipId c = .ofNat (t.vips spec c) := by
    intro spec val hval c hc
    rw [r.counters_eq_total _ (hinv.pinned.vip_lt spec val hval).le]
    exact howed.vips spec val hval c hc
  have hreals : ∀ id, s.ctl.reals id ≠ 0 →
      r.realCounters s.dp id = (t.reals (s.ctl.reals id)).stats := by
    intro id hid
    rw [r.realCounters_eq_totals _ (hinv.pinned.reals.range id hid).2]
    exact howed.reals id hid
  refine ⟨hvips, hreals, fun hidle hready v hv => ⟨fun c hc => ?_, fun x hx => ?_⟩⟩
  · obtain ⟨val, hval, hid⟩ := (hinv.settled hidle hready).viewed_vip hv
    rw [← hid]
    exact hvips _ val hval c hc
  · obtain ⟨haddr, hne⟩ := (hinv.settled hidle hready).viewed_real hv hx
    rw [← haddr]
    exact hreals _ (haddr ▸ hne)

theorem exists_counted {ncpus : Nat} {es : List Event} {s s' : System}
    (hrun : Path CalmStep es s s') (hcpu : ∀ x p, .packet x p ∈ es → x.cpu < ncpus) (t : Credits) :
    ∃ t', Path (CountedStep ncpus) es (s, t) (s', t') := by
  induction es generalizing s t with
  | nil =>
      obtain rfl : s' = s := hrun
      exact ⟨t, rfl⟩
  | cons e es ih =>
      obtain ⟨s₁, hstep, hrun⟩ := hrun
      obtain ⟨t', hpath⟩ := ih hrun (fun x p hmem => hcpu x p (List.mem_cons_of_mem e hmem))
        (creditsAfter t s e)
      exact ⟨t', (s₁, creditsAfter t s e),
        ⟨hstep, fun x p he => hcpu x p (he ▸ List.mem_cons_self), rfl⟩, hpath⟩

theorem exists_ncpus (es : List Event) : ∃ n > 0, ∀ x p, Event.packet x p ∈ es → x.cpu < n := by
  induction es with
  | nil => exact ⟨1, Nat.one_pos, fun x p hmem => by simp at hmem⟩
  | cons e es ih =>
      obtain ⟨n, hpos, hn⟩ := ih
      cases e with
      | packet x p =>
          refine ⟨max n (x.cpu + 1), by omega, fun x' p' hmem => ?_⟩
          rcases List.mem_cons.mp hmem with heq | hmem
          · cases heq
            omega
          · exact (hn x' p' hmem).trans_le (le_max_left _ _)
      | _ => exact ⟨n, hpos, fun x' p' hmem => hn x' p' (by simpa using hmem)⟩

/-- A frame for the VIP of `sampleConfig`, after it was configured. -/
theorem counters_follow_owner_sample :
    ∃ (r : MapReader) (interface : String) (es : List Event) (s : System) (t : Credits)
      (val : VipValue),
      Path (CountedStep r.ncpus) es (init interface, .zero) (s, t) ∧
      s.ctl.vipMap[sampleFlow.vip]? = some val ∧ t.vips sampleFlow.vip .packets ≠ 0 ∧
      r.counters s.dp val.vipId .packets = .ofNat (t.vips sampleFlow.vip .packets) := by
  obtain ⟨s, val, ⟨interface, es, hrun⟩, -, -, hval⟩ := sample_applied
  obtain ⟨ncpus, hpos, hcpus⟩ := exists_ncpus es
  obtain ⟨t, ht⟩ := exists_counted hrun hcpus .zero
  have hstep : CountedStep ncpus (.packet sampleCpu sampleFrame) (s, t)
      ({ s with dp := (xdpPacketbalance s.ctl sampleCpu s.dp sampleFrame).2 },
        creditsAfter t s (.packet sampleCpu sampleFrame)) := by
    refine ⟨⟨.packet sampleCpu sampleFrame s, .of_ne (by simp)⟩, ?_, rfl⟩
    rintro x p ⟨⟩
    exact hpos
  have hpath := ht.snoc hstep
  refine ⟨⟨ncpus, 0⟩, interface, _, _, _, val, hpath, hval, ?_,
    (counters_follow_owner ⟨ncpus, 0⟩ hpath).1 _ val hval .packets (by decide)⟩
  simp [creditsAfter, Credits.packet, classify_sampleFrame hval, receipt]

end System

end PacketBalance
