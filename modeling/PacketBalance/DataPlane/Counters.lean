import PacketBalance.DataPlane.Encap
import Mathlib.Algebra.BigOperators.Group.Finset.Piecewise
import Mathlib.Algebra.Order.BigOperators.Group.Finset
import Mathlib.Data.UInt
import Mathlib.Tactic.Abel
/-!
# Counter conservation

Every frame is charged to the counters of one VIP, or to the global ones, and every
way through the program charges it so that the totals keep adding up.  The counters
are 64 bits wide and per CPU; the ledger below counts the same increments without a
bound, over all CPUs.
-/

namespace PacketBalance

open Finset

/-! ## Totals over the CPUs -/

def DpMaps.total (cpus : Finset Nat) (dp : DpMaps) (idx : Nat) (cnt : Counter) : UInt64 :=
  ∑ c ∈ cpus, dp.stats idx c cnt

def DpMaps.realTotal (cpus : Finset Nat) (dp : DpMaps) (realId : Nat) : UInt64 :=
  ∑ c ∈ cpus, (dp.realStats realId c).packets

/-- From `dp` to `dp'`, the counters `idx` of all CPUs together have grown by `col`, and
the packets of the reals by `real`. -/
structure Charged (cpus : Finset Nat) (dp dp' : DpMaps) (idx : Nat) (col : Counter → Nat)
    (real : Nat → Nat) : Prop where
  stats : ∀ i k, dp'.total cpus i k =
    dp.total cpus i k + UInt64.ofNat (if i = idx then col k else 0)
  reals : ∀ r, dp'.realTotal cpus r = dp.realTotal cpus r + UInt64.ofNat (real r)

section

variable {cpus : Finset Nat} {dp dp₁ dp₂ : DpMaps} {idx : Nat} {col col' : Counter → Nat}
  {real real' : Nat → Nat} {x : PktEnv}

theorem Charged.nothing (hstats : dp₁.stats = dp.stats) (hreals : dp₁.realStats = dp.realStats) :
    Charged cpus dp dp₁ idx 0 0 where
  stats i k := by simp [DpMaps.total, hstats]
  reals r := by simp [DpMaps.realTotal, hreals]

theorem Charged.trans (h : Charged cpus dp dp₁ idx col real)
    (h' : Charged cpus dp₁ dp₂ idx col' real') :
    Charged cpus dp dp₂ idx (col + col') (real + real') where
  stats i k := by
    rw [h'.stats, h.stats, add_assoc, ← UInt64.ofNat_add]
    split <;> rfl
  reals r := by rw [h'.reals, h.reals, add_assoc, ← UInt64.ofNat_add, Pi.add_apply]

theorem sum_bump {f g : Nat → UInt64} {n : UInt64} (hcpu : x.cpu ∈ cpus)
    (h : ∀ c, g c = f c + if c = x.cpu then n else 0) :
    ∑ c ∈ cpus, g c = ∑ c ∈ cpus, f c + n := by
  simp only [h, sum_add_distrib, sum_ite_eq', hcpu, if_true]

theorem Charged.count (hidx : idx ≤ pbMaxVips) (hcpu : x.cpu ∈ cpus) (cnt : Counter)
    (n : Nat) : Charged cpus dp (dp.count x idx cnt n) idx (Pi.single cnt n) 0 where
  stats i k := by
    unfold DpMaps.total
    rw [DpMaps.count, if_pos hidx]
    refine sum_bump hcpu fun c => ?_
    by_cases hi : i = idx <;> by_cases hk : k = cnt <;> by_cases hc : c = x.cpu <;>
      simp [hi, hk, hc]
  reals r := by simp [DpMaps.realTotal, DpMaps.count, apply_ite DpMaps.realStats]

theorem Charged.countReal {r : Nat} (hr : r < pbMaxReals) (hcpu : x.cpu ∈ cpus) (n : Nat) :
    Charged cpus dp (dp.countReal x r n) idx 0 (Pi.single r 1) where
  stats i k := by simp [DpMaps.total, DpMaps.countReal, apply_ite DpMaps.stats]
  reals r' := by
    unfold DpMaps.realTotal
    rw [DpMaps.countReal, if_pos hr]
    refine sum_bump hcpu fun c => ?_
    by_cases hr' : r' = r <;> by_cases hc : c = x.cpu <;> simp [hr', hc]

/-! ## What one packet is charged -/

/-- What `pick_real` charges: a hit, a hash, or a miss and a hash. -/
inductive PickCharge : (Counter → Nat) → Prop
  | hit : PickCharge (Pi.single .ctHit 1)
  | hash : PickCharge (Pi.single .hash 1)
  | miss : PickCharge (Pi.single .ctMiss 1 + Pi.single .hash 1)

theorem pickReal_charged (d : CtlMaps) {dp : DpMaps} (f : Flow) {vipId : Nat} (hash : UInt32)
    (useCt bareSyn mayInsert : Bool) (hidx : vipId ≤ pbMaxVips) (hcpu : x.cpu ∈ cpus) :
    ∃ col, PickCharge col ∧ Charged cpus dp
      (pickReal d x dp f vipId hash useCt bareSyn mayInsert).2 vipId col 0 := by
  have hcharge : ∀ {dp : DpMaps} (cnt : Counter),
      Charged cpus dp (dp.count x vipId cnt 1) vipId (Pi.single cnt 1) 0 :=
    fun cnt => .count hidx hcpu cnt 1
  have htracked : ∀ {dp dp₁ : DpMaps} {col : Counter → Nat} (conntrack : _),
      Charged cpus dp dp₁ vipId col 0 →
      Charged cpus dp { dp₁ with conntrack } vipId col 0 := by
    intro dp dp₁ col conntrack h
    exact ⟨h.stats, h.reals⟩
  unfold pickReal
  cases useCt with
  | false => exact ⟨_, .hash, hcharge .hash⟩
  | true =>
      simp only [Bool.not_true, Bool.false_eq_true, if_false]
      split
      · next ct hct =>
          have hnothing : Charged cpus dp dp vipId 0 0 := .nothing rfl rfl
          have htouch := htracked
            (dp.conntrack.update .zero x.cpu f { ct with lastSeenNs := x.now }) hnothing
          exact ⟨_, .hit, by simpa using htouch.trans (hcharge .ctHit)⟩
      · have hmiss : ∃ col, PickCharge col ∧ Charged cpus dp
            ((if bareSyn then dp else dp.count x vipId .ctMiss 1).count x vipId .hash 1) vipId
            col 0 := by
          cases bareSyn with
          | true => exact ⟨_, .hash, hcharge .hash⟩
          | false => exact ⟨_, .miss, by simpa using (hcharge .ctMiss).trans (hcharge .hash)⟩
        obtain ⟨col, hcol, hcharged⟩ := hmiss
        refine ⟨col, hcol, ?_⟩
        split
        · exact hcharged
        · split
          · exact hcharged
          · exact htracked _ hcharged

/-- What the end of `forward` charges. -/
inductive SendCharge : Action → (Counter → Nat) → (Nat → Nat) → Prop
  | noReal : SendCharge (.drop .dropNoReal) (Pi.single .dropNoReal 1) 0
  | adjHead : SendCharge (.drop .dropAdjHead) (Pi.single .dropAdjHead 1) 0
  | tx (out : Frame) {r : Nat} (hr : r < pbMaxReals) :
      SendCharge (.tx out) (Pi.single .tx 1) (Pi.single r 1)
  | icmp (out : Frame) {r : Nat} (hr : r < pbMaxReals) :
      SendCharge (.tx out) (Pi.single .tx 1 + Pi.single .icmpPmtuFwd 1) (Pi.single r 1)

theorem send_charged (d : CtlMaps) {dp : DpMaps} (p : Frame) {q : Request} (pick : Pick)
    (hidx : q.vip.vipId ≤ pbMaxVips) (hcpu : x.cpu ∈ cpus) :
    ∃ col real, SendCharge (send d x dp p q pick).1.action col real ∧
      Charged cpus dp (send d x dp p q pick).2 q.vip.vipId col real := by
  have hcharge : ∀ {dp : DpMaps} (cnt : Counter),
      Charged cpus dp (dp.count x q.vip.vipId cnt 1) q.vip.vipId (Pi.single cnt 1) 0 :=
    fun cnt => .count hidx hcpu cnt 1
  by_cases hok : Sendable d pick.realId
  · have hreal : ∀ {dp : DpMaps}, Charged cpus dp (dp.countReal x pick.realId q.innerLen)
        q.vip.vipId 0 (Pi.single pick.realId 1) := .countReal hok.range hcpu q.innerLen
    rw [send_sendable hok]
    split
    · exact ⟨_, _, .adjHead, hcharge .dropAdjHead⟩
    · next out _ =>
        by_cases hicmp : q.isIcmp = true
        · simp only [hicmp, if_true]
          exact ⟨_, _, .icmp out hok.range,
            by simpa using ((hcharge .tx).trans (hcharge .icmpPmtuFwd)).trans hreal⟩
        · simp only [hicmp, if_false, Bool.false_eq_true]
          exact ⟨_, _, .tx out hok.range, by simpa using (hcharge .tx).trans hreal⟩
  · rw [send_not_sendable hok]
    exact ⟨_, _, .noReal, hcharge .dropNoReal⟩

theorem single_one_le {ι : Type} [DecidableEq ι] (i j : ι) :
    (Pi.single i 1 : ι → Nat) j ≤ 1 := by
  rw [Pi.single_apply]
  split <;> simp

def Action.passed : Action → Nat
  | .pass => 1
  | _ => 0

def Action.dropped : Action → Nat
  | .drop _ => 1
  | _ => 0

def Action.sent : Action → Nat
  | .tx _ => 1
  | _ => 0

def drops {M : Type} [Add M] (col : Counter → M) : M :=
  col .dropFrag + col .dropOpts + col .dropNoReal + col .dropAdjHead + col .dropMtu +
    col .dropShort + col .dropOther

structure VipCharge (action : Action) (col : Counter → Nat) (real : Nat → Nat) : Prop where
  packets : col .packets = 1
  outcome : col .tx + col .dropNoReal + col .dropMtu + col .dropAdjHead = 1
  origin : col .dropMtu + col .ctHit + col .hash = 1
  missed : col .ctMiss ≤ col .hash
  passed : action.passed = 0
  sent : action.sent = col .tx
  dropped : action.dropped = drops col
  reals : ∑ r ∈ range pbMaxReals, real r = col .tx
  real_le : ∀ r, real r ≤ 1

theorem PickCharge.only (h : PickCharge col) {cnt : Counter}
    (hcnt : cnt ∉ [Counter.ctHit, .ctMiss, .hash]) : col cnt = 0 := by
  simp only [List.mem_cons, List.not_mem_nil, or_false, not_or] at hcnt
  cases h <;> simp [hcnt]

theorem PickCharge.origin (h : PickCharge col) : col .ctHit + col .hash = 1 := by
  cases h <;> simp

theorem PickCharge.missed (h : PickCharge col) : col .ctMiss ≤ col .hash := by
  cases h <;> simp

theorem SendCharge.only {action : Action} (h : SendCharge action col real) {cnt : Counter}
    (hcnt : cnt ∉ [Counter.tx, .dropNoReal, .dropAdjHead, .icmpPmtuFwd]) : col cnt = 0 := by
  simp only [List.mem_cons, List.not_mem_nil, or_false, not_or] at hcnt
  cases h <;> simp [hcnt]

theorem SendCharge.outcome {action : Action} (h : SendCharge action col real) :
    col .tx + col .dropNoReal + col .dropAdjHead = 1 := by
  cases h <;> simp

theorem SendCharge.verdict {action : Action} (h : SendCharge action col real) :
    action.passed = 0 ∧ action.sent = col .tx ∧
      action.dropped = col .dropNoReal + col .dropAdjHead := by
  cases h <;> simp [Action.passed, Action.sent, Action.dropped]

theorem SendCharge.reals {action : Action} (h : SendCharge action col real) :
    ∑ r ∈ range pbMaxReals, real r = col .tx ∧ ∀ r, real r ≤ 1 := by
  cases h with
  | noReal => simp
  | adjHead => simp
  | tx out hr => exact ⟨by simp [hr], single_one_le _⟩
  | icmp out hr => exact ⟨by simp [hr], single_one_le _⟩

theorem VipCharge.of_send {action : Action} {n syn : Nat} {pickCol sendCol : Counter → Nat}
    {real : Nat → Nat} (hpick : PickCharge pickCol) (hsend : SendCharge action sendCol real) :
    VipCharge action (Pi.single .packets 1 + Pi.single .bytes n + Pi.single .syn syn + pickCol +
      sendCol) real := by
  have hpicked : ∀ {cnt}, cnt ∉ [Counter.ctHit, .ctMiss, .hash] → pickCol cnt = 0 := hpick.only
  have hsent : ∀ {cnt}, cnt ∉ [Counter.tx, .dropNoReal, .dropAdjHead, .icmpPmtuFwd] →
      sendCol cnt = 0 := hsend.only
  obtain ⟨hpass, htx, hdrop⟩ := hsend.verdict
  exact {
    packets := by simp [hpicked, hsent]
    outcome := by simpa [hpicked, hsent] using hsend.outcome
    origin := by simpa [hpicked, hsent] using hpick.origin
    missed := by simpa [hsent] using hpick.missed
    passed := hpass
    sent := by simpa [hpicked] using htx
    dropped := by simpa [drops, hpicked, hsent] using hdrop
    reals := by simpa [hpicked] using hsend.reals.1
    real_le := hsend.reals.2 }

theorem VipCharge.of_tooLong (n syn : Nat) :
    VipCharge (.drop .dropMtu) (Pi.single .packets 1 + Pi.single .bytes n + Pi.single .syn syn +
      Pi.single .dropMtu 1) 0 := by
  constructor <;> simp [drops, Action.passed, Action.sent, Action.dropped]

theorem forward_charged (d : CtlMaps) (dp : DpMaps) (p : Frame) {q : Request}
    (hidx : q.vip.vipId ≤ pbMaxVips) (hcpu : x.cpu ∈ cpus) :
    ∃ col real, VipCharge (forward d x dp p q).1.action col real ∧
      Charged cpus dp (forward d x dp p q).2 q.vip.vipId col real := by
  have hcharge : ∀ {dp : DpMaps} (cnt : Counter) (n : Nat),
      Charged cpus dp (dp.count x q.vip.vipId cnt n) q.vip.vipId (Pi.single cnt n) 0 :=
    .count hidx hcpu
  have hfront : Charged cpus dp _ q.vip.vipId _ _ :=
    (hcharge .packets 1).trans (hcharge .bytes q.innerLen)
  have hopening : ∃ syn, Charged cpus dp (if q.bareSyn then
      ((dp.count x q.vip.vipId .packets 1).count x q.vip.vipId .bytes q.innerLen).count x
        q.vip.vipId .syn 1
      else (dp.count x q.vip.vipId .packets 1).count x q.vip.vipId .bytes q.innerLen)
      q.vip.vipId (Pi.single .packets 1 + Pi.single .bytes q.innerLen + Pi.single .syn syn) 0 := by
    cases q.bareSyn with
    | true => exact ⟨1, by simpa using hfront.trans (hcharge .syn 1)⟩
    | false => exact ⟨0, by simpa using hfront⟩
  obtain ⟨syn, hsyn⟩ := hopening
  by_cases hlen : q.tooLong = true
  · simp only [forward, hlen, if_true, drop]
    exact ⟨_, _, .of_tooLong q.innerLen syn, by simpa using hsyn.trans (hcharge .dropMtu 1)⟩
  · simp only [forward, hlen, if_false, Bool.false_eq_true]
    obtain ⟨pickCol, hpick, hpicked⟩ := pickReal_charged d q.flow q.flow.hash (q.useCt d)
      q.bareSyn q.mayInsert hidx hcpu
    obtain ⟨sendCol, real, hsend, hsent⟩ := send_charged d p _ hidx hcpu
    exact ⟨_, real, .of_send hpick hsend, by simpa using (hsyn.trans hpicked).trans hsent⟩

/-- What a frame that reaches no VIP is charged. -/
inductive GlobalCharge : Action → (Counter → Nat) → Prop
  | pass : GlobalCharge .pass (Pi.single .pass 1)
  | drop {cnt : Counter}
      (hcnt : cnt = .dropShort ∨ cnt = .dropOther ∨ cnt = .dropOpts ∨ cnt = .dropFrag) :
      GlobalCharge (.drop cnt) (Pi.single cnt 1)

theorem classifyL4_drop {d : CtlMaps} {p : Frame} {totLen : Nat} {cnt : Counter}
    (h : classifyL4 d p totLen = .drop cnt) : cnt = .dropShort := by
  simp only [classifyL4, handleIcmp, lookupVip] at h
  repeat' split at h
  all_goals cases h
  all_goals rfl

theorem classify_drop {d : CtlMaps} {p : Frame} {cnt : Counter} (h : classify d p = .drop cnt) :
    cnt = .dropShort ∨ cnt = .dropOther ∨ cnt = .dropOpts ∨ cnt = .dropFrag := by
  unfold classify at h
  dsimp only at h
  repeat' split at h
  all_goals first
    | exact .inl (classifyL4_drop h)
    | (cases h; simp)
    | cases h

def VipIdsOk (d : CtlMaps) : Prop :=
  ∀ (spec : VipSpec) (v : VipValue), d.vipMap[spec]? = some v → v.vipId < pbMaxVips

theorem xdp_charged {d : CtlMaps} (dp : DpMaps) (p : Frame) (hd : VipIdsOk d)
    (hcpu : x.cpu ∈ cpus) :
    (∃ col, GlobalCharge (xdpPacketbalance d x dp p).1.action col ∧
      Charged cpus dp (xdpPacketbalance d x dp p).2 pbStatsGlobal col 0) ∨
    ∃ idx < pbMaxVips, ∃ col real, VipCharge (xdpPacketbalance d x dp p).1.action col real ∧
      Charged cpus dp (xdpPacketbalance d x dp p).2 idx col real := by
  rw [xdpPacketbalance]
  cases hq : classify d p with
  | drop cnt =>
      exact .inl ⟨_, .drop (classify_drop hq), .count (Nat.le_refl _) hcpu cnt 1⟩
  | pass => exact .inl ⟨_, .pass, .count (Nat.le_refl _) hcpu .pass 1⟩
  | forward q =>
      have hidx : q.vip.vipId < pbMaxVips := hd _ _ (classify_vip hq)
      exact .inr ⟨q.vip.vipId, hidx, forward_charged d dp p hidx.le hcpu⟩

end

/-! ## The ledger -/

/-- Verdicts and counters of a run, counted in `M`. -/
@[ext] structure Ledger (M : Type) where
  frames : M
  passed : M
  dropped : M
  sent : M
  stats : Nat → Counter → M
  reals : Nat → M

namespace Ledger

variable {M N : Type}

instance [Zero M] : Zero (Ledger M) := ⟨⟨0, 0, 0, 0, 0, 0⟩⟩

instance [Add M] : Add (Ledger M) where
  add b b' := ⟨b.frames + b'.frames, b.passed + b'.passed, b.dropped + b'.dropped,
    b.sent + b'.sent, b.stats + b'.stats, b.reals + b'.reals⟩

section

variable [Add M] (b b' : Ledger M)

@[simp] theorem add_frames : (b + b').frames = b.frames + b'.frames := rfl

@[simp] theorem add_passed : (b + b').passed = b.passed + b'.passed := rfl

@[simp] theorem add_dropped : (b + b').dropped = b.dropped + b'.dropped := rfl

@[simp] theorem add_sent : (b + b').sent = b.sent + b'.sent := rfl

@[simp] theorem add_stats (i : Nat) (k : Counter) :
    (b + b').stats i k = b.stats i k + b'.stats i k := rfl

@[simp] theorem add_reals (r : Nat) : (b + b').reals r = b.reals r + b'.reals r := rfl

end

def map (f : M → N) (b : Ledger M) : Ledger N :=
  ⟨f b.frames, f b.passed, f b.dropped, f b.sent, fun i k => f (b.stats i k),
    fun r => f (b.reals r)⟩

/-- What the counters tell about the frames. -/
structure Balanced [AddCommMonoid M] (b : Ledger M) : Prop where
  frames : b.frames = b.stats pbStatsGlobal .pass + b.stats pbStatsGlobal .dropShort +
    b.stats pbStatsGlobal .dropOther + b.stats pbStatsGlobal .dropOpts +
    b.stats pbStatsGlobal .dropFrag + ∑ i ∈ range pbMaxVips, b.stats i .packets
  outcome : ∀ i < pbMaxVips, b.stats i .packets =
    b.stats i .tx + b.stats i .dropNoReal + b.stats i .dropMtu + b.stats i .dropAdjHead
  origin : ∀ i < pbMaxVips, b.stats i .packets =
    b.stats i .dropMtu + b.stats i .ctHit + b.stats i .hash
  sent : ∑ i ∈ range pbMaxVips, b.stats i .tx = b.sent
  reals : ∑ r ∈ range pbMaxReals, b.reals r = b.sent
  passed : b.passed = b.stats pbStatsGlobal .pass
  dropped : b.dropped = ∑ i ∈ range (pbMaxVips + 1), drops (b.stats i)

section

variable [AddCommMonoid M] [AddCommMonoid N] {b b' : Ledger M}

theorem Balanced.zero : Balanced (0 : Ledger M) := by
  have hzero : ∀ i k, (0 : Ledger M).stats i k = 0 := fun _ _ => rfl
  have hreals : ∀ r, (0 : Ledger M).reals r = 0 := fun _ => rfl
  constructor <;> simp [hzero, hreals, drops] <;> rfl

theorem Balanced.add (h : Balanced b) (h' : Balanced b') : Balanced (b + b') where
  frames := by
    simp only [add_frames, add_stats, sum_add_distrib, h.frames, h'.frames]
    abel
  outcome i hi := by
    simp only [add_stats, h.outcome i hi, h'.outcome i hi]
    abel
  origin i hi := by
    simp only [add_stats, h.origin i hi, h'.origin i hi]
    abel
  sent := by simp only [add_sent, add_stats, sum_add_distrib, h.sent, h'.sent]
  reals := by simp only [add_sent, add_reals, sum_add_distrib, h.reals, h'.reals]
  passed := by simp only [add_passed, add_stats, h.passed, h'.passed]
  dropped := by
    rw [add_dropped, h.dropped, h'.dropped, ← sum_add_distrib]
    refine sum_congr rfl fun i _ => ?_
    simp only [drops, add_stats]
    abel

theorem Balanced.map (h : Balanced b) (f : M →+ N) : Balanced (b.map f) where
  frames := by simp only [Ledger.map, h.frames, map_add, map_sum]
  outcome i hi := by simp only [Ledger.map, h.outcome i hi, map_add]
  origin i hi := by simp only [Ledger.map, h.origin i hi, map_add]
  sent := by simp only [Ledger.map, ← h.sent, map_sum]
  reals := by simp only [Ledger.map, ← h.reals, map_sum]
  passed := by simp only [Ledger.map, h.passed]
  dropped := by simp only [Ledger.map, h.dropped, drops, map_add, map_sum]

end

end Ledger

/-! ## Runs -/

/-- One frame, or any change of the maps other than the counters. -/
inductive TrafficEvent where
  | packet (x : PktEnv) (p : Frame)
  | change (ctl : CtlMaps) (conntrack : PercpuMap Flow CtValue)

/-- The packets run on the given CPUs, and `vip_map` holds valid ids only. -/
def TrafficEvent.Ok (cpus : Finset Nat) : TrafficEvent → Prop
  | .packet x _ => x.cpu ∈ cpus
  | .change ctl _ => VipIdsOk ctl

/-- The maps, and what was counted on the way to them. -/
structure Books where
  plane : Plane
  ledger : Ledger Nat

/-- The entry of one frame: its verdict, and by how much each total has grown. -/
def ledgerEntry (cpus : Finset Nat) (dp : DpMaps) (r : Result × DpMaps) : Ledger Nat where
  frames := 1
  passed := r.1.action.passed
  dropped := r.1.action.dropped
  sent := r.1.action.sent
  stats i k := (r.2.total cpus i k - dp.total cpus i k).toNat
  reals i := (r.2.realTotal cpus i - dp.realTotal cpus i).toNat

def Books.step (cpus : Finset Nat) (b : Books) : TrafficEvent → Books
  | .packet x p =>
      let r := xdpPacketbalance b.plane.ctl x b.plane.dp p
      { plane := { b.plane with dp := r.2 }
        ledger := b.ledger + ledgerEntry cpus b.plane.dp r }
  | .change ctl conntrack => { b with plane := ⟨ctl, { b.plane.dp with conntrack }⟩ }

def Books.run (cpus : Finset Nat) (s : Plane) (es : List TrafficEvent) : Books :=
  es.foldl (Books.step cpus) ⟨s, 0⟩

def Books.counters (cpus : Finset Nat) (b : Books) : Ledger UInt64 where
  frames := .ofNat b.ledger.frames
  passed := .ofNat b.ledger.passed
  dropped := .ofNat b.ledger.dropped
  sent := .ofNat b.ledger.sent
  stats := b.plane.dp.total cpus
  reals := b.plane.dp.realTotal cpus

structure Books.Ok (cpus : Finset Nat) (b : Books) : Prop where
  vips : VipIdsOk b.plane.ctl
  balanced : b.ledger.Balanced
  stats : ∀ i k, b.plane.dp.total cpus i k = .ofNat (b.ledger.stats i k)
  reals : ∀ r, b.plane.dp.realTotal cpus r = .ofNat (b.ledger.reals r)
  missed : ∀ i < pbMaxVips, b.ledger.stats i .ctMiss ≤ b.ledger.stats i .hash

section

variable {cpus : Finset Nat} {dp dp' : DpMaps} {idx : Nat} {col : Counter → Nat}
  {real : Nat → Nat} {r : Result × DpMaps}

theorem Charged.entry_stats (h : Charged cpus dp r.2 idx col real) (i : Nat) {k : Counter}
    (hk : i = idx → col k ≤ 1) :
    (ledgerEntry cpus dp r).stats i k = if i = idx then col k else 0 := by
  have hgrown : r.2.total cpus i k - dp.total cpus i k =
      UInt64.ofNat (if i = idx then col k else 0) := by
    rw [h.stats i k, add_sub_cancel_left]
  change (r.2.total cpus i k - dp.total cpus i k).toNat = _
  rw [hgrown, UInt64.toNat_ofNat']
  split
  · have := hk ‹_›
    omega
  · rfl

theorem Charged.entry_reals (h : Charged cpus dp r.2 idx col real) {i : Nat} (hi : real i ≤ 1) :
    (ledgerEntry cpus dp r).reals i = real i := by
  have hgrown : r.2.realTotal cpus i - dp.realTotal cpus i = UInt64.ofNat (real i) := by
    rw [h.reals i, add_sub_cancel_left]
  change (r.2.realTotal cpus i - dp.realTotal cpus i).toNat = _
  rw [hgrown, UInt64.toNat_ofNat']
  omega

theorem Charged.entry_drops (h : Charged cpus dp r.2 idx col real) (hdrops : drops col ≤ 1)
    (i : Nat) :
    drops ((ledgerEntry cpus dp r).stats i) = if i = idx then drops col else 0 := by
  have hle : ∀ k, k = .dropFrag ∨ k = .dropOpts ∨ k = .dropNoReal ∨ k = .dropAdjHead ∨
      k = .dropMtu ∨ k = .dropShort ∨ k = .dropOther → col k ≤ 1 := by
    unfold drops at hdrops
    rintro k (rfl | rfl | rfl | rfl | rfl | rfl | rfl) <;> omega
  unfold drops
  rw [h.entry_stats i fun _ => hle .dropFrag (by simp),
    h.entry_stats i fun _ => hle .dropOpts (by simp),
    h.entry_stats i fun _ => hle .dropNoReal (by simp),
    h.entry_stats i fun _ => hle .dropAdjHead (by simp),
    h.entry_stats i fun _ => hle .dropMtu (by simp),
    h.entry_stats i fun _ => hle .dropShort (by simp),
    h.entry_stats i fun _ => hle .dropOther (by simp)]
  split <;> rfl

theorem Action.dropped_le (action : Action) : action.dropped ≤ 1 := by
  cases action <;> simp [Action.dropped]

theorem VipCharge.entry (hcol : VipCharge r.1.action col real)
    (h : Charged cpus dp r.2 idx col real) (hidx : idx < pbMaxVips) :
    (ledgerEntry cpus dp r).Balanced ∧ ∀ i,
      (ledgerEntry cpus dp r).stats i .ctMiss ≤ (ledgerEntry cpus dp r).stats i .hash := by
  have hne : pbStatsGlobal ≠ idx := Nat.ne_of_gt hidx
  obtain ⟨hpackets, houtcome, horigin, hmissed, hpassed, hsent, hdropped, hreals, hreal⟩ := hcol
  have hglobal : ∀ k, (ledgerEntry cpus dp r).stats pbStatsGlobal k = 0 := fun k => by
    rw [h.entry_stats pbStatsGlobal fun heq => absurd heq hne, if_neg hne]
  have hstats : ∀ i k, col k ≤ 1 →
      (ledgerEntry cpus dp r).stats i k = if i = idx then col k else 0 :=
    fun i k hk => h.entry_stats i fun _ => hk
  have hsum : ∀ k, col k ≤ 1 →
      ∑ i ∈ range pbMaxVips, (ledgerEntry cpus dp r).stats i k = col k := by
    intro k hk
    simp only [hstats _ k hk, sum_ite_eq', mem_range, hidx, if_true]
  have hdrops : drops col ≤ 1 := hdropped ▸ Action.dropped_le _
  refine ⟨⟨?_, ?_, ?_, ?_, ?_, ?_, ?_⟩, ?_⟩
  · rw [hglobal, hglobal, hglobal, hglobal, hglobal, hsum .packets (by omega), hpackets]
    rfl
  · intro i _
    rw [hstats i .packets (by omega), hstats i .tx (by omega), hstats i .dropNoReal (by omega),
      hstats i .dropMtu (by omega), hstats i .dropAdjHead (by omega)]
    split <;> omega
  · intro i _
    rw [hstats i .packets (by omega), hstats i .dropMtu (by omega), hstats i .ctHit (by omega),
      hstats i .hash (by omega)]
    split <;> omega
  · exact (hsum .tx (by omega)).trans hsent.symm
  · rw [sum_congr rfl fun i _ => h.entry_reals (hreal i)]
    exact hreals.trans hsent.symm
  · exact hpassed.trans (hglobal .pass).symm
  · simp only [h.entry_drops hdrops, sum_ite_eq', mem_range, Nat.lt_succ_of_lt hidx, if_true]
    exact hdropped
  · intro i
    rw [hstats i .ctMiss (by omega), hstats i .hash (by omega)]
    split <;> omega

theorem GlobalCharge.adds_up {action : Action} (h : GlobalCharge action col) :
    (∀ k, col k ≤ 1) ∧ action.sent = 0 ∧ action.passed = col .pass ∧
      action.dropped = drops col ∧ col .ctMiss = 0 ∧
      1 = col .pass + col .dropShort + col .dropOther + col .dropOpts + col .dropFrag := by
  cases h with
  | pass => simp [single_one_le, drops, Action.sent, Action.passed, Action.dropped]
  | drop hcnt =>
      rcases hcnt with rfl | rfl | rfl | rfl <;>
        simp [single_one_le, drops, Action.sent, Action.passed, Action.dropped]

theorem GlobalCharge.entry (hcol : GlobalCharge r.1.action col)
    (h : Charged cpus dp r.2 pbStatsGlobal col 0) :
    (ledgerEntry cpus dp r).Balanced ∧ ∀ i,
      (ledgerEntry cpus dp r).stats i .ctMiss ≤ (ledgerEntry cpus dp r).stats i .hash := by
  obtain ⟨hle, hsent, hpassed, hdropped, hmiss, hone⟩ := hcol.adds_up
  have hstats : ∀ i k,
      (ledgerEntry cpus dp r).stats i k = if i = pbStatsGlobal then col k else 0 :=
    fun i k => h.entry_stats i fun _ => hle k
  have hvip : ∀ i < pbMaxVips, ∀ k, (ledgerEntry cpus dp r).stats i k = 0 := by
    intro i hi k
    have hne : i ≠ pbStatsGlobal := Nat.ne_of_lt hi
    rw [hstats, if_neg hne]
  have hsum : ∀ k, ∑ i ∈ range pbMaxVips, (ledgerEntry cpus dp r).stats i k = 0 :=
    fun k => sum_eq_zero fun i hi => hvip i (mem_range.mp hi) k
  have hdrops : drops col ≤ 1 := hdropped ▸ Action.dropped_le _
  refine ⟨⟨?_, ?_, ?_, ?_, ?_, ?_, ?_⟩, ?_⟩
  · simp only [hstats pbStatsGlobal, if_true, hsum, Nat.add_zero]
    exact hone
  · intro i hi
    simp only [hvip i hi]
  · intro i hi
    simp only [hvip i hi]
  · exact (hsum .tx).trans hsent.symm
  · rw [sum_congr rfl fun i _ => h.entry_reals (by simp)]
    exact sum_const_zero.trans hsent.symm
  · rw [hstats, if_pos rfl]
    exact hpassed
  · have hlast : pbStatsGlobal < pbMaxVips + 1 := Nat.lt_succ_self _
    simp only [h.entry_drops hdrops, sum_ite_eq', mem_range, hlast, if_true]
    exact hdropped
  · intro i
    rw [hstats, hstats, hmiss]
    split <;> omega

theorem xdp_entry {d : CtlMaps} {x : PktEnv} (hd : VipIdsOk d) (hcpu : x.cpu ∈ cpus)
    (dp : DpMaps) (p : Frame) :
    (ledgerEntry cpus dp (xdpPacketbalance d x dp p)).Balanced ∧ ∀ i,
      (ledgerEntry cpus dp (xdpPacketbalance d x dp p)).stats i .ctMiss ≤
        (ledgerEntry cpus dp (xdpPacketbalance d x dp p)).stats i .hash := by
  rcases xdp_charged dp p hd hcpu with ⟨col, hcol, h⟩ | ⟨idx, hidx, col, real, hcol, h⟩
  · exact hcol.entry h
  · exact hcol.entry h hidx

theorem Books.Ok.step {b : Books} (h : b.Ok cpus) {e : TrafficEvent} (he : e.Ok cpus) :
    (b.step cpus e).Ok cpus := by
  cases e with
  | change ctl conntrack => exact ⟨he, h.balanced, h.stats, h.reals, h.missed⟩
  | packet x p =>
      obtain ⟨hbalanced, hmissed⟩ := xdp_entry h.vips he b.plane.dp p
      refine ⟨h.vips, h.balanced.add hbalanced, fun i k => ?_, fun r => ?_, fun i hi => ?_⟩
      · simp only [Books.step, Ledger.add_stats, UInt64.ofNat_add, ← h.stats, ledgerEntry,
          UInt64.ofNat_toNat, add_sub_cancel]
      · simp only [Books.step, Ledger.add_reals, UInt64.ofNat_add, ← h.reals, ledgerEntry,
          UInt64.ofNat_toNat, add_sub_cancel]
      · exact Nat.add_le_add (h.missed i hi) (hmissed i)

theorem Books.Ok.run {es : List TrafficEvent} (hes : ∀ e ∈ es, e.Ok cpus) {b : Books}
    (h : b.Ok cpus) : (es.foldl (Books.step cpus) b).Ok cpus := by
  induction es generalizing b with
  | nil => exact h
  | cons e es ih => exact ih (fun e he => hes e (by simp [he])) (h.step (hes e (by simp)))

def wrap : Nat →+ UInt64 := ⟨⟨UInt64.ofNat, rfl⟩, UInt64.ofNat_add⟩

theorem Books.Ok.counters_eq {b : Books} (h : b.Ok cpus) :
    b.counters cpus = b.ledger.map wrap := by
  ext
  · rfl
  · rfl
  · rfl
  · rfl
  · exact congrArg _ (h.stats _ _)
  · exact congrArg _ (h.reals _)

end

theorem Ledger.Balanced.hash_le {b : Ledger Nat} (h : b.Balanced) {i : Nat}
    (hi : i < pbMaxVips) : b.stats i .hash ≤ b.frames := by
  have hsum : b.stats i .packets ≤ ∑ i ∈ range pbMaxVips, b.stats i .packets :=
    single_le_sum (f := fun i => b.stats i .packets) (fun _ _ => Nat.zero_le _)
      (mem_range.mpr hi)
  have hframes := h.frames
  have horigin := h.origin i hi
  omega

/-- From zeroed counters, over any frames on any CPUs and any changes of the other maps,
the totals balance modulo `2^64`.  As true counts, misses are never more than hashes;
the counters show that until `2^64` frames have come. -/
theorem counters_conserved {cpus : Finset Nat} {s : Plane} {es : List TrafficEvent}
    (hstats : ∀ i c k, s.dp.stats i c k = 0) (hreals : ∀ i c, (s.dp.realStats i c).packets = 0)
    (hvips : VipIdsOk s.ctl) (hes : ∀ e ∈ es, e.Ok cpus) :
    let b := Books.run cpus s es
    (b.counters cpus).Balanced ∧
    (∀ i < pbMaxVips, b.ledger.stats i .ctMiss ≤ b.ledger.stats i .hash ∧
      b.plane.dp.total cpus i .ctMiss = .ofNat (b.ledger.stats i .ctMiss) ∧
      b.plane.dp.total cpus i .hash = .ofNat (b.ledger.stats i .hash)) ∧
    (b.ledger.frames < 2 ^ 64 → ∀ i < pbMaxVips,
      b.plane.dp.total cpus i .ctMiss ≤ b.plane.dp.total cpus i .hash) := by
  intro b
  have hstart : Books.Ok cpus ⟨s, 0⟩ := by
    refine ⟨hvips, .zero, fun i k => ?_, fun r => ?_, fun i _ => Nat.le_refl _⟩
    · exact sum_eq_zero fun c _ => hstats i c k
    · exact sum_eq_zero fun c _ => hreals r c
  have hok : b.Ok cpus := hstart.run hes
  refine ⟨hok.counters_eq ▸ hok.balanced.map wrap,
    fun i hi => ⟨hok.missed i hi, hok.stats i .ctMiss, hok.stats i .hash⟩, ?_⟩
  intro hframes i hi
  have hhash := hok.balanced.hash_le hi
  have hmissed := hok.missed i hi
  rw [hok.stats, hok.stats, UInt64.le_iff_toNat_le, UInt64.toNat_ofNat', UInt64.toNat_ofNat',
    Nat.mod_eq_of_lt (by omega), Nat.mod_eq_of_lt (by omega)]
  exact hmissed

/-- A packet on each of two CPUs, and one for which there is no headroom. -/
theorem counters_conserved_sample :
    ((Books.run {0, 1} samplePlane [.packet sampleCpu sampleFrame,
        .packet { sampleCpu with cpu := 1 } sampleFrame,
        .packet { sampleCpu with cpu := 1, headOk := false } sampleFrame]).counters
      {0, 1}).Balanced := by
  have hvips : VipIdsOk samplePlane.ctl := by
    intro spec v hv
    have hmap : samplePlane.ctl.vipMap = Std.ExtTreeMap.empty.insert sampleFlow.vip ⟨0, 0⟩ := rfl
    rw [hmap, Std.ExtTreeMap.getElem?_insert] at hv
    split at hv
    · obtain rfl := Option.some.inj hv
      decide
    · simp at hv
  refine (counters_conserved (fun _ _ _ => rfl) (fun _ _ => rfl) hvips ?_).1
  simp [TrafficEvent.Ok, sampleCpu]

end PacketBalance
