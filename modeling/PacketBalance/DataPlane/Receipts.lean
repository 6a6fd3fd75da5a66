import PacketBalance.DataPlane.Counters
/-!
# What a frame adds to the counters

Four counters of a VIP say what a frame and its verdict alone decide: how many frames there
were, their length, how many opened a connection and how many were sent.  The two counters of a
real say the same about the frames sent there.
-/

namespace PacketBalance

/-- The counters that do not depend on how the real was found. -/
def plainCounters : List Counter := [.packets, .bytes, .syn, .tx]

def receipt (q : Request) (action : Action) : Counter → Nat
  | .packets => 1
  | .bytes => q.innerLen
  | .syn => if q.bareSyn then 1 else 0
  | .tx => action.sent
  | _ => 0

theorem receipt_eq (q : Request) (action : Action) (k : Counter) :
    receipt q action k = receipt q .pass k + if k = .tx then action.sent else 0 := by
  cases k <;> simp [receipt, Action.sent]

def Result.sentTo (r : Result) : Option Nat :=
  match r.action, r.pick with
  | .tx _, some pick => some pick.realId
  | _, _ => none

section Count

variable (dp : DpMaps) (x : PktEnv) {idx : Nat} (cnt : Counter) (n : Nat)

theorem count_stats (hidx : idx ≤ pbMaxVips) (i c : Nat) (k : Counter) :
    (dp.count x idx cnt n).stats i c k =
      dp.stats i c k + if i = idx ∧ c = x.cpu ∧ k = cnt then UInt64.ofNat n else 0 := by
  rw [DpMaps.count, if_pos hidx]
  dsimp only
  split <;> simp

@[simp] theorem count_realStats (idx : Nat) :
    (dp.count x idx cnt n).realStats = dp.realStats := by
  rw [DpMaps.count]
  split <;> rfl

@[simp] theorem countReal_stats (r : Nat) : (dp.countReal x r n).stats = dp.stats := by
  rw [DpMaps.countReal]
  split <;> rfl

end Count

section Frame

variable (d : CtlMaps) (x : PktEnv) (dp : DpMaps) (p : Frame)

theorem pickReal_stats (f : Flow) {vipId : Nat} (hash : UInt32) (useCt bareSyn mayInsert : Bool)
    (hidx : vipId ≤ pbMaxVips) {k : Counter} (hk : k ∈ plainCounters) (i c : Nat) :
    (pickReal d x dp f vipId hash useCt bareSyn mayInsert).2.stats i c k = dp.stats i c k := by
  have hne : k ≠ .ctHit ∧ k ≠ .ctMiss ∧ k ≠ .hash := by
    simp only [plainCounters, List.mem_cons, List.not_mem_nil, or_false] at hk
    rcases hk with rfl | rfl | rfl | rfl <;> decide
  unfold pickReal
  split
  · simp [count_stats, hidx, hne]
  · split
    · simp [count_stats, hidx, hne]
    · have hmiss : ((if bareSyn then dp else dp.count x vipId .ctMiss 1).count x vipId
          .hash 1).stats i c k = dp.stats i c k := by
        split_ifs <;> simp [count_stats, hidx, hne]
      dsimp only
      split
      · exact hmiss
      · split <;> exact hmiss

theorem pickReal_realStats (f : Flow) (vipId : Nat) (hash : UInt32)
    (useCt bareSyn mayInsert : Bool) :
    (pickReal d x dp f vipId hash useCt bareSyn mayInsert).2.realStats = dp.realStats := by
  unfold pickReal
  split
  · simp
  · split
    · simp
    · have hmiss : ((if bareSyn then dp else dp.count x vipId .ctMiss 1).count x vipId
          .hash 1).realStats = dp.realStats := by
        split_ifs <;> simp
      dsimp only
      split
      · exact hmiss
      · split <;> exact hmiss

variable (q : Request)

theorem send_stats (pick : Pick) (hidx : q.vip.vipId ≤ pbMaxVips) {k : Counter}
    (hk : k ∈ plainCounters) (i c : Nat) :
    (send d x dp p q pick).2.stats i c k = dp.stats i c k +
      if i = q.vip.vipId ∧ c = x.cpu ∧ k = .tx then
        UInt64.ofNat (send d x dp p q pick).1.action.sent else 0 := by
  have hne : k ≠ .dropNoReal ∧ k ≠ .dropAdjHead ∧ k ≠ .icmpPmtuFwd := by
    simp only [plainCounters, List.mem_cons, List.not_mem_nil, or_false] at hk
    rcases hk with rfl | rfl | rfl | rfl <;> decide
  by_cases hok : Sendable d pick.realId
  · rw [send_sendable hok]
    split
    · simp [drop, count_stats, hidx, hne, Action.sent]
    · have hcount : (if q.isIcmp then (dp.count x q.vip.vipId .tx 1).count x q.vip.vipId
          .icmpPmtuFwd 1 else dp.count x q.vip.vipId .tx 1).stats i c k =
          (dp.count x q.vip.vipId .tx 1).stats i c k := by
        split_ifs
        · simp [count_stats _ _ .icmpPmtuFwd, hidx, hne]
        · rfl
      simp [hcount, count_stats, hidx, Action.sent]
  · rw [send_not_sendable hok]
    simp [drop, count_stats, hidx, hne, Action.sent]

theorem send_realStats (pick : Pick) (r c : Nat) :
    (send d x dp p q pick).2.realStats r c =
      if (send d x dp p q pick).1.sentTo = some r ∧ c = x.cpu then
        ⟨(dp.realStats r c).packets + 1, (dp.realStats r c).bytes + UInt64.ofNat q.innerLen⟩
      else dp.realStats r c := by
  by_cases hok : Sendable d pick.realId
  · rw [send_sendable hok]
    split
    · simp [drop, Result.sentTo]
    · have hcount : (if q.isIcmp then (dp.count x q.vip.vipId .tx 1).count x q.vip.vipId
          .icmpPmtuFwd 1 else dp.count x q.vip.vipId .tx 1).realStats = dp.realStats := by
        split_ifs <;> simp
      simp only [DpMaps.countReal, if_pos hok.range, Result.sentTo, hcount, Option.some.injEq]
      by_cases hr : r = pick.realId
      · simp [hr]
      · simp [hr, Ne.symm hr]
  · rw [send_not_sendable hok]
    simp [drop, Result.sentTo]

theorem sendable_of_sentTo {pick : Pick} {r : Nat}
    (h : (send d x dp p q pick).1.sentTo = some r) : Sendable d r := by
  by_cases hok : Sendable d pick.realId
  · rw [send_sendable hok] at h
    split at h
    · simp [drop, Result.sentTo] at h
    · obtain rfl : pick.realId = r := by simpa [Result.sentTo] using h
      exact hok
  · rw [send_not_sendable hok] at h
    simp [drop, Result.sentTo] at h

def opening : DpMaps :=
  let dp := dp.count x q.vip.vipId .packets 1
  let dp := dp.count x q.vip.vipId .bytes q.innerLen
  if q.bareSyn then dp.count x q.vip.vipId .syn 1 else dp

theorem opening_stats (hidx : q.vip.vipId ≤ pbMaxVips) {k : Counter} (hk : k ∈ plainCounters)
    (i c : Nat) :
    (opening x dp q).stats i c k = dp.stats i c k +
      if i = q.vip.vipId ∧ c = x.cpu then UInt64.ofNat (receipt q .pass k) else 0 := by
  by_cases hmine : i = q.vip.vipId ∧ c = x.cpu
  · simp only [plainCounters, List.mem_cons, List.not_mem_nil, or_false] at hk
    rcases hk with rfl | rfl | rfl | rfl <;> cases hsyn : q.bareSyn <;>
      simp [opening, count_stats, hidx, hmine, hsyn, receipt, Action.sent]
  · have hother : ∀ P : Prop, ¬ (i = q.vip.vipId ∧ c = x.cpu ∧ P) := fun P h => hmine ⟨h.1, h.2.1⟩
    cases hsyn : q.bareSyn <;> simp [opening, count_stats, hidx, hmine, hsyn, hother]

theorem opening_realStats : (opening x dp q).realStats = dp.realStats := by
  unfold opening
  dsimp only
  split_ifs <;> simp

theorem forward_eq : forward d x dp p q =
    if q.tooLong then drop (opening x dp q) x q.vip.vipId .dropMtu none
    else
      let r := pickReal d x (opening x dp q) q.flow q.vip.vipId q.flow.hash (q.useCt d) q.bareSyn
        q.mayInsert
      send d x r.2 p q r.1 := rfl

theorem forward_stats (hidx : q.vip.vipId ≤ pbMaxVips) {k : Counter} (hk : k ∈ plainCounters)
    (i c : Nat) :
    (forward d x dp p q).2.stats i c k = dp.stats i c k +
      if i = q.vip.vipId ∧ c = x.cpu then
        UInt64.ofNat (receipt q (forward d x dp p q).1.action k) else 0 := by
  rw [forward_eq]
  by_cases hlong : q.tooLong = true
  · have hne : k ≠ .dropMtu := by
      simp only [plainCounters, List.mem_cons, List.not_mem_nil, or_false] at hk
      rcases hk with rfl | rfl | rfl | rfl <;> decide
    rw [if_pos hlong, drop, count_stats _ _ _ _ hidx]
    dsimp only
    rw [if_neg fun h => hne h.2.2, add_zero, opening_stats x dp q hidx hk,
      receipt_eq q (.drop .dropMtu)]
    simp [Action.sent]
  · rw [if_neg hlong]
    dsimp only
    rw [send_stats _ _ _ _ _ _ hidx hk, pickReal_stats _ _ _ _ _ _ _ _ hidx hk,
      opening_stats x dp q hidx hk, add_assoc]
    generalize (send d x _ p q _).1.action = action
    rw [receipt_eq q action]
    by_cases hmine : i = q.vip.vipId ∧ c = x.cpu <;> by_cases htx : k = .tx <;>
      simp [hmine, htx]

theorem forward_realStats (r c : Nat) :
    (forward d x dp p q).2.realStats r c =
      if (forward d x dp p q).1.sentTo = some r ∧ c = x.cpu then
        ⟨(dp.realStats r c).packets + 1, (dp.realStats r c).bytes + UInt64.ofNat q.innerLen⟩
      else dp.realStats r c := by
  rw [forward_eq]
  by_cases hlong : q.tooLong = true
  · simp [if_pos hlong, drop, Result.sentTo, opening_realStats]
  · rw [if_neg hlong]
    dsimp only
    rw [send_realStats, pickReal_realStats, opening_realStats]

theorem forward_sentTo {r : Nat} (h : (forward d x dp p q).1.sentTo = some r) : Sendable d r := by
  rw [forward_eq] at h
  by_cases hlong : q.tooLong = true
  · simp [if_pos hlong, drop, Result.sentTo] at h
  · rw [if_neg hlong] at h
    exact sendable_of_sentTo _ _ _ _ _ h

end Frame

/-! ## Totals -/

section Totals

variable {cpus : Finset Nat} {x : PktEnv}

def DpMaps.realTotals (cpus : Finset Nat) (dp : DpMaps) (realId : Nat) : RealStats :=
  ⟨∑ c ∈ cpus, (dp.realStats realId c).packets, ∑ c ∈ cpus, (dp.realStats realId c).bytes⟩

theorem forward_total (d : CtlMaps) (dp : DpMaps) (p : Frame) {q : Request}
    (hcpu : x.cpu ∈ cpus) (hidx : q.vip.vipId ≤ pbMaxVips) {k : Counter}
    (hk : k ∈ plainCounters) (i : Nat) :
    (forward d x dp p q).2.total cpus i k = dp.total cpus i k +
      if i = q.vip.vipId then UInt64.ofNat (receipt q (forward d x dp p q).1.action k) else 0 := by
  refine sum_bump hcpu fun c => ?_
  rw [forward_stats d x dp p q hidx hk]
  by_cases hi : i = q.vip.vipId <;> by_cases hc : c = x.cpu <;> simp [hi, hc]

theorem forward_realTotals (d : CtlMaps) (dp : DpMaps) (p : Frame) {q : Request}
    (hcpu : x.cpu ∈ cpus) (r : Nat) :
    (forward d x dp p q).2.realTotals cpus r =
      if (forward d x dp p q).1.sentTo = some r then
        ⟨(dp.realTotals cpus r).packets + 1,
          (dp.realTotals cpus r).bytes + UInt64.ofNat q.innerLen⟩
      else dp.realTotals cpus r := by
  by_cases hsent : (forward d x dp p q).1.sentTo = some r
  · rw [if_pos hsent, DpMaps.realTotals, RealStats.mk.injEq]
    constructor
    · refine sum_bump hcpu fun c => ?_
      rw [forward_realStats]
      by_cases hc : c = x.cpu <;> simp [hsent, hc]
    · refine sum_bump hcpu fun c => ?_
      rw [forward_realStats]
      by_cases hc : c = x.cpu <;> simp [hsent, hc]
  · simp [DpMaps.realTotals, forward_realStats, hsent]

end Totals

end PacketBalance
