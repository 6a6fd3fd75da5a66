import PacketBalance.Ring.Agreement
/-!
# Slots and turns

The ring is a rearrangement of the ids of its first `M` turns, so a backend's share is the
number of turns it takes.
-/

namespace PacketBalance

open Turns

/-! ## The turns of a round -/

def totalWeight (backends : List Backend) : Nat := (backends.map Backend.weight).sum

def turnsOf (b : Backend) (turns : List (Backend × Nat)) : Nat :=
  turns.countP (·.1.addr = b.addr)

/-- When the turn of a backend on pass `pass` comes in a round, counted from 0: after all
turns of the passes before, and after those of the lower addresses on its own. -/
def turnIndex (backends : List Backend) (b : Backend) (pass : Nat) : Nat :=
  (backends.map fun c => min c.weight pass).sum +
    backends.countP fun c => c.addr < b.addr && pass < c.weight

/-- The backends of the first `passes` passes, in the order of their turns. -/
def passTurns (sorted : List Backend) (passes : Nat) : List Backend :=
  (List.range passes).flatMap fun pass => sorted.filter (pass < ·.weight)

theorem passTurns_succ (sorted : List Backend) (passes : Nat) :
    passTurns sorted (passes + 1) =
      passTurns sorted passes ++ sorted.filter (passes < ·.weight) := by
  simp [passTurns, List.range_succ]

theorem passTurns_of_le {sorted : List Backend} {n m : Nat} (hmax : ∀ b ∈ sorted, b.weight ≤ n)
    (hnm : n ≤ m) : passTurns sorted m = passTurns sorted n := by
  induction m, hnm using Nat.le_induction with
  | base => rfl
  | succ m hnm ih =>
      have hnone : sorted.filter (m < ·.weight) = [] :=
        List.filter_eq_nil_iff.mpr fun b hb => by
          have := hmax b hb
          simp only [decide_eq_true_eq]
          omega
      rw [passTurns_succ, hnone, List.append_nil, ih]

private theorem map_fst_filter_zipIdx (p : Backend → Bool) (sorted : List Backend) :
    (sorted.zipIdx.filter (p ·.1)).map Prod.fst = sorted.filter p := by
  conv_rhs => rw [← List.zipIdx_map_fst 0 sorted, List.filter_map]
  rfl

theorem map_fst_roundTurns (sorted : List Backend) :
    (roundTurns sorted).map Prod.fst =
      passTurns sorted ((sorted.map Backend.weight).foldl max 0) := by
  simp only [roundTurns, passTurns, List.map_flatMap]
  refine List.flatMap_congr fun pass _ => ?_
  exact map_fst_filter_zipIdx (fun b => pass < b.weight) sorted

theorem sum_min_succ (backends : List Backend) (pass : Nat) :
    (backends.map fun b => min b.weight (pass + 1)).sum =
      (backends.map fun b => min b.weight pass).sum + backends.countP (pass < ·.weight) := by
  induction backends with
  | nil => rfl
  | cons b rest ih =>
      simp only [List.map_cons, List.sum_cons, List.countP_cons, decide_eq_true_eq]
      split_ifs <;> omega

theorem sum_min_le (backends : List Backend) (pass : Nat) :
    (backends.map fun b => min b.weight pass).sum ≤ totalWeight backends := by
  unfold totalWeight
  induction backends with
  | nil => exact le_rfl
  | cons b rest ih =>
      simp only [List.map_cons, List.sum_cons]
      omega

theorem length_passTurns (sorted : List Backend) (passes : Nat) :
    (passTurns sorted passes).length = (sorted.map fun b => min b.weight passes).sum := by
  induction passes with
  | zero => simp [passTurns]
  | succ passes ih =>
      rw [passTurns_succ, List.length_append, ih, ← List.countP_eq_length_filter, sum_min_succ]

theorem length_roundTurns (sorted : List Backend) :
    (roundTurns sorted).length = totalWeight sorted := by
  have hmax := (le_foldl_max (sorted.map Backend.weight) 0).2
  have hlength := congrArg List.length (map_fst_roundTurns sorted)
  rw [List.length_map, length_passTurns] at hlength
  rw [hlength, totalWeight]
  congr 1
  apply List.map_congr_left
  intro b hb
  exact Nat.min_eq_left (hmax _ (List.mem_map_of_mem hb))

section Sorted

variable {sorted : List Backend} {b : Backend}

theorem AddrSorted.split (h : AddrSorted sorted) (hb : b ∈ sorted) :
    ∃ lower higher, sorted = lower ++ b :: higher ∧ (∀ c ∈ lower, c.addr < b.addr) ∧
      ∀ c ∈ higher, b.addr < c.addr := by
  obtain ⟨lower, higher, rfl⟩ := List.append_of_mem hb
  obtain ⟨-, hhigher, hlower⟩ := List.pairwise_append.mp h
  exact ⟨lower, higher, rfl, fun c hc => hlower c hc b List.mem_cons_self,
    (List.pairwise_cons.mp hhigher).1⟩

theorem countP_lower {lower higher : List Backend} (hlower : ∀ c ∈ lower, c.addr < b.addr)
    (hhigher : ∀ c ∈ higher, b.addr < c.addr) (p : Backend → Bool) :
    (lower ++ b :: higher).countP (fun c => c.addr < b.addr && p c) = lower.countP p := by
  have hcount : lower.countP (fun c => c.addr < b.addr && p c) = lower.countP p :=
    List.countP_congr fun c hc => by simp [hlower c hc]
  have hnone : higher.countP (fun c => c.addr < b.addr && p c) = 0 := by
    rw [List.countP_eq_zero]
    intro c hc
    simp [UInt32.lt_asymm (hhigher c hc)]
  rw [List.countP_append, List.countP_cons, hcount, hnone]
  simp

theorem countP_addr_eq_zero {l : List Backend} (h : ∀ c ∈ l, c.addr ≠ b.addr) :
    l.countP (·.addr = b.addr) = 0 := by
  rw [List.countP_eq_zero]
  intro c hc
  simp [h c hc]

theorem countP_take_filter {lower higher : List Backend} (hlower : ∀ c ∈ lower, c.addr < b.addr)
    (hhigher : ∀ c ∈ higher, b.addr < c.addr) (p : Backend → Bool) (k : Nat) :
    (((lower ++ b :: higher).filter p).take k).countP (·.addr = b.addr) =
      if p b ∧ lower.countP p < k then 1 else 0 := by
  have hbefore : ((lower.filter p).take k).countP (·.addr = b.addr) = 0 := by
    refine countP_addr_eq_zero fun c hc => UInt32.ne_of_lt (hlower c ?_)
    exact List.mem_of_mem_filter (List.mem_of_mem_take hc)
  have hafter : ∀ j, ((higher.filter p).take j).countP (·.addr = b.addr) = 0 := by
    refine fun j => countP_addr_eq_zero fun c hc => (UInt32.ne_of_lt (hhigher c ?_)).symm
    exact List.mem_of_mem_filter (List.mem_of_mem_take hc)
  rw [List.filter_append, List.take_append, List.countP_append, hbefore, zero_add,
    ← List.countP_eq_length_filter, List.filter_cons]
  by_cases hp : p b = true
  · rw [if_pos hp]
    by_cases hk : lower.countP p < k
    · obtain ⟨j, hj⟩ : ∃ j, k - lower.countP p = j + 1 := ⟨k - lower.countP p - 1, by omega⟩
      rw [hj, List.take_succ_cons, List.countP_cons, hafter]
      simp [hp, hk]
    · rw [show k - lower.countP p = 0 by omega, if_neg fun h => hk h.2]
      rfl
  · rw [if_neg hp, hafter, if_neg fun h => hp h.1]

theorem countP_take_passTurns (h : AddrSorted sorted) (hb : b ∈ sorted) (passes r : Nat) :
    ((passTurns sorted passes).take r).countP (·.addr = b.addr) =
      (List.range (min b.weight passes)).countP (turnIndex sorted b · < r) := by
  obtain ⟨lower, higher, rfl, hlower, hhigher⟩ := h.split hb
  induction passes with
  | zero => simp [passTurns]
  | succ passes ih =>
      rw [passTurns_succ, List.take_append, List.countP_append, ih,
        countP_take_filter hlower hhigher, length_passTurns]
      have hindex : turnIndex (lower ++ b :: higher) b passes =
          ((lower ++ b :: higher).map fun c => min c.weight passes).sum +
            lower.countP (passes < ·.weight) := by
        rw [turnIndex, countP_lower hlower hhigher]
      by_cases hpass : passes < b.weight
      · rw [Nat.min_eq_right (by omega), Nat.min_eq_right (by omega), List.range_succ,
          List.countP_append, List.countP_singleton, hindex]
        simp only [decide_eq_true_eq, hpass, true_and]
        split_ifs <;> omega
      · rw [Nat.min_eq_left (by omega), Nat.min_eq_left (by omega),
          if_neg fun hp => hpass (by simpa using hp.1), Nat.add_zero]

theorem turnsOf_take_roundTurns (h : AddrSorted sorted) (hb : b ∈ sorted) (r : Nat) :
    turnsOf b ((roundTurns sorted).take r) =
      (List.range b.weight).countP (turnIndex sorted b · < r) := by
  have hmax := (le_foldl_max (sorted.map Backend.weight) 0).2 _ (List.mem_map_of_mem hb)
  have hpasses := countP_take_passTurns h hb ((sorted.map Backend.weight).foldl max 0) r
  rw [Nat.min_eq_left hmax, ← map_fst_roundTurns, ← List.map_take, List.countP_map] at hpasses
  exact hpasses

theorem turnIndex_lt (h : AddrSorted sorted) (hb : b ∈ sorted) {pass : Nat}
    (hpass : pass < b.weight) : turnIndex sorted b pass < totalWeight sorted := by
  obtain ⟨lower, higher, rfl, hlower, hhigher⟩ := h.split hb
  have hsucc := sum_min_succ (lower ++ b :: higher) pass
  have hle := sum_min_le (lower ++ b :: higher) (pass + 1)
  rw [List.countP_append, List.countP_cons, if_pos (by simpa using hpass)] at hsucc
  rw [turnIndex, countP_lower hlower hhigher]
  omega

theorem turnsOf_roundTurns (h : AddrSorted sorted) (hb : b ∈ sorted) :
    turnsOf b (roundTurns sorted) = b.weight := by
  have hround := turnsOf_take_roundTurns h hb (roundTurns sorted).length
  rw [List.take_length, length_roundTurns] at hround
  rw [hround, List.countP_eq_length.mpr, List.length_range]
  intro pass hpass
  simpa using turnIndex_lt h hb (List.mem_range.mp hpass)

theorem AddrSorted.nodup (h : AddrSorted sorted) : (sorted.map Backend.addr).Nodup := by
  rw [List.Nodup, List.pairwise_map]
  exact h.imp UInt32.ne_of_lt

theorem countP_realId_eq (h : AddrSorted sorted) (hid : (sorted.map Backend.realId).Nodup)
    (hb : b ∈ sorted) {turns : List (Backend × Nat)} (hturns : ∀ turn ∈ turns, turn.1 ∈ sorted) :
    (turns.map (·.1.realId)).count b.realId = turnsOf b turns := by
  rw [List.count, List.countP_map, turnsOf]
  refine List.countP_congr fun turn hturn => ?_
  have hidInj := List.inj_on_of_nodup_map hid (hturns turn hturn) hb
  have haddrInj := List.inj_on_of_nodup_map h.nodup (hturns turn hturn) hb
  simp only [Function.comp_apply, beq_iff_eq, decide_eq_true_eq]
  constructor
  · intro heq
    rw [hidInj heq]
  · intro heq
    rw [haddrInj heq]

theorem buildMaglev_count {M : Nat} (hM : M = 1 ∨ M.Prime) (h : AddrSorted sorted)
    (hne : sorted ≠ []) (hid : (sorted.map Backend.realId).Nodup)
    (hweight : ∀ b ∈ sorted, 0 < b.weight) :
    ∃ ring, buildMaglev sorted M = some ring ∧
      ∀ b ∈ sorted, ring.count b.realId = turnsOf b (laps (roundTurns sorted) M) := by
  obtain ⟨ring, hring, hperm⟩ := buildMaglev_perm hM hne hweight
  refine ⟨ring, hring, fun b hb => ?_⟩
  rw [hperm.count_eq]
  exact countP_realId_eq h hid hb fun turn hturn => (mem_roundTurns (mem_of_mem_laps hturn)).2

theorem turnsOf_laps (h : AddrSorted sorted) (hb : b ∈ sorted) (M : Nat) :
    turnsOf b (laps (roundTurns sorted) M) = M / totalWeight sorted * b.weight +
      turnsOf b ((roundTurns sorted).take (M % totalWeight sorted)) := by
  rw [turnsOf, countP_laps, length_roundTurns]
  exact congrArg (M / totalWeight sorted * · + _) (turnsOf_roundTurns h hb)

theorem turnsOf_take_le (h : AddrSorted sorted) (hb : b ∈ sorted) (r : Nat) :
    turnsOf b ((roundTurns sorted).take r) ≤ b.weight := by
  rw [← turnsOf_roundTurns h hb]
  exact (List.take_sublist r _).countP_le

/-- With as many slots as backends everybody gets one: the first pass is for all. -/
theorem turnsOf_laps_pos (h : AddrSorted sorted) (hb : b ∈ sorted) (hpos : 0 < b.weight) {M : Nat}
    (hM : sorted.length ≤ M) : 0 < turnsOf b (laps (roundTurns sorted) M) := by
  rw [turnsOf_laps h hb]
  by_cases hround : totalWeight sorted ≤ M
  · have hW : 0 < totalWeight sorted := Nat.zero_lt_of_lt (turnIndex_lt h hb hpos)
    have hq : 0 < M / totalWeight sorted := Nat.div_pos hround hW
    exact Nat.add_pos_left (Nat.mul_pos hq hpos) _
  · rw [Nat.mod_eq_of_lt (by omega), turnsOf_take_roundTurns h hb]
    apply Nat.add_pos_right
    rw [List.countP_pos_iff]
    refine ⟨0, List.mem_range.mpr hpos, ?_⟩
    obtain ⟨lower, higher, rfl, hlower, hhigher⟩ := h.split hb
    have hle := List.countP_le_length (p := fun c : Backend => 0 < c.weight) (l := lower)
    have hzero : ∀ l : List Backend, (l.map fun c => min c.weight 0).sum = 0 := by
      intro l
      simp
    rw [turnIndex, countP_lower hlower hhigher, hzero]
    rw [List.length_append, List.length_cons] at hM
    simp only [decide_eq_true_eq]
    omega

end Sorted

/-! ## Equal weights -/

theorem foldl_max_le {ws : List Nat} {acc w : Nat} (hacc : acc ≤ w) (h : ∀ x ∈ ws, x ≤ w) :
    ws.foldl max acc ≤ w := by
  induction ws generalizing acc with
  | nil => exact hacc
  | cons x ws ih =>
      exact ih (max_le hacc (h x List.mem_cons_self)) fun y hy => h y (List.mem_cons_of_mem _ hy)

theorem roundTurns_of_equal {sorted : List Backend} (hne : sorted ≠ []) {w : Nat}
    (h : ∀ b ∈ sorted, b.weight = w) :
    roundTurns sorted = (List.replicate w sorted.zipIdx).flatten := by
  have hmax : (sorted.map Backend.weight).foldl max 0 = w := by
    apply Nat.le_antisymm
    · apply foldl_max_le (Nat.zero_le w)
      intro x hx
      obtain ⟨b, hb, rfl⟩ := List.mem_map.mp hx
      exact (h b hb).le
    · obtain ⟨b, hb⟩ := List.exists_mem_of_ne_nil sorted hne
      exact h b hb ▸ (le_foldl_max (sorted.map Backend.weight) 0).2 _ (List.mem_map_of_mem hb)
  have hpass : ∀ pass ∈ List.range w,
      sorted.zipIdx.filter (pass < ·.1.weight) = sorted.zipIdx := by
    intro pass hpass
    rw [List.filter_eq_self]
    intro turn hturn
    have hmem : turn.1 ∈ sorted := List.mem_of_getElem? (List.mem_zipIdx_iff_getElem?.mp hturn)
    simpa [h _ hmem] using hpass
  simp only [roundTurns, hmax]
  rw [List.flatMap_congr hpass, List.flatMap_def, List.map_const', List.length_range]

theorem laps_roundTurns_of_equal {sorted : List Backend} (hne : sorted ≠ []) {w : Nat}
    (hw : 0 < w) (h : ∀ b ∈ sorted, b.weight = w) (M : Nat) :
    laps (roundTurns sorted) M = laps sorted.zipIdx M := by
  rw [roundTurns_of_equal hne h, laps_flatten_replicate _ hw]

theorem div_add_one_eq_ceil {M N : Nat} (hN : 0 < N) (hrest : 0 < M % N) :
    M / N + 1 = (M + N - 1) / N := by
  have hdiv := Nat.div_add_mod' M N
  have hlt := Nat.mod_lt M hN
  have hmul : (M / N + 1) * N = M / N * N + N := Nat.succ_mul _ _
  rw [eq_comm, Nat.div_eq_iff hN]
  omega

/-- With equal weights a share is the average, rounded down or up. -/
theorem turnsOf_laps_of_equal {sorted : List Backend} {b : Backend} (h : AddrSorted sorted)
    (hb : b ∈ sorted) (hpos : 0 < b.weight) (hequal : ∀ c ∈ sorted, c.weight = b.weight) (M : Nat) :
    turnsOf b (laps (roundTurns sorted) M) = M / sorted.length ∨
      turnsOf b (laps (roundTurns sorted) M) = (M + sorted.length - 1) / sorted.length := by
  have hone : sorted.zipIdx.countP (·.1.addr = b.addr) = 1 := by
    have hcount := List.count_eq_one_of_mem h.nodup (List.mem_map_of_mem hb)
    rw [← List.zipIdx_map_fst 0 sorted, List.map_map, List.count, List.countP_map] at hcount
    exact hcount
  have hrest : (sorted.zipIdx.take (M % sorted.length)).countP (·.1.addr = b.addr) ≤ 1 :=
    hone ▸ (List.take_sublist _ _).countP_le
  have hturns : turnsOf b (laps (roundTurns sorted) M) = M / sorted.length +
      (sorted.zipIdx.take (M % sorted.length)).countP (·.1.addr = b.addr) := by
    rw [laps_roundTurns_of_equal (List.ne_nil_of_mem hb) hpos hequal, turnsOf, countP_laps, hone,
      Nat.mul_one, List.length_zipIdx]
  rw [hturns]
  by_cases hzero : M % sorted.length = 0
  · rw [hzero, List.take_zero]
    exact .inl rfl
  · rw [← div_add_one_eq_ceil (List.length_pos_of_mem hb) (Nat.pos_of_ne_zero hzero)]
    omega

end PacketBalance
