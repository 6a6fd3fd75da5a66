import PacketBalance.Maglev
import PacketBalance.Lib.ModularWalk
import PacketBalance.Lib.Turns
import Mathlib.Data.List.GetD
import Mathlib.Data.Nat.Prime.Basic
import Mathlib.Tactic.NormNum.Prime
/-!
# The Maglev fill ends with every slot claimed

A backend's skip is a unit modulo the prime table size, so its walk passes every
slot within one lap and finds an unclaimed one while any is left.  Every turn claims
one slot that nobody had, and the fill ends after `M` turns, in the middle of a pass if
it has to.  So the ring is a rearrangement of the ids of its first `M` turns, whatever
the permutations are.
-/

namespace PacketBalance

open Turns

/-! ## The walk of one backend -/

/-- The step is a unit modulo a prime, and modulo 1 everything is. -/
theorem backendSkip_coprime {M : Nat} (hM : M = 1 ∨ M.Prime) (b : Backend) :
    Nat.Coprime M (backendSkip M b) := by
  rcases hM with rfl | hM
  · exact Nat.coprime_one_left _
  · have htwo := hM.two_le
    have hlt : (pbBackendHashSkip b.addr).toNat % (M - 1) < M - 1 :=
      Nat.mod_lt _ (by omega)
    have hskip : backendSkip M b = (pbBackendHashSkip b.addr).toNat % (M - 1) + 1 :=
      if_pos (by omega)
    rw [hskip]
    exact Nat.coprime_of_lt_prime (by omega) (by omega) hM

theorem backendOffset_lt {M : Nat} (hM : 0 < M) (b : Backend) :
    backendOffset M b < M := Nat.mod_lt _ hM

theorem probe_eq_some {M skip : Nat} {entry : List Nat} {fuel c j : Nat} (hc : c < M)
    (hj : j < fuel)
    (hfree : entry.getD (ModularWalk.position M c skip j) pbRealNone = pbRealNone) :
    ∃ slot < M, probe M entry skip fuel c = some slot ∧
      entry.getD slot pbRealNone = pbRealNone := by
  induction fuel generalizing c j with
  | zero => omega
  | succ fuel ih =>
      by_cases hhere : entry.getD c pbRealNone = pbRealNone
      · exact ⟨c, hc, if_pos hhere, hhere⟩
      · cases j with
        | zero => exact absurd (ModularWalk.position_zero skip hc ▸ hfree) hhere
        | succ j =>
            rw [← ModularWalk.position_succ] at hfree
            obtain ⟨slot, hslot, hprobe, hnone⟩ :=
              ih (Nat.mod_lt _ (by omega)) (by omega) hfree
            exact ⟨slot, hslot, by rw [probe, if_neg hhere, hprobe], hnone⟩

/-! ## One turn -/

theorem exists_unclaimed {entry : List Nat}
    (h : entry.countP (· ≠ pbRealNone) < entry.length) :
    ∃ slot < entry.length, entry.getD slot pbRealNone = pbRealNone := by
  by_contra hnone
  push Not at hnone
  have hall : entry.countP (· ≠ pbRealNone) = entry.length := by
    rw [List.countP_eq_length]
    intro x hx
    obtain ⟨i, hi, rfl⟩ := List.mem_iff_getElem.mp hx
    have hne := hnone i hi
    rw [List.getD_eq_getElem _ _ hi] at hne
    simpa using hne
  omega

theorem takeTurn_claims {M : Nat} (hM : M = 1 ∨ M.Prime) {st : Fill} {turn : Backend × Nat}
    (hnext : st.next.getD turn.2 0 < M)
    (hfree : ∃ slot < M, st.entry.getD slot pbRealNone = pbRealNone) :
    ∃ slot < M, st.entry.getD slot pbRealNone = pbRealNone ∧
      takeTurn M st turn =
        some { entry := st.entry.set slot turn.1.realId
               next := st.next.set turn.2 ((slot + backendSkip M turn.1) % M)
               filled := st.filled + 1 } := by
  obtain ⟨free, hfree, hnone⟩ := hfree
  obtain ⟨j, hj, hjfree⟩ := ModularWalk.exists_position_eq
    (backendSkip_coprime hM turn.1) (st.next.getD turn.2 0) hfree
  obtain ⟨slot, hslot, hprobe, hslotNone⟩ :=
    probe_eq_some hnext hj (by rw [hjfree]; exact hnone)
  exact ⟨slot, hslot, hslotNone, by simp only [takeTurn, hprobe, Option.map_some]⟩

/-! ## The turns of the source -/

theorem le_foldl_max (ws : List Nat) (acc : Nat) :
    acc ≤ ws.foldl max acc ∧ ∀ w ∈ ws, w ≤ ws.foldl max acc := by
  induction ws generalizing acc with
  | nil => simp
  | cons w ws ih =>
      obtain ⟨hacc, hws⟩ := ih (max acc w)
      refine ⟨by simp only [List.foldl_cons]; omega, ?_⟩
      intro x hx
      rcases List.mem_cons.mp hx with rfl | hx
      · simp only [List.foldl_cons]
        omega
      · exact hws x hx

theorem getElem?_of_mem_roundTurns {sorted : List Backend} {turn : Backend × Nat}
    (h : turn ∈ roundTurns sorted) : sorted[turn.2]? = some turn.1 := by
  simp only [roundTurns, List.mem_flatMap, List.mem_filter] at h
  obtain ⟨_, _, hmem, _⟩ := h
  exact List.mem_zipIdx_iff_getElem?.mp hmem

theorem mem_roundTurns {sorted : List Backend} {turn : Backend × Nat}
    (h : turn ∈ roundTurns sorted) : turn.2 < sorted.length ∧ turn.1 ∈ sorted := by
  have hget := getElem?_of_mem_roundTurns h
  exact ⟨(List.getElem?_eq_some_iff.mp hget).1, List.mem_of_getElem? hget⟩

theorem roundTurns_ne_nil {sorted : List Backend} (hne : sorted ≠ [])
    (hweight : ∀ b ∈ sorted, 0 < b.weight) : roundTurns sorted ≠ [] := by
  obtain ⟨b, rest, rfl⟩ := List.exists_cons_of_ne_nil hne
  have hb : 0 < b.weight := hweight b List.mem_cons_self
  have hmax := (le_foldl_max ((b :: rest).map Backend.weight) 0).2 b.weight (by simp)
  apply List.ne_nil_of_mem (a := (b, 0))
  simp only [roundTurns, List.mem_flatMap, List.mem_range, List.mem_filter]
  exact ⟨0, by omega, by simp [List.zipIdx_cons], by simpa using hb⟩

/-! ## The loops as one fold over turns -/

theorem takeTurn_filled {M : Nat} {st st' : Fill} {turn : Backend × Nat}
    (h : takeTurn M st turn = some st') : st'.filled = st.filled + 1 := by
  obtain ⟨c, -, rfl⟩ := Option.map_eq_some_iff.mp h
  rfl

theorem foldlM_takeTurn_filled {M : Nat} {turns : List (Backend × Nat)} {st st' : Fill}
    (h : turns.foldlM (takeTurn M) st = some st') :
    st'.filled = st.filled + turns.length := by
  induction turns generalizing st with
  | nil =>
      obtain rfl := Option.some.inj h
      rfl
  | cons turn turns ih =>
      obtain ⟨st₁, hturn, hrest⟩ := Option.bind_eq_some_iff.mp h
      have hfirst := takeTurn_filled hturn
      have hlast := ih hrest
      rw [List.length_cons]
      omega

theorem fillRound_eq {M : Nat} (turns : List (Backend × Nat)) {st : Fill}
    (hfilled : st.filled < M) :
    fillRound M turns st = (turns.take (M - st.filled)).foldlM (takeTurn M) st := by
  induction turns generalizing st with
  | nil => simp [fillRound]
  | cons turn turns ih =>
      obtain ⟨k, hk⟩ : ∃ k, M - st.filled = k + 1 := ⟨M - st.filled - 1, by omega⟩
      rw [hk, List.take_succ_cons, List.foldlM_cons, fillRound]
      cases hturn : takeTurn M st turn with
      | none => rfl
      | some st₁ =>
          have hcount := takeTurn_filled hturn
          simp only [Option.bind_eq_bind, Option.bind_some]
          by_cases hfull : st₁.filled = M
          · rw [if_pos hfull, show k = 0 by omega]
            rfl
          · rw [if_neg hfull, ih (by omega), show M - st₁.filled = k by omega]

/-- The rounds stop where the table is full: as many turns as it has unclaimed slots. -/
theorem fillRounds_eq {M : Nat} {turns : List (Backend × Nat)} (hne : turns ≠ []) {fuel : Nat}
    {st : Fill} (hfilled : st.filled < M) (hfuel : M ≤ st.filled + fuel) :
    fillRounds M turns fuel st = (laps turns (M - st.filled)).foldlM (takeTurn M) st := by
  have hpos : 0 < turns.length := List.length_pos_of_ne_nil hne
  induction fuel generalizing st with
  | zero => omega
  | succ fuel ih =>
      rw [fillRounds, fillRound_eq turns hfilled]
      by_cases hlast : M - st.filled ≤ turns.length
      · rw [laps_of_le hlast]
        cases hround : (turns.take (M - st.filled)).foldlM (takeTurn M) st with
        | none => rfl
        | some st₁ =>
            have hcount := foldlM_takeTurn_filled hround
            rw [List.length_take] at hcount
            simp only [Option.bind_eq_bind, Option.bind_some]
            rw [if_pos (by omega)]
      · obtain ⟨k, hk⟩ : ∃ k, M - st.filled = turns.length + k :=
          ⟨M - st.filled - turns.length, by omega⟩
        rw [List.take_of_length_le (by omega), hk, laps_length_add hne, List.foldlM_append]
        cases hround : turns.foldlM (takeTurn M) st with
        | none => rfl
        | some st₁ =>
            have hcount := foldlM_takeTurn_filled hround
            simp only [Option.bind_eq_bind, Option.bind_some]
            rw [if_neg (by omega), ih (by omega) (by omega),
              show M - st₁.filled = k by omega]

def Fill.start (M : Nat) (sorted : List Backend) : Fill where
  entry := List.replicate M pbRealNone
  next := sorted.map (backendOffset M)
  filled := 0

theorem buildMaglev_eq {M : Nat} (hM : 0 < M) {sorted : List Backend} (hne : sorted ≠ [])
    (hweight : ∀ b ∈ sorted, 0 < b.weight) :
    buildMaglev sorted M =
      ((laps (roundTurns sorted) M).foldlM (takeTurn M) (Fill.start M sorted)).map
        Fill.entry := by
  have hrounds : fillRounds M (roundTurns sorted) M (Fill.start M sorted) =
      (laps (roundTurns sorted) (M - 0)).foldlM (takeTurn M) (Fill.start M sorted) :=
    fillRounds_eq (roundTurns_ne_nil hne hweight) hM (Nat.le_add_left M 0)
  rw [buildMaglev, if_neg (by simp [hne]; omega)]
  exact congrArg (Option.map Fill.entry) hrounds

/-! ## What the turns have claimed -/

/-- The table after the turns `past`: each of them has its slot.  A turn of a backend that
has no id leaves its slot looking unclaimed, so only the others are counted. -/
structure Tally (M n : Nat) (past : List (Backend × Nat)) (st : Fill) : Prop where
  length_entry : st.entry.length = M
  length_next : st.next.length = n
  next_lt : ∀ c ∈ st.next, c < M
  count_eq : ∀ x, x ≠ pbRealNone →
    st.entry.count x = (past.map (·.1.realId)).count x
  claimed : st.entry.countP (· ≠ pbRealNone) =
    (past.map (·.1.realId)).countP (· ≠ pbRealNone)

theorem Tally.start {M : Nat} (hM : 0 < M) (sorted : List Backend) :
    Tally M sorted.length [] (Fill.start M sorted) := by
  refine ⟨by simp [Fill.start], by simp [Fill.start], ?_, ?_, by simp [Fill.start]⟩
  · intro c hc
    obtain ⟨b, -, rfl⟩ := List.mem_map.mp hc
    exact backendOffset_lt hM b
  · intro x hx
    simp [Fill.start, List.count_replicate, Ne.symm hx]

section Tally

variable {M n : Nat} {past : List (Backend × Nat)} {st : Fill}

theorem Tally.exists_unclaimed (h : Tally M n past st) (hpast : past.length < M) :
    ∃ slot < M, st.entry.getD slot pbRealNone = pbRealNone := by
  have hle := List.countP_le_length (p := (· ≠ pbRealNone)) (l := past.map (·.1.realId))
  have hlt : st.entry.countP (· ≠ pbRealNone) < st.entry.length := by
    rw [h.claimed, h.length_entry]
    rw [List.length_map] at hle
    omega
  simpa only [h.length_entry] using PacketBalance.exists_unclaimed hlt

theorem Tally.next_getD_lt (h : Tally M n past st) {turn : Backend × Nat} (hidx : turn.2 < n) :
    st.next.getD turn.2 0 < M := by
  have hidx' : turn.2 < st.next.length := h.length_next.symm ▸ hidx
  rw [List.getD_eq_getElem _ _ hidx']
  exact h.next_lt _ (List.getElem_mem hidx')

theorem Tally.turn (h : Tally M n past st) {turn : Backend × Nat} {slot next : Nat}
    (hslot : slot < M) (hnone : st.entry.getD slot pbRealNone = pbRealNone) (hnext : next < M) :
    Tally M n (past ++ [turn])
      { entry := st.entry.set slot turn.1.realId
        next := st.next.set turn.2 next
        filled := st.filled + 1 } := by
  have hslot' : slot < st.entry.length := h.length_entry.symm ▸ hslot
  rw [List.getD_eq_getElem _ _ hslot'] at hnone
  refine ⟨by simpa using h.length_entry, by simpa using h.length_next, ?_, ?_, ?_⟩
  · intro c hc
    rcases List.mem_or_eq_of_mem_set hc with hc | rfl
    · exact h.next_lt c hc
    · exact hnext
  · intro x hx
    have hold := h.count_eq x hx
    simp only [List.map_append, List.count_append, List.map_cons, List.map_nil,
      List.count_singleton]
    rw [List.count_set hslot', hnone, hold]
    simp [Ne.symm hx]
  · simp only [List.map_append, List.countP_append, List.map_cons, List.map_nil,
      List.countP_singleton]
    rw [List.countP_set hslot', hnone, h.claimed]
    simp

theorem Tally.takeTurn (h : Tally M n past st) (hM : M = 1 ∨ M.Prime) (hpast : past.length < M)
    {turn : Backend × Nat} (hidx : turn.2 < n) :
    ∃ st', takeTurn M st turn = some st' ∧ Tally M n (past ++ [turn]) st' := by
  have hpos : 0 < M := Nat.zero_lt_of_lt hpast
  obtain ⟨slot, hslot, hnone, htake⟩ :=
    takeTurn_claims hM (h.next_getD_lt hidx) (h.exists_unclaimed hpast)
  exact ⟨_, htake, h.turn hslot hnone (Nat.mod_lt _ hpos)⟩

theorem Tally.perm (h : Tally M n past st) (hpast : past.length = M) :
    st.entry.Perm (past.map (·.1.realId)) := by
  rw [List.perm_iff_count]
  intro x
  by_cases hx : x = pbRealNone
  · subst hx
    have hsplit : ∀ l : List Nat, l.length = l.count pbRealNone + l.countP (· ≠ pbRealNone) := by
      intro l
      rw [List.length_eq_countP_add_countP (· == pbRealNone), List.count]
      simp
    have hentry := hsplit st.entry
    have hids := hsplit (past.map (·.1.realId))
    rw [List.length_map] at hids
    have hclaimed := h.claimed
    have hlength := h.length_entry
    omega
  · exact h.count_eq x hx

end Tally

theorem turn_of_laps {M : Nat} {sorted : List Backend} (hne : sorted ≠ [])
    (hweight : ∀ b ∈ sorted, 0 < b.weight) {past rest : List (Backend × Nat)}
    {turn : Backend × Nat} (h : laps (roundTurns sorted) M = past ++ turn :: rest) :
    past.length < M ∧ turn ∈ roundTurns sorted := by
  have hlength := length_laps (roundTurns_ne_nil hne hweight) M
  rw [h, List.length_append, List.length_cons] at hlength
  refine ⟨by omega, mem_of_mem_laps (n := M) ?_⟩
  rw [h]
  exact List.mem_append_right past List.mem_cons_self

/-- The fill returns, and its ring is a rearrangement of the ids of the first `M` turns. -/
theorem buildMaglev_perm {M : Nat} (hM : M = 1 ∨ M.Prime) {sorted : List Backend}
    (hne : sorted ≠ []) (hweight : ∀ b ∈ sorted, 0 < b.weight) :
    ∃ ring, buildMaglev sorted M = some ring ∧
      ring.Perm ((laps (roundTurns sorted) M).map (·.1.realId)) := by
  have hpos : 0 < M := hM.elim (by omega) Nat.Prime.pos
  have hstep : ∀ past turn rest st, laps (roundTurns sorted) M = past ++ turn :: rest →
      Tally M sorted.length past st →
      ∃ st', takeTurn M st turn = some st' ∧ Tally M sorted.length (past ++ [turn]) st' := by
    intro past turn rest st hsplit htally
    obtain ⟨hpast, hturn⟩ := turn_of_laps hne hweight hsplit
    exact htally.takeTurn hM hpast (mem_roundTurns hturn).1
  obtain ⟨st, hfold, htally⟩ := foldlM_invariant (Tally.start hpos sorted) hstep
  refine ⟨st.entry, ?_, htally.perm (length_laps (roundTurns_ne_nil hne hweight) M)⟩
  rw [buildMaglev_eq hpos hne hweight, hfold]
  rfl

/-- The fill returns, its table has `M` slots, and it leaves none unclaimed
once some backend is active. -/
theorem buildMaglev_complete {M : Nat} (hM : M.Prime) {sorted : List Backend}
    (hweight : ∀ b ∈ sorted, 0 < b.weight)
    (hid : ∀ b ∈ sorted, b.realId ≠ pbRealNone) :
    ∃ ring, buildMaglev sorted M = some ring ∧ ring.length = M ∧
      (sorted ≠ [] → pbRealNone ∉ ring) := by
  by_cases hne : sorted = []
  · exact ⟨_, by simp [buildMaglev, hne]; rfl, by simp, fun h => absurd hne h⟩
  · obtain ⟨ring, hring, hperm⟩ := buildMaglev_perm (.inr hM) hne hweight
    refine ⟨ring, hring, ?_, fun _ hmem => ?_⟩
    · rw [hperm.length_eq, List.length_map, length_laps (roundTurns_ne_nil hne hweight)]
    · obtain ⟨turn, hturn, hnone⟩ := List.mem_map.mp (hperm.mem_iff.mp hmem)
      exact hid _ (mem_roundTurns (mem_of_mem_laps hturn)).2 hnone

theorem pbRingSize_prime : pbRingSize.Prime := by
  norm_num [pbRingSize]

end PacketBalance
