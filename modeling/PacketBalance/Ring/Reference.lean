import PacketBalance.Ring.Order
import Mathlib.Algebra.Order.BigOperators.Group.List
/-!
# The Maglev paper's fill

The paper materialises every backend's permutation of the slots and lets the backend whose
turn it is claim the first slot of its permutation that nobody has.  The code keeps no
permutation: it keeps the place where a backend's last walk stopped, and walks on from
there.  That is the same because a backend's permutation is claimed up to that place.
-/

namespace PacketBalance

open Turns ModularWalk

/-! ## The paper's algorithm -/

/-- `permutation_i[j]`. -/
def permutationAt (M : Nat) (b : Backend) (j : Nat) : Nat :=
  (backendOffset M b + j * backendSkip M b) % M

def permutation (M : Nat) (b : Backend) : List Nat := (List.range M).map (permutationAt M b)

/-- A backend claims the first unclaimed slot of its permutation. -/
def claimSlot (M : Nat) (table : List (Option Nat)) (b : Backend) : List (Option Nat) :=
  match (permutation M b).find? fun c => table[c]? = some none with
  | some c => table.set c (some b.realId)
  | none => table

def referenceTable (M : Nat) (turns : List Backend) : List (Option Nat) :=
  turns.foldl (claimSlot M) (List.replicate M none)

/-- A round: on pass `t` the backends of a weight above `t` have a turn, in their order. -/
def referenceRound (sorted : List Backend) : List Backend :=
  (List.range (totalWeight sorted)).flatMap fun t => sorted.filter (t < ·.weight)

def referenceTurns (sorted : List Backend) (M : Nat) : List Backend :=
  (List.replicate M (referenceRound sorted)).flatten.take M

def referenceRing (sorted : List Backend) (M : Nat) : List Nat :=
  (referenceTable M (referenceTurns sorted M)).map (·.getD pbRealNone)

/-- The code goes through the passes up to the largest weight only; on those after it nobody has
a turn. -/
theorem referenceRound_eq (sorted : List Backend) :
    referenceRound sorted = (roundTurns sorted).map Prod.fst := by
  have hmax : ∀ b ∈ sorted, b.weight ≤ (sorted.map Backend.weight).foldl max 0 := fun b hb =>
    (le_foldl_max (sorted.map Backend.weight) 0).2 _ (List.mem_map_of_mem hb)
  have hsum : ∀ b ∈ sorted, b.weight ≤ totalWeight sorted := fun b hb =>
    List.single_le_sum (fun _ _ => Nat.zero_le _) _ (List.mem_map_of_mem hb)
  rw [map_fst_roundTurns]
  exact (passTurns_of_le hsum (Nat.le_max_left _ _)).symm.trans
    (passTurns_of_le hmax (Nat.le_max_right _ _))

theorem referenceTurns_eq (sorted : List Backend) (M : Nat) :
    referenceTurns sorted M = (laps (roundTurns sorted) M).map Prod.fst := by
  rw [referenceTurns, ← laps_eq_take, laps_map, referenceRound_eq]

/-! ## The walk and the permutation -/

theorem permutationAt_lt {M : Nat} (hM : 0 < M) (b : Backend) (j : Nat) :
    permutationAt M b j < M := Nat.mod_lt _ hM

theorem permutationAt_succ (M : Nat) (b : Backend) (j : Nat) :
    (permutationAt M b j + backendSkip M b) % M = permutationAt M b (j + 1) := by
  unfold permutationAt
  rw [Nat.mod_add_mod, Nat.add_mul, Nat.one_mul, Nat.add_assoc]

theorem probe_permutationAt {M : Nat} {entry : List Nat} {b : Backend} {k j fuel : Nat}
    (hkj : k ≤ j) (hfuel : j < k + fuel)
    (hfree : entry.getD (permutationAt M b j) pbRealNone = pbRealNone)
    (htaken : ∀ i < j, entry.getD (permutationAt M b i) pbRealNone ≠ pbRealNone) :
    probe M entry (backendSkip M b) fuel (permutationAt M b k) = some (permutationAt M b j) := by
  induction fuel generalizing k with
  | zero => omega
  | succ fuel ih =>
      rcases Nat.eq_or_lt_of_le hkj with rfl | hlt
      · rw [probe, if_pos hfree]
      · rw [probe, if_neg (htaken k hlt), permutationAt_succ]
        exact ih hlt (by omega)

/-- The paper looks at the permutation from its beginning. -/
theorem claimSlot_eq {M : Nat} {table : List (Option Nat)} {b : Backend} {j : Nat} (hj : j < M)
    (hfree : table[permutationAt M b j]? = some none)
    (htaken : ∀ i < j, table[permutationAt M b i]? ≠ some none) :
    claimSlot M table b = table.set (permutationAt M b j) (some b.realId) := by
  have hfind : (permutation M b).find? (fun c => table[c]? = some none) =
      some (permutationAt M b j) := by
    rw [permutation, List.find?_map, List.find?_range_eq_some.mpr]
    · rfl
    · exact ⟨by simpa using hfree, List.mem_range.mpr hj, fun i hi => by simpa using htaken i hi⟩
  rw [claimSlot, hfind]

/-! ## The code follows the paper -/

/-- The code's table is the paper's, and a backend's permutation is claimed up to the place
where its last walk stopped. -/
structure Follows (M : Nat) (sorted : List Backend) (st : Fill) (table : List (Option Nat)) :
    Prop where
  length_table : table.length = M
  entry : st.entry = table.map (·.getD pbRealNone)
  id_ne : ∀ x, some x ∈ table → x ≠ pbRealNone
  claimed : ∀ (i : Nat) (b : Backend), sorted[i]? = some b →
    ∃ k, st.next[i]? = some (permutationAt M b k) ∧
      ∀ j < k, table[permutationAt M b j]? ≠ some none

section Follows

variable {M : Nat} {sorted : List Backend} {st : Fill} {table : List (Option Nat)}

theorem Follows.start (hM : 0 < M) (sorted : List Backend) :
    Follows M sorted (Fill.start M sorted) (List.replicate M none) := by
  refine ⟨by simp, by simp [Fill.start], by simp [List.mem_replicate], fun i b hb => ⟨0, ?_, ?_⟩⟩
  · have hzero : permutationAt M b 0 = backendOffset M b := position_zero _ (backendOffset_lt hM b)
    simp [Fill.start, hb, hzero]
  · intro j hj
    omega

theorem Follows.unclaimed_iff (h : Follows M sorted st table) {c : Nat} (hc : c < M) :
    st.entry.getD c pbRealNone = pbRealNone ↔ table[c]? = some none := by
  have hc' : c < table.length := h.length_table.symm ▸ hc
  rw [h.entry, List.getD_eq_getElem?_getD, List.getElem?_map, List.getElem?_eq_getElem hc']
  cases hslot : table[c] with
  | none => simp
  | some x =>
      have hne := h.id_ne x (hslot ▸ List.getElem_mem hc')
      simpa using hne

theorem Follows.exists_first (hM : M = 1 ∨ M.Prime) (h : Follows M sorted st table)
    (hfree : ∃ slot < M, st.entry.getD slot pbRealNone = pbRealNone) (b : Backend) :
    ∃ j < M, table[permutationAt M b j]? = some none ∧
      ∀ i < j, table[permutationAt M b i]? ≠ some none := by
  obtain ⟨slot, hslot, hnone⟩ := hfree
  obtain ⟨j₀, hj₀, hpos⟩ :=
    exists_position_eq (backendSkip_coprime hM b) (backendOffset M b) hslot
  have hj₀slot : permutationAt M b j₀ = slot := hpos
  have hj₀free : table[permutationAt M b j₀]? = some none := by
    rw [hj₀slot]
    exact (h.unclaimed_iff hslot).mp hnone
  have hex : ∃ j, table[permutationAt M b j]? = some none := ⟨j₀, hj₀free⟩
  exact ⟨Nat.find hex, (Nat.find_min' hex hj₀free).trans_lt hj₀, Nat.find_spec hex,
    fun i hi => Nat.find_min hex hi⟩

theorem getElem?_set_ne_none {c d x : Nat} (h : table[d]? ≠ some none) :
    (table.set c (some x))[d]? ≠ some none := by
  rw [List.getElem?_set]
  split_ifs with hcd hlt
  · simp
  · simp
  · exact h

theorem Follows.claim (h : Follows M sorted st table) (hM : 0 < M) {turn : Backend × Nat}
    (hturn : sorted[turn.2]? = some turn.1) (hid : turn.1.realId ≠ pbRealNone) {j : Nat}
    (htaken : ∀ i < j, table[permutationAt M turn.1 i]? ≠ some none) :
    Follows M sorted
      { entry := st.entry.set (permutationAt M turn.1 j) turn.1.realId
        next := st.next.set turn.2 (permutationAt M turn.1 (j + 1))
        filled := st.filled + 1 }
      (table.set (permutationAt M turn.1 j) (some turn.1.realId)) := by
  refine ⟨by simpa using h.length_table, by simp [h.entry, List.map_set], ?_, ?_⟩
  · intro x hx
    rcases List.mem_or_eq_of_mem_set hx with hx | hx
    · exact h.id_ne x hx
    · exact Option.some.inj hx ▸ hid
  · intro i b hb
    obtain ⟨k, hnext, hclaimed⟩ := h.claimed i b hb
    by_cases hi : turn.2 = i
    · subst hi
      obtain rfl := Option.some.inj (hturn.symm.trans hb)
      have hlt := (List.getElem?_eq_some_iff.mp hnext).1
      refine ⟨j + 1, List.getElem?_set_self hlt, fun i hi => ?_⟩
      rcases Nat.lt_succ_iff_lt_or_eq.mp hi with hlt | rfl
      · exact getElem?_set_ne_none (htaken i hlt)
      · have hslot : permutationAt M turn.1 i < table.length :=
          h.length_table.symm ▸ permutationAt_lt hM turn.1 i
        rw [List.getElem?_set_self hslot]
        simp
    · refine ⟨k, by rw [List.getElem?_set_ne hi, hnext], fun i hi => ?_⟩
      exact getElem?_set_ne_none (hclaimed i hi)

theorem Follows.turn (hM : M = 1 ∨ M.Prime) (h : Follows M sorted st table)
    (hfree : ∃ slot < M, st.entry.getD slot pbRealNone = pbRealNone) {turn : Backend × Nat}
    (hturn : sorted[turn.2]? = some turn.1) (hid : turn.1.realId ≠ pbRealNone) :
    ∃ st', takeTurn M st turn = some st' ∧ Follows M sorted st' (claimSlot M table turn.1) := by
  have hpos : 0 < M := hM.elim (by omega) Nat.Prime.pos
  obtain ⟨j, hj, hnone, htaken⟩ := h.exists_first hM hfree turn.1
  obtain ⟨k, hnext, hclaimed⟩ := h.claimed turn.2 turn.1 hturn
  -- nothing is unclaimed before the place where the last walk stopped
  have hkj : k ≤ j := by
    by_contra hlt
    exact hclaimed j (by omega) hnone
  have hprobe : probe M st.entry (backendSkip M turn.1) M (permutationAt M turn.1 k) =
      some (permutationAt M turn.1 j) := by
    refine probe_permutationAt hkj (by omega) ?_ fun i hi hfree => htaken i hi ?_
    · exact (h.unclaimed_iff (permutationAt_lt hpos turn.1 j)).mpr hnone
    · exact (h.unclaimed_iff (permutationAt_lt hpos turn.1 i)).mp hfree
  rw [claimSlot_eq hj hnone htaken]
  refine ⟨_, ?_, h.claim hpos hturn hid htaken⟩
  rw [takeTurn, List.getD_eq_getElem?_getD, hnext, Option.getD_some, hprobe, Option.map_some,
    permutationAt_succ]

end Follows

/-- The fill ends with the paper's table. -/
theorem buildMaglev_eq_reference {M : Nat} (hM : M = 1 ∨ M.Prime) {sorted : List Backend}
    (hweight : ∀ b ∈ sorted, 0 < b.weight) (hid : ∀ b ∈ sorted, b.realId ≠ pbRealNone) :
    buildMaglev sorted M = some (referenceRing sorted M) := by
  have hpos : 0 < M := hM.elim (by omega) Nat.Prime.pos
  by_cases hne : sorted = []
  · subst hne
    rw [buildMaglev, if_pos (.inl rfl)]
    simp [referenceRing, referenceTable, referenceTurns, referenceRound, totalWeight]
  · -- the table after some turns is the paper's after the same turns
    have hstep : ∀ past turn rest st, laps (roundTurns sorted) M = past ++ turn :: rest →
        Tally M sorted.length past st ∧
          Follows M sorted st (referenceTable M (past.map Prod.fst)) →
        ∃ st', takeTurn M st turn = some st' ∧
          Tally M sorted.length (past ++ [turn]) st' ∧
          Follows M sorted st' (referenceTable M ((past ++ [turn]).map Prod.fst)) := by
      rintro past turn rest st hsplit ⟨htally, hfollows⟩
      obtain ⟨hpast, hturn⟩ := turn_of_laps hne hweight hsplit
      obtain ⟨hidx, hmem⟩ := mem_roundTurns hturn
      obtain ⟨st', htake, htally'⟩ := htally.takeTurn hM hpast hidx
      obtain ⟨st'', htake', hfollows'⟩ := hfollows.turn hM (htally.exists_unclaimed hpast)
        (getElem?_of_mem_roundTurns hturn) (hid _ hmem)
      obtain rfl := Option.some.inj (htake.symm.trans htake')
      refine ⟨st', htake, htally', ?_⟩
      rw [List.map_append, referenceTable, List.foldl_append]
      exact hfollows'
    obtain ⟨st, hfold, -, hfollows⟩ := foldlM_invariant
      (I := fun past st => Tally M sorted.length past st ∧
        Follows M sorted st (referenceTable M (past.map Prod.fst)))
      ⟨Tally.start hpos sorted, Follows.start hpos sorted⟩ hstep
    rw [buildMaglev_eq hpos hne hweight, hfold, Option.map_some, hfollows.entry,
      ← referenceTurns_eq]
    rfl

/-! ## Equal weights -/

def Backend.unitWeight (b : Backend) : Backend := { b with weight := 1 }

theorem referenceTurns_of_equal {sorted : List Backend} {w : Nat} (hw : 0 < w)
    (h : ∀ b ∈ sorted, b.weight = w) (M : Nat) : referenceTurns sorted M = laps sorted M := by
  by_cases hne : sorted = []
  · subst hne
    simp [laps, referenceTurns, referenceRound, totalWeight]
  · rw [referenceTurns_eq, laps_roundTurns_of_equal hne hw h, laps_map, List.zipIdx_map_fst]

theorem referenceRing_unitWeight {sorted : List Backend} {w : Nat} (hw : 0 < w)
    (h : ∀ b ∈ sorted, b.weight = w) (M : Nat) :
    referenceRing (sorted.map Backend.unitWeight) M = referenceRing sorted M := by
  have hunit : ∀ b ∈ sorted.map Backend.unitWeight, b.weight = 1 := by
    intro b hb
    obtain ⟨c, -, rfl⟩ := List.mem_map.mp hb
    rfl
  rw [referenceRing, referenceRing, referenceTurns_of_equal hw h,
    referenceTurns_of_equal Nat.one_pos hunit, ← laps_map, referenceTable, List.foldl_map]
  -- a claim does not look at the weight
  rfl

theorem byAddr_unitWeight {backends : List Backend} (h : (backends.map Backend.addr).Nodup) :
    byAddr (backends.map Backend.unitWeight) = (byAddr backends).map Backend.unitWeight := by
  have hnodup : ((backends.map Backend.unitWeight).map Backend.addr).Nodup := by
    rw [List.map_map]
    exact h
  refine (addrSorted_byAddr hnodup).eq_of_perm (List.pairwise_map.mpr (addrSorted_byAddr h)) ?_
  exact (byAddr_perm _).trans ((byAddr_perm backends).symm.map _)

/-! ## The whole ring -/

theorem length_claimSlot (M : Nat) (table : List (Option Nat)) (b : Backend) :
    (claimSlot M table b).length = table.length := by
  unfold claimSlot
  split
  · exact List.length_set
  · rfl

theorem length_referenceRing (sorted : List Backend) (M : Nat) :
    (referenceRing sorted M).length = M := by
  have hfold : ∀ (turns : List Backend) (table : List (Option Nat)),
      (turns.foldl (claimSlot M) table).length = table.length := by
    intro turns
    induction turns with
    | nil => exact fun table => rfl
    | cons turn turns ih =>
        intro table
        rw [List.foldl_cons, ih, length_claimSlot]
  rw [referenceRing, List.length_map, referenceTable, hfold, List.length_replicate]

theorem buildRing_maglev_eq {M : Nat} (hM : M = 1 ∨ M.Prime) {backends : List Backend}
    (haddr : (backends.map Backend.addr).Nodup) (hweight : ∀ b ∈ backends, 0 < b.weight)
    (hid : ∀ b ∈ backends, b.realId ≠ pbRealNone) :
    buildMaglev (byAddr backends) M = some (referenceRing (byAddr backends) M) ∧
      buildRing backends .maglev M = .ok (referenceRing (byAddr backends) M) := by
  have hmaglev := buildMaglev_eq_reference hM (fun b hb => hweight b (mem_byAddr.mp hb))
    fun b hb => hid b (mem_byAddr.mp hb)
  have hactive : weighted backends = backends := weighted_of_pos hweight
  have hnodup : ((weighted backends).map Backend.addr).Nodup := by rwa [hactive]
  exact ⟨hmaglev, by simp only [buildRing, activeSorted_ok hnodup, hactive, hmaglev]⟩

/-- The fill returns, every slot holds a backend's id, and the ring is the paper's; with
equal weights it is the ring for weight 1. -/
theorem maglev_is_the_reference {M : Nat} (hM : M = 1 ∨ M.Prime) {backends : List Backend}
    (haddr : (backends.map Backend.addr).Nodup) (hweight : ∀ b ∈ backends, 0 < b.weight)
    (hid : ∀ b ∈ backends, b.realId ≠ pbRealNone) :
    buildMaglev (byAddr backends) M = some (referenceRing (byAddr backends) M) ∧
      buildRing backends .maglev M = .ok (referenceRing (byAddr backends) M) ∧
      (referenceRing (byAddr backends) M).length = M ∧
      (backends ≠ [] →
        ∀ x ∈ referenceRing (byAddr backends) M, ∃ b ∈ backends, b.realId = x) ∧
      ∀ w, (∀ b ∈ backends, b.weight = w) →
        buildRing (backends.map Backend.unitWeight) .maglev M = buildRing backends .maglev M := by
  obtain ⟨hmaglev, hring⟩ := buildRing_maglev_eq hM haddr hweight hid
  refine ⟨hmaglev, hring, length_referenceRing _ M, ?_, ?_⟩
  · intro hne x hx
    have hne' : byAddr backends ≠ [] := fun hnil => hne (by
      simpa [hnil] using (byAddr_perm backends).symm)
    obtain ⟨ring, hring', hperm⟩ := buildMaglev_perm hM hne' fun b hb =>
      hweight b (mem_byAddr.mp hb)
    obtain rfl := Option.some.inj (hmaglev.symm.trans hring')
    obtain ⟨turn, hturn, rfl⟩ := List.mem_map.mp (hperm.mem_iff.mp hx)
    exact ⟨turn.1, mem_byAddr.mp (mem_roundTurns (mem_of_mem_laps hturn)).2, rfl⟩
  · intro w hw
    by_cases hne : backends = []
    · rw [hne, List.map_nil]
    have hpos : 0 < w := by
      obtain ⟨b, hb⟩ := List.exists_mem_of_ne_nil backends hne
      exact hw b hb ▸ hweight b hb
    have haddr' : ((backends.map Backend.unitWeight).map Backend.addr).Nodup := by
      rw [List.map_map]
      exact haddr
    have hunit := buildRing_maglev_eq hM haddr' (by simp [Backend.unitWeight])
      (by simpa [Backend.unitWeight] using hid)
    rw [hring, hunit.2, byAddr_unitWeight haddr,
      referenceRing_unitWeight hpos fun b hb => hw b (mem_byAddr.mp hb)]

theorem maglev_is_the_reference_sample :
    ∃ ring, buildRing [⟨2, 0x1400000a, 3⟩, ⟨1, 0x0a00000a, 3⟩] .maglev 7 = .ok ring ∧
      buildRing [⟨2, 0x1400000a, 1⟩, ⟨1, 0x0a00000a, 1⟩] .maglev 7 = .ok ring ∧
      ring.length = 7 := by
  obtain ⟨-, hring, hlength, -, hunit⟩ := @maglev_is_the_reference 7 (.inr (by norm_num))
    [⟨2, 0x1400000a, 3⟩, ⟨1, 0x0a00000a, 3⟩] (by decide) (by decide) (by decide)
  exact ⟨_, hring, (hunit 3 (by decide)).trans hring, hlength⟩

end PacketBalance
