import PacketBalance.Ring.Order
import PacketBalance.Config
import Mathlib.Algebra.Order.BigOperators.Group.List
import Mathlib.Tactic.Positivity
import Mathlib.Tactic.Ring
/-!
# How far a share is from fair

`M` slots are whole rounds and a partial one.  The whole rounds are exactly fair, so what a
backend gets too much or too little is decided by the partial round alone: in Maglev by
when its turns come, in modulo by where its run of slots starts.
-/

namespace PacketBalance

open Turns

/-! ## Maglev -/

theorem totalWeight_perm {xs ys : List Backend} (h : xs.Perm ys) :
    totalWeight xs = totalWeight ys := (h.map Backend.weight).sum_nat

theorem turnIndex_perm {xs ys : List Backend} (h : xs.Perm ys) (b : Backend) (pass : Nat) :
    turnIndex xs b pass = turnIndex ys b pass := by
  unfold turnIndex
  rw [(h.map fun c => min c.weight pass).sum_nat, h.countP_eq]

theorem buildRing_maglev_count {M : Nat} (hM : M = 1 ∨ M.Prime) {backends : List Backend}
    (haddr : (backends.map Backend.addr).Nodup) (hid : (backends.map Backend.realId).Nodup)
    (hweight : ∀ b ∈ backends, 0 < b.weight) :
    ∃ ring, buildRing backends .maglev M = .ok ring ∧
      buildMaglev (byAddr backends) M = some ring ∧
      ∀ b ∈ backends, ring.count b.realId =
        turnsOf b (laps (roundTurns (byAddr backends)) M) := by
  have hactive : weighted backends = backends := weighted_of_pos hweight
  have hring : ∀ ring, buildMaglev (byAddr backends) M = some ring →
      buildRing backends .maglev M = .ok ring := by
    intro ring hring
    have hnodup : ((weighted backends).map Backend.addr).Nodup := by rwa [hactive]
    simp only [buildRing, activeSorted_ok hnodup, hactive, hring]
  by_cases hne : backends = []
  · subst hne
    exact ⟨_, hring _ (if_pos (.inl rfl)), if_pos (.inl rfl), fun b hb => absurd hb (by simp)⟩
  · have hne' : byAddr backends ≠ [] := fun hnil => hne (by
      simpa [hnil] using (byAddr_perm backends).symm)
    have hid' : ((byAddr backends).map Backend.realId).Nodup :=
      ((byAddr_perm backends).map Backend.realId).nodup_iff.mpr hid
    obtain ⟨ring, hmaglev, hcount⟩ := buildMaglev_count hM (addrSorted_byAddr haddr) hne' hid'
      fun b hb => hweight b (mem_byAddr.mp hb)
    exact ⟨ring, hring ring hmaglev, hmaglev, fun b hb => hcount b (mem_byAddr.mpr hb)⟩

/-- A backend's slots are its turns: `q` whole rounds, and the first `r` turns of one more. -/
theorem maglev_shares_are_turns {M : Nat} (hM : M.Prime) {backends : List Backend}
    (haddr : (backends.map Backend.addr).Nodup) (hid : (backends.map Backend.realId).Nodup)
    (hweight : ∀ b ∈ backends, 0 < b.weight) :
    ∃ ring, buildMaglev (byAddr backends) M = some ring ∧
      buildRing backends .maglev M = .ok ring ∧
      ∀ b ∈ backends, ∀ q r, M = q * totalWeight backends + r → r < totalWeight backends →
        ring.count b.realId =
          q * b.weight + turnsOf b ((roundTurns (byAddr backends)).take r) ∧
        q * b.weight ≤ ring.count b.realId ∧ ring.count b.realId ≤ (q + 1) * b.weight ∧
        ((∀ c ∈ backends, c.weight = b.weight) →
          ring.count b.realId = M / backends.length ∨
          ring.count b.realId = (M + backends.length - 1) / backends.length) ∧
        (backends.length ≤ M → 1 ≤ ring.count b.realId) := by
  obtain ⟨ring, hring, hmaglev, hcount⟩ := buildRing_maglev_count (.inr hM) haddr hid hweight
  refine ⟨ring, hmaglev, hring, fun b hb q r hqr hr => ?_⟩
  have hsorted := addrSorted_byAddr haddr
  have hb' : b ∈ byAddr backends := mem_byAddr.mpr hb
  have hlength : (byAddr backends).length = backends.length := (byAddr_perm backends).length_eq
  have hq : M / totalWeight backends = q := by
    rw [hqr, Nat.mul_comm, Nat.mul_add_div (Nat.zero_lt_of_lt hr), Nat.div_eq_of_lt hr,
      Nat.add_zero]
  have hrest : M % totalWeight backends = r := by
    rw [hqr, Nat.mul_add_mod_of_lt hr]
  have hshare := turnsOf_laps hsorted hb' M
  rw [totalWeight_perm (byAddr_perm backends), hq, hrest, ← hcount b hb] at hshare
  have hle := turnsOf_take_le hsorted hb' r
  refine ⟨hshare, by omega, ?_, fun hequal => ?_, fun hfew => ?_⟩
  · rw [hshare, Nat.succ_mul]
    omega
  · have haverage := turnsOf_laps_of_equal hsorted hb' (hweight b hb)
      (fun c hc => hequal c (mem_byAddr.mp hc)) M
    rwa [hlength, ← hcount b hb] at haverage
  · rw [hcount b hb]
    exact turnsOf_laps_pos hsorted hb' (hweight b hb) (hlength ▸ hfew)

theorem maglev_shares_are_turns_sample :
    ∃ ring, buildRing [⟨1, 0x0a00000a, 1⟩, ⟨2, 0x1400000a, 3⟩] .maglev 5 = .ok ring ∧
      ring.count 1 = 1 * 1 + 1 ∧ ring.count 2 = 1 * 3 + 0 := by
  obtain ⟨ring, -, hring, hcount⟩ := @maglev_shares_are_turns 5 (by norm_num)
    [⟨1, 0x0a00000a, 1⟩, ⟨2, 0x1400000a, 3⟩] (by decide) (by decide) (by decide)
  refine ⟨ring, hring, ?_, ?_⟩
  · exact (hcount ⟨1, 0x0a00000a, 1⟩ (by simp) 1 1 rfl (by decide)).1
  · exact (hcount ⟨2, 0x1400000a, 3⟩ (by simp) 1 1 rfl (by decide)).1

/-! ### Within one percent -/

/-- Backends a daemon can have: the ids of a VIP's reals, and weights a config may give. -/
structure Admitted (backends : List Backend) : Prop where
  addr_nodup : (backends.map Backend.addr).Nodup
  id_nodup : (backends.map Backend.realId).Nodup
  length_le : backends.length ≤ pbMaxReals - 1
  weight_pos : ∀ b ∈ backends, 1 ≤ b.weight
  weight_le : ∀ b ∈ backends, b.weight ≤ kMaxRealWeight

/-- A backend's turns in the partial round: those that come among the first `M % W`. -/
def partialTurns (backends : List Backend) (M : Nat) (b : Backend) : Nat :=
  (List.range b.weight).countP (turnIndex backends b · < M % totalWeight backends)

/-- A share `c` of `M` slots is off the fair one, scaled by the total weight, by what the
partial round gives. -/
theorem deviation_eq (M W w p : Nat) :
    ((M / W * w + p : Nat) : Int) * W - M * w = p * W - (M % W : Nat) * w := by
  have hM : (M : Int) = W * (M / W : Nat) + (M % W : Nat) := by
    exact_mod_cast (Nat.div_add_mod M W).symm
  rw [hM]
  push_cast
  ring

theorem buildRing_maglev_share {backends : List Backend} (h : Admitted backends) :
    ∃ ring, buildRing backends .maglev pbRingSize = .ok ring ∧ ∀ b ∈ backends,
      ring.count b.realId = pbRingSize / totalWeight backends * b.weight +
        partialTurns backends pbRingSize b := by
  obtain ⟨ring, hring, -, hcount⟩ := buildRing_maglev_count (.inr pbRingSize_prime) h.addr_nodup
    h.id_nodup h.weight_pos
  refine ⟨ring, hring, fun b hb => ?_⟩
  have hsorted := addrSorted_byAddr h.addr_nodup
  have hb' := mem_byAddr.mpr hb
  rw [hcount b hb, turnsOf_laps hsorted hb', turnsOf_take_roundTurns hsorted hb',
    totalWeight_perm (byAddr_perm backends), partialTurns]
  simp only [turnIndex_perm (byAddr_perm backends)]

/-- A share is within one percent of the fair one exactly when the partial round is not off
by more. -/
theorem maglev_within_one_percent_iff {backends : List Backend} (h : Admitted backends) :
    ∃ ring, buildRing backends .maglev pbRingSize = .ok ring ∧ ∀ b ∈ backends,
      (100 * |(ring.count b.realId : Int) * totalWeight backends - pbRingSize * b.weight| ≤
          pbRingSize * b.weight ↔
        100 * |(partialTurns backends pbRingSize b : Int) * totalWeight backends -
            (pbRingSize % totalWeight backends : Nat) * b.weight| ≤ pbRingSize * b.weight) := by
  obtain ⟨ring, hring, hcount⟩ := buildRing_maglev_share h
  refine ⟨ring, hring, fun b hb => ?_⟩
  rw [hcount b hb, deviation_eq]

theorem maglev_within_one_percent_iff_sample :
    ∃ ring, buildRing [⟨1, 0x0a00000a, 1⟩, ⟨2, 0x1400000a, 3⟩] .maglev pbRingSize = .ok ring ∧
      100 * |(ring.count 2 : Int) * (4 : Nat) - pbRingSize * (3 : Nat)| ≤
        pbRingSize * (3 : Nat) := by
  have hadmitted : Admitted [⟨1, 0x0a00000a, 1⟩, ⟨2, 0x1400000a, 3⟩] :=
    ⟨by decide, by decide, by decide, by decide, by decide⟩
  obtain ⟨ring, hring, hiff⟩ := maglev_within_one_percent_iff hadmitted
  exact ⟨ring, hring, (hiff ⟨2, 0x1400000a, 3⟩ (by simp)).mpr (by decide)⟩

theorem partialTurns_le (backends : List Backend) (M : Nat) (b : Backend) :
    partialTurns backends M b ≤ b.weight := by
  have hle := List.countP_le_length (p := fun pass => decide (turnIndex backends b pass <
    M % totalWeight backends)) (l := List.range b.weight)
  rwa [List.length_range] at hle

/-- A total weight of one percent of the ring is always good enough. -/
theorem maglev_within_one_percent_of_total {backends : List Backend} (h : Admitted backends)
    (htotal : 100 * totalWeight backends ≤ pbRingSize) :
    ∃ ring, buildRing backends .maglev pbRingSize = .ok ring ∧ ∀ b ∈ backends,
      100 * |(ring.count b.realId : Int) * totalWeight backends - pbRingSize * b.weight| ≤
        pbRingSize * b.weight := by
  obtain ⟨ring, hring, hcount⟩ := buildRing_maglev_share h
  refine ⟨ring, hring, fun b hb => ?_⟩
  rw [hcount b hb, deviation_eq]
  have hpos : 0 < totalWeight backends :=
    (h.weight_pos b hb).trans (List.le_sum_of_mem (List.mem_map_of_mem hb))
  have hp : partialTurns backends pbRingSize b * totalWeight backends ≤
      totalWeight backends * b.weight := by
    rw [Nat.mul_comm]
    exact Nat.mul_le_mul_left _ (partialTurns_le ..)
  have hr : pbRingSize % totalWeight backends * b.weight ≤ totalWeight backends * b.weight :=
    Nat.mul_le_mul_right _ (Nat.mod_lt _ hpos).le
  have hdeviation : |(partialTurns backends pbRingSize b : Int) * totalWeight backends -
      (pbRingSize % totalWeight backends : Nat) * b.weight| ≤ totalWeight backends * b.weight :=
    abs_sub_le_of_nonneg_of_le (by positivity) (by exact_mod_cast hp) (by positivity)
      (by exact_mod_cast hr)
  have hw : 100 * totalWeight backends * b.weight ≤ pbRingSize * b.weight :=
    Nat.mul_le_mul_right _ htotal
  calc 100 * |(partialTurns backends pbRingSize b : Int) * totalWeight backends -
        (pbRingSize % totalWeight backends : Nat) * b.weight|
      ≤ 100 * (totalWeight backends * b.weight) := by omega
    _ = 100 * totalWeight backends * b.weight := by ring
    _ ≤ pbRingSize * b.weight := by exact_mod_cast hw

/-- One heavy backend and three light ones. -/
def skewedBackends : List Backend :=
  [⟨1, 0x0a00000a, 1000⟩, ⟨2, 0x0b00000a, 1⟩, ⟨3, 0x0c00000a, 1⟩, ⟨4, 0x0d00000a, 1⟩]

/-- The partial round is 342 turns of 1003 and gives a light backend its whole turn: it has
66 slots where 65.34 are fair. -/
theorem maglev_not_within_one_percent :
    Admitted skewedBackends ∧ ∃ ring, buildRing skewedBackends .maglev pbRingSize = .ok ring ∧
      ∃ b ∈ skewedBackends,
        ¬100 * |(ring.count b.realId : Int) * totalWeight skewedBackends - pbRingSize * b.weight| ≤
          pbRingSize * b.weight := by
  have hadmitted : Admitted skewedBackends :=
    ⟨by decide, by decide, by decide, by decide, by decide⟩
  obtain ⟨ring, hring, hcount⟩ := buildRing_maglev_share hadmitted
  refine ⟨hadmitted, ring, hring, ⟨2, 0x0b00000a, 1⟩, by simp [skewedBackends], ?_⟩
  have hshare : ring.count 2 = 66 := hcount ⟨2, 0x0b00000a, 1⟩ (by simp [skewedBackends])
  rw [hshare]
  decide

/-! ## Modulo -/

/-- The list that modulo repeats: each backend as often as its weight. -/
def moduloList (sorted : List Backend) : List Nat :=
  sorted.flatMap fun b => List.replicate b.weight b.realId

theorem length_moduloList (sorted : List Backend) :
    (moduloList sorted).length = totalWeight sorted := by
  simp [moduloList, totalWeight, List.length_flatMap]

theorem buildModulo_eq_laps {sorted : List Backend} (hne : moduloList sorted ≠ []) (M : Nat) :
    buildModulo sorted M = laps (moduloList sorted) M := by
  have hpos : 0 < (moduloList sorted).length := List.length_pos_of_ne_nil hne
  rw [buildModulo, ← moduloList, if_neg hne]
  apply List.ext_getElem?
  intro k
  by_cases hk : k < M
  · have hlt : k % (moduloList sorted).length < (moduloList sorted).length := Nat.mod_lt k hpos
    rw [getElem?_laps hne hk, List.getElem?_map, List.getElem?_range hk, Option.map_some,
      List.getD_eq_getElem _ _ hlt, List.getElem?_eq_getElem hlt]
  · rw [List.getElem?_eq_none (by simp; omega),
      List.getElem?_eq_none (by rw [length_laps hne]; omega)]

def weightBelow (backends : List Backend) (b : Backend) : Nat :=
  totalWeight (backends.filter (·.addr < b.addr))

theorem weightBelow_perm {xs ys : List Backend} (h : xs.Perm ys) (b : Backend) :
    weightBelow xs b = weightBelow ys b := totalWeight_perm (h.filter _)

theorem weightBelow_eq {lower higher : List Backend} {b : Backend}
    (hlower : ∀ c ∈ lower, c.addr < b.addr) (hhigher : ∀ c ∈ higher, b.addr < c.addr) :
    weightBelow (lower ++ b :: higher) b = totalWeight lower := by
  have hkeep : lower.filter (·.addr < b.addr) = lower := by
    rw [List.filter_eq_self]
    simpa using hlower
  have hdrop : (b :: higher).filter (·.addr < b.addr) = [] := by
    rw [List.filter_eq_nil_iff]
    intro c hc
    rcases List.mem_cons.mp hc with rfl | hc
    · simp
    · simp [UInt32.lt_asymm (hhigher c hc)]
  rw [weightBelow, List.filter_append, hkeep, hdrop, List.append_nil]

theorem count_take_moduloList_eq_zero {l : List Backend} {x : Nat} (h : ∀ c ∈ l, c.realId ≠ x)
    (r : Nat) : ((moduloList l).take r).count x = 0 := by
  rw [List.count_eq_zero]
  intro hmem
  obtain ⟨c, hc, hrep⟩ := List.mem_flatMap.mp (List.mem_of_mem_take hmem)
  exact h c hc (List.eq_of_mem_replicate hrep).symm

section Modulo

variable {sorted : List Backend} {b : Backend}

theorem weightBelow_add_le (h : AddrSorted sorted) (hb : b ∈ sorted) :
    weightBelow sorted b + b.weight ≤ totalWeight sorted := by
  obtain ⟨lower, higher, rfl, hlower, hhigher⟩ := h.split hb
  rw [weightBelow_eq hlower hhigher]
  simp only [totalWeight, List.map_append, List.map_cons, List.sum_append, List.sum_cons]
  omega

theorem count_take_moduloList (h : AddrSorted sorted) (hid : (sorted.map Backend.realId).Nodup)
    (hb : b ∈ sorted) (r : Nat) :
    ((moduloList sorted).take r).count b.realId = min b.weight (r - weightBelow sorted b) := by
  obtain ⟨lower, higher, rfl, hlower, hhigher⟩ := h.split hb
  rw [List.map_append, List.map_cons, List.nodup_append, List.nodup_cons] at hid
  obtain ⟨-, ⟨hnotHigher, -⟩, hdisjoint⟩ := hid
  have hlowerId : ∀ c ∈ lower, c.realId ≠ b.realId := fun c hc =>
    hdisjoint c.realId (List.mem_map_of_mem hc) b.realId List.mem_cons_self
  have hhigherId : ∀ c ∈ higher, c.realId ≠ b.realId := fun c hc heq =>
    hnotHigher (heq ▸ List.mem_map_of_mem hc)
  have hlist : moduloList (lower ++ b :: higher) =
      moduloList lower ++ (List.replicate b.weight b.realId ++ moduloList higher) := by
    simp [moduloList]
  rw [hlist, weightBelow_eq hlower hhigher, List.take_append, List.take_append, List.count_append,
    List.count_append, count_take_moduloList_eq_zero hlowerId,
    count_take_moduloList_eq_zero hhigherId, length_moduloList, List.take_replicate,
    List.count_replicate_self]
  omega

/-- Whole repetitions of the list, and as much of the backend's run as the last, partial one
reaches. -/
theorem buildModulo_count (h : AddrSorted sorted) (hid : (sorted.map Backend.realId).Nodup)
    (hb : b ∈ sorted) (hpos : 0 < b.weight) (M : Nat) :
    (buildModulo sorted M).count b.realId = M / totalWeight sorted * b.weight +
      min b.weight (M % totalWeight sorted - weightBelow sorted b) := by
  have hbelow := weightBelow_add_le h hb
  have hne : moduloList sorted ≠ [] := by
    apply List.ne_nil_of_length_pos
    rw [length_moduloList]
    omega
  have hwhole := count_take_moduloList h hid hb (totalWeight sorted)
  rw [← length_moduloList, List.take_length, length_moduloList,
    Nat.min_eq_left (by omega)] at hwhole
  rw [buildModulo_eq_laps hne, count_laps, hwhole, length_moduloList,
    count_take_moduloList h hid hb]

theorem buildModulo_count_pos_iff (h : AddrSorted sorted) (hid : (sorted.map Backend.realId).Nodup)
    (hb : b ∈ sorted) (hpos : 0 < b.weight) (M : Nat) :
    0 < (buildModulo sorted M).count b.realId ↔ weightBelow sorted b < M := by
  have hbelow := weightBelow_add_le h hb
  rw [buildModulo_count h hid hb hpos]
  by_cases hround : totalWeight sorted ≤ M
  · have hq : 0 < M / totalWeight sorted := Nat.div_pos hround (by omega)
    have hmul : 0 < M / totalWeight sorted * b.weight := Nat.mul_pos hq hpos
    omega
  · rw [Nat.div_eq_of_lt (by omega), Nat.mod_eq_of_lt (by omega), Nat.zero_mul, Nat.zero_add]
    omega

end Modulo

def partialRun (backends : List Backend) (M : Nat) (b : Backend) : Nat :=
  min b.weight (M % totalWeight backends - weightBelow backends b)

theorem buildRing_modulo_share {backends : List Backend} (h : Admitted backends) :
    ∃ ring, buildRing backends .modulo pbRingSize = .ok ring ∧ ∀ b ∈ backends,
      ring.count b.realId = pbRingSize / totalWeight backends * b.weight +
        partialRun backends pbRingSize b := by
  have hactive : weighted backends = backends := weighted_of_pos h.weight_pos
  have hnodup : ((weighted backends).map Backend.addr).Nodup := by rw [hactive]; exact h.addr_nodup
  have hring : buildRing backends .modulo pbRingSize =
      .ok (buildModulo (byAddr backends) pbRingSize) := by
    simp only [buildRing, activeSorted_ok hnodup, hactive]
  refine ⟨_, hring, fun b hb => ?_⟩
  have hperm := byAddr_perm backends
  rw [buildModulo_count (addrSorted_byAddr h.addr_nodup)
    ((hperm.map Backend.realId).nodup_iff.mpr h.id_nodup) (mem_byAddr.mpr hb) (h.weight_pos b hb),
    totalWeight_perm hperm, weightBelow_perm hperm, partialRun]

/-- A share is within one slot of the fair one exactly when the partial repetition is not off
by more. -/
theorem modulo_within_one_slot_iff {backends : List Backend} (h : Admitted backends) :
    ∃ ring, buildRing backends .modulo pbRingSize = .ok ring ∧ ∀ b ∈ backends,
      (|(ring.count b.realId : Int) * totalWeight backends - pbRingSize * b.weight| ≤
          totalWeight backends ↔
        |(partialRun backends pbRingSize b : Int) * totalWeight backends -
            (pbRingSize % totalWeight backends : Nat) * b.weight| ≤ totalWeight backends) := by
  obtain ⟨ring, hring, hcount⟩ := buildRing_modulo_share h
  refine ⟨ring, hring, fun b hb => ?_⟩
  rw [hcount b hb, partialRun, deviation_eq]

theorem modulo_within_one_slot_iff_sample :
    ∃ ring, buildRing [⟨1, 0x0a00000a, 1⟩, ⟨2, 0x1400000a, 1⟩] .modulo pbRingSize = .ok ring ∧
      |(ring.count 2 : Int) * (2 : Nat) - pbRingSize * (1 : Nat)| ≤ (2 : Nat) := by
  have hadmitted : Admitted [⟨1, 0x0a00000a, 1⟩, ⟨2, 0x1400000a, 1⟩] :=
    ⟨by decide, by decide, by decide, by decide, by decide⟩
  obtain ⟨ring, hring, hiff⟩ := modulo_within_one_slot_iff hadmitted
  exact ⟨ring, hring, (hiff ⟨2, 0x1400000a, 1⟩ (by simp)).mpr (by decide)⟩

def pairedBackends : List Backend := [⟨1, 0x0a00000a, 5⟩, ⟨2, 0x0b00000a, 5⟩]

/-- The partial repetition is 7 slots of 10; 5 of them go to the first backend, which has
32770 slots where 32768.5 are fair. -/
theorem modulo_not_within_one_slot :
    Admitted pairedBackends ∧ ∃ ring, buildRing pairedBackends .modulo pbRingSize = .ok ring ∧
      ∃ b ∈ pairedBackends,
        ¬|(ring.count b.realId : Int) * totalWeight pairedBackends - pbRingSize * b.weight| ≤
          totalWeight pairedBackends := by
  have hadmitted : Admitted pairedBackends :=
    ⟨by decide, by decide, by decide, by decide, by decide⟩
  obtain ⟨ring, hring, hcount⟩ := buildRing_modulo_share hadmitted
  refine ⟨hadmitted, ring, hring, ⟨1, 0x0a00000a, 5⟩, by simp [pairedBackends], ?_⟩
  have hshare : ring.count 1 = 32770 := hcount ⟨1, 0x0a00000a, 5⟩ (by simp [pairedBackends])
  rw [hshare]
  decide

/-! ## Who has a slot -/

/-- With as many slots as weighted backends, Maglev gives everybody one; modulo gives one to
those whose run starts within the ring. -/
theorem mem_ring_iff {M : Nat} (hM : M = 1 ∨ M.Prime) {backends : List Backend}
    (h : AddrSorted backends) (hid : ((weighted backends).map Backend.realId).Nodup)
    (hfew : (weighted backends).length ≤ M) {mode : HashMode} {ring : List Nat}
    (hring : buildRing backends mode M = .ok ring) {b : Backend} (hb : b ∈ weighted backends) :
    b.realId ∈ ring ↔ (mode = .modulo → weightBelow (weighted backends) b < M) := by
  have hsorted : AddrSorted (weighted backends) := h.filter _
  have hpos : 0 < b.weight := (mem_weighted.mp hb).2
  have hactive : activeSorted backends = .ok (weighted backends) := activeSorted_eq h
  rw [← List.count_pos_iff]
  simp only [buildRing, hactive] at hring
  cases mode with
  | maglev =>
      obtain ⟨ring', hmaglev, hcount⟩ := buildMaglev_count hM hsorted (List.ne_nil_of_mem hb) hid
        fun c hc => (mem_weighted.mp hc).2
      simp only [hmaglev, Except.ok.injEq] at hring
      rw [← hring, hcount b hb]
      exact iff_of_true (turnsOf_laps_pos hsorted hb hpos hfew) fun hno => by cases hno
  | modulo =>
      rw [← Except.ok.inj hring, buildModulo_count_pos_iff hsorted hid hb hpos]
      exact ⟨fun hlt _ => hlt, fun hlt => hlt rfl⟩

end PacketBalance
