import PacketBalance.Ring.Fill
import Mathlib.Data.List.Forall2
/-!
# Ring construction does not look at real ids

Two lists of backends that agree in address and weight are filled in lock step:
every slot of the two rings goes to backends of one address, whatever the ids
are.  `R` relates the ids of the two rings and never relates "no real" to an id.
-/

namespace PacketBalance

section LockStep

variable {R : Nat → Nat → Prop}

/-- `R` relates "no real" to itself and to nothing else. -/
structure KeepsNone (R : Nat → Nat → Prop) : Prop where
  none : R pbRealNone pbRealNone
  iff : ∀ x y, R x y → (x = pbRealNone ↔ y = pbRealNone)

/-- Backends that differ in their ids only, and these are related. -/
structure SameBackend (R : Nat → Nat → Prop) (b b' : Backend) : Prop where
  addr : b.addr = b'.addr
  weight : b.weight = b'.weight
  realId : R b.realId b'.realId

structure SameFill (R : Nat → Nat → Prop) (st st' : Fill) : Prop where
  entry : List.Forall₂ R st.entry st'.entry
  next : st.next = st'.next
  filled : st.filled = st'.filled

def SameTurn (R : Nat → Nat → Prop) (turn turn' : Backend × Nat) : Prop :=
  SameBackend R turn.1 turn'.1 ∧ turn.2 = turn'.2

theorem SameBackend.backendSkip_eq {b b' : Backend} (h : SameBackend R b b') (M : Nat) :
    backendSkip M b = backendSkip M b' := by
  simp only [backendSkip, h.addr]

theorem SameBackend.backendOffset_eq {b b' : Backend} (h : SameBackend R b b')
    (M : Nat) : backendOffset M b = backendOffset M b' := by
  simp only [backendOffset, h.addr]

/-! ## Lists related element by element -/

private theorem forall₂_getD {l l' : List Nat} (h : List.Forall₂ R l l') {x y : Nat}
    (hxy : R x y) (i : Nat) : R (l.getD i x) (l'.getD i y) := by
  induction h generalizing i with
  | nil => simpa using hxy
  | cons hhead _ ih =>
      cases i with
      | zero => simpa using hhead
      | succ i => simpa using ih i

private theorem forall₂_set {l l' : List Nat} (h : List.Forall₂ R l l') {x y : Nat}
    (hxy : R x y) (i : Nat) : List.Forall₂ R (l.set i x) (l'.set i y) := by
  induction h generalizing i with
  | nil => simp
  | cons hhead htail ih =>
      cases i with
      | zero => exact .cons hxy htail
      | succ i => exact .cons hhead (ih i)

private theorem forall₂_replicate {x y : Nat} (hxy : R x y) (n : Nat) :
    List.Forall₂ R (List.replicate n x) (List.replicate n y) := by
  induction n with
  | zero => exact .nil
  | succ n ih => exact .cons hxy ih

private theorem forall₂_zipIdx {xs ys : List Backend}
    (h : List.Forall₂ (SameBackend R) xs ys) (k : Nat) :
    List.Forall₂ (SameTurn R) (xs.zipIdx k) (ys.zipIdx k) := by
  induction h generalizing k with
  | nil => simp
  | cons hhead _ ih =>
      rw [List.zipIdx_cons, List.zipIdx_cons]
      exact .cons ⟨hhead, rfl⟩ (ih (k + 1))

/-! ## Maglev -/

theorem probe_lockstep (hR : KeepsNone R) {entry entry' : List Nat}
    (h : List.Forall₂ R entry entry') (M skip fuel c : Nat) :
    probe M entry skip fuel c = probe M entry' skip fuel c := by
  induction fuel generalizing c with
  | zero => rfl
  | succ fuel ih =>
      have hiff := hR.iff _ _ (forall₂_getD h hR.none c)
      simp only [probe, hiff, ih]

theorem takeTurn_lockstep (hR : KeepsNone R) {st st' : Fill} (h : SameFill R st st')
    {turn turn' : Backend × Nat} (hturn : SameTurn R turn turn') (M : Nat) :
    Option.Rel (SameFill R) (takeTurn M st turn) (takeTurn M st' turn') := by
  obtain ⟨hb, hidx⟩ := hturn
  simp only [takeTurn, hb.backendSkip_eq, h.next, hidx,
    probe_lockstep hR h.entry M _ M]
  cases probe M st'.entry (backendSkip M turn'.1) M (st'.next.getD turn'.2 0) with
  | none => exact .none
  | some c => exact .some ⟨forall₂_set h.entry hb.realId c, rfl, by rw [h.filled]⟩

private theorem untilFull_lockstep {o o' : Option Fill}
    (h : Option.Rel (SameFill R) o o') {go go' : Fill → Option Fill} (M : Nat)
    (hgo : ∀ st st', SameFill R st st' → Option.Rel (SameFill R) (go st) (go' st')) :
    Option.Rel (SameFill R)
      (o.bind fun st => if st.filled = M then some st else go st)
      (o'.bind fun st => if st.filled = M then some st else go' st) := by
  cases h with
  | none => exact .none
  | some hst =>
      simp only [Option.bind_some, hst.filled]
      split
      · exact .some hst
      · exact hgo _ _ hst

theorem fillRound_lockstep (hR : KeepsNone R) {turns turns' : List (Backend × Nat)}
    (hturns : List.Forall₂ (SameTurn R) turns turns') {st st' : Fill}
    (h : SameFill R st st') (M : Nat) :
    Option.Rel (SameFill R) (fillRound M turns st) (fillRound M turns' st') := by
  induction hturns generalizing st st' with
  | nil => exact .some h
  | cons hturn _ ih =>
      exact untilFull_lockstep (takeTurn_lockstep hR h hturn M) M fun _ _ hst => ih hst

theorem fillRounds_lockstep (hR : KeepsNone R) {turns turns' : List (Backend × Nat)}
    (hturns : List.Forall₂ (SameTurn R) turns turns') (fuel : Nat) {st st' : Fill}
    (h : SameFill R st st') (M : Nat) :
    Option.Rel (SameFill R) (fillRounds M turns fuel st)
      (fillRounds M turns' fuel st') := by
  induction fuel generalizing st st' with
  | zero => exact .none
  | succ fuel ih =>
      exact untilFull_lockstep (fillRound_lockstep hR hturns h M) M fun _ _ hst => ih hst

theorem roundTurns_lockstep {xs ys : List Backend}
    (h : List.Forall₂ (SameBackend R) xs ys) :
    List.Forall₂ (SameTurn R) (roundTurns xs) (roundTurns ys) := by
  have hweights : xs.map Backend.weight = ys.map Backend.weight := by
    induction h with
    | nil => rfl
    | cons hhead _ ih => simp [hhead.weight, ih]
  simp only [roundTurns, hweights]
  refine List.rel_flatMap (List.forall₂_same.mpr fun _ _ => rfl) ?_
  rintro pass _ rfl
  refine List.rel_filter ?_ (forall₂_zipIdx h 0)
  intro turn turn' hturn
  simp [hturn.1.weight]

theorem buildMaglev_lockstep (hR : KeepsNone R) {xs ys : List Backend}
    (h : List.Forall₂ (SameBackend R) xs ys) (M : Nat) :
    Option.Rel (List.Forall₂ R) (buildMaglev xs M) (buildMaglev ys M) := by
  have hnext : xs.map (backendOffset M) = ys.map (backendOffset M) := by
    induction h with
    | nil => rfl
    | cons hhead _ ih => simp [hhead.backendOffset_eq, ih]
  have hnil : xs = [] ↔ ys = [] := by
    cases h <;> simp
  have hempty := forall₂_replicate hR.none M
  simp only [buildMaglev, hnil]
  split
  · exact .some hempty
  · have hinit : SameFill R
        ⟨List.replicate M pbRealNone, xs.map (backendOffset M), 0⟩
        ⟨List.replicate M pbRealNone, ys.map (backendOffset M), 0⟩ :=
      ⟨hempty, hnext, rfl⟩
    have hrounds := fillRounds_lockstep hR (roundTurns_lockstep h) M hinit M
    generalize fillRounds M (roundTurns xs) M _ = o at hrounds
    generalize fillRounds M (roundTurns ys) M _ = o' at hrounds
    cases hrounds with
    | none => exact .none
    | some hst => exact .some hst.entry

/-! ## Modulo -/

theorem buildModulo_lockstep (hR : KeepsNone R) {xs ys : List Backend}
    (h : List.Forall₂ (SameBackend R) xs ys) (M : Nat) :
    List.Forall₂ R (buildModulo xs M) (buildModulo ys M) := by
  have hlist : List.Forall₂ R (xs.flatMap fun b => List.replicate b.weight b.realId)
      (ys.flatMap fun b => List.replicate b.weight b.realId) := by
    refine List.rel_flatMap h ?_
    intro b b' hb
    simp only [hb.weight]
    exact forall₂_replicate hb.realId b'.weight
  simp only [buildModulo]
  generalize xs.flatMap (fun b => List.replicate b.weight b.realId) = l at hlist
  generalize ys.flatMap (fun b => List.replicate b.weight b.realId) = l' at hlist
  have hnil : l = [] ↔ l' = [] := by
    cases hlist <;> simp
  simp only [hnil]
  split
  · exact forall₂_replicate hR.none M
  · rw [List.forall₂_map_left_iff, List.forall₂_map_right_iff, hlist.length_eq]
    exact List.forall₂_same.mpr fun i _ => forall₂_getD hlist hR.none _

end LockStep

/-! ## Backends listed by ascending address

`rebuild_locked` lists a VIP's members in the order of a map keyed by address, so
`active_sorted` has nothing to reorder and finds no duplicate. -/

def AddrSorted (backends : List Backend) : Prop :=
  backends.Pairwise (·.addr < ·.addr)

private theorem adjacentFind_eq_none {l : List Backend} (h : AddrSorted l) :
    adjacentFind l = none := by
  induction l with
  | nil => rfl
  | cons x rest ih =>
      cases rest with
      | nil => rfl
      | cons y rest =>
          obtain ⟨hx, hrest⟩ := List.pairwise_cons.mp h
          have hne : x.addr ≠ y.addr := UInt32.ne_of_lt (hx y List.mem_cons_self)
          rw [adjacentFind, if_neg hne]
          exact ih hrest

theorem activeSorted_eq {backends : List Backend} (h : AddrSorted backends) :
    activeSorted backends = .ok (backends.filter (0 < ·.weight)) := by
  have hactive : AddrSorted (backends.filter (0 < ·.weight)) := h.filter _
  have hle : (backends.filter (0 < ·.weight)).Pairwise (·.addr ≤ ·.addr) :=
    hactive.imp UInt32.le_of_lt
  simp only [activeSorted, hle.insertionSort_eq, adjacentFind_eq_none hactive]

/-- Sorted backends whose active parts agree get rings that agree slot by slot. -/
theorem buildRing_lockstep {R : Nat → Nat → Prop} (hR : KeepsNone R)
    {xs ys : List Backend} (hxs : AddrSorted xs) (hys : AddrSorted ys)
    (h : List.Forall₂ (SameBackend R) (xs.filter (0 < ·.weight))
      (ys.filter (0 < ·.weight)))
    {mode : HashMode} {M : Nat} {ring ring' : List Nat}
    (hring : buildRing xs mode M = .ok ring) (hring' : buildRing ys mode M = .ok ring') :
    List.Forall₂ R ring ring' := by
  simp only [buildRing, activeSorted_eq hxs] at hring
  simp only [buildRing, activeSorted_eq hys] at hring'
  cases mode with
  | modulo =>
      obtain rfl := Except.ok.inj hring
      obtain rfl := Except.ok.inj hring'
      exact buildModulo_lockstep hR h M
  | maglev =>
      have hmaglev := buildMaglev_lockstep hR h M
      generalize buildMaglev (xs.filter (0 < ·.weight)) M = o at hmaglev hring
      generalize buildMaglev (ys.filter (0 < ·.weight)) M = o' at hmaglev hring'
      cases hmaglev with
      | none => cases hring
      | some hslots =>
          obtain rfl := Except.ok.inj hring
          obtain rfl := Except.ok.inj hring'
          exact hslots

/-! ## What a ring holds -/

private theorem buildModulo_complete {sorted : List Backend}
    (hweight : ∀ b ∈ sorted, 0 < b.weight) (hid : ∀ b ∈ sorted, b.realId ≠ pbRealNone)
    (M : Nat) :
    (buildModulo sorted M).length = M ∧
      (sorted ≠ [] → pbRealNone ∉ buildModulo sorted M) := by
  simp only [buildModulo]
  split
  · rename_i hempty
    refine ⟨by simp, fun hne => ?_⟩
    obtain ⟨b, rest, rfl⟩ := List.exists_cons_of_ne_nil hne
    have hb := hweight b List.mem_cons_self
    simp only [List.flatMap_cons, List.append_eq_nil_iff, List.replicate_eq_nil_iff] at hempty
    omega
  · rename_i hne
    refine ⟨by simp, fun _ hmem => ?_⟩
    obtain ⟨i, -, hi⟩ := List.mem_map.mp hmem
    have hlt := Nat.mod_lt i (List.length_pos_of_ne_nil hne)
    rw [List.getD_eq_getElem _ _ hlt] at hi
    have hslot := List.getElem_mem hlt
    rw [hi, List.mem_flatMap] at hslot
    obtain ⟨b, hb, hrep⟩ := hslot
    exact hid b hb (List.eq_of_mem_replicate hrep).symm

theorem buildRing_inactive {backends : List Backend} (h : AddrSorted backends)
    (hzero : ∀ b ∈ backends, b.weight = 0) (mode : HashMode) (M : Nat) :
    buildRing backends mode M = .ok (List.replicate M pbRealNone) := by
  have hnone : backends.filter (0 < ·.weight) = [] := by
    rw [List.filter_eq_nil_iff]
    intro b hb
    simp [hzero b hb]
  cases mode <;> simp [buildRing, activeSorted_eq h, hnone, buildMaglev, buildModulo]

/-- The ring of sorted backends exists, has its size, and leaves no slot
unclaimed when a backend is active. -/
theorem buildRing_ok {backends : List Backend} (h : AddrSorted backends)
    (hid : ∀ b ∈ backends, b.realId ≠ pbRealNone) (mode : HashMode) :
    ∃ ring, buildRing backends mode pbRingSize = .ok ring ∧ ring.length = pbRingSize ∧
      ((∃ b ∈ backends, 0 < b.weight) → pbRealNone ∉ ring) := by
  have hweight : ∀ b ∈ backends.filter (0 < ·.weight), 0 < b.weight := by
    intro b hb
    simpa using (List.mem_filter.mp hb).2
  have hid' : ∀ b ∈ backends.filter (0 < ·.weight), b.realId ≠ pbRealNone :=
    fun b hb => hid b (List.mem_of_mem_filter hb)
  have hactive : (∃ b ∈ backends, 0 < b.weight) →
      backends.filter (0 < ·.weight) ≠ [] := by
    rintro ⟨b, hb, hpos⟩
    exact List.ne_nil_of_mem (List.mem_filter.mpr ⟨hb, by simpa using hpos⟩)
  cases mode with
  | modulo =>
      obtain ⟨hlen, hfull⟩ := buildModulo_complete hweight hid' pbRingSize
      exact ⟨_, by simp only [buildRing, activeSorted_eq h], hlen, hfull ∘ hactive⟩
  | maglev =>
      obtain ⟨ring, hring, hlen, hfull⟩ :=
        buildMaglev_complete pbRingSize_prime hweight hid'
      exact ⟨ring, by simp only [buildRing, activeSorted_eq h, hring], hlen,
        hfull ∘ hactive⟩

theorem mem_buildRing {backends : List Backend} (h : AddrSorted backends)
    {mode : HashMode} {M : Nat} {ring : List Nat}
    (hring : buildRing backends mode M = .ok ring) {x : Nat} (hx : x ∈ ring) :
    x = pbRealNone ∨ ∃ b ∈ backends, 0 < b.weight ∧ b.realId = x := by
  -- The lock step of a ring with itself, under "equal and accounted for".
  let R : Nat → Nat → Prop := fun x y =>
    x = y ∧ (x = pbRealNone ∨ ∃ b ∈ backends, 0 < b.weight ∧ b.realId = x)
  have hR : KeepsNone R := ⟨⟨rfl, .inl rfl⟩, fun x y hxy => by rw [hxy.1]⟩
  have hsame : List.Forall₂ (SameBackend R) (backends.filter (0 < ·.weight))
      (backends.filter (0 < ·.weight)) := by
    refine List.forall₂_same.mpr fun b hb => ⟨rfl, rfl, rfl, .inr ?_⟩
    obtain ⟨hmem, hpos⟩ := List.mem_filter.mp hb
    exact ⟨b, hmem, by simpa using hpos, rfl⟩
  have hslots := buildRing_lockstep hR h h hsame hring hring
  exact (List.forall₂_same.mp hslots x hx).2

end PacketBalance
