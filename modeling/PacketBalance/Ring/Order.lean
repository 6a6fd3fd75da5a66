import PacketBalance.Ring.Shares
/-!
# The set of weighted backends

`build_ring` gets its backends in any order, with any ids, and with backends of weight 0
among them.  Only the set of (address, weight) pairs of the weighted ones matters: the
sort undoes the order, no decision looks at an id, and the check for duplicates sees the
weighted backends only.
-/

namespace PacketBalance

open scoped List

def weighted (backends : List Backend) : List Backend := backends.filter (0 < ·.weight)

def byAddr (backends : List Backend) : List Backend := backends.insertionSort (·.addr ≤ ·.addr)

def Backend.rename (f : Nat → Nat) (b : Backend) : Backend := { b with realId := f b.realId }

/-- The weighted backends of the two lists are the same but for their order, and for their
ids, which are renamed. -/
def SameSet (f : Nat → Nat) (xs ys : List Backend) : Prop :=
  (weighted ys).Perm ((weighted xs).map (Backend.rename f))

theorem mem_weighted {backends : List Backend} {b : Backend} :
    b ∈ weighted backends ↔ b ∈ backends ∧ 0 < b.weight := by
  simp [weighted]

theorem weighted_of_pos {backends : List Backend} (h : ∀ b ∈ backends, 0 < b.weight) :
    weighted backends = backends := by
  rw [weighted, List.filter_eq_self]
  simpa using h

/-! ## Sorting by address -/

theorem byAddr_perm (backends : List Backend) : (byAddr backends).Perm backends :=
  List.perm_insertionSort _ backends

theorem mem_byAddr {backends : List Backend} {b : Backend} :
    b ∈ byAddr backends ↔ b ∈ backends := (byAddr_perm backends).mem_iff

theorem pairwise_byAddr (backends : List Backend) :
    (byAddr backends).Pairwise (·.addr ≤ ·.addr) := by
  have htotal : Std.Total fun b c : Backend => b.addr ≤ c.addr :=
    ⟨fun b c => UInt32.le_total b.addr c.addr⟩
  have htrans : IsTrans Backend fun b c => b.addr ≤ c.addr :=
    ⟨fun _ _ _ hbc hcd => UInt32.le_trans hbc hcd⟩
  exact List.pairwise_insertionSort _ backends

theorem addrSorted_byAddr {backends : List Backend} (h : (backends.map Backend.addr).Nodup) :
    AddrSorted (byAddr backends) := by
  have hnodup : ((byAddr backends).map Backend.addr).Nodup :=
    ((byAddr_perm backends).map Backend.addr).nodup_iff.mpr h
  rw [List.Nodup, List.pairwise_map] at hnodup
  exact (pairwise_byAddr backends).imp₂
    (fun b c hle hne => UInt32.lt_of_le_of_ne hle hne) hnodup

theorem AddrSorted.eq_of_perm {xs ys : List Backend} (hxs : AddrSorted xs) (hys : AddrSorted ys)
    (h : xs.Perm ys) : xs = ys :=
  h.eq_of_pairwise (fun _ _ _ _ hlt hgt => absurd hgt (UInt32.lt_asymm hlt)) hxs hys

theorem AddrSorted.rename {backends : List Backend} (h : AddrSorted backends) (f : Nat → Nat) :
    AddrSorted (backends.map (Backend.rename f)) := List.pairwise_map.mpr h

/-! ## Duplicates -/

theorem adjacentFind_eq_none_iff {l : List Backend} (h : l.Pairwise (·.addr ≤ ·.addr)) :
    adjacentFind l = none ↔ (l.map Backend.addr).Nodup := by
  induction l with
  | nil => simp [adjacentFind]
  | cons x rest ih =>
      obtain ⟨hx, hrest⟩ := List.pairwise_cons.mp h
      cases rest with
      | nil => simp [adjacentFind]
      | cons y rest =>
          rw [adjacentFind, List.map_cons, List.nodup_cons, ← ih hrest]
          by_cases heq : x.addr = y.addr
          · simp [heq]
          · rw [if_neg heq]
            have hnot : x.addr ∉ (y :: rest).map Backend.addr := by
              intro hmem
              obtain ⟨z, hz, hzx⟩ := List.mem_map.mp hmem
              have hxy := hx y List.mem_cons_self
              rcases List.mem_cons.mp hz with rfl | hz
              · exact heq hzx.symm
              · have hyz := (List.pairwise_cons.mp hrest).1 z hz
                rw [hzx] at hyz
                exact heq (UInt32.le_antisymm hxy hyz)
            rw [and_iff_right hnot]

theorem activeSorted_ok {backends : List Backend}
    (h : ((weighted backends).map Backend.addr).Nodup) :
    activeSorted backends = .ok (byAddr (weighted backends)) := by
  have hnone : adjacentFind (byAddr (weighted backends)) = none :=
    (adjacentFind_eq_none_iff (pairwise_byAddr _)).mpr
      (((byAddr_perm _).map Backend.addr).nodup_iff.mpr h)
  simp only [activeSorted]
  rw [← weighted, ← byAddr, hnone]

theorem activeSorted_error {backends : List Backend}
    (h : ¬((weighted backends).map Backend.addr).Nodup) :
    ∃ text, activeSorted backends = .error (.invalidArgument text) := by
  have hsome : adjacentFind (byAddr (weighted backends)) ≠ none := fun hnone =>
    h (((byAddr_perm _).map Backend.addr).nodup_iff.mp
      ((adjacentFind_eq_none_iff (pairwise_byAddr _)).mp hnone))
  obtain ⟨addr, haddr⟩ := Option.ne_none_iff_exists'.mp hsome
  simp only [activeSorted]
  rw [← weighted, ← byAddr, haddr]
  exact ⟨_, rfl⟩

/-! ## The ring of a set -/

theorem pos_of_mem_byAddr_weighted (backends : List Backend) :
    ∀ b ∈ byAddr (weighted backends), 0 < b.weight := fun _ hb =>
  (mem_weighted.mp (mem_byAddr.mp hb)).2

theorem exists_buildMaglev {M : Nat} (hM : M = 1 ∨ M.Prime) {sorted : List Backend}
    (hweight : ∀ b ∈ sorted, 0 < b.weight) : ∃ ring, buildMaglev sorted M = some ring := by
  by_cases hne : sorted = []
  · exact ⟨_, if_pos (.inl hne)⟩
  · obtain ⟨ring, hring, -⟩ := buildMaglev_perm hM hne hweight
    exact ⟨ring, hring⟩

theorem exists_buildRing {M : Nat} (hM : M = 1 ∨ M.Prime) {backends : List Backend}
    (h : ((weighted backends).map Backend.addr).Nodup) (mode : HashMode) :
    ∃ ring, buildRing backends mode M = .ok ring := by
  cases mode with
  | maglev =>
      obtain ⟨ring, hring⟩ := exists_buildMaglev hM (pos_of_mem_byAddr_weighted backends)
      exact ⟨ring, by simp only [buildRing, activeSorted_ok h, hring]⟩
  | modulo =>
      exact ⟨buildModulo (byAddr (weighted backends)) M,
        by simp only [buildRing, activeSorted_ok h]⟩

/-- `build_ring` throws exactly on two weighted backends of one address, and otherwise
returns. -/
theorem buildRing_throws_iff {M : Nat} (hM : M = 1 ∨ M.Prime) (backends : List Backend)
    (mode : HashMode) :
    (∃ text, buildRing backends mode M = .error (.invalidArgument text)) ↔
      ¬((weighted backends).map Backend.addr).Nodup := by
  constructor
  · rintro ⟨text, herr⟩ hnodup
    obtain ⟨ring, hring⟩ := exists_buildRing hM hnodup mode
    rw [hring] at herr
    cases herr
  · intro hdup
    obtain ⟨text, herr⟩ := activeSorted_error hdup
    exact ⟨text, by simp only [buildRing, herr]⟩

theorem buildRing_byAddr {backends : List Backend}
    (h : ((weighted backends).map Backend.addr).Nodup) (mode : HashMode) (M : Nat) :
    buildRing backends mode M = buildRing (byAddr (weighted backends)) mode M := by
  have hsorted : activeSorted (byAddr (weighted backends)) = .ok (byAddr (weighted backends)) := by
    rw [activeSorted_eq (addrSorted_byAddr h), ← weighted,
      weighted_of_pos (pos_of_mem_byAddr_weighted backends)]
  simp only [buildRing, activeSorted_ok h, hsorted]

def renameSlot (f : Nat → Nat) (x : Nat) : Nat := if x = pbRealNone then pbRealNone else f x

theorem renameSlot_keepsNone (f : Nat → Nat) :
    KeepsNone fun x y => y = renameSlot f x ∧ (x = pbRealNone ↔ y = pbRealNone) :=
  ⟨⟨by simp [renameSlot], Iff.rfl⟩, fun _ _ h => h.2⟩

theorem eq_map_of_forall₂ {g : Nat → Nat} {p : Nat → Nat → Prop} {xs ys : List Nat}
    (h : List.Forall₂ (fun x y => y = g x ∧ p x y) xs ys) : ys = xs.map g := by
  induction h with
  | nil => rfl
  | cons hhead _ ih => rw [hhead.1, ih, List.map_cons]

theorem SameSet.nodup {f : Nat → Nat} {xs ys : List Backend} (h : SameSet f xs ys)
    (haddr : ((weighted xs).map Backend.addr).Nodup) :
    ((weighted ys).map Backend.addr).Nodup := by
  rw [(h.map Backend.addr).nodup_iff, List.map_map]
  exact haddr

theorem SameSet.byAddr_eq {f : Nat → Nat} {xs ys : List Backend} (h : SameSet f xs ys)
    (haddr : ((weighted xs).map Backend.addr).Nodup) :
    byAddr (weighted ys) = (byAddr (weighted xs)).map (Backend.rename f) := by
  refine (addrSorted_byAddr (h.nodup haddr)).eq_of_perm ((addrSorted_byAddr haddr).rename f) ?_
  calc byAddr (weighted ys)
      ~ weighted ys := byAddr_perm _
    _ ~ (weighted xs).map (Backend.rename f) := h
    _ ~ (byAddr (weighted xs)).map (Backend.rename f) := (byAddr_perm _).symm.map _

theorem SameSet.buildRing_eq {f : Nat → Nat} {xs ys : List Backend} (h : SameSet f xs ys)
    (haddr : ((weighted xs).map Backend.addr).Nodup)
    (hid : ∀ b ∈ weighted xs, f b.realId = pbRealNone ↔ b.realId = pbRealNone)
    {M : Nat} (hM : M = 1 ∨ M.Prime) (mode : HashMode) :
    ∃ ring, buildRing xs mode M = .ok ring ∧
      buildRing ys mode M = .ok (ring.map (renameSlot f)) := by
  obtain ⟨ring, hring⟩ := exists_buildRing hM haddr mode
  obtain ⟨ring', hring'⟩ := exists_buildRing hM (h.nodup haddr) mode
  refine ⟨ring, hring, ?_⟩
  have hsorted := addrSorted_byAddr haddr
  -- the two lists of active backends agree in address and weight, one by one
  have hsame : List.Forall₂
      (SameBackend fun x y => y = renameSlot f x ∧ (x = pbRealNone ↔ y = pbRealNone))
      (weighted (byAddr (weighted xs)))
      (weighted ((byAddr (weighted xs)).map (Backend.rename f))) := by
    have hpos := pos_of_mem_byAddr_weighted xs
    have hpos' : ∀ b ∈ (byAddr (weighted xs)).map (Backend.rename f), 0 < b.weight := by
      intro b hb
      obtain ⟨c, hc, rfl⟩ := List.mem_map.mp hb
      exact hpos c hc
    rw [weighted_of_pos hpos, weighted_of_pos hpos', List.forall₂_map_right_iff,
      List.forall₂_same]
    intro b hb
    have hnone := hid b (mem_byAddr.mp hb)
    refine ⟨rfl, rfl, ?_, hnone.symm⟩
    rw [renameSlot]
    split_ifs with hb
    · exact hnone.mpr hb
    · rfl
  rw [buildRing_byAddr haddr] at hring
  rw [buildRing_byAddr (h.nodup haddr), h.byAddr_eq haddr] at hring'
  have hslots := buildRing_lockstep (renameSlot_keepsNone f) hsorted (hsorted.rename f) hsame
    hring hring'
  rw [buildRing_byAddr (h.nodup haddr), h.byAddr_eq haddr, hring', eq_map_of_forall₂ hslots]

theorem weighted_rename (f : Nat → Nat) (backends : List Backend) :
    weighted (backends.map (Backend.rename f)) = (weighted backends).map (Backend.rename f) := by
  rw [weighted, List.filter_map]
  rfl

theorem SameSet.rename (f : Nat → Nat) (backends : List Backend) :
    SameSet f backends (backends.map (Backend.rename f)) := by
  rw [SameSet, weighted_rename]

/-- A name for each backend that can be undone. -/
structure Renames (f g : Nat → Nat) (backends : List Backend) : Prop where
  nodup : (backends.map Backend.addr).Nodup
  back : ∀ b ∈ backends, g (f b.realId) = b.realId
  id_ne : ∀ b ∈ backends, b.realId ≠ pbRealNone
  name_ne : ∀ b ∈ backends, f b.realId ≠ pbRealNone

theorem Renames.symm {f g : Nat → Nat} {backends : List Backend} (h : Renames f g backends) :
    Renames g f (backends.map (Backend.rename f)) := by
  refine ⟨?_, ?_, ?_, ?_⟩
  · rw [List.map_map]
    exact h.nodup
  all_goals
    rw [List.forall_mem_map]
    intro b hb
    simp only [Backend.rename, h.back b hb]
  · exact h.name_ne b hb
  · exact h.id_ne b hb

theorem Renames.undo {f g : Nat → Nat} {backends : List Backend} (h : Renames f g backends) :
    (backends.map (Backend.rename f)).map (Backend.rename g) = backends := by
  rw [List.map_map]
  refine (List.map_congr_left fun b hb => ?_).trans (List.map_id backends)
  simp only [Function.comp_apply, Backend.rename, h.back b hb, id_eq]

theorem Renames.buildRing_rename {f g : Nat → Nat} {xs ys : List Backend} (hx : Renames f g xs)
    (hy : Renames f g ys) {M : Nat} (hM : M = 1 ∨ M.Prime) (mode : HashMode)
    (h : buildRing xs mode M = buildRing ys mode M) :
    buildRing (xs.map (Backend.rename f)) mode M =
      buildRing (ys.map (Backend.rename f)) mode M := by
  have hring : ∀ {zs}, Renames f g zs → ∃ ring, buildRing zs mode M = .ok ring ∧
      buildRing (zs.map (Backend.rename f)) mode M = .ok (ring.map (renameSlot f)) :=
    fun {zs} hz => (SameSet.rename f zs).buildRing_eq
      (hz.nodup.sublist (List.filter_sublist.map _))
      (fun b hb => iff_of_false (hz.name_ne b (mem_weighted.mp hb).1)
        (hz.id_ne b (mem_weighted.mp hb).1)) hM mode
  obtain ⟨r₁, hr₁, hr₁'⟩ := hring hx
  obtain ⟨r₂, hr₂, hr₂'⟩ := hring hy
  rw [hr₁, hr₂] at h
  rw [hr₁', hr₂', Except.ok.inj h]

/-- Whether two sets of backends make the same ring does not depend on the ids. -/
theorem Renames.buildRing_eq_iff {f g : Nat → Nat} {xs ys : List Backend} (hx : Renames f g xs)
    (hy : Renames f g ys) {M : Nat} (hM : M = 1 ∨ M.Prime) (mode : HashMode) :
    buildRing (xs.map (Backend.rename f)) mode M = buildRing (ys.map (Backend.rename f)) mode M ↔
      buildRing xs mode M = buildRing ys mode M := by
  refine ⟨fun h => ?_, hx.buildRing_rename hy hM mode⟩
  have hback := hx.symm.buildRing_rename hy.symm hM mode h
  rwa [hx.undo, hy.undo] at hback

/-- The ring is a function of the set of weighted addresses and their weights, up to the
names of the ids; and it is refused exactly when two weighted backends share an address. -/
theorem ring_of_weighted_set {M : Nat} (hM : M.Prime) (mode : HashMode) :
    (∀ (f : Nat → Nat) (xs ys : List Backend), ((weighted xs).map Backend.addr).Nodup →
      (∀ b ∈ weighted xs, f b.realId = pbRealNone ↔ b.realId = pbRealNone) → SameSet f xs ys →
      ∃ ring, buildRing xs mode M = .ok ring ∧
        buildRing ys mode M = .ok (ring.map (renameSlot f))) ∧
    ∀ backends, buildRing backends mode M ≠ .error .diverges ∧
      ((∃ text, buildRing backends mode M = .error (.invalidArgument text)) ↔
        ¬((weighted backends).map Backend.addr).Nodup) := by
  refine ⟨fun f xs ys haddr hid h => h.buildRing_eq haddr hid (.inr hM) mode,
    fun backends => ⟨fun hdiv => ?_, buildRing_throws_iff (.inr hM) backends mode⟩⟩
  by_cases hnodup : ((weighted backends).map Backend.addr).Nodup
  · obtain ⟨ring, hring⟩ := exists_buildRing (.inr hM) hnodup mode
    rw [hring] at hdiv
    cases hdiv
  · obtain ⟨text, herr⟩ := (buildRing_throws_iff (.inr hM) backends mode).mpr hnodup
    rw [herr] at hdiv
    cases hdiv

theorem ring_of_weighted_set_sample :
    ∃ ring, buildRing [⟨1, 0x0a00000a, 1⟩, ⟨2, 0x1400000a, 3⟩, ⟨9, 0x0a00000a, 0⟩] .maglev
        pbRingSize = .ok ring ∧
      buildRing [⟨12, 0x1400000a, 3⟩, ⟨11, 0x0a00000a, 1⟩] .maglev pbRingSize =
        .ok (ring.map (renameSlot (· + 10))) :=
  (ring_of_weighted_set pbRingSize_prime .maglev).1 (· + 10) _ _ (by decide) (by decide)
    (by unfold SameSet; decide)

end PacketBalance
