import PacketBalance.RealTable
import PacketBalance.Lib.ModularWalk
import Mathlib.Data.Finset.Card
import Mathlib.Order.Interval.Finset.Nat
/-!
# The real table as a partial map from addresses to entries

A well-formed table keeps `by_addr_` and the slots inverse to each other, so all
that the rest of the control plane can see of it is, for each address, an id, a
reference count and a MAC.  `entry` is that view; different addresses have
different ids, and at most `pbMaxReals - 1` addresses have one.
-/

namespace PacketBalance

namespace RealTable

/-- What the table says about one address. -/
@[ext] structure Entry where
  id : Nat
  refs : Nat
  mac : Option Mac
deriving DecidableEq, Repr

structure WF (t : RealTable) : Prop where
  in_range : ∀ id, (t.slots id).addr ≠ 0 → 1 ≤ id ∧ id < pbMaxReals
  blank : ∀ id, (t.slots id).addr = 0 → t.slots id = {}
  byAddr_iff : ∀ a id, t.byAddr[a]? = some id ↔ a ≠ 0 ∧ (t.slots id).addr = a
  mac_ne : ∀ id m, (t.slots id).mac = some m → m ≠ Mac.zero
  cursor_range : 1 ≤ t.cursor ∧ t.cursor < pbMaxReals

def entry (t : RealTable) (a : UInt32) : Option Entry :=
  t.byAddr[a]?.map fun id => ⟨id, (t.slots id).refs, (t.slots id).mac⟩

def used (t : RealTable) : Finset UInt32 := t.byAddr.keys.toFinset

/-- The two arrays hold what the slots say; the MAC of a free slot is never
read and may be anything. -/
structure Mirror (t : RealTable) (d : CtlMaps) : Prop where
  reals : ∀ id, d.reals id = (t.slots id).addr
  neigh : ∀ id, (t.slots id).addr ≠ 0 → d.neigh id = (t.slots id).mac.getD Mac.zero

theorem new_wf : ({} : RealTable).WF where
  in_range _ h := absurd rfl h
  blank _ _ := rfl
  byAddr_iff a id := by
    simp only [Std.ExtTreeMap.getElem?_empty, reduceCtorEq, false_iff, not_and]
    exact fun ha h => ha h.symm
  mac_ne _ _ h := by cases h
  cursor_range := by decide

/-! ## Reading the view -/

section View

variable {t : RealTable}

theorem idOf_eq (t : RealTable) (a : UInt32) : t.idOf a = (t.entry a).map Entry.id := by
  simp [idOf, entry, Function.comp_def]

theorem macOf_eq (t : RealTable) (a : UInt32) : t.macOf a = (t.entry a).bind Entry.mac := by
  simp only [macOf, idOf, entry]
  cases t.byAddr[a]? <;> rfl

theorem mem_used {a : UInt32} : a ∈ t.used ↔ ∃ e, t.entry a = some e := by
  simp only [used, List.mem_toFinset, Std.ExtTreeMap.mem_keys, entry,
    Option.map_eq_some_iff, Std.ExtTreeMap.mem_iff_isSome_getElem?, Option.isSome_iff_exists]
  constructor
  · rintro ⟨id, h⟩
    exact ⟨_, id, h, rfl⟩
  · rintro ⟨_, id, h, -⟩
    exact ⟨id, h⟩

theorem notMem_used {a : UInt32} : a ∉ t.used ↔ t.entry a = none := by
  rw [mem_used, not_exists, Option.eq_none_iff_forall_ne_some]

theorem mem_addrs {a : UInt32} : a ∈ t.addrs ↔ a ∈ t.used := by
  simp [addrs, used]

theorem entry_eq_some (hwf : t.WF) {a : UInt32} {e : Entry} :
    t.entry a = some e ↔
      a ≠ 0 ∧ t.slots e.id = { addr := a, refs := e.refs, mac := e.mac } := by
  simp only [entry, Option.map_eq_some_iff, hwf.byAddr_iff]
  constructor
  · rintro ⟨id, ⟨ha, haddr⟩, rfl⟩
    exact ⟨ha, by rw [← haddr]⟩
  · rintro ⟨ha, hslot⟩
    exact ⟨e.id, ⟨ha, by rw [hslot]⟩, by rw [hslot]⟩

theorem WF.entry_ne_zero (hwf : t.WF) {a : UInt32} {e : Entry} (h : t.entry a = some e) :
    a ≠ 0 := ((entry_eq_some hwf).mp h).1

theorem WF.entry_slot (hwf : t.WF) {a : UInt32} {e : Entry} (h : t.entry a = some e) :
    t.slots e.id = { addr := a, refs := e.refs, mac := e.mac } :=
  ((entry_eq_some hwf).mp h).2

theorem WF.entry_range (hwf : t.WF) {a : UInt32} {e : Entry} (h : t.entry a = some e) :
    1 ≤ e.id ∧ e.id < pbMaxReals := by
  apply hwf.in_range
  rw [hwf.entry_slot h]
  exact hwf.entry_ne_zero h

theorem WF.entry_inj (hwf : t.WF) {a b : UInt32} {e e' : Entry} (h : t.entry a = some e)
    (h' : t.entry b = some e') (hid : e.id = e'.id) : a = b := by
  have hslot := hwf.entry_slot h
  rw [hid, hwf.entry_slot h'] at hslot
  exact (congrArg Slot.addr hslot).symm

theorem WF.entry_mac_ne (hwf : t.WF) {a : UInt32} {e : Entry} {m : Mac}
    (h : t.entry a = some e) (hm : e.mac = some m) : m ≠ Mac.zero := by
  apply hwf.mac_ne e.id
  rw [hwf.entry_slot h]
  exact hm

theorem WF.exists_entry (hwf : t.WF) {id : Nat} (h : (t.slots id).addr ≠ 0) :
    t.entry (t.slots id).addr = some ⟨id, (t.slots id).refs, (t.slots id).mac⟩ :=
  (entry_eq_some hwf).mpr ⟨h, rfl⟩

theorem Mirror.reals_entry {d : CtlMaps} (hm : t.Mirror d) (hwf : t.WF) {a : UInt32}
    {e : Entry} (h : t.entry a = some e) : d.reals e.id = a := by
  rw [hm.reals, hwf.entry_slot h]

theorem Mirror.neigh_entry {d : CtlMaps} (hm : t.Mirror d) (hwf : t.WF) {a : UInt32}
    {e : Entry} (h : t.entry a = some e) : d.neigh e.id = e.mac.getD Mac.zero := by
  have hslot := hwf.entry_slot h
  rw [hm.neigh e.id (by rw [hslot]; exact hwf.entry_ne_zero h), hslot]

/-- The `reals` array determines who has which id. -/
theorem Mirror.entry_of_reals {d : CtlMaps} (hm : t.Mirror d) (hwf : t.WF) {id : Nat}
    (h : d.reals id ≠ 0) : ∃ e, t.entry (d.reals id) = some e ∧ e.id = id := by
  rw [hm.reals] at h ⊢
  exact ⟨_, hwf.exists_entry h, rfl⟩

end View

/-! ## Capacity -/

def usedIds (t : RealTable) : Finset Nat :=
  (Finset.Icc 1 (pbMaxReals - 1)).filter fun id => (t.slots id).addr ≠ 0

private theorem mem_ids_iff {id : Nat} :
    id ∈ Finset.Icc 1 (pbMaxReals - 1) ↔ 1 ≤ id ∧ id < pbMaxReals := by
  have hmax : pbMaxReals = 512 := rfl
  rw [Finset.mem_Icc]
  omega

theorem WF.card_used (hwf : WF t) : t.used.card = t.usedIds.card := by
  have himage : t.used = t.usedIds.image fun id => (t.slots id).addr := by
    ext a
    simp only [Finset.mem_image, usedIds, Finset.mem_filter, mem_ids_iff, mem_used]
    constructor
    · rintro ⟨e, he⟩
      have hslot := hwf.entry_slot he
      exact ⟨e.id, ⟨hwf.entry_range he, by rw [hslot]; exact hwf.entry_ne_zero he⟩,
        by rw [hslot]⟩
    · rintro ⟨id, ⟨-, hne⟩, rfl⟩
      exact ⟨_, hwf.exists_entry hne⟩
  rw [himage, Finset.card_image_of_injOn]
  intro i hi j hj hij
  simp only [usedIds, Finset.coe_filter, Set.mem_ofPred_eq] at hi hj
  have hi' := (hwf.byAddr_iff (t.slots i).addr i).mpr ⟨hi.2, rfl⟩
  have hj' := (hwf.byAddr_iff (t.slots i).addr j).mpr ⟨hi.2, hij.symm⟩
  exact Option.some.inj (hi'.symm.trans hj')

theorem WF.card_used_le (hwf : WF t) : t.used.card ≤ pbMaxReals - 1 := by
  rw [hwf.card_used]
  exact (Finset.card_filter_le _ _).trans (by simp)

theorem WF.card_used_lt {t t' : RealTable} (hwf : WF t') {a : UInt32} {e : Entry}
    (hnone : t.entry a = none) (hentry : t'.entry = Function.update t.entry a (some e)) :
    t.used.card < pbMaxReals - 1 := by
  have hnot : a ∉ t.used := fun hmem => by
    obtain ⟨e', he'⟩ := mem_used.mp hmem
    rw [hnone] at he'
    cases he'
  have hsub : insert a t.used ⊆ t'.used := by
    intro b hb
    rw [mem_used, hentry]
    rcases Finset.mem_insert.mp hb with rfl | hb
    · simp
    · have hne : b ≠ a := fun heq => hnot (heq ▸ hb)
      rw [Function.update_of_ne hne]
      exact mem_used.mp hb
  have hcard := Nat.le_trans (Finset.card_le_card hsub) hwf.card_used_le
  rwa [Finset.card_insert_of_notMem hnot] at hcard

theorem WF.full_iff (hwf : WF t) :
    t.used.card = pbMaxReals - 1 ↔
      ∀ id, 1 ≤ id → id < pbMaxReals → (t.slots id).addr ≠ 0 := by
  have hcard : pbMaxReals - 1 = (Finset.Icc 1 (pbMaxReals - 1)).card := by simp
  rw [hwf.card_used]
  conv_lhs => rw [hcard]
  rw [usedIds, Finset.card_filter_eq_iff]
  simp only [mem_ids_iff, and_imp]

/-! ## The allocation walk -/

/-- Cursor positions are a modular walk over the ids, which start at 1. -/
private theorem nextCursor_eq {p : Nat} (hp : p < pbMaxReals - 1) :
    nextCursor (1 + p) = 1 + (p + 1) % (pbMaxReals - 1) := by
  have hmax : pbMaxReals = 512 := rfl
  simp only [nextCursor, hmax] at hp ⊢
  split <;> omega

theorem nextCursor_range {c : Nat} (hc : c < pbMaxReals) :
    1 ≤ nextCursor c ∧ nextCursor c < pbMaxReals := by
  have hmax : pbMaxReals = 512 := rfl
  simp only [nextCursor, hmax] at hc ⊢
  split <;> omega

/-- The id the next new address is given: the first free one from the cursor on. -/
def nextId (t : RealTable) : Option Nat := (findFree t.slots (pbMaxReals - 1) t.cursor).1

theorem findFree_some {slots : Nat → Slot} {n c id c' : Nat}
    (hc : 1 ≤ c ∧ c < pbMaxReals) (h : findFree slots n c = (some id, c')) :
    (1 ≤ id ∧ id < pbMaxReals) ∧ (slots id).addr = 0 ∧ 1 ≤ c' ∧ c' < pbMaxReals := by
  induction n generalizing c with
  | zero => simp [findFree] at h
  | succ n ih =>
      simp only [findFree] at h
      split_ifs at h with hused
      · exact ih (nextCursor_range hc.2) h
      · simp only [Prod.mk.injEq, Option.some.injEq] at h
        obtain ⟨rfl, rfl⟩ := h
        exact ⟨hc, not_not.mp hused, nextCursor_range hc.2⟩

private theorem findFree_none {slots : Nat → Slot} {n p c' : Nat} (hp : p < pbMaxReals - 1)
    (h : findFree slots n (1 + p) = (none, c')) :
    c' = 1 + ModularWalk.position (pbMaxReals - 1) p 1 n ∧
      ∀ j < n, (slots (1 + ModularWalk.position (pbMaxReals - 1) p 1 j)).addr ≠ 0 := by
  induction n generalizing p with
  | zero =>
      simp only [findFree, Prod.mk.injEq, true_and] at h
      exact ⟨by rw [ModularWalk.position_zero 1 hp, h], fun j hj => absurd hj (by omega)⟩
  | succ n ih =>
      simp only [findFree, nextCursor_eq hp] at h
      split_ifs at h with hused
      · obtain ⟨hend, hseen⟩ := ih (Nat.mod_lt _ (Nat.zero_lt_of_lt hp)) h
        simp only [ModularWalk.position_succ] at hend hseen
        refine ⟨hend, fun j hj => ?_⟩
        cases j with
        | zero => rwa [ModularWalk.position_zero 1 hp]
        | succ j => exact hseen j (by omega)
      · simp at h

/-- A full lap without a free slot: every id is taken, and the cursor is back
where it started. -/
theorem findFree_lap_none {slots : Nat → Slot} {c c' : Nat} (hc : 1 ≤ c ∧ c < pbMaxReals)
    (h : findFree slots (pbMaxReals - 1) c = (none, c')) :
    c' = c ∧ ∀ id, 1 ≤ id → id < pbMaxReals → (slots id).addr ≠ 0 := by
  obtain ⟨p, rfl⟩ := Nat.exists_eq_add_of_le hc.1
  have hp : p < pbMaxReals - 1 := by omega
  obtain ⟨hend, hseen⟩ := findFree_none hp h
  constructor
  · rw [hend, ModularWalk.position, Nat.mul_one, Nat.add_mod_right, Nat.mod_eq_of_lt hp]
  · intro id hpos hlt
    obtain ⟨q, rfl⟩ := Nat.exists_eq_add_of_le hpos
    obtain ⟨j, hj, hjq⟩ := ModularWalk.exists_position_eq
      (Nat.coprime_one_right (pbMaxReals - 1)) p (x := q) (by omega)
    rw [← hjq]
    exact hseen j hj

end RealTable

end PacketBalance
