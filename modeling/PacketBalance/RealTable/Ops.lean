import PacketBalance.Lib.OrdMap
import PacketBalance.RealTable.Abstract
/-!
# What the table's operations do

Every operation changes the view at one address at most and keeps the table well
formed and mirrored in the two arrays.  The specifications leave the guarantee
on single writes open: filling a slot makes `SlotWrite`s only, and what freeing
one needs is a premise of the operations that free.
-/

namespace PacketBalance

open WriteLog

/-- Updating an element of a BPF array within its bounds never fails. -/
structure ArrayOk (env : Env) : Prop where
  neigh : ∀ id mac, env.fault (.neighWrite id mac) = none
  real : ∀ id addr, env.fault (.realWrite id addr) = none

structure CtlMaps.SameElse (d d' : CtlMaps) : Prop where
  vipMap : d'.vipMap = d.vipMap
  rings : d'.rings = d.rings
  config : d'.config = d.config

theorem CtlMaps.SameElse.refl (d : CtlMaps) : d.SameElse d := ⟨rfl, rfl, rfl⟩

theorem CtlMaps.SameElse.trans {d d' d'' : CtlMaps} (h : d.SameElse d')
    (h' : d'.SameElse d'') : d.SameElse d'' :=
  ⟨h'.vipMap.trans h.vipMap, h'.rings.trans h.rings, h'.config.trans h.config⟩

/-- No two slots of `reals` hold one address, and only ids hold any. -/
structure CtlMaps.RealsOk (d : CtlMaps) : Prop where
  range : ∀ id, d.reals id ≠ 0 → 1 ≤ id ∧ id < pbMaxReals
  inj : ∀ i j, d.reals i ≠ 0 → d.reals i = d.reals j → i = j

theorem CtlMaps.RealsOk.congr {d d' : CtlMaps} (h : d.RealsOk) (heq : d'.reals = d.reals) :
    d'.RealsOk :=
  ⟨fun id => by rw [heq]; exact h.range id, fun i j => by rw [heq]; exact h.inj i j⟩

/-- The writes of filling a slot or setting its MAC: an unused slot may be
written freely, a slot in use keeps its address and gets a real MAC. -/
inductive SlotWrite (d : CtlMaps) : MapWrite → Prop
  | reset (id : Nat) (hfree : d.reals id = 0) : SlotWrite d (.realStatsReset id)
  | blankMac (id : Nat) (mac : Mac) (hfree : d.reals id = 0) :
      SlotWrite d (.neighWrite id mac)
  | setMac (id : Nat) (mac : Mac) (hmac : mac ≠ Mac.zero) : SlotWrite d (.neighWrite id mac)
  | fill (id : Nat) (addr : UInt32) (hrange : 1 ≤ id ∧ id < pbMaxReals)
      (hfree : d.reals id = 0) (hnew : ∀ j, d.reals j ≠ addr) :
      SlotWrite d (.realWrite id addr)
  | rewrite (id : Nat) (addr : UInt32) (hsame : d.reals id = addr) :
      SlotWrite d (.realWrite id addr)

def CtlMaps.putSlot (d : CtlMaps) (id : Nat) (s : Slot) : CtlMaps :=
  { d with
    reals := Function.update d.reals id s.addr
    neigh := Function.update d.neigh id (s.mac.getD Mac.zero) }

namespace RealTable

/-! ## Changing one slot -/

section Pure

variable {t : RealTable}

theorem WF.cursor (hwf : t.WF) {c : Nat} (hc : 1 ≤ c ∧ c < pbMaxReals) :
    WF { t with cursor := c } :=
  { hwf with cursor_range := hc }

/-- The view is read off the slots, so one changed slot changes it at the
addresses the slot had and has. -/
private theorem entry_eq_update {t' : RealTable} (hwf : t.WF) (hwf' : t'.WF) (id : Nat)
    (a : UInt32) (hother : ∀ j, j ≠ id → t'.slots j = t.slots j)
    (hold : (t.slots id).addr = 0 ∨ (t.slots id).addr = a)
    (hnew : (t'.slots id).addr = 0 ∨ (t'.slots id).addr = a)
    (helse : ∀ e, t.entry a = some e → e.id = id) :
    t'.entry = Function.update t.entry a
      (if (t'.slots id).addr = 0 then none
        else some ⟨id, (t'.slots id).refs, (t'.slots id).mac⟩) := by
  funext b
  by_cases hb : b = a
  · subst hb
    rw [Function.update_self]
    split_ifs with hzero
    · rw [Option.eq_none_iff_forall_ne_some]
      intro e he
      obtain ⟨hne, hslot⟩ := (entry_eq_some hwf').mp he
      by_cases hid : e.id = id
      · rw [hid] at hslot
        rw [hslot] at hzero
        exact hne hzero
      · rw [hother _ hid] at hslot
        exact hid (helse e ((entry_eq_some hwf).mpr ⟨hne, hslot⟩))
    · have haddr := hnew.resolve_left hzero
      rw [← haddr]
      exact hwf'.exists_entry hzero
  · rw [Function.update_of_ne hb]
    ext e
    rw [entry_eq_some hwf', entry_eq_some hwf]
    refine and_congr_right fun hne => ?_
    by_cases hid : e.id = id
    · rw [hid]
      constructor <;> intro hslot
      · rw [hslot] at hnew
        exact absurd hnew (by simp [hne, hb])
      · rw [hslot] at hold
        exact absurd hold (by simp [hne, hb])
    · rw [hother _ hid]

theorem WF.update (hwf : t.WF) {a : UInt32} {e : Entry} (he : t.entry a = some e)
    (refs : Nat) (mac : Option Mac) (hmac : ∀ m, mac = some m → m ≠ Mac.zero) :
    WF (t.setSlot e.id ⟨a, refs, mac⟩) ∧
      (t.setSlot e.id ⟨a, refs, mac⟩).entry =
        Function.update t.entry a (some ⟨e.id, refs, mac⟩) := by
  have hne := hwf.entry_ne_zero he
  have hslot := hwf.entry_slot he
  have haddr : ∀ j, ((t.setSlot e.id ⟨a, refs, mac⟩).slots j).addr = (t.slots j).addr := by
    intro j
    by_cases hj : j = e.id
    · subst hj
      simp [setSlot, hslot]
    · simp [setSlot, hj]
  have hwf' : WF (t.setSlot e.id ⟨a, refs, mac⟩) := by
    refine ⟨fun j hj => hwf.in_range j (haddr j ▸ hj), ?_, ?_, ?_, hwf.cursor_range⟩
    · intro j hj
      have hj' : j ≠ e.id := by
        rintro rfl
        rw [haddr, hslot] at hj
        exact hne hj
      simp only [setSlot, Function.update_of_ne hj']
      exact hwf.blank j (haddr j ▸ hj)
    · intro b j
      rw [haddr]
      exact hwf.byAddr_iff b j
    · intro j m hm
      by_cases hj : j = e.id
      · subst hj
        exact hmac m (by simpa [setSlot] using hm)
      · exact hwf.mac_ne j m (by simpa [setSlot, hj] using hm)
  refine ⟨hwf', ?_⟩
  rw [entry_eq_update hwf hwf' e.id a (fun j hj => by simp [setSlot, hj])
    (.inr (by rw [hslot])) (.inr (by simp [setSlot])) ?_]
  · simp [setSlot, hne]
  · intro e₁ he₁
    rw [he] at he₁
    rw [Option.some.inj he₁]

theorem WF.fill (hwf : t.WF) {a : UInt32} (ha : a ≠ 0) (hnone : t.entry a = none) {id : Nat}
    (hrange : 1 ≤ id ∧ id < pbMaxReals) (hfree : (t.slots id).addr = 0) (refs : Nat) :
    WF { t.setSlot id ⟨a, refs, none⟩ with byAddr := t.byAddr.insert a id } ∧
      RealTable.entry { t.setSlot id ⟨a, refs, none⟩ with byAddr := t.byAddr.insert a id } =
        Function.update t.entry a (some ⟨id, refs, none⟩) := by
  have hunused : ∀ j, (t.slots j).addr ≠ a := by
    rintro j rfl
    rw [hwf.exists_entry ha] at hnone
    cases hnone
  have hwf' : WF { t.setSlot id ⟨a, refs, none⟩ with byAddr := t.byAddr.insert a id } := by
    refine ⟨?_, ?_, ?_, ?_, hwf.cursor_range⟩ <;> dsimp only [setSlot]
    · intro j hj
      by_cases hid : j = id
      · exact hid ▸ hrange
      · exact hwf.in_range j (by simpa [hid] using hj)
    · intro j hj
      by_cases hid : j = id
      · subst hid
        simp [ha] at hj
      · simp only [Function.update_of_ne hid] at hj ⊢
        exact hwf.blank j hj
    · intro b j
      rw [OrdMap.getElem?_insert]
      by_cases hb : b = a
      · subst hb
        simp only [if_true, Option.some.injEq]
        by_cases hid : j = id
        · subst hid
          simp [ha]
        · simp [hid, Ne.symm hid, hunused j]
      · rw [if_neg hb, hwf.byAddr_iff]
        by_cases hid : j = id
        · subst hid
          simp only [Function.update_self]
          rw [hfree]
          exact ⟨fun h => absurd h.2.symm h.1, fun h => absurd h.2.symm hb⟩
        · simp [hid]
    · intro j m hm
      by_cases hid : j = id
      · subst hid
        simp at hm
      · exact hwf.mac_ne j m (by simpa [hid] using hm)
  refine ⟨hwf', ?_⟩
  rw [entry_eq_update hwf hwf' id a (fun j hj => by simp [setSlot, hj]) (.inl hfree)
    (.inr (by simp [setSlot])) (by simp [hnone])]
  simp [setSlot, ha]

theorem WF.clear (hwf : t.WF) {a : UInt32} {e : Entry} (he : t.entry a = some e) :
    WF { t.setSlot e.id {} with byAddr := t.byAddr.erase a } ∧
      RealTable.entry { t.setSlot e.id {} with byAddr := t.byAddr.erase a } =
        Function.update t.entry a none := by
  have hne := hwf.entry_ne_zero he
  have hslot := hwf.entry_slot he
  have hwf' : WF { t.setSlot e.id {} with byAddr := t.byAddr.erase a } := by
    refine ⟨?_, ?_, ?_, ?_, hwf.cursor_range⟩ <;> dsimp only [setSlot]
    · intro j hj
      by_cases hid : j = e.id
      · simp [hid] at hj
      · exact hwf.in_range j (by simpa [hid] using hj)
    · intro j hj
      by_cases hid : j = e.id
      · simp [hid]
      · simp only [Function.update_of_ne hid] at hj ⊢
        exact hwf.blank j hj
    · intro b j
      rw [OrdMap.getElem?_erase]
      by_cases hb : b = a
      · subst hb
        simp only [if_true, reduceCtorEq, false_iff, not_and]
        intro _ haddr
        by_cases hid : j = e.id
        · simp [hid] at haddr
          exact hne haddr.symm
        · rw [Function.update_of_ne hid] at haddr
          have hused : (t.slots j).addr ≠ 0 := haddr ▸ hne
          have hj := hwf.exists_entry hused
          rw [haddr, he] at hj
          exact hid (congrArg Entry.id (Option.some.inj hj)).symm
      · rw [if_neg hb, hwf.byAddr_iff]
        by_cases hid : j = e.id
        · subst hid
          simp only [Function.update_self, hslot]
          exact ⟨fun h => absurd h.2.symm hb, fun h => absurd h.2.symm h.1⟩
        · simp [hid]
    · intro j m hm
      by_cases hid : j = e.id
      · simp [hid] at hm
      · exact hwf.mac_ne j m (by simpa [hid] using hm)
  refine ⟨hwf', ?_⟩
  rw [entry_eq_update hwf hwf' e.id a (fun j hj => by simp [setSlot, hj])
    (.inr (by rw [hslot])) (.inl (by simp [setSlot])) ?_]
  · simp [setSlot]
  · intro e₁ he₁
    rw [he] at he₁
    rw [Option.some.inj he₁]

end Pure

/-! ## The arrays after a slot is written -/

/-- The table is well formed and the arrays mirror it. -/
structure Sound (t : RealTable) (d : CtlMaps) : Prop where
  wf : t.WF
  mirror : t.Mirror d

theorem Sound.congr {t : RealTable} {d d' : CtlMaps} (h : t.Sound d)
    (hreals : d'.reals = d.reals) (hneigh : d'.neigh = d.neigh) : t.Sound d' :=
  ⟨h.wf, fun id => by rw [hreals, h.mirror.reals],
    fun id hne => by rw [hneigh, h.mirror.neigh id hne]⟩

section Arrays

variable {t : RealTable} {d : CtlMaps} {env : Env}
variable {G : CtlMaps → MapWrite → Prop} {Q : Unit → CtlMaps → RealTable → Prop}
variable {E : LbError → CtlMaps → RealTable → Prop}

theorem Mirror.of_slots {t' : RealTable} (hm : t.Mirror d) (hslots : t'.slots = t.slots) :
    t'.Mirror d :=
  ⟨fun id => by rw [hslots, hm.reals], fun id => by rw [hslots]; exact hm.neigh id⟩

theorem Mirror.putSlot (hm : t.Mirror d) (id : Nat) (s : Slot) :
    (t.setSlot id s).Mirror (d.putSlot id s) := by
  constructor
  · intro j
    by_cases hj : j = id
    · subst hj
      simp [CtlMaps.putSlot, setSlot]
    · simp [CtlMaps.putSlot, setSlot, hj, hm.reals]
  · intro j hne
    by_cases hj : j = id
    · subst hj
      simp [CtlMaps.putSlot, setSlot]
    · simp only [CtlMaps.putSlot, setSlot, Function.update_of_ne hj] at hne ⊢
      exact hm.neigh j hne

theorem Mirror.setRefs (hm : t.Mirror d) (id refs : Nat) :
    (t.setSlot id { t.slots id with refs }).Mirror d := by
  constructor
  · intro j
    by_cases hj : j = id
    · subst hj
      simp [setSlot, hm.reals]
    · simp [setSlot, hj, hm.reals]
  · intro j hne
    by_cases hj : j = id
    · subst hj
      simp only [setSlot, Function.update_self] at hne ⊢
      exact hm.neigh j hne
    · simp only [setSlot, Function.update_of_ne hj] at hne ⊢
      exact hm.neigh j hne

theorem wp_writeNeigh (henv : ArrayOk env) (id : Nat) (mac : Mac) :
    wp (writeNeigh env id mac) G Q E d t ↔
      G d (.neighWrite id mac) ∧ Q () (Durable.write d (.neighWrite id mac)) t := by
  simp only [writeNeigh, henv.neigh, wp_emit]

theorem wp_writeReal (henv : ArrayOk env) (id : Nat) (addr : UInt32) :
    wp (writeReal env id addr) G Q E d t ↔
      G d (.realWrite id addr) ∧ Q () (Durable.write d (.realWrite id addr)) t := by
  simp only [writeReal, henv.real, wp_emit]

/-- A slot in use: the MAC first, then the address. -/
theorem wp_writeSlot_used (henv : ArrayOk env) {id : Nat} (hne : (t.slots id).addr ≠ 0) :
    wp (writeSlot env id) G Q E d t ↔
      G d (.neighWrite id ((t.slots id).mac.getD Mac.zero)) ∧
      G (Durable.write d (.neighWrite id ((t.slots id).mac.getD Mac.zero)))
        (.realWrite id (t.slots id).addr) ∧
      Q () (d.putSlot id (t.slots id)) t := by
  simp only [writeSlot, wp_bind, wp_get, hne, ne_eq, not_false_eq_true, if_true,
    wp_writeNeigh henv, wp_writeReal henv]
  exact Iff.rfl

/-- A free slot: the address first, then the MAC. -/
theorem wp_writeSlot_free (henv : ArrayOk env) {id : Nat} (hfree : (t.slots id).addr = 0) :
    wp (writeSlot env id) G Q E d t ↔
      G d (.realWrite id 0) ∧
      G (Durable.write d (.realWrite id 0))
        (.neighWrite id ((t.slots id).mac.getD Mac.zero)) ∧
      Q () (d.putSlot id (t.slots id)) t := by
  simp only [writeSlot, wp_bind, wp_get, hfree, ne_eq, not_true_eq_false, if_false,
    wp_writeNeigh henv, wp_writeReal henv]
  rw [CtlMaps.putSlot, hfree]
  exact Iff.rfl

end Arrays

/-! ## acquire, set_mac, release -/

section Specs

variable {t : RealTable} {d : CtlMaps} {env : Env} {G : CtlMaps → MapWrite → Prop}

/-- An entry after one more VIP refers to its address, where a MAC that was
unknown is now `answer`. -/
structure Joined (old : Option Entry) (answer : Option Mac) (e : Entry) : Prop where
  id : ∀ e₀, old = some e₀ → e.id = e₀.id
  refs : e.refs = old.elim 0 Entry.refs + 1
  mac : e.mac = (old.bind Entry.mac).or answer

theorem acquire_spec (henv : ArrayOk env) (ht : t.Sound d) {a : UInt32} (ha : a ≠ 0)
    (hG : t.entry a = none → ∀ d w, SlotWrite d w → G d w) :
    wp (acquire env a) G
      (fun id d' t' => t'.Sound d' ∧ d.SameElse d' ∧ ∃ e, e.id = id ∧
        t'.entry = Function.update t.entry a (some e) ∧ Joined (t.entry a) none e ∧
        (t.entry a = none → t.nextId = some e.id))
      (fun err d' t' => err = tooManyReals ∧ d' = d ∧ t' = t ∧ t.entry a = none ∧
        t.used.card = pbMaxReals - 1) d t := by
  simp only [acquire, if_neg ha, wp_bind, wp_get]
  cases hid : t.byAddr[a]? with
  | some id =>
      have he : t.entry a = some ⟨id, (t.slots id).refs, (t.slots id).mac⟩ := by
        simp [entry, hid]
      have haddr : (t.slots id).addr = a := by rw [ht.wf.entry_slot he]
      obtain ⟨hwf', hentry⟩ := ht.wf.update he ((t.slots id).refs + 1) (t.slots id).mac
        (fun m hm => ht.wf.mac_ne id m hm)
      simp only [wp_bind, wp_modify, wp_pure, haddr]
      refine ⟨⟨hwf', haddr ▸ ht.mirror.setRefs id _⟩, .refl d, _, rfl, hentry, ?_⟩
      rw [he]
      exact ⟨⟨by rintro e₀ ⟨⟩; rfl, rfl, by simp⟩, by simp⟩
  | none =>
      have hnone : t.entry a = none := by simp [entry, hid]
      cases hfind : findFree t.slots (pbMaxReals - 1) t.cursor with
      | mk found cursor =>
          cases found with
          | none =>
              obtain ⟨rfl, hfull⟩ := findFree_lap_none ht.wf.cursor_range hfind
              simp only [wp_bind, wp_modify, wp_throw, true_and]
              exact ⟨hnone, ht.wf.full_iff.mpr hfull⟩
          | some id =>
              obtain ⟨hrange, hfree, hcursor⟩ := findFree_some ht.wf.cursor_range hfind
              obtain ⟨hwf', hentry⟩ :=
                (ht.wf.cursor hcursor).fill ha hnone hrange hfree 1
              have hrealFree : d.reals id = 0 := (ht.mirror.reals id).trans hfree
              have hnew : ∀ j, d.reals j ≠ a := by
                rintro j rfl
                rw [ht.mirror.reals] at ha hnone
                rw [ht.wf.exists_entry ha] at hnone
                cases hnone
              simp only [wp_bind, wp_modify, wp_emit, wp_pure]
              refine ⟨hG hnone _ _ (.reset id hrealFree), ?_⟩
              rw [wp_writeSlot_used henv (by simpa [setSlot] using ha)]
              simp only [setSlot, Function.update_self, Option.getD_none, write_neighWrite]
              refine ⟨hG hnone _ _ (.blankMac id _ hrealFree),
                hG hnone _ _ (.fill id a hrange hrealFree hnew),
                ⟨hwf', (ht.mirror.putSlot id ⟨a, 1, none⟩).of_slots rfl⟩, ⟨rfl, rfl, rfl⟩,
                _, rfl, hentry, ?_⟩
              rw [hnone]
              exact ⟨⟨by simp, rfl, rfl⟩, fun _ => by rw [nextId, hfind]⟩

theorem setMac_spec (henv : ArrayOk env) (ht : t.Sound d) {a : UInt32} {e : Entry}
    (he : t.entry a = some e) {mac : Mac} (hmac : mac ≠ Mac.zero) (hne : e.mac ≠ some mac)
    (hG : ∀ d w, SlotWrite d w → G d w) :
    wp (setMac env a mac) G
      (fun changed d' t' => changed = true ∧ t'.Sound d' ∧ d.SameElse d' ∧
        t'.entry = Function.update t.entry a (some { e with mac := some mac }))
      (fun _ _ _ => False) d t := by
  have hslot := ht.wf.entry_slot he
  have hid : t.idOf a = some e.id := by simp [idOf_eq, he]
  obtain ⟨hwf', hentry⟩ := ht.wf.update he e.refs (some mac)
    (fun m hm => Option.some.inj hm ▸ hmac)
  simp only [setMac, wp_bind, wp_get, hid, hslot, hne, if_false, wp_modify, wp_pure]
  rw [wp_writeSlot_used henv (by simpa [setSlot] using ht.wf.entry_ne_zero he)]
  simp only [setSlot, Function.update_self, Option.getD_some, write_neighWrite, true_and]
  refine ⟨hG _ _ (.setMac e.id mac hmac), hG _ _ (.rewrite e.id a ?_),
    ⟨hwf', ht.mirror.putSlot e.id ⟨a, e.refs, some mac⟩⟩, ⟨rfl, rfl, rfl⟩, hentry⟩
  exact ht.mirror.reals_entry ht.wf he

theorem setMac_same {a : UInt32} {mac : Mac} {E : LbError → CtlMaps → RealTable → Prop}
    (h : ∀ e, t.entry a = some e → e.mac = some mac) :
    wp (setMac env a mac) G (fun changed d' t' => changed = false ∧ d' = d ∧ t' = t) E d t := by
  simp only [setMac, wp_bind, wp_get, idOf]
  cases hid : t.byAddr[a]? with
  | none => simp
  | some id =>
      have hmac := h ⟨id, (t.slots id).refs, (t.slots id).mac⟩ (by simp [entry, hid])
      simp only at hmac
      simp [hmac]

def Entry.drop (e : Entry) : Option Entry :=
  if 1 < e.refs then some { e with refs := e.refs - 1 } else none

theorem Entry.drop_refs_pos {e e' : Entry} (h : e.drop = some e') : 0 < e'.refs := by
  simp only [drop] at h
  split_ifs at h with hrefs
  rw [← Option.some.inj h]
  exact Nat.sub_pos_of_lt hrefs

theorem release_spec (henv : ArrayOk env) (ht : t.Sound d) {a : UInt32} {e : Entry}
    (he : t.entry a = some e)
    (hG : e.refs ≤ 1 → G d (.realWrite e.id 0) ∧
      ∀ d, d.reals e.id = 0 → G d (.neighWrite e.id Mac.zero)) :
    wp (release env a) G
      (fun _ d' t' => t'.Sound d' ∧ d.SameElse d' ∧
        t'.entry = Function.update t.entry a e.drop)
      (fun _ _ _ => False) d t := by
  have hslot := ht.wf.entry_slot he
  have hid : t.byAddr[a]? = some e.id := by
    have := idOf_eq t a
    rwa [he] at this
  simp only [release, wp_bind, wp_get, hid, hslot, wp_ite, wp_modify]
  constructor
  · intro hrefs
    obtain ⟨hwf', hentry⟩ := ht.wf.update he (e.refs - 1) e.mac
      (fun m hm => ht.wf.entry_mac_ne he hm)
    have hmirror := ht.mirror.setRefs e.id (e.refs - 1)
    rw [hslot] at hmirror
    exact ⟨⟨hwf', hmirror⟩, .refl d, by rw [hentry, Entry.drop, if_pos hrefs]⟩
  · intro hrefs
    obtain ⟨hwf', hentry⟩ := ht.wf.clear he
    obtain ⟨hGreal, hGneigh⟩ := hG (by omega)
    rw [wp_writeSlot_free henv (by simp [setSlot])]
    simp only [setSlot, Function.update_self, Option.getD_none, write_realWrite]
    refine ⟨hGreal, hGneigh _ (by simp),
      ⟨hwf', (ht.mirror.putSlot e.id {}).of_slots rfl⟩, ⟨rfl, rfl, rfl⟩, ?_⟩
    rw [Entry.drop, if_neg hrefs]
    exact hentry

end Specs

/-! ## adopt -/

section Adopt

variable {t : RealTable} {d : CtlMaps}

def pinnedMac (d : CtlMaps) (id : Nat) : Option Mac :=
  if (d.neigh id).isZero then none else some (d.neigh id)

theorem foldl_adoptOne_byAddr (d : CtlMaps) (l : List Nat) (acc : RealTable × Nat) :
    (l.foldl (adoptOne d) acc).1.byAddr =
      (l.filter fun id => d.reals id ≠ 0).foldl (fun m id => m.insert (d.reals id) id)
        acc.1.byAddr := by
  induction l generalizing acc with
  | nil => rfl
  | cons id l ih =>
      rw [List.foldl_cons, ih]
      by_cases hzero : d.reals id = 0 <;> simp [adoptOne, hzero, setSlot]

theorem foldl_adoptOne_slots (d : CtlMaps) (l : List Nat) (hnodup : l.Nodup)
    (acc : RealTable × Nat) (id : Nat) :
    (l.foldl (adoptOne d) acc).1.slots id =
      if id ∈ l ∧ d.reals id ≠ 0 then
        { acc.1.slots id with
          addr := d.reals id
          mac := (pinnedMac d id).or (acc.1.slots id).mac }
      else acc.1.slots id := by
  induction l generalizing acc with
  | nil => simp
  | cons j l ih =>
      obtain ⟨hnot, hnodup⟩ := List.nodup_cons.mp hnodup
      rw [List.foldl_cons, ih hnodup]
      by_cases hid : id = j
      · subst hid
        simp only [hnot, false_and, if_false, List.mem_cons, true_or, true_and]
        by_cases hzero : d.reals id = 0
        · simp [adoptOne, hzero]
        · by_cases hmac : (d.neigh id).isZero <;>
            simp [adoptOne, hzero, setSlot, pinnedMac, hmac]
      · have hsame : (adoptOne d acc j).1.slots id = acc.1.slots id := by
          by_cases hzero : d.reals j = 0 <;> simp [adoptOne, hzero, setSlot, hid]
        simp [hsame, hid]

theorem foldl_adoptOne_highest (d : CtlMaps) (l : List Nat) (acc : RealTable × Nat)
    {n : Nat} (hacc : acc.2 < n) (hl : ∀ id ∈ l, id < n) :
    (l.foldl (adoptOne d) acc).2 < n := by
  induction l generalizing acc with
  | nil => exact hacc
  | cons id l ih =>
      rw [List.foldl_cons]
      refine ih _ ?_ fun j hj => hl j (List.mem_cons_of_mem _ hj)
      by_cases hzero : d.reals id = 0
      · simpa [adoptOne, hzero] using hacc
      · simpa [adoptOne, hzero] using hl id List.mem_cons_self

theorem mem_ids {id : Nat} : id ∈ ids ↔ 1 ≤ id ∧ id < pbMaxReals := by
  have hmax : pbMaxReals = 512 := rfl
  rw [ids, List.mem_range'_1]
  omega

theorem nodup_ids : ids.Nodup := List.nodup_range'

theorem pinnedMac_ne {id : Nat} {m : Mac} (h : pinnedMac d id = some m) : m ≠ Mac.zero := by
  simp only [pinnedMac] at h
  split_ifs at h with hzero
  rw [← Option.some.inj h]
  exact fun hm => hzero ((Mac.isZero_iff _).mpr hm)

theorem pinnedMac_getD (d : CtlMaps) (id : Nat) : (pinnedMac d id).getD Mac.zero = d.neigh id := by
  simp only [pinnedMac]
  split_ifs with hzero
  · exact ((Mac.isZero_iff _).mp hzero).symm
  · rfl

theorem pinnedMac_eq {mac : Option Mac} (hmac : ∀ m, mac = some m → m ≠ Mac.zero) {id : Nat}
    (h : d.neigh id = mac.getD Mac.zero) : pinnedMac d id = mac := by
  cases mac with
  | none => simp [pinnedMac, h, (Mac.isZero_iff _).mpr]
  | some m =>
      have hne : ¬m.isZero = true := fun hz => hmac m rfl ((Mac.isZero_iff m).mp hz)
      simp [pinnedMac, h, hne]

def Behind (t : RealTable) (d : CtlMaps) : Prop :=
  ∀ id, (t.slots id).addr ≠ 0 →
    d.reals id = (t.slots id).addr ∧ (t.slots id).mac = pinnedMac d id

theorem new_behind (d : CtlMaps) : Behind {} d := fun _ h => absurd rfl h

theorem Sound.behind (ht : t.Sound d) : t.Behind d := by
  intro id hne
  refine ⟨ht.mirror.reals id, (pinnedMac_eq (ht.wf.mac_ne id) ?_).symm⟩
  exact ht.mirror.neigh id hne

def pinnedSlot (t : RealTable) (d : CtlMaps) (id : Nat) : Slot :=
  if d.reals id = 0 then {} else ⟨d.reals id, (t.slots id).refs, pinnedMac d id⟩

theorem foldl_adoptOne_pinned (hwf : t.WF) (hd : d.RealsOk) (hbehind : t.Behind d) (id : Nat) :
    (ids.foldl (adoptOne d) (t, 0)).1.slots id = t.pinnedSlot d id := by
  rw [foldl_adoptOne_slots d ids nodup_ids]
  by_cases hzero : d.reals id = 0
  · have hblank : (t.slots id).addr = 0 := by
      by_contra hne
      exact hne ((hbehind id hne).1 ▸ hzero)
    simp [hzero, pinnedSlot, hwf.blank id hblank]
  · have hmac : (pinnedMac d id).or (t.slots id).mac = pinnedMac d id := by
      by_cases hfree : (t.slots id).addr = 0
      · rw [hwf.blank id hfree]
        simp
      · rw [(hbehind id hfree).2]
        cases pinnedMac d id <;> rfl
    simp [hzero, pinnedSlot, mem_ids, hd.range id hzero, hmac]

theorem foldl_adoptOne_byAddr_iff (hwf : t.WF) (hd : d.RealsOk) (hbehind : t.Behind d)
    (a : UInt32) (id : Nat) :
    (ids.foldl (adoptOne d) (t, 0)).1.byAddr[a]? = some id ↔ a ≠ 0 ∧ d.reals id = a := by
  have hkeys : ((ids.filter fun id => d.reals id ≠ 0).map d.reals).Nodup := by
    refine (nodup_ids.filter _).map_on ?_
    intro i hi j _ hij
    exact hd.inj i j (by simpa using (List.mem_filter.mp hi).2) hij
  rw [foldl_adoptOne_byAddr, OrdMap.getElem?_foldl_insert d.reals (fun id => id) _ _ hkeys]
  simp only [List.mem_filter, mem_ids, List.mem_map, decide_eq_true_eq]
  constructor
  · rintro (⟨i, ⟨-, hne⟩, rfl, rfl⟩ | ⟨hnot, hold⟩)
    · exact ⟨hne, rfl⟩
    · -- what the table knew before is in the maps as well
      obtain ⟨hne, rfl⟩ := (hwf.byAddr_iff a id).mp hold
      exact ⟨hne, (hbehind id hne).1⟩
  · rintro ⟨hne, rfl⟩
    exact .inl ⟨id, ⟨hd.range id hne, hne⟩, rfl, rfl⟩

theorem adopt_spec (hwf : t.WF) (hd : d.RealsOk) (hbehind : t.Behind d)
    {G : CtlMaps → MapWrite → Prop} {E : LbError → CtlMaps → RealTable → Prop} :
    wp adopt G (fun _ d' t' => d' = d ∧ t'.Sound d ∧ ∀ id, t'.slots id = t.pinnedSlot d id)
      E d t := by
  simp only [adopt, wp_bind, wp_durable, wp_modify, true_and]
  have hslots := foldl_adoptOne_pinned hwf hd hbehind
  have haddr : ∀ id, (t.pinnedSlot d id).addr = d.reals id := by
    intro id
    simp only [pinnedSlot]
    split_ifs with hzero <;> simp [hzero]
  have hhighest : (ids.foldl (adoptOne d) (t, 0)).2 < pbMaxReals :=
    foldl_adoptOne_highest d ids (t, 0) (Nat.zero_lt_succ _) fun id hid => (mem_ids.mp hid).2
  refine ⟨⟨⟨?_, ?_, ?_, ?_, ?_⟩, ⟨?_, ?_⟩⟩, hslots⟩ <;> simp only [hslots, haddr]
  · exact hd.range
  · intro id hzero
    simp [pinnedSlot, hzero]
  · exact foldl_adoptOne_byAddr_iff hwf hd hbehind
  · intro id m hm
    simp only [pinnedSlot] at hm
    split_ifs at hm
    exact pinnedMac_ne hm
  · have hmax : pbMaxReals = 512 := rfl
    split_ifs <;> omega
  · exact fun _ => trivial
  · intro id hne
    simp [pinnedSlot, hne, pinnedMac_getD]

/-- Adopting what the table itself wrote changes nothing that can be seen. -/
theorem Sound.entry_adopted {t' : RealTable} (ht : t.Sound d) (ht' : t'.Sound d)
    (hslots : ∀ id, t'.slots id = t.pinnedSlot d id) : t'.entry = t.entry := by
  have hsame : ∀ id, t'.slots id = t.slots id := by
    intro id
    rw [hslots, pinnedSlot]
    split_ifs with hzero
    · exact (ht.wf.blank id (ht.mirror.reals id ▸ hzero)).symm
    · rw [ht.mirror.reals] at hzero
      rw [← (ht.behind id hzero).2, (ht.behind id hzero).1]
  funext a
  ext e
  rw [entry_eq_some ht.wf, entry_eq_some ht'.wf, hsame]

theorem entry_adopted_new {t' : RealTable} (ht' : t'.Sound d)
    (hslots : ∀ id, t'.slots id = pinnedSlot {} d id) {a : UInt32} {e : Entry} :
    t'.entry a = some e ↔
      a ≠ 0 ∧ d.reals e.id = a ∧ e.refs = 0 ∧ e.mac = pinnedMac d e.id := by
  rw [entry_eq_some ht'.wf, hslots, pinnedSlot]
  refine and_congr_right fun hne => ?_
  split_ifs with hzero
  · simp [hzero, Ne.symm hne]
  · simp [eq_comm]

end Adopt

/-! ## drop_unreferenced -/

section Drop

variable {t : RealTable} {d : CtlMaps} {env : Env} {G : CtlMaps → MapWrite → Prop}

/-- Whether an entry is still there once the ids `done` have been looked at. -/
private def keptAfter (done : List Nat) (e : Entry) : Bool := 0 < e.refs || e.id ∉ done

private theorem filter_keptAfter_append {o : Option Entry} {done : List Nat} {id : Nat}
    (h : ∀ e, o.filter (keptAfter done) = some e → e.id = id → 0 < e.refs) :
    o.filter (keptAfter (done ++ [id])) = o.filter (keptAfter done) := by
  cases o with
  | none => rfl
  | some e =>
      have hcases := h e
      by_cases hrefs : 0 < e.refs
      · simp [Option.filter, keptAfter, hrefs]
      · by_cases hid : e.id = id
        · by_cases hdone : e.id ∈ done
          · simp [Option.filter, keptAfter, hdone]
          · exact absurd (hcases (by simp [Option.filter, keptAfter, hdone]) hid) hrefs
        · simp [Option.filter, keptAfter, hid]

theorem dropUnreferenced_spec (henv : ArrayOk env) (ht : t.Sound d)
    (hfree : ∀ d' a e, d.SameElse d' → t.entry a = some e → e.refs = 0 →
      d'.reals e.id = a → G d' (.realWrite e.id 0))
    (hblank : ∀ d' a e, t.entry a = some e → e.refs = 0 → d'.reals e.id = 0 →
      G d' (.neighWrite e.id Mac.zero)) :
    wp (dropUnreferenced env) G
      (fun _ d' t' => t'.Sound d' ∧ d.SameElse d' ∧
        ∀ a, t'.entry a = (t.entry a).filter fun e => 0 < e.refs)
      (fun _ _ _ => False) d t := by
  refine wp_imp (wp_each (I := fun done d' t' => t'.Sound d' ∧ d.SameElse d' ∧
    ∀ a, t'.entry a = (t.entry a).filter (keptAfter done)) ids ?_ ?_) ?_
  · refine ⟨ht, .refl d, fun a => ?_⟩
    cases t.entry a with
    | none => rfl
    | some e => simp [Option.filter, keptAfter]
  · rintro done id rest hids d₁ t₁ ⟨ht₁, hsame, hentry⟩
    simp only [wp_bind, wp_get, wp_ite, wp_modify, wp_pure]
    constructor
    · intro hkeep
      refine ⟨ht₁, hsame, fun a => ?_⟩
      rw [hentry, filter_keptAfter_append]
      intro e he hid
      rw [← hentry] at he
      have hslot := ht₁.wf.entry_slot he
      rw [hid] at hslot
      rw [hslot] at hkeep
      exact hkeep.resolve_left (ht₁.wf.entry_ne_zero he)
    · intro hdrop
      rw [not_or] at hdrop
      obtain ⟨hne, hrefs⟩ := hdrop
      have he₁ := ht₁.wf.exists_entry hne
      obtain ⟨hwf', hentry'⟩ := ht₁.wf.clear he₁
      have he := (hentry _).symm.trans he₁
      rw [wp_writeSlot_free henv (by simp [setSlot])]
      simp only [setSlot, Function.update_self, Option.getD_none, write_realWrite]
      have hold := (Option.filter_eq_some_iff.mp he).1
      have hzero : (t₁.slots id).refs = 0 := by simpa using hrefs
      refine ⟨hfree d₁ _ _ hsame hold hzero (ht₁.mirror.reals id),
        hblank _ _ _ hold hzero (by simp),
        ⟨hwf', (ht₁.mirror.putSlot id {}).of_slots rfl⟩, hsame.trans ⟨rfl, rfl, rfl⟩, ?_⟩
      intro a
      refine (congrFun hentry' a).trans ?_
      by_cases ha : a = (t₁.slots id).addr
      · subst ha
        rw [Function.update_self, hold]
        simp only [Nat.not_lt, Nat.le_zero] at hrefs
        simp [Option.filter, keptAfter, hrefs]
      · rw [Function.update_of_ne ha, hentry, filter_keptAfter_append]
        intro e he' hid
        rw [← hentry] at he'
        exact absurd (ht₁.wf.entry_inj he' he₁ hid) ha
  · rintro _ d' t' ⟨ht', hsame, hentry⟩
    refine ⟨ht', hsame, fun a => ?_⟩
    rw [hentry]
    cases he : t.entry a with
    | none => rfl
    | some e =>
        have hmem : e.id ∈ ids := mem_ids.mpr (ht.wf.entry_range he)
        simp [Option.filter, keptAfter, hmem]

end Drop

end RealTable

end PacketBalance
