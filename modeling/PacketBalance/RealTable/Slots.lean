import PacketBalance.RealTable.Custody
/-!
# Conditions on single slots

The operations of the real table change one slot at a time and write it to the arrays:
they fill it without a MAC, give it a MAC, or clear it.  What survives these changes is
kept by every operation but `adopt`, together with the table speaking for the arrays.
-/

namespace PacketBalance

open WriteLog

namespace RealTable

def Ranged (d : CtlMaps) : Prop := ∀ id, d.reals id ≠ 0 → 1 ≤ id ∧ id < pbMaxReals

/-- The table speaks for the arrays, and `P` holds. -/
structure Keeping (P : CtlMaps → RealTable → Prop) (d : CtlMaps) (t : RealTable) : Prop where
  held : Held t d
  ranged : Ranged d
  holds : P d t

/-- A condition that survives the changes of single slots; `given` are the MACs that
`set_mac` is called with. -/
structure SlotClosed (given : UInt32 → Mac → Prop) (P : CtlMaps → RealTable → Prop) : Prop where
  frame : ∀ {d d' t}, P d t → d'.reals = d.reals → d'.neigh = d.neigh → P d' t
  keep : ∀ {d t t'}, P d t → (∀ id, (t'.slots id).addr = (t.slots id).addr ∧
    (t'.slots id).mac = (t.slots id).mac) → P d t'
  put : ∀ {d t t' id} {s : Slot}, P d t → t'.slots = Function.update t.slots id s →
    (s.mac = none ∨ s.addr ≠ 0 ∧ ∃ m, s.mac = some m ∧ given s.addr m) → P (d.putSlot id s) t'

section Slots

variable {given : UInt32 → Mac → Prop} {P : CtlMaps → RealTable → Prop} {t : RealTable}
variable {d : CtlMaps} {env : Env}

/-! ## The table speaks for the arrays -/

theorem Ranged.safe (h : Ranged d) :
    Safe (fun id => { addr := d.reals id, history := [d.neigh id] }) d :=
  ⟨h, fun _ _ => rfl, fun _ _ => .inr (.inl rfl), fun _ _ hm => by cases hm⟩

theorem Held.congr (h : Held t d) {d' : CtlMaps} (hreals : d'.reals = d.reals)
    (hneigh : d'.neigh = d.neigh) : Held t d' where
  mirror := ⟨fun id => hreals ▸ h.mirror.reals id, fun id hne => hneigh ▸ h.mirror.neigh id hne⟩
  byAddr := h.byAddr
  cursor := h.cursor

theorem Ranged.congr (h : Ranged d) {d' : CtlMaps} (hreals : d'.reals = d.reals) :
    Ranged d' := by
  intro id
  rw [hreals]
  exact h id

theorem TableOp.preserves_held (henv : ArrayOk env) (op : TableOp) :
    Preserves (fun d t => Held t d ∧ Ranged d) (op.run env) := by
  rintro d t ⟨h, hranged⟩
  obtain ⟨grants', hsafe', hop⟩ := op.kept henv h hranged.safe
  exact wp_mono (wp_and_store hop hsafe') (fun _ _ hw => hw)
    (fun _ _ _ hend => ⟨hend.1.1, hend.2.range⟩) fun _ _ _ hend => ⟨hend.1.1, hend.2.range⟩

theorem preserves_of_discard {α : Type} {m : TableM α} {I : CtlMaps → RealTable → Prop}
    (h : Preserves I (do let _ ← m; pure ())) : Preserves I m := by
  intro d t hI
  simpa only [wp_bind, wp_pure] using h d t hI

/-! ## Single slots -/

theorem Keeping.congr (hP : SlotClosed given P) (h : Keeping P d t) {d' : CtlMaps}
    (hreals : d'.reals = d.reals) (hneigh : d'.neigh = d.neigh) : Keeping P d' t :=
  ⟨h.held.congr hreals hneigh, h.ranged.congr hreals, hP.frame h.holds hreals hneigh⟩

namespace SlotClosed

theorem setRefs (hP : SlotClosed given P) (h : P d t) (id refs : Nat) :
    P d (t.setSlot id { t.slots id with refs }) := by
  refine hP.keep h fun j => ?_
  by_cases hj : j = id
  · subst hj
    simp [setSlot]
  · simp [setSlot, hj]

theorem wp_put (hP : SlotClosed given P) (henv : ArrayOk env) (h : P d t) {t' : RealTable}
    {id : Nat} {s : Slot} (hslots : t'.slots = Function.update t.slots id s)
    (hs : s.mac = none ∨ s.addr ≠ 0 ∧ ∃ m, s.mac = some m ∧ given s.addr m)
    {E : LbError → CtlMaps → RealTable → Prop} :
    wp (writeSlot env id) (fun _ _ => True) (fun _ => P) E d t' := by
  have hslot : t'.slots id = s := by rw [hslots, Function.update_self]
  have hput : P (d.putSlot id (t'.slots id)) t' := hslot.symm ▸ hP.put h hslots hs
  by_cases hzero : (t'.slots id).addr = 0
  · rw [wp_writeSlot_free henv hzero]
    exact ⟨trivial, trivial, hput⟩
  · rw [wp_writeSlot_used henv hzero]
    exact ⟨trivial, trivial, hput⟩

theorem keeping {α : Type} {m : TableM α}
    (hheld : Preserves (fun d t => Held t d ∧ Ranged d) m)
    (h : ∀ d t, Keeping P d t → wp m (fun _ _ => True) (fun _ => P) (fun _ => P) d t) :
    Preserves (Keeping P) m := by
  intro d t hk
  exact wp_mono (wp_and (hheld d t ⟨hk.held, hk.ranged⟩) (h d t hk)) (fun _ _ _ => trivial)
    (fun _ _ _ hend => ⟨hend.1.1, hend.1.2, hend.2⟩) fun _ _ _ hend =>
      ⟨hend.1.1, hend.1.2, hend.2⟩

theorem preserves_acquire (hP : SlotClosed given P) (henv : ArrayOk env) (a : UInt32) :
    Preserves (Keeping P) (acquire env a) := by
  refine keeping (preserves_of_discard ((TableOp.acquire a).preserves_held henv)) fun d t hk => ?_
  simp only [acquire, wp_bind, wp_ite, wp_throw, wp_get]
  refine ⟨fun _ => hk.holds, fun _ => ?_⟩
  cases hid : t.byAddr[a]? with
  | some id =>
      simp only [wp_bind, wp_modify, wp_pure]
      exact hP.setRefs hk.holds id _
  | none =>
      dsimp only
      have hmoved : P d { t with cursor := (findFree t.slots (pbMaxReals - 1) t.cursor).2 } :=
        hP.keep hk.holds fun _ => ⟨rfl, rfl⟩
      split
      · simp only [wp_bind, wp_modify, wp_throw]
        exact hmoved
      · simp only [wp_bind, wp_modify, wp_emit, wp_pure, true_and]
        exact hP.wp_put henv hmoved rfl (.inl rfl)

theorem preserves_release (hP : SlotClosed given P) (henv : ArrayOk env) (a : UInt32) :
    Preserves (Keeping P) (release env a) := by
  refine keeping ((TableOp.release a).preserves_held henv) fun d t hk => ?_
  simp only [release, wp_bind, wp_get]
  cases hid : t.byAddr[a]? with
  | none => exact (wp_pure _).mpr hk.holds
  | some id =>
      simp only [wp_ite, wp_modify, wp_bind]
      exact ⟨fun _ => hP.setRefs hk.holds id _, fun _ => hP.wp_put henv hk.holds rfl (.inl rfl)⟩

theorem preserves_dropUnreferenced (hP : SlotClosed given P) (henv : ArrayOk env) :
    Preserves (Keeping P) (dropUnreferenced env) := by
  refine keeping (TableOp.dropUnreferenced.preserves_held henv) fun d t hk => ?_
  refine (Preserves.each fun id _ d t h => ?_) d t hk.holds
  simp only [wp_bind, wp_get, wp_ite, wp_pure, wp_modify]
  exact ⟨fun _ => h, fun _ => hP.wp_put henv h rfl (.inl rfl)⟩

theorem preserves_setMac (hP : SlotClosed given P) (henv : ArrayOk env) {a : UInt32} {mac : Mac}
    (hgiven : given a mac) : Preserves (Keeping P) (setMac env a mac) := by
  refine keeping (preserves_of_discard ((TableOp.setMac a mac).preserves_held henv)) ?_
  intro d t hk
  simp only [setMac, wp_bind, wp_get]
  cases hid : t.idOf a with
  | none => exact (wp_pure _).mpr hk.holds
  | some id =>
      obtain ⟨hne, rfl⟩ := hk.held.byAddr a id hid
      simp only [wp_ite, wp_pure, wp_bind, wp_modify]
      exact ⟨fun _ => hk.holds, fun _ => hP.wp_put (s := { t.slots id with mac := some mac }) henv
        hk.holds rfl (.inr ⟨hne, mac, rfl, hgiven⟩)⟩

end SlotClosed

end Slots

end RealTable

end PacketBalance
