import PacketBalance.RealTable.Slots
/-!
# Where the MACs of the table come from

`L ip mac` says that `mac` was an answer for the neighbour `ip`.  The table is sourced
when each MAC it holds was an answer for the neighbour through which its address is
reached: the next hop if there is one, the address itself otherwise.  The operations
keep this as long as `set_mac` is given such answers only.
-/

namespace PacketBalance

open WriteLog

namespace RealTable

def Sourced (L : UInt32 → Mac → Prop) (hop : Option UInt32) (t : RealTable) : Prop :=
  ∀ id m, (t.slots id).addr ≠ 0 → (t.slots id).mac = some m →
    m ≠ Mac.zero ∧ L (hop.getD (t.slots id).addr) m

def SourcedMaps (L : UInt32 → Mac → Prop) (hop : Option UInt32) (d : CtlMaps) : Prop :=
  ∀ id, d.reals id ≠ 0 → d.neigh id ≠ Mac.zero → L (hop.getD (d.reals id)) (d.neigh id)

abbrev Known (L : UInt32 → Mac → Prop) (hop : Option UInt32) : CtlMaps → RealTable → Prop :=
  Keeping fun _ => Sourced L hop

section Sources

variable {L L' : UInt32 → Mac → Prop} {hop : Option UInt32} {t : RealTable} {d : CtlMaps}
variable {env : Env}

/-! ## Table and arrays -/

theorem Known.macOf (h : Known L hop d t) {a : UInt32} {m : Mac} (hm : t.macOf a = some m) :
    L (hop.getD a) m := by
  rw [RealTable.macOf] at hm
  split at hm
  · next id hid =>
      obtain ⟨hne, rfl⟩ := h.held.byAddr a id hid
      exact (h.holds id m hne hm).2
  · cases hm

theorem Known.maps (h : Known L hop d t) : SourcedMaps L hop d := by
  intro id hne hmac
  have hreal := h.held.mirror.reals id
  have hneigh := h.held.mirror.neigh id (hreal ▸ hne)
  cases hm : (t.slots id).mac with
  | none => simp [hneigh, hm] at hmac
  | some m =>
      rw [hneigh, hm, hreal]
      exact (h.holds id m (hreal ▸ hne) hm).2

/-- A table that speaks for the arrays can be judged by them, but for a MAC that is
all zero. -/
theorem Sourced.of_maps (hheld : Held t d) (h : SourcedMaps L hop d)
    (hnonzero : ∀ id m, (t.slots id).addr ≠ 0 → (t.slots id).mac = some m → m ≠ Mac.zero) :
    Sourced L hop t := by
  intro id m hne hm
  have hreal := hheld.mirror.reals id
  have hneigh := hheld.mirror.neigh id hne
  have hzero := hnonzero id m hne hm
  rw [hm, Option.getD_some] at hneigh
  refine ⟨hzero, ?_⟩
  rw [← hreal, ← hneigh]
  exact h id (hreal ▸ hne) (hneigh ▸ hzero)

theorem Known.mono (h : Known L hop d t) (hL : ∀ ip m, L ip m → L' ip m) : Known L' hop d t :=
  ⟨h.held, h.ranged, fun id m hne hm => (h.holds id m hne hm).imp_right (hL _ _)⟩

theorem SourcedMaps.congr (h : SourcedMaps L hop d) {d' : CtlMaps} (hreals : d'.reals = d.reals)
    (hneigh : d'.neigh = d.neigh) : SourcedMaps L hop d' := by
  intro id
  rw [hreals, hneigh]
  exact h id

/-! ## The operations -/

theorem Sourced.slotClosed :
    SlotClosed (fun a m => m ≠ Mac.zero ∧ L (hop.getD a) m) fun _ => Sourced L hop where
  frame h _ _ := h
  keep h hsame id m hne hm := by
    rw [(hsame id).1] at hne ⊢
    rw [(hsame id).2] at hm
    exact h id m hne hm
  put {d t t' id s} h hslots hs j m hne hm := by
    rw [hslots] at hne hm ⊢
    by_cases hj : j = id
    · subst hj
      rw [Function.update_self] at hne hm ⊢
      rcases hs with hnone | ⟨-, m', hm', hgiven⟩
      · simp [hnone] at hm
      · exact Option.some.inj (hm'.symm.trans hm) ▸ hgiven
    · rw [Function.update_of_ne hj] at hne hm ⊢
      exact h j m hne hm

theorem adopt_slots (hranged : Ranged d) {G : CtlMaps → MapWrite → Prop}
    {E : LbError → CtlMaps → RealTable → Prop} :
    wp adopt G (fun _ d' t' => d' = d ∧ ∀ id, t'.slots id =
      if d.reals id ≠ 0 then
        ⟨d.reals id, (t.slots id).refs, (pinnedMac d id).or (t.slots id).mac⟩
      else t.slots id) E d t := by
  simp only [adopt, wp_bind, wp_durable, wp_modify, true_and]
  intro id
  rw [foldl_adoptOne_slots d ids nodup_ids]
  by_cases hzero : d.reals id = 0
  · simp [hzero]
  · simp [hzero, mem_ids, hranged id hzero]

theorem adopt_known (hheld : wp adopt (fun _ _ => True) (fun _ d' t' => d' = d ∧ Held t' d)
      (fun _ _ _ => False) d t) (hranged : Ranged d) (hmaps : SourcedMaps L hop d)
    (hnonzero : ∀ id m, d.reals id ≠ 0 → (t.slots id).mac = some m → m ≠ Mac.zero)
    (hfree : ∀ id, d.reals id = 0 → (t.slots id).addr = 0) :
    wp adopt (fun _ _ => True) (fun _ d' t' => d' = d ∧ Known L hop d t') (fun _ _ _ => False)
      d t := by
  refine wp_mono (wp_and hheld (adopt_slots (t := t) (E := fun _ _ _ => False)
    (G := fun _ _ => True) hranged)) (fun _ _ _ => trivial) ?_ (fun _ _ _ h => h.1)
  rintro _ d' t' ⟨⟨rfl, hheld'⟩, -, hslots⟩
  refine ⟨rfl, hheld', hranged, .of_maps hheld' hmaps fun id m hne hm => ?_⟩
  rw [hslots] at hne hm
  split_ifs at hne hm with hreal
  · cases hpin : pinnedMac d' id with
    | none =>
        rw [hpin, Option.none_or] at hm
        exact hnonzero id m hreal hm
    | some n =>
        rw [hpin, Option.some_or] at hm
        exact Option.some.inj hm ▸ pinnedMac_ne hpin
  · exact absurd (hfree id (not_not.mp hreal)) hne

theorem adopt_new (hranged : Ranged d) (hmaps : SourcedMaps L hop d) :
    wp adopt (fun _ _ => True) (fun _ d' t' => d' = d ∧ Known L hop d t') (fun _ _ _ => False)
      d {} := by
  refine adopt_known (adopt_held hranged.safe (fun _ hne => absurd rfl hne) (fun _ _ _ => rfl)
    fun a id hid => by simp at hid) hranged hmaps (fun _ _ _ hm => by cases hm) fun _ _ => rfl

theorem Known.adopt (h : Known L hop d t) {hop' : Option UInt32}
    (hmaps : SourcedMaps L' hop' d) :
    wp adopt (fun _ _ => True) (fun _ d' t' => d' = d ∧ Known L' hop' d t')
      (fun _ _ _ => False) d t := by
  refine adopt_known (h.held.adopt h.ranged.safe) h.ranged hmaps ?_ ?_
  · intro id m hne hm
    exact (h.holds id m (h.held.mirror.reals id ▸ hne) hm).1
  · intro id hzero
    exact (h.held.mirror.reals id).symm.trans hzero

theorem Known.rehop (h : Known L hop d t) {hop' : Option UInt32} (hmaps : SourcedMaps L' hop' d) :
    Known L' hop' d t :=
  ⟨h.held, h.ranged, .of_maps h.held hmaps fun id m hne hm => (h.holds id m hne hm).1⟩

end Sources

end RealTable

end PacketBalance
