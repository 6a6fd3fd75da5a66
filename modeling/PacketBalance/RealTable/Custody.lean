import PacketBalance.RealTable.Ops
import PacketBalance.DataPlane.Encap
/-!
# Address and MAC of an id

The table and its two arrays on their own, one write at a time, with the daemon
killed between any two of them.  While `reals` holds an address for an id, `neigh`
holds nothing, or a MAC that was given for this very address since the id was
allocated to it.
-/

namespace PacketBalance

open WriteLog

namespace RealTable

/-! ## The table on its own -/

/-- What an id's allocation has been given: its address, the MACs of `set_mac` for it,
latest first, and the MAC that the latest of them replaced. -/
structure Grant where
  addr : UInt32 := 0
  history : List Mac := []
  replaced : Option Mac := none

/-- What `neigh` may hold for the allocation. -/
def Grant.Allows (g : Grant) (mac : Mac) : Prop :=
  mac = Mac.zero ∨ g.history.head? = some mac ∨ g.replaced = some mac

inductive TableOp where
  | acquire (addr : UInt32)
  | release (addr : UInt32)
  | setMac (addr : UInt32) (mac : Mac)
  | adopt
  | dropUnreferenced

def TableOp.run (env : Env) : TableOp → TableM Unit
  | .acquire addr => do
      let _ ← RealTable.acquire env addr
      pure ()
  | .release addr => RealTable.release env addr
  | .setMac addr mac => do
      let _ ← RealTable.setMac env addr mac
      pure ()
  | .adopt => RealTable.adopt
  | .dropUnreferenced => RealTable.dropUnreferenced env

/-- The grants once an operation has been called: `acquire` of an address without an id
starts an allocation, `set_mac` gives one a MAC. -/
def TableOp.regrant (grants : Nat → Grant) (t t' : RealTable) : TableOp → Nat → Grant
  | .acquire addr =>
      match t.idOf addr, t'.idOf addr with
      | none, some id => Function.update grants id { addr }
      | _, _ => grants
  | .setMac addr mac =>
      match t.idOf addr with
      | some id =>
          Function.update grants id
            { grants id with
              history := mac :: (grants id).history
              replaced := t.macOf addr }
      | none => grants
  | _ => grants

/-- The maps, the running daemon's table, the writes its call has still to make, and
what each allocation was given. -/
structure Custody where
  maps : CtlMaps
  table : RealTable
  pending : List MapWrite
  grants : Nat → Grant

namespace Custody

def init : Custody := ⟨.empty, {}, [], fun _ => {}⟩

inductive Event where
  | call (env : Env) (op : TableOp)
  | write
  | kill

inductive Step : Event → Custody → Custody → Prop
  | call (env : Env) (op : TableOp) (s : Custody) (hidle : s.pending = []) (henv : ArrayOk env) :
      Step (.call env op) s
        { s with
          table := (op.run env s.maps s.table).mem
          pending := (op.run env s.maps s.table).log
          grants := op.regrant s.grants s.table (op.run env s.maps s.table).mem }
  | write (s : Custody) (w : MapWrite) (ws : List MapWrite) (hpending : s.pending = w :: ws) :
      Step .write s { s with maps := Durable.write s.maps w, pending := ws }
  /-- The daemon is killed, and a new one adopts what it left. -/
  | kill (s : Custody) :
      Step .kill s { s with table := (adopt s.maps {}).mem, pending := [] }

def Reachable (s : Custody) : Prop := ∃ es, Path Step es init s

end Custody

/-! ## What holds at every point -/

/-- The arrays agree with what was granted. -/
structure Safe (grants : Nat → Grant) (d : CtlMaps) : Prop where
  range : ∀ id, d.reals id ≠ 0 → 1 ≤ id ∧ id < pbMaxReals
  addr : ∀ id, d.reals id ≠ 0 → (grants id).addr = d.reals id
  mac : ∀ id, d.reals id ≠ 0 → (grants id).Allows (d.neigh id)
  replaced : ∀ id m, (grants id).replaced = some m → m = Mac.zero ∨ m ∈ (grants id).history

/-- Between two operations the table speaks for the arrays. -/
structure Held (t : RealTable) (d : CtlMaps) : Prop where
  mirror : t.Mirror d
  byAddr : ∀ a id, t.byAddr[a]? = some id → a ≠ 0 ∧ (t.slots id).addr = a
  cursor : 1 ≤ t.cursor ∧ t.cursor < pbMaxReals

section Steps

variable {grants : Nat → Grant} {d : CtlMaps} {t : RealTable} {id : Nat}

theorem Safe.write_neigh (h : Safe grants d) (id : Nat) (mac : Mac)
    (hmac : d.reals id ≠ 0 → (grants id).Allows mac) :
    Safe grants (Durable.write d (.neighWrite id mac)) where
  range := h.range
  addr := h.addr
  mac j hj := by
    by_cases hji : j = id
    · subst hji
      simpa using hmac hj
    · simpa [hji] using h.mac j hj
  replaced := h.replaced

theorem Safe.write_real (h : Safe grants d) {a : UInt32} (hrange : 1 ≤ id ∧ id < pbMaxReals)
    (haddr : (grants id).addr = a) (hmac : (grants id).Allows (d.neigh id)) :
    Safe grants (Durable.write d (.realWrite id a)) where
  range j hj := by
    by_cases hji : j = id
    · exact hji ▸ hrange
    · exact h.range j (by simpa [hji] using hj)
  addr j hj := by
    by_cases hji : j = id
    · subst hji
      simpa using haddr
    · simpa [hji] using h.addr j (by simpa [hji] using hj)
  mac j hj := by
    by_cases hji : j = id
    · exact hji ▸ hmac
    · exact h.mac j (by simpa [hji] using hj)
  replaced := h.replaced

theorem Safe.clear_real (h : Safe grants d) (id : Nat) :
    Safe grants (Durable.write d (.realWrite id 0)) := by
  have hne : ∀ j, (Durable.write d (.realWrite id 0)).reals j ≠ 0 →
      j ≠ id ∧ d.reals j ≠ 0 ∧ (Durable.write d (.realWrite id 0)).reals j = d.reals j := by
    intro j hj
    by_cases hji : j = id
    · simp [hji] at hj
    · exact ⟨hji, by simpa [hji] using hj, by simp [hji]⟩
  exact ⟨fun j hj => h.range j (hne j hj).2.1,
    fun j hj => (h.addr j (hne j hj).2.1).trans (hne j hj).2.2.symm,
    fun j hj => h.mac j (hne j hj).2.1, h.replaced⟩

theorem Safe.regrant (h : Safe grants d) {g : Grant}
    (hg : d.reals id ≠ 0 → g.addr = d.reals id ∧ g.Allows (d.neigh id))
    (hreplaced : ∀ m, g.replaced = some m → m = Mac.zero ∨ m ∈ g.history) :
    Safe (Function.update grants id g) d where
  range := h.range
  addr j hj := by
    by_cases hji : j = id
    · subst hji
      simpa using (hg hj).1
    · simpa [hji] using h.addr j hj
  mac j hj := by
    by_cases hji : j = id
    · subst hji
      simpa using (hg hj).2
    · simpa [hji] using h.mac j hj
  replaced j m hm := by
    by_cases hji : j = id
    · subst hji
      rw [Function.update_self] at hm ⊢
      exact hreplaced m hm
    · rw [Function.update_of_ne hji] at hm ⊢
      exact h.replaced j m hm

theorem Held.put (h : Held t d) {s : Slot} {byAddr : Std.ExtTreeMap UInt32 Nat} {cursor : Nat}
    (hbyAddr : ∀ a j, byAddr[a]? = some j → a ≠ 0 ∧ ((t.setSlot id s).slots j).addr = a)
    (hcursor : 1 ≤ cursor ∧ cursor < pbMaxReals) :
    Held { t.setSlot id s with byAddr, cursor } (d.putSlot id s) :=
  ⟨(h.mirror.putSlot id s).of_slots rfl, hbyAddr, hcursor⟩

theorem Held.byAddr_same (h : Held t d) {s : Slot} (hs : s.addr = (t.slots id).addr) :
    ∀ a j, t.byAddr[a]? = some j → a ≠ 0 ∧ ((t.setSlot id s).slots j).addr = a := by
  intro a j hj
  obtain ⟨hne, haddr⟩ := h.byAddr a j hj
  refine ⟨hne, ?_⟩
  by_cases hji : j = id
  · subst hji
    simpa [setSlot, hs] using haddr
  · simpa [setSlot, hji] using haddr

theorem Held.byAddr_erase (h : Held t d) :
    ∀ a j, (t.byAddr.erase (t.slots id).addr)[a]? = some j →
      a ≠ 0 ∧ ((t.setSlot id {}).slots j).addr = a := by
  intro a j hj
  rw [OrdMap.getElem?_erase] at hj
  split_ifs at hj with ha
  obtain ⟨hne, haddr⟩ := h.byAddr a j hj
  have hji : j ≠ id := by
    rintro rfl
    exact ha haddr.symm
  exact ⟨hne, by simpa [setSlot, hji] using haddr⟩

theorem Held.byAddr_insert (h : Held t d) {a : UInt32} (ha : a ≠ 0)
    (hfree : (t.slots id).addr = 0) (refs : Nat) (mac : Option Mac) :
    ∀ b j, (t.byAddr.insert a id)[b]? = some j →
      b ≠ 0 ∧ ((t.setSlot id ⟨a, refs, mac⟩).slots j).addr = b := by
  intro b j hj
  rw [OrdMap.getElem?_insert] at hj
  split_ifs at hj with hb
  · obtain rfl := Option.some.inj hj
    exact ⟨hb ▸ ha, by simp [setSlot, hb]⟩
  · obtain ⟨hne, haddr⟩ := h.byAddr b j hj
    have hji : j ≠ id := by
      rintro rfl
      exact hne (haddr.symm.trans hfree)
    exact ⟨hne, by simpa [setSlot, hji] using haddr⟩

/-- The MAC of a slot in use is one that its allocation was given. -/
theorem Held.mac_given (h : Held t d) (hsafe : Safe grants d) (hne : (t.slots id).addr ≠ 0)
    {m : Mac} (hm : (t.slots id).mac = some m) : m = Mac.zero ∨ m ∈ (grants id).history := by
  have hallowed := hsafe.mac id ((h.mirror.reals id).trans_ne hne)
  rw [h.mirror.neigh id hne, hm, Option.getD_some] at hallowed
  rcases hallowed with hzero | hgiven | hreplaced
  · exact .inl hzero
  · exact .inr (List.mem_of_mem_head? hgiven)
  · exact hsafe.replaced id m hreplaced

/-! ## Adoption -/

theorem getElem?_foldl_insert_some {f : Nat → UInt32} {l : List Nat}
    {m : Std.ExtTreeMap UInt32 Nat} {a : UInt32}
    (h : (l.foldl (fun m id => m.insert (f id) id) m)[a]? = some id) :
    id ∈ l ∧ f id = a ∨ m[a]? = some id := by
  induction l generalizing m with
  | nil => exact .inr h
  | cons j l ih =>
      rcases ih h with ⟨hmem, hf⟩ | hold
      · exact .inl ⟨List.mem_cons_of_mem _ hmem, hf⟩
      · rw [OrdMap.getElem?_insert] at hold
        split_ifs at hold with ha
        · obtain rfl := Option.some.inj hold
          exact .inl ⟨List.mem_cons_self, ha.symm⟩
        · exact .inr hold

/-- A table that says nothing else than the arrays do speaks for them after `adopt`. -/
theorem adopt_held (h : Safe grants d)
    (hold : ∀ id, (t.slots id).addr ≠ 0 → d.reals id = (t.slots id).addr)
    (hmac : ∀ id, d.reals id ≠ 0 → d.neigh id = Mac.zero →
      (t.slots id).mac.getD Mac.zero = Mac.zero)
    (hbyAddr : ∀ a id, t.byAddr[a]? = some id → a ≠ 0 ∧ (t.slots id).addr = a)
    {G : CtlMaps → MapWrite → Prop} {E : LbError → CtlMaps → RealTable → Prop} :
    wp adopt G (fun _ d' t' => d' = d ∧ Held t' d) E d t := by
  simp only [adopt, wp_bind, wp_durable, wp_modify, true_and]
  have hslots : ∀ id, (ids.foldl (adoptOne d) (t, 0)).1.slots id =
      if d.reals id ≠ 0 then
        ⟨d.reals id, (t.slots id).refs, (pinnedMac d id).or (t.slots id).mac⟩
      else t.slots id := by
    intro id
    rw [foldl_adoptOne_slots d ids nodup_ids]
    by_cases hzero : d.reals id = 0
    · simp [hzero]
    · simp [hzero, mem_ids, h.range id hzero]
  have haddr : ∀ id, ((ids.foldl (adoptOne d) (t, 0)).1.slots id).addr = d.reals id := by
    intro id
    rw [hslots]
    split_ifs with hne
    · rfl
    · by_contra hneq
      rw [not_not] at hne
      have hused : (t.slots id).addr ≠ 0 := fun hzero => hneq (hzero.trans hne.symm)
      exact hneq (hold id hused).symm
  have hhighest : (ids.foldl (adoptOne d) (t, 0)).2 < pbMaxReals :=
    foldl_adoptOne_highest d ids (t, 0) (Nat.zero_lt_succ _) fun id hid => (mem_ids.mp hid).2
  refine ⟨⟨?_, ?_⟩, ?_, ?_⟩ <;> simp only [haddr]
  · exact fun _ => trivial
  · intro id hne
    rw [hslots, if_pos hne]
    by_cases hzero : d.neigh id = Mac.zero
    · simp only [pinnedMac, (Mac.isZero_iff _).mpr hzero, if_true, Option.none_or]
      rw [hmac id hne hzero, hzero]
    · simp [pinnedMac, mt (Mac.isZero_iff _).mp hzero]
  · intro a id hid
    rw [foldl_adoptOne_byAddr] at hid
    rcases getElem?_foldl_insert_some hid with ⟨hmem, rfl⟩ | hold'
    · exact ⟨by simpa using (List.mem_filter.mp hmem).2, rfl⟩
    · obtain ⟨hne, ha⟩ := hbyAddr a id hold'
      exact ⟨hne, (hold id (ha.trans_ne hne)).trans ha⟩
  · have hmax : pbMaxReals = 512 := rfl
    split_ifs <;> omega

theorem held_new (h : Safe grants d) : Held (adopt d {}).mem d :=
  ((adopt_held (t := {}) (G := fun _ _ => True) (E := fun _ _ _ => True) h
    (fun _ hne => absurd rfl hne) (fun _ _ _ => rfl) fun a id hid => by simp at hid).of_ok
      rfl).2

theorem Held.adopt (h : Held t d) (hsafe : Safe grants d) {G : CtlMaps → MapWrite → Prop}
    {E : LbError → CtlMaps → RealTable → Prop} :
    wp RealTable.adopt G (fun _ d' t' => d' = d ∧ Held t' d) E d t := by
  refine adopt_held hsafe (fun id _ => h.mirror.reals id) (fun id hne hzero => ?_) h.byAddr
  rw [← h.mirror.neigh id (h.mirror.reals id ▸ hne), hzero]

/-! ## The operations -/

/-- The grants once `op` is called agree with the arrays, every write of `op` keeps it
so, and however `op` ends the table speaks for the arrays again. -/
def Kept (env : Env) (op : TableOp) (grants : Nat → Grant) (d : CtlMaps) (t : RealTable) : Prop :=
  ∃ grants', Safe grants' d ∧
    wp (op.run env) (fun d w => Safe grants' (Durable.write d w))
      (fun _ d' t' => Held t' d' ∧ op.regrant grants t t' = grants')
      (fun _ d' t' => Held t' d' ∧ op.regrant grants t t' = grants') d t

variable {env : Env}

theorem Held.idOf_zero (h : Held t d) : t.idOf 0 = none := by
  rw [idOf, Option.eq_none_iff_forall_ne_some]
  intro id hid
  exact (h.byAddr 0 id hid).1 rfl

theorem acquire_kept (henv : ArrayOk env) (h : Held t d) (hsafe : Safe grants d)
    (a : UInt32) : Kept env (.acquire a) grants d t := by
  by_cases ha : a = 0
  · refine ⟨grants, hsafe, ?_⟩
    simp only [TableOp.run, acquire, ha, if_true, wp_bind, wp_throw, TableOp.regrant,
      h.idOf_zero, and_true]
    exact h
  cases hid : t.byAddr[a]? with
  | some id =>
      have hof : t.idOf a = some id := hid
      refine ⟨grants, hsafe, ?_⟩
      simp only [TableOp.run, acquire, ha, if_false, wp_bind, wp_get, hid, wp_modify, wp_pure,
        TableOp.regrant, hof, and_true]
      exact ⟨h.mirror.setRefs id _, h.byAddr_same rfl, h.cursor⟩
  | none =>
      have hof : t.idOf a = none := hid
      cases hfind : findFree t.slots (pbMaxReals - 1) t.cursor with
      | mk found cursor =>
          cases found with
          | none =>
              obtain ⟨rfl, -⟩ := findFree_lap_none h.cursor hfind
              refine ⟨grants, hsafe, ?_⟩
              simp only [TableOp.run, acquire, ha, if_false, wp_bind, wp_get, hid, hfind,
                wp_modify, wp_throw, TableOp.regrant, hof, and_true]
              exact h
          | some id =>
              obtain ⟨hrange, hfree, hcursor⟩ := findFree_some h.cursor hfind
              have hrealFree : d.reals id = 0 := (h.mirror.reals id).trans hfree
              have hsafe' : Safe (Function.update grants id { addr := a }) d :=
                hsafe.regrant (fun hne => absurd hrealFree hne) (by simp)
              refine ⟨_, hsafe', ?_⟩
              simp only [TableOp.run, acquire, ha, if_false, wp_bind, wp_get, hid, hfind,
                wp_modify, wp_emit, wp_pure]
              refine ⟨hsafe', ?_⟩
              rw [wp_writeSlot_used henv (by simpa [setSlot] using ha)]
              simp only [setSlot, Function.update_self, Option.getD_none]
              have hblank := hsafe'.write_neigh id Mac.zero fun hne =>
                absurd hrealFree hne
              refine ⟨hblank, hblank.write_real hrange (by simp) (.inl (by simp)), ?_, ?_⟩
              · exact h.put (s := ⟨a, 1, none⟩) (h.byAddr_insert ha hfree 1 none) hcursor
              · simp [TableOp.regrant, idOf, hid]

theorem wp_free (henv : ArrayOk env) (h : Held t d) (hsafe : Safe grants d) (id : Nat)
    {E : LbError → CtlMaps → RealTable → Prop} :
    wp (writeSlot env id) (fun d w => Safe grants (Durable.write d w))
      (fun _ d' t' => Held t' d' ∧ Safe grants d') E d
      { t.setSlot id {} with byAddr := t.byAddr.erase (t.slots id).addr } := by
  rw [wp_writeSlot_free henv (by simp [setSlot])]
  simp only [setSlot, Function.update_self, Option.getD_none]
  have hclear := hsafe.clear_real id
  have hblank := hclear.write_neigh id Mac.zero fun hne =>
    absurd (by simp) hne
  exact ⟨hclear, hblank, h.put (s := {}) h.byAddr_erase h.cursor, hblank⟩

theorem release_kept (henv : ArrayOk env) (h : Held t d) (hsafe : Safe grants d)
    (a : UInt32) : Kept env (.release a) grants d t := by
  refine ⟨grants, hsafe, ?_⟩
  simp only [TableOp.run, release, wp_bind, wp_get, TableOp.regrant, and_true]
  cases hid : t.byAddr[a]? with
  | none => simpa using h
  | some id =>
      obtain ⟨-, rfl⟩ := h.byAddr a id hid
      simp only [wp_ite, wp_modify, wp_bind]
      refine ⟨fun _ => ⟨h.mirror.setRefs id _, h.byAddr_same rfl, h.cursor⟩, fun _ => ?_⟩
      exact wp_imp (wp_free henv h hsafe id) fun _ _ _ hend => hend.1

theorem dropUnreferenced_kept (henv : ArrayOk env) (h : Held t d) (hsafe : Safe grants d) :
    Kept env .dropUnreferenced grants d t := by
  refine ⟨grants, hsafe, ?_⟩
  simp only [TableOp.run, dropUnreferenced, TableOp.regrant, and_true]
  refine wp_imp (wp_each (I := fun _ d' t' => Held t' d' ∧ Safe grants d') ids ⟨h, hsafe⟩ ?_)
    fun _ _ _ hend => hend.1
  rintro _ id _ _ d₁ t₁ ⟨h₁, hsafe₁⟩
  simp only [wp_bind, wp_get, wp_ite, wp_modify, wp_pure]
  exact ⟨fun _ => ⟨h₁, hsafe₁⟩, fun _ => wp_free henv h₁ hsafe₁ id⟩

theorem adopt_kept (h : Held t d) (hsafe : Safe grants d) : Kept env .adopt grants d t := by
  refine ⟨grants, hsafe, wp_imp (h.adopt hsafe) ?_⟩
  rintro _ d' t' ⟨rfl, h'⟩
  exact ⟨h', rfl⟩

theorem setMac_kept (henv : ArrayOk env) (h : Held t d) (hsafe : Safe grants d)
    (a : UInt32) (mac : Mac) : Kept env (.setMac a mac) grants d t := by
  cases hid : t.idOf a with
  | none =>
      refine ⟨grants, hsafe, ?_⟩
      simpa only [TableOp.run, setMac, wp_bind, wp_get, hid, wp_pure, TableOp.regrant,
        and_true] using h
  | some id =>
      obtain ⟨hne, rfl⟩ := h.byAddr a id hid
      have hreal : d.reals id = (t.slots id).addr := h.mirror.reals id
      have hrange := hsafe.range id (hreal.trans_ne hne)
      have hneigh := h.mirror.neigh id hne
      have hmacOf : t.macOf (t.slots id).addr = (t.slots id).mac := by simp [macOf, hid]
      have hsafe' : Safe (Function.update grants id
          { grants id with
            history := mac :: (grants id).history
            replaced := t.macOf (t.slots id).addr }) d := by
        refine hsafe.regrant (fun hne' => ⟨hsafe.addr id hne', ?_⟩) fun m hm => ?_
        · rw [hneigh, hmacOf]
          cases hmac : (t.slots id).mac with
          | none => exact .inl rfl
          | some m => exact .inr (.inr rfl)
        · rw [hmacOf] at hm
          exact (h.mac_given hsafe hne hm).imp_right (List.mem_cons_of_mem _)
      refine ⟨_, hsafe', ?_⟩
      simp only [TableOp.run, setMac, wp_bind, wp_get, hid, wp_ite, wp_pure, wp_modify]
      have hregrant : ∀ t', (TableOp.setMac (t.slots id).addr mac).regrant grants t t' =
          Function.update grants id
            { grants id with
              history := mac :: (grants id).history
              replaced := t.macOf (t.slots id).addr } := by
        intro t'
        simp only [TableOp.regrant, hid]
      refine ⟨fun _ => ⟨h, hregrant _⟩, fun _ => ?_⟩
      rw [wp_writeSlot_used henv (by simpa [setSlot] using hne)]
      simp only [setSlot, Function.update_self, Option.getD_some]
      have hset := hsafe'.write_neigh id mac fun _ =>
        .inr (.inl (by simp))
      refine ⟨hset, hset.write_real hrange ?_ (.inr (.inl (by simp))), ?_, hregrant _⟩
      · simpa using (hsafe.addr id (hreal.trans_ne hne)).trans hreal
      · exact h.put (s := ⟨(t.slots id).addr, (t.slots id).refs, some mac⟩) (h.byAddr_same rfl)
          h.cursor

theorem TableOp.kept (henv : ArrayOk env) (h : Held t d) (hsafe : Safe grants d)
    (op : TableOp) : Kept env op grants d t := by
  cases op with
  | acquire a => exact acquire_kept henv h hsafe a
  | release a => exact release_kept henv h hsafe a
  | setMac a mac => exact setMac_kept henv h hsafe a mac
  | adopt => exact adopt_kept h hsafe
  | dropUnreferenced => exact dropUnreferenced_kept henv h hsafe

end Steps

/-! ## Every run -/

namespace Custody

/-- What holds at every point: the arrays agree with the grants, the writes still to be
made keep it so, and after the last of them the table speaks for the arrays. -/
structure Inv (s : Custody) : Prop where
  safe : Safe s.grants s.maps
  ahead : Guarded (fun d w => Safe s.grants (Durable.write d w)) s.maps s.pending
  held : Held s.table (replay s.maps s.pending)

theorem Inv.init : Inv init where
  safe :=
    { range := fun _ hne => absurd rfl hne
      addr := fun _ hne => absurd rfl hne
      mac := fun _ hne => absurd rfl hne
      replaced := fun _ m hm => by simp [Custody.init] at hm }
  ahead := trivial
  held :=
    { mirror := ⟨fun _ => rfl, fun _ hne => absurd rfl hne⟩
      byAddr := fun a id hid => by simp [Custody.init] at hid
      cursor := by decide }

theorem Inv.step {e : Event} {s s' : Custody} (h : Inv s) (hstep : Step e s s') : Inv s' := by
  cases hstep with
  | call env op _ hidle henv =>
      have hheld : Held s.table s.maps := by simpa [hidle] using h.held
      obtain ⟨grants', hsafe', hop⟩ := op.kept henv hheld h.safe
      obtain ⟨hheld', hgrants⟩ := hop.at_end
      subst hgrants
      exact ⟨hsafe', hop.1, hheld'⟩
  | write _ w ws hpending =>
      have hahead := h.ahead
      have hheld := h.held
      rw [hpending] at hahead hheld
      exact ⟨hahead.1, hahead.2, hheld⟩
  | kill =>
      refine ⟨h.safe, trivial, ?_⟩
      simpa only [replay_nil] using held_new h.safe

theorem Reachable.inv {s : Custody} (h : Reachable s) : Inv s := by
  obtain ⟨es, hpath⟩ := h
  exact hpath.invariant (I := fun _ => Inv) Inv.init fun _ _ _ _ _ _ hI hstep => hI.step hstep

theorem Reachable.init : Reachable init := ⟨[], rfl⟩

/-- The state once `op` has been called and has made all its writes. -/
def after (env : Env) (op : TableOp) (s : Custody) : Custody where
  maps := replay s.maps (op.run env s.maps s.table).log
  table := (op.run env s.maps s.table).mem
  pending := []
  grants := op.regrant s.grants s.table (op.run env s.maps s.table).mem

theorem Reachable.writes {s : Custody} (h : Reachable s) :
    Reachable { s with maps := replay s.maps s.pending, pending := [] } := by
  obtain ⟨maps, table, pending, grants⟩ := s
  induction pending generalizing maps with
  | nil => exact h
  | cons w ws ih =>
      obtain ⟨es, hpath⟩ := h
      exact ih _ ⟨_, hpath.snoc (.write _ w ws rfl)⟩

theorem Reachable.after {s : Custody} (h : Reachable s) {env : Env} (op : TableOp)
    (hidle : s.pending = []) (henv : ArrayOk env) : Reachable (s.after env op) := by
  obtain ⟨es, hpath⟩ := h
  exact Reachable.writes ⟨_, hpath.snoc (.call env op s hidle henv)⟩

end Custody

/-- Whatever was called, wherever a daemon was killed: an id with an address has no MAC,
the one last given for that address since it got the id, or the one that was replaced
then.  A packet that leaves for an id, however it was led there, carries one of them. -/
theorem address_keeps_mac {s : Custody} (h : s.Reachable) :
    (∀ id, s.maps.reals id ≠ 0 →
      (s.grants id).addr = s.maps.reals id ∧ (s.grants id).Allows (s.maps.neigh id) ∧
      ∀ m, (s.grants id).replaced = some m → m = Mac.zero ∨ m ∈ (s.grants id).history) ∧
    ∀ (d : CtlMaps), d.reals = s.maps.reals → d.neigh = s.maps.neigh →
      ∀ x dp p out, (xdpPacketbalance d x dp p).1.action = .tx out →
        ∃ id, Encapsulates d p id out ∧ (s.grants id).addr = d.reals id ∧
          (s.grants id).Allows (d.neigh id) ∧ d.neigh id ∈ (s.grants id).history := by
  have hsafe := h.inv.safe
  refine ⟨fun id hne => ⟨hsafe.addr id hne, hsafe.mac id hne, hsafe.replaced id⟩, ?_⟩
  intro d hreals hneigh x dp p out hout
  obtain ⟨pick, -, henc⟩ := xdp_encapsulates hout
  have hne : s.maps.reals pick.realId ≠ 0 := hreals ▸ henc.sendable.addr
  have hmac : s.maps.neigh pick.realId ≠ Mac.zero := hneigh ▸ henc.sendable.mac
  have hallowed := hsafe.mac _ hne
  refine ⟨pick.realId, henc, hreals ▸ hsafe.addr _ hne, hneigh ▸ hallowed, hneigh ▸ ?_⟩
  rcases hallowed with hzero | hgiven | hreplaced
  · exact absurd hzero hmac
  · exact List.mem_of_mem_head? hgiven
  · exact (hsafe.replaced _ _ hreplaced).resolve_left hmac

/-- The kernel takes every write; nothing else is asked of it here. -/
def tableEnv : Env where
  macLookup _ _ _ := none
  epochMs := 0
  interfaceMac := none
  fault _ := none
  ringFault _ := none

def sampleCustody : Custody :=
  ((Custody.init.after tableEnv (.acquire 7)).after tableEnv
    (.setMac 7 ⟨#v[2, 0, 0, 0, 0, 1]⟩)).after tableEnv (.setMac 7 ⟨#v[2, 0, 0, 0, 0, 2]⟩)

theorem address_keeps_mac_sample :
    sampleCustody.maps.reals 1 = 7 ∧ (sampleCustody.grants 1).addr = 7 ∧
    (sampleCustody.grants 1).Allows (sampleCustody.maps.neigh 1) := by
  have henv : ArrayOk tableEnv := ⟨fun _ _ => rfl, fun _ _ => rfl⟩
  have hreach : sampleCustody.Reachable :=
    (((Custody.Reachable.init.after _ rfl henv).after _ rfl henv).after _ rfl henv)
  have hreal : sampleCustody.maps.reals 1 = 7 := by decide +kernel
  obtain ⟨haddr, hmac, -⟩ := (address_keeps_mac hreach).1 1 (by simp [hreal])
  exact ⟨hreal, haddr.trans hreal, hmac⟩

end RealTable

end PacketBalance
