import PacketBalance.RealTable.Custody
/-!
# When a freed id is given out again

`acquire` walks the ids from the cursor on, around the end if it has to, and takes the first
free one.  A freed id comes last when it was the latest to be given out, and next when the
cursor stands before it and every id in between is taken; a restart moves the cursor to
the end of the ids in use, wherever it stood.
-/

namespace PacketBalance

open WriteLog

namespace RealTable

/-! ## The walk of the cursor -/

def ahead (cursor id : Nat) : Nat := (id + (pbMaxReals - 1) - cursor) % (pbMaxReals - 1)

theorem ahead_self (c : Nat) : ahead c c = 0 := by
  rw [ahead, Nat.add_sub_cancel_left, Nat.mod_self]

theorem ahead_next {c id : Nat} (hc : 1 ≤ c ∧ c < pbMaxReals) (hid : 1 ≤ id ∧ id < pbMaxReals)
    (hne : id ≠ c) : ahead c id = ahead (nextCursor c) id + 1 := by
  have hmax : pbMaxReals = 512 := rfl
  rw [hmax] at hc hid
  simp only [ahead, nextCursor, hmax]
  split <;> omega

theorem ahead_inj {c x y : Nat} (hc : 1 ≤ c ∧ c < pbMaxReals) (hx : 1 ≤ x ∧ x < pbMaxReals)
    (hy : 1 ≤ y ∧ y < pbMaxReals) (h : ahead c x = ahead c y) : x = y := by
  have hmax : pbMaxReals = 512 := rfl
  rw [hmax] at hc hx hy
  simp only [ahead, hmax] at h
  omega

theorem findFree_first {slots : Nat → Slot} {n c id c' : Nat} (hc : 1 ≤ c ∧ c < pbMaxReals)
    (h : findFree slots n c = (some id, c')) {y : Nat} (hy : 1 ≤ y ∧ y < pbMaxReals)
    (hfree : (slots y).addr = 0) : ahead c id ≤ ahead c y := by
  induction n generalizing c with
  | zero => simp [findFree] at h
  | succ n ih =>
      simp only [findFree] at h
      split_ifs at h with hused
      · have hnext : 1 ≤ nextCursor c ∧ nextCursor c < pbMaxReals := nextCursor_range hc.2
        obtain ⟨hid, hidFree, -⟩ := findFree_some hnext h
        have hidNe : id ≠ c := fun heq => hused (heq ▸ hidFree)
        have hyNe : y ≠ c := fun heq => hused (heq ▸ hfree)
        rw [ahead_next hc hid hidNe, ahead_next hc hy hyNe]
        exact Nat.succ_le_succ (ih hnext h)
      · obtain ⟨rfl, -⟩ : c = id ∧ nextCursor c = c' := by simpa using h
        rw [ahead_self]
        exact Nat.zero_le _

/-! ## The next allocation -/

section Acquire

variable {t : RealTable} {d : CtlMaps} {env : Env} {b : UInt32}

theorem acquire_finds (henv : ArrayOk env) (hb : b ≠ 0) (hnone : t.idOf b = none) :
    wp (acquire env b) (fun _ _ => True)
      (fun id _ _ => (findFree t.slots (pbMaxReals - 1) t.cursor).1 = some id)
      (fun _ _ _ => (findFree t.slots (pbMaxReals - 1) t.cursor).1 = none) d t := by
  have hnone : t.byAddr[b]? = none := hnone
  simp only [acquire, if_neg hb, wp_bind, wp_get, hnone]
  cases hfind : findFree t.slots (pbMaxReals - 1) t.cursor with
  | mk found cursor =>
      cases found with
      | none => simp only [wp_modify, wp_throw]
      | some id =>
          simp only [wp_bind, wp_modify, wp_emit, wp_pure]
          rw [wp_writeSlot_used henv (by simpa [setSlot] using hb)]
          simp

/-- A free id is the next to be given out exactly when no free one comes before it. -/
theorem acquire_returns_iff (henv : ArrayOk env) (hb : b ≠ 0) (hnone : t.idOf b = none)
    (hcursor : 1 ≤ t.cursor ∧ t.cursor < pbMaxReals) {x : Nat} (hx : 1 ≤ x ∧ x < pbMaxReals)
    (hfree : (t.slots x).addr = 0) :
    (acquire env b d t).res = .ok x ↔
      ∀ y, 1 ≤ y ∧ y < pbMaxReals → (t.slots y).addr = 0 → ahead t.cursor x ≤ ahead t.cursor y := by
  have hfinds := acquire_finds (d := d) henv hb hnone
  cases hfind : findFree t.slots (pbMaxReals - 1) t.cursor with
  | mk found c' =>
      cases found with
      | none => exact absurd hfree ((findFree_lap_none hcursor hfind).2 x hx.1 hx.2)
      | some id =>
          obtain ⟨hid, hidFree, -⟩ := findFree_some hcursor hfind
          have hres : (acquire env b d t).res = .ok id := by
            cases hr : (acquire env b d t).res with
            | ok id' =>
                have := hfinds.of_ok hr
                rw [hfind] at this
                rw [Option.some.inj this]
            | error e =>
                have := hfinds.of_error hr
                rw [hfind] at this
                cases this
          rw [hres]
          constructor
          · intro heq
            obtain rfl := Except.ok.inj heq
            exact fun y hy hyFree => findFree_first hcursor hfind hy hyFree
          · intro hleast
            have hle := hleast id hid hidFree
            have hge := findFree_first hcursor hfind hx hfree
            rw [ahead_inj hcursor hx hid (Nat.le_antisymm hle hge)]

end Acquire

/-! ## Restarts -/

def highestUsed (d : CtlMaps) : Nat := ((ids.filter fun id => d.reals id ≠ 0).getLast?).getD 0

def restartCursor (d : CtlMaps) : Nat :=
  if highestUsed d + 1 < pbMaxReals then highestUsed d + 1 else 1

theorem foldl_adoptOne_snd (d : CtlMaps) (l : List Nat) (acc : RealTable × Nat) :
    (l.foldl (adoptOne d) acc).2 = ((l.filter fun id => d.reals id ≠ 0).getLast?).getD acc.2 := by
  induction l generalizing acc with
  | nil => rfl
  | cons id l ih =>
      rw [List.foldl_cons, ih]
      by_cases hzero : d.reals id = 0
      · simp [adoptOne, hzero]
      · simp [adoptOne, hzero, List.getLast?_cons]

theorem cursor_adopt (d : CtlMaps) : (adopt d {}).mem.cursor = restartCursor d := by
  have hadopt : wp adopt (fun _ _ => True) (fun _ _ t' => t'.cursor = restartCursor d)
      (fun _ _ _ => True) d {} := by
    simp only [adopt, wp_bind, wp_durable, wp_modify, foldl_adoptOne_snd]
    rfl
  exact hadopt.of_ok rfl

/-! ## A freed id -/

def FreeBefore (d : CtlMaps) (cursor x : Nat) : Prop :=
  ∃ y, 1 ≤ y ∧ y < pbMaxReals ∧ d.reals y = 0 ∧ ahead cursor y < ahead cursor x

theorem Held.acquire_ne_iff {t : RealTable} {d : CtlMaps} (h : Held t d) {env : Env}
    (henv : ArrayOk env) {b : UInt32} (hb : b ≠ 0) (hnone : t.idOf b = none) {x : Nat}
    (hx : 1 ≤ x ∧ x < pbMaxReals) (hfree : d.reals x = 0) :
    (acquire env b d t).res ≠ .ok x ↔ FreeBefore d t.cursor x := by
  rw [Ne, acquire_returns_iff henv hb hnone h.cursor hx (by rw [← h.mirror.reals, hfree])]
  simp only [← h.mirror.reals, FreeBefore]
  push Not
  exact exists_congr fun y => and_assoc

theorem Custody.Reachable.held {s : Custody} (h : s.Reachable) (hidle : s.pending = []) :
    Held s.table s.maps := by
  simpa [hidle] using h.inv.held

/-- After an operation has freed an id, the next allocation gives out another one exactly
when a free id comes before it on the way from the cursor: the running daemon's, or the one
a new daemon starts from. -/
theorem freed_id_not_reused_iff {s : Custody} (h : s.Reachable) (hidle : s.pending = [])
    {env : Env} (henv : ArrayOk env) {op : TableOp} {x : Nat}
    (hused : (s.table.slots x).addr ≠ 0) (hfreed : ((s.after env op).table.slots x).addr = 0) :
    (∀ env' b, ArrayOk env' → b ≠ 0 → (s.after env op).table.idOf b = none →
      ((acquire env' b (s.after env op).maps (s.after env op).table).res ≠ .ok x ↔
        FreeBefore (s.after env op).maps (s.after env op).table.cursor x)) ∧
    ∀ env' b, ArrayOk env' → b ≠ 0 → (adopt (s.after env op).maps {}).mem.idOf b = none →
      ((acquire env' b (s.after env op).maps (adopt (s.after env op).maps {}).mem).res ≠ .ok x ↔
        FreeBefore (s.after env op).maps (restartCursor (s.after env op).maps) x) := by
  have hx : 1 ≤ x ∧ x < pbMaxReals := by
    apply h.inv.safe.range
    rwa [(h.held hidle).mirror.reals]
  have hafter := h.after op hidle henv
  have hheld : Held (s.after env op).table (s.after env op).maps := hafter.held rfl
  have hfree : (s.after env op).maps.reals x = 0 := (hheld.mirror.reals x).trans hfreed
  refine ⟨fun env' b henv' hb hnone => hheld.acquire_ne_iff henv' hb hnone hx hfree,
    fun env' b henv' hb hnone => ?_⟩
  rw [← cursor_adopt]
  exact (held_new hafter.inv.safe).acquire_ne_iff henv' hb hnone hx hfree

def pairCustody : Custody :=
  (Custody.init.after tableEnv (.acquire 7)).after tableEnv (.acquire 8)

theorem tableEnv_ok : ArrayOk tableEnv := ⟨fun _ _ => rfl, fun _ _ => rfl⟩

theorem pairCustody_reachable : pairCustody.Reachable :=
  (Custody.Reachable.init.after _ rfl tableEnv_ok).after _ rfl tableEnv_ok

theorem freed_id_not_reused_iff_sample :
    (pairCustody.table.slots 1).addr ≠ 0 ∧
    ((pairCustody.after tableEnv (.release 7)).table.slots 1).addr = 0 ∧
    (acquire tableEnv 9 (pairCustody.after tableEnv (.release 7)).maps
      (pairCustody.after tableEnv (.release 7)).table).res ≠ .ok 1 := by
  have hused : (pairCustody.table.slots 1).addr ≠ 0 := by decide +kernel
  have hfreed : ((pairCustody.after tableEnv (.release 7)).table.slots 1).addr = 0 := by
    decide +kernel
  refine ⟨hused, hfreed, ?_⟩
  refine ((freed_id_not_reused_iff pairCustody_reachable rfl tableEnv_ok hused hfreed).1 tableEnv 9
    tableEnv_ok (by decide) (by decide +kernel)).mpr ?_
  exact ⟨3, by decide, by decide, by decide +kernel, by decide +kernel⟩

/-- A restart after the latest id was freed: the cursor goes back to it, and the next address
gets it although 509 other ids are free. -/
theorem freed_id_reused_after_restart :
    pairCustody.Reachable ∧ (pairCustody.table.slots 2).addr ≠ 0 ∧
    ((pairCustody.after tableEnv (.release 8)).table.slots 2).addr = 0 ∧
    ((pairCustody.after tableEnv (.release 8)).table.slots 3).addr = 0 ∧
    (adopt (pairCustody.after tableEnv (.release 8)).maps {}).mem.idOf 9 = none ∧
    (acquire tableEnv 9 (pairCustody.after tableEnv (.release 8)).maps
      (adopt (pairCustody.after tableEnv (.release 8)).maps {}).mem).res = .ok 2 :=
  ⟨pairCustody_reachable, by decide +kernel, by decide +kernel, by decide +kernel,
    by decide +kernel, by decide +kernel⟩

end RealTable

end PacketBalance
