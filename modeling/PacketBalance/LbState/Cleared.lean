import PacketBalance.Lib.Monitor
import PacketBalance.Operation
/-!
# Counters are cleared before an id is given out

Counters are kept by id, and ids are reused.  The order of the writes keeps the counters of one
owner apart from those of the next: `reset_counters` and `reset_real_counters` run while nobody
owns the id, and a VIP or an address appears in the maps under an id of its own or under one
that was cleared before and not been used since.
-/

namespace PacketBalance

open WriteLog Std

/-- The ids whose counters were cleared and which nobody got since. -/
structure Cleared where
  vips : Set Nat
  reals : Set Nat

namespace Cleared

def none : Cleared := ⟨∅, ∅⟩

def note (k : Cleared) : MapWrite → Cleared
  | .statsReset id => { k with vips := insert id k.vips }
  | .realStatsReset id => { k with reals := insert id k.reals }
  | .vipUpdate _ value => { k with vips := k.vips \ {value.vipId} }
  | .realWrite id _ => { k with reals := k.reals \ {id} }
  | .vipDelete _ | .ringSwap _ _ | .ringRemove _ | .neighWrite _ _ | .configWrite _ => k

end Cleared

def CtlMaps.Unowned (d : CtlMaps) (id : Nat) : Prop :=
  ∀ (spec : VipSpec) (val : VipValue), d.vipMap[spec]? = some val → val.vipId ≠ id

/-- The writes that leave everyone their own counters. -/
inductive Fair (k : Cleared) (d : CtlMaps) : MapWrite → Prop
  | clearVip (id : Nat) (hfree : d.Unowned id) : Fair k d (.statsReset id)
  | clearReal (id : Nat) (hfree : d.reals id = 0) : Fair k d (.realStatsReset id)
  | sameVip (spec : VipSpec) (value val : VipValue) (hval : d.vipMap[spec]? = some val)
      (hid : val.vipId = value.vipId) : Fair k d (.vipUpdate spec value)
  | newVip (spec : VipSpec) (value : VipValue) (hnew : spec ∉ d.vipMap)
      (hfree : d.Unowned value.vipId) (hid : value.vipId ∈ k.vips) :
      Fair k d (.vipUpdate spec value)
  | sameReal (id : Nat) (addr : UInt32) (haddr : d.reals id = addr) : Fair k d (.realWrite id addr)
  | newReal (id : Nat) (addr : UInt32) (hfree : d.reals id = 0) (hid : id ∈ k.reals) :
      Fair k d (.realWrite id addr)
  | freeReal (id : Nat) : Fair k d (.realWrite id 0)
  | vipDelete (spec : VipSpec) : Fair k d (.vipDelete spec)
  | ringSwap (id : Nat) (ring : InstalledRing) : Fair k d (.ringSwap id ring)
  | ringRemove (id : Nat) : Fair k d (.ringRemove id)
  | neighWrite (id : Nat) (mac : Mac) : Fair k d (.neighWrite id mac)
  | configWrite (config : PbConfig) : Fair k d (.configWrite config)

def fairness : Monitor CtlMaps MapWrite Cleared := ⟨Cleared.note, Fair⟩

section Notes

variable (k : Cleared) (d : CtlMaps)

@[simp] theorem fairness_ok (w : MapWrite) : fairness.ok k d w ↔ Fair k d w := Iff.rfl

@[simp] theorem note_statsReset (id : Nat) :
    fairness.note k (.statsReset id) = { k with vips := insert id k.vips } := rfl

@[simp] theorem note_realStatsReset (id : Nat) :
    fairness.note k (.realStatsReset id) = { k with reals := insert id k.reals } := rfl

@[simp] theorem note_vipUpdate (spec : VipSpec) (value : VipValue) :
    fairness.note k (.vipUpdate spec value) = { k with vips := k.vips \ {value.vipId} } := rfl

@[simp] theorem note_realWrite (id : Nat) (addr : UInt32) :
    fairness.note k (.realWrite id addr) = { k with reals := k.reals \ {id} } := rfl

@[simp] theorem note_vipDelete (spec : VipSpec) : fairness.note k (.vipDelete spec) = k := rfl

@[simp] theorem note_ringSwap (id : Nat) (ring : InstalledRing) :
    fairness.note k (.ringSwap id ring) = k := rfl

@[simp] theorem note_ringRemove (id : Nat) : fairness.note k (.ringRemove id) = k := rfl

@[simp] theorem note_neighWrite (id : Nat) (mac : Mac) :
    fairness.note k (.neighWrite id mac) = k := rfl

@[simp] theorem note_configWrite (config : PbConfig) :
    fairness.note k (.configWrite config) = k := rfl

end Notes

/-! ## The real table -/

namespace RealTable

/-- The addresses of the slots are those in the map; `k` and `d` are where the call began. -/
structure Tracks (k : Cleared) (d : CtlMaps) (k' : Cleared) (d' : CtlMaps) (t : RealTable) :
    Prop where
  reals : ∀ id, d'.reals id = (t.slots id).addr
  vips : k'.vips = k.vips
  vipMap : d'.vipMap = d.vipMap

variable {env : Env} {k : Cleared} {d : CtlMaps} {t : RealTable}

theorem Tracks.start (h : ∀ id, d.reals id = (t.slots id).addr) : Tracks k d k d t := ⟨h, rfl, rfl⟩

theorem writeSlot_fair {k' : Cleared} {d' : CtlMaps} {id : Nat}
    (helse : ∀ j ≠ id, d'.reals j = (t.slots j).addr) (hvips : k'.vips = k.vips)
    (hmap : d'.vipMap = d.vipMap)
    (hid : (t.slots id).addr ≠ 0 → d'.reals id = (t.slots id).addr ∨
      d'.reals id = 0 ∧ id ∈ k'.reals) :
    fairness.wp (writeSlot env id) (fun _ => Tracks k d) k' d' t := by
  have hend : ∀ mac, Tracks k d { k' with reals := k'.reals \ {id} }
      { d' with
        reals := Function.update d'.reals id (t.slots id).addr
        neigh := Function.update d'.neigh id mac } t := by
    refine fun mac => ⟨fun j => ?_, hvips, hmap⟩
    by_cases hj : j = id
    · simp [hj]
    · simp [hj, helse j hj]
  rw [writeSlot, Monitor.wp_bind, Monitor.wp_get]
  by_cases hne : (t.slots id).addr = 0
  · simp only [hne, ne_eq, not_true_eq_false, if_false, Monitor.wp_bind, writeReal]
    split
    · exact Monitor.wp_throw _
    · simp only [Monitor.wp_emit, fairness_ok, note_realWrite, write_realWrite, writeNeigh]
      refine ⟨.freeReal id, ?_⟩
      split
      · exact Monitor.wp_throw _
      · simp only [Monitor.wp_emit, fairness_ok, note_neighWrite, write_neighWrite]
        rw [← hne]
        exact ⟨.neighWrite _ _, hend _⟩
  · simp only [hne, ne_eq, not_false_eq_true, if_true, Monitor.wp_bind, writeNeigh]
    split
    · exact Monitor.wp_throw _
    · simp only [Monitor.wp_emit, fairness_ok, note_neighWrite, write_neighWrite, writeReal]
      refine ⟨.neighWrite _ _, ?_⟩
      split
      · exact Monitor.wp_throw _
      · simp only [Monitor.wp_emit, fairness_ok, note_realWrite, write_realWrite]
        refine ⟨?_, hend _⟩
        rcases hid hne with hsame | ⟨hfree, hmem⟩
        · exact .sameReal _ _ hsame
        · exact .newReal _ _ hfree hmem

theorem findFree_free {slots : Nat → Slot} {n c id c' : Nat}
    (h : findFree slots n c = (some id, c')) : (slots id).addr = 0 := by
  induction n generalizing c with
  | zero => simp [findFree] at h
  | succ n ih =>
    rw [findFree] at h
    split_ifs at h with hfree
    · exact ih h
    · obtain ⟨rfl, -⟩ : c = id ∧ _ := by simpa using h
      simpa using hfree

theorem setSlot_addr {id : Nat} {s : Slot} (hs : s.addr = (t.slots id).addr) (j : Nat) :
    ((t.setSlot id s).slots j).addr = (t.slots j).addr := by
  by_cases hj : j = id
  · simp [setSlot, hj, hs]
  · simp [setSlot, hj]

theorem acquire_fair (h : ∀ id, d.reals id = (t.slots id).addr) (addr : UInt32) :
    fairness.wp (acquire env addr) (fun _ => Tracks k d) k d t := by
  rw [acquire, Monitor.wp_ite]
  refine ⟨fun _ => Monitor.wp_throw _, fun _ => ?_⟩
  rw [Monitor.wp_bind, Monitor.wp_get]
  cases hid : t.byAddr[addr]? with
  | some id =>
    simp only [Monitor.wp_bind, Monitor.wp_modify, Monitor.wp_pure]
    exact ⟨fun j => by rw [h j, setSlot_addr]; rfl, rfl, rfl⟩
  | none =>
    cases hfind : findFree t.slots (pbMaxReals - 1) t.cursor with
    | mk found cursor =>
      simp only [Monitor.wp_bind, Monitor.wp_modify]
      cases found with
      | none => exact Monitor.wp_throw _
      | some id =>
        have hfree : d.reals id = 0 := (h id).trans (findFree_free hfind)
        simp only [Monitor.wp_bind, Monitor.wp_modify, Monitor.wp_emit, fairness_ok,
          note_realStatsReset, write_realStatsReset, Monitor.wp_pure]
        refine ⟨.clearReal id hfree, writeSlot_fair (fun j hj => ?_) rfl rfl fun _ => ?_⟩
        · simp [setSlot, hj, h j]
        · exact .inr ⟨hfree, Set.mem_insert _ _⟩

theorem release_fair (h : ∀ id, d.reals id = (t.slots id).addr) (addr : UInt32) :
    fairness.wp (release env addr) (fun _ => Tracks k d) k d t := by
  rw [release, Monitor.wp_bind, Monitor.wp_get]
  cases hid : t.byAddr[addr]? with
  | none => exact (Monitor.wp_pure _).mpr (.start h)
  | some id =>
    simp only [Monitor.wp_ite, Monitor.wp_bind, Monitor.wp_modify]
    refine ⟨fun _ => .start fun j => by rw [h j, setSlot_addr]; rfl, fun _ => ?_⟩
    refine writeSlot_fair (fun j hj => ?_) rfl rfl fun hne => ?_
    · simp [setSlot, hj, h j]
    · simp [setSlot] at hne

theorem setMac_fair (h : ∀ id, d.reals id = (t.slots id).addr) (addr : UInt32) (mac : Mac) :
    fairness.wp (setMac env addr mac) (fun _ => Tracks k d) k d t := by
  rw [setMac, Monitor.wp_bind, Monitor.wp_get]
  cases hid : t.idOf addr with
  | none => exact (Monitor.wp_pure _).mpr (.start h)
  | some id =>
    simp only [Monitor.wp_ite, Monitor.wp_bind, Monitor.wp_modify, Monitor.wp_pure]
    refine ⟨fun _ => .start h, fun _ => writeSlot_fair (fun j _ => ?_) rfl rfl fun _ => .inl ?_⟩
    · rw [h j, setSlot_addr]
      rfl
    · rw [h id, setSlot_addr]
      rfl

theorem dropUnreferenced_fair (h : ∀ id, d.reals id = (t.slots id).addr) :
    fairness.wp (dropUnreferenced env) (fun _ => Tracks k d) k d t := by
  refine Monitor.wp_each (.start h) fun id _ k' d' t' ht => ?_
  rw [Monitor.wp_bind, Monitor.wp_get]
  simp only [Monitor.wp_ite, Monitor.wp_bind, Monitor.wp_modify, Monitor.wp_pure]
  refine ⟨fun _ => ht, fun _ => writeSlot_fair (fun j hj => ?_) ht.vips ht.vipMap fun hne => ?_⟩
  · simp [setSlot, hj, ht.reals j]
  · simp [setSlot] at hne

end RealTable

/-! ## The model -/

namespace LbState

variable {env : Env} {S S' : Set VipSpec} {k : Cleared} {d : CtlMaps} {lb : LbState}
variable {spec : VipSpec} {v : Vip}

/-- Everyone's counters are their own.  A VIP that has no entry yet has a cleared id; the VIPs of
`S`, which are about to go, are excused. -/
structure Apart (S : Set VipSpec) (k : Cleared) (d : CtlMaps) (lb : LbState) : Prop where
  key : ∀ (spec : VipSpec) (v : Vip), lb.vips[spec]? = some v → v.spec = spec
  named_inj : ∀ s s' id, lb.Named s id → lb.Named s' id → s = s'
  named_fun : ∀ spec id id', lb.Named spec id → lb.Named spec id' → id = id'
  entry_named : ∀ (spec : VipSpec) (val : VipValue), d.vipMap[spec]? = some val →
    lb.Named spec val.vipId
  cleared : ∀ (spec : VipSpec) (v : Vip), lb.vips[spec]? = some v → spec ∉ S →
    spec ∈ d.vipMap ∨ v.id ∈ k.vips
  adopted : ∀ (spec : VipSpec) (id : Nat), lb.adoptedVipIds[spec]? = some id → spec ∉ S →
    spec ∈ d.vipMap
  reals : ∀ id, d.reals id = (lb.reals.slots id).addr

theorem Apart.mono (h : Apart S k d lb) (hS : S ⊆ S') : Apart S' k d lb :=
  { h with
    cleared := fun s v hv hs => h.cleared s v hv fun hin => hs (hS hin)
    adopted := fun s id hid hs => h.adopted s id hid fun hin => hs (hS hin) }

theorem Apart.congr (h : Apart S k d lb) {lb' : LbState} (hvips : lb'.vips = lb.vips)
    (hadopted : lb'.adoptedVipIds = lb.adoptedVipIds) (hreals : lb'.reals = lb.reals) :
    Apart S k d lb' := by
  have hnamed : lb'.Named = lb.Named := by
    funext s id
    rw [Named, Named, hvips, hadopted]
  exact ⟨by rw [hvips]; exact h.key, by rw [hnamed]; exact h.named_inj,
    by rw [hnamed]; exact h.named_fun, by rw [hnamed]; exact h.entry_named,
    by rw [hvips]; exact h.cleared, by rw [hadopted]; exact h.adopted,
    by rw [hreals]; exact h.reals⟩

theorem Apart.of_maps (h : Apart S k d lb) {d' : CtlMaps} (hmap : d'.vipMap = d.vipMap)
    (hreals : d'.reals = d.reals) : Apart S k d' lb :=
  { h with
    entry_named := by rw [hmap]; exact h.entry_named
    cleared := by rw [hmap]; exact h.cleared
    adopted := by rw [hmap]; exact h.adopted
    reals := by rw [hreals]; exact h.reals }

theorem Apart.put (h : Apart S k d lb) (hv : lb.vips[spec]? = some v) {v' : Vip}
    (hid : v'.id = v.id) (hspec : v'.spec = v.spec) :
    Apart S k d { lb with vips := lb.vips.insert spec v' } := by
  have hnamed : ({ lb with vips := lb.vips.insert spec v' } : LbState).Named = lb.Named := by
    funext s id
    by_cases hs : s = spec
    · subst hs
      simp [Named, hv, hid]
    · simp [Named, OrdMap.getElem?_insert, hs]
  refine ⟨fun s u hu => ?_, by rw [hnamed]; exact h.named_inj, by rw [hnamed]; exact h.named_fun,
    by rw [hnamed]; exact h.entry_named, fun s u hu => ?_, h.adopted, h.reals⟩
  · rw [OrdMap.getElem?_insert] at hu
    split_ifs at hu with hs
    · rw [← Option.some.inj hu, hspec, hs]
      exact h.key spec v hv
    · exact h.key s u hu
  · rw [OrdMap.getElem?_insert] at hu
    split_ifs at hu with hs
    · rw [← Option.some.inj hu, hid, hs]
      exact h.cleared spec v hv
    · exact h.cleared s u hu

theorem vipAt_watched {Q : Vip → Cleared → CtlMaps → LbState → Prop}
    (h : ∀ v, lb.vips[spec]? = some v → Q v k d lb) : fairness.wp (vipAt spec) Q k d lb := by
  rw [vipAt, Monitor.wp_bind, Monitor.wp_get]
  cases hv : lb.vips[spec]? with
  | none => exact Monitor.wp_throw _
  | some v => exact (Monitor.wp_pure _).mpr (h v hv)

theorem onReals_apart {α : Type} {m : TableM α} (h : Apart S k d lb)
    (hm : fairness.wp m (fun _ => RealTable.Tracks k d) k d lb.reals) :
    fairness.wp (onReals m) (fun _ k' d' lb' => Apart S k' d' lb' ∧ d'.vipMap = d.vipMap)
      k d lb := by
  rw [onReals, Monitor.wp_zoom]
  refine Monitor.wp_mono hm fun _ k' d' t ht => ⟨?_, ht.vipMap⟩
  exact ⟨h.key, h.named_inj, h.named_fun, by rw [ht.vipMap]; exact h.entry_named,
    by rw [ht.vipMap, ht.vips]; exact h.cleared, by rw [ht.vipMap]; exact h.adopted, ht.reals⟩

theorem acquire_apart (h : Apart S k d lb) (addr : UInt32) :
    fairness.wp (onReals (RealTable.acquire env addr)) (fun _ => Apart S) k d lb :=
  Monitor.wp_mono (onReals_apart h (RealTable.acquire_fair h.reals addr)) fun _ _ _ _ h' => h'.1

theorem release_apart (h : Apart S k d lb) (addr : UInt32) :
    fairness.wp (onReals (RealTable.release env addr))
      (fun _ k' d' lb' => Apart S k' d' lb' ∧ d'.vipMap = d.vipMap) k d lb :=
  onReals_apart h (RealTable.release_fair h.reals addr)

theorem setMac_apart (h : Apart S k d lb) (addr : UInt32) (mac : Mac) :
    fairness.wp (onReals (RealTable.setMac env addr mac)) (fun _ => Apart S) k d lb :=
  Monitor.wp_mono (onReals_apart h (RealTable.setMac_fair h.reals addr mac))
    fun _ _ _ _ h' => h'.1

theorem putVip_apart (h : Apart S k d lb) (hv : lb.vips[spec]? = some v) {v' : Vip}
    (hid : v'.id = v.id) (hspec : v'.spec = v.spec) :
    fairness.wp (putVip spec v') (fun _ => Apart S) k d lb :=
  (Monitor.wp_modify _).mpr (h.put hv hid hspec)

/-! ## Members and rings -/

theorem rebuildLocked_apart (h : Apart S k d lb) :
    fairness.wp (rebuildLocked env spec) (fun _ => Apart S) k d lb := by
  rw [rebuildLocked, Monitor.wp_bind, Monitor.wp_get, Monitor.wp_bind]
  refine vipAt_watched fun v hv => ?_
  have hmark : Apart S k d { lb with vips := lb.vips.insert spec (lb.markInRing v) } :=
    h.put hv rfl rfl
  have hv₁ : (lb.vips.insert spec (lb.markInRing v))[spec]? = some (lb.markInRing v) := by simp
  simp only [putVip, Monitor.wp_bind, Monitor.wp_modify, Monitor.wp_ite]
  refine ⟨fun _ => Monitor.wp_throw _, fun _ => ?_⟩
  split
  · exact Monitor.wp_throw _
  · exact Monitor.wp_throw _
  · simp only [installRing, Monitor.wp_bind, Monitor.wp_ite, Monitor.wp_modify]
    refine ⟨fun _ => Monitor.wp_throw _, fun _ => ?_⟩
    split
    · exact Monitor.wp_throw _
    · simp only [Monitor.wp_emit, fairness_ok, note_ringSwap, write_ringSwap]
      exact ⟨.ringSwap _ _, (hmark.put hv₁ (by rfl) (by rfl)).of_maps rfl rfl⟩

theorem askNeighbor_apart (h : Apart S k d lb) (addr : UInt32) :
    fairness.wp (askNeighbor env spec addr) (fun _ => Apart S) k d lb := by
  rw [askNeighbor, Monitor.wp_bind, Monitor.wp_get, Monitor.wp_ite]
  refine ⟨fun _ => (Monitor.wp_pure _).mpr h, fun _ => ?_⟩
  split
  · exact (Monitor.wp_pure _).mpr h
  · simp only [Monitor.wp_bind, Monitor.wp_pure]
    exact setMac_apart h addr _

theorem addMemberLocked_apart (h : Apart S k d lb) (addr : UInt32) (weight : Nat) :
    fairness.wp (addMemberLocked env spec addr weight) (fun _ => Apart S) k d lb := by
  rw [addMemberLocked, Monitor.wp_bind]
  refine Monitor.wp_mono (acquire_apart h addr) fun _ k₁ d₁ lb₁ h₁ => ?_
  rw [Monitor.wp_bind]
  refine Monitor.wp_mono (askNeighbor_apart h₁ addr) fun _ k₂ d₂ lb₂ h₂ => ?_
  simp only [Monitor.wp_bind, Monitor.wp_get, Monitor.wp_modify]
  have h₃ : Apart S k₂ d₂ { lb₂ with nextIncarnation := lb₂.nextIncarnation + 1 } :=
    h₂.congr rfl rfl rfl
  exact vipAt_watched fun v hv => putVip_apart h₃ hv (by rfl) (by rfl)

theorem removeMemberLocked_apart (h : Apart S k d lb) (addr : UInt32) :
    fairness.wp (removeMemberLocked spec addr) (fun _ => Apart S) k d lb := by
  rw [removeMemberLocked, Monitor.wp_bind]
  exact vipAt_watched fun v hv => putVip_apart h hv (by rfl) (by rfl)

theorem reconcileMember_apart (h : Apart S k d lb) (changed : Bool) (r : UInt32 × Nat) :
    fairness.wp (reconcileMember env spec changed r) (fun _ => Apart S) k d lb := by
  rw [reconcileMember, Monitor.wp_bind]
  refine vipAt_watched fun v hv => ?_
  cases hm : v.members[r.1]? with
  | none =>
    simp only [Monitor.wp_bind, Monitor.wp_pure]
    exact addMemberLocked_apart h r.1 r.2
  | some m =>
    simp only [Monitor.wp_ite, Monitor.wp_bind, Monitor.wp_pure]
    exact ⟨fun _ => putVip_apart h hv (by rfl) (by rfl), fun _ => h⟩

/-! ## VIPs -/

theorem Named.of_vip (hv : lb.vips[spec]? = some v) : lb.Named spec v.id := .inl ⟨v, hv, rfl⟩

theorem mem_insert_of_mem {m : ExtTreeMap VipSpec VipValue} {s : VipSpec} {val : VipValue}
    (h : s ∈ m) : s ∈ m.insert spec val := by
  simp [ExtTreeMap.mem_insert, h]

theorem writeVipEntry_apart (h : Apart S k d lb) (hS : spec ∉ S) :
    fairness.wp (writeVipEntry env spec) (fun _ => Apart S) k d lb := by
  rw [writeVipEntry, Monitor.wp_bind]
  refine vipAt_watched fun v hv => ?_
  have hname := Named.of_vip hv
  dsimp only
  split
  · exact Monitor.wp_throw _
  · rw [h.key spec v hv]
    simp only [Monitor.wp_emit, fairness_ok, note_vipUpdate, write_vipUpdate]
    constructor
    · cases hval : d.vipMap[spec]? with
      | some val => exact .sameVip _ _ val hval (h.named_fun _ _ _ (h.entry_named _ _ hval) hname)
      | none =>
        have hnew : spec ∉ d.vipMap := OrdMap.notMem_iff.mpr hval
        refine .newVip _ _ hnew (fun s val hs hid => hnew ?_)
          ((h.cleared spec v hv hS).resolve_left hnew)
        have hother := h.entry_named s val hs
        rw [show val.vipId = v.id from hid] at hother
        rw [h.named_inj spec s v.id hname hother]
        exact OrdMap.mem_iff.mpr ⟨val, hs⟩
    · refine { h with
        entry_named := fun s val hs => ?_
        cleared := fun s u hu hs => ?_
        adopted := fun s id hid hs => mem_insert_of_mem (h.adopted s id hid hs) }
      · rw [OrdMap.getElem?_insert] at hs
        split_ifs at hs with heq
        · rw [← Option.some.inj hs, heq]
          exact hname
        · exact h.entry_named s val hs
      · by_cases heq : s = spec
        · exact .inl (by simp [heq])
        · refine (h.cleared s u hu hs).imp mem_insert_of_mem fun hin => ?_
          exact ⟨hin, fun hid => heq (h.named_inj s spec v.id (hid ▸ Named.of_vip hu) hname)⟩

theorem setFlags_apart (h : Apart S k d lb) (hS : spec ∉ S) (flags : UInt32) :
    fairness.wp (setFlags env spec flags) (fun _ => Apart S) k d lb := by
  rw [setFlags, Monitor.wp_bind]
  refine vipAt_watched fun v hv => ?_
  simp only [putVip, Monitor.wp_ite, Monitor.wp_bind, Monitor.wp_modify, Monitor.wp_pure]
  exact ⟨fun _ => writeVipEntry_apart (h.put hv (by rfl) (by rfl)) hS, fun _ => h⟩

theorem Apart.insertNew (h : Apart S k d lb) (hnew : spec ∉ lb.vips) {id : Nat}
    (hid : lb.idFor spec = some id) (hown : spec ∈ d.vipMap ∨ id ∈ k.vips) (flags : UInt32) :
    Apart S k d { lb with
      adoptedVipIds := lb.adoptedVipIds.erase spec
      vips := lb.vips.insert spec { spec, id, flags } } := by
  have hmine : ∀ s, lb.Named s id → s = spec := by
    intro s hs
    rcases idFor_new hnew hid with hpin | ⟨-, halloc⟩
    · exact h.named_inj s spec id hs (.inr hpin)
    · exact absurd hs ((allocateVipId_some halloc).2 s)
  refine ⟨fun s v hv => ?_, fun s s' i hs hs' => ?_, fun s i i' hs hs' => ?_, ?_, ?_, ?_, h.reals⟩
  · simp only [OrdMap.getElem?_insert] at hv
    split_ifs at hv with hs
    · rw [← Option.some.inj hv, hs]
    · exact h.key s v hv
  · rcases named_insertNew hs with ⟨rfl, rfl⟩ | ⟨hne, hold⟩ <;>
      rcases named_insertNew hs' with ⟨rfl, hi⟩ | ⟨hne', hold'⟩
    · rfl
    · exact (hmine s' hold').symm
    · exact hmine s (hi ▸ hold)
    · exact h.named_inj s s' i hold hold'
  · rcases named_insertNew hs with ⟨heq, rfl⟩ | ⟨hne, hold⟩ <;>
      rcases named_insertNew hs' with ⟨heq', rfl⟩ | ⟨hne', hold'⟩
    · rfl
    · exact absurd heq hne'
    · exact absurd heq' hne
    · exact h.named_fun s i i' hold hold'
  · exact fun s val hval => (h.entry_named s val hval).insertNew hnew hid flags
  · intro s v hv hs
    simp only [OrdMap.getElem?_insert] at hv
    split_ifs at hv with heq
    · rw [← Option.some.inj hv, heq]
      exact hown
    · exact h.cleared s v hv hs
  · intro s i hi hs
    simp only [OrdMap.getElem?_erase] at hi
    split_ifs at hi with heq
    exact h.adopted s i hi hs

theorem takeVipId_apart (h : Apart S k d lb) (hS : spec ∉ S) (hnew : spec ∉ lb.vips)
    (flags : UInt32) :
    fairness.wp (takeVipId spec)
      (fun id k' d' lb' => Apart S k' d'
        { lb' with vips := lb'.vips.insertIfNew spec { spec, id, flags } }) k d lb := by
  rw [takeVipId, Monitor.wp_bind, Monitor.wp_get]
  have hvip : lb.vips[spec]? = none := OrdMap.notMem_iff.mp hnew
  cases hpin : lb.adoptedVipIds[spec]? with
  | some id =>
    simp only [Monitor.wp_bind, Monitor.wp_modify, Monitor.wp_pure,
      OrdMap.insertIfNew_eq_insert hnew]
    exact h.insertNew hnew (by simp [idFor, hvip, hpin]) (.inl (h.adopted spec id hpin hS)) flags
  | none =>
    have hpinned : spec ∉ lb.adoptedVipIds := OrdMap.notMem_iff.mpr hpin
    cases halloc : lb.allocateVipId with
    | none => exact Monitor.wp_throw _
    | some id =>
      simp only [Monitor.wp_bind, Monitor.wp_emit, fairness_ok, note_statsReset,
        write_statsReset, Monitor.wp_pure, OrdMap.insertIfNew_eq_insert hnew]
      refine ⟨.clearVip id fun s val hval heq => ?_, ?_⟩
      · exact (allocateVipId_some halloc).2 s (heq ▸ h.entry_named s val hval)
      · have hk : Apart S { k with vips := insert id k.vips } d lb := { h with
          cleared := fun s v hv hs => (h.cleared s v hv hs).imp_right (Set.mem_insert_of_mem id) }
        have hins := hk.insertNew hnew (by simp [idFor, hvip, hpin, halloc])
          (.inr (Set.mem_insert id k.vips)) flags
        rwa [OrdMap.erase_of_notMem hpinned] at hins

theorem createVipLocked_apart (h : Apart S k d lb) (hS : spec ∉ S) (hnew : spec ∉ lb.vips)
    (flags : UInt32) (want : ExtTreeMap UInt32 Nat) :
    fairness.wp (createVipLocked env spec flags want) (fun _ => Apart S) k d lb := by
  rw [createVipLocked, Monitor.wp_bind]
  refine Monitor.wp_mono (takeVipId_apart h hS hnew flags) fun id k₁ d₁ lb₁ h₁ => ?_
  simp only [Monitor.wp_bind, Monitor.wp_modify]
  refine Monitor.wp_mono (Monitor.wp_each h₁ fun r _ _ _ _ hr =>
    addMemberLocked_apart hr r.1 r.2) fun _ k₂ d₂ lb₂ h₂ => ?_
  refine Monitor.wp_mono (rebuildLocked_apart h₂) fun _ k₃ d₃ lb₃ h₃ => ?_
  refine Monitor.wp_mono (writeVipEntry_apart h₃ hS) fun _ k₄ d₄ lb₄ h₄ => ?_
  exact vipAt_watched fun _ _ => h₄

theorem Apart.eraseEntry (h : Apart S k d lb) (hS : spec ∈ S) :
    Apart S k { d with vipMap := d.vipMap.erase spec } lb := by
  have hkeep : ∀ s ∉ S, s ∈ d.vipMap → s ∈ d.vipMap.erase spec := by
    intro s hs hin
    have hne : spec ≠ s := fun heq => hs (heq ▸ hS)
    simpa [ExtTreeMap.mem_erase, hne] using hin
  refine { h with
    entry_named := fun s val hval => ?_
    cleared := fun s v hv hs => (h.cleared s v hv hs).imp_left (hkeep s hs)
    adopted := fun s id hid hs => hkeep s hs (h.adopted s id hid hs) }
  rw [OrdMap.getElem?_erase] at hval
  split_ifs at hval
  exact h.entry_named s val hval

theorem Apart.eraseVip (h : Apart S k d lb) (hgone : spec ∉ d.vipMap) :
    Apart S k d { lb with vips := lb.vips.erase spec } := by
  have hvips : ∀ {s : VipSpec} {v : Vip}, (lb.vips.erase spec)[s]? = some v →
      lb.vips[s]? = some v := by
    intro s v hv
    rw [OrdMap.getElem?_erase] at hv
    split_ifs at hv
    exact hv
  have hnamed : ∀ {s i}, Named { lb with vips := lb.vips.erase spec } s i → lb.Named s i := by
    rintro s i (⟨v, hv, hid⟩ | hpin)
    · exact .inl ⟨v, hvips hv, hid⟩
    · exact .inr hpin
  refine ⟨fun s v hv => h.key s v (hvips hv),
    fun s s' i hs hs' => h.named_inj s s' i (hnamed hs) (hnamed hs'),
    fun s i i' hs hs' => h.named_fun s i i' (hnamed hs) (hnamed hs'), fun s val hval => ?_,
    fun s v hv => h.cleared s v (hvips hv), h.adopted, h.reals⟩
  have hne : s ≠ spec := by
    rintro rfl
    exact hgone (OrdMap.mem_iff.mpr ⟨val, hval⟩)
  refine (h.entry_named s val hval).imp_left ?_
  rintro ⟨v, hv, hid⟩
  exact ⟨v, by simpa only [OrdMap.getElem?_erase, if_neg hne] using hv, hid⟩

theorem removeRing_apart (h : Apart S k d lb) (id : Nat) :
    fairness.wp (removeRing env id)
      (fun _ k' d' lb' => Apart S k' d' lb' ∧ d'.vipMap = d.vipMap) k d lb := by
  rw [removeRing]
  split
  · exact Monitor.wp_throw _
  · exact (Monitor.wp_emit _).mpr ⟨.ringRemove id, h.of_maps rfl rfl, rfl⟩

/-- Of the VIP that goes, neither entry nor id is asked for any more. -/
theorem deleteVipLocked_apart (h : Apart S k d lb) (hS : spec ∈ S) :
    fairness.wp (deleteVipLocked env spec) (fun _ => Apart S) k d lb := by
  rw [deleteVipLocked, Monitor.wp_bind, Monitor.wp_get]
  cases hv : lb.vips[spec]? with
  | none => exact (Monitor.wp_pure _).mpr h
  | some v =>
    simp only [Monitor.wp_bind, Monitor.wp_emit, fairness_ok, note_vipDelete, write_vipDelete,
      Monitor.wp_modify]
    refine ⟨.vipDelete spec, ?_⟩
    have hgone : spec ∉ d.vipMap.erase spec := by simp
    refine Monitor.wp_mono (removeRing_apart (h.eraseEntry hS) v.id) ?_
    rintro _ k₁ d₁ lb₁ ⟨h₁, hmap₁⟩
    refine Monitor.wp_mono (Monitor.wp_each
      (I := fun k' d' lb' => Apart S k' d' lb' ∧ spec ∉ d'.vipMap) ⟨h₁, hmap₁ ▸ hgone⟩ ?_)
      fun _ k₂ d₂ lb₂ h₂ => h₂.1.eraseVip h₂.2
    rintro a - k₂ d₂ lb₂ ⟨h₂, hgone₂⟩
    exact Monitor.wp_mono (release_apart h₂ a) fun _ _ _ _ h₃ => ⟨h₃.1, h₃.2 ▸ hgone₂⟩

theorem releaseAll_apart (h : Apart S k d lb) (addrs : List UInt32) :
    fairness.wp (Prog.each addrs fun addr => onReals (RealTable.release env addr))
      (fun _ => Apart S) k d lb :=
  Monitor.wp_each h fun a _ _ _ _ h' =>
    Monitor.wp_mono (release_apart h' a) fun _ _ _ _ h'' => h''.1

theorem reconcileVip_apart (h : Apart S k d lb) (hS : spec ∉ S) (hashChanged : Bool)
    (flags : UInt32) (want : ExtTreeMap UInt32 Nat) :
    fairness.wp (reconcileVip env hashChanged spec flags want) (fun _ => Apart S) k d lb := by
  rw [reconcileVip, Monitor.wp_bind]
  refine Monitor.wp_mono (setFlags_apart h hS flags) fun _ k₁ d₁ lb₁ h₁ => ?_
  rw [Monitor.wp_bind]
  refine vipAt_watched fun v _ => ?_
  simp only [Monitor.wp_bind]
  refine Monitor.wp_mono (Monitor.wp_each h₁ fun a _ _ _ _ h' =>
    removeMemberLocked_apart h' a) fun _ k₂ d₂ lb₂ h₂ => ?_
  refine Monitor.wp_mono (Monitor.wp_fold h₂ fun r _ changed _ _ _ h' =>
    reconcileMember_apart h' changed r) fun changed k₃ d₃ lb₃ h₃ => ?_
  rw [Monitor.wp_when]
  refine ⟨fun _ => ?_, fun _ => releaseAll_apart h₃ _⟩
  exact Monitor.wp_mono (rebuildLocked_apart h₃) fun _ _ _ _ h₄ => releaseAll_apart h₄ _

/-! ## apply -/

variable {cfg : Config}

theorem applyVip_apart (h : Apart S k d lb) (hashChanged : Bool) {vc : VipConfig}
    (hS : vc.spec ∉ S) : fairness.wp (applyVip env hashChanged vc) (fun _ => Apart S) k d lb := by
  rw [applyVip, Monitor.wp_bind, Monitor.wp_get]
  cases hv : lb.vips[vc.spec]? with
  | none =>
    simp only [Monitor.wp_bind, Monitor.wp_pure]
    exact createVipLocked_apart h hS (OrdMap.notMem_iff.mpr hv) _ _
  | some v => exact reconcileVip_apart h hS hashChanged _ _

theorem writeConfigMap_apart (h : Apart S k d lb) :
    fairness.wp (writeConfigMap env cfg) (fun _ => Apart S) k d lb := by
  rw [writeConfigMap, Monitor.wp_bind, Monitor.wp_get]
  split
  · exact Monitor.wp_throw _
  · split
    · exact Monitor.wp_throw _
    · exact (Monitor.wp_emit _).mpr ⟨.configWrite _, h.of_maps rfl rfl⟩

theorem adoptFirst_silent {first : Bool} :
    fairness.wp (Prog.when first adoptLocked) (fun _ k' _ _ => k' = k) k d lb := by
  simp [Monitor.wp_when, adoptLocked, onReals, RealTable.adopt]

theorem Entered.apart {lb' : LbState} (h : Entered lb d lb') (hnone : lb.adoptedVipIds = ∅)
    (hentry : ∀ s ∈ lb.vips, s ∈ d.vipMap) : Apart ∅ k d lb' := by
  have hc := h.consistent
  obtain ⟨t, ids, rfl⟩ := h.state
  refine ⟨hc.key, hc.named_inj, hc.named_fun, hc.entry_named,
    fun s v hv _ => .inl (hentry s (OrdMap.mem_iff.mpr ⟨v, hv⟩)), fun s id hid _ => ?_,
    hc.table.mirror.reals⟩
  cases hinit : lb.initialized with
  | true =>
    rw [h.running hinit, hnone] at hid
    simp at hid
  | false =>
    rw [h.pinned hinit, hnone] at hid
    obtain ⟨val, hval, -⟩ : ∃ val, d.vipMap[s]? = some val ∧ val.vipId = id := by simpa using hid
    exact OrdMap.mem_iff.mpr ⟨val, hval⟩

theorem dropUnwanted_apart (h : Apart {s | s ∉ cfg.specs} k d lb) (spec : VipSpec) :
    fairness.wp (dropUnwanted env cfg spec) (fun _ => Apart {s | s ∉ cfg.specs}) k d lb := by
  rw [dropUnwanted, Monitor.wp_ite]
  exact ⟨fun _ => (Monitor.wp_pure _).mpr h, fun hspec => deleteVipLocked_apart h hspec⟩

theorem applyOpening_apart (hstart : Startable lb d) (hnone : lb.adoptedVipIds = ∅)
    (hentry : ∀ s ∈ lb.vips, s ∈ d.vipMap) :
    fairness.wp (applyOpening env cfg (!lb.initialized))
      (fun _ => Apart {s | s ∉ cfg.specs}) k d lb := by
  rw [applyOpening, Monitor.wp_bind]
  refine Monitor.wp_mono (Monitor.wp_and adoptFirst_silent (adoptFirst_spec
    (G := fun _ _ => True) (E := fun _ _ _ => True) hstart)) ?_
  rintro _ k₁ d₁ lb₁ ⟨rfl, rfl, hentered⟩
  have h₁ : Apart {s | s ∉ cfg.specs} k₁ d₁ lb₁ :=
    (hentered.apart hnone hentry).mono (Set.empty_subset _)
  rw [Monitor.wp_bind]
  refine Monitor.wp_mono (writeConfigMap_apart h₁) fun _ k₂ d₂ lb₂ h₂ => ?_
  simp only [Monitor.wp_bind, Monitor.wp_get, Monitor.wp_modify, Monitor.wp_pure]
  exact Monitor.wp_each (h₂.congr rfl rfl rfl) fun spec _ _ _ _ h' => dropUnwanted_apart h' spec

theorem dropAdopted_fair (p : VipSpec × Nat) (h : ∀ id, d.reals id = (lb.reals.slots id).addr) :
    fairness.wp (dropAdopted env p)
      (fun _ _ d' lb' => ∀ id, d'.reals id = (lb'.reals.slots id).addr) k d lb := by
  simp only [dropAdopted, removeRing, Monitor.wp_bind, Monitor.wp_get, Monitor.wp_ite,
    Monitor.wp_pure, Monitor.wp_emit, fairness_ok, note_vipDelete, write_vipDelete]
  refine ⟨fun _ => h, fun _ => ⟨.vipDelete p.1, ?_⟩⟩
  split
  · exact Monitor.wp_throw _
  · exact (Monitor.wp_emit _).mpr ⟨.ringRemove _, h⟩

theorem finishFirst_fair (h : ∀ id, d.reals id = (lb.reals.slots id).addr) :
    fairness.wp (finishFirst env) (fun _ _ _ _ => True) k d lb := by
  simp only [finishFirst, Monitor.wp_bind, Monitor.wp_get, Monitor.wp_modify, onReals,
    Monitor.wp_zoom]
  refine Monitor.wp_mono (Monitor.wp_each
    (I := fun _ d' lb' => ∀ id, d'.reals id = (lb'.reals.slots id).addr) h
    fun p _ _ _ _ h' => dropAdopted_fair p h') fun _ k₁ d₁ lb₁ h₁ => ?_
  exact Monitor.wp_mono (RealTable.dropUnreferenced_fair h₁) fun _ _ _ _ _ => trivial

theorem apply_fair (hstart : Startable lb d) (hnone : lb.adoptedVipIds = ∅)
    (hentry : ∀ s ∈ lb.vips, s ∈ d.vipMap) :
    fairness.wp (apply env cfg) (fun _ _ _ _ => True) k d lb := by
  rw [apply, Monitor.wp_bind, Monitor.wp_get, Monitor.wp_bind]
  refine Monitor.wp_mono (applyOpening_apart hstart hnone hentry) fun hashChanged k₁ d₁ lb₁ h₁ => ?_
  rw [Monitor.wp_bind]
  have hlisted : ∀ vc ∈ cfg.vips, vc.spec ∉ {s | s ∉ cfg.specs} :=
    fun vc hvc hnot => hnot (List.mem_map_of_mem hvc)
  refine Monitor.wp_mono (Monitor.wp_each h₁ fun vc hvc _ _ _ h' =>
    applyVip_apart h' hashChanged (hlisted vc hvc)) fun _ k₂ d₂ lb₂ h₂ => ?_
  rw [Monitor.wp_when]
  exact ⟨fun _ => finishFirst_fair h₂.reals, fun _ => trivial⟩

/-! ## The other operations -/

theorem vipOrThrow_watched {Q : Vip → Cleared → CtlMaps → LbState → Prop}
    (h : ∀ v, lb.vips[spec]? = some v → Q v k d lb) :
    fairness.wp (vipOrThrow spec) Q k d lb := by
  rw [vipOrThrow, Monitor.wp_bind, Monitor.wp_get]
  cases hv : lb.vips[spec]? with
  | none => exact Monitor.wp_throw _
  | some v => exact (Monitor.wp_pure _).mpr (h v hv)

theorem memberOrThrow_watched {Q : Member → Cleared → CtlMaps → LbState → Prop} {a : UInt32}
    (h : ∀ m, v.members[a]? = some m → Q m k d lb) :
    fairness.wp (memberOrThrow v a) Q k d lb := by
  rw [memberOrThrow]
  cases hm : v.members[a]? with
  | none => exact Monitor.wp_throw _
  | some m => exact (Monitor.wp_pure _).mpr (h m hm)

theorem addVip_apart (h : Apart ∅ k d lb) (noConntrack : Bool) :
    fairness.wp (addVip env spec noConntrack) (fun _ => Apart ∅) k d lb := by
  simp only [addVip, Monitor.wp_bind, Monitor.wp_get, Monitor.wp_ite, Monitor.wp_pure]
  exact ⟨fun _ => Monitor.wp_throw _, fun hnew =>
    createVipLocked_apart h (Set.notMem_empty spec) hnew _ _⟩

theorem delVip_apart (h : Apart ∅ k d lb) :
    fairness.wp (delVip env spec) (fun _ => Apart {spec}) k d lb := by
  rw [delVip, Monitor.wp_bind]
  exact vipOrThrow_watched fun v _ =>
    deleteVipLocked_apart (h.mono (Set.empty_subset _)) (Set.mem_singleton spec)

theorem addReal_apart (h : Apart ∅ k d lb) (a : UInt32) (w : Nat) :
    fairness.wp (addReal env spec a w) (fun _ => Apart ∅) k d lb := by
  rw [addReal, Monitor.wp_bind]
  refine vipOrThrow_watched fun v hv => ?_
  simp only [Monitor.wp_ite, Monitor.wp_bind]
  refine ⟨fun _ => Monitor.wp_throw _, fun _ => ⟨fun _ => Monitor.wp_throw _, fun _ =>
    ⟨fun _ => Monitor.wp_throw _, fun _ => ?_⟩⟩⟩
  refine Monitor.wp_mono (addMemberLocked_apart h a w) fun _ k₁ d₁ lb₁ h₁ => ?_
  refine Monitor.wp_mono (rebuildLocked_apart h₁) fun _ k₂ d₂ lb₂ h₂ => ?_
  rw [derefId, Monitor.wp_bind, Monitor.wp_get]
  split
  · exact (Monitor.wp_pure _).mpr h₂
  · exact Monitor.wp_throw _

theorem delReal_apart (h : Apart ∅ k d lb) (a : UInt32) :
    fairness.wp (delReal env spec a) (fun _ => Apart ∅) k d lb := by
  rw [delReal, Monitor.wp_bind]
  refine vipOrThrow_watched fun v hv => ?_
  rw [Monitor.wp_bind]
  refine memberOrThrow_watched fun m _ => ?_
  rw [Monitor.wp_bind]
  refine Monitor.wp_mono (removeMemberLocked_apart h a) fun _ k₁ d₁ lb₁ h₁ => ?_
  rw [Monitor.wp_bind]
  refine Monitor.wp_mono (rebuildLocked_apart h₁) fun _ k₂ d₂ lb₂ h₂ => ?_
  exact Monitor.wp_mono (release_apart h₂ a) fun _ _ _ _ h₃ => h₃.1

theorem replaceMember_apart (h : Apart ∅ k d lb) (hv : lb.vips[spec]? = some v)
    (a : UInt32) (m : Member) : fairness.wp (do
      putVip spec { v with members := v.members.insert a m }
      rebuildLocked env spec) (fun _ => Apart ∅) k d lb := by
  rw [Monitor.wp_bind]
  exact Monitor.wp_mono (putVip_apart h hv (by rfl) (by rfl)) fun _ _ _ _ h₁ =>
    rebuildLocked_apart h₁

theorem setWeight_apart (h : Apart ∅ k d lb) (a : UInt32) (w : Nat) :
    fairness.wp (setWeight env spec a w) (fun _ => Apart ∅) k d lb := by
  rw [setWeight, Monitor.wp_ite]
  refine ⟨fun _ => Monitor.wp_throw _, fun _ => ?_⟩
  rw [Monitor.wp_bind]
  refine vipOrThrow_watched fun v hv => ?_
  rw [Monitor.wp_bind]
  refine memberOrThrow_watched fun m _ => ?_
  rw [Monitor.wp_ite, Monitor.wp_pure]
  exact ⟨fun _ => h, fun _ => replaceMember_apart h hv a _⟩

theorem setDraining_apart (h : Apart ∅ k d lb) (a : UInt32) (draining : Bool) :
    fairness.wp (setDraining env spec a draining) (fun _ => Apart ∅) k d lb := by
  rw [setDraining, Monitor.wp_bind]
  refine vipOrThrow_watched fun v hv => ?_
  rw [Monitor.wp_bind]
  refine memberOrThrow_watched fun m _ => ?_
  rw [Monitor.wp_ite, Monitor.wp_pure]
  exact ⟨fun _ => h, fun _ => replaceMember_apart h hv a _⟩

theorem reportHealth_apart (h : Apart ∅ k d lb) (t : HealthTarget) (r : ProbeResult)
    (rise fall : UInt32) :
    fairness.wp (reportHealth env t r rise fall) (fun _ => Apart ∅) k d lb := by
  rw [reportHealth, Monitor.wp_bind, Monitor.wp_get]
  cases hv : lb.vips[t.vip]? with
  | none => exact (Monitor.wp_pure _).mpr h
  | some v =>
    cases hm : v.members[t.addr]? with
    | none => simpa only [hm, Monitor.wp_pure] using h
    | some m =>
      simp only [hm, Monitor.wp_ite, Monitor.wp_pure]
      exact ⟨fun _ => h, fun _ => ⟨fun _ => h, fun _ => ⟨fun _ => replaceMember_apart h hv _ _,
        fun _ => putVip_apart h hv (by rfl) (by rfl)⟩⟩⟩

theorem neighborResolved_apart (h : Apart ∅ k d lb) (ip : UInt32) (mac : NeighMac) :
    fairness.wp (neighborResolved env ip mac) (fun _ => Apart ∅) k d lb := by
  rw [neighborResolved, Monitor.wp_bind, Monitor.wp_get, Monitor.wp_bind]
  refine Monitor.wp_mono (Monitor.wp_fold h fun a _ newly k₁ d₁ lb₁ h₁ => ?_)
    fun newly k₂ d₂ lb₂ h₂ => ?_
  · simp only [setOne, Monitor.wp_bind, Monitor.wp_get, Monitor.wp_pure]
    exact setMac_apart h₁ a _
  · rw [Monitor.wp_ite, Monitor.wp_pure]
    refine ⟨fun _ => h₂, fun _ => Monitor.wp_each h₂ fun spec _ k₃ d₃ lb₃ h₃ => ?_⟩
    rw [Monitor.wp_bind]
    refine vipAt_watched fun v hv => ?_
    rw [Monitor.wp_ite, Monitor.wp_pure]
    exact ⟨fun _ => rebuildLocked_apart h₃, fun _ => h₃⟩

end LbState

open LbState

theorem LbState.Settled.apart {lb : LbState} {d : CtlMaps} (h : Settled lb d)
    (hnone : lb.adoptedVipIds = ∅) (k : Cleared) : Apart ∅ k d lb where
  key := h.consistent.key
  named_inj := h.consistent.named_inj
  named_fun := h.consistent.named_fun
  entry_named := h.consistent.entry_named
  cleared s v hv _ := .inl (OrdMap.mem_iff.mpr ⟨_, h.entry_of_vip s v hv⟩)
  adopted s id hid := by simp [hnone] at hid
  reals := h.consistent.table.mirror.reals

/-- The writes of every operation are fair, where no operation has thrown so far. -/
theorem Op.run_fair {env : Env} {op : Op} {lb : LbState} {d : CtlMaps} (hs : Usable lb d)
    (hsettled : op.isApply = false → Settled lb d) (hnone : lb.adoptedVipIds = ∅) (k : Cleared) :
    fairness.Accepts k d (op.run env d lb).log := by
  have hapart : op.isApply = false → Apart ∅ k d lb := fun hop => (hsettled hop).apart hnone k
  cases op with
  | apply cfg =>
    refine (apply_fair hs.startable hnone fun s hs' => ?_).1
    cases hs with
    | running h =>
      obtain ⟨v, hv⟩ := OrdMap.mem_iff.mp hs'
      exact OrdMap.mem_iff.mpr ⟨_, h.entry_of_vip s v hv⟩
    | restarted interface hlb _ => simp [hlb] at hs'
  | addVip vip noConntrack =>
    have hwp : fairness.wp (run env (.addVip vip noConntrack)) (fun _ => Apart ∅) k d lb := by
      simpa only [run, Monitor.wp_bind, Monitor.wp_pure] using addVip_apart (hapart rfl) noConntrack
    exact hwp.1
  | addReal vip addr weight =>
    have hwp : fairness.wp (run env (.addReal vip addr weight)) (fun _ => Apart ∅) k d lb := by
      simpa only [run, Monitor.wp_bind, Monitor.wp_pure] using
        addReal_apart (hapart rfl) addr weight
    exact hwp.1
  | delVip vip => exact (delVip_apart (hapart rfl)).1
  | delReal vip addr => exact (delReal_apart (hapart rfl) addr).1
  | setWeight vip addr weight => exact (setWeight_apart (hapart rfl) addr weight).1
  | setDraining vip addr draining => exact (setDraining_apart (hapart rfl) addr draining).1
  | reportHealth target result rise fall =>
    exact (reportHealth_apart (hapart rfl) target result rise fall).1
  | neighborResolved ip mac => exact (neighborResolved_apart (hapart rfl) ip mac).1

end PacketBalance
