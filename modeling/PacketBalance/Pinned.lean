import PacketBalance.RealTable.Ops
import PacketBalance.Ring.Agreement
/-!
# What the pinned maps promise the data plane

Every `vip_map` entry names an installed ring, and every backend of that ring
that can own a slot still has its address in `reals` and a MAC in `neigh`.  This
is a property of the maps alone: it can be asked at any moment, whoever wrote
them, and it is what a restarted daemon adopts.  The lemmas say under which
conditions each kind of write keeps it.
-/

namespace PacketBalance

open WriteLog

/-- A ring that was built from its backends and whose active backends are
reachable. -/
structure RingOk (d : CtlMaps) (r : InstalledRing) : Prop where
  built : buildRing r.backends r.mode pbRingSize = .ok r.slots
  sorted : AddrSorted r.backends
  ids : ∀ b ∈ r.backends, b.realId ≠ pbRealNone
  live : ∀ b ∈ r.backends, 0 < b.weight →
    b.addr ≠ 0 ∧ d.reals b.realId = b.addr ∧ d.neigh b.realId ≠ Mac.zero

structure PinnedOk (d : CtlMaps) : Prop where
  vip_lt : ∀ (spec : VipSpec) (val : VipValue), d.vipMap[spec]? = some val →
    val.vipId < pbMaxVips
  vip_inj : ∀ (s s' : VipSpec) (val val' : VipValue), d.vipMap[s]? = some val →
    d.vipMap[s']? = some val' → val.vipId = val'.vipId → s = s'
  ring : ∀ (spec : VipSpec) (val : VipValue), d.vipMap[spec]? = some val →
    ∃ r, d.rings val.vipId = some r ∧ RingOk d r
  reals : d.RealsOk

/-- The same with a promise about the rings of some ids only. -/
structure PinnedOn (ids : Set Nat) (d : CtlMaps) : Prop where
  vip_lt : ∀ (spec : VipSpec) (val : VipValue), d.vipMap[spec]? = some val →
    val.vipId < pbMaxVips
  vip_inj : ∀ (s s' : VipSpec) (val val' : VipValue), d.vipMap[s]? = some val →
    d.vipMap[s']? = some val' → val.vipId = val'.vipId → s = s'
  ring : ∀ (spec : VipSpec) (val : VipValue), d.vipMap[spec]? = some val → val.vipId ∈ ids →
    ∃ r, d.rings val.vipId = some r ∧ RingOk d r
  reals : d.RealsOk

theorem pinnedOk_iff {d : CtlMaps} : PinnedOk d ↔ PinnedOn Set.univ d :=
  ⟨fun h => ⟨h.vip_lt, h.vip_inj, fun s val hval _ => h.ring s val hval, h.reals⟩,
    fun h => ⟨h.vip_lt, h.vip_inj, fun s val hval => h.ring s val hval trivial, h.reals⟩⟩

theorem RingOk.of_arrays {d d' : CtlMaps} {r : InstalledRing} (h : RingOk d r)
    (hlive : ∀ b ∈ r.backends, 0 < b.weight → d.reals b.realId = b.addr → b.addr ≠ 0 →
      d.neigh b.realId ≠ Mac.zero →
      d'.reals b.realId = d.reals b.realId ∧ d'.neigh b.realId ≠ Mac.zero) :
    RingOk d' r := by
  refine ⟨h.built, h.sorted, h.ids, fun b hb hpos => ?_⟩
  obtain ⟨hne, hreal, hmac⟩ := h.live b hb hpos
  obtain ⟨hreal', hmac'⟩ := hlive b hb hpos hreal hne hmac
  exact ⟨hne, hreal'.trans hreal, hmac'⟩

theorem RingOk.congr {d d' : CtlMaps} {r : InstalledRing} (h : RingOk d r)
    (hreals : d'.reals = d.reals) (hneigh : d'.neigh = d.neigh) : RingOk d' r :=
  h.of_arrays fun b _ _ _ _ hmac => ⟨by rw [hreals], by rw [hneigh]; exact hmac⟩

theorem CtlMaps.empty_pinned : PinnedOk CtlMaps.empty where
  vip_lt _ _ h := by simp [CtlMaps.empty] at h
  vip_inj _ _ _ _ h := by simp [CtlMaps.empty] at h
  ring _ _ h := by simp [CtlMaps.empty] at h
  reals := ⟨fun _ h => absurd rfl h, fun _ _ h => absurd rfl h⟩

/-- The ids whose ring can be relied on once a ring of reachable backends is written. -/
def MapWrite.relied (ids : Set Nat) : MapWrite → Set Nat
  | .ringSwap id _ => insert id ids
  | _ => ids

theorem MapWrite.subset_relied (ids : Set Nat) (w : MapWrite) : ids ⊆ w.relied ids := by
  cases w with
  | ringSwap id r => exact Set.subset_insert id ids
  | _ => exact subset_rfl

def CtlMaps.ringIds (d : CtlMaps) : Set Nat := {id | (d.rings id).isSome}

theorem CtlMaps.ringIds_write (d : CtlMaps) (w : MapWrite) :
    (Durable.write d w).ringIds ⊆ w.relied d.ringIds := by
  intro id hid
  cases w with
  | ringSwap i r =>
      by_cases hi : id = i
      · exact .inl hi
      · exact .inr (by simpa [ringIds, hi] using hid)
  | ringRemove i =>
      by_cases hi : id = i
      · simp [ringIds, hi] at hid
      · simpa [ringIds, MapWrite.relied, hi] using hid
  | _ => exact hid

theorem PinnedOk.on {d : CtlMaps} (h : PinnedOk d) (ids : Set Nat) : PinnedOn ids d :=
  ⟨h.vip_lt, h.vip_inj, fun s val hval _ => h.ring s val hval, h.reals⟩

namespace PinnedOn

variable {d : CtlMaps} {ids ids' : Set Nat}

theorem mono (h : PinnedOn ids d) (hsub : ids' ⊆ ids) : PinnedOn ids' d :=
  { h with ring := fun s val hval hid => h.ring s val hval (hsub hid) }

private theorem of_arrays {d' : CtlMaps} (h : PinnedOn ids d) (hvips : d'.vipMap = d.vipMap)
    (hrings : d'.rings = d.rings) (hreals : d'.RealsOk)
    (hring : ∀ (spec : VipSpec) (val : VipValue) r, d.vipMap[spec]? = some val →
      val.vipId ∈ ids → d.rings val.vipId = some r → RingOk d r → RingOk d' r) :
    PinnedOn ids d' := by
  refine ⟨?_, ?_, ?_, hreals⟩
  · rw [hvips]
    exact h.vip_lt
  · rw [hvips]
    exact h.vip_inj
  · intro spec val hval hid
    rw [hvips] at hval
    obtain ⟨r, hr, hok⟩ := h.ring spec val hval hid
    exact ⟨r, by rw [hrings, hr], hring spec val r hval hid hr hok⟩

/-- Filling a slot disturbs no ring: an active backend's slot is in use. -/
theorem slotWrite (h : PinnedOn ids d) {w : MapWrite} (hw : SlotWrite d w) :
    PinnedOn (w.relied ids) (Durable.write d w) := by
  cases hw with
  | reset id _ => exact h
  | blankMac id mac hfree =>
      refine h.of_arrays rfl rfl (h.reals.congr rfl) fun _ _ r _ _ _ hok => ?_
      refine hok.of_arrays fun b _ _ hreal hne hmac => ⟨rfl, ?_⟩
      have hid : b.realId ≠ id := by
        rintro rfl
        exact hne (hreal.symm.trans hfree)
      simpa [hid] using hmac
  | setMac id mac hnew =>
      refine h.of_arrays rfl rfl (h.reals.congr rfl) fun _ _ r _ _ _ hok => ?_
      refine hok.of_arrays fun b _ _ _ _ hmac => ⟨rfl, ?_⟩
      by_cases hid : b.realId = id
      · simpa [hid] using hnew
      · simpa [hid] using hmac
  | fill id addr hrange hfree hnew =>
      refine h.of_arrays rfl rfl ⟨?_, ?_⟩ fun _ _ r _ _ _ hok => ?_
      · intro j hj
        by_cases hid : j = id
        · exact hid ▸ hrange
        · exact h.reals.range j (by simpa [hid] using hj)
      · intro i j hi hij
        by_cases hid : i = id <;> by_cases hjd : j = id
        · rw [hid, hjd]
        · simp [hid, hjd] at hij
          exact absurd hij.symm (hnew j)
        · simp [hid, hjd] at hij
          exact absurd hij (hnew i)
        · simp only [write_realWrite, Function.update_of_ne hid, Function.update_of_ne hjd]
            at hi hij
          exact h.reals.inj i j hi hij
      · refine hok.of_arrays fun b _ _ hreal hne hmac => ⟨?_, hmac⟩
        have hid : b.realId ≠ id := by
          rintro rfl
          exact hne (hreal.symm.trans hfree)
        simp [hid]
  | rewrite id addr hsame =>
      have heq : Durable.write d (.realWrite id addr) = d := by
        simp [← hsame]
      rw [heq]
      exact h

theorem free (h : PinnedOn ids d) {id : Nat}
    (hunused : ∀ (spec : VipSpec) (val : VipValue) r b, d.vipMap[spec]? = some val →
      val.vipId ∈ ids → d.rings val.vipId = some r → b ∈ r.backends → 0 < b.weight →
      b.realId ≠ id) :
    PinnedOn ids (Durable.write d (.realWrite id 0)) := by
  have hzero : ∀ j, (Durable.write d (.realWrite id 0)).reals j ≠ 0 →
      j ≠ id ∧ (Durable.write d (.realWrite id 0)).reals j = d.reals j := by
    intro j hj
    by_cases hid : j = id
    · simp [hid] at hj
    · exact ⟨hid, by simp [hid]⟩
  refine h.of_arrays rfl rfl ⟨?_, ?_⟩ fun spec val r hval hin hr hok => ?_
  · intro j hj
    exact h.reals.range j ((hzero j hj).2 ▸ hj)
  · intro i j hi hij
    have hj := hij ▸ hi
    rw [(hzero i hi).2, (hzero j hj).2] at hij
    exact h.reals.inj i j ((hzero i hi).2 ▸ hi) hij
  · refine hok.of_arrays fun b hb hpos _ _ hmac => ⟨?_, hmac⟩
    simp [hunused spec val r b hval hin hr hb hpos]

/-- A live ring can only give a share to the id under the address the id has. -/
theorem freeAddr (h : PinnedOn ids d) {id : Nat} {a : UInt32} (haddr : d.reals id = a)
    (hunused : ∀ (spec : VipSpec) (val : VipValue) r b, d.vipMap[spec]? = some val →
      val.vipId ∈ ids → d.rings val.vipId = some r → b ∈ r.backends → 0 < b.weight →
      b.realId = id → b.addr ≠ a) :
    PinnedOn ids (Durable.write d (.realWrite id 0)) := by
  refine h.free fun spec val r b hval hin hr hb hpos hid => ?_
  obtain ⟨r', hr', hok⟩ := h.ring spec val hval hin
  obtain rfl : r' = r := Option.some.inj (hr'.symm.trans hr)
  refine hunused spec val r' b hval hin hr hb hpos hid ?_
  rw [← (hok.live b hb hpos).2.1, hid, haddr]

theorem ringSwap (h : PinnedOn ids d) {r : InstalledRing} (hr : RingOk d r) (id : Nat) :
    PinnedOn (insert id ids) (Durable.write d (.ringSwap id r)) := by
  refine ⟨h.vip_lt, h.vip_inj, fun spec val hval hin => ?_, h.reals.congr rfl⟩
  by_cases hid : val.vipId = id
  · exact ⟨r, by simp [hid], hr.congr rfl rfl⟩
  · obtain ⟨r₀, hr₀, hok⟩ := h.ring spec val hval (hin.resolve_left hid)
    exact ⟨r₀, by simpa [hid] using hr₀, hok.congr rfl rfl⟩

theorem ringRemove (h : PinnedOn ids d) {id : Nat}
    (hunnamed : ∀ (spec : VipSpec) (val : VipValue), d.vipMap[spec]? = some val →
      val.vipId ≠ id) :
    PinnedOn ids (Durable.write d (.ringRemove id)) := by
  refine ⟨h.vip_lt, h.vip_inj, fun spec val hval hin => ?_, h.reals.congr rfl⟩
  obtain ⟨r, hr, hok⟩ := h.ring spec val hval hin
  exact ⟨r, by simpa [hunnamed spec val hval] using hr, hok.congr rfl rfl⟩

theorem vipUpdate (h : PinnedOn ids d) {spec : VipSpec} {val : VipValue}
    (hlt : val.vipId < pbMaxVips)
    (hring : val.vipId ∈ ids → ∃ r, d.rings val.vipId = some r ∧ RingOk d r)
    (hother : ∀ (s : VipSpec) (val' : VipValue), s ≠ spec → d.vipMap[s]? = some val' →
      val'.vipId ≠ val.vipId) :
    PinnedOn ids (Durable.write d (.vipUpdate spec val)) := by
  have hget : ∀ (s : VipSpec) (val' : VipValue),
      (Durable.write d (.vipUpdate spec val)).vipMap[s]? = some val' →
      (s = spec ∧ val' = val) ∨ (s ≠ spec ∧ d.vipMap[s]? = some val') := by
    intro s val' hval'
    simp only [write_vipUpdate, OrdMap.getElem?_insert] at hval'
    split_ifs at hval' with hs
    · exact .inl ⟨hs, (Option.some.inj hval').symm⟩
    · exact .inr ⟨hs, hval'⟩
  refine ⟨?_, ?_, ?_, h.reals.congr rfl⟩
  · intro s val' hval'
    rcases hget s val' hval' with ⟨-, rfl⟩ | ⟨-, hold⟩
    · exact hlt
    · exact h.vip_lt s val' hold
  · intro s s' v v' hv hv' heq
    rcases hget s v hv with ⟨rfl, rfl⟩ | ⟨hs, hold⟩ <;>
      rcases hget s' v' hv' with ⟨rfl, rfl⟩ | ⟨hs', hold'⟩
    · rfl
    · exact absurd heq.symm (hother s' v' hs' hold')
    · exact absurd heq (hother s v hs hold)
    · exact h.vip_inj s s' v v' hold hold' heq
  · intro s val' hval' hin
    rcases hget s val' hval' with ⟨-, rfl⟩ | ⟨-, hold⟩
    · obtain ⟨r, hr, hok⟩ := hring hin
      exact ⟨r, hr, hok.congr rfl rfl⟩
    · obtain ⟨r', hr', hok'⟩ := h.ring s val' hold hin
      exact ⟨r', hr', hok'.congr rfl rfl⟩

theorem vipDelete (h : PinnedOn ids d) (spec : VipSpec) :
    PinnedOn ids (Durable.write d (.vipDelete spec)) := by
  have hget : ∀ (s : VipSpec) (val : VipValue),
      (Durable.write d (.vipDelete spec)).vipMap[s]? = some val →
      d.vipMap[s]? = some val := by
    intro s val hval
    simp only [write_vipDelete, OrdMap.getElem?_erase] at hval
    split_ifs at hval
    exact hval
  refine ⟨fun s val hval => h.vip_lt s val (hget s val hval), ?_, ?_, h.reals.congr rfl⟩
  · intro s s' v v' hv hv'
    exact h.vip_inj s s' v v' (hget s v hv) (hget s' v' hv')
  · intro s val hval hin
    obtain ⟨r, hr, hok⟩ := h.ring s val (hget s val hval) hin
    exact ⟨r, hr, hok.congr rfl rfl⟩

theorem configWrite (h : PinnedOn ids d) (c : PbConfig) :
    PinnedOn ids (Durable.write d (.configWrite c)) := by
  refine ⟨h.vip_lt, h.vip_inj, fun spec val hval hin => ?_, h.reals.congr rfl⟩
  obtain ⟨r, hr, hok⟩ := h.ring spec val hval hin
  exact ⟨r, hr, hok.congr rfl rfl⟩

end PinnedOn

end PacketBalance
