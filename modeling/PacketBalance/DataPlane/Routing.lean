import PacketBalance.DataPlane.Affinity
import PacketBalance.Pinned
/-!
# Packets placed by a ring

What `PinnedOk` means to the data plane: a packet that takes its real from a ring
finds an address and a MAC behind the slot, and two load balancers whose rings were
built from the same backends send it to the same address.
-/

namespace PacketBalance

variable {d : CtlMaps} {r : InstalledRing}

/-! ## One slot -/

theorem RingOk.length_eq (h : RingOk d r) : r.slots.length = pbRingSize := by
  obtain ⟨ring, hring, hlen, -⟩ := buildRing_ok h.sorted h.ids r.mode
  rw [h.built] at hring
  rw [Except.ok.inj hring, hlen]

theorem RingOk.slot (h : RingOk d r) (hash : UInt32) :
    ∃ id, r.slots[hash.toNat % pbRingSize]? = some id := by
  have hlt : hash.toNat % pbRingSize < r.slots.length := by
    rw [h.length_eq]
    exact Nat.mod_lt _ (by decide)
  exact ⟨_, List.getElem?_eq_getElem hlt⟩

/-- A slot whose packets can be sent: the id is one of `reals`, its entry still holds
the address the ring was built with, and its MAC is known. -/
structure LiveSlot (d : CtlMaps) (r : InstalledRing) (id : Nat) : Prop where
  range : 1 ≤ id ∧ id < pbMaxReals
  built : ∃ b ∈ r.backends, 0 < b.weight ∧ b.realId = id
  addr : ∀ b ∈ r.backends, 0 < b.weight → b.realId = id → d.reals id = b.addr ∧ b.addr ≠ 0
  mac : d.neigh id ≠ Mac.zero

theorem RingOk.live_slot (h : RingOk d r) (hreals : d.RealsOk) {id : Nat}
    (hid : id ∈ r.slots) : id = pbRealNone ∨ LiveSlot d r id := by
  rcases mem_buildRing h.sorted h.built hid with hnone | ⟨b, hb, hpos, rfl⟩
  · exact .inl hnone
  · obtain ⟨hne, hreal, hmac⟩ := h.live b hb hpos
    refine .inr ⟨hreals.range _ (hreal.trans_ne hne), ⟨b, hb, hpos, rfl⟩, ?_, hmac⟩
    intro b' hb' hpos' hid'
    obtain ⟨hne', hreal', -⟩ := h.live b' hb' hpos'
    exact ⟨hid' ▸ hreal', hne'⟩

theorem RingOk.lookup (h : RingOk d r) {vipId : Nat} (hr : d.rings vipId = some r)
    (hash : UInt32) :
    r.slots[hash.toNat % pbRingSize]? = some (ringLookup d vipId hash) := by
  obtain ⟨id, hid⟩ := h.slot hash
  simp [ringLookup, hr, hid]

theorem PinnedOk.lookup (h : PinnedOk d) {p : Frame} {q : Request}
    (hq : classify d p = .forward q) :
    ∃ r, d.rings q.vip.vipId = some r ∧ RingOk d r ∧
      r.slots[p.flow.hash.toNat % pbRingSize]? =
        some (ringLookup d q.vip.vipId p.flow.hash) := by
  obtain ⟨r, hr, hok⟩ := h.ring _ _ (classify_forward hq).2
  exact ⟨r, hr, hok, hok.lookup hr _⟩

/-! ## Why a packet is dropped -/

theorem send_noReal {x : PktEnv} {dp : DpMaps} {p : Frame} {q : Request} {pick : Pick}
    (h : (send d x dp p q pick).1.action = .drop .dropNoReal) :
    pick.realId ≥ pbMaxReals ∨ d.reals pick.realId = 0 ∨ d.neigh pick.realId = Mac.zero := by
  by_contra hnot
  push Not at hnot
  obtain ⟨hrange, hreal, hmac⟩ := hnot
  rw [send_sendable ⟨hrange, hreal, hmac⟩] at h
  split at h <;> cases h

theorem xdp_picked {x : PktEnv} {dp : DpMaps} {p : Frame} {pick : Pick}
    (h : (xdpPacketbalance d x dp p).1.pick = some pick) :
    ∃ q dp₁ dp', classify d p = .forward q ∧
      xdpPacketbalance d x dp p = send d x dp₁ p q pick ∧
      PickStep d x dp p.flow q.vip.vipId (q.useCt d) q.bareSyn pick dp' := by
  rcases xdp_step d x dp p with ⟨-, hnone⟩ | ⟨q, pick', dp₁, hq, -, hsend, hstep⟩
  · rw [hnone] at h
    cases h
  · obtain rfl : pick' = pick := by simpa [hsend, send_pick] using h
    rw [(classify_forward hq).1] at hstep
    exact ⟨q, dp₁, _, hq, hsend, hstep⟩

theorem PickStep.realId_eq {x : PktEnv} {dp dp' : DpMaps} {f : Flow} {vipId : Nat}
    {useCt bareSyn : Bool} {pick : Pick} (h : PickStep d x dp f vipId useCt bareSyn pick dp')
    (hring : pick.source = .ring) : pick.realId = ringLookup d vipId f.hash := by
  cases h with
  | hit => cases hring
  | store => rfl
  | hash => rfl

/-- A packet placed by such a ring is dropped for want of a real only if its slot is
empty. -/
theorem RingOk.noReal (h : RingOk d r) (hreals : d.RealsOk) {x : PktEnv} {dp : DpMaps}
    {p : Frame} {q : Request} {pick : Pick} (hq : classify d p = .forward q)
    (hr : d.rings q.vip.vipId = some r)
    (hpick : (xdpPacketbalance d x dp p).1.pick = some pick) (hring : pick.source = .ring)
    (hdrop : (xdpPacketbalance d x dp p).1.action = .drop .dropNoReal) :
    r.slots[p.flow.hash.toNat % pbRingSize]? = some pbRealNone := by
  obtain ⟨q', dp₁, dp', hq', hsend, hstep⟩ := xdp_picked hpick
  obtain rfl : q' = q := by
    rw [hq] at hq'
    cases hq'
    rfl
  have hslot := h.lookup hr p.flow.hash
  rw [← hstep.realId_eq hring] at hslot
  rcases h.live_slot hreals (List.mem_of_getElem? hslot) with hnone | hlive
  · rw [hslot, hnone]
  · exfalso
    obtain ⟨b, hb, hpos, hid⟩ := hlive.built
    obtain ⟨haddr, hne⟩ := hlive.addr b hb hpos hid
    rw [hsend] at hdrop
    rcases send_noReal hdrop with hrange | hzero | hmac
    · exact absurd hlive.range.2 (Nat.not_lt.mpr hrange)
    · exact hne (haddr.symm.trans hzero)
    · exact hlive.mac hmac

theorem PinnedOk.noReal (h : PinnedOk d) {x : PktEnv} {dp : DpMaps} {p : Frame} {pick : Pick}
    (hpick : (xdpPacketbalance d x dp p).1.pick = some pick) (hring : pick.source = .ring)
    (hdrop : (xdpPacketbalance d x dp p).1.action = .drop .dropNoReal) :
    ∃ q r, classify d p = .forward q ∧ d.rings q.vip.vipId = some r ∧
      r.slots[p.flow.hash.toNat % pbRingSize]? = some pbRealNone := by
  obtain ⟨q, dp₁, dp', hq, -, -⟩ := xdp_picked hpick
  obtain ⟨r, hr, hok, -⟩ := h.lookup hq
  exact ⟨q, r, hq, hr, hok.noReal h.reals hq hr hpick hring hdrop⟩

/-! ## Two load balancers -/

def InstalledRing.pairs (r : InstalledRing) : Finset (UInt32 × Nat) :=
  (r.backends.map fun b => (b.addr, b.weight)).toFinset

theorem AddrSorted.map_pairs_eq {xs ys : List Backend} (hxs : AddrSorted xs)
    (hys : AddrSorted ys)
    (h : ∀ p, p ∈ xs.map (fun b => (b.addr, b.weight)) ↔
      p ∈ ys.map fun b => (b.addr, b.weight)) :
    xs.map (fun b => (b.addr, b.weight)) = ys.map fun b => (b.addr, b.weight) := by
  have hsorted : ∀ {l : List Backend}, AddrSorted l →
      (l.map fun b => (b.addr, b.weight)).Pairwise (·.1 < ·.1) := fun hl =>
    List.pairwise_map.mpr hl
  have hnodup : ∀ {l : List Backend}, AddrSorted l →
      (l.map fun b => (b.addr, b.weight)).Nodup := by
    intro l hl
    refine (hsorted hl).imp fun hlt heq => ?_
    rw [heq] at hlt
    exact UInt32.lt_irrefl _ hlt
  refine List.Perm.eq_of_pairwise ?_ (hsorted hxs) (hsorted hys)
    ((List.perm_ext_iff_of_nodup (hnodup hxs) (hnodup hys)).mpr h)
  intro p q _ _ hpq hqp
  exact absurd hqp (UInt32.lt_asymm hpq)

/-- Real ids of two load balancers that stand for one address. -/
def SameAddr (d₁ d₂ : CtlMaps) (id₁ id₂ : Nat) : Prop :=
  (id₁ = pbRealNone ∧ id₂ = pbRealNone) ∨
    (id₁ ≠ pbRealNone ∧ id₂ ≠ pbRealNone ∧ d₁.reals id₁ ≠ 0 ∧ d₁.reals id₁ = d₂.reals id₂)

theorem sameAddr_keepsNone (d₁ d₂ : CtlMaps) : KeepsNone (SameAddr d₁ d₂) where
  none := .inl ⟨rfl, rfl⟩
  iff x y h := by
    rcases h with ⟨hx, hy⟩ | ⟨hx, hy, -⟩
    · simp [hx, hy]
    · simp [hx, hy]

theorem RingOk.agree {d₁ d₂ : CtlMaps} {r₁ r₂ : InstalledRing} (h₁ : RingOk d₁ r₁)
    (h₂ : RingOk d₂ r₂) (hmode : r₁.mode = r₂.mode) (hpairs : r₁.pairs = r₂.pairs) :
    List.Forall₂ (SameAddr d₁ d₂) r₁.slots r₂.slots := by
  have hbuilt := h₂.built
  rw [← hmode] at hbuilt
  refine buildRing_lockstep (sameAddr_keepsNone d₁ d₂) h₁.sorted h₂.sorted ?_ h₁.built hbuilt
  have hmap := AddrSorted.map_pairs_eq h₁.sorted h₂.sorted fun p => by
    simpa [InstalledRing.pairs] using Finset.ext_iff.mp hpairs p
  have hsame : List.Forall₂ (fun b b' : Backend => (b.addr, b.weight) = (b'.addr, b'.weight))
      r₁.backends r₂.backends := by
    rw [← List.forall₂_eq_eq_eq, List.forall₂_map_left_iff, List.forall₂_map_right_iff] at hmap
    exact hmap
  have hactive := List.rel_filter (p := fun b : Backend => 0 < b.weight)
    (q := fun b : Backend => 0 < b.weight) (fun b b' hb => by simp [(Prod.mk.inj hb).2]) hsame
  obtain ⟨hlen, hzip⟩ := List.forall₂_iff_zip.mp hactive
  refine List.forall₂_iff_zip.mpr ⟨hlen, fun {b b'} hmem => ?_⟩
  obtain ⟨haddr, hweight⟩ := Prod.mk.inj (hzip hmem)
  obtain ⟨hb, hb'⟩ := List.of_mem_zip hmem
  simp only [List.mem_filter, decide_eq_true_eq] at hb hb'
  obtain ⟨hne, hreal, -⟩ := h₁.live b hb.1 hb.2
  obtain ⟨-, hreal', -⟩ := h₂.live b' hb'.1 hb'.2
  exact ⟨haddr, hweight, .inr ⟨h₁.ids b hb.1, h₂.ids b' hb'.1, hreal ▸ hne,
    by rw [hreal, hreal', haddr]⟩⟩

theorem RingOk.agree_lookup {d₁ d₂ : CtlMaps} {r₁ r₂ : InstalledRing} (h₁ : RingOk d₁ r₁)
    (h₂ : RingOk d₂ r₂) {id₁ id₂ : Nat} (hr₁ : d₁.rings id₁ = some r₁)
    (hr₂ : d₂.rings id₂ = some r₂) (hmode : r₁.mode = r₂.mode) (hpairs : r₁.pairs = r₂.pairs)
    (hash : UInt32) : SameAddr d₁ d₂ (ringLookup d₁ id₁ hash) (ringLookup d₂ id₂ hash) := by
  obtain ⟨hlen, hsame⟩ := List.forall₂_iff_get.mp (h₁.agree h₂ hmode hpairs)
  obtain ⟨hlt₁, hget₁⟩ := List.getElem?_eq_some_iff.mp (h₁.lookup hr₁ hash)
  obtain ⟨hlt₂, hget₂⟩ := List.getElem?_eq_some_iff.mp (h₂.lookup hr₂ hash)
  have := hsame _ hlt₁ hlt₂
  rwa [List.get_eq_getElem, List.get_eq_getElem, hget₁, hget₂] at this

/-! ## Maps that look the same -/

/-- The maps agree on all that decides which real a packet gets. -/
structure SameView (d d' : CtlMaps) : Prop where
  vipMap : d'.vipMap = d.vipMap
  rings : ∀ id, (d'.rings id).map InstalledRing.slots = (d.rings id).map InstalledRing.slots
  reals : d'.reals = d.reals
  neigh : d'.neigh = d.neigh
  flags : d'.config.flags = d.config.flags

theorem SameView.refl (d : CtlMaps) : SameView d d := ⟨rfl, fun _ => rfl, rfl, rfl, rfl⟩

namespace SameView

variable {d d' : CtlMaps}

theorem classify_eq (h : SameView d d') (p : Frame) : classify d' p = classify d p := by
  simp only [classify, classifyL4, handleIcmp, lookupVip, h.vipMap, h.flags]

theorem ringLookup_eq (h : SameView d d') (vipId : Nat) (hash : UInt32) :
    ringLookup d' vipId hash = ringLookup d vipId hash := by
  have hslots := h.rings vipId
  simp only [ringLookup]
  cases hr : d.rings vipId <;> cases hr' : d'.rings vipId <;> simp_all

theorem ctHit_eq (h : SameView d d') (x : PktEnv) (dp : DpMaps) (f : Flow) :
    ctHit d' x dp f = ctHit d x dp f := by
  simp only [ctHit, realAlive, h.reals]

theorem pickReal_eq (h : SameView d d') (x : PktEnv) (dp : DpMaps) (f : Flow) (vipId : Nat)
    (hash : UInt32) (useCt bareSyn mayInsert : Bool) :
    pickReal d' x dp f vipId hash useCt bareSyn mayInsert =
      pickReal d x dp f vipId hash useCt bareSyn mayInsert := by
  simp only [pickReal, h.ringLookup_eq, h.ctHit_eq]

theorem pick_eq (h : SameView d d') (x : PktEnv) (dp : DpMaps) (p : Frame) :
    (xdpPacketbalance d' x dp p).1.pick = (xdpPacketbalance d x dp p).1.pick := by
  rw [xdpPacketbalance, xdpPacketbalance, h.classify_eq]
  cases classify d p with
  | drop cnt => rfl
  | pass => rfl
  | forward q =>
      simp only [forward, Request.useCt, h.flags, h.pickReal_eq]
      split
      · rfl
      · rw [send_pick, send_pick]

end SameView

end PacketBalance
