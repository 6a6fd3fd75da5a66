import PacketBalance.DataPlane.IcmpErrors
/-!
# Dropped packets and the connection table

`forward` checks the length before it touches the connection table, "so a packet that is
going to be dropped does not create a flow entry".  The checks that come after `pick_real`
can still drop a packet whose real has just been stored.
-/

namespace PacketBalance

/-- A packet that `pick_real` stores, under a real this CPU does not have for the flow yet,
before it turns out that it cannot be sent. -/
structure Wasted (d : CtlMaps) (x : PktEnv) (dp : DpMaps) (q : Request) : Prop where
  fits : q.tooLong = false
  stores : Stores d x dp q
  stuck : ¬Sendable d (ringLookup d q.vip.vipId q.flow.hash) ∨ x.headOk = false
  news : (dp.conntrack.lookup x.cpu q.flow).map CtValue.realId ≠
    some (ringLookup d q.vip.vipId q.flow.hash)

def Result.Dropped (r : Result) : Prop := ∃ cnt, r.action = .drop cnt

section

variable {d : CtlMaps} {x : PktEnv} {dp : DpMaps} {p : Frame} {q : Request}

theorem send_dropped_iff {pick : Pick} (hlen : ethLen ≤ p.length) :
    (send d x dp p q pick).1.Dropped ↔ ¬Sendable d pick.realId ∨ x.headOk = false := by
  by_cases hok : Sendable d pick.realId
  · rw [send_sendable hok]
    cases hhead : x.headOk with
    | false => simp [encapIpip, hhead, drop, Result.Dropped]
    | true =>
        obtain ⟨out, hout⟩ := encapIpip_isSome hhead hlen (d.reals pick.realId)
          (d.neigh pick.realId) d.config q.flow.hash q.innerLen q.tos
        simp [hout, hok, Result.Dropped]
  · rw [send_not_sendable hok]
    simp [hok, drop, Result.Dropped]

theorem forward_dropped_keeps_iff (hlen : ethLen ≤ p.length) :
    ((forward d x dp p q).1.Dropped →
        SameReals dp.conntrack (forward d x dp p q).2.conntrack) ↔ ¬Wasted d x dp q := by
  cases hlong : q.tooLong with
  | true =>
      -- the one drop that comes before `pick_real`
      rw [(forward_tooLong hlong).2]
      exact iff_of_true (fun _ => .refl _) fun h => Bool.false_ne_true (h.fits.symm.trans hlong)
  | false =>
      obtain ⟨dp₁, hct, hfwd⟩ := forward_eq_send d x dp p hlong
      rw [hfwd, send_dropped_iff hlen, send_conntrack]
      by_cases hstores : Stores d x dp q
      · obtain ⟨hreal, hupdate⟩ := pickReal_stores hstores hct
        rw [hreal, hupdate, sameReals_update_iff]
        exact ⟨fun h hw => hw.news (h hw.stuck), fun h hstuck =>
          not_not.mp fun hnews => h ⟨hlong, hstores, hstuck, hnews⟩⟩
      · exact iff_of_true (fun _ => pickReal_keeps hstores hct) fun h => hstores h.stores

/-- A dropped packet leaves the keys and the reals of the connection table alone exactly when
it is not stored before a later check drops it. -/
theorem dropped_keeps_conntrack_iff (d : CtlMaps) (x : PktEnv) (dp : DpMaps) (p : Frame) :
    ((xdpPacketbalance d x dp p).1.Dropped →
        SameReals dp.conntrack (xdpPacketbalance d x dp p).2.conntrack) ↔
      ∀ q, classify d p = .forward q → ¬Wasted d x dp q := by
  cases hq : classify d p with
  | drop cnt => simp [xdpPacketbalance, hq, SameReals.refl]
  | pass => simp [xdpPacketbalance, hq, SameReals.refl]
  | forward q =>
      obtain ⟨-, -, hlen⟩ := classify_request hq
      simp only [xdpPacketbalance, hq, Parse.forward.injEq, forall_eq']
      exact forward_dropped_keeps_iff (by unfold ethLen; omega)

end

def crampedCpu : PktEnv := { sampleCpu with headOk := false }

/-- The first packet of a flow finds no headroom: it is dropped, and the flow is in the
table. -/
theorem dropped_packet_is_stored :
    (xdpPacketbalance sampleMaps crampedCpu .empty sampleFrame).1.Dropped ∧
    ¬SameReals DpMaps.empty.conntrack
      (xdpPacketbalance sampleMaps crampedCpu .empty sampleFrame).2.conntrack := by
  have hq := classify_sampleFrame sampleMaps_vip
  have hring : ringLookup sampleMaps 0 sampleFlow.hash = 1 := ringLookup_sampleMaps _
  have hnone : DpMaps.empty.conntrack.lookup 0 sampleFlow = none := rfl
  have hmiss : ctHit sampleMaps crampedCpu .empty sampleFlow = none := by
    simp [ctHit, crampedCpu, sampleCpu, hnone]
  have hwasted : Wasted sampleMaps crampedCpu .empty
      ⟨sampleFlow, ⟨0, 0⟩, false, true, false, 28, 0⟩ := by
    refine ⟨rfl, ⟨rfl, .inr hmiss, ?_, rfl, rfl⟩, .inr rfl, ?_⟩
    · rw [hring]
      decide
    · simp [crampedCpu, sampleCpu, hnone]
  have hlen : ethLen ≤ sampleFrame.length := by decide
  simp only [xdpPacketbalance, hq]
  exact Classical.not_imp.mp fun hkeeps => (forward_dropped_keeps_iff hlen).mp hkeeps hwasted

end PacketBalance
