import PacketBalance.DataPlane.IcmpErrors
import Mathlib.Data.List.Forall2
/-!
# Flows do not interfere

Two runs that agree on the control plane and on the packets of one flow, and differ
in everything else, treat that flow alike.  All a packet can learn from earlier
packets is what the entry of its own flow says on its own CPU, and no packet of
another flow writes there.
-/

namespace PacketBalance

/-! ## Packets of a flow -/

/-- The frame is a packet of the flow, or an ICMP error about it. -/
def Concerns (p : Frame) (k : Flow) : Prop :=
  Carries p k ∨ Quotes p k ∧ (k.proto = ipprotoTcp ∨ k.proto = ipprotoUdp)

instance (p : Frame) (proto : UInt8) : Decidable (IsIpv4 p proto) :=
  decidable_of_iff (p.load16 12 = bpfHtons ethPIp ∧ p.byte 14 >>> 4 = 4 ∧
      p.byte 14 &&& 0xf = 5 ∧ p.load16 20 &&& bpfHtons (pbIpMf ||| pbIpOffset) = 0 ∧
      20 ≤ bpfNtohs (p.load16 16) ∧ ethLen + bpfNtohs (p.load16 16) ≤ p.length ∧
      p.byte 23 = proto)
    ⟨fun ⟨h1, h2, h3, h4, h5, h6, h7⟩ => ⟨h1, h2, h3, h4, h5, h6, h7⟩,
      fun ⟨h1, h2, h3, h4, h5, h6, h7⟩ => ⟨h1, h2, h3, h4, h5, h6, h7⟩⟩

instance (p : Frame) (k : Flow) : Decidable (Carries p k) :=
  decidable_of_iff (IsIpv4 p k.proto ∧ p.load32 26 = k.saddr ∧ p.load32 30 = k.daddr ∧
      p.load16 34 = k.sport ∧ p.load16 36 = k.dport ∧
      (k.proto = ipprotoTcp ∧ 54 ≤ p.length ∨ k.proto = ipprotoUdp ∧ 42 ≤ p.length))
    ⟨fun ⟨h1, h2, h3, h4, h5, h6⟩ => ⟨h1, h2, h3, h4, h5, h6⟩,
      fun ⟨h1, h2, h3, h4, h5, h6⟩ => ⟨h1, h2, h3, h4, h5, h6⟩⟩

instance (p : Frame) (k : Flow) : Decidable (Quotes p k) :=
  decidable_of_iff (IsIpv4 p ipprotoIcmp ∧ p.byte 34 = icmpDestUnreach ∧
      p.byte 35 = icmpFragNeeded ∧ 66 ≤ p.length ∧ p.byte 42 &&& 0xf = 5 ∧
      p.byte 51 = k.proto ∧ p.load32 54 = k.daddr ∧ p.load32 58 = k.saddr ∧
      p.load16 62 = k.dport ∧ p.load16 64 = k.sport)
    ⟨fun ⟨h1, h2, h3, h4, h5, h6, h7, h8, h9, h10⟩ => ⟨h1, h2, h3, h4, h5, h6, h7, h8, h9, h10⟩,
      fun ⟨h1, h2, h3, h4, h5, h6, h7, h8, h9, h10⟩ => ⟨h1, h2, h3, h4, h5, h6, h7, h8, h9, h10⟩⟩

instance (p : Frame) (k : Flow) : Decidable (Concerns p k) :=
  inferInstanceAs (Decidable (_ ∨ _))

theorem Concerns.flow_eq {p : Frame} {k : Flow} (h : Concerns p k) : p.flow = k :=
  h.elim Carries.flow_eq fun hq => hq.1.flow_eq

theorem concerns_of_forward {d : CtlMaps} {p : Frame} {q : Request}
    (h : classify d p = .forward q) : Concerns p q.flow := by
  rw [(classify_forward h).1]
  exact (classify_inv h).imp_right fun hq => ⟨hq.1, hq.2.1⟩

/-! ## What a packet can learn -/

def DpMaps.seen (dp : DpMaps) (k : Flow) (c : Nat) : Option Nat :=
  ((dp.conntrack.lookup c k).filter fun ct => ct.lastSeenNs != 0).map CtValue.realId

section

variable {d : CtlMaps} {x x' : PktEnv} {dp dp' : DpMaps} {k f : Flow} {p : Frame} {q : Request}

theorem DpMaps.seen_congr (h : dp'.conntrack = dp.conntrack) : dp'.seen k = dp.seen k := by
  funext c
  simp only [DpMaps.seen, h]

theorem DpMaps.seen_update {v : CtValue} (hseen : v.lastSeenNs ≠ 0)
    (h : dp'.conntrack = dp.conntrack.update .zero x.cpu f v) :
    dp'.seen k = if k = f then Function.update (dp.seen k) x.cpu (some v.realId)
      else dp.seen k := by
  funext c
  simp only [DpMaps.seen, h, PercpuMap.lookup_update]
  by_cases hk : k = f
  · subst hk
    by_cases hc : c = x.cpu
    · subst hc
      simp [Option.filter, hseen]
    · -- a copy that the key's creation has blanked names no real, as before
      cases hold : dp.conntrack.lookup c k with
      | none => simp [hc, hold, Option.filter, CtValue.zero, DpMaps.seen]
      | some ct => simp [hc, hold, DpMaps.seen]
  · simp [hk, DpMaps.seen]

theorem ctHit_seen :
    (ctHit d x dp f).map CtValue.realId = (dp.seen f x.cpu).filter (realAlive d) := by
  simp only [ctHit, DpMaps.seen]
  cases dp.conntrack.lookup x.cpu f with
  | none => rfl
  | some ct =>
      by_cases hseen : ct.lastSeenNs = 0
      · simp [Option.filter, hseen]
      · by_cases halive : realAlive d ct.realId = true <;> simp [Option.filter, hseen, halive]

theorem pickReal_congr (d : CtlMaps) (vipId : Nat) (hash : UInt32)
    (useCt bareSyn mayInsert : Bool) (hseen : dp.seen f = dp'.seen f)
    (hcpu : x.cpu = x'.cpu) (hins : x.insertOk = x'.insertOk) :
    (pickReal d x dp f vipId hash useCt bareSyn mayInsert).1.realId =
      (pickReal d x' dp' f vipId hash useCt bareSyn mayInsert).1.realId ∧
    (pickReal d x dp f vipId hash useCt bareSyn mayInsert).2.seen f =
      (pickReal d x' dp' f vipId hash useCt bareSyn mayInsert).2.seen f := by
  have hsame : ∀ {dp₁ dp₁' : DpMaps}, dp₁.conntrack = dp.conntrack →
      dp₁'.conntrack = dp'.conntrack → dp₁.seen f = dp₁'.seen f := by
    intro dp₁ dp₁' h h'
    rw [DpMaps.seen_congr h, DpMaps.seen_congr h', hseen]
  have hstore : ∀ {dp₁ dp₁' : DpMaps} {v v' : CtValue},
      dp₁.conntrack = dp.conntrack.update .zero x.cpu f v →
      dp₁'.conntrack = dp'.conntrack.update .zero x'.cpu f v' → v.lastSeenNs = x.now →
      v'.lastSeenNs = x'.now → v.realId = v'.realId → dp₁.seen f = dp₁'.seen f := by
    intro dp₁ dp₁' v v' h h' hnow hnow' hreal
    rw [DpMaps.seen_update (hnow ▸ x.now_ne_zero) h,
      DpMaps.seen_update (hnow' ▸ x'.now_ne_zero) h', if_pos rfl, if_pos rfl, hseen, hcpu, hreal]
  have hhit : (ctHit d x dp f).map CtValue.realId = (ctHit d x' dp' f).map CtValue.realId := by
    rw [ctHit_seen, ctHit_seen, hseen, hcpu]
  unfold pickReal
  cases useCt with
  | false => exact ⟨rfl, hsame (by simp) (by simp)⟩
  | true =>
      simp only [Bool.not_true, Bool.false_eq_true, if_false]
      have hfound : (if bareSyn then none else ctHit d x dp f).map CtValue.realId =
          (if bareSyn then none else ctHit d x' dp' f).map CtValue.realId := by
        cases bareSyn with
        | true => rfl
        | false => exact hhit
      cases hct : (if bareSyn then none else ctHit d x dp f) with
      | some ct =>
          cases hct' : (if bareSyn then none else ctHit d x' dp' f) with
          | none => simp [hct, hct'] at hfound
          | some ct' =>
              have hreal : ct.realId = ct'.realId := by simpa [hct, hct'] using hfound
              exact ⟨hreal, hstore (DpMaps.count_conntrack ..) (DpMaps.count_conntrack ..) rfl
                rfl hreal⟩
      | none =>
          cases hct' : (if bareSyn then none else ctHit d x' dp' f) with
          | some ct' => simp [hct, hct'] at hfound
          | none =>
              have hcounted : ∀ (x : PktEnv) (dp : DpMaps),
                  ((if bareSyn then dp else dp.count x vipId .ctMiss 1).count x vipId .hash
                    1).conntrack = dp.conntrack := by
                simp
              have hinserted : ∀ (x : PktEnv) (dp : DpMaps) (v : CtValue), _ :=
                fun x dp v => congrArg (PercpuMap.update · .zero x.cpu f v) (hcounted x dp)
              dsimp only
              split
              · exact ⟨rfl, hsame (hcounted x dp) (hcounted x' dp')⟩
              · rw [hins]
                split
                · exact ⟨rfl, hsame (hcounted x dp) (hcounted x' dp')⟩
                · exact ⟨rfl, hstore (hinserted x dp _) (hinserted x' dp' _) rfl rfl rfl⟩

theorem xdp_seen_other (hp : ¬ Concerns p k) :
    (xdpPacketbalance d x dp p).2.seen k = dp.seen k := by
  rcases xdp_step d x dp p with ⟨hdp, -⟩ | ⟨q, pick, -, hq, -, -, hpick⟩
  · exact DpMaps.seen_congr hdp
  · have hne : k ≠ q.flow := by
      rintro rfl
      exact hp (concerns_of_forward hq)
    cases hpick with
    | hit ct _ _ _ _ hdp => rw [DpMaps.seen_update x.now_ne_zero hdp, if_neg hne]
    | store _ _ _ hdp => rw [DpMaps.seen_update x.now_ne_zero hdp, if_neg hne]
    | hash _ _ hdp => exact DpMaps.seen_congr hdp

theorem send_action {pick pick' : Pick} (hreal : pick.realId = pick'.realId)
    (hhead : x.headOk = x'.headOk) :
    (send d x dp p q pick).1.action = (send d x' dp' p q pick').1.action := by
  by_cases hok : Sendable d pick.realId
  · have hencap : ∀ (addr : UInt32) (mac : Mac) (cfg : PbConfig) (hash : UInt32) (len : Nat)
        (tos : UInt8), encapIpip x p addr mac cfg hash len tos =
          encapIpip x' p addr mac cfg hash len tos := by
      intro addr mac cfg hash len tos
      simp only [encapIpip, hhead]
    rw [send_sendable hok, send_sendable (hreal ▸ hok), hencap, hreal]
    split <;> rfl
  · rw [send_not_sendable hok, send_not_sendable (hreal ▸ hok)]
    rfl

theorem forward_congr (hseen : dp.seen q.flow = dp'.seen q.flow) (hcpu : x.cpu = x'.cpu)
    (hins : x.insertOk = x'.insertOk) (hhead : x.headOk = x'.headOk) :
    (forward d x dp p q).1.action = (forward d x' dp' p q).1.action ∧
      (forward d x dp p q).2.seen q.flow = (forward d x' dp' p q).2.seen q.flow := by
  by_cases hlen : q.tooLong = true
  · refine ⟨by simp [forward, hlen, drop], ?_⟩
    rw [DpMaps.seen_congr (forward_tooLong hlen).2, DpMaps.seen_congr (forward_tooLong hlen).2,
      hseen]
  · simp only [forward, hlen, if_false, Bool.false_eq_true]
    have hcounted : ∀ (x : PktEnv) (dp : DpMaps), (if q.bareSyn then
        ((dp.count x q.vip.vipId .packets 1).count x q.vip.vipId .bytes q.innerLen).count x
          q.vip.vipId .syn 1
        else (dp.count x q.vip.vipId .packets 1).count x q.vip.vipId .bytes
          q.innerLen).conntrack = dp.conntrack := by
      intro x dp
      split <;> simp
    obtain ⟨hreal, hafter⟩ := pickReal_congr d q.vip.vipId q.flow.hash (q.useCt d) q.bareSyn
      q.mayInsert ((DpMaps.seen_congr (hcounted x dp)).trans
        (hseen.trans (DpMaps.seen_congr (hcounted x' dp')).symm)) hcpu hins
    refine ⟨send_action hreal hhead, ?_⟩
    rw [DpMaps.seen_congr (send_conntrack ..), DpMaps.seen_congr (send_conntrack ..), hafter]

end

/-! ## Two runs -/

/-- The planes agree on all that a packet of the flow can learn. -/
structure SameFor (k : Flow) (s s' : Plane) : Prop where
  ctl : s.ctl = s'.ctl
  seen : s.dp.seen k = s'.dp.seen k

def PlaneEvent.relevant (k : Flow) : PlaneEvent → Bool
  | .packet _ p => decide (Concerns p k)
  | .control _ => true
  | .evict _ => false

/-- One event in both runs; the time may differ. -/
inductive SameEvent : PlaneEvent → PlaneEvent → Prop
  | control (ctl : CtlMaps) : SameEvent (.control ctl) (.control ctl)
  | packet (x x' : PktEnv) (p : Frame) (hcpu : x.cpu = x'.cpu) (hhead : x.headOk = x'.headOk) :
      SameEvent (.packet x p) (.packet x' p)

def PlaneEvent.Lossless : PlaneEvent → Prop
  | .packet x _ => x.insertOk = true
  | .control _ => True
  | .evict _ => False

/-- Verdict and output frame of every packet of the flow, in order. -/
def outcomes (k : Flow) (s : Plane) : List PlaneEvent → List Action
  | [] => []
  | .packet x p :: es =>
      if Concerns p k then
        (xdpPacketbalance s.ctl x s.dp p).1.action :: outcomes k (s.step (.packet x p)) es
      else outcomes k (s.step (.packet x p)) es
  | e :: es => outcomes k (s.step e) es

section

variable {k : Flow} {s s' : Plane} {x x' : PktEnv} {p : Frame} {es es' : List PlaneEvent}

theorem SameFor.other (h : SameFor k s s') (hp : ¬ Concerns p k) (x : PktEnv) :
    SameFor k (s.step (.packet x p)) s' :=
  ⟨h.ctl, (xdp_seen_other hp).trans h.seen⟩

theorem SameFor.symm (h : SameFor k s s') : SameFor k s' s := ⟨h.ctl.symm, h.seen.symm⟩

theorem SameFor.packet (h : SameFor k s s') (hp : Concerns p k) (hcpu : x.cpu = x'.cpu)
    (hins : x.insertOk = x'.insertOk) (hhead : x.headOk = x'.headOk) :
    (xdpPacketbalance s.ctl x s.dp p).1.action = (xdpPacketbalance s'.ctl x' s'.dp p).1.action ∧
      SameFor k (s.step (.packet x p)) (s'.step (.packet x' p)) := by
  obtain ⟨ctl, dp⟩ := s
  obtain ⟨ctl', dp'⟩ := s'
  obtain ⟨hctl, hseen⟩ := h
  obtain rfl : ctl = ctl' := hctl
  simp only [Plane.step, xdpPacketbalance]
  cases hq : classify ctl p with
  | drop cnt =>
      exact ⟨rfl, rfl, (DpMaps.seen_congr (by simp)).trans
        (hseen.trans (DpMaps.seen_congr (by simp)).symm)⟩
  | pass =>
      exact ⟨rfl, rfl, (DpMaps.seen_congr (by simp)).trans
        (hseen.trans (DpMaps.seen_congr (by simp)).symm)⟩
  | forward q =>
      obtain rfl : q.flow = k := (classify_forward hq).1.trans hp.flow_eq
      obtain ⟨haction, hafter⟩ := forward_congr hseen hcpu hins hhead
      exact ⟨haction, rfl, hafter⟩

theorem outcomes_filter (h : SameFor k s s') (hloss : ∀ e ∈ es, e.Lossless) :
    outcomes k s es = outcomes k s' (es.filter (PlaneEvent.relevant k)) := by
  induction es generalizing s s' with
  | nil => rfl
  | cons e es ih =>
      have hrest : ∀ e ∈ es, e.Lossless := fun e he => hloss e (by simp [he])
      cases e with
      | control ctl =>
          rw [List.filter_cons_of_pos rfl]
          exact ih ⟨rfl, h.seen⟩ hrest
      | evict k' => exact absurd (hloss (.evict k') (by simp)) id
      | packet x p =>
          by_cases hp : Concerns p k
          · obtain ⟨haction, hnext⟩ := h.packet hp (x := x) rfl rfl rfl
            rw [List.filter_cons_of_pos (by simpa [PlaneEvent.relevant] using hp), outcomes,
              outcomes, if_pos hp, if_pos hp, haction, ih hnext hrest]
          · rw [List.filter_cons_of_neg (by simpa [PlaneEvent.relevant] using hp), outcomes,
              if_neg hp, ih (h.other hp x) hrest]

theorem outcomes_congr (hevents : List.Forall₂ SameEvent es es') (h : SameFor k s s')
    (hloss : ∀ e ∈ es, e.Lossless) (hloss' : ∀ e ∈ es', e.Lossless) :
    outcomes k s es = outcomes k s' es' := by
  induction hevents generalizing s s' with
  | nil => rfl
  | @cons e e' es es' hevent _ ih =>
      have hrest : ∀ e ∈ es, e.Lossless := fun e he => hloss e (by simp [he])
      have hrest' : ∀ e ∈ es', e.Lossless := fun e he => hloss' e (by simp [he])
      cases hevent with
      | control ctl => exact ih ⟨rfl, h.seen⟩ hrest hrest'
      | packet x x' p hcpu hhead =>
          have hins : x.insertOk = x'.insertOk :=
            (hloss (.packet x p) (by simp)).trans (hloss' (.packet x' p) (by simp)).symm
          by_cases hp : Concerns p k
          · obtain ⟨haction, hnext⟩ := h.packet hp hcpu hins hhead
            rw [outcomes, outcomes, if_pos hp, if_pos hp, haction, ih hnext hrest hrest']
          · have hnext := ((h.other hp x).symm.other hp x').symm
            rw [outcomes, outcomes, if_neg hp, if_neg hp, ih hnext hrest hrest']

end

/-- Two runs without losses that agree on the control plane and on the packets of a
flow, and differ arbitrarily in all other packets, give every packet of the flow the
same verdict and the same output frame. -/
theorem flows_do_not_interfere {k : Flow} {s s' : Plane} {es es' : List PlaneEvent}
    (hstart : SameFor k s s') (hloss : ∀ e ∈ es, e.Lossless) (hloss' : ∀ e ∈ es', e.Lossless)
    (hsame : List.Forall₂ SameEvent (es.filter (PlaneEvent.relevant k))
      (es'.filter (PlaneEvent.relevant k))) :
    outcomes k s es = outcomes k s' es' := by
  have hrefl : ∀ s : Plane, SameFor k s s := fun s => ⟨rfl, rfl⟩
  calc outcomes k s es
      = outcomes k s (es.filter (PlaneEvent.relevant k)) := outcomes_filter (hrefl s) hloss
    _ = outcomes k s' (es'.filter (PlaneEvent.relevant k)) :=
        outcomes_congr hsame hstart (fun e he => hloss e (List.mem_of_mem_filter he))
          fun e he => hloss' e (List.mem_of_mem_filter he)
    _ = outcomes k s' es' := (outcomes_filter (hrefl s') hloss').symm

/-- A UDP packet from 10.0.0.1:12346 to 198.51.100.1:80. -/
def otherFrame : Frame := sampleFrame.set 35 0x3a

/-- A packet of another client comes first in one run and not at all in the other. -/
theorem flows_do_not_interfere_sample :
    outcomes sampleFlow samplePlane
        [.packet sampleCpu otherFrame, .packet sampleCpu sampleFrame] =
      outcomes sampleFlow samplePlane [.packet sampleCpu sampleFrame] := by
  have hother : PlaneEvent.relevant sampleFlow (.packet sampleCpu otherFrame) = false := by
    decide
  have hown : PlaneEvent.relevant sampleFlow (.packet sampleCpu sampleFrame) = true := by
    decide
  refine flows_do_not_interfere ⟨rfl, rfl⟩ ?_ ?_ ?_
  · simp [PlaneEvent.Lossless, sampleCpu]
  · simp [PlaneEvent.Lossless, sampleCpu]
  · simp only [List.filter_cons, hother, hown, if_true, Bool.false_eq_true, if_false,
      List.filter_nil]
    exact .cons (.packet _ _ _ rfl rfl) .nil

end PacketBalance
