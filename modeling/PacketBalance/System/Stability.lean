import PacketBalance.System.Histories
import PacketBalance.System.Hitless
import PacketBalance.LbState.Stability
/-!
# Addresses that keep their `real_id`

An address that is in use before and after an `apply` keeps its slot in between
exactly when it is carried: a real that moves from one VIP to a later one loses its
slot, and the connections that name it, on the way.
-/

namespace PacketBalance

open WriteLog Std LbState

namespace System

/-- An operation leaves an address its id and its MAC, and its `reals` entry stands all
the time. -/
structure Stable (d : CtlMaps) (o : Outcome MapWrite LbState LbError Unit) (a : UInt32)
    (id : Nat) : Prop where
  never_cleared : ∀ log, log <+: o.log → (replay d log).reals id = a
  id_eq : o.mem.reals.idOf a = some id
  mac_eq : d.neigh id ≠ Mac.zero →
    o.mem.reals.macOf a = some (d.neigh id) ∧ (replay d o.log).neigh id = d.neigh id

theorem init_usable (interface : String) : Usable { interface } CtlMaps.empty :=
  .running (settled_empty interface)

theorem exists_real {lb lb' : LbState} {d d' : CtlMaps} {cfg : Config} {env : Env}
    (happ : Applied env cfg lb d d' lb') (hu : Usable lb d) (hok : cfg.Ok) {a : UInt32}
    (ha : a ∈ cfg.addrs) : a ≠ 0 ∧ ∃ id, d'.reals id = a :=
  (happ.settled hu).consistent.table.realsOk.mem_addrs.mp ((happ.mem_addrs hu hok).mpr ha)

def sampleReal : UInt32 := 0x1500000a

/-! ## A real that moves to a later VIP -/

def movingVip (port : UInt16) (reals : List RealConfig) : VipConfig where
  spec := ⟨0x0101a8c0, port, 6⟩
  reals := reals

/-- The first VIP has the real. -/
def movedFrom : ValidConfig where
  interface := "eth0"
  encapSrc := ⟨0, 0, 16⟩
  vips := [movingVip 1 [{ addrBe := sampleReal }], movingVip 2 []]
  valid := by decide +kernel

/-- The second VIP has it. -/
def movedTo : ValidConfig where
  interface := "eth0"
  encapSrc := ⟨0, 0, 16⟩
  vips := [movingVip 1 [], movingVip 2 [{ addrBe := sampleReal }]]
  valid := by decide +kernel

/-- A real that moves from one VIP to the next is cleared in between, although both
configurations list it. -/
theorem moved_real_cleared :
    ∃ (s : System) (id : Nat) (log : List MapWrite), s.Reachable ∧ s.pending = none ∧
      s.ctl.reals id = sampleReal ∧ sampleReal ∈ movedTo.addrs ∧
      ((Op.apply movedTo).run answeringEnv s.ctl s.lb).res = .ok () ∧
      log <+: ((Op.apply movedTo).run answeringEnv s.ctl s.lb).log ∧
      (replay s.ctl log).reals id ≠ sampleReal := by
  have husable := init_usable "eth0"
  obtain ⟨s, hs, hidle, -, happ⟩ := Reachable.first_apply "eth0" movedFrom answeringEnv_healthy
  obtain ⟨hne, id, hid⟩ := exists_real happ husable movedFrom.ok
    (a := sampleReal) (by decide)
  have hsettled := happ.settled husable
  obtain ⟨hok, -⟩ := hs.reload hidle happ husable movedFrom.ok movedTo
    answeringEnv_healthy (by decide)
  have hnot : ¬s.lb.Carried movedTo.toConfig sampleReal := by
    rintro (hnone | ⟨done, vc, rest, hvips, ha, u, hu, hmem⟩)
    · have hused := hsettled.consistent.table.mem_used.mpr
        ((happ.mem_addrs husable movedFrom.ok).mpr (show sampleReal ∈ movedFrom.addrs by decide))
      obtain ⟨spec, v, hv, hmem⟩ := hsettled.mem_used.mp hused
      exact Finset.ne_empty_of_mem (mem_holders.mpr ⟨v, hv, hmem⟩) hnone
    · obtain ⟨v, hv, hconf⟩ := (happ.vips movedFrom.ok).2 (movingVip 2 []) (by decide)
      -- only the second VIP lists the real, and it did not have it
      match done, hvips with
      | [], hvips =>
          obtain ⟨rfl, -⟩ := List.cons.inj hvips
          exact absurd ha (by decide)
      | [_], hvips =>
          obtain ⟨-, hvips⟩ := List.cons.inj hvips
          obtain ⟨rfl, rfl⟩ := List.cons.inj hvips
          obtain rfl := List.mem_singleton.mp hu
          have hmem' : sampleReal ∈ s.lb.membersAt (movingVip 2 []).spec := hmem
          rw [membersAt_eq hv, hconf.mem_members (movedFrom.ok.vip_ok _ (by decide))] at hmem'
          exact absurd hmem' (by decide)
      | _ :: _ :: _, hvips =>
          have hlen := congrArg List.length hvips
          simp [movedTo] at hlen
  have hlive := hsettled.live happ.initialized (Effect.adopted (.apply movedFrom rfl happ) rfl)
  obtain ⟨log, hlog, hgone⟩ := exists_cleared answeringEnv_healthy.arrayOk movedTo.ok hlive hok
    (hsettled.not_lasting hnot) (by decide) hne
  exact ⟨s, id, log, hs, hidle, hid, by decide, hok, hlog, hgone id⟩

end System

namespace Balancer

variable {b : Balancer}

/-- The shadow has everything that the model answers for. -/
theorem live_of_shadow (h : Live b.sys.lb b.shadow) : Live b.sys.lb b.sys.ctl :=
  { h with consistent :=
      { h.consistent with
        table := h.consistent.table.congr rfl rfl
        entry_named := h.consistent.entry_named } }

theorem Reachable.poised (h : b.Reachable) (hidle : b.sys.pending = none) {op : Op}
    (hserves : b.Serves op) : Live b.sys.lb b.sys.ctl ∨
      (∃ interface, b.sys.lb = { interface }) ∧ PinnedOn ∅ b.sys.ctl := by
  rcases hserves with hinit | ⟨-, hcalled⟩
  · exact .inl (live_of_shadow (h.inv.serving hidle hinit).toLive)
  · have hrings := h.inv.rings
    exact .inr ⟨(h.inv.new hidle hcalled).1, hrings.vip_lt, hrings.vip_inj,
      fun _ _ _ hin => hin.elim, hrings.reals.congr rfl⟩

/-- After any history, exceptions and restarts included, an `apply` that returns leaves a
configured address alone exactly when the address is carried or has a reference too many. -/
theorem stable_iff_lasting (h : b.Reachable) (hidle : b.sys.pending = none) (cfg : ValidConfig)
    (hserves : b.Serves (.apply cfg)) {env : Env} (henv : ArrayOk env)
    (hok : ((Op.apply cfg).run env b.sys.ctl b.sys.lb).res = .ok ()) {a : UInt32} {id : Nat}
    (hne : a ≠ 0) (hid : b.sys.ctl.reals id = a) (ha : a ∈ cfg.addrs) :
    System.Stable b.sys.ctl ((Op.apply cfg).run env b.sys.ctl b.sys.lb) a id ↔
      b.sys.lb.Lasting cfg.toConfig a := by
  have hpoised := h.poised hidle hserves
  have hstart : Startable b.sys.lb b.sys.ctl := by
    rcases hpoised with hl | ⟨⟨interface, hlb⟩, hpinned⟩
    · exact .running hl.consistent
    · exact .restarted interface hlb hpinned
  have hspec : wp ((Op.apply cfg).run env) _ _ _ b.sys.ctl b.sys.lb :=
    apply_spec henv cfg.ok hstart
  constructor
  · intro hstable
    by_contra hnot
    rcases hpoised with hl | ⟨⟨interface, hlb⟩, -⟩
    · obtain ⟨log, hlog, hgone⟩ := exists_cleared henv cfg.ok hl hok hnot ha hne
      exact hgone id (hstable.never_cleared log hlog)
    · exact hnot (.inl (.inl (by simp [hlb, holders])))
  · intro hc
    have happ := hspec.of_ok hok
    have hsound := happ.consistent.table
    obtain ⟨e, he, heid, hmac⟩ := happ.known cfg.ok hc ha hne hid
    refine ⟨fun log hlog => ?_, ?_, fun hknown => ⟨?_, ?_⟩⟩
    · have hkeeps := Guarded.keeps (C := fun d : CtlMaps => d.reals id = a)
        (hspec.1.mono fun d₁ w hw => hw.keeps_real cfg.ok hc ha hne) hid
      exact hkeeps.at_cut (C := fun d : CtlMaps => d.reals id = a) hid hlog
    · rw [RealTable.idOf_eq, he, ← heid, Option.map_some]
    · rw [RealTable.macOf_eq, he, Option.bind_some, hmac hknown]
    · have hneigh := hsound.mirror.neigh_entry hsound.wf he
      rw [heid, hmac hknown] at hneigh
      exact hneigh

/-- A `del_real` has thrown before; the address that is left and listed keeps its id. -/
theorem stable_iff_lasting_sample : ∃ (b : Balancer) (id : Nat), b.Reachable ∧
    b.sys.pending = none ∧ b.sys.ctl.reals id = System.sampleReal ∧ b.sys.lb.Leaks 0x1600000a ∧
      System.Stable b.sys.ctl
        ((Op.apply System.sampleConfig).run System.quietEnv b.sys.ctl b.sys.lb)
        System.sampleReal id := by
  have henv := System.answeringEnv_healthy
  have hpinned := CtlMaps.empty_pinned.on ∅
  have hidleOk := Serving.idleConfig_ok henv "eth0"
  obtain ⟨xs, s, v, m, e, e', slots, hrun, hs⟩ := (Serving.idle_started henv "eth0").leaked
    ((Serving.started_applied hpinned henv.arrayOk hidleOk).inForce Serving.idleConfig.ok)
  obtain ⟨b, hb⟩ := exists_stands henv.arrayOk hidleOk hrun
  have hlive := hs.reachable.live
  have ht := hlive.consistent.table
  have hid : b.sys.ctl.reals e.id = System.sampleReal := by
    rw [hb.ctl]
    exact ht.mirror.reals_entry ht.wf hs.entry
  have hok : ((Op.apply System.sampleConfig).run System.quietEnv b.sys.ctl b.sys.lb).res =
      .ok () := by
    rw [hb.ctl, hb.lb]
    exact hs.applied.1
  refine ⟨b, e.id, hb.reachable, hb.idle, hid, ?_, (stable_iff_lasting hb.reachable hb.idle _
    (.inl (hb.lb ▸ hlive.initialized)) System.quietEnv_healthy.arrayOk hok (by decide) hid
    (by decide)).mpr ?_⟩
  · rw [hb.lb]
    refine ⟨hlive.initialized, ?_⟩
    have hnone : holders s.lb.vips 0x1600000a = ∅ := by
      refine Finset.eq_empty_of_forall_notMem fun x hx => ?_
      obtain ⟨u, hu, ha⟩ := mem_holders.mp hx
      exact absurd (hs.members _ (hs.only x u hu ▸ ha)) (by decide)
    rw [hnone, RealTable.refsOf, hs.other]
    exact ht.wf.referred_iff.mp hlive.referred _ _ hs.other
  · obtain ⟨u, hu, -⟩ := hs.inForce.vip _ (List.mem_singleton.mpr rfl)
    have hmem : System.sampleReal ∈ b.sys.lb.membersAt sampleFlow.vip := by
      rw [hb.lb, membersAt_eq hu, hs.only _ u hu]
      exact OrdMap.mem_iff.mpr ⟨m, hs.member⟩
    exact .inl (.inr ⟨[], _, [], rfl, by decide, _, List.mem_singleton.mpr rfl, hmem⟩)

end Balancer

end PacketBalance
