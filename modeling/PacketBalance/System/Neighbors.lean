import PacketBalance.LbState.Table
import PacketBalance.RealTable.Sources
import PacketBalance.System.Hitless
import PacketBalance.System.Stability
/-!
# MACs and the neighbours they were learned for

A real is reached through the configured next hop, or directly when there is none.  A MAC
is learned when a member is added and the neighbour table has an answer, or from the
resolver.  `apply` takes over a new next hop and leaves the MACs that it finds alone, so
the table is right as long as those were answers for the new neighbour too.
-/

namespace PacketBalance

open WriteLog Std LbState RealTable

/-! ## What an operation can learn -/

/-- The next hop that is in use while the operation runs. -/
def Op.nextHop (lb : LbState) : Op → Option UInt32
  | .apply cfg => cfg.nextHopBe
  | _ => lb.nextHop

/-- The operation is told that `m` is the MAC of the neighbour `ip`: by the resolver, or
by the neighbour table for a member that it adds. -/
def Op.Learns (env : Env) (lb : LbState) (op : Op) (ip : UInt32) (m : Mac) : Prop :=
  (∃ mac : NeighMac, op = .neighborResolved ip mac ∧ m = mac.mac) ∨
  ∃ spec a, ∃ mac : NeighMac, op.Adds spec a ∧ ip = (op.nextHop lb).getD a ∧
    env.macLookup spec a ip = some mac ∧ m = mac.mac

section Operations

variable {L : UInt32 → Mac → Prop} {env : Env} {d : CtlMaps} {lb : LbState}

/-- An `apply` of a daemon that is running: until the settings are made, it only reads
the arrays. -/
theorem apply_known {cfg : Config} (henv : ArrayOk env) (hok : cfg.Ok)
    (hk : Known L lb.nextHop d lb.reals) (hmaps : SourcedMaps L cfg.nextHopBe d)
    (hask : ∀ spec a mac, Lists cfg spec a →
      env.macLookup spec a (cfg.nextHopBe.getD a) = some mac →
      L (cfg.nextHopBe.getD a) mac.mac) :
    wp (LbState.apply env cfg) (fun _ _ => True)
      (fun _ d' lb' => Known L lb'.nextHop d' lb'.reals)
      (fun _ d' lb' => Known L lb'.nextHop d' lb'.reals) d lb := by
  have hnew : ∀ d' lb', KeepingAt cfg.nextHopBe (fun _ => Sourced L cfg.nextHopBe) d' lb' →
      Known L lb'.nextHop d' lb'.reals := fun d' lb' h => h.1 ▸ h.2
  have hopening : Preserves (fun d lb' => KeepingAt lb.nextHop (fun _ => Sourced L lb.nextHop)
      d lb' ∧ SourcedMaps L cfg.nextHopBe d)
      (Prog.when (!lb.initialized) adoptLocked >>= fun _ => writeConfigMap env cfg) := by
    refine (Preserves.when (Preserves.bind ?_ fun _ => ?_)).bind fun _ => ?_
    · rintro d lb ⟨⟨hhop, hk⟩, hmaps⟩
      rw [LbState.onReals, wp_zoom]
      refine wp_mono (Known.adopt hk (Known.maps hk)) (fun _ _ _ => trivial) ?_
        (fun _ _ _ h => h.elim)
      rintro _ d' t ⟨rfl, hk'⟩
      exact ⟨⟨hhop, hk'⟩, hmaps⟩
    · exact Preserves.of_durable.bind fun _ => .of_modify fun _ _ h => h
    · exact Closed.preserves_writeConfigMap (fun h hw => ⟨h.1.write Sourced.slotClosed hw,
        h.2.congr (write_arrays hw _).1 (write_arrays hw _).2⟩) cfg
  refine wp_imp (KeepingAt.wp_apply Sourced.slotClosed henv hok
    (fun spec a mac hK hans => ⟨mac.ne_zero, hask spec a mac hK hans⟩) hnew ?_)
    fun _ d' lb' h => hnew d' lb' h
  exact wp_mono (hopening d lb ⟨⟨rfl, hk⟩, hmaps⟩) (fun _ _ hw => hw)
    (fun _ _ _ h => Known.rehop h.1.2 h.2) fun _ _ _ h => h.1.1 ▸ h.1.2

theorem apply_known_new {cfg : Config} (henv : ArrayOk env) (hok : cfg.Ok)
    (hranged : Ranged d) (hmaps : SourcedMaps L cfg.nextHopBe d)
    (hask : ∀ spec a mac, Lists cfg spec a →
      env.macLookup spec a (cfg.nextHopBe.getD a) = some mac →
      L (cfg.nextHopBe.getD a) mac.mac) (interface : String) :
    wp (LbState.apply env cfg) (fun _ _ => True)
      (fun _ d' lb' => Known L lb'.nextHop d' lb'.reals) (fun _ _ _ => True) d { interface } :=
  wp_imp (KeepingAt.wp_apply Sourced.slotClosed henv hok
    (fun spec a mac hK hans => ⟨mac.ne_zero, hask spec a mac hK hans⟩) (fun _ _ _ => trivial)
    (KeepingAt.wp_opening Sourced.slotClosed cfg nofun fun _ => adopt_new hranged hmaps))
    fun _ _ _ h => h.1 ▸ h.2

theorem run_known {op : Op} (hop : op.isApply = false) (henv : ArrayOk env)
    (hk : Known L lb.nextHop d lb.reals) (hL : ∀ ip m, op.Learns env lb ip m → L ip m) :
    wp (op.run env) (fun _ _ => True) (fun _ d' lb' => Known L lb'.nextHop d' lb'.reals)
      (fun _ d' lb' => Known L lb'.nextHop d' lb'.reals) d lb := by
  have hnextHop : op.nextHop lb = lb.nextHop := by cases op <;> first | rfl | cases hop
  have hrun : Preserves (KeepingAt lb.nextHop fun _ => Sourced L lb.nextHop) (op.run env) := by
    refine KeepingAt.preserves_run Sourced.slotClosed henv hop ?_ ?_
    · intro spec a mac hK hans
      exact ⟨mac.ne_zero, hL _ _ (.inr ⟨spec, a, mac, hK, by rw [hnextHop], hans, rfl⟩)⟩
    · rintro ip mac rfl a rfl
      exact ⟨mac.ne_zero, hL _ _ (.inl ⟨mac, rfl, rfl⟩)⟩
  exact wp_mono (hrun d lb ⟨rfl, hk⟩) (fun _ _ hw => hw) (fun _ _ _ h => h.1 ▸ h.2)
    fun _ _ _ h => h.1 ▸ h.2

end Operations

/-! ## Runs -/

/-- One daemon, and the answers that there have been for each neighbour. -/
structure Neighbors where
  ctl : CtlMaps
  lb : LbState
  started : Bool
  learned : UInt32 → Mac → Prop

namespace Neighbors

def start (ctl : CtlMaps) (interface : String) (learned : UInt32 → Mac → Prop) : Neighbors where
  ctl := ctl
  lb := { interface }
  started := false
  learned := learned

def learning (s : Neighbors) (env : Env) (op : Op) (ip : UInt32) (m : Mac) : Prop :=
  s.learned ip m ∨ op.Learns env s.lb ip m

def after (s : Neighbors) (env : Env) (op : Op) : Neighbors where
  ctl := replay s.ctl (op.run env s.ctl s.lb).log
  lb := (op.run env s.ctl s.lb).mem
  started := true
  learned := s.learning env op

/-- The daemon starts with `apply`, and ends if that throws. -/
structure Step (x : Env × Op) (s s' : Neighbors) : Prop where
  arrays : ArrayOk x.1
  ready : x.2.isApply = false → s.started = true
  first : s.started = false → (x.2.run x.1 s.ctl s.lb).res = .ok ()
  next : s' = s.after x.1 x.2

/-- An `apply` keeps the next hop, or finds no MAC in the arrays that was not an answer for
the neighbour it will use. -/
def Rightful (x : Env × Op) (s : Neighbors) : Prop :=
  ∀ cfg, x.2 = .apply cfg → (s.started = true ∧ cfg.nextHopBe = s.lb.nextHop) ∨
    SourcedMaps (s.learning x.1 x.2) cfg.nextHopBe s.ctl

structure Inv (s : Neighbors) : Prop where
  new : s.started = false → Ranged s.ctl ∧ ∃ interface, s.lb = { interface }
  known : s.started = true → Known s.learned s.lb.nextHop s.ctl s.lb.reals

variable {s s' : Neighbors}

theorem Inv.after (h : Inv s) {env : Env} {op : Op} (hstep : Step (env, op) s s')
    (hright : Rightful (env, op) s) : Inv s' := by
  obtain ⟨henv, hready, hfirst, rfl⟩ := hstep
  refine ⟨nofun, fun _ => ?_⟩
  have hgrow : ∀ ip m, s.learned ip m → s.learning env op ip m := fun _ _ => .inl
  have hlearn : ∀ ip m, op.Learns env s.lb ip m → s.learning env op ip m := fun _ _ => .inr
  cases hop : op.isApply with
  | false =>
      have hk := Known.mono (h.known (hready hop)) hgrow
      exact (run_known hop henv hk hlearn).at_end
  | true =>
      obtain ⟨cfg, rfl⟩ : ∃ cfg, op = .apply cfg := by
        cases op with
        | apply cfg => exact ⟨cfg, rfl⟩
        | _ => cases hop
      have hask : ∀ spec a mac, Lists cfg.toConfig spec a →
          env.macLookup spec a (cfg.nextHopBe.getD a) = some mac →
          s.learning env (.apply cfg) (cfg.nextHopBe.getD a) mac.mac := fun spec a mac hK hans =>
        hlearn _ _ (.inr ⟨spec, a, mac, hK, rfl, hans, rfl⟩)
      cases hstarted : s.started with
      | true =>
          have hk := Known.mono (h.known hstarted) hgrow
          have hmaps : SourcedMaps (s.learning env (.apply cfg)) cfg.nextHopBe s.ctl := by
            rcases hright cfg rfl with ⟨-, hsame⟩ | hmaps
            · exact hsame ▸ Known.maps hk
            · exact hmaps
          exact (apply_known henv cfg.ok hk hmaps hask).at_end
      | false =>
          obtain ⟨hranged, interface, hlb⟩ := h.new hstarted
          rcases hright cfg rfl with ⟨hyes, -⟩ | hmaps
          · cases hstarted.symm.trans hyes
          · have hspec := apply_known_new henv cfg.ok hranged hmaps hask interface
            rw [← hlb] at hspec
            exact hspec.of_ok (hfirst hstarted)

/-- In every run whose `apply` calls find no MAC of another neighbour, every MAC in the
table, and in the array, was an answer for the neighbour that is used for its address. -/
theorem macs_of_neighbors {ctl : CtlMaps} {interface : String} {learned : UInt32 → Mac → Prop}
    {xs : List (Env × Op)} (hranged : Ranged ctl)
    (hrun : Path (fun x s s' => Step x s s' ∧ Rightful x s) xs (start ctl interface learned) s)
    (hstarted : s.started = true) :
    (∀ a m, s.lb.reals.macOf a = some m → s.learned (s.lb.nextHop.getD a) m) ∧
    SourcedMaps s.learned s.lb.nextHop s.ctl := by
  have hinit : Inv (start ctl interface learned) :=
    ⟨fun _ => ⟨hranged, interface, rfl⟩, nofun⟩
  have hinv : Inv s := hrun.invariant (I := fun _ => Inv) hinit
    fun _ _ _ _ _ _ hI hstep => hI.after hstep.1 hstep.2
  have hk := hinv.known hstarted
  exact ⟨fun a m hm => Known.macOf hk hm, Known.maps hk⟩

/-! ## A changed next hop -/

def hopConfig (hop : UInt32) (hok : validateConfig { System.sampleConfig.toConfig with
    nextHopBe := some hop } = .ok ()) : ValidConfig where
  toConfig := { System.sampleConfig.toConfig with nextHopBe := some hop }
  valid := hok

def sampleVip : VipConfig :=
  { spec := sampleFlow.vip, reals := [{ addrBe := System.sampleReal }] }

def firstHop : ValidConfig := hopConfig 0x0100000a (by decide +kernel)

def secondHop : ValidConfig := hopConfig 0x0200000a (by decide +kernel)

theorem first_apply_ok (cfg : ValidConfig) {env : Env} (henv : Healthy env) :
    ((Op.apply cfg).run env CtlMaps.empty { interface := "eth0" }).res = .ok () :=
  (System.init_fits "eth0" cfg).apply_ok henv (System.init_usable "eth0") rfl cfg.ok

theorem first_step (cfg : ValidConfig) {env : Env} (henv : Healthy env)
    (learned : UInt32 → Mac → Prop) :
    let s := start .empty "eth0" learned
    Step (env, .apply cfg) s (s.after env (.apply cfg)) ∧ Rightful (env, .apply cfg) s :=
  ⟨⟨henv.arrayOk, nofun, fun _ => first_apply_ok cfg henv, rfl⟩,
    fun _ _ => .inr fun _ hne => absurd rfl hne⟩

theorem macs_of_neighbors_sample :
    ∃ s, Path (fun x s s' => Step x s s' ∧ Rightful x s)
        [(System.answeringEnv, .apply firstHop)] (start .empty "eth0" fun _ _ => False) s ∧
      SourcedMaps s.learned s.lb.nextHop s.ctl := by
  have hrun : Path (fun x s s' => Step x s s' ∧ Rightful x s)
      [(System.answeringEnv, .apply firstHop)] (start .empty "eth0" fun _ _ => False) _ :=
    ⟨_, first_step firstHop System.answeringEnv_healthy _, rfl⟩
  exact ⟨_, hrun, (macs_of_neighbors (fun _ hne => absurd rfl hne) hrun rfl).2⟩

theorem apply_nextHop {cfg : Config} (hok : cfg.Ok) (env : Env) (d : CtlMaps) (lb : LbState) :
    wp (LbState.apply env cfg) (fun _ _ => True) (fun _ _ lb' => lb'.nextHop = cfg.nextHopBe)
      (fun _ _ _ => True) d lb := by
  have honReals : ∀ {α : Type} (m : TableM α),
      Preserves (fun _ lb => lb.nextHop = cfg.nextHopBe) (onReals m) :=
    Preserves.zoom (I := fun lb : LbState => lb.nextHop = cfg.nextHopBe) fun _ _ h => h
  have hI : Closed env (Lists cfg) (fun _ lb => lb.nextHop = cfg.nextHopBe) :=
    { edit := fun h _ _ => h
      tick := fun h => h
      join := fun _ h _ _ _ => h
      leave := fun h _ _ => h
      enter := fun _ _ _ h => h
      remove := fun h _ => h
      ids := fun _ h => h
      other := fun h _ => h
      acquire := fun a => honReals _
      release := fun a => honReals _
      ask := fun _ => Preserves.of_get.bind fun lb => .ite (fun _ => .of_pure _) fun _ => by
        split
        · exact .of_pure _
        · exact (honReals _).bind fun _ => .of_pure _ }
  exact hI.wp_apply hok (honReals _) (fun _ _ h => h) (fun _ _ _ => trivial)
    (wp_mono (wp_true _) (fun _ _ hw => hw) (fun _ _ _ _ => rfl) fun _ _ _ h => h)

theorem after_applied {env : Env} {cfg : ValidConfig} (henv : ArrayOk env)
    (hu : Usable s.lb s.ctl) (hok : ((Op.apply cfg).run env s.ctl s.lb).res = .ok ()) :
    Applied env cfg.toConfig s.lb s.ctl (s.after env (.apply cfg)).ctl
      (s.after env (.apply cfg)).lb :=
  (apply_spec henv cfg.ok hu.startable).of_ok hok

theorem applied_macOf {lb lb' : LbState} {d d' : CtlMaps} {env : Env} {cfg : ValidConfig}
    (vc : VipConfig) (hs : Settled lb d) (hvips : cfg.vips = [vc])
    (happ : Applied env cfg.toConfig lb d d' lb') {a : UInt32} (ha : a ∈ vc.addrs)
    (hmem : a ∈ lb.membersAt vc.spec) {m : Mac} (hm : lb.reals.macOf a = some m) :
    lb'.reals.macOf a = some m := by
  obtain ⟨hwf, hmirror⟩ := hs.consistent.table
  have hcarried : lb.Carried cfg.toConfig a :=
    .inr ⟨[], vc, [], by simpa using hvips, ha, vc, List.mem_singleton.mpr rfl, hmem⟩
  have haddr : a ∈ cfg.addrs := Config.mem_addrs.mpr ⟨vc, by simp [hvips], ha⟩
  rw [RealTable.macOf_eq] at hm
  obtain ⟨e, he, hmac⟩ := Option.bind_eq_some_iff.mp hm
  obtain ⟨e', he', -, hmac'⟩ := happ.known cfg.ok (.inl hcarried) haddr
    (hwf.entry_ne_zero he) (hmirror.reals_entry hwf he)
  have hneigh := hmirror.neigh_entry hwf he
  rw [hmac, Option.getD_some] at hneigh
  have hknown : d.neigh e.id ≠ Mac.zero := hneigh ▸ hwf.entry_mac_ne he hmac
  rw [RealTable.macOf_eq, he', Option.bind_some, hmac' hknown, hneigh]

theorem second_step (happ : Applied System.answeringEnv firstHop.toConfig
    { interface := "eth0" } CtlMaps.empty s.ctl s.lb) :
    let s' := s.after System.quietEnv (.apply secondHop)
    Step (System.quietEnv, .apply secondHop) s s' ∧ s'.lb.nextHop = some 0x0200000a ∧
      ∃ m, s'.lb.reals.macOf System.sampleReal = some m := by
  have hu := System.init_usable "eth0"
  have hsettled := happ.settled hu
  have hok : ((Op.apply secondHop).run System.quietEnv s.ctl s.lb).res = .ok () := by
    refine (hsettled.fits happ.initialized secondHop.toConfig ?_).apply_ok
      System.quietEnv_healthy (.running hsettled) ?_ secondHop.ok
    · rw [happ.addrs_eq hu firstHop.ok]
      decide
    · exact Effect.adopted (.apply firstHop rfl happ) rfl
  have happ' := after_applied System.quietEnv_healthy.arrayOk (.running hsettled) hok
  refine ⟨⟨System.quietEnv_healthy.arrayOk, nofun, fun _ => hok, rfl⟩,
    (apply_nextHop secondHop.ok System.quietEnv s.ctl s.lb).of_ok hok, ?_⟩
  -- the real is a member, and its neighbour has answered
  have hserving := System.steady_of_single happ firstHop.ok rfl fun _ _ _ => rfl
  obtain ⟨v, hv, hconf⟩ := (happ.vips firstHop.ok).2 sampleVip (List.mem_singleton.mpr rfl)
  have hmem : System.sampleReal ∈ v.members :=
    (hconf.mem_members (firstHop.ok.vip_ok _ (List.mem_singleton.mpr rfl))).mpr (by decide)
  obtain ⟨m, hm⟩ := Option.isSome_iff_exists.mp (hserving.known _ v hv _ hmem)
  exact ⟨m, applied_macOf sampleVip hsettled rfl happ' (by decide) (by rwa [membersAt_eq hv]) hm⟩

/-- After the next hop has changed, the real is still sent to the MAC of the first router,
which was never an answer for the second. -/
theorem changed_hop_keeps_mac :
    ∃ s m, Path Step
        [(System.answeringEnv, .apply firstHop), (System.quietEnv, .apply secondHop)]
        (start .empty "eth0" fun _ _ => False) s ∧
      s.lb.nextHop = some 0x0200000a ∧ s.lb.reals.macOf System.sampleReal = some m ∧
      ¬s.learned 0x0200000a m := by
  have hok₁ := first_apply_ok firstHop System.answeringEnv_healthy
  have happ₁ := after_applied (s := start .empty "eth0" fun _ _ => False)
    System.answeringEnv_healthy.arrayOk (System.init_usable "eth0") hok₁
  have hstep₁ := (first_step firstHop System.answeringEnv_healthy fun _ _ => False).1
  obtain ⟨hstep₂, hnextHop, m, hm⟩ := second_step happ₁
  refine ⟨_, m, ⟨_, hstep₁, _, hstep₂, rfl⟩, hnextHop, hm, ?_⟩
  rintro ((hno | ⟨mac, hop, -⟩ | ⟨spec, a, mac, -, hip, -⟩) | ⟨mac, hop, -⟩ |
    ⟨spec, a, mac, -, -, hans, -⟩)
  · exact hno
  · cases hop
  · -- the first router was asked for, not the second
    rw [Op.nextHop, show firstHop.nextHopBe = some 0x0100000a from rfl, Option.getD_some] at hip
    exact absurd hip (by decide)
  · cases hop
  · cases hans

end Neighbors

end PacketBalance
