import PacketBalance.LbState.Coherence
import PacketBalance.System.Atomic
import PacketBalance.System.Neighbors
/-!
# The rings of a running daemon

While nothing throws, every ring is what `build_ring` makes of the VIP's members, as long
as no operation makes a MAC known that a VIP which it does not rebuild was waiting for.
`add_real` and `apply` can do so: they ask the neighbour table for the VIP at hand, and
rebuild that VIP only.
-/

namespace PacketBalance

open WriteLog Std LbState

/-- The operation makes no MAC known that a ring it does not rebuild was waiting for. -/
def Op.Aligned (env : Env) (lb : LbState) (d : CtlMaps) : Op → Prop
  | .apply cfg => LbState.Aligned env cfg.toConfig lb d
  | .addReal vip addr _ =>
      lb.reals.macOf addr = none → (answer env lb vip addr).isSome →
        ∀ (s : VipSpec) (m : Member), s ≠ vip → (lb.membersAt s)[addr]? = some m →
          m.ready = false
  | _ => True

theorem Effect.coherent {env : Env} {op : Op} {lb lb' : LbState} {d d' : CtlMaps}
    (h : Effect env op lb d d' lb') (hs : Startable lb d)
    (hc : op.isApply = false → Consistent [] lb d) (hal : op.Aligned env lb d)
    (hco : Coherent lb d) : Coherent lb' d' := by
  intro s
  cases h with
  | apply cfg hop h =>
      subst hop
      exact (h.coherent_iff hs cfg.ok hal).mpr (fun s _ => .inr (hco s)) s
  | delete spec v hop hv h => exact (h.kept (hc hop) hv).coherent (hco s)
  | refresh R hop h => exact h.coherent (hco s)
  | reshape spec flags want v' hop hnew htouched h =>
      by_cases hne : s = spec
      · subst hne
        exact h.coherent_touched htouched
      · refine (h.kept_else (hc hop) hne ?_).coherent (hco s)
        intro u hu a m hm hready ha hnot hnone
        -- only `add_real` adds a member
        obtain ⟨w, rfl⟩ := hnew a ha hnot
        by_contra hans
        have := hal hnone (Option.isSome_iff_ne_none.mpr hans) s m hne
          (by rw [membersAt_eq hu, hm])
        simp [hready] at this

namespace System

variable {s s' : System}

/-- The call, if the event is one, makes no MAC known behind a ring's back. -/
def Aligned (e : Event) (s : System) : Prop :=
  ∀ env op, e = .call env op → op.Aligned env s.lb s.ctl

/-- The rings are up to date, or will be when the operation under way has ended. -/
structure RingsInv (s : System) : Prop extends Inv s where
  coherent : s.pending = none → Coherent s.lb s.ctl
  coming : ∀ ws mem, s.pending = some (ws, mem) → Coherent mem (replay s.ctl ws)

theorem RingsInv.step {e : Event} (h : RingsInv s) (hstep : CalmStep e s s')
    (hal : Aligned e s) : RingsInv s' := by
  have hrings : Between (fun d lb => Coherent lb d) s := ⟨h.coherent, h.coming⟩
  have hrings' : Between (fun d lb => Coherent lb d) s' := by
    refine hrings.step hstep (fun env op he hidle henv hready hok hco => ?_)
      fun _ _ _ v hv => by simp at hv
    have hu := h.usable hidle
    have hc : op.isApply = false → Consistent [] s.lb s.ctl := fun hop =>
      (h.settled hidle (hready hop)).consistent
    exact ((Op.run_spec henv hu.startable hc).of_ok hok).coherent hu.startable hc
      (hal env op he) hco
  exact ⟨h.toInv.step hstep, hrings'.idle, hrings'.coming⟩

/-- In every run whose operations are aligned, every VIP's ring is up to date after each
of them. -/
theorem rings_up_to_date {interface : String} {es : List Event}
    (hrun : Path (fun e s s' => CalmStep e s s' ∧ Aligned e s) es (init interface) s)
    (hidle : s.pending = none) : Coherent s.lb s.ctl := by
  have hinit : RingsInv (init interface) := by
    refine ⟨init_inv interface, fun _ s v hv => ?_, nofun⟩
    simp [init] at hv
  exact (hrun.invariant (I := fun _ => RingsInv) hinit
    fun _ _ _ _ _ _ hI hstep => hI.step hstep.1 hstep.2).coherent hidle

theorem Aligned.of_ne {e : Event} (h : ∀ env op, e ≠ .call env op) : Aligned e s :=
  fun env op he => absurd he (h env op)

theorem exists_landing {ws : List MapWrite} {mem : LbState}
    (hpending : s.pending = some (ws, mem)) :
    ∃ es s', Path (fun e s s' => CalmStep e s s' ∧ Aligned e s) es s s' ∧ s'.pending = none ∧
      s'.ctl = replay s.ctl ws ∧ s'.lb = mem := by
  induction ws generalizing s with
  | nil =>
      have hstep : CalmStep .finish s _ := ⟨.finish s mem hpending, .of_ne (by simp)⟩
      exact ⟨[.finish], _, ⟨_, ⟨hstep, .of_ne (by simp)⟩, rfl⟩, rfl, rfl, rfl⟩
  | cons w ws ih =>
      have hstep : CalmStep .write s _ := ⟨.write s w ws mem hpending, .of_ne (by simp)⟩
      obtain ⟨es, s', hpath, hend⟩ := ih (s := { s with
        ctl := Durable.write s.ctl w
        dp := s.dp.reset w
        pending := some (ws, mem) }) rfl
      exact ⟨.write :: es, s', ⟨_, ⟨hstep, .of_ne (by simp)⟩, hpath⟩, hend⟩

theorem exists_aligned_apply (hidle : s.pending = none) (hu : Usable s.lb s.ctl) {env : Env}
    (henv : ArrayOk env) {cfg : ValidConfig}
    (hok : ((Op.apply cfg).run env s.ctl s.lb).res = .ok ())
    (hal : (Op.apply cfg).Aligned env s.lb s.ctl) :
    ∃ es s', Path (fun e s s' => CalmStep e s s' ∧ Aligned e s) es s s' ∧ s'.pending = none ∧
      Applied env cfg.toConfig s.lb s.ctl s'.ctl s'.lb := by
  obtain ⟨es, s', hpath, hidle', hctl, hlb⟩ := exists_landing (s := { s with
    pending := some (((Op.apply cfg).run env s.ctl s.lb).log,
      ((Op.apply cfg).run env s.ctl s.lb).mem) }) rfl
  refine ⟨.call env (.apply cfg) :: es, s', ⟨_, ⟨⟨.call env _ s hidle henv nofun, ?_⟩, ?_⟩,
    hpath⟩, hidle', ?_⟩
  · rintro _ _ ⟨⟩
    exact hok
  · rintro _ _ ⟨⟩
    exact hal
  · rw [hctl, hlb]
    exact (apply_spec henv cfg.ok hu.startable).of_ok hok

/-- A first `apply` to which every neighbour answers: whoever has a real by then has heard of it
for itself. -/
theorem aligned_answering {cfg : Config} (hcfg : cfg.Ok) (interface : String) (d : CtlMaps) :
    LbState.Aligned answeringEnv cfg { interface } d := by
  intro done vc rest a hsplit hears hfirst _
  refine ⟨fun u hu hready => hfirst u hu ?_, fun u _ m hm => ?_⟩
  · obtain ⟨w, hw, -⟩ := hready
    have hmem : u ∈ cfg.vips := by simp [hsplit, hu]
    exact ⟨(mem_wantOf (hcfg.vip_ok u hmem)).mp (OrdMap.mem_iff.mpr ⟨w, hw⟩), by simp [membersAt],
      rfl⟩
  · simp [membersAt] at hm

def sharedConfig : ValidConfig where
  interface := "eth0"
  encapSrc := ⟨0, 0, 16⟩
  vips := [{ spec := sampleFlow.vip, reals := [{ addrBe := sampleReal }] },
    { spec := ⟨0x016433c6, 0x5100, 17⟩, reals := [{ addrBe := sampleReal }] }]
  valid := by decide +kernel

theorem rings_up_to_date_sample :
    ∃ es s, Path (fun e s s' => CalmStep e s s' ∧ Aligned e s) es (init "eth0") s ∧
      s.pending = none ∧ (∀ spec, spec ∈ s.lb.vips ↔ spec ∈ sharedConfig.specs) ∧
      Coherent s.lb s.ctl := by
  have hu := init_usable "eth0"
  have hok := (init_fits "eth0" sharedConfig).apply_ok answeringEnv_healthy hu rfl sharedConfig.ok
  obtain ⟨es, s, hrun, hidle, happ⟩ := exists_aligned_apply (s := init "eth0") rfl hu
    answeringEnv_healthy.arrayOk hok (aligned_answering sharedConfig.ok _ _)
  exact ⟨es, s, hrun, hidle, (happ.vips sharedConfig.ok).1, rings_up_to_date hrun hidle⟩

/-! ## A MAC that another VIP was waiting for -/

/-- Two VIPs, of which the first has a real. -/
def pairConfig : ValidConfig where
  interface := "eth0"
  encapSrc := ⟨0, 0, 16⟩
  vips := [{ spec := sampleFlow.vip, reals := [{ addrBe := sampleReal }] },
    { spec := ⟨0x016433c6, 0x5100, 17⟩ }]
  valid := by decide +kernel

theorem exists_unanswered (cfg : ValidConfig) : ∃ s : System, s.Reachable ∧ s.pending = none ∧
    Applied quietEnv cfg.toConfig { interface := "eth0" } CtlMaps.empty s.ctl s.lb ∧
    ∀ a, s.lb.reals.macOf a = none := by
  have henv := quietEnv_healthy.arrayOk
  have hok := (init_fits "eth0" cfg).apply_ok quietEnv_healthy (init_usable "eth0") rfl cfg.ok
  obtain ⟨s, hs, hctl, hlb, -, -, hidle⟩ :=
    (Reachable.init "eth0").complete rfl (.apply cfg) henv nofun hok
  have hknown := (apply_known_new (L := fun _ _ => False) henv cfg.ok
    (fun _ hne => absurd rfl hne) (fun _ hne => absurd rfl hne) (fun _ _ _ _ hans => by cases hans)
    "eth0").of_ok hok
  refine ⟨s, hs, hidle, ?_, fun a => ?_⟩
  · rw [hctl, hlb]
    exact (apply_spec henv cfg.ok (init_usable "eth0").startable).of_ok hok
  · rw [hlb, Option.eq_none_iff_forall_ne_some]
    exact fun m hm => RealTable.Known.macOf hknown hm

/-- What `pairConfig` leaves when no neighbour has answered: the first VIP waits for its
real's MAC, the second can be given that real. -/
theorem pair_waiting (happ : Applied quietEnv pairConfig.toConfig { interface := "eth0" }
    CtlMaps.empty s.ctl s.lb) :
    (∃ u m, s.lb.vips[sampleFlow.vip]? = some u ∧ u.members[sampleReal]? = some m ∧
      m.ready = true) ∧
    ∃ v, s.lb.vips[(⟨0x016433c6, 0x5100, 17⟩ : VipSpec)]? = some v ∧ sampleReal ∉ v.members := by
  have hfirst : { spec := sampleFlow.vip, reals := [{ addrBe := sampleReal }] } ∈
      pairConfig.vips := by simp [pairConfig]
  have hsecond : { spec := ⟨0x016433c6, 0x5100, 17⟩ } ∈ pairConfig.vips := by simp [pairConfig]
  obtain ⟨u, hu, hconf⟩ := (happ.vips pairConfig.ok).2 _ hfirst
  obtain ⟨v, hv, hconf'⟩ := (happ.vips pairConfig.ok).2 _ hsecond
  refine ⟨?_, v, hv, ?_⟩
  · have hvc := pairConfig.ok.vip_ok _ hfirst
    have hwant := (getElem?_wantOf hvc).mpr
      ⟨{ addrBe := sampleReal }, List.mem_singleton.mpr rfl, rfl, rfl⟩
    have hstep := hconf.member sampleReal
    rw [hwant, membersAt] at hstep
    obtain ⟨m, hm, i, r, rfl⟩ := hstep
    exact ⟨u, _, hu, hm, rfl⟩
  · rw [hconf'.mem_members (pairConfig.ok.vip_ok _ hsecond)]
    decide

theorem learned_behind (hc : Consistent [] s.lb s.ctl) (hco : Coherent s.lb s.ctl) {u v : Vip}
    {m : Member} {spec spec' : VipSpec} {a : UInt32} (hne : spec ≠ spec') (ha : a ≠ 0)
    (hu : s.lb.vips[spec]? = some u) (hm : u.members[a]? = some m) (hready : m.ready = true)
    (hv : s.lb.vips[spec']? = some v) (hnew : a ∉ v.members)
    (hnone : ∀ b, s.lb.reals.macOf b = none) :
    ((Op.addReal spec' a 1).run answeringEnv s.ctl s.lb).res = .ok () ∧
      ¬Coherent ((Op.addReal spec' a 1).run answeringEnv s.ctl s.lb).mem
        (replay s.ctl ((Op.addReal spec' a 1).run answeringEnv s.ctl s.lb).log) := by
  have henv := answeringEnv_healthy.arrayOk
  obtain ⟨e, he⟩ := hc.member_entry hu (OrdMap.mem_iff.mpr ⟨m, hm⟩)
  have hid : ¬s.lb.reals.NoIdFor a := fun hno => by
    have := hno.1
    simp [RealTable.idOf_eq, he] at this
  have hinst : (Op.addReal spec' a 1).installs s.lb = some v.id := by
    simp [Op.installs, hv, ha, hnew, hid, kMaxRealWeight]
  have hok := Op.ok_of_installs (addReal_ends henv hc a 1) hinst rfl
  refine ⟨hok, fun hno => ?_⟩
  have hspec : wp ((Op.addReal spec' a 1).run answeringEnv) (fun _ _ => True)
      (fun _ d' lb' => ¬Coherent lb' d') (fun _ _ _ => True) s.ctl s.lb := by
    rw [Op.run, wp_bind]
    refine (addReal_spec henv hc).returns ?_
    rintro _ d' lb' ⟨v₀, v', hv₀, hnew₀, hstep⟩
    refine (wp_pure _).mpr fun hco' => ?_
    have hnew' : a ∉ s.lb.membersAt spec' := by rwa [membersAt_eq hv]
    exact hstep.stale hc hne hu hm hready (by simp) hnew' rfl (fun b _ => hnone b) (hco spec)
      (hco' spec)
  exact hspec.of_ok hok hno

/-- A real is known, because it was added to a second VIP, and missing from the ring of the
first. -/
theorem shared_real_missing : ∃ s : System, s.Reachable ∧ s.pending = none ∧
    ¬Coherent s.lb s.ctl := by
  obtain ⟨s, hreach, hidle, happ, hnone⟩ := exists_unanswered pairConfig
  have hsettled := happ.settled (init_usable "eth0")
  have hal : LbState.Aligned quietEnv pairConfig.toConfig { interface := "eth0" } CtlMaps.empty :=
    fun _ _ _ _ _ hears => by cases hears.2.2
  have hco := (happ.coherent_iff (init_usable "eth0").startable pairConfig.ok hal).mpr
    fun spec _ => .inr fun v hv => by simp at hv
  obtain ⟨⟨u, m, hu, hm, hready⟩, v, hv, hnew⟩ := pair_waiting happ
  obtain ⟨hok, hno⟩ := learned_behind hsettled.consistent hco (by decide) (by decide) hu hm hready
    hv hnew hnone
  obtain ⟨s', hreach', hctl, hlb, -, -, hidle'⟩ := hreach.complete hidle _
    answeringEnv_healthy.arrayOk (fun _ => by simp [ready, happ.initialized]) hok
  exact ⟨s', hreach', hidle', by rwa [hctl, hlb]⟩

end System

end PacketBalance
