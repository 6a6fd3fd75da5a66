import PacketBalance.System.Calls
import PacketBalance.LbState.Blind
/-!
# Load balancers with a history

A daemon applies its configuration before it serves, and ends if that throws; later
exceptions it survives, and whenever it ends the next one takes the maps over.  What
`System.Inv` says of the installed rings is lost with the first exception.  What remains is
true of the ring each VIP's latest rebuild has made: its backends are where the ring says
they are, through every exception and every restart.
-/

namespace PacketBalance

open WriteLog Std LbState

/-- A load balancer over its whole life.  `rebuilt` holds the rings that rebuilds have made,
for the ids that had a VIP when this daemon was started or were given to one by it; `called`
says that the daemon has begun its first `apply`. -/
structure Balancer where
  sys : System
  rebuilt : Nat → Option InstalledRing
  called : Bool

namespace Balancer

def start (interface : String) : Balancer := ⟨System.init interface, fun _ => none, false⟩

def note (rebuilt : Nat → Option InstalledRing) : MapWrite → Nat → Option InstalledRing
  | .ringSwap id r => Function.update rebuilt id (some r)
  | .ringRemove id => Function.update rebuilt id none
  | _ => rebuilt

/-- The rings a new daemon finds under the ids of the VIPs it finds. -/
def pinnedOnly (d : CtlMaps) (rebuilt : Nat → Option InstalledRing) (id : Nat) :
    Option InstalledRing :=
  if d.vipMap.toList.any (fun p => p.2.vipId = id) then rebuilt id else none

def heard (b : Balancer) : System.Event → Nat → Option InstalledRing
  | .write =>
      match b.sys.pending with
      | some (w :: _, _) => note b.rebuilt w
      | _ => b.rebuilt
  | .restart _ => pinnedOnly b.sys.ctl b.rebuilt
  | _ => b.rebuilt

def calledAfter (b : Balancer) : System.Event → Bool
  | .call _ _ => true
  | .restart _ => false
  | _ => b.called

/-- The calls a daemon makes: its first is `apply`, and it makes another only if that has
returned. -/
def Serves (b : Balancer) (op : Op) : Prop :=
  b.sys.lb.initialized = true ∨ (op.isApply = true ∧ b.called = false)

structure Step (e : System.Event) (b b' : Balancer) : Prop where
  sys : System.Step e b.sys b'.sys
  serves : ∀ env op, e = .call env op → b.Serves op
  rebuilt : b'.rebuilt = b.heard e
  called : b'.called = b.calledAfter e

def Reachable (b : Balancer) : Prop := ∃ interface es, Path Step es (start interface) b

/-! ## Invariant -/

/-- The maps with the rings of the latest rebuilds only. -/
def shadow (b : Balancer) : CtlMaps := { b.sys.ctl with rings := b.rebuilt }

/-- A model that is live, with a reference for all that its rings name. -/
structure Sustained (lb : LbState) (d : CtlMaps) : Prop extends Live lb d where
  backed : Backed lb d

/-- The rings there are lead to their backends. -/
def RingsOk (d : CtlMaps) : Prop := PinnedOn d.ringIds d

structure Inv (b : Balancer) : Prop where
  installed : ∀ id r, b.rebuilt id = some r → b.sys.ctl.rings id = some r
  rings : RingsOk b.shadow
  new : b.sys.pending = none → b.called = false → (∃ interface, b.sys.lb = { interface }) ∧
    ∀ id r, b.rebuilt id = some r → ∃ (s : VipSpec) (val : VipValue),
      b.sys.ctl.vipMap[s]? = some val ∧ val.vipId = id
  serving : b.sys.pending = none → b.sys.lb.initialized = true → Sustained b.sys.lb b.shadow
  ahead : ∀ ws mem, b.sys.pending = some (ws, mem) → b.called = true ∧
    Guarded (fun d w => RingsOk (Durable.write d w)) b.shadow ws ∧
      (mem.initialized = true → Sustained mem (replay b.shadow ws))

variable {b b' : Balancer}

theorem shadow_same (b : Balancer) : SameButRings b.sys.ctl b.shadow := ⟨rfl, rfl, rfl⟩

/-- An operation cannot tell the maps from their shadow. -/
theorem run_shadow (b : Balancer) (env : Env) (op : Op) (lb : LbState) :
    op.run env b.sys.ctl lb = op.run env b.shadow lb :=
  Blind.same b.shadow_same lb

theorem write_shadow (d : CtlMaps) (rebuilt : Nat → Option InstalledRing) (w : MapWrite) :
    Durable.write { d with rings := rebuilt } w =
      { Durable.write d w with rings := note rebuilt w } := by
  cases w <;> rfl

theorem note_installed {rebuilt : Nat → Option InstalledRing} {d : CtlMaps}
    (h : ∀ id r, rebuilt id = some r → d.rings id = some r) (w : MapWrite) (id : Nat)
    (r : InstalledRing) (hr : note rebuilt w id = some r) :
    (Durable.write d w).rings id = some r := by
  cases w with
  | ringSwap i r' =>
      by_cases hid : id = i
      · simpa [note, hid] using hr
      · simpa [note, hid] using h id r (by simpa [note, hid] using hr)
  | ringRemove i =>
      by_cases hid : id = i
      · simp [note, hid] at hr
      · simpa [note, hid] using h id r (by simpa [note, hid] using hr)
  | _ => exact h id r hr

theorem pinnedOnly_eq_some {d : CtlMaps} {rebuilt : Nat → Option InstalledRing} {id : Nat}
    {r : InstalledRing} (h : pinnedOnly d rebuilt id = some r) :
    rebuilt id = some r ∧
      ∃ (s : VipSpec) (val : VipValue), d.vipMap[s]? = some val ∧ val.vipId = id := by
  unfold pinnedOnly at h
  split_ifs at h with hany
  obtain ⟨⟨s, val⟩, hmem, hid⟩ := List.any_eq_true.mp hany
  exact ⟨h, s, val, ExtTreeMap.mem_toList_iff_getElem?_eq_some.mp hmem, by simpa using hid⟩

theorem RingsOk.fewer {d : CtlMaps} (h : RingsOk d) {rings : Nat → Option InstalledRing}
    (hsub : ∀ id r, rings id = some r → d.rings id = some r) :
    RingsOk { d with rings := rings } := by
  refine ⟨h.vip_lt, h.vip_inj, fun s val hval hid => ?_, h.reals.congr rfl⟩
  obtain ⟨r, hr⟩ := Option.isSome_iff_exists.mp hid
  have hr' := hsub _ r hr
  obtain ⟨r', heq, hok⟩ := h.ring s val hval (Option.isSome_iff_exists.mpr ⟨r, hr'⟩)
  exact ⟨r, hr, Option.some.inj (heq.symm.trans hr') ▸ hok.congr rfl rfl⟩

theorem RingsOk.write {d : CtlMaps} {w : MapWrite}
    (h : PinnedOn (w.relied d.ringIds) (Durable.write d w)) : RingsOk (Durable.write d w) :=
  h.mono (d.ringIds_write w)

theorem Sustained.run {lb : LbState} {d : CtlMaps} (h : Sustained lb d) (hrings : RingsOk d)
    {env : Env} (henv : ArrayOk env) (op : Op) :
    Guarded (fun d w => RingsOk (Durable.write d w)) d (op.run env d lb).log ∧
      Sustained (op.run env d lb).mem (replay d (op.run env d lb).log) := by
  have hspec : wp (op.run env) _ _ _ d lb :=
    Op.run_spec henv (.running h.consistent) fun _ => h.consistent
  refine ⟨Guarded.keeps (hspec.1.mono fun d₁ w hw hd => ?_) hrings, h.toLive.run henv op, ?_⟩
  · exact .write (hw.pinned_running h.initialized h.adopted h.consistent h.backed hd)
  · cases hres : (op.run env d lb).res with
    | ok u => exact (hspec.of_ok hres).backed h.initialized h.consistent h.backed
    | error err => exact ((hspec.of_error hres) h.initialized).backed h.backed

theorem run_first {d : CtlMaps} {interface : String} (hrings : RingsOk d)
    (hnamed : ∀ id r, d.rings id = some r → ∃ (s : VipSpec) (val : VipValue),
      d.vipMap[s]? = some val ∧ val.vipId = id) {env : Env} (henv : ArrayOk env)
    (cfg : ValidConfig) :
    Guarded (fun d w => RingsOk (Durable.write d w)) d
        ((Op.apply cfg).run env d { interface }).log ∧
      (((Op.apply cfg).run env d { interface }).mem.initialized = true →
        Sustained ((Op.apply cfg).run env d { interface }).mem
          (replay d ((Op.apply cfg).run env d { interface }).log)) := by
  have hpinned : PinnedOn ∅ d := hrings.mono (Set.empty_subset _)
  have husable : Usable { interface } d := .restarted interface rfl hpinned
  have hspec : wp ((Op.apply cfg).run env) _ _ _ d { interface } :=
    apply_spec henv cfg.ok husable.startable
  have hguard : Guarded (fun d w => RingsOk (Durable.write d w)) d
      ((Op.apply cfg).run env d { interface }).log :=
    Guarded.keeps (hspec.1.mono fun d₁ w hw hd => .write (hw.pinned cfg.ok husable hd)) hrings
  refine ⟨hguard, fun hinit => ?_⟩
  cases hres : ((Op.apply cfg).run env d { interface }).res with
  | ok u =>
      have happ := hspec.of_ok hres
      exact ⟨happ.live hpinned,
        happ.backed_first hpinned hnamed (hguard.at_cut hrings (List.prefix_refl _))⟩
  | error err =>
      have hfail := (hspec.of_error hres).initialized
      simp [hinit] at hfail

theorem start_inv (interface : String) : Inv (start interface) where
  installed _ _ h := by simp [start] at h
  rings := CtlMaps.empty_pinned.on _
  new _ _ := ⟨⟨interface, rfl⟩, fun _ _ h => by simp [start] at h⟩
  serving _ h := by simp [start, System.init] at h
  ahead _ _ h := by simp [start, System.init] at h

theorem Inv.call (h : Inv b) (hidle : b.sys.pending = none) {env : Env} {op : Op}
    (henv : ArrayOk env) (hserves : b.Serves op) :
    Guarded (fun d w => RingsOk (Durable.write d w)) b.shadow
        (op.run env b.shadow b.sys.lb).log ∧
      ((op.run env b.shadow b.sys.lb).mem.initialized = true →
        Sustained (op.run env b.shadow b.sys.lb).mem
          (replay b.shadow (op.run env b.shadow b.sys.lb).log)) := by
  rcases hserves with hinit | ⟨happly, hcalled⟩
  · obtain ⟨hguard, hend⟩ := (h.serving hidle hinit).run h.rings henv op
    exact ⟨hguard, fun _ => hend⟩
  · obtain ⟨⟨interface, hlb⟩, hnamed⟩ := h.new hidle hcalled
    cases op with
    | apply cfg =>
        rw [hlb]
        exact run_first h.rings hnamed henv cfg
    | _ => cases happly

theorem Inv.step {e : System.Event} (h : Inv b) (hstep : Step e b b') : Inv b' := by
  obtain ⟨sys', rebuilt', called'⟩ := b'
  obtain ⟨hsys, hserves, hrebuilt, hcalled⟩ := hstep
  dsimp only at hsys hrebuilt hcalled
  subst hrebuilt hcalled
  cases hsys with
  | call env op _ hidle henv hready =>
      refine ⟨h.installed, h.rings, nofun, nofun, ?_⟩
      rintro ws mem ⟨⟩
      rw [b.run_shadow]
      exact ⟨rfl, h.call hidle henv (hserves env op rfl)⟩
  | write _ w ws mem hpending =>
      obtain ⟨hcalled, hguard, hend⟩ := h.ahead _ _ hpending
      have hheard : b.heard .write = note b.rebuilt w := by simp [heard, hpending]
      obtain ⟨hrings, hrest⟩ := hguard
      rw [replay_cons] at hend
      rw [shadow, write_shadow] at hrings hrest hend
      rw [hheard]
      refine ⟨note_installed h.installed w, hrings, nofun, nofun, ?_⟩
      rintro ws' mem' ⟨⟩
      exact ⟨hcalled, hrest, hend⟩
  | finish _ mem hpending =>
      obtain ⟨hcalled, -, hend⟩ := h.ahead _ _ hpending
      refine ⟨h.installed, h.rings, fun _ hno => ?_, fun _ hinit => hend hinit, nofun⟩
      simp [calledAfter, hcalled] at hno
  | packet x p _ => exact ⟨h.installed, h.rings, h.new, h.serving, h.ahead⟩
  | evict k _ => exact ⟨h.installed, h.rings, h.new, h.serving, h.ahead⟩
  | restart interface _ =>
      refine ⟨fun id r hr => h.installed id r (pinnedOnly_eq_some hr).1,
        h.rings.fewer fun id r hr => (pinnedOnly_eq_some hr).1,
        fun _ _ => ⟨⟨interface, rfl⟩, fun id r hr => (pinnedOnly_eq_some hr).2⟩, nofun, nofun⟩

theorem Reachable.inv (h : Reachable b) : Inv b := by
  obtain ⟨interface, es, hrun⟩ := h
  exact hrun.invariant (I := fun _ b => Inv b) (start_inv interface)
    fun _ _ _ _ _ _ hI hstep => hI.step hstep

/-! ## Packets -/

/-- The ring of a VIP's latest rebuild is in place, and what it names is there. -/
theorem Reachable.ring_ok (h : Reachable b) {spec : VipSpec} {val : VipValue}
    {r : InstalledRing} (hval : b.sys.ctl.vipMap[spec]? = some val)
    (hr : b.rebuilt val.vipId = some r) :
    b.sys.ctl.rings val.vipId = some r ∧ RingOk b.sys.ctl r := by
  obtain ⟨r', hr', hok⟩ := h.inv.rings.ring spec val hval (Option.isSome_iff_exists.mpr ⟨r, hr⟩)
  obtain rfl : r' = r := Option.some.inj (hr'.symm.trans hr)
  exact ⟨h.inv.installed _ _ hr, hok.congr rfl rfl⟩

/-- After any exceptions too, a packet that such a ring places is dropped for want of a real
only if its slot is empty. -/
theorem Reachable.no_dangling_slot (h : Reachable b) {spec : VipSpec} {val : VipValue}
    {r : InstalledRing} (hval : b.sys.ctl.vipMap[spec]? = some val)
    (hr : b.rebuilt val.vipId = some r) :
    (∀ id ∈ r.slots, id = pbRealNone ∨ LiveSlot b.sys.ctl r id) ∧
      ∀ (x : PktEnv) (p : Frame) (pick : Pick), p.flow.vip = spec →
        (xdpPacketbalance b.sys.ctl x b.sys.dp p).1 = ⟨.drop .dropNoReal, some pick⟩ →
        pick.source = .ring → r.slots[p.flow.hash.toNat % pbRingSize]? = some pbRealNone := by
  obtain ⟨hring, hok⟩ := h.ring_ok hval hr
  have hreals : b.sys.ctl.RealsOk := h.inv.rings.reals.congr rfl
  refine ⟨fun id hid => hok.live_slot hreals hid, ?_⟩
  rintro x p pick rfl hres hsource
  have hpick : (xdpPacketbalance b.sys.ctl x b.sys.dp p).1.pick = some pick := by rw [hres]
  obtain ⟨q, -, -, hq, -, -⟩ := xdp_picked hpick
  obtain rfl : q.vip = val := by simpa [hval] using (classify_forward hq).2.symm
  exact hok.noReal hreals hq hring hpick hsource (by rw [hres])

/-- Two load balancers whose latest rebuilds for a VIP saw one hash mode and the same
addresses and effective weights place every packet of the VIP alike, whatever they have been
through. -/
theorem ring_placement_agrees {b₁ b₂ : Balancer} (h₁ : b₁.Reachable) (h₂ : b₂.Reachable)
    {spec : VipSpec} {val₁ val₂ : VipValue} {r₁ r₂ : InstalledRing}
    (hval₁ : b₁.sys.ctl.vipMap[spec]? = some val₁)
    (hval₂ : b₂.sys.ctl.vipMap[spec]? = some val₂)
    (hr₁ : b₁.rebuilt val₁.vipId = some r₁) (hr₂ : b₂.rebuilt val₂.vipId = some r₂)
    (hmode : r₁.mode = r₂.mode) (hpairs : r₁.pairs = r₂.pairs)
    {x₁ x₂ : PktEnv} {p : Frame} {pick₁ pick₂ : Pick} (hp : p.flow.vip = spec)
    (hpick₁ : (xdpPacketbalance b₁.sys.ctl x₁ b₁.sys.dp p).1.pick = some pick₁)
    (hpick₂ : (xdpPacketbalance b₂.sys.ctl x₂ b₂.sys.dp p).1.pick = some pick₂)
    (hring₁ : pick₁.source = .ring) (hring₂ : pick₂.source = .ring) :
    (pick₁.realId = pbRealNone ∧ pick₂.realId = pbRealNone) ∨
      (b₁.sys.ctl.reals pick₁.realId ≠ 0 ∧
        b₁.sys.ctl.reals pick₁.realId = b₂.sys.ctl.reals pick₂.realId) := by
  subst hp
  obtain ⟨q₁, _, _, hq₁, -, hstep₁⟩ := xdp_picked hpick₁
  obtain ⟨q₂, _, _, hq₂, -, hstep₂⟩ := xdp_picked hpick₂
  obtain rfl : q₁.vip = val₁ := by simpa [hval₁] using (classify_forward hq₁).2.symm
  obtain rfl : q₂.vip = val₂ := by simpa [hval₂] using (classify_forward hq₂).2.symm
  rw [hstep₁.realId_eq hring₁, hstep₂.realId_eq hring₂]
  obtain ⟨hin₁, hok₁⟩ := h₁.ring_ok hval₁ hr₁
  obtain ⟨hin₂, hok₂⟩ := h₂.ring_ok hval₂ hr₂
  rcases hok₁.agree_lookup hok₂ hin₁ hin₂ hmode hpairs p.flow.hash with
    hnone | ⟨-, -, hne, heq⟩
  · exact .inl hnone
  · exact .inr ⟨hne, heq⟩

/-! ## Two numberings -/

/-- The load balancer is between operations, its maps and model those of `s`, and no packet
has come yet. -/
structure Stands (b : Balancer) (s : Serving) : Prop where
  reachable : b.Reachable
  idle : b.sys.pending = none
  conntrack : b.sys.dp.conntrack = .empty
  ctl : b.sys.ctl = s.ctl
  rebuilt : b.rebuilt = s.ctl.rings
  lb : b.sys.lb = s.lb

theorem Reachable.step {e : System.Event} (h : Reachable b) (hstep : Step e b b') :
    Reachable b' := by
  obtain ⟨interface, es, hrun⟩ := h
  exact ⟨interface, es ++ [e], hrun.snoc hstep⟩

theorem Reachable.land (h : Reachable b) {d : CtlMaps} {ws : List MapWrite} {mem : LbState}
    (hpending : b.sys.pending = some (ws, mem)) (hct : b.sys.dp.conntrack = .empty)
    (hctl : b.sys.ctl = d) (hrebuilt : b.rebuilt = d.rings) :
    ∃ b', Stands b' ⟨replay d ws, mem⟩ := by
  induction ws generalizing b d with
  | nil =>
      have hstep : Step .finish b
          ⟨{ b.sys with lb := mem, pending := none }, b.rebuilt, b.called⟩ :=
        ⟨.finish b.sys mem hpending, nofun, rfl, rfl⟩
      exact ⟨_, h.step hstep, rfl, hct, hctl, hrebuilt, rfl⟩
  | cons w ws ih =>
      have hstep : Step .write b ⟨{ b.sys with
          ctl := Durable.write b.sys.ctl w
          dp := b.sys.dp.reset w
          pending := some (ws, mem) }, note b.rebuilt w, b.called⟩ :=
        ⟨.write b.sys w ws mem hpending, nofun, by simp [heard, hpending], rfl⟩
      refine ih (h.step hstep) rfl ((DpMaps.reset_conntrack _ w).trans hct) (by rw [hctl]) ?_
      rw [hrebuilt]
      cases w <;> rfl

theorem Stands.after {s : Serving} (h : Stands b s) {env : Env} (henv : ArrayOk env) {op : Op}
    (hserves : b.Serves op) : ∃ b', Stands b' (s.after env op) := by
  have hready : op.isApply = false → b.sys.ready = true := by
    rcases hserves with hinit | ⟨happly, -⟩
    · exact fun _ => by simp [System.ready, hinit]
    · exact fun hno => by simp [happly] at hno
  have hstep : Step (.call env op) b ⟨{ b.sys with
      pending := some ((op.run env b.sys.ctl b.sys.lb).log,
        (op.run env b.sys.ctl b.sys.lb).mem) }, b.rebuilt, true⟩ := by
    refine ⟨.call env op b.sys h.idle henv hready, ?_, rfl, rfl⟩
    rintro _ _ ⟨⟩
    exact hserves
  rw [Serving.after, ← h.ctl, ← h.lb]
  exact (h.reachable.step hstep).land rfl h.conntrack rfl (h.ctl ▸ h.rebuilt)

theorem exists_stands {interface : String} {env : Env} (henv : ArrayOk env) {cfg : ValidConfig}
    (hok : ((Op.apply cfg).run env CtlMaps.empty { interface }).res = .ok ())
    {xs : List (Env × Op)} {s : Serving}
    (hrun : Path Serving.Step xs
      (Serving.after ⟨CtlMaps.empty, { interface }⟩ env (.apply cfg)) s) :
    ∃ b, Stands b s := by
  have hpinned := CtlMaps.empty_pinned.on ∅
  have hstart : Stands (start interface) ⟨CtlMaps.empty, { interface }⟩ :=
    ⟨⟨interface, [], rfl⟩, rfl, rfl, rfl, rfl, rfl⟩
  refine (hrun.invariant (I := fun _ s => s.Reachable ∧ ∃ b, Stands b s) ⟨?_, ?_⟩ ?_).2
  · exact ⟨_, interface, env, cfg, [], hpinned, henv, hok, rfl⟩
  · exact hstart.after henv (.inr ⟨rfl, rfl⟩)
  · rintro _ ⟨env', op⟩ _ - s _ ⟨hreach, b, hb⟩ hstep
    refine ⟨hreach.step hstep, ?_⟩
    obtain ⟨henv', rfl⟩ := hstep
    exact hb.after henv' (.inl (hb.lb ▸ hreach.live.initialized))

def otherVip : VipSpec := { sampleFlow.vip with portBe := 0x5100 }

section Histories

variable {s s₂ : Serving} {k : Nat} {w v : Vip}

/-- `add_vip` and `add_real`. -/
theorem first_history (h : s.Idle) (hk : s.lb.allocateVipId = some k) :
    ∃ xs s' flags slots id, Path Serving.Step xs s s' ∧
      s'.Single sampleFlow.vip 0x1500000a id s.lb.hash ⟨k, flags⟩ slots ∧
      s.lb.reals.nextId = some id ∧ s'.lb.reals.idOf 0x1500000a = some id := by
  have henv := System.answeringEnv_healthy
  have hnew : sampleFlow.vip ∉ s.lb.vips := by simp [h.vips]
  obtain ⟨v, rfl, hstep, hreals⟩ := h.reachable.vip_added henv hnew hk false
  have hbare := Serving.bare_added hnew hstep
  obtain ⟨v', e, hreal⟩ := hbare.real_added (h.reachable.after henv.arrayOk _)
    (by decide : (0x1500000a : UInt32) ≠ 0) (hreals ▸ h.entry _) (by rw [hreals, h.used]; decide)
  obtain ⟨slots, hsingle⟩ := hreal.single hbare
  exact ⟨[(System.answeringEnv, .addVip sampleFlow.vip false),
      (System.answeringEnv, .addReal sampleFlow.vip 0x1500000a 1)], _, _, slots, e.id,
    ⟨_, ⟨henv.arrayOk, rfl⟩, _, ⟨henv.arrayOk, rfl⟩, rfl⟩, hstep.hash ▸ hsingle,
    hreals ▸ hreal.next, by rw [RealTable.idOf_eq, hreal.entry, Option.map_some]⟩

/-- The two VIPs are there and no real is. -/
structure Pair (s₀ s : Serving) (w v : Vip) : Prop where
  reachable : s.Reachable
  other : s.Bare otherVip w
  sample : s.Bare sampleFlow.vip v
  hash : s.lb.hash = s₀.lb.hash
  reals : s.lb.reals = s₀.lb.reals

/-- `add_vip` twice: the other VIP takes the next id. -/
theorem pair (h : s.Idle) (hk : s.lb.allocateVipId = some k) :
    ∃ xs s' w v, Path Serving.Step xs s s' ∧ Pair s s' w v ∧ w.id = k := by
  have henv := System.answeringEnv_healthy
  have hne : sampleFlow.vip ≠ otherVip := by decide
  have hnew₁ : otherVip ∉ s.lb.vips := by simp [h.vips]
  obtain ⟨w, hw, hstep₁, hreals₁⟩ := h.reachable.vip_added henv hnew₁ hk false
  have hreach₁ := h.reachable.after henv.arrayOk (.addVip otherVip false)
  have helse : ∀ x : VipSpec, x ≠ otherVip →
      (s.after System.answeringEnv (.addVip otherVip false)).lb.vips[x]? = none := by
    intro x hx
    rw [hstep₁.vip_else hx, h.vips]
    exact ExtTreeMap.getElem?_empty
  obtain ⟨k', hk'⟩ := Serving.exists_vipId helse hreach₁.live.adopted
  have hnew₂ := OrdMap.notMem_iff.mpr (helse _ hne)
  obtain ⟨v, -, hstep₂, hreals₂⟩ := hreach₁.vip_added henv hnew₂ hk' false
  exact ⟨[(_, .addVip otherVip false), (_, .addVip sampleFlow.vip false)], _, w, v,
    ⟨_, ⟨henv.arrayOk, rfl⟩, _, ⟨henv.arrayOk, rfl⟩, rfl⟩,
    ⟨hreach₁.after henv.arrayOk _, (Serving.bare_added hnew₁ hstep₁).of_step hne.symm hstep₂,
      Serving.bare_added hnew₂ hstep₂, hstep₂.hash.trans hstep₁.hash, hreals₂.trans hreals₁⟩, hw⟩

/-- `add_real` to each, the other VIP first: its real takes the next id.  Then it cannot be
deleted. -/
theorem second_history (h : s.Idle) (hp : Pair s s₂ w v) :
    ∃ xs s' slots id id', Path Serving.Step xs s₂ s' ∧
      (s'.after Serving.ringlessEnv (.delReal otherVip 0x1600000a)).Single sampleFlow.vip
        0x1500000a id' s.lb.hash ⟨v.id, v.flags⟩ slots ∧
      (∃ err, ((Op.delReal otherVip 0x1600000a).run Serving.ringlessEnv s'.ctl s'.lb).res =
        .error err) ∧
      s.lb.reals.nextId = some id ∧ id ≠ id' ∧
      (s'.after Serving.ringlessEnv (.delReal otherVip 0x1600000a)).lb.reals.idOf 0x1500000a =
        some id' := by
  have henv := System.answeringEnv_healthy
  have hne : sampleFlow.vip ≠ otherVip := by decide
  have haddr : (0x1500000a : UInt32) ≠ 0x1600000a := by decide
  have hcard : s₂.lb.reals.used.card = 0 := by rw [hp.reals, h.used, Finset.card_empty]
  obtain ⟨w', e, hfirst⟩ := hp.other.real_added hp.reachable
    (by decide : (0x1600000a : UInt32) ≠ 0) (hp.reals ▸ h.entry _) (by rw [hcard]; decide)
  have hreach₃ := hp.reachable.after henv.arrayOk (.addReal otherVip 0x1600000a 1)
  have hbare := hp.sample.of_step hne hfirst.step
  have hused := hfirst.used_card
  rw [hcard] at hused
  obtain ⟨v', e', hsecond⟩ := hbare.real_added hreach₃ (by decide : (0x1500000a : UInt32) ≠ 0)
    (by rw [hfirst.entry_else _ haddr, hp.reals, h.entry])
    (Nat.lt_of_le_of_lt hused (by decide))
  have hreach₄ := hreach₃.after henv.arrayOk (.addReal sampleFlow.vip 0x1500000a 1)
  obtain ⟨slots, hsingle⟩ := hsecond.single hbare
  rw [hfirst.step.hash.trans hp.hash] at hsingle
  have hw' := (hsecond.step.vip_else hne.symm).trans hfirst.step.vip
  obtain ⟨herr, hafter⟩ := hreach₄.real_stuck hw' ((hfirst.mem _).mpr rfl)
    (rfl : Serving.ringlessEnv.ringFault w'.id = _)
  have hid : e.id ≠ e'.id := fun heq => haddr.symm (hreach₄.live.consistent.table.wf.entry_inj
    ((hsecond.entry_else _ haddr.symm).trans hfirst.entry) hsecond.entry heq)
  refine ⟨[(System.answeringEnv, .addReal otherVip 0x1600000a 1),
      (System.answeringEnv, .addReal sampleFlow.vip 0x1500000a 1)], _, slots, e.id, e'.id,
    ⟨_, ⟨henv.arrayOk, rfl⟩, _, ⟨henv.arrayOk, rfl⟩, rfl⟩, ?_, herr, hp.reals ▸ hfirst.next, hid,
    ?_⟩
  · rw [hafter]
    exact ⟨hsingle.entry, hsingle.ring, hsingle.built⟩
  · rw [hafter, RealTable.idOf_eq, hsecond.entry, Option.map_some]

end Histories

/-- One load balancer has a single VIP with a single real.  The other was given another VIP
and another real first, and a call of it has thrown: neither id is the same. -/
theorem ring_placement_agrees_renumbered :
    ∃ (b₁ b₂ : Balancer) (val₁ val₂ : VipValue) (id₁ id₂ : Nat) (pick₁ pick₂ : Pick),
      b₁.Reachable ∧ b₂.Reachable ∧
      (∃ s, b₂.sys.lb = (Serving.after s Serving.ringlessEnv (.delReal otherVip 0x1600000a)).lb ∧
        ∃ err, ((Op.delReal otherVip 0x1600000a).run Serving.ringlessEnv s.ctl s.lb).res =
          .error err) ∧
      b₁.sys.ctl.vipMap[sampleFlow.vip]? = some val₁ ∧
      b₂.sys.ctl.vipMap[sampleFlow.vip]? = some val₂ ∧ val₁.vipId ≠ val₂.vipId ∧
      b₁.sys.lb.reals.idOf 0x1500000a = some id₁ ∧
      b₂.sys.lb.reals.idOf 0x1500000a = some id₂ ∧ id₁ ≠ id₂ ∧
      (xdpPacketbalance b₁.sys.ctl sampleCpu b₁.sys.dp sampleFrame).1.pick = some pick₁ ∧
      (xdpPacketbalance b₂.sys.ctl sampleCpu b₂.sys.dp sampleFrame).1.pick = some pick₂ ∧
      ((pick₁.realId = pbRealNone ∧ pick₂.realId = pbRealNone) ∨
        (b₁.sys.ctl.reals pick₁.realId ≠ 0 ∧
          b₁.sys.ctl.reals pick₁.realId = b₂.sys.ctl.reals pick₂.realId)) := by
  have henv := System.answeringEnv_healthy
  have hok := Serving.idleConfig_ok henv "eth0"
  have hidle := Serving.idle_started henv "eth0"
  obtain ⟨k, hk⟩ := Serving.exists_vipId (fun s (_ : s ≠ otherVip) => by simp [hidle.vips])
    hidle.reachable.live.adopted
  obtain ⟨xs₁, s₁, flags₁, r₁, id₁, hrun₁, hsingle₁, hnext₁, hid₁⟩ := first_history hidle hk
  obtain ⟨ys, t, w, v, hys, hpair, rfl⟩ := pair hidle hk
  obtain ⟨zs, s₂, r₂, id, id₂, hzs, hsingle₂, herr, hnext, hne, hid₂⟩ := second_history hidle hpair
  obtain rfl : id = id₁ := Option.some.inj (hnext.symm.trans hnext₁)
  have hrun₂ : Path Serving.Step (ys ++ zs ++ [(Serving.ringlessEnv, .delReal otherVip 0x1600000a)])
      _ _ := (path_append.mpr ⟨t, hys, hzs⟩).snoc ⟨Serving.ringlessEnv_arrayOk, rfl⟩
  obtain ⟨b₁, hb₁⟩ := exists_stands henv.arrayOk hok hrun₁
  obtain ⟨b₂, hb₂⟩ := exists_stands henv.arrayOk hok hrun₂
  have hval₁ := hb₁.ctl ▸ hsingle₁.entry
  have hval₂ := hb₂.ctl ▸ hsingle₂.entry
  obtain ⟨pick₁, hpick₁, hring₁⟩ := System.pick_of_empty hb₁.conntrack hval₁
  obtain ⟨pick₂, hpick₂, hring₂⟩ := System.pick_of_empty hb₂.conntrack hval₂
  refine ⟨b₁, b₂, _, _, id, id₂, pick₁, pick₂, hb₁.reachable, hb₂.reachable,
    ⟨s₂, hb₂.lb, herr⟩, hval₁, hval₂, ?_, hb₁.lb ▸ hid₁, hb₂.lb ▸ hid₂, hne, hpick₁, hpick₂, ?_⟩
  · exact hpair.reachable.live.consistent.id_ne hpair.other.vip hpair.sample.vip (by decide)
  · have hr₁ := hb₁.rebuilt ▸ hsingle₁.ring
    have hr₂ := hb₂.rebuilt ▸ hsingle₂.ring
    exact ring_placement_agrees hb₁.reachable hb₂.reachable hval₁ hval₂ hr₁ hr₂ rfl rfl rfl
      hpick₁ hpick₂ hring₁ hring₂

end Balancer

end PacketBalance
