import PacketBalance.LbState.Table
import PacketBalance.System.Safety
/-!
# The real table after successful operations

In every state that a daemon's successful operations lead to, the two indexes of the
real table are inverse to each other, its reference counts are what the VIPs hold, and
the arrays agree with it for every id, in use or not.  A daemon may end between two
operations and another take over.
-/

namespace PacketBalance

open WriteLog Std LbState RealTable

/-! ## Free ids have no MAC -/

def Tidy (d : CtlMaps) : Prop := ∀ id, d.reals id = 0 → d.neigh id = Mac.zero

theorem Tidy.slotClosed : SlotClosed (fun _ _ => True) fun d _ => Tidy d where
  frame {d d' t} h hreals hneigh id hid := by
    rw [hreals] at hid
    rw [hneigh]
    exact h id hid
  keep h _ := h
  put {d t t' id s} h _ hs j hj := by
    by_cases hji : j = id
    · subst hji
      simp only [CtlMaps.putSlot, Function.update_self] at hj ⊢
      rcases hs with hnone | ⟨hne, -⟩
      · rw [hnone, Option.getD_none]
      · exact absurd hj hne
    · simp only [CtlMaps.putSlot, Function.update_of_ne hji] at hj ⊢
      exact h j hj

section Operations

variable {env : Env} {lb : LbState} {d : CtlMaps}

theorem LbState.Settled.keeping (hs : Settled lb d) (htidy : Tidy d) :
    Keeping (fun d _ => Tidy d) d lb.reals := by
  obtain ⟨hwf, hmirror⟩ := hs.consistent.table
  exact ⟨⟨hmirror, fun a id hid => (hwf.byAddr_iff a id).mp hid, hwf.cursor_range⟩,
    fun id hne => hwf.in_range id (hmirror.reals id ▸ hne), htidy⟩

theorem LbState.Usable.opening (hu : Usable lb d) (htidy : Tidy d) (cfg : Config) :
    wp (Prog.when (!lb.initialized) adoptLocked >>= fun _ => writeConfigMap env cfg)
      (fun _ _ => True) (fun _ d lb => Keeping (fun d _ => Tidy d) d lb.reals)
      (fun _ _ _ => True) d lb := by
  cases hu with
  | running hs =>
      have hk := hs.keeping htidy
      refine KeepingAt.wp_opening Tidy.slotClosed cfg (fun _ => hk) fun _ => ?_
      exact wp_imp (hk.held.adopt hk.ranged.safe) fun _ _ _ h => ⟨h.1, h.2, hk.ranged, htidy⟩
  | restarted interface hlb hpinned =>
      have hranged : Ranged d := hpinned.reals.range
      subst hlb
      refine KeepingAt.wp_opening Tidy.slotClosed cfg nofun fun _ => ?_
      exact wp_imp (adopt_held hranged.safe (fun _ hne => absurd rfl hne) (fun _ _ _ => rfl)
        fun a id hid => by simp at hid) fun _ _ _ h => ⟨h.1, h.2, hranged, htidy⟩

/-- An operation that returns leaves no MAC behind for an id that it freed. -/
theorem Op.tidy {op : Op} (henv : ArrayOk env) (hu : Usable lb d)
    (hready : op.isApply = false → Settled lb d) (htidy : Tidy d)
    (hok : (op.run env d lb).res = .ok ()) : Tidy (replay d (op.run env d lb).log) := by
  cases hop : op.isApply with
  | false =>
      have hrun : Preserves (KeepingAt lb.nextHop fun d _ => Tidy d) (op.run env) :=
        KeepingAt.preserves_run Tidy.slotClosed henv hop (fun _ _ _ _ _ => trivial)
          fun _ _ _ _ _ => trivial
      exact (hrun.at_end ⟨rfl, (hready hop).keeping htidy⟩).2.holds
  | true =>
      obtain ⟨cfg, rfl⟩ : ∃ cfg, op = .apply cfg := by
        cases op with
        | apply cfg => exact ⟨cfg, rfl⟩
        | _ => cases hop
      have hspec := KeepingAt.wp_apply (E := fun _ _ => True) Tidy.slotClosed henv cfg.ok
        (fun _ _ _ _ _ => trivial) (fun _ _ _ => trivial) (hu.opening htidy cfg.toConfig)
      exact (hspec.of_ok hok).2.holds

end Operations

/-! ## The representation invariant -/

/-- The table, the VIPs that use it and the arrays belong together. -/
structure Represents (lb : LbState) (d : CtlMaps) : Prop where
  inverse : ∀ a id, lb.reals.byAddr[a]? = some id ↔ (lb.reals.slots id).addr = a ∧ a ≠ 0
  in_range : ∀ id, (lb.reals.slots id).addr ≠ 0 → 1 ≤ id ∧ id < pbMaxReals
  cursor_range : 1 ≤ lb.reals.cursor ∧ lb.reals.cursor < pbMaxReals
  refs_eq : ∀ id, (lb.reals.slots id).addr ≠ 0 →
    (lb.reals.slots id).refs = (holders lb.vips (lb.reals.slots id).addr).card
  refs_pos : ∀ id, 0 < (lb.reals.slots id).refs ↔ (lb.reals.slots id).addr ≠ 0
  members : ∀ spec, ∀ a ∈ lb.membersAt spec, ∃ id, lb.reals.byAddr[a]? = some id
  reals : ∀ id, d.reals id = (lb.reals.slots id).addr
  neigh : ∀ id, d.neigh id = (lb.reals.slots id).mac.getD Mac.zero

theorem LbState.Settled.represents {lb : LbState} {d : CtlMaps} (hs : Settled lb d)
    (htidy : Tidy d) : Represents lb d := by
  obtain ⟨hwf, hmirror⟩ := hs.consistent.table
  have hentry : ∀ id, (lb.reals.slots id).addr ≠ 0 →
      lb.reals.entry (lb.reals.slots id).addr =
        some ⟨id, (lb.reals.slots id).refs, (lb.reals.slots id).mac⟩ := fun id hne => by
    rw [RealTable.entry, (hwf.byAddr_iff _ id).mpr ⟨hne, rfl⟩, Option.map_some]
  refine ⟨fun a id => (hwf.byAddr_iff a id).trans and_comm, hwf.in_range, hwf.cursor_range,
    fun id hne => hs.refs_of_entry (hentry id hne), fun id => ⟨fun hpos hzero => ?_, fun hne =>
    hs.counted _ _ (hentry id hne)⟩, fun spec a ha => ?_, hmirror.reals, fun id => ?_⟩
  · simp [hwf.blank id hzero] at hpos
  · obtain ⟨v, hv, hmem⟩ := mem_holders.mp (mem_holders_membersAt.mpr ha)
    obtain ⟨e, he⟩ := hs.consistent.member_entry hv hmem
    exact ⟨e.id, (hwf.byAddr_iff a e.id).mpr ⟨hwf.entry_ne_zero he, by rw [hwf.entry_slot he]⟩⟩
  · by_cases hzero : (lb.reals.slots id).addr = 0
    · rw [htidy id ((hmirror.reals id).trans hzero), hwf.blank id hzero, Option.getD_none]
    · exact hmirror.neigh id hzero

/-! ## Successful operations -/

/-- The maps and the daemon of the moment. -/
structure Session where
  ctl : CtlMaps
  lb : LbState

namespace Session

inductive Event where
  | call (env : Env) (op : Op)
  | restart (interface : String)

/-- An operation that returns normally, or another daemon between two of them.  A daemon
takes no other operation before its first `apply`. -/
inductive Step : Event → Session → Session → Prop
  | call (env : Env) (op : Op) (s : Session) (henv : ArrayOk env)
      (hready : op.isApply = false → s.lb.initialized = true)
      (hok : (op.run env s.ctl s.lb).res = .ok ()) :
      Step (.call env op) s
        ⟨replay s.ctl (op.run env s.ctl s.lb).log, (op.run env s.ctl s.lb).mem⟩
  | restart (interface : String) (s : Session) :
      Step (.restart interface) s ⟨s.ctl, { interface }⟩

def start (interface : String) : Session := ⟨.empty, { interface }⟩

/-- The state is one of the whole system, and no MAC is left over. -/
structure Inv (s : Session) : Prop where
  system : ∃ t : System, t.Reachable ∧ t.pending = none ∧ t.ctl = s.ctl ∧ t.lb = s.lb
  tidy : Tidy s.ctl

variable {s s' : Session}

theorem Inv.step {e : Event} (h : Inv s) (hstep : Step e s s') : Inv s' := by
  obtain ⟨ctl, lb⟩ := s
  obtain ⟨⟨t, ht, hidle, rfl, rfl⟩, htidy⟩ := h
  cases hstep with
  | call env op _ henv hready hok =>
      have hready' : op.isApply = false → t.ready = true := fun hop =>
        Bool.or_eq_true_iff.mpr (.inl (hready hop))
      obtain ⟨t', ht', hctl, hlb, -, -, hidle'⟩ := ht.complete hidle op henv hready' hok
      refine ⟨⟨t', ht', hidle', hctl, hlb⟩, ?_⟩
      exact Op.tidy henv (ht.inv.usable hidle) (fun hop => ht.inv.settled hidle (hready' hop))
        htidy hok
  | restart interface _ => exact ⟨⟨_, ht.restart interface, rfl, rfl, rfl⟩, htidy⟩

end Session

/-- After any successful operations, with a first `apply` among them, the real table is
what its representation invariant says.  Daemons end only between operations. -/
theorem table_represents {interface : String} {es : List Session.Event} {s : Session}
    (hrun : Path Session.Step es (Session.start interface) s)
    (hinit : s.lb.initialized = true) : Represents s.lb s.ctl := by
  have hstart : Session.Inv (Session.start interface) :=
    ⟨⟨_, System.Reachable.init interface, rfl, rfl, rfl⟩, fun _ _ => rfl⟩
  obtain ⟨⟨t, ht, hidle, hctl, hlb⟩, htidy⟩ := hrun.invariant (I := fun _ => Session.Inv) hstart
    fun _ _ _ _ _ _ hI hstep => hI.step hstep
  have hsettled := ht.inv.settled hidle (by simp [System.ready, hlb, hinit])
  rw [hctl, hlb] at hsettled
  exact hsettled.represents htidy

theorem Session.exists_applied (s : Session) {env : Env} (henv : ArrayOk env) (cfg : ValidConfig)
    (hu : Usable s.lb s.ctl) (hok : ((Op.apply cfg).run env s.ctl s.lb).res = .ok ()) :
    ∃ s', Path Step [.call env (.apply cfg)] s s' ∧ s'.lb.initialized = true :=
  ⟨_, ⟨_, .call env (.apply cfg) s henv nofun hok, rfl⟩,
    ((apply_spec henv cfg.ok hu.startable).of_ok hok).initialized⟩

theorem table_represents_sample :
    ∃ s, Path Session.Step [.call System.answeringEnv (.apply System.sampleConfig)]
        (Session.start "eth0") s ∧ Represents s.lb s.ctl := by
  have henv := System.answeringEnv_healthy
  have hu := (System.init_inv "eth0").usable rfl
  obtain ⟨s, hrun, hinit⟩ := Session.exists_applied (Session.start "eth0") henv.arrayOk
    System.sampleConfig hu ((System.init_fits "eth0" System.sampleConfig).apply_ok henv hu rfl
      System.sampleConfig.ok)
  exact ⟨s, hrun, table_represents hrun hinit⟩

end PacketBalance
