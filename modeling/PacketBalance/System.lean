import PacketBalance.Operation
import PacketBalance.DataPlane
/-!
# The running system

One daemon, the maps and the data plane.  An operation is called, its map writes
land one by one with packets processed in between, and it returns; the daemon can be
killed at any moment and started again on the maps it left.  `Inv` is what holds in
every state of a run in which no operation throws.
-/

namespace PacketBalance

open WriteLog Std LbState

/-- Everything there is.  `fresh` says that this daemon found the maps empty, as the
first one does; `pending` holds the writes the running operation has still to make and
the model it will leave. -/
structure System where
  ctl : CtlMaps
  dp : DpMaps
  lb : LbState
  fresh : Bool
  pending : Option (List MapWrite × LbState)

namespace System

/-- The first daemon has been started and nothing is configured. -/
def init (interface : String) : System where
  ctl := .empty
  dp := .empty
  lb := { interface }
  fresh := true
  pending := none

/-- Whether the daemon takes requests; one that finds pinned maps starts with
`apply`. -/
def ready (s : System) : Bool := s.lb.initialized || s.fresh

inductive Event where
  | call (env : Env) (op : Op)
  | write
  | finish
  | packet (x : PktEnv) (p : Frame)
  | evict (k : Flow)
  | restart (interface : String)

/-- One step.  Every public method of `LbState` holds its mutex, and nothing else
writes the maps it reads, so its writes and its result are settled when it is called. -/
inductive Step : Event → System → System → Prop
  | call (env : Env) (op : Op) (s : System) (hidle : s.pending = none) (harray : ArrayOk env)
      (hready : op.isApply = false → s.ready = true) :
      Step (.call env op) s { s with
        pending := some ((op.run env s.ctl s.lb).log, (op.run env s.ctl s.lb).mem) }
  | write (s : System) (w : MapWrite) (ws : List MapWrite) (mem : LbState)
      (hpending : s.pending = some (w :: ws, mem)) :
      Step .write s { s with
        ctl := Durable.write s.ctl w
        dp := s.dp.reset w
        pending := some (ws, mem) }
  | finish (s : System) (mem : LbState) (hpending : s.pending = some ([], mem)) :
      Step .finish s { s with lb := mem, pending := none }
  | packet (x : PktEnv) (p : Frame) (s : System) :
      Step (.packet x p) s { s with dp := (xdpPacketbalance s.ctl x s.dp p).2 }
  | evict (k : Flow) (s : System) :
      Step (.evict k) s { s with dp := { s.dp with conntrack := s.dp.conntrack.evict k } }
  | restart (interface : String) (s : System) :
      Step (.restart interface) s { s with lb := { interface }, fresh := false, pending := none }

def Calm (e : Event) (s : System) : Prop :=
  ∀ env op, e = .call env op → (op.run env s.ctl s.lb).res = .ok ()

/-- A step of a run in which no operation throws. -/
def CalmStep (e : Event) (s s' : System) : Prop := Step e s s' ∧ Calm e s

/-- The states of the runs in which no operation throws. -/
def Reachable (s : System) : Prop :=
  ∃ interface es, Path CalmStep es (init interface) s

structure Inv (s : System) : Prop where
  pinned : PinnedOk s.ctl
  settled : s.pending = none → s.ready = true → Settled s.lb s.ctl
  restarted : s.pending = none → s.ready = false → ∃ interface, s.lb = { interface }
  adopted : s.pending = none → s.lb.adoptedVipIds = ∅
  ahead : ∀ ws mem, s.pending = some (ws, mem) →
    Guarded (fun d w => PinnedOk (Durable.write d w)) s.ctl ws ∧
      Settled mem (replay s.ctl ws) ∧ mem.adoptedVipIds = ∅ ∧
      (mem.initialized || s.fresh) = true

variable {s s' : System}

theorem Inv.usable (h : Inv s) (hidle : s.pending = none) : Usable s.lb s.ctl := by
  cases hready : s.ready with
  | true => exact .running (h.settled hidle hready)
  | false =>
      obtain ⟨interface, hlb⟩ := h.restarted hidle hready
      exact .restarted interface hlb (h.pinned.on ∅)

theorem settled_empty (interface : String) : Settled { interface } CtlMaps.empty where
  consistent :=
    consistent_of_pinned (CtlMaps.empty_pinned.on ∅) interface
      ⟨RealTable.new_wf, fun _ => rfl, fun _ _ => rfl⟩ fun s => by simp [CtlMaps.empty]
  refs_eq a := by simp [RealTable.refsOf, RealTable.entry, holders]
  entry_of_vip s v hv := by simp at hv
  covered s v r hv := by simp at hv
  owned s hs := by simp [CtlMaps.empty] at hs
  counted a e he := by simp [RealTable.entry] at he

theorem init_inv (interface : String) : Inv (init interface) where
  pinned := CtlMaps.empty_pinned
  settled _ _ := settled_empty interface
  restarted _ h := by simp [ready, init] at h
  adopted _ := rfl
  ahead _ _ h := by simp [init] at h

/-- A call made in an idle state: what it will write and leave. -/
theorem Inv.call (h : Inv s) (hidle : s.pending = none) {env : Env} {op : Op}
    (harray : ArrayOk env) (hready : op.isApply = false → s.ready = true) :
    wp (op.run env) (fun d w => OpWrite env op s.lb s.ctl d w)
      (fun _ d' lb' => Effect env op s.lb s.ctl d' lb') (OpFailed s.lb s.ctl) s.ctl s.lb :=
  Op.run_spec harray (h.usable hidle).startable fun hop =>
    (h.settled hidle (hready hop)).consistent

theorem Inv.apply (h : Inv s) (hidle : s.pending = none) (cfg : ValidConfig) {env : Env}
    (harray : ArrayOk env) :
    wp ((Op.apply cfg).run env) (ApplyWrite env cfg.toConfig s.lb s.ctl)
      (fun _ d' lb' => Applied env cfg.toConfig s.lb s.ctl d' lb')
      (ApplyFailed env cfg.toConfig s.lb s.ctl) s.ctl s.lb :=
  apply_spec harray cfg.ok (h.usable hidle).startable

theorem Inv.step {e : Event} (h : Inv s) (hstep : CalmStep e s s') : Inv s' := by
  obtain ⟨hstep, hcalm⟩ := hstep
  cases hstep with
  | call env op _ hidle harray hready =>
      have hspec := h.call hidle harray hready
      have hsettled := fun hop => h.settled hidle (hready hop)
      have heff := hspec.of_ok (hcalm env op rfl)
      refine ⟨h.pinned, by simp, by simp, by simp, ?_⟩
      rintro ws mem hpending
      obtain ⟨rfl, rfl⟩ : _ = ws ∧ _ = mem := by simpa using hpending
      refine ⟨Guarded.keeps ?_ h.pinned, heff.settled (h.usable hidle) hsettled,
        heff.adopted (h.adopted hidle), ?_⟩
      · refine hspec.1.mono fun d w hw hd => pinnedOk_iff.mpr ?_
        exact (hw.pinned (h.usable hidle) hsettled (pinnedOk_iff.mp hd)).mono
          (MapWrite.subset_relied Set.univ w)
      · rw [heff.initialized]
        cases hop : op.isApply with
        | true => rfl
        | false => exact hready hop
  | write _ w ws mem hpending =>
      obtain ⟨hguard, hrest⟩ := h.ahead _ _ hpending
      refine ⟨hguard.1, by simp, by simp, by simp, ?_⟩
      rintro ws' mem' hpending'
      obtain ⟨rfl, rfl⟩ : ws = ws' ∧ mem = mem' := by simpa using hpending'
      exact ⟨hguard.2, hrest⟩
  | finish _ mem hpending =>
      obtain ⟨-, hsettled, hadopted, hready⟩ := h.ahead _ _ hpending
      exact ⟨h.pinned, fun _ _ => hsettled, fun _ hno => by simp [ready, hready] at hno,
        fun _ => hadopted, by simp⟩
  | packet x p _ => exact ⟨h.pinned, h.settled, h.restarted, h.adopted, h.ahead⟩
  | evict k _ => exact ⟨h.pinned, h.settled, h.restarted, h.adopted, h.ahead⟩
  | restart interface _ =>
      exact ⟨h.pinned, fun _ hready => by simp [ready] at hready, fun _ _ => ⟨interface, rfl⟩,
        fun _ => rfl, by simp⟩

/-! ## Between operations -/

/-- A condition on model and maps that holds between operations, and will hold when the one
under way has ended. -/
structure Between (P : CtlMaps → LbState → Prop) (s : System) : Prop where
  idle : s.pending = none → P s.ctl s.lb
  coming : ∀ ws mem, s.pending = some (ws, mem) → P (replay s.ctl ws) mem

/-- What the operations that return keep, and every new daemon satisfies, holds between them. -/
theorem Between.step {P : CtlMaps → LbState → Prop} {e : Event} (h : Between P s)
    (hstep : CalmStep e s s')
    (hcall : ∀ env op, e = .call env op → s.pending = none → ArrayOk env →
      (op.isApply = false → s.ready = true) → (op.run env s.ctl s.lb).res = .ok () →
      P s.ctl s.lb → P (replay s.ctl (op.run env s.ctl s.lb).log) (op.run env s.ctl s.lb).mem)
    (hnew : ∀ d interface, P d { interface }) : Between P s' := by
  obtain ⟨hstep, hcalm⟩ := hstep
  cases hstep with
  | call env op _ hidle henv hready =>
      refine ⟨nofun, ?_⟩
      rintro ws mem ⟨⟩
      exact hcall env op rfl hidle henv hready (hcalm env op rfl) (h.idle hidle)
  | write _ w ws mem hpending =>
      refine ⟨nofun, ?_⟩
      rintro ws' mem' ⟨⟩
      exact h.coming (w :: ws) mem hpending
  | finish _ mem hpending => exact ⟨fun _ => h.coming [] mem hpending, nofun⟩
  | packet x p _ => exact ⟨h.idle, h.coming⟩
  | evict k _ => exact ⟨h.idle, h.coming⟩
  | restart interface _ => exact ⟨fun _ => hnew _ interface, nofun⟩

/-- Every reachable state satisfies the invariant. -/
theorem Reachable.inv (h : Reachable s) : Inv s := by
  obtain ⟨interface, es, hrun⟩ := h
  exact hrun.invariant (I := fun _ s => Inv s) (init_inv interface)
    fun _ _ _ _ _ _ hI hstep => hI.step hstep

/-! ## Whole operations -/

/-- A kernel in which every call succeeds and no neighbour is known. -/
def quietEnv : Env where
  macLookup _ _ _ := none
  epochMs := 0
  interfaceMac := some Mac.zero
  fault _ := none
  ringFault _ := none

theorem quietEnv_healthy : Healthy quietEnv := ⟨fun _ => rfl, fun _ => rfl, rfl⟩

theorem Calm.of_ne {e : Event} (h : ∀ env op, e ≠ .call env op) : Calm e s :=
  fun env op heq => absurd heq (h env op)

theorem Reachable.step {e : Event} (h : Reachable s) (hstep : CalmStep e s s') :
    Reachable s' := by
  obtain ⟨interface, es, hrun⟩ := h
  exact ⟨interface, es ++ [e], hrun.snoc hstep⟩

theorem Reachable.init (interface : String) : Reachable (init interface) :=
  ⟨interface, [], rfl⟩

theorem Reachable.restart (h : Reachable s) (interface : String) :
    Reachable { s with lb := { interface }, fresh := false, pending := none } :=
  h.step ⟨.restart interface s, .of_ne (by simp)⟩

theorem Reachable.land (h : Reachable s) {ws : List MapWrite} {mem : LbState}
    (hpending : s.pending = some (ws, mem)) :
    ∃ s', Reachable s' ∧ s'.ctl = replay s.ctl ws ∧ s'.lb = mem ∧ s'.fresh = s.fresh ∧
      s'.dp.conntrack = s.dp.conntrack ∧ s'.pending = none := by
  induction ws generalizing s with
  | nil =>
      exact ⟨_, h.step ⟨.finish s mem hpending, .of_ne (by simp)⟩, rfl, rfl, rfl, rfl, rfl⟩
  | cons w ws ih =>
      obtain ⟨s', hs', hctl, hlb, hfresh, hct, hidle⟩ :=
        ih (h.step ⟨.write s w ws mem hpending, .of_ne (by simp)⟩) rfl
      exact ⟨s', hs', hctl, hlb, hfresh, hct.trans (DpMaps.reset_conntrack _ w), hidle⟩

theorem Reachable.complete (h : Reachable s) (hidle : s.pending = none) (op : Op) {env : Env}
    (harray : ArrayOk env) (hready : op.isApply = false → s.ready = true)
    (hok : (op.run env s.ctl s.lb).res = .ok ()) :
    ∃ s', Reachable s' ∧ s'.ctl = replay s.ctl (op.run env s.ctl s.lb).log ∧
      s'.lb = (op.run env s.ctl s.lb).mem ∧ s'.fresh = s.fresh ∧
      s'.dp.conntrack = s.dp.conntrack ∧ s'.pending = none := by
  have hcalm : Calm (.call env op) s := by
    rintro env' op' heq
    cases heq
    exact hok
  exact (h.step ⟨.call env op s hidle harray hready, hcalm⟩).land rfl

end System

end PacketBalance
