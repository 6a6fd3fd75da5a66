import PacketBalance.Operation
import PacketBalance.RealTable.Slots
/-!
# The real table under every operation

A condition that survives the changes of single slots survives every operation, if the
MACs that the operation passes to the table are ones that the condition allows: what the
neighbour table answers for a member that is added, and what the resolver reports.
-/

namespace PacketBalance

open WriteLog Std LbState RealTable

variable {given : UInt32 → Mac → Prop} {P : CtlMaps → RealTable → Prop}
variable {hop : Option UInt32} {K : VipSpec → UInt32 → Prop} {env : Env} {d : CtlMaps}
variable {lb : LbState}

def KeepingAt (hop : Option UInt32) (P : CtlMaps → RealTable → Prop) (d : CtlMaps)
    (lb : LbState) : Prop :=
  lb.nextHop = hop ∧ Keeping P d lb.reals

namespace KeepingAt

theorem onReals {α : Type} {m : TableM α} (h : Preserves (Keeping P) m) :
    Preserves (KeepingAt hop P) (LbState.onReals m) := by
  rintro d lb ⟨hhop, hk⟩
  rw [LbState.onReals, wp_zoom]
  exact wp_mono (h d lb.reals hk) (fun _ _ hw => hw) (fun _ _ _ hk' => ⟨hhop, hk'⟩)
    fun _ _ _ hk' => ⟨hhop, hk'⟩

theorem write (hP : SlotClosed given P) (h : KeepingAt hop P d lb) {w : MapWrite}
    (hw : w.ofTable = false) : KeepingAt hop P (Durable.write d w) lb :=
  ⟨h.1, h.2.congr hP (write_arrays hw d).1 (write_arrays hw d).2⟩

theorem closed (hP : SlotClosed given P) (henv : ArrayOk env)
    (hask : ∀ spec a mac, K spec a → env.macLookup spec a (hop.getD a) = some mac →
      given a mac.mac) : Closed env K (KeepingAt hop P) where
  edit h _ _ := h
  tick h := h
  join _ h _ _ _ := h
  leave h _ _ := h
  enter _ _ _ h := h
  remove h _ := h
  ids _ h := h
  other h hw := write hP h hw
  acquire a := onReals (hP.preserves_acquire henv a)
  release a := onReals (hP.preserves_release henv a)
  ask {spec a} hK := by
    rintro d lb ⟨hhop, hk⟩
    simp only [askNeighbor, wp_bind, wp_get, wp_ite, wp_pure]
    refine ⟨fun _ => ⟨hhop, hk⟩, fun _ => ?_⟩
    subst hhop
    cases hans : env.macLookup spec a (lb.nextHop.getD a) with
    | none => exact (wp_pure _).mpr ⟨rfl, hk⟩
    | some mac =>
        have hset : Preserves (KeepingAt lb.nextHop P) _ :=
          onReals (hP.preserves_setMac henv (hask spec a mac hK hans))
        exact (hset.bind fun _ => .of_pure ()) d lb ⟨rfl, hk⟩

theorem preserves_neighborResolved (hP : SlotClosed given P) (henv : ArrayOk env)
    (hI : Closed env K (KeepingAt hop P)) {ip : UInt32} {mac : NeighMac}
    (hgiven : ∀ a, hop.getD a = ip → given a mac.mac) :
    Preserves (KeepingAt hop P) (neighborResolved env ip mac) := by
  refine hI.preserves_neighborResolved fun d lb hk => ?_
  refine (Preserves.fold fun a ha newly => ?_) d lb hk
  refine Preserves.of_get.bind fun _ => (onReals (hP.preserves_setMac henv (hgiven a ?_))).bind
    fun _ => .of_pure _
  -- an answer is taken for the next hop, or for the address itself
  unfold resolvedAddrs at ha
  rw [hk.1] at ha
  split at ha
  · split_ifs at ha with hip
    · exact hip.symm
    · cases ha
  · exact List.mem_singleton.mp ha

theorem preserves_run (hP : SlotClosed given P) (henv : ArrayOk env) {op : Op}
    (happly : op.isApply = false)
    (hask : ∀ spec a mac, op.Adds spec a → env.macLookup spec a (hop.getD a) = some mac →
      given a mac.mac)
    (hresolved : ∀ ip mac, op = .neighborResolved ip mac → ∀ a, hop.getD a = ip →
      given a mac.mac) : Preserves (KeepingAt hop P) (op.run env) := by
  have hI : Closed env op.Adds (KeepingAt hop P) := closed hP henv hask
  refine hI.preserves_run ?_ ?_ ?_
  · rintro cfg rfl
    cases happly
  · rintro t r rise fall rfl
    exact hI.preserves_reportHealth (fun _ _ _ _ h => h) t r rise fall
  · rintro ip mac rfl
    exact preserves_neighborResolved hP henv hI (hresolved ip mac rfl)

theorem wp_apply (hP : SlotClosed given P) (henv : ArrayOk env) {cfg : Config} (hok : cfg.Ok)
    (hask : ∀ spec a mac, Lists cfg spec a →
      env.macLookup spec a (cfg.nextHopBe.getD a) = some mac → given a mac.mac)
    {E : CtlMaps → LbState → Prop} (hE : ∀ d lb, KeepingAt cfg.nextHopBe P d lb → E d lb)
    (hopen : wp (Prog.when (!lb.initialized) adoptLocked >>= fun _ => writeConfigMap env cfg)
      (fun _ _ => True) (fun _ d lb => Keeping P d lb.reals) (fun _ => E) d lb) :
    wp (LbState.apply env cfg) (fun _ _ => True) (fun _ => KeepingAt cfg.nextHopBe P)
      (fun _ => E) d lb :=
  (closed hP henv hask).wp_apply hok (onReals (hP.preserves_dropUnreferenced henv))
    (fun _ _ h => h) hE (wp_imp hopen fun _ _ _ hk => ⟨rfl, hk⟩)

/-- A first `apply` reads the arrays; otherwise the table is as it was. -/
theorem wp_opening (hP : SlotClosed given P) (cfg : Config)
    (hrunning : lb.initialized = true → Keeping P d lb.reals)
    (hfirst : lb.initialized = false → wp RealTable.adopt (fun _ _ => True)
      (fun _ d' t' => d' = d ∧ Keeping P d t') (fun _ _ _ => False) d lb.reals) :
    wp (Prog.when (!lb.initialized) adoptLocked >>= fun _ => writeConfigMap env cfg)
      (fun _ _ => True) (fun _ d lb => Keeping P d lb.reals) (fun _ _ _ => True) d lb := by
  have hwrite : Preserves (fun d lb => Keeping P d lb.reals) (writeConfigMap env cfg) :=
    Closed.preserves_writeConfigMap (fun h hw => h.congr hP (write_arrays hw _).1
      (write_arrays hw _).2) cfg
  have hend : ∀ d lb, Keeping P d lb.reals → wp (writeConfigMap env cfg) (fun _ _ => True)
      (fun _ d lb => Keeping P d lb.reals) (fun _ _ _ => True) d lb := fun d lb hk =>
    wp_mono (hwrite d lb hk) (fun _ _ hw => hw) (fun _ _ _ h => h) fun _ _ _ _ => trivial
  cases hinit : lb.initialized with
  | true =>
      simp only [Bool.not_true, Prog.when, Bool.false_eq_true, if_false, wp_bind, wp_pure]
      exact hend d lb (hrunning hinit)
  | false =>
      simp only [adoptLocked, LbState.onReals, Bool.not_false, Prog.when, if_true, wp_bind,
        wp_zoom, wp_durable, wp_modify]
      refine wp_mono (hfirst hinit) (fun _ _ hw => hw) ?_ (fun _ _ _ h => h.elim)
      rintro _ d' t ⟨rfl, hk⟩
      exact hend _ _ hk

end KeepingAt

end PacketBalance
