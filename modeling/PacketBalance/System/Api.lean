import PacketBalance.LbState.Defined
import PacketBalance.Pbctl.Grammar
import PacketBalance.System.Serving
/-!
# API sessions

Whatever lines clients send, a request either fails before it has touched anything, or runs the
one operation it names and reports how that went.  So a session is a run of operations, and
whatever holds along those holds along sessions; and no request reaches undefined behaviour.
-/

namespace PacketBalance

open WriteLog LbState

namespace Commands

/-! ## Programs that run one operation -/

section Prog

variable {α β : Type}

theorem bind_pure_apply (m : LbM α) (f : α → β) (d : CtlMaps) (lb : LbState) :
    (m >>= fun a => pure (f a)) d lb =
      ⟨(m d lb).log, (m d lb).mem, (m d lb).res.map f⟩ := by
  cases hres : (m d lb).res with
  | error e => simp [bind, hres, Except.map]
  | ok a => simp [bind, hres, Except.map, pure]

end Prog

/-- The program does what the operation does, and ends as it does. -/
def Runs (env : Env) (op : Op) (m : LbM Answer) : Prop :=
  ∃ f : CtlMaps → LbState → Answer, ∀ d lb, m d lb =
    ⟨(op.run env d lb).log, (op.run env d lb).mem, (op.run env d lb).res.map fun _ => f d lb⟩

theorem bind_unit (m : LbM Unit) : m = m >>= fun _ => pure () := by
  funext d lb
  rw [bind_pure_apply]
  cases hres : (m d lb).res with
  | error err => simp only [Except.map, ← hres]
  | ok u => simp only [Except.map, ← hres]

theorem Runs.call {env : Env} {α : Type} (op : Op) {m : LbM α}
    (hop : op.run env = m >>= fun _ => pure ()) (g : α → Answer) :
    Runs env op (m >>= fun a => pure (g a)) := by
  refine ⟨fun d lb => match (m d lb).res with
    | .ok a => g a
    | .error _ => { result := .null }, fun d lb => ?_⟩
  rw [hop, bind_pure_apply, bind_pure_apply]
  cases hres : (m d lb).res with
  | error err => rfl
  | ok a => simp only [Except.map, hres]

/-- The program runs at most one operation: it answers or fails without any, or it ends as the
operation does. -/
inductive AtMost (env : Env) (m : LbM Answer) : Prop
  | quiet (hquiet : ∀ d lb, (m d lb).log = [] ∧ (m d lb).mem = lb ∧
      (m d lb).res ≠ .error .undefined)
  | runs (op : Op) (hrun : Runs env op m)

namespace AtMost

variable {env : Env} {α : Type}

theorem answer (a : Answer) : AtMost env (pure a) :=
  .quiet fun _ _ => ⟨rfl, rfl, fun h => by cases h⟩

theorem reject {err : LbError} (herr : err ≠ .undefined) : AtMost env (throw err) :=
  .quiet fun _ _ => ⟨rfl, rfl, fun h => herr (Except.error.inj h)⟩

theorem check {x : Except String α} {k : α → LbM Answer} (h : ∀ a, AtMost env (k a)) :
    AtMost env (Commands.check x >>= k) := by
  cases x with
  | error text => exact .reject LbError.noConfusion
  | ok a => exact h a

theorem ite {c : Prop} [Decidable c] {m m' : LbM Answer} (hm : AtMost env m)
    (hm' : AtMost env m') : AtMost env (if c then m else m') := by
  split
  · exact hm
  · exact hm'

theorem call (op : Op) {m : LbM α} (hop : op.run env = m >>= fun _ => pure ()) (g : α → Answer) :
    AtMost env (m >>= fun a => pure (g a)) :=
  .runs op (.call op hop g)

end AtMost

/-- The operation's outcome is reported as it is. -/
structure Reports (env : Env) (op : Op) (d : CtlMaps) (lb : LbState)
    (out : Outcome MapWrite LbState LbError Answer) : Prop where
  log : out.log = (op.run env d lb).log
  mem : out.mem = (op.run env d lb).mem
  ok : (op.run env d lb).res = .ok () →
    ∃ answer result, out.res = .ok answer ∧ answer.result = okResponse result
  error : ∀ err, (op.run env d lb).res = .error err →
    out.res = .ok { result := errorResponse err.what }

/-- How a line is answered: without touching anything, or as the operation ends that the request
has run. -/
inductive Handled (env : Env) (d : CtlMaps) (lb : LbState)
    (out : Outcome MapWrite LbState LbError Answer) : Prop
  | untouched (a : Answer) (hout : out = ⟨[], lb, .ok a⟩)
      (hshape : (∃ result, a.result = okResponse result) ∨
        ∃ text, a.result = errorResponse text)
  | ran (op : Op) (hop : Reports env op d lb out)

theorem tryCatch_ok {m : LbM Answer} {d : CtlMaps} {lb : LbState} {a : Answer}
    (hres : (m d lb).res = .ok a) (f : LbError → LbM Answer) :
    (tryCatch m f : LbM Answer) d lb = ⟨(m d lb).log, (m d lb).mem, .ok a⟩ := by
  simp only [tryCatch, tryCatchThe, MonadExceptOf.tryCatch, hres]

theorem tryCatch_report {m : LbM Answer} {d : CtlMaps} {lb : LbState} {err : LbError}
    (hres : (m d lb).res = .error err) (hne : err ≠ .undefined) :
    (tryCatch m report : LbM Answer) d lb =
      ⟨(m d lb).log, (m d lb).mem, .ok { result := errorResponse err.what }⟩ := by
  simp only [tryCatch, tryCatchThe, MonadExceptOf.tryCatch, hres]
  cases err with
  | undefined => exact absurd rfl hne
  | api text => simp [report, pure]
  | runtime text => simp [report, pure]
  | invalidArgument text => simp [report, pure]
  | logic text => simp [report, pure]

theorem handleLine_object {h : Host} {req : Json} (hobj : req.isObject = true) :
    handleLine h (.ok req) = tryCatch (dispatch h req >>= fun a =>
      pure { a with result := okResponse a.result }) report := by
  rw [handleLine, hobj]
  rfl

theorem Runs.reports {h : Host} {req : Json} {op : Op} {d : CtlMaps} {lb : LbState}
    (hrun : Runs h.env op (dispatch h req)) (hobj : req.isObject = true)
    (hdef : (op.run h.env d lb).res ≠ .error .undefined) :
    Reports h.env op d lb (handleLine h (.ok req) d lb) := by
  obtain ⟨f, hrun⟩ := hrun
  have hbody := bind_pure_apply (dispatch h req)
    (fun a => { a with result := okResponse a.result }) d lb
  rw [hrun] at hbody
  cases hres : (op.run h.env d lb).res with
  | ok u =>
    rw [handleLine_object hobj, tryCatch_ok (by rw [hbody, hres]; rfl), hbody]
    exact ⟨rfl, rfl, fun _ => ⟨_, _, rfl, rfl⟩,
      fun err herr => absurd (hres.symm.trans herr) (by simp)⟩
  | error err =>
    rw [handleLine_object hobj,
      tryCatch_report (by rw [hbody, hres]; rfl) fun heq => hdef (by rw [hres, heq]), hbody]
    refine ⟨rfl, rfl, fun hok => absurd (hres.symm.trans hok) (by simp), fun err' herr => ?_⟩
    rw [Except.error.inj (hres.symm.trans herr)]

theorem Reports.answered {env : Env} {op : Op} {d : CtlMaps} {lb : LbState}
    {out : Outcome MapWrite LbState LbError Answer} (h : Reports env op d lb out) :
    ∃ answer, out.res = .ok answer := by
  cases hres : (op.run env d lb).res with
  | ok u =>
    obtain ⟨answer, -, hout, -⟩ := h.ok hres
    exact ⟨answer, hout⟩
  | error err => exact ⟨_, h.error err hres⟩

theorem Handled.answered {env : Env} {d : CtlMaps} {lb : LbState}
    {out : Outcome MapWrite LbState LbError Answer} (h : Handled env d lb out) :
    ∃ answer, out.res = .ok answer := by
  cases h with
  | untouched a hout _ => exact ⟨a, by rw [hout]⟩
  | ran op hop => exact hop.answered

end Commands

/-! ## Operations from the command line -/

/-- The operations that `pbctl` can name: those of the API, for a VIP that has a text and a
weight that fits its type. -/
def Op.Spoken : Op → Prop
  | .addVip vip _ | .delVip vip | .delReal vip _ | .setDraining vip _ _ => vip.Writable .little
  | .addReal vip _ weight | .setWeight vip _ weight =>
      vip.Writable .little ∧ weight < 0x100000000
  | .apply _ | .reportHealth .. | .neighborResolved .. => False

namespace Pbctl

open Commands

/-- The text `VipSpec::str` writes. -/
def VipText.ofSpec (vip : VipSpec) (h : vip.Writable .little) : VipText :=
  ⟨vip.strOn .little, vip, h.parse_strOn⟩

theorem uint32_ofNat (name : String) {n : Nat} (h : n < 0x100000000) :
    Command.uint32 name (UInt64.ofNat n) = .ok n := by
  have hn : (UInt64.ofNat n).toNat = n := by
    rw [UInt64.toNat_ofNat']
    omega
  rw [Command.uint32, hn, if_pos h]

theorem Command.runs {c : Command} (act : Action) (hact : c.action = some act) {op : Op}
    {h : Host} (hruns : Runs h.env op (act.run h)) : Runs h.env op (dispatch h c.request) := by
  rwa [c.dispatch_request h, c.run_action hact h]

theorem exists_command {op : Op} (hop : op.Spoken) : ∃ c : Command,
    (∀ a ∈ c.addrs, IsPlain a) ∧ ∀ h, Runs h.env op (dispatch h c.request) := by
  have hplain : ∀ addr : UInt32, ∀ a ∈ [ipv4ToString addr], IsPlain a := by
    intro addr a ha
    rw [List.mem_singleton.mp ha]
    exact isPlain_ipv4ToString addr
  cases op with
  | apply _ | reportHealth | neighborResolved => cases hop
  | addVip vip noConntrack =>
    exact ⟨.vipAdd (.ofSpec vip hop) noConntrack, by simp [Command.addrs],
      fun h => Command.runs _ rfl (.call (.addVip vip noConntrack) rfl _)⟩
  | delVip vip =>
    exact ⟨.vipDel (.ofSpec vip hop), by simp [Command.addrs],
      fun h => Command.runs _ rfl (.call (.delVip vip) (bind_unit _) _)⟩
  | addReal vip addr weight =>
    refine ⟨.realAdd (.ofSpec vip hop.1) (ipv4ToString addr) (some (.ofNat weight)), hplain addr,
      fun h => Command.runs (.realAdd vip addr weight) ?_
        (.call (.addReal vip addr weight) rfl _)⟩
    rw [Command.action, parseIpv4_ipv4ToString, Option.elim_some, uint32_ofNat _ hop.2]
    rfl
  | delReal vip addr =>
    refine ⟨.realDel (.ofSpec vip hop) (ipv4ToString addr), hplain addr,
      fun h => Command.runs (.realDel vip addr) ?_
        (.call (.delReal vip addr) (bind_unit _) _)⟩
    rw [Command.action, parseIpv4_ipv4ToString]
    rfl
  | setWeight vip addr weight =>
    refine ⟨.realWeight (.ofSpec vip hop.1) (ipv4ToString addr) (.ofNat weight), hplain addr,
      fun h => Command.runs (.realWeight vip addr weight) ?_
        (.call (.setWeight vip addr weight) (bind_unit _) _)⟩
    rw [Command.action, parseIpv4_ipv4ToString, uint32_ofNat _ hop.2]
    rfl
  | setDraining vip addr draining =>
    refine ⟨.realDrain (.ofSpec vip hop) (ipv4ToString addr) draining, hplain addr,
      fun h => Command.runs (.realDrain vip addr draining) ?_
        (.call (.setDraining vip addr draining) (bind_unit _) _)⟩
    rw [Command.action, parseIpv4_ipv4ToString]
    rfl

end Pbctl

/-! ## Sessions -/

theorem Live.defined {lb : LbState} {d : CtlMaps} (hl : Live lb d) {env : Env}
    (henv : ArrayOk env) (op : Op) : (op.run env d lb).res ≠ .error .undefined := by
  intro hres
  have hdef : Defined (op.run env) d lb :=
    Op.run_defined henv (.running hl.consistent) fun _ => hl.consistent
  exact hdef.of_error hres rfl

namespace Serving

open Commands

/-- A client's line is handled and answered, or another thread runs an operation. -/
inductive Event where
  | line (h : Host) (line : Except JsonError Json) (answer : Answer)
  | call (env : Env) (op : Op)

variable {s s' : Serving}

/-- For each operation of the API there are words that make `pbctl` send a request which, in every
state a serving daemon reaches, is answered as the operation ends and has its effect. -/
theorem operation_has_command_line {op : Op} (hop : op.Spoken) (pbctlSocket : Option String) :
    ∃ argv g req, Pbctl.invocation pbctlSocket argv = .ok (g, req) ∧
      ∀ (s : Serving) (h : Host), s.Reachable → ArrayOk h.env →
        Reports h.env op s.ctl s.lb (handleLine h (.ok req) s.ctl s.lb) := by
  obtain ⟨c, hplain, hruns⟩ := Pbctl.exists_command hop
  obtain ⟨g, hg⟩ := c.exists_invocation hplain pbctlSocket
  exact ⟨c.words, g, c.request, hg, fun s h hs henv =>
    (hruns h).reports c.isObject_request (hs.live.defined henv op)⟩

theorem operation_has_command_line_sample :
    ∃ argv g req, Pbctl.invocation none argv = .ok (g, req) ∧
      ∀ (s : Serving) (h : Host), s.Reachable → ArrayOk h.env →
        Reports h.env (.addReal Pbctl.sampleVip.spec 0x0200000a 3) s.ctl s.lb
          (handleLine h (.ok req) s.ctl s.lb) := by
  have hop : (Op.addReal Pbctl.sampleVip.spec 0x0200000a 3).Spoken :=
    ⟨⟨by decide, by decide, by decide⟩, by decide⟩
  exact operation_has_command_line hop none

/-- A daemon on one CPU whose reads all find the state `s`. -/
def sampleHost (s : Serving) : Host where
  order := .rightToLeft
  env := System.quietEnv
  reader := ⟨1, 1⟩
  loaded := .error "cannot open config file"
  config := .null
  lbAt _ := s.lb
  dpAt _ := .empty
  rowsAt _ _ := []
  ringAt _ := .ok []
  now := 1

end Serving

end PacketBalance
