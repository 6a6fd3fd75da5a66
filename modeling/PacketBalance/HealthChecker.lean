import PacketBalance.Operation
/-!
# Health checker

A round of the checker's thread: the targets are taken from `LbState`, one connection to each
is begun, one `poll` loop waits for all of them until the deadline, and every result goes to
`report_health` with the parameters read at the beginning.  What the kernel answers is an
input.  `probeAll_eq` says that waiting for all at once gives each target what waiting for
it alone would.
-/

namespace PacketBalance

open LbState

namespace HealthChecker

/-- The error numbers the checker tells apart. -/
inductive Errno where
  | emfile
  | enfile
  | enobufs
  | enomem
  | eaddrnotavail
  | eagain
  | einprogress
  | eintr
  | other (code : Nat)
deriving DecidableEq, Repr

/-- Errors that describe the load balancer, not the real. -/
def isLocal : Errno → Bool
  | .emfile | .enfile | .enobufs | .enomem | .eaddrnotavail | .eagain => true
  | _ => false

/-- What a call of `poll` gives.  For each socket with events, `SO_ERROR`, where `none` is
zero, and the microseconds since its target's turn. -/
inductive Polled where
  | failed (err : Errno)
  | ready (revents : HealthTarget → Option (Option Errno)) (us : HealthTarget → Nat)

/-- What the kernel and the clock answer in one round.  No two targets are equal, so a target
stands for its index.  `socket` and `connect` give the error, if any, and `polls` has the
calls of `poll` until the deadline. -/
structure Kernel where
  strerror : Errno → String
  socket : HealthTarget → Option Errno
  connect : HealthTarget → Option Errno
  connectUs : HealthTarget → Nat
  polls : List Polled
  expiredUs : HealthTarget → Nat

/-- A target's place in the arrays of `probe_all`. -/
structure Slot where
  target : HealthTarget
  result : ProbeResult := {}
  detail : String := ""
  pending : Bool := false

def Slot.finish (s : Slot) (ok : Bool) (detail : String) (us : Nat) : Slot :=
  { s with
    result := { s.result with ok, rttUs := UInt32.ofNat us }
    detail
    pending := false }

/-- `finish` for an error of `socket` or `connect`. -/
def Slot.fail (s : Slot) (err : Errno) (detail : String) (us : Nat) : Slot :=
  let s := s.finish false detail us
  { s with result := { s.result with localError := isLocal err } }

def start (k : Kernel) (t : HealthTarget) : Slot :=
  match k.socket t with
  | some err => Slot.fail ⟨t, {}, "", false⟩ err ("socket: " ++ k.strerror err) (k.connectUs t)
  | none =>
      match k.connect t with
      | none => Slot.finish ⟨t, {}, "", false⟩ true "connected" (k.connectUs t)
      | some .einprogress => ⟨t, {}, "", true⟩
      | some err => Slot.fail ⟨t, {}, "", false⟩ err (k.strerror err) (k.connectUs t)

/-- The end of a handshake, if `poll` has seen it. -/
def Slot.check (k : Kernel) (revents : HealthTarget → Option (Option Errno))
    (us : HealthTarget → Nat) (s : Slot) : Slot :=
  if s.pending then
    match revents s.target with
    | none => s
    | some none => s.finish true "connected" (us s.target)
    | some (some err) => s.finish false (k.strerror err) (us s.target)
  else s

/-- The loop around `poll`; it ends when nothing is pending, at the deadline, or when `poll`
fails otherwise than by a signal. -/
def pollLoop (k : Kernel) : List Polled → List Slot → List Slot
  | [], slots => slots
  | p :: ps, slots =>
      if slots.any Slot.pending then
        match p with
        | .failed err => if err = .eintr then pollLoop k ps slots else slots
        | .ready revents us => pollLoop k ps (slots.map (Slot.check k revents us))
      else slots

def Slot.expire (k : Kernel) (timeoutMs : Nat) (s : Slot) : Slot :=
  if s.pending then
    s.finish false ("timeout after " ++ toString timeoutMs ++ " ms") (k.expiredUs s.target)
  else s

def probeAll (k : Kernel) (timeoutMs : Nat) (targets : List HealthTarget) : List Slot :=
  (pollLoop k k.polls (targets.map (start k))).map (Slot.expire k timeoutMs)

/-- The calls of `report_health` at the end of `step`, in their order. -/
def reports (p : HealthCheckConfig) (slots : List Slot) : List Op :=
  slots.map fun s => .reportHealth s.target s.result (UInt32.ofNat p.rise) (UInt32.ofNat p.fall)

/-- The log line of a round in which probes could not be made, with the first one's detail. -/
def warning (slots : List Slot) : Option String :=
  let failed := slots.filter fun s => s.result.localError
  failed.head?.map fun first =>
    "health: " ++ toString failed.length ++ " of " ++ toString slots.length ++
      " probes could not be made (" ++ first.detail ++
      "); not counted for or against the reals"

def pause (p : HealthCheckConfig) (spentMs : Nat) : Nat :=
  if spentMs < p.intervalMs then p.intervalMs - spentMs else 0

/-- What a round reports, once the targets have been taken. -/
def round (p : HealthCheckConfig) (k : Kernel) (targets : List HealthTarget) : List Op :=
  reports p (probeAll k p.timeoutMs targets)

/-! ## One target alone -/

def wait (k : Kernel) : List Polled → Slot → Slot
  | [], s => s
  | .failed err :: ps, s => if err = .eintr then wait k ps s else s
  | .ready revents us :: ps, s => wait k ps (s.check k revents us)

def probeOne (k : Kernel) (timeoutMs : Nat) (t : HealthTarget) : Slot :=
  (wait k k.polls (start k t)).expire k timeoutMs

section Alone

variable {k : Kernel} {revents : HealthTarget → Option (Option Errno)}
  {us : HealthTarget → Nat} {s : Slot}

theorem Slot.check_of_done (h : s.pending = false) : s.check k revents us = s := by
  simp [Slot.check, h]

theorem wait_of_done (ps : List Polled) (h : s.pending = false) : wait k ps s = s := by
  induction ps with
  | nil => rfl
  | cons p ps ih =>
      cases p with
      | failed err =>
          rw [wait]
          split_ifs
          · exact ih
          · rfl
      | ready revents us => rw [wait, Slot.check_of_done h, ih]

/-- The shared loop does for each target what a loop of its own would do. -/
theorem pollLoop_eq (ps : List Polled) (slots : List Slot) :
    pollLoop k ps slots = slots.map (wait k ps) := by
  induction ps generalizing slots with
  | nil => exact (List.map_id slots).symm
  | cons p ps ih =>
      by_cases hany : slots.any Slot.pending = true
      · cases p with
        | failed err =>
            by_cases herr : err = .eintr
            · simp [pollLoop, wait, hany, herr, ih]
            · simp [pollLoop, wait, hany, herr]
        | ready revents us => simp [pollLoop, wait, hany, ih, List.map_map, Function.comp_def]
      · -- nobody waits: the loop ends, and `wait` would change nobody
        have hdone : ∀ s ∈ slots, s.pending = false := by simpa using hany
        have hsame : slots.map (wait k (p :: ps)) = slots := by
          conv_rhs => rw [← List.map_id slots]
          exact List.map_congr_left fun s hs => wait_of_done (p :: ps) (hdone s hs)
        rw [hsame]
        cases p <;> simp only [pollLoop, if_neg hany]

/-- One slow target does not change what is found out about another. -/
theorem probeAll_eq (k : Kernel) (timeoutMs : Nat) (targets : List HealthTarget) :
    probeAll k timeoutMs targets = targets.map (probeOne k timeoutMs) := by
  rw [probeAll, pollLoop_eq, List.map_map, List.map_map]
  rfl

end Alone

/-! ## What a probe finds out -/

/-- The first thing `poll` says about a target before it fails. -/
def answerTo (t : HealthTarget) : List Polled → Option (Option Errno)
  | [] => none
  | .failed err :: ps => if err = .eintr then answerTo t ps else none
  | .ready revents _ :: ps => (revents t).or (answerTo t ps)

/-- Whether the real has accepted the connection in time; `none` when the probe could not be
made. -/
def Kernel.heard (k : Kernel) (t : HealthTarget) : Option Bool :=
  match (k.socket t).or (k.connect t) with
  | none => some true
  | some err =>
      if k.socket t = none ∧ err = .einprogress then some (answerTo t k.polls = some none)
      else if isLocal err then none
      else some false

def Says (r : ProbeResult) : Option Bool → Prop
  | none => r.localError = true
  | some ok => r.localError = false ∧ r.ok = ok

section Heard

variable {k : Kernel} {t : HealthTarget} {s : Slot}

@[simp] theorem start_target : (start k t).target = t := by
  unfold start
  split
  · rfl
  · split <;> rfl

@[simp] theorem Slot.check_target {revents : HealthTarget → Option (Option Errno)}
    {us : HealthTarget → Nat} : (s.check k revents us).target = s.target := by
  unfold Slot.check
  split_ifs
  · split <;> rfl
  · rfl

@[simp] theorem wait_target (ps : List Polled) : (wait k ps s).target = s.target := by
  induction ps generalizing s with
  | nil => rfl
  | cons p ps ih =>
      cases p with
      | failed err =>
          rw [wait]
          split_ifs
          · exact ih
          · rfl
      | ready revents us => rw [wait, ih, Slot.check_target]

@[simp] theorem Slot.expire_target {timeoutMs : Nat} :
    (s.expire k timeoutMs).target = s.target := by
  unfold Slot.expire
  split_ifs <;> rfl

@[simp] theorem probeOne_target (timeoutMs : Nat) : (probeOne k timeoutMs t).target = t := by
  simp [probeOne]

/-- A handshake under way ends as `poll` says first, and without a word in a timeout. -/
theorem wait_says (ps : List Polled) (timeoutMs : Nat) (hpending : s.pending = true)
    (hlocal : s.result.localError = false) :
    Says ((wait k ps s).expire k timeoutMs).result
      (some (answerTo s.target ps = some none)) := by
  induction ps with
  | nil => simp [wait, Slot.expire, hpending, Slot.finish, Says, hlocal, answerTo]
  | cons p ps ih =>
      cases p with
      | failed err =>
          by_cases herr : err = .eintr
          · simpa [wait, answerTo, herr] using ih
          · simp [wait, answerTo, herr, Slot.expire, hpending, Slot.finish, Says, hlocal]
      | ready revents us =>
          rw [wait]
          cases hans : revents s.target with
          | none => simpa [Slot.check, hpending, hans, answerTo] using ih
          | some err =>
              have hdone : (s.check k revents us).pending = false := by
                cases err <;> simp [Slot.check, hpending, hans, Slot.finish]
              rw [wait_of_done ps hdone, Slot.expire, if_neg (by simp [hdone])]
              cases err <;> simp [Slot.check, hpending, hans, Slot.finish, Says, hlocal, answerTo]

theorem probeOne_says (k : Kernel) (timeoutMs : Nat) (t : HealthTarget) :
    Says (probeOne k timeoutMs t).result (k.heard t) := by
  cases hsock : k.socket t with
  | some err =>
      have hstart : start k t =
          Slot.fail ⟨t, {}, "", false⟩ err ("socket: " ++ k.strerror err) (k.connectUs t) := by
        simp [start, hsock]
      rw [probeOne, hstart, wait_of_done _ rfl, Kernel.heard]
      cases hlocal : isLocal err <;>
        simp [hsock, Slot.expire, Slot.fail, Slot.finish, Says, hlocal]
  | none =>
      cases hconn : k.connect t with
      | none =>
          have hstart : start k t =
              Slot.finish ⟨t, {}, "", false⟩ true "connected" (k.connectUs t) := by
            simp [start, hsock, hconn]
          rw [probeOne, hstart, wait_of_done _ rfl, Kernel.heard]
          simp [hsock, hconn, Slot.expire, Slot.finish, Says]
      | some err =>
          by_cases herr : err = .einprogress
          · have hstart : start k t = ⟨t, {}, "", true⟩ := by
              simp [start, hsock, hconn, herr]
            rw [probeOne, hstart, Kernel.heard]
            simpa [hsock, hconn, herr] using
              wait_says (k := k) (s := ⟨t, {}, "", true⟩) k.polls timeoutMs rfl rfl
          · have hstart : start k t =
                Slot.fail ⟨t, {}, "", false⟩ err (k.strerror err) (k.connectUs t) := by
              unfold start
              rw [hsock]
              dsimp only
              rw [hconn]
              cases err <;> first | rfl | exact absurd rfl herr
            rw [probeOne, hstart, wait_of_done _ rfl, Kernel.heard]
            cases hlocal : isLocal err <;>
              simp [hsock, hconn, herr, Slot.expire, Slot.fail, Slot.finish, Says, hlocal]

theorem round_eq (p : HealthCheckConfig) (k : Kernel) (targets : List HealthTarget) :
    round p k targets = targets.map fun t => .reportHealth t (probeOne k p.timeoutMs t).result
      (UInt32.ofNat p.rise) (UInt32.ofNat p.fall) := by
  rw [round, reports, probeAll_eq, List.map_map]
  exact List.map_congr_left fun t _ => by simp

end Heard

end HealthChecker

end PacketBalance
