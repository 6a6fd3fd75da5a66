import PacketBalance.Lib.Census
import PacketBalance.Lib.Strto
/-!
# The connection checker

`class Runner` of `tools/conncheck/conncheck.cpp`: one thread that holds many connections, with
what the system calls return as input.  Times are in milliseconds.  The file descriptor of a
connection is only ever tested for being open.  Counters are unbounded here, and the one that
is also counted down may be negative: that it never is, and that none exceeds the number of
connections, is part of what is proved.
-/

namespace PacketBalance.Conncheck

open Lines (idxOf?_eq_some_iff)

/-! ## State -/

/-- `State`; `opened` is `Open`. -/
inductive ConnState where
  | idle
  | connecting
  | opened
  | broken
  | connectFailed
deriving DecidableEq, Repr

inductive Cause where
  | rst
  | eof
  | timeout
  | wrongBackend
deriving DecidableEq, Repr

structure Conn where
  fd : Bool := false
  state : ConnState := .idle
  backend : Int := -1
  connectStart : Int := 0
  hbSentAt : Int := 0
  nextHb : Int := 0
  seq : UInt64 := 0
  input : List Char := []
deriving DecidableEq, Repr

structure Options where
  heartbeatMs : Int := 100
  durationS : Nat := 40
  connectRate : Int := 5000
  rampMs : Int := 100
  timeoutMs : Int := 2000
  connectTimeoutMs : Int := 5000

abbrev ByCause := Cause → Nat

def ByCause.bump (row : ByCause) (cause : Cause) : ByCause :=
  Function.update row cause (row cause + 1)

def ByCause.total (row : ByCause) : Nat :=
  ([Cause.rst, .eof, .timeout, .wrongBackend].map row).sum

structure Runner (n : Nat) where
  conns : Fin n → Conn
  t0 : Int
  pendingConnects : Int
  established : Nat
  connectFailed : Nat
  connectFailReasons : Tally Nat
  broken : ByCause
  brokenByBackend : Tally Int
  timeline : List ByCause

def Runner.start (n : Nat) (o : Options) (t0 : Int) : Runner n where
  conns _ := {}
  t0 := t0
  pendingConnects := 0
  established := 0
  connectFailed := 0
  connectFailReasons := []
  broken _ := 0
  brokenByBackend := []
  timeline := List.replicate (o.durationS + 2) fun _ => 0

/-! ## What the system calls return -/

def econnreset : Nat := 104
def epipe : Nat := 32
def econnrefused : Nat := 111
def etimedout : Nat := 110

/-- `send` of one heartbeat. -/
inductive SendResult where
  | sent
  | short
  | wouldBlock
  | failed (err : Nat)
deriving DecidableEq, Repr

/-- `socket` and `connect`; a connection that is made at once sends its first heartbeat. -/
inductive ConnectCalls where
  | noSocket (err : Nat)
  | failed (err : Nat)
  | inProgress
  | connected (first : SendResult)
deriving DecidableEq, Repr

/-- The call of `recv` that ends the loop of `handle_event`. -/
inductive LastRecv where
  | eof
  | wouldBlock
  | failed (err : Nat)
deriving DecidableEq, Repr

/-- What is asked of the socket of an event. -/
structure Event where
  out : Bool := false
  inp : Bool := false
  err : Bool := false
  hup : Bool := false
  /-- `SO_ERROR` while the connection is being made. -/
  connectError : Nat := 0
  /-- The first heartbeat of a connection that has just been made. -/
  first : SendResult := .sent
  /-- The calls of `recv` before the last one; an interrupted one gives nothing. -/
  received : List (List Char) := []
  last : LastRecv := .wouldBlock
  /-- `SO_ERROR` after `EPOLLERR`. -/
  socketError : Nat := 0

namespace Runner

variable {n : Nat} (o : Options) (s : Runner n) (i : Fin n) (now : Int)

def setConn (c : Conn) : Runner n := { s with conns := Function.update s.conns i c }

/-! ## Transitions -/

def failConnect (err : Nat) : Runner n :=
  let pending :=
    if (s.conns i).state = .connecting then s.pendingConnects - 1 else s.pendingConnects
  { s.setConn i { s.conns i with state := .connectFailed, fd := false } with
    pendingConnects := pending
    connectFailed := s.connectFailed + 1
    connectFailReasons := s.connectFailReasons.bump err }

def second : Nat :=
  let sec := (max 0 ((now - s.t0).tdiv 1000)).toNat
  if sec ≥ s.timeline.length then s.timeline.length - 1 else sec

def breakConn (cause : Cause) : Runner n :=
  if (s.conns i).state ≠ .opened then s
  else
    { s.setConn i { s.conns i with state := .broken, fd := false } with
      timeline := s.timeline.modify (s.second now) (·.bump cause)
      broken := s.broken.bump cause
      brokenByBackend := s.brokenByBackend.bump (s.conns i).backend }

def causeForErrno (err : Nat) : Cause :=
  if err = econnreset ∨ err = epipe ∨ err = econnrefused then .rst else .timeout

/-- `++c.seq`, and the time of the heartbeat unless it could not be sent. -/
def sendHeartbeat (result : SendResult) : Runner n :=
  let c := { s.conns i with seq := (s.conns i).seq + 1 }
  match result with
  | .sent | .wouldBlock | .short => s.setConn i { c with hbSentAt := now }
  | .failed err => (s.setConn i c).breakConn i now (causeForErrno err)

def onConnected (first : SendResult) : Runner n :=
  if (s.conns i).state ≠ .connecting then s
  else
    sendHeartbeat
      { s.setConn i { s.conns i with state := .opened, nextHb := now } with
        pendingConnects := s.pendingConnects - 1
        established := s.established + 1 }
      i now first

/-- `start_connect` up to the call of `on_connected`. -/
def beginConnect : Runner n :=
  { s.setConn i { s.conns i with fd := true, connectStart := now, state := .connecting } with
    pendingConnects := s.pendingConnects + 1 }

def startConnect (calls : ConnectCalls) : Runner n :=
  match calls with
  | .noSocket err => s.failConnect i err
  | .failed err =>
      (s.setConn i { s.conns i with fd := true, connectStart := now }).failConnect i err
  | .inProgress => s.beginConnect i now
  | .connected first => (s.beginConnect i now).onConnected i now first

/-! ## Replies -/

/-- `atoi`, where no number reads as 0.  The language leaves open what a number gives that is no
`int`; the C library has the low 32 bits of what `strtol` makes of it. -/
def atoi (s : List Char) : Int :=
  let n := ((Strto.subject s).map Strto.Numeral.signed).getD 0
  (max (-2 ^ 63) (min n (2 ^ 63 - 1))).bmod (2 ^ 32)

/-- The loop of `consume_lines`, on the connection alone; the second part says that a reply
came from another backend. -/
def lineLoop (c : Conn) : Conn × Bool :=
  if c.state ≠ .opened then (c, false)
  else
    match h : c.input.idxOf? '\n' with
    | none => (c, false)
    | some pos =>
        let line := c.input.take pos
        let rest := c.input.drop (pos + 1)
        if line.take 3 ≠ ['i', 'd', '='] then lineLoop { c with input := rest }
        else
          let id := atoi (line.drop 3)
          let answered := { c with input := rest, hbSentAt := 0, nextHb := now + o.heartbeatMs }
          if c.backend < 0 then lineLoop { answered with backend := id }
          else if id ≠ c.backend then (answered, true)
          else lineLoop answered
termination_by c.input.length
decreasing_by all_goals
  obtain ⟨a, b, hinput, -, rfl⟩ := idxOf?_eq_some_iff.mp h
  simp only [hinput, List.length_drop, List.length_append, List.length_cons]
  omega

def consumeLines : Runner n :=
  let (c, wrong) := lineLoop o now (s.conns i)
  if wrong ∨ c.input.length > 4096 then (s.setConn i c).breakConn i now .wrongBackend
  else s.setConn i c

/-! ## Events and timers -/

/-- `handle_event` on a connection that is being made. -/
def connectEvent (ev : Event) : Runner n :=
  if ev.connectError ≠ 0 then s.failConnect i ev.connectError
  else if ev.out ∨ ev.inp then s.onConnected i now ev.first
  else if ev.err ∨ ev.hup then s.failConnect i econnrefused
  else s

/-- `handle_event` on an open connection: everything there is to receive, and then what the
last call of `recv` said. -/
def receive (ev : Event) : Runner n :=
  let s := (s.setConn i
    { s.conns i with input := (s.conns i).input ++ ev.received.flatten }).consumeLines o i now
  match ev.last with
  | .eof => s.breakConn i now .eof
  | .failed err => s.breakConn i now (causeForErrno err)
  | .wouldBlock =>
      if ev.err then
        s.breakConn i now
          (causeForErrno (if ev.socketError ≠ 0 then ev.socketError else econnreset))
      else s

def handleEvent (ev : Event) : Runner n :=
  let s := if (s.conns i).state = .connecting then s.connectEvent i now ev else s
  if (s.conns i).state ≠ .opened then s else s.receive o i now ev

/-- The body of the loop of `scan`. -/
def scanConn (result : SendResult) : Runner n :=
  let c := s.conns i
  match c.state with
  | .connecting =>
      if now - c.connectStart > o.connectTimeoutMs then s.failConnect i etimedout else s
  | .opened =>
      if c.hbSentAt ≠ 0 then
        if now - c.hbSentAt > o.timeoutMs then s.breakConn i now .timeout else s
      else if now ≥ c.nextHb then s.sendHeartbeat i now result
      else s
  | _ => s

def scan (results : Fin n → SendResult) : Runner n :=
  (List.finRange n).foldl (fun s i => s.scanConn o i now (results i)) s

/-! ## The report -/

def allHaveBackend : Bool :=
  (List.finRange n).all fun i => (s.conns i).state ≠ .opened || 0 ≤ (s.conns i).backend

def takeSnapshot : Tally Int :=
  (List.finRange n).foldl
    (fun out i =>
      if (s.conns i).state = .opened then Tally.bump (s.conns i).backend out else out) []

def brokenTotal : Nat := s.broken.total

end Runner

/-- The figures of the report that count connections. -/
structure Report where
  established : Nat
  connectFailed : Nat
  broken : Nat
  survived : Nat
deriving DecidableEq, Repr

def Runner.report {n : Nat} (s : Runner n) : Report where
  established := s.established
  connectFailed := s.connectFailed
  broken := s.brokenTotal
  survived := Tally.total s.takeSnapshot

/-! ## The run -/

/-- The local variables of `run`. -/
structure Loop (n : Nat) where
  runner : Runner n
  nextIdx : Nat := 0
  batches : Int := 0
  nextBatch : Int
  nextScan : Int
  startCounts : Option (Tally Int) := none

/-- One turn of the loop of `run`: the times before and after `epoll_wait`, the events it
returned, and what the system calls of the turn return. -/
structure Turn (n : Nat) where
  now : Int
  calls : Fin n → ConnectCalls
  events : List (Fin n × Event)
  later : Int
  results : Fin n → SendResult

section Run

variable {n : Nat} (o : Options)

def connectDue (due : Nat) (t : Turn n) (s : Runner n) (nextIdx : Nat) : Runner n × Nat :=
  if h : nextIdx < n ∧ nextIdx < due then
    connectDue due t (s.startConnect ⟨nextIdx, h.1⟩ t.now (t.calls ⟨nextIdx, h.1⟩)) (nextIdx + 1)
  else (s, nextIdx)
termination_by n - nextIdx

def Loop.ramp (l : Loop n) (t : Turn n) : Loop n :=
  if l.nextIdx < n ∧ t.now ≥ l.nextBatch then
    let due := (max 1 ((o.connectRate * (l.batches + 1) * o.rampMs).tdiv 1000)).toNat
    { l with
      runner := (connectDue due t l.runner l.nextIdx).1
      nextIdx := (connectDue due t l.runner l.nextIdx).2
      batches := l.batches + 1
      nextBatch := l.nextBatch + o.rampMs }
  else l

/-- The snapshot that is taken once every connect is resolved. -/
def Loop.snapshot (l : Loop n) : Loop n :=
  if l.startCounts.isNone ∧ l.nextIdx = n ∧ l.runner.pendingConnects = 0 ∧
      l.runner.allHaveBackend then
    { l with startCounts := some l.runner.takeSnapshot }
  else l

def Loop.turn (l : Loop n) (t : Turn n) : Loop n :=
  let l := (l.ramp o t).snapshot
  let s := t.events.foldl (fun s e => s.handleEvent o e.1 t.later e.2) l.runner
  if t.later ≥ l.nextScan then
    { l with runner := s.scan o t.later t.results, nextScan := t.later + 5 }
  else { l with runner := s }

def Loop.start (n : Nat) (o : Options) (t0 : Int) : Loop n where
  runner := .start n o t0
  nextBatch := t0
  nextScan := t0

def run (n : Nat) (t0 : Int) (turns : List (Turn n)) : Loop n :=
  turns.foldl (Loop.turn o) (.start n o t0)

end Run

end PacketBalance.Conncheck
