import PacketBalance.ApiServer
import PacketBalance.Lib.Prog
import Mathlib.Logic.Function.Basic
/-!
# The threads of the control socket

`ApiServer` of `src/daemon/api_server.cpp` with all of its threads: the one that accepts, one for
every connection, and the one that calls `stop`.  Each is cut at its system calls, its accesses
to what is shared and its waiting for the mutex or for another thread, and a call of the handler
wherever it holds no mutex of its own; these steps come in any order.  A descriptor number is
free again once it is closed, for this server as for the rest of the daemon.

`harm` records what must not happen: a system call on a descriptor that is not that of the
connection it is meant for, a `Client` that is used after it was destroyed, a thread object that
is destroyed before the thread was joined.
-/

namespace PacketBalance.ApiServer

/-! ## The loop of one connection -/

/-- `handler_`.  A call runs in parts, between which the other threads run.  It holds no mutex
from one part to the next, so that none of them has to wait for another call, and it returns. -/
structure Handler (σ τ : Type) where
  /-- What there is to do for a line. -/
  start : List UInt8 → τ
  /-- The next part of it: what remains after it, or the answer. -/
  part : τ → σ → (τ ⊕ List UInt8) × σ
  left : τ → Nat
  left_lt : ∀ task app task' app', part task app = (.inl task', app') → left task' < left task

/-- Where the thread of a connection is: in `serve`, with a request and what remains to be done
for it, or with what is left of a reply (the last one if the connection is to be given up), or
behind it.  From `closing` on it holds the mutex. -/
inductive Pc (τ : Type) where
  | check
  | recv
  | scan
  | handle (line : List UInt8) (task : τ)
  | send (data : List UInt8) (last : Bool)
  | leave
  | closing
  | marking
  | exited
deriving DecidableEq, Repr

/-- `fd` and `buf` are those of `serve`; `rcvd` and `sent` are what has gone through the
connection so far. -/
structure Thread (τ : Type) where
  pc : Pc τ := .check
  fd : Nat
  buf : List UInt8 := []
  rcvd : List UInt8 := []
  sent : List UInt8 := []
deriving DecidableEq, Repr

/-- What stands behind a step: the surroundings, a signal, a call that may have to wait for the
peer, or the server alone. -/
inductive Kind where
  | outside
  | interrupted
  | sending
  | prompt
deriving DecidableEq, Repr

def Kind.Own : Kind → Prop
  | .outside | .interrupted => False
  | .sending | .prompt => True

/-- A part of a call: the request, what there was to do for it, and the state that was met. -/
structure Part (σ τ : Type) where
  line : List UInt8
  task : τ
  app : σ
deriving DecidableEq, Repr

/-- What the thread of a connection works on: the bytes that have arrived, the daemon's state,
which is shared, and its own variables. -/
structure Local (σ τ : Type) where
  inbox : List UInt8
  app : σ
  thread : Thread τ

variable {σ τ : Type}

def Local.goto (x : Local σ τ) (pc : Pc τ) : Local σ τ := { x with thread := { x.thread with pc } }

/-- A step of `serve`, or of the handler called in it.  The connection is `cut` once the peer has
closed it or `shutdown` was called. -/
inductive Loop (handler : Handler σ τ) (stopping cut : Bool) :
    Kind → Local σ τ → Local σ τ → List (Part σ τ) → Prop
  | again (x : Local σ τ) (hpc : x.thread.pc = .check) (hrun : stopping = false) :
      Loop handler stopping cut .prompt x (x.goto .recv) []
  | stop (x : Local σ τ) (hpc : x.thread.pc = .check) (hstop : stopping = true) :
      Loop handler stopping cut .prompt x (x.goto .leave) []
  | recv (x : Local σ τ) (chunk rest : List UInt8) (hpc : x.thread.pc = .recv)
      (hne : chunk ≠ []) (hle : chunk.length ≤ 4096) (hin : x.inbox = chunk ++ rest) :
      Loop handler stopping cut .prompt x { x with
        inbox := rest
        thread := { x.thread with
          pc := .scan
          buf := x.thread.buf ++ chunk
          rcvd := x.thread.rcvd ++ chunk } } []
  | recvInterrupted (x : Local σ τ) (hpc : x.thread.pc = .recv) :
      Loop handler stopping cut .interrupted x (x.goto .check) []
  | recvEnd (x : Local σ τ) (hpc : x.thread.pc = .recv) (hin : x.inbox = []) (hcut : cut = true) :
      Loop handler stopping cut .prompt x (x.goto .leave) []
  | recvFailed (x : Local σ τ) (hpc : x.thread.pc = .recv) (hcut : cut = true) :
      Loop handler stopping cut .prompt x (x.goto .leave) []
  | more (x : Local σ τ) (hpc : x.thread.pc = .scan) (hnone : newline ∉ x.thread.buf)
      (hlen : x.thread.buf.length ≤ kMaxRequestBytes) :
      Loop handler stopping cut .prompt x (x.goto .check) []
  | tooLarge (x : Local σ τ) (hpc : x.thread.pc = .scan) (hnone : newline ∉ x.thread.buf)
      (hlen : kMaxRequestBytes < x.thread.buf.length) :
      Loop handler stopping cut .prompt x (x.goto (.send requestTooLarge true)) []
  | line (x : Local σ τ) (l rest : List UInt8) (hpc : x.thread.pc = .scan)
      (hbuf : x.thread.buf = l ++ newline :: rest) (hl : newline ∉ l) :
      Loop handler stopping cut .prompt x { x with
        thread := { x.thread with
          pc := if dropCr l = [] then .scan else .handle (dropCr l) (handler.start (dropCr l))
          buf := rest } } []
  | handle (x : Local σ τ) (l : List UInt8) (task task' : τ) (app' : σ)
      (hpc : x.thread.pc = .handle l task)
      (hpart : handler.part task x.app = (.inl task', app')) :
      Loop handler stopping cut .prompt x { x with
        app := app'
        thread := { x.thread with pc := .handle l task' } } [⟨l, task, x.app⟩]
  | answer (x : Local σ τ) (l : List UInt8) (task : τ) (reply : List UInt8) (app' : σ)
      (hpc : x.thread.pc = .handle l task)
      (hpart : handler.part task x.app = (.inr reply, app')) :
      Loop handler stopping cut .prompt x { x with
        app := app'
        thread := { x.thread with pc := .send (reply ++ [newline]) false } } [⟨l, task, x.app⟩]
  | send (x : Local σ τ) (data : List UInt8) (last : Bool) (n : Nat)
      (hpc : x.thread.pc = .send data last) (hpos : 1 ≤ n) (hn : n ≤ data.length) :
      Loop handler stopping cut .sending x { x with
        thread := { x.thread with
          pc := .send (data.drop n) last
          sent := x.thread.sent ++ data.take n } } []
  | sendInterrupted (x : Local σ τ) (data : List UInt8) (last : Bool)
      (hpc : x.thread.pc = .send data last) : Loop handler stopping cut .interrupted x x []
  | sendFailed (x : Local σ τ) (data : List UInt8) (last : Bool)
      (hpc : x.thread.pc = .send data last) (hne : data ≠ []) (hcut : cut = true) :
      Loop handler stopping cut .prompt x (x.goto .leave) []
  | sendDone (x : Local σ τ) (last : Bool) (hpc : x.thread.pc = .send [] last) :
      Loop handler stopping cut .prompt x (x.goto (if last then .leave else .scan)) []

/-! ## The server -/

/-- An element of `clients_`; `id` says which connection it is, and `joined` that its thread
object may be destroyed. -/
structure Client where
  id : Nat
  fd : Option Nat
  done : Bool := false
  joined : Bool := false
deriving DecidableEq, Repr

def Client.markDone (id : Nat) (c : Client) : Client :=
  if c.id = id then { c with fd := none, done := true } else c

/-- Where the acceptor is; from `lock` on it has a new connection, and in `reap` the mutex. -/
inductive Acceptor where
  | check
  | poll
  | accept
  | lock (fd id : Nat)
  | reap (i fd id : Nat)
  | exited
deriving DecidableEq, Repr

/-- Where `stop` is; in `shut` it holds the mutex. -/
inductive Stopper where
  | idle
  | joinAcceptor
  | lock
  | shut (i : Nat)
  | join (i : Nat)
  | stopped
deriving DecidableEq, Repr

/-- Who holds `clients_mu_`. -/
inductive Holder where
  | acceptor
  | worker (id : Nat)
  | stopper
deriving DecidableEq, Repr

inductive Socket where
  | connection (id : Nat)
  | foreign
deriving DecidableEq, Repr

/-- What the daemon's state has been through: a part of a call, for the connection that made it,
or a change by the rest of the daemon. -/
inductive Event (σ τ : Type) where
  | part (id : Nat) (p : Part σ τ)
  | other (app : σ)
deriving DecidableEq, Repr

/-- The server, its connections and the descriptors of the process. -/
structure Server (σ τ : Type) where
  app : σ
  log : List (Event σ τ) := []
  stopping : Bool := false
  mutex : Option Holder := none
  clients : List Client := []
  threads : Nat → Option (Thread τ) := fun _ => none
  acceptor : Acceptor := .check
  stopper : Stopper := .idle
  listening : Bool := true
  socketFile : Bool := true
  next : Nat := 0
  table : Nat → Option Socket := fun _ => none
  inbox : Nat → List UInt8 := fun _ => []
  closed : Nat → Bool := fun _ => false
  down : Nat → Bool := fun _ => false
  harm : Bool := false

/-- Whether the next step in `serve` is a system call. -/
def Pc.calls : Pc τ → Bool
  | .recv | .send .. => true
  | _ => false

def Pc.critical : Pc τ → Bool
  | .closing | .marking => true
  | _ => false

def Pc.isOpen : Pc τ → Bool
  | .marking | .exited => false
  | _ => true

def Acceptor.pending : Acceptor → Option (Nat × Nat)
  | .lock fd id | .reap _ fd id => some (fd, id)
  | _ => none

def Acceptor.reaping : Acceptor → Bool
  | .reap .. => true
  | _ => false

def Stopper.shutting : Stopper → Bool
  | .shut _ => true
  | _ => false

/-- Whether `stop` has joined the acceptor. -/
def Stopper.joined : Stopper → Bool
  | .idle | .joinAcceptor => false
  | _ => true

namespace Server

def cut (s : Server σ τ) (id : Nat) : Bool := s.closed id || s.down id

def stray (s : Server σ τ) (fd id : Nat) : Bool := decide (s.table fd ≠ some (.connection id))

def goto (s : Server σ τ) (id : Nat) (t : Thread τ) (pc : Pc τ) : Server σ τ :=
  { s with threads := Function.update s.threads id (some { t with pc }) }

/-- A step of `serve`. -/
def served (s : Server σ τ) (id : Nat) (t : Thread τ) (x : Local σ τ) (parts : List (Part σ τ)) :
    Server σ τ :=
  { s with
    app := x.app
    log := s.log ++ parts.map (.part id)
    threads := Function.update s.threads id (some x.thread)
    inbox := Function.update s.inbox id x.inbox
    harm := s.harm || (t.pc.calls && s.stray t.fd id) }

/-- `::close(c.fd)` -/
def closeFd (s : Server σ τ) (id : Nat) : Server σ τ :=
  match s.clients.find? (·.id = id) with
  | some ⟨_, some fd, _, _⟩ =>
      { s with table := Function.update s.table fd none, harm := s.harm || s.stray fd id }
  | _ => { s with harm := true }

/-- `c.fd = -1; c.done = true` -/
def markDone (s : Server σ τ) (id : Nat) : Server σ τ :=
  { s with
    clients := s.clients.map (Client.markDone id)
    harm := s.harm || !s.clients.any (·.id = id) }

/-- `::shutdown(c.fd, SHUT_RDWR)`; nothing happens for the descriptor -1. -/
def shutdown (s : Server σ τ) (c : Client) : Server σ τ :=
  match c.fd with
  | none => s
  | some fd =>
      { s with
        down :=
          match s.table fd with
          | some (.connection id) => Function.update s.down id true
          | _ => s.down
        harm := s.harm || s.stray fd c.id }

def Exited (s : Server σ τ) (id : Nat) : Prop := ∃ t, s.threads id = some t ∧ t.pc = .exited

inductive Step (handler : Handler σ τ) : Kind → Server σ τ → Server σ τ → Prop
  -- the peers and the rest of the daemon
  | peerSend (s : Server σ τ) (id : Nat) (bytes : List UInt8) :
      Step handler .outside s
        { s with inbox := Function.update s.inbox id (s.inbox id ++ bytes) }
  | peerClose (s : Server σ τ) (id : Nat) :
      Step handler .outside s { s with closed := Function.update s.closed id true }
  | foreignOpen (s : Server σ τ) (fd : Nat) (hfree : s.table fd = none) :
      Step handler .outside s { s with table := Function.update s.table fd (some .foreign) }
  | foreignClose (s : Server σ τ) (fd : Nat) (hopen : s.table fd = some .foreign) :
      Step handler .outside s { s with table := Function.update s.table fd none }
  | elsewhere (s : Server σ τ) (app : σ) :
      Step handler .outside s { s with app, log := s.log ++ [.other app] }
  -- `accept_loop`
  | acceptCheck (s : Server σ τ) (hpc : s.acceptor = .check) :
      Step handler .prompt s { s with acceptor := if s.stopping then .exited else .poll }
  | pollIdle (s : Server σ τ) (hpc : s.acceptor = .poll) :
      Step handler .prompt s { s with acceptor := .check }
  | pollReady (s : Server σ τ) (hpc : s.acceptor = .poll) :
      Step handler .prompt s { s with acceptor := .accept }
  | acceptFailed (s : Server σ τ) (hpc : s.acceptor = .accept) :
      Step handler .prompt s { s with acceptor := .check }
  | accept (s : Server σ τ) (fd : Nat) (hpc : s.acceptor = .accept) (hfree : s.table fd = none) :
      Step handler .prompt s { s with
        acceptor := .lock fd s.next
        table := Function.update s.table fd (some (.connection s.next))
        next := s.next + 1 }
  | acceptLock (s : Server σ τ) (fd id : Nat) (hpc : s.acceptor = .lock fd id)
      (hmutex : s.mutex = none) :
      Step handler .prompt s { s with acceptor := .reap 0 fd id, mutex := some .acceptor }
  | reapSkip (s : Server σ τ) (i fd id : Nat) (c : Client) (hpc : s.acceptor = .reap i fd id)
      (hc : s.clients[i]? = some c) (hdone : c.done = false) :
      Step handler .prompt s { s with acceptor := .reap (i + 1) fd id }
  | reapJoin (s : Server σ τ) (fd id : Nat) (before after : List Client) (c : Client)
      (hclients : s.clients = before ++ c :: after) (hpc : s.acceptor = .reap before.length fd id)
      (hdone : c.done = true) (hexited : s.Exited c.id) :
      Step handler .prompt s { s with clients := before ++ after }
  | spawn (s : Server σ τ) (i fd id : Nat) (hpc : s.acceptor = .reap i fd id)
      (hend : s.clients.length ≤ i) :
      Step handler .prompt s { s with
        clients := s.clients ++ [{ id, fd := some fd }]
        threads := Function.update s.threads id (some { fd })
        acceptor := .check
        mutex := none }
  -- the thread of a connection
  | serve (k : Kind) (s : Server σ τ) (id : Nat) (t : Thread τ) (x : Local σ τ)
      (parts : List (Part σ τ)) (ht : s.threads id = some t)
      (hloop : Loop handler s.stopping (s.cut id) k ⟨s.inbox id, s.app, t⟩ x parts) :
      Step handler k s (s.served id t x parts)
  | leave (s : Server σ τ) (id : Nat) (t : Thread τ) (ht : s.threads id = some t)
      (hpc : t.pc = .leave) (hmutex : s.mutex = none) :
      Step handler .prompt s { s.goto id t .closing with mutex := some (.worker id) }
  | close (s : Server σ τ) (id : Nat) (t : Thread τ) (ht : s.threads id = some t)
      (hpc : t.pc = .closing) :
      Step handler .prompt s ((s.closeFd id).goto id t .marking)
  | mark (s : Server σ τ) (id : Nat) (t : Thread τ) (ht : s.threads id = some t)
      (hpc : t.pc = .marking) :
      Step handler .prompt s { (s.markDone id).goto id t .exited with mutex := none }
  -- `stop`
  | stop (s : Server σ τ) (hpc : s.stopper = .idle) :
      Step handler .prompt s { s with stopper := .joinAcceptor, stopping := true }
  | joinAcceptor (s : Server σ τ) (hpc : s.stopper = .joinAcceptor)
      (hexited : s.acceptor = .exited) :
      Step handler .prompt s { s with stopper := .lock }
  | stopLock (s : Server σ τ) (hpc : s.stopper = .lock) (hmutex : s.mutex = none) :
      Step handler .prompt s { s with stopper := .shut 0, mutex := some .stopper }
  | shut (s : Server σ τ) (i : Nat) (c : Client) (hpc : s.stopper = .shut i)
      (hc : s.clients[i]? = some c) :
      Step handler .prompt s { s.shutdown c with stopper := .shut (i + 1) }
  | shutEnd (s : Server σ τ) (i : Nat) (hpc : s.stopper = .shut i) (hend : s.clients.length ≤ i) :
      Step handler .prompt s { s with stopper := .join 0, mutex := none }
  | join (s : Server σ τ) (before after : List Client) (c : Client)
      (hclients : s.clients = before ++ c :: after) (hpc : s.stopper = .join before.length)
      (hexited : s.Exited c.id) :
      Step handler .prompt s { s with
        clients := before ++ { c with joined := true } :: after
        stopper := .join (before.length + 1) }
  | clear (s : Server σ τ) (i : Nat) (hpc : s.stopper = .join i) (hend : s.clients.length ≤ i) :
      Step handler .prompt s { s with
        clients := []
        listening := false
        socketFile := if s.listening then false else s.socketFile
        stopper := .stopped
        harm := s.harm || !s.clients.all (·.joined) }

/-- The states of the runs from a start with the listening socket bound. -/
def Reachable (handler : Handler σ τ) (s : Server σ τ) : Prop :=
  ∃ app ks, WriteLog.Path (Step handler) ks { app } s

end Server

end PacketBalance.ApiServer
