import PacketBalance.Lib.Lines
/-!
# The control socket

`ApiServer::serve` of `src/daemon/api_server.cpp`, the loop of one connection.  What the system
calls return is input: the turns of the outer loop carry what `recv` gave and whether the server
was stopping, and a connection knows how each call of `write_all` ends.  The handler may keep
state of its own.  On streams whose lines keep to the limit, the replies depend on the bytes
of the stream alone and not on the packets they came in.
-/

namespace PacketBalance.ApiServer

open Lines

def newline : UInt8 := 10

def carriageReturn : UInt8 := 13

def kMaxRequestBytes : Nat := 1 <<< 20

def requestTooLarge : List UInt8 :=
  "\x7b\"ok\":false,\"error\":\"request too large\"\x7d\n".toList.map fun c => UInt8.ofNat c.toNat

/-! ## One connection -/

/-- What one call of `recv` comes back with; no bytes at the end of the stream. -/
inductive Recv where
  | data (chunk : List UInt8)
  | interrupted
  | failed
deriving DecidableEq, Repr

structure Turn where
  stopping : Bool := false
  recv : Recv
deriving DecidableEq, Repr

structure Conn (σ : Type) where
  /-- The answer to a line, given the state of the daemon, which it may change. -/
  handler : σ → List UInt8 → List UInt8 × σ
  /-- How the calls of `write_all` end, one after the other: with everything sent, or with an
  error after some bytes. -/
  writeError : Nat → Option Nat

/-- The daemon's state, what the client has been sent, and the calls of `write_all` so far. -/
structure Session (σ : Type) where
  app : σ
  sent : List UInt8 := []
  writes : Nat := 0

/-- How `serve` stands: in its loop, or returned from where. -/
inductive Status where
  | serving
  | stopped
  | disconnected
  | writeFailed
  | tooLarge
deriving DecidableEq, Repr

variable {σ : Type} (C : Conn σ)

def Conn.writeAll (x : Session σ) (data : List UInt8) : Session σ :=
  { x with
    sent := x.sent ++ (match C.writeError x.writes with | none => data | some n => data.take n)
    writes := x.writes + 1 }

def Conn.answer (x : Session σ) (line : List UInt8) : Session σ :=
  C.writeAll { x with app := (C.handler x.app line).2 } ((C.handler x.app line).1 ++ [newline])

def dropCr (line : List UInt8) : List UInt8 :=
  if line.getLast? = some carriageReturn then line.dropLast else line

/-- The inner loop of `serve`: the session, what is left in the buffer, and whether every
reply could be sent. -/
def drain (x : Session σ) (buf : List UInt8) : (Session σ × List UInt8) × Bool :=
  match h : buf.idxOf? newline with
  | none => ((x, buf), true)
  | some nl =>
      let line := dropCr (buf.take nl)
      let rest := buf.drop (nl + 1)
      if line = [] then drain x rest
      else if (C.writeError x.writes).isSome then ((C.answer x line, rest), false)
      else drain (C.answer x line) rest
termination_by buf.length
decreasing_by all_goals
  obtain ⟨a, b, rfl, -, rfl⟩ := idxOf?_eq_some_iff.mp h
  simp only [List.length_drop, List.length_append, List.length_cons]
  omega

def serveTurn (x : Session σ) (buf : List UInt8) (t : Turn) :
    (Session σ × List UInt8) × Status :=
  if t.stopping then ((x, buf), .stopped)
  else
    match t.recv with
    | .interrupted => ((x, buf), .serving)
    | .failed => ((x, buf), .disconnected)
    | .data chunk =>
        if chunk = [] then ((x, buf), .disconnected)
        else
          match drain C x (buf ++ chunk) with
          | (loop, false) => (loop, .writeFailed)
          | ((x, buf), true) =>
              if buf.length > kMaxRequestBytes then
                ((C.writeAll x requestTooLarge, buf), .tooLarge)
              else ((x, buf), .serving)

def serve (x : Session σ) (buf : List UInt8) : List Turn → (Session σ × List UInt8) × Status
  | [] => ((x, buf), .serving)
  | t :: turns =>
      match serveTurn C x buf t with
      | ((x, buf), .serving) => serve x buf turns
      | r => r

/-! ## The requests of a stream -/

/-- What the handler is asked: the terminated lines without their carriage return, those
that are not empty then. -/
def requests (s : List UInt8) : List (List UInt8) :=
  ((lines newline s).map dropCr).filter (· ≠ [])

def replies (handler : σ → List UInt8 → List UInt8 × σ) : σ → List (List UInt8) → List UInt8
  | _, [] => []
  | app, line :: rest =>
      (handler app line).1 ++ [newline] ++ replies handler (handler app line).2 rest

theorem requests_append (s s' : List UInt8) :
    requests (s ++ s') = requests s ++ requests (tail newline s ++ s') := by
  rw [requests, lines_append, List.map_append, List.filter_append]
  rfl

theorem requests_line {l : List UInt8} (h : newline ∉ l) (s : List UInt8) :
    requests (l ++ newline :: s) =
      (if dropCr l = [] then [] else [dropCr l]) ++ requests s := by
  rw [requests, lines_line h, List.map_cons, List.filter_cons]
  by_cases hl : dropCr l = [] <;> simp [hl, requests]

/-! ## The loops -/

section Writing

variable {C} (hok : ∀ k, C.writeError k = none)
include hok

theorem sent_foldl_answer (reqs : List (List UInt8)) (x : Session σ) :
    (reqs.foldl C.answer x).sent = x.sent ++ replies C.handler x.app reqs := by
  induction reqs generalizing x with
  | nil => simp [replies]
  | cons line reqs ih =>
      rw [List.foldl_cons, ih, replies]
      simp [Conn.answer, Conn.writeAll, hok]

/-- The inner loop answers the lines of the buffer and leaves the tail. -/
theorem drain_eq (x : Session σ) (buf : List UInt8) :
    drain C x buf = (((requests buf).foldl C.answer x, tail newline buf), true) := by
  fun_induction drain C x buf with
  | case1 x buf h =>
      have hsplit := split_of_notMem (List.idxOf?_eq_none_iff.mp h)
      simp [requests, lines, tail, hsplit]
  | case2 x buf nl h line rest hline ih =>
      obtain ⟨l, b, rfl, hl, rfl⟩ := idxOf?_eq_some_iff.mp h
      have hrest : rest = b := by simp [rest]
      have hempty : dropCr l = [] := by simpa [line] using hline
      rw [ih, hrest, requests_line hl, tail_line hl, if_pos hempty, List.nil_append]
  | case3 x buf nl h line rest hline hfail => simp [hok] at hfail
  | case4 x buf nl h line rest hline hfail ih =>
      obtain ⟨l, b, rfl, hl, rfl⟩ := idxOf?_eq_some_iff.mp h
      have hrest : rest = b := by simp [rest]
      have hdrop : line = dropCr l := by simp [line]
      rw [ih, hrest, requests_line hl, tail_line hl, ← hdrop, if_neg hline, List.singleton_append,
        List.foldl_cons]

end Writing

def Turn.bytes (t : Turn) : List UInt8 :=
  match t.recv with
  | .data chunk => chunk
  | _ => []

/-- The server is not stopping, and `recv` gives 1 to 4096 bytes or is interrupted. -/
structure Turn.Delivers (t : Turn) : Prop where
  running : t.stopping = false
  recv : t.recv = .interrupted ∨ ∃ chunk, t.recv = .data chunk ∧ 1 ≤ chunk.length ∧
    chunk.length ≤ 4096

def stream (turns : List Turn) : List UInt8 := turns.flatMap Turn.bytes

theorem serve_append (x : Session σ) (buf : List UInt8) (turns turns' : List Turn) :
    serve C x buf (turns ++ turns') =
      match serve C x buf turns with
      | ((x, buf), .serving) => serve C x buf turns'
      | r => r := by
  induction turns generalizing x buf with
  | nil => rfl
  | cons t turns ih =>
      rw [List.cons_append, serve, serve]
      obtain ⟨⟨x, buf⟩, status⟩ := serveTurn C x buf t
      cases status with
      | serving => exact ih x buf
      | stopped => rfl
      | disconnected => rfl
      | writeFailed => rfl
      | tooLarge => rfl

section Serving

variable {C} (hok : ∀ k, C.writeError k = none)
include hok

theorem serveTurn_eq {x : Session σ} {buf : List UInt8} {t : Turn} {s : List UInt8}
    (ht : t.Delivers) (hbuf : newline ∉ buf)
    (hshort : Short newline kMaxRequestBytes (buf ++ t.bytes ++ s)) :
    serveTurn C x buf t =
      (((requests (buf ++ t.bytes)).foldl C.answer x, tail newline (buf ++ t.bytes)),
        .serving) := by
  rw [serveTurn, if_neg (by simp [ht.running])]
  rcases ht.recv with hrecv | ⟨chunk, hrecv, hpos, -⟩
  · have hsplit := split_of_notMem hbuf
    simp [hrecv, Turn.bytes, requests, lines, tail, hsplit]
  · have hne : chunk ≠ [] := by
      rintro rfl
      simp at hpos
    have hbytes : t.bytes = chunk := by rw [Turn.bytes, hrecv]
    have hlimit := hshort.length_tail_le
    rw [hbytes] at hlimit ⊢
    simp only [hrecv, if_neg hne, drain_eq hok]
    rw [if_neg (by omega)]

/-- The outer loop answers the requests of everything it was given, and keeps the tail. -/
theorem serve_eq {turns : List Turn} (hturns : ∀ t ∈ turns, t.Delivers) {x : Session σ}
    {buf : List UInt8} (hbuf : newline ∉ buf)
    (hshort : Short newline kMaxRequestBytes (buf ++ stream turns)) :
    serve C x buf turns =
      (((requests (buf ++ stream turns)).foldl C.answer x, tail newline (buf ++ stream turns)),
        .serving) := by
  induction turns generalizing x buf with
  | nil =>
      have hsplit := split_of_notMem hbuf
      simp [serve, stream, requests, lines, tail, hsplit]
  | cons t turns ih =>
      obtain ⟨ht, hturns⟩ := List.forall_mem_cons.mp hturns
      have hstream : stream (t :: turns) = t.bytes ++ stream turns := rfl
      rw [hstream, ← List.append_assoc] at hshort ⊢
      simp only [serve, serveTurn_eq hok ht hbuf hshort]
      rw [ih hturns (notMem_tail _ _) hshort.of_append, requests_append (buf ++ t.bytes),
        List.foldl_append, ← tail_append]

end Serving

/-- Framing does not depend on packet boundaries: whatever turns a stream comes in, the client
is sent one reply line for each request of the stream, in order, and nothing for the tail;
the limit is never met.  That the client then closes the connection changes nothing. -/
theorem framing (C : Conn σ) (app : σ) (turns : List Turn) (hok : ∀ k, C.writeError k = none)
    (hturns : ∀ t ∈ turns, t.Delivers)
    (hshort : Short newline kMaxRequestBytes (stream turns)) :
    (serve C { app } [] turns).1.1.sent = replies C.handler app (requests (stream turns)) ∧
    (serve C { app } [] turns).2 = .serving ∧
    (serve C { app } [] (turns ++ [{ recv := .data [] }])).1.1.sent =
      replies C.handler app (requests (stream turns)) ∧
    (serve C { app } [] (turns ++ [{ recv := .data [] }])).2 = .disconnected := by
  have hserve := @serve_eq σ C hok turns hturns { app } [] (by simp) (by simpa using hshort)
  have hsent := sent_foldl_answer hok (requests (stream turns)) { app }
  rw [List.nil_append] at hserve hsent
  have hclose : serve C { app } [] (turns ++ [{ recv := .data [] }]) =
      (((requests (stream turns)).foldl C.answer { app }, tail newline (stream turns)),
        .disconnected) := by
    rw [serve_append, hserve]
    rfl
  rw [hclose, hserve]
  exact ⟨hsent, rfl, hsent, rfl⟩

/-- Two requests in three packets, one of them cut between its carriage return and its
newline, to a handler that repeats what it is asked. -/
theorem framing_sample :
    (serve (σ := Unit) ⟨fun app line => (line, app), fun _ => none⟩ { app := () } []
      [{ recv := .data [97, 13] }, { recv := .interrupted }, { recv := .data [10, 10, 98] },
        { recv := .data [10, 99] }]).1.1.sent = [97, 10, 98, 10] := by
  refine (framing ⟨fun app line => (line, app), fun _ => none⟩ () _ (fun _ => rfl) ?_ ?_).1
  · simp only [List.mem_cons, List.not_mem_nil, or_false]
    rintro t (rfl | rfl | rfl | rfl)
    · exact ⟨rfl, Or.inr ⟨_, rfl, by decide, by decide⟩⟩
    · exact ⟨rfl, Or.inl rfl⟩
    · exact ⟨rfl, Or.inr ⟨_, rfl, by decide, by decide⟩⟩
    · exact ⟨rfl, Or.inr ⟨_, rfl, by decide, by decide⟩⟩
  · exact ⟨by decide, by decide⟩

end PacketBalance.ApiServer
