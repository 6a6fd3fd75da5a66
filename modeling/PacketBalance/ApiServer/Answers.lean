import PacketBalance.ApiServer.Ownership
/-!
# Every connection gets its own answers

The connections share the daemon, and the parts of their calls are interleaved with each other
and with what the rest of the daemon does.  Whatever the order, the calls of one connection come
one after the other, each from its start to its end; and what the connection has been sent are
the answers to its own lines, in the order it sent them, each whole before the next.
-/

namespace PacketBalance.ApiServer

open Lines

variable {σ τ : Type}

/-! ## The handler alone -/

section Handler

variable (handler : Handler σ τ)

def Handler.finish (task : τ) (app : σ) : List UInt8 × σ :=
  match _hpart : handler.part task app with
  | (.inl task', app') => Handler.finish task' app'
  | (.inr reply, app') => (reply, app')
termination_by handler.left task
decreasing_by exact handler.left_lt _ _ _ _ _hpart

def Handler.run (app : σ) (line : List UInt8) : List UInt8 × σ :=
  handler.finish (handler.start line) app

variable {handler}

theorem Handler.finish_inl {task task' : τ} {app app' : σ}
    (h : handler.part task app = (.inl task', app')) :
    handler.finish task app = handler.finish task' app' := by
  rw [Handler.finish]
  split
  · rename_i hpart
    rw [h] at hpart
    obtain ⟨⟨⟩, rfl⟩ := Prod.mk.inj hpart
    rfl
  · rename_i hpart
    rw [h] at hpart
    cases hpart

theorem Handler.finish_inr {task : τ} {app app' : σ} {reply : List UInt8}
    (h : handler.part task app = (.inr reply, app')) :
    handler.finish task app = (reply, app') := by
  rw [Handler.finish]
  split
  · rename_i hpart
    rw [h] at hpart
    cases hpart
  · rename_i hpart
    rw [h] at hpart
    obtain ⟨⟨⟩, rfl⟩ := Prod.mk.inj hpart
    rfl

end Handler

/-! ## Calls and their parts -/

/-- A request that was handled, and its answer. -/
structure Call where
  line : List UInt8
  reply : List UInt8
deriving DecidableEq, Repr

def Sequential (run : σ → List UInt8 → List UInt8 × σ) : σ → List Call → σ → Prop
  | app, [], app' => app' = app
  | app, c :: cs, app' => c.reply = (run app c.line).1 ∧ Sequential run (run app c.line).2 cs app'

theorem Sequential.snoc {run : σ → List UInt8 → List UInt8 × σ} {app app' : σ}
    {cs : List Call} (h : Sequential run app cs app') (line : List UInt8) :
    Sequential run app (cs ++ [⟨line, (run app' line).1⟩]) (run app' line).2 := by
  induction cs generalizing app with
  | nil =>
      obtain rfl : app' = app := h
      exact ⟨rfl, rfl⟩
  | cons c cs ih => exact ⟨h.1, ih h.2⟩

def replyBytes (cs : List Call) : List UInt8 := cs.flatMap fun c => c.reply ++ [newline]

theorem Sequential.replyBytes_eq {run : σ → List UInt8 → List UInt8 × σ} {app app' : σ}
    {cs : List Call} (h : Sequential run app cs app') :
    replyBytes cs = replies run app (cs.map Call.line) := by
  induction cs generalizing app with
  | nil => rfl
  | cons c cs ih => simpa [replyBytes, replies, h.1] using ih h.2

def partsOf (log : List (Event σ τ)) (id : Nat) : List (Part σ τ) :=
  log.filterMap fun
    | .part i p => if i = id then some p else none
    | .other _ => none

theorem partsOf_append (log : List (Event σ τ)) (i id : Nat) (ps : List (Part σ τ)) :
    partsOf (log ++ ps.map (.part i)) id = partsOf log id ++ if i = id then ps else [] := by
  rw [partsOf, List.filterMap_append, partsOf, List.filterMap_map]
  by_cases hid : i = id
  · simp [hid]
  · simp [hid]

theorem partsOf_other (log : List (Event σ τ)) (id : Nat) (app : σ) :
    partsOf (log ++ [.other app]) id = partsOf log id := by
  simp [partsOf]

variable (handler : Handler σ τ)

/-- The answer that a part ends with, if it is the last one of its call. -/
def Part.call (p : Part σ τ) : Option Call :=
  match (handler.part p.task p.app).1 with
  | .inl _ => none
  | .inr reply => some ⟨p.line, reply⟩

def calls (ps : List (Part σ τ)) : List Call := ps.filterMap (Part.call handler)

/-- The request a connection is busy with after a part, and what remains to be done for it. -/
def Part.next (p : Part σ τ) : Option (List UInt8 × τ) :=
  match (handler.part p.task p.app).1 with
  | .inl task => some (p.line, task)
  | .inr _ => none

/-- The parts of the calls of one thread, in the order in which it has come to them, and the
call it is in. -/
inductive Successive : List (Part σ τ) → Option (List UInt8 × τ) → Prop
  | nil : Successive [] none
  | start (ps : List (Part σ τ)) (line : List UInt8) (h : Successive ps none) :
      Successive ps (some (line, handler.start line))
  | part (ps : List (Part σ τ)) (p : Part σ τ) (h : Successive ps (some (p.line, p.task))) :
      Successive (ps ++ [p]) (p.next handler)

/-- The daemon's state changes with the parts of the calls, each of which works on what it finds,
and with what the rest of the daemon does. -/
def Interleaved : σ → List (Event σ τ) → σ → Prop
  | app, [], app' => app' = app
  | app, .part _ p :: es, app' => p.app = app ∧ Interleaved (handler.part p.task p.app).2 es app'
  | _, .other app :: es, app' => Interleaved app es app'

variable {handler}

theorem interleaved_append {app app' : σ} {es es' : List (Event σ τ)} :
    Interleaved handler app (es ++ es') app' ↔
      ∃ mid, Interleaved handler app es mid ∧ Interleaved handler mid es' app' := by
  induction es generalizing app with
  | nil => simp [Interleaved]
  | cons e es ih =>
      cases e with
      | part id p => simp [Interleaved, ih, and_assoc]
      | other app₁ => simp [Interleaved, ih]

theorem calls_snoc_inl {ps : List (Part σ τ)} {p : Part σ τ} {task : τ} {app : σ}
    (h : handler.part p.task p.app = (.inl task, app)) :
    calls handler (ps ++ [p]) = calls handler ps := by
  simp [calls, Part.call, h]

theorem calls_snoc_inr {ps : List (Part σ τ)} {p : Part σ τ} {reply : List UInt8} {app : σ}
    (h : handler.part p.task p.app = (.inr reply, app)) :
    calls handler (ps ++ [p]) = calls handler ps ++ [⟨p.line, reply⟩] := by
  simp [calls, Part.call, h]

/-- What has become of the state in which a call, if there is one, began. -/
def Handler.Begun (handler : Handler σ τ) : Option (List UInt8 × τ) → σ → σ → Prop
  | none, app, app' => app = app'
  | some (line, task), app, app' => handler.run app line = handler.finish task app'

/-- Where nothing has come in between, the calls are those of the handler alone. -/
theorem Successive.sequential {ps : List (Part σ τ)} {cur : Option (List UInt8 × τ)}
    (h : Successive handler ps cur) {id : Nat} {app app' : σ}
    (hrun : Interleaved handler app (ps.map (.part id)) app') :
    ∃ app₁, Sequential handler.run app (calls handler ps) app₁ ∧
      handler.Begun cur app₁ app' := by
  induction h generalizing app' with
  | nil => exact ⟨app', hrun, rfl⟩
  | start ps line h ih =>
      obtain ⟨app₁, hseq, rfl⟩ := ih hrun
      exact ⟨app₁, hseq, rfl⟩
  | part ps p h ih =>
      rw [List.map_append, interleaved_append] at hrun
      obtain ⟨mid, hbefore, hmid, hafter⟩ := hrun
      obtain ⟨app₁, hseq, hfinish⟩ := ih hbefore
      obtain rfl : app' = (handler.part p.task p.app).2 := hafter
      rw [← hmid, Handler.Begun] at hfinish
      cases hpart : handler.part p.task p.app with
      | mk result app' =>
          cases result with
          | inl task =>
              rw [calls_snoc_inl hpart, Part.next, hpart]
              exact ⟨app₁, hseq, hfinish.trans (Handler.finish_inl hpart)⟩
          | inr reply =>
              rw [Handler.finish_inr hpart] at hfinish
              have hsnoc := hseq.snoc p.line
              rw [hfinish] at hsnoc
              rw [calls_snoc_inr hpart, Part.next, hpart]
              exact ⟨app', hsnoc, rfl⟩

/-! ## What a thread has done -/

def Pc.call : Pc τ → Option (List UInt8 × τ)
  | .handle line task => some (line, task)
  | _ => none

/-- The request a thread has taken from its buffer and not yet answered. -/
def Pc.taken (pc : Pc τ) : List (List UInt8) := (pc.call.map Prod.fst).toList

/-- What the connection has been sent, given what was handled. -/
def Thread.Sent (t : Thread τ) (cs : List Call) : Prop :=
  match t.pc with
  | .check | .recv | .scan | .handle .. => t.sent = replyBytes cs
  | .send data false => t.sent ++ data = replyBytes cs
  | .send data true => t.sent ++ data = replyBytes cs ++ requestTooLarge ∧
      kMaxRequestBytes < t.buf.length ∧ newline ∉ t.buf
  | .leave | .closing | .marking | .exited => t.sent <+: replyBytes cs ∨
      t.sent <+: replyBytes cs ++ requestTooLarge ∧ kMaxRequestBytes < t.buf.length ∧
        newline ∉ t.buf

theorem Thread.Sent.isPrefix {t : Thread τ} {cs : List Call} (h : t.Sent cs) :
    t.sent <+: replyBytes cs ∨ t.sent <+: replyBytes cs ++ requestTooLarge ∧
      kMaxRequestBytes < t.buf.length ∧ newline ∉ t.buf := by
  rw [Thread.Sent] at h
  cases hpc : t.pc with
  | send data last =>
      rw [hpc] at h
      cases last with
      | false => exact .inl ⟨data, h⟩
      | true => exact .inr ⟨⟨data, h.1⟩, h.2⟩
  | check | recv | scan | handle line task =>
      rw [hpc] at h
      exact .inl (h ▸ List.prefix_rfl)
  | leave | closing | marking | exited =>
      rw [hpc] at h
      exact h

/-- The buffer holds what comes after the lines that were taken. -/
structure Thread.Serves (handler : Handler σ τ) (t : Thread τ) (ps : List (Part σ τ)) :
    Prop where
  rcvd : ∃ done, t.rcvd = done ++ t.buf ∧ tail newline done = [] ∧
    requests done = (calls handler ps).map Call.line ++ t.pc.taken
  scanned : t.pc = .check ∨ t.pc = .recv → newline ∉ t.buf
  sent : t.Sent (calls handler ps)
  parts : Successive handler ps t.pc.call

/-! ## One step of `serve` -/

section Loop

variable {stopping cut : Bool} {k : Kind} {x x' : Local σ τ} {ps parts : List (Part σ τ)}

theorem Thread.Serves.goto {t : Thread τ} {pc : Pc τ} (h : t.Serves handler ps)
    (hcall : t.pc.call = none) (hpc : pc.call = none)
    (hscanned : pc = .check ∨ pc = .recv → newline ∉ t.buf)
    (hsent : Thread.Sent { t with pc } (calls handler ps)) :
    Thread.Serves handler { t with pc } ps where
  rcvd := by
    obtain ⟨done, hrcvd, htail, hreqs⟩ := h.rcvd
    exact ⟨done, hrcvd, htail, by rw [hreqs, Pc.taken, Pc.taken, hcall, hpc]⟩
  scanned := hscanned
  sent := hsent
  parts := by
    have hparts := h.parts
    rw [hcall] at hparts
    rwa [hpc]

theorem Thread.Serves.leave {t : Thread τ} (h : t.Serves handler ps) (hcall : t.pc.call = none) :
    Thread.Serves handler { t with pc := .leave } ps :=
  h.goto hcall rfl (by simp) h.sent.isPrefix

theorem taken_line {done buf l rest : List UInt8} (htail : tail newline done = [])
    (hbuf : buf = l ++ newline :: rest) (hl : newline ∉ l) :
    done ++ buf = (done ++ (l ++ [newline])) ++ rest ∧
      tail newline (done ++ (l ++ [newline])) = [] ∧
      requests (done ++ (l ++ [newline])) =
        requests done ++ if dropCr l = [] then [] else [dropCr l] := by
  refine ⟨by simp [hbuf], ?_, ?_⟩
  · rw [tail_append, htail, List.nil_append, tail_line hl]
    rfl
  · rw [requests_append, htail, List.nil_append, requests_line hl]
    simp [requests, lines, split]

theorem Thread.Serves.line {t : Thread τ} (h : t.Serves handler ps) (hpc : t.pc = .scan)
    {l rest : List UInt8} (hbuf : t.buf = l ++ newline :: rest) (hl : newline ∉ l) :
    Thread.Serves handler { t with
      pc := if dropCr l = [] then .scan else .handle (dropCr l) (handler.start (dropCr l))
      buf := rest } ps := by
  have hsent := h.sent
  have hparts := h.parts
  rw [Thread.Sent, hpc] at hsent
  rw [hpc] at hparts
  obtain ⟨done, hrcvd, htail, hreqs⟩ := h.rcvd
  obtain ⟨hsplit, htail', hreqs'⟩ := taken_line htail hbuf hl
  have htaken : t.pc.taken = [] := by rw [hpc]; rfl
  rw [hreqs, htaken, List.append_nil] at hreqs'
  by_cases hempty : dropCr l = []
  · rw [if_pos hempty] at hreqs' ⊢
    exact ⟨⟨_, hrcvd.trans hsplit, htail', hreqs'⟩, by simp, hsent, hparts⟩
  · rw [if_neg hempty] at hreqs' ⊢
    exact ⟨⟨_, hrcvd.trans hsplit, htail', hreqs'⟩, by simp, hsent, .start ps _ hparts⟩

theorem Thread.Serves.part {t : Thread τ} (h : t.Serves handler ps) {l : List UInt8}
    {task task' : τ} {app app' : σ} (hpc : t.pc = .handle l task)
    (hpart : handler.part task app = (.inl task', app')) :
    Thread.Serves handler { t with pc := .handle l task' } (ps ++ [⟨l, task, app⟩]) := by
  have hsent := h.sent
  have hparts := h.parts
  rw [Thread.Sent, hpc] at hsent
  rw [hpc] at hparts
  obtain ⟨done, hrcvd, htail, hreqs⟩ := h.rcvd
  have hcalls : calls handler (ps ++ [⟨l, task, app⟩]) = calls handler ps := calls_snoc_inl hpart
  refine ⟨⟨done, hrcvd, htail, ?_⟩, by simp, ?_, ?_⟩
  · rw [hcalls, hreqs, hpc]
    rfl
  · rw [hcalls]
    exact hsent
  · simpa [Part.next, hpart, Pc.call] using Successive.part ps ⟨l, task, app⟩ hparts

theorem Thread.Serves.answer {t : Thread τ} (h : t.Serves handler ps) {l reply : List UInt8}
    {task : τ} {app app' : σ} (hpc : t.pc = .handle l task)
    (hpart : handler.part task app = (.inr reply, app')) :
    Thread.Serves handler { t with pc := .send (reply ++ [newline]) false }
      (ps ++ [⟨l, task, app⟩]) := by
  have hsent := h.sent
  have hparts := h.parts
  rw [Thread.Sent, hpc] at hsent
  rw [hpc] at hparts
  obtain ⟨done, hrcvd, htail, hreqs⟩ := h.rcvd
  have hcalls : calls handler (ps ++ [⟨l, task, app⟩]) = calls handler ps ++ [⟨l, reply⟩] :=
    calls_snoc_inr hpart
  refine ⟨⟨done, hrcvd, htail, ?_⟩, by simp, ?_, ?_⟩
  · rw [hcalls, hreqs, hpc]
    simp [Pc.taken, Pc.call]
  · rw [hcalls]
    simp [Thread.Sent, replyBytes, hsent]
  · simpa [Part.next, hpart, Pc.call] using Successive.part ps ⟨l, task, app⟩ hparts

theorem Loop.serves (h : Loop handler stopping cut k x x' parts)
    (hs : x.thread.Serves handler ps) : x'.thread.Serves handler (ps ++ parts) := by
  have hsent := hs.sent
  cases h with
  | again _ hpc hrun =>
      rw [List.append_nil]
      rw [Thread.Sent, hpc] at hsent
      exact hs.goto (by rw [hpc]; rfl) rfl (fun _ => hs.scanned (.inl hpc)) hsent
  | stop _ hpc hstop =>
      rw [List.append_nil]
      exact hs.leave (by rw [hpc]; rfl)
  | recv _ chunk rest hpc hne hle hin =>
      rw [List.append_nil]
      rw [Thread.Sent, hpc] at hsent
      have hparts := hs.parts
      rw [hpc] at hparts
      obtain ⟨done, hrcvd, htail, hreqs⟩ := hs.rcvd
      refine ⟨⟨done, ?_, htail, by rw [hreqs, hpc]; rfl⟩, by simp, hsent, hparts⟩
      rw [hrcvd, List.append_assoc]
  | recvInterrupted _ hpc =>
      rw [List.append_nil]
      rw [Thread.Sent, hpc] at hsent
      exact hs.goto (by rw [hpc]; rfl) rfl (fun _ => hs.scanned (.inr hpc)) hsent
  | recvEnd _ hpc hin hcut =>
      rw [List.append_nil]
      exact hs.leave (by rw [hpc]; rfl)
  | recvFailed _ hpc hcut =>
      rw [List.append_nil]
      exact hs.leave (by rw [hpc]; rfl)
  | more _ hpc hnone hlen =>
      rw [List.append_nil]
      rw [Thread.Sent, hpc] at hsent
      exact hs.goto (by rw [hpc]; rfl) rfl (fun _ => hnone) hsent
  | tooLarge _ hpc hnone hlen =>
      rw [List.append_nil]
      rw [Thread.Sent, hpc] at hsent
      exact hs.goto (by rw [hpc]; rfl) rfl (by simp) ⟨congrArg (· ++ requestTooLarge) hsent, hlen,
        hnone⟩
  | line _ l rest hpc hbuf hl =>
      rw [List.append_nil]
      exact hs.line hpc hbuf hl
  | handle _ l task task' app' hpc hpart => exact hs.part hpc hpart
  | answer _ l task reply app' hpc hpart => exact hs.answer hpc hpart
  | send _ data last n hpc hpos hn =>
      rw [List.append_nil]
      rw [Thread.Sent, hpc] at hsent
      have hparts := hs.parts
      rw [hpc] at hparts
      obtain ⟨done, hrcvd, htail, hreqs⟩ := hs.rcvd
      refine ⟨⟨done, hrcvd, htail, by rw [hreqs, hpc]; rfl⟩, by simp, ?_, hparts⟩
      cases last with
      | false => simpa [Thread.Sent] using hsent
      | true => simpa [Thread.Sent] using hsent
  | sendInterrupted _ data last hpc =>
      rw [List.append_nil]
      exact hs
  | sendFailed _ data last hpc hne hcut =>
      rw [List.append_nil]
      exact hs.leave (by rw [hpc]; rfl)
  | sendDone _ last hpc =>
      rw [List.append_nil]
      cases last with
      | false =>
          rw [Thread.Sent, hpc] at hsent
          refine hs.goto (by rw [hpc]; rfl) rfl (by simp) ?_
          simpa [Thread.Sent] using hsent
      | true => exact hs.leave (by rw [hpc]; rfl)

theorem Loop.interleaved (h : Loop handler stopping cut k x x' parts) {id : Nat} :
    Interleaved handler x.app (parts.map (.part id)) x'.app := by
  cases h with
  | handle _ l task task' app' hpc hpart => exact ⟨rfl, by simp [Interleaved, hpart]⟩
  | answer _ l task reply app' hpc hpart => exact ⟨rfl, by simp [Interleaved, hpart]⟩
  | _ => rfl

end Loop

/-! ## All connections -/

namespace Server

/-- What holds of the calls so far, from a start in `app`. -/
structure Answered (handler : Handler σ τ) (app : σ) (s : Server σ τ) : Prop where
  inv : Inv s
  interleaved : Interleaved handler app s.log s.app
  silent : ∀ id, s.threads id = none → partsOf s.log id = []
  serves : ∀ id t, s.threads id = some t → t.Serves handler (partsOf s.log id)

variable {app : σ} {s s' : Server σ τ}

theorem Answered.goto (h : Answered handler app s) {id : Nat} {t : Thread τ} (pc : Pc τ)
    (hinv : Inv s') (ht : s.threads id = some t)
    (hover : ∀ cs, t.Sent cs → Thread.Sent { t with pc } cs) (hcall : t.pc.call = none)
    (hpc : pc.call = none ∧ pc ≠ .check ∧ pc ≠ .recv) (hlog : s'.log = s.log)
    (happ : s'.app = s.app)
    (hthreads : s'.threads = Function.update s.threads id (some { t with pc })) :
    Answered handler app s' where
  inv := hinv
  interleaved := by rw [hlog, happ]; exact h.interleaved
  silent i hi := by
    rw [hlog]
    by_cases hid : i = id
    · simp [hthreads, hid] at hi
    · exact h.silent i (by simpa [hthreads, hid] using hi)
  serves i u hu := by
    rw [hlog]
    by_cases hid : i = id
    · subst hid
      obtain rfl : _ = u := by simpa [hthreads] using hu
      have hs := h.serves i t ht
      exact hs.goto hcall hpc.1 (fun hscan => absurd hscan (by simp [hpc.2])) (hover _ hs.sent)
    · exact h.serves i u (by simpa [hthreads, hid] using hu)

theorem Answered.serve (h : Answered handler app s) {k : Kind} {id : Nat} {t : Thread τ}
    {x : Local σ τ} {parts : List (Part σ τ)} (ht : s.threads id = some t)
    (hloop : Loop handler s.stopping (s.cut id) k ⟨s.inbox id, s.app, t⟩ x parts) :
    Answered handler app (s.served id t x parts) where
  inv := h.inv.serve ht hloop
  interleaved := interleaved_append.mpr ⟨s.app, h.interleaved, Loop.interleaved hloop⟩
  silent i hi := by
    have hid : i ≠ id := by
      rintro rfl
      simp [served] at hi
    have hnone : s.threads i = none := by simpa [served, hid] using hi
    simp [served, partsOf_append, Ne.symm hid, h.silent i hnone]
  serves i u hu := by
    by_cases hid : i = id
    · subst hid
      obtain rfl : x.thread = u := by simpa [served] using hu
      simpa [served, partsOf_append] using Loop.serves hloop (h.serves i t ht)
    · have hold : s.threads i = some u := by simpa [served, hid] using hu
      simpa [served, partsOf_append, Ne.symm hid] using h.serves i u hold

theorem Answered.spawn (h : Answered handler app s) {i fd id : Nat}
    (hpc : s.acceptor = .reap i fd id) :
    Answered handler app { s with
      clients := s.clients ++ [{ id, fd := some fd }]
      threads := Function.update s.threads id (some { fd })
      acceptor := .check
      mutex := none } where
  inv := h.inv.spawn hpc
  interleaved := h.interleaved
  silent j hj := by
    have hid : j ≠ id := by
      rintro rfl
      simp at hj
    exact h.silent j (by simpa [hid] using hj)
  serves j u hu := by
    by_cases hid : j = id
    · subst hid
      obtain rfl : _ = u := by simpa using hu
      obtain ⟨-, hnone, -⟩ := h.inv.owned.pending fd j (by rw [hpc]; rfl)
      have hsilent : partsOf s.log j = [] := h.silent j hnone
      rw [hsilent]
      exact ⟨⟨[], rfl, rfl, rfl⟩, by simp, rfl, .nil⟩
    · exact h.serves j u (by simpa [hid] using hu)

theorem Answered.elsewhere (h : Answered handler app s) (app' : σ) :
    Answered handler app { s with app := app', log := s.log ++ [.other app'] } where
  inv := h.inv.step (.elsewhere s app' : Step handler _ s _)
  interleaved := interleaved_append.mpr ⟨s.app, h.interleaved, rfl⟩
  silent i hi := (partsOf_other ..).trans (h.silent i hi)
  serves i u hu := by
    rw [partsOf_other]
    exact h.serves i u hu

theorem Answered.congr (h : Answered handler app s) (hinv : Inv s') (hlog : s'.log = s.log)
    (happ : s'.app = s.app) (hthreads : s'.threads = s.threads) : Answered handler app s' where
  inv := hinv
  interleaved := by rw [hlog, happ]; exact h.interleaved
  silent i hi := by rw [hlog]; exact h.silent i (hthreads ▸ hi)
  serves i u hu := by rw [hlog]; exact h.serves i u (hthreads ▸ hu)

theorem Answered.step {k : Kind} (h : Answered handler app s) (hstep : Step handler k s s') :
    Answered handler app s' := by
  have hinv := h.inv.step hstep
  cases hstep with
  | elsewhere _ app' => exact h.elsewhere app'
  | serve _ _ id t x parts ht hloop => exact h.serve ht hloop
  | spawn _ i fd id hpc hend => exact h.spawn hpc
  | leave _ id t ht hpc hmutex =>
      refine h.goto .closing hinv ht (fun cs hcs => ?_) (by rw [hpc]; rfl) (by simp [Pc.call]) rfl
        rfl rfl
      rw [Thread.Sent, hpc] at hcs
      exact hcs
  | close _ id t ht hpc =>
      obtain ⟨hlog, happ, hthreads⟩ : (s.closeFd id).log = s.log ∧ (s.closeFd id).app = s.app ∧
          (s.closeFd id).threads = s.threads := by
        rw [closeFd]
        split <;> exact ⟨rfl, rfl, rfl⟩
      refine h.goto .marking hinv ht (fun cs hcs => ?_) (by rw [hpc]; rfl)
        (by simp [Pc.call]) hlog happ (by rw [Server.goto, hthreads])
      rw [Thread.Sent, hpc] at hcs
      exact hcs
  | mark _ id t ht hpc =>
      refine h.goto .exited hinv ht (fun cs hcs => ?_) (by rw [hpc]; rfl) (by simp [Pc.call]) rfl
        rfl rfl
      rw [Thread.Sent, hpc] at hcs
      exact hcs
  | shut _ i c hpc hc =>
      obtain ⟨hlog, happ, hthreads⟩ : (s.shutdown c).log = s.log ∧ (s.shutdown c).app = s.app ∧
          (s.shutdown c).threads = s.threads := by
        rw [shutdown]
        split <;> exact ⟨rfl, rfl, rfl⟩
      exact h.congr hinv hlog happ hthreads
  | _ => exact h.congr hinv rfl rfl rfl

theorem answered_init (handler : Handler σ τ) (app : σ) :
    Answered handler app ({ app } : Server σ τ) where
  inv := inv_init app
  interleaved := rfl
  silent _ _ := rfl
  serves id t ht := by simp at ht

theorem Answered.run {ks : List Kind} (hrun : WriteLog.Path (Step handler) ks { app } s) :
    Answered handler app s :=
  hrun.invariant (I := fun _ s => Answered handler app s) (answered_init handler app)
    fun _ _ _ _ _ _ hI hstep => hI.step hstep

theorem Answered.waiting (h : Answered handler app s) {id : Nat} {t : Thread τ}
    (ht : s.threads id = some t) (hpc : t.pc = .recv) :
    (calls handler (partsOf s.log id)).map Call.line = requests t.rcvd ∧
      t.sent = replyBytes (calls handler (partsOf s.log id)) := by
  have hs := h.serves id t ht
  obtain ⟨done, hrcvd, htail, hreqs⟩ := hs.rcvd
  have hnone := hs.scanned (.inr hpc)
  have hsent := hs.sent
  rw [Thread.Sent, hpc] at hsent
  refine ⟨?_, hsent⟩
  rw [hrcvd, requests_append, htail, List.nil_append, hreqs, hpc]
  simp [Pc.taken, Pc.call, requests, lines, split_of_notMem hnone]

/-- If nothing else has happened, this is what `serve` sends when it runs alone. -/
theorem Answered.sent_eq_serve (h : Answered handler app s) {id : Nat} {t : Thread τ}
    (ht : s.threads id = some t) (hpc : t.pc = .recv)
    (halone : s.log = (partsOf s.log id).map (.part id)) {C : Conn σ}
    (hC : C.handler = handler.run) (hok : ∀ k, C.writeError k = none) {turns : List Turn}
    (hturns : ∀ u ∈ turns, u.Delivers) (hstream : stream turns = t.rcvd)
    (hshort : Short newline kMaxRequestBytes t.rcvd) :
    t.sent = (ApiServer.serve C { app } [] turns).1.1.sent := by
  have hinter := h.interleaved
  rw [halone] at hinter
  obtain ⟨app₁, hseq, -⟩ := (h.serves id t ht).parts.sequential hinter
  obtain ⟨hlines, hsent⟩ := h.waiting ht hpc
  rw [serve_eq hok hturns (List.not_mem_nil) (by simpa [hstream] using hshort),
    sent_foldl_answer hok, hsent, hseq.replyBytes_eq, hlines, hC]
  simp [hstream]

end Server

end PacketBalance.ApiServer
