import PacketBalance.ApiServer.Ownership
import PacketBalance.Lib.Fairness
import Mathlib.Algebra.Order.BigOperators.Group.Finset
import Mathlib.Data.Prod.Lex
/-!
# `stop` returns

Once `stop` has been called, whatever the threads of the control socket are doing and whatever
the peers do, the server never gets stuck and does not go on for ever: some thread can take a
step that waits for nobody outside, and every step of the server brings it closer to the end.
The distance counts the steps each thread may still need, and behind them the parts of the call
it is in and the bytes of the reply it is sending.
-/

namespace PacketBalance.ApiServer

variable {σ τ : Type}

/-- How many steps a thread takes until it has exited, but for those of the handler and of
`write_all`.  In `recv` it may get one more chunk. -/
def Thread.cost (t : Thread τ) : Nat :=
  match t.pc with
  | .exited => 0
  | .marking => 1
  | .closing => 2
  | .leave => 3
  | .check => 4
  | .send _ true => 5
  | .scan => 6 + 3 * t.buf.length
  | .send _ false => 7 + 3 * t.buf.length
  | .handle .. => 8 + 3 * t.buf.length
  | .recv => 7 + 3 * (t.buf.length + 4096)

/-- The parts of the call that are not yet done, or the bytes of the reply not yet sent. -/
def Thread.undone (handler : Handler σ τ) (t : Thread τ) : Nat :=
  match t.pc with
  | .handle _ task => handler.left task
  | .send data _ => data.length
  | _ => 0

def Thread.Closer (handler : Handler σ τ) (t t' : Thread τ) : Prop :=
  t'.cost < t.cost ∨ t'.cost = t.cost ∧ t'.undone handler < t.undone handler

/-- The steps of the acceptor, those of the thread it may still start included. -/
def Acceptor.cost (clients : Nat) : Acceptor → Nat
  | .exited => 0
  | .check => 1
  | .reap i _ _ => 8 + (clients - i)
  | .lock _ _ => 9 + clients
  | .accept => 10 + clients
  | .poll => 11 + clients

def Stopper.cost (clients : Nat) : Stopper → Nat
  | .stopped => 0
  | .join i => 2 + (clients - i)
  | .shut i => 4 + clients + (clients - i)
  | .lock => 5 + 2 * clients
  | .joinAcceptor => 6 + 2 * clients
  | .idle => 7 + 2 * clients

namespace Server

open Finset

def cost (s : Server σ τ) : Nat :=
  s.acceptor.cost s.clients.length + s.stopper.cost s.clients.length +
    ∑ id ∈ range s.next, (s.threads id).elim 0 Thread.cost

def undone (handler : Handler σ τ) (s : Server σ τ) : Nat :=
  ∑ id ∈ range s.next, (s.threads id).elim 0 (Thread.undone handler)

def rank (handler : Handler σ τ) (s : Server σ τ) : Nat ×ₗ Nat :=
  toLex (s.cost, s.undone handler)

variable {handler : Handler σ τ}

theorem rank_lt_of_cost {s s' : Server σ τ} (h : s'.cost < s.cost) :
    s'.rank handler < s.rank handler :=
  Prod.Lex.toLex_lt_toLex.mpr (.inl h)

/-! ## A thread -/

section Threads

variable {s : Server σ τ} {id : Nat} {t t' : Thread τ}

theorem sum_update (f : Thread τ → Nat) (hid : id < s.next) (t' : Thread τ) :
    ∑ i ∈ range s.next, (Function.update s.threads id (some t') i).elim 0 f +
        (s.threads id).elim 0 f =
      ∑ i ∈ range s.next, (s.threads i).elim 0 f + f t' := by
  have hmem : id ∈ range s.next := mem_range.mpr hid
  have hrest : ∑ i ∈ (range s.next).erase id, (Function.update s.threads id (some t') i).elim 0 f =
      ∑ i ∈ (range s.next).erase id, (s.threads i).elim 0 f := by
    refine sum_congr rfl fun i hi => ?_
    rw [Function.update_of_ne (ne_of_mem_erase hi)]
  rw [← add_sum_erase _ _ hmem, ← add_sum_erase _ (fun i => (s.threads i).elim 0 f) hmem, hrest,
    Function.update_self, Option.elim_some]
  omega

theorem rank_lt_of_closer {s' : Server σ τ} (ht : s.threads id = some t) (hid : id < s.next)
    (hthreads : s'.threads = Function.update s.threads id (some t'))
    (hacceptor : s'.acceptor = s.acceptor) (hstopper : s'.stopper = s.stopper)
    (hclients : s'.clients.length = s.clients.length) (hnext : s'.next = s.next)
    (h : t.Closer handler t') : s'.rank handler < s.rank handler := by
  have hcost := sum_update Thread.cost hid t'
  have hundone := sum_update (Thread.undone handler) hid t'
  rw [ht, Option.elim_some] at hcost hundone
  rw [rank, rank, Prod.Lex.toLex_lt_toLex, cost, cost, undone, undone, hthreads, hacceptor,
    hstopper, hclients, hnext]
  dsimp only
  rcases h with h | ⟨h, h'⟩
  · left
    omega
  · right
    omega

end Threads

end Server

/-- In `serve` every step counts, once the server is stopping. -/
theorem Loop.closer {handler : Handler σ τ} {cut : Bool} {k : Kind}
    {x x' : Local σ τ} {parts : List (Part σ τ)} (h : Loop handler true cut k x x' parts) :
    x.thread.Closer handler x'.thread ∨ k = .interrupted ∧ x'.thread = x.thread := by
  cases h with
  | again _ hpc hrun => cases hrun
  | stop _ hpc => exact .inl (.inl (by simp [Local.goto, Thread.cost, hpc]))
  | recv _ chunk rest hpc hne hle hin =>
      refine .inl (.inl ?_)
      simp only [Thread.cost, hpc, List.length_append]
      omega
  | recvInterrupted _ hpc =>
      refine .inl (.inl ?_)
      simp only [Local.goto, Thread.cost, hpc]
      omega
  | recvEnd _ hpc =>
      refine .inl (.inl ?_)
      simp only [Local.goto, Thread.cost, hpc]
      omega
  | recvFailed _ hpc =>
      refine .inl (.inl ?_)
      simp only [Local.goto, Thread.cost, hpc]
      omega
  | more _ hpc =>
      refine .inl (.inl ?_)
      simp only [Local.goto, Thread.cost, hpc]
      omega
  | tooLarge _ hpc =>
      refine .inl (.inl ?_)
      simp only [Local.goto, Thread.cost, hpc]
      omega
  | line _ l rest hpc hbuf hl =>
      refine .inl (.inl ?_)
      have hlen : x.thread.buf.length = l.length + (rest.length + 1) := by simp [hbuf]
      by_cases hempty : dropCr l = []
      · simp only [Thread.cost, hpc, hempty, if_true]
        omega
      · simp only [Thread.cost, hpc, hempty, if_false]
        omega
  | handle _ l task task' app' hpc hpart =>
      refine .inl (.inr ⟨by simp [Thread.cost, hpc], ?_⟩)
      simpa [Thread.undone, hpc] using handler.left_lt _ _ _ _ hpart
  | answer _ l task reply app' hpc => exact .inl (.inl (by simp [Thread.cost, hpc]))
  | send _ data last n hpc hpos hn =>
      refine .inl (.inr ⟨?_, ?_⟩)
      · cases last <;> simp [Thread.cost, hpc]
      · simp only [Thread.undone, hpc, List.length_drop]
        omega
  | sendInterrupted _ data last hpc => exact .inr ⟨rfl, rfl⟩
  | sendFailed _ data last hpc =>
      refine .inl (.inl ?_)
      cases last <;> simp only [Local.goto, Thread.cost, hpc] <;> omega
  | sendDone _ last hpc =>
      refine .inl (.inl ?_)
      cases last <;> simp [Local.goto, Thread.cost, hpc]

/-! ## The server -/

theorem Stopper.cost_le_succ (pc : Stopper) (n : Nat) : pc.cost n ≤ pc.cost (n + 1) := by
  cases pc <;> simp only [cost] <;> omega

theorem Stopper.cost_succ_le (pc : Stopper) (n : Nat) : pc.cost (n + 1) ≤ pc.cost n + 2 := by
  cases pc <;> simp only [cost] <;> omega

namespace Server

open Finset

variable {handler : Handler σ τ} {s s' : Server σ τ}

theorem rank_lt_of_pc (hthreads : s'.threads = s.threads) (hnext : s'.next = s.next)
    (h : s'.acceptor.cost s'.clients.length + s'.stopper.cost s'.clients.length <
      s.acceptor.cost s.clients.length + s.stopper.cost s.clients.length) :
    s'.rank handler < s.rank handler := by
  apply rank_lt_of_cost
  rw [cost, cost, hthreads, hnext]
  omega

theorem Inv.accept_rank {fd : Nat} (h : Inv s) (hpc : s.acceptor = .accept) :
    rank handler { s with
      acceptor := .lock fd s.next
      table := Function.update s.table fd (some (.connection s.next))
      next := s.next + 1 } < s.rank handler := by
  have hnone : s.threads s.next = none := by
    cases ht : s.threads s.next with
    | none => rfl
    | some t => exact absurd (h.owned.started _ t ht) (Nat.lt_irrefl _)
  apply rank_lt_of_cost
  simp only [cost, hpc, Acceptor.cost, sum_range_succ, hnone, Option.elim_none]
  omega

theorem Inv.spawn_rank {i fd id : Nat} (h : Inv s) (hpc : s.acceptor = .reap i fd id) :
    rank handler { s with
      clients := s.clients ++ [{ id, fd := some fd }]
      threads := Function.update s.threads id (some { fd })
      acceptor := .check
      mutex := none } < s.rank handler := by
  obtain ⟨-, hnone, hid⟩ := h.owned.pending fd id (by rw [hpc]; rfl)
  have hsum := sum_update Thread.cost hid { fd }
  have hstopper := s.stopper.cost_succ_le s.clients.length
  rw [hnone, Option.elim_none] at hsum
  have hnew : Thread.cost ({ fd } : Thread τ) = 4 := rfl
  apply rank_lt_of_cost
  simp only [cost, hpc, Acceptor.cost, List.length_append, List.length_singleton]
  omega

theorem shutdown_threads (s : Server σ τ) (c : Client) :
    (s.shutdown c).threads = s.threads ∧ (s.shutdown c).next = s.next ∧
      (s.shutdown c).acceptor = s.acceptor ∧ (s.shutdown c).clients = s.clients := by
  rw [shutdown]
  split <;> exact ⟨rfl, rfl, rfl, rfl⟩

theorem closeFd_threads (s : Server σ τ) (id : Nat) :
    (s.closeFd id).threads = s.threads ∧ (s.closeFd id).next = s.next ∧
      (s.closeFd id).acceptor = s.acceptor ∧ (s.closeFd id).stopper = s.stopper ∧
      (s.closeFd id).clients = s.clients := by
  rw [closeFd]
  split <;> exact ⟨rfl, rfl, rfl, rfl, rfl⟩

/-- After `stop` was called, the server comes closer to the end with every step of its own, and
no other step takes it further away. -/
theorem Inv.rank_step {k : Kind} (h : Inv s) (hstop : s.stopper ≠ .idle)
    (hstep : Step handler k s s') :
    s'.rank handler < s.rank handler ∨ ¬ k.Own ∧ s'.rank handler = s.rank handler := by
  have hstopping := h.halting.stopping hstop
  cases hstep with
  | peerSend _ id bytes => exact .inr ⟨fun hown => hown, rfl⟩
  | peerClose _ id => exact .inr ⟨fun hown => hown, rfl⟩
  | elsewhere _ app => exact .inr ⟨fun hown => hown, rfl⟩
  | foreignOpen _ fd hfree => exact .inr ⟨fun hown => hown, rfl⟩
  | foreignClose _ fd hopen => exact .inr ⟨fun hown => hown, rfl⟩
  | acceptCheck _ hpc =>
      exact .inl (rank_lt_of_pc rfl rfl (by simp [hpc, hstopping, Acceptor.cost]))
  | pollIdle _ hpc =>
      refine .inl (rank_lt_of_pc rfl rfl ?_)
      simp only [hpc, Acceptor.cost]
      omega
  | pollReady _ hpc =>
      refine .inl (rank_lt_of_pc rfl rfl ?_)
      simp only [hpc, Acceptor.cost]
      omega
  | acceptFailed _ hpc =>
      refine .inl (rank_lt_of_pc rfl rfl ?_)
      simp only [hpc, Acceptor.cost]
      omega
  | accept _ fd hpc hfree => exact .inl (h.accept_rank hpc)
  | acceptLock _ fd id hpc hmutex =>
      refine .inl (rank_lt_of_pc rfl rfl ?_)
      simp only [hpc, Acceptor.cost]
      omega
  | reapSkip _ i fd id c hpc hc hdone =>
      obtain ⟨hlt, -⟩ := List.getElem?_eq_some_iff.mp hc
      refine .inl (rank_lt_of_pc rfl rfl ?_)
      simp only [hpc, Acceptor.cost]
      omega
  | reapJoin _ fd id before after c hclients hpc hdone hexited =>
      have hstopper := s.stopper.cost_le_succ (before ++ after).length
      have hlen : s.clients.length = (before ++ after).length + 1 := by
        simp [hclients]
        omega
      refine .inl (rank_lt_of_pc rfl rfl ?_)
      simp only [hpc, hlen, Acceptor.cost, List.length_append] at hstopper ⊢
      omega
  | spawn _ i fd id hpc hend => exact .inl (h.spawn_rank hpc)
  | serve _ _ id t x parts ht hloop =>
      rw [hstopping] at hloop
      rcases Loop.closer hloop with hcloser | ⟨rfl, hsame⟩
      · exact .inl (rank_lt_of_closer ht (h.owned.started id t ht) rfl rfl rfl rfl rfl hcloser)
      · refine .inr ⟨fun hown => hown, ?_⟩
        have hthreads : Function.update s.threads id (some x.thread) = s.threads := by
          rw [hsame]
          exact Function.update_eq_self_iff.mpr ht.symm
        rw [rank, rank, cost, cost, undone, undone]
        simp only [served, hthreads]
  | leave _ id t ht hpc hmutex =>
      refine .inl (rank_lt_of_closer ht (h.owned.started id t ht) rfl rfl rfl rfl rfl (.inl ?_))
      simp [Thread.cost, hpc]
  | close _ id t ht hpc =>
      obtain ⟨hthreads, hnext, hacceptor, hstopper, hclients⟩ := s.closeFd_threads id
      have hmarking : ((s.closeFd id).goto id t .marking).threads =
          Function.update s.threads id (some { t with pc := .marking }) := by
        rw [goto, hthreads]
      refine .inl (rank_lt_of_closer ht (h.owned.started id t ht) hmarking hacceptor hstopper
        (congrArg List.length hclients) hnext (.inl ?_))
      simp [Thread.cost, hpc]
  | mark _ id t ht hpc =>
      refine .inl (rank_lt_of_closer ht (h.owned.started id t ht) rfl rfl rfl ?_ rfl (.inl ?_))
      · simp [goto, markDone]
      · simp [Thread.cost, hpc]
  | stop _ hpc => exact absurd hpc hstop
  | joinAcceptor _ hpc hexited =>
      refine .inl (rank_lt_of_pc rfl rfl ?_)
      simp only [hpc, Stopper.cost]
      omega
  | stopLock _ hpc hmutex =>
      refine .inl (rank_lt_of_pc rfl rfl ?_)
      simp only [hpc, Stopper.cost]
      omega
  | shut _ i c hpc hc =>
      obtain ⟨hlt, -⟩ := List.getElem?_eq_some_iff.mp hc
      obtain ⟨hthreads, hnext, hacceptor, hclients⟩ := s.shutdown_threads c
      refine .inl (rank_lt_of_pc hthreads hnext ?_)
      simp only [hacceptor, hclients, hpc, Stopper.cost]
      omega
  | shutEnd _ i hpc hend =>
      refine .inl (rank_lt_of_pc rfl rfl ?_)
      simp only [hpc, Stopper.cost]
      omega
  | join _ before after c hclients hpc hexited =>
      refine .inl (rank_lt_of_pc rfl rfl ?_)
      simp only [hpc, hclients, Stopper.cost, List.length_append, List.length_cons]
      omega
  | clear _ i hpc hend =>
      have hexited := h.halting.acceptor (by rw [hpc]; rfl)
      refine .inl (rank_lt_of_pc rfl rfl ?_)
      simp [hpc, hexited, Stopper.cost, Acceptor.cost]

/-! ## Someone can go on -/

theorem exists_split {l : List Client} {i : Nat} {c : Client} (h : l[i]? = some c) :
    ∃ before after, l = before ++ c :: after ∧ before.length = i := by
  obtain ⟨hlt, rfl⟩ := List.getElem?_eq_some_iff.mp h
  refine ⟨l.take i, l.drop (i + 1), ?_, by simp; omega⟩
  rw [List.getElem_cons_drop hlt, List.take_append_drop]

/-- Who holds the mutex to close a connection waits for nobody. -/
theorem Inv.holder_prompt (h : Inv s) {id : Nat} (hmutex : s.mutex = some (.worker id)) :
    ∃ s', Step handler .prompt s s' := by
  obtain ⟨t, ht, hcritical⟩ := h.locked.holder id hmutex
  cases hpc : t.pc with
  | closing => exact ⟨_, .close s id t ht hpc⟩
  | marking => exact ⟨_, .mark s id t ht hpc⟩
  | _ => simp [hpc, Pc.critical] at hcritical

theorem Loop.prompt (handler : Handler σ τ) (stopping : Bool) {x : Local σ τ}
    (hopen : x.thread.pc.isOpen = true) (hcritical : x.thread.pc.critical = false)
    (hleave : x.thread.pc ≠ .leave) :
    ∃ x' parts, Loop handler stopping true .prompt x x' parts := by
  cases hpc : x.thread.pc with
  | check =>
      cases stopping with
      | false => exact ⟨_, _, .again x hpc rfl⟩
      | true => exact ⟨_, _, .stop x hpc rfl⟩
  | recv => exact ⟨_, _, .recvFailed x hpc rfl⟩
  | scan =>
      cases hnl : x.thread.buf.idxOf? newline with
      | some i =>
          obtain ⟨l, rest, hbuf, hl, -⟩ := Lines.idxOf?_eq_some_iff.mp hnl
          exact ⟨_, _, .line x l rest hpc hbuf hl⟩
      | none =>
          have hnone := List.idxOf?_eq_none_iff.mp hnl
          by_cases hlen : x.thread.buf.length ≤ kMaxRequestBytes
          · exact ⟨_, _, .more x hpc hnone hlen⟩
          · exact ⟨_, _, .tooLarge x hpc hnone (Nat.lt_of_not_le hlen)⟩
  | handle l task =>
      cases hpart : handler.part task x.app with
      | mk result app' =>
          cases result with
          | inl task' => exact ⟨_, _, .handle x l task task' app' hpc hpart⟩
          | inr reply => exact ⟨_, _, .answer x l task reply app' hpc hpart⟩
  | send data last =>
      by_cases hdata : data = []
      · subst hdata
        exact ⟨_, _, .sendDone x last hpc⟩
      · exact ⟨_, _, .sendFailed x data last hpc hdata rfl⟩
  | leave => exact absurd hpc hleave
  | closing => simp [hpc, Pc.critical] at hcritical
  | marking => simp [hpc, Pc.critical] at hcritical
  | exited => simp [hpc, Pc.isOpen] at hopen

/-- The mutex is free, or a thread of a connection holds it, when neither the acceptor nor `stop`
does. -/
theorem Inv.mutex_free (h : Inv s) (hacceptor : s.acceptor.reaping = false)
    (hstopper : s.stopper.shutting = false) :
    s.mutex = none ∨ ∃ id, s.mutex = some (.worker id) := by
  cases hmutex : s.mutex with
  | none => exact .inl rfl
  | some who =>
      cases who with
      | acceptor => simp [h.locked.acceptor.mp hmutex] at hacceptor
      | stopper => simp [h.locked.stopper.mp hmutex] at hstopper
      | worker id => exact .inr ⟨id, rfl⟩

theorem Inv.worker_prompt (h : Inv s) {id : Nat} {t : Thread τ} (ht : s.threads id = some t)
    (hne : t.pc ≠ .exited) (hdown : s.down id = true) (hacceptor : s.acceptor.reaping = false)
    (hstopper : s.stopper.shutting = false) : ∃ s', Step handler .prompt s s' := by
  have hcut : s.cut id = true := by simp [cut, hdown]
  by_cases hcritical : t.pc.critical = true
  · exact h.holder_prompt (h.locked.worker id t ht hcritical)
  · by_cases hleave : t.pc = .leave
    · rcases h.mutex_free hacceptor hstopper with hmutex | ⟨j, hmutex⟩
      · exact ⟨_, .leave s id t ht hleave hmutex⟩
      · exact h.holder_prompt hmutex
    · have hopen : t.pc.isOpen = true := by
        cases hpc : t.pc with
        | marking => simp [hpc, Pc.critical] at hcritical
        | exited => exact absurd hpc hne
        | _ => rfl
      obtain ⟨x, parts, hloop⟩ := Loop.prompt handler s.stopping
        (x := ⟨s.inbox id, s.app, t⟩) hopen (by simpa using hcritical) hleave
      exact ⟨_, .serve .prompt s id t x parts ht (by rw [hcut]; exact hloop)⟩

theorem Inv.acceptor_prompt (h : Inv s) (hexited : s.acceptor ≠ .exited)
    (hstopper : s.stopper.shutting = false) : ∃ s', Step handler .prompt s s' := by
  cases hpc : s.acceptor with
  | check => exact ⟨_, .acceptCheck s hpc⟩
  | poll => exact ⟨_, .pollIdle s hpc⟩
  | accept => exact ⟨_, .acceptFailed s hpc⟩
  | lock fd id =>
      rcases h.mutex_free (by rw [hpc]; rfl) hstopper with hmutex | ⟨j, hmutex⟩
      · exact ⟨_, .acceptLock s fd id hpc hmutex⟩
      · exact h.holder_prompt hmutex
  | reap i fd id =>
      cases hc : s.clients[i]? with
      | none => exact ⟨_, .spawn s i fd id hpc (List.getElem?_eq_none_iff.mp hc)⟩
      | some c =>
          cases hdone : c.done with
          | false => exact ⟨_, .reapSkip s i fd id c hpc hc hdone⟩
          | true =>
              -- a finished client's thread has given back the mutex and ended
              obtain ⟨t, ht, hfits⟩ := h.owned.client c (List.mem_of_getElem? hc)
              obtain ⟨before, after, hclients, rfl⟩ := exists_split hc
              exact ⟨_, .reapJoin s fd id before after c hclients hpc hdone
                ⟨t, ht, hfits.done.mp hdone⟩⟩
  | exited => exact absurd hpc hexited

theorem Inv.prompt (h : Inv s) (hcalled : s.stopper ≠ .idle) (hrun : s.stopper ≠ .stopped) :
    ∃ s', Step handler .prompt s s' := by
  cases hpc : s.stopper with
  | idle => exact absurd hpc hcalled
  | joinAcceptor =>
      by_cases hexited : s.acceptor = .exited
      · exact ⟨_, .joinAcceptor s hpc hexited⟩
      · exact h.acceptor_prompt hexited (by rw [hpc]; rfl)
  | lock =>
      have hexited := h.halting.acceptor (by rw [hpc]; rfl)
      rcases h.mutex_free (by rw [hexited]; rfl) (by rw [hpc]; rfl) with hmutex | ⟨j, hmutex⟩
      · exact ⟨_, .stopLock s hpc hmutex⟩
      · exact h.holder_prompt hmutex
  | shut i =>
      cases hc : s.clients[i]? with
      | none => exact ⟨_, .shutEnd s i hpc (List.getElem?_eq_none_iff.mp hc)⟩
      | some c => exact ⟨_, .shut s i c hpc hc⟩
  | join i =>
      have hexited := h.halting.acceptor (by rw [hpc]; rfl)
      cases hc : s.clients[i]? with
      | none => exact ⟨_, .clear s i hpc (List.getElem?_eq_none_iff.mp hc)⟩
      | some c =>
          have hmem := List.mem_of_getElem? hc
          obtain ⟨t, ht, -⟩ := h.owned.client c hmem
          by_cases hend : t.pc = .exited
          · obtain ⟨before, after, hclients, rfl⟩ := exists_split hc
            exact ⟨_, .join s before after c hclients hpc ⟨t, ht, hend⟩⟩
          · have hdown : s.down c.id = true := by
              refine (h.halting.cutOff i hpc c hmem).resolve_right ?_
              rintro ⟨u, hu, hu'⟩
              rw [ht] at hu
              exact hend (Option.some.inj hu ▸ hu')
            exact h.worker_prompt ht hend hdown (by rw [hexited]; rfl) (by rw [hpc]; rfl)
  | stopped => exact absurd hpc hrun

/-! ## The end -/

theorem Step.called {k : Kind} (hstep : Step handler k s s') (h : s.stopper ≠ .idle) :
    s'.stopper ≠ .idle := by
  cases hstep with
  | close _ id t ht hpc =>
      rw [goto, (s.closeFd_threads id).2.2.2.1]
      exact h
  | stop | joinAcceptor | stopLock | shut | shutEnd | join | clear => simp
  | _ => exact h

theorem Inv.quiet (h : Inv s) (hstopped : s.stopper = .stopped) :
    ¬∃ s', Step handler .prompt s s' := by
  have hacceptor := h.halting.acceptor (by rw [hstopped]; rfl)
  rintro ⟨s', hstep⟩
  cases hstep with
  | acceptCheck _ hpc | pollIdle _ hpc | pollReady _ hpc | acceptFailed _ hpc | accept _ _ hpc
  | acceptLock _ _ _ hpc | reapSkip _ _ _ _ _ hpc | reapJoin _ _ _ _ _ _ _ hpc
  | spawn _ _ _ _ hpc => simp [hacceptor] at hpc
  | stop _ hpc | joinAcceptor _ hpc | stopLock _ hpc | shut _ _ _ hpc | shutEnd _ _ hpc
  | join _ _ _ _ _ hpc | clear _ _ hpc => simp [hstopped] at hpc
  | leave _ _ _ ht hpc | close _ _ _ ht hpc | mark _ _ _ ht hpc =>
      simp [h.exited hstopped ht] at hpc
  | serve _ _ id t x parts ht hloop =>
      exact isOpen_ne_exited (Loop.goes hloop).1.here (h.exited hstopped ht)

theorem Step.nothing (handler : Handler σ τ) (s : Server σ τ) : Step handler .outside s s := by
  have hstep : Step handler .outside s _ := .peerSend s 0 []
  simpa using hstep

/-- `stop` returns: along every run from a state in which it was called, in which the server gets
to take a step whenever one is possible that waits for nobody outside, all threads come to their
end and `stop` to its own. -/
theorem stop_returns (r : Fairness.Run (Step handler)) (hreach : Reachable handler (r.state 0))
    (hcalled : (r.state 0).stopper ≠ .idle)
    (hfair : ∀ n, (∃ s', Step handler .prompt (r.state n) s') → ∃ m ≥ n, (r.label m).Own) :
    ∃ n, (r.state n).stopper = .stopped ∧ (r.state n).harm = false ∧
      (r.state n).acceptor = .exited ∧
      ∀ id t, (r.state n).threads id = some t → t.pc = .exited := by
  have hkeep : ∀ k s s', Inv s ∧ s.stopper ≠ .idle → Step handler k s s' →
      Inv s' ∧ s'.stopper ≠ .idle :=
    fun k s s' h hstep => ⟨h.1.step hstep, hstep.called h.2⟩
  have hall := r.always (I := fun s => Inv s ∧ s.stopper ≠ .idle) ⟨hreach.inv, hcalled⟩ hkeep
  obtain ⟨n, hn⟩ := r.eventually (fun s => Inv s ∧ s.stopper ≠ .idle)
    (fun s => s.stopper = .stopped) Kind.Own (rank handler) ⟨hreach.inv, hcalled⟩ hkeep
    (fun k s s' h hstep hown _ => (h.1.rank_step h.2 hstep).resolve_right fun hno => hno.1 hown)
    (fun k s s' h hstep _ => (h.1.rank_step h.2 hstep).elim le_of_lt fun hno => le_of_eq hno.2)
    (fun n hrun => hfair n ((hall n).1.prompt (hall n).2 hrun))
  exact ⟨n, hn, (hall n).1.harm, (hall n).1.halting.acceptor (by rw [hn]; rfl),
    fun id t ht => (hall n).1.exited hn ht⟩

theorem Inv.exists_fair (h : Inv s) (hcalled : s.stopper ≠ .idle) :
    ∃ r : Fairness.Run (Step handler), r.state 0 = s ∧
      r.Fair Kind.Own fun s => ∃ s', Step handler .prompt s s' :=
  Fairness.exists_fair (fun s => Inv s ∧ s.stopper ≠ .idle) (fun s => s.stopper = .stopped) _
    Kind.Own (rank handler) (fun k s s' h hstep => ⟨h.1.step hstep, hstep.called h.2⟩)
    (fun k s s' h hstep hown => (h.1.rank_step h.2 hstep).resolve_right fun hno => hno.1 hown)
    (fun s h hrun => by
      obtain ⟨s', hstep⟩ := h.1.prompt h.2 hrun
      exact ⟨.prompt, s', hstep, trivial⟩)
    (fun s => ⟨.outside, .nothing handler s⟩) (fun s h hstopped => h.1.quiet hstopped) ⟨h, hcalled⟩

theorem exists_stalled : ∃ (s : Server Unit (List UInt8)) (t : Thread (List UInt8)),
    Reachable echo s ∧ s.stopper = .idle ∧ s.acceptor = .lock 8 1 ∧ s.threads 0 = some t ∧
      t.pc = .send [97, 10] false := by
  have h : Reachable echo ({ app := () } : Server Unit (List UInt8)) := ⟨(), [], rfl⟩
  have h := h.step (.acceptCheck _ rfl)
  have h := h.step (.pollReady _ rfl)
  have h := h.step (.accept _ 7 rfl rfl)
  have h := h.step (.acceptLock _ 7 0 rfl rfl)
  have h := h.step (.spawn _ 0 7 0 rfl (Nat.le_refl 0))
  have h := h.step (.peerSend _ 0 [97, 10])
  have h := h.step (.serve _ _ 0 _ _ _ rfl (.again _ rfl rfl))
  have h := h.step (.serve _ _ 0 _ _ _ rfl (.recv _ [97, 10] [] rfl (by decide) (by decide) rfl))
  have h := h.step (.serve _ _ 0 _ _ _ rfl (.line _ [97] [] rfl rfl (by decide)))
  have h := h.step (.serve _ _ 0 _ _ _ rfl (.answer _ [97] [97] [97] () rfl rfl))
  have h := h.step (.acceptCheck _ rfl)
  have h := h.step (.pollReady _ rfl)
  have h := h.step (.accept _ 8 rfl rfl)
  exact ⟨_, _, h, rfl, rfl, rfl, rfl⟩

/-- There `stop` is called. -/
theorem stop_returns_stalled :
    ∃ (r : Fairness.Run (Step echo)) (t : Thread (List UInt8)), Reachable echo (r.state 0) ∧
      (r.state 0).stopper = .joinAcceptor ∧ (r.state 0).acceptor = .lock 8 1 ∧
      (r.state 0).threads 0 = some t ∧ t.pc = .send [97, 10] false ∧
      ∃ n, (r.state n).stopper = .stopped ∧ (r.state n).acceptor = .exited := by
  obtain ⟨s, t, hs, hidle, hacceptor, ht, hpc⟩ := exists_stalled
  have hs' := hs.step (.stop s hidle)
  obtain ⟨r, hr, hfair⟩ := hs'.inv.exists_fair nofun
  obtain ⟨n, hstopped, -, hexited, -⟩ := stop_returns r (hr ▸ hs') (by simp [hr]) hfair
  exact ⟨r, t, hr ▸ hs', by simp [hr], by simp [hr, hacceptor], by simp [hr, ht], hpc, n,
    hstopped, hexited⟩

end Server

end PacketBalance.ApiServer
