import PacketBalance.Conncheck
import Mathlib.Logic.Relation
/-!
# Every connection is counted once

All that the functions of the connection checker do to its counters is a sequence of moves,
each of one connection from one state to another.  A move changes the counters by what it
changes the number of connections in each state, so the counters are those numbers in every
state of a run.
-/

namespace PacketBalance.Conncheck

open Relation

variable {n : Nat}

/-! ## Moves -/

/-- What can happen to the connection `i`. -/
inductive Move (i : Fin n) (s : Runner n) : Runner n → Prop
  | touch (c : Conn) (hc : c.state = (s.conns i).state) : Move i s (s.setConn i c)
  | begun (c : Conn) (hold : (s.conns i).state = .idle) (hc : c.state = .connecting) :
      Move i s { s.setConn i c with pendingConnects := s.pendingConnects + 1 }
  | failedIdle (c : Conn) (err : Nat) (hold : (s.conns i).state = .idle)
      (hc : c.state = .connectFailed) :
      Move i s { s.setConn i c with
        connectFailed := s.connectFailed + 1
        connectFailReasons := s.connectFailReasons.bump err }
  | failedConnecting (c : Conn) (err : Nat) (hold : (s.conns i).state = .connecting)
      (hc : c.state = .connectFailed) :
      Move i s { s.setConn i c with
        pendingConnects := s.pendingConnects - 1
        connectFailed := s.connectFailed + 1
        connectFailReasons := s.connectFailReasons.bump err }
  | connected (c : Conn) (hold : (s.conns i).state = .connecting) (hc : c.state = .opened) :
      Move i s { s.setConn i c with
        pendingConnects := s.pendingConnects - 1
        established := s.established + 1 }
  | broke (c : Conn) (cause : Cause) (now : Int) (hold : (s.conns i).state = .opened)
      (hc : c.state = .broken) :
      Move i s { s.setConn i c with
        timeline := s.timeline.modify (s.second now) (·.bump cause)
        broken := s.broken.bump cause
        brokenByBackend := s.brokenByBackend.bump (s.conns i).backend }

abbrev Moves (i : Fin n) : Runner n → Runner n → Prop := ReflTransGen (Move i)

namespace Runner

variable {i : Fin n} {s : Runner n}

@[simp] theorem setConn_conns_self (s : Runner n) (i : Fin n) (c : Conn) :
    (s.setConn i c).conns i = c := Function.update_self ..

theorem failConnect_moves (h : (s.conns i).state = .idle ∨ (s.conns i).state = .connecting)
    (err : Nat) : Moves i s (s.failConnect i err) := by
  rcases h with h | h
  · have hne : (s.conns i).state ≠ .connecting := by simp [h]
    simp only [failConnect, if_neg hne]
    exact .single (.failedIdle _ err h rfl)
  · simp only [failConnect, if_pos h]
    exact .single (.failedConnecting _ err h rfl)

theorem breakConn_moves (s : Runner n) (i : Fin n) (now : Int) (cause : Cause) :
    Moves i s (s.breakConn i now cause) := by
  rw [breakConn]
  split
  · exact .refl
  · rename_i hopen
    exact .single (.broke _ cause now (not_not.mp hopen) rfl)

theorem sendHeartbeat_moves (s : Runner n) (i : Fin n) (now : Int) (result : SendResult) :
    Moves i s (s.sendHeartbeat i now result) := by
  have htouch : ∀ c : Conn, c.state = (s.conns i).state → Moves i s (s.setConn i c) :=
    fun c hc => .single (.touch c hc)
  cases result with
  | sent => exact htouch _ rfl
  | short => exact htouch _ rfl
  | wouldBlock => exact htouch _ rfl
  | failed err =>
      refine .trans ?_ (breakConn_moves _ i now _)
      exact htouch _ rfl

theorem onConnected_moves (s : Runner n) (i : Fin n) (now : Int) (first : SendResult) :
    Moves i s (s.onConnected i now first) := by
  rw [onConnected]
  split
  · exact .refl
  · rename_i hconnecting
    refine .trans ?_ (sendHeartbeat_moves ..)
    exact .single (.connected _ (not_not.mp hconnecting) rfl)

theorem beginConnect_moves (h : (s.conns i).state = .idle) (now : Int) :
    Moves i s (s.beginConnect i now) := .single (.begun _ h rfl)

theorem startConnect_moves (h : (s.conns i).state = .idle) (now : Int) (calls : ConnectCalls) :
    Moves i s (s.startConnect i now calls) := by
  cases calls with
  | noSocket err => exact failConnect_moves (.inl h) err
  | failed err =>
      refine .trans ?_ (failConnect_moves (.inl (by simpa using h)) err)
      exact .single (.touch _ rfl)
  | inProgress => exact beginConnect_moves h now
  | connected first => exact (beginConnect_moves h now).trans (onConnected_moves ..)

theorem lineLoop_state (o : Options) (now : Int) (c : Conn) :
    (lineLoop o now c).1.state = c.state := by
  fun_induction lineLoop o now c with
  | case1 c h => rfl
  | case2 c h hpos => rfl
  | case3 c h pos hpos line rest hline ih => exact ih
  | case4 c h pos hpos line rest hline id answered hback ih => exact ih
  | case5 c h pos hpos line rest hline id answered hback hid => rfl
  | case6 c h pos hpos line rest hline id answered hback hid ih => exact ih

theorem consumeLines_moves (o : Options) (s : Runner n) (i : Fin n) (now : Int) :
    Moves i s (s.consumeLines o i now) := by
  have htouch : Moves i s (s.setConn i (lineLoop o now (s.conns i)).1) :=
    .single (.touch _ (lineLoop_state ..))
  simp only [consumeLines]
  split
  · exact htouch.trans (breakConn_moves ..)
  · exact htouch

theorem connectEvent_moves (h : (s.conns i).state = .connecting) (now : Int) (ev : Event) :
    Moves i s (s.connectEvent i now ev) := by
  rw [connectEvent]
  split_ifs
  · exact failConnect_moves (.inr h) _
  · exact onConnected_moves ..
  · exact failConnect_moves (.inr h) _
  · exact .refl

theorem receive_moves (o : Options) (s : Runner n) (i : Fin n) (now : Int) (ev : Event) :
    Moves i s (s.receive o i now ev) := by
  have hlines : Moves i s ((s.setConn i { s.conns i with
      input := (s.conns i).input ++ ev.received.flatten }).consumeLines o i now) := by
    refine .trans ?_ (consumeLines_moves ..)
    exact .single (.touch _ rfl)
  rw [receive]
  split
  · exact hlines.trans (breakConn_moves ..)
  · exact hlines.trans (breakConn_moves ..)
  · split
    · exact hlines.trans (breakConn_moves ..)
    · exact hlines

theorem handleEvent_moves (o : Options) (s : Runner n) (i : Fin n) (now : Int) (ev : Event) :
    Moves i s (s.handleEvent o i now ev) := by
  have hconnect : Moves i s
      (if (s.conns i).state = .connecting then s.connectEvent i now ev else s) := by
    split
    · rename_i h
      exact connectEvent_moves h now ev
    · exact .refl
  simp only [handleEvent]
  generalize (if (s.conns i).state = .connecting then s.connectEvent i now ev else s) = s'
    at hconnect ⊢
  split
  · exact hconnect
  · exact hconnect.trans (receive_moves ..)

theorem scanConn_moves (o : Options) (s : Runner n) (i : Fin n) (now : Int)
    (result : SendResult) : Moves i s (s.scanConn o i now result) := by
  simp only [scanConn]
  split
  · rename_i h
    split
    · exact failConnect_moves (.inr h) _
    · exact .refl
  · split_ifs
    · exact breakConn_moves ..
    · exact .refl
    · exact sendHeartbeat_moves ..
    · exact .refl
  · exact .refl

end Runner

/-! ## The accounts -/

def census (conns : Fin n → Conn) (st : ConnState) : Nat :=
  Census.count (fun c => c.state = st) conns

def figure (conns : Fin n → Conn) (st : ConnState) : Int := census conns st

/-- Each counter is the number of connections it stands for. -/
structure Accounts (s : Runner n) : Prop where
  established : s.established = figure s.conns .opened + figure s.conns .broken
  pending : s.pendingConnects = figure s.conns .connecting
  failed : s.connectFailed = figure s.conns .connectFailed
  reasons : Tally.total s.connectFailReasons = s.connectFailed
  causes : s.broken.total = figure s.conns .broken
  timeline : (s.timeline.map ByCause.total).sum = s.broken.total
  backends : Tally.total s.brokenByBackend = s.broken.total
  seconds : 0 < s.timeline.length

theorem ByCause.total_bump (row : ByCause) (cause : Cause) :
    (row.bump cause).total = row.total + 1 := by
  cases cause <;> simp [ByCause.total, ByCause.bump] <;> omega

theorem sum_modify_bump {rows : List ByCause} {sec : Nat} (h : sec < rows.length) (cause : Cause) :
    ((rows.modify sec (·.bump cause)).map ByCause.total).sum =
      (rows.map ByCause.total).sum + 1 := by
  induction rows generalizing sec with
  | nil => simp at h
  | cons row rows ih =>
      cases sec with
      | zero =>
          simp only [List.modify_zero_cons, List.map_cons, List.sum_cons, ByCause.total_bump]
          omega
      | succ sec =>
          simp only [List.modify_succ_cons, List.map_cons, List.sum_cons]
          rw [ih (by simpa using h)]
          omega

theorem Runner.second_lt {s : Runner n} (h : 0 < s.timeline.length) (now : Int) :
    s.second now < s.timeline.length := by
  simp only [Runner.second]
  split <;> omega

theorem figure_update {conns : Fin n → Conn} {i : Fin n} {c : Conn} {a b : ConnState}
    (ha : (conns i).state = a) (hb : c.state = b) (st : ConnState) :
    figure (Function.update conns i c) st =
      figure conns st - (if a = st then 1 else 0) + (if b = st then 1 else 0) := by
  have hcount := Census.count_update (fun c : Conn => c.state = st) conns i c
  simp only [ha, hb] at hcount
  simp only [figure, census]
  split_ifs at hcount ⊢ <;> omega

theorem Move.accounts {i : Fin n} {s s' : Runner n} (hmove : Move i s s') (h : Accounts s) :
    Accounts s' := by
  obtain ⟨hestablished, hpending, hfailed, hreasons, hcauses, htimeline, hbackends, hseconds⟩ := h
  cases hmove with
  | touch c hc =>
      have hsame : ∀ st, figure (Function.update s.conns i c) st = figure s.conns st := by
        intro st
        rw [figure_update rfl hc st]
        omega
      refine ⟨?_, ?_, ?_, hreasons, ?_, htimeline, hbackends, hseconds⟩ <;>
        simpa only [Runner.setConn, hsame]
  | begun c hold hc =>
      refine ⟨?_, ?_, ?_, hreasons, ?_, htimeline, hbackends, hseconds⟩ <;>
        simp only [Runner.setConn, figure_update hold hc, reduceCtorEq, if_true, if_false] <;> omega
  | failedIdle c err hold hc =>
      refine ⟨?_, ?_, ?_, ?_, ?_, htimeline, hbackends, hseconds⟩ <;>
        simp only [Runner.setConn, figure_update hold hc, reduceCtorEq, if_true, if_false,
          Tally.total_bump] <;> omega
  | failedConnecting c err hold hc =>
      refine ⟨?_, ?_, ?_, ?_, ?_, htimeline, hbackends, hseconds⟩ <;>
        simp only [Runner.setConn, figure_update hold hc, reduceCtorEq, if_true, if_false,
          Tally.total_bump] <;> omega
  | connected c hold hc =>
      refine ⟨?_, ?_, ?_, hreasons, ?_, htimeline, hbackends, hseconds⟩ <;>
        simp only [Runner.setConn, figure_update hold hc, reduceCtorEq, if_true, if_false] <;> omega
  | broke c cause now hold hc =>
      have hsecond := Runner.second_lt hseconds now
      refine ⟨?_, ?_, ?_, hreasons, ?_, ?_, ?_, ?_⟩ <;>
        simp only [Runner.setConn, figure_update hold hc, reduceCtorEq, if_true, if_false,
          Tally.total_bump, ByCause.total_bump, sum_modify_bump hsecond, List.length_modify] <;>
        omega

theorem Moves.accounts {i : Fin n} {s s' : Runner n} (hmoves : Moves i s s') (h : Accounts s) :
    Accounts s' := by
  induction hmoves with
  | refl => exact h
  | tail _ hmove ih => exact hmove.accounts ih

/-! ## The other connections -/

theorem Moves.others {i j : Fin n} {s s' : Runner n} (hmoves : Moves i s s') (hj : j ≠ i) :
    s'.conns j = s.conns j := by
  induction hmoves with
  | refl => rfl
  | tail _ hmove ih =>
      rw [← ih]
      cases hmove <;> exact Function.update_of_ne hj ..

theorem Runner.handleEvent_idle {s : Runner n} {i : Fin n} (h : (s.conns i).state = .idle)
    (o : Options) (now : Int) (ev : Event) : s.handleEvent o i now ev = s := by
  simp [Runner.handleEvent, h]

theorem Runner.scanConn_idle {s : Runner n} {i : Fin n} (h : (s.conns i).state = .idle)
    (o : Options) (now : Int) (result : SendResult) : s.scanConn o i now result = s := by
  simp [Runner.scanConn, h]

/-! ## Runs -/

/-- What the checker can come to, with the number of connections it has started: at any time it
starts the next connection, looks at an event or looks at a connection's timers. -/
inductive Reached (o : Options) (t0 : Int) : Runner n → Nat → Prop
  | start : Reached o t0 (.start n o t0) 0
  | connect {s : Runner n} {k : Nat} (h : Reached o t0 s k) (hk : k < n) (now : Int)
      (calls : ConnectCalls) : Reached o t0 (s.startConnect ⟨k, hk⟩ now calls) (k + 1)
  | event {s : Runner n} {k : Nat} (h : Reached o t0 s k) (i : Fin n) (now : Int) (ev : Event) :
      Reached o t0 (s.handleEvent o i now ev) k
  | scan {s : Runner n} {k : Nat} (h : Reached o t0 s k) (i : Fin n) (now : Int)
      (result : SendResult) : Reached o t0 (s.scanConn o i now result) k

def Fresh (s : Runner n) (k : Nat) : Prop := ∀ j : Fin n, k ≤ j → (s.conns j).state = .idle

theorem Fresh.of_moves {s s' : Runner n} {k : Nat} {i : Fin n} (h : Fresh s k)
    (hmoves : Moves i s s') (hidle : (s.conns i).state = .idle → s' = s) : Fresh s' k := by
  intro j hj
  by_cases hji : j = i
  · rw [hidle (hji ▸ h j hj)]
    exact h j hj
  · rw [hmoves.others hji]
    exact h j hj

theorem accounts_start (o : Options) (t0 : Int) : Accounts (.start n o t0) := by
  have hnone : ∀ st, st ≠ .idle → figure (n := n) (fun _ => {}) st = 0 := by
    intro st hst
    simp [figure, census, Census.count, Ne.symm hst]
  have hrow : ByCause.total (fun _ => 0) = 0 := rfl
  refine ⟨?_, ?_, ?_, rfl, ?_, ?_, rfl, ?_⟩
  · simp [Runner.start, hnone]
  · simp [Runner.start, hnone]
  · simp [Runner.start, hnone]
  · simp [Runner.start, hnone, hrow]
  · simp [Runner.start, hrow]
  · simp [Runner.start]

theorem Reached.sound {o : Options} {t0 : Int} {s : Runner n} {k : Nat} (h : Reached o t0 s k) :
    Accounts s ∧ Fresh s k := by
  induction h with
  | start => exact ⟨accounts_start o t0, fun _ _ => rfl⟩
  | @connect s k h hk now calls ih =>
      obtain ⟨hacc, hfresh⟩ := ih
      have hmoves := Runner.startConnect_moves (hfresh ⟨k, hk⟩ (Nat.le_refl k)) now calls
      refine ⟨hmoves.accounts hacc, fun j hj => ?_⟩
      have hne : j ≠ ⟨k, hk⟩ := fun heq => by simp [heq] at hj
      rw [hmoves.others hne]
      exact hfresh j (by omega)
  | @event s k h i now ev ih =>
      obtain ⟨hacc, hfresh⟩ := ih
      have hmoves := Runner.handleEvent_moves o s i now ev
      exact ⟨hmoves.accounts hacc,
        hfresh.of_moves hmoves fun hidle => Runner.handleEvent_idle hidle o now ev⟩
  | @scan s k h i now result ih =>
      obtain ⟨hacc, hfresh⟩ := ih
      have hmoves := Runner.scanConn_moves o s i now result
      exact ⟨hmoves.accounts hacc,
        hfresh.of_moves hmoves fun hidle => Runner.scanConn_idle hidle o now result⟩

/-! ## The loop of `run` -/

section Run

variable {o : Options} {t0 : Int}

theorem Reached.connectDue {s : Runner n} {k : Nat} (h : Reached o t0 s k) (due : Nat)
    (t : Turn n) : Reached o t0 (connectDue due t s k).1 (connectDue due t s k).2 := by
  fun_induction Conncheck.connectDue due t s k with
  | case1 s k hk ih => exact ih (h.connect hk.1 _ _)
  | case2 s k hk => exact h

theorem Reached.events {s : Runner n} {k : Nat} (h : Reached o t0 s k) (now : Int)
    (events : List (Fin n × Event)) :
    Reached o t0 (events.foldl (fun s e => s.handleEvent o e.1 now e.2) s) k := by
  induction events generalizing s with
  | nil => exact h
  | cons e events ih => exact ih (h.event e.1 now e.2)

theorem Reached.scanAll {s : Runner n} {k : Nat} (h : Reached o t0 s k) (now : Int)
    (results : Fin n → SendResult) : Reached o t0 (s.scan o now results) k := by
  rw [Runner.scan]
  induction List.finRange n generalizing s with
  | nil => exact h
  | cons i rest ih => exact ih (h.scan i now (results i))

theorem Reached.turn {l : Loop n} (h : Reached o t0 l.runner l.nextIdx) (t : Turn n) :
    Reached o t0 (l.turn o t).runner (l.turn o t).nextIdx := by
  have hramp : Reached o t0 (l.ramp o t).runner (l.ramp o t).nextIdx := by
    rw [Loop.ramp]
    split
    · exact h.connectDue _ t
    · exact h
  have hsnapshot : Reached o t0 (l.ramp o t).snapshot.runner (l.ramp o t).snapshot.nextIdx := by
    rw [Loop.snapshot]
    split
    · exact hramp
    · exact hramp
  simp only [Loop.turn]
  split
  · exact (hsnapshot.events _ _).scanAll _ _
  · exact hsnapshot.events _ _

theorem reached_run (o : Options) (t0 : Int) (turns : List (Turn n)) :
    Reached o t0 (run o n t0 turns).runner (run o n t0 turns).nextIdx := by
  have hloop : ∀ (turns : List (Turn n)) (l : Loop n), Reached o t0 l.runner l.nextIdx →
      Reached o t0 (turns.foldl (Loop.turn o) l).runner (turns.foldl (Loop.turn o) l).nextIdx := by
    intro turns
    induction turns with
    | nil => exact fun l h => h
    | cons t turns ih => exact fun l h => ih _ (h.turn t)
  exact hloop turns _ .start

end Run

/-! ## The report -/

theorem total_takeSnapshot (s : Runner n) :
    Tally.total s.takeSnapshot = census s.conns .opened := by
  have htotal := Tally.total_foldl_bump (fun i => (s.conns i).state = .opened)
    (fun i => (s.conns i).backend) (List.finRange n) []
  rw [Census.countP_finRange (fun c : Conn => c.state = .opened) s.conns] at htotal
  exact htotal.trans (Nat.zero_add _)

theorem census_add_le (conns : Fin n → Conn) :
    census conns .opened + census conns .broken + census conns .connectFailed ≤ n := by
  have hopen := Census.count_add_count (fun c : Conn => c.state = .opened)
    (fun c => c.state = .broken) (by simp +contextual) conns
  have hfailed := Census.count_add_count
    (fun c : Conn => c.state = .opened ∨ c.state = .broken)
    (fun c => c.state = .connectFailed) (by rintro c (h | h) <;> simp [h]) conns
  have hall := Census.count_le_card
    (fun c : Conn => (c.state = .opened ∨ c.state = .broken) ∨ c.state = .connectFailed) conns
  simp only [census]
  rw [hopen, hfailed]
  simpa using hall

/-- The checker accounts for every connection exactly once, whatever it meets: at any time its
counters are the numbers of connections in the states they stand for, the causes, the seconds
and the backends each add up to the number of broken ones, and the report adds up. -/
theorem connections_counted_once (n : Nat) (o : Options) (t0 : Int) :
    (∀ (s : Runner n) (k : Nat), Reached o t0 s k →
      s.established = census s.conns .opened + census s.conns .broken ∧
      s.pendingConnects = census s.conns .connecting ∧
      s.connectFailed = census s.conns .connectFailed ∧
      s.brokenTotal = census s.conns .broken ∧
      (s.timeline.map ByCause.total).sum = s.brokenTotal ∧
      Tally.total s.brokenByBackend = s.brokenTotal ∧
      s.report.established = s.report.survived + s.report.broken ∧
      s.report.established + s.report.connectFailed ≤ n) ∧
    ∀ turns : List (Turn n), ∃ k, Reached o t0 (run o n t0 turns).runner k := by
  refine ⟨fun s k hreached => ?_, fun turns => ⟨_, reached_run o t0 turns⟩⟩
  obtain ⟨hacc, -⟩ := hreached.sound
  have hestablished : s.established = census s.conns .opened + census s.conns .broken := by
    have h := hacc.established
    simp only [figure] at h
    omega
  have hfailed : s.connectFailed = census s.conns .connectFailed := Int.ofNat_inj.mp hacc.failed
  have hbroken : s.brokenTotal = census s.conns .broken := Int.ofNat_inj.mp hacc.causes
  have hsurvived := total_takeSnapshot s
  have hall := census_add_le s.conns
  refine ⟨hestablished, hacc.pending, hfailed, hbroken, hacc.timeline, hacc.backends, ?_, ?_⟩
  · simp only [Runner.report]
    omega
  · simp only [Runner.report]
    omega

/-- Three connections: one is refused, one is made and closed by its peer at once, and one
stays open. -/
theorem connections_counted_once_sample :
    let s := ((((Runner.start 3 {} 0).startConnect 0 0 (.failed econnrefused)).startConnect 1 0
      (.connected .sent)).startConnect 2 0 (.connected .sent)).handleEvent {} 1 7
      { inp := true, last := .eof }
    s.report.established = s.report.survived + s.report.broken ∧ s.report = ⟨2, 1, 1, 1⟩ := by
  intro s
  have hreached : Reached {} 0 s 3 :=
    .event (.connect (.connect (.connect .start (by decide) 0 _) (by decide) 0 _) (by decide) 0 _)
      1 7 _
  exact ⟨((connections_counted_once 3 {} 0).1 s 3 hreached).2.2.2.2.2.2.1, by decide +kernel⟩

end PacketBalance.Conncheck
