import PacketBalance.ApiServer.Threads
/-!
# Who owns a connection

What holds of the threads of the control socket however their steps are interleaved.  Every
descriptor of a connection belongs to the thread that serves it, or to the acceptor before there
is one; a thread outlives neither its connection nor its element of `clients_`; the mutex is with
who needs it.  So `stop` shuts down the server's own connections only, although numbers of
descriptors are used again, and nothing is used after it is gone.
-/

namespace PacketBalance.ApiServer

variable {σ τ : Type}

namespace Server

open Classical in
structure Fits (c : Client) (t : Thread τ) : Prop where
  fd : c.fd = if t.pc = .exited then none else some t.fd
  done : c.done = true ↔ t.pc = .exited

/-- Every connection is in the hands of one thread, or of the acceptor before it has one. -/
structure Owned (s : Server σ τ) : Prop where
  nodup : (s.clients.map Client.id).Nodup
  client : ∀ c ∈ s.clients, ∃ t, s.threads c.id = some t ∧ Fits c t
  thread : ∀ id t, s.threads id = some t → t.pc ≠ .exited → ∃ c ∈ s.clients, c.id = id
  isOpen : ∀ id t, s.threads id = some t → t.pc.isOpen = true →
    s.table t.fd = some (.connection id)
  socket : ∀ fd id, s.table fd = some (.connection id) → s.acceptor.pending = some (fd, id) ∨
    ∃ t, s.threads id = some t ∧ t.fd = fd ∧ t.pc.isOpen = true
  pending : ∀ fd id, s.acceptor.pending = some (fd, id) →
    s.table fd = some (.connection id) ∧ s.threads id = none ∧ id < s.next
  started : ∀ id t, s.threads id = some t → id < s.next

/-- The mutex is held by who is in a place where it must be held. -/
structure Locked (s : Server σ τ) : Prop where
  worker : ∀ id t, s.threads id = some t → t.pc.critical = true → s.mutex = some (.worker id)
  holder : ∀ id, s.mutex = some (.worker id) → ∃ t, s.threads id = some t ∧ t.pc.critical = true
  acceptor : s.mutex = some .acceptor ↔ s.acceptor.reaping = true
  stopper : s.mutex = some .stopper ↔ s.stopper.shutting = true

def Over (s : Server σ τ) (c : Client) : Prop := s.down c.id = true ∨ s.Exited c.id

/-- How far `stop` has come. -/
structure Halting (s : Server σ τ) : Prop where
  stopping : s.stopper ≠ .idle → s.stopping = true
  acceptor : s.stopper.joined = true → s.acceptor = .exited
  shut : ∀ i, s.stopper = .shut i → ∀ j c, j < i → s.clients[j]? = some c → s.Over c
  cutOff : ∀ i, s.stopper = .join i → ∀ c ∈ s.clients, s.Over c
  join : ∀ i, s.stopper = .join i → ∀ j c, j < i → s.clients[j]? = some c →
    c.joined = true ∧ s.Exited c.id
  listening : s.listening = true ↔ s.stopper ≠ .stopped
  socketFile : s.socketFile = s.listening
  clients : s.stopper = .stopped → s.clients = []

structure Inv (s : Server σ τ) : Prop where
  owned : Owned s
  locked : Locked s
  halting : Halting s
  harm : s.harm = false

theorem inv_init (app : σ) : Inv ({ app } : Server σ τ) where
  owned :=
    { nodup := List.nodup_nil
      client := fun c hc => by simp at hc
      thread := fun id t ht => by simp at ht
      isOpen := fun id t ht => by simp at ht
      socket := fun fd id ht => by simp at ht
      pending := fun fd id hp => by simp [Acceptor.pending] at hp
      started := fun id t ht => by simp at ht }
  locked :=
    { worker := fun id t ht => by simp at ht
      holder := fun id hm => by simp at hm
      acceptor := by simp [Acceptor.reaping]
      stopper := by simp [Stopper.shutting] }
  halting :=
    { stopping := by simp
      acceptor := by simp [Stopper.joined]
      shut := by simp
      cutOff := by simp
      join := by simp
      listening := by simp
      socketFile := rfl
      clients := by simp }
  harm := rfl

/-! ### Steps that move one thread -/

section Moves

variable {s : Server σ τ} {id : Nat} {t t' : Thread τ}

theorem Inv.client_of (h : Inv s) (ht : s.threads id = some t) (hne : t.pc ≠ .exited) :
    ∃ c ∈ s.clients, c.id = id ∧ Fits c t := by
  obtain ⟨c, hc, rfl⟩ := h.owned.thread id t ht hne
  obtain ⟨t', ht', hfits⟩ := h.owned.client c hc
  obtain rfl : t' = t := by simpa [ht] using ht'.symm
  exact ⟨c, hc, rfl, hfits⟩

structure Goes (t t' : Thread τ) : Prop where
  fd : t'.fd = t.fd
  here : t.pc.isOpen = true
  there : t'.pc.isOpen = true

theorem isOpen_ne_exited {pc : Pc τ} (h : pc.isOpen = true) : pc ≠ .exited := by
  rintro rfl
  simp [Pc.isOpen] at h

theorem Owned.goes (h : Owned s) (ht : s.threads id = some t) (hgo : Goes t t') :
    Owned { s with threads := Function.update s.threads id (some t') } where
  nodup := h.nodup
  client c hc := by
    obtain ⟨u, hu, hfits⟩ := h.client c hc
    by_cases hid : c.id = id
    · subst hid
      obtain rfl : t = u := by simpa [ht] using hu
      refine ⟨t', by simp, ?_, ?_⟩
      · rw [hfits.fd, if_neg (isOpen_ne_exited hgo.here), if_neg (isOpen_ne_exited hgo.there),
          hgo.fd]
      · rw [hfits.done]
        exact iff_of_false (isOpen_ne_exited hgo.here) (isOpen_ne_exited hgo.there)
    · exact ⟨u, by simpa [hid] using hu, hfits⟩
  thread i u hu hne := by
    by_cases hi : i = id
    · subst hi
      exact h.thread i t ht (isOpen_ne_exited hgo.here)
    · exact h.thread i u (by simpa [hi] using hu) hne
  isOpen i u hu hopen := by
    by_cases hi : i = id
    · subst hi
      obtain rfl : t' = u := by simpa using hu
      rw [hgo.fd]
      exact h.isOpen i t ht hgo.here
    · exact h.isOpen i u (by simpa [hi] using hu) hopen
  socket fd i hfd := by
    rcases h.socket fd i hfd with hp | ⟨u, hu, hfd', hopen⟩
    · exact .inl hp
    · refine .inr ?_
      by_cases hi : i = id
      · subst hi
        obtain rfl : t = u := by simpa [ht] using hu
        exact ⟨t', by simp, hgo.fd.trans hfd', hgo.there⟩
      · exact ⟨u, by simpa [hi] using hu, hfd', hopen⟩
  pending fd i hp := by
    obtain ⟨htable, hnone, hlt⟩ := h.pending fd i hp
    refine ⟨htable, ?_, hlt⟩
    have hi : i ≠ id := by
      rintro rfl
      simp [ht] at hnone
    simpa [hi] using hnone
  started i u hu := by
    by_cases hi : i = id
    · subst hi
      exact h.started i t ht
    · exact h.started i u (by simpa [hi] using hu)

theorem Locked.goes (h : Locked s) (ht : s.threads id = some t) (t' : Thread τ)
    (hcritical : t'.pc.critical = t.pc.critical) :
    Locked { s with threads := Function.update s.threads id (some t') } where
  worker i u hu hcrit := by
    by_cases hi : i = id
    · subst hi
      obtain rfl : t' = u := by simpa using hu
      exact h.worker i t ht (hcritical ▸ hcrit)
    · exact h.worker i u (by simpa [hi] using hu) hcrit
  holder i hm := by
    obtain ⟨u, hu, hcrit⟩ := h.holder i hm
    by_cases hi : i = id
    · subst hi
      obtain rfl : t = u := by simpa [ht] using hu
      exact ⟨t', by simp, hcritical.trans hcrit⟩
    · exact ⟨u, by simpa [hi] using hu, hcrit⟩
  acceptor := h.acceptor
  stopper := h.stopper

theorem Halting.mono {s' : Server σ τ} (h : Halting s) (hstopper : s'.stopper = s.stopper)
    (hstopping : s'.stopping = s.stopping) (hacceptor : s'.acceptor = s.acceptor)
    (hclients : s'.clients = s.clients) (hlistening : s'.listening = s.listening)
    (hfile : s'.socketFile = s.socketFile) (hdown : ∀ i, s.down i = true → s'.down i = true)
    (hexited : ∀ i, s.Exited i → s'.Exited i) : Halting s' where
  stopping := by rw [hstopper, hstopping]; exact h.stopping
  acceptor := by rw [hstopper, hacceptor]; exact h.acceptor
  shut i hi j c hj hc := by
    rw [hstopper] at hi
    rw [hclients] at hc
    exact (h.shut i hi j c hj hc).imp (hdown _) (hexited _)
  cutOff i hi c hc := by
    rw [hstopper] at hi
    rw [hclients] at hc
    exact (h.cutOff i hi c hc).imp (hdown _) (hexited _)
  join i hi j c hj hc := by
    rw [hstopper] at hi
    rw [hclients] at hc
    exact (h.join i hi j c hj hc).imp_right (hexited _)
  listening := by rw [hstopper, hlistening]; exact h.listening
  socketFile := by rw [hlistening, hfile]; exact h.socketFile
  clients hi := by rw [hclients]; exact h.clients (hstopper ▸ hi)

theorem exited_update {i : Nat} (h : s.Exited i) (ht : s.threads id = some t)
    (hne : t.pc ≠ .exited) (u : Thread τ) :
    ∃ v, Function.update s.threads id (some u) i = some v ∧ v.pc = .exited := by
  obtain ⟨v, hv, hpc⟩ := h
  have hi : i ≠ id := by
    rintro rfl
    obtain rfl : t = v := by simpa [ht] using hv
    exact hne hpc
  exact ⟨v, by simpa [hi] using hv, hpc⟩

theorem Loop.goes {handler : Handler σ τ} {stopping cut : Bool} {k : Kind}
    {x x' : Local σ τ} {parts : List (Part σ τ)} (h : Loop handler stopping cut k x x' parts) :
    Goes x.thread x'.thread ∧ x'.thread.pc.critical = x.thread.pc.critical := by
  cases h with
  | line _ l rest hpc =>
      refine ⟨⟨rfl, by simp [hpc, Pc.isOpen], ?_⟩, ?_⟩
      · dsimp only
        split_ifs <;> rfl
      · dsimp only
        split_ifs <;> simp [hpc, Pc.critical]
  | sendDone _ last hpc =>
      refine ⟨⟨rfl, by simp [hpc, Pc.isOpen], ?_⟩, ?_⟩
      · cases last <;> rfl
      · cases last <;> simp [Local.goto, hpc, Pc.critical]
  | sendInterrupted _ data last hpc =>
      exact ⟨⟨rfl, by simp [hpc, Pc.isOpen], by simp [hpc, Pc.isOpen]⟩, rfl⟩
  | again _ hpc | stop _ hpc | recv _ chunk rest hpc | recvInterrupted _ hpc | recvEnd _ hpc
  | recvFailed _ hpc | more _ hpc | tooLarge _ hpc | handle _ l task task' app' hpc
  | answer _ l task reply app' hpc | send _ data last n hpc | sendFailed _ data last hpc =>
      exact ⟨⟨rfl, by simp [hpc, Pc.isOpen], rfl⟩, by simp [Local.goto, hpc, Pc.critical]⟩

theorem Inv.serve {handler : Handler σ τ} {k : Kind} {x : Local σ τ}
    {parts : List (Part σ τ)} (h : Inv s) (ht : s.threads id = some t)
    (hloop : Loop handler s.stopping (s.cut id) k ⟨s.inbox id, s.app, t⟩ x parts) :
    Inv (s.served id t x parts) := by
  obtain ⟨hgo, hcritical⟩ : Goes t x.thread ∧ x.thread.pc.critical = t.pc.critical :=
    Loop.goes hloop
  refine ⟨{ h.owned.goes ht hgo with }, { h.locked.goes ht x.thread hcritical with }, ?_, ?_⟩
  · refine h.halting.mono rfl rfl rfl rfl rfl rfl (fun _ hd => hd) fun i hi => ?_
    exact exited_update hi ht (isOpen_ne_exited hgo.here) _
  · simp [served, h.harm, stray, h.owned.isOpen id t ht hgo.here]

theorem Locked.free (h : Locked s) (hmutex : s.mutex = none) {i : Nat} {u : Thread τ}
    (hu : s.threads i = some u) : u.pc.critical = false := by
  by_contra hcrit
  have hworker := h.worker i u hu (by simpa using hcrit)
  simp [hmutex] at hworker

theorem Inv.leave (h : Inv s) (ht : s.threads id = some t) (hpc : t.pc = .leave)
    (hmutex : s.mutex = none) :
    Inv { s.goto id t .closing with mutex := some (.worker id) } := by
  have hgo : Goes t { t with pc := .closing } := ⟨rfl, by simp [hpc, Pc.isOpen], rfl⟩
  refine ⟨{ h.owned.goes ht hgo with }, ?_, ?_, h.harm⟩
  · refine ⟨fun i u hu hcrit => ?_, fun i hi => ?_, ?_, ?_⟩
    · by_cases hi : i = id
      · rw [hi]
      · simp only [goto, Function.update_of_ne hi] at hu
        simp [h.locked.free hmutex hu] at hcrit
    · obtain rfl : id = i := by simpa using hi
      exact ⟨_, by simp [goto]; rfl, rfl⟩
    · simpa [goto, hmutex] using h.locked.acceptor
    · simpa [goto, hmutex] using h.locked.stopper
  · refine h.halting.mono rfl rfl rfl rfl rfl rfl (fun _ hd => hd) fun i hi => ?_
    exact exited_update hi ht (isOpen_ne_exited hgo.here) _

theorem Inv.find_client (h : Inv s) (ht : s.threads id = some t) (hne : t.pc ≠ .exited) :
    ∃ c, s.clients.find? (·.id = id) = some c ∧ c.fd = some t.fd := by
  obtain ⟨c, hc, hid, -⟩ := h.client_of ht hne
  cases hfind : s.clients.find? (·.id = id) with
  | none => simpa [hid] using List.find?_eq_none.mp hfind c hc
  | some c' =>
      have hid' : c'.id = id := by simpa using List.find?_some hfind
      obtain ⟨u, hu, hfits⟩ := h.owned.client c' (List.mem_of_find?_eq_some hfind)
      obtain rfl : t = u := by simpa [hid', ht] using hu
      exact ⟨c', rfl, by rw [hfits.fd, if_neg hne]⟩

theorem Inv.closeFd_eq (h : Inv s) (ht : s.threads id = some t) (hopen : t.pc.isOpen = true) :
    s.closeFd id = { s with table := Function.update s.table t.fd none } := by
  obtain ⟨⟨i, fd, done, joined⟩, hfind, hfd⟩ := h.find_client ht (isOpen_ne_exited hopen)
  obtain rfl : fd = some t.fd := hfd
  have htable := h.owned.isOpen id t ht hopen
  rw [closeFd, hfind]
  simp [h.harm, stray, htable]

theorem Owned.close (h : Owned s) (ht : s.threads id = some t) (hpc : t.pc = .closing) :
    Owned { s with
      table := Function.update s.table t.fd none
      threads := Function.update s.threads id (some { t with pc := .marking }) } := by
  have htable := h.isOpen id t ht (by simp [hpc, Pc.isOpen])
  have hother : ∀ fd i, s.table fd = some (.connection i) → i ≠ id → fd ≠ t.fd := by
    rintro fd i hfd hi rfl
    exact hi (by simpa [htable] using hfd.symm)
  refine ⟨h.nodup, fun c hc => ?_, fun i u hu hne => ?_, fun i u hu hopen => ?_,
    fun fd i hfd => ?_, fun fd i hp => ?_, fun i u hu => ?_⟩
  · obtain ⟨u, hu, hfits⟩ := h.client c hc
    by_cases hid : c.id = id
    · subst hid
      obtain rfl : t = u := by simpa [ht] using hu
      exact ⟨_, Function.update_self .., by simp [hfits.fd, hpc], by simp [hfits.done, hpc]⟩
    · exact ⟨u, by simpa [hid] using hu, hfits⟩
  · by_cases hi : i = id
    · subst hi
      exact h.thread i t ht (by simp [hpc])
    · exact h.thread i u (by simpa [hi] using hu) hne
  · by_cases hi : i = id
    · subst hi
      obtain rfl : _ = u := by simpa using hu
      simp [Pc.isOpen] at hopen
    · have hold := h.isOpen i u (by simpa [hi] using hu) hopen
      simpa [hother _ i hold hi] using hold
  · have hne : fd ≠ t.fd := by
      rintro rfl
      simp at hfd
    refine (h.socket fd i (by simpa [hne] using hfd)).imp_right ?_
    rintro ⟨u, hu, hfd', hopen⟩
    have hi : i ≠ id := by
      rintro rfl
      obtain rfl : t = u := by simpa [ht] using hu
      exact hne hfd'.symm
    exact ⟨u, by simpa [hi] using hu, hfd', hopen⟩
  · obtain ⟨hold, hnone, hlt⟩ := h.pending fd i hp
    have hi : i ≠ id := by
      rintro rfl
      simp [ht] at hnone
    exact ⟨by simpa [hother fd i hold hi] using hold, by simpa [hi] using hnone, hlt⟩
  · by_cases hi : i = id
    · subst hi
      exact h.started i t ht
    · exact h.started i u (by simpa [hi] using hu)

theorem Inv.close (h : Inv s) (ht : s.threads id = some t) (hpc : t.pc = .closing) :
    Inv ((s.closeFd id).goto id t .marking) := by
  rw [h.closeFd_eq ht (by simp [hpc, Pc.isOpen])]
  have hcritical : Pc.critical (.marking : Pc τ) = t.pc.critical := by simp [hpc, Pc.critical]
  refine ⟨h.owned.close ht hpc, { h.locked.goes ht { t with pc := .marking } hcritical with }, ?_,
    h.harm⟩
  refine h.halting.mono rfl rfl rfl rfl rfl rfl (fun _ hd => hd) fun i hi => ?_
  exact exited_update hi ht (by simp [hpc]) _

@[simp] theorem markDone_id (i : Nat) (c : Client) :
    (c.markDone i).id = c.id := by
  rw [Client.markDone]
  split_ifs <;> rfl

theorem Owned.mark (h : Owned s) (ht : s.threads id = some t) (hpc : t.pc = .marking) :
    Owned { s with
      clients := s.clients.map (Client.markDone id)
      threads := Function.update s.threads id (some { t with pc := .exited }) } := by
  refine ⟨?_, fun c hc => ?_, fun i u hu hne => ?_, fun i u hu hopen => ?_, fun fd i hfd => ?_,
    fun fd i hp => ?_, fun i u hu => ?_⟩
  · simpa [Function.comp_def] using h.nodup
  · obtain ⟨c, hold, rfl⟩ := List.mem_map.mp hc
    obtain ⟨u, hu, hfits⟩ := h.client c hold
    by_cases hid : c.id = id
    · refine ⟨{ t with pc := .exited }, by simp [hid], ?_, ?_⟩ <;> simp [Client.markDone, hid]
    · exact ⟨u, by simpa [hid] using hu, by simpa [Client.markDone, hid] using hfits⟩
  · have hi : i ≠ id := by
      rintro rfl
      obtain rfl : _ = u := by simpa using hu
      exact hne rfl
    obtain ⟨c, hc, hid⟩ := h.thread i u (by simpa [hi] using hu) hne
    exact ⟨c.markDone id, List.mem_map.mpr ⟨c, hc, rfl⟩, by simpa using hid⟩
  · have hi : i ≠ id := by
      rintro rfl
      obtain rfl : _ = u := by simpa using hu
      simp [Pc.isOpen] at hopen
    exact h.isOpen i u (by simpa [hi] using hu) hopen
  · refine (h.socket fd i hfd).imp_right ?_
    rintro ⟨u, hu, hfd', hopen⟩
    have hi : i ≠ id := by
      rintro rfl
      obtain rfl : t = u := by simpa [ht] using hu
      simp [hpc, Pc.isOpen] at hopen
    exact ⟨u, by simpa [hi] using hu, hfd', hopen⟩
  · obtain ⟨hold, hnone, hlt⟩ := h.pending fd i hp
    have hi : i ≠ id := by
      rintro rfl
      simp [ht] at hnone
    exact ⟨hold, by simpa [hi] using hnone, hlt⟩
  · by_cases hi : i = id
    · subst hi
      exact h.started i t ht
    · exact h.started i u (by simpa [hi] using hu)

theorem Locked.unlock {s' : Server σ τ} {who : Holder} (h : Locked s) (hmutex : s.mutex = some who)
    (hfree : s'.mutex = none)
    (hthreads : ∀ i u, s'.threads i = some u → u.pc.critical = true →
      s.threads i = some u ∧ who ≠ .worker i)
    (hacceptor : s'.acceptor.reaping = true → s.acceptor.reaping = true ∧ who ≠ .acceptor)
    (hstopper : s'.stopper.shutting = true → s.stopper.shutting = true ∧ who ≠ .stopper) :
    Locked s' where
  worker i u hu hcrit := by
    obtain ⟨hold, hne⟩ := hthreads i u hu hcrit
    have hworker := h.worker i u hold hcrit
    exact absurd (Option.some.inj (hmutex.symm.trans hworker)) hne
  holder i hi := by simp [hfree] at hi
  acceptor := by
    refine iff_of_false (by simp [hfree]) fun hreap => ?_
    obtain ⟨hold, hne⟩ := hacceptor hreap
    exact absurd (Option.some.inj (hmutex.symm.trans (h.acceptor.mpr hold))) hne
  stopper := by
    refine iff_of_false (by simp [hfree]) fun hshut => ?_
    obtain ⟨hold, hne⟩ := hstopper hshut
    exact absurd (Option.some.inj (hmutex.symm.trans (h.stopper.mpr hold))) hne

theorem Halting.mark (h : Halting s) (ht : s.threads id = some t) (hne : t.pc ≠ .exited) :
    Halting { s with
      clients := s.clients.map (Client.markDone id)
      threads := Function.update s.threads id (some { t with pc := .exited }) } := by
  have hexited : ∀ i, s.Exited i → ∃ v, Function.update s.threads id
      (some { t with pc := .exited }) i = some v ∧ v.pc = .exited :=
    fun i hi => exited_update hi ht hne _
  refine ⟨h.stopping, h.acceptor, fun i hi j c hj hc => ?_, fun i hi c hc => ?_,
    fun i hi j c hj hc => ?_, h.listening, h.socketFile, fun hi => by simp [h.clients hi]⟩
  · obtain ⟨c, hold, rfl⟩ := Option.map_eq_some_iff.mp (List.getElem?_map .. ▸ hc)
    have hover := h.shut i hi j c hj hold
    exact hover.imp (by simp) fun hex => by simpa [Exited] using hexited _ hex
  · obtain ⟨c, hold, rfl⟩ := List.mem_map.mp hc
    have hover := h.cutOff i hi c hold
    exact hover.imp (by simp) fun hex => by simpa [Exited] using hexited _ hex
  · obtain ⟨c, hold, rfl⟩ := Option.map_eq_some_iff.mp (List.getElem?_map .. ▸ hc)
    obtain ⟨hjoined, hex⟩ := h.join i hi j c hj hold
    refine ⟨?_, by simpa [Exited] using hexited _ hex⟩
    rw [Client.markDone]
    split_ifs <;> exact hjoined

theorem Inv.mark (h : Inv s) (ht : s.threads id = some t) (hpc : t.pc = .marking) :
    Inv { (s.markDone id).goto id t .exited with mutex := none } := by
  have hne : t.pc ≠ .exited := by simp [hpc]
  obtain ⟨c, hc, hid, -⟩ := h.client_of ht hne
  refine ⟨{ h.owned.mark ht hpc with }, ?_, { h.halting.mark ht hne with }, ?_⟩
  · refine h.locked.unlock (h.locked.worker id t ht (by simp [hpc, Pc.critical])) rfl ?_
      (fun hr => ⟨hr, by simp⟩) (fun hs => ⟨hs, by simp⟩)
    intro i u hu hcrit
    have hi : i ≠ id := by
      rintro rfl
      obtain rfl : _ = u := by simpa [goto] using hu
      simp [Pc.critical] at hcrit
    exact ⟨by simpa [goto, markDone, hi] using hu, by simp [Ne.symm hi]⟩
  · simpa [goto, markDone, h.harm] using ⟨c, hc, hid⟩

end Moves

/-! ### The surroundings and the acceptor -/

section Acceptor

variable {s : Server σ τ}

theorem Owned.table (h : Owned s) {table : Nat → Option Socket}
    (hsame : ∀ fd id, table fd = some (.connection id) ↔ s.table fd = some (.connection id)) :
    Owned { s with table } where
  nodup := h.nodup
  client := h.client
  thread := h.thread
  isOpen i u hu hopen := (hsame _ _).mpr (h.isOpen i u hu hopen)
  socket fd i hfd := h.socket fd i ((hsame _ _).mp hfd)
  pending fd i hp := ⟨(hsame _ _).mpr (h.pending fd i hp).1, (h.pending fd i hp).2⟩
  started := h.started

theorem Inv.foreign (h : Inv s) {fd : Nat} {before after : Option Socket}
    (hbefore : s.table fd = before) (hb : ∀ id, before ≠ some (.connection id))
    (ha : ∀ id, after ≠ some (.connection id)) :
    Inv { s with table := Function.update s.table fd after } := by
  refine ⟨h.owned.table fun fd' id => ?_, { h.locked with }, { h.halting with }, h.harm⟩
  by_cases hfd : fd' = fd
  · subst hfd
    simp [ha, hbefore, hb]
  · simp [hfd]

theorem Halting.not_joined (h : Halting s) (hacceptor : s.acceptor ≠ .exited) :
    s.stopper.joined = false := by
  by_contra hjoined
  exact hacceptor (h.acceptor (by simpa using hjoined))

theorem Halting.early {s' : Server σ τ} (h : Halting s) (hearly : s.stopper.joined = false)
    (hstopper : s'.stopper = s.stopper) (hstopping : s'.stopping = s.stopping)
    (hlistening : s'.listening = s.listening) (hfile : s'.socketFile = s.socketFile) :
    Halting s' := by
  have hne : ∀ pc : Stopper, pc.joined = true → s'.stopper ≠ pc := by
    rintro pc hpc heq
    rw [← heq, hstopper, hearly] at hpc
    cases hpc
  refine ⟨by rw [hstopper, hstopping]; exact h.stopping, ?_, ?_, ?_, ?_, ?_, ?_, ?_⟩
  · exact fun hjoined => absurd rfl (hne _ hjoined)
  · exact fun i hi => absurd hi (hne _ rfl)
  · exact fun i hi => absurd hi (hne _ rfl)
  · exact fun i hi => absurd hi (hne _ rfl)
  · rw [hstopper, hlistening]
    exact h.listening
  · rw [hlistening, hfile]
    exact h.socketFile
  · exact fun hi => absurd hi (hne _ rfl)

theorem Inv.acceptor {pc : Acceptor} (h : Inv s) (hrun : s.acceptor ≠ .exited)
    (hpending : pc.pending = s.acceptor.pending) (hreaping : pc.reaping = s.acceptor.reaping) :
    Inv { s with acceptor := pc } where
  owned :=
    { h.owned with
      socket := fun fd id hfd => by rw [hpending]; exact h.owned.socket fd id hfd
      pending := fun fd id hp => h.owned.pending fd id (hpending ▸ hp) }
  locked := { h.locked with acceptor := by rw [hreaping]; exact h.locked.acceptor }
  halting := h.halting.early (h.halting.not_joined hrun) rfl rfl rfl rfl
  harm := h.harm

theorem Owned.accept {fd : Nat} (h : Owned s) (hnone : s.acceptor.pending = none)
    (hfree : s.table fd = none) :
    Owned { s with
      acceptor := .lock fd s.next
      table := Function.update s.table fd (some (.connection s.next))
      next := s.next + 1 } where
  nodup := h.nodup
  client := h.client
  thread := h.thread
  isOpen i u hu hopen := by
    have hold := h.isOpen i u hu hopen
    have hne : u.fd ≠ fd := by
      rintro rfl
      simp [hfree] at hold
    simpa [hne] using hold
  socket fd' i hfd := by
    by_cases hne : fd' = fd
    · subst hne
      obtain rfl : s.next = i := by simpa using hfd
      exact .inl rfl
    · refine .inr ((h.socket fd' i (by simpa [hne] using hfd)).resolve_left ?_)
      simp [hnone]
  pending fd' i hp := by
    obtain ⟨rfl, rfl⟩ : fd = fd' ∧ s.next = i := by simpa [Acceptor.pending] using hp
    refine ⟨by simp, ?_, Nat.lt_succ_self _⟩
    cases ht : s.threads s.next with
    | none => rfl
    | some t => exact absurd (h.started _ t ht) (Nat.lt_irrefl _)
  started i u hu := Nat.lt_succ_of_lt (h.started i u hu)

theorem Inv.accept {fd : Nat} (h : Inv s) (hpc : s.acceptor = .accept)
    (hfree : s.table fd = none) :
    Inv { s with
      acceptor := .lock fd s.next
      table := Function.update s.table fd (some (.connection s.next))
      next := s.next + 1 } where
  owned := h.owned.accept (by rw [hpc]; rfl) hfree
  locked := { h.locked with acceptor := by simpa [hpc, Acceptor.reaping] using h.locked.acceptor }
  halting :=
    h.halting.early (h.halting.not_joined (by simp [hpc])) rfl rfl rfl rfl
  harm := h.harm

theorem Inv.acceptLock {fd id : Nat} (h : Inv s) (hpc : s.acceptor = .lock fd id)
    (hmutex : s.mutex = none) :
    Inv { s with acceptor := .reap 0 fd id, mutex := some .acceptor } where
  owned :=
    { h.owned with
      socket := fun fd' i hfd => by simpa [hpc, Acceptor.pending] using h.owned.socket fd' i hfd
      pending := fun fd' i hp => h.owned.pending fd' i (by simpa [hpc, Acceptor.pending] using hp) }
  locked :=
    { worker := fun i u hu hcrit => by simp [h.locked.free hmutex hu] at hcrit
      holder := fun i hi => by simp at hi
      acceptor := by simp [Acceptor.reaping]
      stopper := by simpa [hmutex] using h.locked.stopper }
  halting := h.halting.early (h.halting.not_joined (by simp [hpc])) rfl rfl rfl rfl
  harm := h.harm

theorem Owned.erase {before after : List Client} {c : Client} (h : Owned s)
    (hclients : s.clients = before ++ c :: after) (hexited : s.Exited c.id) :
    Owned { s with clients := before ++ after } where
  nodup := by
    have hsub : (before ++ after).Sublist s.clients := by
      rw [hclients]
      exact List.Sublist.append_left (List.sublist_cons_self c after) before
    exact h.nodup.sublist (hsub.map Client.id)
  client c' hc' := by
    refine h.client c' ?_
    rw [hclients]
    rcases List.mem_append.mp hc' with hmem | hmem
    · exact List.mem_append_left _ hmem
    · exact List.mem_append_right _ (List.mem_cons_of_mem c hmem)
  thread i u hu hne := by
    obtain ⟨c', hc', hid⟩ := h.thread i u hu hne
    refine ⟨c', ?_, hid⟩
    rw [hclients] at hc'
    rcases List.mem_append.mp hc' with hmem | hmem
    · exact List.mem_append_left _ hmem
    · rcases List.mem_cons.mp hmem with rfl | hmem
      · obtain ⟨t, ht, hpc⟩ := hexited
        rw [hid, hu] at ht
        exact absurd (Option.some.inj ht ▸ hpc) hne
      · exact List.mem_append_right _ hmem
  isOpen := h.isOpen
  socket := h.socket
  pending := h.pending
  started := h.started

theorem Owned.spawn {fd id : Nat} (h : Owned s) (hpending : s.acceptor.pending = some (fd, id)) :
    Owned { s with
      clients := s.clients ++ [{ id, fd := some fd }]
      threads := Function.update s.threads id (some { fd })
      acceptor := .check } := by
  obtain ⟨htable, hnone, hlt⟩ := h.pending fd id hpending
  have hne : ∀ i u, s.threads i = some u → i ≠ id := by
    rintro i u hu rfl
    simp [hnone] at hu
  have hnew : ∀ c ∈ s.clients, c.id ≠ id := by
    intro c hc
    obtain ⟨u, hu, -⟩ := h.client c hc
    exact hne _ u hu
  refine ⟨?_, fun c hc => ?_, fun i u hu hpc => ?_, fun i u hu hopen => ?_, fun fd' i hfd => ?_,
    fun fd' i hp => by simp [Acceptor.pending] at hp, fun i u hu => ?_⟩
  · rw [List.map_append, List.nodup_append]
    refine ⟨h.nodup, by simp, fun a ha b hb => ?_⟩
    obtain ⟨c, hc, rfl⟩ := List.mem_map.mp ha
    rw [List.map_singleton, List.mem_singleton] at hb
    exact hb ▸ hnew c hc
  · rcases List.mem_append.mp hc with hc | hc
    · obtain ⟨u, hu, hfits⟩ := h.client c hc
      exact ⟨u, by simpa [hnew c hc] using hu, hfits⟩
    · obtain rfl := List.mem_singleton.mp hc
      exact ⟨_, Function.update_self .., by simp, by simp⟩
  · by_cases hi : i = id
    · exact ⟨_, List.mem_append_right _ (List.mem_singleton_self _), hi.symm⟩
    · obtain ⟨c, hc, hid⟩ := h.thread i u (by simpa [hi] using hu) hpc
      exact ⟨c, List.mem_append_left _ hc, hid⟩
  · by_cases hi : i = id
    · subst hi
      obtain rfl : _ = u := by simpa using hu
      exact htable
    · exact h.isOpen i u (by simpa [hi] using hu) hopen
  · rcases h.socket fd' i hfd with hp | ⟨u, hu, hfd', hopen⟩
    · obtain ⟨rfl, rfl⟩ : fd = fd' ∧ id = i := by simpa [hpending] using hp
      exact .inr ⟨_, Function.update_self .., rfl, rfl⟩
    · exact .inr ⟨u, by simpa [hne i u hu] using hu, hfd', hopen⟩
  · by_cases hi : i = id
    · rw [hi]
      exact hlt
    · exact h.started i u (by simpa [hi] using hu)

theorem Inv.spawn {i fd id : Nat} (h : Inv s) (hpc : s.acceptor = .reap i fd id) :
    Inv { s with
      clients := s.clients ++ [{ id, fd := some fd }]
      threads := Function.update s.threads id (some { fd })
      acceptor := .check
      mutex := none } where
  owned := { h.owned.spawn (by rw [hpc]; rfl) with }
  locked := by
    refine h.locked.unlock (h.locked.acceptor.mpr (by rw [hpc]; rfl)) rfl (fun j u hu hcrit => ?_)
      (by simp [Acceptor.reaping]) (fun hshut => ⟨hshut, by simp⟩)
    have hj : j ≠ id := by
      rintro rfl
      obtain rfl : _ = u := by simpa using hu
      simp [Pc.critical] at hcrit
    exact ⟨by simpa [hj] using hu, by simp⟩
  halting := h.halting.early (h.halting.not_joined (by simp [hpc])) rfl rfl rfl rfl
  harm := h.harm

end Acceptor

/-! ### `stop` -/

section Stop

variable {s : Server σ τ}

theorem Inv.stop (h : Inv s) (hpc : s.stopper = .idle) :
    Inv { s with stopper := .joinAcceptor, stopping := true } where
  owned := { h.owned with }
  locked := { h.locked with stopper := by simpa [hpc, Stopper.shutting] using h.locked.stopper }
  halting :=
    { stopping := fun _ => rfl
      acceptor := by simp [Stopper.joined]
      shut := by simp
      cutOff := by simp
      join := by simp
      listening := by simpa [hpc] using h.halting.listening
      socketFile := h.halting.socketFile
      clients := by simp }
  harm := h.harm

theorem Inv.joinAcceptor (h : Inv s) (hpc : s.stopper = .joinAcceptor)
    (hexited : s.acceptor = .exited) : Inv { s with stopper := .lock } where
  owned := { h.owned with }
  locked := { h.locked with stopper := by simpa [hpc, Stopper.shutting] using h.locked.stopper }
  halting :=
    { stopping := fun _ => h.halting.stopping (by simp [hpc])
      acceptor := fun _ => hexited
      shut := by simp
      cutOff := by simp
      join := by simp
      listening := by simpa [hpc] using h.halting.listening
      socketFile := h.halting.socketFile
      clients := by simp }
  harm := h.harm

theorem Inv.stopLock (h : Inv s) (hpc : s.stopper = .lock) (hmutex : s.mutex = none) :
    Inv { s with stopper := .shut 0, mutex := some .stopper } where
  owned := { h.owned with }
  locked :=
    { worker := fun i u hu hcrit => by simp [h.locked.free hmutex hu] at hcrit
      holder := fun i hi => by simp at hi
      acceptor := by simpa [hmutex] using h.locked.acceptor
      stopper := by simp [Stopper.shutting] }
  halting :=
    { stopping := fun _ => h.halting.stopping (by simp [hpc])
      acceptor := fun _ => h.halting.acceptor (by rw [hpc]; rfl)
      shut := fun i hi j c hj => by
        obtain rfl : 0 = i := by simpa using hi
        exact absurd hj (Nat.not_lt_zero j)
      cutOff := by simp
      join := by simp
      listening := by simpa [hpc] using h.halting.listening
      socketFile := h.halting.socketFile
      clients := by simp }
  harm := h.harm

/-- The mutex keeps every thread from closing its descriptor while `stop` looks at it. -/
theorem Inv.shutdown_eq {i : Nat} {c : Client} (h : Inv s) (hpc : s.stopper = .shut i)
    (hc : c ∈ s.clients) :
    (s.Exited c.id ∧ s.shutdown c = s) ∨
      s.shutdown c = { s with down := Function.update s.down c.id true } := by
  obtain ⟨t, ht, hfits⟩ := h.owned.client c hc
  have hmutex : s.mutex = some .stopper := h.locked.stopper.mpr (by rw [hpc]; rfl)
  by_cases hexited : t.pc = .exited
  · have hfd : c.fd = none := by rw [hfits.fd, if_pos hexited]
    exact .inl ⟨⟨t, ht, hexited⟩, by rw [shutdown, hfd]⟩
  · have hfd : c.fd = some t.fd := by rw [hfits.fd, if_neg hexited]
    have hopen : t.pc.isOpen = true := by
      cases hu : t.pc with
      | marking =>
          have hworker := h.locked.worker _ t ht (by rw [hu]; rfl)
          simp [hmutex] at hworker
      | exited => exact absurd hu hexited
      | _ => rfl
    have htable := h.owned.isOpen _ t ht hopen
    refine .inr ?_
    rw [shutdown, hfd]
    simp [htable, stray, h.harm]

theorem Inv.shut {i : Nat} {c : Client} (h : Inv s) (hpc : s.stopper = .shut i)
    (hc : s.clients[i]? = some c) : Inv { s.shutdown c with stopper := .shut (i + 1) } := by
  -- whichever way, the connection is over, and nothing else has changed
  obtain ⟨down, heq, hmono, hover⟩ : ∃ down, s.shutdown c = { s with down } ∧
      (∀ id, s.down id = true → down id = true) ∧ (down c.id = true ∨ s.Exited c.id) := by
    rcases h.shutdown_eq hpc (List.mem_of_getElem? hc) with ⟨hexited, heq⟩ | heq
    · exact ⟨s.down, heq, fun _ hd => hd, .inr hexited⟩
    · refine ⟨_, heq, fun id hd => ?_, .inl (Function.update_self ..)⟩
      by_cases hid : id = c.id
      · rw [hid, Function.update_self]
      · rw [Function.update_of_ne hid, hd]
  rw [heq]
  refine ⟨{ h.owned with }, { h.locked with stopper := ?_ }, ?_, h.harm⟩
  · simpa [hpc, Stopper.shutting] using h.locked.stopper
  · refine ⟨fun _ => h.halting.stopping (by simp [hpc]),
      fun _ => h.halting.acceptor (by rw [hpc]; rfl), ?_, by simp, by simp,
      by simpa [hpc] using h.halting.listening, h.halting.socketFile, by simp⟩
    intro i' hi' j c' hj hc'
    obtain rfl : i + 1 = i' := by simpa using hi'
    rcases Nat.lt_succ_iff_lt_or_eq.mp hj with hlt | rfl
    · exact (h.halting.shut i hpc j c' hlt hc').imp (hmono _) id
    · obtain rfl : c = c' := by simpa [hc] using hc'
      exact hover

theorem Inv.shutEnd {i : Nat} (h : Inv s) (hpc : s.stopper = .shut i)
    (hend : s.clients.length ≤ i) : Inv { s with stopper := .join 0, mutex := none } where
  owned := { h.owned with }
  locked := by
    refine h.locked.unlock (h.locked.stopper.mpr (by rw [hpc]; rfl)) rfl
      (fun j u hu _ => ⟨hu, by simp⟩) (fun hreap => ⟨hreap, by simp⟩) (by simp [Stopper.shutting])
  halting :=
    { stopping := fun _ => h.halting.stopping (by simp [hpc])
      acceptor := fun _ => h.halting.acceptor (by rw [hpc]; rfl)
      shut := by simp
      cutOff := fun _ _ c hc => by
        obtain ⟨j, hj⟩ := List.mem_iff_getElem?.mp hc
        obtain ⟨hlt, -⟩ := List.getElem?_eq_some_iff.mp hj
        exact h.halting.shut i hpc j c (Nat.lt_of_lt_of_le hlt hend) hj
      join := fun j hj k c hk => by
        obtain rfl : 0 = j := by simpa using hj
        exact absurd hk (Nat.not_lt_zero k)
      listening := by simpa [hpc] using h.halting.listening
      socketFile := h.halting.socketFile
      clients := by simp }
  harm := h.harm

theorem Inv.join {before after : List Client} {c : Client} (h : Inv s)
    (hclients : s.clients = before ++ c :: after) (hpc : s.stopper = .join before.length)
    (hexited : s.Exited c.id) :
    Inv { s with
      clients := before ++ { c with joined := true } :: after
      stopper := .join (before.length + 1) } := by
  -- an element of the new list is one of the old but for the flag
  have hold : ∀ c' ∈ before ++ { c with joined := true } :: after, ∃ c₀ ∈ s.clients,
      c'.id = c₀.id ∧ c'.fd = c₀.fd ∧ c'.done = c₀.done := by
    intro c' hc'
    rw [hclients]
    rcases List.mem_append.mp hc' with hmem | hmem
    · exact ⟨c', List.mem_append_left _ hmem, rfl, rfl, rfl⟩
    · rcases List.mem_cons.mp hmem with rfl | hmem
      · exact ⟨c, List.mem_append_right _ List.mem_cons_self, rfl, rfl, rfl⟩
      · exact ⟨c', List.mem_append_right _ (List.mem_cons_of_mem c hmem), rfl, rfl, rfl⟩
  have hids : (before ++ { c with joined := true } :: after).map Client.id =
      s.clients.map Client.id := by
    rw [hclients]
    simp
  refine ⟨?_, { h.locked with stopper := ?_ }, ?_, h.harm⟩
  · refine { h.owned with nodup := ?_, client := fun c' hc' => ?_, thread := fun i u hu hne => ?_ }
    · rw [hids]
      exact h.owned.nodup
    · obtain ⟨c₀, hc₀, hid, hfd, hdone⟩ := hold c' hc'
      obtain ⟨t, ht, hfits⟩ := h.owned.client c₀ hc₀
      exact ⟨t, hid ▸ ht, hfd.trans hfits.fd, hdone ▸ hfits.done⟩
    · obtain ⟨c₀, hc₀, rfl⟩ := h.owned.thread i u hu hne
      have hmem : c₀.id ∈ s.clients.map Client.id := List.mem_map_of_mem hc₀
      rw [← hids] at hmem
      obtain ⟨c', hc', hid⟩ := List.mem_map.mp hmem
      exact ⟨c', hc', hid⟩
  · simpa [hpc, Stopper.shutting] using h.locked.stopper
  · refine ⟨fun _ => h.halting.stopping (by simp [hpc]),
      fun _ => h.halting.acceptor (by rw [hpc]; rfl), by simp, fun i hi c' hc' => ?_, ?_,
      by simpa [hpc] using h.halting.listening, h.halting.socketFile, by simp⟩
    · obtain ⟨c₀, hc₀, hid, -⟩ := hold c' hc'
      have hover := h.halting.cutOff _ hpc c₀ hc₀
      rw [Over, ← hid] at hover
      exact hover
    · intro i hi j c' hj hc'
      obtain rfl : before.length + 1 = i := by simpa using hi
      rcases Nat.lt_succ_iff_lt_or_eq.mp hj with hlt | rfl
      · refine h.halting.join _ hpc j c' hlt ?_
        rw [hclients, List.getElem?_append_left hlt]
        rwa [List.getElem?_append_left hlt] at hc'
      · obtain rfl : _ = c' := by simpa using hc'
        exact ⟨rfl, hexited⟩

theorem Inv.clear {i : Nat} (h : Inv s) (hpc : s.stopper = .join i)
    (hend : s.clients.length ≤ i) :
    Inv { s with
      clients := []
      listening := false
      socketFile := if s.listening then false else s.socketFile
      stopper := .stopped
      harm := s.harm || !s.clients.all (·.joined) } := by
  have hall : ∀ c ∈ s.clients, c.joined = true ∧ s.Exited c.id := by
    intro c hc
    obtain ⟨j, hj⟩ := List.mem_iff_getElem?.mp hc
    obtain ⟨hlt, -⟩ := List.getElem?_eq_some_iff.mp hj
    exact h.halting.join i hpc j c (Nat.lt_of_lt_of_le hlt hend) hj
  refine ⟨{ h.owned with nodup := List.nodup_nil, client := by simp, thread := ?_ },
    { h.locked with stopper := ?_ }, ⟨fun _ => h.halting.stopping (by simp [hpc]),
      fun _ => h.halting.acceptor (by rw [hpc]; rfl), by simp, by simp, by simp, by simp, ?_,
      fun _ => rfl⟩, ?_⟩
  · intro id t ht hne
    obtain ⟨c, hc, rfl⟩ := h.owned.thread id t ht hne
    obtain ⟨-, u, hu, hexited⟩ := hall c hc
    rw [ht] at hu
    exact absurd (Option.some.inj hu ▸ hexited) hne
  · simpa [hpc, Stopper.shutting] using h.locked.stopper
  · have hlistening : s.listening = true := h.halting.listening.mpr (by simp [hpc])
    simp [hlistening]
  · simpa [h.harm] using fun c hc => (hall c hc).1

end Stop

theorem Inv.step {handler : Handler σ τ} {k : Kind} {s s' : Server σ τ}
    (h : Inv s) (hstep : Step handler k s s') : Inv s' := by
  cases hstep with
  | peerSend _ id bytes => exact ⟨{ h.owned with }, { h.locked with }, { h.halting with }, h.harm⟩
  | peerClose _ id => exact ⟨{ h.owned with }, { h.locked with }, { h.halting with }, h.harm⟩
  | foreignOpen _ fd hfree => exact h.foreign hfree (by simp) (by simp)
  | foreignClose _ fd hopen => exact h.foreign hopen (by simp) (by simp)
  | elsewhere _ app => exact ⟨{ h.owned with }, { h.locked with }, { h.halting with }, h.harm⟩
  | acceptCheck _ hpc =>
      refine h.acceptor (by simp [hpc]) ?_ ?_
      · cases s.stopping <;> simp [hpc, Acceptor.pending]
      · cases s.stopping <;> simp [hpc, Acceptor.reaping]
  | pollIdle _ hpc => exact h.acceptor (by simp [hpc]) (by rw [hpc]; rfl) (by rw [hpc]; rfl)
  | pollReady _ hpc => exact h.acceptor (by simp [hpc]) (by rw [hpc]; rfl) (by rw [hpc]; rfl)
  | acceptFailed _ hpc => exact h.acceptor (by simp [hpc]) (by rw [hpc]; rfl) (by rw [hpc]; rfl)
  | accept _ fd hpc hfree => exact h.accept hpc hfree
  | acceptLock _ fd id hpc hmutex => exact h.acceptLock hpc hmutex
  | reapSkip _ i fd id c hpc hc hdone =>
      exact h.acceptor (by simp [hpc]) (by rw [hpc]; rfl) (by rw [hpc]; rfl)
  | reapJoin _ fd id before after c hclients hpc hdone hexited =>
      exact ⟨h.owned.erase hclients hexited, { h.locked with },
        h.halting.early (h.halting.not_joined (by simp [hpc])) rfl rfl rfl rfl, h.harm⟩
  | spawn _ i fd id hpc hend => exact h.spawn hpc
  | serve _ _ id t x parts ht hloop => exact h.serve ht hloop
  | leave _ id t ht hpc hmutex => exact h.leave ht hpc hmutex
  | close _ id t ht hpc => exact h.close ht hpc
  | mark _ id t ht hpc => exact h.mark ht hpc
  | stop _ hpc => exact h.stop hpc
  | joinAcceptor _ hpc hexited => exact h.joinAcceptor hpc hexited
  | stopLock _ hpc hmutex => exact h.stopLock hpc hmutex
  | shut _ i c hpc hc => exact h.shut hpc hc
  | shutEnd _ i hpc hend => exact h.shutEnd hpc hend
  | join _ before after c hclients hpc hexited => exact h.join hclients hpc hexited
  | clear _ i hpc hend => exact h.clear hpc hend

theorem Reachable.inv {handler : Handler σ τ} {s : Server σ τ}
    (h : Reachable handler s) : Inv s := by
  obtain ⟨app, ks, hrun⟩ := h
  exact hrun.invariant (I := fun _ s => Inv s) (inv_init app)
    fun _ _ _ _ _ _ hI hstep => hI.step hstep

/-- Once `stop` has returned, every thread has ended. -/
theorem Inv.exited {s : Server σ τ} (h : Inv s) (hstopped : s.stopper = .stopped) {id : Nat}
    {t : Thread τ} (ht : s.threads id = some t) : t.pc = .exited := by
  by_contra hne
  obtain ⟨c, hc, -⟩ := h.owned.thread id t ht hne
  simp [h.halting.clients hstopped] at hc

/-- No interleaving does harm: every call goes to the connection it is meant for, no `Client` is
used after it was destroyed and no thread object destroyed before it was joined.  An open
descriptor of a connection always has one owner who will close it, and `stop` leaves neither
thread nor descriptor nor socket file behind. -/
theorem connections_owned {handler : Handler σ τ} {s : Server σ τ} (h : Reachable handler s) :
    s.harm = false ∧
    (∀ fd id, s.table fd = some (.connection id) ↔ s.acceptor.pending = some (fd, id) ∨
      ∃ t, s.threads id = some t ∧ t.fd = fd ∧ t.pc.isOpen = true) ∧
    (∀ fd id, s.acceptor.pending = some (fd, id) → s.threads id = none) ∧
    (s.stopper = .stopped → s.acceptor = .exited ∧
      (∀ id t, s.threads id = some t → t.pc = .exited) ∧
      (∀ fd id, s.table fd ≠ some (.connection id)) ∧ s.clients = [] ∧
      s.listening = false ∧ s.socketFile = false) := by
  have hinv := h.inv
  refine ⟨hinv.harm, fun fd id => ⟨hinv.owned.socket fd id, ?_⟩,
    fun fd id hp => (hinv.owned.pending fd id hp).2.1, fun hstopped => ?_⟩
  · rintro (hp | ⟨t, ht, rfl, hopen⟩)
    · exact (hinv.owned.pending fd id hp).1
    · exact hinv.owned.isOpen id t ht hopen
  · have hexited := hinv.halting.acceptor (by rw [hstopped]; rfl)
    have hlistening : s.listening = false := by
      simpa [hstopped] using hinv.halting.listening
    refine ⟨hexited, fun id t ht => hinv.exited hstopped ht, fun fd id hfd => ?_,
      hinv.halting.clients hstopped, hlistening, hinv.halting.socketFile.trans hlistening⟩
    rcases hinv.owned.socket fd id hfd with hp | ⟨t, ht, -, hopen⟩
    · simp [hexited, Acceptor.pending] at hp
    · exact isOpen_ne_exited hopen (hinv.exited hstopped ht)

theorem Reachable.step {handler : Handler σ τ} {k : Kind} {s s' : Server σ τ}
    (h : Reachable handler s) (hstep : Step handler k s s') : Reachable handler s' := by
  obtain ⟨app, ks, hrun⟩ := h
  exact ⟨app, ks ++ [k], hrun.snoc hstep⟩

/-- A handler that repeats what it is asked. -/
def echo : Handler Unit (List UInt8) where
  start line := line
  part line app := (.inr line, app)
  left _ := 0
  left_lt _ _ _ _ hpart := by simp at hpart

theorem exists_connected (handler : Handler σ τ) (app : σ) :
    ∃ s : Server σ τ, Reachable handler s ∧ s.app = app ∧ s.threads 0 = some { fd := 7 } ∧
      s.table 8 = none ∧ s.mutex = none ∧ s.next = 1 ∧ s.stopping = false ∧
      s.stopper = .idle ∧ s.acceptor = .check := by
  have h : Reachable handler ({ app } : Server σ τ) := ⟨app, [], rfl⟩
  have h := h.step (.acceptCheck _ rfl)
  have h := h.step (.pollReady _ rfl)
  have h := h.step (.accept _ 7 rfl rfl)
  have h := h.step (.acceptLock _ 7 0 rfl rfl)
  have h := h.step (.spawn _ 0 7 0 rfl (Nat.le_refl 0))
  exact ⟨_, h, rfl, rfl, rfl, rfl, rfl, rfl, rfl, rfl⟩

/-- One connection has its thread, and a second one is waiting for its own. -/
theorem connections_owned_sample :
    ∃ s : Server Unit (List UInt8), Reachable echo s ∧ s.threads 0 = some { fd := 7 } ∧
      s.acceptor.pending = some (8, 1) ∧ s.harm = false ∧ s.table 7 = some (.connection 0) ∧
      s.table 8 = some (.connection 1) ∧ s.threads 1 = none := by
  obtain ⟨s, hs, -, ht, hfree, -, hnext, hrun, -, hpc⟩ := exists_connected echo ()
  have h := hs.step (.acceptCheck s hpc)
  rw [hrun] at h
  have h := h.step (.pollReady _ rfl)
  have h := h.step (.accept _ 8 rfl hfree)
  have hpending : Acceptor.pending (.lock 8 s.next) = some (8, 1) := by rw [hnext]; rfl
  obtain ⟨hharm, hsocket, hnone, -⟩ := connections_owned h
  exact ⟨_, h, ht, hpending, hharm, (hsocket 7 0).mpr (.inr ⟨_, ht, rfl, rfl⟩),
    (hsocket 8 1).mpr (.inl hpending), hnone 8 1 hpending⟩

end Server

end PacketBalance.ApiServer
