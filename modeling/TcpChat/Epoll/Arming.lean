import TcpChat.Epoll.Wiring

/-!
# The registrations of the `epoll` server's clients

A client's entry in the interest list is one-shot: `epoll_wait` disarms it when it reports it, and `HandleClients`
has to arm it again.  After `EPOLLOUT` it does.  After `EPOLLIN` alone it does not; then the entry is armed only if
another client of the batch broadcasts something.

* `handleClients_spec` — what the handler of an event does to its client and to the others;
* `handleEvents_rearmed` — a batch leaves every client armed, if each event arms its client or another one does;
* `armed` — in every run of such batches all clients are armed whenever `epoll_wait` is called.
-/

namespace TcpChat.Epoll

open TcpChat.Lib TcpChat.EventLoop

/-! ## Events -/

/-- The answers make `Read` return `false`. -/
def readFails : List Answer → Bool
  | .recv (.bytes _) :: l => readFails l
  | .recv .closed :: _ => true
  | .recv (.error e) :: _ => !e.again
  | _ => false

/-- The answers begin with data. -/
def receives : List Answer → Bool
  | .recv (.bytes _) :: _ => true
  | _ => false

namespace Event

/-- `event & (EPOLLERR | EPOLLHUP | EPOLLRDHUP)` -/
def HangsUp (e : Event) : Prop := e.events &&& (epollErr ||| epollHup ||| epollRdHup) ≠ 0

/-- The handler closes the client or calls `ModClientWritable` for it. -/
def Settles (e : Event) : Prop :=
  e.HangsUp ∨ (e.events &&& epollIn ≠ 0 ∧ readFails e.answers) ∨ e.events &&& epollOut ≠ 0

/-- The handler broadcasts something. -/
def Broadcasts (e : Event) : Prop := ¬ e.HangsUp ∧ e.events &&& epollIn ≠ 0 ∧ receives e.answers

instance : DecidablePred HangsUp := fun _ => inferInstanceAs (Decidable (_ ≠ _))
instance : DecidablePred Settles := fun _ => inferInstanceAs (Decidable (_ ∨ _))
instance : DecidablePred Broadcasts := fun _ => inferInstanceAs (Decidable (_ ∧ _))

end Event

variable {s s' : Server} {fd g : Fd} {l l' : List Answer} {e : Event} {u : Unit}

theorem readFails_append (chunks : List (List UInt8)) :
    readFails (chunks.map (fun x => .recv (.bytes x)) ++ l) = readFails l := by
  induction chunks with
  | nil => rfl
  | cons x chunks ih => rw [List.map_cons, List.cons_append, readFails, ih]

/-- The first part of `HandleClients`: `Read`, if the event says so. -/
theorem read_spec {c : ClientSession} {b : Bool} (hw : Wired s) (hc : s.clients.lookup fd = some c)
    (h : (if e.events &&& epollIn ≠ 0 then read c.id else pure true) s e.answers = .ret b s' l') :
    Spares fd s s' ∧ s'.clients.lookup fd = some c ∧ s'.interest fd = s.interest fd ∧
      (e.Broadcasts → ∀ g, g ≠ fd → g ∈ s.clients → Rearmed s' g) ∧
      (b = false ↔ e.events &&& epollIn ≠ 0 ∧ readFails e.answers) := by
  by_cases hin : e.events &&& epollIn ≠ 0
  · rw [if_pos hin] at h
    obtain ⟨chunks, rfl, -, r, hl, hr⟩ := ClientSession.read_ret h
    obtain ⟨hsp, hown, hint, hcast⟩ := foldl_broadcastMsg hw hc chunks
    refine ⟨hsp, hown, hint, fun hb => hcast ?_, ?_⟩
    · rintro rfl
      obtain ⟨-, -, hrec⟩ := hb
      rw [hl] at hrec
      rcases hr with ⟨rfl, -⟩ | ⟨e', rfl, -⟩ <;> cases hrec
    · rw [hl, readFails_append]
      rcases hr with ⟨rfl, rfl⟩ | ⟨e', rfl, rfl⟩ <;> simp [readFails, hin]
  · rw [if_neg hin] at h
    obtain ⟨rfl, rfl, -⟩ := Prog.pure_ret.1 h
    exact ⟨.refl fd s, hc, rfl, fun hb => absurd hb.2.1 hin, by simp [hin]⟩

/-- **What `HandleClients` does.** -/
theorem handleClients_spec (hw : Wired s) (hl : e.fd ∉ s.listenSockets)
    (h : handleClients e.fd e.events s e.answers = .ret u s' l') :
    Spares e.fd s s' ∧
      (e.Broadcasts → e.fd ∈ s.clients → ∀ g, g ≠ e.fd → g ∈ s.clients → Rearmed s' g) ∧
      (e.fd ∈ s'.clients → e.fd ∈ s.clients ∧ (Rearmed s e.fd ∨ e.Settles → Rearmed s' e.fd)) := by
  have hclose : ∀ {t t' : Server} {k k' : List Answer} {v : Unit}, Wired t → e.fd ∉ t.listenSockets →
      closeClient e.fd t k = .ret v t' k' → Spares e.fd t t' ∧ e.fd ∉ t'.clients :=
    fun hw hl hclose => (closeClient_ret (fun c hc => hw.socket _ c hc) hclose).spares hl
  by_cases hup : e.events &&& (epollErr ||| epollHup ||| epollRdHup) ≠ 0
  · rw [handleClients, if_pos hup] at h
    obtain ⟨hsp, hgone⟩ := hclose hw hl h
    exact ⟨hsp, fun hb => absurd hup hb.1, fun hin => absurd hin hgone⟩
  rw [handleClients, if_neg hup] at h
  obtain ⟨t, t', k, hget, h⟩ := Prog.bind_ret.1 h
  obtain ⟨rfl, rfl, rfl⟩ := Prog.get_ret.1 hget
  cases hc : s.clients.lookup e.fd with
  | none =>
    have hgone : e.fd ∉ s.clients := AList.lookup_eq_none.1 hc
    simp only [hc] at h
    obtain ⟨-, rfl, -⟩ := Prog.pure_ret.1 h
    exact ⟨.refl _ s, fun _ hin => absurd hin hgone, fun hin => absurd hin hgone⟩
  | some c =>
    simp only [hc] at h
    obtain ⟨readable, t, k, hread, h⟩ := Prog.bind_ret.1 h
    obtain ⟨hsp, hown, hint, hcast, hfails⟩ := read_spec hw hc hread
    have hwt : Wired t := hsp.wired hw
    have hlt : e.fd ∉ t.listenSockets := hsp.listenSockets ▸ hl
    have hint' : e.fd ∈ s.clients := mem_clients.2 ⟨c, hc⟩
    -- What follows spares the other clients, so that a broadcast has armed them for good.
    have done : ∀ {t' : Server}, Spares e.fd t t' →
        (e.fd ∈ t'.clients → Rearmed s e.fd ∨ e.Settles → Rearmed t' e.fd) →
        Spares e.fd s t' ∧ (e.Broadcasts → e.fd ∈ s.clients → ∀ g, g ≠ e.fd → g ∈ s.clients → Rearmed t' g) ∧
          (e.fd ∈ t'.clients → e.fd ∈ s.clients ∧ (Rearmed s e.fd ∨ e.Settles → Rearmed t' e.fd)) :=
      fun ht hr => ⟨hsp.trans ht, fun hb _ g hg hlive => ht.rearmed g hg (hcast hb g hg hlive),
        fun hin => ⟨hint', hr hin⟩⟩
    cases readable with
    | false =>
      obtain ⟨ht, hgone⟩ := hclose hwt hlt h
      exact done ht fun hin => absurd hin hgone
    | true =>
      by_cases hout : e.events &&& epollOut ≠ 0
      · simp only [if_pos, if_pos hout] at h
        obtain ⟨writable, t₂, k₂, hwrite, h⟩ := Prog.bind_ret.1 h
        obtain ⟨counts, rfl⟩ := ClientSession.write_ret hwrite
        obtain ⟨ht₂, hin₂⟩ := foldl_accepted_spares hown counts
        cases writable with
        | false =>
          obtain ⟨ht, hgone⟩ := hclose (ht₂.wired hwt) (ht₂.listenSockets ▸ hlt) h
          exact done (ht₂.trans ht) fun hin => absurd hin hgone
        | true =>
          obtain ⟨rfl, -⟩ := Prog.modify_ret.1 h
          obtain ⟨ht, hre⟩ := modClientWritable_spares (ht₂.wired hwt) hin₂
          exact done (ht₂.trans ht) fun _ _ => hre
      · simp only [if_pos, if_neg hout] at h
        obtain ⟨-, rfl, -⟩ := Prog.pure_ret.1 h
        refine done (.refl _ t) fun _ hr => ?_
        rcases hr with ⟨d, hd, hr⟩ | hr | hr | hr
        · obtain rfl : d = c := Option.some.inj (hd.symm.trans hc)
          exact ⟨d, hown, hint.trans hr⟩
        · exact absurd hr hup
        · exact absurd (hfails.2 hr) (by simp)
        · exact absurd hr hout

/-! ## Listeners -/

/-- What the handler of a listener does to the clients: they stay, what is armed stays armed, and new clients are
armed. -/
structure Grows (s s' : Server) : Prop where
  wired : Wired s → Wired s'
  live : ∀ g, g ∈ s.clients → g ∈ s'.clients
  new : ∀ g, g ∈ s'.clients → g ∈ s.clients ∨ Rearmed s' g
  rearmed : ∀ g, Rearmed s g → Rearmed s' g
  running : s.running = false → s'.running = false
  listenSockets : s'.listenSockets = s.listenSockets

theorem Grows.refl (s : Server) : Grows s s := ⟨id, fun _ => id, fun _ => .inl, fun _ => id, id, rfl⟩

theorem Grows.trans {t : Server} (h : Grows s s') (h' : Grows s' t) : Grows s t where
  wired := h'.wired ∘ h.wired
  live g := h'.live g ∘ h.live g
  new g hg := (h'.new g hg).elim (fun hs' => (h.new g hs').imp_right (h'.rearmed g)) .inr
  rearmed g := h'.rearmed g ∘ h.rearmed g
  running := h'.running ∘ h.running
  listenSockets := h'.listenSockets.trans h.listenSockets

/-- The session that `AcceptAll` makes. -/
def newClient (s : Server) (cs : Fd) : ClientSession := ⟨s.count, some cs, [], s.log.length, []⟩

theorem addClientToEpoll_grows {cs : Fd} (hw : Wired s) (hopen : ¬ s.IsOpen cs) :
    Grows s (addClientToEpoll cs (s.emplace cs)) := by
  have hclient : cs ∉ s.clients := fun h => hopen (hw.client cs h).1
  have hlisten : cs ∉ s.listenSockets := fun h => hopen (hw.listener cs h)
  have hnone : s.interest cs = none := by
    by_contra hi
    rcases hw.registered cs (Option.isSome_iff_ne_none.2 hi) with h | h
    · exact hlisten h
    · exact hclient h
  have hlookup : ∀ g, (s.emplace cs).clients.lookup g = if g = cs then some (newClient s cs) else s.clients.lookup g :=
    fun g => Table.lookup_emplace_of_notMem hclient
  have hadd : addClientToEpoll cs (s.emplace cs) = { s.emplace cs with
      interest := Function.update s.interest cs (some ⟨clientMask (newClient s cs), true⟩) } := by
    have hi : (s.emplace cs).interest cs = none := hnone
    simp only [addClientToEpoll, hlookup, if_pos, epollCtlAdd, hi]
    rfl
  have hmem : ∀ g, g ∈ (s.emplace cs).clients ↔ g = cs ∨ g ∈ s.clients := fun g => by
    rw [← AList.lookup_isSome, ← AList.lookup_isSome, hlookup]
    by_cases hg : g = cs <;> simp [hg]
  have hne : ∀ g, g ∈ s.clients → g ≠ cs := fun g hg he => hclient (he ▸ hg)
  rw [hadd]
  refine ⟨fun _ => ⟨?_, fun g c hc => ?_, fun g hg => ?_, fun g hg => ?_, fun g hg => ?_⟩,
    fun g hg => (hmem g).2 (.inr hg),
    fun g hg => ?_, fun g hr => ?_, id, rfl⟩
  · exact ⟨(hw.numbered.emplace cs).lt, (hw.numbered.emplace cs).inj⟩
  · rw [hlookup] at hc
    split at hc
    next he => exact he ▸ (Option.some.inj hc) ▸ rfl
    next => exact hw.socket g c hc
  · rcases (hmem g).1 hg with rfl | hg
    · exact ⟨Function.update_self .., hlisten, by simp⟩
    · obtain ⟨ho, hl, hi⟩ := hw.client g hg
      refine ⟨(Function.update_of_ne (hne g hg) ..).trans ho, hl, ?_⟩
      simpa [Function.update_of_ne (hne g hg)] using hi
  · have hg' : g ≠ cs := fun he => hlisten (he ▸ hg)
    exact (Function.update_of_ne hg' ..).trans (hw.listener g hg)
  · rw [hmem]
    by_cases he : g = cs
    · exact .inr (.inl he)
    · refine (hw.registered g ?_).imp_right .inr
      simpa [Function.update_of_ne he] using hg
  · rcases (hmem g).1 hg with rfl | hg
    · exact .inr ⟨newClient s g, by rw [hlookup, if_pos rfl], Function.update_self ..⟩
    · exact .inl hg
  · obtain ⟨c, hc, hr⟩ := hr
    have he := hne g (mem_clients.2 ⟨c, hc⟩)
    exact ⟨c, by rw [hlookup, if_neg he, hc], (Function.update_of_ne he ..).trans hr⟩

theorem acceptAll_grows (hw : Wired s) (h : acceptAll s l = .ret u s' l') : Grows s s' := by
  fun_induction acceptAll s l with
  | case2 s cs l hopen ih =>
    have hgrows := addClientToEpoll_grows hw hopen
    exact hgrows.trans (ih (hgrows.wired hw) h)
  | case3 =>
    cases h
    exact .refl _
  | _ => cases h

theorem handleListeners_grows {events : UInt32} (hw : Wired s) (h : handleListeners events s l = .ret u s' l') :
    Grows s s' ∧ (events &&& (epollErr ||| epollHup ||| epollRdHup) ≠ 0 → s'.running = false) := by
  by_cases hup : events &&& (epollErr ||| epollHup ||| epollRdHup) ≠ 0
  · rw [handleListeners, if_pos hup] at h
    obtain ⟨rfl, -⟩ := Prog.modify_ret.1 h
    exact ⟨⟨fun hw => ⟨⟨hw.numbered.lt, hw.numbered.inj⟩, hw.socket, hw.client, hw.listener, hw.registered⟩,
      fun _ => id, fun _ => .inl, fun _ => id, fun _ => rfl, rfl⟩, fun _ => rfl⟩
  · rw [handleListeners, if_neg hup] at h
    refine ⟨?_, fun h => absurd h hup⟩
    by_cases hin : events &&& epollIn ≠ 0
    · rw [if_pos hin] at h
      exact acceptAll_grows hw h
    · rw [if_neg hin] at h
      obtain ⟨-, rfl, -⟩ := Prog.pure_ret.1 h
      exact .refl s

/-! ## Batches -/

/-- The client is armed, or one of the events arms it. -/
def Due (es : List Event) (s : Server) (g : Fd) : Prop :=
  Rearmed s g ∨ (∃ e ∈ es, e.fd = g ∧ e.Settles) ∨ ∃ e ∈ es, e.fd ≠ g ∧ e.fd ∈ s.clients ∧ e.Broadcasts

/-- The step of the induction over a batch. -/
theorem handleEvent_due {es : List Event} (hnd : ((e :: es).map Event.fd).Nodup) (hw : Wired s)
    (hp : ∀ g, g ∈ s.clients → Due (e :: es) s g) (h : handleEvent e s = .ret u s' l') :
    Wired s' ∧ s'.listenSockets = s.listenSockets ∧ ∀ g, g ∈ s'.clients → Due es s' g := by
  have hrest : ∀ e' ∈ es, e'.fd ≠ e.fd := fun e' he' hfd =>
    (List.nodup_cons.1 hnd).1 (hfd ▸ List.mem_map_of_mem he')
  unfold handleEvent at h
  split at h
  next hl =>
    obtain ⟨hgrows, -⟩ := handleListeners_grows hw h
    refine ⟨hgrows.wired hw, hgrows.listenSockets, fun g hg => ?_⟩
    rcases hgrows.new g hg with hlive | hr
    swap
    · exact .inl hr
    have hlistener : ∀ g, g ∈ s.clients → e.fd ≠ g := fun g hg he => (hw.client g hg).2.1 (he ▸ hl)
    rcases hp g hlive with hr | ⟨e', he', hfd, hset⟩ | ⟨e', he', hfd, hlive', hcast⟩
    · exact .inl (hgrows.rearmed g hr)
    · rcases List.mem_cons.1 he' with rfl | he'
      · exact absurd hfd (hlistener g hlive)
      · exact .inr (.inl ⟨e', he', hfd, hset⟩)
    · rcases List.mem_cons.1 he' with rfl | he'
      · exact absurd rfl (hlistener _ hlive')
      · exact .inr (.inr ⟨e', he', hfd, hgrows.live _ hlive', hcast⟩)
  next hl =>
    obtain ⟨hsp, hcasts, hown⟩ := handleClients_spec hw hl h
    refine ⟨hsp.wired hw, hsp.listenSockets, fun g hg => ?_⟩
    by_cases hge : g = e.fd
    · subst hge
      obtain ⟨hlive, hre⟩ := hown hg
      rcases hp e.fd hlive with hr | ⟨e', he', hfd, hset⟩ | ⟨e', he', hfd, hlive', hcast⟩
      · exact .inl (hre (.inl hr))
      · rcases List.mem_cons.1 he' with rfl | he'
        · exact .inl (hre (.inr hset))
        · exact absurd hfd (hrest e' he')
      · rcases List.mem_cons.1 he' with rfl | he'
        · exact absurd rfl hfd
        · exact .inr (.inr ⟨e', he', hfd, (hsp.live _ hfd).2 hlive', hcast⟩)
    · have hlive := (hsp.live g hge).1 hg
      rcases hp g hlive with hr | ⟨e', he', hfd, hset⟩ | ⟨e', he', hfd, hlive', hcast⟩
      · exact .inl (hsp.rearmed g hge hr)
      · rcases List.mem_cons.1 he' with rfl | he'
        · exact absurd hfd.symm hge
        · exact .inr (.inl ⟨e', he', hfd, hset⟩)
      · rcases List.mem_cons.1 he' with rfl | he'
        · exact .inl (hcasts hcast hlive' g hge hlive)
        · exact .inr (.inr ⟨e', he', hfd, (hsp.live _ (hrest e' he')).2 hlive', hcast⟩)

theorem handleEvents_rearmed {es : List Event} (hnd : (es.map Event.fd).Nodup) (hw : Wired s)
    (hp : ∀ g, g ∈ s.clients → Due es s g) (h : handleEvents es s = .ret u s' l') :
    Wired s' ∧ ∀ g, g ∈ s'.clients → Rearmed s' g := by
  induction es generalizing s with
  | nil =>
    cases h
    refine ⟨hw, fun g hg => ?_⟩
    rcases hp g hg with hr | ⟨e, he, -⟩ | ⟨e, he, -⟩
    · exact hr
    · cases he
    · cases he
  | cons e es ih =>
    rw [handleEvents] at h
    split at h
    next v t k he =>
      obtain ⟨hwt, -, hpt⟩ := handleEvent_due hnd hw hp he
      exact ih (List.nodup_cons.1 hnd).2 hwt hpt h
    next => cases h

/-- An event in the batch that ends the loop: a listener hangs up. -/
theorem handleEvents_stops {es : List Event} (hw : Wired s)
    (hend : s.running = false ∨ ∃ e ∈ es, e.fd ∈ s.listenSockets ∧ e.HangsUp) (h : handleEvents es s = .ret u s' l') :
    s'.running = false := by
  induction es generalizing s with
  | nil =>
    cases h
    rcases hend with hend | ⟨e, he, -⟩
    · exact hend
    · cases he
  | cons e es ih =>
    rw [handleEvents] at h
    split at h
    next v t k he =>
      unfold handleEvent at he
      split at he
      next hl =>
        obtain ⟨hgrows, hup⟩ := handleListeners_grows hw he
        refine ih (hgrows.wired hw) ?_ h
        rcases hend with hend | ⟨e', he', hl', hup'⟩
        · exact .inl (hgrows.running hend)
        · rcases List.mem_cons.1 he' with rfl | he'
          · exact .inl (hup hup')
          · exact .inr ⟨e', he', hgrows.listenSockets ▸ hl', hup'⟩
      next hl =>
        obtain ⟨hsp, -⟩ := handleClients_spec hw hl he
        refine ih (hsp.wired hw) ?_ h
        rcases hend with hend | ⟨e', he', hl', hup'⟩
        · exact .inl (hsp.running.trans hend)
        · rcases List.mem_cons.1 he' with rfl | he'
          · exact absurd hl' hl
          · exact .inr ⟨e', he', hsp.listenSockets ▸ hl', hup'⟩
    next => cases h

/-! ## Runs -/

/-- Each client event of the batch arms its client, or that of another client broadcasts something; or the batch is
the last one. -/
def Rearms (s : State) : Input → Prop
  | .events batch =>
    (∃ e ∈ batch, e.fd ∈ s.server.listenSockets ∧ e.HangsUp) ∨
      ∀ e ∈ batch, e.fd ∉ s.server.listenSockets →
        e.Settles ∨ ∃ e' ∈ batch, e'.fd ≠ e.fd ∧ e'.fd ∉ s.server.listenSockets ∧ e'.Broadcasts
  | _ => True

instance (s : State) : DecidablePred (Rearms s)
  | .events _ => inferInstanceAs (Decidable (_ ∨ _))
  | .interrupted | .failed | .stop _ => isTrue trivial

theorem report_wired (hw : Wired s) (fds : List Fd) : Wired (report s fds) := by
  refine hw.of_map ⟨rfl, rfl, rfl, rfl⟩ (fun _ c => c) (fun _ _ => ⟨rfl, rfl⟩) (fun g => by simp [report]) fun g => ?_
  simp only [report]
  split
  · exact Option.isSome_map
  · rfl

/-- What the loop relies on when it calls `epoll_wait`. -/
def LoopInv (s : State) : Prop := s.phase = .loop → Wired s.server ∧ ∀ g, g ∈ s.server.clients → Rearmed s.server g

theorem loopInv_step {s s' : State} {x : Input} (h : LoopInv s) (hok : Rearms s x) (hst : step s x = some s') :
    LoopInv s' := by
  intro hphase
  unfold step at hst
  split at hst
  next s =>
    simp only [Option.some.injEq] at hst
    exact hst ▸ h rfl
  next s =>
    simp only [Option.some.injEq] at hst
    subst hst
    cases hphase
  next s batch =>
    obtain ⟨hw, hr⟩ := h rfl
    split at hst
    next hbatch =>
      obtain ⟨hnd, -, hrep⟩ := hbatch
      simp only [Option.some.injEq] at hst
      subst hst
      have hw' := report_wired hw (batch.map Event.fd)
      cases hrun : handleEvents batch (report s (batch.map Event.fd)) with
      | halt => simp [hrun, State.of] at hphase
      | ret v t k =>
        simp only [hrun, State.of] at hphase ⊢
        have hrunning : t.running = true := by
          by_contra hstop
          simp [loopTest, hstop] at hphase
        rcases hok with hend | hok
        · rw [handleEvents_stops hw' (.inr hend) hrun] at hrunning
          cases hrunning
        · refine handleEvents_rearmed hnd hw' (fun g hg => ?_) hrun
          by_cases hgb : g ∈ batch.map Event.fd
          · obtain ⟨e, he, rfl⟩ := List.mem_map.1 hgb
            rcases hok e he (hw'.client _ hg).2.1 with hset | ⟨e', he', hfd, hl, hcast⟩
            · exact .inr (.inl ⟨e, he, rfl, hset⟩)
            · refine .inr (.inr ⟨e', he', hfd, ?_, hcast⟩)
              have hreg := hrep e' he'
              unfold Reports at hreg
              cases hi : s.interest e'.fd with
              | none => simp [hi] at hreg
              | some r => exact (hw.registered e'.fd (by simp [hi])).resolve_left hl
          · obtain ⟨c, hc, hr⟩ := hr g hg
            exact .inl ⟨c, hc, (if_neg hgb).trans hr⟩
    next => cases hst
  next s answers =>
    simp only [Option.some.injEq] at hst
    subst hst
    cases hrun : stop s answers <;> simp [hrun, State.of] at hphase
  next => cases hst

theorem clientMask_bits (c : ClientSession) :
    clientMask c &&& epollIn ≠ 0 ∧ clientMask c &&& epollRdHup ≠ 0 ∧
      (clientMask c &&& epollOut ≠ 0 ↔ c.sendQueue ≠ []) := by
  by_cases hq : c.sendQueue = []
  · have hwant : ¬ c.isWantSend = true := by simp [ClientSession.isWantSend, hq]
    rw [clientMask, if_neg hwant]
    exact ⟨by decide, by decide, fun h => absurd h (by decide), fun h => absurd hq h⟩
  · have hwant : c.isWantSend = true := by simp [ClientSession.isWantSend, hq]
    rw [clientMask, if_pos hwant]
    exact ⟨by decide, by decide, fun _ => hq, fun _ => by decide⟩

theorem wired_start (ls : List Fd) : Wired (start ls).server := by
  have hnone : ∀ g, g ∉ (start ls).server.clients := fun g => AList.notMem_empty g
  refine ⟨numbered_start ls _, fun g c hg => ?_, fun g hg => absurd hg (hnone g), fun g hg => ?_, fun g hg => ?_⟩
  · exact absurd (mem_clients.2 ⟨c, hg⟩) (hnone g)
  · exact if_pos hg
  · by_contra hg'
    have : g ∉ ls := fun h => hg' (.inl h)
    simp [start, Server.start, this] at hg

/-- **All clients are armed when `epoll_wait` is called**, for reading, and for writing if something is queued. -/
theorem armed {s : State} (h : server.Reach Rearms s) (hloop : s.phase = .loop) {fd : Fd} {c : ClientSession}
    (hc : s.server.clients.lookup fd = some c) :
    ∃ r, s.server.interest fd = some r ∧ r.armed = true ∧ r.events &&& epollIn ≠ 0 ∧ r.events &&& epollRdHup ≠ 0 ∧
      (r.events &&& epollOut ≠ 0 ↔ c.sendQueue ≠ []) := by
  have hinv : LoopInv s := by
    refine h.invariant LoopInv ?_ fun s x s' _ hs hok hst => loopInv_step hs hok hst
    rintro s ⟨ls, rfl⟩ -
    exact ⟨wired_start ls, fun g hg => absurd hg (AList.notMem_empty g)⟩
  obtain ⟨d, hd, hr⟩ := (hinv hloop).2 fd (mem_clients.2 ⟨c, hc⟩)
  obtain rfl : d = c := Option.some.inj (hd.symm.trans hc)
  exact ⟨_, hr, rfl, clientMask_bits d⟩

/-- The listener `3` accepts the clients `5` and `6`. -/
def connect : Input := .events [⟨3, epollIn, [.accepted 5, .accepted 6, .refused .EAGAIN]⟩]

/-- The client `fd` sends a byte. -/
def sendsByte (fd : Fd) : Event := ⟨fd, epollIn, [.recv (.bytes [104]), .recv (.error .EAGAIN)]⟩

/-- Two clients that each send a byte in the same batch arm each other. -/
theorem armed_both :
    (server.run (start [3]) [connect, .events [sendsByte 5, sendsByte 6]]).map
      (fun s => (s.phase, (s.server.clients.lookup 5).map (·.sendQueue))) = some (.loop, some [[104]]) ∧
    ∀ s ∈ server.run (start [3]) [connect, .events [sendsByte 5, sendsByte 6]], ∀ c ∈ s.server.clients.lookup 5,
      s.phase = .loop → ∃ r, s.server.interest 5 = some r ∧ r.armed = true ∧ r.events &&& epollIn ≠ 0 ∧
        r.events &&& epollRdHup ≠ 0 ∧ (r.events &&& epollOut ≠ 0 ↔ c.sendQueue ≠ []) := by
  refine ⟨by decide +kernel, fun s hs c hc hloop => ?_⟩
  have hinit : server.Reach Rearms (start [3]) := .init ⟨[3], rfl⟩
  exact armed (hinit.run_along hs (by decide +kernel)) hloop hc

/-- A client that sends a byte alone is not armed any more. -/
theorem disarmed_by_read :
    ¬ ∀ s, server.Reachable s → s.phase = .loop → ∀ fd c, s.server.clients.lookup fd = some c →
      ∃ r, s.server.interest fd = some r ∧ r.armed = true ∧ r.events &&& epollIn ≠ 0 ∧
        r.events &&& epollRdHup ≠ 0 ∧ (r.events &&& epollOut ≠ 0 ↔ c.sendQueue ≠ []) := by
  intro hall
  have hrun : (server.run (start [3]) [connect, .events [sendsByte 5]]).map
      (fun s => (s.phase, (s.server.clients.lookup 5).isSome, (s.server.interest 5).map (·.armed))) =
        some (.loop, true, some false) := by
    decide +kernel
  obtain ⟨s, hs, hv⟩ := Option.map_eq_some_iff.1 hrun
  simp only [Prod.mk.injEq] at hv
  obtain ⟨hloop, hlive, hdis⟩ := hv
  obtain ⟨c, hc⟩ := Option.isSome_iff_exists.1 hlive
  obtain ⟨r, hr, harmed, -⟩ := hall s (System.reachable_of_run ⟨[3], rfl⟩ hs) hloop 5 c hc
  rw [hr, Option.map_some, harmed] at hdis
  cases hdis

end TcpChat.Epoll
