import TcpChat.FramingClient.Model

/-!
# Two readers of one socket

`Disconnect` does not wait for `ReceiveMessages`: `GracefulShutDown` calls `recv_frame` on the socket on which
`ReceiveMessages` may be in the middle of a `recv_frame` of its own.  Each takes the bytes that come next.

* `Splits` — the invariant: what the two have taken and what is unread are whole frames, of which those received and
  those to come are payloads of the server, in order;
* `Alone` — the step takes no bytes while the other reader is inside a frame;
* `pushed_framed` — in such runs `m_rxQueue` gets payloads of the server only, in order;
* `pushed_mixed` — otherwise it also gets others.
-/

namespace TcpChat.FramingClient

open TcpChat.Framing TcpChat.Lib

/-- The bytes that `GracefulShutDown` has taken of a frame it has not finished. -/
def MainPc.taken : MainPc → List UInt8
  | .drain r | .close r => r.consumed
  | _ => []

/-- The bytes that `ReceiveMessages` has taken of a frame it has not finished. -/
def RecvPc.taken : RecvPc → List UInt8
  | .frame r => r.consumed
  | _ => []

/-- The payload that has been received and not pushed. -/
def RecvPc.inHand : RecvPc → List (List UInt8)
  | .lock msg | .body msg => [msg]
  | _ => []

/-- `ReceiveMessages` may call `recv_frame` again. -/
def RecvPc.Reading : RecvPc → Prop
  | .test | .frame _ | .lock _ | .body _ | .notify | .unlock => True
  | _ => False

namespace Client

/-- What the property asks, of every stream of well-formed frames: the pushed messages are payloads of the server, in
the order of the frames. -/
def Integral (c : Client) : Prop :=
  ∀ ps : List (List UInt8), (∀ p ∈ ps, ValidPayload p) → c.stream = (ps.map frame).flatten → c.pushed.Sublist ps

/-- A reader does not take bytes while the other one is inside a frame. -/
def Alone (c : Client) : Thread × Input → Prop
  | (.main, .count _) => c.recv.taken = []
  | (.recv, .count _) => c.main.taken = []
  | _ => True

instance (c : Client) : DecidablePred c.Alone
  | (.main, .count _) | (.recv, .count _) => inferInstanceAs (Decidable (_ = _))
  | (.print, _) | (.send, _) => isTrue trivial
  | (.main, .go) | (.main, .line _) | (.main, .eof) | (.main, .call _) | (.main, .closed) | (.main, .error _) =>
    isTrue trivial
  | (.recv, .go) | (.recv, .line _) | (.recv, .eof) | (.recv, .call _) | (.recv, .closed) | (.recv, .error _) =>
    isTrue trivial

/-- The invariant, for the payloads `ps` of the server. -/
structure Splits (ps : List (List UInt8)) (c : Client) : Prop where
  main : ∀ r, c.main = .drain r → r.Open
  recv : ∀ r, c.recv = .frame r → r.Open
  apart : c.main.taken = [] ∨ c.recv.taken = []
  pushed : (c.pushed ++ c.recv.inHand).Sublist c.received
  frames : ∃ qs, (∀ q ∈ qs, ValidPayload q) ∧ (c.received ++ qs).Sublist ps ∧
    (c.recv.Reading → c.valid = true → c.main.taken ++ c.recv.taken ++ c.unread = (qs.map frame).flatten)

variable {c c' : Client} {t : Thread} {x : Input} {ps : List (List UInt8)}

/-! ## One `recv` -/

/-- A call of `recv` inside `recv_frame` leaves the stream alone, or takes bytes of it; on a sequence of frames these
are handled as frames. -/
theorem recvCall_turn {r : FrameReader} {res : RecvResult} {unread : List UInt8} (hr : r.Open)
    (h : c.recvCall r.wants x = some (res, unread)) :
    unread = c.unread ∧ (r.turn res = .again r ∨ r.turn res = .ret none) ∨
      (∃ n, x = .count n) ∧ c.valid = true ∧
        ∀ qs, (∀ q ∈ qs, ValidPayload q) → r.consumed ++ c.unread = (qs.map frame).flatten →
          match r.turn res with
          | .again r' => r'.consumed ++ unread = (qs.map frame).flatten
          | .ret (some msg) => ∃ qs', qs = msg :: qs' ∧ unread = (qs'.map frame).flatten
          | .ret none => False := by
  cases x with
  | count n =>
    simp only [recvCall, Option.ite_none_right_eq_some, Option.some.injEq, Prod.mk.injEq] at h
    obtain ⟨⟨hv, hn, hw, hu⟩, rfl, rfl⟩ := h
    refine .inr ⟨⟨n, rfl⟩, hv, fun qs hqs hf => ?_⟩
    have htake : (c.unread.take n).length = n := by simp [hu]
    refine FrameReader.turn_frames hr (List.length_pos_iff.1 (by omega)) (by omega) hqs ?_
    rw [List.take_append_drop, hf]
  | closed =>
    simp only [recvCall, Option.ite_none_right_eq_some, Option.some.injEq, Prod.mk.injEq] at h
    obtain ⟨hu, rfl, rfl⟩ := h
    exact .inl ⟨hu.symm, .inr rfl⟩
  | error e =>
    simp only [recvCall, Option.some.injEq, Prod.mk.injEq] at h
    obtain ⟨rfl, rfl⟩ := h
    refine .inl ⟨rfl, ?_⟩
    simp only [FrameReader.turn]
    split
    · exact .inl rfl
    · exact .inr rfl
  | _ => simp [recvCall] at h

/-! ## What a step keeps -/

/-- Outside its `recv_frame` the main thread leaves the stream and the messages alone. -/
theorem mainStep_other (h : c.mainStep x = some c') (hd : ∀ r, c.main ≠ .drain r) :
    c'.unread = c.unread ∧ c'.received = c.received ∧ c'.pushed = c.pushed ∧
      (c'.valid = true → c.valid = true ∧ c'.main.taken = c.main.taken) ∧
      (c'.main.taken = [] ∨ c'.main.taken = c.main.taken) ∧ ∀ r, c'.main = .drain r → r = .start := by
  unfold mainStep at h
  repeat' split at h
  all_goals simp only [Option.map_eq_some_iff, Option.some.injEq, reduceCtorEq] at h
  all_goals first
    | subst h
    | obtain ⟨tx, hst, rfl⟩ := h
  all_goals first
    | exact absurd ‹_› (hd _)
    | skip
  all_goals refine ⟨rfl, rfl, rfl, ?_, ?_, ?_⟩
  all_goals simp_all [MainPc.taken, FrameReader.start, FrameReader.consumed]

/-- `GracefulShutDown` in its `recv_frame`. -/
theorem drain_splits {r : FrameReader} (hm : c.main = .drain r) (h : c.mainStep x = some c')
    (hok : c.Alone (.main, x)) (hs : c.Splits ps) : c'.Splits ps := by
  obtain ⟨hmain, hopen, hapart, hpushed, qs, hqs, hsub, hu⟩ := hs
  have hr := hmain r hm
  simp only [hm, MainPc.taken] at hapart hu
  simp only [mainStep, hm] at h
  split at h
  · cases h
  rename_i res unread hx
  rcases recvCall_turn hr hx with ⟨rfl, hturn | hturn⟩ | ⟨⟨n, rfl⟩, hv, hframes⟩
  · rw [hturn] at h
    cases h
    exact ⟨fun r' h' => MainPc.drain.inj h' ▸ hr, hopen, hapart, hpushed, qs, hqs, hsub, hu⟩
  · rw [hturn] at h
    cases h
    exact ⟨(fun _ h' => by cases h'), hopen, hapart, hpushed, qs, hqs, hsub, hu⟩
  · have htaken : c.recv.taken = [] := hok
    simp only [htaken, List.append_nil] at hu
    by_cases hread : c.recv.Reading
    · have hf := hframes qs hqs (hu hread hv)
      split at h <;> rename_i hturn <;> rw [hturn] at hf <;> cases h
      · refine ⟨fun r' h' => MainPc.drain.inj h' ▸ FrameReader.open_turn hr hturn, hopen, .inr htaken, hpushed, qs, hqs,
          hsub, fun _ _ => ?_⟩
        simpa only [MainPc.taken, htaken, List.append_nil] using hf
      · -- the payload of a frame is taken and dropped
        obtain ⟨qs', rfl, hrest⟩ := hf
        refine ⟨fun r' h' => MainPc.drain.inj h' ▸ FrameReader.open_start, hopen, .inl rfl, hpushed, qs',
          fun q hq => hqs q (by simp [hq]), ?_, fun _ _ => ?_⟩
        · exact ((List.Sublist.refl _).append (List.sublist_cons_self _ _)).trans hsub
        · simpa [MainPc.taken, FrameReader.consumed, FrameReader.start, htaken] using hrest
      · exact hf.elim
    · split at h <;> rename_i hturn <;> cases h
      · exact ⟨fun r' h' => MainPc.drain.inj h' ▸ FrameReader.open_turn hr hturn, hopen, .inr htaken, hpushed, qs, hqs,
          hsub, fun hn => absurd hn hread⟩
      · exact ⟨fun r' h' => MainPc.drain.inj h' ▸ FrameReader.open_start, hopen, .inr htaken, hpushed, qs, hqs,
          hsub, fun hn => absurd hn hread⟩
      · exact ⟨(fun _ h' => by cases h'), hopen, .inr htaken, hpushed, qs, hqs, hsub, fun hn => absurd hn hread⟩

theorem mainStep_splits (h : c.mainStep x = some c') (hok : c.Alone (.main, x)) (hs : c.Splits ps) :
    c'.Splits ps := by
  by_cases hd : ∃ r, c.main = .drain r
  · obtain ⟨r, hm⟩ := hd
    exact drain_splits hm h hok hs
  · have hrecv := (step_pc (t := .main) h).recv nofun
    obtain ⟨hmain, hopen, hapart, hpushed, qs, hqs, hsub, hu⟩ := hs
    obtain ⟨hunread, hreceived, hpush, hvalid, htaken, hstart⟩ := mainStep_other h fun r hm => hd ⟨r, hm⟩
    refine ⟨fun r hm => hstart r hm ▸ FrameReader.open_start, hrecv ▸ hopen, ?_, ?_, qs, hqs, hreceived ▸ hsub, ?_⟩
    · rcases htaken with h0 | h0
      · exact .inl h0
      · rw [h0, hrecv]
        exact hapart
    · rw [hpush, hrecv, hreceived]
      exact hpushed
    · intro hread hv
      obtain ⟨hv, htaken⟩ := hvalid hv
      rw [htaken, hrecv, hunread]
      exact hu (hrecv ▸ hread) hv

/-- Outside its `recv_frame` `ReceiveMessages` pushes what it has in hand, or does not. -/
theorem recvStep_other (h : c.recvStep x = some c') (hd : ∀ r, c.recv ≠ .frame r) :
    c'.unread = c.unread ∧ c'.valid = c.valid ∧ c'.received = c.received ∧ c'.recv.taken = [] ∧
      (c'.pushed ++ c'.recv.inHand).Sublist (c.pushed ++ c.recv.inHand) ∧ (c'.recv.Reading → c.recv.Reading) ∧
      ∀ r, c'.recv = .frame r → r = .start := by
  unfold recvStep at h
  repeat' split at h
  all_goals simp only [Option.some.injEq, reduceCtorEq] at h
  all_goals subst h
  all_goals first
    | exact absurd ‹_› (hd _)
    | skip
  all_goals refine ⟨rfl, rfl, rfl, ?_, ?_, ?_, ?_⟩
  all_goals simp_all [RecvPc.taken, RecvPc.inHand, RecvPc.Reading, FrameReader.start, FrameReader.consumed]

/-- `ReceiveMessages` in its `recv_frame`. -/
theorem frame_splits {r : FrameReader} (hp : c.recv = .frame r) (h : c.recvStep x = some c')
    (hok : c.Alone (.recv, x)) (hs : c.Splits ps) : c'.Splits ps := by
  obtain ⟨hmain, hopen, hapart, hpushed, qs, hqs, hsub, hu⟩ := hs
  have hr := hopen r hp
  simp only [hp, RecvPc.inHand, List.append_nil] at hpushed
  simp only [recvStep, hp] at h
  split at h
  · cases h
  rename_i res unread hx
  rcases recvCall_turn hr hx with ⟨rfl, hturn | hturn⟩ | ⟨⟨n, rfl⟩, hv, hframes⟩
  · rw [hturn] at h
    cases h
    exact ⟨hmain, fun r' h' => RecvPc.frame.inj h' ▸ hr, hp ▸ hapart, by simpa [RecvPc.inHand] using hpushed, qs, hqs,
      hsub, hp ▸ hu⟩
  · rw [hturn] at h
    cases h
    exact ⟨hmain, (fun _ h' => by cases h'), .inr rfl, by simpa [RecvPc.inHand] using hpushed, qs, hqs, hsub,
      fun hn => hn.elim⟩
  · have htaken : c.main.taken = [] := hok
    simp only [hp, RecvPc.taken, htaken, List.nil_append] at hu
    have hf := hframes qs hqs (hu trivial hv)
    split at h <;> rename_i hturn <;> rw [hturn] at hf <;> cases h
    · refine ⟨hmain, fun r' h' => RecvPc.frame.inj h' ▸ FrameReader.open_turn hr hturn, .inl htaken, ?_, qs, hqs, hsub,
        fun _ _ => ?_⟩
      · simpa [RecvPc.inHand] using hpushed
      · simpa only [RecvPc.taken, htaken, List.nil_append] using hf
    · exact hf.elim
    · -- the payload of a frame is received
      obtain ⟨qs', rfl, hrest⟩ := hf
      refine ⟨hmain, (fun _ h' => by cases h'), .inr rfl, hpushed.append (.refl _), qs',
        fun q hq => hqs q (by simp [hq]), ?_, fun _ _ => ?_⟩
      · simpa using hsub
      · simpa [RecvPc.taken, htaken] using hrest

theorem recvStep_splits (h : c.recvStep x = some c') (hok : c.Alone (.recv, x)) (hs : c.Splits ps) :
    c'.Splits ps := by
  by_cases hd : ∃ r, c.recv = .frame r
  · obtain ⟨r, hp⟩ := hd
    exact frame_splits hp h hok hs
  · have hpc := (step_pc (t := .recv) h).main nofun
    have hd' : ∀ r, c.recv ≠ .frame r := fun r hp => hd ⟨r, hp⟩
    have htaken : c.recv.taken = [] := by cases hp : c.recv <;> simp_all [RecvPc.taken]
    obtain ⟨hmain, hopen, hapart, hpushed, qs, hqs, hsub, hu⟩ := hs
    obtain ⟨hunread, hvalid, hreceived, htaken', hpush, hreading, hstart⟩ := recvStep_other h hd'
    refine ⟨hpc.1 ▸ hmain, fun r hp => hstart r hp ▸ FrameReader.open_start, .inr htaken', ?_, qs, hqs,
      hreceived ▸ hsub, fun hread hv => ?_⟩
    · rw [hreceived]
      exact hpush.trans hpushed
    · rw [hpc.1, htaken', hunread, ← htaken]
      exact hu (hreading hread) (hvalid ▸ hv)

theorem step_splits (h : c.step (t, x) = some c') (hok : c.Alone (t, x)) (hs : c.Splits ps) : c'.Splits ps := by
  by_cases hm : t = .main
  · subst hm
    exact mainStep_splits h hok hs
  by_cases hr : t = .recv
  · subst hr
    exact recvStep_splits h hok hs
  · have hpc := step_pc h
    have hdata := step_data h
    obtain ⟨hreceived, hpush⟩ := hdata.messages hr
    obtain ⟨hmain, hopen, hapart, hpushed, qs, hqs, hsub, hu⟩ := hs
    rw [← (hpc.main hm).1] at hmain hapart hu
    rw [← hpc.recv hr] at hopen hapart hpushed hu
    exact ⟨hmain, hopen, hapart, by rw [hpush, hreceived]; exact hpushed, qs, hqs, hreceived ▸ hsub,
      by rw [hdata.unread hm hr, hdata.valid hm]; exact hu⟩

end Client

/-! ## In every reachable state -/

variable {c : Client}

theorem splits (h : client.Reach Client.Alone c) {ps : List (List UInt8)} (hps : ∀ p ∈ ps, ValidPayload p)
    (hstream : c.stream = (ps.map frame).flatten) : c.Splits ps := by
  refine h.invariant (fun c => c.stream = (ps.map frame).flatten → c.Splits ps) ?_ ?_ hstream
  · rintro c ⟨txMode, rxMode, stream, rfl⟩ hs
    exact ⟨nofun, nofun, .inl rfl, .refl _, ps, hps, .refl _, fun _ _ => hs⟩
  · rintro c ⟨t, x⟩ c' - ih hok hst hs
    exact Client.step_splits hst hok (ih ((Client.step_data hst).stream ▸ hs))

/-- **Message integrity** if no reader takes bytes while the other one is inside a frame. -/
theorem pushed_framed (h : client.Reach Client.Alone c) : c.Integral := by
  intro ps hps hstream
  obtain ⟨-, -, -, hpushed, qs, -, hsub, -⟩ := splits h hps hstream
  exact (List.sublist_append_left _ _).trans (hpushed.trans ((List.sublist_append_left _ _).trans hsub))

/-- The server's frames of the payloads 1 2 and 3. -/
def twoFrames : List UInt8 := ([[1, 2], [3]].map frame).flatten

/-- `ReceiveMessages` pushes the first payload, `GracefulShutDown` takes the second frame. -/
def receiveThenDrain : List (Thread × Input) :=
  [(Thread.recv, Input.go), (Thread.recv, Input.count 4), (Thread.recv, Input.count 2), (Thread.recv, Input.go),
      (Thread.recv, Input.go), (Thread.main, Input.eof)] ++ List.replicate 6 (Thread.main, Input.go) ++
    [(Thread.main, Input.count 4), (Thread.main, Input.count 1), (Thread.main, Input.closed)]

theorem pushed_framed_receiveThenDrain :
    (client.run (.start .blockProducer .dropNewest twoFrames) receiveThenDrain).map
        (fun c => (c.unread, c.pushed)) = some ([], [[1, 2]]) ∧
      ∀ c ∈ client.run (.start .blockProducer .dropNewest twoFrames) receiveThenDrain, c.Integral := by
  have hinit : client.Reach Client.Alone (.start .blockProducer .dropNewest twoFrames) := .init ⟨_, _, _, rfl⟩
  exact ⟨by decide +kernel, fun c hc => pushed_framed (hinit.run_along hc (by decide +kernel))⟩

/-- `ReceiveMessages` has read the size of the first frame when `GracefulShutDown` takes a byte of its payload. -/
def drainInsideFrame : List (Thread × Input) :=
  [(Thread.recv, Input.go), (Thread.recv, Input.count 4), (Thread.main, Input.eof)] ++
    List.replicate 6 (Thread.main, Input.go) ++
    [(Thread.main, Input.count 1), (Thread.recv, Input.count 2), (Thread.recv, Input.go), (Thread.recv, Input.go)]

/-- **Otherwise a message is pushed that the server has not sent.** -/
theorem pushed_mixed : ¬ ∀ c, client.Reachable c → c.Integral := by
  intro h
  have hinit : client.Reachable (.start .blockProducer .dropNewest twoFrames) := .init ⟨_, _, _, rfl⟩
  have hrun : (client.run (.start .blockProducer .dropNewest twoFrames) drainInsideFrame).map
      (fun c => (c.stream, c.pushed)) = some (twoFrames, [[2, 0]]) := by decide +kernel
  obtain ⟨c, hc, hq⟩ := Option.map_eq_some_iff.1 hrun
  simp only [Prod.mk.injEq] at hq
  obtain ⟨hstream, hpushed⟩ := hq
  have hsub := h c (hinit.run_along hc (System.along_true _ _)) [[1, 2], [3]] (by simp [ValidPayload, maxPayload])
    hstream
  rw [hpushed] at hsub
  revert hsub
  decide

end TcpChat.FramingClient
