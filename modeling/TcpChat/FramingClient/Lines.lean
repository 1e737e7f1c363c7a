import TcpChat.FramingClient.Model

/-!
# What becomes of an input line

A line passes `CinMessages`, which stops at a line of more than `TX_HWM` bytes, `TxEnqueueMessage`, which lets every
other one pass, and `send_frame`, which refuses the empty one; `SendMessages` takes the refusal for a lost connection.

* `Accepting` — the assumptions: `BlockProducer`, a transport that accepts every byte, a server that stays;
* `Fair` — besides, every line has 1 to `TX_HWM` bytes;
* `lines_framed` — in such runs the client stays active until the end of the input, and the framed payloads are the
  lines, in order, as far as they have been sent;
* `line_ends_session` — an empty line ends the session.
-/

namespace TcpChat.FramingClient

open TcpChat.Framing TcpChat.Lib

/-- The main thread is in `CinMessages`. -/
def MainPc.InCin : MainPc → Prop
  | .getline | .lineTest _ | .enqueue => True
  | _ => False

/-- The line that has been read and not passed on. -/
def MainPc.line : MainPc → List (List UInt8)
  | .lineTest msg => [msg]
  | _ => []

/-- The message of a call that has not put it into the queue. -/
def EnqueuePc.coming : EnqueuePc → List (List UInt8)
  | .lock msg | .pred msg | .park msg | .parked msg | .retest msg | .overflow msg | .push msg => [msg]
  | _ => []

/-- The call does not return `true`, or may not in the modes other than `BlockProducer`. -/
def EnqueuePc.Rejects : EnqueuePc → Prop
  | .overflow _ | .store _ | .storeNotify _ | .unlock _ false | .returned false => True
  | _ => False

/-- The `recv_frame` in progress. -/
def RecvPc.reader : RecvPc → Option FrameReader
  | .frame r => some r
  | _ => none

/-- A line that `send_frame` and `CinMessages` let pass. -/
def ValidLine (msg : List UInt8) : Prop := 1 ≤ msg.length ∧ msg.length ≤ txHwm

instance : DecidablePred ValidLine := fun _ => inferInstanceAs (Decidable (_ ∧ _))

/-- A line that is read is valid. -/
def Input.Valid : Input → Prop
  | .line msg => ValidLine msg
  | _ => True

instance : DecidablePred Input.Valid
  | .line _ => inferInstanceAs (Decidable (ValidLine _))
  | .go | .eof | .call _ | .count _ | .closed | .error _ => isTrue trivial

/-- `send` accepts bytes or asks to be called again. -/
def Input.Accepts : Input → Prop
  | .closed => False
  | .error e => e.again = true
  | _ => True

instance : DecidablePred Input.Accepts
  | .closed => isFalse id
  | .error e => inferInstanceAs (Decidable (e.again = true))
  | .go | .line _ | .eof | .call _ | .count _ => isTrue trivial

namespace Client

/-- The answer `x` makes the `recv_frame` of `ReceiveMessages` return `false`. -/
def RecvFails (c : Client) (x : Input) : Prop :=
  (c.recv.reader.bind fun r => (c.recvCall r.wants x).map fun p => r.turn p.1) = some (.ret none)

instance (c : Client) : DecidablePred c.RecvFails := fun _ => inferInstanceAs (Decidable (_ = _))

/-- Up to the end of the input the transport accepts every byte and the server does not disconnect. -/
def Undisturbed (c : Client) : Thread × Input → Prop
  | (.send, x) => c.eof = false → x.Accepts
  | (.recv, x) => c.eof = false → ¬ c.RecvFails x
  | _ => True

instance (c : Client) : DecidablePred c.Undisturbed
  | (.send, _) | (.recv, _) => inferInstanceAs (Decidable (_ → _))
  | (.main, _) | (.print, _) => isTrue trivial

/-- The assumptions; a full receive queue does not end the session either. -/
def Accepting (c : Client) (i : Thread × Input) : Prop :=
  c.tx.txMode = .blockProducer ∧ c.rxMode ≠ .disconnectOnOverflow ∧ c.Undisturbed i

instance (c : Client) : DecidablePred c.Accepting := fun _ => inferInstanceAs (Decidable (_ ∧ _))

/-- Besides, the step reads no line but one of 1 to `TX_HWM` bytes. -/
def Fair (c : Client) (i : Thread × Input) : Prop := c.Accepting i ∧ i.2.Valid

instance (c : Client) : DecidablePred c.Fair := fun _ => inferInstanceAs (Decidable (_ ∧ _))

/-- What the main thread still has to put into the queue. -/
def coming (c : Client) : List (List UInt8) :=
  match c.main with
  | .enqueue => c.tx.enqueue.coming
  | p => p.line

/-- Nothing has gone wrong so far. -/
structure Fed (c : Client) : Prop where
  lines : c.tx.admitted ++ c.coming = c.lines
  valid : ∀ l ∈ c.lines, ValidLine l
  leaves : ¬ c.main.InCin → c.eof = true
  live : c.main.InCin → c.eof = false ∧ c.tx.active = true ∧ c.tx.sendOpen = true ∧ ¬ c.tx.enqueue.Rejects ∧
    c.tx.send ≠ .failStore ∧ c.recv ≠ .failStore ∧ c.recv ≠ .overflowStore

variable {c c' : Client} {t : Thread} {x : Input}

end Client

namespace Tx

variable {t t' : Tx}

/-- In an active client and the mode `BlockProducer` a message goes its way into the queue. -/
theorem enqueueStep_coming (h : t.enqueueStep .go = some t') (hm : t.txMode = .blockProducer) (ha : t.active = true)
    (hr : ¬ t.enqueue.Rejects) :
    t'.admitted ++ t'.enqueue.coming = t.admitted ++ t.enqueue.coming ∧ ¬ t'.enqueue.Rejects ∧
      t'.active = true ∧ t'.sendOpen = t.sendOpen := by
  unfold enqueueStep at h
  repeat' split at h
  all_goals simp only [Option.some.injEq, reduceCtorEq] at h
  all_goals subst h
  all_goals simp_all [admitted, EnqueuePc.owed, EnqueuePc.coming, EnqueuePc.Rejects]

theorem enqueueStep_call {msg : List UInt8} (h : t.enqueueStep (.call msg) = some t') :
    (∃ ok, t.enqueue = .returned ok) ∧ t' = { t with enqueue := .lock msg } := by
  unfold enqueueStep at h
  repeat' split at h
  all_goals simp only [Option.some.injEq, reduceCtorEq] at h
  all_goals simp_all

/-- A turn of `send_frame` fails only if the transport does. -/
theorem turn_fails {x : Input} {data msg out : List UInt8} {w : FrameWriter} {res : SendResult}
    (hx : t.sendCall data x = some (res, out)) (hret : w.turn msg res = .ret false) : ¬ x.Accepts := by
  cases x with
  | count n =>
    simp only [sendCall, Option.ite_none_right_eq_some, Option.some.injEq, Prod.mk.injEq] at hx
    obtain ⟨-, rfl, -⟩ := hx
    rcases FrameWriter.turn_ret_false hret with h | ⟨e, h, -⟩ <;> cases h
  | closed => exact id
  | error e =>
    simp only [sendCall, Option.some.injEq, Prod.mk.injEq] at hx
    obtain ⟨rfl, -⟩ := hx
    rcases FrameWriter.turn_ret_false hret with h | ⟨e', h, he⟩
    · cases h
    · cases h
      simp [Input.Accepts, he]
  | _ => simp [sendCall] at hx

/-- `SendMessages` gives up only if `send_frame` fails: on an empty message, or because the transport does. -/
theorem sendStep_fails {x : Input} (h : t.sendStep x = some t') (hf : t'.send = .failStore) :
    t.send = .unlock [] ∨ (∃ msg w, t.send = .frame msg w) ∧ ¬ x.Accepts := by
  unfold sendStep at h
  repeat' split at h
  all_goals simp only [Option.some.injEq, reduceCtorEq] at h
  all_goals subst h
  all_goals first
    | exact .inl ((FrameWriter.start_ret ‹_›).1 ▸ ‹_›)
    | exact .inr ⟨⟨_, _, ‹_›⟩, turn_fails ‹_› ‹_›⟩
    | cases hf

/-- Otherwise it leaves `m_isActive` and the socket alone. -/
theorem sendStep_active {x : Input} (h : t.sendStep x = some t') (hf : t.send ≠ .failStore) :
    t'.active = t.active ∧ t'.sendOpen = t.sendOpen := by
  unfold sendStep at h
  repeat' split at h
  all_goals simp only [Option.some.injEq, reduceCtorEq] at h
  all_goals subst h
  all_goals first
    | exact ⟨rfl, rfl⟩
    | exact absurd ‹_› hf

end Tx

namespace Client

variable {c c' : Client} {t : Thread} {x : Input}

/-- `CinMessages` on valid lines, in an active client. -/
theorem cinStep_fed (h : c.mainStep x = some c') (hok : c.Fair (.main, x)) (hf : c.Fed) (hin : c.main.InCin) :
    c'.Fed := by
  obtain ⟨⟨hmode, -, -⟩, hline⟩ := hok
  obtain ⟨hlines, hvalid, hleaves, hlive⟩ := hf
  obtain ⟨heof, ha, hopen, hrej, hsend, hrecv, hover⟩ := hlive hin
  cases hm : c.main <;> simp only [hm, MainPc.InCin] at hin
  case getline =>
    have hadm : c.tx.admitted = c.lines := by simpa [coming, hm, MainPc.line] using hlines
    cases x <;> simp only [mainStep, hm, Option.some.injEq, reduceCtorEq] at h
    case line msg =>
      subst h
      refine ⟨by simp only [coming, MainPc.line, hadm], ?_, fun hn => absurd trivial hn,
        fun _ => hlive (by rw [hm]; exact hin)⟩
      intro l hl
      rcases List.mem_append.1 hl with hl | hl
      · exact hvalid l hl
      · exact List.mem_singleton.1 hl ▸ hline
    case eof =>
      subst h
      exact ⟨by simpa [coming, MainPc.line] using hadm, hvalid, fun _ => rfl, fun hn => hn.elim⟩
  case lineTest msg =>
    have hadm : c.tx.admitted ++ [msg] = c.lines := by simpa [coming, hm, MainPc.line] using hlines
    have hlen := (hvalid msg (hadm ▸ by simp)).2
    cases x <;> simp only [mainStep, hm, reduceCtorEq] at h
    rw [if_neg (by simp [ha]), if_neg (by omega)] at h
    obtain ⟨tx, hst, rfl⟩ := Option.map_eq_some_iff.1 h
    obtain ⟨⟨ok, hret⟩, rfl⟩ := Tx.enqueueStep_call hst
    have hadm' : c.tx.admitted = c.tx.accepted := by simp [Tx.admitted, hret, EnqueuePc.owed]
    refine ⟨?_, hvalid, fun hn => absurd trivial hn, fun _ => ⟨heof, ha, hopen, id, hsend, hrecv, hover⟩⟩
    rw [hadm'] at hadm
    simpa [coming, Tx.admitted, EnqueuePc.owed, EnqueuePc.coming] using hadm
  case enqueue =>
    cases x <;> simp only [mainStep, hm, reduceCtorEq] at h
    simp only [coming, hm] at hlines
    split at h
    · -- the call has returned
      rename_i ok hret
      obtain rfl : ok = true := by
        cases ok
        · simp [hret, EnqueuePc.Rejects] at hrej
        · rfl
      simp only [if_true, Option.some.injEq] at h
      subst h
      refine ⟨?_, hvalid, fun hn => absurd trivial hn, fun _ => hlive (by rw [hm]; exact hin)⟩
      simpa [coming, MainPc.line, hret, EnqueuePc.coming] using hlines
    · obtain ⟨tx, hst, rfl⟩ := Option.map_eq_some_iff.1 h
      obtain ⟨hsame, hrej', ha', hopen'⟩ := Tx.enqueueStep_coming hst hmode ha hrej
      refine ⟨?_, hvalid, fun hn => absurd trivial hn, fun _ => ?_⟩
      · simp only [coming, hsame, hlines]
      · exact ⟨heof, ha', hopen'.trans hopen, hrej', Tx.enqueueStep_send hst ▸ hsend, hrecv, hover⟩

theorem coming_of_not_inCin (h : ¬ c.main.InCin) : c.coming = [] := by
  cases hm : c.main <;> simp_all [coming, MainPc.InCin, MainPc.line]

/-- After `CinMessages` the lines and the messages in the queue are left alone. -/
theorem mainStep_disconnect (h : c.mainStep x = some c') (hin : ¬ c.main.InCin) :
    ¬ c'.main.InCin ∧ c'.tx.admitted = c.tx.admitted ∧ c'.lines = c.lines ∧ c'.eof = c.eof := by
  unfold mainStep at h
  repeat' split at h
  all_goals simp only [Option.map_eq_some_iff, Option.some.injEq, reduceCtorEq] at h
  all_goals first
    | subst h
    | obtain ⟨tx, hst, rfl⟩ := h
  all_goals simp_all [MainPc.InCin, Tx.admitted]

theorem mainStep_fed (h : c.mainStep x = some c') (hok : c.Fair (.main, x)) (hf : c.Fed) : c'.Fed := by
  by_cases hin : c.main.InCin
  · exact cinStep_fed h hok hf hin
  · obtain ⟨hin', hadm, hlines, heof⟩ := mainStep_disconnect h hin
    refine ⟨?_, hlines ▸ hf.valid, fun _ => heof ▸ hf.leaves hin, fun hn => absurd hn hin'⟩
    rw [hadm, hlines, ← hf.lines, coming_of_not_inCin hin, coming_of_not_inCin hin']

/-- The steps of the other threads. -/
theorem Fed.keep (hf : c.Fed) (hm : c'.main = c.main) (he : c'.tx.enqueue = c.tx.enqueue)
    (ha : c'.tx.accepted = c.tx.accepted) (hl : c'.lines = c.lines) (heof : c'.eof = c.eof)
    (hlive : c.main.InCin → c'.tx.active = true ∧ c'.tx.sendOpen = true ∧ c'.tx.send ≠ .failStore ∧
      c'.recv ≠ .failStore ∧ c'.recv ≠ .overflowStore) : c'.Fed := by
  refine ⟨?_, hl ▸ hf.valid, fun hn => heof ▸ hf.leaves (hm ▸ hn), fun hin => ?_⟩
  · rw [hl, ← hf.lines, Tx.admitted, Tx.admitted, ha, he, coming, coming, hm, he]
  · rw [hm] at hin
    obtain ⟨h1, h2, h3, h4, h5⟩ := hlive hin
    obtain ⟨h6, -, -, h7, -⟩ := hf.live hin
    exact ⟨heof.trans h6, h1, h2, he ▸ h7, h3, h4, h5⟩

theorem recvStep_fed (h : c.recvStep x = some c') (hok : c.Fair (.recv, x)) (hf : c.Fed) : c'.Fed := by
  obtain ⟨⟨-, hrx, hundisturbed⟩, -⟩ := hok
  have hfails : c.eof = false → ¬ c.RecvFails x := hundisturbed
  have hlive := hf.live
  unfold recvStep at h
  repeat' split at h
  all_goals simp only [Option.some.injEq, reduceCtorEq] at h
  all_goals subst h
  all_goals refine hf.keep rfl rfl rfl rfl rfl fun hin => ?_
  all_goals obtain ⟨heof, ha, hopen, -, hsend, hrecv, hover⟩ := hlive hin
  all_goals simp_all [RecvFails, RecvPc.reader]

theorem printStep_fed (h : c.printStep x = some c') (hf : c.Fed) : c'.Fed := by
  have hlive : c.main.InCin → c.tx.active = true ∧ c.tx.sendOpen = true ∧ c.tx.send ≠ .failStore ∧
      c.recv ≠ .failStore ∧ c.recv ≠ .overflowStore := fun hin => by
    obtain ⟨-, ha, hopen, -, hrest⟩ := hf.live hin
    exact ⟨ha, hopen, hrest⟩
  unfold printStep at h
  repeat' split at h
  all_goals simp only [Option.some.injEq, reduceCtorEq] at h
  all_goals subst h
  all_goals exact hf.keep rfl rfl rfl rfl rfl hlive

theorem sendStep_fed {tx : Tx} (h : c.tx.sendStep x = some tx) (hok : c.Fair (.send, x)) (ho : c.tx.Ordered)
    (hf : c.Fed) : { c with tx := tx }.Fed := by
  refine hf.keep rfl (Tx.sendStep_enqueue h) (Tx.sendStep_underway h).2 rfl rfl fun hin => ?_
  obtain ⟨heof, ha, hopen, -, hsend, hrecv, hover⟩ := hf.live hin
  obtain ⟨ha', hopen'⟩ := Tx.sendStep_active h hsend
  refine ⟨ha'.trans ha, hopen'.trans hopen, fun hfail => ?_, hrecv, hover⟩
  rcases Tx.sendStep_fails h hfail with hp | ⟨-, hx⟩
  · -- an empty message would be one of the lines
    have hmem : [] ∈ c.tx.admitted := ho.sublist.subset (by simp [Tx.underway, hp, SendPc.inHand])
    have hv := hf.valid [] (hf.lines ▸ List.mem_append_left _ hmem)
    exact absurd hv.1 (by simp)
  · exact hx (hok.1.2.2 heof)

theorem step_fed (h : c.step (t, x) = some c') (hok : c.Fair (t, x)) (ho : c.tx.Ordered) (hf : c.Fed) : c'.Fed := by
  cases t with
  | main => exact mainStep_fed h hok hf
  | recv => exact recvStep_fed h hok hf
  | print => exact printStep_fed h hf
  | send =>
    obtain ⟨tx, htx, rfl⟩ := Option.map_eq_some_iff.1 h
    exact sendStep_fed htx hok ho hf

end Client

/-! ## In every reachable state -/

variable {c : Client}

theorem fed (h : client.Reach Client.Fair c) : c.Fed := by
  refine h.invariant Client.Fed ?_ fun c i c' hr hf hok hst =>
    Client.step_fed hst hok (ordered (tx_reach hr)) hf
  rintro c ⟨txMode, rxMode, stream, rfl⟩
  exact ⟨rfl, nofun, fun hn => absurd trivial hn, fun _ => ⟨rfl, rfl, rfl, id, nofun, nofun, nofun⟩⟩

/-- In the mode `BlockProducer` nothing is dropped. -/
theorem underway_eq {ok : Client → Thread × Input → Prop} (h : client.Reach ok c)
    (hok : ∀ c i, ok c i → c.tx.txMode = .blockProducer) : c.tx.underway = c.tx.admitted := by
  cases h with
  | init hi =>
    obtain ⟨txMode, rxMode, stream, rfl⟩ := hi
    rfl
  | step hr ho hst =>
    refine (ordered (tx_reach (hr.step ho hst))).exact ?_
    rw [Client.step_txMode hst, hok _ _ ho]
    decide

/-- What the property asks: the client is active until the end of the input, and the framed payloads are the lines that
have between 1 and `TX_HWM` bytes, in order, as far as they have been sent. -/
structure Client.Serves (c : Client) : Prop where
  active : c.main.InCin → c.tx.active = true
  leaves : ¬ c.main.InCin → c.eof = true
  framed : c.tx.handed <+: c.lines.filter (fun l => ValidLine l)

/-- **Valid lines are framed, and do not end the session.** -/
theorem lines_framed (h : client.Reach Client.Fair c) : c.Serves := by
  have hf := fed h
  refine ⟨fun hin => (hf.live hin).2.1, hf.leaves, ?_⟩
  have hfilter : c.lines.filter (fun l => ValidLine l) = c.lines :=
    List.filter_eq_self.2 fun l hl => decide_eq_true (hf.valid l hl)
  rw [hfilter, ← hf.lines]
  rw [← underway_eq h fun _ _ ho => ho.1.1, Tx.underway, List.append_assoc, List.append_assoc]
  exact List.prefix_append _ _

/-- One line of one byte, sent whole. -/
def oneLine : List (Thread × Input) :=
  [(Thread.main, Input.line [104])] ++ List.replicate 8 (Thread.main, Input.go) ++
    List.replicate 6 (Thread.send, Input.go) ++
    [(Thread.send, Input.count 4), (Thread.send, Input.count 1), (Thread.main, Input.eof)]

theorem lines_framed_oneLine :
    (client.run (.start .blockProducer .dropNewest []) oneLine).map (fun c => (c.tx.handed, c.tx.written)) =
        some ([[104]], [[104]]) ∧
      ∀ c ∈ client.run (.start .blockProducer .dropNewest []) oneLine, c.Serves := by
  have hinit : client.Reach Client.Fair (.start .blockProducer .dropNewest []) := .init ⟨_, _, _, rfl⟩
  exact ⟨by decide +kernel, fun c hc => lines_framed (hinit.run_along hc (by decide +kernel))⟩

/-! ## Other lines -/

/-- An empty line. -/
def emptyLine : List (Thread × Input) :=
  [(Thread.main, Input.line [])] ++ List.replicate 8 (Thread.main, Input.go) ++ List.replicate 7 (Thread.send, Input.go)

/-- **An empty line ends the session**: `m_isActive` is cleared while the main thread reads the next line. -/
theorem line_ends_session : ¬ ∀ c, client.Reach Client.Accepting c → c.Serves := by
  intro h
  have hinit : client.Reach Client.Accepting (.start .blockProducer .dropNewest []) := .init ⟨_, _, _, rfl⟩
  have hrun : (client.run (.start .blockProducer .dropNewest []) emptyLine).map (fun c => (c.main, c.tx.active)) =
      some (.getline, false) := by decide +kernel
  obtain ⟨c, hc, hq⟩ := Option.map_eq_some_iff.1 hrun
  simp only [Prod.mk.injEq] at hq
  have hs := h c (hinit.run_along hc (by decide +kernel))
  simp [hs.active (by rw [hq.1]; trivial)] at hq

/-- **A line of more than `TX_HWM` bytes ends the input**, whatever follows it. -/
theorem long_line_ends_input {msg : List UInt8} (hlong : txHwm < msg.length) :
    ∃ c, client.Reach Client.Accepting c ∧ c.main = .store ∧ c.eof = false := by
  have hinit : client.Reach Client.Accepting (.start .blockProducer .dropNewest []) := .init ⟨_, _, _, rfl⟩
  have hread : client.Reach Client.Accepting
      { Client.start .blockProducer .dropNewest [] with lines := [msg], main := .lineTest msg } := by
    refine hinit.step (i := (.main, .line msg)) ?_ rfl
    exact ⟨rfl, by decide, trivial⟩
  have htest : client.Reach Client.Accepting
      { Client.start .blockProducer .dropNewest [] with lines := [msg], main := .store } := by
    refine hread.step (i := (.main, .go)) ?_ ?_
    · exact ⟨rfl, by simp [Client.start], trivial⟩
    · simp [client, Client.step, Client.mainStep, Client.start, Tx.start, hlong]
  exact ⟨_, htest, rfl, rfl⟩

end TcpChat.FramingClient
