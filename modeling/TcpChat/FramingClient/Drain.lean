import TcpChat.FramingClient.Lines

/-!
# Whether accepted messages are sent before the socket is shut down

`SendMessages` sends what is left in the queue when `m_isActive` has been cleared, but `Disconnect` does not wait for
it: it shuts the socket down for sending before `Run` joins the thread.

* `Undropped` — everything accepted has been written when the socket is shut down;
* `Idle` — the step does not shut the socket down while `SendMessages` still has something to send;
* `accepted_written` — in such runs nothing is dropped, for valid lines and a transport that accepts every byte;
* `dropped_of_shutdown`, `accepted_dropped` — otherwise it is.
-/

namespace TcpChat.FramingClient

open TcpChat.Framing TcpChat.Lib

/-- The message that `send_frame` is writing. -/
def SendPc.inFrame : SendPc → List (List UInt8)
  | .frame msg _ => [msg]
  | _ => []

/-- `Disconnect` has shut the socket down for sending. -/
def MainPc.Shut : MainPc → Prop
  | .drain _ | .close _ | .joinRecv | .joinSend | .joinPrint | .done => True
  | _ => False

namespace Tx

/-- Nothing is queued, in hand, or being written. -/
def Idle (t : Tx) : Prop := t.txQueue = [] ∧ t.send.inHand = [] ∧ t.send.inFrame = []

instance (t : Tx) : Decidable t.Idle := inferInstanceAs (Decidable (_ ∧ _))

variable {t t' : Tx} {x : Input}

/-- What is handed to `send_frame` is written or being written. -/
theorem sendStep_handed (h : t.sendStep x = some t') (hne : t.send ≠ .failStore) (hne' : t'.send ≠ .failStore)
    (hh : t.handed = t.written ++ t.send.inFrame) : t'.handed = t'.written ++ t'.send.inFrame := by
  unfold sendStep at h
  repeat' split at h
  all_goals simp only [Option.some.injEq, reduceCtorEq] at h
  all_goals subst h
  all_goals simp_all [SendPc.inFrame]

/-- `SendMessages` finds nothing to send in an empty queue. -/
theorem sendStep_idle (h : t.sendStep x = some t') (hi : t.Idle) : t'.Idle := by
  unfold sendStep at h
  repeat' split at h
  all_goals simp only [Option.some.injEq, reduceCtorEq] at h
  all_goals subst h
  all_goals simp_all [Idle, SendPc.inHand, SendPc.inFrame]

/-- The main thread leaves the sender alone. -/
theorem enqueueStep_frame (h : t.enqueueStep x = some t') :
    t'.handed = t.handed ∧ t'.written = t.written ∧ t'.sendOpen = t.sendOpen ∧ t'.send = t.send := by
  unfold enqueueStep at h
  repeat' split at h
  all_goals simp only [Option.some.injEq, reduceCtorEq] at h
  all_goals subst h
  all_goals exact ⟨rfl, rfl, rfl, rfl⟩

/-- What it puts into the queue is the message of the call. -/
theorem enqueueStep_messages (h : t.enqueueStep .go = some t') :
    t'.admitted ++ t'.enqueue.msg?.toList ⊆ t.admitted ++ t.enqueue.msg?.toList := by
  unfold enqueueStep at h
  repeat' split at h
  all_goals simp only [Option.some.injEq, reduceCtorEq] at h
  all_goals subst h
  all_goals simp_all [admitted, EnqueuePc.owed, EnqueuePc.msg?]

end Tx

namespace Client

/-- Everything accepted has been written before the socket was shut down for sending. -/
def Undropped (c : Client) : Prop := c.tx.sendOpen = false → c.tx.written = c.tx.accepted

/-- The assumptions: `BlockProducer`, lines of 1 to `TX_HWM` bytes, and a transport that accepts every byte offered
before the socket is shut down. -/
def Willing (c : Client) (i : Thread × Input) : Prop :=
  c.tx.txMode = .blockProducer ∧ i.2.Valid ∧ (c.tx.sendOpen = true → i.1 = .send → i.2.Accepts)

instance (c : Client) : DecidablePred c.Willing := fun _ => inferInstanceAs (Decidable (_ ∧ _))

/-- Besides, the socket is not shut down while `SendMessages` has something to send. -/
def Drained (c : Client) (i : Thread × Input) : Prop :=
  c.Willing i ∧ (i.1 = .main → c.main = .shutdown → c.tx.Idle)

instance (c : Client) : DecidablePred c.Drained := fun _ => inferInstanceAs (Decidable (_ ∧ _))

/-- The messages that come from the lines. -/
def messages (c : Client) : List (List UInt8) := c.tx.admitted ++ c.tx.enqueue.msg?.toList ++ c.main.line

/-- No message has failed. -/
structure Delivers (c : Client) : Prop where
  handed : c.tx.handed = c.tx.written ++ c.tx.send.inFrame
  call : c.main ≠ .enqueue → ∃ ok, c.tx.enqueue = .returned ok
  shut : c.tx.sendOpen = false → c.main.Shut ∧ c.tx.Idle
  sends : c.tx.send ≠ .failStore

variable {c c' : Client} {t : Thread} {x : Input}

/-- The way of a line: it is read, handed to `TxEnqueueMessage`, taken on by it; or nothing is passed on. -/
theorem mainStep_flow (h : c.mainStep x = some c') :
    (∃ msg, x = .line msg ∧ c'.tx = c.tx ∧ c'.main = .lineTest msg) ∨
      (∃ msg, c.main = .lineTest msg ∧ c.tx.enqueueStep (.call msg) = some c'.tx ∧ c'.main = .enqueue) ∨
      (c.main = .enqueue ∧ c.tx.enqueueStep .go = some c'.tx ∧ c'.main = .enqueue) ∨
      c'.tx.enqueue = c.tx.enqueue ∧ c'.tx.accepted = c.tx.accepted ∧ c'.main.line = [] := by
  unfold mainStep at h
  repeat' split at h
  all_goals simp only [Option.map_eq_some_iff, Option.some.injEq, reduceCtorEq] at h
  all_goals first
    | subst h
    | obtain ⟨tx, hst, rfl⟩ := h
  all_goals simp_all [MainPc.line]

/-- Messages come from lines. -/
theorem step_messages (h : c.step (t, x) = some c') {m : List UInt8} (hm : m ∈ c'.messages) :
    m ∈ c.messages ∨ x = .line m := by
  by_cases ht : t = .main
  · subst ht
    rcases mainStep_flow h with ⟨msg, rfl, htx, hp'⟩ | ⟨msg, hp, hst, hp'⟩ | ⟨hp, hst, hp'⟩ | ⟨he, ha, hl⟩
    · simp only [messages, htx, hp', MainPc.line, List.mem_append (t := [msg]), List.mem_singleton] at hm
      rcases hm with hm | rfl
      · exact .inl (List.mem_append_left _ hm)
      · exact .inr rfl
    · obtain ⟨⟨ok, hret⟩, htx⟩ := Tx.enqueueStep_call hst
      left
      simpa [messages, hp, hp', htx, MainPc.line, Tx.admitted, hret, EnqueuePc.owed, EnqueuePc.msg?] using hm
    · left
      simp only [messages, hp', MainPc.line, List.append_nil] at hm
      exact List.mem_append_left _ (Tx.enqueueStep_messages hst hm)
    · left
      rw [messages, hl, List.append_nil, Tx.admitted, he, ha] at hm
      exact List.mem_append_left _ hm
  · obtain ⟨hmain, henq, hacc⟩ := (step_pc h).main ht
    left
    simpa only [messages, Tx.admitted, hmain, henq, hacc] using hm

theorem mainStep_delivers (h : c.mainStep x = some c') (hok : c.Drained (.main, x)) (hd : c.Delivers) :
    c'.Delivers := by
  obtain ⟨⟨-, hvalid, -⟩, hidle⟩ := hok
  obtain ⟨hh, hcall, hshut, hs⟩ := hd
  unfold mainStep at h
  repeat' split at h
  all_goals simp only [Option.map_eq_some_iff, Option.some.injEq, reduceCtorEq] at h
  all_goals first
    | subst h
    | (obtain ⟨tx, hst, rfl⟩ := h
       have hframe := Tx.enqueueStep_frame hst)
  all_goals refine ⟨?_, ?_, ?_, ?_⟩
  all_goals simp_all [MainPc.Shut, Tx.Idle]

theorem sendStep_delivers {tx : Tx} (h : c.tx.sendStep x = some tx) (hok : c.Drained (.send, x))
    (ho : c.tx.Ordered) (hne : [] ∉ c.messages) (hd : c.Delivers) : { c with tx := tx }.Delivers := by
  obtain ⟨hh, hcall, hshut, hs⟩ := hd
  have hs' : tx.send ≠ .failStore := by
    intro hfail
    rcases Tx.sendStep_fails h hfail with hp | ⟨⟨msg, w, hp⟩, hx⟩
    · have hmem : [] ∈ c.tx.admitted := ho.sublist.subset (by simp [Tx.underway, hp, SendPc.inHand])
      exact hne (by simp [messages, hmem])
    · by_cases hopen : c.tx.sendOpen = true
      · exact hx (hok.1.2.2 hopen rfl)
      · -- nothing is being sent any more
        obtain ⟨-, -, -, hfr⟩ := hshut (by simpa using hopen)
        simp [hp, SendPc.inFrame] at hfr
  have hsame := Tx.sendStep_active h hs
  refine ⟨Tx.sendStep_handed h hs hs' hh, fun hm => Tx.sendStep_enqueue h ▸ hcall hm, fun hopen => ?_, hs'⟩
  obtain ⟨hm, hi⟩ := hshut (hsame.2 ▸ hopen)
  exact ⟨hm, Tx.sendStep_idle h hi⟩

theorem step_delivers (h : c.step (t, x) = some c') (hok : c.Drained (t, x)) (ho : c.tx.Ordered)
    (hne : [] ∉ c.messages) (hd : c.Delivers) : c'.Delivers := by
  by_cases hm : t = .main
  · subst hm
    exact mainStep_delivers h hok hd
  by_cases hs : t = .send
  · subst hs
    obtain ⟨tx, htx, rfl⟩ := Option.map_eq_some_iff.1 h
    exact sendStep_delivers htx hok ho hne hd
  · have htx := workerStep_tx h hm hs
    obtain ⟨hmain, -, -⟩ := (step_pc h).main hm
    obtain ⟨hh, hcall, hshut, hsf⟩ := hd
    rw [← hmain] at hcall hshut
    exact ⟨htx ▸ hh, htx ▸ hcall, htx ▸ hshut, htx ▸ hsf⟩

end Client

/-! ## In every reachable state -/

variable {c : Client}

theorem nonempty (h : client.Reach Client.Drained c) : [] ∉ c.messages := by
  refine h.invariant (fun c => [] ∉ c.messages) ?_ ?_
  · rintro c ⟨txMode, rxMode, stream, rfl⟩
    exact nofun
  · rintro c ⟨t, x⟩ c' - hne hok hst hmem
    rcases Client.step_messages hst hmem with h1 | rfl
    · exact hne h1
    · exact absurd hok.1.2.1.1 (by simp)

theorem delivers (h : client.Reach Client.Drained c) : c.Delivers := by
  refine h.invariant Client.Delivers ?_ fun c i c' hr hd hok hst =>
    Client.step_delivers hst hok (ordered (tx_reach hr)) (nonempty hr) hd
  rintro c ⟨txMode, rxMode, stream, rfl⟩
  exact ⟨rfl, fun _ => ⟨true, rfl⟩, nofun, nofun⟩

/-- When no call of `TxEnqueueMessage` is under way, what is accepted is written, being written, in hand or queued. -/
theorem accepted_eq (h : client.Reach Client.Drained c) (hm : c.main ≠ .enqueue) :
    c.tx.accepted = c.tx.written ++ c.tx.send.inFrame ++ c.tx.send.inHand ++ c.tx.txQueue := by
  obtain ⟨hh, hcall, -, -⟩ := delivers h
  obtain ⟨ok, hret⟩ := hcall hm
  have hu := underway_eq h fun _ _ ho => ho.1.1
  simp only [Tx.underway, Tx.admitted, hret, EnqueuePc.owed, List.append_nil] at hu
  rw [← hu, hh]

/-- **Nothing accepted is dropped** if the socket is shut down when `SendMessages` has nothing to send. -/
theorem accepted_written (h : client.Reach Client.Drained c) : c.Undropped := by
  intro hopen
  obtain ⟨hm, hq, hin, hfr⟩ := (delivers h).shut hopen
  rw [accepted_eq h (by rintro he; simp [he, MainPc.Shut] at hm), hq, hin, hfr, List.append_nil, List.append_nil,
    List.append_nil]

/-- A shutdown at any other moment drops something. -/
theorem dropped_of_shutdown {c' : Client} (h : client.Reach Client.Drained c) (hm : c.main = .shutdown)
    (hi : ¬ c.tx.Idle) (hst : c.step (.main, .go) = some c') : ¬ c'.Undropped := by
  simp only [Client.step, Client.mainStep, hm, Option.some.injEq] at hst
  subst hst
  intro hu
  have hw : c.tx.written = c.tx.accepted := hu rfl
  rw [accepted_eq h (by simp [hm]), List.append_assoc, List.append_assoc, List.self_eq_append_right,
    List.append_eq_nil_iff, List.append_eq_nil_iff] at hw
  exact hi ⟨hw.2.2, hw.2.1, hw.1⟩

/-- One line; it is sent, and then the input ends. -/
def sendThenShut : List (Thread × Input) := oneLine ++ List.replicate 6 (Thread.main, Input.go)

theorem accepted_written_sendThenShut :
    (client.run (.start .blockProducer .dropNewest []) sendThenShut).map
        (fun c => (c.tx.sendOpen, c.tx.accepted)) = some (false, [[104]]) ∧
      ∀ c ∈ client.run (.start .blockProducer .dropNewest []) sendThenShut, c.Undropped := by
  have hinit : client.Reach Client.Drained (.start .blockProducer .dropNewest []) := .init ⟨_, _, _, rfl⟩
  exact ⟨by decide +kernel, fun c hc => accepted_written (hinit.run_along hc (by decide +kernel))⟩

/-- One line, then the end of the input; `SendMessages` has not run yet when the socket is shut down. -/
def shutBeforeSend : List (Thread × Input) :=
  [(Thread.main, Input.line [104])] ++ List.replicate 8 (Thread.main, Input.go) ++ [(Thread.main, Input.eof)] ++
    List.replicate 6 (Thread.main, Input.go)

/-- **Otherwise an accepted message is lost**, though nothing fails before the shutdown. -/
theorem accepted_dropped : ¬ ∀ c, client.Reach Client.Willing c → c.Undropped := by
  intro h
  have hinit : client.Reach Client.Willing (.start .blockProducer .dropNewest []) := .init ⟨_, _, _, rfl⟩
  have hrun : (client.run (.start .blockProducer .dropNewest []) shutBeforeSend).map
      (fun c => (c.tx.sendOpen, c.tx.written, c.tx.accepted)) = some (false, [], [[104]]) := by decide +kernel
  obtain ⟨c, hc, hq⟩ := Option.map_eq_some_iff.1 hrun
  simp only [Prod.mk.injEq] at hq
  obtain ⟨hopen, hw, ha⟩ := hq
  have := h c (hinit.run_along hc (by decide +kernel)) hopen
  simp [hw, ha] at this

end TcpChat.FramingClient
