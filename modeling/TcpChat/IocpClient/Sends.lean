import TcpChat.IocpClient.Refinement

/-!
# What the client sends

The statements about the send pipe, for the client with its threads.

* `single_send` — one `WSASend` at a time, for the front item, and nothing is lost if none of them fails;
* `short_buffer` — a message of `2 ^ 32` bytes is submitted with an empty buffer;
* `untorn` — the stream is not torn if no `WSASend` fails for an item that has partly gone out;
* `torn` — otherwise the rest of the item is missing from the stream.
-/

namespace TcpChat.IocpClient

open TcpChat.Lib

/-- The item of a send that has completed. -/
def Packet.item : Packet → Option SendItem
  | send it _ _ => some it
  | recv _ _ | quit => none

namespace Client

/-- The sends that are pending, and those whose packet has not been taken from the completion port. -/
def outstanding (s : Client) : List SendItem := s.pending ++ s.packets.filterMap Packet.item

/-- One send is outstanding at most; it is the one of the front item, as the item is now, and what is submitted is the
part of the item that has not gone out, up to the `2 ^ 32` bytes that a `ULONG` can count. -/
structure Exclusive (s : Client) : Prop where
  one : s.outstanding.length ≤ 1
  front : ∀ it ∈ s.outstanding, s.sendQueue.head? = some it
  buffer : ∀ it ∈ s.outstanding, it.buffer = (it.data.drop it.off).take ((it.data.length - it.off) % 2 ^ 32)
  whole : ∀ it ∈ s.outstanding, it.data.length - it.off < 2 ^ 32 → it.buffer = it.data.drop it.off
  off : ∀ it ∈ s.sendQueue, it.off ≤ it.data.length

/-- A `WSASend` fails only for an item of which nothing has gone out. -/
def RefusesWhole (s : Client) (a : Action) : Prop := s.Refuses a → ∀ it ∈ s.sendQueue.head?, it.off = 0

instance (s : Client) : DecidablePred s.RefusesWhole := fun _ => inferInstanceAs (Decidable (_ → _))

end Client

variable {s : Client} {p : Pipe} {it : SendItem}

theorem filterMap_item (packets : List Packet) :
    packets.filterMap Packet.item = (packets.filterMap Packet.sendDone).map (·.1) := by
  rw [List.map_filterMap]
  refine List.filterMap_congr fun packet _ => ?_
  cases packet <;> rfl

/-- What is outstanding is the item that the pipe has submitted. -/
theorem Refines.outstanding (h : Refines s p) :
    s.outstanding.length ≤ 1 ∧ ∀ it ∈ s.outstanding, p.phase.item = some it := by
  have hright := h.right
  rw [Client.outstanding, filterMap_item]
  unfold Phase.Right at hright
  split at hright
  next hphase =>
    obtain ⟨-, hr⟩ := hright
    simp only [Client.rights, Rights.mk.injEq] at hr
    simp [hr]
  next hphase =>
    obtain ⟨-, hr | hr⟩ := hright <;> simp only [Client.rights, Rights.mk.injEq] at hr <;> simp [hr]
  next it hphase =>
    obtain ⟨-, hr⟩ := hright
    simp only [Client.rights, Rights.mk.injEq] at hr
    simp [hr, hphase, Phase.item]
  next it bytes ok hphase =>
    obtain ⟨-, hr | ⟨-, hr⟩⟩ := hright <;> simp only [Client.rights, Rights.mk.injEq] at hr <;>
      simp [hr, hphase, Phase.item]
  next hphase =>
    obtain ⟨-, hr⟩ := hright
    simp only [Client.rights, Rights.mk.injEq] at hr
    simp [hr]

theorem SendItem.buffer_whole (h : it.data.length - it.off < 2 ^ 32) : it.buffer = it.data.drop it.off := by
  have hlen : it.len = it.data.length - it.off := Nat.mod_eq_of_lt h
  rw [SendItem.buffer, hlen, List.take_of_length_le]
  rw [List.length_drop]

theorem exclusive_of_reach (h : client.Reachable s) : s.Exclusive := by
  obtain ⟨p, -, hR, hp⟩ := refines_of_reach (fun _ _ => True) (fun _ _ _ _ _ _ _ => trivial) h
  obtain ⟨hone, hitem⟩ := hR.outstanding
  refine ⟨hone, fun it hit => ?_, fun it _ => rfl, fun it _ => SendItem.buffer_whole, fun it hit => ?_⟩
  · rw [← hR.queue]
    exact hp.front it (hitem it hit)
  · rw [← hR.queue] at hit
    exact (hp.known it hit).2

/-- **The stream is not torn**: it is made of whole messages in their order and of the beginning of one more, and each
message is whole before a later one starts. -/
theorem untorn (h : client.Reach Client.RefusesWhole s) :
    Untorn s.sent s.log ∧ ∃ (whole : List ℕ) (i : ℕ) (part : List UInt8), (whole ++ [i]).Pairwise (· < ·) ∧
      part <+: s.sent.getD i [] ∧ s.completed = whole.flatMap (fun j => s.sent.getD j []) ++ part := by
  obtain ⟨p, hreach, hR, -⟩ := refines_of_reach TcpChat.IocpClient.RefusesWhole
    (fun _ _ _ _ hR hs he heq => hR.queue ▸ hs (he heq)) h
  have huntorn := untorn_of_reach hreach
  rw [hR.log, hR.sent] at huntorn
  exact ⟨huntorn, huntorn.stream⟩

/-! ## Runs -/

/-- The network thread connects, starts `SendWorker` and waits for completions. -/
def connect : List Action :=
  [Action.thread .net .ok, Action.thread .net .ok, Action.thread .net .go, Action.thread .net .ok] ++
    List.replicate 3 (Action.thread .net .go)

/-- The input thread sends a line. -/
def sendLine (msg : List UInt8) : List Action := .thread .input (.line msg) :: List.replicate 3 (.thread .input .go)

/-- `SendWorker` submits the front item, and `x` is the answer of `WSASend`. -/
def submit (x : Input) : List Action :=
  List.replicate 7 (Action.thread .worker .go) ++ [Action.thread .worker x, Action.thread .worker .go]

/-- The send completes with a part of the item, and the network thread submits the rest. -/
def resubmit (bytes : ℕ) (x : Input) : List Action :=
  Action.sendDone 0 bytes true :: List.replicate 6 (Action.thread .net .go) ++
    [Action.thread .net x, Action.thread .net .go, Action.thread .net .go]

/-- The send completes with the rest of the last item. -/
def complete (bytes : ℕ) : List Action := .sendDone 0 bytes true :: List.replicate 5 (.thread .net .go)

/-- The state in which a message has been submitted. -/
def submitted (msg : List UInt8) : Client :=
  { Client.start with
    socket := true, isActive := true, runSend := true, sendQueue := [⟨0, msg, 0⟩], sendInFlight := true,
    recvPending := true, pending := [⟨0, msg, 0⟩], net := .wait, worker := .loop, sent := [msg] }

/-- The state in which the client waits for the first line. -/
def connected : Client :=
  { Client.start with
    socket := true, isActive := true, runSend := true, recvPending := true, net := .wait, worker := .loop }

/-- The state in which the first line has been queued. -/
def queued (msg : List UInt8) : Client := { connected with sendQueue := [⟨0, msg, 0⟩], sent := [msg] }

theorem connect_run : client.run .start connect = some connected := rfl

theorem sendLine_run {msg : List UInt8} (hmsg : msg ≠ []) :
    client.run connected (sendLine msg) = some (queued msg) := by
  cases msg with
  | nil => exact absurd rfl hmsg
  | cons b msg => rfl

theorem submit_run (msg : List UInt8) : client.run (queued msg) (submit .ok) = some (submitted msg) := rfl

theorem submitted_run {msg : List UInt8} (hmsg : msg ≠ []) :
    client.run .start (connect ++ sendLine msg ++ submit .ok) = some (submitted msg) := by
  rw [System.run_append, System.run_append, connect_run, Option.bind_some, sendLine_run hmsg, Option.bind_some,
    submit_run]

/-- The `WSASend` for the first message fails, and the second message goes out. -/
theorem untorn_refused :
    (client.run .start (connect ++ sendLine [65, 66] ++ submit .failed ++ sendLine [67] ++ submit .ok ++ complete 1)).map
      (fun s => (s.sent, s.log)) = some ([[65, 66], [67]], [(1, [67])]) ∧
    ∀ s ∈ client.run .start (connect ++ sendLine [65, 66] ++ submit .failed ++ sendLine [67] ++ submit .ok ++ complete 1),
      Untorn s.sent s.log := by
  refine ⟨by decide +kernel, fun s hs => ?_⟩
  have hinit : client.Reach Client.RefusesWhole .start := .init rfl
  exact (untorn (hinit.run_along hs (by decide +kernel))).1

/-- The `WSASend` for the rest of the first message fails, and the second message goes out. -/
theorem torn : ¬ ∀ s, client.Reachable s → Untorn s.sent s.log := by
  intro hall
  have hrun : (client.run .start (connect ++ sendLine [65, 66] ++ submit .ok ++ resubmit 1 .failed ++ sendLine [67] ++
      submit .ok ++ complete 1)).map (fun s => (s.sent, s.log)) = some ([[65, 66], [67]], [(0, [65]), (1, [67])]) := by
    decide +kernel
  obtain ⟨s, hs, hv⟩ := Option.map_eq_some_iff.1 hrun
  simp only [Prod.mk.injEq] at hv
  obtain ⟨hsent, hlog⟩ := hv
  have huntorn := hall s (System.reachable_of_run rfl hs)
  rw [hsent, hlog] at huntorn
  exact absurd (huntorn.whole 0 1 (by decide) (by decide) (by decide)) (by decide)

end TcpChat.IocpClient
