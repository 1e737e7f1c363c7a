import TcpChat.SelectClient.Model

/-!
# The output stream of the `select` client

Each item of `m_sendQ` remembers how much of it `send` has accepted.

* `Queued` — what has been accepted and what is left in the queue make up what was enqueued, and no item is used up;
* `streamed` — so in every run, whatever `send` accepts in its calls, as long as the items are shorter than 2^31 bytes;
* `offersNegative` — the length of an item of 2^31 bytes is negative as an `int`.
-/

namespace TcpChat.SelectClient

open TcpChat.Lib TcpChat.Framing

/-- The line, with a newline at its end. -/
def terminated (line : List UInt8) : List UInt8 := if [10] <:+ line then line else line ++ [10]

/-- The part of an item that has not been sent. -/
def Pending.unsent (p : Pending) : List UInt8 := p.data.drop p.ofs

variable {c c' : Client} {p : Position} {s s' : State} {x : Input} {line : List UInt8}

/-! ## `EnqueueSend` -/

theorem data_enqueueSend : (if line = [] ∨ line.getLast? ≠ some 10 then line ++ [10] else line) = terminated line := by
  have hiff : [10] <:+ line ↔ line.getLast? = some 10 := by
    rw [List.getLast?_eq_some_iff]
    exact exists_congr fun _ => eq_comm
  unfold terminated
  by_cases hlast : line.getLast? = some 10
  · have hne : line ≠ [] := by
      rintro rfl
      cases hlast
    rw [if_neg (by simp [hlast, hne]), if_pos (hiff.2 hlast)]
  · rw [if_pos (.inr hlast), if_neg fun h => hlast (hiff.1 h)]

theorem terminated_ne_nil (line : List UInt8) : terminated line ≠ [] := by
  unfold terminated
  split
  next h =>
    rintro rfl
    simp at h
  · simp

theorem sendQ_enqueueSend : (enqueueSend c line).sendQ = c.sendQ ++ [⟨terminated line, 0⟩] := by
  rw [enqueueSend, data_enqueueSend]

/-! ## The invariant -/

structure Queued (s : State) : Prop where
  items : ∀ p ∈ s.client.sendQ, p.ofs < p.data.length ∧ p.data.length < 2 ^ 31
  stream : s.client.accepted ++ (s.client.sendQ.map (·.unsent)).flatten = (s.client.lines.map terminated).flatten
  offers : s.position = .sending → s.client.sendQ ≠ []

theorem enqueueSend_queued (h : Queued ⟨p, c⟩) (hlen : (terminated line).length < 2 ^ 31) :
    Queued ⟨p, enqueueSend c line⟩ := by
  refine ⟨fun i hi => ?_, ?_, fun _ => ?_⟩
  · rw [sendQ_enqueueSend, List.mem_append, List.mem_singleton] at hi
    rcases hi with hi | rfl
    · exact h.items i hi
    · exact ⟨List.length_pos_iff.2 (terminated_ne_nil line), hlen⟩
  · have hstream := h.stream
    show c.accepted ++ ((enqueueSend c line).sendQ.map (·.unsent)).flatten =
      ((c.lines ++ [line]).map terminated).flatten
    rw [sendQ_enqueueSend, List.map_append, List.flatten_append, ← List.append_assoc, hstream, List.map_append,
      List.flatten_append]
    simp [Pending.unsent]
  · rw [sendQ_enqueueSend]
    simp

/-- What is offered to `send` is the rest of the item, and not empty. -/
theorem remaining_eq {i : Pending} (h : i.ofs < i.data.length ∧ i.data.length < 2 ^ 31) :
    remaining i = (i.data.length - i.ofs : ℕ) ∧ 1 ≤ remaining i := by
  have he : remaining i = (i.data.length - i.ofs : ℕ) := toInt_of_lt (by omega)
  refine ⟨he, ?_⟩
  rw [he]
  omega

/-- `send` accepts `n` bytes of the first item, which is dropped when it is finished. -/
theorem sends_queued {front : Pending} {rest : List Pending} {n : ℕ} (h : Queued ⟨p, c⟩) (hq : c.sendQ = front :: rest)
    (hle : (n : ℤ) ≤ remaining front) :
    Queued ⟨.top, { c with accepted := c.accepted ++ (front.data.drop front.ofs).take n,
                           sendQ := if front.ofs + n = front.data.length then rest
                             else { front with ofs := front.ofs + n } :: rest }⟩ := by
  have hfront := h.items front (by rw [hq]; exact List.mem_cons_self)
  have hrest : ∀ i ∈ rest, i.ofs < i.data.length ∧ i.data.length < 2 ^ 31 := fun i hi =>
    h.items i (by rw [hq]; exact List.mem_cons_of_mem front hi)
  have hstream := h.stream
  rw [hq, List.map_cons, List.flatten_cons] at hstream
  rw [(remaining_eq hfront).1] at hle
  by_cases hdone : front.ofs + n = front.data.length
  · -- nothing of the item is left behind the `n` bytes
    have htake : (front.data.drop front.ofs).take n = front.unsent :=
      List.take_of_length_le (by rw [List.length_drop]; omega)
    rw [if_pos hdone, htake]
    refine ⟨hrest, ?_, by simp⟩
    show c.accepted ++ front.unsent ++ _ = _
    rw [List.append_assoc]
    exact hstream
  · have hcut : front.unsent = (front.data.drop front.ofs).take n ++ front.data.drop (front.ofs + n) := by
      rw [← List.drop_drop, List.take_append_drop]
      rfl
    rw [if_neg hdone]
    refine ⟨fun i hi => ?_, ?_, by simp⟩
    · rcases List.mem_cons.1 hi with rfl | hi
      · show front.ofs + n < front.data.length ∧ front.data.length < 2 ^ 31
        omega
      · exact hrest i hi
    · rw [hcut, List.append_assoc] at hstream
      show c.accepted ++ _ ++ (_ ++ _) = _
      rw [List.append_assoc]
      exact hstream

theorem Queued.moves (h : Queued ⟨p, c⟩) (hm : Moves c p x s') : Queued s' := by
  cases hm with
  | goesOn _ _ _ hsend => exact ⟨h.items, h.stream, hsend⟩
  | prints _ hsend => exact ⟨h.items, h.stream, hsend⟩
  | closed =>
    refine ⟨h.items, h.stream, fun hp => ?_⟩
    split at hp
    next hw => exact hw.2
    next => cases hp
  | sends hq _ hle => exact sends_queued h hq hle
  | sendsNothing => exact ⟨h.items, h.stream, by simp⟩
  | recvFails => exact ⟨h.items, h.stream, by simp⟩
  | sendFails => exact ⟨h.items, h.stream, by simp⟩
  | selectFails => exact ⟨h.items, h.stream, by simp⟩

/-- The item that the line becomes is shorter than 2^31 bytes. -/
def Short (_ : State) : Input → Prop
  | .enqueue line => (terminated line).length < 2 ^ 31
  | _ => True

instance (s : State) : DecidablePred (Short s)
  | .enqueue _ => inferInstanceAs (Decidable (_ < _))
  | .build | .timeout | .failed _ | .ready _ _ | .recv _ | .send _ => isTrue trivial

theorem step_queued (hrun : Running s.client) (h : Queued s) (hok : Short s x) (hst : step s x = some s') :
    Queued s' := by
  cases x with
  | enqueue line =>
    cases hst
    exact enqueueSend_queued h hok
  | _ => exact h.moves (loopStep_moves hrun hst)

/-! ## Runs -/

/-- What the client has to send and what it offers to `send`. -/
structure Streamed (s : State) : Prop where
  items : ∀ i ∈ s.client.sendQ, i.data ≠ [] ∧ i.ofs < i.data.length
  offered : s.position = .sending → ∃ front rest, s.client.sendQ = front :: rest ∧ 1 ≤ remaining front
  stream : s.client.accepted ++ (s.client.sendQ.map (·.unsent)).flatten = (s.client.lines.map terminated).flatten

theorem Queued.streamed (h : Queued s) : Streamed s := by
  refine ⟨fun i hi => ?_, fun hp => ?_, h.stream⟩
  · obtain ⟨hlt, -⟩ := h.items i hi
    exact ⟨List.length_pos_iff.1 (Nat.zero_lt_of_lt hlt), hlt⟩
  · obtain ⟨front, rest, hq⟩ := List.exists_cons_of_ne_nil (h.offers hp)
    exact ⟨front, rest, hq, (remaining_eq (h.items front (by rw [hq]; exact List.mem_cons_self))).2⟩

/-- **What `send` has accepted and what is left in the queue are the enqueued lines**, in every run whose items are
shorter than 2^31 bytes. -/
theorem streamed_of_short (h : client.Reach Short s) : Streamed s := by
  have hall : Running s.client ∧ Queued s := by
    refine h.invariant (fun s => Running s.client ∧ Queued s) ?_ fun s x s' _ hs hok hst =>
      ⟨step_running hs.1 hst, step_queued hs.1 hs.2 hok hst⟩
    rintro _ rfl
    exact ⟨⟨rfl, rfl⟩, by simp [Client.start], rfl, by simp⟩
  exact hall.2.streamed

/-- Two lines, an empty one among them; `send` takes part of the first item, is not ready, and takes the rest. -/
def twoLines : List Input :=
  [.enqueue [104, 105], .build, .ready false true, .enqueue [], .send (.count 1), .build, .ready false true,
    .send (.error .WSAEWOULDBLOCK), .build, .ready false true, .send (.count 2), .build, .ready false true]

theorem streamed_twoLines :
    ∃ s, client.run ⟨.top, .start⟩ twoLines = some s ∧ s.client.accepted = [104, 105, 10] ∧
      s.client.sendQ = [⟨[10], 0⟩] ∧ Streamed s := by
  obtain ⟨s, hs, hq⟩ := Option.map_eq_some_iff.1 (show (client.run ⟨.top, .start⟩ twoLines).map (fun s =>
    (s.client.accepted, s.client.sendQ)) = some ([104, 105, 10], [⟨[10], 0⟩]) by decide +kernel)
  simp only [Prod.mk.injEq] at hq
  exact ⟨s, hs, hq.1, hq.2, streamed_of_short ((System.Reach.init rfl).run_along hs (by decide +kernel))⟩

/-! ## An item of 2^31 bytes -/

theorem offersNegative_of (hlen : line.length = 2 ^ 31 - 1) (hlast : ¬ [10] <:+ line) :
    ∃ s, client.run ⟨.top, .start⟩ [.enqueue line, .build, .ready false true] = some s ∧ s.position = .sending ∧
      ∃ front, s.client.sendQ = [front] ∧ remaining front = -2 ^ 31 := by
  have hterm : (terminated line).length = 2 ^ 31 := by
    rw [terminated, if_neg hlast, List.length_append, hlen]
    rfl
  have hsendQ : (enqueueSend .start line).sendQ = [⟨terminated line, 0⟩] := sendQ_enqueueSend
  refine ⟨⟨.sending, enqueueSend .start line⟩, ?_, rfl, ⟨terminated line, 0⟩, hsendQ, ?_⟩
  · simp [System.run, client, step, loopStep, selected, handleReadyWriters, hsendQ]
    simp [enqueueSend, Client.start]
  · show toInt ((terminated line).length - 0) = _
    rw [hterm]
    decide

/-- A line of 2^31 - 1 bytes that does not end in a newline. -/
def longLine : List UInt8 := List.replicate (2 ^ 31 - 1) 104

/-- Its item has 2^31 bytes, and the length that is offered to `send` is negative. -/
theorem offersNegative :
    longLine.length < 2 ^ 31 ∧ ∃ s, client.run ⟨.top, .start⟩ [.enqueue longLine, .build, .ready false true] = some s ∧
      ¬ Streamed s := by
  have hlen : longLine.length = 2 ^ 31 - 1 := List.length_replicate
  have hlast : ¬ [10] <:+ longLine := by
    intro h
    have hmem : (10 : UInt8) ∈ longLine := h.subset List.mem_cons_self
    exact absurd (List.eq_of_mem_replicate hmem) (by decide)
  obtain ⟨s, hs, hp, front, hq, hr⟩ := offersNegative_of hlen hlast
  refine ⟨by omega, s, hs, fun h => ?_⟩
  obtain ⟨front', rest, hq', hr'⟩ := h.offered hp
  rw [hq, List.cons.injEq] at hq'
  rw [← hq'.1, hr] at hr'
  exact absurd hr' (by decide)

end TcpChat.SelectClient
