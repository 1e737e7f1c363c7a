import Mathlib.Data.List.Perm.Subperm
import TcpChat.Framing.Reading
import TcpChat.FramingClient.Drain
import TcpChat.FramingClient.Output
import TcpChat.FramingClient.RxQueue

/-!
# A client that has nothing to do

* `Typed` — up to the end of the input, `BlockProducer` loses no line as long as the client is active;
* `Intact` — up to the end of the input `ReceiveMessages` is the only reader, and has received what it has read;
* `AtRest` — the main thread waits for a line, and the other threads for messages and bytes;
* `AtRest.lines_written`, `AtRest.printed_received` — then all lines have been written and all messages printed.
-/

namespace TcpChat.FramingClient

open TcpChat.Framing TcpChat.Lib

/-! ## The lines -/

namespace Client

variable {c c' : Client} {t : Thread} {x : Input}

/-- In the mode `BlockProducer` an active client has lost no line. -/
def Typed (c : Client) : Prop :=
  c.tx.txMode = .blockProducer → c.tx.active = true → c.main.InCin →
    c.tx.admitted ++ c.coming = c.lines ∧ ¬ c.tx.enqueue.Rejects

theorem mainStep_typed (h : c.mainStep x = some c') (hmode : c'.tx.txMode = c.tx.txMode)
    (hact : c'.tx.active = true → c.tx.active = true) (ht : c.Typed) : c'.Typed := by
  intro hm' ha' hin'
  have hm := hmode ▸ hm'
  have ha := hact ha'
  by_cases hin : c.main.InCin
  · obtain ⟨hlines, hrej⟩ := ht hm ha hin
    cases hpc : c.main <;> simp only [hpc, MainPc.InCin] at hin
    case getline =>
      have hadm : c.tx.admitted = c.lines := by simpa [coming, hpc, MainPc.line] using hlines
      cases x <;> simp only [mainStep, hpc, Option.some.injEq, reduceCtorEq] at h
      case line msg =>
        subst h
        exact ⟨by simp only [coming, MainPc.line, hadm], hrej⟩
      case eof =>
        subst h
        exact hin'.elim
    case lineTest msg =>
      have hadm : c.tx.admitted ++ [msg] = c.lines := by simpa [coming, hpc, MainPc.line] using hlines
      cases x <;> simp only [mainStep, hpc, reduceCtorEq] at h
      split at h
      · cases h
        exact hin'.elim
      split at h
      · cases h
        exact hin'.elim
      obtain ⟨tx, hst, rfl⟩ := Option.map_eq_some_iff.1 h
      obtain ⟨⟨ok, hret⟩, rfl⟩ := Tx.enqueueStep_call hst
      refine ⟨?_, id⟩
      simpa [coming, Tx.admitted, hret, EnqueuePc.owed, EnqueuePc.coming] using hadm
    case enqueue =>
      cases x <;> simp only [mainStep, hpc, reduceCtorEq] at h
      simp only [coming, hpc] at hlines
      split at h
      · rename_i ok hret
        obtain rfl : ok = true := by
          cases ok
          · simp [hret, EnqueuePc.Rejects] at hrej
          · rfl
        cases h
        exact ⟨by simpa [coming, MainPc.line, hret, EnqueuePc.coming] using hlines, hrej⟩
      · obtain ⟨tx, hst, rfl⟩ := Option.map_eq_some_iff.1 h
        obtain ⟨hsame, hrej', -, -⟩ := Tx.enqueueStep_coming hst hm ha hrej
        exact ⟨by simp only [coming, hsame, hlines], hrej'⟩
  · exact absurd hin' (mainStep_disconnect h hin).1

theorem step_typed (h : c.step (t, x) = some c') (ht : c.Typed) : c'.Typed := by
  have hact : c'.tx.active = true → c.tx.active = true := fun ha => by
    by_contra hno
    simp [step_inactive h (Bool.eq_false_iff.2 hno)] at ha
  by_cases hm : t = .main
  · subst hm
    exact mainStep_typed h (step_txMode h) hact ht
  · obtain ⟨hmain, he, hacc⟩ := (step_pc h).main hm
    intro hm' ha' hin'
    obtain ⟨hlines, hrej⟩ := ht (step_txMode h ▸ hm') (hact ha') (hmain ▸ hin')
    rw [step_lines h hm, Tx.admitted, hacc, he, coming, hmain, he]
    exact ⟨hlines, hrej⟩

/-! ## The bytes -/

/-- Up to the end of the input `ReceiveMessages` has received the frames of what it has read. -/
structure Intact (c : Client) : Prop where
  reader : ∀ r, c.recv = .frame r → r.Open
  read : c.main.InCin → c.recv.Reading → WellFramed c.stream →
    (∀ p ∈ c.received, ValidPayload p) ∧
      c.stream = (c.received.map frame).flatten ++ (c.recv.taken ++ c.unread)

/-- The call of `recv` takes no bytes, or some that come next. -/
theorem recvCall_reads {r : FrameReader} {res : RecvResult} {unread : List UInt8}
    (h : c.recvCall r.wants x = some (res, unread)) :
    unread = c.unread ∧ (r.turn res = .again r ∨ r.turn res = .ret none) ∨
      ∃ b, b ≠ [] ∧ b.length ≤ r.wants ∧ res = .bytes b ∧ c.unread = b ++ unread := by
  cases x <;> simp only [recvCall, Option.ite_none_right_eq_some, Option.some.injEq, Prod.mk.injEq, reduceCtorEq] at h
  case count n =>
    obtain ⟨⟨-, hn, hw, hu⟩, rfl, rfl⟩ := h
    have hlen : (c.unread.take n).length = n := List.length_take_of_le hu
    exact .inr ⟨_, List.length_pos_iff.1 (by omega), by omega, rfl, (List.take_append_drop n _).symm⟩
  case closed =>
    obtain ⟨hu, rfl, rfl⟩ := h
    exact .inl ⟨hu.symm, .inr rfl⟩
  case error e =>
    obtain ⟨rfl, rfl⟩ := h
    refine .inl ⟨rfl, ?_⟩
    simp only [FrameReader.turn]
    split
    · exact .inl rfl
    · exact .inr rfl

theorem recvStep_intact (h : c.recvStep x = some c') (hi : c.Intact) : c'.Intact := by
  have hmain := ((step_pc (t := .recv) h).main (by simp)).1
  have hstream := (step_data (t := .recv) h).stream
  obtain ⟨hopen, hread⟩ := hi
  by_cases hd : ∃ r, c.recv = .frame r
  · obtain ⟨r, hp⟩ := hd
    have hr := hopen r hp
    simp only [hp, RecvPc.taken] at hread
    simp only [recvStep, hp] at h
    split at h
    · cases h
    rename_i res unread hcall
    rcases recvCall_reads hcall with ⟨rfl, hturn | hturn⟩ | ⟨b, hb, hle, rfl, hu⟩
    · rw [hturn] at h
      cases h
      exact ⟨fun r' h' => RecvPc.frame.inj h' ▸ hr, fun hin _ hw => hread hin trivial hw⟩
    · rw [hturn] at h
      cases h
      exact ⟨by simp, fun _ hn => hn.elim⟩
    · -- what has been received, with the piece that `recv` has answered
      have hread' : c.main.InCin → WellFramed c.stream → (∀ p ∈ c.received, ValidPayload p) ∧
          c.stream = (c.received.map frame).flatten ++ (r.consumed ++ (b ++ unread)) := fun hin hw => by
        rw [← hu]
        exact hread hin trivial hw
      have hnext := fun hin hw => FrameReader.turn_reads hr hb hle (hread' hin hw).1 hw (hread' hin hw).2
      split at h <;> rename_i hturn <;> rw [hturn] at hnext <;> cases h
      · refine ⟨fun r' h' => RecvPc.frame.inj h' ▸ FrameReader.open_turn hr hturn, fun hin _ hw => ⟨(hread' hin hw).1, hnext hin hw⟩⟩
      · exact ⟨by simp, fun _ hn => hn.elim⟩
      · -- a payload has been received
        refine ⟨by simp, fun hin _ hw => ?_⟩
        obtain ⟨hmsg, heq⟩ := hnext hin hw
        refine ⟨fun p hp => ?_, heq⟩
        rcases List.mem_append.1 hp with hp | hp
        · exact (hread' hin hw).1 p hp
        · exact List.mem_singleton.1 hp ▸ hmsg
  · have hd' : ∀ r, c.recv ≠ .frame r := fun r hp => hd ⟨r, hp⟩
    have htaken : c.recv.taken = [] := by cases hp : c.recv <;> simp_all [RecvPc.taken]
    obtain ⟨hunread, -, hreceived, htaken', -, hreading, hstart⟩ := recvStep_other h hd'
    refine ⟨fun r hp => hstart r hp ▸ FrameReader.open_start, fun hin hn hw => ?_⟩
    rw [hmain] at hin
    rw [hstream] at hw
    rw [hreceived, hstream, htaken', hunread, ← htaken]
    exact hread hin (hreading hn) hw

theorem step_intact (h : c.step (t, x) = some c') (hi : c.Intact) : c'.Intact := by
  by_cases ht : t = .recv
  · subst ht
    exact recvStep_intact h hi
  have hrecv := (step_pc h).recv ht
  have hdata := step_data h
  have hcin : c'.main.InCin → c.main.InCin ∧ c'.unread = c.unread := by
    intro hin'
    by_cases hm : t = .main
    · subst hm
      have hin : c.main.InCin := by
        by_contra hin
        exact (mainStep_disconnect h hin).1 hin'
      exact ⟨hin, (mainStep_other h fun r hp => by simp [hp, MainPc.InCin] at hin).1⟩
    · exact ⟨((step_pc h).main hm).1 ▸ hin', hdata.unread hm ht⟩
  refine ⟨hrecv ▸ hi.reader, fun hin hn hw => ?_⟩
  obtain ⟨hin, hunread⟩ := hcin hin
  rw [hdata.stream] at hw
  rw [(hdata.messages ht).1, hdata.stream, hrecv, hunread]
  exact hi.read hin (hrecv ▸ hn) hw

end Client

/-! ## In every reachable state -/

variable {c : Client}

theorem typed (h : client.Reachable c) : c.Typed := by
  refine h.invariant Client.Typed ?_ fun c ⟨t, x⟩ c' _ ih _ hst => Client.step_typed hst ih
  rintro c ⟨txMode, rxMode, stream, rfl⟩ - - -
  exact ⟨rfl, id⟩

theorem intact (h : client.Reachable c) : c.Intact := by
  refine h.invariant Client.Intact ?_ fun c ⟨t, x⟩ c' _ ih _ hst => Client.step_intact hst ih
  rintro c ⟨txMode, rxMode, stream, rfl⟩
  exact ⟨nofun, fun _ _ _ => ⟨by simp [Client.start], rfl⟩⟩

/-- `SendMessages` waits for a message. -/
def SendPc.Waits : SendPc → Prop
  | .lock | .pred | .park | .parked => True
  | _ => False

instance : DecidablePred SendPc.Waits := fun p =>
  decidable_of_iff (p matches .lock | .pred | .park | .parked) (by cases p <;> simp [SendPc.Waits])

/-- The main thread waits for a line, and the other threads for messages and bytes. -/
structure Client.AtRest (c : Client) : Prop where
  active : c.tx.active = true
  main : c.main = .getline
  txQueue : c.tx.txQueue = []
  send : c.tx.send.Waits
  recv : c.recv = .frame .start
  unread : c.unread = []
  rxQueue : c.rxQueue = []
  print : c.print.inHand = []

instance (c : Client) : Decidable c.AtRest :=
  decidable_of_iff (c.tx.active = true ∧ c.main = .getline ∧ c.tx.txQueue = [] ∧ c.tx.send.Waits ∧
      c.recv = .frame .start ∧ c.unread = [] ∧ c.rxQueue = [] ∧ c.print.inHand = [])
    ⟨fun ⟨h1, h2, h3, h4, h5, h6, h7, h8⟩ => ⟨h1, h2, h3, h4, h5, h6, h7, h8⟩,
      fun ⟨h1, h2, h3, h4, h5, h6, h7, h8⟩ => ⟨h1, h2, h3, h4, h5, h6, h7, h8⟩⟩

/-- All lines have been written. -/
theorem Client.AtRest.lines_written (hc : c.AtRest) (h : client.Reachable c) (hmode : c.tx.txMode = .blockProducer) :
    (∀ l ∈ c.lines, ValidPayload l) ∧ c.tx.wire = (c.lines.map frame).flatten := by
  have hin : c.main.InCin := by rw [hc.main]; trivial
  obtain ⟨hlines, -⟩ := typed h hmode hc.active hin
  have hadm : c.tx.admitted = c.lines := by simpa [Client.coming, hc.main, MainPc.line] using hlines
  have hunder := (ordered (tx_reach h)).exact (by rw [hmode]; decide)
  have hsend := hc.send
  have hhand : c.tx.send.inHand = [] := by cases hp : c.tx.send <;> simp_all [SendPc.Waits, SendPc.inHand]
  have hidle : c.tx.send.emitting = .idle := by cases hp : c.tx.send <;> simp_all [SendPc.Waits, SendPc.emitting]
  have hhanded : c.tx.handed = c.lines := by simpa [Tx.underway, hhand, hc.txQueue, hadm] using hunder
  have hw := tx_emitted (tx_reach h)
  rw [Tx.Written, hidle, hhanded] at hw
  exact hw

/-- All messages have been printed, if `m_rxQueue` never overflows silently. -/
theorem Client.AtRest.printed_received (hc : c.AtRest) (h : client.Reachable c)
    (hmode : c.rxMode = .disconnectOnOverflow) : c.printed = c.received := by
  obtain ⟨q, hq⟩ := monitored_of_reach h
  have hf := follows_of_reach hq
  have hread := hf.reading hmode (by rw [hc.recv]; trivial)
  have hnil : q.queue = [] := by
    rw [← List.length_eq_zero_iff, ← hf.length, hc.rxQueue, List.length_nil]
  have hkept : q.kept = q.taken := by rw [BoundedQueue.kept, hnil, List.append_nil]
  have hinc := hf.kept.increasing
  have hbound := hf.kept.bound
  rw [hkept] at hread hinc hbound
  have hsub := BoundedQueue.values_sublist hinc hbound
  have hlen : q.arrived.length ≤ q.taken.length := by
    have hall := List.subperm_of_subset (List.nodup_range (n := q.arrived.length)) fun i hi =>
      hread i (List.mem_range.1 hi)
    simpa using hall.length_le
  have heq := hsub.eq_of_length_le (by simpa [BoundedQueue.values] using hlen)
  rw [← hf.printed, hc.print, List.append_nil] at heq
  rw [heq, hf.received, hc.recv]
  simp [RecvPc.inHand]

end TcpChat.FramingClient
