import TcpChat.FramingClient.Readers
import TcpChat.Lib.BoundedQueue

/-!
# The receive queue

`ReceiveMessages` puts what it has received into `m_rxQueue`, by the mode of the client if the queue is full, and
`PrintMessages` takes it out.  The client is watched by a `BoundedQueue`, in which each payload stands as the number
that it has among those received, and which remembers the queue that each payload has found.

* `monitored` — the client and the queue, with the moves of both (`monitored_of_reach`);
* `Follows` — the invariant;
* `rx_queue` — the bound, the order, and in each mode why a payload is missing.
-/

namespace TcpChat.FramingClient

open TcpChat.Framing TcpChat.Lib

/-- The payloads received, as a queue of their numbers. -/
abbrev RxLog := BoundedQueue (List UInt8)

/-- What the mode does with an overflow. -/
def RxOverflowMode.policy : RxOverflowMode → Overflow
  | dropNewest => .dropNewest
  | dropOldest => .dropOldest
  | disconnectOnOverflow => .stop

/-- The message that is not printed yet. -/
def PrintPc.inHand : PrintPc → List (List UInt8)
  | .unlock msg | .print msg => [msg]
  | _ => []

namespace Client

/-- What a step of the client is for the queue: an arrival when `ReceiveMessages` tests it, and a take when
`PrintMessages` pops from it. -/
def rxMove (c : Client) (q : RxLog) : Thread × Input → RxLog
  | (.recv, _) =>
    match c.recv with
    | .body msg => q.arrive maxRxQueueSize c.rxMode.policy msg
    | _ => q
  | (.print, _) =>
    match c.print with
    | .pop => q.take
    | _ => q
  | (.main, _) | (.send, _) => q

/-- The receive queue in a state of the watched client: it is bounded; what was printed, the message in the printer's
hand and the queue are payloads that were received, in their order and each of them once; a payload is missing only for
the reason that the mode gives, and after an overflow that disconnects the client is not active. -/
structure Receives (c : Client) (q : RxLog) : Prop where
  length : c.rxQueue.length ≤ maxRxQueueSize
  received : c.received = q.arrived.map Prod.fst ++ c.recv.inHand
  printed : c.printed ++ c.print.inHand = q.values q.taken
  queue : c.rxQueue = q.values q.queue
  increasing : q.kept.Pairwise (· < ·)
  bound : ∀ i ∈ q.kept, i < q.arrived.length
  dropNewest : c.rxMode = .dropNewest → ∀ i < q.arrived.length, i ∉ q.kept →
    ∃ msg queue, q.arrived[i]? = some (msg, queue) ∧ queue.length = maxRxQueueSize
  dropOldest : c.rxMode = .dropOldest → ∀ i < q.arrived.length, i ∉ q.kept →
    ∃ j msg queue, i < j ∧ q.arrived[j]? = some (msg, queue) ∧ queue.length = maxRxQueueSize ∧ queue.head? = some i
  newest : c.rxMode = .dropOldest → ∀ i, q.arrived.length = i + 1 → i ∈ q.kept
  disconnect : c.rxMode = .disconnectOnOverflow → ∀ i < q.arrived.length, i ∉ q.kept →
    i + 1 = q.arrived.length ∧ (∃ msg queue, q.arrived[i]? = some (msg, queue) ∧ queue.length = maxRxQueueSize) ∧
      (c.recv = .overflowStore ∨ c.tx.active = false)

end Client

/-- The client, watched by the queue. -/
def monitored : System (Client × RxLog) (Thread × Input) where
  init s := client.init s.1 ∧ s.2 = .empty
  step s i := (client.step s.1 i).map fun c' => (c', s.1.rxMove s.2 i)

/-- Every run of the client is watched. -/
theorem monitored_of_reach {c : Client} (h : client.Reachable c) : ∃ q, monitored.Reachable (c, q) := by
  have hsim : ∃ s, monitored.Reach (fun _ _ => True) s ∧ c = s.1 := by
    refine h.simulate (T := monitored) (fun c s => c = s.1) ?_ ?_
    · exact fun c hc => ⟨(c, .empty), ⟨hc, rfl⟩, rfl⟩
    · rintro c i c' ⟨c₀, q⟩ hc - hst
      obtain rfl : c = c₀ := hc
      exact .inr ⟨i, (c', c.rxMove q i), trivial, by simp [monitored, hst], rfl⟩
  obtain ⟨⟨c, q⟩, hreach, rfl⟩ := hsim
  exact ⟨q, hreach⟩

/-! ## The invariant -/

/-- The queue is the client's. -/
structure Follows (c : Client) (q : RxLog) : Prop where
  kept : q.Kept maxRxQueueSize c.rxMode.policy
  received : c.received = q.arrived.map Prod.fst ++ c.recv.inHand
  printed : c.printed ++ c.print.inHand = q.values q.taken
  queue : c.rxQueue = q.values q.queue
  reading : c.rxMode = .disconnectOnOverflow → c.recv.Reading → ∀ i < q.arrived.length, i ∈ q.kept
  stopped : c.rxMode = .disconnectOnOverflow → (∃ i < q.arrived.length, i ∉ q.kept) →
    c.recv = .overflowStore ∨ c.tx.active = false

variable {c c' : Client} {q : RxLog} {t : Thread} {x : Input} {msg : List UInt8}

theorem Follows.length (h : Follows c q) : c.rxQueue.length = q.queue.length := by
  rw [h.queue, BoundedQueue.values, List.length_map]

/-- The cast of the length to `unsigned int` changes nothing. -/
theorem Follows.wouldOverflow_iff (h : Follows c q) : c.WouldOverflowRx ↔ ¬ q.queue.length < maxRxQueueSize := by
  have hle := h.kept.length
  have hmod : toUInt32 q.queue.length = q.queue.length := by
    refine Nat.mod_eq_of_lt ?_
    simp only [maxRxQueueSize] at hle
    omega
  rw [Client.WouldOverflowRx, h.length, hmod, Nat.not_lt]

/-! ## What a step does -/

namespace Client

theorem step_rxMode (h : c.step (t, x) = some c') :
    c'.rxMode = c.rxMode ∧ (t ≠ .print → c'.printed = c.printed) := by
  cases t <;> simp only [step, mainStep, recvStep, printStep] at h
  all_goals repeat' split at h
  all_goals simp only [Option.map_eq_some_iff, Option.some.injEq, reduceCtorEq] at h
  all_goals first
    | subst h
    | obtain ⟨tx, htx, rfl⟩ := h
  all_goals first
    | exact ⟨rfl, fun _ => rfl⟩
    | exact ⟨rfl, fun hne => absurd rfl hne⟩

/-- `ReceiveMessages` outside its critical section: it may receive a payload. -/
theorem recvStep_rx (h : c.recvStep x = some c') (hbody : ∀ msg, c.recv ≠ .body msg) :
    c'.rxQueue = c.rxQueue ∧ (∃ msgs, c'.received = c.received ++ msgs ∧ c'.recv.inHand = c.recv.inHand ++ msgs) ∧
      (c'.recv.Reading → c.recv.Reading) ∧ (c.recv = .overflowStore → c'.tx.active = false) := by
  cases hpc : c.recv with
  | body msg => exact absurd hpc (hbody msg)
  | frame r =>
    simp only [recvStep, hpc] at h
    cases hcall : c.recvCall r.wants x with
    | none => simp only [hcall, reduceCtorEq] at h
    | some answer =>
      simp only [hcall] at h
      cases hturn : r.turn answer.1 with
      | again r' =>
        simp only [hturn, Option.some.injEq] at h
        subst h
        exact ⟨rfl, ⟨[], by simp, by simp [RecvPc.inHand]⟩, by simp [RecvPc.Reading], by simp⟩
      | ret res =>
        simp only [hturn] at h
        cases res with
        | none =>
          cases h
          exact ⟨rfl, ⟨[], by simp, by simp [RecvPc.inHand]⟩, by simp [RecvPc.Reading], by simp⟩
        | some msg =>
          cases h
          exact ⟨rfl, ⟨[msg], rfl, by simp [RecvPc.inHand]⟩, by simp [RecvPc.Reading], by simp⟩
  | lock msg =>
    cases x <;> simp only [recvStep, hpc, Option.ite_none_right_eq_some, Option.some.injEq, reduceCtorEq] at h
    obtain ⟨-, rfl⟩ := h
    exact ⟨rfl, ⟨[], by simp, by simp [RecvPc.inHand]⟩, by simp [RecvPc.Reading], by simp⟩
  | test =>
    cases x <;> simp only [recvStep, hpc, Option.some.injEq, reduceCtorEq] at h
    subst h
    cases hact : c.tx.active
    all_goals exact ⟨rfl, ⟨[], by simp, by simp [RecvPc.inHand]⟩, by simp [RecvPc.Reading], by simp⟩
  | _ =>
    cases x <;> simp only [recvStep, hpc, Option.some.injEq, reduceCtorEq] at h
    all_goals subst h
    all_goals exact ⟨rfl, ⟨[], by simp, by simp [RecvPc.inHand]⟩, by simp [RecvPc.Reading], by simp⟩

/-- `ReceiveMessages` inside it. -/
theorem recvStep_body (hb : c.recv = .body msg) (h : c.recvStep x = some c') :
    c'.received = c.received ∧ c'.recv.inHand = [] ∧
      (c'.rxQueue =
        if c.WouldOverflowRx then
          match c.rxMode.policy with
          | .dropNewest | .stop => c.rxQueue
          | .dropOldest => c.rxQueue.drop 1 ++ [msg]
        else c.rxQueue ++ [msg]) ∧
      (c.rxMode = .disconnectOnOverflow → c.WouldOverflowRx → c'.recv = .overflowStore) := by
  unfold recvStep at h
  rw [hb] at h
  cases x <;> simp only [reduceCtorEq] at h
  by_cases hover : c.WouldOverflowRx
  · cases hm : c.rxMode <;> simp only [if_pos hover, hm, Option.some.injEq] at h <;> subst h <;>
      simp [RecvPc.inHand, RxOverflowMode.policy, hover]
  · rw [if_neg hover, Option.some.injEq] at h
    subst h
    exact ⟨rfl, rfl, (if_neg hover).symm, fun _ h' => absurd h' hover⟩

/-- `PrintMessages` takes the oldest message when it pops, and else it keeps what it has. -/
theorem printStep_rx (h : c.printStep x = some c') :
    c'.received = c.received ∧ c'.tx.active = c.tx.active ∧
      ((c.print = .pop ∧ ∃ msg, c.rxQueue = msg :: c'.rxQueue ∧
          c'.printed ++ c'.print.inHand = c.printed ++ c.print.inHand ++ [msg]) ∨
        c.print ≠ .pop ∧ c'.rxQueue = c.rxQueue ∧ c'.printed ++ c'.print.inHand = c.printed ++ c.print.inHand) := by
  unfold printStep at h
  repeat' split at h
  all_goals simp only [Option.some.injEq, reduceCtorEq] at h
  all_goals subst h
  all_goals refine ⟨rfl, rfl, ?_⟩
  all_goals first
    | exact .inl ⟨‹_›, _, ‹_›, by simp [PrintPc.inHand, *]⟩
    | exact .inr ⟨by simp [*], rfl, by simp [PrintPc.inHand, *]⟩

end Client

/-- A step that leaves the queue alone. -/
theorem Follows.same (h : Follows c q) (hst : c.step (t, x) = some c') (hrx : c'.rxQueue = c.rxQueue)
    (hprinted : c'.printed ++ c'.print.inHand = c.printed ++ c.print.inHand)
    (hreceived : ∃ msgs, c'.received = c.received ++ msgs ∧ c'.recv.inHand = c.recv.inHand ++ msgs)
    (hreading : c'.recv.Reading → c.recv.Reading)
    (hoverflow : c.recv = .overflowStore → c'.recv = .overflowStore ∨ c'.tx.active = false) : Follows c' q := by
  obtain ⟨hkept, hrec, hprint, hqueue, hread, hstopped⟩ := h
  have hmode := (Client.step_rxMode hst).1
  obtain ⟨msgs, hmsgs, hhand⟩ := hreceived
  refine ⟨hmode ▸ hkept, ?_, hprinted.trans hprint, hrx.trans hqueue, fun hm hr => ?_, fun hm hlost => ?_⟩
  · rw [hmsgs, hhand, hrec, List.append_assoc]
  · exact hread (hmode ▸ hm) (hreading hr)
  · rcases hstopped (hmode ▸ hm) hlost with hov | hactive
    · exact hoverflow hov
    · exact .inr (Client.step_inactive hst hactive)

/-- `ReceiveMessages` in its critical section. -/
theorem Follows.arrive (h : Follows c q) (hb : c.recv = .body msg) (hst : c.step (.recv, x) = some c') :
    Follows c' (q.arrive maxRxQueueSize c.rxMode.policy msg) := by
  have hmode := (Client.step_rxMode hst).1
  have hprinted := (Client.step_rxMode hst).2 (by decide)
  have hprint := (Client.step_pc hst).print (by decide)
  obtain ⟨hreceived, hhand, hqueue, hover⟩ := Client.recvStep_body hb hst
  have hroom := h.wouldOverflow_iff
  have hall : c.rxMode.policy = .stop → ∀ i < q.arrived.length, i ∈ q.kept := by
    intro hstop
    refine h.reading ?_ (by rw [hb]; trivial)
    cases hm : c.rxMode <;> simp [hm, RxOverflowMode.policy] at hstop ⊢
  have hkeeps : c.rxMode = .disconnectOnOverflow → ¬ c.WouldOverflowRx →
      ∀ i < (q.arrive maxRxQueueSize c.rxMode.policy msg).arrived.length,
        i ∈ (q.arrive maxRxQueueSize c.rxMode.policy msg).kept := by
    intro hm hno i hi
    rw [BoundedQueue.kept_arrive (not_not.1 (mt hroom.2 hno))]
    rw [BoundedQueue.arrived_arrive, List.length_append, List.length_singleton] at hi
    rcases Nat.lt_succ_iff_lt_or_eq.1 hi with hi | rfl
    · exact List.mem_append_left _ (hall (by rw [hm]; rfl) i hi)
    · exact List.mem_append_right _ (List.mem_singleton.2 rfl)
  refine ⟨hmode ▸ h.kept.arrive (by decide) msg hall, ?_, ?_, ?_, fun hm hr i hi => ?_, fun hm hlost => ?_⟩
  · rw [hreceived, h.received, hhand, hb]
    simp [BoundedQueue.arrive, RecvPc.inHand]
  · rw [hprinted, hprint, h.printed]
    exact (BoundedQueue.values_arrive fun i hi => h.kept.bound i (List.mem_append_left _ hi)).symm
  · rw [hqueue, BoundedQueue.values_queue_arrive fun i hi => h.kept.bound i (List.mem_append_right _ hi), h.queue]
    by_cases hover' : c.WouldOverflowRx
    · refine (if_pos hover').trans (Eq.trans ?_ (if_neg (hroom.1 hover')).symm)
      cases c.rxMode.policy <;> rfl
    · rw [if_neg hover', if_pos (not_not.1 (mt hroom.2 hover'))]
  · refine hkeeps (hmode ▸ hm) (fun hover' => ?_) i hi
    rw [hover (hmode ▸ hm) hover'] at hr
    exact hr
  · by_cases hover' : c.WouldOverflowRx
    · exact .inl (hover (hmode ▸ hm) hover')
    · obtain ⟨i, hi, hno⟩ := hlost
      exact absurd (hkeeps (hmode ▸ hm) hover' i hi) hno

/-- `PrintMessages` pops. -/
theorem Follows.take (h : Follows c q) (hst : c.step (.print, x) = some c') (hrx : c.rxQueue = msg :: c'.rxQueue)
    (hprinted : c'.printed ++ c'.print.inHand = c.printed ++ c.print.inHand ++ [msg])
    (hreceived : c'.received = c.received) : Follows c' q.take := by
  have hmode := (Client.step_rxMode hst).1
  have hrecv := (Client.step_pc hst).recv (by decide)
  obtain ⟨i₀, rest, hq, hmsg, hrest⟩ : ∃ i₀ rest, q.queue = i₀ :: rest ∧ q.values [i₀] = [msg] ∧
      q.values rest = c'.rxQueue := by
    have hqueue := hrx.symm.trans h.queue
    cases hq : q.queue with
    | nil => simp [hq, BoundedQueue.values] at hqueue
    | cons i₀ rest =>
      rw [hq, BoundedQueue.values, List.map_cons, List.cons.injEq] at hqueue
      exact ⟨i₀, rest, rfl, congrArg (fun m => [m]) hqueue.1.symm, hqueue.2.symm⟩
  have htake : q.take.taken = q.taken ++ [i₀] ∧ q.take.queue = rest := by simp [BoundedQueue.take, hq]
  refine ⟨hmode ▸ h.kept.take, ?_, ?_, ?_, fun hm hr i hi => ?_, fun hm hlost => ?_⟩
  · rw [hreceived, hrecv]
    exact h.received
  · rw [hprinted, h.printed, htake.1, BoundedQueue.values_take, BoundedQueue.values_append, hmsg]
  · rw [htake.2, BoundedQueue.values_take, hrest]
  · rw [BoundedQueue.kept_take]
    exact h.reading (hmode ▸ hm) (hrecv ▸ hr) i hi
  · rw [BoundedQueue.kept_take] at hlost
    rcases h.stopped (hmode ▸ hm) hlost with hov | hactive
    · exact .inl (hrecv ▸ hov)
    · exact .inr (Client.step_inactive hst hactive)

/-- What one step keeps. -/
theorem Follows.step (h : Follows c q) (hst : c.step (t, x) = some c') : Follows c' (c.rxMove q (t, x)) := by
  have hpc := Client.step_pc hst
  have hdata := Client.step_data hst
  have hprinted := (Client.step_rxMode hst).2
  cases t with
  | main | send =>
    refine h.same hst (hdata.rx (by decide) (by decide)).1 ?_ ⟨[], ?_, ?_⟩ ?_ ?_
    · rw [hprinted (by decide), hpc.print (by decide)]
    · rw [(hdata.messages (by decide)).1, List.append_nil]
    · rw [hpc.recv (by decide), List.append_nil]
    · rw [hpc.recv (by decide)]
      exact id
    · rw [hpc.recv (by decide)]
      exact .inl
  | recv =>
    by_cases hb : ∃ msg, c.recv = .body msg
    · obtain ⟨msg, hb⟩ := hb
      have hmove : c.rxMove q (.recv, x) = q.arrive maxRxQueueSize c.rxMode.policy msg := by
        rw [Client.rxMove, hb]
      exact hmove ▸ h.arrive hb hst
    · have hmove : c.rxMove q (.recv, x) = q := by
        rw [Client.rxMove]
        split
        · exact absurd ⟨_, ‹_›⟩ hb
        · rfl
      obtain ⟨hrx, hreceived, hreading, hoverflow⟩ := Client.recvStep_rx hst fun msg hb' => hb ⟨msg, hb'⟩
      rw [hmove]
      refine h.same hst hrx ?_ hreceived hreading fun hov => .inr (hoverflow hov)
      rw [hprinted (by decide), hpc.print (by decide)]
  | print =>
    obtain ⟨hreceived, -, ⟨hpop, msg, hrx, hprint⟩ | ⟨hpop, hrx, hprint⟩⟩ := Client.printStep_rx hst
    · have hmove : c.rxMove q (.print, x) = q.take := by rw [Client.rxMove, hpop]
      exact hmove ▸ h.take hst hrx hprint hreceived
    · have hmove : c.rxMove q (.print, x) = q := by
        rw [Client.rxMove]
        split
        · contradiction
        · rfl
      rw [hmove]
      refine h.same hst hrx hprint ⟨[], ?_, ?_⟩ ?_ ?_
      · rw [hreceived, List.append_nil]
      · rw [hpc.recv (by decide), List.append_nil]
      · rw [hpc.recv (by decide)]
        exact id
      · rw [hpc.recv (by decide)]
        exact .inl

/-! ## Every run -/

theorem follows_of_reach (h : monitored.Reachable (c, q)) : Follows c q := by
  refine h.invariant (fun s => Follows s.1 s.2) ?_ ?_
  · rintro ⟨c, q⟩ ⟨⟨txMode, rxMode, stream, rfl⟩, hq⟩
    obtain rfl : q = .empty := hq
    refine ⟨BoundedQueue.kept_empty _ _, rfl, rfl, rfl, fun _ _ i hi => ?_, fun _ ⟨i, hi, _⟩ => ?_⟩
    · cases hi
    · cases hi
  · rintro ⟨c, q⟩ ⟨t, x⟩ s' - ih - hst
    simp only [monitored, Option.map_eq_some_iff] at hst
    obtain ⟨c', hst, rfl⟩ := hst
    exact ih.step hst

theorem Follows.receives (h : Follows c q) : c.Receives q := by
  obtain ⟨hinc, hbound, hlength, hlost, hnewest, hlast⟩ := h.kept
  refine ⟨h.length ▸ hlength, h.received, h.printed, h.queue, hinc, hbound, fun hm i hi hno => ?_,
    fun hm i hi hno => ?_, fun hm => hnewest (by rw [hm]; rfl), fun hm i hi hno => ?_⟩
  · have := hlost i hi hno
    rw [hm] at this
    exact this
  · have := hlost i hi hno
    rw [hm] at this
    exact this
  · have := hlost i hi hno
    rw [hm] at this
    exact ⟨hlast (by rw [hm]; rfl) i hi hno, this, h.stopped hm ⟨i, hi, hno⟩⟩

/-- **The receive queue**, in each mode and for each interleaving: every run of the client is watched, and in a watched
run it is bounded, in order, and loses only what the mode says. -/
theorem rx_queue :
    (∀ c, client.Reachable c → ∃ q, monitored.Reachable (c, q)) ∧
      ∀ c q, monitored.Reachable (c, q) → c.Receives q :=
  ⟨fun _ => monitored_of_reach, fun _ _ h => (follows_of_reach h).receives⟩

/-- Two payloads are received and pushed, then the first one is printed. -/
def receiveTwicePrint : List (Thread × Input) :=
  [(Thread.recv, Input.go), (Thread.recv, Input.count 4), (Thread.recv, Input.count 2)] ++
    List.replicate 5 (Thread.recv, Input.go) ++ [(Thread.recv, Input.count 4), (Thread.recv, Input.count 1)] ++
    List.replicate 4 (Thread.recv, Input.go) ++ List.replicate 6 (Thread.print, Input.go)

theorem rx_queue_twice :
    (monitored.run (.start .blockProducer .dropOldest twoFrames, .empty) receiveTwicePrint).map
        (fun s => (s.1.printed, s.2.taken, s.1.rxQueue)) = some ([[1, 2]], [0], [[3]]) ∧
      ∀ s ∈ monitored.run (.start .blockProducer .dropOldest twoFrames, .empty) receiveTwicePrint,
        s.1.Receives s.2 := by
  have hinit : monitored.init (.start .blockProducer .dropOldest twoFrames, .empty) := ⟨⟨_, _, _, rfl⟩, rfl⟩
  exact ⟨by decide +kernel, fun s hs => rx_queue.2 s.1 s.2 (System.reachable_of_run hinit hs)⟩

end TcpChat.FramingClient
