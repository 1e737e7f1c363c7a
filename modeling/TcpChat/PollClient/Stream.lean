import TcpChat.PollClient.Model

/-!
# The byte streams of the `poll` client

* `Exact` — what `send` has accepted, what is queued and what is on its way into the queue are, byte for byte, the lines
  that have been typed; what has been printed and what has not been read are the bytes of the server;
* `typed_sent` — this holds in every reachable state, however `send` splits the messages;
* `Asks` — when `poll` is asked for `POLLOUT` there is something to send;
* `polls_once` — a message in the queue waits for at most one `poll` that is not asked for `POLLOUT`.
-/

namespace TcpChat.PollClient

open TcpChat.Lib TcpChat.EventLoop TcpChat.Poll

/-- The message of a `Send` that has not put it into the queue. -/
def InputPc.coming : InputPc → List UInt8
  | .sendLock msg | .sendPush msg => msg
  | _ => []

namespace Client

variable {c c' : Client} {x : Input} {t : Thread}

/-- The two byte streams. -/
structure Exact (c : Client) : Prop where
  sent : c.wire ++ c.sendQueue.flatten ++ c.input.coming = c.lines.flatMap message
  printed : c.cout ++ c.unread = c.stream

/-- `Read` moves bytes from the socket to `cout`. -/
theorem recvCall_bytes {b unread : List UInt8} (h : c.recvCall x = some (.bytes b, unread)) : c.unread = b ++ unread := by
  cases x <;> simp only [recvCall, Option.ite_none_right_eq_some, Option.some.injEq, Prod.mk.injEq,
    RecvResult.bytes.injEq, reduceCtorEq, false_and, and_false] at h
  obtain ⟨-, rfl, rfl⟩ := h
  exact (List.take_append_drop _ _).symm

theorem netStep_exact (h : c.netStep x = some c') (he : c.Exact) : c'.Exact := by
  obtain ⟨hsent, hprinted⟩ := he
  cases hp : c.net with
  | connect =>
    cases x <;> simp only [netStep, hp, reduceCtorEq] at h
    rename_i answer
    cases answer <;> simp only at h
    all_goals repeat' split at h
    all_goals simp only [Option.some.injEq, reduceCtorEq] at h
    all_goals subst h
    all_goals exact ⟨hsent, hprinted⟩
  | read revents =>
    simp only [netStep, hp] at h
    repeat' split at h
    all_goals simp only [Option.some.injEq, reduceCtorEq] at h
    all_goals subst h
    case h_2 b unread hx =>
      refine ⟨hsent, ?_⟩
      rw [List.append_assoc, ← recvCall_bytes hx]
      exact hprinted
    all_goals exact ⟨hsent, hprinted⟩
  | writeSend =>
    simp only [netStep, hp] at h
    split at h
    · cases h
    rename_i msg queue hq
    rw [hq, List.flatten_cons] at hsent
    split at h
    · cases h
    · rename_i n hx
      split at h <;> cases h
      · -- a part of the message is sent
        refine ⟨?_, hprinted⟩
        simpa only [List.flatten_cons, List.append_assoc, List.take_append_drop, ← List.append_assoc (msg.take n)]
          using hsent
      · rename_i hn
        refine ⟨?_, hprinted⟩
        simpa only [List.take_of_length_le (Nat.le_of_not_lt hn), List.append_assoc] using hsent
    all_goals cases h
    all_goals exact ⟨by rw [hq, List.flatten_cons]; exact hsent, hprinted⟩
  | stop p =>
    cases x <;> simp only [netStep, hp, Option.some.injEq, reduceCtorEq] at h
    subst h
    cases p <;> exact ⟨hsent, hprinted⟩
  | _ =>
    cases x <;> simp only [netStep, hp, Option.some.injEq, Option.ite_none_right_eq_some, reduceCtorEq] at h
    all_goals first
      | subst h
      | obtain ⟨-, rfl⟩ := h
    all_goals exact ⟨hsent, hprinted⟩

theorem inputStep_exact (h : c.inputStep x = some c') (he : c.Exact) : c'.Exact := by
  obtain ⟨hsent, hprinted⟩ := he
  cases hp : c.input with
  | getline =>
    rw [hp] at hsent
    cases x <;> simp only [inputStep, hp, Option.some.injEq, reduceCtorEq] at h
    case line line =>
      by_cases hq : line = quit
      · rw [if_pos hq, Option.some.injEq] at h
        subst h
        exact ⟨hsent, hprinted⟩
      · rw [if_neg hq, Option.some.injEq] at h
        subst h
        refine ⟨?_, hprinted⟩
        have hlines : c.wire ++ c.sendQueue.flatten = c.lines.flatMap message := by
          simpa [InputPc.coming] using hsent
        have hcoming : (if message line = [] then InputPc.getline else .sendLock (message line)).coming =
            message line := by
          split <;> simp_all [InputPc.coming]
        simp only [hcoming, hlines, List.flatMap_append, List.flatMap_cons, List.flatMap_nil, List.append_nil]
    case eof =>
      subst h
      exact ⟨hsent, hprinted⟩
  | sendPush msg =>
    rw [hp] at hsent
    cases x <;> simp only [inputStep, hp, Option.some.injEq, reduceCtorEq] at h
    subst h
    exact ⟨by simpa [InputPc.coming] using hsent, hprinted⟩
  | stop p =>
    rw [hp] at hsent
    cases x <;> simp only [inputStep, hp, Option.some.injEq, reduceCtorEq] at h
    subst h
    cases p with
    | test | closeTest => cases hs : c.socket <;> exact ⟨by simpa [stopStep, hs, InputPc.coming] using hsent, hprinted⟩
    | _ => exact ⟨hsent, hprinted⟩
  | destroy p =>
    rw [hp] at hsent
    cases x <;> simp only [inputStep, hp, Option.some.injEq, reduceCtorEq] at h
    subst h
    cases p with
    | test | closeTest => cases hs : c.socket <;> exact ⟨by simpa [stopStep, hs, InputPc.coming] using hsent, hprinted⟩
    | _ => exact ⟨hsent, hprinted⟩
  | _ =>
    rw [hp] at hsent
    cases x <;> simp only [inputStep, hp, Option.some.injEq, Option.ite_none_right_eq_some, reduceCtorEq] at h
    all_goals first
      | subst h
      | obtain ⟨-, rfl⟩ := h
    all_goals exact ⟨hsent, hprinted⟩

/-! ## What `poll` is asked for -/

/-- `poll` is asked for `POLLOUT`. -/
def AsksOut (c : Client) : Prop := c.events &&& pollOut ≠ 0

instance (c : Client) : Decidable c.AsksOut := inferInstanceAs (Decidable (_ ≠ _))

end Client

/-- The events that are ever asked for. -/
def Mask (events : UInt16) : Prop :=
  events = 0 ∨ events = pollOut ∨ events = pollIn ∨ events = pollIn ||| pollOut

/-- The events of the next `poll`. -/
theorem Mask.unlock {events : UInt16} (h : Mask events) (isEmpty : Bool) :
    Mask (if isEmpty then events &&& ~~~pollOut else events ||| pollOut) ∧
      ((if isEmpty then events &&& ~~~pollOut else events ||| pollOut) &&& pollOut ≠ 0 ↔ isEmpty = false) := by
  unfold Mask
  rcases h with rfl | rfl | rfl | rfl <;> cases isEmpty <;> decide

/-- What `poll` has reported. -/
def NetPc.revents : NetPc → Option UInt16
  | .handle revents | .read revents | .out revents => some revents
  | _ => none

namespace Client

variable {c c' : Client} {x : Input} {t : Thread}

/-- What is asked for is something to send. -/
structure Asks (c : Client) : Prop where
  events : Mask c.events
  unlock : c.net = .eventsUnlock false → c.sendQueue ≠ []
  poll : c.net = .poll → c.AsksOut → c.sendQueue ≠ []
  revents : ∀ r ∈ c.net.revents, r &&& pollOut ≠ 0 → c.sendQueue ≠ []
  write : c.net = .writeLock → c.sendQueue ≠ []

/-- `poll` reports `POLLOUT` only if it was asked for. -/
theorem Reports.asksOut {r : UInt16} (h : c.Reports r) (he : Mask c.events) (hr : r &&& pollOut ≠ 0) : c.AsksOut := by
  by_contra hno
  obtain ⟨-, -, hsub, -⟩ := h
  have hmask : pollOut = ~~~(c.events ||| pollErr ||| pollHup ||| pollNval) &&& pollOut := by
    rcases he with h1 | h1 | h1 | h1 <;> rw [AsksOut, h1] at hno <;> rw [h1] <;> revert hno <;> decide
  rw [hmask, ← UInt16.and_assoc, hsub, UInt16.zero_and] at hr
  exact hr rfl

theorem netStep_asks (h : c.netStep x = some c') (ha : c.Asks) : c'.Asks := by
  obtain ⟨hevents, hunlock, hpoll, hrev, hwrite⟩ := ha
  cases hp : c.net with
  | connect =>
    cases x <;> simp only [netStep, hp, reduceCtorEq] at h
    rename_i answer
    cases answer <;> simp only at h
    all_goals repeat' split at h
    all_goals simp only [Option.some.injEq, reduceCtorEq] at h
    all_goals subst h
    all_goals exact ⟨hevents, nofun, nofun, nofun, nofun⟩
  | createPoll =>
    cases x <;> simp only [netStep, hp, Option.some.injEq, reduceCtorEq] at h
    subst h
    exact ⟨.inr (.inr (.inl rfl)), nofun, nofun, nofun, nofun⟩
  | eventsTest =>
    cases x <;> simp only [netStep, hp, Option.some.injEq, reduceCtorEq] at h
    subst h
    refine ⟨hevents, fun hu => ?_, nofun, nofun, nofun⟩
    have hne : c.sendQueue.isEmpty = false := NetPc.eventsUnlock.inj hu
    simpa using hne
  | eventsUnlock isEmpty =>
    cases x <;> simp only [netStep, hp, Option.some.injEq, reduceCtorEq] at h
    subst h
    obtain ⟨hmask, hiff⟩ := hevents.unlock isEmpty
    exact ⟨hmask, nofun, fun _ hask => hunlock (hiff.1 hask ▸ hp), nofun, nofun⟩
  | poll =>
    cases x <;> simp only [netStep, hp, Option.some.injEq, Option.ite_none_right_eq_some, reduceCtorEq] at h
    case ready r =>
      obtain ⟨hr, rfl⟩ := h
      exact ⟨hevents, nofun, nofun, fun r' hr' hout => hpoll hp (hr.asksOut hevents (Option.some.inj hr' ▸ hout)), nofun⟩
    all_goals subst h
    all_goals exact ⟨hevents, nofun, nofun, nofun, nofun⟩
  | handle r =>
    have hout := hrev r (by rw [hp]; rfl)
    cases x <;> simp only [netStep, hp, reduceCtorEq] at h
    repeat' split at h
    all_goals rw [Option.some.injEq] at h
    all_goals subst h
    all_goals refine ⟨hevents, ?_, ?_, ?_, ?_⟩
    all_goals simp_all [NetPc.revents]
  | read r =>
    have hout := hrev r (by rw [hp]; rfl)
    simp only [netStep, hp] at h
    repeat' split at h
    all_goals simp only [Option.some.injEq, reduceCtorEq] at h
    all_goals subst h
    all_goals refine ⟨hevents, ?_, ?_, ?_, ?_⟩
    all_goals dsimp only
    all_goals simp_all [NetPc.revents]
  | out r =>
    have hout := hrev r (by rw [hp]; rfl)
    cases x <;> simp only [netStep, hp, Option.some.injEq, reduceCtorEq] at h
    subst h
    refine ⟨hevents, ?_, ?_, ?_, ?_⟩
    all_goals dsimp only
    all_goals split <;> simp_all [NetPc.revents]
  | writeSend =>
    simp only [netStep, hp] at h
    repeat' split at h
    all_goals simp only [Option.some.injEq, reduceCtorEq] at h
    all_goals subst h
    all_goals exact ⟨hevents, nofun, nofun, nofun, nofun⟩
  | stop p =>
    cases x <;> simp only [netStep, hp, Option.some.injEq, reduceCtorEq] at h
    subst h
    have hs : ∀ q : Option StopPc, q.elim NetPc.done .stop ≠ .poll ∧ q.elim NetPc.done .stop ≠ .writeLock ∧
        q.elim NetPc.done .stop ≠ .eventsUnlock false ∧ (q.elim NetPc.done .stop).revents = none := by
      rintro (- | q) <;> simp [NetPc.revents]
    obtain ⟨h1, h2, h3, h4⟩ := hs (c.stopStep p).2
    refine ⟨?_, fun hu => absurd hu h3, fun hu => absurd hu h1, fun r hr => ?_, fun hu => absurd hu h2⟩
    · cases p <;> exact hevents
    · rw [h4] at hr
      cases hr
  | _ =>
    cases x <;> simp only [netStep, hp, Option.some.injEq, Option.ite_none_right_eq_some, reduceCtorEq] at h
    all_goals first
      | subst h
      | obtain ⟨-, rfl⟩ := h
    all_goals refine ⟨hevents, ?_, ?_, ?_, ?_⟩
    all_goals dsimp only
    all_goals repeat' split
    all_goals simp [NetPc.revents]

theorem inputStep_asks (h : c.inputStep x = some c') (ha : c.Asks) : c'.Asks := by
  obtain ⟨hnet, hevents, -, -, hqueue⟩ := inputStep_frame h
  obtain ⟨h1, h2, h3, h4, h5⟩ := ha
  refine ⟨hevents ▸ h1, fun hp => hqueue (h2 (hnet ▸ hp)), fun hp hask => hqueue (h3 (hnet ▸ hp) ?_),
    fun r hr hout => hqueue (h4 r (hnet ▸ hr) hout), fun hp => hqueue (h5 (hnet ▸ hp))⟩
  rwa [AsksOut, ← hevents]

/-! ## How long a message waits -/

/-- A `poll` returns that was not asked for `POLLOUT` while there is something to send. -/
def Misses (c : Client) (t : Thread) : Prop := t = .net ∧ c.net = .poll ∧ ¬ c.AsksOut ∧ c.sendQueue ≠ []

instance (c : Client) (t : Thread) : Decidable (c.Misses t) := inferInstanceAs (Decidable (_ ∧ _))

/-- How many of these there have been since the queue was empty. -/
def missed (c c' : Client) (t : Thread) (k : ℕ) : ℕ :=
  if c'.sendQueue = [] then 0 else if c.Misses t then k + 1 else k

end Client

/-- The client, watched while it polls. -/
def watched : System (Client × ℕ) (Thread × Input) where
  init s := client.init s.1 ∧ s.2 = 0
  step s i := (client.step s.1 i).map fun c' => (c', s.1.missed c' i.1 s.2)

namespace Client

variable {c c' : Client} {x : Input} {t : Thread} {k : ℕ}

/-- A `poll` has been missed once at most, and then the next one is asked for `POLLOUT`. -/
structure Waits (c : Client) (k : ℕ) : Prop where
  once : k ≤ 1
  some : k = 1 → c.sendQueue ≠ []
  unlock : k = 1 → c.net ≠ .eventsUnlock true
  poll : k = 1 → c.net = .poll → c.AsksOut

/-- `SetPollEvents` looks at the queue, and `poll` is asked for what it has found. -/
theorem netStep_poll (h : c.netStep x = some c') :
    (c'.net = .eventsUnlock true → c.sendQueue = []) ∧
      (c'.net = .poll → ∃ isEmpty, c.net = .eventsUnlock isEmpty ∧
        c'.events = if isEmpty then c.events &&& ~~~pollOut else c.events ||| pollOut) := by
  cases hp : c.net with
  | connect =>
    cases x <;> simp only [netStep, hp, reduceCtorEq] at h
    rename_i answer
    cases answer <;> simp only at h
    all_goals repeat' split at h
    all_goals simp only [Option.some.injEq, reduceCtorEq] at h
    all_goals subst h
    all_goals exact ⟨nofun, nofun⟩
  | eventsTest =>
    cases x <;> simp only [netStep, hp, Option.some.injEq, reduceCtorEq] at h
    subst h
    exact ⟨fun hu => by simpa using NetPc.eventsUnlock.inj hu, nofun⟩
  | eventsUnlock isEmpty =>
    cases x <;> simp only [netStep, hp, Option.some.injEq, reduceCtorEq] at h
    subst h
    exact ⟨nofun, fun _ => ⟨isEmpty, rfl, rfl⟩⟩
  | stop p =>
    cases x <;> simp only [netStep, hp, Option.some.injEq, reduceCtorEq] at h
    subst h
    cases p with
    | test | closeTest => cases hs : c.socket <;> simp [stopStep, hs]
    | _ => simp [stopStep]
  | read | writeSend =>
    simp only [netStep, hp] at h
    repeat' split at h
    all_goals simp only [Option.some.injEq, reduceCtorEq] at h
    all_goals subst h
    all_goals dsimp only
    all_goals simp
  | _ =>
    cases x <;> simp only [netStep, hp, Option.some.injEq, Option.ite_none_right_eq_some, reduceCtorEq] at h
    all_goals first
      | subst h
      | obtain ⟨-, rfl⟩ := h
    all_goals dsimp only
    all_goals repeat' split
    all_goals simp

theorem netStep_waits (h : c.netStep x = some c') (ha : c.Asks) (hw : c.Waits k) :
    c'.Waits (c.missed c' .net k) := by
  obtain ⟨hunlock, hpoll⟩ := netStep_poll h
  unfold missed
  split
  · exact ⟨Nat.zero_le _, nofun, nofun, nofun⟩
  rename_i hne
  by_cases hp : c.net = .poll
  · have hnext : c'.net ≠ .poll ∧ c'.net ≠ .eventsUnlock true := by
      refine ⟨fun hu => ?_, fun hu => ?_⟩
      · obtain ⟨e, he, -⟩ := hpoll hu
        simp [hp] at he
      · cases x <;> simp only [netStep, hp, Option.some.injEq, Option.ite_none_right_eq_some, reduceCtorEq] at h
        all_goals first
          | subst h
          | obtain ⟨-, rfl⟩ := h
        all_goals cases hu
    split
    · -- it has not been asked for `POLLOUT`, so nothing has been missed before
      rename_i hmiss
      have hk : k ≠ 1 := fun hk => hmiss.2.2.1 (hw.poll hk hp)
      have := hw.once
      exact ⟨by omega, fun _ => hne, fun _ => hnext.2, fun _ hu => absurd hu hnext.1⟩
    · exact ⟨hw.once, fun _ => hne, fun _ => hnext.2, fun _ hu => absurd hu hnext.1⟩
  · rw [if_neg fun hm : c.Misses .net => hp hm.2.1]
    refine ⟨hw.once, fun _ => hne, fun hk hu => hw.some hk (hunlock hu), fun hk hu => ?_⟩
    obtain ⟨e, he, hevents⟩ := hpoll hu
    obtain rfl : e = false := by
      cases e
      · rfl
      · exact absurd he (hw.unlock hk)
    rw [AsksOut, hevents]
    exact (ha.events.unlock false).2.2 rfl

theorem inputStep_waits (h : c.inputStep x = some c') (hw : c.Waits k) : c'.Waits (c.missed c' .input k) := by
  obtain ⟨hnet, hevents, -, -, -⟩ := inputStep_frame h
  unfold missed
  split
  · exact ⟨Nat.zero_le _, nofun, nofun, nofun⟩
  · rename_i hne
    rw [if_neg fun hm : c.Misses .input => nomatch hm.1]
    refine ⟨hw.once, fun _ => hne, fun hk => hnet ▸ hw.unlock hk, fun hk hp => ?_⟩
    rw [AsksOut, hevents]
    exact hw.poll hk (hnet ▸ hp)

end Client

/-! ## In every reachable state -/

variable {c : Client} {k : ℕ}

/-- **Every byte that is typed is sent once and in order**, and every byte of the server is printed once and in order, as
far as they have come. -/
theorem typed_sent (h : client.Reachable c) : c.Exact := by
  refine h.invariant Client.Exact ?_ fun c ⟨t, x⟩ c' _ he _ hst => ?_
  · rintro c ⟨stream, rfl⟩
    exact ⟨rfl, rfl⟩
  · cases t with
    | net => exact Client.netStep_exact hst he
    | input => exact Client.inputStep_exact hst he

/-- The client connects at the second address, and calls `poll`. -/
def connect : List (Thread × Input) :=
  (.net, .resolved (some [⟨some 3, false⟩, ⟨some 3, true⟩])) :: (.net, .go) :: (.net, .ok) ::
    List.replicate 6 (.net, .go)

/-- A line of one byte is typed while the client polls, and the first `send` accepts one byte of two. -/
def sendHalf : List (Thread × Input) :=
  connect ++ (Thread.input, Input.line [104]) :: List.replicate 3 (Thread.input, Input.go) ++
    (Thread.net, Input.timeout) :: List.replicate 4 (Thread.net, Input.go) ++
    (Thread.net, Input.ready pollOut) :: List.replicate 4 (Thread.net, Input.go) ++ [(Thread.net, Input.count 1)]

theorem typed_sent_half :
    (client.run (.start []) sendHalf).map (fun c => (c.wire, c.sendQueue)) = some ([104], [[10]]) ∧
      ∀ c ∈ client.run (.start []) sendHalf, c.Exact :=
  ⟨by decide +kernel, fun _ hc => typed_sent (System.reachable_of_run ⟨[], rfl⟩ hc)⟩

theorem asks (h : client.Reachable c) : c.Asks := by
  refine h.invariant Client.Asks ?_ fun c ⟨t, x⟩ c' _ he _ hst => ?_
  · rintro c ⟨stream, rfl⟩
    exact ⟨.inl rfl, nofun, nofun, nofun, nofun⟩
  · cases t with
    | net => exact Client.netStep_asks hst he
    | input => exact Client.inputStep_asks hst he

/-- Every run of the client is watched. -/
theorem watched_of_reach (h : client.Reachable c) : ∃ k, watched.Reachable (c, k) := by
  have hsim : ∃ s, watched.Reach (fun _ _ => True) s ∧ c = s.1 := by
    refine h.simulate (T := watched) (fun c s => c = s.1) ?_ ?_
    · exact fun c hc => ⟨(c, 0), ⟨hc, rfl⟩, rfl⟩
    · rintro c i c' ⟨c₀, k⟩ hc - hst
      obtain rfl : c = c₀ := hc
      exact .inr ⟨i, (c', c.missed c' i.1 k), trivial, by simp [watched, hst], rfl⟩
  obtain ⟨⟨c, k⟩, hreach, rfl⟩ := hsim
  exact ⟨k, hreach⟩

theorem waits (h : watched.Reachable (c, k)) : c.Asks ∧ c.Waits k := by
  refine h.invariant (fun s => s.1.Asks ∧ s.1.Waits s.2) ?_ ?_
  · rintro ⟨c, k⟩ ⟨⟨stream, rfl⟩, hk⟩
    obtain rfl : k = 0 := hk
    exact ⟨⟨.inl rfl, nofun, nofun, nofun, nofun⟩, ⟨Nat.zero_le _, nofun, nofun, nofun⟩⟩
  · rintro ⟨c, k⟩ ⟨t, x⟩ s' - ⟨ha, hw⟩ - hst
    simp only [watched, Option.map_eq_some_iff] at hst
    obtain ⟨c', hst, rfl⟩ := hst
    cases t with
    | net => exact ⟨Client.netStep_asks hst ha, Client.netStep_waits hst ha hw⟩
    | input => exact ⟨Client.inputStep_asks hst ha, Client.inputStep_waits hst hw⟩

/-- **What `poll` is asked for**, in every run: for `POLLOUT` only if there is something to send, so that `Write` never
finds an empty queue; and while there is something to send, at most one `poll` is not asked for `POLLOUT`. -/
theorem polls_once :
    (∀ c, client.Reachable c → (c.net = .poll → c.AsksOut → c.sendQueue ≠ []) ∧
        (c.net = .writeLock → c.sendQueue ≠ []) ∧ ∃ k, watched.Reachable (c, k)) ∧
      ∀ c k, watched.Reachable (c, k) → k ≤ 1 :=
  ⟨fun _ h => ⟨(asks h).poll, (asks h).write, watched_of_reach h⟩, fun _ _ h => (waits h).2.once⟩

/-- A line is typed while the client polls; the `poll` after that is asked for `POLLOUT`. -/
def pollTwice : List (Thread × Input) :=
  connect ++ (Thread.input, Input.line [104]) :: List.replicate 3 (Thread.input, Input.go) ++
    (Thread.net, Input.timeout) :: List.replicate 4 (Thread.net, Input.go) ++ [(Thread.net, Input.timeout)]

theorem polls_once_twice :
    (watched.run (.start [], 0) pollTwice).map (·.2) = some 1 ∧
      ∀ s ∈ watched.run (.start [], 0) pollTwice, s.2 ≤ 1 :=
  ⟨by decide +kernel, fun s hs => polls_once.2 s.1 s.2 (System.reachable_of_run ⟨⟨[], rfl⟩, rfl⟩ hs)⟩

end TcpChat.PollClient
