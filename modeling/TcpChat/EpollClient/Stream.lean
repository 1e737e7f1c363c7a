import TcpChat.EpollClient.SendMutex

/-!
# What the `epoll` client sends

* `Watched` — the client, with what `Send` has been called with and what `send` has accepted;
* `sent_exact` — these are the same bytes, but for what is queued or on its way into the queue, however `send` splits the
  messages and the threads take turns;
* `hangs` — once the network thread is about to lock the mutex that it holds, nothing is sent any more, at most one more
  message is taken, and the program does not end.
-/

namespace TcpChat.EpollClient

open TcpChat.Lib TcpChat.EventLoop

/-- The message of a `Send` that has not put it into the queue. -/
def InputPc.coming : InputPc → List UInt8
  | .sendLock msg | .sendPush msg => msg
  | _ => []

/-- The client, the messages of the calls of `Send` and the bytes that `send` has accepted. -/
structure Watched where
  client : Client
  messages : List (List UInt8)
  wire : List UInt8

namespace Client

/-- The message with which the step calls `Send`. -/
def calls (s : Client) : Thread × Input → List (List UInt8)
  | (.input, .line msg) => if s.input = .getline ∧ msg ≠ [] then [msg] else []
  | _ => []

/-- The bytes that `send` accepts in the step. -/
def accepts (s : Client) : Thread × Input → List UInt8
  | (.net, .send (.count n)) =>
    match s.net with
    | .writeSend _ => (s.sendQueue.headD []).take n
    | _ => []
  | _ => []

end Client

/-- The client with an observer. -/
def watched (reentrant : Bool) : System Watched (Thread × Input) where
  init w := w = ⟨.start, [], []⟩
  step w x :=
    (w.client.step reentrant x).map fun s => ⟨s, w.messages ++ w.client.calls x, w.wire ++ w.client.accepts x⟩

/-- The observer sees every run of the client. -/
theorem watched_of_reach {reentrant : Bool} {s : Client} (h : (client reentrant).Reachable s) :
    ∃ w, (watched reentrant).Reachable w ∧ w.client = s := by
  refine h.simulate (fun s (w : Watched) => w.client = s) ?_ fun s x s' w hw _ hst => .inr ?_
  · rintro s rfl
    exact ⟨_, rfl, rfl⟩
  · refine ⟨x, ⟨s', w.messages ++ w.client.calls x, w.wire ++ w.client.accepts x⟩, trivial, ?_, rfl⟩
    subst hw
    have hst : w.client.step reentrant x = some s' := hst
    simp [watched, hst]

namespace Watched

/-- What `Send` has been called with has been sent, is queued, or is on its way into the queue. -/
def Exact (w : Watched) : Prop := w.wire ++ w.client.sendQueue.flatten ++ w.client.input.coming = w.messages.flatten

variable {w w' : Watched} {s' : Client} {x : Input} {reentrant : Bool}

/-- The positions of a `ModWritable` change nothing but the mutex and the registration. -/
theorem modStep_keeps {s : Client} {t : Thread} {enable : Bool} {p : ModPc} {q : Option ModPc}
    (h : s.modStep reentrant t enable p = some (s', q)) :
    s'.sendQueue = s.sendQueue ∧ s'.net = s.net ∧ s'.input = s.input := by
  cases p <;> simp only [Client.modStep, Option.some.injEq, Prod.mk.injEq, Option.map_eq_some_iff] at h
  case lock =>
    obtain ⟨t', hlock, rfl, -⟩ := h
    unfold Client.lock at hlock
    split at hlock <;> cases hlock
    exact ⟨rfl, rfl, rfl⟩
  all_goals
    obtain ⟨rfl, -⟩ := h
    exact ⟨rfl, rfl, rfl⟩

theorem stopStep_keeps (s : Client) (p : StopPc) :
    (s.stopStep p).1.sendQueue = s.sendQueue ∧ (s.stopStep p).1.net = s.net ∧ (s.stopStep p).1.input = s.input ∧
      (s.stopStep p).1.mutex = s.mutex := by
  cases p <;> exact ⟨rfl, rfl, rfl, rfl⟩

theorem lock_keeps {s : Client} {t : Thread} (h : s.lock reentrant t = some s') :
    s'.sendQueue = s.sendQueue ∧ s'.net = s.net ∧ s'.input = s.input := by
  unfold Client.lock at h
  split at h <;> cases h
  exact ⟨rfl, rfl, rfl⟩

theorem netStep_input {s : Client} (h : s.netStep reentrant x = some s') : s'.input = s.input := by
  unfold Client.netStep at h
  repeat' split at h
  all_goals simp only [Option.some.injEq, reduceCtorEq, Option.map_eq_some_iff] at h
  all_goals first
    | (subst h; rfl)
    | (subst h; exact (stopStep_keeps _ _).2.2.1)
    | (obtain ⟨t, hlock, rfl⟩ := h; exact (lock_keeps hlock).2.2)
    | (obtain ⟨⟨t, q⟩, hmod, rfl⟩ := h; exact (modStep_keeps hmod).2.2)

theorem netStep_exact (he : w.Exact) (h : w.client.netStep reentrant x = some s') :
    (⟨s', w.messages ++ w.client.calls (.net, x), w.wire ++ w.client.accepts (.net, x)⟩ : Watched).Exact := by
  have hcalls : w.client.calls (.net, x) = [] := by cases x <;> rfl
  rw [Exact] at he
  rw [Exact, hcalls, List.append_nil]
  cases hp : w.client.net with
  | writeSend rest =>
    cases x with
    | send r =>
      simp only [Client.netStep, hp] at h
      split at h
      · cases h
      next msg queue n hq =>
        have haccepts : w.client.accepts (.net, .send (.count n)) = msg.take n := by simp [Client.accepts, hp, hq]
        rw [haccepts]
        rw [hq, List.flatten_cons] at he
        repeat' split at h
        all_goals cases h
        · simp only [List.flatten_cons, ← he]
          simp [List.append_assoc, ← List.append_assoc (msg.take n)]
        · rename_i hn hlt
          rw [List.take_of_length_le (Nat.le_of_not_lt hlt), ← he]
          simp [List.append_assoc]
      all_goals
        cases h
        simpa [Client.accepts] using he
    | go | ok | failed | events evs | interrupted | recv r | line msg | quit | eof => simp [Client.netStep, hp] at h
  | mod enable p caller rest =>
    cases x <;> simp only [Client.netStep, hp, Option.map_eq_some_iff, reduceCtorEq] at h
    obtain ⟨⟨t, q⟩, hmod, rfl⟩ := h
    obtain ⟨hqueue, -, hinput⟩ := modStep_keeps hmod
    simpa [Client.accepts, hqueue, hinput] using he
  | stop p =>
    cases x <;> simp only [Client.netStep, hp, Option.some.injEq, reduceCtorEq] at h
    subst h
    obtain ⟨hqueue, -, hinput, -⟩ := stopStep_keeps w.client p
    simpa [Client.accepts, hqueue, hinput] using he
  | next rest =>
    cases rest <;> cases x <;> simp only [Client.netStep, hp, Option.some.injEq, reduceCtorEq] at h
    all_goals subst h
    all_goals simpa [Client.accepts] using he
  | read ev rest =>
    cases x with
    | recv r =>
      cases r <;> simp only [Client.netStep, hp, Option.some.injEq, Option.ite_none_right_eq_some] at h
      all_goals first
        | subst h
        | obtain ⟨-, rfl⟩ := h
      all_goals simpa [Client.accepts] using he
    | go | ok | failed | events evs | interrupted | send r | line msg | quit | eof => simp [Client.netStep, hp] at h
  | _ =>
    have haccepts : w.client.accepts (.net, x) = [] := by
      cases x with
      | send r => cases r <;> simp [Client.accepts, hp]
      | _ => rfl
    have hsame : s'.sendQueue = w.client.sendQueue ∧ s'.input = w.client.input := by
      cases x <;> simp only [Client.netStep, hp, Option.some.injEq, Option.ite_none_right_eq_some, reduceCtorEq,
        Option.map_eq_some_iff] at h
      all_goals first
        | (subst h; exact ⟨rfl, rfl⟩)
        | (obtain ⟨-, rfl⟩ := h; exact ⟨rfl, rfl⟩)
        | (obtain ⟨t, hlock, rfl⟩ := h
           exact ⟨(lock_keeps hlock).1, (lock_keeps hlock).2.2⟩)
    rw [haccepts, List.append_nil, hsame.1, hsame.2]
    exact he

theorem inputStep_exact (he : w.Exact) (h : w.client.inputStep reentrant x = some s') :
    (⟨s', w.messages ++ w.client.calls (.input, x), w.wire ++ w.client.accepts (.input, x)⟩ : Watched).Exact := by
  have haccepts : w.client.accepts (.input, x) = [] := by cases x <;> rfl
  rw [Exact, haccepts, List.append_nil]
  rw [Exact] at he
  cases hp : w.client.input with
  | getline =>
    rw [hp] at he
    cases x <;> simp only [Client.inputStep, hp, Option.some.injEq, reduceCtorEq] at h
    all_goals subst h
    case line msg =>
      by_cases hmsg : msg = []
      · simpa [Client.calls, hmsg, InputPc.coming] using he
      · simp only [InputPc.coming, List.append_nil] at he
        simp [Client.calls, hp, hmsg, InputPc.coming, he]
    all_goals simpa [Client.calls, InputPc.coming] using he
  | mod p =>
    rw [hp] at he
    cases x <;> simp only [Client.inputStep, hp, Option.map_eq_some_iff, reduceCtorEq] at h
    obtain ⟨⟨t, q⟩, hmod, rfl⟩ := h
    have hqueue := (modStep_keeps hmod).1
    cases q <;> simpa [Client.calls, hqueue, InputPc.coming] using he
  | stop p =>
    rw [hp] at he
    cases x <;> simp only [Client.inputStep, hp, Option.some.injEq, reduceCtorEq] at h
    subst h
    have hqueue := (stopStep_keeps w.client p).1
    have hcoming : ((w.client.stopStep p).2.elim InputPc.join .stop).coming = [] := by
      cases (w.client.stopStep p).2 <;> rfl
    have hbefore : (InputPc.stop p).coming = [] := rfl
    simpa [Client.calls, hqueue, hcoming, hbefore] using he
  | sendLock msg =>
    rw [hp] at he
    cases x <;> simp only [Client.inputStep, hp, Option.map_eq_some_iff, reduceCtorEq] at h
    obtain ⟨t, hlock, rfl⟩ := h
    have hqueue := (lock_keeps hlock).1
    simpa [Client.calls, hqueue, InputPc.coming] using he
  | sendPush msg | sendUnlock | join | done =>
    rw [hp] at he
    cases x <;> simp only [Client.inputStep, hp, Option.some.injEq, Option.ite_none_right_eq_some, reduceCtorEq] at h
    all_goals first
      | subst h
      | obtain ⟨-, rfl⟩ := h
    all_goals simpa [Client.calls, InputPc.coming, Client.unlock] using he

end Watched

/-- **The bytes that `send` has accepted are those of the calls of `Send`**, in order, up to what is queued. -/
theorem sent_exact {reentrant : Bool} {w : Watched} (h : (watched reentrant).Reachable w) : w.Exact := by
  refine h.invariant Watched.Exact ?_ fun w ⟨t, x⟩ w' _ he _ hst => ?_
  · rintro w rfl
    rfl
  · obtain ⟨s', hs', rfl⟩ := Option.map_eq_some_iff.1 hst
    cases t with
    | net => exact Watched.netStep_exact he hs'
    | input => exact Watched.inputStep_exact he hs'

/-! ## After the lock -/

namespace Watched

/-- What stays as it was when the network thread waits for itself: `Send` takes one more message at most, and waits. -/
structure Hung (w₀ w : Watched) : Prop where
  net : w.client.net = w₀.client.net
  mutex : w.client.mutex = w₀.client.mutex
  sendQueue : w.client.sendQueue = w₀.client.sendQueue
  wire : w.wire = w₀.wire
  messages : w.messages = w₀.messages ∨ ∃ msg, w.messages = w₀.messages ++ [msg] ∧ w.client.input = .sendLock msg
  input : ¬ w.client.input.Holds ∧ w.client.input ≠ .done

variable {w₀ w w' : Watched} {s' : Client} {x : Input}

/-- The input thread comes to no critical section. -/
theorem Hung.input_step (hh : Hung w₀ w) (hmutex : w₀.client.mutex = [.net]) (hnet : w₀.client.net ≠ .done)
    (h : w.client.inputStep false x = some s') :
    Hung w₀ ⟨s', w.messages ++ w.client.calls (.input, x), w.wire ++ w.client.accepts (.input, x)⟩ := by
  obtain ⟨h1, h2, h3, h4, h5, h6, h7⟩ := hh
  have haccepts : w.client.accepts (.input, x) = [] := by cases x <;> rfl
  have hlock : ∀ t, w.client.lock false t = none := fun t => by simp [Client.lock, h2, hmutex]
  rw [haccepts, List.append_nil]
  have hquiet : (∀ msg, w.client.input ≠ .sendLock msg) → w.messages = w₀.messages := by
    intro hn
    rcases h5 with hm | ⟨msg, -, hp⟩
    · exact hm
    · exact absurd hp (hn msg)
  cases hp : w.client.input with
  | getline =>
    have hm := hquiet (by simp [hp])
    cases x <;> simp only [Client.inputStep, hp, Option.some.injEq, reduceCtorEq] at h
    all_goals subst h
    case line msg =>
      by_cases hmsg : msg = []
      · exact ⟨h1, h2, h3, h4, .inl (by simp [Client.calls, hmsg, hm]), by simp [hmsg, InputPc.Holds]⟩
      · refine ⟨h1, h2, h3, h4, .inr ⟨msg, ?_, if_neg hmsg⟩, by simp [hmsg, InputPc.Holds]⟩
        simp [Client.calls, hp, hmsg, hm]
    all_goals exact ⟨h1, h2, h3, h4, .inl (by simp [Client.calls, hm]), by simp [InputPc.Holds]⟩
  | mod p =>
    have hm := hquiet (by simp [hp])
    cases x <;> simp only [Client.inputStep, hp, Option.map_eq_some_iff, reduceCtorEq] at h
    obtain ⟨⟨t, q⟩, hmod, rfl⟩ := h
    cases p <;> simp only [Client.modStep, Option.some.injEq, Prod.mk.injEq, hlock, Option.map_none, reduceCtorEq] at hmod
    case test =>
      obtain ⟨rfl, rfl⟩ := hmod
      refine ⟨h1, h2, h3, h4, .inl (by simp [Client.calls, hm]), ?_⟩
      split <;> simp [InputPc.Holds]
    case ctl event =>
      obtain ⟨rfl, rfl⟩ := hmod
      exact ⟨h1, h2, h3, h4, .inl (by simp [Client.calls, hm]), by simp [InputPc.Holds]⟩
    all_goals exact absurd (by rw [hp]; trivial) h6
  | stop p =>
    have hm := hquiet (by simp [hp])
    cases x <;> simp only [Client.inputStep, hp, Option.some.injEq, reduceCtorEq] at h
    subst h
    obtain ⟨hqueue, hnet', -, hmutex'⟩ := stopStep_keeps w.client p
    refine ⟨hnet'.trans h1, hmutex'.trans h2, hqueue.trans h3, h4, .inl (by simp [Client.calls, hm]), ?_⟩
    cases (w.client.stopStep p).2 <;> simp [InputPc.Holds]
  | sendLock msg =>
    cases x <;> simp [Client.inputStep, hp, hlock] at h
  | join =>
    cases x <;> simp only [Client.inputStep, hp, Option.ite_none_right_eq_some, reduceCtorEq] at h
    exact absurd (h1 ▸ h.1) hnet
  | sendPush msg | sendUnlock => exact absurd (by rw [hp]; trivial) h6
  | done => exact absurd hp h7

/-- The network thread waits for the mutex that it holds. -/
theorem net_waits {s : Client} (hwants : s.net.Wants) (hmutex : s.mutex = [.net]) : s.netStep false x = none := by
  have hlock : s.lock false .net = none := by simp [Client.lock, hmutex]
  cases hp : s.net with
  | writeLock rest | checkLock rest => cases x <;> simp [Client.netStep, hp, hlock]
  | mod enable p caller rest =>
    rw [hp] at hwants
    cases p with
    | lock => cases x <;> simp [Client.netStep, hp, Client.modStep, hlock]
    | test | read | unlock event | ctl event => exact hwants.elim
  | _ =>
    rw [hp] at hwants
    exact hwants.elim

end Watched

theorem client_of_watched {reentrant : Bool} {w : Watched} (h : (watched reentrant).Reachable w) :
    (client reentrant).Reachable w.client := by
  refine h.invariant (fun w => (client reentrant).Reachable w.client) ?_ fun w x w' _ ih _ hst => ?_
  · rintro w rfl
    exact .init rfl
  · obtain ⟨s', hs', rfl⟩ := Option.map_eq_some_iff.1 hst
    exact ih.step trivial hs'

/-- `main` ends after the network thread. -/
theorem joined {reentrant : Bool} {s : Client} (h : (client reentrant).Reachable s) : s.input = .done → s.net = .done := by
  refine h.invariant (fun s => s.input = .done → s.net = .done) ?_ fun s ⟨t, x⟩ s' _ ih _ hst hd => ?_
  · rintro s rfl hd
    cases hd
  · replace hst : s.step reentrant (t, x) = some s' := hst
    cases t with
    | net =>
      have hnet := ih (by rw [← Watched.netStep_input hst, hd])
      cases x <;> simp [Client.step, Client.netStep, hnet] at hst
    | input =>
      simp only [Client.step] at hst
      cases hp : s.input with
      | join =>
        cases x <;> simp only [Client.inputStep, hp, Option.ite_none_right_eq_some, Option.some.injEq, reduceCtorEq] at hst
        obtain ⟨hnet, rfl⟩ := hst
        exact hnet
      | done => cases x <;> simp [Client.inputStep, hp] at hst
      | mod p =>
        cases x <;> simp only [Client.inputStep, hp, Option.map_eq_some_iff, reduceCtorEq] at hst
        obtain ⟨⟨t, q⟩, -, rfl⟩ := hst
        cases q <;> cases hd
      | stop p =>
        cases x <;> simp only [Client.inputStep, hp, Option.some.injEq, reduceCtorEq] at hst
        subst hst
        cases hq : (s.stopStep p).2 <;> simp [hq] at hd
      | getline =>
        cases x <;> simp only [Client.inputStep, hp, Option.some.injEq, reduceCtorEq] at hst
        all_goals subst hst
        case line msg => by_cases hmsg : msg = [] <;> simp [hmsg] at hd
        all_goals cases hd
      | sendLock msg | sendPush msg | sendUnlock =>
        cases x <;> simp only [Client.inputStep, hp, Option.some.injEq, Option.map_eq_some_iff, reduceCtorEq] at hst
        all_goals first
          | subst hst
          | obtain ⟨t, -, rfl⟩ := hst
        all_goals cases hd

/-- **A network thread that waits for itself**: from there on nothing is sent, nothing is queued, at most one more message is
taken by `Send`, and `main` does not end. -/
theorem hangs {w w' : Watched} (h : (watched false).Reachable w) (hself : w.client.SelfLock .net)
    (hr : ((watched false).startedIn w).Reachable w') : Watched.Hung w w' := by
  obtain ⟨hwants, hmem⟩ := hself
  have hg := Client.guarded (client_of_watched h)
  have hholds : w.client.Holds .net := hg.holds_of_mem hmem
  have hmutex := hg.mutex_eq hholds
  have hnet : w.client.net ≠ .done := fun hd => by
    have hwants : w.client.net.Wants := hwants
    rw [hd] at hwants
    exact hwants
  have hout : ¬ w.client.Holds .input := fun hi => nomatch hg.owned.excl hholds hi
  refine hr.invariant (Watched.Hung w) ?_ fun w₁ ⟨t, x⟩ w₂ _ hh _ hst => ?_
  · rintro _ rfl
    exact ⟨rfl, rfl, rfl, rfl, .inl rfl, hout, fun hd => hnet (joined (client_of_watched h) hd)⟩
  · obtain ⟨s', hs', rfl⟩ := Option.map_eq_some_iff.1 hst
    cases t with
    | net =>
      have hwaits := Watched.net_waits (s := w₁.client) (x := x) (by rw [hh.net]; exact hwants) (by rw [hh.mutex, hmutex])
      exact absurd (hwaits.symm.trans hs') nofun
    | input => exact hh.input_step hmutex hnet hs'

/-- The `send` of the first message drains the queue; then another message is typed, and `/quit` cannot be any more. -/
def sendThenType : List (Thread × Input) := sendByte ++ flush (.count 1) ++ List.replicate 5 (Thread.net, Input.go)

theorem sent_exact_flushed :
    ((watched false).run ⟨.start, [], []⟩ sendThenType).map (fun w => (w.messages, w.wire)) = some ([[104]], [104]) ∧
      ∀ w ∈ (watched false).run ⟨.start, [], []⟩ sendThenType, w.Exact :=
  ⟨by decide +kernel, fun _ hw => sent_exact (System.reachable_of_run rfl hw)⟩

theorem hangs_flushed : ∃ w w', (watched false).run ⟨.start, [], []⟩ sendThenType = some w ∧
    (watched false).run w [(.input, .line [105])] = some w' ∧ w'.client.input = .sendLock [105] ∧ Watched.Hung w w' := by
  have hrun : ((watched false).run ⟨.start, [], []⟩ sendThenType).map (fun w => (w.client.net, w.client.mutex)) =
        some (.mod false .lock .handle [], [.net]) ∧
      ((watched false).run ⟨.start, [], []⟩ (sendThenType ++ [(.input, .line [105])])).map (fun w => w.client.input) =
        some (.sendLock [105]) := by decide +kernel
  obtain ⟨hlock, htyped⟩ := hrun
  rw [Option.map_eq_some_iff] at hlock htyped
  obtain ⟨w, hw, hp⟩ := hlock
  obtain ⟨w', hw', hp'⟩ := htyped
  rw [System.run_append, hw, Option.bind_some] at hw'
  simp only [Prod.mk.injEq] at hp
  have hself : w.client.SelfLock .net := ⟨by rw [Client.Wants, hp.1]; trivial, by simp [hp.2]⟩
  exact ⟨w, w', hw, hw', hp', hangs (System.reachable_of_run rfl hw) hself
    (System.reach_startedIn hw' (System.along_true w _))⟩

end TcpChat.EpollClient
