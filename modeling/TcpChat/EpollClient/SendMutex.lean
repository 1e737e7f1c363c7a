import TcpChat.EpollClient.Model
import TcpChat.Lib.Mutex

/-!
# The send mutex of the `epoll` client

`ModWritable` locks `m_sendMutex`.  `Send` calls it after its own critical section, but `Write` and
`HandleConnection` call it inside theirs.

* `SelfLock` — a thread is about to lock the mutex that it holds;
* `never_relocks` — this does not happen while the calls of the network thread return before the mutex;
* `relocks_of_call` — any other call leads to it, so that a `send` which drains the queue does (`relocks`).
-/

namespace TcpChat.EpollClient

open TcpChat.Lib TcpChat.EventLoop

/-- The network thread is inside a critical section. -/
def NetPc.Holds : NetPc → Prop
  | .writeTest _ | .writeSend _ | .writeUnlock _ _ | .checkTest _ | .checkUnlock _ | .mod _ _ _ _ => True
  | _ => False

/-- The input thread is inside a critical section. -/
def InputPc.Holds : InputPc → Prop
  | .sendPush _ | .sendUnlock | .mod .read | .mod (.unlock _) => True
  | _ => False

/-- The network thread is about to lock the mutex. -/
def NetPc.Wants : NetPc → Prop
  | .writeLock _ | .checkLock _ | .mod _ .lock _ _ => True
  | _ => False

/-- The input thread is about to lock the mutex. -/
def InputPc.Wants : InputPc → Prop
  | .sendLock _ | .mod .lock => True
  | _ => False

/-- The network thread has called `ModWritable`. -/
def NetPc.CallsMod : NetPc → Prop
  | .mod _ .test _ _ => True
  | _ => False

instance : DecidablePred NetPc.CallsMod := fun p =>
  decidable_of_iff (p matches .mod _ .test _ _) (by unfold NetPc.CallsMod; split <;> simp_all)

namespace Client

variable {s s' : Client} {t : Thread} {x : Input}

def Holds (s : Client) : Thread → Prop
  | .net => s.net.Holds
  | .input => s.input.Holds

def Wants (s : Client) : Thread → Prop
  | .net => s.net.Wants
  | .input => s.input.Wants

/-- A thread is about to lock the mutex that it holds. -/
def SelfLock (s : Client) (t : Thread) : Prop := s.Wants t ∧ t ∈ s.mutex

/-- When the network thread has called `ModWritable`, the call returns at its first test. -/
def SkipsMod (s : Client) : Thread × Input → Prop
  | (.net, _) => s.net.CallsMod → s.epoll = false ∨ s.socket = false
  | (.input, _) => True

instance (s : Client) : DecidablePred s.SkipsMod
  | (.net, _) => inferInstanceAs (Decidable (_ → _))
  | (.input, _) => isTrue trivial

theorem lock_false : s.lock false t = some s' ↔ s.mutex = [] ∧ s' = { s with mutex := [t] } := by
  unfold lock
  by_cases hm : s.mutex = [] <;> simp [hm, eq_comm]

/-- The holder of the mutex is the thread inside a critical section, and the network thread does not get past the
`lock_guard` of `ModWritable`. -/
structure Guarded (s : Client) : Prop where
  single : s.mutex.length ≤ 1
  owned : Owned s.mutex.head? s.Holds
  mod : ∀ enable p caller rest, s.net = .mod enable p caller rest → p = .test ∨ p = .lock

theorem Guarded.mutex_eq (hg : s.Guarded) (h : s.Holds t) : s.mutex = [t] := by
  have hsingle := hg.single
  have hhead := (hg.owned t).2 h
  rcases hm : s.mutex with _ | ⟨u, _ | ⟨v, rest⟩⟩
  · simp [hm] at hhead
  · simpa [hm] using hhead
  · simp [hm] at hsingle

theorem Guarded.holds_of_mem (hg : s.Guarded) (h : t ∈ s.mutex) : s.Holds t := by
  have hsingle := hg.single
  refine (hg.owned t).1 ?_
  rcases hm : s.mutex with _ | ⟨u, _ | ⟨v, rest⟩⟩
  · simp [hm] at h
  · simp_all
  · simp [hm] at hsingle

/-- What a step of the network thread does to the mutex, and where it leaves the thread. -/
theorem netStep_guarded (hg : s.Guarded) (h : s.netStep false x = some s') :
    LockStep .net s.mutex.head? s'.mutex.head? s.net.Holds s'.net.Holds ∧ s'.input = s.input ∧
      s'.mutex.length ≤ 1 ∧ ∀ enable p caller rest, s'.net = .mod enable p caller rest → p = .test ∨ p = .lock := by
  have hsingle := hg.single
  have htail : s.mutex.tail = [] := List.eq_nil_of_length_eq_zero (by rw [List.length_tail]; omega)
  by_cases hmod : ∃ enable p caller rest, s.net = .mod enable p caller rest
  · obtain ⟨enable, p, caller, rest, hnet⟩ := hmod
    have hmutex : s.mutex = [.net] := hg.mutex_eq (by simp [Holds, hnet, NetPc.Holds])
    rcases hg.mod enable p caller rest hnet with rfl | rfl
    · cases x <;> simp only [netStep, hnet, modStep, Option.map_some, Option.some.injEq, reduceCtorEq] at h
      subst h
      refine ⟨.inl ⟨rfl, ?_⟩, rfl, hsingle, fun _ p' _ _ he => ?_⟩
      all_goals by_cases hoff : s.epoll = false ∨ s.socket = false
      all_goals cases caller <;> simp_all [modPc, NetPc.Holds]
    · cases x <;> simp [netStep, hnet, modStep, lock, hmutex] at h
  by_cases hstop : ∃ p, s.net = .stop p
  · obtain ⟨p, hnet⟩ := hstop
    cases x <;> simp only [netStep, hnet, Option.some.injEq, reduceCtorEq] at h
    subst h
    cases p <;> simp [stopStep, LockStep, hnet, NetPc.Holds, hsingle]
  unfold netStep at h
  repeat' split at h
  all_goals try exact absurd ⟨_, ‹_›⟩ hstop
  all_goals try exact absurd ⟨_, _, _, _, ‹_›⟩ hmod
  all_goals simp only [Option.some.injEq, reduceCtorEq, Option.map_eq_some_iff, lock_false] at h
  all_goals first
    | subst h
    | obtain ⟨_, ⟨hm, rfl⟩, rfl⟩ := h
  all_goals refine ⟨?_, rfl, ?_, fun enable p caller rest he => ?_⟩
  -- The mutex is left alone, locked or unlocked; only a call leads to a position in `ModWritable`.
  all_goals first
    | (cases he; exact .inl rfl)
    | cases he
    | exact .inl ⟨rfl, by rw [‹s.net = _›] <;> exact Iff.rfl⟩
    | exact .inr (.inl ⟨by rw [hm]; rfl, rfl, trivial⟩)
    | exact .inr (.inr ⟨by rw [‹s.net = _›]; trivial, by rw [unlock, htail]; rfl, id⟩)
    | simp [unlock, htail, hsingle]

/-- What a step of the input thread does to the mutex. -/
theorem inputStep_guarded (hg : s.Guarded) (h : s.inputStep false x = some s') :
    LockStep .input s.mutex.head? s'.mutex.head? s.input.Holds s'.input.Holds ∧ s'.net = s.net ∧
      s'.mutex.length ≤ 1 := by
  have hsingle := hg.single
  have htail : s.mutex.tail = [] := List.eq_nil_of_length_eq_zero (by rw [List.length_tail]; omega)
  by_cases hmod : ∃ p, s.input = .mod p
  · obtain ⟨p, hinput⟩ := hmod
    cases x <;> simp only [inputStep, hinput, reduceCtorEq] at h
    cases p with
    | lock =>
      simp only [modStep, Option.map_map, Option.map_eq_some_iff, lock_false] at h
      obtain ⟨_, ⟨hm, rfl⟩, rfl⟩ := h
      simp [LockStep, hinput, InputPc.Holds, hm]
    | test =>
      simp only [modStep, Option.map_some, Option.some.injEq] at h
      subst h
      split <;> simp [LockStep, hinput, InputPc.Holds, hsingle]
    | _ =>
      simp only [modStep, Option.map_some, Option.some.injEq] at h
      subst h
      simp [LockStep, hinput, InputPc.Holds, unlock, htail, hsingle]
  by_cases hstop : ∃ p, s.input = .stop p
  · obtain ⟨p, hinput⟩ := hstop
    cases x <;> simp only [inputStep, hinput, Option.some.injEq, reduceCtorEq] at h
    subst h
    cases p <;> simp [stopStep, LockStep, hinput, InputPc.Holds, hsingle]
  unfold inputStep at h
  repeat' split at h
  all_goals try exact absurd ⟨_, ‹_›⟩ hstop
  all_goals try exact absurd ⟨_, ‹_›⟩ hmod
  all_goals simp only [Option.some.injEq, reduceCtorEq, Option.map_eq_some_iff, lock_false] at h
  all_goals first
    | subst h
    | obtain ⟨_, ⟨hm, rfl⟩, rfl⟩ := h
  all_goals refine ⟨?_, rfl, ?_⟩
  all_goals first
    | exact .inl ⟨rfl, by rw [‹s.input = _›] <;> exact Iff.rfl⟩
    | exact .inr (.inl ⟨by rw [hm]; rfl, rfl, trivial⟩)
    | exact .inr (.inr ⟨by rw [‹s.input = _›]; trivial, by rw [unlock, htail]; rfl, id⟩)
    | simp [unlock, htail, hsingle]

theorem modPc_eq {enable e : Bool} {caller c : Caller} {rest r : List UInt32} {p : Option ModPc} {q : ModPc} :
    modPc enable caller rest p = .mod e q c r ↔ p = some q ∧ enable = e ∧ caller = c ∧ rest = r := by
  cases p with
  | none => cases caller <;> simp [modPc]
  | some p =>
    simp only [modPc, NetPc.mod.injEq, Option.some.injEq]
    exact and_left_comm

/-- The network thread comes to the `lock_guard` of `ModWritable` only past its first test. -/
theorem netStep_locks (h : s.netStep false x = some s') {enable : Bool} {caller : Caller} {rest : List UInt32}
    (hlock : s'.net = .mod enable .lock caller rest) :
    s.net = .mod enable .test caller rest ∧ s.epoll = true ∧ s.socket = true := by
  by_cases hmod : ∃ enable p caller rest, s.net = .mod enable p caller rest
  · obtain ⟨e, p, c, r, hnet⟩ := hmod
    cases x <;> simp only [netStep, hnet, reduceCtorEq, Option.map_eq_some_iff] at h
    obtain ⟨⟨t, p'⟩, hstep, rfl⟩ := h
    obtain ⟨rfl, rfl, rfl, rfl⟩ := modPc_eq.1 hlock
    cases p <;> simp only [modStep, Option.some.injEq, Option.map_eq_some_iff, Prod.mk.injEq, reduceCtorEq,
      and_false, exists_false] at hstep
    have hon : ¬ (s.epoll = false ∨ s.socket = false) := fun hoff => by simp [if_pos hoff] at hstep
    simpa [hnet] using not_or.1 hon
  by_cases hstop : ∃ p, s.net = .stop p
  · obtain ⟨p, hnet⟩ := hstop
    cases x <;> simp only [netStep, hnet, Option.some.injEq, reduceCtorEq] at h
    subst h
    cases p <;> simp [stopStep] at hlock
  unfold netStep at h
  repeat' split at h
  all_goals try exact absurd ⟨_, ‹_›⟩ hstop
  all_goals try exact absurd ⟨_, _, _, _, ‹_›⟩ hmod
  all_goals simp only [Option.some.injEq, reduceCtorEq, Option.map_eq_some_iff, lock_false] at h
  all_goals first
    | subst h
    | obtain ⟨_, ⟨hm, rfl⟩, rfl⟩ := h
  all_goals cases hlock

theorem guarded (h : (client false).Reachable s) : s.Guarded := by
  refine h.invariant Guarded ?_ ?_
  · rintro s rfl
    refine ⟨by simp [start], .of_none fun t => ?_, fun _ _ _ _ he => by simp [start] at he⟩
    cases t <;> simp [Holds, start, NetPc.Holds, InputPc.Holds]
  · rintro s ⟨t, x⟩ s' - hg - hst
    cases t with
    | net =>
      obtain ⟨hlock, hinput, hsingle, hmod⟩ := netStep_guarded hg hst
      refine ⟨hsingle, hg.owned.step hlock fun u hu => ?_, hmod⟩
      cases u with
      | net => exact absurd rfl hu
      | input => simp only [Holds, hinput]
    | input =>
      obtain ⟨hlock, hnet, hsingle⟩ := inputStep_guarded hg hst
      refine ⟨hsingle, hg.owned.step hlock fun u hu => ?_, hnet ▸ hg.mod⟩
      cases u with
      | net => simp only [Holds, hnet]
      | input => exact absurd rfl hu

end Client

/-- **No thread locks the mutex that it holds.** -/
theorem never_relocks {s : Client} (h : (client false).Reach Client.SkipsMod s) (t : Thread) : ¬ s.SelfLock t := by
  rintro ⟨hwants, hmem⟩
  have hg := Client.guarded (h.mono fun _ _ _ => trivial)
  have hholds : s.Holds t := hg.holds_of_mem hmem
  have hnot : ∀ enable caller rest, s.net ≠ .mod enable .lock caller rest := by
    refine h.invariant (fun s => ∀ enable caller rest, s.net ≠ .mod enable .lock caller rest) ?_ ?_
    · rintro s rfl enable caller rest he
      simp [Client.start] at he
    · rintro s ⟨u, x⟩ s' hr ih hok hst enable caller rest he
      have hg := Client.guarded (hr.mono fun _ _ _ => trivial)
      cases u with
      | input => exact ih enable caller rest ((Client.inputStep_guarded hg hst).2.1 ▸ he)
      | net =>
        obtain ⟨hnet, hepoll, hsocket⟩ := Client.netStep_locks hst he
        rcases hok (by simp [hnet, NetPc.CallsMod]) with hoff | hoff
        · simp [hepoll] at hoff
        · simp [hsocket] at hoff
  cases t with
  | net =>
    cases hnet : s.net with
    | mod enable p caller rest =>
      rcases hg.mod enable p caller rest hnet with rfl | rfl
      · simp [Client.Wants, hnet, NetPc.Wants] at hwants
      · exact absurd hnet (hnot enable caller rest)
    | _ => simp_all [Client.Wants, Client.Holds, NetPc.Wants, NetPc.Holds]
  | input =>
    cases hinput : s.input with
    | mod p => cases p <;> simp_all [Client.Wants, Client.Holds, InputPc.Wants, InputPc.Holds]
    | _ => simp_all [Client.Wants, Client.Holds, InputPc.Wants, InputPc.Holds]

/-- Any other call of the network thread does lock it. -/
theorem relocks_of_call {s : Client} (h : (client false).Reachable s) (hcall : s.net.CallsMod)
    (hepoll : s.epoll = true) (hsocket : s.socket = true) :
    ∃ s', (client false).step s (.net, .go) = some s' ∧ s'.SelfLock .net := by
  have hg := Client.guarded h
  cases hnet : s.net with
  | mod enable p caller rest =>
    cases p with
    | test =>
      refine ⟨{ s with net := .mod enable .lock caller rest }, ?_, trivial, ?_⟩
      · simp [client, Client.step, Client.netStep, hnet, Client.modStep, hepoll, hsocket, Client.modPc]
      · have hmutex : s.mutex = [.net] := hg.mutex_eq (by simp [Client.Holds, hnet, NetPc.Holds])
        simp [hmutex]
    | _ => simp [hnet, NetPc.CallsMod] at hcall
  | _ => simp [hnet, NetPc.CallsMod] at hcall

/-- The network thread connects and comes to its first `epoll_wait`; then the input thread sends a byte. -/
def sendByte : List (Thread × Input) :=
  [(Thread.net, Input.ok), (Thread.net, Input.ok), (Thread.net, Input.go), (Thread.net, Input.ok),
      (Thread.net, Input.go), (Thread.net, Input.go), (Thread.input, Input.line [104])] ++
    List.replicate 8 (Thread.input, Input.go)

/-- The network thread is told that it can write, and calls `send`. -/
def flush (r : SendResult) : List (Thread × Input) :=
  [(Thread.net, Input.events [epollOut])] ++ List.replicate 5 (Thread.net, Input.go) ++ [(Thread.net, Input.send r)]

/-- A `send` that would block leaves the queue as it is, and `ModWritable` is not called. -/
theorem never_relocks_blocked :
    ((client false).run .start (sendByte ++ flush (.error .EAGAIN) ++ List.replicate 5 (Thread.net, Input.go))).map
      (fun s => (s.net, s.sendQueue)) = some (.loop, [[104]]) ∧
    ∀ s ∈ (client false).run .start (sendByte ++ flush (.error .EAGAIN) ++ List.replicate 5 (Thread.net, Input.go)), ∀ t,
      ¬ s.SelfLock t := by
  refine ⟨by decide +kernel, fun s hs t => ?_⟩
  have hinit : (client false).Reach Client.SkipsMod .start := .init rfl
  exact never_relocks (hinit.run_along hs (by decide +kernel)) t

/-- A `send` that drains the queue. -/
theorem relocks : ¬ ∀ s, (client false).Reachable s → ∀ t, ¬ s.SelfLock t := by
  intro hall
  have hrun : ((client false).run .start (sendByte ++ flush (.count 1) ++ List.replicate 4 (.net, .go))).map
      (fun s => (s.net, s.epoll, s.socket)) = some (.mod false .test .handle [], true, true) := by
    decide +kernel
  obtain ⟨s, hs, hv⟩ := Option.map_eq_some_iff.1 hrun
  simp only [Prod.mk.injEq] at hv
  obtain ⟨hnet, hepoll, hsocket⟩ := hv
  have hr := System.reachable_of_run rfl hs
  obtain ⟨s', hst, hself⟩ := relocks_of_call hr (by simp [hnet, NetPc.CallsMod]) hepoll hsocket
  exact hall s' (hr.step trivial hst) .net hself

end TcpChat.EpollClient
