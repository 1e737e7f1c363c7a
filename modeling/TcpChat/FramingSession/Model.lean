import TcpChat.FramingServer.Model
import TcpChat.Lib.Mutex

/-!
# A session of the framing server among its callers

One `ClientSession` of `Protocols/Framing/Server`, from the `m_active.store(true)` of `Start` on, and everybody who
works on it: its `RecvLoop` and `SendLoop`, the thread that calls `Stop` (more than once, since the destructor
does), and any number of callers of `SendMsg`, each of which may call either overload with any message at any time.

In `FramingServer.Model` the callers of `SendMsg` are the `RecvLoop`s of the other sessions; here nothing is known
about them.  A step is one access to the shared state, as there.

* `SamePc`, `step_pc` — a step moves only its own thread;
* `HoldsTx`, `tx_owned` — the holder of `m_txMutex` is the thread inside the critical section.
-/

namespace TcpChat.FramingSession

open TcpChat.Framing TcpChat.Lib
open TcpChat.FramingServer (txHwmBytes)

inductive Thread where
  | caller (k : ℕ) | recv | send | stop
  deriving DecidableEq

/-- The two overloads of `SendMsg`: for a `const string&` and for a `string&&`. -/
inductive Overload where
  | copy | move
  deriving DecidableEq

/-- A call of `SendMsg`. -/
structure Call where
  msg : List UInt8
  overload : Overload
  deriving DecidableEq

/-! ## Positions -/

/-- A caller of `SendMsg`; `enqueue` and `enqueued` are before and after the first of the two statements that put
the message into the queue. -/
inductive CallerPc where
  | idle | test (c : Call) | lock (c : Call) | pred (c : Call) | park (c : Call) | parked (c : Call)
  | retest (c : Call) | enqueue (c : Call) | enqueued (c : Call) | unlock (c : Call) | return (c : Call)
  | notify (c : Call)
  deriving DecidableEq

/-- `RecvLoop` -/
inductive RecvPc where
  | test | frame (r : FrameReader) | broadcast (msg : List UInt8)
  | endStore | endLock | endNotifyEmpty | endNotifyFull | endUnlock | done
  deriving DecidableEq

/-- `SendLoop` -/
inductive SendPc where
  | lock | pred | park | parked | test | breakUnlock | pop
  | sub (msg : List UInt8) | notify (msg : List UInt8) | unlock (msg : List UInt8)
  | frame (msg : List UInt8) (w : FrameWriter)
  | failStore | failNotifyEmpty | failNotifyFull | done
  deriving DecidableEq

/-- `Stop` -/
inductive StopPc where
  | idle | store | lock | notifyEmpty | notifyFull | unlock | shutdown | frame (r : FrameReader) | close
  | joinRecv | joinSend | relock | clear | zero | reunlock | done
  deriving DecidableEq

/-! ## State -/

structure ClientSession where
  active : Bool
  /-- `m_socket != INVALID_SOCKET` -/
  valid : Bool
  txMutex : Option Thread
  txNotEmpty : List Thread
  txNotFull : List Thread
  txQueue : List (List UInt8)
  txBytesQueued : ℕ
  caller : ℕ → CallerPc
  recv : RecvPc
  send : SendPc
  stop : StopPc

/-- The session in `Start`, when `m_active` has been set. -/
def ClientSession.start : ClientSession where
  active := true
  valid := true
  txMutex := none
  txNotEmpty := []
  txNotFull := []
  txQueue := []
  txBytesQueued := 0
  caller := fun _ => .idle
  recv := .test
  send := .lock
  stop := .idle

/-- The environment's part in a step: who calls what, what the socket answers, whom `notify_one` wakes. -/
inductive Input where
  | go
  | call (c : Call)
  | received (res : RecvResult) | sent (res : SendResult)
  | wake (k : ℕ)
  deriving DecidableEq

namespace ClientSession

/-- The wait predicate of `SendMsg` for a message of `size` bytes. -/
def HasRoom (s : ClientSession) (size : ℕ) : Prop := s.active = false ∨ s.txBytesQueued + size ≤ txHwmBytes

instance (s : ClientSession) (size : ℕ) : Decidable (s.HasRoom size) := inferInstanceAs (Decidable (_ ∨ _))

/-- What `recv` may answer when it is asked for `len` bytes. -/
def RecvAnswers (s : ClientSession) (len : ℕ) : RecvResult → Prop
  | .bytes b => s.valid = true ∧ b ≠ [] ∧ b.length ≤ len
  | _ => True

instance (s : ClientSession) (len : ℕ) : DecidablePred (s.RecvAnswers len)
  | .bytes _ => inferInstanceAs (Decidable (_ ∧ _))
  | .closed | .error _ => isTrue trivial

/-- What `send` may answer when it is offered `len` bytes. -/
def SendAnswers (s : ClientSession) (len : ℕ) : SendResult → Prop
  | .count n => s.valid = true ∧ 0 < n ∧ n ≤ len
  | _ => True

instance (s : ClientSession) (len : ℕ) : DecidablePred (s.SendAnswers len)
  | .count _ => inferInstanceAs (Decidable (_ ∧ _))
  | .closed | .error _ => isTrue trivial

/-! ## Steps -/

def setCaller (s : ClientSession) (k : ℕ) (p : CallerPc) : ClientSession :=
  { s with caller := Function.update s.caller k p }

/-- One step of the caller `k`. -/
def callerStep (s : ClientSession) (k : ℕ) (x : Input) : Option ClientSession :=
  match s.caller k, x with
  | .idle, .call c => some (s.setCaller k (.test c))
  | .test c, .go => some (s.setCaller k (if s.active then .lock c else .idle))
  | .lock c, .go => if s.txMutex = none then some ({ s with txMutex := some (.caller k) }.setCaller k (.pred c)) else none
  | .pred c, .go => some (s.setCaller k (if s.HasRoom c.msg.length then .retest c else .park c))
  | .park c, .go =>
    some ({ s with txMutex := none, txNotFull := .caller k :: s.txNotFull }.setCaller k (.parked c))
  | .parked c, .go =>
    if s.txMutex = none then
      some ({ s with txMutex := some (.caller k), txNotFull := s.txNotFull.erase (.caller k) }.setCaller k (.pred c))
    else none
  | .retest c, .go => some (s.setCaller k (if s.active then .enqueue c else .return c))
  -- const string&: push_back, then the counter; string&&: the counter, then push_back
  | .enqueue c, .go =>
    match c.overload with
    | .copy => some ({ s with txQueue := s.txQueue ++ [c.msg] }.setCaller k (.enqueued c))
    | .move => some ({ s with txBytesQueued := s.txBytesQueued + c.msg.length }.setCaller k (.enqueued c))
  | .enqueued c, .go =>
    match c.overload with
    | .copy => some ({ s with txBytesQueued := s.txBytesQueued + c.msg.length }.setCaller k (.unlock c))
    | .move => some ({ s with txQueue := s.txQueue ++ [c.msg] }.setCaller k (.unlock c))
  | .unlock c, .go => some ({ s with txMutex := none }.setCaller k (.notify c))
  | .return _, .go => some ({ s with txMutex := none }.setCaller k .idle)
  | .notify _, .wake j =>
    if j < s.txNotEmpty.length ∨ s.txNotEmpty = [] then
      some ({ s with txNotEmpty := s.txNotEmpty.eraseIdx j }.setCaller k .idle)
    else none
  | _, _ => none

/-- One step of `RecvLoop`.  `BroadcastMsg` works on the other sessions only. -/
def recvStep (s : ClientSession) (x : Input) : Option ClientSession :=
  match s.recv, x with
  | .test, .go => some { s with recv := if s.active then .frame .start else .endStore }
  | .frame r, .received res =>
    if s.RecvAnswers r.wants res then
      match r.turn res with
      | .again r' => some { s with recv := .frame r' }
      | .ret none => some { s with recv := .endStore }
      | .ret (some msg) => some { s with recv := .broadcast msg }
    else none
  | .broadcast _, .go => some { s with recv := .test }
  | .endStore, .go => some { s with active := false, recv := .endLock }
  | .endLock, .go => if s.txMutex = none then some { s with txMutex := some .recv, recv := .endNotifyEmpty } else none
  | .endNotifyEmpty, .go => some { s with txNotEmpty := [], recv := .endNotifyFull }
  | .endNotifyFull, .go => some { s with txNotFull := [], recv := .endUnlock }
  | .endUnlock, .go => some { s with txMutex := none, recv := .done }
  | _, _ => none

/-- One step of `SendLoop`. -/
def sendStep (s : ClientSession) (x : Input) : Option ClientSession :=
  match s.send, x with
  | .lock, .go => if s.txMutex = none then some { s with txMutex := some .send, send := .pred } else none
  | .pred, .go => some { s with send := if s.active = false ∨ s.txQueue ≠ [] then .test else .park }
  | .park, .go => some { s with txMutex := none, txNotEmpty := .send :: s.txNotEmpty, send := .parked }
  | .parked, .go =>
    if s.txMutex = none then
      some { s with txMutex := some .send, txNotEmpty := s.txNotEmpty.erase .send, send := .pred }
    else none
  | .test, .go => some { s with send := if s.active = false ∧ s.txQueue = [] then .breakUnlock else .pop }
  | .breakUnlock, .go => some { s with txMutex := none, send := .done }
  | .pop, .go =>
    match s.txQueue with
    | [] => none
    | msg :: queue => some { s with txQueue := queue, send := .sub msg }
  | .sub msg, .go =>
    some { s with
      txBytesQueued := if msg.length ≤ s.txBytesQueued then s.txBytesQueued - msg.length else 0, send := .notify msg }
  | .notify msg, .go => some { s with txNotFull := [], send := .unlock msg }
  | .unlock msg, .go =>
    match FrameWriter.start msg with
    | .again w => some { s with txMutex := none, send := .frame msg w }
    | .ret true => some { s with txMutex := none, send := .lock }
    | .ret false => some { s with txMutex := none, send := .failStore }
  | .frame msg w, .sent res =>
    if s.SendAnswers (w.offer msg).length res then
      match w.turn msg res with
      | .again w' => some { s with send := .frame msg w' }
      | .ret true => some { s with send := .lock }
      | .ret false => some { s with send := .failStore }
    else none
  | .failStore, .go => some { s with active := false, send := .failNotifyEmpty }
  | .failNotifyEmpty, .go => some { s with txNotEmpty := [], send := .failNotifyFull }
  | .failNotifyFull, .go => some { s with txNotFull := [], send := .done }
  | _, _ => none

/-- One step of the thread that calls `Stop`. -/
def stopStep (s : ClientSession) (x : Input) : Option ClientSession :=
  match s.stop, x with
  | .idle, .go => some { s with stop := .store }
  | .store, .go => some { s with active := false, stop := .lock }
  | .lock, .go => if s.txMutex = none then some { s with txMutex := some .stop, stop := .notifyEmpty } else none
  | .notifyEmpty, .go => some { s with txNotEmpty := [], stop := .notifyFull }
  | .notifyFull, .go => some { s with txNotFull := [], stop := .unlock }
  | .unlock, .go => some { s with txMutex := none, stop := .shutdown }
  | .shutdown, .go => some { s with stop := if s.valid then .frame .start else .joinRecv }
  -- GracefulShutdown ignores what recv_frame returns
  | .frame r, .received res =>
    if s.RecvAnswers r.wants res then
      match r.turn res with
      | .again r' => some { s with stop := .frame r' }
      | .ret _ => some { s with stop := .close }
    else none
  | .close, .go => some { s with valid := false, stop := .joinRecv }
  | .joinRecv, .go => if s.recv = .done then some { s with stop := .joinSend } else none
  | .joinSend, .go => if s.send = .done then some { s with stop := .relock } else none
  | .relock, .go => if s.txMutex = none then some { s with txMutex := some .stop, stop := .clear } else none
  | .clear, .go => some { s with txQueue := [], stop := .zero }
  | .zero, .go => some { s with txBytesQueued := 0, stop := .reunlock }
  | .reunlock, .go => some { s with txMutex := none, stop := .done }
  | .done, .go => some { s with stop := .store }
  | _, _ => none

/-- One step of a thread. -/
def step (s : ClientSession) : Thread × Input → Option ClientSession
  | (.caller k, x) => s.callerStep k x
  | (.recv, x) => s.recvStep x
  | (.send, x) => s.sendStep x
  | (.stop, x) => s.stopStep x

variable {s s' : ClientSession} {t : Thread} {x : Input}

/-- Nobody sets `m_active` again. -/
theorem step_inactive (h : s.step (t, x) = some s') (ha : s.active = false) : s'.active = false := by
  cases t <;> simp only [step, callerStep, recvStep, sendStep, stopStep] at h
  all_goals repeat' split at h
  all_goals simp only [Option.some.injEq, reduceCtorEq] at h
  all_goals subst h
  all_goals first
    | exact ha
    | rfl

/-- The positions of the other threads are the same. -/
structure SamePc (t : Thread) (s s' : ClientSession) : Prop where
  caller : ∀ k, t ≠ .caller k → s'.caller k = s.caller k
  recv : t ≠ .recv → s'.recv = s.recv
  send : t ≠ .send → s'.send = s.send
  stop : t ≠ .stop → s'.stop = s.stop

theorem step_pc (h : s.step (t, x) = some s') : SamePc t s s' := by
  cases t <;> simp only [step, callerStep, recvStep, sendStep, stopStep] at h
  all_goals repeat' split at h
  all_goals simp only [Option.some.injEq, reduceCtorEq] at h
  all_goals subst h
  all_goals refine ⟨fun k hk => ?_, fun hr => ?_, fun hs => ?_, fun hs => ?_⟩
  all_goals first
    | rfl
    | contradiction
    | exact Function.update_of_ne (by rintro rfl; contradiction) _ _

end ClientSession

/-- A session of the framing server, from its `Start` on. -/
def session : System ClientSession (Thread × Input) where
  init s := s = .start
  step := ClientSession.step

/-! ## The mutex -/

/-- Positions between a `lock` of `m_txMutex` and its `unlock`. -/
def CallerPc.HoldsTx : CallerPc → Prop
  | .pred _ | .park _ | .retest _ | .enqueue _ | .enqueued _ | .unlock _ | .return _ => True
  | _ => False

def RecvPc.HoldsTx : RecvPc → Prop
  | .endNotifyEmpty | .endNotifyFull | .endUnlock => True
  | _ => False

def SendPc.HoldsTx : SendPc → Prop
  | .pred | .park | .test | .breakUnlock | .pop | .sub _ | .notify _ | .unlock _ => True
  | _ => False

def StopPc.HoldsTx : StopPc → Prop
  | .notifyEmpty | .notifyFull | .unlock | .clear | .zero | .reunlock => True
  | _ => False

namespace ClientSession

/-- The thread is inside the critical section. -/
def HoldsTx (s : ClientSession) : Thread → Prop
  | .caller k => (s.caller k).HoldsTx
  | .recv => s.recv.HoldsTx
  | .send => s.send.HoldsTx
  | .stop => s.stop.HoldsTx

variable {s s' : ClientSession} {t : Thread} {x : Input}

theorem step_tx (h : s.step (t, x) = some s') :
    LockStep t s.txMutex s'.txMutex (s.HoldsTx t) (s'.HoldsTx t) := by
  cases t <;> simp only [step, callerStep, recvStep, sendStep, stopStep] at h
  all_goals repeat' split at h
  all_goals simp only [Option.some.injEq, reduceCtorEq] at h
  all_goals subst h
  all_goals simp only [LockStep, *, HoldsTx, setCaller, Function.update_self, CallerPc.HoldsTx, RecvPc.HoldsTx,
    SendPc.HoldsTx, StopPc.HoldsTx]
  all_goals simp

end ClientSession

theorem tx_owned {ok : ClientSession → Thread × Input → Prop} {s : ClientSession} (h : session.Reach ok s) :
    Owned s.txMutex s.HoldsTx := by
  refine h.invariant (fun s => Owned s.txMutex s.HoldsTx) ?_ ?_
  · rintro s rfl
    refine .of_none fun t => ?_
    cases t <;> exact id
  · rintro s ⟨t, x⟩ s' - ih - hst
    have hpc := ClientSession.step_pc hst
    refine ih.step (ClientSession.step_tx hst) fun u hu => ?_
    cases u with
    | caller k => simp only [ClientSession.HoldsTx, hpc.caller k (Ne.symm hu)]
    | recv => simp only [ClientSession.HoldsTx, hpc.recv (Ne.symm hu)]
    | send => simp only [ClientSession.HoldsTx, hpc.send (Ne.symm hu)]
    | stop => simp only [ClientSession.HoldsTx, hpc.stop (Ne.symm hu)]

end TcpChat.FramingSession
