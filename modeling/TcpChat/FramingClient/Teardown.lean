import TcpChat.FramingClient.Model

/-!
# `Disconnect` and the workers that wait

`Disconnect` clears `m_isActive` and notifies the condition variables without taking the mutexes.  A worker that has
found its predicate false and has not parked yet misses the notification.

* `Stuck` — `Disconnect` has given its notifications, none is to come, and a worker is parked;
* `Timely` — the step does not give the last notification to a worker that stands before its park;
* `not_stuck` — in runs of such steps no worker gets stuck;
* `stuck_reachable` — otherwise one can;
* `stuck_of_not_timely` — every step that is not timely leads there.
-/

namespace TcpChat.FramingClient

open TcpChat.Framing TcpChat.Lib

/-- How many of its first four statements, the store and the three notifications, `Disconnect` has executed. -/
def MainPc.progress : MainPc → ℕ
  | .getline | .lineTest _ | .enqueue | .store => 0
  | .notifyRx => 1
  | .notifyNotEmpty => 2
  | .notifyNotFull => 3
  | _ => 4

/-- `ReceiveMessages` may still notify `m_rxCV`. -/
def RecvPc.Due (active : Bool) : RecvPc → Prop
  | .test => active = true
  | .unlock | .done => False
  | _ => True

instance (active : Bool) : DecidablePred (RecvPc.Due active)
  | .test => inferInstanceAs (Decidable (_ = _))
  | .unlock | .done => isFalse id
  | .frame _ | .lock _ | .body _ | .notify | .overflowStore | .overflowUnlock | .overflowNotify | .failStore
  | .failNotify => isTrue trivial

namespace Tx

variable {t t' : Tx} {i : TxMove}

/-- The sender of an inactive client does not come to its park. -/
theorem step_park (h : t.step i = some t') (ha : t.active = false) (hp : t.send ≠ .park) :
    t'.send ≠ .park ∧ (t.txNotEmpty = [] → t'.txNotEmpty = []) := by
  cases i <;> simp only [step, enqueueStep, sendStep] at h
  all_goals repeat' split at h
  all_goals simp only [Option.some.injEq, reduceCtorEq] at h
  all_goals subst h
  all_goals grind -linarith [CanSend]

end Tx

namespace Client

/-- A worker is parked, and nobody will notify it. -/
structure Stuck (c : Client) : Prop where
  notified : 4 ≤ c.main.progress
  inactive : c.tx.active = false
  parked : .send ∈ c.tx.txNotEmpty ∨ ¬ c.recv.Due c.tx.active ∧ .print ∈ c.rxCV

/-- The step does not give the last notification while the worker to be woken stands before its park. -/
def Timely (c : Client) : Thread × Input → Prop
  | (.main, _) =>
    (c.main = .notifyNotEmpty → c.tx.send ≠ .park) ∧
      (c.main = .notifyRx → ¬ c.recv.Due c.tx.active → c.print ≠ .park)
  | (.recv, _) => c.recv = .failNotify → 2 ≤ c.main.progress → c.print ≠ .park
  | _ => True

instance (c : Client) : DecidablePred c.Timely
  | (.main, _) => inferInstanceAs (Decidable (_ ∧ _))
  | (.recv, _) => inferInstanceAs (Decidable (_ → _ → _))
  | (.print, _) | (.send, _) => isTrue trivial

/-- Only the printer parks on `m_rxCV`, and when it waits the queue is empty or it is about to be notified. -/
structure Printing (c : Client) : Prop where
  parked : c.rxCV = [] ∨ c.rxCV = [.print] ∧ c.print = .parked
  woken : c.print = .park ∨ c.rxCV ≠ [] → c.rxQueue = [] ∨ c.recv = .notify

/-- How far `Disconnect` has brought the client. -/
structure Ending (c : Client) : Prop where
  overflow : c.recv = .overflowUnlock ∨ c.recv = .overflowNotify → c.tx.active = false ∧ c.print ≠ .park
  print : 2 ≤ c.main.progress → ¬ c.recv.Due c.tx.active → c.print ≠ .park ∧ c.rxCV = []
  send : 3 ≤ c.main.progress → c.tx.send ≠ .park ∧ c.tx.txNotEmpty = []

variable {c c' : Client} {t : Thread} {x : Input}

/-- `m_isActive` is false from the store of `Disconnect` on. -/
theorem step_stored (h : c.step (t, x) = some c') (hs : 1 ≤ c.main.progress → c.tx.active = false) :
    1 ≤ c'.main.progress → c'.tx.active = false := by
  intro h1
  by_cases ht : t = .main
  · subst ht
    simp only [step, mainStep] at h
    repeat' split at h
    all_goals simp only [Option.map_eq_some_iff, Option.some.injEq, reduceCtorEq] at h
    all_goals first
      | subst h
      | obtain ⟨tx, htx, rfl⟩ := h
    all_goals grind -linarith [MainPc.progress]
  · exact step_inactive h (hs (by rwa [((step_pc h).main ht).1] at h1))

/-! ## The printer -/

/-- The other threads do no more than notify. -/
theorem Printing.keep (hp : c.Printing) (hprint : c'.print = c.print) (hrecv : c'.recv = c.recv)
    (hqueue : c'.rxQueue = c.rxQueue) (hcv : c'.rxCV = c.rxCV ∨ c'.rxCV = []) : c'.Printing := by
  refine ⟨?_, fun h => ?_⟩
  · rcases hcv with hcv | hcv
    · rw [hcv, hprint]
      exact hp.parked
    · exact .inl hcv
  · rw [hqueue, hrecv]
    refine hp.woken (h.imp (hprint ▸ ·) fun hne => ?_)
    rcases hcv with hcv | hcv
    · rwa [hcv] at hne
    · exact absurd hcv hne

theorem recvStep_printing (h : c.recvStep x = some c') (hpark : c.recv.HoldsRx → c.print ≠ .park)
    (hp : c.Printing) : c'.Printing := by
  obtain ⟨hl, hw⟩ := hp
  have hprint := (step_pc (t := .recv) h).print nofun
  unfold recvStep at h
  repeat' split at h
  all_goals simp only [Option.some.injEq, reduceCtorEq] at h
  all_goals subst h
  all_goals refine ⟨?_, ?_⟩
  all_goals grind -linarith [RecvPc.HoldsRx]

theorem printStep_printing (h : c.printStep x = some c') (hp : c.Printing) : c'.Printing := by
  obtain ⟨hl, hw⟩ := hp
  unfold printStep at h
  repeat' split at h
  all_goals simp only [Option.some.injEq, reduceCtorEq] at h
  all_goals subst h
  all_goals refine ⟨?_, ?_⟩
  all_goals grind -linarith [CanPrint]

theorem step_printing (h : c.step (t, x) = some c') (hpark : c.recv.HoldsRx → c.print ≠ .park) (hp : c.Printing) :
    c'.Printing := by
  by_cases hr : t = .recv
  · subst hr
    exact recvStep_printing h hpark hp
  by_cases ht : t = .print
  · subst ht
    exact printStep_printing h hp
  · obtain ⟨hqueue, hcv⟩ := (step_data h).rx hr ht
    exact hp.keep ((step_pc h).print ht) ((step_pc h).recv hr) hqueue hcv

/-! ## The end -/

/-- A full queue is not empty. -/
theorem WouldOverflowRx.ne_nil (h : c.WouldOverflowRx) : c.rxQueue ≠ [] := fun hq => by
  simp [WouldOverflowRx, hq, toUInt32, maxRxQueueSize] at h

/-- The main thread gets past a notification by giving it. -/
theorem mainStep_notifies (h : c.mainStep x = some c') :
    (2 ≤ c'.main.progress → 2 ≤ c.main.progress ∨ c.main = .notifyRx ∧ c'.rxCV = []) ∧
      (3 ≤ c'.main.progress → 3 ≤ c.main.progress ∧ c'.tx.txNotEmpty = c.tx.txNotEmpty ∨
        c.main = .notifyNotEmpty ∧ c'.tx.txNotEmpty = []) := by
  unfold mainStep at h
  repeat' split at h
  all_goals simp only [Option.map_eq_some_iff, Option.some.injEq, reduceCtorEq] at h
  all_goals first
    | subst h
    | obtain ⟨tx, hst, rfl⟩ := h
  all_goals simp [MainPc.progress, *]

theorem mainStep_ending (h : c.mainStep x = some c') (hok : c.Timely (.main, x))
    (hs : 1 ≤ c.main.progress → c.tx.active = false) (he : c.Ending) : c'.Ending := by
  have hpc := step_pc (t := .main) h
  have hin := step_inactive (t := .main) h
  obtain ⟨hrx, htx⟩ := mainStep_notifies h
  obtain ⟨ho, hp, hn⟩ := he
  obtain ⟨hok1, hok2⟩ := hok
  have hrecv := hpc.recv nofun
  have hprint := hpc.print nofun
  have hsend := hpc.send nofun
  refine ⟨fun hr => ?_, fun h2 hd => ?_, fun h3 => ?_⟩
  · obtain ⟨ha, hpr⟩ := ho (hrecv ▸ hr)
    exact ⟨hin ha, hprint ▸ hpr⟩
  · have ha : c.tx.active = false := by
      refine hs ?_
      rcases hrx h2 with h2 | ⟨hm, -⟩
      · exact Nat.le_of_succ_le h2
      · rw [hm]
        exact le_rfl
    have hd : ¬ c.recv.Due c.tx.active := by rwa [ha, ← hin ha, ← hrecv]
    rw [hprint]
    rcases hrx h2 with h2 | ⟨hm, hcv⟩
    · obtain ⟨hpr, hcv⟩ := hp h2 hd
      exact ⟨hpr, ((step_data (t := .main) h).rx nofun nofun).2.elim (·.trans hcv) id⟩
    · exact ⟨hok2 hm hd, hcv⟩
  · rw [hsend]
    rcases htx h3 with ⟨h3, hl⟩ | ⟨hm, hl⟩
    · rw [hl]
      exact hn h3
    · exact ⟨hok1 hm, hl⟩

/-- `ReceiveMessages` gets past its last notification by giving it, or with messages left in the queue. -/
theorem recvStep_due (h : c.recvStep x = some c') (hd : ¬ c'.recv.Due c.tx.active) :
    ¬ c.recv.Due c.tx.active ∧ c'.rxCV = c.rxCV ∨
      (c.recv = .notify ∨ c.recv = .overflowNotify ∨ c.recv = .failNotify) ∧ c'.rxCV = [] ∨
      (∃ msg, c.recv = .body msg) ∧ c.rxQueue ≠ [] ∧ c'.rxCV = c.rxCV := by
  have hfull := WouldOverflowRx.ne_nil (c := c)
  unfold recvStep at h
  repeat' split at h
  all_goals simp only [Option.some.injEq, reduceCtorEq] at h
  all_goals subst h
  all_goals grind -linarith [RecvPc.Due]

/-- On a full queue `ReceiveMessages` clears `m_isActive` before it releases the mutex. -/
theorem recvStep_overflow (h : c.recvStep x = some c') :
    (c'.recv = .overflowUnlock → c.recv = .overflowStore ∧ c'.tx.active = false) ∧
      (c'.recv = .overflowNotify → c.recv = .overflowUnlock ∧ c'.tx.active = c.tx.active) := by
  unfold recvStep at h
  repeat' split at h
  all_goals simp only [Option.some.injEq, reduceCtorEq] at h
  all_goals subst h
  all_goals simp [*]

theorem recvStep_ending (h : c.recvStep x = some c') (hok : c.Timely (.recv, x)) (hprint : c.Printing)
    (hpark : c.recv.HoldsRx → c.print ≠ .park) (hs : 1 ≤ c.main.progress → c.tx.active = false) (he : c.Ending) :
    c'.Ending := by
  have hpc := step_pc (t := .recv) h
  have hmain := (hpc.main (by decide)).1
  have hpr := hpc.print (by decide)
  have hin := step_inactive (t := .recv) h
  obtain ⟨ho, hp, hn⟩ := he
  refine ⟨fun hr => ?_, fun h2 hd => ?_, fun h3 => ?_⟩
  · rw [hpr]
    rcases hr with hr | hr
    · obtain ⟨hst, ha⟩ := (recvStep_overflow h).1 hr
      exact ⟨ha, hpark (by simp [hst, RecvPc.HoldsRx])⟩
    · obtain ⟨hst, ha⟩ := (recvStep_overflow h).2 hr
      rw [ha]
      exact ho (.inl hst)
  · rw [hmain] at h2
    have ha := hs (Nat.le_of_succ_le h2)
    have hd : ¬ c'.recv.Due c.tx.active := by rwa [ha, ← hin ha]
    rw [hpr]
    rcases recvStep_due h hd with ⟨hd, hcv⟩ | ⟨hst, hcv⟩ | ⟨⟨msg, hst⟩, hq, hcv⟩
    · rw [hcv]
      exact hp h2 hd
    · refine ⟨?_, hcv⟩
      rcases hst with hst | hst | hst
      · exact hpark (by simp [hst, RecvPc.HoldsRx])
      · exact (ho (.inr hst)).2
      · exact hok hst h2
    · -- the printer does not wait while there are messages
      have hidle : ¬ (c.print = .park ∨ c.rxCV ≠ []) := fun hw => by
        rcases hprint.woken hw with hw | hw
        · exact hq hw
        · simp [hst] at hw
      rw [not_or, not_not] at hidle
      rw [hcv]
      exact hidle
  · rw [workerStep_tx (t := .recv) h (by decide) (by decide)]
    exact hn (hmain ▸ h3)

theorem printStep_ending (h : c.printStep x = some c') (hs : 1 ≤ c.main.progress → c.tx.active = false)
    (he : c.Ending) : c'.Ending := by
  obtain ⟨ho, hp, hn⟩ := he
  unfold printStep at h
  repeat' split at h
  all_goals simp only [Option.some.injEq, reduceCtorEq] at h
  all_goals subst h
  all_goals refine ⟨?_, ?_, hn⟩
  all_goals grind -linarith [CanPrint]

theorem sendStep_ending {tx : Tx} (h : c.tx.sendStep x = some tx) (hs : 1 ≤ c.main.progress → c.tx.active = false)
    (he : c.Ending) : { c with tx := tx }.Ending := by
  have hin : c.tx.active = false → tx.active = false := Tx.step_inactive (i := .send x) h
  obtain ⟨ho, hp, hn⟩ := he
  refine ⟨fun hr => ⟨hin (ho hr).1, (ho hr).2⟩, fun h2 hd => ?_, fun h3 => ?_⟩
  · have ha := hs (Nat.le_of_succ_le h2)
    exact hp h2 (by rwa [hin ha, ← ha] at hd)
  · obtain ⟨hp3, hl3⟩ := hn h3
    have hst := Tx.step_park (i := .send x) h (hs ((by decide : 1 ≤ 3).trans h3)) hp3
    exact ⟨hst.1, hst.2 hl3⟩

theorem step_ending (h : c.step (t, x) = some c') (hok : c.Timely (t, x)) (hprint : c.Printing)
    (hpark : c.recv.HoldsRx → c.print ≠ .park) (hs : 1 ≤ c.main.progress → c.tx.active = false) (he : c.Ending) :
    c'.Ending := by
  cases t with
  | main => exact mainStep_ending h hok hs he
  | recv => exact recvStep_ending h hok hprint hpark hs he
  | print => exact printStep_ending h hs he
  | send =>
    obtain ⟨tx, htx, rfl⟩ := Option.map_eq_some_iff.1 h
    exact sendStep_ending htx hs he

end Client

/-! ## In every reachable state -/

variable {ok : Client → Thread × Input → Prop} {c : Client} {i : Thread × Input}

/-- While `ReceiveMessages` is inside the critical section the printer does not stand before its park. -/
theorem not_park (h : client.Reach ok c) (hr : c.recv.HoldsRx) : c.print ≠ .park := by
  intro hp
  have hrecv : c.HoldsRx .recv := hr
  have hprint : c.HoldsRx .print := by simp [Client.HoldsRx, hp, PrintPc.HoldsRx]
  cases (rx_owned h).excl hrecv hprint

theorem stored (h : client.Reach ok c) : 1 ≤ c.main.progress → c.tx.active = false := by
  refine h.invariant (fun c => 1 ≤ c.main.progress → c.tx.active = false) ?_
    fun c i c' _ hs _ hst => Client.step_stored hst hs
  rintro c ⟨txMode, rxMode, stream, rfl⟩ h
  simp [Client.start, MainPc.progress] at h

theorem printing (h : client.Reach ok c) : c.Printing := by
  refine h.invariant Client.Printing ?_ fun c i c' hr hp _ hst => Client.step_printing hst (not_park hr) hp
  rintro c ⟨txMode, rxMode, stream, rfl⟩
  exact ⟨.inl rfl, fun _ => .inl rfl⟩

theorem ending (h : client.Reach Client.Timely c) : c.Ending := by
  refine h.invariant Client.Ending ?_ fun c i c' hr he hok hst =>
    Client.step_ending hst hok (printing hr) (not_park hr) (stored hr) he
  rintro c ⟨txMode, rxMode, stream, rfl⟩
  exact ⟨fun h => by simp [Client.start] at h,
    fun h => by simp [Client.start, MainPc.progress] at h, fun h => by simp [Client.start, MainPc.progress] at h⟩

/-- **In a run of timely steps no worker gets stuck.** -/
theorem not_stuck (h : client.Reach Client.Timely c) : ¬ c.Stuck := by
  rintro ⟨hm, -, hs | ⟨hd, hp⟩⟩
  · simp [((ending h).send (by omega)).2] at hs
  · simp [((ending h).print (by omega) hd).2] at hp

/-- `Disconnect` runs to its end and so do the workers, none of which has parked. -/
def disconnect : List (Thread × Input) :=
  [(Thread.main, Input.eof)] ++ List.replicate 6 (Thread.main, Input.go) ++ [(Thread.main, Input.closed)] ++
    List.replicate 4 (Thread.send, Input.go) ++ List.replicate 4 (Thread.print, Input.go) ++
    [(Thread.recv, Input.go)] ++ List.replicate 4 (Thread.main, Input.go)

theorem not_stuck_disconnect :
    (client.run (.start .blockProducer .dropNewest []) disconnect).map (fun c => c.main) = some .done ∧
      ∀ c ∈ client.run (.start .blockProducer .dropNewest []) disconnect, ¬ c.Stuck := by
  have hinit : client.Reach Client.Timely (.start .blockProducer .dropNewest []) := .init ⟨_, _, _, rfl⟩
  exact ⟨by decide +kernel, fun c hc => not_stuck (hinit.run_along hc (by decide +kernel))⟩

/-! ## Steps that are not timely -/

/-- The printer tests its predicate, `Disconnect` stores and notifies, `ReceiveMessages` ends, and the printer parks. -/
def missedByPrinter : List (Thread × Input) :=
  List.replicate 2 (Thread.print, Input.go) ++ [(Thread.main, Input.eof)] ++ List.replicate 4 (Thread.main, Input.go) ++
    [(Thread.recv, Input.go), (Thread.print, Input.go)]

theorem stuck_reachable : ¬ ∀ c, client.Reachable c → ¬ c.Stuck := by
  intro h
  have hrun : (client.run (.start .blockProducer .dropNewest []) missedByPrinter).map
      (fun c => (c.main, c.tx.active, c.recv, c.rxCV)) = some (.testSocket, false, .done, [.print]) := by
    decide +kernel
  obtain ⟨c, hc, hq⟩ := Option.map_eq_some_iff.1 hrun
  simp only [Prod.mk.injEq] at hq
  obtain ⟨hm, ha, hr, hl⟩ := hq
  exact h c (System.reachable_of_run ⟨_, _, _, rfl⟩ hc)
    ⟨by rw [hm]; decide, ha, .inr ⟨by rw [hr]; exact id, by simp [hl]⟩⟩

/-- `Disconnect` goes on with its notifications, whatever the workers do. -/
theorem mainStep_progress (h2 : 2 ≤ c.main.progress) (h4 : c.main.progress < 4) :
    ∃ c', c.mainStep .go = some c' ∧ c'.main.progress = c.main.progress + 1 ∧ c'.tx.active = c.tx.active ∧
      c'.recv = c.recv ∧ c'.rxCV = c.rxCV := by
  cases hm : c.main <;> simp only [hm, MainPc.progress] at h2 h4
  case notifyNotEmpty =>
    have hst : c.mainStep .go = some { c with tx := { c.tx with txNotEmpty := [] }, main := .notifyNotFull } := by
      simp only [Client.mainStep, hm]
    exact ⟨_, hst, rfl, rfl, rfl, rfl⟩
  case notifyNotFull =>
    have hst : c.mainStep .go = some { c with tx := { c.tx with txNotFull := [] }, main := .testSocket } := by
      simp only [Client.mainStep, hm]
    exact ⟨_, hst, rfl, rfl, rfl, rfl⟩
  all_goals omega

/-- A printer that is parked when the last notification for it has been given gets stuck. -/
theorem stuck_of_parked (h : client.Reachable c) (h2 : 2 ≤ c.main.progress) (hd : ¬ c.recv.Due c.tx.active)
    (hl : .print ∈ c.rxCV) : ∃ c', client.Reachable c' ∧ c'.Stuck := by
  obtain ⟨k, hk⟩ : ∃ k, 4 ≤ c.main.progress + k := ⟨4, Nat.le_add_left _ _⟩
  induction k generalizing c with
  | zero => exact ⟨c, h, hk, stored h (by omega), .inr ⟨hd, hl⟩⟩
  | succ k ih =>
    by_cases h4 : 4 ≤ c.main.progress
    · exact ⟨c, h, h4, stored h (by omega), .inr ⟨hd, hl⟩⟩
    · obtain ⟨c₁, hst, hp, ha, hr, hcv⟩ := mainStep_progress h2 (Nat.lt_of_not_le h4)
      have h₁ : client.Reachable c₁ := .step (i := (.main, .go)) h trivial hst
      exact ih h₁ (by omega) (by rwa [ha, hr]) (by rwa [hcv]) (by omega)

/-- A printer that stands before its park when the last notification for it has been given gets stuck. -/
theorem stuck_of_park (h : client.Reachable c) (h2 : 2 ≤ c.main.progress) (hd : ¬ c.recv.Due c.tx.active)
    (hp : c.print = .park) : ∃ c', client.Reachable c' ∧ c'.Stuck := by
  have hst : client.step c (.print, .go) =
      some { c with rxMutex := none, rxCV := .print :: c.rxCV, print := .parked } := by
    simp only [client, Client.step, Client.printStep, hp]
  exact stuck_of_parked (h.step trivial hst) h2 hd List.mem_cons_self

/-- **Every step that is not timely leaves a worker stuck**, if the steps after it come in the wrong order. -/
theorem stuck_of_not_timely (h : client.Reachable c) (hi : ¬ c.Timely i) : ∃ c', client.Reachable c' ∧ c'.Stuck := by
  obtain ⟨t, x⟩ := i
  cases t with
  | main =>
    simp only [Client.Timely, not_and_or, Classical.not_imp, not_not] at hi
    rcases hi with ⟨hm, hp⟩ | ⟨hm, hd, hp⟩
    · have ha : c.tx.active = false := stored h (by simp [hm, MainPc.progress])
      -- the sender parks when `Disconnect` has notified `m_txNotEmpty`
      have h₁ : client.step c (.main, .go) =
          some { c with tx := { c.tx with txNotEmpty := [] }, main := .notifyNotFull } := by
        simp only [client, Client.step, Client.mainStep, hm]
      have h₂ : client.step { c with tx := { c.tx with txNotEmpty := [] }, main := .notifyNotFull } (.main, .go) =
          some { c with tx := { c.tx with txNotEmpty := [], txNotFull := [] }, main := .testSocket } := rfl
      have h₃ : client.step { c with tx := { c.tx with txNotEmpty := [], txNotFull := [] }, main := .testSocket }
          (.send, .go) = some { c with
            tx := { c.tx with txMutex := none, txNotEmpty := [.send], txNotFull := [], send := .parked },
            main := .testSocket } := by
        simp only [client, Client.step, Tx.sendStep, hp, Option.map_some]
      exact ⟨_, ((h.step trivial h₁).step trivial h₂).step trivial h₃,
        le_rfl, ha, .inl List.mem_cons_self⟩
    · have h₁ : client.step c (.main, .go) = some { c with rxCV := [], main := .notifyNotEmpty } := by
        simp only [client, Client.step, Client.mainStep, hm]
      exact stuck_of_park (h.step trivial h₁) le_rfl hd hp
  | recv =>
    simp only [Client.Timely, Classical.not_imp, not_not] at hi
    obtain ⟨hr, h2, hp⟩ := hi
    have h₁ : client.step c (.recv, .go) = some { c with rxCV := [], recv := .done } := by
      simp only [client, Client.step, Client.recvStep, hr]
    exact stuck_of_park (h.step trivial h₁) h2 id hp
  | print => exact absurd trivial hi
  | send => exact absurd trivial hi

end TcpChat.FramingClient
