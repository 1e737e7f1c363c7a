import TcpChat.FramingSession.Model

/-!
# The end of a session wakes its waiters

`RecvLoop` at its end and `Stop` clear `m_active` first and notify both condition variables with `m_txMutex` held.
A waiter tests its predicate and parks within one critical section, so when the notifier has got the mutex no waiter
stands between the two, and with `m_active` cleared nobody will park any more.

* `Stage` — how far the end has come;
* `step_stage` — no step goes back behind a stage;
* `recv_stage`, `stop_stage` — `RecvLoop` and `Stop` have brought the session to the stage that their position says;
* `ending_wakes` — after them `m_active` stays cleared and nobody is parked.
-/

namespace TcpChat.FramingSession

open TcpChat.Framing TcpChat.Lib

/-- The wait predicate has failed and the thread has not parked yet. -/
def CallerPc.AtPark : CallerPc → Prop
  | .park _ => True
  | _ => False

def SendPc.AtPark : SendPc → Prop
  | .park => True
  | _ => False

/-- The stage of the end that `RecvLoop` has brought about. -/
def RecvPc.stage : RecvPc → ℕ
  | .endLock => 1
  | .endNotifyEmpty => 2
  | .endNotifyFull => 3
  | .endUnlock | .done => 4
  | _ => 0

/-- The stage of the end that a call of `Stop` has brought about. -/
def StopPc.stage : StopPc → ℕ
  | .idle | .store => 0
  | .lock => 1
  | .notifyEmpty => 2
  | .notifyFull => 3
  | _ => 4

/-- `Stop` has finished its notification block. -/
def StopPc.Notified : StopPc → Prop
  | .idle | .store | .lock | .notifyEmpty | .notifyFull | .unlock => False
  | _ => True

theorem StopPc.Notified.stage {p : StopPc} (h : p.Notified) : p.stage = 4 := by
  cases p <;> first | rfl | exact h.elim

namespace ClientSession

def AtPark (s : ClientSession) : Thread → Prop
  | .caller k => (s.caller k).AtPark
  | .send => s.send.AtPark
  | .recv | .stop => False

/-- Nobody will park any more. -/
structure Quiet (s : ClientSession) : Prop where
  inactive : s.active = false
  park : ∀ t, ¬ s.AtPark t

/-- The stages of the end: `m_active` is cleared; nobody will park; nobody is parked on `m_txNotEmpty`; nor on
`m_txNotFull`. -/
def Stage (s : ClientSession) : ℕ → Prop
  | 0 => True
  | 1 => s.active = false
  | 2 => s.Quiet
  | 3 => s.Quiet ∧ s.txNotEmpty = []
  | _ => s.Quiet ∧ s.txNotEmpty = [] ∧ s.txNotFull = []

variable {s s' : ClientSession} {t : Thread} {x : Input} {n : ℕ}

/-! ## What is gained is kept -/

/-- A wait predicate does not fail in an inactive session. -/
theorem step_park (h : s.step (t, x) = some s') (ha : s.active = false) : ¬ s'.AtPark t := by
  cases t <;> simp only [step, callerStep, recvStep, sendStep, stopStep] at h
  all_goals repeat' split at h
  all_goals simp only [Option.some.injEq, reduceCtorEq] at h
  all_goals subst h
  all_goals simp_all [AtPark, setCaller, HasRoom, CallerPc.AtPark, SendPc.AtPark]

/-- Only a thread that stands before its park gets into a list of parked threads. -/
theorem step_parked (h : s.step (t, x) = some s') (hp : ¬ s.AtPark t) :
    s'.txNotEmpty ⊆ s.txNotEmpty ∧ s'.txNotFull ⊆ s.txNotFull := by
  cases t <;> simp only [step, callerStep, recvStep, sendStep, stopStep] at h
  all_goals repeat' split at h
  all_goals simp only [Option.some.injEq, reduceCtorEq] at h
  all_goals subst h
  all_goals first
    | exact ⟨List.Subset.refl _, List.Subset.refl _⟩
    | exact ⟨List.nil_subset _, List.Subset.refl _⟩
    | exact ⟨List.Subset.refl _, List.nil_subset _⟩
    | exact ⟨List.Subset.refl _, List.erase_subset⟩
    | exact ⟨List.erase_subset, List.Subset.refl _⟩
    | exact ⟨List.eraseIdx_subset, List.Subset.refl _⟩
    | simp [AtPark, CallerPc.AtPark, SendPc.AtPark, *] at hp

theorem Quiet.step (hq : s.Quiet) (h : s.step (t, x) = some s') : s'.Quiet := by
  refine ⟨step_inactive h hq.inactive, fun u => ?_⟩
  by_cases hu : u = t
  · subst hu
    exact step_park h hq.inactive
  · have hpc := step_pc h
    cases u with
    | caller k => simpa only [AtPark, hpc.caller k (Ne.symm hu)] using hq.park (.caller k)
    | send => simpa only [AtPark, hpc.send (Ne.symm hu)] using hq.park .send
    | _ => exact id

/-- A stage of the end is never left. -/
theorem step_stage (h : s.step (t, x) = some s') (hs : s.Stage n) : s'.Stage n := by
  match n with
  | 0 => trivial
  | 1 => exact step_inactive h hs
  | 2 => exact hs.step h
  | 3 =>
    obtain ⟨hq, he⟩ := hs
    exact ⟨hq.step h, List.subset_nil.1 (he ▸ (step_parked h (hq.park t)).1)⟩
  | _ + 4 =>
    obtain ⟨hq, he, hf⟩ := hs
    obtain ⟨he', hf'⟩ := step_parked h (hq.park t)
    exact ⟨hq.step h, List.subset_nil.1 (he ▸ he'), List.subset_nil.1 (hf ▸ hf')⟩

theorem run_stage {is : List (Thread × Input)} (hs : s.Stage n) (hrun : session.run s is = some s') : s'.Stage n := by
  induction is generalizing s with
  | nil => exact Option.some.inj hrun ▸ hs
  | cons i is ih =>
    obtain ⟨t, hst, hrun⟩ := Option.bind_eq_some_iff.1 hrun
    exact ih (step_stage hst hs) hrun

/-! ## What `RecvLoop` and `Stop` gain -/

/-- Whoever takes the mutex finds nobody before a park. -/
theorem not_atPark (hown : Owned s.txMutex s.HoldsTx) (hn : s.txMutex = none) (t : Thread) : ¬ s.AtPark t := by
  have ht := hown.not_holds hn t
  cases t with
  | caller k =>
    simp only [HoldsTx] at ht
    simp only [AtPark]
    cases hp : s.caller k <;> simp_all [CallerPc.HoldsTx, CallerPc.AtPark]
  | send =>
    simp only [HoldsTx] at ht
    simp only [AtPark]
    cases hp : s.send <;> simp_all [SendPc.HoldsTx, SendPc.AtPark]
  | _ => exact id

theorem recvStep_stage (h : s.recvStep x = some s') (hown : Owned s.txMutex s.HoldsTx) (hs : s.Stage s.recv.stage) :
    s'.Stage s'.recv.stage := by
  have hkeep : ∀ n, s.Stage n → s'.Stage n := fun n => step_stage (t := .recv) h
  unfold recvStep at h
  repeat' split at h
  all_goals simp only [Option.some.injEq, reduceCtorEq] at h
  all_goals subst h
  all_goals simp only [‹s.recv = _›, RecvPc.stage] at hs ⊢
  all_goals first
    | trivial
    | exact hkeep _ hs
    | exact hkeep 2 ⟨hs, not_atPark hown ‹_›⟩
    | exact ⟨hkeep 2 hs, rfl⟩
    | exact ⟨(hkeep 3 hs).1, (hkeep 3 hs).2, rfl⟩

theorem stopStep_stage (h : s.stopStep x = some s') (hown : Owned s.txMutex s.HoldsTx) (hs : s.Stage s.stop.stage) :
    s'.Stage s'.stop.stage := by
  have hkeep : ∀ n, s.Stage n → s'.Stage n := fun n => step_stage (t := .stop) h
  unfold stopStep at h
  repeat' split at h
  all_goals simp only [Option.some.injEq, reduceCtorEq] at h
  all_goals subst h
  all_goals simp only [‹s.stop = _›, StopPc.stage] at hs ⊢
  all_goals first
    | trivial
    | exact hkeep _ hs
    | exact hkeep 2 ⟨hs, not_atPark hown ‹_›⟩
    | exact ⟨hkeep 2 hs, rfl⟩
    | exact ⟨(hkeep 3 hs).1, (hkeep 3 hs).2, rfl⟩

end ClientSession

variable {ok : ClientSession → Thread × Input → Prop} {s s' : ClientSession}

/-- The session is at the stages that the positions of `RecvLoop` and `Stop` say. -/
theorem stages (h : session.Reach ok s) : s.Stage s.recv.stage ∧ s.Stage s.stop.stage := by
  refine h.invariant (fun s => s.Stage s.recv.stage ∧ s.Stage s.stop.stage) ?_ ?_
  · rintro s rfl
    exact ⟨trivial, trivial⟩
  · rintro s ⟨t, x⟩ s' hr ⟨hrecv, hstop⟩ - hst
    have hown := tx_owned hr
    have hpc := ClientSession.step_pc hst
    constructor
    · by_cases ht : t = .recv
      · subst ht
        exact ClientSession.recvStep_stage hst hown hrecv
      · rw [hpc.recv ht]
        exact ClientSession.step_stage hst hrecv
    · by_cases ht : t = .stop
      · subst ht
        exact ClientSession.stopStep_stage hst hown hstop
      · rw [hpc.stop ht]
        exact ClientSession.step_stage hst hstop

/-- **The end of a session wakes its waiters**: once `RecvLoop` has returned or `Stop` has finished its notification
block, `m_active` is false and nobody is parked, then and in every later state. -/
theorem ending_wakes (h : session.Reachable s) (hend : s.recv = .done ∨ s.stop.Notified) {is : List (Thread × Input)}
    (hrun : session.run s is = some s') : s'.active = false ∧ s'.txNotFull = [] ∧ s'.txNotEmpty = [] := by
  have hs : s.Stage 4 := by
    obtain ⟨hrecv, hstop⟩ := stages h
    rcases hend with hp | hp
    · rwa [hp] at hrecv
    · rwa [hp.stage] at hstop
  obtain ⟨hq, he, hf⟩ := ClientSession.run_stage hs hrun
  exact ⟨hq.inactive, hf, he⟩

/-- `SendLoop` parks, a caller stands before the mutex, and the client disconnects. -/
def disconnect : List (Thread × Input) :=
  List.replicate 3 (Thread.send, Input.go) ++
    [(Thread.caller 0, Input.call ⟨[104], .copy⟩), (Thread.caller 0, Input.go), (Thread.recv, Input.go)] ++
    [(Thread.recv, Input.received .closed)] ++ List.replicate 5 (Thread.recv, Input.go)

theorem ending_wakes_disconnect :
    (session.run .start disconnect).map (fun s => s.recv) = some .done ∧
      ∀ s ∈ session.run .start disconnect, ∀ s' ∈ session.run s (List.replicate 4 (.caller 0, .go)),
        s'.active = false ∧ s'.txNotFull = [] ∧ s'.txNotEmpty = [] := by
  have hpc : (session.run .start disconnect).map (fun s => s.recv) = some .done := by decide +kernel
  refine ⟨hpc, fun s hs s' hs' => ending_wakes (System.reachable_of_run rfl hs) (.inl ?_) hs'⟩
  rw [Option.mem_def.1 hs] at hpc
  exact Option.some.inj hpc

end TcpChat.FramingSession
