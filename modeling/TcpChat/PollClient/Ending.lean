import TcpChat.PollClient.Stream

/-!
# The end of the `poll` client

`Stop` is called by the input thread at `/quit`, by the network thread at the end of `Start`, and by the destructor.

* `Late` — the `Stop` of the input thread does not come before the `m_running.store(true)` of `Start`;
* `Ending` — `/quit` has been heeded: from then on every step brings the client nearer to its end;
* `quit_ends` — in such runs the client ends after `/quit`, whatever the peer and the calls do;
* `quit_lost` — otherwise the client goes on for as long as the connection does.
-/

namespace TcpChat.PollClient

open TcpChat.Lib TcpChat.EventLoop TcpChat.Poll

/-- `Start` has not come to `m_running.store(true)`. -/
def NetPc.Early : NetPc → Prop
  | .connect | .connectTest | .setNonBlocking | .storeRunning => True
  | _ => False

instance : DecidablePred NetPc.Early := fun p =>
  decidable_of_iff (p matches .connect | .connectTest | .setNonBlocking | .storeRunning) (by
    cases p <;> simp [NetPc.Early])

/-- The input thread has left the loop over the lines, and cleared `m_running` if it was because of `/quit`. -/
def InputPc.Leaves : InputPc → Prop
  | .getline | .sendLock _ | .sendPush _ | .sendUnlock | .stop .store => False
  | _ => True

/-- The thread is inside the critical section of `m_sendMutex`. -/
def NetPc.Holds : NetPc → Prop
  | .eventsTest | .eventsUnlock _ | .writeTest | .writeSend | .writeUnlock _ => True
  | _ => False

def InputPc.Holds : InputPc → Prop
  | .sendPush _ | .sendUnlock => True
  | _ => False

/-! ## How far it is to the end -/

def StopPc.rank : StopPc → ℕ
  | .store => 6 | .test => 5 | .shutdown => 4 | .closeTest => 3 | .close => 2 | .clear => 1

/-- The steps of the network thread to its end, with `queued` messages to send and `unread` bytes to read. -/
def NetPc.rank (queued unread : ℕ) : NetPc → ℕ
  | .done => 0
  | .stop p => p.rank
  | .loop => 7
  | .createPoll | .writeUnlock _ => 8
  | .writeSend => 2 * queued + 9
  | .writeTest => 2 * queued + 10
  | .writeLock => 2 * queued + 11
  | .out _ => 2 * queued + 12
  | .read _ => 2 * queued + unread + 13
  | .handle _ => 2 * queued + unread + 14
  | .poll => 2 * queued + unread + 15
  | .eventsUnlock _ => 2 * queued + unread + 16
  | .eventsTest => 2 * queued + unread + 17
  | .eventsLock => 2 * queued + unread + 18
  | .connect | .connectTest | .setNonBlocking | .storeRunning => 0

def InputPc.rank : InputPc → ℕ
  | .done => 0
  | .destroy p => p.rank
  | .join => 7
  | .stop p => p.rank + 7
  | .getline | .sendLock _ | .sendPush _ | .sendUnlock => 0

namespace Client

variable {c c' : Client} {x : Input} {t : Thread}

/-- The `Stop` of the input thread does not come before the `m_running.store(true)` of `Start`. -/
def Late (c : Client) : Thread × Input → Prop
  | (.input, _) => c.input = .stop .store → ¬ c.net.Early
  | (.net, _) => True

instance (c : Client) : DecidablePred c.Late
  | (.input, _) => inferInstanceAs (Decidable (_ → _))
  | (.net, _) => isTrue trivial

/-- How many steps there may be to the end. -/
def rank (c : Client) : ℕ := c.net.rank c.sendQueue.length c.unread.length + c.input.rank

/-- The client has been told to stop, and `Start` will not undo it. -/
structure Ending (c : Client) : Prop where
  running : c.running = false
  net : ¬ c.net.Early
  input : c.input.Leaves
  write : c.net = .writeSend → c.sendQueue ≠ []

/-- The next position of a thread in `Stop`. -/
theorem stopStep_rank (c : Client) (p : StopPc) :
    ∀ q ∈ (c.stopStep p).2, q.rank < p.rank ∧ q ≠ .store := by
  cases p <;> simp only [stopStep]
  all_goals try split
  all_goals simp [StopPc.rank]

theorem rank_pos (p : StopPc) : 0 < p.rank := by cases p <;> decide

theorem recvCall_rank {res : RecvResult} {unread : List UInt8} (h : c.recvCall x = some (res, unread)) :
    ∀ b, res = .bytes b → unread.length < c.unread.length := by
  rintro b rfl
  cases x <;> simp only [recvCall, Option.ite_none_right_eq_some, Option.some.injEq, Prod.mk.injEq,
    RecvResult.bytes.injEq, reduceCtorEq, false_and, and_false] at h
  obtain ⟨⟨-, hn, -, hu⟩, -, rfl⟩ := h
  rw [List.length_drop]
  omega

theorem netStep_ending (h : c.netStep x = some c') (he : c.Ending) : c'.Ending ∧ c'.rank < c.rank := by
  obtain ⟨hrun, hnet, hinput, hwrite⟩ := he
  unfold rank
  cases hp : c.net <;> simp only [hp, NetPc.Early, not_true_eq_false, not_false_eq_true] at hnet
  case read r =>
    simp only [netStep, hp] at h
    split at h
    · cases h
    · rename_i b unread hcall
      have hlt := recvCall_rank hcall b rfl
      cases h
      exact ⟨⟨hrun, by simp [NetPc.Early], hinput, by simp⟩, by simp only [NetPc.rank]; omega⟩
    · cases h
      exact ⟨⟨hrun, id, hinput, by simp⟩, by simp only [NetPc.rank, StopPc.rank]; omega⟩
    · cases h
      dsimp only
      split
      · exact ⟨⟨hrun, id, hinput, by simp⟩, by simp only [NetPc.rank]; omega⟩
      · exact ⟨⟨hrun, id, hinput, by simp⟩, by simp only [NetPc.rank, StopPc.rank]; omega⟩
  case writeSend =>
    simp only [netStep, hp] at h
    split at h
    · cases h
    rename_i msg queue hq
    split at h
    · cases h
    · split at h <;> cases h
      · exact ⟨⟨hrun, id, hinput, by simp⟩, by simp only [NetPc.rank]; omega⟩
      · exact ⟨⟨hrun, id, hinput, by simp⟩, by simp only [NetPc.rank, hq, List.length_cons]; omega⟩
    all_goals cases h
    all_goals exact ⟨⟨hrun, id, hinput, by simp⟩, by simp only [NetPc.rank]; omega⟩
  case stop p =>
    cases x <;> simp only [netStep, hp, Option.some.injEq, reduceCtorEq] at h
    subst h
    have hrank := c.stopStep_rank p
    have hpos := rank_pos p
    obtain ⟨running, socket, closes, sendOpen, heq⟩ := c.stopStep_eq p
    have hrun' : (c.stopStep p).1.running = false := by cases p <;> first | rfl | exact hrun
    rw [heq] at hrun' ⊢
    cases hq : (c.stopStep p).2 with
    | none => exact ⟨⟨hrun', id, hinput, by simp⟩, by simp only [Option.elim_none, NetPc.rank]; omega⟩
    | some q =>
      have hlt := (hrank q hq).1
      exact ⟨⟨hrun', id, hinput, by simp⟩, by simp only [Option.elim_some, NetPc.rank]; omega⟩
  case loop =>
    cases x <;> simp only [netStep, hp, Option.some.injEq, reduceCtorEq] at h
    subst h
    rw [if_neg (by simp [hrun])]
    exact ⟨⟨hrun, id, hinput, by simp⟩, by simp only [NetPc.rank, StopPc.rank]; omega⟩
  all_goals cases x <;> simp only [netStep, hp, Option.some.injEq, Option.ite_none_right_eq_some, reduceCtorEq] at h
  all_goals repeat' split at h
  all_goals first
    | subst h
    | obtain ⟨-, rfl⟩ := h
  all_goals refine ⟨⟨hrun, ?_, hinput, ?_⟩, ?_⟩
  all_goals dsimp only
  all_goals simp_all [NetPc.Early, NetPc.rank, StopPc.rank]
  all_goals omega

theorem inputStep_ending (h : c.inputStep x = some c') (he : c.Ending) : c'.Ending ∧ c'.rank < c.rank := by
  obtain ⟨hrun, hnet, hinput, hwrite⟩ := he
  unfold rank
  cases hp : c.input <;> simp only [hp, InputPc.Leaves] at hinput
  case join =>
    cases x <;> simp only [inputStep, hp, Option.ite_none_right_eq_some, Option.some.injEq, reduceCtorEq] at h
    obtain ⟨-, rfl⟩ := h
    exact ⟨⟨hrun, hnet, trivial, hwrite⟩, by simp [InputPc.rank, StopPc.rank]⟩
  case stop p =>
    cases x <;> simp only [inputStep, hp, Option.some.injEq, reduceCtorEq] at h
    subst h
    have hrank := c.stopStep_rank p
    have hpos := rank_pos p
    obtain ⟨running, socket, closes, sendOpen, heq⟩ := c.stopStep_eq p
    have hrun' : (c.stopStep p).1.running = false := by cases p <;> first | rfl | exact hrun
    rw [heq] at hrun' ⊢
    cases hq : (c.stopStep p).2 with
    | none => exact ⟨⟨hrun', hnet, trivial, hwrite⟩, by simp only [Option.elim_none, InputPc.rank]; omega⟩
    | some q =>
      obtain ⟨hlt, hne⟩ := hrank q hq
      refine ⟨⟨hrun', hnet, ?_, hwrite⟩, by simp only [Option.elim_some, InputPc.rank]; omega⟩
      cases q <;> trivial
  case destroy p =>
    cases x <;> simp only [inputStep, hp, Option.some.injEq, reduceCtorEq] at h
    subst h
    have hrank := c.stopStep_rank p
    have hpos := rank_pos p
    obtain ⟨running, socket, closes, sendOpen, heq⟩ := c.stopStep_eq p
    have hrun' : (c.stopStep p).1.running = false := by cases p <;> first | rfl | exact hrun
    rw [heq] at hrun' ⊢
    cases hq : (c.stopStep p).2 with
    | none => exact ⟨⟨hrun', hnet, trivial, hwrite⟩, by simp only [Option.elim_none, InputPc.rank]; omega⟩
    | some q =>
      have hlt := (hrank q hq).1
      exact ⟨⟨hrun', hnet, trivial, hwrite⟩, by simp only [Option.elim_some, InputPc.rank]; omega⟩
  case done => simp [inputStep, hp] at h

/-- **Every step brings the client nearer to its end.** -/
theorem step_ending (h : c.step (t, x) = some c') (he : c.Ending) : c'.Ending ∧ c'.rank < c.rank := by
  cases t with
  | net => exact netStep_ending h he
  | input => exact inputStep_ending h he

/-! ## No thread is stuck -/

/-- The thread is inside the critical section of `m_sendMutex`. -/
def Holds (c : Client) : Thread → Prop
  | .net => c.net.Holds
  | .input => c.input.Holds

theorem netStep_lock (h : c.netStep x = some c') :
    LockStep .net c.sendMutex c'.sendMutex c.net.Holds c'.net.Holds ∧ c'.input = c.input := by
  cases hp : c.net with
  | connect =>
    cases x <;> simp only [netStep, hp, reduceCtorEq] at h
    rename_i answer
    cases answer <;> simp only at h
    all_goals repeat' split at h
    all_goals simp only [Option.some.injEq, reduceCtorEq] at h
    all_goals subst h
    all_goals exact ⟨.inl ⟨rfl, .rfl⟩, rfl⟩
  | read | writeSend =>
    simp only [netStep, hp] at h
    repeat' split at h
    all_goals simp only [Option.some.injEq, reduceCtorEq] at h
    all_goals subst h
    all_goals dsimp only
    all_goals exact ⟨.inl ⟨rfl, .rfl⟩, rfl⟩
  | stop p =>
    cases x <;> simp only [netStep, hp, Option.some.injEq, reduceCtorEq] at h
    subst h
    obtain ⟨running, socket, closes, sendOpen, heq⟩ := c.stopStep_eq p
    rw [heq]
    cases (c.stopStep p).2 <;> exact ⟨.inl ⟨rfl, .rfl⟩, rfl⟩
  | _ =>
    cases x <;> simp only [netStep, hp, Option.some.injEq, Option.ite_none_right_eq_some, reduceCtorEq] at h
    all_goals first
      | subst h
      | obtain ⟨hm, rfl⟩ := h
    all_goals refine ⟨?_, rfl⟩
    all_goals dsimp only
    all_goals repeat' split
    all_goals first
      | exact .inl ⟨rfl, .rfl⟩
      | exact .inr (.inl ⟨hm, rfl, trivial⟩)
      | exact .inr (.inr ⟨trivial, rfl, id⟩)

theorem inputStep_lock (h : c.inputStep x = some c') :
    LockStep .input c.sendMutex c'.sendMutex c.input.Holds c'.input.Holds := by
  cases hp : c.input with
  | stop p | destroy p =>
    cases x <;> simp only [inputStep, hp, Option.some.injEq, reduceCtorEq] at h
    subst h
    obtain ⟨running, socket, closes, sendOpen, heq⟩ := c.stopStep_eq p
    rw [heq]
    cases (c.stopStep p).2 <;> exact .inl ⟨rfl, .rfl⟩
  | _ =>
    cases x <;> simp only [inputStep, hp, Option.some.injEq, Option.ite_none_right_eq_some, reduceCtorEq] at h
    all_goals repeat' split at h
    all_goals first
      | subst h
      | obtain ⟨hm, rfl⟩ := h
    all_goals first
      | exact .inl ⟨rfl, .rfl⟩
      | exact .inr (.inl ⟨hm, rfl, trivial⟩)
      | exact .inr (.inr ⟨trivial, rfl, id⟩)

theorem step_owned (h : c.step (t, x) = some c') (ho : Owned c.sendMutex c.Holds) : Owned c'.sendMutex c'.Holds := by
  cases t with
  | net =>
    obtain ⟨hl, hinput⟩ := netStep_lock h
    refine ho.step hl fun u hu => ?_
    cases u
    · exact absurd rfl hu
    · simp only [Holds, hinput]
  | input =>
    refine ho.step (inputStep_lock h) fun u hu => ?_
    cases u
    · simp only [Holds, (inputStep_frame h).1]
    · exact absurd rfl hu

/-- A client that has been told to stop has stopped, or can go on. -/
theorem Ending.progress (he : c.Ending) (ho : Owned c.sendMutex c.Holds) : c.input = .done ∨ ∃ i, (c.step i).isSome := by
  obtain ⟨hrun, hnet, hinput, hwrite⟩ := he
  cases hp : c.input <;> simp only [hp, InputPc.Leaves] at hinput
  case done => exact .inl rfl
  case stop p | destroy p => exact .inr ⟨(.input, .go), by simp only [step, inputStep, hp, Option.isSome_some]⟩
  case join =>
    right
    by_cases hd : c.net = .done
    · exact ⟨(.input, .go), by simp [step, inputStep, hp, hd]⟩
    -- the input thread waits for the network thread, which is not held up
    have hfree : ¬ c.net.Holds → c.sendMutex = none := fun hn => by
      by_contra hm
      obtain ⟨t, ht⟩ := Option.ne_none_iff_exists'.1 hm
      cases t with
      | net => exact hn ((ho .net).1 ht)
      | input =>
        have hh : c.input.Holds := (ho .input).1 ht
        rw [hp] at hh
        exact hh
    cases hn : c.net <;> simp only [hn, NetPc.Early, not_true_eq_false, not_false_eq_true] at hnet
    case eventsLock | writeLock => exact ⟨(.net, .go), by simp [step, netStep, hn, hfree (by rw [hn]; exact id)]⟩
    case poll => exact ⟨(.net, .timeout), by simp [step, netStep, hn]⟩
    case read r => exact ⟨(.net, .error .EAGAIN), by simp [step, netStep, hn, recvCall]⟩
    case writeSend =>
      obtain ⟨msg, queue, hq⟩ := List.exists_cons_of_ne_nil (hwrite hn)
      exact ⟨(.net, .error .EAGAIN), by simp [step, netStep, hn, hq, sendCall]⟩
    case done => exact absurd hn hd
    all_goals exact ⟨(.net, .go), by simp [step, netStep, hn]⟩

/-! ## `/quit` -/

/-- After `/quit` the input thread is on its way out, and it has cleared `m_running` for good. -/
structure Heeded (c : Client) : Prop where
  leaves : c.quitting = true → c.input = .stop .store ∨ c.input.Leaves
  running : c.quitting = true → c.input.Leaves → c.running = false ∧ ¬ c.net.Early
  write : c.net = .writeSend → c.sendQueue ≠ []

theorem netStep_heeded (h : c.netStep x = some c') (hh : c.Heeded) : c'.Heeded := by
  obtain ⟨hleaves, hrunning, hwrite⟩ := hh
  have hkeep : c'.input = c.input ∧ c'.quitting = c.quitting ∧
      (c'.running = true → c.running = true ∨ c.net.Early) ∧ (c'.net.Early → c.net.Early) ∧
      (c'.net = .writeSend → c'.sendQueue ≠ []) := by
    cases hp : c.net with
    | connect =>
      cases x <;> simp only [netStep, hp, reduceCtorEq] at h
      rename_i answer
      cases answer <;> simp only at h
      all_goals repeat' split at h
      all_goals simp only [Option.some.injEq, reduceCtorEq] at h
      all_goals subst h
      all_goals exact ⟨rfl, rfl, .inl, fun _ => trivial, by simp⟩
    | read | writeSend =>
      simp only [netStep, hp] at h
      repeat' split at h
      all_goals simp only [Option.some.injEq, reduceCtorEq] at h
      all_goals subst h
      all_goals refine ⟨rfl, rfl, .inl, ?_, ?_⟩
      all_goals simp [NetPc.Early]
    | stop p =>
      cases x <;> simp only [netStep, hp, Option.some.injEq, reduceCtorEq] at h
      subst h
      cases p with
      | test | closeTest => cases hs : c.socket <;> simp [stopStep, hs, NetPc.Early]
      | _ => simp [stopStep, NetPc.Early]
    | _ =>
      cases x <;> simp only [netStep, hp, Option.some.injEq, Option.ite_none_right_eq_some, reduceCtorEq] at h
      all_goals first
        | subst h
        | obtain ⟨-, rfl⟩ := h
      all_goals refine ⟨rfl, rfl, ?_, ?_, ?_⟩
      all_goals dsimp only
      all_goals repeat' split
      all_goals simp_all [NetPc.Early]
  obtain ⟨hi, hq, hr, he, hw⟩ := hkeep
  refine ⟨fun h1 => hi ▸ hleaves (hq ▸ h1), fun h1 h2 => ?_, hw⟩
  obtain ⟨h3, h4⟩ := hrunning (hq ▸ h1) (hi ▸ h2)
  refine ⟨Bool.eq_false_iff.2 fun h5 => ?_, fun h5 => h4 (he h5)⟩
  rcases hr h5 with h6 | h6
  · simp [h3] at h6
  · exact h4 h6

theorem inputStep_heeded (h : c.inputStep x = some c') (hok : c.Late (.input, x)) (hh : c.Heeded) : c'.Heeded := by
  obtain ⟨hleaves, hrunning, hwrite⟩ := hh
  obtain ⟨hnet, -, -, -, hqueue⟩ := inputStep_frame h
  have hw : c'.net = .writeSend → c'.sendQueue ≠ [] := fun hn => hqueue (hwrite (hnet ▸ hn))
  cases hp : c.input with
  | stop p =>
    have hok' : c.input = .stop .store → ¬ c.net.Early := hok
    cases x <;> simp only [inputStep, hp, Option.some.injEq, reduceCtorEq] at h
    subst h
    have hr : c.quitting = true → (c.stopStep p).1.running = false ∧ ¬ c.net.Early := fun h1 => by
      by_cases hs : p = .store
      · subst hs
        exact ⟨rfl, hok' hp⟩
      · have h2 := hrunning h1 (by rw [hp]; cases p <;> trivial)
        cases p with
        | store => exact absurd rfl hs
        | _ => exact h2
    have hl : ((c.stopStep p).2.elim InputPc.join InputPc.stop).Leaves := by
      cases hq : (c.stopStep p).2 with
      | none => trivial
      | some q =>
        have hne := (c.stopStep_rank p q hq).2
        cases q <;> trivial
    obtain ⟨running, socket, closes, sendOpen, heq⟩ := c.stopStep_eq p
    rw [heq] at hr hw ⊢
    exact ⟨fun _ => .inr hl, fun h1 _ => hr h1, hw⟩
  | destroy p =>
    cases x <;> simp only [inputStep, hp, Option.some.injEq, reduceCtorEq] at h
    subst h
    have hr : c.quitting = true → (c.stopStep p).1.running = false ∧ ¬ c.net.Early := fun h1 => by
      have h2 := hrunning h1 (by rw [hp]; trivial)
      cases p <;> first | exact h2 | exact ⟨rfl, h2.2⟩
    have hl : ((c.stopStep p).2.elim InputPc.done InputPc.destroy).Leaves := by cases (c.stopStep p).2 <;> trivial
    obtain ⟨running, socket, closes, sendOpen, heq⟩ := c.stopStep_eq p
    rw [heq] at hr hw ⊢
    exact ⟨fun _ => .inr hl, fun h1 _ => hr h1, hw⟩
  | join =>
    cases x <;> simp only [inputStep, hp, Option.ite_none_right_eq_some, Option.some.injEq, reduceCtorEq] at h
    obtain ⟨-, rfl⟩ := h
    exact ⟨fun _ => .inr trivial, fun h1 _ => hrunning h1 (by rw [hp]; trivial), hw⟩
  | done => simp [inputStep, hp] at h
  | _ =>
    have hno : c.quitting ≠ true := fun h1 => by
      rcases hleaves h1 with h2 | h2 <;> rw [hp] at h2
      · cases h2
      · exact h2
    cases x <;> simp only [inputStep, hp, Option.some.injEq, Option.ite_none_right_eq_some, reduceCtorEq] at h
    all_goals repeat' split at h
    all_goals first
      | subst h
      | obtain ⟨-, rfl⟩ := h
    all_goals first
      | exact ⟨fun h1 => absurd h1 hno, fun h1 => absurd h1 hno, hw⟩
      | exact ⟨fun _ => .inl rfl, fun _ h2 => h2.elim, hw⟩

end Client

/-! ## In every reachable state -/

variable {ok : Client → Thread × Input → Prop} {c : Client}

theorem owned (h : client.Reach ok c) : Owned c.sendMutex c.Holds := by
  refine h.invariant (fun c => Owned c.sendMutex c.Holds) ?_ fun c ⟨t, x⟩ c' _ ih _ hst => Client.step_owned hst ih
  rintro c ⟨stream, rfl⟩
  refine .of_none fun u => ?_
  cases u <;> exact id

theorem heeded (h : client.Reach Client.Late c) : c.Heeded := by
  refine h.invariant Client.Heeded ?_ fun c ⟨t, x⟩ c' _ ih hok hst => ?_
  · rintro c ⟨stream, rfl⟩
    exact ⟨nofun, nofun, nofun⟩
  · cases t with
    | net => exact Client.netStep_heeded hst ih
    | input => exact Client.inputStep_heeded hst hok ih

/-- The client ends: `m_running` is cleared, at most `rank` steps are possible, and after any of them the client has ended
or some thread can make the next one. -/
def Client.Ends (c : Client) : Prop :=
  c.running = false ∧ ∀ is c', client.run c is = some c' →
    is.length ≤ c.rank ∧ (c'.input = .done ∨ ∃ i, (c'.step i).isSome)

/-- **After `/quit` the client ends**, whatever the peer and the calls do, if the `Stop` of the input thread does not come
before the `m_running.store(true)` of `Start`. -/
theorem quit_ends (h : client.Reach Client.Late c) (hq : c.quitting = true) (hl : c.input.Leaves) : c.Ends := by
  obtain ⟨-, hrunning, hwrite⟩ := heeded h
  obtain ⟨hrun, hearly⟩ := hrunning hq hl
  refine ⟨hrun, fun is c' hrun' => ?_⟩
  have hinv : ∀ c i c', c.Ending ∧ Owned c.sendMutex c.Holds → client.step c i = some c' →
      (c'.Ending ∧ Owned c'.sendMutex c'.Holds) ∧ c'.rank < c.rank := by
    rintro c ⟨t, x⟩ c' ⟨he, ho⟩ hst
    obtain ⟨he', hlt⟩ := Client.step_ending hst he
    exact ⟨⟨he', Client.step_owned hst ho⟩, hlt⟩
  obtain ⟨⟨he', ho'⟩, hlen⟩ := System.run_length_le hinv hrun' ⟨⟨hrun, hearly, hl, hwrite⟩, owned h⟩
  exact ⟨by omega, he'.progress ho'⟩

/-- `/quit` while the client polls, before the `Stop` of the input thread tests `m_socket`. -/
def quitConnected : List (Thread × Input) := connect ++ [(Thread.input, Input.line quit), (Thread.input, Input.go)]

theorem quit_ends_connected :
    (client.run (.start []) quitConnected).map (fun c => (c.running, c.rank)) = some (false, 27) ∧
      ∀ c ∈ client.run (.start []) quitConnected, c.Ends := by
  have hinit : client.Reach Client.Late (.start []) := .init ⟨[], rfl⟩
  have hquit : (client.run (.start []) quitConnected).map (fun c => (c.quitting, c.input)) = some (true, .stop .test) := by
    decide +kernel
  refine ⟨by decide +kernel, fun c hc => quit_ends (hinit.run_along hc (by decide +kernel)) ?_ ?_⟩
  all_goals simp only [Option.mem_def.1 hc, Option.map_some, Option.some.injEq, Prod.mk.injEq] at hquit
  · exact hquit.1
  · rw [hquit.2]
    trivial

/-! ## A `/quit` that comes too early -/

/-- The network thread is in the loop, and has not been told of an error. -/
def NetPc.Goes : NetPc → Prop
  | .handle r => r &&& (pollErr ||| pollHup ||| pollNval) = 0
  | .writeUnlock res => res = true
  | .connect | .connectTest | .setNonBlocking | .storeRunning | .stop _ | .done => False
  | _ => True

namespace Client

variable {c c' : Client} {x : Input} {t : Thread}

/-- The connection goes on: neither `poll` nor the calls on the socket report its end. -/
def Calm (_ : Client) : Thread × Input → Prop
  | (.net, .failed) | (.net, .closed) => False
  | (.net, .error e) => e.again = true
  | (.net, .ready r) => r &&& (pollErr ||| pollHup ||| pollNval) = 0
  | _ => True

instance (c : Client) : DecidablePred c.Calm
  | (.net, .failed) | (.net, .closed) => isFalse id
  | (.net, .error e) => inferInstanceAs (Decidable (e.again = true))
  | (.net, .ready r) => inferInstanceAs (Decidable (r &&& (pollErr ||| pollHup ||| pollNval) = 0))
  | (.net, .go) | (.net, .ok) | (.net, .resolved _) | (.net, .timeout) | (.net, .interrupted) | (.net, .count _)
  | (.net, .line _) | (.net, .eof) => isTrue trivial
  | (.input, _) => isTrue trivial

/-- The client runs, while the input thread has called `Stop` or waits for the network thread. -/
structure Lost (c : Client) : Prop where
  running : c.running = true
  input : c.input.Leaves
  waits : ∀ p, c.input ≠ .destroy p ∧ c.input ≠ .done
  net : c.net.Goes

theorem netStep_lost (h : c.netStep x = some c') (hok : c.Calm (.net, x)) (hl : c.Lost) : c'.Lost := by
  obtain ⟨hrun, hinput, hwaits, hnet⟩ := hl
  cases hp : c.net <;> simp only [hp, NetPc.Goes] at hnet
  case loop =>
    cases x <;> simp only [netStep, hp, hrun, if_true, Option.some.injEq, reduceCtorEq] at h
    subst h
    exact ⟨rfl, hinput, hwaits, trivial⟩
  case read r =>
    simp only [netStep, hp] at h
    split at h
    · cases h
    · cases h
      exact ⟨hrun, hinput, hwaits, by simp [NetPc.Goes]⟩
    · rename_i hcall
      cases x <;> simp [recvCall] at hcall
      exact hok.elim
    · rename_i e _ hcall
      have hagain : e.again = true := by
        cases x <;> simp [recvCall] at hcall
        exact hcall.1 ▸ hok
      cases h
      exact ⟨hrun, hinput, hwaits, by simp [hagain, NetPc.Goes]⟩
  case writeSend =>
    simp only [netStep, hp] at h
    split at h
    · cases h
    split at h
    · cases h
    · split at h <;> cases h
      · exact ⟨hrun, hinput, hwaits, rfl⟩
      · exact ⟨hrun, hinput, hwaits, trivial⟩
    · rename_i hcall
      cases x <;> simp [sendCall] at hcall
      exact hok.elim
    · rename_i e hcall
      have hagain : e.again = true := by
        cases x <;> simp [sendCall] at hcall
        exact hcall ▸ hok
      cases h
      exact ⟨hrun, hinput, hwaits, hagain⟩
  all_goals cases x <;> simp only [netStep, hp, Option.some.injEq, Option.ite_none_right_eq_some, reduceCtorEq] at h
  all_goals first
    | subst h
    | obtain ⟨-, rfl⟩ := h
  all_goals refine ⟨hrun, hinput, hwaits, ?_⟩
  all_goals dsimp only
  all_goals repeat' split
  all_goals simp_all [NetPc.Goes, Calm]

theorem inputStep_lost (h : c.inputStep x = some c') (hl : c.Lost) : c'.Lost := by
  obtain ⟨hrun, hinput, hwaits, hnet⟩ := hl
  cases hp : c.input <;> simp only [hp, InputPc.Leaves] at hinput
  case stop p =>
    cases x <;> simp only [inputStep, hp, Option.some.injEq, reduceCtorEq] at h
    subst h
    have hrun' : (c.stopStep p).1.running = true := by cases p <;> first | exact hinput.elim | exact hrun
    have hrank := c.stopStep_rank p
    obtain ⟨running, socket, closes, sendOpen, heq⟩ := c.stopStep_eq p
    rw [heq] at hrun' ⊢
    cases hq : (c.stopStep p).2 with
    | none => exact ⟨hrun', trivial, fun p => ⟨by simp, by simp⟩, hnet⟩
    | some q =>
      have hne := (hrank q hq).2
      exact ⟨hrun', by cases q <;> trivial, fun p => ⟨by simp, by simp⟩, hnet⟩
  case join =>
    cases x <;> simp only [inputStep, hp, Option.ite_none_right_eq_some, Option.some.injEq, reduceCtorEq] at h
    obtain ⟨hd, rfl⟩ := h
    rw [hd] at hnet
    exact hnet.elim
  case destroy p => exact absurd hp (hwaits p).1
  case done => exact absurd hp (hwaits .store).2

theorem step_lost (h : c.step (t, x) = some c') (hok : c.Calm (t, x)) (hl : c.Lost) : c'.Lost := by
  cases t with
  | net => exact netStep_lost h hok hl
  | input => exact inputStep_lost h hl

/-- The input thread destroys the client when the network thread is done. -/
def Joined (c : Client) : Prop := ∀ p, c.input = .destroy p ∨ c.input = .done → c.net = .done

theorem step_joined (h : c.step (t, x) = some c') (hj : c.Joined) : c'.Joined := by
  cases t with
  | net =>
    intro p hp
    rw [(netStep_lock h).2] at hp
    simp [step, netStep, hj p hp] at h
  | input =>
    intro p hp
    rw [(inputStep_frame h).1]
    cases hi : c.input with
    | join =>
      cases x <;> simp only [step, inputStep, hi, Option.ite_none_right_eq_some, reduceCtorEq] at h
      exact h.1
    | destroy q => exact hj q (.inl hi)
    | done => exact hj p (.inr hi)
    | stop q =>
      cases x <;> simp only [step, inputStep, hi, Option.some.injEq, reduceCtorEq] at h
      subst h
      obtain ⟨running, socket, closes, sendOpen, heq⟩ := c.stopStep_eq q
      rw [heq] at hp
      cases hq : (c.stopStep q).2 <;> simp [hq] at hp
    | _ =>
      cases x <;> simp only [step, inputStep, hi, Option.ite_none_right_eq_some, Option.some.injEq, reduceCtorEq] at h
      all_goals repeat' split at h
      all_goals first
        | subst h
        | obtain ⟨-, rfl⟩ := h
      all_goals simp at hp

end Client

theorem joined (h : client.Reach ok c) : c.Joined := by
  refine h.invariant Client.Joined ?_ fun c ⟨t, x⟩ c' _ ih _ hst => Client.step_joined hst ih
  rintro c ⟨stream, rfl⟩ p hp
  simp [Client.start] at hp

/-- **A `/quit` before the `m_running.store(true)` is lost**: that sets `m_running` again, and as long as the connection goes
on the client does. -/
theorem quit_lost {c' : Client} {is : List (Thread × Input)} (h : client.Reachable c) (hl : c.input.Leaves)
    (hnet : c.net = .storeRunning) (hrun : client.run c ((.net, .go) :: is) = some c')
    (hok : client.Along Client.Calm c ((.net, .go) :: is)) : c'.running = true ∧ c'.input ≠ .done := by
  have hst : client.step c (.net, .go) = some { c with running := true, net := .createPoll } := by
    simp [client, Client.step, Client.netStep, hnet]
  have hwaits : ∀ p, c.input ≠ .destroy p ∧ c.input ≠ .done := fun p => by
    have hj := joined h p
    refine ⟨fun hp => ?_, fun hp => ?_⟩
    · simp [hnet] at hj
      exact hj.1 hp
    · simp [hnet] at hj
      exact hj.2 hp
  rw [System.run, hst, Option.bind_some] at hrun
  obtain ⟨-, hok⟩ := hok
  rw [hst] at hok
  have hlost : (client.startedIn { c with running := true, net := .createPoll }).Reach Client.Calm c' :=
    System.reach_startedIn hrun hok
  have hc' : c'.Lost := by
    refine hlost.invariant Client.Lost ?_ fun c tx c' _ ih ho hst' => ?_
    · rintro _ rfl
      exact ⟨rfl, hl, hwaits, trivial⟩
    · obtain ⟨t, x⟩ := tx
      exact Client.step_lost hst' ho ih
  exact ⟨hc'.running, (hc'.waits .store).2⟩

/-- `/quit` while the client connects; then the connection is made. -/
def quitConnecting : List (Thread × Input) :=
  (Thread.input, Input.line quit) :: List.replicate 2 (Thread.input, Input.go) ++
    [(Thread.net, Input.resolved (some [⟨some 3, true⟩])), (Thread.net, Input.go), (Thread.net, Input.ok)]

def connecting : Client := (client.run (.start []) quitConnecting).getD (.start [])

theorem run_connecting : client.run (.start []) quitConnecting = some connecting := rfl

theorem quit_lost_connecting :
    (client.run connecting (List.replicate 6 (Thread.net, Input.go) ++ [(Thread.net, Input.timeout)])).map
        (fun c => (c.quitting, c.input)) = some (true, .join) ∧
      ∀ c ∈ client.run connecting (List.replicate 6 (Thread.net, Input.go) ++ [(Thread.net, Input.timeout)]),
        c.running = true ∧ c.input ≠ .done :=
  ⟨by decide +kernel, fun _ hc => quit_lost (System.reachable_of_run ⟨[], rfl⟩ run_connecting) trivial rfl hc
    (by decide +kernel)⟩

end TcpChat.PollClient
