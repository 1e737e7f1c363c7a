import TcpChat.Framing.Reading
import TcpChat.FramingServer.FanOut
import TcpChat.FramingServer.Isolation

/-!
# What a session reads from its socket

Two threads read from the socket of a session: its `RecvLoop`, and `GracefulShutdown` in the thread that calls `Stop`.

* `Apart` — the step takes no bytes while the other reader is inside a frame;
* `Reads` — what has been read of the bytes `w` of a client are whole frames, with the bytes that a reader has taken of
  the next one, and what was decoded are payloads of these frames, all of them before `Stop` is called;
* `step_reads` — a step that keeps the readers apart keeps this, when the bytes are well framed.
-/

namespace TcpChat.FramingServer

open TcpChat.Framing TcpChat.Lib

/-- The bytes that a `RecvLoop` has taken of a frame it has not finished. -/
def RecvPc.taken : RecvPc → List UInt8
  | .frame r => r.consumed
  | _ => []

/-- The bytes that `GracefulShutdown` of the session `i` has taken of a frame it has not finished. -/
def StopPc.taken (i : ℕ) : StopPc → List UInt8
  | .frame j _ r => if j = i then r.consumed else []
  | _ => []

/-- `GracefulShutdown` of the session `i` has called `recv_frame`, which has returned. -/
def StopPc.Drained (i : ℕ) : StopPc → Prop
  | .close j _ => j = i
  | _ => False

/-- The `RecvLoop` may call `recv_frame` again. -/
def RecvPc.Reading : RecvPc → Prop
  | .endStore | .endLock | .endNotifyEmpty | .endNotifyFull | .endUnlock | .done => False
  | _ => True

instance (i : ℕ) : DecidablePred (StopPc.Drained i) := fun p =>
  decidable_of_iff (p matches .close _ _ ∧ p.sessions.head? = some i) (by
    cases p <;> simp [StopPc.Drained, StopPc.sessions])

namespace Server

/-- A reader does not take bytes while the other one is inside a frame, nor the `RecvLoop` any when `GracefulShutdown`
has read. -/
def Apart (s : Server) : Thread × Input → Prop
  | (.recv i, .count _) => s.stop.taken i = [] ∧ ¬ s.stop.Drained i
  | (.stop, .count _) => ∀ i ∈ s.stop.sessions.head?, (s.recv i).taken = []
  | _ => True

instance (s : Server) : DecidablePred s.Apart
  | (.recv _, .count _) => inferInstanceAs (Decidable (_ ∧ _))
  | (.stop, .count _) => inferInstanceAs (Decidable (∀ i ∈ s.stop.sessions.head?, _))
  | (.accept _, _) | (.send _, _) => isTrue trivial
  | (.recv _, .go) | (.recv _, .accepted _) | (.recv _, .refused) | (.recv _, .closed) | (.recv _, .error _)
  | (.recv _, .wake _) => isTrue trivial
  | (.stop, .go) | (.stop, .accepted _) | (.stop, .refused) | (.stop, .closed) | (.stop, .error _)
  | (.stop, .wake _) => isTrue trivial

/-- What has been read of the bytes `w` that the client of the session `i` has written. -/
structure Reads (s : Server) (i : ℕ) (w : List UInt8) : Prop where
  recv : ∀ r, s.recv i = .frame r → r.Open
  stop : ∀ rest r, s.stop = .frame i rest r → r.Open
  frames : ∃ ps : List (List UInt8), (∀ p ∈ ps, ValidPayload p) ∧ (s.sess i).decoded.Sublist ps ∧
    (s.stop = .idle → (s.sess i).decoded = ps) ∧ (ps.map frame).flatten <+: w ∧
    ((s.recv i).Reading → (s.sess i).valid = true → ¬ s.stop.Drained i →
      w = (ps.map frame).flatten ++ (s.stop.taken i ++ (s.recv i).taken ++ (s.sess i).unread))

variable {s s' : Server} {t : Thread} {x : Input} {i : ℕ} {w out : List UInt8}

/-- The client writes more. -/
theorem Reads.append (h : s.Reads i w) (hs' : s'.recv i = s.recv i) (hstop : s'.stop = s.stop)
    (hsess : s'.sess i = { s.sess i with unread := (s.sess i).unread ++ out }) : s'.Reads i (w ++ out) := by
  obtain ⟨hrecv, hst, ps, hps, hsub, hall, hpre, heq⟩ := h
  refine ⟨hs' ▸ hrecv, hstop ▸ hst, ps, hps, by rw [hsess]; exact hsub, by rw [hstop, hsess]; exact hall,
    hpre.trans (List.prefix_append _ _), ?_⟩
  rw [hs', hstop, hsess]
  intro hr hv hd
  simp [heq hr hv hd]

/-- The call of `recv` takes no bytes, or some that `w` has next. -/
theorem recvCall_reads {c : Session} {r : FrameReader} {res : RecvResult} {unread : List UInt8}
    (h : c.recvCall r.wants x = some (res, unread)) :
    unread = c.unread ∧ (r.turn res = .again r ∨ r.turn res = .ret none) ∨
      (∃ n, x = .count n) ∧ c.valid = true ∧
        ∃ b, b ≠ [] ∧ b.length ≤ r.wants ∧ res = .bytes b ∧ c.unread = b ++ unread := by
  cases x <;> simp only [Session.recvCall, Option.ite_none_right_eq_some, Option.some.injEq, Prod.mk.injEq,
    reduceCtorEq] at h
  case count n =>
    obtain ⟨⟨hv, hn, hw, hu⟩, rfl, rfl⟩ := h
    have hlen : (c.unread.take n).length = n := List.length_take_of_le hu
    exact .inr ⟨⟨n, rfl⟩, hv, _, List.length_pos_iff.1 (by omega), by omega, rfl, (List.take_append_drop n _).symm⟩
  case closed =>
    obtain ⟨hu, rfl, rfl⟩ := h
    exact .inl ⟨hu.symm, .inr rfl⟩
  case error e =>
    obtain ⟨rfl, rfl⟩ := h
    refine .inl ⟨rfl, ?_⟩
    simp only [FrameReader.turn]
    split
    · exact .inl rfl
    · exact .inr rfl

/-! ## The steps -/

/-- The other threads leave the reading side of a session alone. -/
theorem step_stream (h : s.step (t, x) = some s') (hi : i < s.count) (ht : t ≠ .recv i) (hstop : t ≠ .stop) :
    (s'.sess i).unread = (s.sess i).unread ∧ (s'.sess i).valid = (s.sess i).valid := by
  cases t <;> simp only [step, acceptStep, recvStep, sendStep] at h
  case stop => exact absurd rfl hstop
  all_goals repeat' split at h
  all_goals simp only [Option.some.injEq, reduceCtorEq] at h
  all_goals subst h
  all_goals simp only [setAccept, setRecv, setSend, modify, Function.update_apply]
  all_goals grind -linarith

/-- Outside `recv_frame` the `RecvLoop` reads nothing. -/
theorem recvStep_elsewhere (h : s.recvStep i x = some s') (hp : ∀ r, s.recv i ≠ .frame r) :
    (s'.sess i).unread = (s.sess i).unread ∧ (s'.sess i).valid = (s.sess i).valid ∧
      (s'.sess i).decoded = (s.sess i).decoded ∧ (s.recv i).taken = [] ∧ (s'.recv i).taken = [] ∧
      ((s'.recv i).Reading → (s.recv i).Reading) ∧ ∀ r, s'.recv i = .frame r → r = .start := by
  unfold recvStep at h
  repeat' split at h
  all_goals simp only [Option.some.injEq, reduceCtorEq] at h
  all_goals subst h
  all_goals first
    | exact absurd ‹_› (hp _)
    | skip
  all_goals simp only [setRecv, modify, Function.update_self, Function.update_apply, *]
  all_goals grind -linarith [RecvPc.taken, RecvPc.Reading, FrameReader.start, FrameReader.consumed]

/-- `Stop` runs once. -/
theorem stopStep_not_idle (h : s.stopStep x = some s') : s'.stop ≠ .idle := by
  unfold stopStep at h
  repeat' split at h
  all_goals simp only [Option.some.injEq, reduceCtorEq] at h
  all_goals subst h
  all_goals simp [setStop]

/-- Outside the `recv_frame` of `GracefulShutdown` of the session `i`, `Stop` reads nothing from it. -/
theorem stopStep_elsewhere (h : s.stopStep x = some s') (hp : ∀ rest r, s.stop ≠ .frame i rest r) :
    (s'.sess i).unread = (s.sess i).unread ∧ (s'.sess i).decoded = (s.sess i).decoded ∧ s.stop.taken i = [] ∧
      s'.stop.taken i = [] ∧ (∀ rest r, s'.stop = .frame i rest r → r = .start) ∧
      ((s'.sess i).valid = true → (s.sess i).valid = true ∧ ¬ s.stop.Drained i) := by
  unfold stopStep at h
  repeat' split at h
  all_goals simp only [Option.some.injEq, reduceCtorEq] at h
  all_goals subst h
  all_goals simp only [setStop, modify, Function.update_apply, *]
  all_goals grind -linarith [StopPc.taken, StopPc.Drained, FrameReader.start, FrameReader.consumed]

/-- The `RecvLoop` in its `recv_frame`. -/
theorem Reads.frame_step {r : FrameReader} (hr : s.Reads i w) (hp : s.recv i = .frame r) (hw : WellFramed w)
    (h : s.recvStep i x = some s') (hok : s.Apart (.recv i, x)) : s'.Reads i w := by
  have hstop := (step_pc (t := .recv i) h).stop nofun
  obtain ⟨hrecv, hst, ps, hps, hsub, hall, hpre, heq⟩ := hr
  have hopen := hrecv r hp
  simp only [hp, RecvPc.taken] at heq
  simp only [recvStep, hp] at h
  split at h
  · cases h
  rename_i res unread hcall
  rcases recvCall_reads hcall with ⟨rfl, hturn | hturn⟩ | ⟨⟨n, rfl⟩, hv, b, hb, hle, rfl, hu⟩
  · rw [hturn] at h
    cases h
    refine ⟨fun r' h' => ?_, hst, ps, hps, ?_, ?_, hpre, fun _ => ?_⟩
    · simp only [setRecv, Function.update_self, RecvPc.frame.injEq] at h'
      exact h' ▸ hopen
    · simpa [setRecv, modify] using hsub
    · simpa [setRecv, modify] using hall
    · simpa [setRecv, modify, RecvPc.taken] using heq trivial
  · rw [hturn] at h
    cases h
    refine ⟨fun r' h' => ?_, hst, ps, hps, ?_, ?_, hpre, fun hread => ?_⟩
    · simp [setRecv] at h'
    · simpa [setRecv, modify] using hsub
    · simpa [setRecv, modify] using hall
    · simp [setRecv, RecvPc.Reading] at hread
  · obtain ⟨htaken, hdrained⟩ : s.stop.taken i = [] ∧ ¬ s.stop.Drained i := hok
    have hread := FrameReader.turn_reads hopen hb hle hps hw
      (by rw [heq trivial hv hdrained, htaken, List.nil_append, hu])
    have hturn : ∀ r', r.turn (.bytes b) = .again r' → r'.Open := fun _ => FrameReader.open_turn hopen
    split at h <;> rename_i ht <;> rw [ht] at hread <;> cases h
    · refine ⟨fun r' h' => ?_, hst, ps, hps, ?_, ?_, hpre, fun _ _ _ => ?_⟩
      · simp only [setRecv, Function.update_self, RecvPc.frame.injEq] at h'
        exact h' ▸ hturn _ ht
      · simpa [setRecv, modify] using hsub
      · simpa [setRecv, modify] using hall
      · simpa [setRecv, modify, RecvPc.taken, htaken] using hread
    · exact hread.elim
    · -- a frame has been read
      rename_i msg
      obtain ⟨hvalid, hread⟩ := hread
      refine ⟨fun r' h' => ?_, hst, ps ++ [msg], fun p hp => ?_, ?_, ?_, hread ▸ List.prefix_append _ _,
        fun _ _ _ => ?_⟩
      · simp [setRecv] at h'
      · rcases List.mem_append.1 hp with hp | hp
        · exact hps p hp
        · exact List.mem_singleton.1 hp ▸ hvalid
      · simpa [setRecv, modify] using hsub
      · simpa [setRecv, modify] using hall
      · simpa [setRecv, modify, RecvPc.taken, htaken] using hread

/-- `GracefulShutdown` in its `recv_frame`. -/
theorem Reads.drain_step {rest : List ℕ} {r : FrameReader} (hr : s.Reads i w) (hp : s.stop = .frame i rest r)
    (hw : WellFramed w) (h : s.stopStep x = some s') (hok : s.Apart (.stop, x)) : s'.Reads i w := by
  have hpc := (step_pc (t := .stop) h).recv i (by simp)
  obtain ⟨hrecv, hst, ps, hps, hsub, -, hpre, heq⟩ := hr
  have hopen := hst rest r hp
  simp only [hp, StopPc.taken, if_true] at heq
  simp only [stopStep, hp] at h
  split at h
  · cases h
  rename_i res unread hcall
  have hdec : ∀ p, (((s.modify i fun c => { c with unread := unread }).setStop p).sess i).decoded = (s.sess i).decoded :=
    fun p => by simp [setStop, modify]
  -- the turn ends the call
  have hclose : ((s.modify i fun c => { c with unread := unread }).setStop (.close i rest)).Reads i w :=
    ⟨hrecv, by simp [setStop], ps, hps, hdec _ ▸ hsub, by simp [setStop], hpre, fun _ _ hd => absurd rfl hd⟩
  rcases recvCall_reads hcall with ⟨rfl, hturn | hturn⟩ | ⟨⟨n, rfl⟩, hv, b, hb, hle, rfl, hu⟩
  · rw [hturn] at h
    cases h
    refine ⟨hrecv, fun rest' r' h' => ?_, ps, hps, hdec _ ▸ hsub, by simp [setStop], hpre, fun hread hvalid _ => ?_⟩
    · simp only [setStop, StopPc.frame.injEq] at h'
      exact h'.2.2 ▸ hopen
    · have := heq hread (by simpa [setStop, modify] using hvalid) (by simp [StopPc.Drained])
      simpa [setStop, modify, StopPc.taken] using this
  · rw [hturn] at h
    cases h
    exact hclose
  · have htaken : (s.recv i).taken = [] := hok i (by simp [hp, StopPc.sessions])
    split at h <;> rename_i ht <;> cases h
    · refine ⟨hrecv, fun rest' r' h' => ?_, ps, hps, hdec _ ▸ hsub, by simp [setStop], hpre, fun hread _ _ => ?_⟩
      · simp only [setStop, StopPc.frame.injEq] at h'
        exact h'.2.2 ▸ FrameReader.open_turn hopen ht
      · have hnow := FrameReader.turn_reads hopen hb hle hps hw
          (by rw [heq hread hv (by simp [StopPc.Drained]), htaken, List.append_nil, hu])
        rw [ht] at hnow
        simpa [setStop, modify, StopPc.taken, htaken] using hnow
    · exact hclose

/-- A session is made by `accept` only. -/
theorem step_made (h : s.step (t, x) = some s') :
    s'.count = s.count ∨ (∃ k, t = .accept k) ∧ s'.count = s.count + 1 ∧
      ∃ stream, x = .accepted stream ∧ s'.sess s.count = Session.new stream := by
  cases t with
  | accept k =>
    simp only [step] at h
    unfold acceptStep at h
    repeat' split at h
    all_goals simp only [Option.some.injEq, reduceCtorEq] at h
    all_goals subst h
    all_goals first
      | exact .inl rfl
      | exact .inr ⟨⟨k, rfl⟩, rfl, _, rfl, Function.update_self _ _ _⟩
  | recv i => exact .inl (recvStep_frame h).1
  | send i => exact .inl (sendStep_frame h).1
  | stop => exact .inl (stopStep_frame h).1

/-- Of a session that has just been made nothing has been read. -/
theorem reads_new (h : s.step (t, .accepted w) = some s') (hf : s.Fresh) (hc : s'.count = s.count + 1) :
    s'.Reads s.count w := by
  have hpc := step_pc h
  obtain hsame | ⟨⟨k, rfl⟩, -, stream, heq, hsess⟩ := step_made h
  · omega
  obtain rfl : w = stream := Input.accepted.inj heq
  have hoff := (hf.blank s.count le_rfl).2.1
  have hno : ∀ rest r, s.stop ≠ .frame s.count rest r := fun rest r hp => by
    have := hf.stop s.count (by simp [hp, StopPc.sessions])
    exact Nat.lt_irrefl _ this
  have htaken : s.stop.taken s.count = [] := by
    cases hp : s.stop <;> simp only [StopPc.taken]
    exact if_neg fun he => hno _ _ (he ▸ hp)
  refine ⟨fun r hp => ?_, fun rest r hp => ?_, [], by simp, ?_, fun _ => ?_, List.nil_prefix, fun _ _ _ => ?_⟩
  · rw [hpc.recv _ nofun, hoff] at hp
    cases hp
  · rw [hpc.stop nofun] at hp
    exact absurd hp (hno rest r)
  · simp [hsess, Session.new]
  · simp [hsess, Session.new]
  · rw [hpc.recv _ nofun, hoff, hpc.stop nofun, htaken, hsess]
    rfl

/-- **A step that keeps the readers apart.** -/
theorem step_reads (hr : s.Reads i w) (hf : s.Fresh) (hi : i < s.count) (hw : WellFramed w)
    (h : s.step (t, x) = some s') (hok : s.Apart (t, x)) : s'.Reads i w := by
  have hpc := step_pc h
  by_cases ht : t = .recv i
  · subst ht
    by_cases hp : ∃ r, s.recv i = .frame r
    · obtain ⟨r, hp⟩ := hp
      exact hr.frame_step hp hw h hok
    · obtain ⟨hu, hv, hd, ht, ht', hread, hstart⟩ := recvStep_elsewhere h fun r hp' => hp ⟨r, hp'⟩
      obtain ⟨-, hst, ps, hps, hsub, hall, hpre, heq⟩ := hr
      rw [← hpc.stop nofun] at hst hall heq
      refine ⟨fun r hp => hstart r hp ▸ FrameReader.open_start, hst, ps, hps, hd ▸ hsub, hd ▸ hall, hpre,
        fun hread' => ?_⟩
      rw [hv, hu, ht', ← ht]
      exact heq (hread hread')
  by_cases hstop : t = .stop
  · subst hstop
    by_cases hp : ∃ rest r, s.stop = .frame i rest r
    · obtain ⟨rest, r, hp⟩ := hp
      exact hr.drain_step hp hw h hok
    · obtain ⟨hu, hd, ht, ht', hstart, hv⟩ := stopStep_elsewhere (i := i) h fun rest r hp' => hp ⟨rest, r, hp'⟩
      obtain ⟨hrecv, -, ps, hps, hsub, -, hpre, heq⟩ := hr
      rw [← hpc.recv i nofun] at hrecv heq
      refine ⟨hrecv, fun rest r hp => hstart rest r hp ▸ FrameReader.open_start, ps, hps, hd ▸ hsub,
        fun hidle => absurd hidle (stopStep_not_idle h), hpre, fun hread hvalid _ => ?_⟩
      obtain ⟨hvalid, hdrained⟩ := hv hvalid
      rw [hu, ht', ← ht]
      exact heq hread hvalid hdrained
  · obtain ⟨hu, hv⟩ := step_stream h hi ht hstop
    obtain ⟨hrecv, hst, ps, hps, hsub, hall, hpre, heq⟩ := hr
    rw [← hpc.recv i ht] at hrecv heq
    rw [← hpc.stop hstop] at hst hall heq
    refine ⟨hrecv, hst, ps, hps, (step_history h hf ht).1 ▸ hsub, (step_history h hf ht).1 ▸ hall, hpre, ?_⟩
    rw [hu, hv]
    exact heq

end Server

end TcpChat.FramingServer
