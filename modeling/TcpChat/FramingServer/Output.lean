import TcpChat.Framing.Emission
import TcpChat.FramingServer.Safety

/-!
# What a session writes to its socket

* `decoded_length` — a payload from `recv_frame` has at most `MAX_PAYLOAD` bytes, also the empty one;
* `emitted` — the bytes written are those of the frames of the messages handed to `send_frame`, up to the one in which
  `send_frame` has failed or stands;
* `wire_framed` — what a client is sent is, in every run, the beginning of well-formed frames of messages of the others,
  and those of each of them are a segment of what its session decoded.
-/

namespace TcpChat.FramingServer

open TcpChat.Framing TcpChat.Lib

/-- Where the `SendLoop` stands with `send_frame`. -/
def SendPc.emitting : SendPc → Emitting
  | .frame msg w => .frame msg.body w
  | .failStore | .failNotifyEmpty | .failNotifyFull | .done => .ended
  | _ => .idle

/-- The `recv_frame` in progress. -/
def RecvPc.reader : RecvPc → Option FrameReader
  | .frame r => some r
  | _ => none

namespace Session

variable {c : Session} {x : Input} {w : ℕ} {unread out data : List UInt8} {res : SendResult} {r : FrameReader}
  {msg : List UInt8} {rres : RecvResult}

/-- A payload that `recv_frame` returns. -/
theorem recvCall_payload (hr : r.Open) (h : c.recvCall r.wants x = some (rres, unread))
    (ht : r.turn rres = .ret (some msg)) : msg.length ≤ maxPayload := by
  cases x <;> simp only [recvCall, Option.ite_none_right_eq_some, Option.some.injEq, Prod.mk.injEq, reduceCtorEq] at h
  case count n =>
    obtain ⟨⟨-, -, hw, hu⟩, rfl, -⟩ := h
    have hlen : (c.unread.take n).length = n := List.length_take_of_le hu
    cases r with
    | size read =>
      simp only [FrameReader.turn] at ht
      repeat' split at ht
      all_goals simp only [Turn.ret.injEq, Option.some.injEq, reduceCtorEq] at ht
      exact ht ▸ Nat.zero_le _
    | payload k read =>
      simp only [FrameReader.turn] at ht
      split at ht <;> simp only [Turn.ret.injEq, Option.some.injEq, reduceCtorEq] at ht
      simp only [FrameReader.Open] at hr
      simp only [FrameReader.wants] at hw
      rw [← ht, List.length_append, hlen]
      omega
  case closed =>
    obtain ⟨-, rfl, -⟩ := h
    simp [FrameReader.turn] at ht
  case error e =>
    obtain ⟨rfl, -⟩ := h
    simp only [FrameReader.turn] at ht
    split at ht <;> simp at ht

/-- A call of `send` inside `send_frame`. -/
theorem sendCall_turn {handed : List (List UInt8)} {wire : List UInt8} {w : FrameWriter}
    (h : c.sendCall (w.offer msg) x = some (res, out)) (he : Emitted handed wire (.frame msg w)) :
    Emitted handed (wire ++ out) (match w.turn msg res with
      | .again w' => .frame msg w'
      | .ret true => .idle
      | .ret false => .ended) := by
  cases x <;> simp only [sendCall, Option.ite_none_right_eq_some, Option.some.injEq, Prod.mk.injEq, reduceCtorEq] at h
  case count n =>
    obtain ⟨⟨-, -, hn⟩, rfl, rfl⟩ := h
    exact he.turn hn
  case closed =>
    obtain ⟨rfl, rfl⟩ := h
    simpa [FrameWriter.turn] using he.toEnded
  case error e =>
    obtain ⟨rfl, rfl⟩ := h
    rw [List.append_nil, FrameWriter.turn]
    split <;> rename_i heq <;> split at heq <;> cases heq
    · exact he
    · exact he.toEnded

end Session

namespace Server

variable {s s' : Server} {t : Thread} {x : Input} {i r : ℕ}

/-- A `RecvLoop` reads with an open `recv_frame`, and decodes payloads of at most `MAX_PAYLOAD` bytes. -/
def Sized (s : Server) (i : ℕ) : Prop :=
  (∀ r ∈ (s.recv i).reader, r.Open) ∧ ∀ msg ∈ (s.sess i).decoded, msg.length ≤ maxPayload

theorem recvStep_sized (h : s.recvStep i x = some s') (hs : s.Sized i) : s'.Sized i := by
  obtain ⟨hopen, hlen⟩ := hs
  by_cases hp : ∃ r, s.recv i = .frame r
  · obtain ⟨r, hp⟩ := hp
    have hr : r.Open := hopen r (by rw [hp]; rfl)
    simp only [recvStep, hp] at h
    split at h
    · cases h
    · rename_i res unread hcall
      split at h <;> rename_i hturn <;> cases h
      · refine ⟨?_, by simpa [setRecv, modify] using hlen⟩
        simpa [setRecv, RecvPc.reader] using FrameReader.open_turn hr hturn
      · refine ⟨?_, by simpa [setRecv, modify] using hlen⟩
        simp [setRecv, RecvPc.reader]
      · refine ⟨by simp [setRecv, RecvPc.reader], ?_⟩
        simp only [setRecv, modify, Function.update_self, List.mem_append, List.mem_singleton]
        rintro msg (hm | rfl)
        · exact hlen msg hm
        · exact Session.recvCall_payload hr hcall hturn
  · have hd : (s'.sess i).decoded = (s.sess i).decoded ∧ ∀ r ∈ (s'.recv i).reader, r = .start := by
      unfold recvStep at h
      repeat' split at h
      all_goals simp only [Option.some.injEq, reduceCtorEq] at h
      all_goals subst h
      all_goals first
        | exact absurd ⟨_, ‹_›⟩ hp
        | skip
      all_goals simp only [setRecv, modify, Function.update_self, Function.update_apply]
      all_goals grind -linarith [RecvPc.reader]
    exact ⟨fun r hr => hd.2 r hr ▸ FrameReader.open_start, hd.1 ▸ hlen⟩

/-- Only its `SendLoop` writes to the socket of a session. -/
theorem step_output (h : s.step (t, x) = some s') (hf : s.Fresh) (ht : t ≠ .send r) :
    (s'.sess r).handed = (s.sess r).handed ∧ (s'.sess r).wire = (s.sess r).wire := by
  have hb := (hf.blank s.count le_rfl).1
  cases t <;> simp only [step, acceptStep, recvStep, sendStep, stopStep] at h
  all_goals repeat' split at h
  all_goals simp only [Option.some.injEq, reduceCtorEq] at h
  all_goals subst h
  all_goals simp only [setAccept, setRecv, setSend, setStop, modify, Function.update_apply]
  all_goals grind -linarith [Session.new]

/-- What the `SendLoop` of the session `r` hands to `send_frame` and writes. -/
def Written (s : Server) (r : ℕ) : Prop :=
  Emitted ((s.sess r).handed.map Msg.body) (s.sess r).wire (s.send r).emitting

theorem sendStep_written (h : s.sendStep i x = some s') (hw : s.Written i)
    (hlen : ∀ m ∈ (s.send i).popped, m.body.length ≤ maxPayload) : s'.Written i := by
  unfold Written at hw ⊢
  cases hp : s.send i with
  | unlock msg =>
    rw [hp] at hw hlen
    cases x <;> simp only [sendStep, hp, reduceCtorEq] at h
    have hstart := Emitted.start hw (hlen msg rfl)
    split at h <;> rename_i heq <;> rw [heq] at hstart <;> cases h
    all_goals simpa [setSend, modify, SendPc.emitting] using hstart
  | frame msg w =>
    rw [hp] at hw
    simp only [sendStep, hp] at h
    split at h
    · cases h
    · rename_i res out hcall
      have hturn := Session.sendCall_turn hcall hw
      split at h <;> rename_i heq <;> rw [heq] at hturn <;> cases h
      all_goals simpa [setSend, modify, SendPc.emitting] using hturn
  | breakUnlock =>
    rw [hp] at hw
    cases x <;> simp only [sendStep, hp, reduceCtorEq, Option.some.injEq] at h
    subst h
    simpa [setSend, modify, SendPc.emitting] using hw.toEnded
  | pop =>
    rw [hp] at hw
    cases x <;> simp only [sendStep, hp, reduceCtorEq] at h
    split at h <;> simp only [Option.some.injEq, reduceCtorEq] at h
    subst h
    simpa [setSend, modify, SendPc.emitting] using hw
  | _ =>
    rw [hp] at hw
    cases x <;> simp only [sendStep, hp, Option.some.injEq, Option.ite_none_right_eq_some, reduceCtorEq] at h
    all_goals first
      | subst h
      | obtain ⟨-, rfl⟩ := h
    all_goals simp only [setSend, modify, Function.update_self]
    all_goals first
      | exact hw
      | (split <;> exact hw)

end Server

/-! ## In every reachable state -/

variable {ok : Server → Thread × Input → Prop} {s : Server}

/-- What `recv_frame` hands to `BroadcastMsg` has at most `MAX_PAYLOAD` bytes. -/
theorem decoded_length (h : server.Reach ok s) (i : ℕ) : s.Sized i := by
  refine h.invariant (fun s => s.Sized i) ?_ ?_
  · rintro s ⟨n, rfl⟩
    simp [Server.Sized, Server.start, Session.new, RecvPc.reader]
  · rintro s ⟨t, x⟩ s' hr ih - hst
    by_cases ht : t = .recv i
    · subst ht
      exact Server.recvStep_sized hst ih
    · rw [Server.Sized, (Server.step_pc hst).recv i ht, (Server.step_history hst (fresh hr) ht).1]
      exact ih

/-- What a session received has been decoded by the session it is from. -/
theorem received_decoded (h : server.Reach ok s) {r : ℕ} {m : Msg} (hm : m ∈ s.received r) :
    m.body ∈ (s.sess m.src).decoded := by
  have hlog : m.body ∈ s.log m.src r := List.mem_map_of_mem (List.mem_filter.2 ⟨hm, by simp⟩)
  have hdue : m.body ∈ s.due m.src r := by
    rcases delivered h m.src r with heq | ⟨-, hpre, -⟩
    · exact heq ▸ hlog
    · exact hpre.subset hlog
  unfold Server.due at hdue
  split at hdue
  · cases hdue
  · exact List.mem_of_mem_take (List.mem_of_mem_drop hdue)

/-- What the `SendLoop` writes are the frames of what it hands to `send_frame`. -/
theorem emitted (h : server.Reach ok s) (r : ℕ) : s.Written r := by
  refine h.invariant (fun s => s.Written r) ?_ ?_
  · rintro s ⟨n, rfl⟩
    exact emitted_nil
  · rintro s ⟨t, x⟩ s' hr ih - hst
    by_cases ht : t = .send r
    · subst ht
      refine Server.sendStep_written hst ih fun m hm => (decoded_length hr m.src).2 _ (received_decoded hr (r := r) ?_)
      simp [Server.received, Option.mem_toList.2 hm]
    · rw [Server.Written, (Server.step_pc hst).send r ht, (Server.step_output hst (fresh hr) ht).1,
        (Server.step_output hst (fresh hr) ht).2]
      exact ih

/-- The messages handed to `send_frame` whose frames cover what is written. -/
theorem wire_messages (h : server.Reach ok s) (r : ℕ) :
    ∃ ms, ms <+: (s.sess r).handed ∧ (∀ m ∈ ms, ValidPayload m.body) ∧
      (s.sess r).wire <+: ((ms.map Msg.body).map frame).flatten := by
  obtain ⟨ps, hps, hv, hw⟩ := (emitted h r).framed
  obtain ⟨ms, hms, rfl⟩ := List.prefix_map_iff.1 hps
  exact ⟨ms, hms, fun m hm => hv _ (List.mem_map_of_mem hm), hw⟩

/-- The first messages that a session received, from one sender. -/
theorem log_prefix_segment (h : server.Reach ok s) {r : ℕ} {ms : List Msg} (hms : ms <+: s.received r) (i : ℕ) :
    ∃ k n, (ms.filter fun m => m.src = i).map Msg.body = ((s.sess i).decoded.take n).drop k := by
  have hpre : (ms.filter fun m => m.src = i).map Msg.body <+: s.log i r := (hms.filter _).map _
  have hsafe := ((delivered h i r).segment (tally h i) (received_src h r)).1
  split at hsafe
  · exact ⟨0, 0, by rw [hsafe] at hpre; simpa using hpre⟩
  · rename_i k hk
    obtain ⟨m, hkm, hm, hlog, -⟩ := hsafe
    obtain ⟨n, -, -, heq⟩ := Server.eq_segment_of_prefix (hlog ▸ hpre) hkm hm
    exact ⟨k, n, heq⟩

/-- What is sent to the client of the session `r` is the beginning of well-formed frames of messages of the others, of
which those of a sender are a segment of what its session decoded. -/
def Server.SendsFrames (s : Server) (r : ℕ) : Prop :=
  ∃ ms : List Msg, (∀ m ∈ ms, ValidPayload m.body ∧ m.src ≠ r) ∧
    (s.sess r).wire <+: ((ms.map Msg.body).map frame).flatten ∧
    ∀ i, ∃ k n, (ms.filter fun m => m.src = i).map Msg.body = ((s.sess i).decoded.take n).drop k

/-- **What a client is sent, in every run.** -/
theorem wire_framed (h : server.Reachable s) (r : ℕ) : s.SendsFrames r := by
  obtain ⟨ms, hms, hv, hw⟩ := wire_messages h r
  have hrec : ms <+: s.received r := by
    rw [Server.received, List.append_assoc]
    exact hms.trans (List.prefix_append _ _)
  exact ⟨ms, fun m hm => ⟨hv m hm, received_src h r m (hrec.subset hm)⟩, hw, log_prefix_segment h hrec⟩

/-- The first of two clients sends one byte, and the second one is sent the length field of its frame. -/
def passSize : List (Thread × Input) :=
  passByte ++ List.replicate 2 (Thread.send 1, Input.go) ++ [(Thread.send 1, Input.count 3)]

theorem wire_framed_size :
    (server.run (twoClients (frame [104])) passSize).map (fun s => (s.sess 1).wire) = some [0, 0, 0] ∧
    ∀ s ∈ server.run (twoClients (frame [104])) passSize, s.SendsFrames 1 := by
  refine ⟨by decide +kernel, fun s hs => wire_framed ?_ 1⟩
  exact (reachable_twoClients (frame [104])).run_along hs (System.along_true _ _)

end TcpChat.FramingServer
