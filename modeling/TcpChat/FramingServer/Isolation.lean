import TcpChat.FramingServer.Registry

/-!
# What one client can do to the others

* `OthersBehave a` — every client but that of the session `a` sends well-formed frames, its socket reports no
  closure and no hard error, and nobody calls `Stop`;
* `NoEmptyCast a` — the session `a` broadcasts no empty message to anyone;
* `others_go_on` — under both, every other session goes on;
* `ended_by_empty` — one empty frame of `a` ends every session it is broadcast to.
-/

namespace TcpChat.FramingServer

open TcpChat.Framing TcpChat.Lib

/-! ## The conditions -/

/-- The call on a socket did not report a closure or a hard error. -/
def Input.Soft : Input → Prop
  | .closed => False
  | .error e => e.again = true
  | _ => True

instance : DecidablePred Input.Soft
  | .closed => isFalse id
  | .error _ => inferInstanceAs (Decidable (_ = _))
  | .go | .accepted _ | .refused | .count _ | .wake _ => isTrue trivial

namespace Server

/-- The clients of the sessions other than `a` send well-formed frames and stay connected, and nobody stops the
server. -/
def OthersBehave (a : ℕ) (s : Server) : Thread × Input → Prop
  | (.accept _, .accepted stream) => s.count = a ∨ WellFramed stream
  | (.recv b, x) | (.send b, x) => b = a ∨ x.Soft
  | (.stop, _) => False
  | _ => True

/-- When `BroadcastMsg` copies `m_clients` for an empty message of the session `a`, no other session is in it. -/
def NoEmptyCast (a : ℕ) (s : Server) : Thread × Input → Prop
  | (.recv i, _) => i = a → s.recv a = .castCopy [] → ∀ r ∈ s.clients, r = a
  | _ => True

end Server

theorem Session.sendCall_soft {c : Session} {data out : List UInt8} {x : Input} {res : SendResult}
    (h : c.sendCall data x = some (res, out)) (hx : x.Soft) (w : FrameWriter) (p : List UInt8) :
    w.turn p res ≠ .ret false := by
  intro hret
  rcases FrameWriter.turn_ret_false hret with rfl | ⟨e, rfl, he⟩
  all_goals cases x <;> simp [Session.sendCall, Input.Soft] at h hx
  simp [h.1, he] at hx

theorem Session.recvCall_soft {c : Session} {w : ℕ} {unread : List UInt8} {x : Input} {res : RecvResult}
    (h : c.recvCall w x = some (res, unread)) (hx : x.Soft) :
    (∃ e, res = .error e ∧ e.again = true ∧ unread = c.unread) ∨
      ∃ b, res = .bytes b ∧ b ≠ [] ∧ b.length ≤ w ∧ c.unread = b ++ unread := by
  cases x <;> simp [Session.recvCall, Input.Soft] at h hx
  case count n =>
    obtain ⟨⟨-, h0, hw, hu⟩, rfl, rfl⟩ := h
    refine .inr ⟨_, rfl, ?_, ?_, (List.take_append_drop n _).symm⟩
    · rw [← List.length_pos_iff, List.length_take]
      omega
    · rw [List.length_take]
      omega
  case error e => exact .inl ⟨e, h.1.symm, hx, h.2.symm⟩

/-- A turn of `recv_frame` on the socket of a client that sends well-formed frames. -/
theorem turn_framed {c : Session} {r : FrameReader} {unread : List UInt8} {x : Input} {res : RecvResult}
    (hr : r.Open) (hu : WellFramed (r.consumed ++ c.unread)) (h : c.recvCall r.wants x = some (res, unread))
    (hx : x.Soft) :
    match r.turn res with
    | .again r' => r'.Open ∧ WellFramed (r'.consumed ++ unread)
    | .ret (some msg) => ValidPayload msg ∧ WellFramed unread
    | .ret none => False := by
  rcases Session.recvCall_soft h hx with ⟨e, rfl, he, rfl⟩ | ⟨b, rfl, hb, hw, hb'⟩
  · simp only [FrameReader.turn, he, if_true]
    exact ⟨hr, hu⟩
  · rw [hb'] at hu
    have hturn := FrameReader.turn_wellFramed hr hb hw hu
    have hopen : ∀ r', r.turn (.bytes b) = .again r' → r'.Open := fun _ ht => FrameReader.open_turn hr ht
    cases ht : r.turn (.bytes b) with
    | again r' => exact ⟨hopen r' ht, by simpa [ht] using hturn⟩
    | ret out =>
      cases out with
      | none => simp [ht] at hturn
      | some msg => simpa [ht] using hturn

/-! ## The invariant -/

/-- The `RecvLoop` has not ended, and what it has read of the current frame, with what is unread, is well formed. -/
def RecvPc.Framed (unread : List UInt8) : RecvPc → Prop
  | .frame r => r.Open ∧ WellFramed (r.consumed ++ unread)
  | .endStore | .endLock | .endNotifyEmpty | .endNotifyFull | .endUnlock | .done => False
  | _ => WellFramed unread

/-- The `SendLoop` is leaving or has left. -/
def SendPc.Leaves : SendPc → Prop
  | .breakUnlock | .failStore | .failNotifyEmpty | .failNotifyFull | .done => True
  | _ => False

namespace Server

/-- Every session but `a` goes on, and no empty message is on its way to a queue or in one. -/
structure GoesOn (a : ℕ) (s : Server) : Prop where
  active : ∀ b, b ≠ a → b < s.count → (∀ k, s.accept k ≠ .startActive b) → (s.sess b).active = true
  reader : ∀ b, b ≠ a → (s.recv b).Framed (s.sess b).unread
  sender : ∀ b, b ≠ a → ¬ (s.send b).Leaves
  msg : ∀ i, [] ∈ (s.recv i).msg → i = a ∧ (s.recv i).dests = []
  queue : ∀ r, ∀ m ∈ (s.sess r).txQueue, m.body ≠ []
  popped : ∀ i, ∀ m ∈ (s.send i).popped, m.body ≠ []

variable {s s' : Server} {t : Thread} {x : Input} {a : ℕ}

/-! ## The steps -/

theorem acceptStep_count {k : ℕ} (h : s.acceptStep k x = some s') :
    (s'.count = s.count ∨ s'.count = s.count + 1 ∧ s'.accept k = .startActive s.count) ∧
      ∀ b, s.accept k = .startActive b → (s'.sess b).active = true := by
  unfold acceptStep at h
  repeat' split at h
  all_goals simp only [Option.some.injEq, reduceCtorEq] at h
  all_goals subst h
  all_goals simp only [setAccept, modify, Function.update_self, *]
  all_goals grind -linarith

/-- Sessions are made by the accept threads, which then start them. -/
theorem step_count (h : s.step (t, x) = some s') :
    s'.count = s.count ∨ s'.count = s.count + 1 ∧ ∃ k, s'.accept k = .startActive s.count := by
  cases t with
  | accept k =>
    rcases (acceptStep_count h).1 with hc | ⟨hc, hk⟩
    · exact .inl hc
    · exact .inr ⟨hc, k, hk⟩
  | recv i => exact .inl (recvStep_frame h).1
  | send i => exact .inl (sendStep_frame h).1
  | stop => exact .inl (stopStep_frame h).1

/-- Only the `RecvLoop` and `Stop` read from the socket of a session. -/
theorem step_unread (h : s.step (t, x) = some s') (r : ℕ) :
    (s'.sess r).unread = (s.sess r).unread ∨ t = .recv r ∨ t = .stop ∨
      ∃ k, t = .accept k ∧ r = s.count ∧ x = .accepted (s'.sess r).unread := by
  cases t <;> simp only [step, acceptStep, recvStep, sendStep, stopStep] at h
  all_goals repeat' split at h
  all_goals simp only [Option.some.injEq, reduceCtorEq] at h
  all_goals subst h
  all_goals simp only [setAccept, setRecv, setSend, setStop, modify, Function.update_apply]
  all_goals grind -linarith [Session.new]

/-- Messages get into a queue from `SendMsg` only. -/
theorem step_queue (h : s.step (t, x) = some s') {r : ℕ} {m : Msg} (hm : m ∈ (s'.sess r).txQueue) :
    m ∈ (s.sess r).txQueue ∨ ∃ i c, t = .recv i ∧ s.recv i = .sendPush c ∧ m.body = c.msg := by
  cases t <;> simp only [step, acceptStep, recvStep, sendStep, stopStep] at h
  all_goals repeat' split at h
  all_goals simp only [Option.some.injEq, reduceCtorEq] at h
  all_goals subst h
  all_goals simp only [setAccept, setRecv, setSend, setStop, modify, Function.update_apply] at hm
  all_goals grind -linarith [Session.new]

theorem sendStep_popped {i : ℕ} (h : s.sendStep i x = some s') {m : Msg} (hm : m ∈ (s'.send i).popped) :
    m ∈ (s.send i).popped ∨ m ∈ (s.sess i).txQueue := by
  unfold sendStep at h
  repeat' split at h
  all_goals simp only [Option.some.injEq, reduceCtorEq] at h
  all_goals subst h
  all_goals simp only [setSend, modify, Function.update_self, SendPc.popped, *] at hm ⊢
  all_goals grind -linarith [SendPc.popped]

/-- The `SendLoop` of an active session that is handed non-empty messages goes on while its socket does. -/
theorem sendStep_leaves {i : ℕ} (h : s.sendStep i x = some s') (hx : x.Soft)
    (ha : s.send i ≠ .off → (s.sess i).active = true) (hm : ∀ m ∈ (s.send i).popped, m.body ≠ [])
    (hl : ¬ (s.send i).Leaves) : ¬ (s'.send i).Leaves := by
  unfold sendStep at h
  repeat' split at h
  all_goals simp only [Option.some.injEq, reduceCtorEq] at h
  all_goals subst h
  all_goals simp only [setSend, modify, Function.update_self, SendPc.Leaves, SendPc.popped, *] at hm ha hl ⊢
  all_goals grind -linarith [SendPc.Leaves, FrameWriter.start, Session.sendCall_soft]

/-- In `recv_frame`, the `RecvLoop` goes on while its socket does and the stream is well formed. -/
theorem recvStep_frame_framed {i : ℕ} {r : FrameReader} (hp : s.recv i = .frame r) (h : s.recvStep i x = some s')
    (hx : x.Soft) (hf : (s.recv i).Framed (s.sess i).unread) :
    (s'.recv i).Framed (s'.sess i).unread ∧ [] ∉ (s'.recv i).msg := by
  rw [hp] at hf
  simp only [recvStep, hp] at h
  split at h
  · cases h
  · rename_i res unread hcall
    have hturn := turn_framed hf.1 hf.2 hcall hx
    split at h
    all_goals rename_i ht
    all_goals simp only [ht] at hturn
    · cases h
      simpa [setRecv, modify, RecvPc.Framed, RecvPc.msg] using hturn
    · cases h
      have hne := List.length_pos_iff.1 hturn.1.1
      simpa [setRecv, modify, RecvPc.Framed, RecvPc.msg, hne] using hturn.2

/-- Elsewhere it goes on while the session is active. -/
theorem recvStep_framed {i : ℕ} (hp : ∀ r, s.recv i ≠ .frame r) (h : s.recvStep i x = some s')
    (ha : s.recv i ≠ .off → (s.sess i).active = true) (hf : (s.recv i).Framed (s.sess i).unread) :
    (s'.recv i).Framed (s'.sess i).unread := by
  unfold recvStep at h
  repeat' split at h
  all_goals simp only [Option.some.injEq, reduceCtorEq] at h
  all_goals subst h
  all_goals simp only [setRecv, modify, Function.update_self, Function.update_apply, RecvPc.Framed, *] at ha hf ⊢
  all_goals grind -linarith [RecvPc.Framed, FrameReader.open_start, FrameReader.start, FrameReader.consumed]

/-- A broadcast goes on with the message and the recipients it began with. -/
theorem recvStep_msg {i : ℕ} (h : s.recvStep i x = some s') (hm : [] ∈ (s'.recv i).msg) :
    ((∃ r, s.recv i = .frame r) ∧ (s'.recv i).dests = []) ∨
    ([] ∈ (s.recv i).msg ∧ ((s.recv i).dests = [] → (s'.recv i).dests = [] ∨
      s.recv i = .castCopy [] ∧ (s'.recv i).dests = s.clients.filter fun r => r ≠ i)) := by
  unfold recvStep at h
  repeat' split at h
  all_goals simp only [Option.some.injEq, reduceCtorEq] at h
  all_goals subst h
  all_goals simp only [setRecv, modify, Function.update_self, RecvPc.msg, RecvPc.dests, *] at hm ⊢
  all_goals grind -linarith [RecvPc.msg, RecvPc.dests]

/-- A session whose threads run is active. -/
theorem GoesOn.of_started {ok : Server → Thread × Input → Prop} (hg : s.GoesOn a) (hr : server.Reach ok s) {b : ℕ}
    (hb : b ≠ a) (hs : s.Started b) : (s.sess b).active = true := by
  refine hg.active b hb ?_ (not_starting hr hs)
  by_contra hlt
  obtain ⟨h1, h2, h3⟩ := (fresh hr).blank b (by omega)
  simp [Started, h1, h2, h3, Session.new] at hs

/-- `m_active` is set by `Start`, and not cleared. -/
theorem GoesOn.active_step {b : ℕ} (hg : s.GoesOn a) (h : s.step (t, x) = some s') (hstop : t ≠ .stop) (hb : b ≠ a)
    (hlt : b < s'.count) (hns : ∀ k, s'.accept k ≠ .startActive b) : (s'.sess b).active = true := by
  have hpc := step_pc h
  by_cases hk : ∃ k, s.accept k = .startActive b
  · obtain ⟨k, hk⟩ := hk
    by_cases ht : t = .accept k
    · subst ht
      exact (acceptStep_count h).2 b hk
    · exact absurd (hpc.accept k ht ▸ hk) (hns k)
  · have hlt' : b < s.count := by
      rcases step_count h with hc | ⟨hc, k, hnew⟩
      · omega
      · have hne : b ≠ s.count := by
          rintro rfl
          exact hns k hnew
        omega
    have hact := hg.active b hb hlt' fun k hk' => hk ⟨k, hk'⟩
    rcases step_inactive h (Nat.ne_of_lt hlt') hact with h1 | ⟨-, h1⟩ | ⟨-, h1⟩ | h1
    · exact h1
    · exact (h1 ▸ hg.reader b hb).elim
    · exact absurd (by rw [h1]; trivial) (hg.sender b hb)
    · exact absurd h1 hstop

/-- The `RecvLoop` of another session, and the bytes that it has not read yet. -/
theorem GoesOn.reader_step {ok : Server → Thread × Input → Prop} {b : ℕ} (hg : s.GoesOn a) (hr : server.Reach ok s)
    (ho : s.OthersBehave a (t, x)) (h : s.step (t, x) = some s') (hstop : t ≠ .stop) (hb : b ≠ a) :
    (s'.recv b).Framed (s'.sess b).unread := by
  by_cases ht : t = .recv b
  · subst ht
    by_cases hp : ∃ r, s.recv b = .frame r
    · obtain ⟨r, hp⟩ := hp
      exact (recvStep_frame_framed hp h (ho.resolve_left hb) (hg.reader b hb)).1
    · exact recvStep_framed (fun r hr => hp ⟨r, hr⟩) h
        (fun hoff => hg.of_started hr hb (.inr (.inr (.inl hoff)))) (hg.reader b hb)
  · rw [(step_pc h).recv b ht]
    rcases step_unread h b with h1 | h1 | h1 | ⟨k, rfl, rfl, rfl⟩
    · exact h1 ▸ hg.reader b hb
    · exact absurd h1 ht
    · exact absurd h1 hstop
    · rw [((fresh hr).blank _ le_rfl).2.1]
      exact ho.resolve_left hb

/-- The message that a `RecvLoop` is about to broadcast. -/
theorem GoesOn.msg_step {i : ℕ} (hg : s.GoesOn a) (ho : s.OthersBehave a (t, x)) (hn : s.NoEmptyCast a (t, x))
    (h : s.step (t, x) = some s') (hm : [] ∈ (s'.recv i).msg) : i = a ∧ (s'.recv i).dests = [] := by
  by_cases ht : t = .recv i
  · subst ht
    rcases recvStep_msg h hm with ⟨⟨r, hp⟩, hd⟩ | ⟨hm', hd⟩
    · refine ⟨?_, hd⟩
      by_contra hi
      exact (recvStep_frame_framed hp h (ho.resolve_left hi) (hg.reader i hi)).2 hm
    · obtain ⟨rfl, hd'⟩ := hg.msg i hm'
      refine ⟨rfl, ?_⟩
      rcases hd hd' with h1 | ⟨hp, h1⟩
      · exact h1
      · rw [h1, List.filter_eq_nil_iff]
        simpa using hn rfl hp
  · rw [(step_pc h).recv i ht] at hm ⊢
    exact hg.msg i hm

theorem GoesOn.step {ok : Server → Thread × Input → Prop} (hg : s.GoesOn a) (hr : server.Reach ok s)
    (ho : s.OthersBehave a (t, x)) (hn : s.NoEmptyCast a (t, x)) (h : s.step (t, x) = some s') : s'.GoesOn a := by
  have hpc := step_pc h
  have hstop : t ≠ .stop := by rintro rfl; exact ho
  refine ⟨fun b hb hlt hns => hg.active_step h hstop hb hlt hns, fun b hb => hg.reader_step hr ho h hstop hb,
    fun b hb => ?_, fun i hm => hg.msg_step ho hn h hm, fun r m hm => ?_, fun i m hm => ?_⟩
  · by_cases ht : t = .send b
    · subst ht
      exact sendStep_leaves h (ho.resolve_left hb) (fun hoff => hg.of_started hr hb (.inr (.inr (.inr hoff))))
        (hg.popped b) (hg.sender b hb)
    · rw [hpc.send b ht]
      exact hg.sender b hb
  · rcases step_queue h hm with h1 | ⟨i, c, rfl, hp, h1⟩
    · exact hg.queue r m h1
    · intro hnil
      have := hg.msg i (by rw [hp, RecvPc.msg, ← h1, hnil]; rfl)
      simp [hp, RecvPc.dests] at this
  · by_cases ht : t = .send i
    · subst ht
      rcases sendStep_popped h hm with h1 | h1
      · exact hg.popped i m h1
      · exact hg.queue i m h1
    · exact hg.popped i m (hpc.send i ht ▸ hm)

end Server

/-! ## In every run -/

variable {s : Server} {a : ℕ}

/-- **The other sessions go on** as long as `a` broadcasts no empty message to them. -/
theorem others_go_on (h : server.Reach (fun s m => s.OthersBehave a m ∧ s.NoEmptyCast a m) s) (b : ℕ) (hb : b ≠ a)
    (hlt : b < s.count) (hstart : ∀ k, s.accept k ≠ .startActive b) :
    (s.sess b).active = true ∧ ¬ (s.send b).Leaves := by
  have hg : s.GoesOn a := by
    refine h.invariant (Server.GoesOn a) ?_ fun s ⟨t, x⟩ s' hr hg hok hst => hg.step hr hok.1 hok.2 hst
    rintro s ⟨n, rfl⟩
    refine ⟨fun b _ hlt => ?_, fun b _ => wellFramed_nil, fun b _ => id, fun i hm => ?_, fun r m hm => ?_,
      fun i m hm => ?_⟩
    · simp [Server.start] at hlt
    · simp [Server.start, RecvPc.msg] at hm
    · simp [Server.start, Session.new] at hm
    · simp [Server.start, SendPc.popped] at hm
  exact ⟨hg.active b hb hlt hstart, hg.sender b hb⟩

/-- The other clients send nothing, and their sockets report no closure and no hard error. -/
def Server.OthersSilent (a : ℕ) (s : Server) : Thread × Input → Prop
  | (.accept _, .accepted stream) => s.count = a ∨ stream = []
  | (.recv b, x) | (.send b, x) => b = a ∨ x.Soft
  | (.stop, _) => False
  | _ => True

theorem Server.OthersSilent.behave {m : Thread × Input} (h : s.OthersSilent a m) : s.OthersBehave a m := by
  obtain ⟨t | t | t | t, x⟩ := m
  · cases x with
    | accepted stream =>
      refine h.imp_right ?_
      rintro rfl
      exact wellFramed_nil
    | _ => trivial
  all_goals exact h

instance (a : ℕ) (s : Server) : DecidablePred (s.OthersSilent a)
  | (.accept _, .accepted _) => inferInstanceAs (Decidable (_ ∨ _))
  | (.accept _, .go) | (.accept _, .refused) | (.accept _, .count _) | (.accept _, .closed) | (.accept _, .error _)
  | (.accept _, .wake _) => isTrue trivial
  | (.recv _, _) | (.send _, _) => inferInstanceAs (Decidable (_ ∨ _))
  | (.stop, _) => isFalse id

instance (a : ℕ) (s : Server) : DecidablePred (s.NoEmptyCast a)
  | (.recv _, _) => inferInstanceAs (Decidable (_ → _ → _))
  | (.accept _, _) | (.send _, _) | (.stop, _) => isTrue trivial

theorem others_go_on_byte :
    (server.run (twoClients (frame [104]))
        ([(Thread.recv 0, Input.count 4), (Thread.recv 0, Input.count 1)] ++ castToSecond)).map
      (fun s => (s.sess 1).txQueue) = some [⟨0, [104]⟩] ∧
    ∀ s ∈ server.run (twoClients (frame [104]))
        ([(Thread.recv 0, Input.count 4), (Thread.recv 0, Input.count 1)] ++ castToSecond),
      (s.sess 1).active = true ∧ ¬ (s.send 1).Leaves := by
  refine ⟨by decide +kernel, fun s hs => ?_⟩
  have hinit : server.Reach (fun s m => s.OthersSilent 0 m ∧ s.NoEmptyCast 0 m) (.start 1) := .init ⟨1, rfl⟩
  have hreach := ((hinit.run_along (run_twoClients (frame [104])) (by decide +kernel)).run_along hs
    (by decide +kernel)).mono fun s m h => And.imp_left Server.OthersSilent.behave h
  have hcount : (server.run (twoClients (frame [104])) ([(.recv 0, .count 4), (.recv 0, .count 1)] ++
      castToSecond)).map (fun s => (s.count, (s.sess 1).recvStarted)) = some (2, true) := by decide +kernel
  rw [Option.mem_def.1 hs, Option.map_some, Option.some.injEq, Prod.mk.injEq] at hcount
  exact others_go_on hreach 1 (by decide) (by omega) (not_starting hreach (.inl hcount.2))

/-! ## An empty frame -/

/-- The `RecvLoop` of the first of two clients gets an empty frame and broadcasts it, and the `SendLoop` of the
second sends it. -/
def emptyFrame : List (Thread × Input) :=
  [(Thread.recv 0, Input.count 4)] ++ castToSecond ++ List.replicate 8 (Thread.send 1, Input.go)

/-- **One empty frame ends the other session.** -/
theorem ended_by_empty : ¬ ∀ a s, server.Reach (Server.OthersBehave a) s → ∀ b, b ≠ a → b < s.count →
    (∀ k, s.accept k ≠ .startActive b) → (s.sess b).active = true ∧ ¬ (s.send b).Leaves := by
  intro h
  have hend : (server.run (twoClients [0, 0, 0, 0]) emptyFrame).map
      (fun s => (s.count, (s.sess 1).recvStarted, (s.sess 1).active)) = some (2, true, false) := by decide +kernel
  rw [Option.map_eq_some_iff] at hend
  obtain ⟨s, hs, hend⟩ := hend
  simp only [Prod.mk.injEq] at hend
  have hinit : server.Reach (Server.OthersSilent 0) (.start 1) := .init ⟨1, rfl⟩
  have hreach := ((hinit.run_along (run_twoClients [0, 0, 0, 0]) (by decide +kernel)).run_along hs
    (by decide +kernel)).mono fun s m h => Server.OthersSilent.behave h
  have := (h 0 s hreach 1 (by decide) (by omega) (not_starting hreach (.inl hend.2.1))).1
  simp [hend.2.2] at this

end TcpChat.FramingServer
