import TcpChat.FramingServer.Registry
import Mathlib.Data.List.TakeDrop

/-!
# Who receives which messages

For a sender `i` and a recipient `r`, what `r` got from `i` is a segment of what `i` decoded: it begins with the
first broadcast whose snapshot contained `r`, has no gap, and reaches as far as `i` has got with its broadcasts.

* `CastStep`, `SkipStep` — what a step of a `RecvLoop` means for its broadcasts;
* `step_log` — what a step does to the messages a session has received;
* `Segments` — the invariant;
* `fan_out` — while all sessions stay active and `Stop` is not called, it holds in every state reached.
-/

namespace TcpChat.FramingServer

open TcpChat.Framing TcpChat.Lib

/-! ## The history of a pair -/

/-- The broadcast has taken its snapshot. -/
def RecvPc.Snapped : RecvPc → Prop
  | .castLock _ | .castCopy _ => False
  | p => p.msg ≠ none

instance : DecidablePred RecvPc.Snapped := fun p =>
  decidable_of_iff (¬ (p matches .castLock _ | .castCopy _) ∧ p.msg ≠ none) (by cases p <;> simp [RecvPc.Snapped])

/-- The recipients whose queue has not got the message yet. -/
def RecvPc.todo : RecvPc → List ℕ
  | .sendAdd c | .sendUnlock c | .sendNotify c => c.rest
  | p => p.dests

/-- What the step puts into the queue of the session `r`. -/
def RecvPc.pushed (r : ℕ) : RecvPc → List (List UInt8)
  | .sendPush c => if c.dest = r then [c.msg] else []
  | _ => []

namespace Server

/-- The messages that the session `r` has handed to `send_frame`, has in hand, and has queued, oldest first. -/
def received (s : Server) (r : ℕ) : List Msg :=
  (s.sess r).handed ++ (s.send r).popped.toList ++ (s.sess r).txQueue

/-- What `r` has received from `i`. -/
def log (s : Server) (i r : ℕ) : List (List UInt8) := ((s.received r).filter fun m => m.src = i).map Msg.body

/-- How many broadcasts of `i` are done with `r`. -/
def reached (s : Server) (i r : ℕ) : ℕ :=
  (s.sess i).returned + if (s.recv i).Snapped ∧ r ∉ (s.recv i).todo then 1 else 0

/-- The messages of `i` that `r` should have. -/
def due (s : Server) (i r : ℕ) : List (List UInt8) :=
  match (s.sess i).since r with
  | none => []
  | some k => ((s.sess i).decoded.take (s.reached i r)).drop k

/-- What `r` has received from `i` is the segment of what `i` decoded that begins with the first broadcast whose
snapshot contained `r` and reaches at least to the last broadcast that has returned; nothing it received is its own. -/
def FannedOut (s : Server) (i r : ℕ) : Prop :=
  (match (s.sess i).since r with
    | none => s.log i r = []
    | some k => ∃ m, k ≤ m ∧ (s.sess i).returned ≤ m ∧ m ≤ (s.sess i).decoded.length ∧
        s.log i r = ((s.sess i).decoded.take m).drop k) ∧
  ∀ msg ∈ s.received r, msg.src ≠ r

/-- Every session is active, from the first store of its `Start` on. -/
def AllActive (s : Server) : Prop := ∀ r, r < s.count → (∀ k, s.accept k ≠ .startActive r) → (s.sess r).active = true

/-- What a step of the `RecvLoop` of `i` means for its broadcasts. -/
inductive CastStep (s s' : Server) (i : ℕ) : Prop
  | silent (hp : ∀ c, s.recv i ≠ .sendPush c) (hd : (s'.sess i).decoded = (s.sess i).decoded)
      (hr : (s'.sess i).returned = (s.sess i).returned) (hs : (s'.sess i).since = (s.sess i).since)
      (hm : (s'.recv i).msg = (s.recv i).msg)
      (hsn : (s'.recv i).Snapped ↔ (s.recv i).Snapped) (ht : (s'.recv i).todo = (s.recv i).todo)
  | decode (msg : List UInt8) (hp : (s.recv i).msg = none) (hd : (s'.sess i).decoded = (s.sess i).decoded ++ [msg])
      (hr : (s'.sess i).returned = (s.sess i).returned) (hs : (s'.sess i).since = (s.sess i).since)
      (hp' : s'.recv i = .castLock msg)
  | snapshot (msg : List UInt8) (hp : s.recv i = .castCopy msg) (hd : (s'.sess i).decoded = (s.sess i).decoded)
      (hr : (s'.sess i).returned = (s.sess i).returned)
      (hs : (s'.sess i).since =
        noteSince (s.sess i).since ((s.sess i).decoded.length - 1) (s.clients.filter fun r => r ≠ i))
      (hp' : s'.recv i = .castUnlock msg (s.clients.filter fun r => r ≠ i))
  | push (c : Call) (hp : s.recv i = .sendPush c) (hd : (s'.sess i).decoded = (s.sess i).decoded)
      (hr : (s'.sess i).returned = (s.sess i).returned) (hs : (s'.sess i).since = (s.sess i).since)
      (hp' : s'.recv i = .sendAdd c)
  | ret (msg : List UInt8) (hp : s.recv i = .cast msg []) (hd : (s'.sess i).decoded = (s.sess i).decoded)
      (hr : (s'.sess i).returned = (s.sess i).returned + 1) (hs : (s'.sess i).since = (s.sess i).since)
      (hp' : s'.recv i = .test)

/-- The `RecvLoop` of `i` goes on with its broadcast without its present recipient, whose session is not active. -/
structure SkipStep (s s' : Server) (i : ℕ) (c : Call) : Prop where
  pc : s.recv i = .sendTest c ∧ (s.sess c.dest).active = false ∨ s.recv i = .sendReturn c
  pc' : s'.recv i = .cast c.msg c.rest
  decoded : (s'.sess i).decoded = (s.sess i).decoded
  returned : (s'.sess i).returned = (s.sess i).returned
  since : (s'.sess i).since = (s.sess i).since

variable {s s' : Server} {t : Thread} {x : Input} {i r : ℕ}

/-- **Every step of a `RecvLoop`** is a `CastStep`, or leaves a recipient out. -/
theorem recvStep_casts (h : s.recvStep i x = some s') : CastStep s s' i ∨ ∃ c, SkipStep s s' i c := by
  by_cases hret : ∃ c, s.recv i = .sendReturn c
  · obtain ⟨c, hc⟩ := hret
    right
    cases x <;> simp only [recvStep, hc, Option.some.injEq, reduceCtorEq] at h
    subst h
    refine ⟨c, .inr hc, Function.update_self _ _ _, ?_, ?_, ?_⟩
    all_goals simp only [setRecv, modify, Function.update_apply]
    all_goals split <;> simp_all
  by_cases htest : ∃ c, s.recv i = .sendTest c ∧ (s.sess c.dest).active = false
  · obtain ⟨c, hc, ha⟩ := htest
    right
    cases x <;> simp only [recvStep, hc, ha, Option.some.injEq, reduceCtorEq, Bool.false_eq_true, if_false] at h
    subst h
    exact ⟨c, .inl ⟨hc, ha⟩, Function.update_self _ _ _, rfl, rfl, rfl⟩
  · left
    unfold recvStep at h
    repeat' split at h
    all_goals simp only [Option.some.injEq, reduceCtorEq] at h
    all_goals subst h
    all_goals first
      | exact .decode _ (by simp [RecvPc.msg, *]) (by simp [setRecv, modify]) (by simp [setRecv, modify])
          (by simp [setRecv, modify]) (Function.update_self _ _ _)
      | exact .snapshot _ ‹_› (by simp [setRecv, modify]) (by simp [setRecv, modify]) (by simp [setRecv, modify])
          (Function.update_self _ _ _)
      | exact .push _ ‹_› (by simp [setRecv, modify, Function.update_apply]; grind -linarith)
          (by simp [setRecv, modify, Function.update_apply]; grind -linarith)
          (by simp [setRecv, modify, Function.update_apply]; grind -linarith) (Function.update_self _ _ _)
      | exact .ret _ ‹_› (by simp [setRecv, modify]) (by simp [setRecv, modify]) (by simp [setRecv, modify])
          (Function.update_self _ _ _)
      | exact absurd ⟨_, ‹_›⟩ hret
      | (refine .silent ?_ ?_ ?_ ?_ ?_ ?_ ?_ <;>
          simp_all [setRecv, modify, Function.update_apply, RecvPc.msg, RecvPc.Snapped, RecvPc.todo, RecvPc.dests] <;>
          grind -linarith)

/-- `SendMsg` returns early only where it has found the recipient inactive. -/
theorem recvStep_return (h : s.recvStep i x = some s') {c : Call} (hc : s'.recv i = .sendReturn c) :
    s.recv i = .sendRetest c ∧ (s.sess c.dest).active = false := by
  unfold recvStep at h
  repeat' split at h
  all_goals simp only [Option.some.injEq, reduceCtorEq] at h
  all_goals subst h
  all_goals simp only [setRecv, modify, Function.update_self, reduceCtorEq] at hc
  cases hc
  exact ⟨‹_›, Bool.eq_false_iff.2 ‹_›⟩

/-- While its recipients are active, every step of a `RecvLoop` is a `CastStep`. -/
theorem recvStep_cast (h : s.recvStep i x = some s') (ha : ∀ r ∈ (s.recv i).todo, (s.sess r).active = true)
    (hret : ∀ c, s.recv i ≠ .sendReturn c) : CastStep s s' i ∧ ∀ c, s'.recv i ≠ .sendReturn c := by
  refine ⟨(recvStep_casts h).resolve_right ?_, fun c hc => ?_⟩
  · rintro ⟨c, ⟨⟨hp, hina⟩ | hp, -, -, -, -⟩⟩
    · have hact := ha c.dest (by simp [hp, RecvPc.todo, RecvPc.dests])
      simp [hina] at hact
    · exact hret c hp
  · obtain ⟨hp, hina⟩ := recvStep_return h hc
    have hact := ha c.dest (by simp [hp, RecvPc.todo, RecvPc.dests])
    simp [hina] at hact

/-! ## What a step adds to a log -/

theorem sendStep_received (h : s.sendStep i x = some s') (r : ℕ) : s'.received r = s.received r := by
  unfold received
  unfold sendStep at h
  repeat' split at h
  all_goals simp only [Option.some.injEq, reduceCtorEq] at h
  all_goals subst h
  all_goals simp only [setSend, modify, Function.update_apply]
  all_goals grind -linarith [SendPc.popped]

theorem recvStep_received (h : s.recvStep i x = some s') (r : ℕ) :
    s'.received r = s.received r ++ ((s.recv i).pushed r).map (Msg.mk i) := by
  unfold received
  unfold recvStep at h
  repeat' split at h
  all_goals simp only [Option.some.injEq, reduceCtorEq] at h
  all_goals subst h
  all_goals simp only [setRecv, modify, Function.update_apply, RecvPc.pushed, *]
  all_goals grind -linarith

theorem acceptStep_received {k : ℕ} (h : s.acceptStep k x = some s') (hf : s.Fresh) (r : ℕ) :
    s'.received r = s.received r := by
  have hb := (hf.blank s.count le_rfl).1
  unfold received
  unfold acceptStep at h
  repeat' split at h
  all_goals simp only [Option.some.injEq, reduceCtorEq] at h
  all_goals subst h
  all_goals simp only [setAccept, modify, Function.update_apply]
  all_goals grind -linarith [Session.new]

/-- **Only `push_back` in `SendMsg` adds to what a session has received.** -/
theorem step_received (h : s.step (t, x) = some s') (hf : s.Fresh) (ht : t ≠ .stop) (r : ℕ) :
    s'.received r = s.received r ∨
      ∃ i, t = .recv i ∧ s'.received r = s.received r ++ ((s.recv i).pushed r).map (Msg.mk i) := by
  cases t with
  | accept k => exact .inl (acceptStep_received h hf r)
  | recv i => exact .inr ⟨i, rfl, recvStep_received h r⟩
  | send i => exact .inl (sendStep_received h r)
  | stop => exact absurd rfl ht

/-- The broadcasts of a session are the business of its `RecvLoop`. -/
theorem step_history (h : s.step (t, x) = some s') (hf : s.Fresh) (ht : t ≠ .recv i) :
    (s'.sess i).decoded = (s.sess i).decoded ∧ (s'.sess i).returned = (s.sess i).returned ∧
      (s'.sess i).since = (s.sess i).since := by
  have hb := (hf.blank s.count le_rfl).1
  cases t <;> simp only [step, acceptStep, recvStep, sendStep, stopStep] at h
  all_goals repeat' split at h
  all_goals simp only [Option.some.injEq, reduceCtorEq] at h
  all_goals subst h
  all_goals simp only [setAccept, setRecv, setSend, setStop, modify, Function.update_apply]
  all_goals grind -linarith [Session.new]

theorem step_clients_subset (h : s.step (t, x) = some s') (ht : t ≠ .stop) : ∀ r ∈ s.clients, r ∈ s'.clients := by
  cases t with
  | accept k =>
    rcases acceptStep_clients_eq h with ⟨hcl, -⟩ | ⟨i, -, hcl, -⟩ <;> rw [hcl] <;> simp +contextual
  | recv i => rw [(recvStep_frame h).2.1]; exact fun r hr => hr
  | send i => rw [(sendStep_frame h).2.1]; exact fun r hr => hr
  | stop => exact absurd rfl ht

/-! ## The invariant -/

/-- The broadcast that the `RecvLoop` of `i` is in, and the broadcasts it has returned from. -/
structure Casting (s : Server) (i : ℕ) : Prop where
  count : (s.sess i).decoded.length = (s.sess i).returned + if (s.recv i).msg = none then 0 else 1
  last : ∀ m ∈ (s.recv i).msg, (s.sess i).decoded.getLast? = some m
  nodup : (s.recv i).todo.Nodup
  todo : ∀ r ∈ (s.recv i).todo, r ≠ i ∧ r ∈ s.clients ∧ (s.sess i).since r ≠ none
  since : ∀ r k, (s.sess i).since r = some k → r ≠ i ∧ r ∈ s.clients ∧
    (k < (s.sess i).returned ∨ k = (s.sess i).returned ∧ (s.recv i).Snapped)
  enter : ∀ c, s.recv i ≠ .sendReturn c

/-- What a session has received from each sender is what is due, and nothing of it is its own. -/
structure Segments (s : Server) : Prop where
  casting : ∀ i, s.Casting i
  log : ∀ i r, s.log i r = s.due i r
  src : ∀ r, ∀ m ∈ s.received r, m.src ≠ r

theorem log_of_received {i r : ℕ} (h : s'.received r = s.received r) : s'.log i r = s.log i r := by
  rw [log, h, log]

theorem log_of_pushed {j : ℕ} {msgs : List (List UInt8)} (h : s'.received r = s.received r ++ msgs.map (Msg.mk j)) :
    s'.log i r = s.log i r ++ if j = i then msgs else [] := by
  rw [log, h, log, List.filter_append, List.map_append]
  congr 1
  by_cases hji : j = i <;> simp [hji, List.filter_map, Function.comp_def]

/-- A step of another thread keeps what is due. -/
theorem due_of_others (h : s.step (t, x) = some s') (hf : s.Fresh) (ht : t ≠ .recv i) (r : ℕ) :
    s'.due i r = s.due i r := by
  obtain ⟨hd, hr, hs⟩ := step_history h hf ht
  rw [due, due, reached, reached, hd, hr, hs, (step_pc h).recv i ht]

theorem not_snapped_of_msg {p : RecvPc} (hp : p.msg = none) : ¬ p.Snapped := by
  cases p <;> simp [RecvPc.msg] at hp <;> simp [RecvPc.Snapped, RecvPc.msg]

/-- The message of the broadcast in progress is the last one decoded. -/
theorem Casting.decoded_eq (hg : s.Casting i) {msg : List UInt8} (hm : (s.recv i).msg = some msg) :
    ∃ l, (s.sess i).decoded = l ++ [msg] ∧ l.length = (s.sess i).returned := by
  obtain ⟨l, hl⟩ := List.getLast?_eq_some_iff.1 (hg.last msg hm)
  refine ⟨l, hl, ?_⟩
  have hc := hg.count
  rw [hl, hm] at hc
  simpa using hc

theorem Casting.step (hg : s.Casting i) (hnd : s.clients.Nodup) (hcl : s'.clients = s.clients) (h : CastStep s s' i)
    (henter : ∀ c, s'.recv i ≠ .sendReturn c) : s'.Casting i := by
  obtain ⟨hcount, hlast, hnodup, htodo, hsince, -⟩ := hg
  cases h with
  | silent hp hd hr hs hm hsn ht =>
    refine ⟨by rw [hd, hr, hm, hcount], by rwa [hd, hm], by rwa [ht], ?_, ?_, henter⟩
    · rwa [ht, hs, hcl]
    · rwa [hs, hr, hsn, hcl]
  | decode msg hp hd hr hs hp' =>
    refine ⟨?_, ?_, ?_, ?_, fun r k hk => ?_, henter⟩
    · rw [hd, hr, hp', List.length_append, hcount, hp]
      simp [RecvPc.msg]
    · simp [hd, hp', RecvPc.msg]
    · simp [hp', RecvPc.todo, RecvPc.dests]
    · simp [hp', RecvPc.todo, RecvPc.dests]
    · rw [hs] at hk
      rw [hr, hcl]
      obtain ⟨h1, h2, h3⟩ := hsince r k hk
      exact ⟨h1, h2, .inl (h3.resolve_right fun h4 => not_snapped_of_msg hp h4.2)⟩
  | snapshot msg hp hd hr hs hp' =>
    have hn : (s.sess i).decoded.length - 1 = (s.sess i).returned := by rw [hcount, hp]; simp [RecvPc.msg]
    have hmem : ∀ r, r ∈ (s.clients.filter fun r => r ≠ i) ↔ r ∈ s.clients ∧ r ≠ i := fun r => by simp
    refine ⟨by simp [hd, hr, hp', hcount, hp, RecvPc.msg], by simpa [hd, hp', hp, RecvPc.msg] using hlast, ?_,
      fun r hr' => ?_, fun r k hk => ?_, henter⟩
    · rw [hp']
      exact hnd.filter _
    · replace hr' : r ∈ s.clients.filter fun r => r ≠ i := by rwa [hp'] at hr'
      refine ⟨((hmem r).1 hr').2, hcl ▸ ((hmem r).1 hr').1, ?_⟩
      rw [hs, noteSince]
      split
      · simp
      · rename_i hold
        exact fun hnone => hold ⟨hnone, hr'⟩
    · rw [hs, noteSince, hn] at hk
      rw [hr, hp', hcl]
      split at hk
      · rename_i hr'
        cases hk
        exact ⟨((hmem r).1 hr'.2).2, ((hmem r).1 hr'.2).1, .inr ⟨rfl, by simp [RecvPc.Snapped, RecvPc.msg]⟩⟩
      · obtain ⟨h1, h2, h3⟩ := hsince r k hk
        exact ⟨h1, h2, h3.imp_right fun h4 => ⟨h4.1, by simp [RecvPc.Snapped, RecvPc.msg]⟩⟩
  | push c hp hd hr hs hp' =>
    simp only [hp, RecvPc.todo, RecvPc.dests] at hnodup htodo
    refine ⟨by simp [hd, hr, hp', hcount, hp, RecvPc.msg], by simpa [hd, hp', hp, RecvPc.msg] using hlast, ?_,
      fun r hr' => ?_, fun r k hk => ?_, henter⟩
    · rw [hp']
      exact (List.nodup_cons.1 hnodup).2
    · rw [hs, hcl]
      rw [hp'] at hr'
      exact htodo r (List.mem_cons_of_mem _ hr')
    · rw [hs] at hk
      rw [hr, hp', hcl]
      obtain ⟨h1, h2, h3⟩ := hsince r k hk
      exact ⟨h1, h2, h3.imp_right fun h4 => ⟨h4.1, by simp [RecvPc.Snapped, RecvPc.msg]⟩⟩
  | ret msg hp hd hr hs hp' =>
    refine ⟨by simp [hd, hr, hp', hcount, hp, RecvPc.msg], by simp [hp', RecvPc.msg],
      by simp [hp', RecvPc.todo, RecvPc.dests], by simp [hp', RecvPc.todo, RecvPc.dests], fun r k hk => ?_, henter⟩
    rw [hs] at hk
    rw [hr, hcl]
    obtain ⟨h1, h2, h3⟩ := hsince r k hk
    exact ⟨h1, h2, .inl (by rcases h3 with h3 | ⟨h3, -⟩ <;> omega)⟩

/-- A step of another thread. -/
theorem Casting.of_others (hg : s.Casting i) (h : s.step (t, x) = some s') (hf : s.Fresh) (ht : t ≠ .recv i)
    (hstop : t ≠ .stop) : s'.Casting i := by
  obtain ⟨hd, hr, hs⟩ := step_history h hf ht
  have hp := (step_pc h).recv i ht
  have hcl := step_clients_subset h hstop
  refine ⟨by rw [hd, hr, hp, hg.count], by rw [hd, hp]; exact hg.last, hp ▸ hg.nodup, fun r hr' => ?_,
    fun r k hk => ?_, hp ▸ hg.enter⟩
  · obtain ⟨h1, h2, h3⟩ := hg.todo r (hp ▸ hr')
    exact ⟨h1, hcl r h2, hs ▸ h3⟩
  · obtain ⟨h1, h2, h3⟩ := hg.since r k (hs ▸ hk)
    exact ⟨h1, hcl r h2, by rwa [hr, hp]⟩

/-- **What is due after a step of the `RecvLoop`**: one more message for the recipient that just got it. -/
theorem Casting.due_step (hg : s.Casting i) (h : CastStep s s' i) (r : ℕ) :
    s'.due i r = s.due i r ++ (s.recv i).pushed r := by
  cases h with
  | silent hp hd hr hs hm hsn ht =>
    have hno : (s.recv i).pushed r = [] := by cases hq : s.recv i <;> first | rfl | exact absurd hq (hp _)
    rw [hno, List.append_nil]
    simp only [due, reached, hd, hr, hs, hsn, ht]
  | decode msg hp hd hr hs hp' =>
    have hlen : (s.sess i).decoded.length = (s.sess i).returned := by simpa [hp] using hg.count
    have hns := not_snapped_of_msg hp
    have hns' : ¬ (RecvPc.castLock msg).Snapped := id
    have hno : (s.recv i).pushed r = [] := by cases hq : s.recv i <;> simp [hq, RecvPc.msg] at hp <;> rfl
    rw [hno, List.append_nil]
    simp only [due, reached, hd, hr, hs, hp', hns, hns', false_and, if_false, Nat.add_zero,
      List.take_append_of_le_length hlen.ge]
  | snapshot msg hp hd hr hs hp' =>
    obtain ⟨l, hl, hlen⟩ := hg.decoded_eq (by rw [hp]; rfl)
    have hn : (s.sess i).decoded.length - 1 = (s.sess i).returned := by rw [hl, ← hlen]; simp
    simp only [due, reached, hd, hr, hs, hp, hp', hn, RecvPc.Snapped, RecvPc.msg, RecvPc.todo, RecvPc.dests, noteSince,
      RecvPc.pushed, List.append_nil]
    cases hsi : (s.sess i).since r with
    | none => by_cases hcl : r ∈ s.clients <;> by_cases hri : r = i <;> simp [hcl, hri]
    | some k =>
      have := hg.since r k hsi
      simp [this.1, this.2.1]
  | push c hp hd hr hs hp' =>
    obtain ⟨l, hl, hlen⟩ := hg.decoded_eq (by rw [hp]; rfl)
    have hnd := hg.nodup
    have htodo := hg.todo r
    simp only [hp, RecvPc.todo, RecvPc.dests, List.nodup_cons, List.mem_cons] at hnd htodo
    simp only [due, reached, hd, hr, hs, hp, hp', RecvPc.Snapped, RecvPc.msg, RecvPc.todo, RecvPc.dests, RecvPc.pushed]
    by_cases hrd : c.dest = r
    · -- The recipient is done with this broadcast from now on.
      subst hrd
      obtain ⟨k, hk⟩ := Option.ne_none_iff_exists'.1 (htodo (.inl rfl)).2.2
      have hkn : k ≤ l.length := by rcases (hg.since _ k hk).2.2 with h1 | ⟨h1, -⟩ <;> omega
      have htake : (l ++ [c.msg]).take (l.length + 1) = l ++ [c.msg] := List.take_of_length_le (by simp)
      simp [hk, hl, hnd.1, ← hlen, htake, List.drop_append_of_le_length hkn]
    · simp [hrd, Ne.symm hrd]
  | ret msg hp hd hr hs hp' =>
    simp [due, reached, hd, hr, hs, hp, hp', RecvPc.Snapped, RecvPc.msg, RecvPc.todo, RecvPc.dests, RecvPc.pushed]

theorem Segments.step (hg : s.Segments) (hf : s.Fresh) (hreg : s.Registered) (ha : s.AllActive) (hstop : t ≠ .stop)
    (h : s.step (t, x) = some s') : s'.Segments := by
  -- The recipients of a broadcast in progress are active.
  have hact : ∀ i, ∀ r ∈ (s.recv i).todo, (s.sess r).active = true := fun i r hr => by
    have hmem := ((hg.casting i).todo r hr).2.1
    exact ha r (hf.clients r hmem) fun k hk => hreg.pending k r (by simp [hk, AcceptPc.session]) hmem
  refine ⟨fun i => ?_, fun i r => ?_, fun r m hm => ?_⟩
  · by_cases ht : t = .recv i
    · subst ht
      obtain ⟨hcast, henter⟩ := recvStep_cast h (hact i) (hg.casting i).enter
      exact (hg.casting i).step hreg.nodup (recvStep_frame h).2.1 hcast henter
    · exact (hg.casting i).of_others h hf ht hstop
  · by_cases ht : t = .recv i
    · subst ht
      obtain ⟨hcast, -⟩ := recvStep_cast h (hact i) (hg.casting i).enter
      rw [log_of_pushed (recvStep_received h r), if_pos rfl, (hg.casting i).due_step hcast r, hg.log i r]
    · rw [due_of_others h hf ht, ← hg.log i r]
      rcases step_received h hf hstop r with h1 | ⟨j, rfl, h1⟩
      · exact log_of_received h1
      · rw [log_of_pushed h1, if_neg (by simpa using ht), List.append_nil]
  · rcases step_received h hf hstop r with h1 | ⟨j, rfl, h1⟩
    · exact hg.src r m (h1 ▸ hm)
    · rw [h1, List.mem_append, List.mem_map] at hm
      rcases hm with hm | ⟨msg, hmsg, rfl⟩
      · exact hg.src r m hm
      · refine Ne.symm ((hg.casting j).todo r ?_).1
        cases hp : s.recv j <;> simp [hp, RecvPc.pushed] at hmsg
        simp [RecvPc.todo, RecvPc.dests, hmsg.1]

theorem Casting.reached_le (hg : s.Casting i) (r : ℕ) :
    (s.sess i).returned ≤ s.reached i r ∧ s.reached i r ≤ (s.sess i).decoded.length := by
  refine ⟨Nat.le_add_right _ _, ?_⟩
  rw [hg.count, reached]
  by_cases hm : (s.recv i).msg = none
  · simp [not_snapped_of_msg hm]
  · rw [if_neg hm]
    split <;> omega

end Server

/-! ## In every run -/

/-- **Per-sender FIFO fan-out.** -/
theorem fan_out {s : Server} (h : server.Reach (fun s m => s.AllActive ∧ m.1 ≠ .stop) s) (i r : ℕ) :
    s.FannedOut i r := by
  have hg : s.Segments := by
    refine h.invariant Server.Segments ?_ fun s ⟨t, x⟩ s' hr hg hok hst =>
      hg.step (fresh hr) (registered hr) hok.1 hok.2 hst
    rintro s ⟨n, rfl⟩
    refine ⟨fun i => ⟨?_, ?_, ?_, ?_, ?_, ?_⟩, fun i r => ?_, fun r m hm => ?_⟩
    all_goals simp_all [Server.start, Session.new, RecvPc.msg, RecvPc.todo, RecvPc.dests, Server.log, Server.due,
      Server.received, SendPc.popped]
  obtain ⟨hle, hlen⟩ := (hg.casting i).reached_le r
  refine ⟨?_, hg.src r⟩
  have hlog := hg.log i r
  unfold Server.due at hlog
  split at hlog
  · exact hlog
  · rename_i k hk
    refine ⟨s.reached i r, ?_, hle, hlen, hlog⟩
    rcases ((hg.casting i).since r k hk).2.2 with h1 | ⟨h1, -⟩ <;> omega

/-- The first of two clients sends one byte, and the `SendLoop` of the second takes it out of its queue. -/
def passByte : List (Thread × Input) :=
  [(Thread.recv 0, Input.count 4), (Thread.recv 0, Input.count 1)] ++ castToSecond ++
    List.replicate 5 (Thread.send 1, Input.go)

theorem fan_out_byte :
    (server.run (twoClients (frame [104])) passByte).map
      (fun s => ((s.sess 0).since 1, (s.sess 0).returned, (s.send 1).popped, s.log 0 1)) =
        some (some 0, 1, some ⟨0, [104]⟩, [[104]]) ∧
    ∀ s ∈ server.run (twoClients (frame [104])) passByte, s.FannedOut 0 1 := by
  refine ⟨by decide +kernel, fun s hs => fan_out ?_ 0 1⟩
  have hinit : server.Reach (fun s m => (∀ r < s.count, s.accept 0 = .startActive r ∨ (s.sess r).active = true) ∧
      m.1 ≠ .stop) (.start 1) := .init ⟨1, rfl⟩
  refine ((hinit.run_along (run_twoClients (frame [104])) (by decide +kernel)).run_along hs (by decide +kernel)).mono
    fun s m hok => ⟨fun r hr hstart => ?_, hok.2⟩
  exact (hok.1 r hr).resolve_left (hstart 0)

end TcpChat.FramingServer
