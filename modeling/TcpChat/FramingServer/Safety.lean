import TcpChat.FramingServer.FanOut
import TcpChat.FramingServer.Backpressure

/-!
# The fan-out in every run

Sessions end, `SendMsg` then leaves them out, and `Stop` clears their queues.  A session that has ended stays ended, so
what it got from a sender stops somewhere, and has no gap before.

* `Stopping` — the clients that `Stop` has behind it are not active;
* `Tally` — the broadcast that a `RecvLoop` is in, and those it has returned from;
* `Delivered` — a recipient has all that is due, or has ended with a part of it;
* `received_segment` — in every reachable state what a session received from another one is a segment of what that one
  decoded.
-/

namespace TcpChat.FramingServer

open TcpChat.Framing TcpChat.Lib

/-- The clients whose `m_active` has not been cleared by `Stop`. -/
def StopPc.ahead : StopPc → List ℕ
  | .store i rest => i :: rest
  | .next rest | .lockTx _ rest | .notifyEmpty _ rest | .notifyFull _ rest | .unlockTx _ rest | .shutdown _ rest
  | .frame _ rest _ | .close _ rest | .joinRecv _ rest | .joinSend _ rest | .relockTx _ rest | .clear _ rest
  | .zero _ rest | .reunlockTx _ rest => rest
  | _ => []

namespace Server

variable {s s' : Server} {t : Thread} {x : Input} {i r : ℕ}

/-! ## The sessions that `Stop` has behind it -/

/-- While `Stop` holds `m_clientsMutex`, a client is not active or is still ahead of it. -/
def Stopping (s : Server) : Prop :=
  s.stop.HoldsClients → ∀ r ∈ s.clients, r ∈ s.stop.ahead ∨ (s.sess r).active = false

/-- The session has been in `m_clients`: it is, or it has ended. -/
structure Known (s : Server) (r : ℕ) : Prop where
  made : r < s.count
  here : r ∈ s.clients ∨ (s.sess r).active = false
  pending : ∀ k, r ∉ (s.accept k).session

/-- The session has been in `m_clients` and is not active any more. -/
def Ended (s : Server) (r : ℕ) : Prop := s.Known r ∧ (s.sess r).active = false

theorem Known.of_mem (hf : s.Fresh) (hg : s.Registered) (hr : r ∈ s.clients) : s.Known r :=
  ⟨hf.clients r hr, .inl hr, fun k hk => hg.pending k r hk hr⟩

/-- A session that is not being started stays inactive. -/
theorem inactive_step (h : s.step (t, x) = some s') (hp : ∀ k, r ∉ (s.accept k).session)
    (ha : (s.sess r).active = false) : (s'.sess r).active = false := by
  by_contra hact
  rcases step_active h (by simpa using hact) with h1 | ⟨k, -, h1⟩
  · simp [ha] at h1
  · exact hp k (by simp [h1, AcceptPc.session])

theorem pending_step (h : s.step (t, x) = some s') (hlt : r < s.count) (hp : ∀ k, r ∉ (s.accept k).session) (k : ℕ) :
    r ∉ (s'.accept k).session := by
  intro hr
  by_cases ht : t = .accept k
  · subst ht
    rcases (acceptStep_frame h).2.2.1 r hr with h1 | ⟨rfl, -⟩
    · exact hp k h1
    · exact Nat.lt_irrefl _ hlt
  · exact hp k ((step_pc h).accept k ht ▸ hr)

theorem stopStep_ahead (h : s.stopStep x = some s') (hh : s'.stop.HoldsClients) (hr : r ∈ s'.clients) :
    r ∈ s.clients ∧ (s.stop.HoldsClients → r ∈ s.stop.ahead → r ∈ s'.stop.ahead ∨ (s'.sess r).active = false) ∧
      (s.stop.HoldsClients ∨ r ∈ s'.stop.ahead) := by
  unfold stopStep at h
  repeat' split at h
  all_goals simp only [Option.some.injEq, reduceCtorEq] at h
  all_goals subst h
  all_goals simp only [setStop, modify, Function.update_apply, StopPc.ahead, StopPc.HoldsClients, *] at hh hr ⊢
  all_goals grind -linarith

/-- No accept thread runs while `Stop` holds `m_clientsMutex`. -/
theorem acceptStep_not_stopping {k : ℕ} (hd : s.AcceptDone) (h : s.acceptStep k x = some s') :
    ¬ s.stop.HoldsClients := by
  intro hh
  have hj : s.stop.Joined k := by cases hp : s.stop <;> simp [hp, StopPc.HoldsClients] at hh <;> trivial
  simp [acceptStep, hd k (.inr hj)] at h

theorem Stopping.step (hs : s.Stopping) (hg : s.Registered) (hd : s.AcceptDone) (h : s.step (t, x) = some s') :
    s'.Stopping := by
  intro hh r hr
  by_cases ht : t = .stop
  · subst ht
    obtain ⟨hmem, hahead, hheld⟩ := stopStep_ahead h hh hr
    rcases hheld with hheld | hnow
    · rcases hs hheld r hmem with h1 | h1
      · exact hahead hheld h1
      · exact .inr (inactive_step (t := .stop) h (fun k hk => hg.pending k r hk hmem) h1)
    · exact .inl hnow
  · rw [(step_pc h).stop ht] at hh ⊢
    have hcl : s'.clients = s.clients := by
      cases t with
      | accept k => exact absurd hh (acceptStep_not_stopping hd h)
      | recv i => exact (recvStep_frame h).2.1
      | send i => exact (sendStep_frame h).2.1
      | stop => exact absurd rfl ht
    rw [hcl] at hr
    exact (hs hh r hr).imp_right (inactive_step h fun k hk => hg.pending k r hk hr)

theorem stopStep_clients_cleared (h : s.stopStep x = some s') :
    s'.clients = s.clients ∨ s.stop = .clearClients ∧ ∀ r, s'.sess r = s.sess r := by
  unfold stopStep at h
  repeat' split at h
  all_goals simp only [Option.some.injEq, reduceCtorEq] at h
  all_goals subst h
  all_goals first
    | exact .inl rfl
    | exact .inr ⟨‹_›, fun _ => rfl⟩

theorem Known.step (hk : s.Known r) (hs : s.Stopping) (h : s.step (t, x) = some s') : s'.Known r := by
  obtain ⟨hlt, hhere, hp⟩ := hk
  refine ⟨?_, ?_, pending_step h hlt hp⟩
  · cases t with
    | accept k => exact hlt.trans_le (acceptStep_frame h).1
    | recv i => exact (recvStep_frame h).1 ▸ hlt
    | send i => exact (sendStep_frame h).1 ▸ hlt
    | stop => exact (stopStep_frame h).1 ▸ hlt
  · rcases hhere with hmem | hina
    · by_cases ht : t = .stop
      · subst ht
        rcases stopStep_clients_cleared h with hcl | ⟨hpc, hsess⟩
        · exact .inl (hcl ▸ hmem)
        · -- `m_clients` is cleared when all sessions have ended
          have := hs (by rw [hpc]; trivial) r hmem
          rw [hpc] at this
          exact .inr (hsess r ▸ this.resolve_left (by simp [StopPc.ahead]))
      · exact .inl (step_clients_subset h ht r hmem)
    · exact .inr (inactive_step h hp hina)

theorem Ended.step (he : s.Ended r) (hs : s.Stopping) (h : s.step (t, x) = some s') : s'.Ended r :=
  ⟨he.1.step hs h, inactive_step h he.1.pending he.2⟩

/-! ## Broadcasts that leave a recipient out -/

/-- `SendMsg` appends to the queue of a session that it has just found active, and gives up on one that is not. -/
theorem recvStep_retest (h : s.recvStep i x = some s') {c : Call} :
    (s'.recv i = .sendPush c → (s.sess c.dest).active = true) ∧
      (s'.recv i = .sendReturn c → (s'.sess c.dest).active = false) := by
  unfold recvStep at h
  repeat' split at h
  all_goals simp only [Option.some.injEq, reduceCtorEq] at h
  all_goals subst h
  all_goals simp only [setRecv, modify, Function.update_self]
  all_goals grind -linarith

/-! ## The broadcasts of a session -/

/-- The broadcast that the `RecvLoop` of `i` is in, and the broadcasts it has returned from. -/
structure Tally (s : Server) (i : ℕ) : Prop where
  count : (s.sess i).decoded.length = (s.sess i).returned + if (s.recv i).msg = none then 0 else 1
  last : ∀ m ∈ (s.recv i).msg, (s.sess i).decoded.getLast? = some m
  nodup : (s.recv i).todo.Nodup
  todo : ∀ r ∈ (s.recv i).todo, r ≠ i ∧ (s.sess i).since r ≠ none
  since : ∀ r k, (s.sess i).since r = some k → r ≠ i ∧ s.Known r ∧
    (k < (s.sess i).returned ∨ k = (s.sess i).returned ∧ (s.recv i).Snapped)
  refused : ∀ c, s.recv i = .sendReturn c → (s.sess c.dest).active = false

/-- What `r` has received from `i` is what is due, or the session `r` has ended and it is a part of that. -/
def Delivered (s : Server) (i r : ℕ) : Prop :=
  s.log i r = s.due i r ∨ s.Ended r ∧ s.log i r <+: s.due i r ∧ ∀ c, s.recv i = .sendPush c → c.dest ≠ r

/-- The recipients that a broadcast has before it have been in `m_clients`. -/
theorem Tally.known (hg : s.Tally i) (hr : r ∈ (s.recv i).todo) : s.Known r := by
  obtain ⟨k, hk⟩ := Option.ne_none_iff_exists'.1 (hg.todo r hr).2
  exact (hg.since r k hk).2.1

/-- The message of the broadcast in progress is the last one decoded. -/
theorem Tally.decoded_eq (hg : s.Tally i) {msg : List UInt8} (hm : (s.recv i).msg = some msg) :
    ∃ l, (s.sess i).decoded = l ++ [msg] ∧ l.length = (s.sess i).returned := by
  obtain ⟨l, hl⟩ := List.getLast?_eq_some_iff.1 (hg.last msg hm)
  refine ⟨l, hl, ?_⟩
  have hc := hg.count
  rw [hl, hm] at hc
  simpa using hc

/-- The broadcast in progress is the first one of `r` or a later one. -/
theorem Tally.since_le (hg : s.Tally i) {k : ℕ} (hk : (s.sess i).since r = some k) : k ≤ (s.sess i).returned := by
  rcases (hg.since r k hk).2.2 with h | ⟨h, -⟩ <;> omega

theorem Tally.cast_step (hg : s.Tally i) (hf : s.Fresh) (hreg : s.Registered) (hk : ∀ r, s.Known r → s'.Known r)
    (h : CastStep s s' i) (hret : ∀ c, s'.recv i = .sendReturn c → (s'.sess c.dest).active = false) : s'.Tally i := by
  obtain ⟨hcount, hlast, hnodup, htodo, hsince, -⟩ := hg
  cases h with
  | silent hp hd hr hs hm hsn ht =>
    exact ⟨by rw [hd, hr, hm, hcount], by rwa [hd, hm], by rwa [ht], by rwa [ht, hs], fun r k hk' => by
      rw [hs] at hk'
      rw [hr, hsn]
      exact (hsince r k hk').imp_right (And.imp_left (hk r)), hret⟩
  | decode msg hp hd hr hs hp' =>
    refine ⟨?_, ?_, ?_, ?_, fun r k hk' => ?_, hret⟩
    · rw [hd, hr, hp', List.length_append, hcount, hp]
      simp [RecvPc.msg]
    · simp [hd, hp', RecvPc.msg]
    · simp [hp', RecvPc.todo, RecvPc.dests]
    · simp [hp', RecvPc.todo, RecvPc.dests]
    · rw [hs] at hk'
      rw [hr]
      obtain ⟨h1, h2, h3⟩ := hsince r k hk'
      exact ⟨h1, hk r h2, .inl (h3.resolve_right fun h4 => not_snapped_of_msg hp h4.2)⟩
  | snapshot msg hp hd hr hs hp' =>
    have hn : (s.sess i).decoded.length - 1 = (s.sess i).returned := by rw [hcount, hp]; simp [RecvPc.msg]
    have hmem : ∀ r, r ∈ (s.clients.filter fun r => r ≠ i) ↔ r ∈ s.clients ∧ r ≠ i := fun r => by simp
    refine ⟨by simp [hd, hr, hp', hcount, hp, RecvPc.msg], by simpa [hd, hp', hp, RecvPc.msg] using hlast, ?_,
      fun r hr' => ?_, fun r k hk' => ?_, hret⟩
    · rw [hp']
      exact hreg.nodup.filter _
    · replace hr' : r ∈ s.clients.filter fun r => r ≠ i := by rwa [hp'] at hr'
      refine ⟨((hmem r).1 hr').2, ?_⟩
      rw [hs, noteSince]
      split
      · simp
      · rename_i hold
        exact fun hnone => hold ⟨hnone, hr'⟩
    · rw [hs, noteSince, hn] at hk'
      rw [hr, hp']
      split at hk'
      · rename_i hr'
        cases hk'
        exact ⟨((hmem r).1 hr'.2).2, hk r (.of_mem hf hreg ((hmem r).1 hr'.2).1),
          .inr ⟨rfl, by simp [RecvPc.Snapped, RecvPc.msg]⟩⟩
      · obtain ⟨h1, h2, h3⟩ := hsince r k hk'
        exact ⟨h1, hk r h2, h3.imp_right fun h4 => ⟨h4.1, by simp [RecvPc.Snapped, RecvPc.msg]⟩⟩
  | push c hp hd hr hs hp' =>
    simp only [hp, RecvPc.todo, RecvPc.dests] at hnodup htodo
    refine ⟨by simp [hd, hr, hp', hcount, hp, RecvPc.msg], by simpa [hd, hp', hp, RecvPc.msg] using hlast, ?_,
      fun r hr' => ?_, fun r k hk' => ?_, hret⟩
    · rw [hp']
      exact (List.nodup_cons.1 hnodup).2
    · rw [hs]
      rw [hp'] at hr'
      exact htodo r (List.mem_cons_of_mem _ hr')
    · rw [hs] at hk'
      rw [hr, hp']
      obtain ⟨h1, h2, h3⟩ := hsince r k hk'
      exact ⟨h1, hk r h2, h3.imp_right fun h4 => ⟨h4.1, by simp [RecvPc.Snapped, RecvPc.msg]⟩⟩
  | ret msg hp hd hr hs hp' =>
    refine ⟨by simp [hd, hr, hp', hcount, hp, RecvPc.msg], by simp [hp', RecvPc.msg],
      by simp [hp', RecvPc.todo, RecvPc.dests], by simp [hp', RecvPc.todo, RecvPc.dests], fun r k hk' => ?_, hret⟩
    rw [hs] at hk'
    rw [hr]
    obtain ⟨h1, h2, h3⟩ := hsince r k hk'
    exact ⟨h1, hk r h2, .inl (by rcases h3 with h3 | ⟨h3, -⟩ <;> omega)⟩

theorem SkipStep.before {c : Call} (h : SkipStep s s' i c) :
    (s.recv i).msg = some c.msg ∧ (s.recv i).todo = c.dest :: c.rest ∧ (s.recv i).Snapped ∧
      (s.recv i).pushed r = [] := by
  rcases h.pc with ⟨hp, -⟩ | hp <;> rw [hp] <;> exact ⟨rfl, rfl, nofun, rfl⟩

theorem Tally.skip_step {c : Call} (hg : s.Tally i) (hk : ∀ r, s.Known r → s'.Known r) (h : SkipStep s s' i c) :
    s'.Tally i := by
  obtain ⟨hcount, hlast, hnodup, htodo, hsince, -⟩ := hg
  obtain ⟨hmsg, ht, hsn, -⟩ := h.before (r := i)
  rw [ht] at hnodup htodo
  rw [hmsg] at hcount hlast
  refine ⟨by simp [h.decoded, h.returned, h.pc', hcount, RecvPc.msg], by simpa [h.decoded, h.pc', RecvPc.msg] using hlast,
    ?_, fun r hr => ?_, fun r k hk' => ?_, by simp [h.pc']⟩
  · rw [h.pc']
    exact (List.nodup_cons.1 hnodup).2
  · rw [h.since]
    exact htodo r (List.mem_cons_of_mem _ (by rwa [h.pc'] at hr))
  · rw [h.since] at hk'
    rw [h.returned, h.pc']
    obtain ⟨h1, h2, h3⟩ := hsince r k hk'
    exact ⟨h1, hk r h2, h3.imp_right fun h4 => ⟨h4.1, by simp [RecvPc.Snapped, RecvPc.msg]⟩⟩

/-- A step of another thread. -/
theorem Tally.of_others (hg : s.Tally i) (h : s.step (t, x) = some s') (hf : s.Fresh)
    (hk : ∀ r, s.Known r → s'.Known r) (ht : t ≠ .recv i) : s'.Tally i := by
  obtain ⟨hd, hr, hs⟩ := step_history h hf ht
  have hp := (step_pc h).recv i ht
  refine ⟨by rw [hd, hr, hp, hg.count], by rw [hd, hp]; exact hg.last, hp ▸ hg.nodup, ?_, fun r k hk' => ?_,
    fun c hc => ?_⟩
  · rw [hp, hs]
    exact hg.todo
  · rw [hs] at hk'
    rw [hr, hp]
    exact (hg.since r k hk').imp_right (And.imp_left (hk r))
  · rw [hp] at hc
    exact inactive_step h (hg.known (by simp [hc, RecvPc.todo, RecvPc.dests])).pending (hg.refused c hc)

/-! ## What is due -/

/-- More broadcasts done with `r`, of no fewer messages: no less is due. -/
theorem due_isPrefix (hs : (s'.sess i).since = (s.sess i).since) (hd : (s'.sess i).decoded = (s.sess i).decoded)
    (hr : s.reached i r ≤ s'.reached i r) : s.due i r <+: s'.due i r := by
  rw [due, due, hs, hd]
  split
  · exact List.prefix_refl _
  · exact (List.take_prefix_take_left hr).drop _

theorem reached_of_not_snapped (h : ¬ (s.recv i).Snapped) : s.reached i r = (s.sess i).returned := by
  simp [reached, h]

/-- **What is due after a `CastStep`**: one more message for the recipient that just got it, and for a session that has
ended. -/
theorem Tally.due_cast (hg : s.Tally i) (h : CastStep s s' i) (r : ℕ) :
    s'.due i r = s.due i r ++ (s.recv i).pushed r ∨
      s.Ended r ∧ (s.recv i).pushed r = [] ∧ s.due i r <+: s'.due i r := by
  cases h with
  | silent hp hd hr hs hm hsn ht =>
    have hno : (s.recv i).pushed r = [] := by cases hq : s.recv i <;> first | rfl | exact absurd hq (hp _)
    rw [hno, List.append_nil]
    simp only [due, reached, hd, hr, hs, hsn, ht, true_or]
  | decode msg hp hd hr hs hp' =>
    have hlen : (s.sess i).decoded.length = (s.sess i).returned := by simpa [hp] using hg.count
    have hns : ¬ (s'.recv i).Snapped := hp' ▸ id
    have hno : (s.recv i).pushed r = [] := by cases hq : s.recv i <;> simp [hq, RecvPc.msg] at hp <;> rfl
    left
    rw [hno, List.append_nil, due, due, reached_of_not_snapped hns, reached_of_not_snapped (not_snapped_of_msg hp), hd,
      hr, hs, List.take_append_of_le_length hlen.ge]
  | snapshot msg hp hd hr hs hp' =>
    have hns : ¬ (s.recv i).Snapped := hp ▸ id
    have hno : (s.recv i).pushed r = [] := by rw [hp]; rfl
    have hn : (s.sess i).decoded.length - 1 = (s.sess i).returned := by rw [hg.count, hp]; simp [RecvPc.msg]
    rw [hno, List.append_nil]
    cases hsi : (s.sess i).since r with
    | none =>
      left
      simp only [due, reached, hd, hr, hs, hp', hn, RecvPc.Snapped, RecvPc.msg, RecvPc.todo, RecvPc.dests, noteSince,
        hsi]
      by_cases hcl : r ∈ s.clients <;> by_cases hri : r = i <;> simp [hcl, hri]
    | some k =>
      have hs' : (s'.sess i).since r = some k := by simp [hs, noteSince, hsi]
      obtain ⟨hri, hknown, -⟩ := hg.since r k hsi
      rcases hknown.here with hcl | hina
      · left
        have htodo : r ∈ (s'.recv i).todo := by
          rw [hp']
          simpa [RecvPc.todo, RecvPc.dests] using ⟨hcl, hri⟩
        have hreached : s'.reached i r = s.reached i r := by
          rw [reached_of_not_snapped hns, reached, hr]
          simp [htodo]
        simp only [due, hs', hsi, hd, hreached]
      · refine .inr ⟨⟨hknown, hina⟩, rfl, ?_⟩
        simp only [due, hs', hsi, hd]
        refine (List.take_prefix_take_left ?_).drop _
        rw [reached_of_not_snapped hns, reached, hr]
        exact Nat.le_add_right _ _
  | push c hp hd hr hs hp' =>
    left
    obtain ⟨l, hl, hlen⟩ := hg.decoded_eq (by rw [hp]; rfl)
    have hnd := hg.nodup
    have htodo := hg.todo r
    simp only [hp, RecvPc.todo, RecvPc.dests, List.nodup_cons, List.mem_cons] at hnd htodo
    simp only [due, reached, hd, hr, hs, hp, hp', RecvPc.Snapped, RecvPc.msg, RecvPc.todo, RecvPc.dests, RecvPc.pushed]
    by_cases hrd : c.dest = r
    · -- The recipient is done with this broadcast from now on.
      subst hrd
      obtain ⟨k, hk⟩ := Option.ne_none_iff_exists'.1 (htodo (.inl rfl)).2
      have hkn : k ≤ l.length := hlen ▸ hg.since_le hk
      have htake : (l ++ [c.msg]).take (l.length + 1) = l ++ [c.msg] := List.take_of_length_le (by simp)
      simp [hk, hl, hnd.1, ← hlen, htake, List.drop_append_of_le_length hkn]
    · simp [hrd, Ne.symm hrd]
  | ret msg hp hd hr hs hp' =>
    left
    simp [due, reached, hd, hr, hs, hp, hp', RecvPc.Snapped, RecvPc.msg, RecvPc.todo, RecvPc.dests, RecvPc.pushed]

/-- After a `SkipStep` more is due for the recipient that was left out. -/
theorem due_skip {c : Call} (h : SkipStep s s' i c) (r : ℕ) :
    s.due i r <+: s'.due i r ∧ (r ≠ c.dest → s'.due i r = s.due i r) := by
  obtain ⟨-, ht, hsn, -⟩ := h.before (r := r)
  have hsn' : (s'.recv i).Snapped := by simp [h.pc', RecvPc.Snapped, RecvPc.msg]
  have ht' : (s'.recv i).todo = c.rest := by rw [h.pc']; rfl
  have hreached : s.reached i r ≤ s'.reached i r ∧ (r ≠ c.dest → s'.reached i r = s.reached i r) := by
    simp only [reached, h.returned, ht, ht', hsn, hsn', true_and, List.mem_cons, not_or]
    refine ⟨?_, fun hne => by simp [hne]⟩
    by_cases hr : r ∈ c.rest
    · simp [hr]
    · rw [if_pos hr]
      split <;> omega
  refine ⟨due_isPrefix h.since h.decoded hreached.1, fun hne => ?_⟩
  rw [due, due, h.since, h.decoded, hreached.2 hne]

/-! ## What is received -/

/-- `Stop` takes nothing from a session but what is queued when it has ended. -/
theorem stopStep_received (h : s.stopStep x = some s') (r : ℕ) :
    s'.received r = s.received r ∨ ∃ rest, s.stop = .clear r rest ∧ s'.received r <+: s.received r := by
  unfold received
  unfold stopStep at h
  repeat' split at h
  all_goals simp only [Option.some.injEq, reduceCtorEq] at h
  all_goals subst h
  all_goals simp only [setStop, modify, Function.update_apply]
  all_goals grind -linarith [List.prefix_append]

theorem log_isPrefix (h : s'.received r <+: s.received r) : s'.log i r <+: s.log i r := (h.filter _).map _

/-- A step of the sender. -/
theorem Delivered.sender_step (hd : s.Delivered i r) (hg : s.Tally i) (hs : s.Stopping)
    (h : s.recvStep i x = some s') : s'.Delivered i r := by
  have hlog : s'.log i r = s.log i r ++ (s.recv i).pushed r := by
    rw [log_of_pushed (recvStep_received h r), if_pos rfl]
  -- A session that has ended is not appended to.
  have hpush : s.Ended r → ∀ c, s'.recv i = .sendPush c → c.dest ≠ r := by
    rintro he c hc rfl
    have hact := (recvStep_retest h).1 hc
    rw [he.2] at hact
    cases hact
  rcases recvStep_casts h with hc | ⟨c, hc⟩
  · rcases hd with heq | ⟨he, hpre, hno⟩
    · rcases hg.due_cast hc r with h1 | ⟨he, hnil, h1⟩
      · exact .inl (by rw [hlog, h1, heq])
      · rw [hnil, List.append_nil] at hlog
        exact .inr ⟨he.step (t := .recv i) hs h, hlog ▸ heq ▸ h1, hpush he⟩
    · have hnil : (s.recv i).pushed r = [] := by
        cases hp : s.recv i <;> simp only [RecvPc.pushed]
        exact if_neg (hno _ hp)
      rw [hnil, List.append_nil] at hlog
      refine .inr ⟨he.step (t := .recv i) hs h, hlog ▸ hpre.trans ?_, hpush he⟩
      rcases hg.due_cast hc r with h1 | ⟨-, -, h1⟩
      · exact h1 ▸ List.prefix_append _ _
      · exact h1
  · obtain ⟨-, ht, -, hnil⟩ := hc.before (r := r)
    obtain ⟨hmore, hsame⟩ := due_skip hc r
    have hno : ∀ c, s'.recv i = .sendPush c → c.dest ≠ r := by simp [hc.pc']
    rw [hnil, List.append_nil] at hlog
    by_cases hr : r = c.dest
    · have he : s.Ended r := by
        subst hr
        refine ⟨hg.known (by simp [ht]), ?_⟩
        rcases hc.pc with ⟨-, ha⟩ | hp
        · exact ha
        · exact hg.refused c hp
      refine .inr ⟨he.step (t := .recv i) hs h, hlog ▸ List.IsPrefix.trans ?_ hmore, hno⟩
      rcases hd with heq | ⟨-, hpre, -⟩
      · exact heq ▸ List.prefix_refl _
      · exact hpre
    · rw [Delivered, hlog, hsame hr]
      rcases hd with heq | ⟨he, hpre, -⟩
      · exact .inl heq
      · exact .inr ⟨he.step (t := .recv i) hs h, hpre, hno⟩

/-- A step of another thread. -/
theorem Delivered.of_others (hd : s.Delivered i r) (hf : s.Fresh) (hs : s.Stopping)
    (hown : Owned (s.sess r).txMutex (s.HoldsTx r)) (hstored : r ∈ s.stop.stored → s.Ended r)
    (h : s.step (t, x) = some s') (ht : t ≠ .recv i) : s'.Delivered i r := by
  have hpc := (step_pc h).recv i ht
  have hdue := due_of_others h hf ht r
  have hkeep : s'.log i r = s.log i r → s'.Delivered i r := by
    intro hlog
    rw [Delivered, hlog, hdue, hpc]
    exact hd.imp_right (And.imp_left fun he => he.step hs h)
  by_cases hstop : t = .stop
  · subst hstop
    rcases stopStep_received h r with h1 | ⟨rest, hp, h1⟩
    · exact hkeep (log_of_received h1)
    · -- the queue is cleared, and nobody is about to append to it
      have he := hstored (by rw [hp]; rfl)
      refine .inr ⟨he.step hs h, (log_isPrefix h1).trans ?_, fun c hc hr => ?_⟩
      · rw [hdue]
        rcases hd with heq | ⟨-, hpre, -⟩
        · exact heq ▸ List.prefix_refl _
        · exact hpre
      · have hstopTx : s.HoldsTx r .stop := by simp [HoldsTx, hp, StopPc.holdsTx]
        have hrecvTx : s.HoldsTx r (.recv i) := by simp [HoldsTx, hpc ▸ hc, RecvPc.holdsTx, hr]
        cases hown.excl hstopTx hrecvTx
  · rcases step_received h hf hstop r with h1 | ⟨j, rfl, h1⟩
    · exact hkeep (log_of_received h1)
    · refine hkeep ?_
      rw [log_of_pushed h1, if_neg (by simpa using ht), List.append_nil]

/-- Nobody receives a message of its own. -/
theorem step_src (h : s.step (t, x) = some s') (hf : s.Fresh) (hg : ∀ i, s.Tally i)
    (hsrc : ∀ r, ∀ m ∈ s.received r, m.src ≠ r) (r : ℕ) : ∀ m ∈ s'.received r, m.src ≠ r := by
  intro m hm
  by_cases hstop : t = .stop
  · subst hstop
    rcases stopStep_received h r with h1 | ⟨-, -, h1⟩
    · exact hsrc r m (h1 ▸ hm)
    · exact hsrc r m (h1.subset hm)
  · rcases step_received h hf hstop r with h1 | ⟨j, rfl, h1⟩
    · exact hsrc r m (h1 ▸ hm)
    · rw [h1, List.mem_append, List.mem_map] at hm
      rcases hm with hm | ⟨msg, hmsg, rfl⟩
      · exact hsrc r m hm
      · refine Ne.symm ((hg j).todo r ?_).1
        cases hp : s.recv j <;> simp [hp, RecvPc.pushed] at hmsg
        simp [RecvPc.todo, RecvPc.dests, hmsg.1]

theorem Tally.step (hg : s.Tally i) (hf : s.Fresh) (hreg : s.Registered) (hs : s.Stopping)
    (h : s.step (t, x) = some s') : s'.Tally i := by
  have hk : ∀ r, s.Known r → s'.Known r := fun r hr => hr.step hs h
  by_cases ht : t = .recv i
  · subst ht
    rcases recvStep_casts h with hc | ⟨c, hc⟩
    · exact hg.cast_step hf hreg hk hc fun c => (recvStep_retest h).2
    · exact hg.skip_step hk hc
  · exact hg.of_others h hf hk ht

/-- What is due, in numbers. -/
theorem Tally.reached_le (hg : s.Tally i) (r : ℕ) :
    (s.sess i).returned ≤ s.reached i r ∧ s.reached i r ≤ (s.sess i).decoded.length := by
  refine ⟨Nat.le_add_right _ _, ?_⟩
  rw [hg.count, reached]
  by_cases hm : (s.recv i).msg = none
  · simp [not_snapped_of_msg hm]
  · rw [if_neg hm]
    split <;> omega

/-- A part of a segment that begins where it begins. -/
theorem eq_segment_of_prefix {α : Type*} {l xs : List α} {k n : ℕ} (h : l <+: (xs.take n).drop k) (hn : k ≤ n)
    (hlen : n ≤ xs.length) : ∃ m, k ≤ m ∧ m ≤ xs.length ∧ l = (xs.take m).drop k := by
  have hle := h.length_le
  rw [List.length_drop, List.length_take, Nat.min_eq_left hlen] at hle
  refine ⟨k + l.length, Nat.le_add_right _ _, by omega, (List.prefix_iff_eq_take.1 h).trans ?_⟩
  rw [List.drop_take, List.drop_take, List.take_take, Nat.min_eq_left hle, Nat.add_sub_cancel_left]

/-- What `r` received from `i` is a segment of what `i` decoded, which begins with the first broadcast whose snapshot
contained `r` and, while the session `r` is active, reaches at least to the last broadcast that has returned; nothing
that `r` received is its own. -/
def FannedOutSafely (s : Server) (i r : ℕ) : Prop :=
  (match (s.sess i).since r with
    | none => s.log i r = []
    | some k => ∃ m, k ≤ m ∧ m ≤ (s.sess i).decoded.length ∧ s.log i r = ((s.sess i).decoded.take m).drop k ∧
        ((s.sess r).active = true → (s.sess i).returned ≤ m)) ∧
  ∀ msg ∈ s.received r, msg.src ≠ r

theorem Delivered.segment (hd : s.Delivered i r) (hg : s.Tally i) (hsrc : ∀ m ∈ s.received r, m.src ≠ r) :
    s.FannedOutSafely i r := by
  obtain ⟨hle, hlen⟩ := hg.reached_le r
  refine ⟨?_, hsrc⟩
  have hdue : s.due i r = match (s.sess i).since r with
      | none => []
      | some k => ((s.sess i).decoded.take (s.reached i r)).drop k := rfl
  split
  · rename_i hnone
    simp only [hnone] at hdue
    rw [Delivered, hdue] at hd
    exact hd.elim id fun h1 => List.prefix_nil.1 h1.2.1
  · rename_i k hk
    rw [hk] at hdue
    have hkr : k ≤ s.reached i r := (hg.since_le hk).trans hle
    rcases hd with h1 | ⟨he, h1, -⟩
    · exact ⟨_, hkr, hlen, h1.trans hdue, fun _ => hle⟩
    · rw [hdue] at h1
      obtain ⟨m, hkm, hm, hlog⟩ := eq_segment_of_prefix h1 hkr hlen
      exact ⟨m, hkm, hm, hlog, fun ha => by simp [he.2] at ha⟩

end Server

/-! ## In every reachable state -/

variable {ok : Server → Thread × Input → Prop} {s : Server}

/-- While `Stop` holds `m_clientsMutex`, the clients it has behind it are not active. -/
theorem stopping (h : server.Reach ok s) : s.Stopping := by
  refine h.invariant Server.Stopping ?_ fun s ⟨t, x⟩ s' hr hs _ hst =>
    hs.step (registered hr) (acceptDone hr) hst
  rintro s ⟨n, rfl⟩ hh
  exact hh.elim

/-- `Stop` has the clients in hand. -/
theorem stop_sessions (h : server.Reach ok s) : ∀ r ∈ s.stop.sessions, r ∈ s.clients := by
  refine h.invariant (fun s => ∀ r ∈ s.stop.sessions, r ∈ s.clients) ?_ ?_
  · rintro s ⟨n, rfl⟩ r hr
    simp [Server.start, StopPc.sessions] at hr
  · rintro s ⟨t, x⟩ s' - ih - hst r hr
    by_cases ht : t = .stop
    · subst ht
      have hmem : r ∈ s.clients := ((Server.stopStep_frame hst).2.2.1 r hr).elim (ih r) id
      rcases Server.stopStep_clients_cleared hst with hcl | ⟨hpc, -⟩
      · exact hcl ▸ hmem
      · cases x <;> simp only [server, Server.step, Server.stopStep, hpc, Option.some.injEq, reduceCtorEq] at hst
        subst hst
        simp [Server.setStop, StopPc.sessions] at hr
    · exact Server.step_clients_subset hst ht r (ih r ((Server.step_pc hst).stop ht ▸ hr))

theorem stored_ended (h : server.Reach ok s) {r : ℕ} (hr : r ∈ s.stop.stored) : s.Ended r := by
  refine ⟨.of_mem (fresh h) (registered h) (stop_sessions h r ?_), stored_inactive h hr⟩
  cases hp : s.stop <;> simp [hp, StopPc.stored] at hr <;> simp [StopPc.sessions, hr]

theorem tally (h : server.Reach ok s) (i : ℕ) : s.Tally i := by
  refine h.invariant (fun s => ∀ i, s.Tally i) ?_ (fun s ⟨t, x⟩ s' hr hg _ hst i =>
    (hg i).step (fresh hr) (registered hr) (stopping hr) hst) i
  rintro s ⟨n, rfl⟩ i
  constructor <;> simp [Server.start, Session.new, RecvPc.msg, RecvPc.todo, RecvPc.dests]

theorem delivered (h : server.Reach ok s) (i r : ℕ) : s.Delivered i r := by
  refine h.invariant (fun s => s.Delivered i r) ?_ ?_
  · rintro s ⟨n, rfl⟩
    exact .inl (by simp [Server.start, Session.new, Server.log, Server.received, SendPc.popped, Server.due])
  · rintro s ⟨t, x⟩ s' hr ih - hst
    by_cases ht : t = .recv i
    · subst ht
      exact ih.sender_step (tally hr i) (stopping hr) hst
    · exact ih.of_others (fresh hr) (stopping hr) (tx_owned hr r) (stored_ended hr) hst ht

theorem received_src (h : server.Reach ok s) (r : ℕ) : ∀ m ∈ s.received r, m.src ≠ r := by
  refine h.invariant (fun s => ∀ r, ∀ m ∈ s.received r, m.src ≠ r) ?_ (fun s ⟨t, x⟩ s' hr ih _ hst r =>
    Server.step_src hst (fresh hr) (tally hr) ih r) r
  rintro s ⟨n, rfl⟩ r m hm
  simp [Server.start, Session.new, Server.received, SendPc.popped] at hm

/-- **The fan-out is safe in every run**, whichever sessions end and whenever the server is stopped: nothing is lost in
between, doubled, reordered, or sent back. -/
theorem received_segment (h : server.Reachable s) (i r : ℕ) : s.FannedOutSafely i r :=
  (delivered h i r).segment (tally h i) (received_src h r)

/-- The first of two clients sends a byte, and the session of the second one ends before `SendMsg` tests it. -/
def endBeforeSend : List (Thread × Input) :=
  [(Thread.recv 0, Input.count 4), (Thread.recv 0, Input.count 1)] ++ List.replicate 3 (Thread.recv 0, Input.go) ++
    [(Thread.recv 1, Input.go), (Thread.recv 1, Input.go), (Thread.recv 1, Input.closed), (Thread.recv 1, Input.go)] ++
    List.replicate 4 (Thread.recv 0, Input.go)

theorem received_segment_ended :
    (server.run (twoClients (frame [104])) endBeforeSend).map
      (fun s => ((s.sess 0).since 1, (s.sess 0).returned, (s.sess 1).active, s.log 0 1)) =
        some (some 0, 1, false, []) ∧
    ∀ s ∈ server.run (twoClients (frame [104])) endBeforeSend, s.FannedOutSafely 0 1 := by
  refine ⟨by decide +kernel, fun s hs => received_segment ?_ 0 1⟩
  exact (reachable_twoClients (frame [104])).run_along hs (System.along_true _ _)

end TcpChat.FramingServer
