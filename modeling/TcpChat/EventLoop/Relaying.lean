import TcpChat.EventLoop.Session
import TcpChat.Lib.Relay
import TcpChat.Lib.System

/-!
# The event-loop servers are relays

What the `poll` and the `epoll` server have in common: the sessions are those who listen, `BroadcastMsg` is what is said,
and what `send` accepts is what is given.

* `Changes` — the invariants that every change of the sessions and of the log keeps, and `Loop`: a server keeps them all;
* `Relays` — a server shows the state of a relay;
* `Relayed` — it shows one to which the relay may have come from a given state, so that a loop refines the relay;
* `Later` — one state of a server comes after another one;
* `Agreed` — what follows for the clients.
-/

namespace TcpChat.EventLoop

open TcpChat.Lib

/-- An invariant of the sessions and of the log that every change of them keeps. -/
structure Changes (I : Server → Prop) : Prop where
  of_clients : ∀ {s s'}, I s → s'.clients = s.clients → s'.log = s.log → s'.count = s.count → I s'
  closeSocket : ∀ s fd, I s → I (s.modify fd fun c => { c with socket := none })
  accepted : ∀ s fd n, I s → I (s.modify fd (·.accepted n))
  erase : ∀ s fd, I s → I (s.erase fd)
  emplace : ∀ s cs, I s → I (s.emplace cs)
  cast : ∀ s s' msg sender,
    (∀ fd, s'.clients.lookup fd = (s.clients.lookup fd).map fun c => if c.id ≠ sender then c.postSend msg else c) →
      s'.log = s.log ++ [⟨sender, msg⟩] → s'.count = s.count → I s → I s'
  clear : ∀ s, I s → I { s with clients := ∅ }

/-- A server that changes the sessions and the log in these ways only. -/
structure Loop {ι : Type} (S : System State ι) : Prop where
  init : ∀ s, S.init s → ∃ listenSockets interest, s.server = .start listenSockets interest
  step : ∀ {I}, Changes I → ∀ s x s', I s.server → S.step s x = some s' → I s'.server

/-- The sessions are those who listen to the relay; what `send` has accepted for them is what they have been given, and what
is queued is the rest of what is due to them. -/
structure Relays (s : Server) (r : Relay ℕ UInt8) : Prop where
  numbered : Numbered s
  casts : r.casts = s.log.map fun m => (m.sender, m.msg)
  fresh : ∀ i, s.count ≤ i → r.since i = none ∧ r.given i = []
  since : ∀ fd c, s.clients.lookup fd = some c → r.since c.id = some c.since ∧ c.since ≤ s.log.length
  given : ∀ fd c, s.clients.lookup fd = some c → r.given c.id = c.sent
  due : ∀ fd c, s.clients.lookup fd = some c → r.due c.id = c.sent ++ c.sendQueue.flatten

/-- The server shows a state to which the relay may have come from `r`. -/
def Relayed (r : Relay ℕ UInt8) (s : Server) : Prop := ∃ r', Relay.medium.Leads r r' ∧ Relays s r'

theorem relays_start (listenSockets : List Fd) (interest : Fd → Option Registration) :
    Relays (.start listenSockets interest) .fresh where
  numbered := numbered_start listenSockets interest
  casts := rfl
  fresh _ _ := ⟨rfl, rfl⟩
  since fd c hc := by simp [Server.start] at hc
  given fd c hc := by simp [Server.start] at hc
  due fd c hc := by simp [Server.start] at hc

theorem Relays.relayed {s : Server} {r : Relay ℕ UInt8} (h : Relays s r) : Relayed r s := ⟨r, .refl r, h⟩

namespace Relayed

variable {s s' : Server} {r : Relay ℕ UInt8} {fd : Fd}

/-- A change that leaves the streams of the sessions alone, or drops sessions. -/
theorem move (h : Relayed r s)
    (hl : ∀ fd c', s'.clients.lookup fd = some c' → ∃ c, s.clients.lookup fd = some c ∧
      c' = { c with socket := c'.socket }) (hlog : s'.log = s.log) (hcount : s'.count = s.count) : Relayed r s' := by
  obtain ⟨r', hr, hnumbered, hcasts, hfresh, hsince, hgiven, hdue⟩ := h
  have hold : ∀ fd c', s'.clients.lookup fd = some c' → ∃ c, s.clients.lookup fd = some c ∧ c'.id = c.id ∧
      c'.since = c.since ∧ c'.sent = c.sent ∧ c'.sendQueue = c.sendQueue := by
    intro fd c' hc'
    obtain ⟨c, hc, he⟩ := hl fd c' hc'
    rw [he]
    exact ⟨c, hc, rfl, rfl, rfl, rfl⟩
  refine ⟨r', hr, ⟨fun fd c' hc' => ?_, fun fd g c' d' hc' hd' he => ?_⟩, hlog ▸ hcasts, hcount ▸ hfresh,
    fun fd c' hc' => ?_, fun fd c' hc' => ?_, fun fd c' hc' => ?_⟩
  · obtain ⟨c, hc, hid, -⟩ := hold fd c' hc'
    rw [hid, hcount]
    exact hnumbered.lt fd c hc
  · obtain ⟨c, hc, hid, -⟩ := hold fd c' hc'
    obtain ⟨d, hd, hid', -⟩ := hold g d' hd'
    exact hnumbered.inj fd g c d hc hd (by rw [← hid, he, hid'])
  · obtain ⟨c, hc, hid, hs, -⟩ := hold fd c' hc'
    rw [hid, hs, hlog]
    exact hsince fd c hc
  · obtain ⟨c, hc, hid, -, hsent, -⟩ := hold fd c' hc'
    rw [hid, hsent]
    exact hgiven fd c hc
  · obtain ⟨c, hc, hid, -, hsent, hq⟩ := hold fd c' hc'
    rw [hid, hsent, hq]
    exact hdue fd c hc

/-- A change of anything but the clients. -/
theorem of_clients (h : Relayed r s) (hc : s'.clients = s.clients) (hlog : s'.log = s.log) (hcount : s'.count = s.count) :
    Relayed r s' :=
  h.move (fun _ c' hc' => ⟨c', hc ▸ hc', rfl⟩) hlog hcount

theorem closeSocket (h : Relayed r s) (fd : Fd) : Relayed r (s.modify fd fun c => { c with socket := none }) := by
  refine h.move (fun g c' hc' => ?_) rfl rfl
  simp only [Server.modify, Table.lookup_modify, Option.map_eq_some_iff] at hc'
  obtain ⟨c, hc, rfl⟩ := hc'
  refine ⟨c, hc, ?_⟩
  split <;> rfl

theorem erase (h : Relayed r s) (fd : Fd) : Relayed r (s.erase fd) :=
  h.move (fun _ c' hc' => ⟨c', (Table.lookup_erase_eq_some.1 hc').2, rfl⟩) rfl rfl

theorem clear (h : Relayed r s) : Relayed r { s with clients := ∅ } :=
  h.move (fun fd c' hc' => by simp at hc') rfl rfl

/-- A new session joins. -/
theorem emplace (h : Relayed r s) (cs : Fd) : Relayed r (s.emplace cs) := by
  obtain ⟨r', hr, hnumbered, hcasts, hfresh, hsince, hgiven, hdue⟩ := h
  have hlen : r'.casts.length = s.log.length := by rw [hcasts, List.length_map]
  have hcount := hfresh s.count le_rfl
  have hne : ∀ fd c, s.clients.lookup fd = some c → c.id ≠ s.count := fun fd c hc => (hnumbered.lt fd c hc).ne
  refine ⟨r'.join s.count, hr.trans (Relay.leads_join hcount.1), hnumbered.emplace cs, hcasts, fun i hi => ?_,
    fun fd c hc => ?_, fun fd c hc => ?_, fun fd c hc => ?_⟩
  · have hi : s.count + 1 ≤ i := hi
    rw [Relay.join_since_of_ne (by omega)]
    exact hfresh i (by omega)
  all_goals rcases Table.lookup_emplace hc with hold | ⟨-, rfl⟩
  · rw [Relay.join_since_of_ne (hne fd c hold)]
    exact hsince fd c hold
  · exact ⟨by rw [Relay.join_since, hlen], le_rfl⟩
  · exact hgiven fd c hold
  · exact hcount.2
  · rw [Relay.due_join_of_ne (hne fd c hold)]
    exact hdue fd c hold
  · exact Relay.due_join

/-- A session says something. -/
theorem cast {msg : List UInt8} {sender : ℕ} (h : Relayed r s)
    (hl : ∀ fd, s'.clients.lookup fd = (s.clients.lookup fd).map fun c => if c.id ≠ sender then c.postSend msg else c)
    (hlog : s'.log = s.log ++ [⟨sender, msg⟩]) (hcount : s'.count = s.count) : Relayed r s' := by
  obtain ⟨r', hr, hnumbered, hcasts, hfresh, hsince, hgiven, hdue⟩ := h
  have hlen : r'.casts.length = s.log.length := by rw [hcasts, List.length_map]
  have hid : ∀ c : ClientSession, (if c.id ≠ sender then c.postSend msg else c).id = c.id := by
    intro c
    split <;> simp
  have hold : ∀ fd c', s'.clients.lookup fd = some c' → ∃ c, s.clients.lookup fd = some c ∧
      c' = if c.id ≠ sender then c.postSend msg else c := by
    intro fd c' hc'
    rw [hl, Option.map_eq_some_iff] at hc'
    obtain ⟨c, hc, rfl⟩ := hc'
    exact ⟨c, hc, rfl⟩
  refine ⟨r'.cast sender msg, hr.trans (Relay.leads_cast r' sender msg), hnumbered.update (fun _ => hid) hcount hl, ?_,
    fun i hi => hfresh i (hcount ▸ hi), fun fd c' hc' => ?_, fun fd c' hc' => ?_, fun fd c' hc' => ?_⟩
  · rw [Relay.cast, hcasts, hlog, List.map_append]
    rfl
  all_goals
    obtain ⟨c, hc, rfl⟩ := hold fd c' hc'
    rw [hid]
  · obtain ⟨hs, hle⟩ := hsince fd c hc
    rw [hlog, List.length_append]
    split
    · exact ⟨by rw [ClientSession.postSend_since]; exact hs, by rw [ClientSession.postSend_since]; omega⟩
    · exact ⟨hs, by omega⟩
  · refine (hgiven fd c hc).trans ?_
    split <;> simp
  · obtain ⟨hs, hle⟩ := hsince fd c hc
    rw [Relay.due_cast hs (hlen ▸ hle), hdue fd c hc]
    split <;> simp

/-- `send` accepts bytes. -/
theorem accepted (h : Relayed r s) (fd : Fd) (n : ℕ) : Relayed r (s.modify fd (·.accepted n)) := by
  cases hfd : s.clients.lookup fd with
  | none =>
    refine h.move (fun g c' hc' => ?_) rfl rfl
    simp only [Server.modify, Table.lookup_modify, Option.map_eq_some_iff] at hc'
    obtain ⟨c, hc, rfl⟩ := hc'
    have hg : g ≠ fd := by
      rintro rfl
      rw [hfd] at hc
      cases hc
    exact ⟨c, hc, by rw [if_neg hg]⟩
  | some c =>
    obtain ⟨r', hr, hnumbered, hcasts, hfresh, hsince, hgiven, hdue⟩ := h
    obtain ⟨part, hpart⟩ : ∃ part, (c.accepted n).sent = c.sent ++ part := by
      unfold ClientSession.accepted
      split
      · exact ⟨[], by simp⟩
      · exact ⟨_, rfl⟩
    have hgive : r'.given c.id ++ part <+: r'.due c.id := by
      rw [hgiven fd c hfd, hdue fd c hfd, ← hpart, ← ClientSession.accepted_stream c n]
      exact List.prefix_append _ _
    -- a session of the new table is the one that has sent, or an old one with another number
    have hold : ∀ g c', (s.modify fd (·.accepted n)).clients.lookup g = some c' →
        c' = c.accepted n ∨ c'.id ≠ c.id ∧ s.clients.lookup g = some c' := by
      intro g c' hc'
      simp only [Server.modify, Table.lookup_modify, Option.map_eq_some_iff] at hc'
      obtain ⟨d, hd, rfl⟩ := hc'
      by_cases hg : g = fd
      · subst hg
        rw [hfd, Option.some.injEq] at hd
        rw [if_pos rfl, hd]
        exact .inl rfl
      · rw [if_neg hg]
        exact .inr ⟨fun he => hg (hnumbered.inj g fd d c hd hfd he), hd⟩
    refine ⟨r'.give c.id part, hr.trans (Relay.leads_give hgive), hnumbered.modify fun _ => ClientSession.accepted_id, hcasts,
      fun i hi => ?_, fun g c' hc' => ?_, fun g c' hc' => ?_, fun g c' hc' => ?_⟩
    · have hlt := hnumbered.lt fd c hfd
      have hi : s.count ≤ i := hi
      rw [Relay.give_given_of_ne (by omega)]
      exact hfresh i hi
    all_goals rcases hold g c' hc' with rfl | ⟨hne, hc⟩
    · rw [ClientSession.accepted_id, ClientSession.accepted_since]
      exact hsince fd c hfd
    · exact hsince g c' hc
    · rw [ClientSession.accepted_id, Relay.give_given, hgiven fd c hfd, hpart]
    · rw [Relay.give_given_of_ne hne]
      exact hgiven g c' hc
    · rw [ClientSession.accepted_id, Relay.give_due, hdue fd c hfd, ClientSession.accepted_stream]
    · exact hdue g c' hc

end Relayed

theorem changes_relayed (r : Relay ℕ UInt8) : Changes (Relayed r) where
  of_clients h hc hlog hcount := h.of_clients hc hlog hcount
  closeSocket _ fd h := h.closeSocket fd
  accepted _ fd n h := h.accepted fd n
  erase _ fd h := h.erase fd
  emplace _ cs h := h.emplace cs
  cast _ _ _ _ hl hlog hcount h := h.cast hl hlog hcount
  clear _ h := h.clear

/-- **An event loop is a relay**, in every run. -/
theorem Loop.refines {ι : Type} {S : System State ι} (h : Loop S) :
    S.Refines (fun _ _ => True) Relay.medium fun s r => Relays s.server r where
  init s hs := by
    obtain ⟨listenSockets, interest, he⟩ := h.init s hs
    exact ⟨.fresh, rfl, he ▸ relays_start listenSockets interest⟩
  step s x s' r _ hR _ hst := h.step (changes_relayed r) s x s' hR.relayed hst

/-! ## Later states -/

/-- A server that was in the state `s₀` once: the sessions of that time that are left have been sent more since. -/
structure Later (s₀ s : Server) : Prop where
  numbered : Numbered s
  count : s₀.count ≤ s.count
  session : ∀ fd c, s.clients.lookup fd = some c → c.id < s₀.count →
    ∃ c₀, s₀.clients.lookup fd = some c₀ ∧ c₀.id = c.id ∧ c₀.sent <+: c.sent

namespace Later

variable {s₀ s s' : Server}

theorem refl (h : Numbered s) : Later s s := ⟨h, le_rfl, fun _ c hc _ => ⟨c, hc, rfl, List.prefix_rfl⟩⟩

/-- The sessions are as before, with more sent, or are gone. -/
theorem move (h : Later s₀ s) (hn : Numbered s') (hcount : s'.count = s.count)
    (hl : ∀ fd c', s'.clients.lookup fd = some c' → ∃ c, s.clients.lookup fd = some c ∧ c.id = c'.id ∧ c.sent <+: c'.sent) :
    Later s₀ s' := by
  refine ⟨hn, hcount ▸ h.count, fun fd c' hc' hlt => ?_⟩
  obtain ⟨c, hc, hid, hsent⟩ := hl fd c' hc'
  obtain ⟨c₀, hc₀, hid₀, hsent₀⟩ := h.session fd c hc (hid ▸ hlt)
  exact ⟨c₀, hc₀, hid₀.trans hid, hsent₀.trans hsent⟩

theorem update (h : Later s₀ s) {f : Fd → ClientSession → ClientSession} (hid : ∀ fd c, (f fd c).id = c.id)
    (hsent : ∀ fd c, c.sent <+: (f fd c).sent) (hcount : s'.count = s.count)
    (hl : ∀ fd, s'.clients.lookup fd = (s.clients.lookup fd).map (f fd)) : Later s₀ s' := by
  refine h.move (h.numbered.update hid hcount hl) hcount fun fd c' hc' => ?_
  rw [hl, Option.map_eq_some_iff] at hc'
  obtain ⟨c, hc, rfl⟩ := hc'
  exact ⟨c, hc, (hid fd c).symm, hsent fd c⟩

end Later

theorem changes_later (s₀ : Server) : Changes (Later s₀) where
  of_clients h hc _ hcount :=
    h.update (f := fun _ c => c) (fun _ _ => rfl) (fun _ _ => List.prefix_rfl) hcount fun _ => by rw [hc, Option.map_id']
  closeSocket s fd h := by
    refine h.update (fun g c => ?_) (fun g c => ?_) rfl fun _ => Table.lookup_modify _ <;> split
    all_goals rfl
  accepted s fd n h := by
    refine h.update (fun g c => ?_) (fun g c => ?_) rfl fun _ => Table.lookup_modify _ <;> split
    · exact ClientSession.accepted_id
    · rfl
    · unfold ClientSession.accepted
      split
      · exact List.prefix_rfl
      · exact List.prefix_append _ _
    · exact List.prefix_rfl
  erase s fd h :=
    h.move (h.numbered.erase fd) rfl fun g c hc => ⟨c, (Table.lookup_erase_eq_some.1 hc).2, rfl, List.prefix_rfl⟩
  emplace s cs h := by
    refine ⟨h.numbered.emplace cs, Nat.le_succ_of_le h.count, fun fd c hc hlt => ?_⟩
    rcases Table.lookup_emplace hc with hold | ⟨-, rfl⟩
    · exact h.session fd c hold hlt
    · exact absurd hlt (Nat.not_lt_of_le h.count)
  cast s s' msg sender hl _ hcount h := by
    refine h.update (fun g c => ?_) (fun g c => ?_) hcount hl <;> split
    · exact ClientSession.postSend_id
    · rfl
    · rw [ClientSession.postSend_sent]
    · exact List.prefix_rfl
  clear s h := by
    refine ⟨⟨fun fd c hc => ?_, fun fd fd' c c' hc => ?_⟩, h.count, fun fd c hc => ?_⟩
    all_goals simp at hc

/-- After a step of the loop. -/
theorem Loop.later {ι : Type} {S : System State ι} (h : Loop S) {s s' : State} {x : ι} (hn : Numbered s.server)
    (hst : S.step s x = some s') : Later s.server s'.server :=
  h.step (changes_later s.server) s x s' (.refl hn) hst

/-! ## Agreement -/

namespace Server

/-- The broadcast `n` is due to the session: another one has sent it since the session was made. -/
def Gets (s : Server) (c : ClientSession) (n : ℕ) (msg : List UInt8) : Prop :=
  c.since ≤ n ∧ ∃ sender, sender ≠ c.id ∧ s.log[n]? = some ⟨sender, msg⟩

/-- Where the broadcast `n` begins in the stream of the session. -/
def offset (s : Server) (c : ClientSession) (n : ℕ) : ℕ := (castSince (s.log.take n) c.since c.id).length

/-- What is sent to the clients are the broadcasts of the others in the order of the log, each of them in one piece, and
what has not been sent is queued. -/
structure Agreed (s : Server) : Prop where
  stream : ∀ fd c, s.clients.lookup fd = some c → c.sent ++ c.sendQueue.flatten = castSince s.log c.since c.id
  piece : ∀ fd c, s.clients.lookup fd = some c → ∀ n msg, s.Gets c n msg →
    (c.sent.drop (s.offset c n)).take msg.length <+: msg
  order : ∀ n m msg msg', n < m → ∀ fd c, s.clients.lookup fd = some c → s.Gets c n msg → s.Gets c m msg' →
    s.offset c n + msg.length ≤ s.offset c m

end Server

/-- What a session hears of the relay. -/
theorem Relays.heard {s : Server} {r : Relay ℕ UInt8} (h : Relays s r) (c : ClientSession) (n : ℕ) :
    r.heard c.id c.since n = castSince (s.log.take n) c.since c.id := by
  rw [Relay.heard, h.casts, ← List.map_take, ← List.map_drop, List.filter_map, List.flatMap_map]
  rfl

/-- **The clients of a server that is a relay agree.** -/
theorem Relays.agreed {s : Server} {r : Relay ℕ UInt8} (h : Relays s r) (hr : Relay.medium.Reachable r) : s.Agreed := by
  have hlen : r.casts.length = s.log.length := by rw [h.casts, List.length_map]
  obtain ⟨-, hpiece, horder⟩ := Relay.agreed hr
  have hgets : ∀ fd c, s.clients.lookup fd = some c → ∀ n msg, s.Gets c n msg → r.Gets c.id n msg := by
    rintro fd c hc n msg ⟨hn, sender, hsender, hget⟩
    exact ⟨c.since, (h.since fd c hc).1, hn, sender, hsender, by rw [h.casts, List.getElem?_map, hget]; rfl⟩
  have hoffset : ∀ fd c, s.clients.lookup fd = some c → ∀ n, r.offset c.id n = s.offset c n := by
    intro fd c hc n
    rw [Relay.offset, (h.since fd c hc).1, Server.offset, ← h.heard]
  refine ⟨fun fd c hc => ?_, fun fd c hc n msg hg => ?_, fun n m msg msg' hnm fd c hc hg hg' => ?_⟩
  · rw [← h.due fd c hc, Relay.due, (h.since fd c hc).1, hlen]
    simp only [h.heard, List.take_length]
  · have hp := hpiece c.id n msg (hgets fd c hc n msg hg)
    rwa [hoffset fd c hc, h.given fd c hc] at hp
  · have ho := horder n m msg msg' hnm c.id (hgets fd c hc n msg hg) (hgets fd c hc m msg' hg')
    rwa [hoffset fd c hc, hoffset fd c hc] at ho

end TcpChat.EventLoop
