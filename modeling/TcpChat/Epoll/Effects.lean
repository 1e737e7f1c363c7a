import TcpChat.Epoll.Server

/-!
# What the operations of the `epoll` server do

One lemma for each operation: what it makes of the client and of the registration of a descriptor.

* `interest_modClientWritable` — the client's entry is armed again, with the mask of its session;
* `broadcastMsg_spec` — every client but the sender gets the message, and its entry is armed again;
* `closeClient_ret` — a client is removed;
* `keeps_acceptAll` — what holds after every client that is added holds after `AcceptAll`.
-/

namespace TcpChat.Epoll

open TcpChat.Lib TcpChat.EventLoop

variable {s s' : Server} {fd g : Fd} {l l' : List Answer}

/-! ## What the operations do -/

theorem lookup_epollCtlMod {events : UInt32} : (epollCtlMod s fd events).clients = s.clients := by
  unfold epollCtlMod
  split <;> rfl

theorem interest_epollCtlMod {events : UInt32} :
    (epollCtlMod s fd events).interest g =
      if g = fd then (s.interest g).map fun _ => ⟨events, true⟩ else s.interest g := by
  unfold epollCtlMod
  split
  next h =>
    split
    next hg => rw [hg, h, Option.map_none]
    next => rfl
  next r h =>
    simp only [Function.update_apply]
    split
    next hg => rw [hg, h, Option.map_some]
    next => rfl

theorem clients_modClientWritable : (modClientWritable fd s).clients = s.clients := by
  unfold modClientWritable
  split
  · rfl
  · exact lookup_epollCtlMod

theorem interest_modClientWritable {c : ClientSession} (hc : s.clients.lookup fd = some c) :
    (modClientWritable fd s).interest g =
      if g = fd then (s.interest g).map fun _ => ⟨clientMask c, true⟩ else s.interest g := by
  simp only [modClientWritable, hc]
  exact interest_epollCtlMod

/-- What a broadcast makes of a client. -/
def castClient (msg : List UInt8) (sender : ℕ) (c : ClientSession) : ClientSession :=
  if c.id ≠ sender then c.postSend msg else c

/-- What a broadcast makes of the registration of a descriptor. -/
def castInterest (msg : List UInt8) (sender : ℕ) (r : Option Registration) : Option ClientSession → Option Registration
  | none => r
  | some c => if c.id ≠ sender then r.map fun _ => ⟨clientMask (c.postSend msg), true⟩ else r

variable {msg : List UInt8} {sender : ℕ}

theorem lookup_broadcastTo : (broadcastTo msg sender s fd).clients.lookup g =
    if g = fd then (s.clients.lookup g).map (castClient msg sender) else s.clients.lookup g := by
  by_cases hg : g = fd
  · subst hg
    rw [if_pos rfl]
    unfold broadcastTo
    split
    next h => rw [h, Option.map_none]
    next c h =>
      by_cases hs : c.id ≠ sender
      · rw [if_pos hs, clients_modClientWritable]
        simp [Server.modify, h, castClient, hs]
      · rw [if_neg hs, h, Option.map_some, castClient, if_neg hs]
  · rw [if_neg hg]
    unfold broadcastTo
    repeat' split
    · rfl
    · rw [clients_modClientWritable]
      simp [Server.modify, hg]
    · rfl

theorem interest_broadcastTo : (broadcastTo msg sender s fd).interest g =
    if g = fd then castInterest msg sender (s.interest g) (s.clients.lookup g) else s.interest g := by
  unfold broadcastTo
  by_cases hg : g = fd
  · subst hg
    rw [if_pos rfl]
    split
    next h => rw [h, castInterest]
    next c h =>
      rw [h, castInterest]
      split
      · have hc : (s.modify g fun c => c.postSend msg).clients.lookup g = some (c.postSend msg) := by
          simp [Server.modify, h]
        rw [interest_modClientWritable hc, if_pos rfl]
        rfl
      · rfl
  · rw [if_neg hg]
    split
    · rfl
    next c h =>
      split
      · have hc : (s.modify fd fun c => c.postSend msg).clients.lookup fd = some (c.postSend msg) := by
          simp [Server.modify, h]
        rw [interest_modClientWritable hc, if_neg hg]
        rfl
      · rfl

/-- The parts of the state that neither a broadcast nor a re-arming touches. -/
structure SameSockets (s s' : Server) : Prop where
  running : s'.running = s.running
  listenSockets : s'.listenSockets = s.listenSockets
  closes : s'.closes = s.closes
  count : s'.count = s.count

theorem sameSockets_modClientWritable (s : Server) (fd : Fd) : SameSockets s (modClientWritable fd s) := by
  unfold modClientWritable epollCtlMod
  repeat' split
  all_goals exact ⟨rfl, rfl, rfl, rfl⟩

theorem sameSockets_broadcastTo (s : Server) (fd : Fd) (msg : List UInt8) (sender : ℕ) :
    SameSockets s (broadcastTo msg sender s fd) := by
  unfold broadcastTo
  split
  · exact ⟨rfl, rfl, rfl, rfl⟩
  · split
    · obtain ⟨h1, h2, h3, h4⟩ := sameSockets_modClientWritable (s.modify fd (·.postSend msg)) fd
      exact ⟨h1, h2, h3, h4⟩
    · exact ⟨rfl, rfl, rfl, rfl⟩

/-- The loop of `BroadcastMsg` over the entries of `fds`. -/
theorem foldl_broadcastTo (s : Server) (msg : List UInt8) (sender : ℕ) {fds : List Fd} (hnd : fds.Nodup) :
    SameSockets s (fds.foldl (broadcastTo msg sender) s) ∧ ∀ g,
      (fds.foldl (broadcastTo msg sender) s).clients.lookup g =
        (if g ∈ fds then (s.clients.lookup g).map (castClient msg sender) else s.clients.lookup g) ∧
      (fds.foldl (broadcastTo msg sender) s).interest g =
        if g ∈ fds then castInterest msg sender (s.interest g) (s.clients.lookup g) else s.interest g := by
  induction fds generalizing s with
  | nil => exact ⟨⟨rfl, rfl, rfl, rfl⟩, fun g => by simp⟩
  | cons fd fds ih =>
    obtain ⟨hfd, hnd⟩ := List.nodup_cons.1 hnd
    obtain ⟨⟨h1, h2, h3, h4⟩, ih⟩ := ih (broadcastTo msg sender s fd) hnd
    obtain ⟨k1, k2, k3, k4⟩ := sameSockets_broadcastTo s fd msg sender
    refine ⟨⟨h1.trans k1, h2.trans k2, h3.trans k3, h4.trans k4⟩, fun g => ?_⟩
    rw [List.foldl_cons, (ih g).1, (ih g).2, lookup_broadcastTo, interest_broadcastTo]
    by_cases hg : g = fd
    · subst hg
      simp [hfd]
    · simp [hg]

/-- **What a broadcast does**, to the client and to the registration of each descriptor. -/
theorem broadcastMsg_spec (s : Server) (msg : List UInt8) (sender : ℕ) :
    SameSockets s (broadcastMsg msg sender s) ∧ ∀ g,
      (broadcastMsg msg sender s).clients.lookup g = (s.clients.lookup g).map (castClient msg sender) ∧
      (broadcastMsg msg sender s).interest g = castInterest msg sender (s.interest g) (s.clients.lookup g) := by
  obtain ⟨⟨h1, h2, h3, h4⟩, hfold⟩ := foldl_broadcastTo s msg sender s.clients.keys_nodup
  refine ⟨⟨h1, h2, h3, h4⟩, fun g => ?_⟩
  obtain ⟨hlookup, hinterest⟩ := hfold g
  by_cases hg : g ∈ s.clients.keys
  · rw [if_pos hg] at hlookup hinterest
    exact ⟨hlookup, hinterest⟩
  · have hnone : s.clients.lookup g = none := AList.lookup_eq_none.2 hg
    rw [if_neg hg] at hlookup hinterest
    exact ⟨by rw [broadcastMsg, hlookup, hnone, Option.map_none], by rw [broadcastMsg, hinterest, hnone, castInterest]⟩

/-- The client and the registration of `fd` are gone, and nothing else has changed. -/
structure Closed (fd : Fd) (s s' : Server) : Prop where
  running : s'.running = s.running
  listenSockets : s'.listenSockets = s.listenSockets
  count : s'.count = s.count
  clients : ∀ g, s'.clients.lookup g = if g = fd then none else s.clients.lookup g
  interest : ∀ g, s'.interest g = if g = fd then none else s.interest g
  closes : ∀ g, g ≠ fd → s'.closes g = s.closes g

theorem closeClient_ret {u : Unit} (hsock : ∀ c, s.clients.lookup fd = some c → c.socket = some fd)
    (h : closeClient fd s l = .ret u s' l') : Closed fd s s' := by
  obtain ⟨t, t', k, hget, h⟩ := Prog.bind_ret.1 h
  obtain ⟨rfl, rfl, rfl⟩ := Prog.get_ret.1 hget
  obtain ⟨u', t, k, hstop, h⟩ := Prog.bind_ret.1 h
  obtain ⟨rfl, -⟩ := Prog.modify_ret.1 h
  by_cases hfd : fd ∈ s.clients
  · obtain ⟨c, hc⟩ := Option.isSome_iff_exists.1 (AList.lookup_isSome.2 hfd)
    rw [if_pos hfd] at hstop
    obtain ⟨u'', t', k', hcall, herase⟩ := Prog.bind_ret.1 hstop
    obtain ⟨rfl, -⟩ := Prog.modify_ret.1 herase
    have ht' := ClientSession.stop_ret hcall
    rw [hc, Option.bind_some, hsock c hc] at ht'
    subst ht'
    refine ⟨rfl, rfl, rfl, fun g => ?_, fun g => ?_, fun g hg => ?_⟩
    · by_cases hg : g = fd
      · subst hg
        simp [epollCtlDel, Server.close, Server.erase, AList.lookup_erase]
      · simp [epollCtlDel, Server.close, Server.erase, Server.modify, AList.lookup_erase_ne hg, hg]
    · by_cases hg : g = fd <;> simp [epollCtlDel, Server.close, Server.erase, Server.modify, hg]
    · simp [epollCtlDel, Server.close, Server.erase, Server.modify, hg]
  · have hnone : s.clients.lookup fd = none := AList.lookup_eq_none.2 hfd
    rw [if_neg hfd] at hstop
    obtain ⟨-, rfl, -⟩ := Prog.pure_ret.1 hstop
    refine ⟨rfl, rfl, rfl, fun g => ?_, fun g => ?_, fun g hg => ?_⟩
    · by_cases hg : g = fd
      · subst hg
        simp [epollCtlDel, Server.close, hnone]
      · simp [epollCtlDel, Server.close, hg]
    · by_cases hg : g = fd <;> simp [epollCtlDel, Server.close, hg]
    · simp [epollCtlDel, Server.close, hg]

/-- `Write` changes what its session has queued and nothing else. -/
theorem foldl_accepted (s : Server) (fd : Fd) (counts : List ℕ) :
    SameSockets s (counts.foldl (fun s n => s.modify fd (·.accepted n)) s) ∧
      (counts.foldl (fun s n => s.modify fd (·.accepted n)) s).interest = s.interest ∧
      ∀ g, (counts.foldl (fun s n => s.modify fd (·.accepted n)) s).clients.lookup g =
        (s.clients.lookup g).map fun c => if g = fd then counts.foldl (·.accepted ·) c else c := by
  induction counts generalizing s with
  | nil => exact ⟨⟨rfl, rfl, rfl, rfl⟩, rfl, fun g => by simp⟩
  | cons n counts ih =>
    obtain ⟨⟨h1, h2, h3, h4⟩, hi, hl⟩ := ih (s := s.modify fd (·.accepted n))
    refine ⟨⟨h1, h2, h3, h4⟩, hi, fun g => ?_⟩
    rw [List.foldl_cons, hl, Server.modify, Table.lookup_modify, Option.map_map]
    congr 1
    funext c
    by_cases hg : g = fd <;> simp [hg]

theorem keeps_acceptAll {I : Server → Prop}
    (hadd : ∀ s cs, ¬ s.IsOpen cs → I s → I (addClientToEpoll cs (s.emplace cs))) : Prog.Keeps I acceptAll := by
  intro s l h
  fun_induction acceptAll s l with
  | case2 s cs l hopen ih => exact ih (hadd s cs hopen h)
  | _ => exact h

end TcpChat.Epoll
