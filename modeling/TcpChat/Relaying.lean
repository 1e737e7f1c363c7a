import TcpChat.BlockingServer.Order
import TcpChat.EventLoop.Relaying
import TcpChat.Epoll.Effects
import TcpChat.Poll.Stream
import TcpChat.Select.Stream

/-!
# The servers are relays

Every step of a server of `NetworkBasics` is a run of the abstract relay: what one client sends all others are given, in
one order.

* `Poll.loop`, `Epoll.loop` — the `poll` and the `epoll` server, in every run;
* `Select.refines` — the `select` server, as long as nothing is sent to a client after a message to it has been cut short;
* `BlockingServer.refines` — the blocking server, as long as it is not stopped and no `send` fails;
* `clients_agree` — so the clients of the first two agree on the order of the broadcasts.
-/

namespace TcpChat

open TcpChat.Lib TcpChat.EventLoop

/-! ## `poll` -/

namespace Poll

theorem primitive_changes {I : Server → Prop} (hI : Changes I) : Primitive I where
  close _ _ h := hI.of_clients h rfl rfl rfl
  modify s fd h := hI.closeSocket s fd h
  accepted s fd n h := hI.accepted s fd n h
  erase s fd h := hI.erase s fd h
  emplace s cs h _ := hI.emplace s cs h
  broadcastMsg s b sender h := hI.cast s _ b sender (fun _ => Table.lookup_update _) rfl rfl h
  halt _ h := hI.of_clients h rfl rfl rfl
  clear s h := hI.clear s h
  finish _ h := hI.of_clients h rfl rfl rfl

theorem loop : Loop server where
  init := by
    rintro s ⟨ls, rfl⟩
    exact ⟨ls, _, rfl⟩
  step hI _ _ _ h hst := (primitive_changes hI).step h hst

end Poll

/-! ## `epoll` -/

namespace Epoll

section

variable {I : Server → Prop} {s : Server} (hI : Changes I)

include hI

theorem changes_modClientWritable (fd : Fd) (h : I s) : I (modClientWritable fd s) := by
  refine hI.of_clients h clients_modClientWritable ?_ (sameSockets_modClientWritable s fd).count
  unfold modClientWritable epollCtlMod
  repeat' split
  all_goals rfl

theorem changes_addClientToEpoll (fd : Fd) (h : I s) : I (addClientToEpoll fd s) := by
  unfold addClientToEpoll epollCtlAdd
  repeat' split
  all_goals exact hI.of_clients h rfl rfl rfl

theorem changes_broadcastMsg (msg : List UInt8) (sender : ℕ) (h : I s) : I (broadcastMsg msg sender s) := by
  obtain ⟨hsame, hspec⟩ := broadcastMsg_spec s msg sender
  exact hI.cast s _ msg sender (fun fd => (hspec fd).1) rfl hsame.count h

theorem changes_stop (fd : Fd) : Prog.Keeps I (ClientSession.stop fd) :=
  ClientSession.keeps_stop (fun _ _ h => hI.of_clients h rfl rfl rfl) fun s h => hI.closeSocket s fd h

theorem changes_closeClient (fd : Fd) : Prog.Keeps I (closeClient fd) := by
  have herase : Prog.Keeps I (do ClientSession.stop fd; Prog.modify (·.erase fd)) :=
    (changes_stop hI fd).bind fun _ => Prog.keeps_modify fun s h => hI.erase s fd h
  refine Prog.keeps_get.bind fun s => (Prog.keeps_ite herase (Prog.keeps_pure ())).bind fun _ => ?_
  exact Prog.keeps_modify fun _ h => hI.of_clients h rfl rfl rfl

theorem changes_handleListeners (event : UInt32) : Prog.Keeps I (handleListeners event) := by
  refine Prog.keeps_ite (Prog.keeps_modify fun _ h => hI.of_clients h rfl rfl rfl)
    (Prog.keeps_ite ?_ (Prog.keeps_pure ()))
  exact keeps_acceptAll fun s cs _ h => changes_addClientToEpoll hI cs (hI.emplace s cs h)

theorem changes_handleClients (sfd : Fd) (event : UInt32) : Prog.Keeps I (handleClients sfd event) := by
  have hclose := changes_closeClient hI sfd
  have hread : ∀ this, Prog.Keeps I (read this) := fun this =>
    ClientSession.keeps_read fun s b _ _ h => changes_broadcastMsg hI b this h
  have hwrite : Prog.Keeps I (write sfd) := ClientSession.keeps_write fun s n h => hI.accepted s sfd n h
  refine Prog.keeps_ite hclose (Prog.keeps_get.bind fun s => ?_)
  split
  · exact Prog.keeps_pure ()
  · refine (Prog.keeps_ite (hread _) (Prog.keeps_pure true)).bind fun readable => Prog.keeps_ite ?_ hclose
    refine Prog.keeps_ite (hwrite.bind fun writable => ?_) (Prog.keeps_pure ())
    exact Prog.keeps_ite (Prog.keeps_modify fun s h => changes_modClientWritable hI sfd h) hclose

theorem changes_handleEvents (batch : List Event) (h : I s) : I (handleEvents batch s).state := by
  induction batch generalizing s with
  | nil => exact h
  | cons e batch ih =>
    have he : I (handleEvent e s).state := by
      unfold handleEvent
      split
      · exact changes_handleListeners hI e.events s e.answers h
      · exact changes_handleClients hI e.fd e.events s e.answers h
    rw [handleEvents]
    cases hout : handleEvent e s with
    | ret u s' l =>
      rw [hout] at he
      exact ih he
    | halt e' s' =>
      rw [hout] at he
      exact he

theorem changes_stopAll : Prog.Keeps I stop := by
  refine Prog.keeps_get.bind fun s => Prog.keeps_ite (Prog.keeps_pure ()) ?_
  refine (Prog.keeps_each (changes_stop hI) _).bind fun _ => (Prog.keeps_modify fun s h => hI.clear s h).bind fun _ => ?_
  have hclose : ∀ fd s, I s → I (s.close fd) := fun _ _ h => hI.of_clients h rfl rfl rfl
  refine (Prog.keeps_each (fun fd => Prog.keeps_modify (hclose fd)) _).bind fun _ => ?_
  exact Prog.keeps_modify fun _ h => hI.of_clients h rfl rfl rfl

end

theorem loop : Loop server where
  init := by
    rintro s ⟨ls, rfl⟩
    exact ⟨ls, _, rfl⟩
  step := by
    intro I hI s x s' h hst
    replace hst : step s x = some s' := hst
    unfold step at hst
    repeat' split at hst
    all_goals simp only [Option.some.injEq, reduceCtorEq] at hst
    all_goals subst hst
    · exact h
    · exact h
    · rw [State.of_server]
      exact changes_handleEvents hI _ (hI.of_clients h rfl rfl rfl)
    · rw [State.of_server]
      exact changes_stopAll hI _ _ h

end Epoll

/-! ## `select` -/

namespace Select

open TcpChat.Framing

/-- The sessions are those who listen to the relay, and what `send` has accepted for them is what they have been given. -/
structure Relays (s : State) (r : Relay ℕ UInt8) : Prop where
  streams : Streams s
  lt : ∀ sock c, s.server.clients.lookup sock = some c → c.id < s.server.count
  inj : ∀ sock sock' c c', s.server.clients.lookup sock = some c → s.server.clients.lookup sock' = some c' →
    c.id = c'.id → sock = sock'
  casts : r.casts = s.server.log.map fun m => (m.sender, m.msg)
  fresh : ∀ i, s.server.count ≤ i → r.since i = none ∧ r.given i = []
  since : ∀ sock c, s.server.clients.lookup sock = some c → r.since c.id = some c.since
  given : ∀ sock c, s.server.clients.lookup sock = some c → r.given c.id = c.sent

/-- What a step does to the sessions and the log. -/
inductive Change (s s' : Server) : Prop where
  | move (hl : ∀ sock c', s'.clients.lookup sock = some c' → ∃ c, s.clients.lookup sock = some c ∧
      c'.id = c.id ∧ c'.since = c.since ∧ c'.sent = c.sent) (hlog : s'.log = s.log) (hcount : s'.count = s.count)
  | cast (c : ClientSession) (msg : List UInt8) (hl : s'.clients = s.clients) (hlog : s'.log = s.log ++ [⟨c.id, msg⟩])
      (hcount : s'.count = s.count)
  | give (sock : Socket) (part : List UInt8) (hs : s' = s.modify sock (·.accepted part))
  | join (cs : Socket) (hs : s' = s.addClient cs)

variable {s s' : State} {x : Input} {sv sv' : Server} {r : Relay ℕ UInt8}

theorem Change.of_clients (hc : sv'.clients = sv.clients) (hlog : sv'.log = sv.log) (hcount : sv'.count = sv.count) :
    Change sv sv' :=
  .move (fun _ c' hc' => ⟨c', hc ▸ hc', rfl, rfl, rfl⟩) hlog hcount

theorem Change.cutShort (sv : Server) (sock : Socket) : Change sv (sv.modify sock (·.cutShort)) := by
  refine .move (fun g c' hc' => ?_) rfl rfl
  simp only [Server.modify, Table.lookup_modify, Option.map_eq_some_iff] at hc'
  obtain ⟨c, hc, rfl⟩ := hc'
  refine ⟨c, hc, ?_⟩
  split
  · exact ⟨rfl, rfl, rfl⟩
  · exact ⟨rfl, rfl, rfl⟩

theorem Change.erase (sv : Server) (closes : Socket → Option ℕ) (sock : Socket) :
    Change sv (Server.erase { sv with closes := closes } sock) :=
  .move (fun _ c' hc' => ⟨c', (Table.lookup_erase_eq_some.1 hc').2, rfl, rfl, rfl⟩) rfl rfl

theorem step_change (hst : step s x = some s') : Change s.server s'.server := by
  obtain ⟨p, sv⟩ := s
  have hquiet : ∀ toClose, Change sv { sv with toClose := toClose } := fun _ => .of_clients rfl rfl rfl
  cases p with
  | wait =>
    simp only [step] at hst
    repeat' split at hst
    all_goals simp only [Option.some.injEq, reduceCtorEq] at hst
    all_goals subst hst
    all_goals exact hquiet _
  | accepting ready ls =>
    cases ls <;> cases x <;> simp only [step, Option.ite_none_left_eq_some, Option.ite_none_right_eq_some,
      Option.some.injEq, reduceCtorEq] at hst
    case nil.loop order =>
      obtain ⟨-, rfl⟩ := hst
      exact hquiet _
    case cons.accepted l ls cs =>
      obtain ⟨-, rfl⟩ := hst
      exact .join cs rfl
    case cons.refused l ls e =>
      subst hst
      exact hquiet _
  | receiving order todo =>
    cases todo <;> cases x <;> simp only [step, Option.some.injEq, reduceCtorEq] at hst
    case nil.done =>
      subst hst
      exact hquiet _
    case cons.recv sock todo res =>
      cases res with
      | bytes b =>
        simp only [receiveMsg] at hst
        split at hst
        · cases hst
        next c hc =>
          simp only [Option.ite_none_right_eq_some, Option.some.injEq] at hst
          obtain ⟨-, rfl⟩ := hst
          exact .cast c b rfl rfl rfl
      | closed =>
        cases hst
        exact hquiet _
      | error e =>
        simp only [receiveMsg] at hst
        split at hst
        all_goals cases hst
        all_goals exact hquiet _
  | sending order todo msg recipients rest =>
    cases recipients <;> cases x <;> simp only [step, reduceCtorEq] at hst
    rename_i sock recipients res
    cases res with
    | count n =>
      simp only [sendMsg, Option.ite_none_right_eq_some] at hst
      obtain ⟨-, hst⟩ := hst
      split at hst
      all_goals cases hst
      all_goals exact .give sock _ rfl
    | closed | error e =>
      cases hst
      exact .cutShort sv sock
  | removing todo =>
    cases todo with
    | nil =>
      cases x <;> simp only [step, Option.some.injEq, reduceCtorEq] at hst
      subst hst
      exact hquiet _
    | cons sock todo =>
      simp only [step, removeClient] at hst
      repeat' split at hst
      all_goals simp only [Option.some.injEq, reduceCtorEq] at hst
      all_goals subst hst
      all_goals first
        | exact .erase sv _ sock
        | exact hquiet _
  | left => cases hst

theorem Relays.step (h : Relays s r) (hok : s.Uncut x) (hst : step s x = some s') :
    ∃ r', Relay.medium.Leads r r' ∧ Relays s' r' := by
  obtain ⟨hstreams, hlt, hinj, hcasts, hfresh, hsince, hgiven⟩ := h
  have hstreams' := step_streams hstreams hok hst
  cases step_change hst with
  | move hl hlog hcount =>
    refine ⟨r, .refl r, hstreams', fun sock c hc => ?_, fun sock sock' c c' hc hc' he => ?_, hlog ▸ hcasts,
      hcount ▸ hfresh, fun sock c hc => ?_, fun sock c hc => ?_⟩
    · obtain ⟨d, hd, hid, -⟩ := hl sock c hc
      rw [hid, hcount]
      exact hlt sock d hd
    · obtain ⟨d, hd, hid, -⟩ := hl sock c hc
      obtain ⟨d', hd', hid', -⟩ := hl sock' c' hc'
      exact hinj sock sock' d d' hd hd' (by rw [← hid, he, hid'])
    · obtain ⟨d, hd, hid, hs, -⟩ := hl sock c hc
      rw [hid, hs]
      exact hsince sock d hd
    · obtain ⟨d, hd, hid, -, hsent⟩ := hl sock c hc
      rw [hid, hsent]
      exact hgiven sock d hd
  | cast c msg hl hlog hcount =>
    refine ⟨r.cast c.id msg, Relay.leads_cast r c.id msg, hstreams', ?_, ?_, ?_, hcount ▸ hfresh, ?_, ?_⟩
    · rw [hl, hcount]
      exact hlt
    · rw [hl]
      exact hinj
    · rw [Relay.cast, hcasts, hlog, List.map_append]
      rfl
    · rw [hl]
      exact hsince
    · rw [hl]
      exact hgiven
  | join cs hs =>
    have hcount := hfresh s.server.count le_rfl
    have hlen : r.casts.length = s.server.log.length := by rw [hcasts, List.length_map]
    have hold : ∀ sock c, s'.server.clients.lookup sock = some c →
        (s.server.clients.lookup sock = some c ∧ c.id ≠ s.server.count) ∨
          sock = cs ∧ c = ⟨s.server.count, some cs, s.server.log.length, [], false⟩ := by
      intro sock c hc
      rw [hs] at hc
      exact (Table.lookup_emplace hc).imp_left fun hc => ⟨hc, (hlt sock c hc).ne⟩
    have hcount' : s'.server.count = s.server.count + 1 := by rw [hs]; rfl
    refine ⟨r.join s.server.count, Relay.leads_join hcount.1, hstreams', fun sock c hc => ?_,
      fun sock sock' c c' hc hc' he => ?_, by rw [hs]; exact hcasts, fun i hi => ?_, fun sock c hc => ?_, fun sock c hc => ?_⟩
    · rw [hcount']
      rcases hold sock c hc with ⟨hc, -⟩ | ⟨-, rfl⟩
      · exact Nat.lt_succ_of_lt (hlt sock c hc)
      · exact Nat.lt_succ_self _
    · rcases hold sock c hc with ⟨hc, hne⟩ | ⟨rfl, rfl⟩ <;> rcases hold sock' c' hc' with ⟨hc', hne'⟩ | ⟨rfl, rfl⟩
      · exact hinj sock sock' c c' hc hc' he
      · exact absurd he hne
      · exact absurd he.symm hne'
      · rfl
    · rw [Relay.join_since_of_ne (by omega)]
      exact hfresh i (by omega)
    · rcases hold sock c hc with ⟨hc, hne⟩ | ⟨-, rfl⟩
      · rw [Relay.join_since_of_ne hne]
        exact hsince sock c hc
      · rw [Relay.join_since, hlen]
    · rcases hold sock c hc with ⟨hc, -⟩ | ⟨-, rfl⟩
      · exact hgiven sock c hc
      · exact hcount.2
  | give sock part hs =>
    have hold : ∀ g c', s'.server.clients.lookup g = some c' → ∃ c, s.server.clients.lookup g = some c ∧
        c'.id = c.id ∧ c'.since = c.since ∧ c'.sent = if g = sock then c.sent ++ part else c.sent := by
      intro g c' hc'
      rw [hs, Server.modify, Table.lookup_modify, Option.map_eq_some_iff] at hc'
      obtain ⟨c, hc, rfl⟩ := hc'
      refine ⟨c, hc, ?_⟩
      split
      · exact ⟨rfl, rfl, rfl⟩
      · exact ⟨rfl, rfl, rfl⟩
    have hlog : s'.server.log = s.server.log := by rw [hs]; rfl
    have hcount : s'.server.count = s.server.count := by rw [hs]; rfl
    have hlt' : ∀ g c, s'.server.clients.lookup g = some c → c.id < s'.server.count := by
      intro g c hc
      obtain ⟨d, hd, hid, -⟩ := hold g c hc
      rw [hid, hcount]
      exact hlt g d hd
    have hinj' : ∀ g g' c c', s'.server.clients.lookup g = some c → s'.server.clients.lookup g' = some c' →
        c.id = c'.id → g = g' := by
      intro g g' c c' hc hc' he
      obtain ⟨d, hd, hid, -⟩ := hold g c hc
      obtain ⟨d', hd', hid', -⟩ := hold g' c' hc'
      exact hinj g g' d d' hd hd' (by rw [← hid, he, hid'])
    have hsince' : ∀ g c, s'.server.clients.lookup g = some c → r.since c.id = some c.since := by
      intro g c hc
      obtain ⟨d, hd, hid, hs, -⟩ := hold g c hc
      rw [hid, hs]
      exact hsince g d hd
    cases hsock : s.server.clients.lookup sock with
    | none =>
      refine ⟨r, .refl r, hstreams', hlt', hinj', hlog ▸ hcasts, hcount ▸ hfresh, hsince', fun g c hc => ?_⟩
      obtain ⟨d, hd, hid, -, hsent⟩ := hold g c hc
      have hg : g ≠ sock := by
        rintro rfl
        rw [hsock] at hd
        cases hd
      rw [hid, hsent, if_neg hg]
      exact hgiven g d hd
    | some c =>
      have hnew : s'.server.clients.lookup sock = some (c.accepted part) := by
        rw [hs, Server.modify, Table.lookup_modify, hsock, Option.map_some, if_pos rfl]
      have hdue : r.given c.id ++ part <+: r.due c.id := by
        have hprefix := (hstreams'.sessions sock _ hnew).isPrefix
        rw [hgiven sock c hsock, Relay.due_of_since (hsince sock c hsock), hcasts, ← List.map_drop, List.filter_map,
          List.flatMap_map]
        rw [hlog] at hprefix
        exact hprefix
      refine ⟨r.give c.id part, Relay.leads_give hdue, hstreams', hlt', hinj', hlog ▸ hcasts, fun i hi => ?_, hsince',
        fun g d hd => ?_⟩
      · have hlt := hlt sock c hsock
        rw [hcount] at hi
        rw [Relay.give_given_of_ne (by omega)]
        exact hfresh i hi
      · obtain ⟨e, he, hid, -, hsent⟩ := hold g d hd
        rw [hid, hsent]
        by_cases hg : g = sock
        · subst hg
          rw [hsock, Option.some.injEq] at he
          rw [if_pos rfl, ← he, Relay.give_given, hgiven g c hsock]
        · rw [if_neg hg, Relay.give_given_of_ne fun hid => hg (hinj g sock e c he hsock hid)]
          exact hgiven g e he

theorem refines : server.Refines State.Uncut Relay.medium Relays where
  init := by
    rintro s ⟨ls, rfl⟩
    exact ⟨.fresh, rfl, ⟨fun g c hg => absurd hg nofun, nofun, List.nodup_nil⟩, fun _ _ hc => absurd hc nofun,
      fun _ _ _ _ hc => absurd hc nofun, rfl, fun _ _ => ⟨rfl, rfl⟩, fun _ _ hc => absurd hc nofun,
      fun _ _ hc => absurd hc nofun⟩
  step _ _ _ _ _ hR hok hst := hR.step hok hst

end Select

/-! ## The blocking server -/

namespace BlockingServer

/-- The registered sessions are those who listen to the relay; what has been sent to them is what they have been given, and
the rest of what is due to them is what the broadcast that is going on has still to send. -/
structure Relays (s : Server) (r : Relay ℕ UInt8) : Prop where
  casts : r.casts = s.casts
  since : ∀ i, r.since i = if i ∈ s.clients then some (s.sess i).since else none
  given : ∀ i, r.given i = (s.sess i).wire
  due : ∀ i ∈ s.clients, r.due i = (s.sess i).wire ++ s.due i

variable {s s' : Server} {r : Relay ℕ UInt8} {i : ℕ}

theorem due_eq (hcasts : r.casts = s.casts) (hsince : r.since i = some (s.sess i).since) :
    r.due i = (s.castsTo i s.casts.length).flatten := by
  rw [Relay.due_of_since hsince, hcasts, Server.castsTo, List.take_length, List.flatMap]

theorem relays_of (hs : s.Streaming) (hcasts : r.casts = s.casts)
    (hsince : ∀ i, r.since i = if i ∈ s.clients then some (s.sess i).since else none)
    (hgiven : ∀ i, r.given i = (s.sess i).wire) : Relays s r :=
  ⟨hcasts, hsince, hgiven, fun i hi => by rw [due_eq hcasts ((hsince i).trans (if_pos hi)), hs.due i hi]⟩

theorem refines : server.Refines Server.Unfailing Relay.medium Relays where
  init := by
    rintro s ⟨n, rfl⟩
    exact ⟨.fresh, rfl, rfl, fun i => rfl, fun i => rfl, nofun⟩
  step := by
    rintro s ⟨t, x⟩ s' r hreach ⟨hcasts, hsince, hgiven, hdue⟩ hok hst
    have hs' := streaming (hreach.step hok hst)
    have hreg := registered hreach
    cases t with
    | stop => exact hok.elim
    | accept k =>
      obtain ⟨hcasts', heffect⟩ := Server.acceptStep_effect hst
      cases heffect with
      | makes hclients _ _ stream hsess =>
        have hout : s.count ∉ s.clients := fun hmem => Nat.lt_irrefl _ (hreg.known _ hmem).1
        refine ⟨r, .refl r, relays_of hs' (hcasts.trans hcasts'.symm) (fun i => ?_) fun i => ?_⟩
        · rw [hclients, hsince, hsess]
          by_cases hi : i = s.count
          · rw [hi, if_neg hout, if_neg hout]
          · rw [Function.update_of_ne hi]
        · rw [hgiven, hsess]
          by_cases hi : i = s.count
          · rw [hi, Function.update_self, hreg.wire _ hout]
            rfl
          · rw [Function.update_of_ne hi]
      | registers i hp hclients _ _ hsess =>
        have hout : i ∉ s.clients := (hreg.apart k i (by rw [hp]; rfl)).1
        have hnone : r.since i = none := (hsince i).trans (if_neg hout)
        refine ⟨r.join i, Relay.leads_join hnone, relays_of hs' (hcasts.trans hcasts'.symm) (fun j => ?_) fun j => ?_⟩
        · rw [hclients, hsess]
          by_cases hj : j = i
          · rw [hj, Relay.join_since, Function.update_self, if_pos (by simp), hcasts]
          · rw [Relay.join_since_of_ne hj, Function.update_of_ne hj, hsince]
            simp [hj]
        · rw [hsess]
          refine (hgiven j).trans ?_
          by_cases hj : j = i
          · rw [hj, Function.update_self]
          · rw [Function.update_of_ne hj]
      | neither hclients _ _ hsess =>
        refine ⟨r, .refl r, relays_of hs' (hcasts.trans hcasts'.symm) (fun i => ?_) fun i => ?_⟩
        · rw [hclients, hsince, (hsess i).2]
        · rw [hgiven, (hsess i).1]
    | recv k =>
      obtain ⟨hclients, -, hsince', hstep⟩ := Server.recvStep_effect hok hst
      cases hstep with
      | begins msg _ _ hcasts' _ hwires =>
        refine ⟨r.cast k msg, Relay.leads_cast r k msg, relays_of hs' ?_ (fun i => ?_) fun i => ?_⟩
        · rw [Relay.cast, hcasts, hcasts']
        · rw [hclients, hsince']
          exact hsince i
        · rw [hwires]
          exact hgiven i
      | leaves hcasts' _ hwires =>
        refine ⟨r, .refl r, relays_of hs' (hcasts.trans hcasts'.symm) (fun i => ?_) fun i => ?_⟩
        · rw [hclients, hsince', hsince]
        · rw [hgiven, hwires]
      | sends hcasts' _ d part left rest _ heq _ hwire hwires =>
        have hd : d ∈ s.clients := hreg.pending k (d, part ++ left) (heq ▸ List.mem_cons_self)
        have hgive : r.given d ++ part <+: r.due d := by
          have hsince'' : r.since d = some (s'.sess d).since := by rw [hsince, if_pos hd, hsince']
          rw [due_eq (hcasts.trans hcasts'.symm) hsince'', ← hs'.due d (hclients ▸ hd), hwire, hgiven]
          exact List.prefix_append _ _
        refine ⟨r.give d part, Relay.leads_give hgive, relays_of hs' (hcasts.trans hcasts'.symm) (fun i => ?_) fun i => ?_⟩
        · rw [hclients, hsince']
          exact hsince i
        · by_cases hi : i = d
          · rw [hi, Relay.give_given, hgiven, hwire]
          · rw [Relay.give_given_of_ne hi, hgiven, hwires i hi]

end BlockingServer

/-! ## All of them -/

/-- **Every server is a relay**: one step of it is a run of the relay, from any state of the relay that it shows. -/
theorem servers_refine_relay :
    Poll.server.Refines (fun _ _ => True) Relay.medium (fun s r => Relays s.server r) ∧
      Epoll.server.Refines (fun _ _ => True) Relay.medium (fun s r => Relays s.server r) ∧
      Select.server.Refines Select.State.Uncut Relay.medium Select.Relays ∧
      BlockingServer.server.Refines BlockingServer.Server.Unfailing Relay.medium BlockingServer.Relays :=
  ⟨Poll.loop.refines, Epoll.loop.refines, Select.refines, BlockingServer.refines⟩

/-- **All clients are sent the broadcasts in one order**, each of them in one piece, and nothing is lost: for any batches
and any answers of the calls. -/
theorem clients_agree :
    (∀ s, Poll.server.Reachable s → s.server.Agreed) ∧ ∀ s, Epoll.server.Reachable s → s.server.Agreed := by
  refine ⟨fun s h => ?_, fun s h => ?_⟩
  · obtain ⟨r, hr, hR⟩ := Poll.loop.refines.reach h
    exact hR.agreed hr
  · obtain ⟨r, hr, hR⟩ := Epoll.loop.refines.reach h
    exact hR.agreed hr

/-- Of three clients two send something, and the third one is sent a part of it. -/
def pollThree : List Poll.Input :=
  [.ready [] [Poll.pollIn] [.accepted 5, .accepted 6, .accepted 7, .refused .EAGAIN],
   .ready [5, 6, 7] [0, Poll.pollIn, Poll.pollIn, 0]
     [.recv (.bytes [1, 2]), .recv (.error .EAGAIN), .recv (.bytes [3]), .recv (.error .EAGAIN)],
   .ready [5, 6, 7] [0, 0, 0, Poll.pollOut] [.send (.count 1)]]

def epollThree : List Epoll.Input :=
  [.events [⟨3, epollIn, [.accepted 5, .accepted 6, .accepted 7, .refused .EAGAIN]⟩],
   .events [⟨5, epollIn, [.recv (.bytes [1, 2]), .recv (.error .EAGAIN)]⟩,
     ⟨6, epollIn, [.recv (.bytes [3]), .recv (.error .EAGAIN)]⟩],
   .events [⟨7, epollOut, [.send (.count 1)]⟩]]

theorem clients_agree_three :
    ((Poll.server.run ⟨.loop, .start [3] fun _ => none⟩ pollThree).map fun s =>
        (s.server.clients.lookup 7).map fun c => (c.sent, c.sendQueue)) = some (some ([1], [[2], [3]])) ∧
      ((Epoll.server.run (Epoll.start [3]) epollThree).map fun s =>
        (s.server.clients.lookup 7).map fun c => (c.sent, c.sendQueue)) = some (some ([1], [[2], [3]])) ∧
      (∀ s ∈ Poll.server.run ⟨.loop, .start [3] fun _ => none⟩ pollThree, s.server.Agreed) ∧
      ∀ s ∈ Epoll.server.run (Epoll.start [3]) epollThree, s.server.Agreed :=
  ⟨by decide +kernel, by decide +kernel,
    fun s hs => clients_agree.1 s (System.reachable_of_run ⟨[3], rfl⟩ hs),
    fun s hs => clients_agree.2 s (System.reachable_of_run ⟨[3], rfl⟩ hs)⟩

end TcpChat
