import TcpChat.Select.Server

/-!
# The byte streams of the `select` server

`SendMsg` gives up at the first `send` that accepts nothing, and nothing remembers the bytes that are left.

* `Whole` — what a client's socket has accepted is a prefix of what has been broadcast to it;
* `Uncut` — no `send` accepts bytes for a client after a `SendMsg` to it has been cut short;
* `Streams` — the invariant: what is accepted and what the current broadcast still offers is what is due, up to the
  first cut;
* `stream_whole` — in such runs the streams are whole; `stream_torn` — otherwise they are not.
-/

namespace TcpChat.Select

open TcpChat.Lib TcpChat.Framing
open TcpChat.EventLoop (Broadcast castSince castSince_concat castSince_length recvBuf)

/-- What has been broadcast to a session since it was made, by others. -/
def due (log : List Broadcast) (c : ClientSession) : List UInt8 := castSince log c.since c.id

/-- The client to which `SendMsg` is sending. -/
def Position.recipient? : Position → Option Socket
  | .sending _ _ _ recipients _ => recipients.head?
  | _ => none

/-- The bytes that `BroadcastMsg` has still to offer to the client. -/
def Position.owed : Position → Socket → List UInt8
  | .sending _ _ msg (sock :: recipients) rest, g => if g = sock then rest else if g ∈ recipients then msg else []
  | _, _ => []

/-- The order in which a loop goes through `m_clients`. -/
def Position.order? : Position → Option (List Socket)
  | .receiving order _ | .sending order _ _ _ _ => some order
  | _ => none

/-- The clients that a broadcast has not reached, and the one it is at. -/
def Position.recipients : Position → List Socket
  | .sending _ _ _ recipients _ => recipients
  | _ => []

/-- `send` accepts bytes. -/
def Input.Takes : Input → Prop
  | .send (.count _) => True
  | _ => False

instance : DecidablePred Input.Takes
  | .send (.count _) => isTrue trivial
  | .send .closed | .send (.error _) | .timeout | .failed _ | .ready _ _ | .accepted _ | .refused _ | .recv _ | .loop _
  | .done => isFalse id

namespace State

/-- What each registered client's socket has accepted is a prefix of what has been broadcast to the client. -/
def Whole (s : State) : Prop :=
  ∀ sock c, s.server.clients.lookup sock = some c → c.sent <+: due s.server.log c

/-- Bytes are accepted only for a client to which every earlier message was sent to its end. -/
def Uncut (s : State) (x : Input) : Prop :=
  x.Takes → ∀ sock ∈ s.position.recipient?, ∀ c ∈ s.server.clients.lookup sock, c.cut = false

instance (s : State) : DecidablePred s.Uncut := fun _ => inferInstanceAs (Decidable (_ → _))

end State

/-! ## The invariant -/

/-- What has been accepted and what is owed is due, or the stream has been cut. -/
def Fits (p : Position) (log : List Broadcast) (g : Socket) (c : ClientSession) : Prop :=
  c.since ≤ log.length ∧ if c.cut then c.sent <+: due log c else c.sent ++ p.owed g = due log c

structure Streams (s : State) : Prop where
  sessions : ∀ g c, s.server.clients.lookup g = some c → Fits s.position s.server.log g c
  order : ∀ order ∈ s.position.order?, s.server.IsOrder order
  recipients : s.position.recipients.Nodup

variable {s : Server} {p p' : Position} {st st' : State} {x : Input} {g sock : Socket} {c : ClientSession}
  {order todo recipients : List Socket} {msg rest : List UInt8} {log : List Broadcast}

theorem owed_nextRecipient :
    (nextRecipient order todo msg recipients).owed g = if g ∈ recipients then msg else [] := by
  cases recipients with
  | nil => rfl
  | cons sock recipients =>
    by_cases hg : g = sock <;> simp [nextRecipient, Position.owed, hg]

theorem order_nextRecipient : (nextRecipient order todo msg recipients).order? = some order := by
  cases recipients <;> rfl

theorem recipients_nextRecipient : (nextRecipient order todo msg recipients).recipients = recipients := by
  cases recipients <;> rfl

theorem Fits.isPrefix (h : Fits p log g c) : c.sent <+: due log c := by
  obtain ⟨-, h⟩ := h
  split at h
  · exact h
  · exact ⟨_, h⟩

/-- What is owed to the client is the same. -/
theorem Fits.move (h : Fits p log g c) (ho : p'.owed g = p.owed g) : Fits p' log g c := by
  unfold Fits at *
  rwa [ho]

/-- `send` accepts bytes of what is owed. -/
theorem Fits.accepted {n : ℕ} (h : Fits p log g c) (hcut : c.cut = false) (ho : p'.owed g = (p.owed g).drop n) :
    Fits p' log g (c.accepted ((p.owed g).take n)) := by
  obtain ⟨hsince, h⟩ := h
  rw [hcut, if_neg Bool.false_ne_true] at h
  refine ⟨hsince, ?_⟩
  have hcut' : ¬ (c.accepted ((p.owed g).take n)).cut = true := by simp [ClientSession.accepted, hcut]
  rw [if_neg hcut', ho, ClientSession.accepted, List.append_assoc, List.take_append_drop]
  exact h

theorem Fits.cutShort (h : Fits p log g c) : Fits p' log g c.cutShort :=
  ⟨h.1, h.isPrefix⟩

/-- A broadcast owes its message to the clients that it reaches. -/
theorem Fits.broadcast {sender : ℕ} (h : Fits p log g c) (hp : p.owed g = [])
    (ho : p'.owed g = if c.id ≠ sender then msg else []) : Fits p' (log ++ [⟨sender, msg⟩]) g c := by
  obtain ⟨hsince, h⟩ := h
  have hdue : due (log ++ [⟨sender, msg⟩]) c = due log c ++ if c.id ≠ sender then msg else [] :=
    castSince_concat hsince msg sender
  refine ⟨by rw [List.length_append]; exact Nat.le_add_right_of_le hsince, ?_⟩
  rw [hdue]
  split at h
  next hcut =>
    rw [if_pos hcut]
    exact h.trans (List.prefix_append _ _)
  next hcut =>
    rw [if_neg hcut, ho]
    rw [hp, List.append_nil] at h
    rw [h]

/-! ## Steps -/

/-- A step that changes neither the sessions nor what is owed to them. -/
theorem Streams.move {s' : Server} (h : Streams ⟨p, s⟩) (hc : s'.clients = s.clients) (hlog : s'.log = s.log)
    (howed : ∀ g, p'.owed g = p.owed g) (ho : ∀ order ∈ p'.order?, s.IsOrder order) (hr : p'.recipients = []) :
    Streams ⟨p', s'⟩ := by
  refine ⟨fun g c hg => ?_, fun order horder => ?_, hr ▸ List.nodup_nil⟩
  · have hg : s.clients.lookup g = some c := hc ▸ hg
    rw [hlog]
    exact (h.sessions g c hg).move (howed g)
  · have hperm := ho order horder
    unfold Server.IsOrder at *
    rwa [hc]

theorem isOrder_modify {f : ClientSession → ClientSession} (h : s.IsOrder order) : (s.modify sock f).IsOrder order := by
  unfold Server.IsOrder Server.modify at *
  rwa [Table.modify, Table.keys_update]

/-- A step that changes one session, and what is owed to the others stays the same. -/
theorem fits_modify {f : ClientSession → ClientSession} (h : ∀ g c, s.clients.lookup g = some c → Fits p s.log g c)
    (hsock : ∀ c, s.clients.lookup sock = some c → Fits p' s.log sock (f c))
    (howed : ∀ g, g ≠ sock → p'.owed g = p.owed g) (hg : (s.modify sock f).clients.lookup g = some c) :
    Fits p' s.log g c := by
  rw [Server.modify, Table.lookup_modify, Option.map_eq_some_iff] at hg
  obtain ⟨d, hd, rfl⟩ := hg
  by_cases he : g = sock
  · subst he
    rw [if_pos rfl]
    exact hsock d hd
  · rw [if_neg he]
    exact (h g d hd).move (howed g he)

/-- `SendMsg` has ended, and the loop goes on with the next recipient. -/
theorem Streams.next {f : ClientSession → ClientSession}
    (h : Streams ⟨.sending order todo msg (sock :: recipients) rest, s⟩)
    (hsock : ∀ c, s.clients.lookup sock = some c →
      Fits (nextRecipient order todo msg recipients) s.log sock (f c)) :
    Streams ⟨nextRecipient order todo msg recipients, s.modify sock f⟩ := by
  refine ⟨fun g c => fits_modify h.sessions hsock fun g hg => ?_, fun o ho => ?_, ?_⟩
  · rw [owed_nextRecipient]
    exact (if_neg hg).symm
  · rw [order_nextRecipient] at ho
    exact Option.some.inj ho ▸ isOrder_modify (h.order order rfl)
  · rw [recipients_nextRecipient]
    exact (List.nodup_cons.1 h.recipients).2

theorem sendMsg_streams {recipients : List Socket} {r : SendResult}
    (h : Streams ⟨.sending order todo msg (sock :: recipients) rest, s⟩)
    (hok : State.Uncut ⟨.sending order todo msg (sock :: recipients) rest, s⟩ (.send r))
    (hst : sendMsg s order todo msg sock recipients rest r = some st') : Streams st' := by
  have hrest : (Position.sending order todo msg (sock :: recipients) rest).owed sock = rest := if_pos rfl
  cases r with
  | count n =>
    simp only [sendMsg, Option.ite_none_right_eq_some] at hst
    obtain ⟨-, hst⟩ := hst
    have hcut : ∀ c, s.clients.lookup sock = some c → c.cut = false := fun c hc => hok trivial sock rfl c hc
    split at hst
    · cases hst
      have hdrop : (Position.sending order todo msg (sock :: recipients) (rest.drop n)).owed sock = rest.drop n :=
        if_pos rfl
      refine ⟨fun g c => fits_modify h.sessions (fun c hc => ?_) fun g hg => ?_, fun o ho => ?_, h.recipients⟩
      · rw [← hrest] at hdrop ⊢
        exact (h.sessions sock c hc).accepted (hcut c hc) hdrop
      · exact (if_neg hg).trans (if_neg hg).symm
      · exact Option.some.inj ho ▸ isOrder_modify (h.order order rfl)
    next hdone =>
      cases hst
      have hlast : (nextRecipient order todo msg recipients).owed sock = [] := by
        rw [owed_nextRecipient, if_neg (List.nodup_cons.1 h.recipients).1]
      refine h.next fun c hc => ?_
      rw [← hrest]
      exact (h.sessions sock c hc).accepted (hcut c hc) (by rw [hrest, hlast, not_not.1 hdone])
  | closed | error e =>
    cases hst
    exact h.next fun c hc => (h.sessions sock c hc).cutShort

theorem receiveMsg_streams {r : RecvResult} (h : Streams ⟨.receiving order (sock :: todo), s⟩)
    (hst : receiveMsg s order sock todo r = some st') : Streams st' := by
  have hperm := h.order order rfl
  have hquiet : ∀ toClose, Streams ⟨.receiving order todo, { s with toClose := toClose }⟩ := fun toClose =>
    h.move rfl rfl (fun _ => rfl) (fun _ ho => Option.some.inj ho ▸ hperm) rfl
  cases r with
  | bytes b =>
    simp only [receiveMsg] at hst
    split at hst
    · cases hst
    next c hc =>
      simp only [Option.ite_none_right_eq_some, Option.some.injEq] at hst
      obtain ⟨-, rfl⟩ := hst
      refine ⟨fun g d hd => (h.sessions g d hd).broadcast rfl ?_, fun _ ho => ?_, ?_⟩
      · -- the recipients are the clients other than the sender
        have hmem : g ∈ order := hperm.mem_iff.2 (AList.lookup_isSome.1 (Option.isSome_iff_exists.2 ⟨d, hd⟩))
        have hd : s.clients.lookup g = some d := hd
        have hiff : g ∈ s.recipients order c.id ↔ d.id ≠ c.id := by simp [Server.recipients, hmem, hd]
        rw [owed_nextRecipient]
        exact if_congr hiff rfl rfl
      · rw [order_nextRecipient] at ho
        exact Option.some.inj ho ▸ hperm
      · rw [recipients_nextRecipient]
        exact (hperm.nodup_iff.2 s.clients.keys_nodup).filter _
  | closed =>
    cases hst
    exact hquiet _
  | error e =>
    simp only [receiveMsg] at hst
    split at hst
    · cases hst
      exact hquiet s.toClose
    · cases hst
      exact hquiet _

theorem addClient_streams {ready ls : List Socket} {cs : Socket} (h : Streams ⟨.accepting ready ls, s⟩) :
    Streams ⟨.accepting ready ls, s.addClient cs⟩ := by
  refine ⟨fun g c hg => ?_, nofun, List.nodup_nil⟩
  rcases Table.lookup_emplace hg with hold | ⟨-, rfl⟩
  · exact h.sessions g c hold
  · exact ⟨le_rfl, (castSince_length s.log s.count).symm⟩

theorem erase_streams {todo : List Socket} {closes : Socket → Option ℕ} (h : Streams ⟨p, s⟩)
    (howed : ∀ g, p.owed g = []) :
    Streams ⟨.removing todo, Server.erase { s with closes := closes } sock⟩ := by
  refine ⟨fun g c hg => ?_, nofun, List.nodup_nil⟩
  exact (h.sessions g c (Table.lookup_erase_eq_some.1 hg).2).move (howed g).symm

theorem removeClient_streams (h : Streams ⟨.removing (sock :: todo), s⟩) (hst : removeClient s sock todo x = some st') :
    Streams st' := by
  unfold removeClient at hst
  repeat' split at hst
  all_goals simp only [Option.some.injEq, reduceCtorEq] at hst
  all_goals subst hst
  all_goals first
    | exact erase_streams h fun _ => rfl
    | exact h.move rfl rfl (fun _ => rfl) nofun rfl

theorem step_streams (h : Streams st) (hok : st.Uncut x) (hst : step st x = some st') : Streams st' := by
  obtain ⟨p, s⟩ := st
  cases p with
  | wait =>
    simp only [step] at hst
    repeat' split at hst
    all_goals simp only [Option.some.injEq, reduceCtorEq] at hst
    all_goals subst hst
    all_goals exact h.move rfl rfl (fun _ => rfl) nofun rfl
  | accepting ready ls =>
    cases ls <;> cases x <;> simp only [step, Option.ite_none_left_eq_some, Option.ite_none_right_eq_some,
      Option.some.injEq, reduceCtorEq] at hst
    case nil.loop order =>
      obtain ⟨horder, rfl⟩ := hst
      exact h.move rfl rfl (fun _ => rfl) (fun _ ho => Option.some.inj ho ▸ horder) rfl
    case cons.accepted l ls cs =>
      obtain ⟨-, rfl⟩ := hst
      exact addClient_streams h
    case cons.refused l ls e =>
      subst hst
      exact h.move rfl rfl (fun _ => rfl) nofun rfl
  | receiving order todo =>
    cases todo <;> cases x <;> simp only [step, Option.some.injEq, reduceCtorEq] at hst
    case nil.done =>
      subst hst
      exact h.move rfl rfl (fun _ => rfl) nofun rfl
    case cons.recv sock todo r => exact receiveMsg_streams h hst
  | sending order todo msg recipients rest =>
    cases recipients <;> cases x <;> simp only [step, reduceCtorEq] at hst
    exact sendMsg_streams h hok hst
  | removing todo =>
    cases todo with
    | nil =>
      cases x <;> simp only [step, Option.some.injEq, reduceCtorEq] at hst
      subst hst
      exact h.move rfl rfl (fun _ => rfl) nofun rfl
    | cons sock todo => exact removeClient_streams h hst
  | left => cases hst

/-! ## Runs -/

/-- **Recipients receive whole messages** if nothing is accepted after a cut. -/
theorem stream_whole {s : State} (h : server.Reach State.Uncut s) : s.Whole := by
  have hstreams : Streams s := by
    refine h.invariant Streams ?_ fun s x s' _ hs hok hst => step_streams hs hok hst
    rintro s ⟨ls, rfl⟩
    exact ⟨fun g c hg => absurd hg nofun, nofun, List.nodup_nil⟩
  exact fun g c hg => (hstreams.sessions g c hg).isPrefix

/-- The listener `3` accepts the clients `5` and `6`, and `5` becomes readable. -/
def connectBoth : List Input :=
  [.ready [] [3], .accepted 5, .accepted 6, .refused .WSAEWOULDBLOCK, .loop [5, 6], .done, .done,
    .ready [5, 6] [5], .loop [5, 6]]

/-- A message of two bytes is sent in two parts. -/
def sendInParts : List Input :=
  connectBoth ++ [Input.recv (.bytes [97, 98]), Input.send (.count 1), Input.send (.count 1), Input.done]

theorem stream_whole_sendInParts :
    (server.run ⟨.wait, .start [3]⟩ sendInParts).map
        (fun s => (s.server.clients.lookup 6).map (·.sent)) = some (some [97, 98]) ∧
      ∀ s ∈ server.run ⟨.wait, .start [3]⟩ sendInParts, s.Whole := by
  have hinit : server.Reach State.Uncut ⟨.wait, .start [3]⟩ := .init ⟨[3], rfl⟩
  exact ⟨by decide +kernel, fun s hs => stream_whole (hinit.run_along hs (by decide +kernel))⟩

/-- Its second byte is refused, and the next message is accepted. -/
def sendAfterCut : List Input :=
  connectBoth ++ [Input.recv (.bytes [97, 98]), Input.send (.count 1), Input.send (.error .WSAEWOULDBLOCK), Input.done,
    Input.done, Input.ready [5, 6] [5], Input.loop [5, 6], Input.recv (.bytes [99]), Input.send (.count 1)]

/-- **Otherwise a message is cut short and followed by the next.** -/
theorem stream_torn : ¬ ∀ s, server.Reachable s → s.Whole := by
  intro h
  have hrun : (server.run ⟨.wait, .start [3]⟩ sendAfterCut).map
      (fun s => (s.server.clients.lookup 6).map (fun c => (c.sent, due s.server.log c))) =
        some (some ([97, 99], [97, 98, 99])) := by
    decide +kernel
  obtain ⟨s, hs, hq⟩ := Option.map_eq_some_iff.1 hrun
  obtain ⟨c, hc, hq⟩ := Option.map_eq_some_iff.1 hq
  simp only [Prod.mk.injEq] at hq
  have hpre := h s (System.reachable_of_run ⟨[3], rfl⟩ hs) 6 c hc
  rw [hq.1, hq.2] at hpre
  revert hpre
  decide

end TcpChat.Select
