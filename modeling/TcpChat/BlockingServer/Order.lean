import TcpChat.BlockingServer.Shutdown
import TcpChat.Lib.Mutex
import Mathlib.Data.List.Infix
import Mathlib.Data.List.Nodup

/-!
# The order of the broadcasts

`BroadcastMsg` keeps `m_clientsMutex` over its whole loop, so the order in which the broadcasts take this mutex is the
order in which every session gets them.

* `due` — what the broadcast that is going on has still to send to a session;
* `Streaming` — the invariant: what was sent to a session and what is due to it are the broadcasts of the others since
  its registration;
* `order_agreed` — every stream has the broadcasts in the order of the mutex, each of them in one piece.
-/

namespace TcpChat.BlockingServer

open TcpChat.Lib

/-! ## The clients' mutex -/

/-- Positions between a `lock` of `m_clientsMutex` and its `unlock`. -/
def AcceptPc.HoldsClients : AcceptPc → Prop
  | .push _ | .unlock => True
  | _ => False

def RecvPc.HoldsClients : RecvPc → Prop
  | .cast _ _ | .castUnlock | .sendLock _ | .send _ _ | .sendUnlock _ => True
  | _ => False

def StopPc.HoldsClients : StopPc → Prop
  | .next _ | .store _ _ | .shutdown _ _ | .drain _ _ | .close _ _ | .join _ _ | .clearClients | .unlock => True
  | _ => False

/-- The messages that `BroadcastMsg` has still to send, or the rest of a message, with their recipients. -/
def RecvPc.pending : RecvPc → List (ℕ × List UInt8)
  | .cast msg rest => rest.map fun d => (d, msg)
  | .sendLock c => (c.dest, c.msg) :: c.rest.map fun d => (d, c.msg)
  | .send c left => (c.dest, left) :: c.rest.map fun d => (d, c.msg)
  | .sendUnlock c => c.rest.map fun d => (d, c.msg)
  | _ => []

/-- What the `BroadcastMsg` of the session `k` has still to send to the session `r`. -/
def RecvPc.dueTo (k : ℕ) (p : RecvPc) (r : ℕ) : List UInt8 :=
  if r = k then [] else (p.pending.filter fun e => e.1 = r).flatMap Prod.snd

/-- The recipient to which `SendMsg` is sending. -/
def RecvPc.dest : RecvPc → Option ℕ
  | .sendLock c | .send c _ => some c.dest
  | _ => none

/-- The `ReceiveMsg` is in the `send` of `SendMsg`. -/
def RecvPc.Sends : RecvPc → Prop
  | .send _ _ => True
  | _ => False

instance : DecidablePred RecvPc.Sends := fun p =>
  decidable_of_iff (p matches .send _ _) (by cases p <;> simp [RecvPc.Sends])

namespace Server

/-- The thread is inside the critical section. -/
def HoldsClients (s : Server) : Thread → Prop
  | .accept k => (s.accept k).HoldsClients
  | .recv i => (s.recv i).HoldsClients
  | .stop => s.stop.HoldsClients

/-- What the broadcast that is going on has still to send to the session `r`. -/
def due (s : Server) (r : ℕ) : List UInt8 :=
  match s.clientsMutex with
  | some (.recv k) => (s.recv k).dueTo k r
  | _ => []

/-- Of the first `n` broadcasts those that the session `r` is to get: it was registered before, and another session has
sent them. -/
def castsTo (s : Server) (r n : ℕ) : List (List UInt8) :=
  (((s.casts.take n).drop (s.sess r).since).filter fun cast => cast.1 ≠ r).map Prod.snd

/-- The session `r` is to get the broadcast `i`, of the message `msg`. -/
def Gets (s : Server) (r i : ℕ) (msg : List UInt8) : Prop :=
  r ∈ s.clients ∧ (s.sess r).since ≤ i ∧ ∃ k, k ≠ r ∧ s.casts[i]? = some (k, msg)

/-- Where the broadcast `i` begins in the stream of the session `r`. -/
def offset (s : Server) (r i : ℕ) : ℕ := (s.castsTo r i).flatten.length

/-- The stream of a session has bytes of the broadcasts that it is to get only, each of them in one piece, and of two
broadcasts the one that has taken the mutex first stands before the other one, in all streams. -/
structure Agreed (s : Server) : Prop where
  stream : ∀ r ∈ s.clients, (s.sess r).wire <+: (s.castsTo r s.casts.length).flatten
  piece : ∀ r i msg, s.Gets r i msg → ((s.sess r).wire.drop (s.offset r i)).take msg.length <+: msg
  whole : ∀ r i msg, s.Gets r i msg → i + 1 < s.casts.length ∨ s.clientsMutex = none →
    ((s.sess r).wire.drop (s.offset r i)).take msg.length = msg
  order : ∀ i j msg msg', i < j → ∀ r r', s.Gets r i msg → s.Gets r j msg' → s.Gets r' i msg → s.Gets r' j msg' →
    s.offset r i + msg.length ≤ s.offset r j ∧ s.offset r' i + msg.length ≤ s.offset r' j

/-- No `Stop`, and no `send` fails. -/
def Unfailing (s : Server) : Thread × Input → Prop
  | (.stop, _) => False
  | (.recv i, .failed) => ¬ (s.recv i).Sends
  | _ => True

instance (s : Server) : DecidablePred s.Unfailing
  | (.stop, _) => isFalse id
  | (.recv _, .failed) => inferInstanceAs (Decidable (¬ _))
  | (.recv _, .go) | (.recv _, .accepted _) | (.recv _, .refused) | (.recv _, .count _) => isTrue trivial
  | (.accept _, _) => isTrue trivial

variable {s s' : Server} {t : Thread} {x : Input} {i k r : ℕ}

theorem step_clients (h : s.step (t, x) = some s') :
    LockStep t s.clientsMutex s'.clientsMutex (s.HoldsClients t) (s'.HoldsClients t) := by
  cases t <;> simp only [step, acceptStep, recvStep, stopStep] at h
  all_goals repeat' split at h
  all_goals simp only [Option.some.injEq, reduceCtorEq] at h
  all_goals subst h
  all_goals simp [LockStep, HoldsClients, AcceptPc.HoldsClients, RecvPc.HoldsClients, StopPc.HoldsClients, setAccept,
    setRecv, setStop, modify, *]

end Server

theorem clients_owned {ok : Server → Thread × Input → Prop} {s : Server} (h : server.Reach ok s) :
    Owned s.clientsMutex s.HoldsClients := by
  refine h.invariant (fun s => Owned s.clientsMutex s.HoldsClients) ?_ ?_
  · rintro s ⟨n, rfl⟩
    refine .of_none fun t => ?_
    cases t with
    | accept k =>
      simp only [Server.HoldsClients, Server.start]
      split <;> exact id
    | recv i => exact id
    | stop => exact id
  · rintro s ⟨t, x⟩ s' - ih - hst
    have hpc := Server.step_pc hst
    refine ih.step (Server.step_clients hst) fun u hu => ?_
    cases u with
    | accept k => simp only [Server.HoldsClients, hpc.accept k (Ne.symm hu)]
    | recv i => simp only [Server.HoldsClients, hpc.recv i (Ne.symm hu)]
    | stop => simp only [Server.HoldsClients, hpc.stop (Ne.symm hu)]

namespace Server

variable {s s' : Server} {t : Thread} {x : Input} {i k r : ℕ}

/-! ## What a step does -/

/-- What a step of the accept thread `k` does: it makes a session, or registers one, or does neither. -/
inductive Accepts (s : Server) (k : ℕ) (s' : Server) : Prop where
  | makes (hclients : s'.clients = s.clients) (hcount : s'.count = s.count + 1)
    (hsession : (s'.accept k).session = some s.count) (stream : List UInt8)
    (hsess : s'.sess = Function.update s.sess s.count (Session.new stream))
  | registers (i : ℕ) (hp : s.accept k = .push i) (hclients : s'.clients = s.clients ++ [i])
    (hcount : s'.count = s.count) (hsession : (s'.accept k).session = none)
    (hsess : s'.sess = Function.update s.sess i { s.sess i with since := s.casts.length })
  | neither (hclients : s'.clients = s.clients) (hcount : s'.count = s.count)
    (hsession : ∀ r ∈ (s'.accept k).session, r ∈ (s.accept k).session)
    (hsess : ∀ r, (s'.sess r).wire = (s.sess r).wire ∧ (s'.sess r).since = (s.sess r).since)

/-- What a step of the `ReceiveMsg` of the session `k` does: it begins a broadcast, or leaves the streams alone, or
sends a part of what it has still to send. -/
inductive Receives (s : Server) (k : ℕ) (s' : Server) : Prop where
  | begins (msg : List UInt8) (hfree : s.clientsMutex = none) (hheld : s'.clientsMutex = some (.recv k))
    (hcasts : s'.casts = s.casts ++ [(k, msg)]) (hp : s'.recv k = .cast msg s.clients)
    (hwires : ∀ r, (s'.sess r).wire = (s.sess r).wire)
  | leaves (hcasts : s'.casts = s.casts) (hdest : ∀ d ∈ (s'.recv k).dest, d ≠ k ∨ d ∈ (s.recv k).dest)
    (hwires : ∀ r, (s'.sess r).wire = (s.sess r).wire)
    (hpending : (s.recv k).pending = (s'.recv k).pending ∨
      ∃ e, (s.recv k).pending = e :: (s'.recv k).pending ∧ (e.1 = k ∨ e.2 = []))
  | sends (hcasts : s'.casts = s.casts) (hdest : ∀ d ∈ (s'.recv k).dest, d ≠ k ∨ d ∈ (s.recv k).dest) (d : ℕ)
    (part left : List UInt8) (rest : List (ℕ × List UInt8)) (hd : d ∈ (s.recv k).dest)
    (heq : (s.recv k).pending = (d, part ++ left) :: rest) (heq' : (s'.recv k).pending = (d, left) :: rest)
    (hwire : (s'.sess d).wire = (s.sess d).wire ++ part) (hwires : ∀ r, r ≠ d → (s'.sess r).wire = (s.sess r).wire)

@[simp]
theorem setAccept_accept_self (p : AcceptPc) : (s.setAccept k p).accept k = p := Function.update_self ..

@[simp]
theorem setRecv_recv_self (p : RecvPc) : (s.setRecv k p).recv k = p := Function.update_self ..

/-- A component of the sessions that the change of one session keeps. -/
theorem update_keeps {β : Type*} (g : Session → β) {c : Session} (hs : s'.sess = Function.update s.sess i c)
    (hc : g c = g (s.sess i)) (r : ℕ) : g (s'.sess r) = g (s.sess r) := by
  rw [hs, Function.update_apply]
  split
  next hr => rw [hr, hc]
  next => rfl

theorem acceptStep_effect (h : s.acceptStep k x = some s') : s'.casts = s.casts ∧ s.Accepts k s' := by
  cases hpc : s.accept k with
  | call =>
    cases x with
    | accepted stream =>
      simp only [acceptStep, hpc, Option.ite_none_right_eq_some, Option.some.injEq] at h
      obtain ⟨-, rfl⟩ := h
      exact ⟨rfl, .makes rfl rfl (by simp [AcceptPc.session]) stream rfl⟩
    | refused =>
      simp only [acceptStep, hpc, Option.some.injEq] at h
      subst h
      exact ⟨rfl, .neither rfl rfl (by simp [AcceptPc.session]) fun r => ⟨rfl, rfl⟩⟩
    | _ => simp only [acceptStep, hpc, reduceCtorEq] at h
  | push i =>
    cases x <;> simp only [acceptStep, hpc, Option.some.injEq, reduceCtorEq] at h
    subst h
    exact ⟨rfl, .registers i hpc rfl rfl (by simp [AcceptPc.session]) rfl⟩
  | startActive i | startThread i =>
    cases x <;> simp only [acceptStep, hpc, Option.some.injEq, reduceCtorEq] at h
    subst h
    refine ⟨rfl, .neither rfl rfl (by simp [hpc, AcceptPc.session]) (forall_and.2 ⟨?_, ?_⟩)⟩
    · exact update_keeps Session.wire rfl rfl
    · exact update_keeps Session.since rfl rfl
  | lock i =>
    cases x <;> simp only [acceptStep, hpc, Option.ite_none_right_eq_some, Option.some.injEq, reduceCtorEq] at h
    obtain ⟨-, rfl⟩ := h
    exact ⟨rfl, .neither rfl rfl (by simp [hpc, AcceptPc.session]) fun r => ⟨rfl, rfl⟩⟩
  | test =>
    cases x <;> simp only [acceptStep, hpc, Option.some.injEq, reduceCtorEq] at h
    subst h
    refine ⟨rfl, .neither rfl rfl ?_ fun r => ⟨rfl, rfl⟩⟩
    cases hrun : s.running <;> simp [AcceptPc.session]
  | unlock =>
    cases x <;> simp only [acceptStep, hpc, Option.some.injEq, reduceCtorEq] at h
    subst h
    exact ⟨rfl, .neither rfl rfl (by simp [AcceptPc.session]) fun r => ⟨rfl, rfl⟩⟩
  | done => cases x <;> simp only [acceptStep, hpc, reduceCtorEq] at h

theorem recvStep_effect (hok : s.Unfailing (.recv k, x)) (h : s.recvStep k x = some s') :
    s'.clients = s.clients ∧ s'.count = s.count ∧ (∀ r, (s'.sess r).since = (s.sess r).since) ∧ s.Receives k s' := by
  cases hpc : s.recv k with
  | off =>
    cases x <;> simp only [recvStep, hpc, Option.ite_none_right_eq_some, Option.some.injEq, reduceCtorEq] at h
    obtain ⟨-, rfl⟩ := h
    exact ⟨rfl, rfl, fun r => rfl, .leaves rfl (by simp [RecvPc.dest]) (fun r => rfl)
      (.inl (by simp [hpc, RecvPc.pending]))⟩
  | test =>
    cases x <;> simp only [recvStep, hpc, Option.some.injEq, reduceCtorEq] at h
    subst h
    cases hact : (s.sess k).active
    all_goals exact ⟨rfl, rfl, fun r => rfl, .leaves rfl (by simp [RecvPc.dest]) (fun r => rfl)
      (.inl (by simp [hpc, RecvPc.pending]))⟩
  | recv =>
    simp only [recvStep, hpc] at h
    split at h
    · cases h
    all_goals
      cases h
      exact ⟨rfl, rfl, update_keeps Session.since rfl rfl, .leaves rfl (by simp [RecvPc.dest])
        (update_keeps Session.wire rfl rfl) (.inl (by simp [hpc, RecvPc.pending]))⟩
  | castLock msg =>
    cases x <;> simp only [recvStep, hpc, Option.ite_none_right_eq_some, Option.some.injEq, reduceCtorEq] at h
    obtain ⟨hfree, rfl⟩ := h
    exact ⟨rfl, rfl, fun r => rfl, .begins msg hfree rfl rfl (by simp) fun r => rfl⟩
  | cast msg rest =>
    cases rest with
    | nil =>
      cases x <;> simp only [recvStep, hpc, Option.some.injEq, reduceCtorEq] at h
      subst h
      exact ⟨rfl, rfl, fun r => rfl, .leaves rfl (by simp [RecvPc.dest]) (fun r => rfl)
        (.inl (by simp [hpc, RecvPc.pending]))⟩
    | cons d rest =>
      cases x <;> simp only [recvStep, hpc, Option.some.injEq, reduceCtorEq] at h
      subst h
      refine ⟨rfl, rfl, fun r => rfl, ?_⟩
      by_cases hd : d = k
      · -- the sender is passed over
        exact .leaves rfl (by simp [hd, RecvPc.dest]) (fun r => rfl)
          (.inr ⟨(d, msg), by simp [hd, hpc, RecvPc.pending], .inl hd⟩)
      · exact .leaves rfl (by simp [hd, RecvPc.dest]) (fun r => rfl) (.inl (by simp [hd, hpc, RecvPc.pending]))
  | castUnlock =>
    cases x <;> simp only [recvStep, hpc, Option.some.injEq, reduceCtorEq] at h
    subst h
    exact ⟨rfl, rfl, fun r => rfl, .leaves rfl (by simp [RecvPc.dest]) (fun r => rfl)
      (.inl (by simp [hpc, RecvPc.pending]))⟩
  | sendLock c =>
    cases x <;> simp only [recvStep, hpc, Option.ite_none_right_eq_some, Option.some.injEq, reduceCtorEq] at h
    obtain ⟨-, rfl⟩ := h
    exact ⟨rfl, rfl, update_keeps Session.since rfl rfl, .leaves rfl (by simp [hpc, RecvPc.dest])
      (update_keeps Session.wire rfl rfl) (.inl (by simp [hpc, RecvPc.pending]))⟩
  | send c left =>
    cases left with
    | nil =>
      cases x <;> simp only [recvStep, hpc, Option.some.injEq, reduceCtorEq] at h
      subst h
      exact ⟨rfl, rfl, fun r => rfl, .leaves rfl (by simp [RecvPc.dest]) (fun r => rfl)
        (.inr ⟨(c.dest, []), by simp [hpc, RecvPc.pending], .inr rfl⟩)⟩
    | cons b left =>
      cases x with
      | count n =>
        simp only [recvStep, hpc, Option.ite_none_right_eq_some, Option.some.injEq] at h
        obtain ⟨-, rfl⟩ := h
        refine ⟨rfl, rfl, update_keeps Session.since rfl rfl, ?_⟩
        refine .sends rfl (by simp [hpc, RecvPc.dest]) c.dest ((b :: left).take n) ((b :: left).drop n) _
          (by simp [hpc, RecvPc.dest]) ?_ (by simp [RecvPc.pending]; rfl) ?_ fun r hr => ?_
        · rw [List.take_append_drop, hpc]
          rfl
        · simp [modify, setRecv]
        · simp [modify, setRecv, hr]
      | failed => exact absurd (by rw [hpc]; trivial) hok
      | _ => simp only [recvStep, hpc, reduceCtorEq] at h
  | sendUnlock c =>
    cases x <;> simp only [recvStep, hpc, Option.some.injEq, reduceCtorEq] at h
    subst h
    exact ⟨rfl, rfl, update_keeps Session.since rfl rfl, .leaves rfl (by simp [RecvPc.dest])
      (update_keeps Session.wire rfl rfl) (.inl (by simp [hpc, RecvPc.pending]))⟩
  | done => cases x <;> simp only [recvStep, hpc, reduceCtorEq] at h

/-! ## The registration -/

/-- A session is registered once and by one accept thread, nothing is sent to it before, and nothing to the sender of
the broadcast. -/
structure Registered (s : Server) : Prop where
  nodup : s.clients.Nodup
  known : ∀ r ∈ s.clients, r < s.count ∧ (s.sess r).since ≤ s.casts.length
  apart : ∀ k, ∀ r ∈ (s.accept k).session, r ∉ s.clients ∧ ∀ l, r ∈ (s.accept l).session → l = k
  pending : ∀ k, ∀ e ∈ (s.recv k).pending, e.1 ∈ s.clients
  others : ∀ k, ∀ d ∈ (s.recv k).dest, d ≠ k
  wire : ∀ r, r ∉ s.clients → (s.sess r).wire = []

/-- An accept thread moves alone. -/
theorem accept_alone (h : s.step (.accept k, x) = some s') :
    (∀ l, l ≠ k → s'.accept l = s.accept l) ∧ s'.recv = s.recv :=
  ⟨fun l hl => (step_pc h).accept l (by simpa [eq_comm] using hl), funext fun j => (step_pc h).recv j (by simp)⟩

/-- An accept thread makes a session. -/
theorem Registered.make (hr : s.Registered) (hf : s.Fresh) (h : s.step (.accept k, x) = some s')
    (hcasts : s'.casts = s.casts) (hclients : s'.clients = s.clients) (hcount : s'.count = s.count + 1)
    (hsession : (s'.accept k).session = some s.count) {stream : List UInt8}
    (hsess : s'.sess = Function.update s.sess s.count (Session.new stream)) : s'.Registered := by
  obtain ⟨hnodup, hknown, hapart, hpending, hothers, hwire⟩ := hr
  obtain ⟨hsame, hrecv⟩ := accept_alone h
  have hold : ∀ r, r ≠ s.count → s'.sess r = s.sess r := fun r hne => by rw [hsess, Function.update_of_ne hne]
  have hin : ∀ l, s.count ∉ (s.accept l).session := fun l hl => Nat.lt_irrefl _ (hf.accept l _ hl)
  have hout : s.count ∉ s.clients := fun hmem => Nat.lt_irrefl _ (hknown _ hmem).1
  have hwhose : ∀ l, ∀ r ∈ (s'.accept l).session, l = k ∧ r = s.count ∨ l ≠ k ∧ r ∈ (s.accept l).session := by
    intro l r hl
    by_cases hlk : l = k
    · subst hlk
      rw [hsession, Option.mem_some_iff] at hl
      exact .inl ⟨rfl, hl.symm⟩
    · exact .inr ⟨hlk, hsame l hlk ▸ hl⟩
  refine ⟨hclients ▸ hnodup, fun r hr => ?_, fun l r hl => ?_, ?_, hrecv ▸ hothers, fun r hr => ?_⟩
  · rw [hclients] at hr
    rw [hold r (fun he => hout (he ▸ hr)), hcount, hcasts]
    exact ⟨Nat.lt_succ_of_lt (hknown r hr).1, (hknown r hr).2⟩
  · rw [hclients]
    rcases hwhose l r hl with ⟨rfl, rfl⟩ | ⟨hlk, hl⟩
    · refine ⟨hout, fun l' hl' => ?_⟩
      rcases hwhose l' _ hl' with ⟨rfl, -⟩ | ⟨-, hl'⟩
      · rfl
      · exact absurd hl' (hin l')
    · refine ⟨(hapart l r hl).1, fun l' hl' => ?_⟩
      rcases hwhose l' r hl' with ⟨-, rfl⟩ | ⟨-, hl'⟩
      · exact absurd hl (hin l)
      · exact (hapart l r hl).2 l' hl'
  · rw [hrecv, hclients]
    exact hpending
  · rw [hclients] at hr
    by_cases hrc : r = s.count
    · rw [hrc, hsess, Function.update_self]
      rfl
    · rw [hold r hrc]
      exact hwire r hr

/-- An accept thread registers the session that it has made. -/
theorem Registered.push (hr : s.Registered) (hf : s.Fresh) (h : s.step (.accept k, x) = some s')
    (hp : s.accept k = .push i) (hcasts : s'.casts = s.casts) (hclients : s'.clients = s.clients ++ [i])
    (hcount : s'.count = s.count) (hsession : (s'.accept k).session = none)
    (hsess : s'.sess = Function.update s.sess i { s.sess i with since := s.casts.length }) : s'.Registered := by
  obtain ⟨hnodup, hknown, hapart, hpending, hothers, hwire⟩ := hr
  obtain ⟨hsame, hrecv⟩ := accept_alone h
  have hi : i ∈ (s.accept k).session := by
    rw [hp]
    rfl
  obtain ⟨hout, hwhose⟩ := hapart k i hi
  have hmine : ∀ l, ∀ r ∈ (s'.accept l).session, l ≠ k ∧ r ∈ (s.accept l).session := by
    intro l r hl
    have hlk : l ≠ k := by
      rintro rfl
      rw [hsession] at hl
      cases hl
    exact ⟨hlk, hsame l hlk ▸ hl⟩
  refine ⟨?_, fun r hr => ?_, fun l r hl => ?_, fun j e he => ?_, hrecv ▸ hothers, fun r hr => ?_⟩
  · rw [hclients]
    exact List.nodup_append.2 ⟨hnodup, by simp, fun a ha b hb he => hout (List.mem_singleton.1 hb ▸ he ▸ ha)⟩
  · rw [hclients] at hr
    rw [hcount, hcasts, hsess]
    by_cases hri : r = i
    · rw [hri, Function.update_self]
      exact ⟨hf.accept k i hi, Nat.le_refl _⟩
    · rw [Function.update_of_ne hri]
      exact hknown r ((List.mem_append.1 hr).resolve_right fun h1 => hri (List.mem_singleton.1 h1))
  · obtain ⟨hlk, hl⟩ := hmine l r hl
    rw [hclients]
    refine ⟨fun hmem => ?_, fun l' hl' => (hapart l r hl).2 l' (hmine l' r hl').2⟩
    rcases List.mem_append.1 hmem with hmem | hmem
    · exact (hapart l r hl).1 hmem
    · exact hlk (hwhose l (List.mem_singleton.1 hmem ▸ hl))
  · rw [hrecv] at he
    rw [hclients]
    exact List.mem_append_left _ (hpending j e he)
  · have hkeep : (s'.sess r).wire = (s.sess r).wire := by
      rw [hsess, Function.update_apply]
      split
      · subst_vars
        rfl
      · rfl
    rw [hkeep]
    exact hwire r fun hmem => hr (hclients ▸ List.mem_append_left _ hmem)

theorem Registered.accept (hr : s.Registered) (hf : s.Fresh) (h : s.step (.accept k, x) = some s') : s'.Registered := by
  obtain ⟨hcasts, heffect⟩ := acceptStep_effect h
  cases heffect with
  | makes hclients hcount hsession stream hsess => exact hr.make hf h hcasts hclients hcount hsession hsess
  | registers i hp hclients hcount hsession hsess => exact hr.push hf h hp hcasts hclients hcount hsession hsess
  | neither hclients hcount hsession hsess =>
    obtain ⟨hnodup, hknown, hapart, hpending, hothers, hwire⟩ := hr
    obtain ⟨hsame, hrecv⟩ := accept_alone h
    have hwhose : ∀ l, ∀ r ∈ (s'.accept l).session, r ∈ (s.accept l).session := by
      intro l r hl
      by_cases hlk : l = k
      · subst hlk
        exact hsession r hl
      · exact hsame l hlk ▸ hl
    refine ⟨hclients ▸ hnodup, fun r hr => ?_, fun l r hl => ?_, ?_, hrecv ▸ hothers, fun r hr => ?_⟩
    · rw [hcount, hcasts, (hsess r).2]
      exact hknown r (hclients ▸ hr)
    · rw [hclients]
      exact ⟨(hapart l r (hwhose l r hl)).1, fun l' hl' => (hapart l r (hwhose l r hl)).2 l' (hwhose l' r hl')⟩
    · rw [hrecv, hclients]
      exact hpending
    · rw [(hsess r).1]
      exact hwire r (hclients ▸ hr)

theorem Registered.recv (hr : s.Registered) (hok : s.Unfailing (.recv k, x)) (h : s.step (.recv k, x) = some s') :
    s'.Registered := by
  obtain ⟨hnodup, hknown, hapart, hpending, hothers, hwire⟩ := hr
  have hpc := step_pc h
  have haccept : ∀ l, s'.accept l = s.accept l := fun l => hpc.accept l (by simp)
  have hsame : ∀ j, j ≠ k → s'.recv j = s.recv j := fun j hj => hpc.recv j (by simpa [eq_comm] using hj)
  obtain ⟨hclients, hcount, hsince, hstep⟩ := recvStep_effect hok h
  have hlength : s.casts.length ≤ s'.casts.length := by
    cases hstep with
    | begins msg _ _ hcasts =>
      rw [hcasts, List.length_append]
      exact Nat.le_add_right _ _
    | leaves hcasts | sends hcasts => exact Nat.le_of_eq (congrArg _ hcasts.symm)
  refine ⟨hclients ▸ hnodup, fun r hr => ?_, fun l => ?_, fun j e he => ?_, fun j d hd => ?_, fun r hr => ?_⟩
  · rw [hcount, hsince]
    exact ⟨(hknown r (hclients ▸ hr)).1, Nat.le_trans (hknown r (hclients ▸ hr)).2 hlength⟩
  · simp only [haccept, hclients]
    exact hapart l
  · rw [hclients]
    by_cases hj : j = k
    · subst hj
      cases hstep with
      | begins msg _ _ _ hp =>
        rw [hp, RecvPc.pending, List.mem_map] at he
        obtain ⟨d, hd, rfl⟩ := he
        exact hd
      | leaves _ _ _ hleft =>
        rcases hleft with heq | ⟨e', heq, -⟩
        · exact hpending j e (heq ▸ he)
        · exact hpending j e (heq ▸ List.mem_cons_of_mem _ he)
      | sends _ _ d part left rest _ heq heq' =>
        rw [heq'] at he
        rcases List.mem_cons.1 he with rfl | he
        · exact hpending j (d, part ++ left) (heq ▸ List.mem_cons_self)
        · exact hpending j e (heq ▸ List.mem_cons_of_mem _ he)
    · exact hpending j e (hsame j hj ▸ he)
  · by_cases hj : j = k
    · subst hj
      cases hstep with
      | begins msg _ _ _ hp =>
        rw [hp] at hd
        cases hd
      | leaves _ hdest | sends _ hdest => exact (hdest d hd).elim id (hothers j d)
    · exact hothers j d (hsame j hj ▸ hd)
  · rw [hclients] at hr
    cases hstep with
    | begins msg _ _ _ _ hwires | leaves _ _ hwires _ =>
      rw [hwires]
      exact hwire r hr
    | sends _ _ d part left rest _ heq _ _ hwires =>
      have hd : d ∈ s.clients := hpending k (d, part ++ left) (heq ▸ List.mem_cons_self)
      rw [hwires r fun he => hr (he ▸ hd)]
      exact hwire r hr

/-! ## What is due -/

theorem dueTo_cons {p p' : RecvPc} {e : ℕ × List UInt8} (h : p.pending = e :: p'.pending) (he : e.1 = k ∨ e.2 = []) :
    p.dueTo k r = p'.dueTo k r := by
  rw [RecvPc.dueTo, RecvPc.dueTo, h]
  split
  · rfl
  next hrk =>
    by_cases her : e.1 = r
    · have hnil : e.2 = [] := he.resolve_left fun hek => hrk (her.symm.trans hek)
      rw [List.filter_cons_of_pos (by simpa using her), List.flatMap_cons, hnil, List.nil_append]
    · rw [List.filter_cons_of_neg (by simpa using her)]

theorem dueTo_nil {p : RecvPc} (h : ¬ p.HoldsClients) : p.dueTo k r = [] := by
  cases p with
  | cast | castUnlock | sendLock | send | sendUnlock => exact absurd trivial h
  | _ => simp [RecvPc.dueTo, RecvPc.pending]

/-- Every client but the sender is to get a new broadcast. -/
theorem dueTo_cast {msg : List UInt8} (hnodup : s.clients.Nodup) (hr : r ∈ s.clients) :
    (RecvPc.cast msg s.clients).dueTo k r = if r = k then [] else msg := by
  have hfilter : (s.clients.map fun d => (d, msg)).filter (fun e => e.1 = r) = [(r, msg)] := by
    have heq : s.clients.filter (fun d => d = r) = [r] := by
      rw [List.filter_eq, List.count_eq_one_of_mem hnodup hr, List.replicate_one]
    rw [List.filter_map]
    exact congrArg (List.map fun d => (d, msg)) heq
  rw [RecvPc.dueTo, RecvPc.pending, hfilter]
  simp

/-- Outside the beginning of a broadcast, what is sent to a session is what was due to it. -/
theorem recvStep_due (hr : s.Registered) (hok : s.Unfailing (.recv k, x)) (h : s.step (.recv k, x) = some s')
    (hcasts : s'.casts = s.casts) (r : ℕ) :
    (s'.sess r).wire ++ (s'.recv k).dueTo k r = (s.sess r).wire ++ (s.recv k).dueTo k r ∧
      (s.sess r).wire <+: (s'.sess r).wire := by
  cases (recvStep_effect hok h).2.2.2 with
  | begins msg _ _ hcasts' =>
    rw [hcasts] at hcasts'
    simp at hcasts'
  | leaves _ _ hwires hpending =>
    rw [hwires]
    refine ⟨?_, List.prefix_rfl⟩
    rcases hpending with heq | ⟨e, heq, he⟩
    · rw [RecvPc.dueTo, RecvPc.dueTo, heq]
    · rw [dueTo_cons heq he]
  | sends _ _ d part left rest hd heq heq' hwire hwires =>
    have hdk : d ≠ k := hr.others k d hd
    rw [RecvPc.dueTo, RecvPc.dueTo, heq, heq']
    by_cases hrd : r = d
    · subst hrd
      rw [hwire]
      refine ⟨?_, List.prefix_append _ _⟩
      simp [hdk]
    · rw [hwires r hrd]
      refine ⟨?_, List.prefix_rfl⟩
      simp [Ne.symm hrd]

theorem due_of_free (h : s.clientsMutex = none) : s.due r = [] := by
  rw [due, h]

theorem due_of_accept (h : s.clientsMutex = some (.accept k)) : s.due r = [] := by
  rw [due, h]

theorem due_of_recv (h : s.clientsMutex = some (.recv k)) : s.due r = (s.recv k).dueTo k r := by
  rw [due, h]

/-- The same for the server. -/
theorem due_recv (hown : Owned s.clientsMutex s.HoldsClients) (h : s.step (.recv k, x) = some s')
    {a a' : List UInt8} (hdue : a' ++ (s'.recv k).dueTo k r = a ++ (s.recv k).dueTo k r) :
    a' ++ s'.due r = a ++ s.due r := by
  have hpc := step_pc h
  rcases step_clients h with ⟨hm, hk⟩ | ⟨hm, hm', -⟩ | ⟨hheld, hm', hheld'⟩
  · by_cases hheld : s.HoldsClients (.recv k)
    · have hm₀ := (hown (.recv k)).2 hheld
      rw [due_of_recv hm₀, due_of_recv (hm.trans hm₀)]
      exact hdue
    · rw [dueTo_nil hheld, dueTo_nil (mt hk.1 hheld), List.append_nil, List.append_nil] at hdue
      have hsame : s'.due r = s.due r := by
        rw [due, due, hm]
        split
        next j hj =>
          have hjk : j ≠ k := fun he => hheld ((hown (.recv k)).1 (he ▸ hj))
          rw [hpc.recv j (by simpa using Ne.symm hjk)]
        · rfl
      rw [hdue, hsame]
  · rw [dueTo_nil (hown.not_holds hm (.recv k))] at hdue
    rw [due_of_free hm, due_of_recv hm']
    exact hdue
  · rw [dueTo_nil hheld'] at hdue
    rw [due_of_free hm', due_of_recv ((hown (.recv k)).2 hheld)]
    exact hdue

/-- An accept thread leaves what is due alone. -/
theorem due_accept (h : s.step (.accept k, x) = some s') (hown : Owned s.clientsMutex s.HoldsClients) :
    s'.due r = s.due r := by
  have hrecv := (accept_alone h).2
  rcases step_clients h with ⟨hm, -⟩ | ⟨hm, hm', -⟩ | ⟨hheld, hm', -⟩
  · rw [due, due, hm, hrecv]
  · rw [due_of_free hm, due_of_accept hm']
  · rw [due_of_accept ((hown (.accept k)).2 hheld), due_of_free hm']

/-! ## The streams -/

/-- What was sent to a session and what is due to it are the broadcasts that it is to get, and all but the last
broadcast are sent. -/
structure Streaming (s : Server) : Prop where
  due : ∀ r ∈ s.clients, (s.sess r).wire ++ s.due r = (s.castsTo r s.casts.length).flatten
  earlier : ∀ r ∈ s.clients, ∀ n < s.casts.length, (s.castsTo r n).flatten <+: (s.sess r).wire

theorem castsTo_congr (hcasts : s'.casts = s.casts) (hsince : (s'.sess r).since = (s.sess r).since) (n : ℕ) :
    s'.castsTo r n = s.castsTo r n := by
  rw [castsTo, castsTo, hcasts, hsince]

/-- The broadcasts up to the registration. -/
theorem castsTo_since {n : ℕ} (h : n ≤ (s.sess r).since) : s.castsTo r n = [] := by
  have hdrop : (s.casts.take n).drop (s.sess r).since = [] := by
    refine List.drop_eq_nil_of_le ?_
    rw [List.length_take]
    omega
  rw [castsTo, hdrop]
  rfl

/-- A session is to get one broadcast more, unless it has sent it. -/
theorem castsTo_succ {n : ℕ} {msg : List UInt8} (hcast : s.casts[n]? = some (k, msg)) (hsince : (s.sess r).since ≤ n) :
    s.castsTo r (n + 1) = s.castsTo r n ++ if k = r then [] else [msg] := by
  have hlt := (List.getElem?_eq_some_iff.1 hcast).1
  have hdrop : (s.casts.take (n + 1)).drop (s.sess r).since = (s.casts.take n).drop (s.sess r).since ++ [(k, msg)] := by
    rw [List.take_add_one, hcast, Option.toList_some, List.drop_append_of_le_length]
    rw [List.length_take]
    omega
  rw [castsTo, hdrop, List.filter_append, List.map_append, ← castsTo]
  by_cases hk : k = r
  · simp [hk]
  · simp [hk]

theorem castsTo_mono {n m : ℕ} (h : n ≤ m) : s.castsTo r n <+: s.castsTo r m :=
  (((List.take_prefix_take_left h).drop _).filter _).map _

theorem Streaming.accept (hs : s.Streaming) (hr : s.Registered) (hown : Owned s.clientsMutex s.HoldsClients)
    (h : s.step (.accept k, x) = some s') : s'.Streaming := by
  obtain ⟨hdue, hearlier⟩ := hs
  have hdue' : ∀ r, s'.due r = s.due r := fun r => due_accept h hown
  -- a client that was registered before
  have hold : s'.casts = s.casts → ∀ r ∈ s.clients,
      (s'.sess r).wire = (s.sess r).wire ∧ (s'.sess r).since = (s.sess r).since →
      (s'.sess r).wire ++ s'.due r = (s'.castsTo r s'.casts.length).flatten ∧
        ∀ n < s'.casts.length, (s'.castsTo r n).flatten <+: (s'.sess r).wire := by
    intro hcasts r hr ⟨hwire, hsince⟩
    simp only [castsTo_congr hcasts hsince, hwire, hdue', hcasts]
    exact ⟨hdue r hr, hearlier r hr⟩
  obtain ⟨hcasts, heffect⟩ := acceptStep_effect h
  cases heffect with
  | makes hclients _ _ stream hsess =>
    have hkeep := fun r hr' => hold hcasts r hr' (by
      rw [hsess, Function.update_of_ne (Nat.ne_of_lt (hr.known r hr').1)]
      exact ⟨rfl, rfl⟩)
    exact ⟨fun r hr' => (hkeep r (hclients ▸ hr')).1, fun r hr' => (hkeep r (hclients ▸ hr')).2⟩
  | registers i hp hclients _ _ hsess =>
    have hout : i ∉ s.clients := (hr.apart k i (by rw [hp]; rfl)).1
    have hkeep := fun r hr' => hold hcasts r hr' (by
      rw [hsess, Function.update_of_ne (by rintro rfl; exact hout hr')]
      exact ⟨rfl, rfl⟩)
    -- the new client has got nothing yet, and nothing is due to it
    have hwire : (s'.sess i).wire = [] := by
      rw [hsess, Function.update_self]
      exact hr.wire i hout
    have hnone : s'.due i = [] := by
      have hheld : s.HoldsClients (.accept k) := by
        rw [HoldsClients, hp]
        trivial
      rw [hdue', due_of_accept ((hown (.accept k)).2 hheld)]
    have hcastsTo : ∀ n ≤ s'.casts.length, s'.castsTo i n = [] := by
      intro n hn
      refine castsTo_since ?_
      rw [hsess, Function.update_self]
      exact hcasts ▸ hn
    have hnew : ∀ r ∈ s'.clients, r ∈ s.clients ∨ r = i := fun r hr' =>
      (List.mem_append.1 (hclients ▸ hr')).imp_right List.mem_singleton.1
    refine ⟨fun r hr' => ?_, fun r hr' n hn => ?_⟩
    · rcases hnew r hr' with hr' | rfl
      · exact (hkeep r hr').1
      · rw [hwire, hnone, hcastsTo _ (Nat.le_refl _)]
        rfl
    · rcases hnew r hr' with hr' | rfl
      · exact (hkeep r hr').2 n hn
      · rw [hcastsTo n (Nat.le_of_lt hn)]
        exact List.nil_prefix
  | neither hclients _ _ hsess =>
    have hkeep := fun r hr' => hold hcasts r hr' (hsess r)
    exact ⟨fun r hr' => (hkeep r (hclients ▸ hr')).1, fun r hr' => (hkeep r (hclients ▸ hr')).2⟩

theorem Streaming.recv (hs : s.Streaming) (hr : s.Registered) (hown : Owned s.clientsMutex s.HoldsClients)
    (hok : s.Unfailing (.recv k, x)) (h : s.step (.recv k, x) = some s') : s'.Streaming := by
  obtain ⟨hdue, hearlier⟩ := hs
  have hclients := (recvStep_effect hok h).1
  have hsince := (recvStep_effect hok h).2.2.1
  cases (recvStep_effect hok h).2.2.2 with
  | begins msg hm hm' hcasts hp hwires =>
    -- the broadcasts before are sent
    have hsent : ∀ r ∈ s.clients, (s.sess r).wire = (s.castsTo r s.casts.length).flatten := by
      intro r hr'
      rw [← hdue r hr', due_of_free hm, List.append_nil]
    have hbefore : ∀ r, ∀ n ≤ s.casts.length, s'.castsTo r n = s.castsTo r n := by
      intro r n hn
      rw [castsTo, castsTo, hcasts, hsince, List.take_append_of_le_length hn]
    have hlast : s'.casts[s.casts.length]? = some (k, msg) := by simp [hcasts]
    have hlength : s'.casts.length = s.casts.length + 1 := by simp [hcasts]
    refine ⟨fun r hr' => ?_, fun r hr' n hn => ?_⟩
    · rw [hclients] at hr'
      have hnew := castsTo_succ (r := r) hlast (hsince r ▸ (hr.known r hr').2)
      rw [hlength, hnew, hbefore r _ (Nat.le_refl _), List.flatten_append, ← hsent r hr', hwires, due_of_recv hm',
        hp, dueTo_cast hr.nodup hr']
      by_cases hk : r = k
      · rw [if_pos hk, if_pos hk.symm]
        rfl
      · rw [if_neg hk, if_neg (Ne.symm hk)]
        simp
    · rw [hclients] at hr'
      have hn' : n ≤ s.casts.length := by omega
      rw [hbefore r n hn', hwires, hsent r hr']
      exact (castsTo_mono hn').flatten
  | leaves hcasts | sends hcasts =>
    have hsame : ∀ r n, s'.castsTo r n = s.castsTo r n := fun r n => castsTo_congr hcasts (hsince r) n
    refine ⟨fun r hr' => ?_, fun r hr' n hn => ?_⟩
    · rw [due_recv hown h (recvStep_due hr hok h hcasts r).1, hsame, hcasts]
      exact hdue r (hclients ▸ hr')
    · rw [hsame]
      exact (hearlier r (hclients ▸ hr') n (hcasts ▸ hn)).trans (recvStep_due hr hok h hcasts r).2

/-! ## The agreement -/

theorem Gets.castsTo_succ {msg : List UInt8} (hg : s.Gets r i msg) : s.castsTo r (i + 1) = s.castsTo r i ++ [msg] := by
  obtain ⟨-, hsince, k, hk, hcast⟩ := hg
  rw [Server.castsTo_succ hcast hsince, if_neg hk]

theorem Gets.lt {msg : List UInt8} (hg : s.Gets r i msg) : i < s.casts.length := by
  obtain ⟨-, -, k, -, hcast⟩ := hg
  exact (List.getElem?_eq_some_iff.1 hcast).1

/-- A broadcast that stands in the stream as a whole. -/
theorem Gets.whole {msg : List UInt8} (hg : s.Gets r i msg)
    (h : (s.castsTo r (i + 1)).flatten <+: (s.sess r).wire) :
    ((s.sess r).wire.drop (s.offset r i)).take msg.length = msg := by
  obtain ⟨rest, hrest⟩ := h
  rw [hg.castsTo_succ, List.flatten_append, List.flatten_singleton, List.append_assoc] at hrest
  rw [← hrest, offset, List.drop_left, List.take_left]

theorem Gets.piece {msg : List UInt8} (hg : s.Gets r i msg)
    (h : (s.sess r).wire <+: (s.castsTo r (i + 1)).flatten) :
    ((s.sess r).wire.drop (s.offset r i)).take msg.length <+: msg := by
  rw [hg.castsTo_succ, List.flatten_append, List.flatten_singleton] at h
  have hdrop := h.drop (s.offset r i)
  rw [offset, List.drop_left] at hdrop
  exact (List.take_prefix _ _).trans hdrop

theorem Gets.offset_le {msg : List UInt8} {j : ℕ} (hg : s.Gets r i msg) (hij : i < j) :
    s.offset r i + msg.length ≤ s.offset r j := by
  have hle := (castsTo_mono (s := s) (r := r) (Nat.succ_le_of_lt hij)).flatten.length_le
  rw [Nat.succ_eq_add_one, hg.castsTo_succ, List.flatten_append, List.length_append, List.flatten_singleton] at hle
  exact hle

theorem Streaming.agreed (hs : s.Streaming) : s.Agreed := by
  have hstream : ∀ r ∈ s.clients, (s.sess r).wire <+: (s.castsTo r s.casts.length).flatten := fun r hr =>
    ⟨_, hs.due r hr⟩
  have hwhole : ∀ r i msg, s.Gets r i msg → i + 1 < s.casts.length ∨ s.clientsMutex = none →
      ((s.sess r).wire.drop (s.offset r i)).take msg.length = msg := by
    intro r i msg hg hdone
    refine hg.whole ?_
    by_cases hi : i + 1 < s.casts.length
    · exact hs.earlier r hg.1 _ hi
    · have hdue := hs.due r hg.1
      rw [due_of_free (hdone.resolve_left hi), List.append_nil] at hdue
      rw [hdue]
      exact (castsTo_mono hg.lt).flatten
  refine ⟨hstream, fun r i msg hg => ?_, hwhole, fun i j msg msg' hij r r' hg _ hg' _ => ?_⟩
  · by_cases hi : i + 1 < s.casts.length
    · rw [hwhole r i msg hg (.inl hi)]
    · have hlast : i + 1 = s.casts.length := by
        have := hg.lt
        omega
      exact hg.piece (hlast ▸ hstream r hg.1)
  · exact ⟨hg.offset_le hij, hg'.offset_le hij⟩

end Server

variable {s : Server}

theorem registered (h : server.Reach Server.Unfailing s) : s.Registered := by
  refine h.invariant Server.Registered ?_ fun s ⟨t, x⟩ s' hreach hr hok hst => ?_
  · rintro s ⟨n, rfl⟩
    refine ⟨List.nodup_nil, fun r hr => ?_, fun k r hr => ?_, fun k e he => ?_, fun k d hd => ?_, fun r _ => rfl⟩
    · cases hr
    · simp only [Server.start] at hr
      split at hr <;> cases hr
    · cases he
    · cases hd
  · cases t with
    | accept k => exact hr.accept (fresh hreach) hst
    | recv k => exact hr.recv hok hst
    | stop => exact hok.elim

theorem streaming (h : server.Reach Server.Unfailing s) : s.Streaming := by
  refine h.invariant Server.Streaming ?_ fun s ⟨t, x⟩ s' hreach hs hok hst => ?_
  · rintro s ⟨n, rfl⟩
    refine ⟨fun r hr => ?_, fun r hr => ?_⟩
    · cases hr
    · cases hr
  · cases t with
    | accept k => exact hs.accept (registered hreach) (clients_owned hreach) hst
    | recv k => exact hs.recv (registered hreach) (clients_owned hreach) hok hst
    | stop => exact hok.elim

/-- **All sessions agree on the order of the broadcasts**, for any number of sessions, any interleaving and any split of
the sends. -/
theorem order_agreed (h : server.Reach Server.Unfailing s) : s.Agreed := (streaming h).agreed

/-- A `ReceiveMsg` starts and receives a message of two bytes. -/
def receiveTwo (i : ℕ) : List (Thread × Input) := [(.recv i, .go), (.recv i, .go), (.recv i, .count 2)]

/-- The sessions `0` and `1` get a message each; `0` broadcasts, to the session `1` byte by byte, and then `1`
broadcasts and has sent a byte to the session `2`. -/
def twoBroadcasts : List (Thread × Input) :=
  connect [1, 2] ++ connect [3, 4] ++ connect [] ++ receiveTwo 1 ++ receiveTwo 0 ++
    List.replicate 4 (Thread.recv 0, Input.go) ++ List.replicate 2 (Thread.recv 0, Input.count 1) ++
    List.replicate 4 (Thread.recv 0, Input.go) ++ [(Thread.recv 0, Input.count 2)] ++
    List.replicate 4 (Thread.recv 0, Input.go) ++ List.replicate 3 (Thread.recv 1, Input.go) ++
    [(Thread.recv 1, Input.count 2)] ++ List.replicate 5 (Thread.recv 1, Input.go) ++ [(Thread.recv 1, Input.count 1)]

theorem order_agreed_twoBroadcasts :
    (server.run (.start 1) twoBroadcasts).map (fun s => (s.casts, (List.range 3).map fun r => (s.sess r).wire)) =
        some ([(0, [1, 2]), (1, [3, 4])], [[3, 4], [1, 2], [1, 2, 3]]) ∧
      ∀ s ∈ server.run (.start 1) twoBroadcasts, s.Agreed := by
  have hinit : server.Reach Server.Unfailing (.start 1) := .init ⟨1, rfl⟩
  exact ⟨by decide +kernel, fun s hs => order_agreed (hinit.run_along hs (by decide +kernel))⟩

end TcpChat.BlockingServer
