import TcpChat.Lib.System
import Mathlib.Logic.Function.Basic

/-!
# A server and its clients

A server and any number of clients, with a stream in each direction between the server and a client.  A step is a step of
one of the programs; what it writes to a stream is from then on among what the other side has still to read.

* `Network` — the two programs, and how they read from and write to the streams;
* `Network.system` — the steps of the whole;
* `Feeds`, `Hears` — a step of a program is a step when there is more to come, too;
* `server_reach`, `client_reach` — each program makes a run of its own, whatever is still to come.
-/

namespace TcpChat.Lib

variable {σ ι κ η β : Type*}

/-- What a step has written that has made `wire` of `old`. -/
def written (old wire : List β) : List β := wire.drop old.length

@[simp] theorem written_append (old out : List β) : written old (old ++ out) = out := by simp [written]

/-- A server, its clients, and the streams between them.  The clients have the numbers in which they are accepted. -/
structure Network (σ ι κ η β : Type*) where
  server : System σ ι
  client : System κ η
  /-- How many clients have been accepted. -/
  count : σ → ℕ
  /-- The step accepts a client, which has written this so far. -/
  accepted : ι → Option (List β)
  /-- What the server has written to a client, and a client to the server. -/
  toClient : σ → ℕ → List β
  toServer : κ → List β
  /-- The server, or a client, when there is more to read. -/
  feed : σ → (ℕ → List β) → σ
  hear : κ → List β → κ

/-- The server and the clients. -/
structure Network.State (σ κ : Type*) where
  server : σ
  clients : ℕ → κ

/-- A step of one of the programs. -/
inductive Network.Move (ι η : Type*) where
  | server (i : ι)
  | client (r : ℕ) (i : η)
  deriving DecidableEq

namespace Network

variable (N : Network σ ι κ η β)

/-- `out` is for the client `r`, once it has been accepted. -/
def only (s : σ) (r : ℕ) (out : List β) (q : ℕ) : List β := if q = r ∧ q < N.count s then out else []

/-- A client is accepted with what it has written so far. -/
def Connects (R : State σ κ) (i : ι) : Prop := ∀ stream ∈ N.accepted i, stream = N.toServer (R.clients (N.count R.server))

instance [DecidableEq β] (R : State σ κ) : DecidablePred (N.Connects R) := fun i =>
  match h : N.accepted i with
  | none => isTrue (by simp [Connects, h])
  | some stream => decidable_of_iff (stream = N.toServer (R.clients (N.count R.server))) (by simp [Connects, h])

/-- One step of the network. -/
def step [DecidableEq β] (R : State σ κ) : Move ι η → Option (State σ κ)
  | .server i =>
    if N.Connects R i then
      (N.server.step R.server i).map fun s =>
        { server := s, clients := fun r => N.hear (R.clients r) (written (N.toClient R.server r) (N.toClient s r)) }
    else none
  | .client r i =>
    (N.client.step (R.clients r) i).map fun c =>
      { server := N.feed R.server (N.only R.server r (written (N.toServer (R.clients r)) (N.toServer c))),
        clients := Function.update R.clients r c }

/-- The network, from the states `init` on. -/
def system [DecidableEq β] (init : State σ κ → Prop) : System (State σ κ) (Move ι η) where
  init := init
  step := N.step

/-- The programs are given to read one thing after the other. -/
structure Lawful : Prop where
  feed_nil : ∀ s, N.feed s (fun _ => []) = s
  feed_feed : ∀ s f g, N.feed (N.feed s f) g = N.feed s fun r => f r ++ g r
  count_feed : ∀ s f, N.count (N.feed s f) = N.count s
  hear_nil : ∀ c, N.hear c [] = c
  hear_hear : ∀ c u v, N.hear (N.hear c u) v = N.hear c (u ++ v)

/-- A step of the server is a step when the clients have more to send, too. -/
def Feeds (ok : σ → ι → Prop) : Prop :=
  ∀ s i s' f, ok s i → N.server.step s i = some s' → (∀ r, N.count s' ≤ r → f r = []) →
    ∃ i', ok (N.feed s fun r => if r < N.count s then f r else []) i' ∧
      N.server.step (N.feed s fun r => if r < N.count s then f r else []) i' = some (N.feed s' f)

/-- A step of a client is a step when the server has more to send, too. -/
def Hears (ok : κ → η → Prop) : Prop :=
  ∀ c i c' u, ok c i → N.client.step c i = some c' →
    ∃ i', ok (N.hear c u) i' ∧ N.client.step (N.hear c u) i' = some (N.hear c' u)

variable {N} [DecidableEq β] {init : State σ κ → Prop} {ok : State σ κ → Move ι η → Prop} {R R' : State σ κ}

theorem step_server {i : ι} (h : N.step R (.server i) = some R') :
    N.Connects R i ∧ ∃ s, N.server.step R.server i = some s ∧
      R' = { server := s, clients := fun r => N.hear (R.clients r) (written (N.toClient R.server r) (N.toClient s r)) } := by
  simp only [step, Option.ite_none_right_eq_some, Option.map_eq_some_iff] at h
  obtain ⟨hconn, s, hst, rfl⟩ := h
  exact ⟨hconn, s, hst, rfl⟩

theorem step_client {r : ℕ} {i : η} (h : N.step R (.client r i) = some R') :
    ∃ c, N.client.step (R.clients r) i = some c ∧
      R' = { server := N.feed R.server (N.only R.server r (written (N.toServer (R.clients r)) (N.toServer c))),
             clients := Function.update R.clients r c } := by
  simp only [step, Option.map_eq_some_iff] at h
  obtain ⟨c, hst, rfl⟩ := h
  exact ⟨c, hst, rfl⟩

/-- **The server in the network** makes a run of its own, with whatever is still to come from the clients. -/
theorem server_reach {okS : σ → ι → Prop} (hN : N.Lawful) (hS : N.Feeds okS)
    (h0 : ∀ R, init R → N.server.init R.server ∧ N.count R.server = 0) (hok : ∀ R i, ok R (.server i) → okS R.server i)
    (h : (N.system init).Reach ok R) (f : ℕ → List β) (hf : ∀ r, N.count R.server ≤ r → f r = []) :
    N.server.Reach okS (N.feed R.server f) := by
  refine h.invariant (fun R => ∀ f : ℕ → List β, (∀ r, N.count R.server ≤ r → f r = []) →
    N.server.Reach okS (N.feed R.server f)) (fun R hi f hf => ?_) (fun R m R' _ ih ho hst f hf => ?_) f hf
  · obtain ⟨hinit, hzero⟩ := h0 R hi
    obtain rfl : f = fun _ => [] := funext fun r => hf r (by omega)
    rw [hN.feed_nil]
    exact .init hinit
  · cases m with
    | server i =>
      obtain ⟨-, s, hs, rfl⟩ := step_server hst
      obtain ⟨i', ho', hs'⟩ := hS _ i s f (hok R i ho) hs hf
      exact .step (ih _ fun r hr => if_neg (by omega)) ho' hs'
    | client r i =>
      obtain ⟨c, -, rfl⟩ := step_client hst
      rw [hN.feed_feed]
      refine ih _ fun q hq => ?_
      rw [only, if_neg (by omega), hf q (by rwa [hN.count_feed]), List.append_nil]

/-- **A client in the network** makes a run of its own, with whatever is still to come from the server. -/
theorem client_reach {okC : κ → η → Prop} {r : ℕ} (hN : N.Lawful) (hC : N.Hears okC)
    (h0 : ∀ R, init R → ∀ u, N.client.init (N.hear (R.clients r) u))
    (hok : ∀ R i, ok R (.client r i) → okC (R.clients r) i) (h : (N.system init).Reach ok R) (u : List β) :
    N.client.Reach okC (N.hear (R.clients r) u) := by
  refine h.invariant (fun R => ∀ u, N.client.Reach okC (N.hear (R.clients r) u)) (fun R hi u => .init (h0 R hi u))
    (fun R m R' _ ih ho hst u => ?_) u
  cases m with
  | server i =>
    obtain ⟨-, s, -, rfl⟩ := step_server hst
    rw [hN.hear_hear]
    exact ih _
  | client q i =>
    obtain ⟨c, hc, rfl⟩ := step_client hst
    by_cases hq : r = q
    · subst hq
      obtain ⟨i', ho', hc'⟩ := hC _ i c u (hok R i ho) hc
      simp only [Function.update_self]
      exact .step (ih u) ho' hc'
    · simp only [Function.update_of_ne hq]
      exact ih u

end Network

end TcpChat.Lib
