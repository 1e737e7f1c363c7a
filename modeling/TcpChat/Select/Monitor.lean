import TcpChat.Select.Tick
import Mathlib.Data.Finset.Card

/-!
# Which sockets the `select` server monitors

`FD_SET` does nothing when the set is full, and `HandleReadyListeners` accepts any number of clients.

* `foldl_fdSet_iff` — a set takes everything that is added to it if and only if that is not too much;
* `Watched` — every socket is in the set, so that a client with data is received from and a closed client is removed;
* `watched_iff_room` — this is so if and only if there are at most `FD_SETSIZE` sockets;
* `unwatched` — and there can be more.
-/

namespace TcpChat.Select

open TcpChat.Lib TcpChat.Framing

/-! ## `FD_SET` -/

theorem fdSet_subset (set : List Socket) (sock : Socket) : set ⊆ Server.fdSet set sock := by
  unfold Server.fdSet
  split
  · exact List.Subset.refl set
  split
  · exact List.subset_append_left set [sock]
  · exact List.Subset.refl set

theorem fdSet_subset_append (set : List Socket) (sock : Socket) : Server.fdSet set sock ⊆ set ++ [sock] := by
  unfold Server.fdSet
  split
  · exact List.subset_append_left set [sock]
  split
  · exact List.Subset.refl _
  · exact List.subset_append_left set [sock]

theorem fdSet_nodup {set : List Socket} (h : set.Nodup) (sock : Socket) : (Server.fdSet set sock).Nodup := by
  unfold Server.fdSet
  split
  · exact h
  next hmem =>
    split
    · refine h.append (List.nodup_singleton sock) ?_
      rw [List.disjoint_singleton]
      exact hmem
    · exact h

theorem fdSet_length {set : List Socket} (h : set.length ≤ fdSetSize) (sock : Socket) :
    (Server.fdSet set sock).length ≤ fdSetSize := by
  unfold Server.fdSet
  split
  · exact h
  split
  · rw [List.length_append, List.length_singleton]
    omega
  · exact h

/-- A set with room takes the socket. -/
theorem mem_fdSet {set : List Socket} {sock : Socket} (h : sock ∈ set ∨ set.length < fdSetSize) :
    sock ∈ Server.fdSet set sock := by
  unfold Server.fdSet
  split
  next hmem => exact hmem
  next hmem =>
    rw [if_pos (h.resolve_left hmem)]
    exact List.mem_append_right set List.mem_cons_self

theorem foldl_fdSet_spec {set : List Socket} (l : List Socket) (hnd : set.Nodup) (hlen : set.length ≤ fdSetSize) :
    (l.foldl Server.fdSet set).Nodup ∧ (l.foldl Server.fdSet set).length ≤ fdSetSize ∧
      set ⊆ l.foldl Server.fdSet set := by
  induction l generalizing set with
  | nil => exact ⟨hnd, hlen, List.Subset.refl set⟩
  | cons sock l ih =>
    obtain ⟨h1, h2, h3⟩ := ih (fdSet_nodup hnd sock) (fdSet_length hlen sock)
    exact ⟨h1, h2, List.Subset.trans (fdSet_subset set sock) h3⟩

/-- **The set takes everything if and only if it has room for everything.** -/
theorem foldl_fdSet_iff {set : List Socket} (l : List Socket) (hnd : set.Nodup) (hlen : set.length ≤ fdSetSize) :
    (∀ sock ∈ l, sock ∈ l.foldl Server.fdSet set) ↔ (set ++ l).toFinset.card ≤ fdSetSize := by
  constructor
  · intro h
    obtain ⟨hnd', hlen', hsub⟩ := foldl_fdSet_spec l hnd hlen
    rw [← List.toFinset_card_of_nodup hnd'] at hlen'
    refine (Finset.card_le_card fun sock hsock => ?_).trans hlen'
    rw [List.mem_toFinset] at hsock ⊢
    rcases List.mem_append.1 hsock with hmem | hmem
    · exact hsub hmem
    · exact h sock hmem
  · intro hcard
    induction l generalizing set with
    | nil => simp
    | cons sock l ih =>
      have hroom : sock ∈ set ∨ set.length < fdSetSize := by
        by_contra hn
        rw [not_or, not_lt] at hn
        have hsub : (sock :: set).toFinset ⊆ (set ++ sock :: l).toFinset := by
          intro g hg
          simp only [List.mem_toFinset, List.mem_cons, List.mem_append] at hg ⊢
          tauto
        have hle := (Finset.card_le_card hsub).trans hcard
        rw [List.toFinset_card_of_nodup (List.nodup_cons.2 ⟨hn.1, hnd⟩), List.length_cons] at hle
        omega
      have hcard' : (Server.fdSet set sock ++ l).toFinset.card ≤ fdSetSize := by
        refine (Finset.card_le_card fun g hg => ?_).trans hcard
        simp only [List.mem_toFinset, List.mem_append, List.mem_cons] at hg ⊢
        rcases hg with hg | hg
        · have := fdSet_subset_append set sock hg
          simp only [List.mem_append, List.mem_singleton] at this
          tauto
        · tauto
      have hnd' := fdSet_nodup hnd sock
      have hlen' := fdSet_length hlen sock
      intro g hg
      rcases List.mem_cons.1 hg with rfl | hg
      · exact (foldl_fdSet_spec l hnd' hlen').2.2 (mem_fdSet hroom)
      · exact ih hnd' hlen' hcard' g hg

/-! ## The server -/

namespace Server

/-- The listeners and the clients. -/
def sockets (s : Server) : Finset Socket := (s.listenSockets ++ s.clients.keys).toFinset

/-- The set that `BuildReadSet` builds contains every listener and every client, in whatever order it goes through the
map. -/
def Monitored (s : Server) : Prop :=
  ∀ order, s.IsOrder order → ∀ sock, sock ∈ s.listenSockets ∨ sock ∈ s.clients → sock ∈ s.buildReadSet order

theorem monitored_iff (s : Server) : s.Monitored ↔ s.sockets.card ≤ fdSetSize := by
  have hiff : ∀ order, s.IsOrder order →
      ((∀ sock, sock ∈ s.listenSockets ∨ sock ∈ s.clients → sock ∈ s.buildReadSet order) ↔
        s.sockets.card ≤ fdSetSize) := by
    intro order horder
    have hsame : (s.listenSockets ++ order).toFinset = s.sockets := by
      ext sock
      simp only [sockets, List.mem_toFinset, List.mem_append, horder.mem_iff]
    have hset := foldl_fdSet_iff (s.listenSockets ++ order) List.nodup_nil (Nat.zero_le _)
    rw [List.nil_append, hsame] at hset
    rw [← hset]
    refine forall_congr' fun sock => ?_
    rw [List.mem_append, horder.mem_iff]
    exact Iff.rfl
  exact ⟨fun h => (hiff _ (List.Perm.refl _)).1 (h _ (List.Perm.refl _)), fun h order horder => (hiff order horder).2 h⟩

end Server

/-- Every socket is monitored, and in an iteration that begins in this state a client that `select` reports is received
from, and removed if its connection has ended. -/
structure State.Watched (s : State) : Prop where
  monitored : s.server.Monitored
  received : ∀ t order set is, Tick s t (.ready order set) is → ∀ sock ∈ s.server.clients, sock ∈ set →
    Select.server.Occurs (Receives sock) s (.ready order set :: is)
  removed : ∀ t order set is, Tick s t (.ready order set) is → ∀ sock ∈ s.server.clients,
    Select.server.Occurs (ReceivesEnd sock) s (.ready order set :: is) → sock ∉ t.server.clients

/-- There are at most `FD_SETSIZE` listeners and clients. -/
def State.Room (s : State) : Prop := s.server.sockets.card ≤ fdSetSize

/-- **Every registered socket is monitored if and only if there is room for all of them**: in each state, and so in each
state that is reached. -/
theorem watched_iff_room (s : State) : s.Watched ↔ s.Room := by
  refine ⟨fun h => s.server.monitored_iff.1 h.monitored, fun h => ⟨s.server.monitored_iff.2 h, ?_, ?_⟩⟩
  · intro t order set is htick sock hsock hset
    exact (tick_spec htick hsock).1.2 ⟨order, set, rfl, hset⟩
  · intro t order set is htick sock hsock hend
    exact (tick_spec htick hsock).2.2 hend

/-- The listener `3` accepts `n` clients in one iteration. -/
def acceptMany (n : ℕ) : List Input :=
  Input.ready [] [3] :: (List.range n).map (fun i => Input.accepted (4 + i)) ++
    [Input.refused .WSAEWOULDBLOCK, Input.loop ((List.range n).map (4 + ·)), Input.done, Input.done]

/-- With 63 clients the set is full. -/
theorem watched_iff_room_full :
    ∃ s, server.run ⟨.wait, .start [3]⟩ (acceptMany 63) = some s ∧ s.server.sockets.card = 64 ∧ s.Watched := by
  have hrun : (server.run ⟨.wait, .start [3]⟩ (acceptMany 63)).map (fun s => s.server.sockets.card) = some 64 := by
    decide +kernel
  obtain ⟨s, hs, hcard⟩ := Option.map_eq_some_iff.1 hrun
  exact ⟨s, hs, hcard, (watched_iff_room s).2 (by rw [State.Room, hcard]; decide)⟩

/-- With 64 clients one socket is left out. -/
theorem unwatched :
    server.init ⟨.wait, .start [3]⟩ ∧
      ∃ s, server.run ⟨.wait, .start [3]⟩ (acceptMany 64) = some s ∧ s.position = .wait ∧ ¬ s.Watched := by
  have hrun : (server.run ⟨.wait, .start [3]⟩ (acceptMany 64)).map (fun s => (s.position, s.server.sockets.card)) =
      some (.wait, 65) := by decide +kernel
  obtain ⟨s, hs, hq⟩ := Option.map_eq_some_iff.1 hrun
  simp only [Prod.mk.injEq] at hq
  refine ⟨⟨[3], rfl⟩, s, hs, hq.1, fun h => ?_⟩
  have hcard := s.server.monitored_iff.1 h.monitored
  rw [hq.2] at hcard
  exact absurd hcard (by decide)

end TcpChat.Select
