import TcpChat.Listening

/-!
# How the framing server begins to listen

`ChatServer::Start` up to the start of its accept threads.  It keeps what `CreateListeningSocket` returns for each
address, also if that is `INVALID_SOCKET`, and looks at the number of what it has kept.

* `ListensRight` — the accept threads run on the sockets that listen, and only on these;
* `listensRight_iff` — this is so if and only if every configured address has got a socket.
-/

namespace TcpChat.FramingServer

open TcpChat.Lib TcpChat.Listening

/-- The failures that `Start` reports. -/
inductive Report where
  | startupFailed | noListeningSockets
  deriving DecidableEq

/-- Where `Start` has come to: it has reported a failure and returned, or has started its accept threads. -/
structure Started where
  report : Option Report
  /-- `m_running` -/
  running : Bool
  /-- `m_listenSockets`, `none` for `INVALID_SOCKET`. -/
  listenSockets : List (Option Socket)
  /-- The arguments of the accept threads. -/
  acceptThreads : List (Option Socket)
  closes : Closes Socket

/-- `ChatServer::Start`: whether `WSAStartup` succeeds, and what `getaddrinfo`, `socket`, `bind` and `listen` answer for
each configured address. -/
def start (wsaStartup : Bool) (ips : List (Option (List Candidate))) : Option Started :=
  if wsaStartup = false then some ⟨some .startupFailed, false, [], [], fun _ => none⟩
  else
    (createListeningSockets (fun _ => none) ips).map fun r =>
      if r.1.length = 0 then ⟨some .noListeningSockets, false, r.1, [], r.2⟩ else ⟨none, true, r.1, r.1, r.2⟩

/-- The addresses for which `CreateListeningSocket` is called. -/
def tried (wsaStartup : Bool) (ips : List (Option (List Candidate))) : List (Option (List Candidate)) :=
  if wsaStartup = false then [] else ips

/-- `CreateListeningSocket` has returned the first socket that listens, for each address; these are open, and every
other socket has been closed exactly once.  An accept thread runs for each address that has got a socket and for no
other; if no address has, a failure is reported and `m_running` is not set. -/
structure ListensRight (ips : List (Option (List Candidate))) (u : Started) : Prop where
  created : u.listenSockets = ips.map firstListening
  isOpen : ∀ s, some s ∈ u.listenSockets → u.closes.IsOpen s
  others : ∀ s n, u.closes s = some n → some s ∉ u.listenSockets → n = 1
  threads : u.acceptThreads = (ips.filterMap firstListening).map some
  failed : (∀ ip ∈ ips, firstListening ip = none) → u.report.isSome ∧ u.running = false
  valid : none ∉ u.acceptThreads

variable {ips : List (Option (List Candidate))} {t : Closes Socket}

theorem listensRight_nil (r : Report) : ListensRight [] ⟨some r, false, [], [], fun _ => none⟩ where
  created := rfl
  isOpen s h := absurd h List.not_mem_nil
  others s n h := by cases h
  threads := rfl
  failed _ := ⟨rfl, rfl⟩
  valid := List.not_mem_nil

/-- Every address has got a socket. -/
theorem listensRight_of_all (hne : ips ≠ []) (hall : ∀ ip ∈ ips, (firstListening ip).isSome)
    (hbal : t.Balanced {s | s ∈ (ips.map firstListening).reduceOption}) :
    ListensRight ips ⟨none, true, ips.map firstListening, ips.map firstListening, t⟩ := by
  have hmem : ∀ s, some s ∈ ips.map firstListening ↔ s ∈ (ips.map firstListening).reduceOption := fun s =>
    List.reduceOption_mem_iff.symm
  refine ⟨rfl, fun s hs => (hbal.isOpen s).1 ((hmem s).1 hs), fun s n hs hn => ?_, ?_, fun hnone => ?_, fun hnone => ?_⟩
  · exact hbal.closed hs fun hm => hn ((hmem s).2 hm)
  · rw [List.map_filterMap]
    show ips.map firstListening = _
    rw [← List.filterMap_eq_map]
    refine List.filterMap_congr fun ip hip => ?_
    obtain ⟨s, hs⟩ := Option.isSome_iff_exists.1 (hall ip hip)
    simp [hs]
  · obtain ⟨ip, rest, rfl⟩ := List.exists_cons_of_ne_nil hne
    have hip := hall ip List.mem_cons_self
    rw [hnone ip List.mem_cons_self] at hip
    cases hip
  · obtain ⟨ip, hip, he⟩ := List.mem_map.1 hnone
    have := hall ip hip
    rw [he] at this
    cases this

/-- **The accept threads run on the sockets that listen, and only on these, if and only if every configured address
has got a socket**, for every list of addresses and candidates and every pattern of failures. -/
theorem listensRight_iff {wsaStartup : Bool} {u : Started} (h : start wsaStartup ips = some u) :
    ListensRight (tried wsaStartup ips) u ↔ ∀ ip ∈ tried wsaStartup ips, (firstListening ip).isSome := by
  unfold start at h
  split at h
  next hwsa =>
    cases h
    rw [tried, if_pos hwsa]
    exact iff_of_true (listensRight_nil _) (by simp)
  next hwsa =>
    rw [tried, if_neg hwsa]
    obtain ⟨⟨rs, t⟩, hcreate, he⟩ := Option.map_eq_some_iff.1 h
    obtain ⟨rfl, -, -, hbal⟩ := createListeningSockets_spec Closes.balanced_none hcreate
    have hbal : t.Balanced {s | s ∈ (ips.map firstListening).reduceOption} := hbal.congr fun s => by simp
    dsimp only at he
    by_cases hips : ips = []
    · subst hips
      cases he
      refine iff_of_true ⟨rfl, fun s hs => absurd hs List.not_mem_nil, fun s n hs _ => ?_, rfl, fun _ => ⟨rfl, rfl⟩,
        List.not_mem_nil⟩ (by simp)
      exact hbal.closed hs List.not_mem_nil
    · rw [if_neg (by simpa using hips)] at he
      subst he
      refine ⟨fun hr ip hip => ?_, fun hall => listensRight_of_all hips hall hbal⟩
      rw [Option.isSome_iff_ne_none]
      intro hnone
      exact hr.valid (List.mem_map.2 ⟨ip, hip, hnone⟩)

/-- The first candidate cannot be bound, the second listens. -/
def twoCandidates : List (Option (List Candidate)) := [some [⟨some 3, false, true⟩, ⟨some 4, true, true⟩]]

theorem listensRight_iff_twoCandidates :
    ∃ u, start true twoCandidates = some u ∧ u.acceptThreads = [some 4] ∧ u.closes 3 = some 1 ∧
      ListensRight twoCandidates u := by
  obtain ⟨u, hu, hq⟩ := Option.map_eq_some_iff.1 (show (start true twoCandidates).map
    (fun u => (u.acceptThreads, u.closes 3)) = some ([some 4], some 1) by decide)
  simp only [Prod.mk.injEq] at hq
  exact ⟨u, hu, hq.1, hq.2, (listensRight_iff hu).2 (by decide)⟩

/-- One of two addresses cannot be resolved, and an accept thread runs on `INVALID_SOCKET`; so too when it is the only
one.
-/
theorem accepts_on_invalid :
    (∃ u, start true [none, some [⟨some 3, true, true⟩]] = some u ∧ u.acceptThreads = [none, some 3] ∧
      ¬ ListensRight [none, some [⟨some 3, true, true⟩]] u) ∧
    ∃ u, start true [none] = some u ∧ u.acceptThreads = [none] ∧ u.running = true ∧ u.report = none ∧
      ¬ ListensRight [none] u :=
  ⟨⟨_, rfl, rfl, fun h => h.valid List.mem_cons_self⟩, ⟨_, rfl, rfl, rfl, rfl, fun h => h.valid List.mem_cons_self⟩⟩

end TcpChat.FramingServer
