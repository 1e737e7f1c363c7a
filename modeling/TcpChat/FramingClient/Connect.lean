import TcpChat.Lib.Handles
import Mathlib.Data.List.Basic

/-!
# How the framing client connects

`ChatClient::Run` up to the start of its threads.  It tries the addresses one after the other and keeps the socket of
the attempt at hand in `m_socket`, which is not reset when the socket has been closed.

* `connectLoop_eq` — which sockets are open after the loop, and what `m_socket` is;
* `Right` — the threads are started just on the first socket that is connected;
* `right_iff` — this is so unless every attempt fails and the last one had got a socket.
-/

namespace TcpChat.FramingClient

open TcpChat.Lib

/-- A `SOCKET` other than `INVALID_SOCKET`. -/
abbrev Socket := ℕ

/-- An entry of the list that `getaddrinfo` returns: what `socket` answers for it, and whether `connect` succeeds. -/
structure Candidate where
  socket : Option Socket
  connect : Bool
  deriving DecidableEq

/-- The failures that `Run` reports. -/
inductive Report where
  | startupFailed | getaddrinfoFailed | couldNotConnect
  deriving DecidableEq

/-- Where `Run` has come to: it has reported a failure and returned, or is about to start its threads. -/
structure SetUp where
  report : Option Report
  /-- `m_isActive` -/
  isActive : Bool
  /-- `m_socket`, `none` for `INVALID_SOCKET`. -/
  socket : Option Socket
  /-- `WSAStartup` has succeeded, and `WSACleanup` has not been called since. -/
  wsa : Bool
  closes : Closes Socket

/-- The loop over the list of `getaddrinfo`, with `m_socket`; `none` if `socket` answers with a socket that is open. -/
def connectLoop (socket : Option Socket) (t : Closes Socket) : List Candidate → Option (Option Socket × Closes Socket)
  | [] => some (socket, t)
  | ptr :: result =>
    match ptr.socket with
    | none => connectLoop none t result
    | some s =>
      if t.IsOpen s then none
      else if ptr.connect then some (some s, t.handOut s)
      else connectLoop (some s) ((t.handOut s).close s) result

/-- `ChatClient::Run`, up to the start of the threads: whether `WSAStartup` succeeds, and the answer of `getaddrinfo`.
-/
def run (wsaStartup : Bool) (answer : Option (List Candidate)) : Option SetUp :=
  if wsaStartup = false then some ⟨some .startupFailed, false, none, false, fun _ => none⟩
  else
    match answer with
    | none => some ⟨some .getaddrinfoFailed, false, none, false, fun _ => none⟩
    | some result =>
      (connectLoop none (fun _ => none) result).map fun r =>
        if r.1 = none then ⟨some .couldNotConnect, false, none, false, r.2⟩ else ⟨none, true, r.1, true, r.2⟩

/-- The end of `Disconnect`, which uses `m_socket` in `GracefulShutDown` and closes it. -/
def SetUp.disconnect (u : SetUp) : SetUp :=
  match u.socket with
  | none => { u with isActive := false }
  | some s => { u with isActive := false, socket := none, closes := u.closes.close s }

/-! ## What `Run` should do -/

namespace Candidate

/-- `socket` and `connect` succeed. -/
def Connects (c : Candidate) : Prop := c.socket.isSome ∧ c.connect = true

instance : DecidablePred Connects := fun _ => inferInstanceAs (Decidable (_ ∧ _))

def attempt (c : Candidate) : Closes.Attempt Socket := ⟨c.socket, c.connect⟩

end Candidate

/-- The addresses that `Run` has before it. -/
def resolved (wsaStartup : Bool) (answer : Option (List Candidate)) : List Candidate :=
  if wsaStartup = false then [] else answer.getD []

/-- The socket of the first candidate that connects. -/
def firstConnected (result : List Candidate) : Option Socket :=
  (result.find? fun c => c.Connects).bind (·.socket)

/-- The threads are started if and only if a socket has been connected, then on the first such socket, which is open;
otherwise a failure is reported.  Every other socket has been closed exactly once, and after `Disconnect` every
socket. -/
structure Right (result : List Candidate) (u : SetUp) : Prop where
  active : u.isActive = true ↔ ∃ c ∈ result, c.Connects
  socket : u.isActive = true → u.socket = firstConnected result ∧ ∀ s ∈ u.socket, u.closes.IsOpen s
  report : u.isActive = false → u.report.isSome
  others : ∀ s n, u.closes s = some n → u.socket ≠ some s → n = 1
  afterwards : ∀ s n, u.disconnect.closes s = some n → n = 1

/-- Some attempt succeeds, or the last one gets no socket. -/
def Conclusive (result : List Candidate) : Prop :=
  (∃ c ∈ result, c.Connects) ∨ ∀ c ∈ result.getLast?, c.socket = none

/-! ## The loop -/

variable {result : List Candidate} {socket r : Option Socket} {t t' : Closes Socket}

/-- The last candidate's socket, or what `m_socket` was. -/
def lastSocket (socket : Option Socket) (result : List Candidate) : Option Socket :=
  (result.getLast?.map (·.socket)).getD socket

theorem lastSocket_cons (c : Candidate) : lastSocket socket (c :: result) = lastSocket c.socket result := by
  cases result with
  | nil => rfl
  | cons d result => rw [lastSocket, lastSocket, List.getLast?_cons_cons, List.getLast?_cons]; rfl

/-- **After the loop `m_socket` is the first socket that is connected, or else the last one that was tried.** -/
theorem connectLoop_eq (socket : Option Socket) (t : Closes Socket) (result : List Candidate) :
    connectLoop socket t result =
      (t.firstServing (result.map (·.attempt))).map fun r => (r.1.or (lastSocket socket result), r.2) := by
  induction result generalizing socket t with
  | nil => rfl
  | cons ptr result ih =>
    rw [lastSocket_cons]
    obtain ⟨_ | s, connect⟩ := ptr
    · exact ih none t
    · simp only [connectLoop, List.map_cons, Candidate.attempt, Closes.firstServing, ih]
      split
      · rfl
      · cases connect <;> simp

theorem exists_connects_iff : (∃ c ∈ result, c.Connects) ↔ (firstConnected result).isSome := by
  unfold firstConnected
  cases hfind : result.find? fun c => c.Connects with
  | none =>
    rw [List.find?_eq_none] at hfind
    simpa using hfind
  | some c =>
    have hc : c.Connects := by simpa using List.find?_some hfind
    exact iff_of_true ⟨c, List.mem_of_find?_eq_some hfind, hc⟩ hc.1

theorem connectLoop_spec (h : connectLoop none (fun _ => none) result = some (socket, t')) :
    socket = (firstConnected result).or (lastSocket none result) ∧ t'.Balanced {s | s ∈ firstConnected result} := by
  rw [connectLoop_eq] at h
  obtain ⟨⟨r, t⟩, hfirst, he⟩ := Option.map_eq_some_iff.1 h
  cases he
  obtain ⟨hr, -, hbal⟩ := Closes.firstServing_spec Closes.balanced_none hfirst
  rw [List.find?_map, Option.bind_map] at hr
  have hr : r = firstConnected result := hr
  rw [← hr]
  exact ⟨rfl, hbal.congr fun s => by simp⟩

theorem lastSocket_none_iff : lastSocket none result = none ↔ ∀ c ∈ result.getLast?, c.socket = none := by
  unfold lastSocket
  cases result.getLast? <;> simp

/-! ## The whole set-up -/

/-- Nothing has been opened, and a failure is reported. -/
theorem right_failed (r : Report) : Right [] ⟨some r, false, none, false, fun _ => none⟩ where
  active := by simp
  socket h := absurd h (by simp)
  report _ := rfl
  others s n h := by cases h
  afterwards s n h := by cases h

theorem right_connected {s : Socket} (hfirst : firstConnected result = some s) (hbal : t.Balanced {k | k ∈ some s}) :
    Right result ⟨none, true, some s, true, t⟩ where
  active := iff_of_true rfl (exists_connects_iff.2 (by rw [hfirst]; rfl))
  socket _ := ⟨hfirst.symm, fun k hk => (hbal.isOpen k).1 hk⟩
  report h := absurd h (by simp)
  others k n hk hne := hbal.closed hk hne
  afterwards := by
    refine Closes.balanced_empty.1 ((hbal.close rfl).congr fun k => iff_of_false (Set.notMem_empty k) ?_)
    rintro ⟨hk, hne⟩
    exact hne (Option.mem_some_iff.1 hk).symm

theorem right_couldNotConnect (hfirst : firstConnected result = none) (hbal : t.Balanced ∅) :
    Right result ⟨some .couldNotConnect, false, none, false, t⟩ where
  active := by
    rw [exists_connects_iff, hfirst]
    simp
  socket h := absurd h (by simp)
  report _ := rfl
  others k n hk _ := Closes.balanced_empty.1 hbal k n hk
  afterwards := Closes.balanced_empty.1 hbal

/-- After the loop the set-up is right unless `m_socket` is a socket that was closed. -/
theorem right_of_connectLoop (hloop : connectLoop none (fun _ => none) result = some (socket, t)) :
    Right result (if socket = none then ⟨some .couldNotConnect, false, none, false, t⟩
        else ⟨none, true, socket, true, t⟩) ↔
      Conclusive result := by
  obtain ⟨hsocket, hbal⟩ := connectLoop_spec hloop
  cases hfirst : firstConnected result with
  | some s =>
    rw [hfirst] at hsocket hbal
    obtain rfl : socket = some s := hsocket
    exact iff_of_true (right_connected hfirst hbal) (.inl (exists_connects_iff.2 (by rw [hfirst]; rfl)))
  | none =>
    rw [hfirst] at hsocket hbal
    have hno : ¬ ∃ c ∈ result, c.Connects := by
      rw [exists_connects_iff, hfirst]
      simp
    have hconclusive : Conclusive result ↔ socket = none := by
      rw [Conclusive, or_iff_right hno, ← lastSocket_none_iff, hsocket]
      rfl
    rw [hconclusive]
    cases socket with
    | none => exact iff_of_true (right_couldNotConnect hfirst (hbal.congr fun k => by simp)) rfl
    | some s => exact iff_of_false (fun hr => hno (hr.active.1 rfl)) (by simp)

/-- **The set-up is right if and only if some attempt succeeds or the last one gets no socket**, for every list of
addresses and every pattern of failures. -/
theorem right_iff {wsaStartup : Bool} {answer : Option (List Candidate)} {u : SetUp}
    (h : run wsaStartup answer = some u) :
    Right (resolved wsaStartup answer) u ↔ Conclusive (resolved wsaStartup answer) := by
  have hnil : Conclusive [] := .inr (by simp)
  unfold run at h
  split at h
  next hwsa =>
    cases h
    rw [resolved, if_pos hwsa]
    exact iff_of_true (right_failed _) hnil
  next hwsa =>
    rw [resolved, if_neg hwsa]
    cases answer with
    | none =>
      cases h
      exact iff_of_true (right_failed _) hnil
    | some result =>
      obtain ⟨⟨socket, t⟩, hloop, he⟩ := Option.map_eq_some_iff.1 h
      cases he
      exact right_of_connectLoop hloop

/-- The first address is refused, the second gets no socket and the third is connected. -/
def threeAddresses : List Candidate := [⟨some 3, false⟩, ⟨none, false⟩, ⟨some 4, true⟩]

theorem right_iff_threeAddresses :
    ∃ u, run true (some threeAddresses) = some u ∧ u.socket = some 4 ∧ u.closes 3 = some 1 ∧
      Right threeAddresses u := by
  obtain ⟨u, hu, hq⟩ := Option.map_eq_some_iff.1 (show (run true (some threeAddresses)).map
    (fun u => (u.socket, u.closes 3)) = some (some 4, some 1) by decide)
  simp only [Prod.mk.injEq] at hq
  exact ⟨u, hu, hq.1, hq.2, (right_iff hu).2 (.inl ⟨⟨some 4, true⟩, by decide, by decide⟩)⟩

/-- The only address is refused.  The threads are started on the socket that `Run` has closed, which `Disconnect` closes
again. -/
theorem started_on_closed :
    ∃ u, run true (some [⟨some 3, false⟩]) = some u ∧ u.isActive = true ∧ u.socket = some 3 ∧ u.closes 3 = some 1 ∧
      u.disconnect.closes 3 = some 2 ∧ ¬ Right [⟨some 3, false⟩] u := by
  refine ⟨_, rfl, rfl, rfl, rfl, rfl, fun h => ?_⟩
  obtain ⟨c, hc, hconnects⟩ := h.active.1 rfl
  rw [List.mem_singleton.1 hc] at hconnects
  exact absurd hconnects (by decide)

end TcpChat.FramingClient
