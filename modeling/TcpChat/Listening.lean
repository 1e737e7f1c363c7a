import TcpChat.Lib.Handles
import Mathlib.Data.List.Basic
import Mathlib.Data.List.ReduceOption

/-!
# Listening sockets

`ChatServer::CreateListeningSocket`, which is the same in the `select` server and in the framing server: the addresses
that `getaddrinfo` finds are tried one after the other, until a socket is bound and listens.

* `createListeningSocket_spec` — the result is the socket of the first address that could be bound and listened on, and
  the sockets of the addresses before it have been closed;
* `createListeningSockets_spec` — the same for the loop over the configured addresses.
-/

namespace TcpChat.Listening

open TcpChat.Lib

/-- A `SOCKET` other than `INVALID_SOCKET`. -/
abbrev Socket := ℕ

/-- An entry of the list that `getaddrinfo` returns: what `socket` answers for it, and whether `bind` and `listen`
succeed. -/
structure Candidate where
  socket : Option Socket
  bind : Bool
  listen : Bool
  deriving DecidableEq

/-- The loop of `CreateListeningSocket` over the list of `getaddrinfo`; `none` if `socket` answers with a socket that is
open. -/
def tryCandidates (t : Closes Socket) : List Candidate → Option (Option Socket × Closes Socket)
  | [] => some (none, t)
  | ptr :: result =>
    match ptr.socket with
    | none => tryCandidates t result
    | some s =>
      if t.IsOpen s then none
      else if ptr.bind = false then tryCandidates ((t.handOut s).close s) result
      else if ptr.listen = false then tryCandidates ((t.handOut s).close s) result
      else some (some s, t.handOut s)

/-- `ChatServer::CreateListeningSocket`; `getaddrinfo` has failed or returned a list. -/
def createListeningSocket (t : Closes Socket) : Option (List Candidate) → Option (Option Socket × Closes Socket)
  | none => some (none, t)
  | some result => tryCandidates t result

/-- `CreateListeningSocket` for every configured address. -/
def createListeningSockets (t : Closes Socket) :
    List (Option (List Candidate)) → Option (List (Option Socket) × Closes Socket)
  | [] => some ([], t)
  | ip :: ips =>
    (createListeningSocket t ip).bind fun r =>
      (createListeningSockets r.2 ips).map fun rs => (r.1 :: rs.1, rs.2)

/-! ## The first candidate that listens -/

namespace Candidate

/-- `socket`, `bind` and `listen` succeed. -/
def Listens (c : Candidate) : Prop := c.socket.isSome ∧ c.bind = true ∧ c.listen = true

instance : DecidablePred Listens := fun _ => inferInstanceAs (Decidable (_ ∧ _))

def attempt (c : Candidate) : Closes.Attempt Socket := ⟨c.socket, c.bind && c.listen⟩

theorem attempt_succeeds (c : Candidate) : c.attempt.Succeeds ↔ c.Listens := by
  simp [Closes.Attempt.Succeeds, Listens, attempt]

end Candidate

/-- The socket of the first candidate that listens. -/
def firstListening (ip : Option (List Candidate)) : Option Socket :=
  (ip.bind fun result => result.find? fun c => c.Listens).bind (·.socket)

variable {t t' : Closes Socket} {held : Set Socket}

theorem tryCandidates_eq (t : Closes Socket) (result : List Candidate) :
    tryCandidates t result = t.firstServing (result.map (·.attempt)) := by
  induction result generalizing t with
  | nil => rfl
  | cons ptr result ih =>
    obtain ⟨_ | s, bind, listen⟩ := ptr
    · exact ih t
    · simp only [tryCandidates, List.map_cons, Candidate.attempt, Closes.firstServing, ih]
      cases bind <;> cases listen <;> simp

/-- **`CreateListeningSocket` returns the first socket that listens, and has closed the others.** -/
theorem createListeningSocket_spec {ip : Option (List Candidate)} {r : Option Socket} (h : t.Balanced held)
    (hr : createListeningSocket t ip = some (r, t')) :
    r = firstListening ip ∧ (∀ s ∈ r, s ∉ held) ∧ t'.Balanced {s | s ∈ held ∨ s ∈ r} := by
  cases ip with
  | none =>
    cases hr
    exact ⟨rfl, by simp, h.congr fun s => by simp⟩
  | some result =>
    rw [createListeningSocket, tryCandidates_eq] at hr
    obtain ⟨hfirst, hnew, hbal⟩ := Closes.firstServing_spec h hr
    refine ⟨?_, hnew, hbal⟩
    have hsucceeds : (fun a => decide (Closes.Attempt.Succeeds a)) ∘ Candidate.attempt =
        fun c => decide (c.Listens) := by
      funext c
      exact decide_eq_decide.2 c.attempt_succeeds
    rw [hfirst, List.find?_map, hsucceeds, firstListening, Option.bind_map]
    rfl

/-- **The loop over the addresses gets one socket for each address that has one, all different and not held before.** -/
theorem createListeningSockets_spec {ips : List (Option (List Candidate))} {rs : List (Option Socket)}
    (h : t.Balanced held) (hr : createListeningSockets t ips = some (rs, t')) :
    rs = ips.map firstListening ∧ rs.reduceOption.Nodup ∧ (∀ s ∈ rs.reduceOption, s ∉ held) ∧
      t'.Balanced {s | s ∈ held ∨ s ∈ rs.reduceOption} := by
  induction ips generalizing t held rs with
  | nil =>
    cases hr
    exact ⟨rfl, List.nodup_nil, by simp, h.congr fun s => by simp⟩
  | cons ip ips ih =>
    rw [createListeningSockets, Option.bind_eq_some_iff] at hr
    obtain ⟨⟨r, t₁⟩, hone, hr⟩ := hr
    obtain ⟨⟨rs, t₂⟩, hall, he⟩ := Option.map_eq_some_iff.1 hr
    cases he
    obtain ⟨hfirst, hnew, hbal⟩ := createListeningSocket_spec h hone
    obtain ⟨hmap, hnd, hnews, hbals⟩ := ih hbal hall
    have hmem : ∀ s, s ∈ (r :: rs).reduceOption ↔ s ∈ r ∨ s ∈ rs.reduceOption := by
      intro s
      cases r <;> simp [List.reduceOption_cons_of_none, List.reduceOption_cons_of_some, eq_comm]
    refine ⟨by rw [hmap, hfirst, List.map_cons], ?_, ?_, ?_⟩
    · cases r with
      | none => exact hnd
      | some s =>
        rw [List.reduceOption_cons_of_some, List.nodup_cons]
        exact ⟨fun hs => hnews s hs (.inr rfl), hnd⟩
    · intro s hs hheld
      rcases (hmem s).1 hs with hs | hs
      · exact hnew s hs hheld
      · exact hnews s hs (.inl hheld)
    · refine hbals.congr fun s => ?_
      simp only [Set.mem_ofPred_eq, hmem, or_assoc]

end TcpChat.Listening
