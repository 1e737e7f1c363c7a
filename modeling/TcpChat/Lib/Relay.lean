import TcpChat.Lib.System
import Mathlib.Data.List.Infix

/-!
# Relays

A relay gives to everybody who has joined it what the others say, in the order in which it was said.

* `Relay` — what has been said, since when somebody listens, and what they have been given;
* `medium` — the system: somebody joins, says something, or is given some of what is due to them;
* `due_join`, `due_cast` — how its steps change what is due; `leads_give` — what may be given;
* `sound` — what is given is a beginning of what is due;
* `agreed` — everybody is given the messages in the order in which they were said, each of them in one piece.
-/

namespace TcpChat.Lib

/-- What has been said so far and by whom, at which length of that list somebody has joined, and what has been given to
them. -/
structure Relay (ι β : Type*) where
  casts : List (ι × List β)
  since : ι → Option ℕ
  given : ι → List β

namespace Relay

variable {ι β : Type*} [DecidableEq ι] {r r' : Relay ι β} {i j : ι} {msg part : List β} {k m n : ℕ}

/-- What the others than `i` have said between `k` and `n`. -/
def heard (r : Relay ι β) (i : ι) (k n : ℕ) : List β :=
  (((r.casts.take n).drop k).filter (·.1 ≠ i)).flatMap (·.2)

/-- What is to be given to `i`. -/
def due (r : Relay ι β) (i : ι) : List β :=
  match r.since i with
  | none => []
  | some k => r.heard i k r.casts.length

/-! ## Steps -/

def join (r : Relay ι β) (i : ι) : Relay ι β :=
  { r with since := Function.update r.since i (some r.casts.length) }

def cast (r : Relay ι β) (i : ι) (msg : List β) : Relay ι β := { r with casts := r.casts ++ [(i, msg)] }

def give (r : Relay ι β) (i : ι) (part : List β) : Relay ι β :=
  { r with given := Function.update r.given i (r.given i ++ part) }

inductive Act (ι β : Type*) where
  | join (i : ι) | cast (i : ι) (msg : List β) | give (i : ι) (n : ℕ)

def step (r : Relay ι β) : Act ι β → Option (Relay ι β)
  | .join i => if r.since i = none then some (r.join i) else none
  | .cast i msg => some (r.cast i msg)
  | .give i n => some (r.give i (((r.due i).drop (r.given i).length).take n))

/-- The relay at the beginning. -/
def fresh : Relay ι β where
  casts := []
  since := fun _ => none
  given := fun _ => []

def medium : System (Relay ι β) (Act ι β) where
  init r := r = fresh
  step := step

@[simp] theorem join_since : (r.join i).since i = some r.casts.length := Function.update_self ..

theorem join_since_of_ne (h : j ≠ i) : (r.join i).since j = r.since j := Function.update_of_ne h ..

@[simp] theorem give_given : (r.give i part).given i = r.given i ++ part := Function.update_self ..

theorem give_given_of_ne (h : j ≠ i) : (r.give i part).given j = r.given j := Function.update_of_ne h ..

@[simp] theorem give_due : (r.give i part).due j = r.due j := rfl

theorem due_of_since (h : r.since i = some k) :
    r.due i = ((r.casts.drop k).filter (·.1 ≠ i)).flatMap (·.2) := by
  simp [due, h, heard]

theorem due_of_none (h : r.since i = none) : r.due i = [] := by simp [due, h]

/-- Who has just joined has nothing to get. -/
theorem due_join : (r.join i).due i = [] := by
  rw [due_of_since join_since, join, List.drop_length]
  rfl

theorem due_join_of_ne (h : j ≠ i) : (r.join i).due j = r.due j := by
  rw [due, join_since_of_ne h]
  rfl

/-- A message is due to all others that listen. -/
theorem due_cast (h : r.since j = some k) (hk : k ≤ r.casts.length) :
    (r.cast i msg).due j = r.due j ++ if j ≠ i then msg else [] := by
  have h' : (r.cast i msg).since j = some k := h
  rw [due_of_since h, due_of_since h', cast, List.drop_append_of_le_length hk, List.filter_append, List.flatMap_append]
  by_cases hj : j = i
  · simp [hj]
  · simp [hj, Ne.symm hj]

theorem leads_join (h : r.since i = none) : medium.Leads r (r.join i) := .single (j := .join i) (if_pos h)

theorem leads_cast (r : Relay ι β) (i : ι) (msg : List β) : medium.Leads r (r.cast i msg) :=
  .single (j := .cast i msg) rfl

/-- Some more of what is due may be given. -/
theorem leads_give (h : r.given i ++ part <+: r.due i) : medium.Leads r (r.give i part) := by
  obtain ⟨rest, hrest⟩ := h
  refine .single (j := .give i part.length) ?_
  have hpart : ((r.due i).drop (r.given i).length).take part.length = part := by
    rw [← hrest, List.append_assoc, List.drop_left, List.take_left]
  simp only [medium, step, hpart]

/-! ## Runs -/

/-- What is given is a beginning of what is due. -/
structure Sound (r : Relay ι β) : Prop where
  since : ∀ i k, r.since i = some k → k ≤ r.casts.length
  given : ∀ i, r.given i <+: r.due i

theorem step_sound {a : Act ι β} (h : r.step a = some r') (hs : r.Sound) : r'.Sound := by
  obtain ⟨hsince, hgiven⟩ := hs
  cases a with
  | join i =>
    simp only [step, Option.ite_none_right_eq_some, Option.some.injEq] at h
    obtain ⟨hnone, rfl⟩ := h
    refine ⟨fun j k hj => ?_, fun j => ?_⟩
    · by_cases hji : j = i
      · subst hji
        rw [join_since, Option.some.injEq] at hj
        exact hj.ge
      · exact hsince j k (join_since_of_ne hji ▸ hj)
    · by_cases hji : j = i
      · subst hji
        rw [due_join, ← due_of_none hnone]
        exact hgiven j
      · rw [due_join_of_ne hji]
        exact hgiven j
  | cast i msg =>
    cases h
    refine ⟨fun j k hj => ?_, fun j => ?_⟩
    · rw [cast, List.length_append]
      exact Nat.le_add_right_of_le (hsince j k hj)
    · cases hj : r.since j with
      | none =>
        have hj' : (r.cast i msg).since j = none := hj
        rw [due_of_none hj', ← due_of_none hj]
        exact hgiven j
      | some k =>
        rw [due_cast hj (hsince j k hj)]
        exact (hgiven j).trans (List.prefix_append _ _)
  | give i n =>
    cases h
    refine ⟨hsince, fun j => ?_⟩
    by_cases hji : j = i
    · subst hji
      obtain ⟨rest, hrest⟩ := hgiven j
      rw [give_given, give_due, ← hrest, List.drop_left]
      exact (List.prefix_append_right_inj _).2 (List.take_prefix n rest)
    · rw [give_given_of_ne hji]
      exact hgiven j

theorem sound (h : medium.Reachable r) : r.Sound := by
  refine h.invariant Sound ?_ fun r a r' _ hs _ hst => step_sound hst hs
  rintro r rfl
  exact ⟨fun i k hk => by simp [fresh] at hk, fun i => List.nil_prefix⟩

/-! ## Agreement -/

/-- The message `n` is due to `i`: another one has said it since `i` joined. -/
def Gets (r : Relay ι β) (i : ι) (n : ℕ) (msg : List β) : Prop :=
  ∃ k, r.since i = some k ∧ k ≤ n ∧ ∃ j, j ≠ i ∧ r.casts[n]? = some (j, msg)

/-- Where the message `n` begins in what is due to `i`. -/
def offset (r : Relay ι β) (i : ι) (n : ℕ) : ℕ :=
  match r.since i with
  | none => 0
  | some k => (r.heard i k n).length

/-- What is given to `i` are the messages of the others in the order in which they were said, each of them in one piece. -/
structure Agreed (r : Relay ι β) : Prop where
  stream : ∀ i, r.given i <+: r.due i
  piece : ∀ i n msg, r.Gets i n msg → ((r.given i).drop (r.offset i n)).take msg.length <+: msg
  order : ∀ n m msg msg', n < m → ∀ i, r.Gets i n msg → r.Gets i m msg' → r.offset i n + msg.length ≤ r.offset i m

/-- What is heard up to a later moment. -/
theorem heard_split (hk : k ≤ n) (hn : n < m) (hj : j ≠ i) (hc : r.casts[n]? = some (j, msg)) :
    ∃ rest, r.heard i k m = r.heard i k n ++ (msg ++ rest) := by
  obtain ⟨hlt, hget⟩ := List.getElem?_eq_some_iff.1 hc
  obtain ⟨d, rfl⟩ := Nat.exists_eq_add_of_lt hn
  have htake : r.casts.take (n + d + 1) = r.casts.take n ++ (j, msg) :: (r.casts.drop (n + 1)).take d := by
    rw [Nat.add_assoc, List.take_add, List.drop_eq_getElem_cons hlt, hget, List.take_succ_cons]
  refine ⟨(((r.casts.drop (n + 1)).take d).filter (·.1 ≠ i)).flatMap (·.2), ?_⟩
  have hle : k ≤ (r.casts.take n).length := by
    rw [List.length_take]
    omega
  rw [heard, heard, htake, List.drop_append_of_le_length hle, List.filter_append, List.flatMap_append,
    List.filter_cons_of_pos (by simpa using hj), List.flatMap_cons]

/-- **Everybody agrees on the order of the messages.** -/
theorem agreed (h : medium.Reachable r) : r.Agreed := by
  refine ⟨(sound h).given, fun i n msg hg => ?_, fun n m msg msg' hnm i hg hg' => ?_⟩
  · obtain ⟨k, hk, hkn, j, hj, hc⟩ := hg
    obtain ⟨rest, hrest⟩ := heard_split hkn (List.getElem?_eq_some_iff.1 hc).1 hj hc
    have hgiven := (sound h).given i
    rw [due, hk] at hgiven
    simp only [hrest] at hgiven
    have hdrop : (r.given i).drop (r.offset i n) <+: msg ++ rest := by
      have hoffset : r.offset i n = (r.heard i k n).length := by rw [offset, hk]
      rw [hoffset]
      have hd := hgiven.drop (r.heard i k n).length
      rwa [List.drop_left] at hd
    have htake := hdrop.take msg.length
    rwa [List.take_left] at htake
  · obtain ⟨k, hk, hkn, j, hj, hc⟩ := hg
    obtain ⟨rest, hrest⟩ := heard_split hkn hnm hj hc
    simp only [offset, hk, hrest, List.length_append]
    omega

end Relay

end TcpChat.Lib
