import Mathlib.Data.List.GetD
import Mathlib.Data.List.Range

/-!
# A bounded queue with a policy for overflows

A queue of bounded length for elements that arrive and are taken.  An element stands in it as its number, counted in
the order of arrival, and the queue remembers what every arrival has found.

* `Overflow`, `BoundedQueue` — the policies and the queue, with `arrive` and `take`;
* `Kept` — the invariant: the order, the bound, and for each missing element why it is missing;
* `Kept.arrive`, `Kept.take` — both operations keep it.
-/

namespace TcpChat.Lib

/-- What happens to an element that arrives at a full queue: it is dropped, the oldest one is dropped for it, or it is
dropped and the last one to arrive. -/
inductive Overflow where
  | dropNewest | dropOldest | stop
  deriving DecidableEq

/-- A queue of the numbers of its elements.  `arrived` are all elements, each with the queue that it found. -/
structure BoundedQueue (α : Type*) where
  arrived : List (α × List ℕ)
  taken : List ℕ
  queue : List ℕ

namespace BoundedQueue

variable {α : Type*} {cap : ℕ} {policy : Overflow} {b : BoundedQueue α} {a : α} {i : ℕ}

def empty : BoundedQueue α := ⟨[], [], []⟩

/-- The elements that were taken and those that are in the queue. -/
def kept (b : BoundedQueue α) : List ℕ := b.taken ++ b.queue

/-- The elements with the numbers. -/
def values [Inhabited α] (b : BoundedQueue α) (is : List ℕ) : List α :=
  is.map fun i => (b.arrived.map Prod.fst).getD i default

def arrive (cap : ℕ) (policy : Overflow) (b : BoundedQueue α) (a : α) : BoundedQueue α where
  arrived := b.arrived ++ [(a, b.queue)]
  taken := b.taken
  queue :=
    if b.queue.length < cap then b.queue ++ [b.arrived.length]
    else
      match policy with
      | .dropNewest | .stop => b.queue
      | .dropOldest => b.queue.drop 1 ++ [b.arrived.length]

def take (b : BoundedQueue α) : BoundedQueue α :=
  { b with taken := b.taken ++ b.queue.take 1, queue := b.queue.drop 1 }

theorem values_append [Inhabited α] (b : BoundedQueue α) (is js : List ℕ) :
    b.values (is ++ js) = b.values is ++ b.values js :=
  List.map_append

theorem values_take [Inhabited α] (b : BoundedQueue α) (is : List ℕ) : b.take.values is = b.values is := rfl

theorem arrived_arrive : (b.arrive cap policy a).arrived = b.arrived ++ [(a, b.queue)] := rfl

/-- A new element does not change what the earlier numbers stand for. -/
theorem values_arrive [Inhabited α] {is : List ℕ} (his : ∀ i ∈ is, i < b.arrived.length) :
    (b.arrive cap policy a).values is = b.values is := by
  refine List.map_congr_left fun i hi => ?_
  rw [arrived_arrive, List.map_append, List.getD_append]
  rw [List.length_map]
  exact his i hi

/-- Elements with increasing numbers are elements in the order of arrival. -/
theorem values_sublist [Inhabited α] {is : List ℕ} (hinc : is.Pairwise (· < ·))
    (hbound : ∀ i ∈ is, i < b.arrived.length) : (b.values is).Sublist (b.arrived.map Prod.fst) := by
  have hlen : ∀ i ∈ is, i < (b.arrived.map Prod.fst).length := by simpa using hbound
  have hpmap : (is.pmap Fin.mk hlen).Pairwise (· < ·) := (List.pairwise_pmap hlen).2 (hinc.imp fun hij _ _ => hij)
  have hsub := List.map_getElem_sublist hpmap
  rw [List.map_pmap] at hsub
  have hvalues : b.values is = is.pmap (fun i hi => (b.arrived.map Prod.fst)[(Fin.mk i hi)]) hlen := by
    rw [values, ← List.pmap_eq_map (p := fun i => i < (b.arrived.map Prod.fst).length) (H := hlen)]
    exact List.pmap_congr_left _ fun i _ hi _ => List.getD_eq_getElem _ _ hi
  exact hvalues ▸ hsub

theorem values_arrive_self [Inhabited α] : (b.arrive cap policy a).values [b.arrived.length] = [a] := by
  simp [values, arrive]

theorem values_queue_arrive [Inhabited α] (hbound : ∀ i ∈ b.queue, i < b.arrived.length) :
    (b.arrive cap policy a).values (b.arrive cap policy a).queue =
      if b.queue.length < cap then b.values b.queue ++ [a]
      else
        match policy with
        | .dropNewest | .stop => b.values b.queue
        | .dropOldest => (b.values b.queue).drop 1 ++ [a] := by
  have hdrop : (b.arrive cap policy a).values (b.queue.drop 1) = (b.values b.queue).drop 1 := by
    rw [values_arrive fun i hi => hbound i (List.mem_of_mem_drop hi), values, values, List.map_drop]
  by_cases hroom : b.queue.length < cap
  · have hqueue : (b.arrive cap policy a).queue = b.queue ++ [b.arrived.length] := if_pos hroom
    rw [hqueue, if_pos hroom, values_append, values_arrive hbound, values_arrive_self]
  · rw [if_neg hroom]
    cases policy with
    | dropOldest =>
      have hqueue : (b.arrive cap .dropOldest a).queue = b.queue.drop 1 ++ [b.arrived.length] := if_neg hroom
      rw [hqueue, values_append, hdrop, values_arrive_self]
    | dropNewest =>
      have hqueue : (b.arrive cap .dropNewest a).queue = b.queue := if_neg hroom
      rw [hqueue, values_arrive hbound]
    | stop =>
      have hqueue : (b.arrive cap .stop a).queue = b.queue := if_neg hroom
      rw [hqueue, values_arrive hbound]

theorem kept_arrive (hroom : b.queue.length < cap) :
    (b.arrive cap policy a).kept = b.kept ++ [b.arrived.length] := by
  have hqueue : (b.arrive cap policy a).queue = b.queue ++ [b.arrived.length] := if_pos hroom
  rw [kept, hqueue, ← List.append_assoc]
  rfl

/-- Why the element `i` is missing: it found a full queue, or it was the oldest one when another element found a full
queue. -/
def Lost (cap : ℕ) (policy : Overflow) (b : BoundedQueue α) (i : ℕ) : Prop :=
  match policy with
  | .dropNewest | .stop => ∃ a queue, b.arrived[i]? = some (a, queue) ∧ queue.length = cap
  | .dropOldest => ∃ j a queue, i < j ∧ b.arrived[j]? = some (a, queue) ∧ queue.length = cap ∧ queue.head? = some i

/-- The invariant. -/
structure Kept (cap : ℕ) (policy : Overflow) (b : BoundedQueue α) : Prop where
  increasing : b.kept.Pairwise (· < ·)
  bound : ∀ i ∈ b.kept, i < b.arrived.length
  length : b.queue.length ≤ cap
  lost : ∀ i < b.arrived.length, i ∉ b.kept → Lost cap policy b i
  newest : policy = .dropOldest → ∀ i, b.arrived.length = i + 1 → i ∈ b.kept
  last : policy = .stop → ∀ i < b.arrived.length, i ∉ b.kept → i + 1 = b.arrived.length

theorem kept_empty (cap : ℕ) (policy : Overflow) : Kept cap policy (empty : BoundedQueue α) :=
  ⟨List.Pairwise.nil, by simp [empty, kept], Nat.zero_le _, by simp [empty], by simp [empty], by simp [empty]⟩

theorem kept_take (b : BoundedQueue α) : b.take.kept = b.kept := by
  rw [kept, take, List.append_assoc, List.take_append_drop, kept]

/-- Taking an element loses nothing. -/
theorem Kept.take (h : Kept cap policy b) : Kept cap policy b.take := by
  obtain ⟨hinc, hbound, hlength, hlost, hnewest, hlast⟩ := h
  have hkept := b.kept_take
  refine ⟨hkept ▸ hinc, hkept ▸ hbound, ?_, fun i hi hno => ?_, ?_, ?_⟩
  · rw [BoundedQueue.take, List.length_drop]
    omega
  · rw [hkept] at hno
    exact hlost i hi hno
  · rw [hkept]
    exact hnewest
  · rw [hkept]
    exact hlast

/-- A loss stays a loss. -/
theorem Lost.mono {b' : BoundedQueue α} {e : α × List ℕ} (h : Lost cap policy b i)
    (harrived : b'.arrived = b.arrived ++ [e]) : Lost cap policy b' i := by
  have hget : ∀ {j : ℕ} {e' : α × List ℕ}, b.arrived[j]? = some e' → b'.arrived[j]? = some e' := by
    intro j e' he
    rw [harrived, List.getElem?_append_left (List.getElem?_eq_some_iff.1 he).1, he]
  cases policy with
  | dropNewest | stop =>
    obtain ⟨a, queue, ha, hfull⟩ := h
    exact ⟨a, queue, hget ha, hfull⟩
  | dropOldest =>
    obtain ⟨j, a, queue, hij, ha, hfull, hhead⟩ := h
    exact ⟨j, a, queue, hij, hget ha, hfull, hhead⟩

/-- The new element is in the queue. -/
theorem Kept.push {b' : BoundedQueue α} (h : Kept cap policy b) (harrived : b'.arrived = b.arrived ++ [(a, b.queue)])
    (hkept : b'.kept.Sublist (b.kept ++ [b.arrived.length])) (hnew : b.arrived.length ∈ b'.kept)
    (hlength : b'.queue.length ≤ cap)
    (hlost : ∀ i ∈ b.kept, i ∉ b'.kept → Lost cap policy b' i)
    (hlast : policy = .stop → ∀ i < b.arrived.length, i ∈ b'.kept) : Kept cap policy b' := by
  have hlen : b'.arrived.length = b.arrived.length + 1 := by rw [harrived, List.length_append, List.length_singleton]
  refine ⟨?_, fun i hi => ?_, hlength, fun i hi hno => ?_, fun _ i hi => ?_, fun hstop i hi hno => ?_⟩
  · refine List.Pairwise.sublist hkept (List.pairwise_append.2 ⟨h.increasing, List.pairwise_singleton _ _, ?_⟩)
    intro i hi j hj
    rw [List.mem_singleton.1 hj]
    exact h.bound i hi
  · rw [hlen]
    rcases List.mem_append.1 (hkept.subset hi) with hi | hi
    · exact Nat.lt_succ_of_lt (h.bound i hi)
    · rw [List.mem_singleton.1 hi]
      exact Nat.lt_succ_self _
  · by_cases hin : i ∈ b.kept
    · exact hlost i hin hno
    · have hne : i ≠ b.arrived.length := fun he => hno (he ▸ hnew)
      exact (h.lost i (by omega) hin).mono harrived
  · have : i = b.arrived.length := by omega
    exact this ▸ hnew
  · by_cases hi' : i < b.arrived.length
    · exact absurd (hlast hstop i hi') hno
    · omega

/-- The new element is dropped, because the queue is full. -/
theorem Kept.drop {b' : BoundedQueue α} (h : Kept cap policy b) (hpolicy : policy ≠ .dropOldest)
    (harrived : b'.arrived = b.arrived ++ [(a, b.queue)]) (hkept : b'.kept = b.kept) (hqueue : b'.queue = b.queue)
    (hfull : b.queue.length = cap) (hall : policy = .stop → ∀ i < b.arrived.length, i ∈ b.kept) :
    Kept cap policy b' := by
  have hlen : b'.arrived.length = b.arrived.length + 1 := by rw [harrived, List.length_append, List.length_singleton]
  refine ⟨hkept ▸ h.increasing, fun i hi => ?_, hqueue ▸ h.length, fun i hi hno => ?_, fun he => absurd he hpolicy,
    fun hstop i hi hno => ?_⟩
  · rw [hlen]
    exact Nat.lt_succ_of_lt (h.bound i (hkept ▸ hi))
  · rw [hkept] at hno
    by_cases hi' : i < b.arrived.length
    · exact (h.lost i hi' hno).mono harrived
    · have hself : b'.arrived[i]? = some (a, b.queue) := by
        obtain rfl : i = b.arrived.length := by omega
        simp [harrived]
      cases policy with
      | dropOldest => exact absurd rfl hpolicy
      | dropNewest | stop => exact ⟨a, b.queue, hself, hfull⟩
  · rw [hkept] at hno
    by_cases hi' : i < b.arrived.length
    · exact absurd (hall hstop i hi') hno
    · omega

/-- The new element is in the queue, and the oldest one is not. -/
theorem Kept.replace {b' : BoundedQueue α} (h : Kept cap .dropOldest b)
    (harrived : b'.arrived = b.arrived ++ [(a, b.queue)]) (htaken : b'.taken = b.taken)
    (hqueue : b'.queue = b.queue.drop 1 ++ [b.arrived.length]) (hfull : b.queue.length = cap) (hcap : 0 < cap) :
    Kept cap .dropOldest b' := by
  obtain ⟨i₀, rest, hq⟩ : ∃ i₀ rest, b.queue = i₀ :: rest := by
    cases hq : b.queue with
    | nil =>
      rw [hq, List.length_nil] at hfull
      omega
    | cons i₀ rest => exact ⟨i₀, rest, rfl⟩
  have hold : b.kept = b.taken ++ i₀ :: rest := by rw [kept, hq]
  have hkept : b'.kept = b.taken ++ rest ++ [b.arrived.length] := by
    rw [kept, htaken, hqueue, hq, List.append_assoc]
    rfl
  refine h.push harrived ?_ (by simp [hkept]) ?_ (fun i hi hno => ?_) (by simp)
  · rw [hkept, hold]
    exact ((List.Sublist.refl _).append (List.sublist_cons_self _ _)).append (List.Sublist.refl _)
  · rw [hqueue, List.length_append, List.length_drop, List.length_singleton]
    omega
  · have hi₀ : i = i₀ := by
      rw [hkept] at hno
      rw [hold] at hi
      simp only [List.mem_append, List.mem_cons, not_or] at hi hno
      tauto
    exact ⟨b.arrived.length, a, b.queue, h.bound i hi, by simp [harrived], hfull, by rw [hq, hi₀]; rfl⟩

/-- **An arrival**; with the policy `stop` nothing has been lost before. -/
theorem Kept.arrive (h : Kept cap policy b) (hcap : 0 < cap) (a : α)
    (hall : policy = .stop → ∀ i < b.arrived.length, i ∈ b.kept) : Kept cap policy (b.arrive cap policy a) := by
  by_cases hroom : b.queue.length < cap
  · have hqueue : (b.arrive cap policy a).queue = b.queue ++ [b.arrived.length] := if_pos hroom
    have hkept : (b.arrive cap policy a).kept = b.kept ++ [b.arrived.length] := kept_arrive hroom
    refine h.push rfl (hkept ▸ List.Sublist.refl _) (by simp [hkept]) ?_ (fun i hi hno => ?_) fun hstop i hi => ?_
    · rw [hqueue, List.length_append, List.length_singleton]
      omega
    · exact absurd (hkept ▸ List.mem_append_left _ hi) hno
    · exact hkept ▸ List.mem_append_left _ (hall hstop i hi)
  · have hfull : b.queue.length = cap := by
      have := h.length
      omega
    cases policy with
    | dropOldest => exact h.replace rfl rfl (if_neg hroom) hfull hcap
    | dropNewest =>
      have hqueue : (b.arrive cap .dropNewest a).queue = b.queue := if_neg hroom
      exact h.drop (by decide) rfl (by rw [kept, hqueue]; rfl) hqueue hfull hall
    | stop =>
      have hqueue : (b.arrive cap .stop a).queue = b.queue := if_neg hroom
      exact h.drop (by decide) rfl (by rw [kept, hqueue]; rfl) hqueue hfull hall

end BoundedQueue

end TcpChat.Lib
