import Mathlib.Data.List.Basic
import Mathlib.Data.List.Range
import Mathlib.Data.List.GetD

/-!
# Numbered messages that go out in pieces

A log has one entry for each piece of a message that has gone out: the number of the message and the piece.

* `pieces` — what has gone out of one message;
* `Untorn` — the messages go out in order, and each of them is whole before the next one starts;
* `Untorn.stream` — then the stream is made of whole messages, and of the beginning of one more.
-/

namespace TcpChat.Lib

variable {α : Type*}

/-- What has gone out of the message `i`. -/
def pieces (log : List (ℕ × List α)) (i : ℕ) : List α := (log.filter fun e => e.1 = i).flatMap (·.2)

theorem pieces_append (log log' : List (ℕ × List α)) (i : ℕ) :
    pieces (log ++ log') i = pieces log i ++ pieces log' i := by
  rw [pieces, List.filter_append, List.flatMap_append, pieces, pieces]

theorem pieces_concat_self (log : List (ℕ × List α)) (i : ℕ) (b : List α) :
    pieces (log ++ [(i, b)]) i = pieces log i ++ b := by
  rw [pieces_append]
  simp [pieces]

theorem pieces_concat_other (log : List (ℕ × List α)) {i j : ℕ} (b : List α) (h : j ≠ i) :
    pieces (log ++ [(i, b)]) j = pieces log j := by
  rw [pieces_append]
  simp [pieces, Ne.symm h]

theorem pieces_eq_nil {log : List (ℕ × List α)} {i : ℕ} (h : ∀ e ∈ log, e.1 ≠ i) : pieces log i = [] := by
  have hnone : log.filter (fun e => e.1 = i) = [] := List.filter_eq_nil_iff.2 fun e he => by simpa using h e he
  rw [pieces, hnone, List.flatMap_nil]

theorem mem_of_pieces {log : List (ℕ × List α)} {i : ℕ} (h : pieces log i ≠ []) : ∃ e ∈ log, e.1 = i := by
  by_contra hno
  push Not at hno
  exact h (pieces_eq_nil hno)

/-- A log in the order of the numbers ends with the entries of the last message. -/
theorem filter_lt_append_filter_eq {n : ℕ} {log : List (ℕ × List α)} (horder : log.Pairwise fun e e' => e.1 ≤ e'.1)
    (hlt : ∀ e ∈ log, e.1 < n + 1) : log = log.filter (fun e => e.1 < n) ++ log.filter (fun e => e.1 = n) := by
  induction log with
  | nil => rfl
  | cons e log ih =>
    obtain ⟨hhead, horder⟩ := List.pairwise_cons.1 horder
    have ih := ih horder fun e' he' => hlt e' (List.mem_cons_of_mem _ he')
    by_cases he : e.1 < n
    · rw [List.filter_cons_of_pos (by simpa using he), List.filter_cons_of_neg (by simpa using Nat.ne_of_lt he),
        List.cons_append, ← ih]
    · have hall : ∀ e' ∈ e :: log, e'.1 = n := by
        intro e' he'
        have hle : e.1 ≤ e'.1 := by
          rcases List.mem_cons.1 he' with rfl | he'
          · exact Nat.le_refl _
          · exact hhead e' he'
        have := hlt e' he'
        omega
      rw [List.filter_eq_nil_iff.2, List.filter_eq_self.2, List.nil_append]
      · intro e' he'
        simpa using hall e' he'
      · intro e' he'
        simpa using Nat.le_of_eq (hall e' he').symm

/-- A log in the order of the numbers is put together from what has gone out of each message. -/
theorem flatMap_pieces {n : ℕ} {log : List (ℕ × List α)} (horder : log.Pairwise fun e e' => e.1 ≤ e'.1)
    (hlt : ∀ e ∈ log, e.1 < n) : log.flatMap (·.2) = (List.range n).flatMap (pieces log) := by
  induction n generalizing log with
  | zero =>
    obtain rfl : log = [] := List.eq_nil_iff_forall_not_mem.2 fun e he => absurd (hlt e he) (Nat.not_lt_zero _)
    rfl
  | succ n ih =>
    have hsplit := filter_lt_append_filter_eq horder hlt
    have hlast : pieces log n = (log.filter fun e => e.1 = n).flatMap (·.2) := rfl
    have hfirst := ih (horder.filter fun e => e.1 < n) fun e he => by
      simpa using (List.mem_filter.1 he).2
    have hsame : ∀ i ∈ List.range n, pieces (log.filter fun e => e.1 < n) i = pieces log i := by
      intro i hi
      have hin : i < n := List.mem_range.1 hi
      rw [pieces, pieces, List.filter_filter]
      congr 1
      refine List.filter_congr fun e _ => ?_
      by_cases he : e.1 = i
      · simp [he, hin]
      · simp [he]
    rw [List.range_succ, List.flatMap_append, List.flatMap_singleton, hlast]
    rw [← List.flatMap_congr hsame, ← hfirst, ← List.flatMap_append, ← hsplit]

/-- The messages `sent` go out in order, and each of them is whole before the next one starts. -/
structure Untorn (sent : List (List α)) (log : List (ℕ × List α)) : Prop where
  order : log.Pairwise fun e e' => e.1 ≤ e'.1
  known : ∀ e ∈ log, e.1 < sent.length
  part : ∀ i, pieces log i <+: sent.getD i []
  whole : ∀ i j, i < j → pieces log i ≠ [] → pieces log j ≠ [] → pieces log i = sent.getD i []

/-- More messages that have not gone out. -/
theorem Untorn.append {sent : List (List α)} {log : List (ℕ × List α)} (h : Untorn sent log) (more : List (List α)) :
    Untorn (sent ++ more) log := by
  have hsame : ∀ i, pieces log i ≠ [] → (sent ++ more).getD i [] = sent.getD i [] := by
    intro i hi
    obtain ⟨e, he, rfl⟩ := mem_of_pieces hi
    exact List.getD_append _ _ _ _ (h.known e he)
  refine ⟨h.order, fun e he => ?_, fun i => ?_, fun i j hij hi hj => ?_⟩
  · rw [List.length_append]
    exact Nat.lt_add_right _ (h.known e he)
  · by_cases hi : pieces log i = []
    · rw [hi]
      exact List.nil_prefix
    · rw [hsame i hi]
      exact h.part i
  · rw [hsame i hi]
    exact h.whole i j hij hi hj

/-- **The stream** is made of whole messages in their order, and of the beginning of one more. -/
theorem Untorn.stream {sent : List (List α)} {log : List (ℕ × List α)} (h : Untorn sent log) :
    ∃ (whole : List ℕ) (i : ℕ) (part : List α), (whole ++ [i]).Pairwise (· < ·) ∧ part <+: sent.getD i [] ∧
      log.flatMap (·.2) = whole.flatMap (fun j => sent.getD j []) ++ part := by
  have hgo : ∀ n, ∃ (whole : List ℕ) (i : ℕ) (part : List α), (whole ++ [i]).Pairwise (· < ·) ∧ i ≤ n ∧
      (part ≠ [] → i < n ∧ part = pieces log i) ∧
      (List.range n).flatMap (pieces log) = whole.flatMap (fun j => sent.getD j []) ++ part := by
    intro n
    induction n with
    | zero => exact ⟨[], 0, [], by simp, Nat.le_refl _, by simp, rfl⟩
    | succ n ih =>
      obtain ⟨whole, i, part, hwhole, hin, hpart, heq⟩ := ih
      rw [List.range_succ, List.flatMap_append, List.flatMap_singleton, heq]
      by_cases hn : pieces log n = []
      · refine ⟨whole, i, part, hwhole, Nat.le_succ_of_le hin, fun hne => ?_, by rw [hn, List.append_nil]⟩
        exact ⟨Nat.lt_succ_of_lt (hpart hne).1, (hpart hne).2⟩
      by_cases hne : part = []
      · refine ⟨whole, n, pieces log n, ?_, Nat.le_succ _, fun _ => ⟨Nat.lt_succ_self _, rfl⟩, by
          rw [hne, List.append_nil]⟩
        obtain ⟨hinc, -, hlt⟩ := List.pairwise_append.1 hwhole
        refine List.pairwise_append.2 ⟨hinc, List.pairwise_singleton _ _, fun j hj k hk => ?_⟩
        rw [List.mem_singleton.1 hk]
        exact Nat.lt_of_lt_of_le (hlt j hj i (List.mem_singleton_self i)) hin
      · obtain ⟨hlt, rfl⟩ := hpart hne
        refine ⟨whole ++ [i], n, pieces log n, ?_, Nat.le_succ _, fun _ => ⟨Nat.lt_succ_self _, rfl⟩, ?_⟩
        · refine List.pairwise_append.2 ⟨hwhole, List.pairwise_singleton _ _, fun j hj k hk => ?_⟩
          rw [List.mem_singleton.1 hk]
          rcases List.mem_append.1 hj with hj | hj
          · obtain ⟨-, -, hall⟩ := List.pairwise_append.1 hwhole
            exact Nat.lt_trans (hall j hj i (List.mem_singleton_self i)) hlt
          · rw [List.mem_singleton.1 hj]
            exact hlt
        · rw [List.flatMap_append, List.flatMap_singleton, ← h.whole i n hlt hne hn]
  obtain ⟨whole, i, part, hwhole, -, hpart, heq⟩ := hgo sent.length
  refine ⟨whole, i, part, hwhole, ?_, (flatMap_pieces h.order h.known).trans heq⟩
  by_cases hne : part = []
  · rw [hne]
    exact List.nil_prefix
  · rw [(hpart hne).2]
    exact h.part i

end TcpChat.Lib
