import Mathlib.Logic.Function.Basic
import Mathlib.Data.Set.Insert

/-!
# Handles that are opened and closed

The kernel hands out handles, and a program closes them.  A table says for every handle how often it has been closed
since it was handed out last.

* `Closes.Once` — nothing has been closed twice;
* `Closes.Balanced` — what is open is exactly what the program holds, and nothing has been closed twice; the rules for
  handing out and closing follow what the program holds;
* `Closes.firstServing` — a loop that takes handles until one of them serves, and closes the others.
-/

namespace TcpChat.Lib

/-- How often each handle has been closed since it was handed out; `none` if it never was. -/
abbrev Closes (κ : Type) := κ → Option ℕ

namespace Closes

variable {κ : Type} {t : Closes κ} {k : κ} {held held' : Set κ}

/-- The handle has been handed out and not been closed. -/
def IsOpen (t : Closes κ) (k : κ) : Prop := t k = some 0

instance (t : Closes κ) : DecidablePred t.IsOpen := fun _ => inferInstanceAs (Decidable (_ = _))

/-- No handle has been closed twice. -/
def Once (t : Closes κ) : Prop := ∀ k n, t k = some n → n ≤ 1

/-- The handles in `held` are the open ones, and no handle has been closed twice. -/
structure Balanced (t : Closes κ) (held : Set κ) : Prop where
  isOpen : ∀ k, k ∈ held ↔ t.IsOpen k
  once : t.Once

/-- What has been handed out and is not held any more has been closed exactly once. -/
theorem Balanced.closed {n : ℕ} (h : t.Balanced held) (hk : t k = some n) (hn : k ∉ held) : n = 1 := by
  have hle := h.once k n hk
  have hne : n ≠ 0 := by
    rintro rfl
    exact hn ((h.isOpen k).2 hk)
  omega

/-- Nothing is held at the end: every handle has been closed exactly once. -/
theorem balanced_empty : t.Balanced ∅ ↔ ∀ k n, t k = some n → n = 1 := by
  refine ⟨fun h k n hk => h.closed hk (Set.notMem_empty k), fun h => ⟨fun k => ?_, fun k n hk => ?_⟩⟩
  · refine ⟨fun hk => absurd hk (Set.notMem_empty k), fun hk => ?_⟩
    have := h k 0 hk
    omega
  · have := h k n hk
    omega

theorem balanced_none : Balanced (fun _ => none : Closes κ) ∅ := balanced_empty.2 fun _ _ hk => by cases hk

theorem Balanced.congr (h : t.Balanced held) (hh : ∀ k, k ∈ held' ↔ k ∈ held) : t.Balanced held' :=
  ⟨fun k => (hh k).trans (h.isOpen k), h.once⟩

variable [DecidableEq κ]

/-- The kernel hands out `k`. -/
def handOut (t : Closes κ) (k : κ) : Closes κ := Function.update t k (some 0)

/-- One call of `close` on `k`. -/
def close (t : Closes κ) (k : κ) : Closes κ := Function.update t k ((t k).map (· + 1))

theorem handOut_self : t.handOut k k = some 0 := Function.update_self ..

theorem handOut_of_ne {j : κ} (h : j ≠ k) : t.handOut k j = t j := Function.update_of_ne h _ _

theorem close_self : t.close k k = (t k).map (· + 1) := Function.update_self ..

theorem close_of_ne {j : κ} (h : j ≠ k) : t.close k j = t j := Function.update_of_ne h _ _

theorem Once.handOut (h : t.Once) (k : κ) : (t.handOut k).Once := by
  intro j n hj
  by_cases hjk : j = k
  · rw [hjk, handOut_self, Option.some.injEq] at hj
    omega
  · rw [handOut_of_ne hjk] at hj
    exact h j n hj

theorem Once.close (h : t.Once) (hk : t.IsOpen k) : (t.close k).Once := by
  intro j n hj
  by_cases hjk : j = k
  · rw [hjk, close_self, hk, Option.map_some, Option.some.injEq] at hj
    omega
  · rw [close_of_ne hjk] at hj
    exact h j n hj

/-- A handle is handed out. -/
theorem Balanced.handOut (h : t.Balanced held) (k : κ) : (t.handOut k).Balanced (insert k held) := by
  refine ⟨fun j => ?_, h.once.handOut k⟩
  by_cases hjk : j = k
  · subst hjk
    exact iff_of_true (Set.mem_insert j held) handOut_self
  · rw [Set.mem_insert_iff, IsOpen, handOut_of_ne hjk, ← IsOpen, ← h.isOpen j]
    exact or_iff_right hjk

/-- A handle that is held is closed. -/
theorem Balanced.close (h : t.Balanced held) (hk : k ∈ held) : (t.close k).Balanced (held \ {k}) := by
  refine ⟨fun j => ?_, h.once.close ((h.isOpen k).1 hk)⟩
  rw [Set.mem_sdiff, Set.mem_singleton_iff]
  by_cases hjk : j = k
  · subst hjk
    refine iff_of_false (fun hj => hj.2 rfl) fun hj => ?_
    rw [IsOpen, close_self, (h.isOpen j).1 hk] at hj
    cases hj
  · rw [IsOpen, close_of_ne hjk, ← IsOpen, ← h.isOpen j]
    exact and_iff_left hjk

/-- A loop over different handles that are held. -/
theorem Balanced.foldl_close {l : List κ} (h : t.Balanced held) (hnd : l.Nodup) (hl : ∀ k ∈ l, k ∈ held) :
    (l.foldl Closes.close t).Balanced {k | k ∈ held ∧ k ∉ l} := by
  induction l generalizing t held with
  | nil => exact h.congr fun k => and_iff_left List.not_mem_nil
  | cons a l ih =>
    obtain ⟨ha, hnd⟩ := List.nodup_cons.1 hnd
    refine (ih (h.close (hl a List.mem_cons_self)) hnd fun k hk => ⟨hl k (List.mem_cons_of_mem a hk), ?_⟩).congr
      fun k => ?_
    · rintro rfl
      exact ha hk
    · simp only [Set.mem_ofPred_eq, Set.mem_sdiff, Set.mem_singleton_iff, List.mem_cons, not_or, and_assoc]

/-! ## The first handle that serves -/

/-- An attempt to get a handle: the handle that is handed out, if there is one, and whether it serves. -/
structure Attempt (κ : Type) where
  handle : Option κ
  serves : Bool

/-- There is a handle, and it serves. -/
def Attempt.Succeeds (a : Attempt κ) : Prop := a.handle.isSome ∧ a.serves = true

instance : DecidablePred (Attempt.Succeeds (κ := κ)) := fun _ => inferInstanceAs (Decidable (_ ∧ _))

/-- Makes the attempts one after the other, closes the handles that do not serve and keeps the first one that does;
`none` if a handle is handed out that is open. -/
def firstServing (t : Closes κ) : List (Attempt κ) → Option (Option κ × Closes κ)
  | [] => some (none, t)
  | ⟨none, _⟩ :: as => firstServing t as
  | ⟨some k, serves⟩ :: as =>
    if t.IsOpen k then none
    else if serves then some (some k, t.handOut k)
    else firstServing ((t.handOut k).close k) as

/-- A handle that is handed out and closed again leaves what is held as it was. -/
theorem Balanced.handOut_close (h : t.Balanced held) (hk : ¬ t.IsOpen k) : ((t.handOut k).close k).Balanced held := by
  have hn : k ∉ held := fun hm => hk ((h.isOpen k).1 hm)
  refine ((h.handOut k).close (Set.mem_insert k held)).congr fun j => ?_
  rw [Set.mem_sdiff, Set.mem_singleton_iff, Set.mem_insert_iff]
  constructor
  · intro hj
    refine ⟨.inr hj, ?_⟩
    rintro rfl
    exact hn hj
  · rintro ⟨hj, hne⟩
    exact hj.resolve_left hne

/-- **The loop keeps the first handle that serves, which nobody held, and nothing else.** -/
theorem firstServing_spec {as : List (Attempt κ)} {r : Option κ} {t' : Closes κ} (h : t.Balanced held)
    (hr : firstServing t as = some (r, t')) :
    r = (as.find? fun a => a.Succeeds).bind (·.handle) ∧ (∀ k ∈ r, k ∉ held) ∧
      t'.Balanced {k | k ∈ held ∨ k ∈ r} := by
  induction as generalizing t with
  | nil =>
    cases hr
    exact ⟨rfl, by simp, h.congr fun k => by simp⟩
  | cons a as ih =>
    obtain ⟨_ | k, serves⟩ := a
    · exact ih h hr
    · simp only [firstServing, Option.ite_none_left_eq_some] at hr
      obtain ⟨hk, hr⟩ := hr
      have hn : k ∉ held := fun hm => hk ((h.isOpen k).1 hm)
      cases serves with
      | true =>
        cases hr
        refine ⟨rfl, fun j hj => Option.some.inj hj ▸ hn, (h.handOut k).congr fun j => ?_⟩
        simp [or_comm, eq_comm]
      | false => exact ih (h.handOut_close hk) hr

end Closes

end TcpChat.Lib
