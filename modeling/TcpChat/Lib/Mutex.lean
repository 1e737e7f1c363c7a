import Mathlib.Logic.Basic

/-!
# Mutexes

A mutex is an `Option` of the thread that holds it.  The positions of the threads say who is between a `lock` and
the matching `unlock`.

* `LockStep` — what one step of a thread may do to a mutex;
* `Owned` — the holder of the mutex is the thread inside the critical section;
* `Owned.step` — such a step keeps it;
* `Owned.guarded` — the rule for what the mutex guards: it is kept by the thread inside the critical section, and left
  alone by the others.
-/

namespace TcpChat.Lib

variable {τ : Type*}

/-- A step of the thread `t` that leaves a mutex alone, takes it when it is free, or releases it.  `held` and
`held'` say whether `t` is inside the critical section before and after the step. -/
def LockStep (t : τ) (own own' : Option τ) (held held' : Prop) : Prop :=
  (own' = own ∧ (held' ↔ held)) ∨ (own = none ∧ own' = some t ∧ held') ∨ (held ∧ own' = none ∧ ¬ held')

/-- The holder of the mutex is the thread inside the critical section. -/
def Owned (own : Option τ) (holds : τ → Prop) : Prop := ∀ t, own = some t ↔ holds t

namespace Owned

variable {own own' : Option τ} {holds holds' : τ → Prop} {t u : τ}

theorem of_none (h : ∀ t, ¬ holds t) : Owned none holds := fun t => by simp [h t]

/-- **The mutex rule.** -/
theorem step (h : Owned own holds) (hs : LockStep t own own' (holds t) (holds' t))
    (hothers : ∀ u, u ≠ t → (holds' u ↔ holds u)) : Owned own' holds' := by
  intro u
  by_cases hu : u = t
  · subst hu
    rcases hs with ⟨rfl, hk⟩ | ⟨-, rfl, hk⟩ | ⟨-, rfl, hk⟩
    · rw [hk]
      exact h u
    · simp [hk]
    · simp [hk]
  · rw [hothers u hu, ← h u]
    rcases hs with ⟨rfl, -⟩ | ⟨rfl, rfl, -⟩ | ⟨ht, rfl, -⟩
    · rfl
    · simp [Ne.symm hu]
    · simp [(h t).2 ht, Ne.symm hu]

theorem excl (h : Owned own holds) (ht : holds t) (hu : holds u) : t = u := by
  have := (h t).2 ht
  rw [(h u).2 hu] at this
  exact (Option.some.inj this).symm

theorem not_holds (h : Owned own holds) (hn : own = none) (t : τ) : ¬ holds t := fun ht => by
  simp [(h t).2 ht] at hn

/-- **The rule for what a mutex guards.**  `Acc u` is what holds when `u` is the only thread that may be inside the
critical section; it says the same about all threads outside. -/
theorem guarded {Acc Acc' : τ → Prop} (h : Owned own holds) (h' : Owned own' holds')
    (hs : LockStep t own own' (holds t) (holds' t)) (self : Acc t → Acc' t)
    (outside : ∀ u v, ¬ holds' u → ¬ holds' v → Acc' u → Acc' v) (others : ∀ u, u ≠ t → ¬ holds t → Acc u → Acc' u)
    (ih : ∀ u, own = none ∨ own = some u → Acc u) : ∀ u, own' = none ∨ own' = some u → Acc' u := by
  -- The thread that makes the step: the mutex was free or its own before.
  have ht : own' = none ∨ own' = some t → Acc' t := by
    intro hm
    refine self (ih t ?_)
    rcases hs with ⟨he, -⟩ | ⟨hn, -⟩ | ⟨hh, -⟩
    · rwa [he] at hm
    · exact .inl hn
    · exact .inr ((h t).2 hh)
  intro u hu
  by_cases hut : u = t
  · subst hut
    exact ht hu
  rcases hu with hn | hu
  · exact outside t u (h'.not_holds hn t) (h'.not_holds hn u) (ht (.inl hn))
  · -- Another thread holds the mutex and has held it before.
    rcases hs with ⟨he, hk⟩ | ⟨-, hown, -⟩ | ⟨-, hown, -⟩
    · exact others u hut (fun hh => hut (h'.excl ((h' u).1 hu) (hk.2 hh))) (ih u (.inr (he ▸ hu)))
    · exact absurd (Option.some.inj (hu.symm.trans hown)) hut
    · rw [hown] at hu
      cases hu

end Owned

end TcpChat.Lib
