import Mathlib.Logic.Function.Basic
import Mathlib.Data.List.Basic

/-!
# Transition systems and their runs

* `System σ ι` — the initial states and, for an input `ι` chosen by the environment, the next state, if that
  input is possible in that state;
* `Reach S ok` — the states reached by a run all of whose steps satisfy `ok` (a condition on the state before
  the step and on the input); `Reachable S` is the case without a condition;
* `Reach.invariant` — the induction rule: what holds initially and is kept by every step holds in every state
  that is reached;
* `Reach.simulate` — the simulation rule, for two systems one of which does what the other one does or nothing;
* `Refines` — forward simulation: every step is some run of the other system;
* `startedIn` — the runs from a given state on;
* `run` — the run of a list of inputs; `Along`, `Occurs` — all, or some, of its steps satisfy a condition;
* `run_length_le` — the rule for termination;
* `occurs_iff` — the rule for what a run has seen; `along_iff` — the rule for exact conditions on a run.
-/

namespace TcpChat.Lib

/-- A transition system whose steps are answers to inputs of the environment. -/
structure System (σ ι : Type*) where
  init : σ → Prop
  step : σ → ι → Option σ

namespace System

variable {σ ι : Type*} (S : System σ ι)

/-- The states reached by a run all of whose steps satisfy `ok`. -/
inductive Reach (ok : σ → ι → Prop) : σ → Prop
  | init {s : σ} : S.init s → Reach ok s
  | step {s s' : σ} {i : ι} : Reach ok s → ok s i → S.step s i = some s' → Reach ok s'

/-- The states reached by any run. -/
abbrev Reachable : σ → Prop := S.Reach fun _ _ => True

/-- The same system, started in the state `s`. -/
def startedIn (s : σ) : System σ ι := { S with init := fun t => t = s }

/-- The run of a list of inputs; `none` if one of them is not possible. -/
def run : σ → List ι → Option σ
  | s, [] => some s
  | s, i :: is => (S.step s i).bind fun s' => run s' is

/-- Every step of the run of `is` from `s` satisfies `ok`. -/
def Along (ok : σ → ι → Prop) : σ → List ι → Prop
  | _, [] => True
  | s, i :: is => ok s i ∧ match S.step s i with
    | none => True
    | some s' => Along ok s' is

instance decidableAlong (ok : σ → ι → Prop) [∀ s i, Decidable (ok s i)] : ∀ s is, Decidable (S.Along ok s is)
  | _, [] => isTrue trivial
  | s, i :: is =>
    have : Decidable (match S.step s i with
        | none => True
        | some s' => S.Along ok s' is) :=
      match S.step s i with
      | none => isTrue trivial
      | some s' => decidableAlong ok s' is
    inferInstanceAs (Decidable (_ ∧ _))

/-- Some step of the run of `is` from `s` is a `P`. -/
def Occurs (P : σ → ι → Prop) : σ → List ι → Prop
  | _, [] => False
  | s, i :: is => P s i ∨ match S.step s i with
    | none => False
    | some s' => Occurs P s' is

variable {S} {ok ok' : σ → ι → Prop} {s s' : σ}

/-- **The invariant rule.**  The step case may use that the state before the step is reached. -/
theorem Reach.invariant (Inv : σ → Prop) (h0 : ∀ s, S.init s → Inv s)
    (hs : ∀ s i s', S.Reach ok s → Inv s → ok s i → S.step s i = some s' → Inv s') (h : S.Reach ok s) : Inv s := by
  induction h with
  | init hi => exact h0 _ hi
  | step hr hok hst ih => exact hs _ _ _ hr ih hok hst

theorem Reach.mono (hok : ∀ s i, ok s i → ok' s i) (h : S.Reach ok s) : S.Reach ok' s := by
  induction h with
  | init hi => exact .init hi
  | step _ ho hst ih => exact .step ih (hok _ _ ho) hst

/-- **The simulation rule.**  If every step is matched by a step of the system `T`, or by none, then every state that is
reached is related to one that `T` reaches. -/
theorem Reach.simulate {τ κ : Type*} {T : System τ κ} {okT : τ → κ → Prop} (R : σ → τ → Prop)
    (h0 : ∀ s, S.init s → ∃ t, T.init t ∧ R s t)
    (hs : ∀ s i s' t, R s t → ok s i → S.step s i = some s' →
      R s' t ∨ ∃ j t', okT t j ∧ T.step t j = some t' ∧ R s' t')
    (h : S.Reach ok s) : ∃ t, T.Reach okT t ∧ R s t := by
  induction h with
  | init hi =>
    obtain ⟨t, ht, hR⟩ := h0 _ hi
    exact ⟨t, .init ht, hR⟩
  | step _ hok hst ih =>
    obtain ⟨t, ht, hR⟩ := ih
    rcases hs _ _ _ t hR hok hst with hR' | ⟨j, t', hokT, hstT, hR'⟩
    · exact ⟨t, ht, hR'⟩
    · exact ⟨t', ht.step hokT hstT, hR'⟩

theorem Reach.run_along (h : S.Reach ok s) {is : List ι} (hrun : S.run s is = some s') (ha : S.Along ok s is) :
    S.Reach ok s' := by
  induction is generalizing s with
  | nil =>
    simp only [run, Option.some.injEq] at hrun
    exact hrun ▸ h
  | cons i is ih =>
    simp only [run, Option.bind_eq_some_iff] at hrun
    obtain ⟨t, hst, hrun⟩ := hrun
    obtain ⟨hok, ha⟩ := ha
    rw [hst] at ha
    exact ih (.step h hok hst) hrun ha

/-- A written-out run from a given state. -/
theorem reach_startedIn {s₀ : σ} {is : List ι} (hrun : S.run s₀ is = some s) (ha : S.Along ok s₀ is) :
    (S.startedIn s₀).Reach ok s := by
  have hall : ∀ is t, (S.startedIn s₀).Reach ok t → S.run t is = some s → S.Along ok t is →
      (S.startedIn s₀).Reach ok s := by
    intro is
    induction is with
    | nil =>
      intro t ht hrun _
      rw [run, Option.some.injEq] at hrun
      exact hrun ▸ ht
    | cons i is ih =>
      intro t ht hrun ha
      obtain ⟨t', hst, hrun⟩ := Option.bind_eq_some_iff.1 hrun
      obtain ⟨hok, ha⟩ := ha
      rw [hst] at ha
      exact ih t' (ht.step hok hst) hrun ha
  exact hall is s₀ (.init rfl) hrun ha

/-- **The rule for what a run has seen.**  `Seen` is what records the steps that are a `P`, in the runs all of whose
steps satisfy `ok`, and `Inv` is an invariant of these. -/
theorem occurs_iff {P : σ → ι → Prop} (Inv Seen : σ → Prop)
    (hs : ∀ s i s', Inv s → ok s i → S.step s i = some s' → Inv s' ∧ (Seen s' ↔ Seen s ∨ P s i)) {is : List ι}
    (hrun : S.run s is = some s') (ha : S.Along ok s is) (hi : Inv s) :
    Inv s' ∧ (Seen s' ↔ Seen s ∨ S.Occurs P s is) := by
  induction is generalizing s with
  | nil =>
    rw [run, Option.some.injEq] at hrun
    subst hrun
    exact ⟨hi, (or_iff_left id).symm⟩
  | cons i is ih =>
    obtain ⟨t, hst, hrun⟩ := Option.bind_eq_some_iff.1 hrun
    obtain ⟨hok, ha⟩ := ha
    rw [hst] at ha
    obtain ⟨ht, hseen⟩ := hs s i t hi hok hst
    obtain ⟨hs', hrest⟩ := ih hrun ha ht
    refine ⟨hs', hrest.trans ?_⟩
    rw [Occurs, hst, hseen, or_assoc]

/-- **The rule for exact conditions.**  If a step from a good state leads to a good state just when it satisfies `ok`,
then all states of a run are good just when all its steps satisfy `ok`. -/
theorem along_iff {Inv Good : σ → Prop}
    (hs : ∀ s i s', Inv s → Good s → S.step s i = some s' → Inv s' ∧ (Good s' ↔ ok s i)) {is : List ι}
    (hrun : S.run s is = some s') (hi : Inv s) (hg : Good s) :
    S.Along ok s is ↔ S.Along (fun s _ => Good s) s is ∧ Good s' := by
  induction is generalizing s with
  | nil =>
    rw [run, Option.some.injEq] at hrun
    subst hrun
    exact ⟨fun _ => ⟨trivial, hg⟩, fun _ => trivial⟩
  | cons i is ih =>
    obtain ⟨t, hst, hrun⟩ := Option.bind_eq_some_iff.1 hrun
    obtain ⟨ht, hgood⟩ := hs s i t hi hg hst
    simp only [Along, hst]
    constructor
    · rintro ⟨hok, ha⟩
      obtain ⟨ha', hs'⟩ := (ih hrun ht (hgood.2 hok)).1 ha
      exact ⟨⟨hg, ha'⟩, hs'⟩
    · rintro ⟨⟨-, ha⟩, hs'⟩
      -- the next state is good, for it is the last one or the run goes on from it
      have htgood : Good t := by
        cases is with
        | nil => exact (Option.some.inj hrun) ▸ hs'
        | cons j js => exact ha.1
      exact ⟨hgood.1 htgood, (ih hrun ht htgood).2 ⟨ha, hs'⟩⟩

/-- **The rule for termination.**  If every step decreases `rank`, a run has at most as many steps as the rank of its first
state. -/
theorem run_length_le {Inv : σ → Prop} {rank : σ → ℕ}
    (hs : ∀ s i s', Inv s → S.step s i = some s' → Inv s' ∧ rank s' < rank s) {is : List ι}
    (hrun : S.run s is = some s') (hi : Inv s) : Inv s' ∧ is.length + rank s' ≤ rank s := by
  induction is generalizing s with
  | nil =>
    rw [run, Option.some.injEq] at hrun
    subst hrun
    exact ⟨hi, by simp⟩
  | cons i is ih =>
    obtain ⟨t, hst, hrun⟩ := Option.bind_eq_some_iff.1 hrun
    obtain ⟨ht, hlt⟩ := hs s i t hi hst
    obtain ⟨hs', hle⟩ := ih hrun ht
    exact ⟨hs', by rw [List.length_cons]; omega⟩

/-- A condition on the inputs alone. -/
theorem along_of_forall {ok : ι → Prop} {is : List ι} (h : ∀ i ∈ is, ok i) (s : σ) : S.Along (fun _ i => ok i) s is := by
  induction is generalizing s with
  | nil => trivial
  | cons i is ih =>
    refine ⟨h i List.mem_cons_self, ?_⟩
    split
    · trivial
    · exact ih (fun j hj => h j (List.mem_cons_of_mem i hj)) _

theorem along_true (s : σ) (is : List ι) : S.Along (fun _ _ => True) s is := S.along_of_forall (fun _ _ => trivial) s

theorem run_append (s : σ) (is js : List ι) : S.run s (is ++ js) = (S.run s is).bind fun s' => S.run s' js := by
  induction is generalizing s with
  | nil => rfl
  | cons i is ih =>
    rw [List.cons_append, run, run, Option.bind_assoc]
    exact congrArg (S.step s i).bind (funext ih)

/-- The state at the end of a written-out run is reachable. -/
theorem reachable_of_run (hi : S.init s) {is : List ι} (hrun : S.run s is = some s') : S.Reachable s' :=
  (Reach.init hi).run_along hrun (along_true s is)

/-! ## Refinement -/

/-- The state `t'` is reached from `t` by some run. -/
def Leads {τ κ : Type*} (T : System τ κ) (t t' : τ) : Prop := ∃ js, T.run t js = some t'

/-- **Forward simulation**: in the runs all of whose steps satisfy `ok`, from related states every step of `S` is some run
of `T` to a related state. -/
structure Refines {τ κ : Type*} (S : System σ ι) (ok : σ → ι → Prop) (T : System τ κ) (R : σ → τ → Prop) : Prop where
  init : ∀ s, S.init s → ∃ t, T.init t ∧ R s t
  step : ∀ s i s' t, S.Reach ok s → R s t → ok s i → S.step s i = some s' → ∃ t', T.Leads t t' ∧ R s' t'

section

variable {τ κ : Type*} {T : System τ κ} {t t' t'' : τ}

theorem Leads.refl (t : τ) : T.Leads t t := ⟨[], rfl⟩

theorem Leads.trans (h : T.Leads t t') (h' : T.Leads t' t'') : T.Leads t t'' := by
  obtain ⟨js, hjs⟩ := h
  obtain ⟨ks, hks⟩ := h'
  exact ⟨js ++ ks, by rw [run_append, hjs, Option.bind_some, hks]⟩

theorem Leads.single {j : κ} (h : T.step t j = some t') : T.Leads t t' := ⟨[j], by rw [run, h, Option.bind_some, run]⟩

/-- What has been reached is related to what the other system reaches. -/
theorem Refines.reach {R : σ → τ → Prop} (h : S.Refines ok T R) (hs : S.Reach ok s) : ∃ t, T.Reachable t ∧ R s t := by
  induction hs with
  | init hi =>
    obtain ⟨t, ht, hR⟩ := h.init _ hi
    exact ⟨t, .init ht, hR⟩
  | step hr hok hst ih =>
    obtain ⟨t, ht, hR⟩ := ih
    obtain ⟨t', ⟨js, hjs⟩, hR'⟩ := h.step _ _ _ t hr hR hok hst
    exact ⟨t', ht.run_along hjs (along_true t js), hR'⟩

end

end System

end TcpChat.Lib
