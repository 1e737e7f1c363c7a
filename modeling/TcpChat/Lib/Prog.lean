import Mathlib.Data.List.Basic

/-!
# Sequential programs with calls

A sequential program changes a state and takes the answers of its calls from a list.  It returns, or it halts: it
waits for an answer after the last one, or it is killed.  A list of answers that stops in the middle of a program
thus shows the state in the middle of its run.

* `Prog`, `Outcome` — programs and their results; a loop over calls is a recursion on the answers;
* `Prog.bind_ret` — a sequence returns if its parts do;
* `Prog.Keeps` — the program keeps an invariant, whether it returns or halts, with a rule for each construct;
* `Prog.KeepsIf` — the same for a program whose answers are all good ones, and for the value it then returns;
* `Prog.Triple` — what holds when the program returns, of the state and of the answers that are left, again with a
  rule for each construct.
-/

namespace TcpChat.Lib

/-- Why a program did not return. -/
inductive Halt where
  | blocked | killed
  deriving DecidableEq

/-- The result of a program: the value it returns, its state and the answers it has left, or the state in which it
halted. -/
inductive Outcome (σ ρ α : Type) where
  | ret (a : α) (s : σ) (l : List ρ)
  | halt (h : Halt) (s : σ)

/-- The state at the end. -/
def Outcome.state {σ ρ α : Type} : Outcome σ ρ α → σ
  | .ret _ s _ => s
  | .halt _ s => s

/-- A program with states `σ`, answers `ρ` and value `α`. -/
def Prog (σ ρ α : Type) := σ → List ρ → Outcome σ ρ α

namespace Prog

variable {σ ρ α β : Type}

instance : Monad (Prog σ ρ) where
  pure a := fun s l => .ret a s l
  bind m f := fun s l =>
    match m s l with
    | .ret a s' l' => f a s' l'
    | .halt h s' => .halt h s'

/-- The state. -/
def get : Prog σ ρ σ := fun s l => .ret s s l

def modify (f : σ → σ) : Prog σ ρ Unit := fun s l => .ret () (f s) l

/-- Runs a body for each element of a list. -/
def each (f : α → Prog σ ρ Unit) : List α → Prog σ ρ Unit
  | [] => pure ()
  | a :: as => do
    f a
    each f as

variable {m : Prog σ ρ α} {f : α → Prog σ ρ β} {s s' : σ} {l l' : List ρ}

/-! ## Results -/

theorem pure_ret {a b : α} : (pure a : Prog σ ρ α) s l = .ret b s' l' ↔ a = b ∧ s = s' ∧ l = l' := by
  change Outcome.ret a s l = .ret b s' l' ↔ _
  simp

theorem get_ret {t : σ} : (get : Prog σ ρ σ) s l = .ret t s' l' ↔ s = t ∧ s = s' ∧ l = l' := by simp [get]

theorem modify_ret {g : σ → σ} {u : Unit} : (modify g : Prog σ ρ Unit) s l = .ret u s' l' ↔ g s = s' ∧ l = l' := by
  simp [modify]

theorem bind_apply :
    (m >>= f) s l = match m s l with
      | .ret a s' l' => f a s' l'
      | .halt h s' => .halt h s' := rfl

theorem bind_of_ret {a : α} (h : m s l = .ret a s' l') : (m >>= f) s l = f a s' l' := by
  rw [bind_apply, h]

theorem bind_of_halt {h : Halt} (hm : m s l = .halt h s') : (m >>= f) s l = .halt h s' := by
  rw [bind_apply, hm]

/-- **The rule for sequences**, for a statement about the result. -/
theorem bind_rule {Q : Outcome σ ρ β → Prop} (hhalt : ∀ h t, m s l = .halt h t → Q (.halt h t))
    (hret : ∀ a t k, m s l = .ret a t k → Q (f a t k)) : Q ((m >>= f) s l) := by
  rw [bind_apply]
  cases hml : m s l with
  | ret a t k => exact hret a t k hml
  | halt h t => exact hhalt h t hml

/-- **A sequence returns if its parts do.** -/
theorem bind_ret {b : β} :
    (m >>= f) s l = .ret b s' l' ↔ ∃ a t k, m s l = .ret a t k ∧ f a t k = .ret b s' l' := by
  rw [bind_apply]
  cases m s l <;> simp

theorem bind_assoc {γ : Type} {g : β → Prog σ ρ γ} : (m >>= f) >>= g = m >>= fun a => f a >>= g := by
  funext s l
  rw [bind_apply, bind_apply, bind_apply]
  cases m s l <;> rfl

/-- A loop over a list with an element in the middle. -/
theorem each_append_cons {g : α → Prog σ ρ Unit} (as : List α) (a : α) (bs : List α) :
    each g (as ++ a :: bs) = each g as >>= fun _ => g a >>= fun _ => each g bs := by
  induction as with
  | nil => rfl
  | cons b as ih =>
    rw [List.cons_append, each, each, ih]
    exact bind_assoc.symm

/-! ## Invariants -/

/-- The invariant `I` holds at the end, if it holds at the beginning. -/
def Keeps (I : σ → Prop) (m : Prog σ ρ α) : Prop := ∀ s l, I s → I (m s l).state

variable {I : σ → Prop}

theorem keeps_pure (a : α) : Keeps I (pure a : Prog σ ρ α) := fun _ _ h => h

theorem keeps_get : Keeps I (get : Prog σ ρ σ) := fun _ _ h => h

theorem keeps_modify {g : σ → σ} (hg : ∀ s, I s → I (g s)) : Keeps I (modify g : Prog σ ρ Unit) := fun s _ h => hg s h

theorem Keeps.bind (hm : Keeps I m) (hf : ∀ a, Keeps I (f a)) : Keeps I (m >>= f) := by
  intro s l h
  have hend := hm s l h
  refine bind_rule (Q := fun o => I o.state) (fun e t hml => ?_) fun a t k hml => hf a t k ?_
  · rwa [hml] at hend
  · rwa [hml] at hend

theorem keeps_ite {c : Prop} [Decidable c] {m' : Prog σ ρ α} (h : Keeps I m) (h' : Keeps I m') :
    Keeps I (if c then m else m') := by
  split
  · exact h
  · exact h'

theorem keeps_each {g : α → Prog σ ρ Unit} (hg : ∀ a, Keeps I (g a)) : ∀ as, Keeps I (each g as)
  | [] => keeps_pure ()
  | a :: as => (hg a).bind fun _ => keeps_each hg as

/-! ## Invariants under good answers -/

/-- If the invariant `I` holds and all answers are good ones, then `I` holds at the end, and the value that the program
returns satisfies `Q` and the answers that are left are good ones. -/
def KeepsIf (good : ρ → Prop) (I : σ → Prop) (m : Prog σ ρ α) (Q : α → Prop) : Prop :=
  ∀ s l, I s → (∀ r ∈ l, good r) → match m s l with
    | .ret a s' l' => I s' ∧ Q a ∧ ∀ r ∈ l', good r
    | .halt _ s' => I s'

variable {good : ρ → Prop} {Post : α → Prop} {Post' : β → Prop}

theorem keepsIf_pure {a : α} (ha : Post a) : KeepsIf good I (pure a : Prog σ ρ α) Post := fun _ _ h hl => ⟨h, ha, hl⟩

theorem keepsIf_get : KeepsIf good I (get : Prog σ ρ σ) fun _ => True := fun _ _ h hl => ⟨h, trivial, hl⟩

theorem keepsIf_modify {g : σ → σ} (hg : ∀ s, I s → I (g s)) :
    KeepsIf good I (modify g : Prog σ ρ Unit) fun _ => True := fun s _ h hl => ⟨hg s h, trivial, hl⟩

theorem KeepsIf.bind (hm : KeepsIf good I m Post) (hf : ∀ a, Post a → KeepsIf good I (f a) Post') :
    KeepsIf good I (m >>= f) Post' := by
  intro s l h hl
  have hend := hm s l h hl
  rw [bind_apply]
  cases hml : m s l with
  | ret a t k =>
    rw [hml] at hend
    obtain ⟨ht, ha, hk⟩ := hend
    exact hf a ha t k ht hk
  | halt e t =>
    rw [hml] at hend
    exact hend

theorem KeepsIf.state (hm : KeepsIf good I m Post) (h : I s) (hl : ∀ r ∈ l, good r) : I (m s l).state := by
  have hend := hm s l h hl
  cases hml : m s l with
  | ret a t k =>
    rw [hml] at hend
    exact hend.1
  | halt e t =>
    rw [hml] at hend
    exact hend

theorem keepsIf_each {g : α → Prog σ ρ Unit} {as : List α}
    (hg : ∀ a ∈ as, KeepsIf good I (g a) fun _ => True) : KeepsIf good I (each g as) fun _ => True := by
  induction as with
  | nil => exact keepsIf_pure trivial
  | cons a as ih =>
    exact (hg a List.mem_cons_self).bind fun _ _ => ih fun b hb => hg b (List.mem_cons_of_mem a hb)

/-! ## Pre- and postconditions -/

/-- If `P` holds of the state and the answers and the program returns, then `Q` holds. -/
def Triple (P : σ → List ρ → Prop) (m : Prog σ ρ α) (Q : α → σ → List ρ → Prop) : Prop :=
  ∀ s l a s' l', P s l → m s l = .ret a s' l' → Q a s' l'

variable {P : σ → List ρ → Prop} {Q : α → σ → List ρ → Prop} {R : β → σ → List ρ → Prop}

theorem triple_pure {a : α} (h : ∀ s l, P s l → Q a s l) : Triple P (pure a) Q := by
  intro s l b s' l' hP hret
  obtain ⟨rfl, rfl, rfl⟩ := pure_ret.1 hret
  exact h s l hP

theorem triple_modify {g : σ → σ} {Q : Unit → σ → List ρ → Prop} (h : ∀ s l, P s l → Q () (g s) l) :
    Triple P (modify g) Q := by
  intro s l u s' l' hP hret
  obtain ⟨rfl, rfl⟩ := modify_ret.1 hret
  exact h s l hP

theorem Triple.bind (hm : Triple P m Q) (hf : ∀ a, Triple (Q a) (f a) R) : Triple P (m >>= f) R := by
  intro s l b s' l' hP hret
  obtain ⟨a, t, k, hm', hf'⟩ := bind_ret.1 hret
  exact hf a t k b s' l' (hm s l a t k hP hm') hf'

/-- **The rule for loops**: what the body keeps for each element of the list is kept by the loop. -/
theorem triple_each {g : α → Prog σ ρ Unit} {as : List α} (hg : ∀ a ∈ as, Triple P (g a) fun _ => P) :
    Triple P (each g as) fun _ => P := by
  induction as with
  | nil => exact triple_pure fun _ _ h => h
  | cons a as ih =>
    exact (hg a List.mem_cons_self).bind fun _ => ih fun b hb => hg b (List.mem_cons_of_mem a hb)

end Prog

end TcpChat.Lib
