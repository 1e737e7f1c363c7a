import TcpChat.Lib.Prog

/-!
# Two runs of a sequential program

* `Prog.Tracks` — a run from another state gets along with the same answers and ends in a related state, with a rule for
  each construct, and rules for loops over answers;
* `Prog.Safe` — with answers of a certain kind the program is not killed, again with a rule for each construct.
-/

namespace TcpChat.Lib.Prog

variable {σ ρ α β : Type} {R R' : σ → σ → Prop} {m : Prog σ ρ α} {f : α → Prog σ ρ β} {s t : σ}

/-! ## Related states -/

/-- With the answers `l` the run from `t` tracks the one from `s`: it halts where this one halts and returns what it
returns, after the same answers, whatever comes behind them, and in a related state. -/
structure TracksOn (R : σ → σ → Prop) (m : Prog σ ρ α) (s t : σ) (l : List ρ) : Prop where
  ret : ∀ {a s' l'}, m s l = .ret a s' l' → ∃ used t', l = used ++ l' ∧ R s' t' ∧ ∀ k, m t (used ++ k) = .ret a t' k
  halt : ∀ {h s'}, m s l = .halt h s' → ∃ t', m t l = .halt h t' ∧ R s' t'

/-- The run from `t` tracks the one from `s`. -/
def Tracks (R : σ → σ → Prop) (m : Prog σ ρ α) (s t : σ) : Prop := ∀ l, TracksOn R m s t l

/-! ### Answer by answer -/

variable {x : ρ} {l : List ρ} {a : α}

/-- Both take the answer and go on. -/
theorem TracksOn.cons {s₁ t₁ : σ} (h : TracksOn R m s₁ t₁ l) (hs : m s (x :: l) = m s₁ l)
    (ht : ∀ l, m t (x :: l) = m t₁ l) : TracksOn R m s t (x :: l) where
  ret hret := by
    obtain ⟨used, t', rfl, hR, hk⟩ := h.ret (hs ▸ hret)
    exact ⟨x :: used, t', rfl, hR, fun k => (ht _).trans (hk k)⟩
  halt hhalt := by
    obtain ⟨t', ht', hR⟩ := h.halt (hs ▸ hhalt)
    exact ⟨t', (ht l).trans ht', hR⟩

/-- Both return after the answers `w`. -/
theorem tracksOn_ret {w : List ρ} {s₁ t₁ : σ} (hR : R s₁ t₁) (hs : m s (w ++ l) = .ret a s₁ l)
    (ht : ∀ k, m t (w ++ k) = .ret a t₁ k) : TracksOn R m s t (w ++ l) where
  ret hret := by
    cases hs.symm.trans hret
    exact ⟨w, t₁, rfl, hR, ht⟩
  halt hhalt := by cases hs.symm.trans hhalt

/-- Both halt. -/
theorem tracksOn_halt {e : Halt} {s₁ t₁ : σ} (hR : R s₁ t₁) (hs : m s l = .halt e s₁) (ht : m t l = .halt e t₁) :
    TracksOn R m s t l where
  ret hret := by cases hs.symm.trans hret
  halt hhalt := by
    cases hs.symm.trans hhalt
    exact ⟨t₁, ht, hR⟩

/-! ### Rules -/

theorem tracks_pure (a : α) (h : R s t) : Tracks R (pure a : Prog σ ρ α) s t :=
  fun _ => tracksOn_ret (w := []) h rfl fun _ => rfl

theorem tracks_modify {g : σ → σ} (h : R (g s) (g t)) : Tracks R (modify g : Prog σ ρ Unit) s t :=
  fun _ => tracksOn_ret (w := []) h rfl fun _ => rfl

theorem TracksOn.bind (hm : TracksOn R m s t l)
    (hf : ∀ a s' t' l', m s l = .ret a s' l' → R s' t' → TracksOn R' (f a) s' t' l')
    (hR : ∀ s t, R s t → R' s t) : TracksOn R' (m >>= f) s t l := by
  cases hml : m s l with
  | halt e s₁ =>
    obtain ⟨t₁, ht₁, hrel⟩ := hm.halt hml
    exact tracksOn_halt (hR _ _ hrel) (by rw [bind_apply, hml]) (by rw [bind_apply, ht₁])
  | ret a s₁ l₁ =>
    obtain ⟨used, t₁, rfl, hrel, hk⟩ := hm.ret hml
    have hf' := hf a s₁ t₁ l₁ hml hrel
    refine ⟨fun hret => ?_, fun hhalt => ?_⟩
    · rw [bind_apply, hml] at hret
      obtain ⟨used', t', rfl, hrel', hk'⟩ := hf'.ret hret
      refine ⟨used ++ used', t', (List.append_assoc ..).symm, hrel', fun k => ?_⟩
      rw [List.append_assoc, bind_apply, hk]
      exact hk' k
    · rw [bind_apply, hml] at hhalt
      rw [bind_apply, hk]
      exact hf'.halt hhalt

theorem Tracks.bind (hm : Tracks R m s t) (hf : ∀ a s' t', R s' t' → Tracks R (f a) s' t') :
    Tracks R (m >>= f) s t :=
  fun l => (hm l).bind (fun a s' t' l' _ h => hf a s' t' h l') fun _ _ h => h

/-- A program that reads the same in both states. -/
theorem tracks_get {f : σ → Prog σ ρ β} (hf : f t = f s) (h : Tracks R (f s) s t) : Tracks R (get >>= f) s t := by
  intro l
  have ht : ∀ k, (get >>= f) t k = f s t k := fun k => congrFun (congrFun hf t) k
  refine ⟨fun hret => ?_, fun hhalt => ?_⟩
  · obtain ⟨used, t', hl, hR, hk⟩ := (h l).ret hret
    exact ⟨used, t', hl, hR, fun k => (ht _).trans (hk k)⟩
  · obtain ⟨t', ht', hR⟩ := (h l).halt hhalt
    exact ⟨t', (ht l).trans ht', hR⟩

theorem tracks_ite {c : Prop} [Decidable c] {m' : Prog σ ρ α} (h : Tracks R m s t) (h' : Tracks R m' s t) :
    Tracks R (if c then m else m') s t := by
  split
  · exact h
  · exact h'

theorem tracks_each {g : α → Prog σ ρ Unit} {as : List α} (hg : ∀ a ∈ as, ∀ s t, R s t → Tracks R (g a) s t)
    (h : R s t) : Tracks R (each g as) s t := by
  induction as generalizing s t with
  | nil => exact tracks_pure () h
  | cons a as ih =>
    refine (hg a List.mem_cons_self s t h).bind fun _ s' t' h' => ?_
    exact ih (fun b hb => hg b (List.mem_cons_of_mem a hb)) h'

theorem Tracks.imp (h : Tracks R m s t) (hR : ∀ s t, R s t → R' s t) : Tracks R' m s t := by
  intro l
  refine ⟨fun hret => ?_, fun hhalt => ?_⟩
  · obtain ⟨used, t', hl, hrel, hk⟩ := (h l).ret hret
    exact ⟨used, t', hl, hR _ _ hrel, hk⟩
  · obtain ⟨t', ht', hrel⟩ := (h l).halt hhalt
    exact ⟨t', ht', hR _ _ hrel⟩

/-! ## Safe answers -/

variable {P : ρ → Prop}

/-- If all answers are of the kind `P`, then the program is not killed, and the answers that it leaves are, too. -/
def Safe (P : ρ → Prop) (m : Prog σ ρ α) : Prop :=
  ∀ s l, (∀ x ∈ l, P x) → match m s l with
    | .ret _ _ l' => ∀ x ∈ l', P x
    | .halt h _ => h ≠ .killed

theorem safe_pure (a : α) : Safe P (pure a : Prog σ ρ α) := fun _ _ h => h

theorem safe_get : Safe P (get : Prog σ ρ σ) := fun _ _ h => h

theorem safe_modify {g : σ → σ} : Safe P (modify g : Prog σ ρ Unit) := fun _ _ h => h

theorem Safe.bind (hm : Safe P m) (hf : ∀ a, Safe P (f a)) : Safe P (m >>= f) := by
  intro s l h
  have hm' := hm s l h
  rw [bind_apply]
  cases hml : m s l with
  | ret a s' l' =>
    rw [hml] at hm'
    exact hf a s' l' hm'
  | halt e s' =>
    rw [hml] at hm'
    exact hm'

theorem safe_ite {c : Prop} [Decidable c] {m' : Prog σ ρ α} (h : Safe P m) (h' : Safe P m') :
    Safe P (if c then m else m') := by
  split
  · exact h
  · exact h'

theorem safe_each {g : α → Prog σ ρ Unit} (hg : ∀ a, Safe P (g a)) : ∀ as, Safe P (each g as)
  | [] => safe_pure ()
  | a :: as => (hg a).bind fun _ => safe_each hg as

end TcpChat.Lib.Prog
