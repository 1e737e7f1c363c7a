import TcpChat.BlockingServer.Order

/-!
# The bytes that are still to come to the blocking server

As `FramingServer.Incoming`: to a state the bytes `f i` are added that the client of the session `i` has not written yet, and
the server may go the same steps.

* `Server.incoming` — the state with these bytes;
* `step_incoming` — a step of the server is a step with the bytes to come;
* `Reads` — what the session has broadcast and what it has still to read are what its client has written.
-/

namespace TcpChat.BlockingServer

open TcpChat.Lib

/-- The session whose client has still the bytes `u` to send. -/
def Session.incoming (c : Session) (u : List UInt8) : Session := { c with unread := c.unread ++ u }

/-- The message that a `ReceiveMsg` has not broadcast yet. -/
def RecvPc.heard : RecvPc → List UInt8
  | .castLock msg => msg
  | _ => []

namespace Server

/-- The state in which the client of the session `i` has still the bytes `f i` to send. -/
def incoming (s : Server) (f : ℕ → List UInt8) : Server := { s with sess := fun i => (s.sess i).incoming (f i) }

/-- What the session `i` has broadcast. -/
def castsOf (s : Server) (i : ℕ) : List (List UInt8) := (s.casts.filter fun cast => cast.1 = i).map Prod.snd

variable {s s' : Server} {f : ℕ → List UInt8} {i j k r : ℕ} {t : Thread} {x : Input}

theorem incoming_nil (s : Server) : s.incoming (fun _ => []) = s := by simp [incoming, Session.incoming]

theorem incoming_incoming (s : Server) (f g : ℕ → List UInt8) :
    (s.incoming f).incoming g = s.incoming fun i => f i ++ g i := by
  simp [incoming, Session.incoming]

/-- A change of a session that keeps the bytes to come. -/
theorem modify_incoming {g g' : Session → Session} (hg : g' ((s.sess j).incoming (f j)) = (g (s.sess j)).incoming (f j)) :
    (s.incoming f).modify j g' = (s.modify j g).incoming f := by
  simp only [modify, incoming, Server.mk.injEq, true_and, and_true]
  funext k
  by_cases hk : k = j
  · subst hk
    simp only [Function.update_self, hg]
  · simp only [Function.update_of_ne hk]

/-- A call of `recv` reports the same, when there are more bytes to come. -/
theorem recvCall_incoming {c : Session} {res : Option (List UInt8)} {unread : List UInt8}
    (h : c.recvCall x = some (res, unread)) (u : List UInt8) :
    (c.incoming u).recvCall x = some (res, unread ++ u) := by
  cases x <;> simp only [Session.recvCall, Option.ite_none_right_eq_some, Option.some.injEq, Prod.mk.injEq,
    reduceCtorEq] at h
  case count n =>
    obtain ⟨⟨hv, h0, hw, hu⟩, rfl, rfl⟩ := h
    have hlen : n ≤ (c.incoming u).unread.length := by
      rw [Session.incoming, List.length_append]
      omega
    refine (if_pos ⟨hv, h0, hw, hlen⟩).trans ?_
    rw [Session.incoming, List.take_append_of_le_length hu, List.drop_append_of_le_length hu]
  case failed =>
    obtain ⟨rfl, rfl⟩ := h
    rfl

theorem recvStep_incoming (h : s.recvStep i x = some s') : (s.incoming f).recvStep i x = some (s'.incoming f) := by
  have hpc : (s.incoming f).recv i = s.recv i := rfl
  cases hp : s.recv i with
  | recv =>
    rw [hp] at hpc
    simp only [recvStep, hp] at h
    split at h
    · cases h
    all_goals rename_i hcall
    all_goals have hcall' : ((s.incoming f).sess i).recvCall x = _ := recvCall_incoming hcall (f i)
    all_goals cases h
    all_goals simp only [recvStep, hpc, hcall']
    all_goals exact congrArg (fun s => some (setRecv s i _)) (modify_incoming rfl)
  | cast msg rest =>
    rw [hp] at hpc
    cases rest <;> cases x <;> simp only [recvStep, hp, Option.some.injEq, reduceCtorEq] at h
    all_goals subst h
    all_goals simp only [recvStep, hpc]
    all_goals rfl
  | send c left =>
    rw [hp] at hpc
    cases left <;> cases x <;> simp only [recvStep, hp, Option.some.injEq, Option.ite_none_right_eq_some, reduceCtorEq] at h
    all_goals simp only [recvStep, hpc]
    all_goals first
      | subst h
      | obtain ⟨hc, rfl⟩ := h
    all_goals first
      | rfl
      | exact (if_pos hc).trans (congrArg (fun s => some (setRecv s i _)) (modify_incoming rfl))
  | _ =>
    rw [hp] at hpc
    cases x <;> simp only [recvStep, hp, Option.some.injEq, Option.ite_none_right_eq_some, reduceCtorEq] at h
    all_goals simp only [recvStep, hpc]
    all_goals first
      | subst h
      | obtain ⟨hc, rfl⟩ := h
    all_goals first
      | rfl
      | exact congrArg (fun s => some (setRecv s i _)) (modify_incoming rfl)
      | exact if_pos hc
      | exact (if_pos hc).trans (congrArg (fun s => some (setRecv s i _)) (modify_incoming rfl))

/-- An accept thread may make a session whose client has bytes to come. -/
theorem acceptStep_incoming {f₀ : ℕ → List UInt8} (h : s.acceptStep k x = some s') (heq : ∀ i, i < s.count → f₀ i = f i)
    (h0 : ∀ i, s.count ≤ i → f₀ i = []) (hf : ∀ i, s'.count ≤ i → f i = []) :
    ∃ x', (s.incoming f₀).acceptStep k x' = some (s'.incoming f) := by
  have hsame : s'.count = s.count → f₀ = f := fun hc => by
    funext i
    by_cases hi : i < s.count
    · exact heq i hi
    · rw [h0 i (by omega), hf i (by omega)]
  have hpc : (s.incoming f₀).accept k = s.accept k := rfl
  cases hp : s.accept k with
  | call =>
    rw [hp] at hpc
    cases x <;> simp only [acceptStep, hp, Option.some.injEq, Option.ite_none_right_eq_some, reduceCtorEq] at h
    case refused =>
      subst h
      obtain rfl := hsame rfl
      exact ⟨.refused, by simp only [acceptStep, hpc]; rfl⟩
    case accepted stream =>
      obtain ⟨hl, rfl⟩ := h
      refine ⟨.accepted (stream ++ f s.count), ?_⟩
      simp only [acceptStep, hpc]
      refine (if_pos hl).trans (congrArg some ?_)
      simp only [incoming, setAccept, Server.mk.injEq, true_and, and_true]
      funext i
      by_cases hi : i = s.count
      · subst hi
        simp [Session.new, Session.incoming]
      · rw [Function.update_of_ne hi, Function.update_of_ne hi]
        by_cases hlt : i < s.count
        · rw [heq i hlt]
        · rw [h0 i (by omega), hf i (by simp only [setAccept]; omega)]
  | push i =>
    rw [hp] at hpc
    cases x <;> simp only [acceptStep, hp, Option.some.injEq, reduceCtorEq] at h
    subst h
    obtain rfl := hsame rfl
    refine ⟨.go, ?_⟩
    simp only [acceptStep, hpc]
    exact congrArg (fun s => some (setAccept s k _)) (modify_incoming (s := { s with clients := s.clients ++ [i] }) rfl)
  | _ =>
    rw [hp] at hpc
    cases x <;> simp only [acceptStep, hp, Option.some.injEq, Option.ite_none_right_eq_some, reduceCtorEq] at h
    all_goals first
      | subst h
      | obtain ⟨hc, rfl⟩ := h
    all_goals obtain rfl := hsame rfl
    all_goals refine ⟨.go, ?_⟩
    all_goals simp only [acceptStep, hpc]
    all_goals first
      | rfl
      | exact congrArg (fun s => some (setAccept s k _)) (modify_incoming rfl)
      | exact if_pos hc

/-- **A step of the server is a step with the bytes to come**, `Stop` apart. -/
theorem step_incoming (h : s.step (t, x) = some s') (hok : s.Unfailing (t, x)) (hf : ∀ i, s'.count ≤ i → f i = []) :
    ∃ x', (s.incoming fun i => if i < s.count then f i else []).Unfailing (t, x') ∧
      (s.incoming fun i => if i < s.count then f i else []).step (t, x') = some (s'.incoming f) := by
  have hsame : s'.count = s.count → (fun i => if i < s.count then f i else []) = f := fun hc => by
    funext i
    split
    · rfl
    · exact (hf i (by omega)).symm
  cases t with
  | accept k =>
    obtain ⟨x', hx'⟩ := acceptStep_incoming h (fun i hi => if_pos hi) (fun i hi => if_neg (by omega)) hf
    exact ⟨x', trivial, hx'⟩
  | recv i =>
    rw [hsame (step_frame h nofun).1]
    exact ⟨x, hok, recvStep_incoming h⟩
  | stop => exact hok.elim

/-! ## What a session reads -/

/-- What the session `i` has broadcast, has in hand and has still to read are the bytes `w`. -/
def Reads (s : Server) (i : ℕ) (w : List UInt8) : Prop :=
  (s.castsOf i).flatten ++ (s.recv i).heard ++ (s.sess i).unread = w

theorem castsOf_snoc (s : Server) (msg : List UInt8) (h : s'.casts = s.casts ++ [(k, msg)]) :
    s'.castsOf i = s.castsOf i ++ if k = i then [msg] else [] := by
  rw [castsOf, h, List.filter_append, List.map_append, castsOf]
  by_cases hk : k = i <;> simp [hk]

/-- Another session keeps what it reads. -/
theorem recvStep_others (h : s.recvStep k x = some s') (hi : i ≠ k) :
    s'.castsOf i = s.castsOf i ∧ (s'.sess i).unread = (s.sess i).unread := by
  unfold recvStep at h
  repeat' split at h
  all_goals simp only [Option.some.injEq, reduceCtorEq] at h
  all_goals subst h
  all_goals simp only [castsOf, setRecv, modify, Function.update_apply, List.filter_append]
  all_goals grind -linarith

theorem recvStep_keeps (h : s.recvStep k x = some s') (hrecv : s.recv k ≠ .recv) (hcast : ∀ msg, s.recv k ≠ .castLock msg) :
    s'.casts = s.casts ∧ (s'.sess k).unread = (s.sess k).unread ∧ (s'.recv k).heard = (s.recv k).heard := by
  unfold recvStep at h
  repeat' split at h
  all_goals simp only [Option.some.injEq, reduceCtorEq] at h
  all_goals subst h
  all_goals simp only [setRecv, modify, Function.update_self, Function.update_apply]
  all_goals grind -linarith [RecvPc.heard]

/-- `ReceiveMsg` broadcasts what it reads. -/
theorem recvStep_reads {w : List UInt8} (hr : s.Reads k w) (h : s.recvStep k x = some s') : s'.Reads k w := by
  have hkeep : s'.casts = s.casts → (s'.sess k).unread = (s.sess k).unread → (s'.recv k).heard = (s.recv k).heard →
      s'.Reads k w := fun h1 h2 h3 => by
    rw [Reads, castsOf, h1, h2, h3]
    exact hr
  cases hp : s.recv k with
  | recv =>
    simp only [recvStep, hp] at h
    split at h
    · cases h
    all_goals rename_i hcall
    all_goals cases x <;> simp only [Session.recvCall, Option.ite_none_right_eq_some, Option.some.injEq, Prod.mk.injEq,
      reduceCtorEq, false_and, and_false] at hcall
    · obtain ⟨-, rfl⟩ := hcall
      cases h
      exact hkeep rfl (by simp [setRecv, modify]) (by simp [setRecv, modify, RecvPc.heard, hp])
    · obtain ⟨-, rfl, rfl⟩ := hcall
      cases h
      rw [Reads, hp] at hr
      simpa [Reads, castsOf, setRecv, modify, RecvPc.heard] using hr
  | castLock msg =>
    cases x <;> simp only [recvStep, hp, Option.ite_none_right_eq_some, Option.some.injEq, reduceCtorEq] at h
    obtain ⟨-, rfl⟩ := h
    rw [Reads, hp] at hr
    rw [Reads, castsOf_snoc s msg rfl, if_pos rfl]
    simpa [setRecv, RecvPc.heard] using hr
  | _ =>
    obtain ⟨h1, h2, h3⟩ := recvStep_keeps h (by simp [hp]) (by simp [hp])
    exact hkeep h1 h2 h3

theorem acceptStep_reads {w : List UInt8} (hr : s.Reads i w) (hi : i < s.count) (h : s.step (.accept k, x) = some s') :
    s'.Reads i w := by
  have hsame : s'.casts = s.casts ∧ (s'.sess i).unread = (s.sess i).unread := by
    simp only [Server.step, acceptStep] at h
    repeat' split at h
    all_goals simp only [Option.some.injEq, reduceCtorEq] at h
    all_goals subst h
    all_goals simp only [setAccept, modify, Function.update_apply]
    all_goals grind -linarith
  rw [Reads, castsOf, hsame.1, hsame.2, (step_pc h).recv i (by simp)]
  exact hr

/-- Only sessions that have been made have broadcast. -/
def Made (s : Server) : Prop := ∀ cast ∈ s.casts, cast.1 < s.count

theorem Made.step (hm : s.Made) (hf : s.Fresh) (h : s.step (t, x) = some s') : s'.Made := by
  have hcasts : s.count ≤ s'.count ∧ ∀ cast ∈ s'.casts, cast ∈ s.casts ∨ t = .recv cast.1 ∧ s.recv cast.1 ≠ .off := by
    cases t <;> simp only [Server.step, acceptStep, recvStep, stopStep] at h
    all_goals repeat' split at h
    all_goals simp only [Option.some.injEq, reduceCtorEq] at h
    all_goals subst h
    all_goals simp only [setAccept, setRecv, setStop, modify]
    all_goals grind -linarith
  intro cast hc
  rcases hcasts.2 cast hc with h1 | ⟨-, h1⟩
  · exact (hm cast h1).trans_le hcasts.1
  · refine Nat.lt_of_lt_of_le ?_ hcasts.1
    by_contra hlt
    exact h1 (hf.blank cast.1 (by omega)).2

/-- Only `accept` makes a session. -/
theorem step_made (h : s.step (t, x) = some s') (hc : s.count < s'.count) : ∃ k stream, t = .accept k ∧ x = .accepted stream := by
  cases t <;> simp only [Server.step, acceptStep, recvStep, stopStep] at h
  all_goals repeat' split at h
  all_goals simp only [Option.some.injEq, reduceCtorEq] at h
  all_goals subst h
  all_goals first
    | exact ⟨_, _, rfl, rfl⟩
    | exact absurd hc (Nat.lt_irrefl _)

/-- A session that has just been made reads what its client has written. -/
theorem reads_new {w : List UInt8} (hm : s.Made) (hf : s.Fresh) (h : s.step (.accept k, .accepted w) = some s') :
    s'.count = s.count + 1 ∧ s'.Reads s.count w := by
  have hnone : s.castsOf s.count = [] := by
    rw [castsOf, List.map_eq_nil_iff, List.filter_eq_nil_iff]
    intro cast hc
    have := hm cast hc
    simp only [decide_eq_true_eq]
    omega
  cases hp : s.accept k <;>
    simp only [Server.step, acceptStep, hp, Option.ite_none_right_eq_some, Option.some.injEq, reduceCtorEq] at h
  obtain ⟨-, rfl⟩ := h
  refine ⟨rfl, ?_⟩
  rw [castsOf] at hnone
  simp [Reads, castsOf, hnone, setAccept, (hf.blank s.count le_rfl).2, RecvPc.heard, Session.new]

/-- A session writes at the end. -/
theorem step_writes (h : s.step (t, x) = some s') (hw : (s.sess s.count).wire = []) (r : ℕ) :
    ∃ out, (s'.sess r).wire = (s.sess r).wire ++ out := by
  cases t <;> simp only [Server.step, acceptStep, recvStep, stopStep] at h
  all_goals repeat' split at h
  all_goals simp only [Option.some.injEq, reduceCtorEq] at h
  all_goals subst h
  all_goals simp only [setAccept, setRecv, setStop, modify, Function.update_apply]
  all_goals first
    | exact ⟨[], (List.append_nil _).symm⟩
    | (split
       · subst_vars
         first
           | exact ⟨[], (List.append_nil _).symm⟩
           | exact ⟨_, rfl⟩
           | exact ⟨[], by simp [hw, Session.new]⟩
       · exact ⟨[], (List.append_nil _).symm⟩)

end Server

theorem made {ok : Server → Thread × Input → Prop} {s : Server} (h : server.Reach ok s) : s.Made := by
  refine h.invariant Server.Made ?_ fun s ⟨t, x⟩ s' hr hm _ hst => hm.step (fresh hr) hst
  rintro s ⟨n, rfl⟩ cast hc
  cases hc

end TcpChat.BlockingServer
