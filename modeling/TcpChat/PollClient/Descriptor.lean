import TcpChat.PollClient.Ending

/-!
# The descriptor of the `poll` client

`Stop` tests `m_socket`, closes it and clears it in three steps, and no mutex guards them.

* `Sole` — a step of `Stop` is not made while the other thread is inside its `Stop`;
* `Tidy` — the open descriptor is the one in `m_socket`, but between `close` and the assignment of `-1`;
* `closes_once` — in such runs no descriptor is closed twice, and at the end all have been closed;
* `closes_twice` — otherwise one may be closed twice.
-/

namespace TcpChat.PollClient

open TcpChat.Lib TcpChat.EventLoop TcpChat.Poll

/-- Inside `Stop`, after `m_running.store(false)`. -/
def StopPc.Inside : StopPc → Prop
  | .store => False
  | _ => True

/-- In `Stop`, after the test of `m_socket`. -/
def StopPc.Past : StopPc → Prop
  | .store | .test => False
  | _ => True

def NetPc.stop? : NetPc → Option StopPc
  | .stop p => some p
  | _ => none

def InputPc.stop? : InputPc → Option StopPc
  | .stop p | .destroy p => some p
  | _ => none

instance : DecidablePred StopPc.Inside := fun p => decidable_of_iff (p ≠ .store) (by cases p <;> simp [StopPc.Inside])

namespace Client

variable {c c' : Client} {x : Input} {t : Thread}

/-- A step of `Stop` is not made while the other thread is inside its `Stop`. -/
def Sole (c : Client) : Thread × Input → Prop
  | (.net, _) => c.net.stop? ≠ none → ∀ p ∈ c.input.stop?, ¬ p.Inside
  | (.input, _) => c.input.stop? ≠ none → ∀ p ∈ c.net.stop?, ¬ p.Inside

instance (c : Client) : DecidablePred c.Sole
  | (.net, _) | (.input, _) => inferInstanceAs (Decidable (_ → ∀ p ∈ _, _))

/-- The descriptor in `m_socket` has just been closed. -/
def Closed (c : Client) : Prop := c.net.stop? = some .clear ∨ c.input.stop? = some .clear

/-- The descriptors that the client holds. -/
def held (c : Client) : Set Fd := {fd | c.socket = some fd ∧ ¬ c.Closed}

/-- The open descriptor is the one in `m_socket`. -/
structure Tidy (c : Client) : Prop where
  balanced : c.closes.Balanced c.held
  one : ∀ p ∈ c.net.stop?, p.Inside → ∀ q ∈ c.input.stop?, ¬ q.Inside
  net : ∀ p ∈ c.net.stop?, p.Past → c.socket ≠ none
  input : ∀ p ∈ c.input.stop?, p.Past → c.socket ≠ none
  fresh : c.net = .connect → c.socket = none
  done : c.input = .done → c.socket = none

/-! ## `Stop` -/

/-- One step of `Stop`, of which the other thread keeps out. -/
theorem stopStep_balanced {p : StopPc} (hb : c.closes.Balanced {fd | c.socket = some fd ∧ p ≠ .clear})
    (hs : p.Past → c.socket ≠ none) :
    (c.stopStep p).1.closes.Balanced {fd | (c.stopStep p).1.socket = some fd ∧ (c.stopStep p).2 ≠ some .clear} ∧
      (∀ q ∈ (c.stopStep p).2, q.Inside ∧ (q.Past → (c.stopStep p).1.socket ≠ none)) ∧
      ((c.stopStep p).2 = none → (c.stopStep p).1.socket = none) := by
  cases p with
  | store => exact ⟨hb.congr fun fd => by simp [stopStep], by simp [stopStep, StopPc.Inside, StopPc.Past], by simp [stopStep]⟩
  | shutdown =>
    refine ⟨hb.congr fun fd => by simp [stopStep], fun q hq => ?_, by simp [stopStep]⟩
    obtain rfl : .closeTest = q := Option.some.inj hq
    exact ⟨trivial, fun _ => hs trivial⟩
  | test =>
    cases hsock : c.socket with
    | none => exact ⟨hb.congr fun fd => by simp [stopStep, hsock], by simp [stopStep, hsock], fun _ => by simp [stopStep, hsock]⟩
    | some fd =>
      exact ⟨hb.congr fun fd => by simp [stopStep, hsock], by simp [stopStep, hsock, StopPc.Inside], by simp [stopStep, hsock]⟩
  | closeTest =>
    obtain ⟨fd, hsock⟩ := Option.ne_none_iff_exists'.1 (hs trivial)
    exact ⟨hb.congr fun fd => by simp [stopStep, hsock], by simp [stopStep, hsock, StopPc.Inside], by simp [stopStep, hsock]⟩
  | close =>
    obtain ⟨fd, hsock⟩ := Option.ne_none_iff_exists'.1 (hs trivial)
    refine ⟨?_, by simp [stopStep, hsock, StopPc.Inside], by simp [stopStep, hsock]⟩
    simp only [stopStep, hsock, Option.elim_some]
    refine (hb.close (k := fd) ⟨hsock, by simp⟩).congr fun k => ?_
    simp [hsock, eq_comm]
  | clear => exact ⟨hb.congr fun fd => by simp [stopStep], by simp [stopStep], fun _ => rfl⟩

/-! ## The steps -/

theorem not_inside_iff {p : StopPc} : ¬ p.Inside ↔ p = .store := by cases p <;> simp [StopPc.Inside]

/-- The network thread outside `Stop`, after `CreateConnection`. -/
theorem netStep_socket (h : c.netStep x = some c') (hs : c.net.stop? = none) (hc : c.net ≠ .connect) :
    c'.closes = c.closes ∧ c'.socket = c.socket ∧ c'.net ≠ .connect ∧ ∀ p ∈ c'.net.stop?, p = .store := by
  cases hp : c.net with
  | connect => exact absurd hp hc
  | stop p => simp [hp, NetPc.stop?] at hs
  | read | writeSend =>
    simp only [netStep, hp] at h
    repeat' split at h
    all_goals simp only [Option.some.injEq, reduceCtorEq] at h
    all_goals subst h
    all_goals simp [NetPc.stop?]
  | _ =>
    cases x <;> simp only [netStep, hp, Option.some.injEq, Option.ite_none_right_eq_some, reduceCtorEq] at h
    all_goals first
      | subst h
      | obtain ⟨-, rfl⟩ := h
    all_goals refine ⟨rfl, rfl, ?_⟩
    all_goals dsimp only
    all_goals repeat' split
    all_goals simp [NetPc.stop?]

theorem netStep_tidy (h : c.netStep x = some c') (hok : c.Sole (.net, x)) (hj : c.Joined) (ht : c.Tidy) : c'.Tidy := by
  have hinput := (netStep_lock h).2
  have hnet := ht.net
  obtain ⟨hb, hone, -, hin, hfresh, hdone⟩ := ht
  by_cases hp : ∃ p, c.net = .stop p
  · obtain ⟨p, hp⟩ := hp
    have hout : ∀ q ∈ c.input.stop?, q = .store := fun q hq => not_inside_iff.1 (hok (by simp [hp, NetPc.stop?]) q hq)
    have hb' : c.closes.Balanced {fd | c.socket = some fd ∧ p ≠ .clear} := by
      refine hb.congr fun fd => ?_
      have hno : c.input.stop? ≠ some .clear := fun hq => by cases hout _ hq
      simp [held, Closed, hp, NetPc.stop?, hno]
    obtain ⟨hbal, hnext, hret⟩ := stopStep_balanced hb' (hnet p (by simp [hp, NetPc.stop?]))
    have hstop : ∀ q : Option StopPc, (q.elim NetPc.done .stop).stop? = q := by rintro (- | q) <;> rfl
    cases x <;> simp only [netStep, hp, Option.some.injEq, reduceCtorEq] at h
    subst h
    refine ⟨hbal.congr fun fd => ?_, fun q hq _ r hr => ?_, fun q hq => ?_, fun q hq hpast => ?_, fun he => ?_, fun he => ?_⟩
    · have hno : (c.stopStep p).1.input.stop? ≠ some .clear := by
        rw [show (c.stopStep p).1.input = c.input by cases p <;> rfl]
        exact fun hq => by cases hout _ hq
      simp [held, Closed, hstop, hno]
    · rw [hinput] at hr
      exact not_inside_iff.2 (hout r hr)
    · simp only [hstop] at hq
      exact (hnext q hq).2
    · rw [hinput] at hq
      rw [hout q hq] at hpast
      exact hpast.elim
    · cases hq : (c.stopStep p).2 <;> simp [hq] at he
    · rw [hinput] at he
      have hs := hdone he
      cases p <;> simp [stopStep, hs]
  · have hs : c.net.stop? = none := by
      cases hn : c.net <;> grind -linarith [NetPc.stop?]
    by_cases hc : c.net = .connect
    · -- `CreateConnection`
      have hsock := hfresh hc
      have hno : ∀ q ∈ c.input.stop?, ¬ q.Past := fun q hq hpast => hin q hq hpast hsock
      have hempty : c.closes.Balanced ∅ := hb.congr fun fd => by simp [held, hsock]
      cases x <;> simp only [netStep, hc, reduceCtorEq] at h
      rename_i answer
      cases answer with
      | none =>
        simp only [Option.some.injEq] at h
        subst h
        exact ⟨hempty.congr fun fd => by simp [held, hsock], fun q hq hq' => (by cases hq; exact hq'.elim),
          fun q hq hpast => (by cases hq; exact hpast.elim), fun q hq hpast => absurd hpast (hno q hq), by simp, hdone⟩
      | some result =>
        simp only at h
        split at h
        · cases h
        · rename_i closes hfirst
          cases h
          obtain ⟨-, -, hbal⟩ := Closes.firstServing_spec hempty hfirst
          exact ⟨hbal.congr fun fd => by simp [held, hsock], by simp [NetPc.stop?], by simp [NetPc.stop?],
            fun q hq hpast => absurd hpast (hno q hq), by simp, hdone⟩
        · rename_i sfd closes hfirst
          cases h
          obtain ⟨-, -, hbal⟩ := Closes.firstServing_spec hempty hfirst
          have hclear : c.input.stop? ≠ some .clear := fun hq => hno _ hq trivial
          refine ⟨hbal.congr fun fd => ?_, by simp [NetPc.stop?], by simp [NetPc.stop?],
            fun q hq hpast => absurd hpast (hno q hq), by simp, fun hd => ?_⟩
          · simp [held, Closed, NetPc.stop?, hclear]
          · have hdone := hj .store (.inr hd)
            rw [hc] at hdone
            cases hdone
    · obtain ⟨hcloses, hsocket, hc', hstore⟩ := netStep_socket h hs hc
      have hclear : c'.net.stop? ≠ some .clear := fun hq => by cases hstore _ hq
      refine ⟨?_, fun q hq hq' => absurd hq' (not_inside_iff.2 (hstore q hq)), fun q hq hpast => ?_, fun q hq => ?_,
        fun he => absurd he hc', fun he => ?_⟩
      · rw [hcloses]
        refine hb.congr fun fd => ?_
        have hclear' : c.net.stop? ≠ some .clear := by rw [hs]; simp
        simp [held, Closed, hsocket, hinput, hclear, hclear']
      · rw [hstore q hq] at hpast
        exact hpast.elim
      · rw [hsocket]
        exact hin q (hinput ▸ hq)
      · rw [hsocket]
        exact hdone (hinput ▸ he)

/-- The input thread outside `Stop`. -/
theorem inputStep_socket (h : c.inputStep x = some c') (hs : c.input.stop? = none) :
    c'.closes = c.closes ∧ c'.socket = c.socket ∧ c'.input ≠ .done ∧ ∀ p ∈ c'.input.stop?, p = .store := by
  cases hp : c.input with
  | stop p | destroy p => simp [hp, InputPc.stop?] at hs
  | _ =>
    cases x <;> simp only [inputStep, hp, Option.some.injEq, Option.ite_none_right_eq_some, reduceCtorEq] at h
    all_goals repeat' split at h
    all_goals first
      | subst h
      | obtain ⟨-, rfl⟩ := h
    all_goals simp [InputPc.stop?]

/-- One step of the `Stop` of the input thread. -/
theorem inputStop_tidy {p : StopPc} {input : InputPc} (hp : c.input.stop? = some p)
    (hout : ∀ q ∈ c.net.stop?, q = .store) (hi : input.stop? = (c.stopStep p).2)
    (hdone : input = .done → (c.stopStep p).2 = none) (ht : c.Tidy) :
    Tidy { (c.stopStep p).1 with input := input } := by
  obtain ⟨hb, -, hnet, hin, hfresh, -⟩ := ht
  have hclear : c.net.stop? ≠ some .clear := fun hq => nomatch hout _ hq
  have hb' : c.closes.Balanced {fd | c.socket = some fd ∧ p ≠ .clear} :=
    hb.congr fun fd => by simp [held, Closed, hp, hclear]
  obtain ⟨hbal, hnext, hret⟩ := stopStep_balanced hb' (hin p hp)
  have hn : (c.stopStep p).1.net = c.net := by cases p <;> rfl
  refine ⟨hbal.congr fun fd => ?_, fun q hq hq' => ?_, fun q hq hpast => ?_, fun q hq => ?_, fun he => ?_, fun he => ?_⟩
  · simp [held, Closed, hn, hi, hclear]
  · simp only [hn] at hq
    exact absurd hq' (not_inside_iff.2 (hout q hq))
  · simp only [hn] at hq
    rw [hout q hq] at hpast
    exact hpast.elim
  · simp only [hi] at hq
    exact (hnext q hq).2
  · simp only [hn] at he
    have hs := hfresh he
    cases p <;> simp [stopStep, hs]
  · exact hret (hdone he)

theorem inputStep_tidy (h : c.inputStep x = some c') (hok : c.Sole (.input, x)) (hj : c.Joined) (ht : c.Tidy) :
    c'.Tidy := by
  have hframe := (inputStep_frame h).1
  cases hp : c.input with
  | stop p =>
    have hout : ∀ q ∈ c.net.stop?, q = .store := fun q hq => not_inside_iff.1 (hok (by simp [hp, InputPc.stop?]) q hq)
    cases x <;> simp only [inputStep, hp, Option.some.injEq, reduceCtorEq] at h
    subst h
    refine inputStop_tidy (by rw [hp]; rfl) hout ?_ ?_ ht
    · cases (c.stopStep p).2 <;> rfl
    · cases (c.stopStep p).2 <;> simp
  | destroy p =>
    -- the network thread has been joined
    have hout : ∀ q ∈ c.net.stop?, q = .store := by simp [hj p (.inl hp), NetPc.stop?]
    cases x <;> simp only [inputStep, hp, Option.some.injEq, reduceCtorEq] at h
    subst h
    refine inputStop_tidy (by rw [hp]; rfl) hout ?_ ?_ ht
    · cases (c.stopStep p).2 <;> rfl
    · cases (c.stopStep p).2 <;> simp
  | _ =>
    have hs : c.input.stop? = none := by rw [hp]; rfl
    obtain ⟨hb, -, hnet, -, hfresh, -⟩ := ht
    obtain ⟨hcloses, hsocket, hdone, hstore⟩ := inputStep_socket h hs
    have hclear : c.input.stop? ≠ some .clear := by rw [hs]; simp
    have hclear' : c'.input.stop? ≠ some .clear := fun hq => by cases hstore _ hq
    refine ⟨?_, fun q _ _ r hr => not_inside_iff.2 (hstore r hr), fun q hq => ?_, fun q hq hpast => ?_, fun he => ?_,
      fun he => absurd he hdone⟩
    · rw [hcloses]
      exact hb.congr fun fd => by simp [held, Closed, hsocket, hframe, hclear, hclear']
    · rw [hsocket]
      exact hnet q (hframe ▸ hq)
    · rw [hstore q hq] at hpast
      exact hpast.elim
    · rw [hsocket]
      exact hfresh (hframe ▸ he)

theorem step_tidy (h : c.step (t, x) = some c') (hok : c.Sole (t, x)) (hj : c.Joined) (ht : c.Tidy) : c'.Tidy := by
  cases t with
  | net => exact netStep_tidy h hok hj ht
  | input => exact inputStep_tidy h hok hj ht

end Client

variable {c : Client}

theorem tidy (h : client.Reach Client.Sole c) : c.Tidy := by
  refine h.invariant Client.Tidy ?_ fun c ⟨t, x⟩ c' hr ht hok hst => Client.step_tidy hst hok (joined hr) ht
  rintro c ⟨stream, rfl⟩
  exact ⟨Closes.balanced_none.congr fun fd => by simp [Client.held, Client.start], nofun, nofun, nofun, fun _ => rfl, nofun⟩

/-- **Every descriptor is closed once**, if a step of `Stop` is not made while the other thread is inside its `Stop`: what is
open is the descriptor in `m_socket`, and nothing is at the end. -/
theorem closes_once (h : client.Reach Client.Sole c) :
    c.closes.Balanced c.held ∧ (c.input = .done → ∀ fd n, c.closes fd = some n → n = 1) := by
  refine ⟨(tidy h).balanced, fun hd => ?_⟩
  refine Closes.balanced_empty.1 ((tidy h).balanced.congr fun fd => ?_)
  simp [Client.held, (tidy h).done hd]

/-- The peer closes the connection, and then the input ends. -/
def closedByPeer : List (Thread × Input) :=
  connect ++ [(Thread.net, Input.ready pollIn), (Thread.net, Input.go), (Thread.net, Input.closed)] ++
    List.replicate 6 (Thread.net, Input.go) ++ (Thread.input, Input.eof) :: List.replicate 3 (Thread.input, Input.go)

theorem closes_once_closedByPeer :
    (client.run (.start []) closedByPeer).map (fun c => (c.input, c.socket, c.closes 3)) = some (.done, none, some 1) ∧
      ∀ c ∈ client.run (.start []) closedByPeer,
        c.closes.Balanced c.held ∧ (c.input = .done → ∀ fd n, c.closes fd = some n → n = 1) := by
  refine ⟨by decide +kernel, fun _ hc => closes_once ?_⟩
  have hstart : client.Reach Client.Sole (.start []) := .init ⟨[], rfl⟩
  exact hstart.run_along hc (by decide +kernel)

/-- `/quit` while the client polls: both threads test `m_socket` before one of them clears it. -/
def bothStop : List (Thread × Input) :=
  connect ++
    (Thread.input, Input.line quit) :: (Thread.input, Input.go) ::
      (Thread.net, Input.timeout) :: List.replicate 3 (Thread.net, Input.go) ++
    List.replicate 3 (Thread.input, Input.go) ++ List.replicate 2 (Thread.net, Input.go) ++
    [(Thread.input, Input.go), (Thread.net, Input.go)]

/-- Without that condition a descriptor may be closed twice. -/
theorem closes_twice : ∃ c, client.Reachable c ∧ c.closes 3 = some 2 := by
  cases hrun : client.run (.start []) bothStop with
  | none => exact absurd hrun (by decide +kernel)
  | some c =>
    refine ⟨c, System.reachable_of_run ⟨[], rfl⟩ hrun, ?_⟩
    have hc : (client.run (.start []) bothStop).bind (fun c => c.closes 3) = some 2 := by decide +kernel
    rwa [hrun] at hc

end TcpChat.PollClient
