import TcpChat.Framing.Emission
import TcpChat.FramingClient.Drain

/-!
# What the client writes to its socket

Whatever the mode, and whenever the connection is lost or shut down.

* `tx_emitted` — the bytes written are those of the frames of the messages handed to `send_frame`, up to the one in which
  `send_frame` has failed or stands;
* `admitted_lines` — the messages that `TxEnqueueMessage` has put into the queue are lines of the input, in order;
* `wire_lines` — what the server is sent is the beginning of well-formed frames of lines, in order and none of them twice.
-/

namespace TcpChat.FramingClient

open TcpChat.Framing TcpChat.Lib

/-- Where `SendMessages` stands with `send_frame`. -/
def SendPc.emitting : SendPc → Emitting
  | .frame msg w => .frame msg w
  | .failStore | .failNotifyEmpty | .failNotifyFull | .done => .ended
  | _ => .idle

/-- `TX_HWM` is `MAX_PAYLOAD`. -/
theorem txHwm_eq : txHwm = maxPayload := rfl

namespace Tx

variable {t t' : Tx} {x : Input} {i : TxMove} {msg out : List UInt8} {res : SendResult}

/-- What `SendMessages` hands to `send_frame` and writes. -/
def Written (t : Tx) : Prop := Emitted t.handed t.wire t.send.emitting

/-- The messages in the queue, and that of the call in progress, have at most `TX_HWM` bytes. -/
def Bounded (t : Tx) : Prop := ∀ m ∈ t.admitted ++ t.enqueue.msg?.toList, m.length ≤ txHwm

/-- A call of `send` inside `send_frame`. -/
theorem sendCall_turn {handed : List (List UInt8)} {wire : List UInt8} {w : FrameWriter}
    (h : t.sendCall (w.offer msg) x = some (res, out)) (he : Emitted handed wire (.frame msg w)) :
    Emitted handed (wire ++ out) (match w.turn msg res with
      | .again w' => .frame msg w'
      | .ret true => .idle
      | .ret false => .ended) := by
  cases x <;> simp only [sendCall, Option.ite_none_right_eq_some, Option.some.injEq, Prod.mk.injEq, reduceCtorEq] at h
  case count n =>
    obtain ⟨⟨-, -, hn⟩, rfl, rfl⟩ := h
    exact he.turn hn
  case closed =>
    obtain ⟨rfl, rfl⟩ := h
    simpa [FrameWriter.turn] using he.toEnded
  case error e =>
    obtain ⟨rfl, rfl⟩ := h
    rw [List.append_nil, FrameWriter.turn]
    split <;> rename_i heq <;> split at heq <;> cases heq
    · exact he
    · exact he.toEnded

theorem sendStep_written (h : t.sendStep x = some t') (hw : t.Written)
    (hlen : ∀ m ∈ t.send.inHand, m.length ≤ maxPayload) : t'.Written := by
  unfold Written at hw ⊢
  cases hp : t.send with
  | unlock msg =>
    rw [hp] at hw hlen
    cases x <;> simp only [sendStep, hp, reduceCtorEq] at h
    have hstart := Emitted.start hw (hlen msg (List.mem_singleton.2 rfl))
    split at h <;> rename_i heq <;> rw [heq] at hstart <;> cases h
    all_goals exact hstart
  | frame msg w =>
    rw [hp] at hw
    simp only [sendStep, hp] at h
    split at h
    · cases h
    · rename_i res out hcall
      have hturn := sendCall_turn hcall hw
      split at h <;> rename_i heq <;> rw [heq] at hturn <;> cases h
      all_goals exact hturn
  | breakUnlock =>
    rw [hp] at hw
    cases x <;> simp only [sendStep, hp, reduceCtorEq, Option.some.injEq] at h
    subst h
    exact hw.toEnded
  | pop =>
    rw [hp] at hw
    cases x <;> simp only [sendStep, hp, reduceCtorEq] at h
    split at h <;> simp only [Option.some.injEq, reduceCtorEq] at h
    subst h
    dsimp only
    split <;> exact hw
  | _ =>
    rw [hp] at hw
    cases x <;> simp only [sendStep, hp, Option.some.injEq, Option.ite_none_right_eq_some, reduceCtorEq] at h
    all_goals first
      | subst h
      | obtain ⟨-, rfl⟩ := h
    all_goals first
      | exact hw
      | (dsimp only; split <;> exact hw)

/-- Only `SendMessages` writes. -/
theorem step_output (h : t.step i = some t') (hi : ∀ x, i ≠ .send x) :
    t'.handed = t.handed ∧ t'.wire = t.wire ∧ t'.send = t.send := by
  cases i <;> simp only [step, enqueueStep] at h
  case send x => exact absurd rfl (hi x)
  all_goals repeat' split at h
  all_goals simp only [Option.some.injEq, reduceCtorEq] at h
  all_goals subst h
  all_goals exact ⟨rfl, rfl, rfl⟩

theorem step_bounded (h : t.step i = some t') (hok : t.Small i) (hb : t.Bounded) : t'.Bounded := by
  cases i with
  | enqueue x =>
    cases x with
    | go => exact fun m hm => hb m (enqueueStep_messages h hm)
    | call msg =>
      obtain ⟨⟨ok, hret⟩, rfl⟩ := enqueueStep_call h
      intro m hm
      rcases List.mem_append.1 hm with hm | hm
      · refine hb m (List.mem_append_left _ ?_)
        simpa [admitted, hret, EnqueuePc.owed] using hm
      · obtain rfl : m = msg := by simpa [EnqueuePc.msg?] using hm
        exact hok
    | _ => cases hp : t.enqueue <;> simp [step, enqueueStep, hp] at h
  | send x =>
    intro m hm
    rw [admitted, (sendStep_underway h).2, sendStep_enqueue h] at hm
    exact hb m hm
  | _ => exact Option.some.inj h ▸ hb

end Tx

/-- The messages underway have at most `MAX_PAYLOAD` bytes. -/
theorem underway_length {t : Tx} (h : txQueue.Reach Tx.Small t) : ∀ m ∈ t.underway, m.length ≤ maxPayload := by
  have hb : t.Bounded := by
    refine h.invariant Tx.Bounded ?_ fun t i t' _ hb hok hst => Tx.step_bounded hst hok hb
    rintro t ⟨mode, rfl⟩ m hm
    simp [Tx.start, Tx.admitted, EnqueuePc.owed, EnqueuePc.msg?] at hm
  exact fun m hm => hb m (List.mem_append_left _ ((ordered h).sublist.subset hm))

/-- What `SendMessages` writes are the frames of what it hands to `send_frame`. -/
theorem tx_emitted {t : Tx} (h : txQueue.Reach Tx.Small t) : t.Written := by
  refine h.invariant Tx.Written ?_ ?_
  · rintro t ⟨mode, rfl⟩
    exact emitted_nil
  · rintro t i t' hr ih - hst
    by_cases hi : ∃ x, i = .send x
    · obtain ⟨x, rfl⟩ := hi
      refine Tx.sendStep_written hst ih fun m hm => underway_length hr m ?_
      simp [Tx.underway, hm]
    · obtain ⟨hh, hw, hs⟩ := Tx.step_output hst fun x hx => hi ⟨x, hx⟩
      rw [Tx.Written, hh, hw, hs]
      exact ih

/-! ## The lines -/

namespace Tx

variable {t t' : Tx}

/-- A message goes its way into the queue, or is left out. -/
theorem enqueueStep_passes (h : t.enqueueStep .go = some t') :
    (t'.admitted ++ t'.enqueue.coming).Sublist (t.admitted ++ t.enqueue.coming) := by
  unfold enqueueStep at h
  repeat' split at h
  all_goals simp only [Option.some.injEq, reduceCtorEq] at h
  all_goals subst h
  all_goals simp_all [admitted, EnqueuePc.owed, EnqueuePc.coming]

end Tx

namespace Client

variable {c c' : Client} {t : Thread} {x : Input}

/-- The messages in the queue, and the one on its way to it, are lines in order. -/
structure Lined (c : Client) : Prop where
  call : c.main ≠ .enqueue → ∃ ok, c.tx.enqueue = .returned ok
  lines : (c.tx.admitted ++ c.coming).Sublist c.lines

/-- After `CinMessages` the main thread leaves `TxEnqueueMessage` alone. -/
theorem mainStep_enqueue (h : c.mainStep x = some c') (hin : ¬ c.main.InCin) : c'.tx.enqueue = c.tx.enqueue := by
  unfold mainStep at h
  repeat' split at h
  all_goals simp only [Option.map_eq_some_iff, Option.some.injEq, reduceCtorEq] at h
  all_goals first
    | subst h
    | obtain ⟨tx, hst, rfl⟩ := h
  all_goals first
    | rfl
    | simp_all [MainPc.InCin]

theorem mainStep_lined (h : c.mainStep x = some c') (hl : c.Lined) : c'.Lined := by
  obtain ⟨hcall, hlines⟩ := hl
  by_cases hin : c.main.InCin
  · cases hm : c.main <;> simp only [hm, MainPc.InCin] at hin
    case getline =>
      have hadm : c.tx.admitted.Sublist c.lines := by simpa [coming, hm, MainPc.line] using hlines
      cases x <;> simp only [mainStep, hm, Option.some.injEq, reduceCtorEq] at h
      case line msg =>
        subst h
        exact ⟨fun _ => hcall (by simp [hm]), by simpa [coming, MainPc.line] using hadm⟩
      case eof =>
        subst h
        exact ⟨fun _ => hcall (by simp [hm]), by simpa [coming, MainPc.line] using hadm⟩
    case lineTest msg =>
      have hadm : (c.tx.admitted ++ [msg]).Sublist c.lines := by simpa [coming, hm, MainPc.line] using hlines
      have hstop : { c with main := .store }.Lined := by
        refine ⟨fun _ => hcall (by simp [hm]), ?_⟩
        simpa [coming, MainPc.line] using (List.sublist_append_left _ _).trans hadm
      cases x <;> simp only [mainStep, hm, reduceCtorEq] at h
      split at h
      · exact Option.some.inj h ▸ hstop
      split at h
      · exact Option.some.inj h ▸ hstop
      obtain ⟨tx, hst, rfl⟩ := Option.map_eq_some_iff.1 h
      obtain ⟨⟨ok, hret⟩, rfl⟩ := Tx.enqueueStep_call hst
      refine ⟨by simp, ?_⟩
      simpa [coming, Tx.admitted, hret, EnqueuePc.owed, EnqueuePc.coming] using hadm
    case enqueue =>
      cases x <;> simp only [mainStep, hm, reduceCtorEq] at h
      simp only [coming, hm] at hlines
      split at h
      · rename_i ok hret
        cases h
        refine ⟨fun _ => ⟨ok, hret⟩, ?_⟩
        cases ok <;> simpa [coming, MainPc.line, hret, EnqueuePc.coming] using hlines
      · obtain ⟨tx, hst, rfl⟩ := Option.map_eq_some_iff.1 h
        refine ⟨by simp, ?_⟩
        simpa only [coming] using (Tx.enqueueStep_passes hst).trans hlines
  · obtain ⟨hin', hadm, hl, -⟩ := mainStep_disconnect h hin
    have hout : ∀ c : Client, ¬ c.main.InCin → c.main ≠ .enqueue := by
      rintro c hin he
      simp [he, MainPc.InCin] at hin
    refine ⟨fun _ => mainStep_enqueue h hin ▸ hcall (hout c hin), ?_⟩
    rwa [hadm, hl, coming_of_not_inCin hin', ← coming_of_not_inCin hin]

/-- Only the main thread reads lines. -/
theorem step_lines (h : c.step (t, x) = some c') (ht : t ≠ .main) : c'.lines = c.lines := by
  cases t <;> simp only [step, recvStep, printStep] at h
  case main => exact absurd rfl ht
  all_goals repeat' split at h
  all_goals simp only [Option.map_eq_some_iff, Option.some.injEq, reduceCtorEq] at h
  all_goals first
    | subst h
    | obtain ⟨tx, htx, rfl⟩ := h
  all_goals rfl

theorem step_lined (h : c.step (t, x) = some c') (hl : c.Lined) : c'.Lined := by
  by_cases ht : t = .main
  · subst ht
    exact mainStep_lined h hl
  · obtain ⟨hm, he, ha⟩ := (step_pc h).main ht
    obtain ⟨hcall, hsub⟩ := hl
    refine ⟨by rwa [hm, he], ?_⟩
    rw [step_lines h ht, Tx.admitted, ha, he, coming, hm, he]
    exact hsub

end Client

/-! ## In every reachable state -/

variable {ok : Client → Thread × Input → Prop} {c : Client}

/-- What `TxEnqueueMessage` has put into the queue are lines of the input, in order. -/
theorem admitted_lines (h : client.Reach ok c) : c.tx.admitted.Sublist c.lines := by
  have hl : c.Lined := by
    refine h.invariant Client.Lined ?_ fun c ⟨t, x⟩ c' _ hl _ hst => Client.step_lined hst hl
    rintro c ⟨txMode, rxMode, stream, rfl⟩
    exact ⟨fun _ => ⟨true, rfl⟩, List.Sublist.refl _⟩
  exact (List.sublist_append_left _ _).trans hl.lines

/-- What the server is sent is the beginning of well-formed frames of lines of the input, in order and each at most
once. -/
def Client.SendsLines (c : Client) : Prop :=
  ∃ ps : List (List UInt8), (∀ p ∈ ps, ValidPayload p) ∧ ps.Sublist c.lines ∧ c.tx.wire <+: (ps.map frame).flatten

/-- **What the server is sent, in every run.** -/
theorem wire_lines (h : client.Reachable c) : c.SendsLines := by
  obtain ⟨ps, hps, hv, hw⟩ := (tx_emitted (tx_reach h)).framed
  refine ⟨ps, hv, ?_, hw⟩
  have hunder : ps <+: c.tx.underway := by
    rw [Tx.underway, List.append_assoc]
    exact hps.trans (List.prefix_append _ _)
  exact (hunder.sublist.trans (ordered (tx_reach h)).sublist).trans (admitted_lines h)

/-- The mode `DropOldest`: one line, of which `send` accepts the length field before it fails. -/
def sizeThenFail : List (Thread × Input) :=
  [(Thread.main, Input.line [104])] ++ List.replicate 7 (Thread.main, Input.go) ++
    List.replicate 6 (Thread.send, Input.go) ++
    [(Thread.send, Input.count 4), (Thread.send, Input.error (.other 10054))]

theorem wire_lines_sizeThenFail :
    (client.run (.start .dropOldest .dropNewest []) sizeThenFail).map (fun c => (c.tx.wire, c.tx.send)) =
        some ([0, 0, 0, 1], .failStore) ∧
      ∀ c ∈ client.run (.start .dropOldest .dropNewest []) sizeThenFail, c.SendsLines := by
  have hinit : client.Reachable (.start .dropOldest .dropNewest []) := .init ⟨_, _, _, rfl⟩
  exact ⟨by decide +kernel, fun c hc => wire_lines (hinit.run_along hc (System.along_true _ _))⟩

end TcpChat.FramingClient
