import TcpChat.IocpClient.Model
import TcpChat.Lib.Pieces

/-!
# The send pipe

What the two threads of the client do with the queue, without threads: a right to call `WSASend` goes from `idle`, when
it is taken, to the one submission that is outstanding, to its completion, and back.

* `Pipe`, `pipe` — the queue, where the right is, and what has gone out;
* `Sound` — whoever has the right has the front item, and nothing else touches that item;
* `Flat` — nothing is lost as long as no `WSASend` fails;
* `Logged` — the stream is not torn as long as no `WSASend` fails for an item that has partly gone out.
-/

namespace TcpChat.IocpClient

open TcpChat.Lib

/-- Where the right to submit is.  It is `lost` when a completion was not successful. -/
inductive Phase where
  | idle | kick | out (it : SendItem) | complete (it : SendItem) (bytes : ℕ) (ok : Bool) | lost
  deriving DecidableEq

/-- The item that is submitted, until its completion has been handled. -/
def Phase.item : Phase → Option SendItem
  | out it | complete it _ _ => some it
  | idle | kick | lost => none

/-- The bytes that have gone out and are not in the item's offset. -/
def Phase.bytes : Phase → ℕ
  | complete _ bytes _ => bytes
  | idle | kick | out _ | lost => 0

structure Pipe where
  queue : List SendItem
  phase : Phase
  /-- The queue was cleared, because there is no socket. -/
  closed : Bool
  sent : List (List UInt8)
  log : List (ℕ × List UInt8)
  deriving DecidableEq

inductive Event where
  | push (msg : List UInt8) | take | drained | clear | accept | refuse
  | complete (bytes : ℕ) (ok : Bool) | lose | advance
  deriving DecidableEq

def Pipe.step (p : Pipe) (e : Event) : Option Pipe :=
  match e, p.phase, p.queue with
  | .push msg, _, _ => some { p with queue := p.queue ++ [⟨p.sent.length, msg, 0⟩], sent := p.sent ++ [msg] }
  | .take, .idle, _ => some { p with phase := .kick }
  | .drained, .kick, [] => some { p with phase := .idle }
  | .clear, .kick, _ => some { p with queue := [], phase := .idle, closed := true }
  | .accept, .kick, it :: _ => if p.closed = true then none else some { p with phase := .out it }
  | .refuse, .kick, _ :: queue => some { p with queue := queue, phase := .idle }
  | .complete bytes ok, .out it, _ =>
    if bytes ≤ it.len then
      some { p with phase := .complete it bytes ok, log := p.log ++ [(it.num, it.buffer.take bytes)] }
    else none
  | .lose, .complete _ _ false, _ => some { p with phase := .lost }
  | .advance, .complete _ bytes true, it :: queue =>
    if it.off + bytes < it.data.length then
      some { p with queue := { it with off := it.off + bytes } :: queue, phase := .kick }
    else some { p with queue := queue, phase := if queue = [] then .idle else .kick }
  | _, _, _ => none

/-- The pipe, from its first message on. -/
def pipe : System Pipe Event where
  init p := p = ⟨[], .idle, false, [], []⟩
  step := Pipe.step

variable {p p' : Pipe} {e : Event} {it it' : SendItem} {queue : List SendItem}

/-- All that a step can do. -/
theorem Pipe.step_cases (h : p.step e = some p') :
    (∃ msg, e = .push msg ∧
      p' = { p with queue := p.queue ++ [⟨p.sent.length, msg, 0⟩], sent := p.sent ++ [msg] }) ∨
    (e = .take ∧ p.phase = .idle ∧ p' = { p with phase := .kick }) ∨
    (e = .drained ∧ p.phase = .kick ∧ p.queue = [] ∧ p' = { p with phase := .idle }) ∨
    (e = .clear ∧ p.phase = .kick ∧ p' = { p with queue := [], phase := .idle, closed := true }) ∨
    (∃ it queue, e = .accept ∧ p.phase = .kick ∧ p.queue = it :: queue ∧ p.closed = false ∧
      p' = { p with phase := .out it }) ∨
    (∃ it queue, e = .refuse ∧ p.phase = .kick ∧ p.queue = it :: queue ∧
      p' = { p with queue := queue, phase := .idle }) ∨
    (∃ it bytes ok, e = .complete bytes ok ∧ p.phase = .out it ∧ bytes ≤ it.len ∧
      p' = { p with phase := .complete it bytes ok, log := p.log ++ [(it.num, it.buffer.take bytes)] }) ∨
    (∃ it bytes, e = .lose ∧ p.phase = .complete it bytes false ∧ p' = { p with phase := .lost }) ∨
    (∃ it bytes it' queue, e = .advance ∧ p.phase = .complete it bytes true ∧ p.queue = it' :: queue ∧
      (it'.off + bytes < it'.data.length ∧
          p' = { p with queue := { it' with off := it'.off + bytes } :: queue, phase := .kick } ∨
        it'.data.length ≤ it'.off + bytes ∧
          p' = { p with queue := queue, phase := if queue = [] then .idle else .kick })) := by
  unfold Pipe.step at h
  split at h
  · exact .inl ⟨_, rfl, (Option.some.inj h).symm⟩
  · exact .inr (.inl ⟨rfl, ‹_›, (Option.some.inj h).symm⟩)
  · exact .inr (.inr (.inl ⟨rfl, ‹_›, ‹_›, (Option.some.inj h).symm⟩))
  · exact .inr (.inr (.inr (.inl ⟨rfl, ‹_›, (Option.some.inj h).symm⟩)))
  · split at h
    · cases h
    next hclosed =>
      exact .inr (.inr (.inr (.inr (.inl ⟨_, _, rfl, ‹_›, ‹_›, by simpa using hclosed, (Option.some.inj h).symm⟩))))
  · exact .inr (.inr (.inr (.inr (.inr (.inl ⟨_, _, rfl, ‹_›, ‹_›, (Option.some.inj h).symm⟩)))))
  · split at h
    next hle =>
      exact .inr (.inr (.inr (.inr (.inr (.inr (.inl ⟨_, _, _, rfl, ‹_›, hle, (Option.some.inj h).symm⟩))))))
    · cases h
  · exact .inr (.inr (.inr (.inr (.inr (.inr (.inr (.inl ⟨_, _, rfl, ‹_›, (Option.some.inj h).symm⟩)))))))
  · refine .inr (.inr (.inr (.inr (.inr (.inr (.inr (.inr ⟨_, _, _, _, rfl, ‹_›, ‹_›, ?_⟩)))))))
    split at h
    next hlt => exact .inl ⟨hlt, (Option.some.inj h).symm⟩
    next hge => exact .inr ⟨Nat.le_of_not_lt hge, (Option.some.inj h).symm⟩
  · cases h

/-! ## The front item -/

/-- The items are numbered messages, and the one that is submitted is the front one. -/
structure Sound (p : Pipe) : Prop where
  increasing : p.queue.Pairwise fun a b => a.num < b.num
  known : ∀ it ∈ p.queue, p.sent[it.num]? = some it.data ∧ it.off ≤ it.data.length
  fresh : ∀ it ∈ p.queue.tail, it.off = 0
  front : ∀ it, p.phase.item = some it → p.queue.head? = some it
  bytes : ∀ it bytes ok, p.phase = .complete it bytes ok → bytes ≤ it.len

theorem Sound.num_lt (h : Sound p) (hit : it ∈ p.queue) : it.num < p.sent.length :=
  (List.getElem?_eq_some_iff.1 (h.known it hit).1).1

theorem Sound.complete_front {bytes : ℕ} {ok : Bool} (h : Sound p) (hphase : p.phase = .complete it bytes ok)
    (hq : p.queue = it' :: queue) : it = it' := by
  have hhead := h.front it (by rw [hphase]; rfl)
  rw [hq] at hhead
  exact (Option.some.inj hhead).symm

/-- The front item is gone. -/
theorem Sound.pop (h : Sound p) (hq : p.queue = it :: queue) {phase : Phase} (hitem : phase.item = none) :
    Sound { p with queue := queue, phase := phase } := by
  obtain ⟨hinc, hknown, hfresh, -, -⟩ := h
  rw [hq] at hinc hknown hfresh
  refine ⟨(List.pairwise_cons.1 hinc).2, fun it' hit' => hknown it' (List.mem_cons_of_mem _ hit'),
    fun it' hit' => hfresh it' (List.mem_of_mem_tail hit'), ?_, ?_⟩
  · rintro it' hit'
    rw [hitem] at hit'
    cases hit'
  · rintro it' bytes ok rfl
    cases hitem

theorem Sound.phase (h : Sound p) {phase : Phase} (hitem : phase.item = none) : Sound { p with phase := phase } := by
  refine ⟨h.increasing, h.known, h.fresh, ?_, ?_⟩
  · rintro it hit
    rw [hitem] at hit
    cases hit
  · rintro it bytes ok rfl
    cases hitem

theorem Sound.push (h : Sound p) (msg : List UInt8) :
    Sound { p with queue := p.queue ++ [⟨p.sent.length, msg, 0⟩], sent := p.sent ++ [msg] } := by
  obtain ⟨hinc, hknown, hfresh, hfront, hbytes⟩ := h
  refine ⟨?_, fun it hit => ?_, fun it hit => ?_, fun it hit => ?_, hbytes⟩
  · refine List.pairwise_append.2 ⟨hinc, List.pairwise_singleton _ _, fun a ha b hb => ?_⟩
    rw [List.mem_singleton.1 hb]
    exact (List.getElem?_eq_some_iff.1 (hknown a ha).1).1
  · rcases List.mem_append.1 hit with hit | hit
    · obtain ⟨hdata, hoff⟩ := hknown it hit
      exact ⟨by rw [List.getElem?_append_left (List.getElem?_eq_some_iff.1 hdata).1, hdata], hoff⟩
    · rw [List.mem_singleton.1 hit]
      exact ⟨by simp, Nat.zero_le _⟩
  · cases hq : p.queue with
    | nil => simp [hq] at hit
    | cons it' queue =>
      simp only [hq, List.cons_append, List.tail_cons, List.mem_append, List.mem_singleton] at hit
      rcases hit with hit | rfl
      · exact hfresh it (by rw [hq]; exact hit)
      · rfl
  · have hhead := hfront it hit
    cases hq : p.queue with
    | nil => simp [hq] at hhead
    | cons it' queue => simpa [hq] using hhead

theorem Sound.step (h : Sound p) (hst : p.step e = some p') : Sound p' := by
  rcases Pipe.step_cases hst with ⟨msg, -, rfl⟩ | ⟨-, -, rfl⟩ | ⟨-, -, -, rfl⟩ | ⟨-, -, rfl⟩ |
    ⟨it, queue, -, -, hq, -, rfl⟩ | ⟨it, queue, -, -, hq, rfl⟩ | ⟨it, bytes, ok, -, hphase, hle, rfl⟩ |
    ⟨it, bytes, -, -, rfl⟩ | ⟨it, bytes, it', queue, -, hphase, hq, ⟨hlt, rfl⟩ | ⟨-, rfl⟩⟩
  · exact h.push msg
  · exact h.phase rfl
  · exact h.phase rfl
  · exact ⟨List.Pairwise.nil, by simp, by simp, by simp [Phase.item], by simp⟩
  · refine ⟨h.increasing, h.known, h.fresh, ?_, by simp⟩
    rintro it' hit'
    cases hit'
    simp [hq]
  · exact h.pop hq rfl
  · refine ⟨h.increasing, h.known, h.fresh, fun it' hit' => ?_, ?_⟩
    · cases hit'
      exact h.front it (by rw [hphase]; rfl)
    · rintro it' bytes' ok' heq
      cases heq
      exact hle
  · exact h.phase rfl
  · obtain ⟨hinc, hknown, hfresh, -, -⟩ := h
    rw [hq] at hinc hknown hfresh
    refine ⟨?_, fun it'' hit => ?_, hfresh, by simp [Phase.item], by simp⟩
    · exact List.pairwise_cons.2 (List.pairwise_cons.1 hinc)
    · rcases List.mem_cons.1 hit with rfl | hit
      · exact ⟨(hknown it' List.mem_cons_self).1, Nat.le_of_lt hlt⟩
      · exact hknown it'' (List.mem_cons_of_mem _ hit)
  · refine h.pop hq ?_
    split <;> rfl

theorem sound_of_reach (h : pipe.Reachable p) : Sound p := by
  refine h.invariant Sound ?_ fun p e p' _ hp _ hst => hp.step hst
  rintro p rfl
  exact ⟨List.Pairwise.nil, by simp, by simp, by simp [Phase.item], by simp⟩

/-- Only the front item has gone out in part. -/
theorem Sound.bytes_eq_zero (h : Sound p) (hq : p.queue = []) : p.phase.bytes = 0 := by
  cases hphase : p.phase with
  | complete it bytes ok =>
    have hhead := h.front it (by rw [hphase]; rfl)
    simp [hq] at hhead
  | _ => rfl

/-! ## The end -/

/-- Nothing goes out any more. -/
def Halted (p : Pipe) : Prop := p.phase = .lost ∨ p.closed = true ∧ (p.phase = .idle ∨ p.phase = .kick)

theorem Halted.step (h : Halted p) (hst : p.step e = some p') :
    Halted p' ∧ p'.log = p.log ∧ ∃ more, p'.sent = p.sent ++ more := by
  have hsame : ∃ more, p.sent = p.sent ++ more := ⟨[], (List.append_nil _).symm⟩
  rcases Pipe.step_cases hst with ⟨msg, -, rfl⟩ | ⟨-, hphase, rfl⟩ | ⟨-, hphase, -, rfl⟩ | ⟨-, hphase, rfl⟩ |
    ⟨it, queue, -, hphase, -, hopen, rfl⟩ | ⟨it, queue, -, hphase, -, rfl⟩ | ⟨it, bytes, ok, -, hphase, -, rfl⟩ |
    ⟨it, bytes, -, hphase, rfl⟩ | ⟨it, bytes, it', queue, -, hphase, -, -⟩
  · exact ⟨h, rfl, [msg], rfl⟩
  all_goals simp only [Halted, hphase, reduceCtorEq, false_or, or_false, or_true, and_true, and_false] at h
  · exact ⟨.inr ⟨h, .inr rfl⟩, rfl, hsame⟩
  · exact ⟨.inr ⟨h, .inl rfl⟩, rfl, hsame⟩
  · exact ⟨.inr ⟨rfl, .inl rfl⟩, rfl, hsame⟩
  · rw [hopen] at h
    cases h
  · exact ⟨.inr ⟨h, .inl rfl⟩, rfl, hsame⟩

/-! ## Nothing is lost -/

/-- What has not gone out yet. -/
def Pipe.unsent (p : Pipe) : List UInt8 :=
  match p.queue with
  | [] => []
  | it :: queue => it.data.drop (it.off + p.phase.bytes) ++ queue.flatMap SendItem.data

/-- What has gone out and what has not are the messages. -/
def Flat (p : Pipe) : Prop := p.log.flatMap (·.2) ++ p.unsent = p.sent.flatten

theorem Flat.phase (h : Flat p) {phase : Phase} (hbytes : phase.bytes = p.phase.bytes) :
    Flat { p with phase := phase } := by
  unfold Flat Pipe.unsent at h ⊢
  rw [hbytes]
  exact h

theorem Flat.push (h : Flat p) (hp : Sound p) (msg : List UInt8) :
    Flat { p with queue := p.queue ++ [⟨p.sent.length, msg, 0⟩], sent := p.sent ++ [msg] } := by
  unfold Flat Pipe.unsent at h ⊢
  rw [List.flatten_append, ← h, List.flatten_singleton, List.append_assoc]
  cases hq : p.queue with
  | nil => simp [hp.bytes_eq_zero hq]
  | cons it queue => simp

/-- The bytes of a completion are the next ones of the item. -/
theorem SendItem.take_buffer {bytes : ℕ} (hle : bytes ≤ it.len) :
    it.buffer.take bytes = (it.data.drop it.off).take bytes := by
  rw [SendItem.buffer, List.take_take, Nat.min_eq_left hle]

theorem Flat.complete {bytes : ℕ} {ok : Bool} (h : Flat p) (hp : Sound p) (hphase : p.phase = .out it)
    (hle : bytes ≤ it.len) :
    Flat { p with phase := .complete it bytes ok, log := p.log ++ [(it.num, it.buffer.take bytes)] } := by
  obtain ⟨queue, hq⟩ := List.head?_eq_some_iff.1 (hp.front it (by rw [hphase]; rfl))
  unfold Flat Pipe.unsent at h ⊢
  simp only [hq, hphase, Phase.bytes, Nat.add_zero] at h ⊢
  rw [← h, List.flatMap_append, List.flatMap_singleton, SendItem.take_buffer hle, ← List.drop_drop, List.append_assoc,
    ← List.append_assoc (List.take _ _), List.take_append_drop]

theorem Flat.advance {bytes : ℕ} {ok : Bool} (h : Flat p) (hphase : p.phase = .complete it bytes ok)
    (hq : p.queue = it :: queue) :
    Flat { p with queue := { it with off := it.off + bytes } :: queue, phase := .kick } := by
  unfold Flat Pipe.unsent at h ⊢
  simpa [hq, hphase, Phase.bytes] using h

/-- The front item has gone out. -/
theorem Flat.pop {bytes : ℕ} {ok : Bool} {phase : Phase} (h : Flat p) (hp : Sound p)
    (hphase : p.phase = .complete it bytes ok) (hq : p.queue = it :: queue) (hge : it.data.length ≤ it.off + bytes)
    (hbytes : phase.bytes = 0) : Flat { p with queue := queue, phase := phase } := by
  unfold Flat Pipe.unsent at h ⊢
  simp only [hq, hphase, Phase.bytes] at h
  rw [List.drop_eq_nil_iff.2 hge, List.nil_append] at h
  rw [← h]
  cases hqueue : queue with
  | nil => rfl
  | cons it₂ queue₂ =>
    have hfresh : it₂.off = 0 := hp.fresh it₂ (by rw [hq, hqueue]; exact List.mem_cons_self)
    simp only [hbytes, hfresh, Nat.add_zero, List.drop_zero, List.flatMap_cons]

/-- One step, if it is not a `WSASend` that fails. -/
theorem Flat.step (h : Flat p) (hp : Sound p) (he : e ≠ .refuse) (hst : p.step e = some p') :
    Flat p' ∨ Halted p' ∧ p'.log = p.log ∧ p'.sent = p.sent := by
  rcases Pipe.step_cases hst with ⟨msg, -, rfl⟩ | ⟨-, hphase, rfl⟩ | ⟨-, hphase, -, rfl⟩ | ⟨-, hphase, rfl⟩ |
    ⟨it, queue, -, hphase, -, -, rfl⟩ | ⟨it, queue, rfl, -, -, -⟩ | ⟨it, bytes, ok, -, hphase, hle, rfl⟩ |
    ⟨it, bytes, -, -, rfl⟩ | ⟨it, bytes, it', queue, -, hphase, hq, ⟨-, rfl⟩ | ⟨hge, rfl⟩⟩
  · exact .inl (h.push hp msg)
  · exact .inl (h.phase (by rw [hphase]; rfl))
  · exact .inl (h.phase (by rw [hphase]; rfl))
  · exact .inr ⟨.inr ⟨rfl, .inl rfl⟩, rfl, rfl⟩
  · exact .inl (h.phase (by rw [hphase]; rfl))
  · exact absurd rfl he
  · exact .inl (h.complete hp hphase hle)
  · exact .inr ⟨.inl rfl, rfl, rfl⟩
  · obtain rfl := hp.complete_front hphase hq
    exact .inl (h.advance hphase hq)
  · obtain rfl := hp.complete_front hphase hq
    exact .inl (h.pop hp hphase hq hge (by split <;> rfl))

/-- **What has gone out is the beginning of what was sent**, if no `WSASend` fails. -/
theorem completed_prefix (h : pipe.Reach (fun _ e => e ≠ .refuse) p) : p.log.flatMap (·.2) <+: p.sent.flatten := by
  have hinv : Flat p ∨ Halted p ∧ p.log.flatMap (·.2) <+: p.sent.flatten := by
    refine h.invariant (fun p => Flat p ∨ Halted p ∧ p.log.flatMap (·.2) <+: p.sent.flatten) ?_ ?_
    · rintro p rfl
      exact .inl rfl
    · rintro p e p' hr hp he hst
      rcases hp with hflat | ⟨hhalted, hlog⟩
      · rcases hflat.step (sound_of_reach (hr.mono fun _ _ _ => trivial)) he hst with h | ⟨h, hlog, hsent⟩
        · exact .inl h
        · refine .inr ⟨h, ?_⟩
          rw [hlog, hsent]
          exact ⟨p.unsent, hflat⟩
      · obtain ⟨h, hsame, more, hsent⟩ := hhalted.step hst
        refine .inr ⟨h, ?_⟩
        rw [hsame, hsent, List.flatten_append]
        exact hlog.trans (List.prefix_append _ _)
  rcases hinv with hflat | ⟨-, hlog⟩
  · exact ⟨p.unsent, hflat⟩
  · exact hlog

/-! ## The stream is not torn -/

/-- Each message has gone out whole or not at all, apart from the front one. -/
structure Logged (p : Pipe) : Prop where
  order : p.log.Pairwise fun a b => a.1 ≤ b.1
  known : ∀ a ∈ p.log, a.1 < p.sent.length
  bound : ∀ a ∈ p.log, ∀ it ∈ p.queue, a.1 ≤ it.num
  front : ∀ it, p.queue.head? = some it → pieces p.log it.num = it.data.take (it.off + p.phase.bytes)
  past : ∀ i, (∀ it ∈ p.queue, it.num ≠ i) → pieces p.log i = [] ∨ pieces p.log i = p.sent.getD i []

/-- The items behind the front one have not been touched. -/
theorem Logged.later (h : Logged p) (hp : Sound p) (hq : p.queue = it :: queue) (hit : it' ∈ queue) :
    pieces p.log it'.num = [] := by
  refine pieces_eq_nil fun a ha heq => ?_
  have hbound := h.bound a ha it (by rw [hq]; exact List.mem_cons_self)
  have hinc := hp.increasing
  rw [hq] at hinc
  have hlt := (List.pairwise_cons.1 hinc).1 it' hit
  omega

theorem Sound.getD (h : Sound p) (hit : it ∈ p.queue) : p.sent.getD it.num [] = it.data := by
  rw [List.getD_eq_getElem?_getD, (h.known it hit).1, Option.getD_some]

theorem Logged.untorn_log (h : Logged p) (hp : Sound p) : Untorn p.sent p.log := by
  refine ⟨h.order, h.known, fun i => ?_, fun i j hij hi hj => ?_⟩
  · by_cases hin : ∃ it ∈ p.queue, it.num = i
    · obtain ⟨it, hit, rfl⟩ := hin
      rw [hp.getD hit]
      cases hq : p.queue with
      | nil => simp [hq] at hit
      | cons it' queue =>
        rw [hq] at hit
        rcases List.mem_cons.1 hit with rfl | hit
        · rw [h.front it (by rw [hq]; rfl)]
          exact List.take_prefix _ _
        · rw [h.later hp hq hit]
          exact List.nil_prefix
    · push Not at hin
      rcases h.past i hin with hnil | hall
      · rw [hnil]
        exact List.nil_prefix
      · exact hall ▸ List.prefix_rfl
  · obtain ⟨a, ha, rfl⟩ := mem_of_pieces hj
    refine (h.past i fun it hit heq => ?_).resolve_left hi
    have := h.bound a ha it hit
    omega

theorem Logged.phase (h : Logged p) {phase : Phase} (hbytes : phase.bytes = p.phase.bytes) :
    Logged { p with phase := phase } := by
  refine ⟨h.order, h.known, h.bound, fun it hit => ?_, h.past⟩
  rw [hbytes]
  exact h.front it hit

theorem Logged.push (h : Logged p) (hp : Sound p) (msg : List UInt8) :
    Logged { p with queue := p.queue ++ [⟨p.sent.length, msg, 0⟩], sent := p.sent ++ [msg] } := by
  have hnew : pieces p.log p.sent.length = [] := pieces_eq_nil fun a ha => Nat.ne_of_lt (h.known a ha)
  refine ⟨h.order, fun a ha => ?_, fun a ha it hit => ?_, fun it hit => ?_, fun i hi => ?_⟩
  · rw [List.length_append]
    exact Nat.lt_add_right _ (h.known a ha)
  · rcases List.mem_append.1 hit with hit | hit
    · exact h.bound a ha it hit
    · rw [List.mem_singleton.1 hit]
      exact Nat.le_of_lt (h.known a ha)
  · cases hq : p.queue with
    | nil =>
      simp only [hq, List.nil_append, List.head?_cons, Option.some.injEq] at hit
      subst hit
      simp only [hp.bytes_eq_zero hq, Nat.add_zero, List.take_zero, hnew]
    | cons it' queue =>
      simp only [hq, List.cons_append, List.head?_cons, Option.some.injEq] at hit
      subst hit
      exact h.front _ (by rw [hq]; rfl)
  · have hpast := h.past i fun it hit => hi it (List.mem_append_left _ hit)
    by_cases hlt : i < p.sent.length
    · rwa [List.getD_append _ _ _ _ hlt]
    · refine .inl (pieces_eq_nil fun a ha => ?_)
      have := h.known a ha
      omega

theorem Logged.complete {bytes : ℕ} {ok : Bool} (h : Logged p) (hp : Sound p) (hphase : p.phase = .out it)
    (hle : bytes ≤ it.len) :
    Logged { p with phase := .complete it bytes ok, log := p.log ++ [(it.num, it.buffer.take bytes)] } := by
  have hhead := hp.front it (by rw [hphase]; rfl)
  obtain ⟨queue, hq⟩ := List.head?_eq_some_iff.1 hhead
  have hit : it ∈ p.queue := by
    rw [hq]
    exact List.mem_cons_self
  have hfirst : ∀ it' ∈ p.queue, it.num ≤ it'.num := by
    intro it' hit'
    have hinc := hp.increasing
    rw [hq] at hinc hit'
    rcases List.mem_cons.1 hit' with rfl | hit'
    · exact Nat.le_refl _
    · exact Nat.le_of_lt ((List.pairwise_cons.1 hinc).1 it' hit')
  refine ⟨?_, fun a ha => ?_, fun a ha => ?_, fun it' hit' => ?_, fun i hi => ?_⟩
  · refine List.pairwise_append.2 ⟨h.order, List.pairwise_singleton _ _, fun a ha b hb => ?_⟩
    rw [List.mem_singleton.1 hb]
    exact h.bound a ha it hit
  · rcases List.mem_append.1 ha with ha | ha
    · exact h.known a ha
    · rw [List.mem_singleton.1 ha]
      exact hp.num_lt hit
  · rcases List.mem_append.1 ha with ha | ha
    · exact h.bound a ha
    · rw [List.mem_singleton.1 ha]
      exact hfirst
  · obtain rfl : it = it' := Option.some.inj (hhead.symm.trans hit')
    have hfront := h.front it hhead
    rw [hphase, Phase.bytes, Nat.add_zero] at hfront
    rw [pieces_concat_self, hfront, SendItem.take_buffer hle, ← List.take_add]
    rfl
  · rw [pieces_concat_other _ _ (Ne.symm (hi it hit))]
    exact h.past i hi

theorem Logged.advance {bytes : ℕ} {ok : Bool} (h : Logged p) (hphase : p.phase = .complete it bytes ok)
    (hq : p.queue = it :: queue) :
    Logged { p with queue := { it with off := it.off + bytes } :: queue, phase := .kick } := by
  obtain ⟨horder, hknown, hbound, hfront, hpast⟩ := h
  rw [hq] at hbound hpast
  refine ⟨horder, hknown, fun a ha it' hit' => ?_, fun it' hit' => ?_, fun i hi => hpast i fun it' hit' => ?_⟩
  · rcases List.mem_cons.1 hit' with rfl | hit'
    · exact hbound a ha it List.mem_cons_self
    · exact hbound a ha it' (List.mem_cons_of_mem _ hit')
  · obtain rfl := Option.some.inj hit'
    have := hfront it (by rw [hq]; rfl)
    rwa [hphase] at this
  · rcases List.mem_cons.1 hit' with rfl | hit'
    · exact hi { it' with off := it'.off + bytes } List.mem_cons_self
    · exact hi it' (List.mem_cons_of_mem _ hit')

/-- The front item is removed: nothing or all of it has gone out. -/
theorem Logged.pop {phase : Phase} (h : Logged p) (hp : Sound p) (hq : p.queue = it :: queue)
    (hwhole : pieces p.log it.num = [] ∨ pieces p.log it.num = it.data) (hbytes : phase.bytes = 0) :
    Logged { p with queue := queue, phase := phase } := by
  have hmem : ∀ {it'}, it' ∈ queue → it' ∈ p.queue := by
    intro it' hit'
    rw [hq]
    exact List.mem_cons_of_mem _ hit'
  refine ⟨h.order, h.known, fun a ha it' hit' => h.bound a ha it' (hmem hit'), fun it' hit' => ?_, fun i hi => ?_⟩
  · obtain ⟨rest, hqueue⟩ := List.head?_eq_some_iff.1 hit'
    have hin : it' ∈ queue := by
      rw [show queue = it' :: rest from hqueue]
      exact List.mem_cons_self
    rw [h.later hp hq hin, hp.fresh it' (by rw [hq]; exact hin), hbytes, List.take_zero]
  · by_cases hit : it.num = i
    · subst hit
      rwa [hp.getD (by rw [hq]; exact List.mem_cons_self)]
    · refine h.past i fun it' hit' => ?_
      rw [hq] at hit'
      rcases List.mem_cons.1 hit' with rfl | hit'
      · exact hit
      · exact hi it' hit'

/-- A `WSASend` fails only for an item of which nothing has gone out. -/
def RefusesWhole (p : Pipe) (e : Event) : Prop := e = .refuse → ∀ it ∈ p.queue.head?, it.off = 0

theorem Logged.step (h : Logged p) (hp : Sound p) (he : RefusesWhole p e) (hst : p.step e = some p') :
    Logged p' ∨ Halted p' ∧ p'.log = p.log ∧ p'.sent = p.sent := by
  rcases Pipe.step_cases hst with ⟨msg, -, rfl⟩ | ⟨-, hphase, rfl⟩ | ⟨-, hphase, -, rfl⟩ | ⟨-, hphase, rfl⟩ |
    ⟨it, queue, -, hphase, -, -, rfl⟩ | ⟨it, queue, hrefuse, hphase, hq, rfl⟩ | ⟨it, bytes, ok, -, hphase, hle, rfl⟩ |
    ⟨it, bytes, -, -, rfl⟩ | ⟨it, bytes, it', queue, -, hphase, hq, ⟨-, rfl⟩ | ⟨hge, rfl⟩⟩
  · exact .inl (h.push hp msg)
  · exact .inl (h.phase (by rw [hphase]; rfl))
  · exact .inl (h.phase (by rw [hphase]; rfl))
  · exact .inr ⟨.inr ⟨rfl, .inl rfl⟩, rfl, rfl⟩
  · exact .inl (h.phase (by rw [hphase]; rfl))
  · have hhead : p.queue.head? = some it := by rw [hq, List.head?_cons]
    refine .inl (h.pop hp hq (.inl ?_) rfl)
    rw [h.front it hhead, he hrefuse it hhead, hphase]
    rfl
  · exact .inl (h.complete hp hphase hle)
  · exact .inr ⟨.inl rfl, rfl, rfl⟩
  · obtain rfl := hp.complete_front hphase hq
    exact .inl (h.advance hphase hq)
  · obtain rfl := hp.complete_front hphase hq
    refine .inl (h.pop hp hq (.inr ?_) (by split <;> rfl))
    rw [h.front it (by rw [hq, List.head?_cons]), hphase]
    exact List.take_of_length_le hge

/-- **The stream is not torn**, if a `WSASend` fails only for an item of which nothing has gone out. -/
theorem untorn_of_reach (h : pipe.Reach RefusesWhole p) : Untorn p.sent p.log := by
  have hinv : Logged p ∨ Halted p ∧ Untorn p.sent p.log := by
    refine h.invariant (fun p => Logged p ∨ Halted p ∧ Untorn p.sent p.log) ?_ ?_
    · rintro p rfl
      exact .inl ⟨List.Pairwise.nil, by simp, by simp, by simp, fun i _ => .inl rfl⟩
    · rintro p e p' hr hp he hst
      have hsound := sound_of_reach (hr.mono fun _ _ _ => trivial)
      rcases hp with hlogged | ⟨hhalted, huntorn⟩
      · rcases hlogged.step hsound he hst with h | ⟨h, hlog, hsent⟩
        · exact .inl h
        · refine .inr ⟨h, ?_⟩
          rw [hlog, hsent]
          exact hlogged.untorn_log hsound
      · obtain ⟨h, hsame, more, hsent⟩ := hhalted.step hst
        refine .inr ⟨h, ?_⟩
        rw [hsame, hsent]
        exact huntorn.append more
  rcases hinv with hlogged | ⟨-, huntorn⟩
  · exact hlogged.untorn_log (sound_of_reach (h.mono fun _ _ _ => trivial))
  · exact huntorn

end TcpChat.IocpClient
