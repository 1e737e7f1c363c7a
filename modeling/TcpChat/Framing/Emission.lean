import TcpChat.Framing.Stepwise

/-!
# What a thread that sends frames has written

A thread calls `send_frame` for one message after the other, and never again after a call that has failed.

* `FrameWriter.turn_sent` — one answer of `send` writes the next bytes of the frame;
* `Emitted` — what the thread has handed to `send_frame` and what it has written;
* `Emitted.start`, `Emitted.turn` — the two things that happen to it;
* `Emitted.framed` — whatever is written is the beginning of a sequence of well-formed frames, whose payloads have been
  handed to `send_frame` in that order.
-/

namespace TcpChat.Framing

open TcpChat.Lib

namespace FrameWriter

/-- How many bytes of the frame have been sent. -/
def position : FrameWriter → ℕ
  | .size sent => sent
  | .payload sent => 4 + sent

/-- The bytes of the frame of `p` that have been sent. -/
def sent (p : List UInt8) (w : FrameWriter) : List UInt8 := (frame p).take w.position

variable {p : List UInt8} {w : FrameWriter} {n : ℕ}

/-- What the next `send` is offered are the bytes of the frame that follow. -/
theorem offer_prefix (hp : ValidPayload p) : w.offer p <+: (frame p).drop w.position := by
  cases w with
  | size k =>
    by_cases hk : k ≤ 4
    · rw [offer, position, frame, toUInt32_of_le hp.2, List.drop_append_of_le_length (by simpa using hk)]
      exact (List.take_prefix _ _).trans (List.prefix_append _ _)
    · have h0 : 4 - k = 0 := by omega
      rw [offer, h0, List.take_zero]
      exact List.nil_prefix
  | payload k =>
    have hdrop : (frame p).drop (4 + k) = p.drop k := by
      rw [frame, List.drop_append, length_toBE, Nat.add_sub_cancel_left, List.drop_of_length_le (by simp),
        List.nil_append]
    rw [offer, position, hdrop]
    exact List.take_prefix _ _

/-- **One answer of `send` writes the next bytes of the frame**, and `send_frame` returns `true` with its last byte. -/
theorem turn_sent (hp : ValidPayload p) (hw : w.Open p) (hle : n ≤ (w.offer p).length) :
    match w.turn p (.count n) with
    | .again w' => w'.Open p ∧ w'.sent p = w.sent p ++ (w.offer p).take n
    | .ret ok => ok = true ∧ frame p = w.sent p ++ (w.offer p).take n := by
  have hint : toInt p.length = p.length := toInt_of_le hp.2
  have hnext : w.sent p ++ (w.offer p).take n = (frame p).take (w.position + n) := by
    obtain ⟨rest, hrest⟩ := offer_prefix (w := w) hp
    rw [sent, List.take_add, ← hrest, List.take_append_of_le_length hle]
  rw [hnext]
  cases w with
  | size k =>
    simp only [Open] at hw
    have hlen : n ≤ 4 - k := by simpa [offer] using hle
    simp only [turn_size, hint, position]
    by_cases hmore : k + n < 4
    · simp only [hmore, if_true, Open, sent, position, and_self]
    · have h4 : k + n = 4 := by omega
      have hpos : (0 : ℤ) < p.length := by exact_mod_cast hp.1
      simp only [h4, Nat.lt_irrefl, if_false, hpos, if_true, Open, sent, position, hint, Nat.cast_zero, Nat.add_zero,
        and_self]
  | payload k =>
    have hk : k < p.length := by
      rw [Open, hint] at hw
      exact_mod_cast hw
    have hlen : n ≤ p.length - k := by
      rw [offer, List.length_take, List.length_drop, hint] at hle
      omega
    rw [turn_payload, hint, position]
    by_cases hmore : k + n < p.length
    · rw [if_pos (by exact_mod_cast hmore)]
      refine ⟨?_, by rw [sent, position, Nat.add_assoc]⟩
      rw [Open, hint]
      exact_mod_cast hmore
    · rw [if_neg (by exact_mod_cast hmore)]
      exact ⟨rfl, (List.take_of_length_le (by rw [length_frame]; omega)).symm⟩

end FrameWriter

/-! ## One frame after the other -/

/-- Between two calls of `send_frame`, in one, or after one that has failed. -/
inductive Emitting where
  | idle | frame (msg : List UInt8) (w : FrameWriter) | ended
  deriving DecidableEq

/-- The messages handed to `send_frame` and the bytes written. -/
def Emitted (handed : List (List UInt8)) (wire : List UInt8) : Emitting → Prop
  | .idle => (∀ p ∈ handed, ValidPayload p) ∧ wire = (handed.map frame).flatten
  | .frame msg w => w.Open msg ∧ ∃ done, handed = done ++ [msg] ∧ (∀ p ∈ handed, ValidPayload p) ∧
      wire = (done.map frame).flatten ++ w.sent msg
  | .ended => ∃ ps, ps <+: handed ∧ (∀ p ∈ ps, ValidPayload p) ∧ wire <+: (ps.map frame).flatten

variable {handed : List (List UInt8)} {wire out msg : List UInt8} {e : Emitting} {w : FrameWriter}

theorem emitted_nil : Emitted [] [] .idle := ⟨by simp, rfl⟩

/-- **What has been written is the beginning of well-formed frames**, of messages handed over in this order. -/
theorem Emitted.framed (h : Emitted handed wire e) :
    ∃ ps, ps <+: handed ∧ (∀ p ∈ ps, ValidPayload p) ∧ wire <+: (ps.map frame).flatten := by
  cases e with
  | idle => exact ⟨handed, List.prefix_refl _, h.1, h.2 ▸ List.prefix_refl _⟩
  | frame msg w =>
    obtain ⟨-, done, rfl, hv, rfl⟩ := h
    refine ⟨_, List.prefix_refl _, hv, ?_⟩
    rw [List.map_append, List.flatten_append, List.prefix_append_right_inj]
    simpa [FrameWriter.sent] using List.take_prefix _ _
  | ended => exact h

theorem Emitted.toEnded (h : Emitted handed wire e) : Emitted handed wire .ended := h.framed

/-- `send_frame` is called. -/
theorem Emitted.start (h : Emitted handed wire .idle) (hmsg : msg.length ≤ maxPayload) :
    Emitted (handed ++ [msg]) wire (match FrameWriter.start msg with
      | .again w => .frame msg w
      | .ret true => .idle
      | .ret false => .ended) := by
  obtain ⟨hv, hw⟩ := h
  by_cases hnil : msg = []
  · rw [FrameWriter.start, if_pos hnil]
    exact ⟨handed, List.prefix_append _ _, hv, hw ▸ List.prefix_refl _⟩
  · rw [FrameWriter.start, if_neg hnil]
    have hvalid : ValidPayload msg := ⟨List.length_pos_iff.2 hnil, hmsg⟩
    refine ⟨by simp [FrameWriter.Open], handed, rfl, fun p hp => ?_, ?_⟩
    · rcases List.mem_append.1 hp with hp | hp
      · exact hv p hp
      · exact List.mem_singleton.1 hp ▸ hvalid
    · simp [FrameWriter.sent, FrameWriter.position, hw]

/-- `send` accepts bytes. -/
theorem Emitted.turn {n : ℕ} (h : Emitted handed wire (.frame msg w)) (hle : n ≤ (w.offer msg).length) :
    Emitted handed (wire ++ (w.offer msg).take n) (match w.turn msg (.count n) with
      | .again w' => .frame msg w'
      | .ret true => .idle
      | .ret false => .ended) := by
  obtain ⟨hopen, done, rfl, hv, rfl⟩ := h
  have hsent := FrameWriter.turn_sent (hv msg (by simp)) hopen hle
  cases hturn : w.turn msg (.count n) with
  | again w' =>
    rw [hturn] at hsent
    exact ⟨hsent.1, done, rfl, hv, by rw [hsent.2, List.append_assoc]⟩
  | ret ok =>
    rw [hturn] at hsent
    obtain ⟨rfl, hframe⟩ := hsent
    refine ⟨hv, ?_⟩
    rw [List.append_assoc, ← hframe]
    simp

end TcpChat.Framing
