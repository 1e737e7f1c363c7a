import TcpChat.Framing.Codec

/-!
# `send_frame` and `recv_frame`, one call at a time

Where several threads run, a `recv_frame` or `send_frame` in progress is a state of its own, between one call of
`recv` or `send` and the next: `FrameReader` and `FrameWriter`.  A *turn* is one answer of the socket and the code
up to the next call or the return.

`FrameReader.run_start` and `FrameWriter.run_start` connect them with the functions of `Framing.Codec`: taking
turns until the return is `recvFrame`, and is `sendFrame`.
-/

namespace TcpChat.Framing

open TcpChat.Lib

/-- After an answer: go round again, or return. -/
inductive Turn (σ ρ : Type) where
  | again (s : σ) | ret (r : ρ)
  deriving DecidableEq

/-! ## `recv_frame` -/

/-- Where a call of `recv_frame` stands: the bytes read of the length field, or of the payload of that size. -/
inductive FrameReader where
  | size (read : List UInt8) | payload (size : ℕ) (read : List UInt8)
  deriving DecidableEq

/-- What has been sent so far of a sequence of well-formed frames. -/
def WellFramed (u : List UInt8) : Prop :=
  ∃ ps : List (List UInt8), (∀ p ∈ ps, ValidPayload p) ∧ u <+: (ps.map frame).flatten

theorem wellFramed_nil : WellFramed [] := ⟨[], by simp, by simp⟩

namespace FrameReader

def start : FrameReader := .size []

/-- `len - read` in `recv_all` -/
def wants : FrameReader → ℕ
  | .size read => 4 - read.length
  | .payload n read => n - read.length

/-- One turn of `recv_frame`: `none` is the return value `false`. -/
def turn (r : FrameReader) : RecvResult → Turn FrameReader (Option (List UInt8))
  | .error e => if e.again then .again r else .ret none
  | .closed => .ret none
  | .bytes b =>
    match r with
    | .size read =>
      if (read ++ b).length < 4 then .again (.size (read ++ b))
      else if maxPayload < ofBE (read ++ b) then .ret none
      else if ofBE (read ++ b) = 0 then .ret (some [])
      else .again (.payload (ofBE (read ++ b)) [])
    | .payload n read =>
      if (read ++ b).length < n then .again (.payload n (read ++ b)) else .ret (some (read ++ b))

/-- There is a byte left to ask for. -/
def Open : FrameReader → Prop
  | .size read => read.length < 4
  | .payload n read => read.length < n ∧ n ≤ maxPayload

instance : DecidablePred Open
  | .size _ => inferInstanceAs (Decidable (_ < _))
  | .payload _ _ => inferInstanceAs (Decidable (_ ∧ _))

theorem Open.wants_pos {r : FrameReader} (h : r.Open) : 0 < r.wants := by
  cases r <;> simp only [Open] at h <;> simp only [wants] <;> omega

theorem open_start : start.Open := by simp [start, Open]

theorem open_turn {r r' : FrameReader} (h : r.Open) {x : RecvResult} (ht : r.turn x = .again r') : r'.Open := by
  cases x with
  | error e =>
    simp only [turn] at ht
    split at ht <;> simp at ht
    exact ht ▸ h
  | closed => simp [turn] at ht
  | bytes b =>
    cases r with
    | size read =>
      simp only [turn] at ht
      repeat' split at ht
      all_goals simp at ht
      · subst ht; exact ‹_›
      · subst ht; simp only [Open, List.length_nil]; omega
    | payload n read =>
      simp only [turn] at ht
      split at ht <;> simp at ht
      subst ht
      exact ⟨‹_›, h.2⟩

set_option linter.unusedVariables false in
/-- Turns on the socket `s` until `recv_frame` returns. -/
def run (r : FrameReader) (s : RxSock) : Option (List UInt8) × RxSock :=
  if hr : r.Open then
    match ht : r.turn (s.recv r.wants).1 with
    | .again r' => run r' (s.recv r.wants).2
    | .ret out => (out, (s.recv r.wants).2)
  else (none, s)
termination_by s.sched.length + s.unread.length
decreasing_by
  have hspec := (s.recv_spec hr.wants_pos).2
  rcases hx : s.recv r.wants with ⟨x, s'⟩
  rw [hx] at hspec ht
  cases x with
  | error e =>
    have := congrArg List.length hspec.2.1
    dsimp only at hspec ⊢
    omega
  | closed => simp [turn] at ht
  | bytes b =>
    have hb := List.length_pos_iff.2 hspec.1
    have hlen : s.unread.length = b.length + s'.unread.length := by rw [hspec.2.2.1, List.length_append]
    have := hspec.2.2.2
    dsimp only
    omega

variable {r r' : FrameReader} {s s' : RxSock} {x : RecvResult} {out : Option (List UInt8)}

theorem run_again (hr : r.Open) (hx : s.recv r.wants = (x, s')) (ht : r.turn x = .again r') :
    run r s = run r' s' := by
  rw [run, dif_pos hr]
  split
  · rename_i h; rw [hx, ht] at h; cases h; rw [hx]
  · rename_i h; rw [hx, ht] at h; cases h

theorem run_ret (hr : r.Open) (hx : s.recv r.wants = (x, s')) (ht : r.turn x = .ret out) :
    run r s = (out, s') := by
  rw [run, dif_pos hr]
  split
  · rename_i h; rw [hx, ht] at h; cases h
  · rename_i h; rw [hx, ht] at h; cases h; rw [hx]

/-- What `recv_frame` does with the result of its second `recv_all`. -/
def afterPayload : Bool × List UInt8 × RxSock → Option (List UInt8) × RxSock
  | (false, _, s) => (none, s)
  | (true, data, s) => (some data, s)

theorem run_payload (s : RxSock) (n : ℕ) (read : List UInt8) (h : read.length < n) (hn : n ≤ maxPayload) :
    run (.payload n read) s = afterPayload (recvAll s n read) := by
  have hopen : (FrameReader.payload n read).Open := ⟨h, hn⟩
  fun_induction recvAll s n read with
  | case1 s read hlt e s' hx he ih =>
    rw [run_again hopen hx (if_pos he)]
    exact ih h hopen
  | case2 s read hlt e s' hx he =>
    rw [run_ret hopen hx (if_neg he)]
    rfl
  | case3 s read hlt s' hx =>
    rw [run_ret hopen hx rfl]
    rfl
  | case4 s read hlt b s' hx ih =>
    by_cases hmore : (read ++ b).length < n
    · rw [run_again hopen hx (if_pos hmore)]
      exact ih hmore ⟨hmore, hn⟩
    · rw [run_ret hopen hx (if_neg hmore), recvAll, dif_neg hmore]
      rfl
  | case5 s read hlt => exact absurd h hlt

/-- What `recv_frame` does with the result of its first `recv_all`. -/
def afterSize : Bool × List UInt8 × RxSock → Option (List UInt8) × RxSock
  | (false, _, s) => (none, s)
  | (true, nsize, s) =>
    if maxPayload < ofBE nsize then (none, s)
    else if ofBE nsize = 0 then (some [], s)
    else afterPayload (recvAll s (ofBE nsize) [])

theorem run_size (s : RxSock) (read : List UInt8) (h : read.length < 4) :
    run (.size read) s = afterSize (recvAll s 4 read) := by
  have hopen : (FrameReader.size read).Open := h
  fun_induction recvAll s 4 read with
  | case1 s read hlt e s' hx he ih =>
    rw [run_again hopen hx (if_pos he)]
    exact ih h hopen
  | case2 s read hlt e s' hx he =>
    rw [run_ret hopen hx (if_neg he)]
    rfl
  | case3 s read hlt s' hx =>
    rw [run_ret hopen hx rfl]
    rfl
  | case4 s read hlt b s' hx ih =>
    by_cases hmore : (read ++ b).length < 4
    · rw [run_again hopen hx (if_pos hmore)]
      exact ih hmore hmore
    · rw [recvAll, dif_neg hmore, afterSize]
      by_cases hmax : maxPayload < ofBE (read ++ b)
      · rw [run_ret hopen hx ((if_neg hmore).trans (if_pos hmax)), if_pos hmax]
      · by_cases h0 : ofBE (read ++ b) = 0
        · rw [run_ret hopen hx ((if_neg hmore).trans ((if_neg hmax).trans (if_pos h0))), if_neg hmax,
            if_pos h0]
        · rw [run_again hopen hx ((if_neg hmore).trans ((if_neg hmax).trans (if_neg h0))), if_neg hmax, if_neg h0]
          exact run_payload s' _ _ (by simpa using Nat.pos_of_ne_zero h0) (Nat.le_of_not_lt hmax)
  | case5 s read hlt => exact absurd h hlt

/-- **Turns are `recv_frame`.** -/
theorem run_start (s : RxSock) :
    (run start s).1 = (if (recvFrame s).1 = true then some (recvFrame s).2.1 else none) ∧
      (run start s).2 = (recvFrame s).2.2 := by
  rw [start, run_size s [] (by simp)]
  unfold recvFrame
  generalize recvAll s 4 [] = r
  obtain ⟨_ | _, nsize, s'⟩ := r
  · simp [afterSize]
  · dsimp only [afterSize]
    by_cases hmax : maxPayload < ofBE nsize
    · simp [hmax]
    · by_cases h0 : ofBE nsize = 0
      · simp [h0]
      · have hlen := recvAll_length s' (ofBE nsize) [] (Nat.zero_le _)
        simp only [hmax, h0, if_false]
        generalize recvAll s' (ofBE nsize) [] = r at *
        obtain ⟨_ | _, data, s''⟩ := r
        · simp [afterPayload]
        · simp [afterPayload, hlen]

/-! ### On a well-formed stream -/

/-- The bytes of the current frame that have been read. -/
def consumed : FrameReader → List UInt8
  | .size read => read
  | .payload n read => toBE 4 n ++ read

/-- **On a sequence of well-formed frames `recv_frame` never fails**: what it returns is the first payload, and what
stays unread are the frames of the others. -/
theorem turn_frames {r : FrameReader} {b rest : List UInt8} {ps : List (List UInt8)} (hr : r.Open) (hb : b ≠ [])
    (hle : b.length ≤ r.wants) (hps : ∀ p ∈ ps, ValidPayload p)
    (hu : r.consumed ++ (b ++ rest) = (ps.map frame).flatten) :
    match r.turn (.bytes b) with
    | .again r' => r'.consumed ++ rest = (ps.map frame).flatten
    | .ret (some msg) => ∃ qs, ps = msg :: qs ∧ rest = (qs.map frame).flatten
    | .ret none => False := by
  obtain _ | ⟨p, ps⟩ := ps
  · simp [hb] at hu
  have hp := hps p (by simp)
  have hp4 : p.length < 256 ^ 4 := by have := hp.2; unfold maxPayload at this; omega
  have hp0 : p ≠ [] := List.length_pos_iff.1 hp.1
  rw [List.map_cons, List.flatten_cons, frame, List.append_assoc (toBE 4 p.length)] at hu
  cases r with
  | size read =>
    simp only [Open] at hr
    simp only [wants] at hle
    simp only [consumed, ← List.append_assoc read] at hu
    by_cases hmore : (read ++ b).length < 4
    · simp only [turn, hmore, if_true, consumed]
      simpa [frame] using hu
    · -- The length field is that of the frame of `p`.
      obtain ⟨hsize, hrest⟩ := List.append_inj hu (by simp at hmore ⊢; omega)
      have hlen : ofBE (read ++ b) = p.length := by rw [hsize, ofBE_toBE_of_lt hp4]
      have hmax : ¬ maxPayload < p.length := Nat.not_lt.2 hp.2
      simp only [turn, hmore, if_false, hlen, hmax, List.length_eq_zero_iff, hp0, consumed]
      simp [frame, hrest]
  | payload n read =>
    simp only [Open] at hr
    simp only [wants] at hle
    simp only [consumed, List.append_assoc] at hu
    obtain ⟨hsize, hrest⟩ := List.append_inj hu (by simp)
    have hn : n = p.length := by
      rw [← ofBE_toBE_of_lt (k := 4) (n := n) (by have := hr.2; unfold maxPayload at this; omega), hsize,
        ofBE_toBE_of_lt hp4]
    by_cases hmore : (read ++ b).length < n
    · simp only [turn, hmore, if_true, consumed]
      simpa [frame, hn] using hrest
    · -- The payload is complete.
      rw [← List.append_assoc read] at hrest
      obtain ⟨hread, hrest⟩ := List.append_inj hrest (by simp at hmore ⊢; omega)
      rw [hread] at hmore
      simp only [turn, hread, hmore, if_false]
      exact ⟨ps, rfl, hrest⟩

/-- The same on a stream of well-formed frames of which a part has been sent. -/
theorem turn_wellFramed {r : FrameReader} {b rest : List UInt8} (hr : r.Open) (hb : b ≠ [])
    (hle : b.length ≤ r.wants) (hu : WellFramed (r.consumed ++ (b ++ rest))) :
    match r.turn (.bytes b) with
    | .again r' => WellFramed (r'.consumed ++ rest)
    | .ret (some msg) => ValidPayload msg ∧ WellFramed rest
    | .ret none => False := by
  obtain ⟨ps, hps, tail, htail⟩ := hu
  rw [List.append_assoc, List.append_assoc] at htail
  have h := turn_frames hr hb hle hps htail
  split at h
  · exact ⟨ps, hps, tail, by rw [List.append_assoc, h]⟩
  · obtain ⟨qs, rfl, hrest⟩ := h
    exact ⟨hps _ (by simp), qs, fun q hq => hps q (by simp [hq]), tail, hrest⟩
  · exact h

end FrameReader

/-! ## `send_frame` -/

/-- Where a call of `send_frame` stands: the bytes sent of the length field, or of the payload. -/
inductive FrameWriter where
  | size (sent : ℕ) | payload (sent : ℕ)
  deriving DecidableEq

namespace FrameWriter

/-- The start of `send_frame(s, p)`, up to the first `send` or the return. -/
def start (p : List UInt8) : Turn FrameWriter Bool := if p = [] then .ret false else .again (.size 0)

/-- The bytes offered by the next `send`. -/
def offer (p : List UInt8) : FrameWriter → List UInt8
  | .size sent => ((toBE 4 (toUInt32 p.length)).drop sent).take (4 - sent)
  | .payload sent => (p.drop sent).take (toInt p.length - sent).toNat

/-- One turn of `send_frame(s, p)`. -/
def turn (p : List UInt8) (w : FrameWriter) : SendResult → Turn FrameWriter Bool
  | .error e => if e.again then .again w else .ret false
  | .closed => .ret false
  | .count n =>
    match w with
    | .size sent =>
      if sent + n < 4 then .again (.size (sent + n))
      else if 0 < toInt p.length then .again (.payload 0)
      else .ret true
    | .payload sent =>
      if ((sent + n : ℕ) : ℤ) < toInt p.length then .again (.payload (sent + n)) else .ret true

theorem start_ret {p : List UInt8} {ok : Bool} (h : start p = .ret ok) : p = [] ∧ ok = false := by
  unfold start at h
  split at h
  · simp only [Turn.ret.injEq] at h
    exact ⟨‹_›, h.symm⟩
  · cases h

/-- `send_frame` gives up on a closure or a hard error only. -/
theorem turn_ret_false {p : List UInt8} {w : FrameWriter} {x : SendResult} (h : w.turn p x = .ret false) :
    x = .closed ∨ ∃ e, x = .error e ∧ e.again = false := by
  cases x with
  | error e =>
    simp only [turn] at h
    split at h <;> simp_all
  | closed => exact .inl rfl
  | count n =>
    cases w <;> simp only [turn] at h <;> repeat' split at h
    all_goals simp at h

/-- There is a byte left to send. -/
def Open (p : List UInt8) : FrameWriter → Prop
  | .size sent => sent < 4
  | .payload sent => (sent : ℤ) < toInt p.length

instance (p : List UInt8) : DecidablePred (Open p)
  | .size _ => inferInstanceAs (Decidable (_ < _))
  | .payload _ => inferInstanceAs (Decidable (_ < _))

/-- A bound on the bytes left to send. -/
def left (p : List UInt8) : FrameWriter → ℕ
  | .size sent => 4 - sent + (toInt p.length).toNat
  | .payload sent => (toInt p.length - sent).toNat

theorem left_turn {p : List UInt8} {w w' : FrameWriter} (hw : w.Open p) {n : ℕ} (hn : 0 < n)
    (ht : w.turn p (.count n) = .again w') : w'.left p < w.left p := by
  cases w with
  | size sent =>
    simp only [Open] at hw
    simp only [turn] at ht
    repeat' split at ht
    all_goals simp at ht
    · subst ht; simp only [left]; omega
    · subst ht; simp only [left]; omega
  | payload sent =>
    simp only [Open] at hw
    simp only [turn] at ht
    split at ht <;> simp at ht
    subst ht
    simp only [left]
    omega

set_option linter.unusedVariables false in
/-- Turns on the socket `s` until `send_frame` returns. -/
def run (p : List UInt8) (w : FrameWriter) (s : TxSock) : Bool × TxSock :=
  if hw : w.Open p then
    match ht : w.turn p (s.send (w.offer p)).1 with
    | .again w' => run p w' (s.send (w.offer p)).2
    | .ret ok => (ok, (s.send (w.offer p)).2)
  else (true, s)
termination_by s.sched.length + w.left p
decreasing_by
  have hspec := s.send_spec (w.offer p)
  rcases hx : s.send (w.offer p) with ⟨x, s'⟩
  rw [hx] at hspec ht
  cases x with
  | error e =>
    simp only [turn] at ht
    split at ht <;> simp at ht
    subst ht
    dsimp only at hspec ⊢
    omega
  | closed => simp [turn] at ht
  | count n =>
    have := left_turn hw hspec.1 ht
    have := hspec.2.2.2
    dsimp only
    omega

variable {p : List UInt8} {w w' : FrameWriter} {s s' : TxSock} {x : SendResult} {ok : Bool}

theorem run_again (hw : w.Open p) (hx : s.send (w.offer p) = (x, s')) (ht : w.turn p x = .again w') :
    run p w s = run p w' s' := by
  rw [run, dif_pos hw]
  split
  · rename_i h; rw [hx, ht] at h; cases h; rw [hx]
  · rename_i h; rw [hx, ht] at h; cases h

theorem run_ret (hw : w.Open p) (hx : s.send (w.offer p) = (x, s')) (ht : w.turn p x = .ret ok) :
    run p w s = (ok, s') := by
  rw [run, dif_pos hw]
  split
  · rename_i h; rw [hx, ht] at h; cases h
  · rename_i h; rw [hx, ht] at h; cases h; rw [hx]

theorem turn_payload (p : List UInt8) (sent n : ℕ) : (FrameWriter.payload sent).turn p (.count n) =
    if ((sent + n : ℕ) : ℤ) < toInt p.length then .again (.payload (sent + n)) else .ret true := rfl

theorem turn_size (p : List UInt8) (sent n : ℕ) : (FrameWriter.size sent).turn p (.count n) =
    if sent + n < 4 then .again (.size (sent + n))
    else if 0 < toInt p.length then .again (.payload 0) else .ret true := rfl

theorem run_payload (p : List UInt8) (s : TxSock) (sent : ℕ) :
    run p (.payload sent) s = sendAll s p (toInt p.length) sent := by
  fun_induction sendAll s p (toInt p.length) sent with
  | case1 s sent hlt e s' hx he ih =>
    have hopen : (FrameWriter.payload sent).Open p := hlt
    rw [run_again hopen hx (if_pos he)]
    exact ih
  | case2 s sent hlt e s' hx he =>
    have hopen : (FrameWriter.payload sent).Open p := hlt
    rw [run_ret hopen hx (if_neg he)]
  | case3 s sent hlt s' hx =>
    have hopen : (FrameWriter.payload sent).Open p := hlt
    rw [run_ret hopen hx rfl]
  | case4 s sent hlt n s' hx ih =>
    have hopen : (FrameWriter.payload sent).Open p := hlt
    by_cases hmore : ((sent + n : ℕ) : ℤ) < toInt p.length
    · have hturn : (FrameWriter.payload sent).turn p (.count n) = .again (.payload (sent + n)) := by
        rw [turn_payload, if_pos hmore]
      rw [run_again hopen hx hturn]
      exact ih
    · have hturn : (FrameWriter.payload sent).turn p (.count n) = .ret true := by
        rw [turn_payload, if_neg hmore]
      rw [run_ret hopen hx hturn, sendAll, if_neg hmore]
  | case5 s sent hlt =>
    have hclosed : ¬ (FrameWriter.payload sent).Open p := hlt
    rw [run, dif_neg hclosed]

theorem run_size (p : List UInt8) (s : TxSock) (sent : ℕ) (h : sent < 4) :
    run p (.size sent) s = if (sendAll s (toBE 4 (toUInt32 p.length)) 4 sent).1 = true then
      sendAll (sendAll s (toBE 4 (toUInt32 p.length)) 4 sent).2 p (toInt p.length) 0
      else sendAll s (toBE 4 (toUInt32 p.length)) 4 sent := by
  have hopen : (FrameWriter.size sent).Open p := h
  have hoffer : ∀ k : ℕ, (4 - k : ℤ).toNat = 4 - k := fun k => by omega
  fun_induction sendAll s (toBE 4 (toUInt32 p.length)) 4 sent with
  | case1 s sent hlt e s' hx he ih =>
    rw [hoffer] at hx
    rw [run_again hopen hx (if_pos he)]
    exact ih h hopen
  | case2 s sent hlt e s' hx he =>
    rw [hoffer] at hx
    rw [run_ret hopen hx (if_neg he)]
    rfl
  | case3 s sent hlt s' hx =>
    rw [hoffer] at hx
    rw [run_ret hopen hx rfl]
    rfl
  | case4 s sent hlt n s' hx ih =>
    rw [hoffer] at hx
    by_cases hmore : sent + n < 4
    · rw [run_again hopen hx (if_pos hmore)]
      exact ih hmore hmore
    · have hdone : sendAll s' (toBE 4 (toUInt32 p.length)) 4 (sent + n) = (true, s') := by
        rw [sendAll, if_neg (by omega)]
      rw [hdone, if_pos rfl]
      by_cases hlen : 0 < toInt p.length
      · have hturn : (FrameWriter.size sent).turn p (.count n) = .again (.payload 0) := by
          rw [turn_size, if_neg hmore, if_pos hlen]
        rw [run_again hopen hx hturn, run_payload]
      · have hturn : (FrameWriter.size sent).turn p (.count n) = .ret true := by
          rw [turn_size, if_neg hmore, if_neg hlen]
        rw [run_ret hopen hx hturn, sendAll, if_neg (by simpa using hlen)]
  | case5 s sent hlt => omega

/-- **Turns are `send_frame`.** -/
theorem run_start (p : List UInt8) (s : TxSock) :
    sendFrame s p = match start p with
      | .ret ok => (ok, s)
      | .again w => run p w s := by
  unfold start
  by_cases hp : p = []
  · simp [hp, sendFrame]
  · rw [if_neg hp, sendFrame_of_ne s hp]
    exact (run_size p s 0 (by omega)).symm

end FrameWriter

end TcpChat.Framing
