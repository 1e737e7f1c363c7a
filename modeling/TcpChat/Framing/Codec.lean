import TcpChat.Framing.Winsock
import TcpChat.Lib.BigEndian
import Mathlib.Data.Int.Basic

/-!
# The framing codec

`send_all`, `recv_all`, `send_frame` and `recv_frame` of `Shared/Framing.cpp`, over the sockets of
`Framing.Winsock`, and what one call of each of them does:

* `sendAll_spec`, `recvAll_spec` — the two loops move exactly the bytes they are asked to move, or stop short;
* `sendFrame_spec` — a call that returns `true` has put the whole frame on the wire, one that returns `false` a
  proper part of it;
* `recvFrame_frame`, `recvFrame_cut` — a whole frame at the head of the stream is taken off and returned, a part
  of one yields nothing.
-/

namespace TcpChat.Framing

open TcpChat.Lib

/-- `static_cast<int>(n)` of a 64-bit size. -/
def toInt (n : ℕ) : ℤ := Int.bmod n (2 ^ 32)

/-- `static_cast<uint32_t>(n)` of a 64-bit size. -/
def toUInt32 (n : ℕ) : ℕ := n % 2 ^ 32

/-- RX: DoS protection (AKA Sanity check) -/
def maxPayload : ℕ := 1024 * 1024

/-- A payload the callers of `send_frame` keep to. -/
def ValidPayload (p : List UInt8) : Prop := 1 ≤ p.length ∧ p.length ≤ maxPayload

theorem toInt_of_lt {n : ℕ} (h : n < 2 ^ 31) : toInt n = n := by
  unfold toInt
  rw [Int.bmod_eq_of_le] <;> omega

theorem toInt_of_le {n : ℕ} (h : n ≤ maxPayload) : toInt n = n :=
  toInt_of_lt (by unfold maxPayload at h; omega)

theorem toUInt32_of_le {n : ℕ} (h : n ≤ maxPayload) : toUInt32 n = n :=
  Nat.mod_eq_of_lt (by unfold maxPayload at h; omega)

/-! ## The loops -/

set_option linter.unusedVariables false in
/-- `send_all(s, data, len, 0)`, after `sent` bytes. -/
def sendAll (s : TxSock) (data : List UInt8) (len : ℤ) (sent : ℕ) : Bool × TxSock :=
  if (sent : ℤ) < len then
    match h : s.send ((data.drop sent).take (len - sent).toNat) with
    | (.error e, s') => if e.again then sendAll s' data len sent else (false, s')
    | (.closed, s') => (false, s') -- closed connection
    | (.count n, s') => sendAll s' data len (sent + n)
  else (true, s)
termination_by s.sched.length + (len - sent).toNat
decreasing_by
  all_goals
    have hspec := s.send_spec ((data.drop sent).take (len - sent).toNat)
    rw [h] at hspec
    dsimp only at hspec
    omega

set_option linter.unusedVariables false in
/-- `recv_all(s, data, len, 0)`, after the bytes `read`. -/
def recvAll (s : RxSock) (len : ℕ) (read : List UInt8) : Bool × List UInt8 × RxSock :=
  if hlt : read.length < len then
    match h : s.recv (len - read.length) with
    | (.error e, s') => if e.again then recvAll s' len read else (false, read, s')
    | (.closed, s') => (false, read, s') -- closed connection
    | (.bytes b, s') => recvAll s' len (read ++ b)
  else (true, read, s)
termination_by s.sched.length + (len - read.length)
decreasing_by
  · have hspec := (s.recv_spec (Nat.sub_pos_of_lt hlt)).2
    rw [h] at hspec
    dsimp only at hspec
    omega
  · have hspec := (s.recv_spec (Nat.sub_pos_of_lt hlt)).2
    rw [h] at hspec
    have hb := List.length_pos_iff.2 hspec.1
    simp only [List.length_append]
    omega

theorem sendAll_spec (s : TxSock) (data : List UInt8) (sent : ℕ) (hs : sent ≤ data.length) :
    ∃ n, sent ≤ n ∧ n ≤ data.length ∧
      (sendAll s data data.length sent).2.wire = s.wire ++ (data.drop sent).take (n - sent) ∧
      ((sendAll s data data.length sent).1 = true ↔ n = data.length) := by
  fun_induction sendAll s data data.length sent with
  | case1 s sent hlt e s' h he ih =>
    have hspec := s.send_spec ((data.drop sent).take ((data.length : ℤ) - sent).toNat)
    rw [h] at hspec
    rw [← hspec.1]
    exact ih hs
  | case2 s sent hlt e s' h he =>
    have hspec := s.send_spec ((data.drop sent).take ((data.length : ℤ) - sent).toNat)
    rw [h] at hspec
    exact ⟨sent, le_refl _, hs, by simp [hspec.1], by simp; omega⟩
  | case3 s sent hlt s' h =>
    have hspec := s.send_spec ((data.drop sent).take ((data.length : ℤ) - sent).toNat)
    rw [h] at hspec
    exact ⟨sent, le_refl _, hs, by simp [hspec], by simp; omega⟩
  | case4 s sent hlt n s' h ih =>
    have hspec := s.send_spec ((data.drop sent).take ((data.length : ℤ) - sent).toNat)
    rw [h] at hspec
    obtain ⟨hn, hle, hw, -⟩ := hspec
    simp only [List.length_take, List.length_drop] at hle
    obtain ⟨m, hm1, hm2, hm3, hm4⟩ := ih (by omega)
    refine ⟨m, by omega, hm2, ?_, hm4⟩
    have hcut : m - sent = n + (m - (sent + n)) := by omega
    rw [hm3, hw, List.take_take, List.append_assoc, hcut, List.take_add, List.drop_drop,
      Nat.min_eq_left (by omega)]
  | case5 s sent hlt =>
    have : sent = data.length := by omega
    exact ⟨sent, le_refl _, hs, by simp, by simp [this]⟩

theorem recvAll_sched (s : RxSock) (len : ℕ) (read : List UInt8) : (recvAll s len read).2.2.sched ⊆ s.sched := by
  fun_induction recvAll s len read with
  | case1 s read hlt e s' h he ih =>
    have hsub := (s.recv_spec (Nat.sub_pos_of_lt hlt)).1
    rw [h] at hsub
    exact List.Subset.trans ih hsub
  | case2 s read hlt e s' h he =>
    have hsub := (s.recv_spec (Nat.sub_pos_of_lt hlt)).1
    rwa [h] at hsub
  | case3 s read hlt s' h =>
    have hsub := (s.recv_spec (Nat.sub_pos_of_lt hlt)).1
    rwa [h] at hsub
  | case4 s read hlt b s' h ih =>
    have hsub := (s.recv_spec (Nat.sub_pos_of_lt hlt)).1
    rw [h] at hsub
    exact List.Subset.trans ih hsub
  | case5 s read hlt => exact List.Subset.refl _

/-- When `recv_all` returns `true` the buffer is full. -/
theorem recvAll_length (s : RxSock) (len : ℕ) (read : List UInt8) (hr : read.length ≤ len) :
    (recvAll s len read).1 = true → (recvAll s len read).2.1.length = len := by
  fun_induction recvAll s len read with
  | case1 s read hlt e s' h he ih => exact ih hr
  | case2 s read hlt e s' h he => simp
  | case3 s read hlt s' h => simp
  | case4 s read hlt b s' h ih =>
    have hspec := (s.recv_spec (Nat.sub_pos_of_lt hlt)).2
    rw [h] at hspec
    exact ih (by rw [List.length_append]; have := hspec.2.1; omega)
  | case5 s read hlt => intro _; dsimp only; omega

/-- Under a schedule without hard errors `recv_all` reads exactly `len` bytes, or the whole stream if it is
shorter. -/
theorem recvAll_spec (s : RxSock) (len : ℕ) (read : List UInt8) (hr : read.length ≤ len)
    (hsoft : ∀ o ∈ s.sched, o.Soft) :
    (recvAll s len read).1 = decide (len ≤ read.length + s.unread.length) ∧
    (recvAll s len read).2.1 = read ++ s.unread.take (len - read.length) ∧
    (recvAll s len read).2.2.unread = s.unread.drop (len - read.length) := by
  fun_induction recvAll s len read with
  | case1 s read hlt e s' h he ih =>
    obtain ⟨hsub, hspec⟩ := s.recv_spec (Nat.sub_pos_of_lt hlt)
    rw [h] at hspec hsub
    rw [← hspec.2.1]
    exact ih hr fun o ho => hsoft o (hsub ho)
  | case2 s read hlt e s' h he =>
    have hspec := (s.recv_spec (Nat.sub_pos_of_lt hlt)).2
    rw [h] at hspec
    exact absurd (hsoft _ hspec.1) he
  | case3 s read hlt s' h =>
    have hspec := (s.recv_spec (Nat.sub_pos_of_lt hlt)).2
    rw [h] at hspec
    simp [hspec.1, hspec.2, hlt]
  | case4 s read hlt b s' h ih =>
    obtain ⟨hsub, hspec⟩ := s.recv_spec (Nat.sub_pos_of_lt hlt)
    rw [h] at hspec hsub
    obtain ⟨-, hb, hu, -⟩ := hspec
    obtain ⟨h1, h2, h3⟩ := ih (by simp; omega) fun o ho => hsoft o (hsub ho)
    have hcut : len - read.length = b.length + (len - (read ++ b).length) := by simp; omega
    rw [h1, h2, h3, hu, hcut, List.take_length_add_append, List.drop_length_add_append]
    simp [Nat.add_assoc]
  | case5 s read hlt =>
    have : read.length = len := by omega
    simp [this]

/-! ## FRAMING API -/

/-- `send_frame(s, payload)` -/
def sendFrame (s : TxSock) (payload : List UInt8) : Bool × TxSock :=
  if payload = [] then (false, s)
  else
    -- First, send num of bytes; cast to big-endian
    let num := sendAll s (toBE 4 (toUInt32 payload.length)) 4 0
    if num.1 = false then (false, num.2)
    else
      -- Second, send payload
      let data := sendAll num.2 payload (toInt payload.length) 0
      if data.1 = false then (false, data.2) else (true, data.2)

/-- `recv_frame(s, out)`: the result, `out`, and the socket. -/
def recvFrame (s : RxSock) : Bool × List UInt8 × RxSock :=
  -- First read size of payload
  match recvAll s 4 [] with
  | (false, _, s') => (false, [], s')
  | (true, nsize, s') =>
    let size := ofBE nsize
    if maxPayload < size then (false, [], s')
    else if size = 0 then (true, [], s')
    else
      -- Now read the payload, into a string of `size` zeros
      match recvAll s' size [] with
      | (ok, data, s'') => (ok, data ++ List.replicate (size - data.length) 0, s'')

/-- The bytes of a frame. -/
def frame (p : List UInt8) : List UInt8 := toBE 4 p.length ++ p

@[simp] theorem length_frame (p : List UInt8) : (frame p).length = 4 + p.length := by simp [frame]

/-- The two calls of `send_all` in `send_frame`, as one condition. -/
theorem sendBoth_eq (s : TxSock) (nsize data : List UInt8) (len : ℤ) :
    (let num := sendAll s nsize 4 0
      if num.1 = false then (false, num.2)
      else
        let data := sendAll num.2 data len 0
        if data.1 = false then (false, data.2) else (true, data.2)) =
      if (sendAll s nsize 4 0).1 = true then sendAll (sendAll s nsize 4 0).2 data len 0
      else sendAll s nsize 4 0 := by
  generalize sendAll s nsize 4 0 = num
  obtain ⟨_ | _, s'⟩ := num
  · rfl
  · generalize hdata : sendAll s' data len 0 = r
    obtain ⟨_ | _, s''⟩ := r <;> simp [hdata]

theorem sendFrame_of_ne (s : TxSock) {p : List UInt8} (hp : p ≠ []) :
    sendFrame s p = if (sendAll s (toBE 4 (toUInt32 p.length)) 4 0).1 = true then
      sendAll (sendAll s (toBE 4 (toUInt32 p.length)) 4 0).2 p (toInt p.length) 0
      else sendAll s (toBE 4 (toUInt32 p.length)) 4 0 := by
  refine Eq.trans ?_ (sendBoth_eq s (toBE 4 (toUInt32 p.length)) p (toInt p.length))
  unfold sendFrame
  exact if_neg hp

/-- For the payloads of the callers the casts change nothing. -/
theorem sendFrame_eq (s : TxSock) {p : List UInt8} (hp : ValidPayload p) :
    sendFrame s p = if (sendAll s (toBE 4 p.length) 4 0).1 = true then
      sendAll (sendAll s (toBE 4 p.length) 4 0).2 p p.length 0 else sendAll s (toBE 4 p.length) 4 0 := by
  rw [sendFrame_of_ne s (List.length_pos_iff.1 hp.1), toUInt32_of_le hp.2, toInt_of_le hp.2]

theorem sendFrame_spec (s : TxSock) {p : List UInt8} (hp : ValidPayload p) :
    ∃ n, n ≤ (frame p).length ∧ (sendFrame s p).2.wire = s.wire ++ (frame p).take n ∧
      ((sendFrame s p).1 = true ↔ n = (frame p).length) := by
  obtain ⟨n, -, hn, hw, hok⟩ := sendAll_spec s (toBE 4 p.length) 0 (Nat.zero_le _)
  simp only [length_toBE, Nat.cast_ofNat, List.drop_zero, Nat.sub_zero] at hn hw hok
  rw [sendFrame_eq s hp, length_frame]
  by_cases h : (sendAll s (toBE 4 p.length) 4 0).1 = true
  · have h4 : n = 4 := hok.1 h
    obtain ⟨m, -, hm, hw', hok'⟩ := sendAll_spec (sendAll s (toBE 4 p.length) 4 0).2 p 0 (Nat.zero_le _)
    have hcut : (frame p).take (4 + m) = toBE 4 p.length ++ p.take m := by
      have := @List.take_length_add_append _ (toBE 4 p.length) p m
      rwa [length_toBE] at this
    rw [if_pos h]
    refine ⟨4 + m, by omega, ?_, by rw [hok']; omega⟩
    rw [hcut, hw', hw, h4, List.take_of_length_le (by simp), List.drop_zero, Nat.sub_zero, List.append_assoc]
  · have hlt : n ≠ 4 := fun h4 => h (hok.2 h4)
    have hp1 := hp.1
    rw [if_neg h]
    refine ⟨n, by omega, ?_, by simp only [h, Bool.false_eq_true, false_iff]; omega⟩
    rw [frame, List.take_append_of_le_length (by simp; omega)]
    exact hw

theorem recvFrame_sched (s : RxSock) : (recvFrame s).2.2.sched ⊆ s.sched := by
  have h1 := recvAll_sched s 4 []
  unfold recvFrame
  generalize recvAll s 4 [] = r at *
  obtain ⟨_ | _, nsize, s'⟩ := r
  · exact h1
  · dsimp only at h1 ⊢
    split
    · exact h1
    · split
      · exact h1
      · exact List.Subset.trans (recvAll_sched s' (ofBE nsize) []) h1

/-- The length field at the head of a stream. -/
def sizeField (u : List UInt8) : ℕ := ofBE (u.take 4)

/-- What a stream must start with for `recv_frame` to return `true`. -/
def StartsWithFrame (u : List UInt8) : Prop :=
  sizeField u ≤ maxPayload ∧ 4 + sizeField u ≤ u.length

/-- Under a schedule without hard errors the outcome of `recv_frame` depends on the stream alone. -/
theorem recvFrame_spec (s : RxSock) (hsoft : ∀ o ∈ s.sched, o.Soft) :
    ((recvFrame s).1 = true ↔ StartsWithFrame s.unread) ∧
    (StartsWithFrame s.unread → (recvFrame s).2.1 = (s.unread.drop 4).take (sizeField s.unread) ∧
      (recvFrame s).2.2.unread = s.unread.drop (4 + sizeField s.unread)) := by
  obtain ⟨h1, h2, h3⟩ := recvAll_spec s 4 [] (Nat.zero_le _) hsoft
  have hsub := recvAll_sched s 4 []
  unfold recvFrame StartsWithFrame sizeField
  generalize recvAll s 4 [] = r at *
  obtain ⟨ok, nsize, s'⟩ := r
  simp only [List.length_nil, Nat.zero_add, Nat.sub_zero, List.nil_append] at h1 h2 h3
  subst h1 h2
  by_cases h4 : 4 ≤ s.unread.length
  · simp only [h4, decide_true]
    generalize hL : ofBE (s.unread.take 4) = L
    by_cases hmax : maxPayload < L
    · simp only [hmax, if_true, Bool.false_eq_true, false_iff]
      omega
    · by_cases h0 : L = 0
      · simp [h0, h3, h4]
      · obtain ⟨g1, g2, g3⟩ := recvAll_spec s' L [] (Nat.zero_le _) fun o ho => hsoft o (hsub ho)
        simp only [hmax, h0, if_false]
        generalize recvAll s' L [] = r at *
        obtain ⟨ok', data, s''⟩ := r
        simp only [List.length_nil, Nat.zero_add, Nat.sub_zero, List.nil_append, h3, List.length_drop,
          List.drop_drop] at g1 g2 g3
        subst g1 g2
        constructor
        · rw [decide_eq_true_iff]
          omega
        · rintro ⟨-, hlen⟩
          refine ⟨?_, g3⟩
          have : L - ((s.unread.drop 4).take L).length = 0 := by simp; omega
          rw [this, List.replicate_zero, List.append_nil]
  · simp only [h4, decide_false, Bool.false_eq_true, false_iff]
    omega

theorem recvFrame_frame (s : RxSock) (hsoft : ∀ o ∈ s.sched, o.Soft) {p rest : List UInt8}
    (hp : p.length ≤ maxPayload) (hu : s.unread = frame p ++ rest) :
    (recvFrame s).1 = true ∧ (recvFrame s).2.1 = p ∧ (recvFrame s).2.2.unread = rest := by
  have hsize : sizeField s.unread = p.length := by
    have hlt : p.length < 256 ^ 4 := by unfold maxPayload at hp; omega
    rw [hu, sizeField, frame, List.append_assoc, List.take_append_of_le_length (by simp),
      List.take_of_length_le (by simp), ofBE_toBE_of_lt hlt]
  have hst : StartsWithFrame s.unread := by
    refine ⟨by rw [hsize]; exact hp, ?_⟩
    rw [hsize, hu]
    simp
  obtain ⟨h1, h2⟩ := recvFrame_spec s hsoft
  obtain ⟨h2, h3⟩ := h2 hst
  have hdrop : s.unread.drop 4 = p ++ rest := by
    rw [hu, frame, List.append_assoc, List.drop_left' (by simp)]
  refine ⟨h1.2 hst, ?_, ?_⟩
  · rw [h2, hsize, hdrop, List.take_left]
  · rw [h3, hsize, ← List.drop_drop, hdrop, List.drop_left]

/-- A frame that is cut off yields nothing. -/
theorem recvFrame_cut (s : RxSock) (hsoft : ∀ o ∈ s.sched, o.Soft) {p : List UInt8} {n : ℕ}
    (hp : p.length ≤ maxPayload) (hn : n < (frame p).length) (hu : s.unread = (frame p).take n) :
    (recvFrame s).1 = false := by
  have hlen : s.unread.length = n := by rw [hu, List.length_take]; omega
  rw [← Bool.not_eq_true, (recvFrame_spec s hsoft).1]
  rintro ⟨-, hle⟩
  rw [length_frame] at hn
  by_cases h4 : n < 4
  · omega
  · have hlt : p.length < 256 ^ 4 := by unfold maxPayload at hp; omega
    have hsize : sizeField s.unread = p.length := by
      rw [hu, sizeField, List.take_take, Nat.min_eq_left (by omega), frame,
        List.take_append_of_le_length (by simp), List.take_of_length_le (by simp), ofBE_toBE_of_lt hlt]
    omega

end TcpChat.Framing
