import TcpChat.Framing.Codec

/-!
# What a frame may carry

`send_frame` refuses the empty payload and narrows the size twice; `recv_frame` refuses sizes above `MAX_PAYLOAD` and
returns the empty payload.  So the two agree on the payloads of 1 to `MAX_PAYLOAD` bytes, and not beyond.

* `sendFrame_soft`, `recvFrame_sound` — what a transport that accepts every byte gets from `send_frame`, and what a
  stream is that `recv_frame` consumes in full;
* `Carries`, `Emits` — the two directions of the agreement;
* `codec_agrees` — where they hold;
* `codec_disagrees` — they do not hold everywhere.
-/

namespace TcpChat.Framing

open TcpChat.Lib

/-! ## A transport that accepts every byte -/

/-- The entry is no end of the transport. -/
def SendOutcome.Soft : SendOutcome → Prop
  | .accept _ => True
  | .closed => False
  | .error e => e.again = true

/-- As long as there is something to send, a `send` takes some of it or asks to be called again. -/
theorem TxSock.send_soft (s : TxSock) (data : List UInt8) (hsoft : ∀ o ∈ s.sched, o.Soft) (hd : data ≠ []) :
    (s.send data).2.sched ⊆ s.sched ∧
      match (s.send data).1 with
      | .count _ => True
      | .closed => False
      | .error e => e.again = true := by
  obtain ⟨wire, sched⟩ := s
  rcases sched with _ | ⟨k | _ | e, rest⟩
  · simp [send, take, hd]
  · simp [send, take, hd]
  · exact absurd (hsoft .closed List.mem_cons_self) id
  · exact ⟨List.subset_cons_self _ _, hsoft (.error e) List.mem_cons_self⟩

/-- `send_all` sends `len` bytes of the data; a negative `len` is none. -/
theorem sendAll_soft (s : TxSock) (data : List UInt8) (len : ℤ) (sent : ℕ) (hlen : len ≤ data.length)
    (hsoft : ∀ o ∈ s.sched, o.Soft) :
    (sendAll s data len sent).1 = true ∧ (∀ o ∈ (sendAll s data len sent).2.sched, o.Soft) ∧
      (sendAll s data len sent).2.wire = s.wire ++ (data.drop sent).take (len - sent).toNat := by
  fun_induction sendAll s data len sent with
  | case1 s sent hlt e s' h he ih =>
    have hspec := s.send_spec ((data.drop sent).take (len - sent).toNat)
    have hstep := s.send_soft ((data.drop sent).take (len - sent).toNat) hsoft
      (List.ne_nil_of_length_pos (by simp; omega))
    rw [h] at hspec hstep
    rw [← hspec.1]
    exact ih fun o ho => hsoft o (hstep.1 ho)
  | case2 s sent hlt e s' h he =>
    have hstep := s.send_soft ((data.drop sent).take (len - sent).toNat) hsoft
      (List.ne_nil_of_length_pos (by simp; omega))
    rw [h] at hstep
    exact absurd hstep.2 he
  | case3 s sent hlt s' h =>
    have hstep := s.send_soft ((data.drop sent).take (len - sent).toNat) hsoft
      (List.ne_nil_of_length_pos (by simp; omega))
    rw [h] at hstep
    exact absurd hstep.2 id
  | case4 s sent hlt n s' h ih =>
    have hspec := s.send_spec ((data.drop sent).take (len - sent).toNat)
    have hstep := s.send_soft ((data.drop sent).take (len - sent).toNat) hsoft
      (List.ne_nil_of_length_pos (by simp; omega))
    rw [h] at hspec hstep
    obtain ⟨hn, hle, hw, -⟩ := hspec
    simp only [List.length_take, List.length_drop] at hle
    obtain ⟨hok, hsched, hwire⟩ := ih fun o ho => hsoft o (hstep.1 ho)
    refine ⟨hok, hsched, ?_⟩
    have hcut : (len - sent).toNat = n + (len - (sent + n : ℕ)).toNat := by omega
    rw [hwire, hw, List.append_assoc, List.take_take, Nat.min_eq_left (by omega), hcut, List.take_add, List.drop_drop]
  | case5 s sent hlt =>
    have hnone : (len - sent).toNat = 0 := by omega
    exact ⟨rfl, hsoft, by rw [hnone, List.take_zero, List.append_nil]⟩

theorem toInt_le (n : ℕ) : toInt n ≤ n := by
  rcases Nat.lt_or_ge n (2 ^ 31) with hn | hn
  · rw [toInt_of_lt hn]
  · have := @Int.bmod_le n (2 ^ 32) (by decide)
    unfold toInt
    omega

/-- The bytes that `send_frame` puts on such a transport. -/
def emitted (p : List UInt8) : List UInt8 :=
  if p = [] then [] else toBE 4 (toUInt32 p.length) ++ p.take (toInt p.length).toNat

theorem sendFrame_soft (s : TxSock) (p : List UInt8) (hsoft : ∀ o ∈ s.sched, o.Soft) :
    ((sendFrame s p).1 = true ↔ p ≠ []) ∧ (sendFrame s p).2.wire = s.wire ++ emitted p := by
  by_cases hp : p = []
  · simp [sendFrame, emitted, hp]
  obtain ⟨hnum, hsched, hwire⟩ := sendAll_soft s (toBE 4 (toUInt32 p.length)) 4 0 (by simp) hsoft
  obtain ⟨hdata, -, hwire'⟩ := sendAll_soft _ p (toInt p.length) 0 (toInt_le p.length) hsched
  have hfour : (toBE 4 (toUInt32 p.length)).take 4 = toBE 4 (toUInt32 p.length) := List.take_of_length_le (by simp)
  rw [sendFrame_of_ne s hp, if_pos hnum, hdata, hwire', hwire, emitted, if_neg hp]
  simp [hp, hfour]

/-! ## A stream that is one frame -/

theorem emitted_eq {p : List UInt8} (hp : ValidPayload p) : emitted p = frame p := by
  rw [emitted, if_neg (List.length_pos_iff.1 hp.1), toUInt32_of_le hp.2, toInt_of_le hp.2, Int.toNat_natCast,
    List.take_length, frame]

/-- What `recv_frame` accepts and consumes in full is the frame of the payload it returns. -/
theorem recvFrame_sound (s : RxSock) (hsoft : ∀ o ∈ s.sched, o.Soft) (hok : (recvFrame s).1 = true)
    (hrest : (recvFrame s).2.2.unread = []) :
    s.unread = frame (recvFrame s).2.1 ∧ (recvFrame s).2.1.length ≤ maxPayload := by
  obtain ⟨hiff, hspec⟩ := recvFrame_spec s hsoft
  have hst := hiff.1 hok
  obtain ⟨hout, hunread⟩ := hspec hst
  obtain ⟨hmax, hlen⟩ := hst
  have hall : s.unread.length ≤ 4 + sizeField s.unread := by
    rw [hunread] at hrest
    exact List.drop_eq_nil_iff.1 hrest
  have hpayload : (recvFrame s).2.1 = s.unread.drop 4 := by
    rw [hout, List.take_of_length_le (by rw [List.length_drop]; omega)]
  have hsize : (s.unread.drop 4).length = sizeField s.unread := by rw [List.length_drop]; omega
  have hnum : toBE 4 (sizeField s.unread) = s.unread.take 4 := by
    have hfour : (s.unread.take 4).length = 4 := by rw [List.length_take]; omega
    have := toBE_ofBE (s.unread.take 4)
    rwa [hfour] at this
  rw [hpayload, frame, hsize, hnum, List.take_append_drop]
  exact ⟨rfl, hmax⟩

/-! ## The agreement -/

/-- `send_frame(p)` returns `true` if and only if `recv_frame` reads from the bytes that it has emitted `p` and nothing
else. -/
def Carries (ss : List SendOutcome) (rs : List RecvOutcome) (p : List UInt8) : Prop :=
  (sendFrame ⟨[], ss⟩ p).1 = true ↔
    (recvFrame ⟨(sendFrame ⟨[], ss⟩ p).2.wire, rs⟩).1 = true ∧
      (recvFrame ⟨(sendFrame ⟨[], ss⟩ p).2.wire, rs⟩).2.1 = p ∧
      (recvFrame ⟨(sendFrame ⟨[], ss⟩ p).2.wire, rs⟩).2.2.unread = []

/-- If `recv_frame` accepts the bytes `w` and consumes them in full, `send_frame` emits them for the payload that it
returns. -/
def Emits (ss : List SendOutcome) (rs : List RecvOutcome) (w : List UInt8) : Prop :=
  (recvFrame ⟨w, rs⟩).1 = true → (recvFrame ⟨w, rs⟩).2.2.unread = [] →
    (sendFrame ⟨[], ss⟩ (recvFrame ⟨w, rs⟩).2.1).2.wire = w

theorem carries_iff {ss : List SendOutcome} {rs : List RecvOutcome} (hss : ∀ o ∈ ss, o.Soft) (hrs : ∀ o ∈ rs, o.Soft)
    (p : List UInt8) : Carries ss rs p ↔ p.length ≤ maxPayload := by
  obtain ⟨hok, hwire⟩ := sendFrame_soft ⟨[], ss⟩ p hss
  rw [List.nil_append] at hwire
  unfold Carries
  rw [hok, hwire]
  constructor
  · intro h
    by_cases hp : p = []
    · simp [hp]
    · obtain ⟨htrue, hout, hrest⟩ := h.1 hp
      rw [← hout]
      exact (recvFrame_sound _ hrs htrue hrest).2
  · intro hmax
    by_cases hp : p = []
    · have hempty : ¬ StartsWithFrame [] := fun hst => by simpa using hst.2
      have hfalse := (recvFrame_spec ⟨emitted p, rs⟩ hrs).1
      rw [emitted, if_pos hp] at hfalse ⊢
      exact iff_of_false (not_not.2 hp) fun h => hempty (hfalse.1 h.1)
    · have hval : ValidPayload p := ⟨List.length_pos_iff.2 hp, hmax⟩
      rw [emitted_eq hval]
      exact iff_of_true hp (recvFrame_frame ⟨frame p, rs⟩ hrs hmax (List.append_nil _).symm)

theorem emits_iff {ss : List SendOutcome} {rs : List RecvOutcome} (hss : ∀ o ∈ ss, o.Soft) (hrs : ∀ o ∈ rs, o.Soft)
    (w : List UInt8) : Emits ss rs w ↔ w ≠ frame [] := by
  constructor
  · rintro h rfl
    obtain ⟨hok, hout, hrest⟩ := recvFrame_frame ⟨frame [], rs⟩ hrs (Nat.zero_le _) (List.append_nil _).symm
    have hwire := h hok hrest
    rw [hout, (sendFrame_soft ⟨[], ss⟩ [] hss).2, List.nil_append] at hwire
    exact absurd hwire (by decide)
  · intro hne hok hrest
    obtain ⟨hw, hmax⟩ := recvFrame_sound ⟨w, rs⟩ hrs hok hrest
    dsimp only at hw
    have hpos : (recvFrame ⟨w, rs⟩).2.1 ≠ [] := fun h => hne (by rw [hw, h])
    rw [(sendFrame_soft ⟨[], ss⟩ _ hss).2, List.nil_append, emitted_eq ⟨List.length_pos_iff.2 hpos, hmax⟩]
    exact hw.symm

/-- **The encoder and the decoder agree** on the payloads of at most `MAX_PAYLOAD` bytes and on all byte strings but the
frame of the empty payload. -/
theorem codec_agrees (ss : List SendOutcome) (rs : List RecvOutcome) (hss : ∀ o ∈ ss, o.Soft)
    (hrs : ∀ o ∈ rs, o.Soft) :
    (∀ p, Carries ss rs p ↔ p.length ≤ 1048576) ∧ ∀ w, Emits ss rs w ↔ w ≠ [0, 0, 0, 0] :=
  ⟨carries_iff hss hrs, emits_iff hss hrs⟩

/-- A transport that takes and delivers the bytes in pieces, with retries. -/
theorem codec_agrees_pieces :
    (∀ p, Carries [.accept 2, .error .WSAEINTR, .accept 0] [.chunk 0, .error .WSAEWOULDBLOCK] p ↔ p.length ≤ 1048576) ∧
      ∀ w, Emits [.accept 2, .error .WSAEINTR, .accept 0] [.chunk 0, .error .WSAEWOULDBLOCK] w ↔ w ≠ [0, 0, 0, 0] :=
  codec_agrees [.accept 2, .error .WSAEINTR, .accept 0] [.chunk 0, .error .WSAEWOULDBLOCK]
    (by simp [SendOutcome.Soft, WsaError.again]) (by simp [RecvOutcome.Soft, WsaError.again])

/-- `send_frame` returns `true` for a payload that `recv_frame` refuses, and `recv_frame` returns `true` for a frame
that `send_frame` does not make. -/
theorem codec_disagrees : (¬ ∀ p, Carries [] [] p) ∧ ¬ ∀ w, Emits [] [] w := by
  refine ⟨fun h => ?_, fun h => ?_⟩
  · have hle := (carries_iff (by simp) (by simp) (List.replicate (maxPayload + 1) 0)).1 (h _)
    rw [List.length_replicate] at hle
    omega
  · exact (emits_iff (by simp) (by simp) (frame [])).1 (h _) rfl

end TcpChat.Framing
