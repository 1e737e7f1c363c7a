import TcpChat.Framing.Codec

/-!
# The stream of frames, end to end

A sender calls `send_frame` on one payload after another and stops at the first call that returns `false`; the
receiver calls `recv_frame` on the bytes that were put on the wire until it returns `false`.  Whatever the two
schedules are, the receiver obtains the payloads whose `send_frame` returned `true`, in order and unmodified.

`sendFrames_spec` says what the wire holds after the sender stopped: whole frames, then a proper part of one.
`recvFrames_spec` says what such a wire is read as.
-/

namespace TcpChat.Framing

/-- `send_frame` on each payload in turn, up to the first call that returns `false`: the payloads for which it
returned `true`, and the socket. -/
def sendFrames (s : TxSock) : List (List UInt8) → List (List UInt8) × TxSock
  | [] => ([], s)
  | p :: ps =>
    match sendFrame s p with
    | (true, s') => (p :: (sendFrames s' ps).1, (sendFrames s' ps).2)
    | (false, s') => ([], s')

theorem recvAll_unread_le (s : RxSock) (len : ℕ) (read : List UInt8) :
    (recvAll s len read).2.2.unread.length ≤ s.unread.length ∧
      ((recvAll s len read).1 = true →
        (recvAll s len read).2.2.unread.length + len ≤ s.unread.length + read.length) := by
  fun_induction recvAll s len read with
  | case1 s read hlt e s' h he ih =>
    have hspec := (s.recv_spec (Nat.sub_pos_of_lt hlt)).2
    rw [h] at hspec
    rw [← hspec.2.1]
    exact ih
  | case2 s read hlt e s' h he =>
    have hspec := (s.recv_spec (Nat.sub_pos_of_lt hlt)).2
    rw [h] at hspec
    simp [hspec.2.1]
  | case3 s read hlt s' h =>
    have hspec := (s.recv_spec (Nat.sub_pos_of_lt hlt)).2
    rw [h] at hspec
    simp [hspec.1, hspec.2]
  | case4 s read hlt b s' h ih =>
    have hspec := (s.recv_spec (Nat.sub_pos_of_lt hlt)).2
    rw [h] at hspec
    have hlen : s.unread.length = b.length + s'.unread.length := by rw [hspec.2.2.1, List.length_append]
    rw [List.length_append] at ih
    exact ⟨by omega, fun ht => by have := ih.2 ht; omega⟩
  | case5 s read hlt => exact ⟨le_refl _, fun _ => by dsimp only; omega⟩

/-- Every successful `recv_frame` takes bytes off the stream. -/
theorem recvFrame_unread_lt (s : RxSock) (h : (recvFrame s).1 = true) :
    (recvFrame s).2.2.unread.length < s.unread.length := by
  have h1 := recvAll_unread_le s 4 []
  unfold recvFrame at h ⊢
  generalize recvAll s 4 [] = r at *
  obtain ⟨_ | _, nsize, s'⟩ := r
  · simp at h
  · dsimp only [List.length_nil] at h h1 ⊢
    have h2 := recvAll_unread_le s' (TcpChat.Lib.ofBE nsize) []
    have := h1.2 rfl
    split at h
    · simp at h
    · rename_i hmax
      rw [if_neg hmax]
      split at h
      · rename_i h0
        rw [if_pos h0]
        dsimp only
        omega
      · rename_i h0
        rw [if_neg h0]
        generalize recvAll s' (TcpChat.Lib.ofBE nsize) [] = r at *
        obtain ⟨ok, data, s''⟩ := r
        dsimp only at h2 ⊢
        omega

set_option linter.unusedVariables false in
/-- `recv_frame` until it returns `false`: the payloads obtained. -/
def recvFrames (s : RxSock) : List (List UInt8) :=
  if h : (recvFrame s).1 = true then (recvFrame s).2.1 :: recvFrames (recvFrame s).2.2 else []
termination_by s.unread.length
decreasing_by exact recvFrame_unread_lt s h

/-- The wire after the sender stopped: the frames of the payloads it sent, and a proper part of another frame. -/
theorem sendFrames_spec (s : TxSock) (ps : List (List UInt8)) (hps : ∀ p ∈ ps, ValidPayload p) :
    ∃ q n, ValidPayload q ∧ n < (frame q).length ∧
      (sendFrames s ps).2.wire = s.wire ++ ((sendFrames s ps).1.flatMap frame ++ (frame q).take n) := by
  induction ps generalizing s with
  | nil => exact ⟨[0], 0, by simp [ValidPayload, maxPayload], by simp, by simp [sendFrames]⟩
  | cons p ps ih =>
    have hp : ValidPayload p := hps p (List.mem_cons_self ..)
    obtain ⟨n, hn, hw, hok⟩ := sendFrame_spec s hp
    rcases h : sendFrame s p with ⟨_ | _, s'⟩
    · rw [h] at hw hok
      have hne : n ≠ (frame p).length := fun heq => by simpa using hok.2 heq
      exact ⟨p, n, hp, by omega, by simpa [sendFrames, h] using hw⟩
    · obtain ⟨q, m, hq, hm, hwire⟩ := ih s' fun p' hp' => hps p' (List.mem_cons_of_mem _ hp')
      rw [h] at hw hok
      have hfull : n = (frame p).length := hok.1 rfl
      refine ⟨q, m, hq, hm, ?_⟩
      rw [hfull, List.take_length] at hw
      dsimp only at hw
      simp only [sendFrames, h, hwire, hw, List.flatMap_cons, List.append_assoc]

theorem sendFrames_valid (s : TxSock) (ps : List (List UInt8)) (hps : ∀ p ∈ ps, ValidPayload p) :
    ∀ p ∈ (sendFrames s ps).1, ValidPayload p := by
  induction ps generalizing s with
  | nil => simp [sendFrames]
  | cons p ps ih =>
    rcases h : sendFrame s p with ⟨_ | _, s'⟩
    · simp [sendFrames, h]
    · simp only [sendFrames, h, List.mem_cons, forall_eq_or_imp]
      exact ⟨hps p (List.mem_cons_self ..), ih s' fun p' hp' => hps p' (List.mem_cons_of_mem _ hp')⟩

/-- Frames followed by a proper part of one are read as the payloads of the frames. -/
theorem recvFrames_spec (ps : List (List UInt8)) {q : List UInt8} {n : ℕ} (hps : ∀ p ∈ ps, ValidPayload p)
    (hq : ValidPayload q) (hn : n < (frame q).length) (s : RxSock) (hsoft : ∀ o ∈ s.sched, o.Soft)
    (hu : s.unread = ps.flatMap frame ++ (frame q).take n) : recvFrames s = ps := by
  induction ps generalizing s with
  | nil =>
    have hcut := recvFrame_cut s hsoft hq.2 hn (by simpa using hu)
    rw [recvFrames, dif_neg (by simp [hcut])]
  | cons p ps ih =>
    have hp : ValidPayload p := hps p (List.mem_cons_self ..)
    have hhead : s.unread = frame p ++ (ps.flatMap frame ++ (frame q).take n) := by
      rw [hu, List.flatMap_cons, List.append_assoc]
    obtain ⟨h1, h2, h3⟩ := recvFrame_frame s hsoft hp.2 hhead
    have hrest := ih (fun p' hp' => hps p' (List.mem_cons_of_mem _ hp')) (recvFrame s).2.2
      (fun o ho => hsoft o (recvFrame_sched s ho)) h3
    rw [recvFrames, dif_pos h1, h2, hrest]

/-- **Round trip.**  The receiver obtains exactly the payloads whose `send_frame` returned `true`. -/
theorem frames_roundtrip (ps : List (List UInt8)) (hps : ∀ p ∈ ps, 1 ≤ p.length ∧ p.length ≤ 1048576)
    (ss : List SendOutcome) (rs : List RecvOutcome) (hrs : ∀ o ∈ rs, o.Soft) :
    recvFrames ⟨(sendFrames ⟨[], ss⟩ ps).2.wire, rs⟩ = (sendFrames ⟨[], ss⟩ ps).1 := by
  have hval : ∀ p ∈ ps, ValidPayload p := hps
  obtain ⟨q, n, hq, hn, hw⟩ := sendFrames_spec ⟨[], ss⟩ ps hval
  exact recvFrames_spec _ (sendFrames_valid _ ps hval) hq hn _ hrs (by simpa using hw)

/-- Two payloads: the first is sent in pieces with a retry, the second is cut off inside its header; the
receiver reads byte by byte. -/
theorem frames_roundtrip_cut :
    recvFrames ⟨(sendFrames ⟨[], [.accept 2, .error .WSAEINTR, .accept 9, .accept 0, .accept 9, .accept 1, .closed]⟩
        [[7, 8], [9]]).2.wire, [.chunk 0, .error .WSAEWOULDBLOCK, .chunk 0, .chunk 0]⟩ =
      (sendFrames ⟨[], [.accept 2, .error .WSAEINTR, .accept 9, .accept 0, .accept 9, .accept 1, .closed]⟩
        [[7, 8], [9]]).1 :=
  frames_roundtrip [[7, 8], [9]] (by simp) _ _ (by simp [RecvOutcome.Soft, WsaError.again])

end TcpChat.Framing
