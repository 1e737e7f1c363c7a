import TcpChat.Framing.Codec

/-!
# The grammar of `recv_frame`

What a call of `recv_frame` yields is a function of the stream alone, whatever the schedule of the `recv` calls is,
as long as it has no hard error.

* `SizeField u size rest` — the stream `u` is a length field that says `size`, and `rest`;
* `Parses u ok out rest` — the four ways a stream can begin, with the result, the `out` and the unread rest of each;
* `Parses.unique` — they exclude each other;
* `recvFrame_parses` — `recv_frame` does what the grammar says.
-/

namespace TcpChat.Framing

open TcpChat.Lib

/-- The stream `u` starts with 4 bytes that are the big-endian number `size`, and goes on with `rest`. -/
def SizeField (u : List UInt8) (size : ℕ) (rest : List UInt8) : Prop :=
  ∃ nsize, nsize.length = 4 ∧ ofBE nsize = size ∧ u = nsize ++ rest

/-- A stream before a call of `recv_frame`, and the result, `out` and the unread stream after it. -/
inductive Parses (u : List UInt8) : Bool → List UInt8 → List UInt8 → Prop
  | frame {payload rest : List UInt8} (hu : SizeField u payload.length (payload ++ rest))
      (hmax : payload.length ≤ maxPayload) : Parses u true payload rest
  | tooLong {size : ℕ} {rest : List UInt8} (hu : SizeField u size rest) (hmax : maxPayload < size) :
      Parses u false [] rest
  | cutSize (hu : u.length < 4) : Parses u false [] []
  | cutPayload {size : ℕ} {data : List UInt8} (hu : SizeField u size data) (hmax : size ≤ maxPayload)
      (hlt : data.length < size) : Parses u false (data ++ List.replicate (size - data.length) 0) []

variable {u rest rest' out out' : List UInt8} {size size' : ℕ} {ok ok' : Bool}

theorem SizeField.of_length (h : 4 ≤ u.length) : SizeField u (ofBE (u.take 4)) (u.drop 4) :=
  ⟨u.take 4, by simp [h], rfl, (List.take_append_drop 4 u).symm⟩

theorem SizeField.length (h : SizeField u size rest) : u.length = 4 + rest.length := by
  obtain ⟨nsize, h4, -, rfl⟩ := h
  simp [h4]

/-- A stream has one length field. -/
theorem SizeField.unique (h : SizeField u size rest) (h' : SizeField u size' rest') :
    size = size' ∧ rest = rest' := by
  obtain ⟨nsize, h4, rfl, hu⟩ := h
  obtain ⟨nsize', h4', rfl, hu'⟩ := h'
  obtain ⟨rfl, rfl⟩ := List.append_inj (hu.symm.trans hu') (h4.trans h4'.symm)
  exact ⟨rfl, rfl⟩

/-- A stream begins in one way only. -/
theorem Parses.unique (h : Parses u ok out rest) (h' : Parses u ok' out' rest') :
    ok = ok' ∧ out = out' ∧ rest = rest' := by
  cases h with
  | frame hu hmax =>
    cases h' with
    | frame hu' hmax' =>
      obtain ⟨hlen, hrest⟩ := hu.unique hu'
      obtain ⟨rfl, rfl⟩ := List.append_inj hrest hlen
      exact ⟨rfl, rfl, rfl⟩
    | tooLong hu' hmax' => have := (hu.unique hu').1; omega
    | cutSize hu' => have := hu.length; omega
    | cutPayload hu' hmax' hlt' =>
      obtain ⟨hlen, hrest⟩ := hu.unique hu'
      have := congrArg List.length hrest
      rw [List.length_append] at this
      omega
  | tooLong hu hmax =>
    cases h' with
    | frame hu' hmax' => have := (hu.unique hu').1; omega
    | tooLong hu' hmax' => exact ⟨rfl, rfl, (hu.unique hu').2⟩
    | cutSize hu' => have := hu.length; omega
    | cutPayload hu' hmax' hlt' => have := (hu.unique hu').1; omega
  | cutSize hu =>
    cases h' with
    | cutSize hu' => exact ⟨rfl, rfl, rfl⟩
    | frame hu' hmax' => have := hu'.length; omega
    | tooLong hu' hmax' => have := hu'.length; omega
    | cutPayload hu' hmax' hlt' => have := hu'.length; omega
  | cutPayload hu hmax hlt =>
    cases h' with
    | cutPayload hu' hmax' hlt' =>
      obtain ⟨rfl, rfl⟩ := hu.unique hu'
      exact ⟨rfl, rfl, rfl⟩
    | frame hu' hmax' =>
      obtain ⟨hlen, hrest⟩ := hu.unique hu'
      have := congrArg List.length hrest
      rw [List.length_append] at this
      omega
    | tooLong hu' hmax' => have := (hu.unique hu').1; omega
    | cutSize hu' => have := hu.length; omega

/-- **`recv_frame` reads by the grammar**, under any schedule without hard errors. -/
theorem recvFrame_parses (s : RxSock) (hsoft : ∀ o ∈ s.sched, o.Soft) :
    Parses s.unread (recvFrame s).1 (recvFrame s).2.1 (recvFrame s).2.2.unread := by
  obtain ⟨h1, h2, h3⟩ := recvAll_spec s 4 [] (Nat.zero_le _) hsoft
  have hsub := recvAll_sched s 4 []
  unfold recvFrame
  generalize recvAll s 4 [] = r at *
  obtain ⟨ok, nsize, s'⟩ := r
  simp only [List.length_nil, Nat.zero_add, Nat.sub_zero, List.nil_append] at h1 h2 h3
  subst h1 h2
  by_cases h4 : 4 ≤ s.unread.length
  · have hfield : SizeField s.unread (ofBE (s.unread.take 4)) s'.unread := h3 ▸ .of_length h4
    simp only [h4, decide_true]
    generalize ofBE (s.unread.take 4) = size at *
    by_cases hmax : maxPayload < size
    · simp only [hmax, if_true]
      exact .tooLong hfield hmax
    · by_cases h0 : size = 0
      · subst h0
        simp only [hmax, if_true, if_false]
        exact .frame hfield (Nat.zero_le _)
      · obtain ⟨g1, g2, g3⟩ := recvAll_spec s' size [] (Nat.zero_le _) fun o ho => hsoft o (hsub ho)
        simp only [hmax, h0, if_false]
        generalize recvAll s' size [] = r at *
        obtain ⟨ok', data, s''⟩ := r
        simp only [List.length_nil, Nat.zero_add, Nat.sub_zero, List.nil_append] at g1 g2 g3
        subst g1 g2
        rw [g3]
        by_cases hle : size ≤ s'.unread.length
        · -- the payload is there: no zero of the string is left
          have hlen : (s'.unread.take size).length = size := by simp [hle]
          simp only [hle, decide_true, hlen, Nat.sub_self, List.replicate_zero, List.append_nil]
          refine .frame ?_ (by omega)
          rw [hlen, List.take_append_drop]
          exact hfield
        · have hlt : s'.unread.length < size := by omega
          rw [List.take_of_length_le hlt.le, List.drop_of_length_le hlt.le]
          simp only [hle, decide_false]
          exact .cutPayload hfield (by omega) hlt
  · have hnil : s'.unread = [] := by rw [h3]; exact List.drop_of_length_le (by omega)
    simp only [h4, decide_false, hnil]
    exact .cutSize (by omega)

/-- **`recv_frame` accepts exactly its grammar, whatever the fragmentation**: it returns `true` if and only if the
stream begins with a length of at most `MAX_PAYLOAD` and that many bytes, which are then `out`, and leaves the rest
unread; after a larger length it returns `false` with `out` empty and has read no byte of what follows; and two
schedules of one stream give the same result, the same `out` and the same unread bytes. -/
theorem recvFrame_grammar (u : List UInt8) (sched sched' : List RecvOutcome) (hsoft : ∀ o ∈ sched, o.Soft)
    (hsoft' : ∀ o ∈ sched', o.Soft) :
    let (ok, out, s) := recvFrame ⟨u, sched⟩
    let (ok', out', s') := recvFrame ⟨u, sched'⟩
    (ok = true ↔ ∃ nsize payload rest, u = nsize ++ payload ++ rest ∧ nsize.length = 4 ∧
      payload.length = ofBE nsize ∧ ofBE nsize ≤ 1048576) ∧
    (∀ nsize payload rest, u = nsize ++ payload ++ rest → nsize.length = 4 → payload.length = ofBE nsize →
      ofBE nsize ≤ 1048576 → out = payload ∧ s.unread = rest ∧ u.length - s.unread.length = 4 + ofBE nsize) ∧
    (∀ nsize rest, u = nsize ++ rest → nsize.length = 4 → 1048576 < ofBE nsize →
      ok = false ∧ out = [] ∧ s.unread = rest ∧ u.length - s.unread.length = 4) ∧
    ok' = ok ∧ out' = out ∧ s'.unread = s.unread := by
  have hp := recvFrame_parses ⟨u, sched⟩ hsoft
  have hp' := recvFrame_parses ⟨u, sched'⟩ hsoft'
  generalize recvFrame ⟨u, sched⟩ = r at *
  generalize recvFrame ⟨u, sched'⟩ = r' at *
  obtain ⟨ok, out, s⟩ := r
  obtain ⟨ok', out', s'⟩ := r'
  dsimp only at hp hp' ⊢
  refine ⟨⟨?_, ?_⟩, ?_, ?_, hp'.unique hp⟩
  · rintro rfl
    cases hp with
    | frame hu hmax =>
      obtain ⟨nsize, h4, hlen, rfl⟩ := hu
      exact ⟨nsize, out, s.unread, by simp, h4, hlen.symm, hlen ▸ hmax⟩
  · rintro ⟨nsize, payload, rest, hu, h4, hlen, hmax⟩
    have hf : Parses u true payload rest := .frame ⟨nsize, h4, hlen.symm, by simp [hu]⟩ (hlen ▸ hmax)
    exact (hp.unique hf).1
  · intro nsize payload rest hu h4 hlen hmax
    have hf : Parses u true payload rest := .frame ⟨nsize, h4, hlen.symm, by simp [hu]⟩ (hlen ▸ hmax)
    obtain ⟨-, rfl, rfl⟩ := hp.unique hf
    refine ⟨rfl, rfl, ?_⟩
    rw [hu, List.length_append, List.length_append]
    omega
  · intro nsize rest hu h4 hmax
    have hf : Parses u false [] rest := .tooLong ⟨nsize, h4, rfl, hu⟩ hmax
    obtain ⟨rfl, rfl, rfl⟩ := hp.unique hf
    refine ⟨rfl, rfl, rfl, ?_⟩
    rw [hu, List.length_append]
    omega

theorem recvFrame_grammar_split :
    let sched : List RecvOutcome := [.chunk 1, .error .WSAEINTR, .chunk 0, .error .WSAEWOULDBLOCK]
    (∀ o ∈ sched, o.Soft) ∧ (recvFrame ⟨[0, 0, 0, 2, 104, 105, 0], sched⟩).1 = true := by
  have hsoft : ∀ o ∈ ([.chunk 1, .error .WSAEINTR, .chunk 0, .error .WSAEWOULDBLOCK] : List RecvOutcome), o.Soft := by
    simp [RecvOutcome.Soft, WsaError.again]
  refine ⟨hsoft, ?_⟩
  have h := (recvFrame_grammar [0, 0, 0, 2, 104, 105, 0] _ [] hsoft (by simp)).1
  exact h.2 ⟨[0, 0, 0, 2], [104, 105], [0], rfl, rfl, by decide, by decide⟩

end TcpChat.Framing
