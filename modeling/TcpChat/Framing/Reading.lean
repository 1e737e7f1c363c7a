import TcpChat.Framing.Stepwise

/-!
# Reading the frames that another thread writes

A reader takes bytes of a stream that is still growing and of which it is only known to be well framed.

* `frames_prefix` — framed payloads can be told from the bytes of their frames;
* `FrameReader.turn_reads` — one answer of `recv`, seen on the whole stream: what has been read are whole frames and the
  bytes of one that is not finished.
-/

namespace TcpChat.Framing

open TcpChat.Lib

/-- The frame of a payload can be told from the bytes that begin with it. -/
theorem frame_append_inj {p q u v : List UInt8} (hp : ValidPayload p) (hq : ValidPayload q)
    (h : frame p ++ u = frame q ++ v) : p = q ∧ u = v := by
  have hlt : ∀ {l : List UInt8}, ValidPayload l → l.length < 256 ^ 4 := fun {l} hl => by
    have := hl.2
    unfold maxPayload at this
    omega
  rw [frame, frame, List.append_assoc, List.append_assoc] at h
  obtain ⟨hsize, hrest⟩ := List.append_inj h (by simp)
  have hlen : p.length = q.length := by
    rw [← ofBE_toBE_of_lt (hlt hp), hsize, ofBE_toBE_of_lt (hlt hq)]
  exact List.append_inj hrest hlen

/-- **The payloads can be told from the bytes of their frames.** -/
theorem frames_prefix {ps qs : List (List UInt8)} {u : List UInt8} (hps : ∀ p ∈ ps, ValidPayload p)
    (hqs : ∀ q ∈ qs, ValidPayload q) (h : (ps.map frame).flatten ++ u = (qs.map frame).flatten) :
    ∃ rs, qs = ps ++ rs ∧ u = (rs.map frame).flatten := by
  induction ps generalizing qs with
  | nil => exact ⟨qs, rfl, h⟩
  | cons p ps ih =>
    cases qs with
    | nil =>
      have hlen := congrArg List.length h
      simp [frame] at hlen
    | cons q qs =>
      simp only [List.map_cons, List.flatten_cons, List.append_assoc] at h
      obtain ⟨rfl, hrest⟩ := frame_append_inj (hps p (by simp)) (hqs q (by simp)) h
      obtain ⟨rs, rfl, hu⟩ := ih (fun p hp => hps p (by simp [hp])) (fun q hq => hqs q (by simp [hq])) hrest
      exact ⟨rs, rfl, hu⟩

theorem frames_inj {ps qs : List (List UInt8)} (hps : ∀ p ∈ ps, ValidPayload p) (hqs : ∀ q ∈ qs, ValidPayload q)
    (h : (ps.map frame).flatten = (qs.map frame).flatten) : ps = qs := by
  obtain ⟨rs, rfl, hrs⟩ := frames_prefix (u := []) hps hqs (by rw [List.append_nil, h])
  cases rs with
  | nil => exact (List.append_nil ps).symm
  | cons r rs =>
    have hlen := congrArg List.length hrs
    simp only [List.length_nil, List.map_cons, List.flatten_cons, List.length_append, length_frame] at hlen
    omega

namespace FrameReader

/-- **One answer of `recv`, seen on the whole stream**: `ps` are the payloads of the frames that have been read. -/
theorem turn_reads {r : FrameReader} {w b rest : List UInt8} {ps : List (List UInt8)} (hr : r.Open) (hb : b ≠ [])
    (hle : b.length ≤ r.wants) (hps : ∀ p ∈ ps, ValidPayload p) (hw : WellFramed w)
    (h : w = (ps.map frame).flatten ++ (r.consumed ++ (b ++ rest))) :
    match r.turn (.bytes b) with
    | .again r' => w = (ps.map frame).flatten ++ (r'.consumed ++ rest)
    | .ret (some msg) => ValidPayload msg ∧ w = ((ps ++ [msg]).map frame).flatten ++ rest
    | .ret none => False := by
  obtain ⟨qs, hqs, tail, htail⟩ := hw
  -- the frames that are still to come
  obtain ⟨rs, rfl, hrs⟩ := frames_prefix (u := r.consumed ++ (b ++ (rest ++ tail))) hps hqs (by simp [← htail, h])
  have hturn := turn_frames hr hb hle (fun p hp => hqs p (List.mem_append_right _ hp)) hrs
  have hcut : ∀ {u : List UInt8}, (ps.map frame).flatten ++ (u ++ tail) = w ++ tail →
      w = (ps.map frame).flatten ++ u := fun {u} hu => by
    rw [← List.append_assoc] at hu
    exact (List.append_cancel_right hu).symm
  cases ht : r.turn (.bytes b) with
  | again r' =>
    rw [ht] at hturn
    refine hcut ?_
    rw [htail, List.map_append, List.flatten_append, List.append_assoc, hturn]
  | ret out =>
    rw [ht] at hturn
    cases out with
    | none => exact hturn
    | some msg =>
      obtain ⟨qs, rfl, hrest⟩ := hturn
      refine ⟨hqs _ (by simp), ?_⟩
      rw [List.map_append, List.flatten_append, List.append_assoc]
      refine hcut ?_
      rw [htail, List.map_append, List.flatten_append, List.append_assoc, hrest]
      simp

end FrameReader

end TcpChat.Framing
