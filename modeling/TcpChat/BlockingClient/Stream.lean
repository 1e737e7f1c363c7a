import TcpChat.BlockingClient.Model
import Mathlib.Data.List.Forall2

/-!
# What the blocking client sends and shows

`SendMessages` sends the lines without a separator, and goes on with the next line when `send` fails.  `ReceiveMessages`
and `GracefulShutDown` read from the same socket.

* `Sends` — the invariant: for every line, what has been sent of it;
* `sent_lines` — the bytes sent are the beginnings of the lines, one after the other; the whole lines if no `send` fails;
* `Splits` — the invariant: which thread has got which bytes;
* `shown_stream` — what is shown is the beginning of what has come from the server; after a gap, which only `Disconnect`
  makes, at most one result of `recv` follows.
-/

namespace TcpChat.BlockingClient

open TcpChat.Lib

/-- `Run` is in `Disconnect`, or behind it. -/
def MainPc.Disconnecting : MainPc → Prop
  | .shutdown | .drain | .close | .join | .done => True
  | _ => False

instance : DecidablePred MainPc.Disconnecting := fun p =>
  decidable_of_iff (p matches .shutdown | .drain | .close | .join | .done) (by cases p <;> simp [MainPc.Disconnecting])

/-- The message that `ReceiveMessages` has in hand. -/
def RecvPc.inHand : RecvPc → List (List UInt8)
  | .print msg => [msg]
  | _ => []

namespace Client

/-- A call of `send` fails. -/
def SendFails (c : Client) : Thread × Input → Prop
  | (.main, .failed) => ∃ left, c.main = .send left
  | _ => False

instance (c : Client) : DecidablePred c.SendFails
  | (.main, .failed) => decidable_of_iff (c.main matches .send _) (by cases h : c.main <;> simp [SendFails, h])
  | (.main, .go) | (.main, .line _) | (.main, .eof) | (.main, .count _) | (.recv, _) => isFalse id

variable {c c' : Client} {t : Thread} {x : Input} {rel : List UInt8 → List UInt8 → Prop}

/-! ## Sending -/

/-- The lines before the one at hand have been sent as far as `rel` says. -/
structure Sends (rel : List UInt8 → List UInt8 → Prop) (c : Client) : Prop where
  wire : c.wire = c.sent.flatten
  lines : match c.main with
    | .test msg => ∃ lines, c.typed = lines ++ [msg] ∧ List.Forall₂ rel c.sent lines
    | .send left => ∃ lines parts p, c.typed = lines ++ [p ++ left] ∧ c.sent = parts ++ [p] ∧ List.Forall₂ rel parts lines
    | .store | .spawn | .getline => List.Forall₂ rel c.sent c.typed
    | _ => ∃ lines rest, c.typed = lines ++ rest ∧ List.Forall₂ rel c.sent lines ∧ rest.length ≤ 1

theorem mainStep_sends (hs : c.Sends rel) (hrefl : ∀ l, rel l l) (hcut : c.SendFails (.main, x) → ∀ p l, rel p (p ++ l))
    (h : c.mainStep x = some c') : c'.Sends rel := by
  obtain ⟨hwire, hlines⟩ := hs
  cases hp : c.main with
  | send left =>
    rw [hp] at hlines
    obtain ⟨lines, parts, p, htyped, hsent, hrel⟩ := hlines
    cases left with
    | nil =>
      cases x <;> simp only [mainStep, hp, Option.some.injEq, reduceCtorEq] at h
      subst h
      refine ⟨hwire, ?_⟩
      rw [List.append_nil] at htyped
      simp only [htyped, hsent]
      exact List.rel_append hrel (.cons (hrefl p) .nil)
    | cons b left =>
      cases x with
      | count n =>
        simp only [mainStep, hp, Option.ite_none_right_eq_some, Option.some.injEq] at h
        obtain ⟨-, rfl⟩ := h
        refine ⟨?_, lines, parts, p ++ (b :: left).take n, ?_, ?_, hrel⟩
        · simp [accept, hsent, hwire]
        · rw [List.append_assoc, List.take_append_drop]
          exact htyped
        · simp [accept, hsent]
      | failed =>
        simp only [mainStep, hp, Option.some.injEq] at h
        subst h
        refine ⟨hwire, ?_⟩
        simp only [htyped, hsent]
        exact List.rel_append hrel (.cons (hcut ⟨_, hp⟩ p _) .nil)
      | go | line msg | eof => simp [mainStep, hp] at h
  | getline =>
    rw [hp] at hlines
    cases x <;> simp only [mainStep, hp, Option.some.injEq, reduceCtorEq] at h
    all_goals subst h
    · exact ⟨hwire, c.typed, rfl, hlines⟩
    · exact ⟨hwire, c.typed, [], (List.append_nil _).symm, hlines, Nat.zero_le 1⟩
  | test msg =>
    rw [hp] at hlines
    obtain ⟨lines, htyped, hrel⟩ := hlines
    cases x <;> simp only [mainStep, hp, reduceCtorEq] at h
    split at h <;> cases h
    · exact ⟨by simp [hwire], lines, c.sent, [], htyped, rfl, hrel⟩
    · exact ⟨hwire, lines, [msg], htyped, hrel, Nat.le_refl _⟩
  | drain =>
    rw [hp] at hlines
    simp only [mainStep, hp] at h
    split at h <;> cases h
    · exact ⟨hwire, hlines⟩
    · exact ⟨hwire, by simpa only [take, hp] using hlines⟩
  | store | spawn | stop | shutdown | close | join | done =>
    rw [hp] at hlines
    cases x <;> simp only [mainStep, hp, reduceCtorEq] at h
    all_goals try split at h
    all_goals cases h
    all_goals exact ⟨hwire, hlines⟩

theorem recvStep_sends (hs : c.Sends rel) (h : c.recvStep x = some c') : c'.Sends rel := by
  have hsame : c'.wire = c.wire ∧ c'.sent = c.sent ∧ c'.typed = c.typed ∧ c'.main = c.main := by
    unfold recvStep at h
    repeat' split at h
    all_goals cases h
    all_goals exact ⟨rfl, rfl, rfl, rfl⟩
  obtain ⟨hwire, hsent, htyped, hmain⟩ := hsame
  refine ⟨by rw [hwire, hsent, hs.wire], ?_⟩
  rw [hmain, hsent, htyped]
  exact hs.lines

theorem Sends.step (hs : c.Sends rel) (hrefl : ∀ l, rel l l) (hcut : c.SendFails (t, x) → ∀ p l, rel p (p ++ l))
    (h : c.step (t, x) = some c') : c'.Sends rel := by
  cases t with
  | main => exact mainStep_sends hs hrefl hcut h
  | recv => exact recvStep_sends hs h

/-! ## Receiving -/

/-- Which thread has got which bytes: until `Disconnect` all of them go to `ReceiveMessages`, and after the first that go to
`GracefulShutDown` at most one more result of `recv`. -/
structure Splits (c : Client) : Prop where
  created : c.main = .store ∨ c.main = .spawn → c.recv = .off
  stream : (c.taken.map Prod.snd).flatten ++ c.unread = c.stream
  shown : (c.taken.filter fun r => r.1 = .recv).map Prod.snd = c.printed ++ c.recv.inHand
  inactive : c.main.Disconnecting → c.active = false
  split : ∃ shown gap late rest : List (List UInt8),
    c.taken = shown.map (Thread.recv, ·) ++ gap.map (Thread.main, ·) ++ late.map (Thread.recv, ·) ++
        rest.map (Thread.main, ·) ∧
      late.length ≤ 1 ∧ (¬ c.main.Disconnecting → gap = [] ∧ late = [] ∧ rest = []) ∧
      (late = [] → rest = []) ∧ (late ≠ [] → c.main.Disconnecting ∧ c.recv ≠ .recv)

/-- A step that takes nothing from the socket. -/
theorem Splits.keep (hs : c.Splits) (hcreated : c'.main = .store ∨ c'.main = .spawn → c'.recv = .off)
    (hstream : c'.stream = c.stream) (hunread : c'.unread = c.unread) (htaken : c'.taken = c.taken)
    (hshown : c'.printed ++ c'.recv.inHand = c.printed ++ c.recv.inHand)
    (hmain : c.main.Disconnecting → c'.main.Disconnecting) (hinactive : c'.main.Disconnecting → c'.active = false)
    (hrecv : c'.recv = .recv → c.recv = .recv ∨ ¬ c.main.Disconnecting) : c'.Splits := by
  obtain ⟨-, hs1, hs2, -, shown, gap, late, rest, htk, hlate, hearly, hrest, hlast⟩ := hs
  refine ⟨hcreated, ?_, ?_, hinactive, shown, gap, late, rest, ?_, hlate, fun hd => hearly (mt hmain hd), hrest, fun hne => ?_⟩
  · rw [htaken, hunread, hstream, hs1]
  · rw [htaken, hshown, hs2]
  · rw [htaken, htk]
  · obtain ⟨hd, hne'⟩ := hlast hne
    exact ⟨hmain hd, fun hr => (hrecv hr).elim hne' fun hn => hn hd⟩

/-- `recv` has answered a thread. -/
theorem recvCall_take {wants n : ℕ} {msg : List UInt8} (h : c.recvCall wants (.count n) = some (some msg)) :
    msg ++ c.unread.drop msg.length = c.unread ∧ 0 < msg.length ∧ msg.length ≤ wants := by
  simp only [recvCall, Option.ite_none_right_eq_some, Option.some.injEq] at h
  obtain ⟨⟨-, h0, hw, hu⟩, rfl⟩ := h
  rw [List.length_take, Nat.min_eq_left hu]
  exact ⟨List.take_append_drop _ _, h0, hw⟩

theorem taken_stream {msg : List UInt8} (h : (c.taken.map Prod.snd).flatten ++ c.unread = c.stream)
    (hmsg : msg ++ c.unread.drop msg.length = c.unread) :
    (((c.taken ++ [(t, msg)]).map Prod.snd).flatten) ++ c.unread.drop msg.length = c.stream := by
  simp [hmsg, h]

theorem Splits.drain {wants : ℕ} {msg : List UInt8} (hs : c.Splits) (hp : c.main = .drain)
    (hmsg : c.recvCall wants x = some (some msg)) : (c.take .main msg).Splits := by
  cases x with
  | count n =>
    obtain ⟨hcreated, hs1, hs2, hinactive, shown, gap, late, rest, htk, hlate, -, hrest, hlast⟩ := hs
    have hd : c.main.Disconnecting := by rw [hp]; trivial
    refine ⟨hcreated, taken_stream hs1 (recvCall_take hmsg).1, ?_, hinactive, ?_⟩
    · simpa [take, printed] using hs2
    · by_cases hl : late = []
      · obtain rfl := hrest hl
        subst hl
        exact ⟨shown, gap ++ [msg], [], [], by simp [take, htk], Nat.zero_le 1, fun hn => absurd hd hn, fun _ => rfl,
          fun hne => absurd rfl hne⟩
      · exact ⟨shown, gap, late, rest ++ [msg], by simp [take, htk], hlate, fun hn => absurd hd hn,
          fun hn => absurd hn hl, fun _ => hlast hl⟩
  | go | line msg | eof | failed => simp [recvCall] at hmsg

theorem Splits.receive {wants : ℕ} {msg : List UInt8} (hs : c.Splits) (hp : c.recv = .recv)
    (hmsg : c.recvCall wants x = some (some msg)) : ({ c.take .recv msg with recv := .print msg } : Client).Splits := by
  cases x with
  | count n =>
    obtain ⟨hcreated, hs1, hs2, hinactive, shown, gap, late, rest, htk, -, hearly, hrest, hlast⟩ := hs
    have hoff : ¬ (c.main = .store ∨ c.main = .spawn) := fun hm => by simp [hcreated hm] at hp
    obtain rfl : late = [] := by_contra fun hne => (hlast hne).2 hp
    obtain rfl := hrest rfl
    refine ⟨fun hm => absurd hm hoff, taken_stream hs1 (recvCall_take hmsg).1, ?_, hinactive, ?_⟩
    · rw [hp] at hs2
      simpa [take, RecvPc.inHand, printed] using hs2
    · by_cases hg : gap = []
      · subst hg
        exact ⟨shown ++ [msg], [], [], [], by simp [take, htk], Nat.zero_le 1, fun _ => ⟨rfl, rfl, rfl⟩, fun _ => rfl,
          fun hne => absurd rfl hne⟩
      · have hd : c.main.Disconnecting := by_contra fun hn => hg (hearly hn).1
        exact ⟨shown, gap, [msg], [], by simp [take, htk], Nat.le_refl _, fun hn => absurd hd hn, fun _ => rfl,
          fun _ => ⟨hd, nofun⟩⟩
  | go | line msg | eof | failed => simp [recvCall] at hmsg

theorem Splits.step (hs : c.Splits) (h : c.step (t, x) = some c') : c'.Splits := by
  have hcreated := hs.created
  have hinactive := hs.inactive
  cases t with
  | main =>
    simp only [Client.step] at h
    cases hp : c.main with
    | drain =>
      simp only [mainStep, hp] at h
      split at h
      · cases h
      · cases h
        exact hs.keep nofun rfl rfl rfl rfl (fun _ => trivial) (fun _ => hinactive (by rw [hp]; trivial)) .inl
      · cases h
        exact hs.drain hp ‹_›
    | spawn =>
      cases x <;> simp only [mainStep, hp, Option.some.injEq, reduceCtorEq] at h
      subst h
      have hoff := hcreated (.inr hp)
      exact hs.keep nofun rfl rfl rfl (by simp [hoff, RecvPc.inHand, printed]) (by simp [hp, MainPc.Disconnecting]) False.elim nofun
    | send left =>
      cases left <;> cases x <;> simp only [mainStep, hp, Option.some.injEq, Option.ite_none_right_eq_some, reduceCtorEq] at h
      all_goals first
        | subst h
        | obtain ⟨-, rfl⟩ := h
      all_goals exact hs.keep nofun rfl rfl rfl rfl (by simp [hp, MainPc.Disconnecting]) False.elim .inl
    | store | getline | test msg | stop | shutdown | close | join | done =>
      cases x <;> simp only [mainStep, hp, reduceCtorEq] at h
      all_goals try split at h
      all_goals cases h
      all_goals refine hs.keep ?_ rfl rfl rfl rfl ?_ ?_ .inl
      all_goals simp_all [MainPc.Disconnecting]
  | recv =>
    simp only [Client.step] at h
    have hon : c.recv ≠ .off → ¬ (c.main = .store ∨ c.main = .spawn) := fun hoff hm => hoff (hcreated hm)
    cases hp : c.recv with
    | recv =>
      simp only [recvStep, hp] at h
      split at h
      · cases h
      · cases h
        exact hs.keep (fun hm => absurd hm (hon (by simp [hp]))) rfl rfl rfl (by simp [hp, RecvPc.inHand, printed]) id hinactive
          nofun
      · cases h
        exact hs.receive hp ‹_›
    | test =>
      cases x <;> simp only [recvStep, hp, Option.some.injEq, reduceCtorEq] at h
      subst h
      refine hs.keep (fun hm => absurd hm (hon (by simp [hp]))) rfl rfl rfl ?_ id hinactive fun hr => .inr fun hd => ?_
      · by_cases ha : c.active <;> simp [ha, hp, RecvPc.inHand, printed]
      · simp [hinactive hd] at hr
    | off | print msg | notice | store | done =>
      cases x <;> simp only [recvStep, hp, Option.some.injEq, reduceCtorEq] at h
      all_goals subst h
      all_goals refine hs.keep (fun hm => absurd hm (hon (by simp [hp]))) rfl rfl rfl ?_ id ?_ nofun
      all_goals first
        | exact hinactive
        | exact fun _ => rfl
        | simp [hp, RecvPc.inHand, printed, Line.body?]

/-! ## The notice -/

/-- The notice that the server has disconnected is on the last line, and is shown when `ReceiveMessages` ends. -/
def Noticed (c : Client) : Prop :=
  c.cout = c.printed.map .msg ∨ c.cout = c.printed.map .msg ++ [.disconnected] ∧ (c.recv = .store ∨ c.recv = .done)

theorem Noticed.step (hn : c.Noticed) (h : c.step (t, x) = some c') (hoff : c.main = .spawn → c.recv = .off) : c'.Noticed := by
  cases t with
  | main =>
    have hsame : c'.cout = c.cout ∧ (c'.recv = c.recv ∨ c.recv = .off) := by
      simp only [Client.step, mainStep] at h
      repeat' split at h
      all_goals simp only [Option.some.injEq, reduceCtorEq] at h
      all_goals subst h
      all_goals first
        | exact ⟨rfl, .inl rfl⟩
        | exact ⟨rfl, .inr (hoff ‹_›)⟩
    obtain ⟨hcout, hrecv⟩ := hsame
    rw [Noticed, printed, hcout]
    refine hn.imp_right fun ⟨h1, h2⟩ => ⟨h1, ?_⟩
    rcases hrecv with hrecv | hrecv
    · rwa [hrecv]
    · simp [hrecv] at h2
  | recv =>
    have hon : c.recv ≠ .store → c.recv ≠ .done → c.cout = c.printed.map .msg := fun h1 h2 =>
      hn.resolve_right fun ⟨_, h3⟩ => h3.elim h1 h2
    simp only [Client.step] at h
    cases hp : c.recv with
    | recv =>
      have hcout := hon (by simp [hp]) (by simp [hp])
      simp only [recvStep, hp] at h
      split at h
      all_goals cases h
      all_goals exact .inl hcout
    | store | done =>
      cases x <;> simp only [recvStep, hp, Option.some.injEq, reduceCtorEq] at h
      all_goals subst h
      all_goals exact hn.imp_right fun ⟨h1, _⟩ => ⟨h1, .inr rfl⟩
    | off | test | print msg | notice =>
      obtain ⟨ms, hcout⟩ : ∃ ms : List (List UInt8), c.cout = ms.map .msg := ⟨_, hon (by simp [hp]) (by simp [hp])⟩
      cases x <;> simp only [recvStep, hp, Option.some.injEq, reduceCtorEq] at h
      all_goals subst h
      all_goals simp only [Noticed, printed, hcout, List.filterMap_append]
      all_goals simp [List.filterMap_map, Function.comp_def, Line.body?]

end Client

/-! ## Runs -/

variable {c : Client} {ok : Client → Thread × Input → Prop}

/-- For every line that has been typed what has been sent of it, except for a line that came when the server had
disconnected. -/
theorem sends {rel : List UInt8 → List UInt8 → Prop} (hrefl : ∀ l, rel l l)
    (hcut : ∀ c i, ok c i → c.SendFails i → ∀ p l, rel p (p ++ l)) (h : client.Reach ok c) : c.Sends rel := by
  refine h.invariant (Client.Sends rel) ?_ fun c ⟨t, x⟩ c' _ hs ho hst => hs.step hrefl (hcut c (t, x) ho) hst
  rintro c ⟨stream, rfl⟩
  exact ⟨rfl, .nil⟩

theorem sends_beginnings (h : client.Reach ok c) : c.Sends (· <+: ·) :=
  sends List.prefix_refl (fun _ _ _ _ => List.prefix_append) h

theorem sends_whole (h : client.Reach (fun c i => ¬ c.SendFails i) c) : c.Sends (· = ·) :=
  sends (fun _ => rfl) (fun _ _ ho hf => absurd hf ho) h

theorem splits (h : client.Reach ok c) : c.Splits := by
  refine h.invariant Client.Splits ?_ fun c ⟨t, x⟩ c' _ hs _ hst => hs.step hst
  rintro c ⟨stream, rfl⟩
  exact ⟨fun _ => rfl, rfl, rfl, False.elim, [], [], [], [], rfl, Nat.zero_le 1, fun _ => ⟨rfl, rfl, rfl⟩, fun _ => rfl,
    fun hne => absurd rfl hne⟩

/-- What has been sent of the lines that have been typed: of every line, except perhaps the last one, a beginning. -/
def Client.SentTyped (c : Client) : Prop :=
  ∃ parts lines rest, c.wire = parts.flatten ∧ c.typed = lines ++ rest ∧ rest.length ≤ 1 ∧
    List.Forall₂ (· <+: ·) parts lines

theorem Client.Sends.sentTyped (hs : c.Sends (· <+: ·)) : c.SentTyped := by
  obtain ⟨hwire, hlines⟩ := hs
  cases hp : c.main with
  | test msg =>
    rw [hp] at hlines
    obtain ⟨lines, htyped, hrel⟩ := hlines
    exact ⟨c.sent, lines, [msg], hwire, htyped, Nat.le_refl _, hrel⟩
  | send left =>
    rw [hp] at hlines
    obtain ⟨lines, parts, p, htyped, hsent, hrel⟩ := hlines
    exact ⟨c.sent, c.typed, [], hwire, (List.append_nil _).symm, Nat.zero_le _, by
      rw [hsent, htyped]
      exact List.rel_append hrel (.cons (List.prefix_append _ _) .nil)⟩
  | store | spawn | getline =>
    rw [hp] at hlines
    exact ⟨c.sent, c.typed, [], hwire, (List.append_nil _).symm, Nat.zero_le _, hlines⟩
  | stop | shutdown | drain | close | join | done =>
    rw [hp] at hlines
    obtain ⟨lines, rest, htyped, hrel, hrest⟩ := hlines
    exact ⟨c.sent, lines, rest, hwire, htyped, hrest, hrel⟩

/-- The lines are sent whole, and nothing else is. -/
theorem Client.Sends.whole (hs : c.Sends (· = ·)) :
    c.wire <+: c.typed.flatten ∧ (c.main = .getline → c.wire = c.typed.flatten) := by
  obtain ⟨hwire, hlines⟩ := hs
  cases hp : c.main with
  | test msg =>
    rw [hp] at hlines
    obtain ⟨lines, htyped, hrel⟩ := hlines
    rw [List.forall₂_eq_eq_eq] at hrel
    exact ⟨by simp [hwire, htyped, hrel], nofun⟩
  | send left =>
    rw [hp] at hlines
    obtain ⟨lines, parts, p, htyped, hsent, hrel⟩ := hlines
    rw [List.forall₂_eq_eq_eq] at hrel
    exact ⟨⟨left, by simp [hwire, htyped, hsent, hrel]⟩, nofun⟩
  | store | spawn | getline =>
    rw [hp] at hlines
    rw [List.forall₂_eq_eq_eq] at hlines
    exact ⟨by simp [hwire, hlines], fun _ => by rw [hwire, hlines]⟩
  | stop | shutdown | drain | close | join | done =>
    rw [hp] at hlines
    obtain ⟨lines, rest, htyped, hrel, -⟩ := hlines
    rw [List.forall₂_eq_eq_eq] at hrel
    exact ⟨by simp [hwire, htyped, hrel], nofun⟩

/-- What the client shows of the stream of the server: its beginning, and at most one more result of `recv`, after a gap
that `Disconnect` has made. -/
def Client.ShowsStream (c : Client) : Prop :=
  ∃ shown gap late : List (List UInt8), c.printed ++ c.recv.inHand = shown ++ late ∧ late.length ≤ 1 ∧
    shown.flatten ++ gap.flatten ++ late.flatten <+: c.stream ∧
    (¬ c.main.Disconnecting → gap = [] ∧ late = [] ∧ shown.flatten ++ c.unread = c.stream)

theorem Client.Splits.showsStream (hs : c.Splits) : c.ShowsStream := by
  obtain ⟨-, hstream, hshown, -, shown, gap, late, rest, htk, hlate, hearly, -, -⟩ := hs
  refine ⟨shown, gap, late, ?_, hlate, ?_, fun hd => ?_⟩
  · rw [← hshown, htk]
    simp [List.filter_map, Function.comp_def]
  · rw [← hstream, htk]
    refine ⟨rest.flatten ++ c.unread, ?_⟩
    simp [Function.comp_def]
  · obtain ⟨rfl, rfl, rfl⟩ := hearly hd
    refine ⟨rfl, rfl, ?_⟩
    rw [← hstream, htk]
    simp [Function.comp_def]

theorem noticed (h : client.Reach ok c) : c.Noticed := by
  refine h.invariant Client.Noticed ?_ fun c ⟨t, x⟩ c' hr hn _ hst => hn.step hst fun hp => (splits hr).created (.inr hp)
  rintro c ⟨stream, rfl⟩
  exact .inl rfl

/-- **What `SendMessages` has sent** are beginnings of the lines that have been typed, one after the other and with nothing
between them; the lines are whole if no `send` has failed. -/
theorem sent_typed (h : client.Reach ok c) :
    c.SentTyped ∧ ((∀ c i, ok c i → ¬ c.SendFails i) →
      c.wire <+: c.typed.flatten ∧ (c.main = .getline → c.wire = c.typed.flatten)) :=
  ⟨(sends_beginnings h).sentTyped, fun hok => (sends_whole (h.mono hok)).whole⟩

/-- A line is cut short by a failing `send`, and the next one is sent. -/
def cutLine : List (Thread × Input) :=
  [(.main, .go), (.main, .go), (.main, .line [104, 105]), (.main, .go), (.main, .count 1), (.main, .failed),
    (.main, .line [120]), (.main, .go), (.main, .count 1)]

theorem sent_typed_cutLine :
    (client.run (.start []) cutLine).map (fun c => (c.typed, c.wire)) = some ([[104, 105], [120]], [104, 120]) ∧
      ∀ c ∈ client.run (.start []) cutLine, c.SentTyped := by
  refine ⟨by decide, fun c hc => ?_⟩
  exact (sent_typed (System.reachable_of_run ⟨_, rfl⟩ hc)).1

/-- **What the client shows** is the stream of the server, except for one gap at most, and the notice that the server has
disconnected on the last line. -/
theorem shown_stream (h : client.Reach ok c) : c.ShowsStream ∧ c.Noticed := ⟨(splits h).showsStream, noticed h⟩

/-- `ReceiveMessages` is in `recv` when the user ends the input, and `GracefulShutDown` is faster than it. -/
def lateMessage : List (Thread × Input) :=
  [(.main, .go), (.main, .go), (.recv, .go), (.recv, .count 1), (.recv, .go), (.recv, .go), (.main, .eof), (.main, .go),
    (.main, .go), (.main, .count 1), (.recv, .count 1), (.recv, .go), (.main, .failed), (.main, .go), (.recv, .go),
    (.main, .go)]

theorem shown_stream_lateMessage :
    (client.run (.start [1, 2, 3]) lateMessage).map (fun c => (c.printed, c.main)) = some ([[1], [3]], .done) ∧
      ∀ c ∈ client.run (.start [1, 2, 3]) lateMessage, c.ShowsStream := by
  refine ⟨by decide, fun c hc => ?_⟩
  exact (shown_stream (System.reachable_of_run ⟨_, rfl⟩ hc)).1

end TcpChat.BlockingClient
