import TcpChat.EpollClient.Model

/-!
# What waits to be sent is waited for

`epoll_wait` reports that the socket can be written only if it is registered with `EPOLLOUT`.  `Send` asks for that
through `ModWritable`, which does nothing before `AddSockToEpoll`, and `AddSockToEpoll` does not look at the queue.  The
mutex is taken to be one that its holder can lock again.

* `Nested` — the holder of the mutex has locked it as often as its position says;
* `Armed` — what the network thread waits for, and `Wired`, the invariant;
* `armed_of_reach` — it waits for `EPOLLOUT` if no finished `Send` came before `AddSockToEpoll`;
* `unarmed_of_early` — after such a `Send` it does not.
-/

namespace TcpChat.EpollClient

open TcpChat.Lib TcpChat.EventLoop

/-! ## The mutex -/

def ModPc.depth : ModPc → ℕ
  | .read | .unlock _ => 1
  | _ => 0

/-- How often the network thread has locked the mutex. -/
def NetPc.depth : NetPc → ℕ
  | .writeTest _ | .writeSend _ | .writeUnlock _ _ | .checkTest _ | .checkUnlock _ => 1
  | .mod _ p _ _ => p.depth + 1
  | _ => 0

def InputPc.depth : InputPc → ℕ
  | .sendPush _ | .sendUnlock => 1
  | .mod p => p.depth
  | _ => 0

/-- A call of `Send` is in progress. -/
def InputPc.Sending : InputPc → Prop
  | .sendLock _ | .sendPush _ | .sendUnlock | .mod _ => True
  | _ => False

instance : DecidablePred InputPc.Sending
  | .sendLock _ | .sendPush _ | .sendUnlock | .mod _ => isTrue trivial
  | .getline | .stop _ | .join | .done => isFalse id

/-- The network thread is in `RunLoop`. -/
def NetPc.InLoop : NetPc → Prop
  | .connect | .setNonBlocking | .storeRunning | .createEpoll | .addSock | .stop _ | .done => False
  | _ => True

/-- The network thread has called `ModWritable(false)`. -/
def NetPc.Disarms : NetPc → Prop
  | .mod false _ _ _ => True
  | _ => False

/-- `ModWritable` is about to set the mask `event`. -/
def ModPc.Sets (event : UInt32) : ModPc → Prop
  | .unlock e | .ctl e => e = event
  | _ => False

namespace Client

variable {s s' : Client} {t : Thread} {x : Input}

/-- Only one thread holds the mutex, and it has locked it as often as its position says. -/
structure Nested (s : Client) : Prop where
  mutex : s.mutex = List.replicate s.net.depth .net ++ List.replicate s.input.depth .input
  one : s.net.depth = 0 ∨ s.input.depth = 0

/-- A step of the thread `t` leaves the mutex alone, locks it or unlocks it once. -/
def Relocks (t : Thread) (m m' : List Thread) (d d' : ℕ) : Prop :=
  m' = m ∧ d' = d ∨ (m = [] ∨ t ∈ m) ∧ m' = t :: m ∧ d' = d + 1 ∨ m' = m.tail ∧ d = d' + 1

theorem lock_true : s.lock true t = some s' ↔ (s.mutex = [] ∨ t ∈ s.mutex) ∧ s' = { s with mutex := t :: s.mutex } := by
  unfold lock
  by_cases hm : s.mutex = [] ∨ t ∈ s.mutex <;> simp [hm, eq_comm]

theorem Relocks.succ {m m' : List Thread} {d d' : ℕ} (h : Relocks t m m' d d') : Relocks t m m' (d + 1) (d' + 1) := by
  rcases h with ⟨hm, rfl⟩ | ⟨hfree, hm, rfl⟩ | ⟨hm, rfl⟩
  · exact .inl ⟨hm, rfl⟩
  · exact .inr (.inl ⟨hfree, hm, rfl⟩)
  · exact .inr (.inr ⟨hm, rfl⟩)

theorem modStep_relocks {enable : Bool} {p : ModPc} {p' : Option ModPc}
    (h : s.modStep true t enable p = some (s', p')) :
    Relocks t s.mutex s'.mutex p.depth (p'.elim 0 ModPc.depth) ∧ s'.net = s.net ∧ s'.input = s.input := by
  cases p with
  | test =>
    cases h
    refine ⟨.inl ⟨rfl, ?_⟩, rfl, rfl⟩
    split <;> rfl
  | lock =>
    simp only [modStep, Option.map_eq_some_iff, lock_true, Prod.mk.injEq] at h
    obtain ⟨_, ⟨hm, rfl⟩, rfl, rfl⟩ := h
    exact ⟨.inr (.inl ⟨hm, rfl, rfl⟩), rfl, rfl⟩
  | read | ctl event =>
    cases h
    exact ⟨.inl ⟨rfl, rfl⟩, rfl, rfl⟩
  | unlock event =>
    cases h
    exact ⟨.inr (.inr ⟨rfl, rfl⟩), rfl, rfl⟩

theorem depth_modPc {enable : Bool} {caller : Caller} {rest : List UInt32} (p : Option ModPc) :
    (modPc enable caller rest p).depth = p.elim 0 ModPc.depth + 1 := by
  cases p with
  | some p => rfl
  | none => cases caller <;> rfl

theorem depth_elim (p : Option ModPc) : (p.elim InputPc.getline .mod).depth = p.elim 0 ModPc.depth := by
  cases p <;> rfl

theorem netStep_relocks (h : s.netStep true x = some s') :
    Relocks .net s.mutex s'.mutex s.net.depth s'.net.depth ∧ s'.input = s.input := by
  by_cases hmod : ∃ enable p caller rest, s.net = .mod enable p caller rest
  · obtain ⟨enable, p, caller, rest, hnet⟩ := hmod
    cases x <;> simp only [netStep, hnet, Option.map_eq_some_iff, reduceCtorEq] at h
    obtain ⟨⟨s₁, p'⟩, hp, rfl⟩ := h
    obtain ⟨hrelocks, -, hinput⟩ := modStep_relocks hp
    refine ⟨?_, hinput⟩
    rw [hnet, depth_modPc]
    exact hrelocks.succ
  by_cases hstop : ∃ p, s.net = .stop p
  · obtain ⟨p, hnet⟩ := hstop
    cases x <;> simp only [netStep, hnet, Option.some.injEq, reduceCtorEq] at h
    subst h
    cases p <;> refine ⟨.inl ⟨rfl, ?_⟩, rfl⟩ <;> simp only [stopStep, hnet] <;> try split
    all_goals rfl
  unfold netStep at h
  repeat' split at h
  all_goals try exact absurd ⟨_, ‹_›⟩ hstop
  all_goals try exact absurd ⟨_, _, _, _, ‹_›⟩ hmod
  all_goals simp only [Option.some.injEq, reduceCtorEq, Option.map_eq_some_iff, lock_true] at h
  all_goals first
    | subst h
    | obtain ⟨_, ⟨hm, rfl⟩, rfl⟩ := h
  all_goals refine ⟨?_, rfl⟩
  all_goals rw [‹s.net = _›]
  all_goals first
    | exact .inl ⟨rfl, rfl⟩
    | exact .inr (.inl ⟨hm, rfl, rfl⟩)
    | exact .inr (.inr ⟨rfl, rfl⟩)

theorem inputStep_relocks (h : s.inputStep true x = some s') :
    Relocks .input s.mutex s'.mutex s.input.depth s'.input.depth ∧ s'.net = s.net := by
  by_cases hmod : ∃ p, s.input = .mod p
  · obtain ⟨p, hinput⟩ := hmod
    cases x <;> simp only [inputStep, hinput, Option.map_eq_some_iff, reduceCtorEq] at h
    obtain ⟨⟨s₁, p'⟩, hp, rfl⟩ := h
    obtain ⟨hrelocks, hnet, -⟩ := modStep_relocks hp
    refine ⟨?_, hnet⟩
    rw [hinput, depth_elim]
    exact hrelocks
  by_cases hstop : ∃ p, s.input = .stop p
  · obtain ⟨p, hinput⟩ := hstop
    cases x <;> simp only [inputStep, hinput, Option.some.injEq, reduceCtorEq] at h
    subst h
    cases p <;> refine ⟨.inl ⟨rfl, ?_⟩, rfl⟩ <;> simp only [stopStep, hinput] <;> try split
    all_goals rfl
  unfold inputStep at h
  repeat' split at h
  all_goals try exact absurd ⟨_, ‹_›⟩ hstop
  all_goals try exact absurd ⟨_, ‹_›⟩ hmod
  all_goals simp only [Option.some.injEq, reduceCtorEq, Option.map_eq_some_iff, lock_true] at h
  all_goals first
    | subst h
    | obtain ⟨_, ⟨hm, rfl⟩, rfl⟩ := h
  all_goals refine ⟨?_, rfl⟩
  all_goals rw [‹s.input = _›]
  all_goals first
    | exact .inl ⟨rfl, rfl⟩
    | exact .inr (.inl ⟨hm, rfl, rfl⟩)
    | exact .inr (.inr ⟨rfl, rfl⟩)

/-- The list of lockings after the step, if the other thread is at the depth `e`. -/
theorem Relocks.replicate {t u : Thread} {m m' : List Thread} {d d' e : ℕ} (h : Relocks t m m' d d') (htu : t ≠ u)
    (hm : m = List.replicate d t ++ List.replicate e u) (hone : d = 0 ∨ e = 0) :
    m' = List.replicate d' t ++ List.replicate e u ∧ (d' = 0 ∨ e = 0) := by
  rcases h with ⟨rfl, rfl⟩ | ⟨hfree, rfl, rfl⟩ | ⟨rfl, rfl⟩
  · exact ⟨hm, hone⟩
  · have he : e = 0 := by
      rcases hfree with hfree | hfree
      · exact (by simpa [hm] using hfree : d = 0 ∧ e = 0).2
      · rw [hm, List.mem_append, List.mem_replicate, List.mem_replicate] at hfree
        have : d ≠ 0 := by rcases hfree with hfree | hfree <;> simp_all
        omega
    exact ⟨by rw [hm, List.replicate_succ, List.cons_append], .inr he⟩
  · exact ⟨by rw [hm, List.replicate_succ, List.cons_append, List.tail_cons], .inr (by omega)⟩

theorem nested (h : (client true).Reachable s) : s.Nested := by
  refine h.invariant Nested ?_ ?_
  · rintro s rfl
    exact ⟨rfl, .inl rfl⟩
  · rintro s ⟨t, x⟩ s' - ⟨hm, hone⟩ - hst
    cases t with
    | net =>
      obtain ⟨hstep, hinput⟩ := netStep_relocks hst
      obtain ⟨hm', hone'⟩ := hstep.replicate (by decide) hm hone
      exact ⟨hinput ▸ hm', hinput ▸ hone'⟩
    | input =>
      obtain ⟨hstep, hnet⟩ := inputStep_relocks hst
      have hcomm : s.mutex = List.replicate s.input.depth .input ++ List.replicate s.net.depth .net := by
        rw [hm]
        rcases hone with h0 | h0 <;> simp [h0]
      obtain ⟨hm', hone'⟩ := hstep.replicate (by decide) hcomm hone.symm
      refine ⟨?_, hnet ▸ hone'.symm⟩
      rw [hm', hnet]
      rcases hone' with h0 | h0 <;> simp [h0]

/-! ## The registration -/

/-- What the network thread waits for: if nothing is being sent, there is a connection and something is queued,
`epoll_wait` is called with `EPOLLOUT`. -/
def Armed (s : Client) : Prop :=
  s.net = .wait → ¬ s.input.Sending → s.epoll = true → s.socket = true → s.sendQueue ≠ [] →
    ∃ mask, s.registration = some mask ∧ mask &&& epollOut ≠ 0

/-- When `AddSockToEpoll` registers the socket, nothing is queued, or the `Send` that is in progress will ask for
`EPOLLOUT`. -/
def AddsIdle (s : Client) : Thread × Input → Prop
  | (.net, _) => s.net = .addSock → s.sendQueue = [] ∨ s.input.Sending
  | (.input, _) => True

instance (s : Client) : DecidablePred s.AddsIdle
  | (.net, _) => inferInstanceAs (Decidable (_ → _))
  | (.input, _) => isTrue trivial

/-- The mask asks for `EPOLLOUT` if something is queued. -/
def Asks (s : Client) (mask : UInt32) : Prop := mask &&& epollOut ≠ 0 ∨ s.sendQueue = []

/-- The invariant. -/
structure Wired (s : Client) : Prop where
  on : s.registration ≠ none → s.epoll = true ∧ s.socket = true
  added : s.net.InLoop → s.epoll = true → s.socket = true → s.registration ≠ none
  registered : ∀ mask, s.registration = some mask → s.Asks mask ∨ s.input.Sending
  input : ∀ p event, s.input = .mod p → p.Sets event → s.Asks event
  net : ∀ enable p caller rest event, s.net = .mod enable p caller rest → p.Sets event → s.Asks event
  disarms : s.net.Disarms → s.sendQueue = []

theorem asks_read (enable : Bool) (h : enable = false → s.sendQueue = []) :
    s.Asks (if enable = true ∧ s.sendQueue ≠ [] then baseMask ||| epollOut else baseMask) := by
  by_cases hq : s.sendQueue = []
  · exact .inr hq
  · have henable : enable = true := by
      by_contra hfalse
      exact hq (h (by simpa using hfalse))
    rw [if_pos ⟨henable, hq⟩]
    exact .inl (by decide)

theorem Asks.mono {mask : UInt32} (hq : s.sendQueue = [] → s'.sendQueue = []) (h : s.Asks mask) : s'.Asks mask :=
  h.imp id hq

/-- What one step of `ModWritable` does: only masks that ask for `EPOLLOUT` are set, and it ends by setting one, unless
there is no connection. -/
structure Mods (s s' : Client) (p' : Option ModPc) : Prop where
  epoll : s'.epoll = s.epoll
  socket : s'.socket = s.socket
  sendQueue : s'.sendQueue = s.sendQueue
  net : s'.net = s.net
  input : s'.input = s.input
  sets : ∀ q ∈ p', ∀ event, q.Sets event → s.Asks event
  registration : s'.registration = s.registration ∧ (p' = none → s.epoll = false ∨ s.socket = false) ∨
    ∃ event, s.Asks event ∧ s'.registration = s.registration.map fun _ => event

theorem modStep_mods {enable : Bool} {p : ModPc} {p' : Option ModPc} (h : s.modStep true t enable p = some (s', p'))
    (hidle : enable = false → s.sendQueue = []) (hsets : ∀ event, p.Sets event → s.Asks event) : Mods s s' p' := by
  cases p with
  | test =>
    cases h
    refine ⟨rfl, rfl, rfl, rfl, rfl, fun q hq event hs => ?_, .inl ⟨rfl, fun hnone => ?_⟩⟩
    · split at hq <;> cases hq
      exact hs.elim
    · by_contra hopen
      rw [if_neg hopen] at hnone
      cases hnone
  | lock =>
    simp only [modStep, Option.map_eq_some_iff, lock_true, Prod.mk.injEq] at h
    obtain ⟨_, ⟨-, rfl⟩, rfl, rfl⟩ := h
    refine ⟨rfl, rfl, rfl, rfl, rfl, fun q hq event hs => ?_, .inl ⟨rfl, fun hnone => by cases hnone⟩⟩
    cases hq
    exact hs.elim
  | read =>
    cases h
    refine ⟨rfl, rfl, rfl, rfl, rfl, fun q hq event hs => ?_, .inl ⟨rfl, fun hnone => by cases hnone⟩⟩
    cases hq
    cases hs
    exact asks_read enable hidle
  | unlock e =>
    cases h
    refine ⟨rfl, rfl, rfl, rfl, rfl, fun q hq event hs => ?_, .inl ⟨rfl, fun hnone => by cases hnone⟩⟩
    cases hq
    exact hsets event hs
  | ctl e =>
    cases h
    exact ⟨rfl, rfl, rfl, rfl, rfl, fun q hq => (by cases hq), .inr ⟨e, hsets e rfl, rfl⟩⟩

/-- A step of the network thread that leaves the registration alone. -/
theorem Wired.of_keeps (h : s.Wired) (hreg : s'.registration = s.registration) (hepoll : s'.epoll = s.epoll)
    (hsocket : s'.socket = s.socket) (hinput : s'.input = s.input) (hq : s.sendQueue = [] → s'.sendQueue = [])
    (hloop : s'.net.InLoop → s.net.InLoop)
    (hsets : ∀ enable p caller rest event, s'.net = .mod enable p caller rest → p.Sets event → s'.Asks event)
    (hdis : s'.net.Disarms → s'.sendQueue = []) : s'.Wired where
  on := by
    rw [hreg, hepoll, hsocket]
    exact h.on
  added := by
    rw [hreg, hepoll, hsocket]
    exact fun hl => h.added (hloop hl)
  registered := by
    rw [hreg, hinput]
    exact fun mask hmask => (h.registered mask hmask).imp_left (Asks.mono hq)
  input := by
    rw [hinput]
    exact fun p event hp hs => (h.input p event hp hs).mono hq
  net := hsets
  disarms := hdis

/-- A step of `ModWritable`, of either thread, after which the positions are those of `s'`. -/
theorem Wired.of_mods {s₁ : Client} {p' : Option ModPc} (h : s.Wired) (hm : Mods s s₁ p')
    (hs' : s' = { s₁ with net := s'.net, input := s'.input }) (hloop : s'.net.InLoop → s.net.InLoop)
    (hsends : p' ≠ none → s.input.Sending → s'.input.Sending)
    (hinput : ∀ p event, s'.input = .mod p → p.Sets event → s.Asks event)
    (hnet : ∀ enable p caller rest event, s'.net = .mod enable p caller rest → p.Sets event → s.Asks event)
    (hdis : s'.net.Disarms → s.sendQueue = []) : s'.Wired := by
  have hreg : s'.registration = s₁.registration := by rw [hs']
  have hepoll : s'.epoll = s.epoll := by rw [hs', hm.epoll]
  have hsocket : s'.socket = s.socket := by rw [hs', hm.socket]
  have hqueue : s'.sendQueue = s.sendQueue := by rw [hs', hm.sendQueue]
  have hsome : s'.registration ≠ none ↔ s.registration ≠ none := by
    rw [hreg]
    rcases hm.registration with ⟨hsame, -⟩ | ⟨event, -, hset⟩
    · rw [hsame]
    · rw [hset, Ne, Option.map_eq_none_iff]
  have hasks : ∀ {mask}, s.Asks mask → s'.Asks mask := Asks.mono hqueue.trans
  refine ⟨fun hne => ?_, fun hl he hs => hsome.2 ?_, fun mask hmask => ?_,
    fun p event hp hs => hasks (hinput p event hp hs),
    fun enable p caller rest event hp hs => hasks (hnet enable p caller rest event hp hs),
    fun hd => hqueue.trans (hdis hd)⟩
  · rw [hepoll, hsocket]
    exact h.on (hsome.1 hne)
  · rw [hepoll] at he
    rw [hsocket] at hs
    exact h.added (hloop hl) he hs
  · rw [hreg] at hmask
    rcases hm.registration with ⟨hsame, hends⟩ | ⟨event, hevent, hset⟩
    · rw [hsame] at hmask
      refine (h.registered mask hmask).imp hasks (hsends fun hnone => ?_)
      obtain ⟨he, hs⟩ := h.on (by rw [hmask]; simp)
      simp [he, hs] at hends
      exact hends hnone
    · rw [hset, Option.map_eq_some_iff] at hmask
      obtain ⟨_, -, rfl⟩ := hmask
      exact .inl (hasks hevent)

/-- `ModWritable` of the network thread. -/
theorem Wired.net_mod {enable : Bool} {p : ModPc} {caller : Caller} {rest : List UInt32} (h : s.Wired)
    (hnet : s.net = .mod enable p caller rest) (hst : s.netStep true .go = some s') : s'.Wired := by
  have hidle : enable = false → s.sendQueue = [] := by
    rintro rfl
    exact h.disarms (by rw [hnet]; trivial)
  simp only [netStep, hnet, Option.map_eq_some_iff] at hst
  obtain ⟨⟨s₁, p'⟩, hp, rfl⟩ := hst
  have hm := modStep_mods hp hidle fun event => h.net _ _ _ _ event hnet
  refine h.of_mods hm rfl (fun _ => by rw [hnet]; trivial) (fun _ => by rw [hm.input]; exact id) ?_ ?_ ?_
  · rw [hm.input]
    exact h.input
  · intro enable' q caller' rest' event heq hs
    cases p' with
    | some p' =>
      cases heq
      exact hm.sets q rfl event hs
    | none => cases caller <;> cases heq
  · intro hd
    cases p' with
    | some p' =>
      cases enable with
      | true => exact hd.elim
      | false => exact hidle rfl
    | none => cases caller <;> exact hd.elim

/-- One step of `Stop`, of either thread. -/
theorem stopStep_on (p : StopPc) (h : s.registration ≠ none → s.epoll = true ∧ s.socket = true)
    (hreg : (s.stopStep p).1.registration ≠ none) :
    (s.stopStep p).1.epoll = true ∧ (s.stopStep p).1.socket = true := by
  cases p <;> simp_all [stopStep]

theorem stopStep_added (p : StopPc) (hloop : s.epoll = true → s.socket = true → s.registration ≠ none)
    (hepoll : (s.stopStep p).1.epoll = true) (hsocket : (s.stopStep p).1.socket = true) :
    (s.stopStep p).1.registration ≠ none := by
  cases p <;> simp_all [stopStep]

theorem stopStep_registration {mask : UInt32} (p : StopPc) (h : (s.stopStep p).1.registration = some mask) :
    s.registration = some mask := by
  cases p <;> simp_all [stopStep]

@[simp]
theorem stopStep_sendQueue (p : StopPc) : (s.stopStep p).1.sendQueue = s.sendQueue := by
  cases p <;> rfl

@[simp]
theorem stopStep_net (p : StopPc) : (s.stopStep p).1.net = s.net := by
  cases p <;> rfl

@[simp]
theorem stopStep_input (p : StopPc) : (s.stopStep p).1.input = s.input := by
  cases p <;> rfl

/-- Outside the loop the network thread only opens the socket and the epoll instance. -/
theorem Wired.opens {running socket epoll : Bool} {n : NetPc} (h : s.Wired) (hs : s.socket = true → socket = true)
    (he : s.epoll = true → epoll = true) (hn : ¬ n.InLoop) :
    { s with running := running, socket := socket, epoll := epoll, net := n }.Wired where
  on hne := ⟨he (h.on hne).1, hs (h.on hne).2⟩
  added hl := absurd hl hn
  registered := h.registered
  input := h.input
  net := by
    rintro enable p caller rest event rfl
    exact absurd trivial hn
  disarms hd := by
    cases n with
    | mod => exact absurd trivial hn
    | _ => exact hd.elim

/-- `AddSockToEpoll` registers the socket. -/
theorem Wired.add (h : s.Wired) (hidle : s.sendQueue = [] ∨ s.input.Sending) : { s with
    registration := if s.epoll = true ∧ s.socket = true then some baseMask else none, net := .loop }.Wired where
  on hne := by
    by_contra hoff
    exact hne (if_neg hoff)
  added _ hepoll hsocket := by
    rw [if_pos ⟨hepoll, hsocket⟩]
    simp
  registered _ _ := hidle.imp_left .inr
  input := h.input
  net := by simp
  disarms := by simp [NetPc.Disarms]

/-- `send` takes bytes from the queue, and `ModWritable` follows if it does not take all of a message. -/
theorem Wired.write_send {rest : List UInt32} {r : SendResult} (h : s.Wired) (hpc : s.net = .writeSend rest)
    (hst : s.netStep true (.send r) = some s') : s'.Wired := by
  have hloop : s.net.InLoop := by
    rw [hpc]
    trivial
  simp only [netStep, hpc] at hst
  cases hq : s.sendQueue with
  | nil => simp [hq] at hst
  | cons msg queue =>
    cases r with
    | count n =>
      simp only [hq] at hst
      split at hst
      · cases hst
      · split at hst
        · cases hst
          refine h.of_keeps rfl rfl rfl rfl (by simp [hq]) (fun _ => hloop) ?_ (by simp [NetPc.Disarms])
          rintro enable p caller rest event heq hsets
          cases heq
          exact hsets.elim
        · cases hst
          exact h.of_keeps rfl rfl rfl rfl (by simp [hq]) (fun _ => hloop) (by simp) (by simp [NetPc.Disarms])
    | closed | error e =>
      simp only [hq, Option.some.injEq] at hst
      subst hst
      exact h.of_keeps rfl rfl rfl rfl (by simp [hq]) (fun _ => hloop) (by simp) (by simp [NetPc.Disarms])

/-- `HandleConnection` calls `ModWritable(false)` only if nothing is queued. -/
theorem Wired.check {rest : List UInt32} (h : s.Wired) (hpc : s.net = .checkTest rest)
    (hst : s.netStep true .go = some s') : s'.Wired := by
  have hloop : s.net.InLoop := by
    rw [hpc]
    trivial
  simp only [netStep, hpc, Option.some.injEq] at hst
  subst hst
  by_cases hq : s.sendQueue = []
  · refine h.of_keeps rfl rfl rfl rfl id (fun _ => hloop) ?_ fun _ => hq
    rintro enable p caller rest event heq hsets
    rw [if_pos hq] at heq
    cases heq
    exact hsets.elim
  · refine h.of_keeps rfl rfl rfl rfl id (fun _ => hloop) ?_ ?_
    · simp [hq]
    · simp [hq, NetPc.Disarms]

/-- A step of `Stop`, of the network thread. -/
theorem Wired.net_stop {p : StopPc} (h : s.Wired) (hst : { (s.stopStep p).1 with
    net := (s.stopStep p).2.elim .done .stop } = s') : s'.Wired := by
  subst hst
  refine ⟨stopStep_on p h.on, ?_, ?_, ?_, ?_, ?_⟩
  · intro hloop
    rcases hq : (s.stopStep p).2 with _ | q <;> simp [hq, NetPc.InLoop] at hloop
  · intro mask hmask
    simpa [Asks] using h.registered mask (stopStep_registration p hmask)
  · simpa [Asks] using h.input
  · rcases hq : (s.stopStep p).2 with _ | q <;> simp
  · rcases hq : (s.stopStep p).2 with _ | q <;> simp [NetPc.Disarms]

/-- One step of the network thread. -/
theorem Wired.net_step (h : s.Wired) (hok : s.AddsIdle (.net, x)) (hst : s.netStep true x = some s') : s'.Wired := by
  have hmoves : ∀ {s₁ : Client}, s.net.InLoop → s₁.registration = s.registration → s₁.epoll = s.epoll →
      s₁.socket = s.socket → s₁.input = s.input → s₁.sendQueue = s.sendQueue → (∀ e p c r, s₁.net ≠ .mod e p c r) →
      s₁.Wired := by
    intro s₁ hloop hreg hepoll hsocket hinput hqueue hmod
    refine h.of_keeps hreg hepoll hsocket hinput hqueue.trans (fun _ => hloop) ?_ fun hd => ?_
    · exact fun e p c r _ heq => absurd heq (hmod e p c r)
    · cases hnet : s₁.net with
      | mod e p c r => exact absurd hnet (hmod e p c r)
      | _ => simp [hnet, NetPc.Disarms] at hd
  cases hpc : s.net with
  | connect =>
    cases x <;> simp only [netStep, hpc, Option.some.injEq, reduceCtorEq] at hst
    · exact hst ▸ h.opens (fun _ => rfl) id id
    · exact hst ▸ h.opens id id id
  | setNonBlocking | storeRunning =>
    cases x <;> simp only [netStep, hpc, Option.some.injEq, reduceCtorEq] at hst
    all_goals exact hst ▸ h.opens id id id
  | createEpoll =>
    cases x <;> simp only [netStep, hpc, Option.some.injEq, reduceCtorEq] at hst
    · exact hst ▸ h.opens id (fun _ => rfl) id
    · exact hst ▸ h.opens id id id
  | addSock =>
    cases x <;> simp only [netStep, hpc, Option.some.injEq, reduceCtorEq] at hst
    exact hst ▸ h.add (hok hpc)
  | mod enable p caller rest =>
    cases x <;> simp only [netStep, hpc, reduceCtorEq] at hst
    exact h.net_mod hpc (by simpa only [netStep, hpc] using hst)
  | stop p =>
    cases x <;> simp only [netStep, hpc, Option.some.injEq, reduceCtorEq] at hst
    exact h.net_stop hst
  | writeSend rest =>
    cases x with
    | send r => exact h.write_send hpc hst
    | _ => simp only [netStep, hpc, reduceCtorEq] at hst
  | checkTest rest =>
    cases x with
    | go => exact h.check hpc hst
    | _ => simp only [netStep, hpc, reduceCtorEq] at hst
  | writeLock rest | checkLock rest =>
    cases x <;> simp only [netStep, hpc, Option.map_eq_some_iff, lock_true, reduceCtorEq] at hst
    obtain ⟨_, ⟨-, rfl⟩, rfl⟩ := hst
    exact hmoves (by rw [hpc]; trivial) rfl rfl rfl rfl rfl (by simp)
  | wait =>
    cases x with
    | events evs =>
      simp only [netStep, hpc, Option.ite_none_right_eq_some, Option.some.injEq] at hst
      obtain ⟨-, rfl⟩ := hst
      exact hmoves (by rw [hpc]; trivial) rfl rfl rfl rfl rfl (by simp)
    | interrupted | failed =>
      simp only [netStep, hpc, Option.some.injEq] at hst
      subst hst
      exact hmoves (by rw [hpc]; trivial) rfl rfl rfl rfl rfl (by simp)
    | _ => simp only [netStep, hpc, reduceCtorEq] at hst
  | next rest =>
    cases rest
    all_goals
      cases x <;> simp only [netStep, hpc, Option.some.injEq, reduceCtorEq] at hst
      subst hst
      exact hmoves (by rw [hpc]; trivial) rfl rfl rfl rfl rfl (by simp)
  | read ev rest =>
    cases x with
    | recv r =>
      cases r with
      | bytes b =>
        simp only [netStep, hpc, Option.ite_none_right_eq_some, Option.some.injEq] at hst
        obtain ⟨-, rfl⟩ := hst
        exact hmoves (by rw [hpc]; trivial) rfl rfl rfl rfl rfl (by simp)
      | closed =>
        simp only [netStep, hpc, Option.some.injEq] at hst
        subst hst
        exact hmoves (by rw [hpc]; trivial) rfl rfl rfl rfl rfl (by simp)
      | error e =>
        simp only [netStep, hpc, Option.some.injEq] at hst
        subst hst
        refine hmoves (by rw [hpc]; trivial) rfl rfl rfl rfl rfl fun _ _ _ _ => ?_
        dsimp only
        split <;> simp
    | _ => simp only [netStep, hpc, reduceCtorEq] at hst
  | loop | handle ev rest | out ev rest | writeTest rest | writeUnlock res rest =>
    cases x <;> simp only [netStep, hpc, Option.some.injEq, reduceCtorEq] at hst
    subst hst
    refine hmoves (by rw [hpc]; trivial) rfl rfl rfl rfl rfl fun _ _ _ _ => ?_
    dsimp only
    repeat' split
    all_goals simp
  | checkUnlock rest | fail =>
    cases x <;> simp only [netStep, hpc, Option.some.injEq, reduceCtorEq] at hst
    subst hst
    exact hmoves (by rw [hpc]; trivial) rfl rfl rfl rfl rfl (by simp)
  | done => cases x <;> simp only [netStep, hpc, reduceCtorEq] at hst

/-- A step of the input thread that moves its position only. -/
theorem Wired.of_moves (h : s.Wired) (hreg : s'.registration = s.registration) (hepoll : s'.epoll = s.epoll)
    (hsocket : s'.socket = s.socket) (hnet : s'.net = s.net) (hq : s'.sendQueue = s.sendQueue)
    (hsends : s.registration ≠ none → s.input.Sending → s'.input.Sending)
    (hsets : ∀ p event, s'.input = .mod p → p.Sets event → s'.Asks event) : s'.Wired where
  on := by
    rw [hreg, hepoll, hsocket]
    exact h.on
  added := by
    rw [hreg, hepoll, hsocket, hnet]
    exact h.added
  registered := by
    rw [hreg]
    intro mask hmask
    refine (h.registered mask hmask).imp (Asks.mono hq.trans) (hsends ?_)
    rw [hmask]
    simp
  input := hsets
  net := by
    rw [hnet]
    exact fun enable p caller rest event hp hs => (h.net enable p caller rest event hp hs).mono hq.trans
  disarms := by
    rw [hnet, hq]
    exact h.disarms

/-- `ModWritable` of the input thread. -/
theorem Wired.input_mod {p : ModPc} (h : s.Wired) (hinput : s.input = .mod p) (hst : s.inputStep true .go = some s') :
    s'.Wired := by
  simp only [inputStep, hinput, Option.map_eq_some_iff] at hst
  obtain ⟨⟨s₁, p'⟩, hp, rfl⟩ := hst
  have hm := modStep_mods hp (by simp) fun event => h.input _ event hinput
  refine h.of_mods hm rfl (fun hl => hm.net ▸ hl) (fun hsome _ => ?_) ?_ ?_ ?_
  · obtain ⟨q, rfl⟩ := Option.ne_none_iff_exists'.1 hsome
    trivial
  · intro q event heq hs
    cases p' with
    | some p' =>
      cases heq
      exact hm.sets q rfl event hs
    | none => cases heq
  · rw [hm.net]
    exact h.net
  · rw [hm.net]
    exact h.disarms

/-- `Send` puts a message into the queue: the network thread is not in a `ModWritable`, which it calls under the
mutex. -/
theorem Wired.push {msg : List UInt8} (h : s.Wired) (hn : s.Nested) (hinput : s.input = .sendPush msg) :
    { s with sendQueue := s.sendQueue ++ [msg], input := .sendUnlock }.Wired := by
  have hdepth : s.net.depth = 0 := hn.one.resolve_right (by simp [hinput, InputPc.depth])
  refine ⟨h.on, h.added, fun _ _ => .inr trivial, by simp, ?_, ?_⟩
  · intro enable p caller rest event hnet
    simp [show s.net = _ from hnet, NetPc.depth] at hdepth
  · intro hd
    cases hnet : s.net with
    | mod => simp [hnet, NetPc.depth] at hdepth
    | _ => simp [hnet, NetPc.Disarms] at hd

/-- One step of the input thread. -/
theorem Wired.input_step (h : s.Wired) (hn : s.Nested) (hst : s.inputStep true x = some s') : s'.Wired := by
  by_cases hmod : ∃ p, s.input = .mod p
  · obtain ⟨p, hinput⟩ := hmod
    cases x <;> simp only [inputStep, hinput, reduceCtorEq] at hst
    exact h.input_mod hinput (by simpa only [inputStep, hinput] using hst)
  by_cases hstop : ∃ p, s.input = .stop p
  · obtain ⟨p, hinput⟩ := hstop
    cases x <;> simp only [inputStep, hinput, Option.some.injEq, reduceCtorEq] at hst
    subst hst
    refine ⟨stopStep_on p h.on, ?_, ?_, ?_, ?_, ?_⟩
    · simpa using fun hloop => stopStep_added p (h.added hloop)
    · intro mask hmask
      have hno : ¬ s.input.Sending := by simp [hinput, InputPc.Sending]
      simpa [Asks] using Or.inl ((h.registered mask (stopStep_registration p hmask)).resolve_right hno)
    · rcases hq : (s.stopStep p).2 with _ | q <;> simp
    · simpa [Asks] using h.net
    · simpa using h.disarms
  by_cases hpush : ∃ msg, s.input = .sendPush msg
  · obtain ⟨msg, hinput⟩ := hpush
    cases x <;> simp only [inputStep, hinput, Option.some.injEq, reduceCtorEq] at hst
    exact hst ▸ h.push hn hinput
  unfold inputStep at hst
  repeat' split at hst
  all_goals try exact absurd ⟨_, ‹_›⟩ hstop
  all_goals try exact absurd ⟨_, ‹_›⟩ hmod
  all_goals try exact absurd ⟨_, ‹_›⟩ hpush
  all_goals simp only [Option.some.injEq, reduceCtorEq, Option.map_eq_some_iff, lock_true] at hst
  all_goals first
    | subst hst
    | obtain ⟨_, ⟨hm, rfl⟩, rfl⟩ := hst
  all_goals refine h.of_moves rfl rfl rfl rfl rfl (by simp_all [InputPc.Sending]) ?_
  all_goals
    rintro p event heq hsets
    cases heq <;> exact hsets.elim

theorem wired (h : (client true).Reach AddsIdle s) : s.Wired := by
  refine h.invariant Wired ?_ ?_
  · rintro s rfl
    refine ⟨by simp [start], by simp [start, NetPc.InLoop], by simp [start], by simp [start], by simp [start], ?_⟩
    simp [start, NetPc.Disarms]
  · rintro s ⟨t, x⟩ s' hr hw hok hst
    cases t with
    | net => exact hw.net_step hok hst
    | input => exact hw.input_step (nested (hr.mono fun _ _ _ => trivial)) hst

end Client

/-- **The network thread waits for what is to be sent**, if no `Send` was finished before `AddSockToEpoll`. -/
theorem armed_of_reach {s : Client} (h : (client true).Reach Client.AddsIdle s) : s.Armed := by
  intro hwait hidle hepoll hsocket hqueue
  have hw := Client.wired h
  have hne := hw.added (by rw [hwait]; trivial) hepoll hsocket
  obtain ⟨mask, hmask⟩ := Option.ne_none_iff_exists'.1 hne
  have hasks := (hw.registered mask hmask).resolve_right hidle
  exact ⟨mask, hmask, hasks.resolve_right hqueue⟩

/-- Any other message is not waited for when the network thread first comes to `epoll_wait`. -/
theorem unarmed_of_early {s : Client} (hnet : s.net = .addSock)
    (hidle : ¬ s.input.Sending) (hqueue : s.sendQueue ≠ []) (hrunning : s.running = true) (hepoll : s.epoll = true)
    (hsocket : s.socket = true) :
    ∃ s', (client true).run s [(.net, .go), (.net, .go)] = some s' ∧ ¬ s'.Armed := by
  refine ⟨{ s with registration := some baseMask, net := .wait }, ?_, ?_⟩
  · simp [System.run, client, Client.step, Client.netStep, hnet, hrunning, hepoll, hsocket]
  · intro harmed
    obtain ⟨mask, hmask, hout⟩ := harmed rfl hidle hepoll hsocket hqueue
    cases hmask
    exact hout (by decide)

/-- The network thread connects and comes to `AddSockToEpoll`. -/
def connect : List (Thread × Input) := [(.net, .ok), (.net, .ok), (.net, .go), (.net, .ok)]

/-- The input thread sends a line: `k` steps of `Send`. -/
def sendLine (msg : List UInt8) (k : ℕ) : List (Thread × Input) := (.input, .line msg) :: List.replicate k (.input, .go)

/-- A line after `AddSockToEpoll`, with the network thread at `epoll_wait`. -/
theorem armed_of_reach_late :
    (client true).run .start (connect ++ List.replicate 2 (Thread.net, Input.go) ++ sendLine [104] 8) =
      some ⟨true, true, true, some (baseMask ||| epollOut), [], [[104]], .wait, .getline⟩ ∧
    Client.Armed ⟨true, true, true, some (baseMask ||| epollOut), [], [[104]], .wait, .getline⟩ := by
  have hrun : (client true).run .start (connect ++ List.replicate 2 (.net, .go) ++ sendLine [104] 8) =
      some ⟨true, true, true, some (baseMask ||| epollOut), [], [[104]], .wait, .getline⟩ := by
    decide +kernel
  have hinit : (client true).Reach Client.AddsIdle .start := .init rfl
  exact ⟨hrun, armed_of_reach (hinit.run_along hrun (by decide +kernel))⟩

/-- A line that is sent before there is a socket. -/
theorem unarmed : ¬ ∀ s, (client true).Reachable s → s.Armed := by
  intro hall
  have hrun : (client true).run .start (sendLine [104] 4 ++ connect) =
      some ⟨true, true, true, none, [], [[104]], .addSock, .getline⟩ := by
    decide +kernel
  obtain ⟨s', hs', hno⟩ := unarmed_of_early (s := ⟨true, true, true, none, [], [[104]], .addSock, .getline⟩) rfl id
    (by simp) rfl rfl rfl
  exact hno (hall s' ((System.reachable_of_run rfl hrun).run_along hs' (System.along_true _ _)))

end TcpChat.EpollClient
