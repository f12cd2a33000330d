import KwNet.Poll.Interest
import KwNet.Tcp.Handlers

/-!
# The channel of a connection, as the poller has it

The machine of a connection has its own view of the channel: two booleans for `listen_events`, and the
registration of its one descriptor.  Here that view is compared with the poller's: masks, pointers and
all descriptors of the loop.

* `Sees` — the poller's channel of a descriptor is the connection's, and so is its registration;
* **`call_seen`** — each `Enable*` and `Disable*` of the poller does to the connection's view what the
  connection's machine says it does.

The connection's machine takes the `epoll_event` that an ADD with an empty mask leaves unfilled as
empty; for the poller that is one choice of what the stack holds.
-/

namespace KwNet.Poll

open KwNet.Tcp (Interest Kernel)

/-- `listen_events` of an interest. -/
def maskOf (i : Interest) : Mask :=
  (if i.read then readEvent else 0) ||| if i.write then writeEvent else 0

/-- The event registered for an interest. -/
def eventOf (addr : ℕ) (i : Interest) : EpollEvent := ⟨maskOf i ||| epollEt ||| epollRdhup, addr⟩

theorem maskOf_eq_zero (i : Interest) : maskOf i = 0 ↔ i = .none := by
  obtain ⟨read, write⟩ := i
  cases read <;> cases write <;> decide

/-- The poller's channel `ch` of an open descriptor with registration `reg` is the channel `c` of a
connection whose socket is `k`. -/
structure Sees (ch : Channel) (reg : Option EpollEvent) (c : Tcp.Channel) (k : Kernel) : Prop where
  listen : ch.listenEvents = maskOf c.listen
  added : ch.idx = if c.added then .chAdded else .chDeleted
  tied : ch.tied = c.tied
  isOpen : k.isOpen = true
  registered : k.interest.isSome = c.added
  interest : reg = k.interest.map (eventOf ch.addr)

/-- The call, made on the connection's view. -/
def Call.onConnection : Call → Tcp.Channel → Kernel → Tcp.Channel × Kernel
  | .enableRead => Tcp.Channel.enableRead
  | .enableWrite => Tcp.Channel.enableWrite
  | .disableRead => Tcp.Channel.disableRead
  | .disableWrite => Tcp.Channel.disableWrite
  | .disableAll => Tcp.Channel.disableAll

/-- The interest after the call. -/
def Call.interest : Call → Interest → Interest
  | .enableRead, i => { i with read := true }
  | .enableWrite, i => { i with write := true }
  | .disableRead, i => { i with read := false }
  | .disableWrite, i => { i with write := false }
  | .disableAll, _ => .none

theorem Call.onConnection_eq (f : Call) (c : Tcp.Channel) (k : Kernel) :
    f.onConnection c k = Tcp.Channel.updateChannel { c with listen := f.interest c.listen } k := by
  cases f <;> rfl

/-- The booleans follow the masks. -/
theorem Call.listen_maskOf (f : Call) (i : Interest) :
    f.listen (maskOf i) = maskOf (f.interest i) := by
  obtain ⟨read, write⟩ := i
  cases f <;> cases read <;> cases write <;> decide

/-- What `Epoller::update` registers, when an event that it does not fill in is empty. -/
theorem event_getD {ch : Channel} {i : Interest} (h : ch.listenEvents = maskOf i) :
    ch.event.getD (eventOf ch.addr .none) = eventOf ch.addr i := by
  by_cases h0 : ch.listenEvents = 0
  · rw [Channel.event_of_eq h0]
    rw [h, maskOf_eq_zero] at h0
    rw [h0]
    rfl
  · rw [Channel.event_of_ne h0, h]
    rfl

variable {s : State} {fd : ℕ} {ch : Channel} {c : Tcp.Channel} {k : Kernel}

/-- The connection's `epoll_ctl` on an open descriptor. -/
theorem ctl_open (h : k.isOpen = true) (op : Tcp.CtlOp) (i : Interest) :
    (k.ctl op i).isOpen = true ∧
      (k.ctl op i).interest = if op = .del then none else some i := by
  unfold Kernel.ctl
  rw [if_pos h]
  cases op <;> exact ⟨h, rfl⟩

/-- What `updateChannel` registers for the poller, for a channel that is to listen for `i`. -/
theorem updateChannel_seen (hs : Sees ch (s.interest fd) c k) {i : Interest} {m : Mask}
    (hm : m = maskOf i) :
    ∃ s' ch', updateChannel s fd { ch with listenEvents := m } (eventOf ch.addr .none) = some s' ∧
      s'.channels = Function.update s.channels fd (some ch') ∧
      (∀ fd', fd' ≠ fd → s'.interest fd' = s.interest fd') ∧
      Sees ch' (s'.interest fd) (Tcp.Channel.updateChannel { c with listen := i } k).1
        (Tcp.Channel.updateChannel { c with listen := i } k).2 := by
  have hothers : ∀ (reg : Option EpollEvent) (fd' : ℕ), fd' ≠ fd →
      Function.update s.interest fd reg fd' = s.interest fd' := fun reg fd' hne =>
    Function.update_of_ne hne reg s.interest
  have hself : ∀ reg : Option EpollEvent, Function.update s.interest fd reg fd = reg := fun reg =>
    Function.update_self fd reg s.interest
  unfold updateChannel
  by_cases hadded : c.added = true
  · have hidx : ch.idx = .chAdded := by rw [hs.added, if_pos hadded]
    have hsome : (s.interest fd).isSome := by
      rw [hs.interest, Option.isSome_map, hs.registered, hadded]
    by_cases h0 : i = .none
    · have hm0 : m = 0 := by rw [hm, maskOf_eq_zero, h0]
      obtain ⟨hopen, hint⟩ := ctl_open hs.isOpen .del i
      have htcp : Tcp.Channel.updateChannel { c with listen := i } k
          = ({ c with listen := i, added := false, tied := false }, k.ctl .del i) := by
        unfold Tcp.Channel.updateChannel
        rw [if_neg (by simp [hadded]), if_pos h0]
      simp only [hidx, if_pos hm0]
      rw [update_del (s := s.setChannel fd _) hsome, htcp]
      refine ⟨_, ⟨ch.addr, .chDeleted, m, false⟩, rfl, rfl, hothers _, hm, rfl, rfl, hopen, ?_, ?_⟩
      · rw [hint]
        rfl
      · rw [hint]
        exact hself none
    · have hm0 : ¬m = 0 := by rw [hm, maskOf_eq_zero]; exact h0
      obtain ⟨hopen, hint⟩ := ctl_open hs.isOpen .mod i
      have htcp : Tcp.Channel.updateChannel { c with listen := i } k
          = ({ c with listen := i }, k.ctl .mod i) := by
        unfold Tcp.Channel.updateChannel
        rw [if_neg (by simp [hadded]), if_neg h0]
      simp only [hidx, if_neg hm0]
      rw [update_mod (s := s.setChannel fd _) hsome, event_getD (i := i) hm, htcp]
      refine ⟨_, ⟨ch.addr, .chAdded, m, ch.tied⟩, rfl, rfl, hothers _, hm, ?_, hs.tied, hopen, ?_, ?_⟩
      · exact (if_pos hadded).symm
      · rw [hint]
        exact hadded.symm
      · rw [hint]
        exact hself _
  · have hidx : ch.idx = .chDeleted := by rw [hs.added, if_neg hadded]
    have hnone : k.interest = none := by
      rw [← Option.not_isSome_iff_eq_none, hs.registered]
      exact hadded
    have habsent : s.interest fd = none := by
      rw [hs.interest, hnone]
      rfl
    obtain ⟨hopen, hint⟩ := ctl_open hs.isOpen .add i
    have htcp : Tcp.Channel.updateChannel { c with listen := i } k
        = ({ c with listen := i, added := true }, k.ctl .add i) := by
      unfold Tcp.Channel.updateChannel
      rw [if_pos (by simp [hadded])]
    simp only [hidx]
    rw [update_add (s := s.setChannel fd _) habsent, event_getD (i := i) hm, htcp]
    refine ⟨_, ⟨ch.addr, .chAdded, m, ch.tied⟩, rfl, rfl, hothers _, hm, rfl, hs.tied, hopen, ?_, ?_⟩
    · rw [hint]
      rfl
    · rw [hint]
      exact hself _

/-- **The connection's view follows the poller's**, call by call; other descriptors are left alone. -/
theorem call_seen (hch : s.channels fd = some ch) (hs : Sees ch (s.interest fd) c k) (f : Call) :
    ∃ s' ch', step s (.call fd f (eventOf ch.addr .none)) = some s' ∧
      s'.channels = Function.update s.channels fd (some ch') ∧
      (∀ fd', fd' ≠ fd → s'.interest fd' = s.interest fd') ∧
      Sees ch' (s'.interest fd) (f.onConnection c k).1 (f.onConnection c k).2 := by
  have hm : f.listen ch.listenEvents = maskOf (f.interest c.listen) := by
    rw [hs.listen, f.listen_maskOf]
  obtain ⟨s', ch', hu, hchannels, hothers, hs'⟩ := updateChannel_seen hs hm
  rw [← f.onConnection_eq] at hs'
  refine ⟨s', ch', ?_, hchannels, hothers, hs'⟩
  show (s.channels fd).bind _ = some s'
  rw [hch]
  exact hu

end KwNet.Poll
