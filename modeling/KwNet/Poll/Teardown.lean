import KwNet.Lib.Observe
import KwNet.Poll.Dispatch

/-!
# The assertions of `~Channel`

`HandleEvent_tied` sets `eventHandling` and takes it back on its last line; the branches for `EPOLLERR`,
`EPOLLHUP` and `EPOLLRDHUP` return before.  `update()`, which `DisableRead` and `DisableWrite` go through,
sets `addedToLoop`; only `Channel::remove` takes it back.

* `Past` — what has happened to a channel since it was made: the mask it was last handled for, and whether
  `update()` was called;
* **`teardown_asserts`** — between two wake-ups the assertions hold for a channel in `remove` exactly when
  the last mask had none of the three bits, and in `~Poller` exactly when moreover `update()` was not called;
* **`hung_up_not_removable`** — a channel that has seen a hang-up.
-/

namespace KwNet.Poll

open KwNet.Lib

/-- The mask takes one of the branches that return early. -/
def IsEarly (mask : Mask) : Prop :=
  mask &&& epollErr ≠ 0 ∨ mask &&& epollHup ≠ 0 ∨ mask &&& epollRdhup ≠ 0

instance (mask : Mask) : Decidable (IsEarly mask) := by
  unfold IsEarly
  infer_instance

/-- What a step does to one channel, as far as its flags go. -/
inductive Mark where
  /-- It is handled for this mask. -/
  | handled (mask : Mask)
  /-- `update()` is called. -/
  | updated
  | removed
  deriving DecidableEq, Repr

/-- The mark a step leaves on the channel of `fd`. -/
def Loop.mark (fd : ℕ) (s : Loop) : LoopAction → Option Mark
  | .next locked =>
    match s.active with
    | (fd', _) :: _ =>
      if fd' = fd ∧ ((s.poll.channels fd).any fun ch => !ch.tied || locked) then
        some (.handled (s.slot fd).readyEvents)
      else none
    | [] => none
  | .call fd' f _ => if fd' = fd ∧ f.updates then some .updated else none
  | .remove fd' => if fd' = fd then some .removed else none
  | _ => none

/-- The mask a channel was last handled for, and whether `update()` was called on it. -/
structure Past where
  last : Mask
  updated : Bool
  deriving DecidableEq, Repr

def Past.new : Past := ⟨0, false⟩

def Past.add (p : Past) : Mark → Past
  | .handled mask => { p with last := mask }
  | .updated => { p with updated := true }
  | .removed => .new

/-- The past of the channel of `fd` after the run along `as`. -/
def pastOf (fd : ℕ) (as : List LoopAction) : Past :=
  (observed Loop.step (Loop.mark fd) Loop.init as).foldl Past.add .new

/-! ### the flags of one channel -/

/-- The flags of the channel of `fd` follow its past. -/
structure Follows (fd : ℕ) (s : Loop) (p : Past) : Prop where
  absent : s.poll.channels fd = none → p = .new
  added : (s.poll.channels fd).isSome → (s.slot fd).addedToLoop = p.updated
  handling : (s.poll.channels fd).isSome → (∀ h, s.current = some h → h.fd ≠ fd) →
    ((s.slot fd).eventHandling = true ↔ IsEarly p.last)
  current : ∀ h, s.current = some h → h.fd = fd →
    (s.poll.channels fd).isSome ∧ (s.slot fd).eventHandling = true ∧ (h.early = true ↔ IsEarly p.last)

/-- The flags of the channel of `fd` are left alone. -/
structure SameFlags (fd : ℕ) (s s' : Loop) : Prop where
  present : (s'.poll.channels fd).isSome = (s.poll.channels fd).isSome
  added : (s'.slot fd).addedToLoop = (s.slot fd).addedToLoop
  handling : (s'.slot fd).eventHandling = (s.slot fd).eventHandling
  current : s'.current.map (fun h => (h.fd, h.early)) = s.current.map fun h => (h.fd, h.early)

variable {fd fd' : ℕ} {s s' s'' : Loop} {p : Past}

theorem SameFlags.refl (fd : ℕ) (s : Loop) : SameFlags fd s s := ⟨rfl, rfl, rfl, rfl⟩

theorem SameFlags.trans (h : SameFlags fd s s') (h' : SameFlags fd s' s'') : SameFlags fd s s'' :=
  ⟨h'.present.trans h.present, h'.added.trans h.added, h'.handling.trans h.handling,
    h'.current.trans h.current⟩

theorem SameFlags.current_of (h : SameFlags fd s s') {c : Handling} (hc : s'.current = some c) :
    ∃ c₀, s.current = some c₀ ∧ c₀.fd = c.fd ∧ c₀.early = c.early := by
  have hmap := h.current
  rw [hc, Option.map_some] at hmap
  obtain ⟨c₀, hc₀, hpair⟩ := Option.map_eq_some_iff.mp hmap.symm
  obtain ⟨hfd, hearly⟩ := Prod.mk.inj hpair
  exact ⟨c₀, hc₀, hfd, hearly⟩

theorem SameFlags.follows (h : SameFlags fd s s') (hf : Follows fd s p) : Follows fd s' p := by
  have habsent : s'.poll.channels fd = none → s.poll.channels fd = none := by
    intro hnone
    rw [← Option.isSome_eq_false_iff.trans Option.isNone_iff_eq_none] at hnone ⊢
    rw [← h.present]
    exact hnone
  refine ⟨fun hnone => hf.absent (habsent hnone), fun hsome => ?_, fun hsome hno => ?_,
    fun c hc hfd => ?_⟩
  · rw [h.added]
    exact hf.added (h.present ▸ hsome)
  · rw [h.handling]
    refine hf.handling (h.present ▸ hsome) (fun c hc => ?_)
    have hmap := h.current
    rw [hc, Option.map_some] at hmap
    obtain ⟨c', hc', hpair⟩ := Option.map_eq_some_iff.mp hmap
    rw [← (Prod.mk.inj hpair).1]
    exact hno c' hc'
  · obtain ⟨c₀, hc₀, hfd₀, hearly₀⟩ := h.current_of hc
    obtain ⟨hsome, hhandling, hearly⟩ := hf.current c₀ hc₀ (hfd₀.trans hfd)
    rw [h.present, h.handling, ← hearly₀]
    exact ⟨hsome, hhandling, hearly⟩

/-! ### what the calls leave alone -/

theorem setSlot_self (s : Loop) (fd : ℕ) (sl : Slot) : (s.setSlot fd sl).slot fd = sl := by
  simp only [Loop.setSlot, Function.update_self]

theorem setSlot_of_ne (s : Loop) (hne : fd ≠ fd') (sl : Slot) :
    (s.setSlot fd' sl).slot fd = s.slot fd := by
  simp only [Loop.setSlot, Function.update_of_ne hne]

/-- A new content of one slot that has the same flags. -/
theorem setSlot_sameFlags {sl : Slot} (hadded : sl.addedToLoop = (s.slot fd').addedToLoop)
    (hhandling : sl.eventHandling = (s.slot fd').eventHandling) : SameFlags fd s (s.setSlot fd' sl) := by
  by_cases hfd : fd = fd'
  · subst hfd
    refine ⟨rfl, ?_, ?_, rfl⟩
    · rw [setSlot_self, hadded]
    · rw [setSlot_self, hhandling]
  · refine ⟨rfl, ?_, ?_, rfl⟩
    · rw [setSlot_of_ne s hfd]
    · rw [setSlot_of_ne s hfd]

/-- The slots of the other descriptors. -/
theorem setSlot_other (hne : fd ≠ fd') (sl : Slot) : SameFlags fd s (s.setSlot fd' sl) := by
  refine ⟨rfl, ?_, ?_, rfl⟩
  · rw [setSlot_of_ne s hne]
  · rw [setSlot_of_ne s hne]

theorem updateChannel_channels {t t' : State} {ch : Channel} {stack : EpollEvent}
    (h : Poll.updateChannel t fd' ch stack = some t') :
    ∃ ch', t'.channels = Function.update t.channels fd' (some ch') := by
  have hupdate : ∀ (t : State) op ch stack, (update t op fd' ch stack).channels = t.channels := by
    intro t op ch stack
    unfold update
    cases epollCtl t.interest op fd' (ch.event.getD stack) with
    | none => rfl
    | some interest => rfl
  unfold Poll.updateChannel at h
  cases hidx : ch.idx with
  | chExtern =>
    simp only [hidx] at h
    cases h
  | chDeleted =>
    simp only [hidx, Option.some.injEq] at h
    rw [← h, hupdate]
    exact ⟨_, rfl⟩
  | chAdded =>
    simp only [hidx] at h
    by_cases hzero : ch.listenEvents = 0
    · rw [if_pos hzero, Option.some.injEq] at h
      rw [← h, hupdate]
      exact ⟨_, rfl⟩
    · rw [if_neg hzero, Option.some.injEq] at h
      rw [← h, hupdate]
      exact ⟨_, rfl⟩

/-- A channel that is there stays there. -/
theorem present_update {t : State} {ch ch' : Channel} (hch : t.channels fd' = some ch) :
    (Function.update t.channels fd' (some ch') fd).isSome = (t.channels fd).isSome := by
  by_cases hfd : fd = fd'
  · rw [hfd, Function.update_self, hch]
    rfl
  · rw [Function.update_of_ne hfd]

theorem loop_updateChannel_sameFlags {ch₀ ch : Channel} {stack : EpollEvent}
    (hch : s.poll.channels fd' = some ch₀) (h : s.updateChannel fd' ch stack = some s') :
    SameFlags fd s s' := by
  obtain ⟨t, ht, rfl⟩ := Option.map_eq_some_iff.mp h
  obtain ⟨ch', hch'⟩ := updateChannel_channels ht
  refine ⟨?_, rfl, rfl, rfl⟩
  show ((if s.isOpen fd' then t else { t with interest := s.poll.interest }).channels fd).isSome = _
  have hchannels : (if s.isOpen fd' then t else { t with interest := s.poll.interest }).channels
      = t.channels := by
    by_cases hopen : s.isOpen fd' = true
    · rw [if_pos hopen]
    · rw [if_neg hopen]
  rw [hchannels, hch']
  exact present_update hch

/-- A call that does not go through `update()`, or is made on another channel. -/
theorem call_sameFlags {f : Call} {stack : EpollEvent} (hf : ¬(fd' = fd ∧ f.updates = true))
    (h : s.call fd' f stack = some s') : SameFlags fd s s' := by
  obtain ⟨ch, hch, h⟩ := Option.bind_eq_some_iff.mp h
  by_cases hupdates : f.updates = true
  · rw [if_pos hupdates] at h
    have hne : fd ≠ fd' := fun heq => hf ⟨heq.symm, hupdates⟩
    exact (setSlot_other hne _).trans (loop_updateChannel_sameFlags hch h)
  · rw [if_neg hupdates] at h
    exact loop_updateChannel_sameFlags hch h

/-- `DisableRead` and `DisableWrite` set `addedToLoop`. -/
theorem call_updates {f : Call} {stack : EpollEvent} (hf : f.updates = true)
    (h : s.call fd f stack = some s') (hp : Follows fd s p) :
    Follows fd s' { p with updated := true } := by
  obtain ⟨ch, hch, h⟩ := Option.bind_eq_some_iff.mp h
  rw [if_pos hf] at h
  have hupdate : (s.setSlot fd { s.slot fd with addedToLoop := true }).updateChannel fd
      { ch with listenEvents := f.listen ch.listenEvents } stack = some s' := h
  have hch' : (s.setSlot fd { s.slot fd with addedToLoop := true }).poll.channels fd = some ch := hch
  have hset : Follows fd (s.setSlot fd { s.slot fd with addedToLoop := true })
      { p with updated := true } := by
    refine ⟨fun hnone => ?_, fun _ => ?_, fun hsome hno => ?_, fun c hc hfd => ?_⟩
    · rw [show (s.setSlot fd _).poll.channels fd = s.poll.channels fd from rfl, hch] at hnone
      cases hnone
    · rw [setSlot_self]
    · rw [setSlot_self]
      exact hp.handling hsome hno
    · rw [setSlot_self]
      exact hp.current c hc hfd
  exact (loop_updateChannel_sameFlags hch' hupdate).follows hset

theorem tie_sameFlags (h : s.tie fd' = some s') : SameFlags fd s s' := by
  obtain ⟨ch, hch, rfl⟩ := Option.map_eq_some_iff.mp h
  exact ⟨present_update hch, rfl, rfl, rfl⟩

theorem connectEstablished_sameFlags {stack : EpollEvent}
    (h : s.connectEstablished fd' stack = some s') : SameFlags fd s s' := by
  obtain ⟨t, ht, h⟩ := Option.bind_eq_some_iff.mp h
  exact (tie_sameFlags ht).trans (call_sameFlags (by simp [Call.updates]) h)

theorem closeFd_sameFlags (s : Loop) : SameFlags fd s (s.closeFd fd') := ⟨rfl, rfl, rfl, rfl⟩

theorem reset_sameFlags (h : s.reset fd' = some s') : SameFlags fd s s' := by
  obtain ⟨ch, hch, rfl⟩ := Option.map_eq_some_iff.mp h
  have hset : SameFlags fd s (s.setSlot fd' { s.slot fd' with owner := none, installed := fun _ => false }) :=
    setSlot_sameFlags rfl rfl
  exact hset.trans ⟨present_update hch, rfl, rfl, rfl⟩

theorem handleEpHup_sameFlags {stack : EpollEvent} (h : s.handleEpHup fd' stack = some s') :
    SameFlags fd s s' := by
  obtain ⟨t, ht, h⟩ := Option.bind_eq_some_iff.mp h
  obtain ⟨u, hu, rfl⟩ := Option.map_eq_some_iff.mp h
  exact (call_sameFlags (by simp [Call.updates]) ht).trans
    ((reset_sameFlags hu).trans (closeFd_sameFlags u))

/-- A new channel has a new past. -/
theorem addChannel_follows (hf : Follows fd s p) : Follows fd (s.addChannel fd') p := by
  unfold Loop.addChannel
  cases hch : s.poll.channels fd' with
  | some ch => exact hf
  | none =>
    have hchannels : (Poll.addChannel s.poll fd').channels
        = Function.update s.poll.channels fd' (some ⟨s.poll.next, .chDeleted, 0, false⟩) := by
      rw [Poll.addChannel, hch]
      rfl
    by_cases hfd : fd = fd'
    · subst hfd
      have hpast := hf.absent hch
      refine ⟨fun hnone => hpast, fun _ => ?_, fun _ _ => ?_, fun c hc hfd => ?_⟩
      · show ((s.setSlot fd .new).slot fd).addedToLoop = _
        rw [setSlot_self, hpast]
        rfl
      · show ((s.setSlot fd .new).slot fd).eventHandling = true ↔ _
        rw [setSlot_self, hpast]
        decide
      · have hsome := (hf.current c hc hfd).1
        rw [hch] at hsome
        cases hsome
    · refine SameFlags.follows ?_ hf
      refine (setSlot_other hfd _).trans ⟨?_, rfl, rfl, rfl⟩
      show ((Poll.addChannel s.poll fd').channels fd).isSome = _
      rw [hchannels, Function.update_of_ne hfd]
      rfl

theorem create_follows {obj : ℕ} {callbacks : Callback → Bool} (hf : Follows fd s p) :
    Follows fd (s.create fd' obj callbacks) p := by
  have hadd : Follows fd (s.addChannel fd') p := addChannel_follows hf
  let t := (s.addChannel fd').setSlot fd' { (s.addChannel fd').slot fd' with
    owner := some obj, installed := callbacks }
  have hset : SameFlags fd (s.addChannel fd') t := setSlot_sameFlags rfl rfl
  have hopen : SameFlags fd t (s.create fd' obj callbacks) := ⟨rfl, rfl, rfl, rfl⟩
  exact (hset.trans hopen).follows hadd

/-! ### the wake-up -/

/-- `fillActiveChannels` sets `ready_events` and nothing else of a channel. -/
theorem fill_slot (evs : List (ℕ × Mask)) (fd : ℕ) :
    ∃ mask, (s.fill evs).slot fd = { s.slot fd with readyEvents := mask } := by
  have hfold : ∀ slot : ℕ → Slot, ∃ mask,
      evs.foldl (fun slot e => Function.update slot e.1 { slot e.1 with readyEvents := e.2 }) slot fd
        = { slot fd with readyEvents := mask } := by
    induction evs with
    | nil => exact fun slot => ⟨(slot fd).readyEvents, rfl⟩
    | cons e evs ih =>
      intro slot
      obtain ⟨mask, hmask⟩ := ih (Function.update slot e.1 { slot e.1 with readyEvents := e.2 })
      refine ⟨mask, ?_⟩
      rw [List.foldl_cons, hmask]
      by_cases hfd : fd = e.1
      · rw [← hfd, Function.update_self]
      · rw [Function.update_of_ne hfd]
  exact hfold s.slot

theorem fill_sameFlags (evs : List (ℕ × Mask)) : SameFlags fd s (s.fill evs) := by
  obtain ⟨mask, hmask⟩ := fill_slot (s := s) evs fd
  refine ⟨rfl, ?_, ?_, rfl⟩
  · rw [hmask]
  · rw [hmask]

/-- `HandleEvent_tied` returns early exactly for the masks with one of the three bits. -/
theorem plan_early (mask : Mask) (drains : Bool) : (plan mask drains).2 = true ↔ IsEarly mask := by
  unfold plan IsEarly
  by_cases herr : mask &&& epollErr ≠ 0
  · rw [if_pos herr]
    exact iff_of_true rfl (.inl herr)
  · rw [if_neg herr]
    by_cases hhup : mask &&& epollHup ≠ 0
    · rw [if_pos hhup]
      exact iff_of_true rfl (.inr (.inl hhup))
    · rw [if_neg hhup]
      by_cases hrdhup : mask &&& epollRdhup ≠ 0
      · rw [if_pos hrdhup]
        exact iff_of_true rfl (.inr (.inr hrdhup))
      · rw [if_neg hrdhup]
        exact iff_of_false Bool.false_ne_true (not_or.mpr ⟨herr, not_or.mpr ⟨hhup, hrdhup⟩⟩)

theorem tryCallback_sameFlags {h : Handling} {cb : Callback} {rest : List Callback}
    (hc : s.current = some h) : SameFlags fd s (s.tryCallback h cb rest) := by
  unfold Loop.tryCallback
  by_cases hinstalled : (s.slot h.fd).installed cb = true
  · rw [if_pos hinstalled]
    refine ⟨rfl, rfl, rfl, ?_⟩
    rw [hc]
    rfl
  · rw [if_neg hinstalled]
    refine ⟨rfl, rfl, rfl, ?_⟩
    rw [hc]
    rfl

/-- The last line is skipped exactly by the early returns. -/
theorem finish_follows {h : Handling} (hc : s.current = some h) (hf : Follows fd s p) :
    Follows fd (s.finish h) p := by
  by_cases hfd : h.fd = fd
  · obtain ⟨hsome, hhandling, hearly⟩ := hf.current h hc hfd
    have hadded := hf.added hsome
    have habsent : ¬s.poll.channels fd = none := by
      intro hnone
      rw [hnone] at hsome
      cases hsome
    unfold Loop.finish
    by_cases he : h.early = true
    · rw [if_pos he]
      refine ⟨fun hnone => absurd hnone habsent, fun _ => hadded, fun _ _ => ?_, fun c hc' => ?_⟩
      · exact iff_of_true hhandling (hearly.mp he)
      · cases hc'
    · rw [if_neg he, hfd]
      refine ⟨fun hnone => absurd hnone habsent, fun _ => ?_, fun _ _ => ?_, fun c hc' => ?_⟩
      · rw [setSlot_self]
        exact hadded
      · rw [setSlot_self]
        exact iff_of_false Bool.false_ne_true (fun hmask => he (hearly.mpr hmask))
      · cases hc'
  · have hcleared : Follows fd { s with current := none } p := by
      refine ⟨hf.absent, hf.added, fun hsome _ => hf.handling hsome (fun c hc' => ?_), fun c hc' => ?_⟩
      · rw [hc, Option.some.injEq] at hc'
        rw [← hc']
        exact hfd
      · cases hc'
    unfold Loop.finish
    by_cases he : h.early = true
    · rw [if_pos he]
      exact hcleared
    · rw [if_neg he]
      exact (setSlot_other (Ne.symm hfd) _).follows hcleared

/-! ### steps and runs -/

/-- `HandleEvent` of the next channel. -/
theorem next_follows {collectedFor : Option ℕ} {rest : List (ℕ × Option ℕ)} {ch : Channel} {locked : Bool}
    (hidle : s.current = none) (hactive : s.active = (fd', collectedFor) :: rest)
    (hch : s.poll.channels fd' = some ch) (hf : Follows fd s p) :
    Follows fd (Loop.handleEvent { s with active := rest } fd' collectedFor ch locked)
      ((s.mark fd (.next locked)).toList.foldl Past.add p) := by
  have htaken : SameFlags fd s { s with active := rest } := ⟨rfl, rfl, rfl, rfl⟩
  have hguard : ((s.poll.channels fd').any fun ch => !ch.tied || locked) = !(ch.tied && !locked) := by
    rw [hch, Option.any_some, Bool.not_and, Bool.not_not]
  unfold Loop.handleEvent
  by_cases hskip : (ch.tied && !locked) = true
  · have hmark : s.mark fd (.next locked) = none := by
      rw [Loop.mark, hactive]
      show (if _ then _ else _) = none
      rw [if_neg]
      rintro ⟨rfl, hany⟩
      rw [hguard, hskip] at hany
      cases hany
    rw [if_pos hskip, hmark]
    exact htaken.follows hf
  · rw [if_neg hskip]
    by_cases hfd : fd' = fd
    · subst hfd
      have hhandled : ((s.poll.channels fd').any fun ch => !ch.tied || locked) = true := by
        rw [hguard, Bool.eq_false_iff.mpr hskip]
        rfl
      have hmark : s.mark fd' (.next locked) = some (.handled (s.slot fd').readyEvents) := by
        rw [Loop.mark, hactive]
        exact if_pos ⟨rfl, hhandled⟩
      rw [hmark]
      refine ⟨fun hnone => ?_, fun hsome => ?_, fun _ hno => ?_, fun c hc _ => ⟨?_, ?_, ?_⟩⟩
      · exact absurd (hch.symm.trans hnone) (by simp)
      · show (Function.update s.slot fd' _ fd').addedToLoop = p.updated
        rw [Function.update_self]
        exact hf.added (by rw [hch]; rfl)
      · exact absurd rfl (hno _ rfl)
      · show (s.poll.channels fd').isSome = true
        rw [hch]
        rfl
      · show (Function.update s.slot fd' _ fd').eventHandling = true
        rw [Function.update_self]
      · obtain rfl := Option.some.inj hc
        exact plan_early (s.slot fd').readyEvents _
    · have hmark : s.mark fd (.next locked) = none := by
        rw [Loop.mark, hactive]
        show (if _ then _ else _) = none
        rw [if_neg (fun hand => hfd hand.1)]
      rw [hmark]
      have hne : fd ≠ fd' := Ne.symm hfd
      have hslot : Follows fd (s.setSlot fd' { s.slot fd' with eventHandling := true }) p :=
        (setSlot_other hne _).follows hf
      refine ⟨hslot.absent, hslot.added, fun hsome _ => hslot.handling hsome (fun c hc => ?_),
        fun c hc hcfd => ?_⟩
      · rw [show (s.setSlot fd' _).current = s.current from rfl, hidle] at hc
        cases hc
      · obtain rfl := Option.some.inj hc
        exact absurd hcfd hfd

/-- A channel that is removed has no past. -/
theorem remove_follows (hidle : s.idle = true) (h : s.remove fd' = some s') (hf : Follows fd s p) :
    Follows fd s' ((s.mark fd (.remove fd')).toList.foldl Past.add p) := by
  obtain ⟨ch, hch, h⟩ := Option.bind_eq_some_iff.mp h
  rw [Option.ite_none_right_eq_some, Option.some.injEq] at h
  obtain ⟨-, rfl⟩ := h
  have hnone : s.current = none := by
    rw [Loop.idle, Bool.and_eq_true, Option.isNone_iff_eq_none] at hidle
    exact hidle.2
  have hchannels : ∀ fd, (({ s with poll := { s.poll with
      channels := Function.update s.poll.channels fd' none } } : Loop).closeFd fd').poll.channels fd
        = Function.update s.poll.channels fd' none fd := fun _ => rfl
  by_cases hfd : fd' = fd
  · subst hfd
    rw [Loop.mark, if_pos rfl]
    refine ⟨fun _ => rfl, fun hsome => ?_, fun hsome _ => ?_, fun c hc _ => ?_⟩
    · rw [hchannels, Function.update_self] at hsome
      cases hsome
    · rw [hchannels, Function.update_self] at hsome
      cases hsome
    · exact absurd (hnone.symm.trans hc) (by simp)
  · rw [Loop.mark, if_neg hfd]
    have hsame : SameFlags fd s (({ s with poll := { s.poll with
        channels := Function.update s.poll.channels fd' none } } : Loop).closeFd fd') := by
      refine ⟨?_, rfl, rfl, rfl⟩
      rw [hchannels, Function.update_of_ne (Ne.symm hfd)]
    exact hsame.follows hf

theorem step_follows {a : LoopAction} (hf : Follows fd s p) (h : s.step a = some s') :
    Follows fd s' ((s.mark fd a).toList.foldl Past.add p) := by
  cases a with
  | poll evs =>
    rw [Loop.step, Option.ite_none_right_eq_some, Option.some.injEq] at h
    rw [← h.2]
    exact (fill_sameFlags evs).follows hf
  | next locked =>
    cases hcur : s.current with
    | some c =>
      rw [Loop.step, hcur] at h
      cases h
    | none =>
      cases hactive : s.active with
      | nil =>
        rw [Loop.step, hcur, hactive] at h
        cases h
      | cons e rest =>
        obtain ⟨fd', collectedFor⟩ := e
        have hstep : s.step (.next locked) = (s.poll.channels fd').map fun ch =>
            Loop.handleEvent { s with active := rest } fd' collectedFor ch locked := by
          rw [Loop.step, hcur, hactive]
        rw [hstep] at h
        obtain ⟨ch, hch, rfl⟩ := Option.map_eq_some_iff.mp h
        exact next_follows hcur hactive hch hf
  | callback =>
    cases hcur : s.current with
    | none =>
      rw [Loop.step, hcur] at h
      cases h
    | some c =>
      obtain ⟨fd', collectedFor, rest, early⟩ := c
      cases rest with
      | nil =>
        rw [Loop.step, hcur] at h
        cases h
      | cons cb rest =>
        rw [Loop.step, hcur] at h
        rw [← Option.some.inj h]
        exact (tryCallback_sameFlags hcur).follows hf
  | finish =>
    cases hcur : s.current with
    | none =>
      rw [Loop.step, hcur] at h
      cases h
    | some c =>
      obtain ⟨fd', collectedFor, rest, early⟩ := c
      cases rest with
      | cons cb rest =>
        rw [Loop.step, hcur] at h
        cases h
      | nil =>
        rw [Loop.step, hcur] at h
        rw [← Option.some.inj h]
        exact finish_follows hcur hf
  | create fd' obj callbacks =>
    rw [Loop.step, Option.ite_none_left_eq_some, Option.some.injEq] at h
    rw [← h.2]
    exact create_follows hf
  | connectEstablished fd' stack => exact (connectEstablished_sameFlags h).follows hf
  | call fd' f stack =>
    by_cases hupdates : fd' = fd ∧ f.updates = true
    · rw [Loop.mark, if_pos hupdates]
      obtain ⟨rfl, hupdates⟩ := hupdates
      exact call_updates hupdates h hf
    · rw [Loop.mark, if_neg hupdates]
      exact (call_sameFlags hupdates h).follows hf
  | setIoChannel fd' =>
    obtain ⟨ch, -, rfl⟩ := Option.map_eq_some_iff.mp h
    have hsame : SameFlags fd s (s.setSlot fd' { s.slot fd' with isIoChannel := true }) :=
      setSlot_sameFlags rfl rfl
    exact hsame.follows hf
  | handleEpHup fd' stack => exact (handleEpHup_sameFlags h).follows hf
  | remove fd' =>
    rw [Loop.step, Option.ite_none_right_eq_some] at h
    exact remove_follows h.1 h.2 hf

theorem init_follows (fd : ℕ) : Follows fd Loop.init .new := by
  refine ⟨fun _ => rfl, fun h => ?_, fun h => ?_, fun c hc => ?_⟩
  · cases h
  · cases h
  · cases hc

/-- **The assertions of `~Channel`.**  After a run of a loop, with any masks delivered, any channels and any
calls on them, while no event is being dispatched: for any channel, disabled ones in particular, the
assertions hold in `Channel::remove` exactly when the last event it was handled for had none of `EPOLLERR`,
`EPOLLHUP` and `EPOLLRDHUP`, and in `~Poller` exactly when moreover neither `DisableRead` nor `DisableWrite`
was called on it since it was made. -/
theorem teardown_asserts {as : List LoopAction} (h : run Loop.step Loop.init as = some s)
    (hidle : s.idle = true) {ch : Channel} (hch : s.poll.channels fd = some ch) :
    ((s.slot fd).RemoveHolds ↔ ¬IsEarly (pastOf fd as).last) ∧
      ((s.slot fd).DtorHolds ↔ ¬IsEarly (pastOf fd as).last ∧ (pastOf fd as).updated = false) := by
  have hf : Follows fd s (pastOf fd as) :=
    run_observed (Loop.mark fd) Past.add (Follows fd) (fun _ _ _ _ hf hs => step_follows hf hs)
      (init_follows fd) h
  have hsome : (s.poll.channels fd).isSome := by
    rw [hch]
    rfl
  have hnone : s.current = none := by
    rw [Loop.idle, Bool.and_eq_true, Option.isNone_iff_eq_none] at hidle
    exact hidle.2
  have hhandling : (s.slot fd).eventHandling = true ↔ IsEarly (pastOf fd as).last := by
    refine hf.handling hsome (fun c hc => ?_)
    rw [hnone] at hc
    cases hc
  have hadded := hf.added hsome
  rw [Slot.RemoveHolds, Slot.DtorHolds, Slot.DtorHolds, ← hhandling, ← hadded,
    Bool.not_eq_true]
  exact ⟨⟨fun hr => hr.1, fun hr => ⟨hr, rfl⟩⟩, Iff.rfl⟩

/-- A channel that listens, sees its peer hang up, and is disabled. -/
def hungUpRun : List LoopAction :=
  [.create 5 1 fun _ => true, .call 5 .enableRead ⟨0, 0⟩, .poll [(5, epollHup)], .next true, .callback,
    .finish, .call 5 .disableAll ⟨0, 0⟩]

/-- A channel that is told to stop reading, without any event. -/
def stoppedRun : List LoopAction :=
  [.create 5 1 fun _ => true, .call 5 .enableRead ⟨0, 0⟩, .call 5 .disableRead ⟨0, 0⟩]

/-- Whether no event is being dispatched, what the channel of `fd` listens for, and whether the assertions
hold for it. -/
def Loop.teardown (s : Loop) (fd : ℕ) : Bool × Option Mask × Bool × Bool :=
  (s.idle, (s.poll.channels fd).map Channel.listenEvents, decide (s.slot fd).RemoveHolds,
    decide (s.slot fd).DtorHolds)

theorem hungUpRun_end :
    (run Loop.step Loop.init hungUpRun).map (fun s => s.teardown 5)
      = some (true, some 0, false, false) := by
  decide

theorem stoppedRun_end :
    (run Loop.step Loop.init stoppedRun).map (fun s => s.teardown 5)
      = some (true, some 0, true, false) := by
  decide

/-- After `stoppedRun` the channel can be removed, but not torn down by `~Poller`. -/
theorem teardown_asserts_stopped :
    ∃ s, run Loop.step Loop.init stoppedRun = some s ∧
      ((s.slot 5).RemoveHolds ↔ ¬IsEarly (pastOf 5 stoppedRun).last) ∧
      ((s.slot 5).DtorHolds ↔
        ¬IsEarly (pastOf 5 stoppedRun).last ∧ (pastOf 5 stoppedRun).updated = false) := by
  obtain ⟨s, hs, hend⟩ := Option.map_eq_some_iff.mp stoppedRun_end
  have hidle : s.idle = true := congrArg Prod.fst hend
  obtain ⟨ch, hch, -⟩ := Option.map_eq_some_iff.mp (congrArg (fun e => e.2.1) hend)
  exact ⟨s, hs, teardown_asserts hs hidle hch⟩

/-- The hang-up leaves `eventHandling` set: the disabled channel can neither be removed nor torn down. -/
theorem hung_up_not_removable :
    ∃ s ch, run Loop.step Loop.init hungUpRun = some s ∧ s.idle = true ∧
      s.poll.channels 5 = some ch ∧ ch.listenEvents = 0 ∧ ¬(s.slot 5).RemoveHolds ∧
      ¬(s.slot 5).DtorHolds := by
  obtain ⟨s, hs, hend⟩ := Option.map_eq_some_iff.mp hungUpRun_end
  obtain ⟨ch, hch, hlisten⟩ := Option.map_eq_some_iff.mp (congrArg (fun e => e.2.1) hend)
  have hremove : decide (s.slot 5).RemoveHolds = false := congrArg (fun e => e.2.2.1) hend
  have hdtor : decide (s.slot 5).DtorHolds = false := congrArg (fun e => e.2.2.2) hend
  exact ⟨s, ch, hs, congrArg Prod.fst hend, hch, hlisten, of_decide_eq_false hremove,
    of_decide_eq_false hdtor⟩

end KwNet.Poll
