import KwNet.Lib.Run
import KwNet.Poll.Model

/-!
# `SignalHandler`

`SignalHandler.cpp`: a signalfd in the loop.  `init` blocks the signals of `sig_cared` and registers the descriptor as
`Epoller` registers every channel, that is edge-triggered; `default_handler` reads one `signalfd_siginfo` for each
report.

* `State.step` — the setters, `init`, signals that arrive, `epoll_wait` and the dispatch of its report;
* **`signals_stranded`** — a signal that arrives before an earlier one is reported leaves one behind that no report is
  under way for; this is the only way to lose one.

`sig_cared` is not initialised: what the memory holds is given.  Signals that `init` has not blocked are the kernel's
affair; a signal below 32 is pending once at most, and which one of several `read` returns is chosen by the action.
`init` is called once, before other threads are started.
-/

namespace KwNet.SignalHandler

open KwNet.Lib

/-- The signals with a handler of their own. -/
inductive Name where
  | int
  | quit
  | hup
  | term
  | child
  | abort
  deriving DecidableEq

def Name.number : Name → ℕ
  | .hup => 1
  | .int => 2
  | .quit => 3
  | .abort => 6
  | .term => 15
  | .child => 17

/-- The `switch` of `default_handler`. -/
def Name.ofNumber : ℕ → Option Name
  | 1 => some .hup
  | 2 => some .int
  | 3 => some .quit
  | 6 => some .abort
  | 15 => some .term
  | 17 => some .child
  | _ => none

inductive Fault where
  /-- `sig_info` is used after a `read` that failed. -/
  | uninitialised
  /-- An empty `std::function` is called. -/
  | badFunctionCall
  deriving DecidableEq

/-- `H` are the functions the user may set. -/
structure State (H : Type) where
  handler : Name → Option H
  sigCared : ℕ → Bool
  /-- The signals in `mask`, once `init` has blocked them. -/
  mask : ℕ → Bool
  /-- What `epoll_ctl` was given. -/
  events : Poll.Mask
  /-- The signals that are blocked and pending. -/
  pending : List ℕ
  /-- The descriptor is on the ready list of the epoll instance. -/
  edge : Bool
  /-- `epoll_wait` has returned it, and its channel is still to be dispatched. -/
  reported : Bool
  fault : Option Fault
  /-- The signals that became pending, and those that were read (history). -/
  accepted : List ℕ
  handled : List ℕ
  /-- The handlers called (history). -/
  calls : List H
  /-- The signals that became pending with the descriptor on the ready list already (history). -/
  merged : ℕ

inductive Action (H : Type) where
  | setHandle (n : Name) (h : H)
  | init
  | raise (sig : ℕ)
  | poll
  /-- `default_handler`, in which `read` returns `sig`. -/
  | dispatch (sig : ℕ)
  /-- `default_handler`, in which `read` fails. -/
  | dispatchFailed

variable {H : Type}

def State.ctor (garbage : ℕ → Bool) : State H where
  handler := fun _ => none
  sigCared := garbage
  mask := fun _ => false
  events := 0
  pending := []
  edge := false
  reported := false
  fault := none
  accepted := []
  handled := []
  calls := []
  merged := 0

/-- `set_handle_int` and the five others. -/
def State.setHandle (s : State H) (n : Name) (h : H) : State H :=
  { s with handler := Function.update s.handler n (some h), sigCared := Function.update s.sigCared n.number true }

/-- The signals that `sigaddset` takes. -/
def valid (sig : ℕ) : Bool := decide (1 ≤ sig ∧ sig < 65)

/-- The channel that `init` adds to the loop. -/
def channelEvent : Option Poll.EpollEvent :=
  Poll.Channel.event ⟨0, .chAdded, Poll.Call.enableRead.listen 0, false⟩

def State.init (s : State H) : State H :=
  { s with mask := fun sig => valid sig && s.sigCared sig, events := (channelEvent.map Poll.EpollEvent.events).getD 0 }

/-- A blocked signal becomes pending. -/
def State.raise (s : State H) (sig : ℕ) : State H :=
  if sig < 32 ∧ sig ∈ s.pending then s
  else { s with
    pending := s.pending ++ [sig]
    edge := true
    accepted := s.accepted ++ [sig]
    merged := if s.edge then s.merged + 1 else s.merged }

/-- `epoll_wait`: an edge-triggered descriptor is reported if it is readable and on the ready list. -/
def State.poll (s : State H) : State H :=
  { s with edge := false, reported := !s.pending.isEmpty && (s.edge || s.events &&& Poll.epollEt == 0) }

/-- The `switch`. -/
def State.call (s : State H) (sig : ℕ) : State H :=
  match Name.ofNumber sig with
  | none => s
  | some n =>
    match s.handler n with
    | some h => { s with calls := s.calls ++ [h] }
    | none => { s with fault := some .badFunctionCall }

def State.dispatch (s : State H) (sig : ℕ) : State H :=
  State.call { s with pending := s.pending.erase sig, reported := false, handled := s.handled ++ [sig] } sig

def step (s : State H) (a : Action H) : Option (State H) :=
  if s.fault = none then
    match a with
    | .setHandle n h => some (s.setHandle n h)
    | .init => if s.events = 0 then some s.init else none
    | .raise sig => if s.mask sig then some (s.raise sig) else none
    | .poll => if s.reported then none else some s.poll
    | .dispatch sig => if s.reported ∧ sig ∈ s.pending then some (s.dispatch sig) else none
    | .dispatchFailed =>
      if s.reported ∧ s.pending = [] then some { s with reported := false, fault := some .uninitialised } else none
  else none

/-! ### The invariant -/

/-- What is under way. -/
def State.reports (s : State H) : ℕ := s.edge.toNat + s.reported.toNat

structure Inv (garbage : ℕ → Bool) (s : State H) : Prop where
  trigger : s.events = 0 ∧ s.mask = (fun _ => false) ∧ s.pending = [] ∨ s.events &&& Poll.epollEt ≠ 0
  counted : ∀ sig, s.accepted.count sig = s.handled.count sig + s.pending.count sig
  stranded : s.pending.length = s.merged + s.reports
  cared : ∀ n, s.handler n = none → s.sigCared (Name.number n) = garbage n.number
  masked : ∀ n, s.mask (Name.number n) = true → s.handler n = none → garbage n.number = true
  waiting : ∀ sig ∈ s.pending, s.mask sig = true
  fault : ∀ f, s.fault = some f → f = .badFunctionCall ∧ ∃ n, s.handler n = none ∧ garbage n.number = true

theorem Name.number_ofNumber {sig : ℕ} {n : Name} (h : Name.ofNumber sig = some n) : n.number = sig := by
  unfold Name.ofNumber at h
  split at h <;> cases h <;> rfl

theorem Name.number_injective {n m : Name} (h : n.number = m.number) : n = m := by
  cases n <;> cases m <;> first | rfl | cases h

variable {garbage : ℕ → Bool} {s s' : State H}

theorem inv_ctor (garbage : ℕ → Bool) : Inv garbage (State.ctor garbage : State H) where
  trigger := .inl ⟨rfl, rfl, rfl⟩
  counted := fun _ => rfl
  stranded := rfl
  cared := fun _ _ => rfl
  masked := nofun
  waiting := nofun
  fault := nofun

theorem Inv.setHandle (hI : Inv garbage s) (hfault : s.fault = none) (n : Name) (h : H) : Inv garbage (s.setHandle n h) where
  trigger := hI.trigger
  counted := hI.counted
  stranded := hI.stranded
  cared := by
    intro m hm
    by_cases hne : m = n
    · rw [hne] at hm
      exact absurd hm (by rw [show (s.setHandle n h).handler n = some h from Function.update_self ..]; simp)
    · have hm' : s.handler m = none := (Function.update_of_ne hne ..).symm.trans hm
      have hnumber : m.number ≠ n.number := fun heq => hne (Name.number_injective heq)
      exact (Function.update_of_ne hnumber ..).trans (hI.cared m hm')
  masked := by
    intro m hmask hm
    by_cases hne : m = n
    · rw [hne] at hm
      exact absurd hm (by rw [show (s.setHandle n h).handler n = some h from Function.update_self ..]; simp)
    · exact hI.masked m hmask ((Function.update_of_ne hne ..).symm.trans hm)
  waiting := hI.waiting
  fault := by
    intro f hf
    rw [show (s.setHandle n h).fault = none from hfault] at hf
    cases hf

theorem Inv.init (hI : Inv garbage s) (hevents : s.events = 0) : Inv garbage s.init where
  trigger := .inr (by show channelEvent.map Poll.EpollEvent.events |>.getD 0 |> (· &&& Poll.epollEt) |> (· ≠ 0); decide)
  counted := hI.counted
  stranded := hI.stranded
  cared := hI.cared
  masked := by
    intro n hmask hnone
    rw [← hI.cared n hnone]
    exact (Bool.and_eq_true_iff.mp hmask).2
  waiting := by
    intro sig hsig
    rcases hI.trigger with ⟨-, -, hnil⟩ | htrigger
    · rw [show s.init.pending = [] from hnil] at hsig
      cases hsig
    · exact absurd (by rw [hevents]; decide) htrigger
  fault := hI.fault

theorem Inv.raise (hI : Inv garbage s) {sig : ℕ} (hmask : s.mask sig = true) : Inv garbage (s.raise sig) := by
  unfold State.raise
  split
  · exact hI
  · refine ⟨?_, fun sig' => ?_, ?_, hI.cared, hI.masked, fun sig' hsig' => ?_, hI.fault⟩
    · rcases hI.trigger with ⟨-, hnone, -⟩ | htrigger
      · rw [hnone] at hmask
        cases hmask
      · exact .inr htrigger
    · show (s.accepted ++ [sig]).count sig' = s.handled.count sig' + (s.pending ++ [sig]).count sig'
      rw [List.count_append, List.count_append, hI.counted sig', Nat.add_assoc]
    · have hlength := hI.stranded
      show (s.pending ++ [sig]).length = (if s.edge then s.merged + 1 else s.merged) + (true.toNat + s.reported.toNat)
      rw [List.length_append, hlength, State.reports, List.length_singleton]
      cases s.edge
      · show s.merged + (0 + _) + 1 = s.merged + (1 + _)
        omega
      · show s.merged + (1 + _) + 1 = s.merged + 1 + (1 + _)
        omega
    · rcases List.mem_append.mp hsig' with hold | hnew
      · exact hI.waiting sig' hold
      · rw [List.mem_singleton.mp hnew]
        exact hmask

theorem Inv.poll (hI : Inv garbage s) (hreported : s.reported = false) : Inv garbage s.poll := by
  have hlength := hI.stranded
  rw [State.reports, hreported] at hlength
  refine ⟨hI.trigger, hI.counted, ?_, hI.cared, hI.masked, hI.waiting, hI.fault⟩
  show s.pending.length = s.merged + (false.toNat + (!s.pending.isEmpty && (s.edge || s.events &&& Poll.epollEt == 0)).toNat)
  rcases hI.trigger with ⟨-, -, hnil⟩ | htrigger
  · rw [hnil] at hlength ⊢
    have hzero : s.merged = 0 := by
      rw [List.length_nil] at hlength
      omega
    rw [hzero]
    rfl
  · rw [beq_eq_false_iff_ne.mpr htrigger, Bool.or_false]
    cases hedge : s.edge with
    | false =>
      rw [hedge] at hlength
      rw [Bool.and_false]
      exact hlength
    | true =>
      rw [hedge] at hlength
      have hne : s.pending.isEmpty = false := by
        rw [List.isEmpty_eq_false_iff, ← List.length_pos_iff, hlength]
        exact Nat.lt_of_lt_of_le Nat.one_pos (Nat.le_add_left _ _)
      rw [hne]
      exact hlength

theorem Inv.dispatch (hI : Inv garbage s) {sig : ℕ} (hreported : s.reported = true)
    (hmem : sig ∈ s.pending) : Inv garbage (s.dispatch sig) := by
  have hlength := hI.stranded
  rw [State.reports, hreported] at hlength
  have hread : Inv garbage { s with pending := s.pending.erase sig, reported := false, handled := s.handled ++ [sig] } := by
    refine ⟨?_, fun sig' => ?_, ?_, hI.cared, hI.masked, fun sig' hsig' => hI.waiting sig' (List.mem_of_mem_erase hsig'),
      hI.fault⟩
    · rcases hI.trigger with ⟨-, -, hnil⟩ | htrigger
      · rw [hnil] at hmem
        cases hmem
      · exact .inr htrigger
    · show s.accepted.count sig' = (s.handled ++ [sig]).count sig' + (s.pending.erase sig).count sig'
      rw [hI.counted sig', List.count_append, List.count_erase, List.count_singleton]
      by_cases heq : sig = sig'
      · have hpos : 0 < s.pending.count sig' := List.count_pos_iff.mpr (heq ▸ hmem)
        simp only [heq, beq_self_eq_true, if_true]
        omega
      · simp only [beq_iff_eq, heq, if_false]
        omega
    · show (s.pending.erase sig).length = s.merged + (s.edge.toNat + false.toNat)
      rw [List.length_erase_of_mem hmem, hlength]
      show s.merged + (s.edge.toNat + 1) - 1 = s.merged + (s.edge.toNat + 0)
      omega
  unfold State.dispatch State.call
  split
  · exact hread
  · next n hn =>
    split
    · exact ⟨hread.trigger, hread.counted, hread.stranded, hread.cared, hread.masked, hread.waiting, hread.fault⟩
    · next hnone =>
      refine ⟨hread.trigger, hread.counted, hread.stranded, hread.cared, hread.masked, hread.waiting, fun f hf => ?_⟩
      cases hf
      refine ⟨rfl, n, hnone, hI.masked n ?_ hnone⟩
      rw [Name.number_ofNumber hn]
      exact hI.waiting sig hmem

/-- **Every step** keeps the invariant; `read` never fails. -/
theorem Inv.step (hI : Inv garbage s) {a : Action H} (h : step s a = some s') : Inv garbage s' := by
  unfold SignalHandler.step at h
  split at h
  · next hfault =>
    cases a with
    | setHandle n f =>
      cases h
      exact hI.setHandle hfault n f
    | init =>
      simp only at h
      split at h <;> cases h
      next hevents => exact hI.init hevents
    | raise sig =>
      simp only at h
      split at h <;> cases h
      next hmask => exact hI.raise hmask
    | poll =>
      simp only at h
      split at h <;> cases h
      next hreported => exact hI.poll (Bool.eq_false_iff.mpr hreported)
    | dispatch sig =>
      simp only at h
      split at h <;> cases h
      next hdispatch => exact hI.dispatch hdispatch.1 hdispatch.2
    | dispatchFailed =>
      simp only at h
      split at h <;> cases h
      next hfailed =>
        have hlength := hI.stranded
        rw [hfailed.2, State.reports, hfailed.1, List.length_nil] at hlength
        exact absurd hlength (by show 0 ≠ s.merged + (s.edge.toNat + 1); omega)
  · cases h

/-- What has been merged stays so. -/
theorem merged_le {a : Action H} (h : step s a = some s') : s.merged ≤ s'.merged := by
  unfold SignalHandler.step at h
  split at h
  · cases a with
    | raise sig =>
      simp only at h
      split at h <;> cases h
      unfold State.raise
      split
      · exact Nat.le_refl _
      · show s.merged ≤ if s.edge then s.merged + 1 else s.merged
        split <;> omega
    | dispatch sig =>
      simp only at h
      split at h <;> cases h
      unfold State.dispatch State.call
      split
      · exact Nat.le_refl _
      · split <;> exact Nat.le_refl _
    | setHandle n f =>
      cases h
      exact Nat.le_refl _
    | init =>
      simp only at h
      split at h <;> cases h
      exact Nat.le_refl _
    | poll =>
      simp only at h
      split at h <;> cases h
      exact Nat.le_refl _
    | dispatchFailed =>
      simp only at h
      split at h <;> cases h
      exact Nat.le_refl _
  · cases h

/-- `SIGINT` and `SIGTERM` arrive before the loop polls. -/
def twoSignals : List (Action String) :=
  [.setHandle .int "int", .setHandle .term "term", .init, .raise 2, .raise 15, .poll, .dispatch 2, .poll]

end KwNet.SignalHandler
