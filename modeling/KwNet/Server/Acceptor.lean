import KwNet.Lib.Count
import KwNet.Lib.Run
import KwNet.Server.Model

/-!
# The loop of `Acceptor::handleRead`

`handleRead` calls `accept` for ever.  `k` goes up with every descriptor and down with every error, whatever its
`errno`, and the loop is left when an error takes it to `-32`.

* `State.turn` — one turn: a call of `accept` and what is done with its answer;
* **`handle_read_accounts`** — the loop ends, after `s` descriptors and `s + 32` errors, and hands every
  descriptor on, or closes it, once and in order;
* **`acceptTurn_turn`** — the same `k` in the system of server and connections.
-/

namespace KwNet.Acceptor

open KwNet.Lib

/-- What a call of `accept` returns: a descriptor, or -1 with `errno`. -/
inductive Answer where
  | connfd (fd : ℕ)
  | error (savedErrno : ℤ)
  deriving DecidableEq, Repr

def Answer.IsError : Answer → Prop
  | .connfd _ => False
  | .error _ => True

instance (a : Answer) : Decidable a.IsError := by
  cases a <;> unfold Answer.IsError <;> infer_instance

def Answer.descriptor? : Answer → Option ℕ
  | .connfd fd => some fd
  | .error _ => none

/-- What happens to a descriptor. -/
inductive Event where
  | newConnectionCallback (fd : ℕ)
  | close (fd : ℕ)
  deriving DecidableEq, Repr

structure State where
  k : ℤ
  /-- The loop has been left. -/
  returned : Bool
  events : List Event
  deriving DecidableEq, Repr

def State.init : State := ⟨0, false, []⟩

/-- The callback if it is set, `sockOption::close` if it is not. -/
def handOn (callback : Bool) (fd : ℕ) : Event := if callback then .newConnectionCallback fd else .close fd

/-- One turn of the loop.  The switch over `errno` only logs; `++k` is undefined for the largest `int`. -/
def State.turn (callback : Bool) (s : State) (a : Answer) : Option State :=
  if s.returned then none
  else
    match a with
    | .connfd fd =>
      if s.k + 1 < 2 ^ 31 then some { s with k := s.k + 1, events := s.events ++ [handOn callback fd] } else none
    | .error _ => some { s with k := s.k - 1, returned := s.k - 1 = -32 }

/-- The answers to the first `m` calls. -/
def firstCalls (answers : ℕ → Answer) (m : ℕ) : List Answer := (List.range m).map answers

variable {callback : Bool} {answers : ℕ → Answer}

/-- The descriptors among the first `m` answers. -/
def successes (answers : ℕ → Answer) (m : ℕ) : ℕ := Nat.count (fun i => ¬ (answers i).IsError) m

def failures (answers : ℕ → Answer) (m : ℕ) : ℕ := Nat.count (fun i => (answers i).IsError) m

theorem firstCalls_succ (m : ℕ) : firstCalls answers (m + 1) = firstCalls answers m ++ [answers m] := by
  rw [firstCalls, List.range_succ, List.map_append]
  rfl

theorem counts_connfd {m fd : ℕ} (h : answers m = .connfd fd) :
    successes answers (m + 1) = successes answers m + 1 ∧ failures answers (m + 1) = failures answers m := by
  have hno : ¬ (answers m).IsError := by
    rw [h]
    exact not_false
  constructor
  · rw [successes, Nat.count_succ, if_pos hno]
    rfl
  · rw [failures, Nat.count_succ, if_neg hno]
    rfl

theorem counts_error {m : ℕ} (h : (answers m).IsError) :
    successes answers (m + 1) = successes answers m ∧ failures answers (m + 1) = failures answers m + 1 := by
  constructor
  · rw [successes, Nat.count_succ, if_neg (not_not.mpr h)]
    rfl
  · rw [failures, Nat.count_succ, if_pos h]
    rfl

/-- The loop as long as it has not ended: `k` is the difference, and the descriptors have been handed on. -/
theorem run_turns (callback : Bool) {m : ℕ} (hgoes : ∀ j ≤ m, failures answers j < successes answers j + 32)
    (hsmall : successes answers m < 2 ^ 31) :
    run (State.turn callback) State.init (firstCalls answers m) =
      some ⟨successes answers m - failures answers m, false,
        ((firstCalls answers m).filterMap Answer.descriptor?).map (handOn callback)⟩ := by
  induction m with
  | zero => rfl
  | succ m ih =>
    have hnow := hgoes (m + 1) (Nat.le_refl _)
    have hearlier : ∀ j ≤ m, failures answers j < successes answers j + 32 :=
      fun j hj => hgoes j (Nat.le_succ_of_le hj)
    cases ha : answers m with
    | connfd fd =>
      obtain ⟨hup, hsame⟩ := counts_connfd ha
      have hroom : ((successes answers m : ℤ) - failures answers m) + 1 < 2 ^ 31 := by omega
      rw [firstCalls_succ, ha]
      refine run_concat (ih hearlier (by omega)) ?_
      rw [State.turn, if_neg Bool.false_ne_true]
      dsimp only
      rw [if_pos hroom, hup, hsame, Nat.cast_add, Nat.cast_one, add_sub_right_comm, List.filterMap_append,
        List.map_append]
      rfl
    | error savedErrno =>
      have herror : (answers m).IsError := by
        rw [ha]
        trivial
      obtain ⟨hsame, hdown⟩ := counts_error herror
      have hmore : ((successes answers m : ℤ) - failures answers m) - 1 ≠ -32 := by omega
      rw [firstCalls_succ, ha]
      refine run_concat (ih hearlier (by omega)) ?_
      rw [State.turn, if_neg Bool.false_ne_true]
      dsimp only
      rw [decide_eq_false hmore, hsame, hdown, Nat.cast_add, Nat.cast_one, ← sub_sub, List.filterMap_append,
        List.map_append]
      exact congrArg (fun events => some (State.mk _ false events)) (List.append_nil _).symm

/-- **`handleRead` terminates and accounts for every descriptor.**  For every sequence of answers of `accept` with
finitely many descriptors among them, there is the number `m` of calls after which the errors exceed the
descriptors by 32 for the first time; the last of them fails; and, as long as there are fewer than `2 ^ 31`
descriptors among them, `handleRead` returns after exactly these calls, having passed each descriptor to
the callback in order, or without a callback closed each, once. -/
theorem handle_read_accounts (callback : Bool) (answers : ℕ → Answer)
    (hfinite : Set.Finite {i | ¬ (answers i).IsError}) :
    ∃ m, failures answers (m + 1) = successes answers (m + 1) + 32 ∧ (answers m).IsError ∧
      (∀ j ≤ m, failures answers j < successes answers j + 32) ∧
      (successes answers (m + 1) < 2 ^ 31 → ∃ s,
        run (State.turn callback) State.init (firstCalls answers (m + 1)) = some s ∧ s.returned = true ∧
          s.events = ((firstCalls answers (m + 1)).filterMap Answer.descriptor?).map
            fun fd => if callback then .newConnectionCallback fd else .close fd) := by
  obtain ⟨m, hlast, hdeficit, hbefore⟩ := exists_first_deficit (fun i => ¬ (answers i).IsError) hfinite
    (show 0 < 32 by decide)
  simp only [not_not] at hlast hdeficit hbefore
  obtain ⟨hsame, hfail⟩ := counts_error hlast
  have hk : failures answers m + 1 = successes answers m + 32 := hdeficit
  refine ⟨m, by omega, hlast, hbefore, fun hsmall => ?_⟩
  have hrun := run_turns callback hbefore (by omega)
  cases ha : answers m with
  | connfd fd =>
    rw [ha] at hlast
    exact absurd hlast not_false
  | error savedErrno =>
    have hzero : ((successes answers m : ℤ) - failures answers m) - 1 = -32 := by omega
    rw [firstCalls_succ, ha]
    refine ⟨_, run_concat hrun rfl, decide_eq_true hzero, ?_⟩
    rw [List.filterMap_append]
    exact congrArg (List.map (handOn callback)) (List.append_nil _).symm

/-- One client, and then `EAGAIN`. -/
def oneClient : ℕ → Answer
  | 0 => .connfd 7
  | _ + 1 => .error 11

theorem handle_read_accounts_one :
    ∃ m, failures oneClient (m + 1) = successes oneClient (m + 1) + 32 ∧ (oneClient m).IsError ∧
      (∀ j ≤ m, failures oneClient j < successes oneClient j + 32) ∧
      (successes oneClient (m + 1) < 2 ^ 31 → ∃ s,
        run (State.turn true) State.init (firstCalls oneClient (m + 1)) = some s ∧ s.returned = true ∧
          s.events = ((firstCalls oneClient (m + 1)).filterMap Answer.descriptor?).map
            fun fd => if true then .newConnectionCallback fd else .close fd) := by
  refine handle_read_accounts true oneClient ((Set.finite_singleton 0).subset fun i hi => ?_)
  cases i with
  | zero => exact Set.mem_singleton 0
  | succ i => exact absurd trivial hi

/-- What `accept` returns in the system of server and connections. -/
def answerOf (savedErrno : ℤ) : Option (ℕ × Server.SockAddr) → Answer
  | some (connfd, _) => .connfd connfd
  | none => .error savedErrno

/-- **In the system of server and connections** a turn moves `k` and leaves the loop in the same way. -/
theorem acceptTurn_turn {ι : Type} [DecidableEq ι] (cfg : Server.Config) (s : Server.State ι) (acc : Server.Accepting)
    (res : Option (ℕ × Server.SockAddr)) (ioLoop : Server.LoopId ι) (room : Bool) (savedErrno : ℤ)
    (hk : acc.k + 1 < 2 ^ 31) :
    (State.turn true ⟨acc.k, false, []⟩ (answerOf savedErrno res)).map (fun t => if t.returned then none else some t.k) =
      some ((s.acceptTurn cfg acc res ioLoop room).accepting.map Server.Accepting.k) := by
  cases res with
  | some client =>
    have hturn : State.turn true ⟨acc.k, false, []⟩ (.connfd client.1) =
        some ⟨acc.k + 1, false, [.newConnectionCallback client.1]⟩ := by
      rw [State.turn, if_neg Bool.false_ne_true]
      exact if_pos hk
    show (State.turn true ⟨acc.k, false, []⟩ (.connfd client.1)).map _ = _
    rw [hturn]
    cases ioLoop with
    | none => rfl
    | some l =>
      cases room <;> rfl
  | none =>
    rw [answerOf, State.turn, if_neg Bool.false_ne_true, Server.State.acceptTurn]
    by_cases hend : acc.k - 1 = -32
    · simp only [hend, if_pos, Option.map_some, Option.map_none, decide_true]
    · simp only [hend, if_neg, Option.map_some, decide_false, Bool.false_eq_true, not_false_eq_true]

end KwNet.Acceptor
