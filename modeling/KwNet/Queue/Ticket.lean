import Mathlib
import KwNet.Queue.Model

/-!
# `mpmc_bounded_Queue` by position

What the users of the queue see of it: a position is claimed by the CAS of `try_push`, published by its
`sequence` store, claimed again by the CAS of `try_pop` and made ready for its next round by the
`sequence` store there.  Between these four accesses nothing that another thread reads changes, so a
call is one or two steps here:

* `try_push` succeeds when the cell of the tail is ready (`Room`), and then `claim`s and `publish`es
  the tail; otherwise it returns `false`;
* `try_pop` succeeds when the head is published (`front`), and then `take`s and `release`s it; otherwise
  it returns `false`, also when the head is claimed and not yet published;
* `push` is `try_push` tried again, as its two loop variables have it (`Attempt`).

Positions are counted without wrapping.  `KwNet.Queue.Refine` proves that every access of the code is
one of these steps or changes nothing here.
-/

namespace KwNet.Mpmc

/-- The queue by position.  `tail_pos` is the number of positions claimed. -/
structure Tickets (T : Type) where
  capacity : ℕ
  /-- The arguments of the claims of `try_push`, in the order of the claims. -/
  placed : List T
  /-- The positions whose payload is there. -/
  published : ℕ → Bool
  /-- `head_pos`. -/
  head : ℕ
  /-- The positions whose cell is done with its previous round. -/
  ready : ℕ → Bool

namespace Tickets

variable {T : Type}

/-- The queue right after the constructor. -/
def init (T : Type) (capacity : ℕ) : Tickets T :=
  { capacity := capacity
    placed := []
    published := fun _ => false
    head := 0
    ready := fun p => decide (p < capacity) }

/-- `tail_pos`. -/
def tail (q : Tickets T) : ℕ := q.placed.length

/-- `try_push` finds the tail's cell free. -/
def Room (q : Tickets T) : Prop := q.ready q.tail = true

instance (q : Tickets T) : Decidable q.Room := inferInstanceAs (Decidable (_ = true))

/-- The CAS of `try_push(v)`. -/
def claim (q : Tickets T) (v : T) : Tickets T := { q with placed := q.placed ++ [v] }

/-- The store that ends a `try_push`. -/
def publish (q : Tickets T) (pos : ℕ) : Tickets T :=
  { q with published := Function.update q.published pos true }

/-- What `try_pop` finds at the head. -/
def front (q : Tickets T) : Option T :=
  if q.published q.head then q.placed[q.head]? else none

/-- The CAS of `try_pop`. -/
def take (q : Tickets T) : Tickets T := { q with head := q.head + 1 }

/-- The store that ends a `try_pop`. -/
def release (q : Tickets T) (pos : ℕ) : Tickets T :=
  { q with ready := Function.update q.ready (pos + q.capacity) true }

/-- The elements placed, each with its position. -/
def tickets (q : Tickets T) : List (T × ℕ) := q.placed.zipIdx

/-- A published position that no `try_pop` has taken. -/
def Waiting (q : Tickets T) (pos : ℕ) : Prop := q.head ≤ pos ∧ q.published pos = true

@[simp] theorem tail_claim (q : Tickets T) (v : T) : (q.claim v).tail = q.tail + 1 := by
  simp [tail, claim]

@[simp] theorem tail_publish (q : Tickets T) (pos : ℕ) : (q.publish pos).tail = q.tail := rfl

@[simp] theorem tail_take (q : Tickets T) : q.take.tail = q.tail := rfl

@[simp] theorem tail_release (q : Tickets T) (pos : ℕ) : (q.release pos).tail = q.tail := rfl

@[simp] theorem head_claim (q : Tickets T) (v : T) : (q.claim v).head = q.head := rfl

@[simp] theorem head_publish (q : Tickets T) (pos : ℕ) : (q.publish pos).head = q.head := rfl

@[simp] theorem head_take (q : Tickets T) : q.take.head = q.head + 1 := rfl

@[simp] theorem head_release (q : Tickets T) (pos : ℕ) : (q.release pos).head = q.head := rfl

@[simp] theorem published_claim (q : Tickets T) (v : T) : (q.claim v).published = q.published := rfl

@[simp] theorem published_take (q : Tickets T) : q.take.published = q.published := rfl

@[simp] theorem published_release (q : Tickets T) (pos : ℕ) :
    (q.release pos).published = q.published := rfl

theorem published_publish (q : Tickets T) (pos p : ℕ) :
    (q.publish pos).published p = true ↔ p = pos ∨ q.published p = true := by
  by_cases hp : p = pos
  · simp [publish, hp]
  · simp [publish, hp]

theorem ready_release (q : Tickets T) (pos p : ℕ) :
    (q.release pos).ready p = true ↔ p = pos + q.capacity ∨ q.ready p = true := by
  by_cases hp : p = pos + q.capacity
  · simp [release, hp]
  · simp [release, hp]

@[simp] theorem tickets_publish (q : Tickets T) (pos : ℕ) : (q.publish pos).tickets = q.tickets := rfl

@[simp] theorem tickets_take (q : Tickets T) : q.take.tickets = q.tickets := rfl

@[simp] theorem tickets_release (q : Tickets T) (pos : ℕ) : (q.release pos).tickets = q.tickets := rfl

@[simp] theorem tickets_claim (q : Tickets T) (v : T) :
    (q.claim v).tickets = q.tickets ++ [(v, q.tail)] := by
  simp [tickets, claim, tail, List.zipIdx_append]

@[simp] theorem length_tickets (q : Tickets T) : q.tickets.length = q.tail := by
  simp [tickets, tail]

/-- Positions count up from zero. -/
theorem snd_tickets (q : Tickets T) : q.tickets.map Prod.snd = List.range q.tail := by
  rw [tickets, List.zipIdx_map_snd, List.range_eq_range', tail]

theorem exists_ticket {q : Tickets T} {pos : ℕ} (h : pos < q.tail) :
    ∃ v, q.tickets[pos]? = some (v, pos) := by
  refine ⟨q.placed[pos], ?_⟩
  simp [tickets, List.getElem?_zipIdx, List.getElem?_eq_getElem h]

theorem front_eq_some {q : Tickets T} {v : T} (h : q.front = some v) :
    q.published q.head = true ∧ q.head < q.tail ∧ q.tickets[q.head]? = some (v, q.head) := by
  unfold front at h
  split at h
  · rename_i hpub
    refine ⟨hpub, (List.getElem?_eq_some_iff.mp h).1, ?_⟩
    simp [tickets, List.getElem?_zipIdx, h]
  · cases h

theorem front_eq_none {q : Tickets T} (h : q.front = none) :
    q.published q.head = false ∨ q.tail ≤ q.head := by
  unfold front at h
  split at h
  · exact .inr (List.getElem?_eq_none_iff.mp h)
  · rename_i hpub
    exact .inl (Bool.eq_false_iff.mpr hpub)

/-- What every user of the queue may rely on. -/
structure Ok (q : Tickets T) : Prop where
  head_le : q.head ≤ q.tail
  /-- Only claimed positions are published. -/
  claimed : ∀ p, q.published p = true → p < q.tail
  /-- Only published positions are taken. -/
  taken : ∀ p, p < q.head → q.published p = true

variable {q : Tickets T}

theorem ok_init (T : Type) (capacity : ℕ) : (init T capacity).Ok where
  head_le := Nat.le_refl _
  claimed := by intro p hp; cases hp
  taken := by intro p hp; exact absurd hp (Nat.not_lt_zero p)

theorem Ok.claim (h : q.Ok) (v : T) : (q.claim v).Ok where
  head_le := by
    have := h.head_le
    rw [tail_claim, head_claim]
    omega
  claimed := by
    intro p hp
    have := h.claimed p hp
    rw [tail_claim]
    omega
  taken := h.taken

theorem Ok.publish (h : q.Ok) {pos : ℕ} (hpos : pos < q.tail) : (q.publish pos).Ok where
  head_le := h.head_le
  claimed := by
    intro p hp
    rcases (published_publish q pos p).mp hp with rfl | hp'
    · exact hpos
    · exact h.claimed p hp'
  taken := fun p hp => (published_publish q pos p).mpr (.inr (h.taken p hp))

theorem Ok.take (h : q.Ok) {v : T} (hfront : q.front = some v) : q.take.Ok where
  head_le := (front_eq_some hfront).2.1
  claimed := h.claimed
  taken := by
    intro p hp
    rcases Nat.lt_succ_iff_lt_or_eq.mp hp with hlt | heq
    · exact h.taken p hlt
    · rw [heq]
      exact (front_eq_some hfront).1

theorem Ok.release (h : q.Ok) (pos : ℕ) : (q.release pos).Ok where
  head_le := h.head_le
  claimed := h.claimed
  taken := h.taken

/-- Who is in the middle of a push: `held i` is the position pusher `i` has claimed and not
published. -/
structure Pushers {κ : Type} (q : Tickets T) (held : κ → Option ℕ) : Prop where
  claimed : ∀ i p, held i = some p → p < q.tail
  pending : ∀ p, p < q.tail → q.published p = true ∨ ∃ i, held i = some p

section Pushers

variable {κ : Type} {held : κ → Option ℕ}

theorem Pushers.take (h : q.Pushers held) : q.take.Pushers held := ⟨h.claimed, h.pending⟩

theorem Pushers.release (h : q.Pushers held) (pos : ℕ) : (q.release pos).Pushers held :=
  ⟨h.claimed, h.pending⟩

variable [DecidableEq κ] {i : κ}

theorem Pushers.claim (h : q.Pushers held) (v : T) (hi : held i = none) :
    (q.claim v).Pushers (Function.update held i (some q.tail)) where
  claimed := by
    intro j p hj
    rw [tail_claim]
    by_cases hji : j = i
    · subst hji
      rw [Function.update_self, Option.some.injEq] at hj
      omega
    · rw [Function.update_of_ne hji] at hj
      have := h.claimed j p hj
      omega
  pending := by
    intro p hp
    rw [tail_claim] at hp
    rcases Nat.lt_succ_iff_lt_or_eq.mp hp with hlt | heq
    · rcases h.pending p hlt with hpub | ⟨j, hj⟩
      · exact .inl hpub
      · have hji : j ≠ i := by
          rintro rfl
          rw [hi] at hj
          cases hj
        exact .inr ⟨j, by rw [Function.update_of_ne hji]; exact hj⟩
    · exact .inr ⟨i, by rw [Function.update_self, heq]⟩

theorem Pushers.publish (h : q.Pushers held) {pos : ℕ} (hi : held i = some pos) :
    (q.publish pos).Pushers (Function.update held i none) where
  claimed := by
    intro j p hj
    by_cases hji : j = i
    · subst hji
      rw [Function.update_self] at hj
      cases hj
    · rw [Function.update_of_ne hji] at hj
      exact h.claimed j p hj
  pending := by
    intro p hp
    rw [published_publish]
    rcases h.pending p hp with hpub | ⟨j, hj⟩
    · exact .inl (.inr hpub)
    · by_cases hji : j = i
      · subst hji
        rw [hi, Option.some.injEq] at hj
        exact .inl (.inl hj.symm)
      · exact .inr ⟨j, by rw [Function.update_of_ne hji]; exact hj⟩

end Pushers

/-- A `try_pop` that fails while no push is under way has found the queue empty. -/
theorem Ok.drained {κ : Type} {held : κ → Option ℕ} (h : q.Ok) (hp : q.Pushers held)
    (hnone : ∀ i, held i = none) (hfront : q.front = none) : q.head = q.tail := by
  refine Nat.le_antisymm h.head_le (Nat.le_of_not_lt fun hlt => ?_)
  rcases front_eq_none hfront with hpub | hle
  · rcases hp.pending q.head hlt with hpub' | ⟨i, hi⟩
    · rw [hpub] at hpub'
      cases hpub'
    · rw [hnone i] at hi
      cases hi
  · omega

end Tickets

/-! ### The retry loop of `push` -/

/-- The loop variables of `push`. -/
structure Attempt where
  i : ℕ
  r : ℕ
  deriving DecidableEq

/-- `i = 1, r = 0`. -/
def Attempt.first : Attempt := ⟨1, 0⟩

/-- After a `try_push` that returned `false`: at `i = 64` the thread yields and starts over from
`1 << r`.  `none` is the end of the loop: `push` returns without having placed its argument. -/
def Attempt.next (a : Attempt) : Option Attempt :=
  let a := if a.i &&& 64 ≠ 0 then ⟨1 <<< (a.r + 1), a.r + 1⟩ else a
  if a.i + 1 < 65 then some ⟨a.i + 1, a.r⟩ else none

end KwNet.Mpmc
