import KwNet.Lib.Run

/-!
# `AppendFile::append`

The loop of `Loggers/FileUtil.cpp` against any answers of `fwrite_unlocked`.  Each round passes the whole record from
its start, whatever was written before, and leaves the loop on an error before it has counted what the last call took.

* `Append.step` — one round: `fwrite` takes some bytes, and the error flag is set or not;
* `Exact` — the file holds a part of the record, all of it after a normal end, and `writtenBytes` has grown by that;
* `InPlace` — an answer after which it does: the bytes taken are the ones that were due;
* **`append_exact`** — the record is written once exactly when all answers are in place;
* **`record_twice`** — a short count is enough.
-/

namespace KwNet.LogFile

open KwNet.Lib

abbrev Bytes := List UInt8

/-- How far `append` has got. -/
inductive Phase where
  | looping
  /-- The loop has ended. -/
  | returned
  /-- It was left on an error. -/
  | failed
  deriving DecidableEq

/-- A call of `append`, and what it has done to the file. -/
structure Append where
  /-- The record; `len` is its length. -/
  logs : Bytes
  written : ℕ
  phase : Phase
  /-- What `writtenBytes` has grown by. -/
  counted : ℕ
  /-- The bytes that the file has grown by. -/
  grown : Bytes
  deriving DecidableEq

/-- `while (written < len)`, and the count behind it. -/
def Append.next (a : Append) : Append :=
  if a.written < a.logs.length then a else { a with phase := .returned, counted := a.written }

/-- The call begins. -/
def Append.init (logs : Bytes) : Append := Append.next ⟨logs, 0, .looping, 0, []⟩

/-- What `fwrite_unlocked` returns, and `ferror_unlocked` after it. -/
structure Answer where
  n : ℕ
  err : Bool
  deriving DecidableEq

/-- One round: `write(logs, len)` takes the first `n` bytes of what it is passed. -/
def Append.step (a : Append) (r : Answer) : Option Append :=
  if a.phase = .looping ∧ r.n ≤ a.logs.length then
    let remain := a.logs.length - a.written
    let a := { a with grown := a.grown ++ a.logs.take r.n }
    if r.n ≠ remain ∧ r.err = true then some { a with phase := .failed, counted := a.written }
    else some { a with written := a.written + r.n }.next
  else none

/-- The file has grown by a part of the record; when the loop has ended by all of it, and before by less; and
`writtenBytes` by as many bytes. -/
def Exact (a : Append) : Prop :=
  a.grown <+: a.logs ∧
    match a.phase with
    | .looping => a.grown.length < a.logs.length
    | .returned => a.grown = a.logs ∧ a.counted = a.logs.length
    | .failed => a.counted = a.grown.length

/-- The bytes taken are those that follow what is written; with an error that ends the loop there are none. -/
def InPlace (a : Append) (r : Answer) : Prop :=
  a.written + r.n ≤ a.logs.length ∧ a.logs.take r.n = (a.logs.drop a.written).take r.n ∧
    (r.err = true → r.n = a.logs.length - a.written ∨ r.n = 0)

instance (a : Append) (r : Answer) : Decidable (InPlace a r) := inferInstanceAs (Decidable (_ ∧ _ ∧ _))

/-- While the loop runs, `written` bytes are in the file. -/
def Counting (a : Append) : Prop :=
  a.phase = .looping → a.grown = a.logs.take a.written ∧ a.written < a.logs.length

variable {a a' : Append} {r : Answer}

/-- The end of a round after which `written` bytes of the record are in the file. -/
theorem next_exact (hphase : a.phase = .looping) (hgrown : a.grown = a.logs.take a.written)
    (hle : a.written ≤ a.logs.length) : Counting a.next ∧ Exact a.next := by
  unfold Append.next
  split
  · next hlt =>
    refine ⟨fun _ => ⟨hgrown, hlt⟩, ?_⟩
    rw [Exact, hphase, hgrown]
    refine ⟨List.take_prefix _ _, ?_⟩
    show (a.logs.take a.written).length < a.logs.length
    rw [List.length_take]
    omega
  · next hge =>
    have hwritten : a.written = a.logs.length := by omega
    have hall : a.grown = a.logs := by rw [hgrown, hwritten, List.take_length]
    refine ⟨fun h => ?_, ?_, hall, hwritten⟩
    · cases h
    · show a.grown <+: a.logs
      rw [hall]

/-- **A round whose answer is in place.** -/
theorem Counting.step (hC : Counting a) (hP : InPlace a r) (h : a.step r = some a') : Counting a' ∧ Exact a' := by
  obtain ⟨hfit, hdue, herr⟩ := hP
  simp only [Append.step] at h
  split at h
  · next hgo =>
    obtain ⟨hgrown, hlt⟩ := hC hgo.1
    have hgrown' : a.grown ++ a.logs.take r.n = a.logs.take (a.written + r.n) := by
      rw [hgrown, hdue, List.take_add]
    split at h
    · next hfail =>
      -- nothing was taken
      cases h
      have hn : r.n = 0 := (herr hfail.2).resolve_left hfail.1
      have hnone : a.grown ++ a.logs.take r.n = a.grown := by rw [hn, List.take_zero, List.append_nil]
      refine ⟨fun h => ?_, ?_, ?_⟩
      · cases h
      · show a.grown ++ a.logs.take r.n <+: a.logs
        rw [hgrown']
        exact List.take_prefix _ _
      · show a.written = (a.grown ++ a.logs.take r.n).length
        rw [hnone, hgrown, List.length_take, Nat.min_eq_left (Nat.le_of_lt hlt)]
    · cases h
      exact next_exact hgo.1 hgrown' hfit
  · cases h

/-- **An answer that leaves the file exact was in place.** -/
theorem Counting.inPlace (hC : Counting a) (h : a.step r = some a') (hE : Exact a') : InPlace a r := by
  simp only [Append.step] at h
  split at h
  · next hgo =>
    obtain ⟨hgrown, hlt⟩ := hC hgo.1
    have hlen : (a.grown ++ a.logs.take r.n).length = a.written + r.n := by
      rw [hgrown, List.length_append, List.length_take, List.length_take, Nat.min_eq_left (Nat.le_of_lt hlt),
        Nat.min_eq_left hgo.2]
    -- what is in the file after the round is a part of the record
    have hplace : a.grown ++ a.logs.take r.n <+: a.logs →
        a.written + r.n ≤ a.logs.length ∧ a.logs.take r.n = (a.logs.drop a.written).take r.n := by
      intro hpre
      refine ⟨hlen ▸ hpre.length_le, ?_⟩
      have htake := List.prefix_iff_eq_take.mp hpre
      rw [hlen, hgrown, List.take_add] at htake
      exact List.append_cancel_left htake
    split at h
    · cases h
      obtain ⟨hpre, hcounted⟩ := hE
      obtain ⟨hfit, hdue⟩ := hplace hpre
      refine ⟨hfit, hdue, fun _ => .inr ?_⟩
      have hcounted' : a.written = (a.grown ++ a.logs.take r.n).length := hcounted
      omega
    · next hgoes =>
      cases h
      have hnext : ({ a with grown := a.grown ++ a.logs.take r.n, written := a.written + r.n } : Append).next.grown =
            a.grown ++ a.logs.take r.n ∧
          ({ a with grown := a.grown ++ a.logs.take r.n, written := a.written + r.n } : Append).next.logs = a.logs := by
        unfold Append.next
        split <;> exact ⟨rfl, rfl⟩
      obtain ⟨hpre, -⟩ := hE
      rw [hnext.1, hnext.2] at hpre
      obtain ⟨hfit, hdue⟩ := hplace hpre
      refine ⟨hfit, hdue, fun herr => .inl ?_⟩
      by_contra hne
      exact hgoes ⟨hne, herr⟩
  · cases h

theorem init_exact (logs : Bytes) : Counting (Append.init logs) ∧ Exact (Append.init logs) :=
  next_exact rfl (List.take_zero (l := logs)).symm (Nat.zero_le _)

/-- **When a record is written exactly once.**  For every record and every sequence of answers of `fwrite`: the file
and `writtenBytes` are as they should be in every state exactly when each answer took the bytes that were due, and
none together with an error that ends the loop. -/
theorem append_exact (logs : Bytes) (rs : List Answer) (a : Append)
    (hrun : run Append.step (Append.init logs) rs = some a) :
    Along Append.step InPlace (Append.init logs) rs ↔ Throughout Append.step Exact (Append.init logs) rs :=
  along_iff_throughout InPlace Counting Exact (fun _ _ _ hC hP h => hC.step hP h)
    (fun _ _ _ hC h hE => hC.inPlace h hE) (init_exact logs).1 (init_exact logs).2 hrun

/-- Three bytes, taken at once. -/
theorem append_exact_whole : Throughout Append.step Exact (Append.init [1, 2, 3]) [⟨3, false⟩] :=
  have hrun : run Append.step (Append.init [1, 2, 3]) [⟨3, false⟩] = some _ := rfl
  (append_exact [1, 2, 3] [⟨3, false⟩] _ hrun).mp (by decide)

/-- **A short count writes a part of the record twice.** -/
theorem record_twice :
    ¬ ∀ (logs : Bytes) (rs : List Answer) (a : Append), run Append.step (Append.init logs) rs = some a → Exact a := by
  intro hall
  have hrun : run Append.step (Append.init [1, 2, 3]) [⟨1, false⟩, ⟨2, false⟩] =
      some ⟨[1, 2, 3], 3, .returned, 3, [1, 1, 2]⟩ := rfl
  have hexact := hall _ _ _ hrun
  exact absurd hexact.2.1 (by decide)

end KwNet.LogFile
