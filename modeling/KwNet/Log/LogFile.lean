import Mathlib
import KwNet.Log.AppendFile

/-!
# `LogFile`

`Loggers/LogFile.cpp`.  The clock is a function from the number of the reading to the seconds it shows.  The name of a
log file contains the second in which it was made, the host and the process, so that second stands for the name; a
file that exists is opened for appending.

A record comes with the answers of `fwrite` to it (`AppendFile::append`).  `append` is not enabled where there is no
file: the constructor opens none when the clock shows 0.

* `State.roll`, `State.check`, `State.append` — the code;
* `rollReading` — which reading of the clock `roll` gets, if `append_impl` calls it;
* **`append_file`** — what an append does to the file;
* `Dated`, **`Dated.step`** — the period and the names follow the clock.

`sizes`, `appends` and `opened` are history.
-/

namespace KwNet.LogFile

open KwNet.Lib

/-- The arguments of the constructor that matter here. -/
structure Config where
  /-- An `unsigned int`. -/
  rollSize : ℕ
  flushInterval : ℤ
  checkInterval : ℤ

/-- `RollPerSeconds`. -/
def rollPerSeconds : ℕ := 60 * 60 * 24

/-- An `AppendFile`. -/
structure File where
  /-- The second in its name. -/
  name : ℕ
  writtenBytes : ℕ
  deriving DecidableEq

structure State where
  file : Option File
  startOfPeriod : ℕ
  lastRoll : ℕ
  lastFlush : ℕ
  count : ℤ
  /-- The number of readings of the clock. -/
  reads : ℕ
  /-- The bytes that this object has written to the file of a name. -/
  sizes : ℕ → ℕ
  /-- The number of appends. -/
  appends : ℕ
  /-- The number of files opened. -/
  opened : ℕ

/-- A record, and the answers of `fwrite` to it. -/
structure Record where
  logs : Bytes
  answers : List Answer

/-- What `AppendFile::append` does with the record, if the answers bring it to its end. -/
def Record.result (r : Record) : Option Append :=
  (run Append.step (Append.init r.logs) r.answers).filter fun a => a.phase ≠ .looping

variable (cfg : Config) (clock : ℕ → ℕ)

/-- `writtenBytes_() >= rollSize`; `writtenBytes_` returns an `unsigned int`. -/
def Config.full (bytes : ℕ) : Prop := cfg.rollSize ≤ bytes % 2 ^ 32

instance (bytes : ℕ) : Decidable (cfg.full bytes) := inferInstanceAs (Decidable (_ ≤ _))

/-- `roll`. -/
def State.roll (s : State) : State :=
  let now := clock s.reads
  let s := { s with reads := s.reads + 1 }
  if s.startOfPeriod < now then
    { s with
      lastRoll := now
      lastFlush := now
      startOfPeriod := now / rollPerSeconds * rollPerSeconds
      file := some ⟨now, 0⟩
      opened := s.opened + 1 }
  else s

/-- What `append_impl` does when `count` has reached `checkInterval`. -/
def State.check (s : State) : State :=
  let now := clock s.reads
  let s := { s with count := 0, reads := s.reads + 1 }
  let s := if s.startOfPeriod ≤ now / rollPerSeconds then s.roll clock else s
  if cfg.flushInterval ≤ (now : ℤ) - s.lastFlush then { s with lastFlush := now } else s

/-- `file->append` has done its work. -/
def State.wrote (s : State) (f : File) (a : Append) : State :=
  { s with
    file := some { f with writtenBytes := f.writtenBytes + a.counted }
    sizes := Function.update s.sizes f.name (s.sizes f.name + a.grown.length)
    appends := s.appends + 1 }

/-- `append_impl`. -/
def State.append (s : State) (f : File) (a : Append) : State :=
  let s := s.wrote f a
  if cfg.full (f.writtenBytes + a.counted) then s.roll clock
  else
    let s := { s with count := s.count + 1 }
    if s.count = cfg.checkInterval then s.check cfg clock else s

/-- The transition function. -/
def State.step (s : State) (r : Record) : Option State :=
  s.file.bind fun f => r.result.map fun a => s.append cfg clock f a

/-- The constructor. -/
def State.init : State :=
  State.roll clock
    { file := none, startOfPeriod := 0, lastRoll := 0, lastFlush := 0, count := 0, reads := 0, sizes := fun _ => 0
      appends := 0, opened := 0 }

/-- The reading of the clock that `roll` gets, if `append_impl` calls it when the file has `bytes` bytes. -/
def rollReading (s : State) (bytes : ℕ) : Option ℕ :=
  if cfg.full bytes then some s.reads
  else if s.count + 1 = cfg.checkInterval ∧ s.startOfPeriod ≤ clock s.reads / rollPerSeconds then some (s.reads + 1)
  else none

variable {cfg clock} {s s' : State} {f : File} {a : Append} {r : Record}

/-! ### What an append does -/

theorem step_cases (h : s.step cfg clock r = some s') :
    ∃ f ∈ s.file, ∃ a ∈ r.result, s' = s.append cfg clock f a := by
  obtain ⟨f, hf, hmap⟩ := Option.bind_eq_some_iff.mp h
  obtain ⟨a, ha, rfl⟩ := Option.map_eq_some_iff.mp hmap
  exact ⟨f, hf, a, ha, rfl⟩

/-- The reading at which a file is opened: `roll` declines one that is not behind the start of the period. -/
def opensAt (cfg : Config) (clock : ℕ → ℕ) (s : State) (bytes : ℕ) : Option ℕ :=
  (rollReading cfg clock s bytes).filter fun i => s.startOfPeriod < clock i

/-- What `roll` does with the reading that it gets. -/
structure Rolled (clock : ℕ → ℕ) (s s' : State) : Prop where
  sizes : s'.sizes = s.sizes
  appends : s'.appends = s.appends
  count : s'.count = s.count
  reads : s'.reads = s.reads + 1
  opens : s.startOfPeriod < clock s.reads → s'.file = some ⟨clock s.reads, 0⟩ ∧ s'.opened = s.opened + 1 ∧
    s'.startOfPeriod = clock s.reads / rollPerSeconds * rollPerSeconds
  keeps : ¬ s.startOfPeriod < clock s.reads → s'.file = s.file ∧ s'.opened = s.opened ∧
    s'.startOfPeriod = s.startOfPeriod

theorem roll_rolled (s : State) : Rolled clock s (s.roll clock) := by
  by_cases h : s.startOfPeriod < clock s.reads
  · have heq : s.roll clock = { s with
        reads := s.reads + 1
        lastRoll := clock s.reads
        lastFlush := clock s.reads
        startOfPeriod := clock s.reads / rollPerSeconds * rollPerSeconds
        file := some ⟨clock s.reads, 0⟩
        opened := s.opened + 1 } := if_pos h
    rw [heq]
    exact ⟨rfl, rfl, rfl, rfl, fun _ => ⟨rfl, rfl, rfl⟩, fun hnot => absurd h hnot⟩
  · have heq : s.roll clock = { s with reads := s.reads + 1 } := if_neg h
    rw [heq]
    exact ⟨rfl, rfl, rfl, rfl, fun hlt => absurd hlt h, fun _ => ⟨rfl, rfl, rfl⟩⟩

/-- **What `append_impl` comes to.** -/
structure Appended (cfg : Config) (clock : ℕ → ℕ) (s : State) (f : File) (a : Append) (s' : State) : Prop where
  sizes : s'.sizes = Function.update s.sizes f.name (s.sizes f.name + a.grown.length)
  appends : s'.appends = s.appends + 1
  count : s'.count = if cfg.full (f.writtenBytes + a.counted) then s.count
    else if s.count + 1 = cfg.checkInterval then 0 else s.count + 1
  reads : s.reads ≤ s'.reads
  opens : ∀ i, opensAt cfg clock s (f.writtenBytes + a.counted) = some i →
    s.reads ≤ i ∧ i < s'.reads ∧ s'.file = some ⟨clock i, 0⟩ ∧ s'.opened = s.opened + 1 ∧
      s'.startOfPeriod = clock i / rollPerSeconds * rollPerSeconds
  keeps : opensAt cfg clock s (f.writtenBytes + a.counted) = none →
    s'.file = some { f with writtenBytes := f.writtenBytes + a.counted } ∧ s'.opened = s.opened ∧
      s'.startOfPeriod = s.startOfPeriod

theorem opensAt_of_reading {bytes i j : ℕ} (h : rollReading cfg clock s bytes = some i) :
    opensAt cfg clock s bytes = some j ↔ i = j ∧ s.startOfPeriod < clock i := by
  rw [opensAt, h, Option.filter_some]
  split
  · next hlt => 
    have hlt' : s.startOfPeriod < clock i := of_decide_eq_true hlt
    simp [hlt']
  · next hlt =>
    have hlt' : ¬ s.startOfPeriod < clock i := fun h => hlt (decide_eq_true h)
    simp [hlt']

/-- `append_impl` where it calls `roll`, from a state that has the file and the history of `s.wrote f a`. -/
theorem appended_of_rolled {w : State} {i : ℕ} (h : Rolled clock w s') (hw : w.file = (s.wrote f a).file ∧ w.sizes = (s.wrote f a).sizes ∧
      w.appends = s.appends + 1 ∧ w.opened = s.opened ∧ w.startOfPeriod = s.startOfPeriod)
    (hcount : w.count = if cfg.full (f.writtenBytes + a.counted) then s.count
      else if s.count + 1 = cfg.checkInterval then 0 else s.count + 1)
    (hi : rollReading cfg clock s (f.writtenBytes + a.counted) = some i) (hreads : w.reads = i) (hle : s.reads ≤ i) :
    Appended cfg clock s f a s' := by
  obtain ⟨hfile, hsizes, happends, hopened, hstart⟩ := hw
  have hopens := h.opens
  have hkeeps := h.keeps
  rw [hstart, hreads, hopened] at hopens
  rw [hstart, hreads, hopened, hfile] at hkeeps
  refine ⟨h.sizes.trans hsizes, h.appends.trans happends, h.count.trans hcount, ?_, fun j hj => ?_, fun hnone => ?_⟩
  · rw [h.reads, hreads]
    omega
  · obtain ⟨rfl, hlt⟩ := (opensAt_of_reading hi).mp hj
    refine ⟨hle, ?_, hopens hlt⟩
    rw [h.reads, hreads]
    exact Nat.lt_succ_self _
  · refine hkeeps fun hlt => ?_
    rw [(opensAt_of_reading hi).mpr ⟨rfl, hlt⟩] at hnone
    cases hnone

theorem Rolled.flush {w : State} (h : Rolled clock w s') (t : ℕ) : Rolled clock w { s' with lastFlush := t } :=
  ⟨h.sizes, h.appends, h.count, h.reads, h.opens, h.keeps⟩

theorem flush_eq (s : State) (c : Prop) [Decidable c] (now : ℕ) :
    ∃ t, (if c then { s with lastFlush := now } else s) = { s with lastFlush := t } := by
  split
  · exact ⟨now, rfl⟩
  · exact ⟨s.lastFlush, rfl⟩

/-- A check that calls `roll`; the flush at its end only touches `lastFlush`. -/
theorem check_roll (cfg : Config) (h : s.startOfPeriod ≤ clock s.reads / rollPerSeconds) :
    ∃ t, s.check cfg clock = { (State.roll clock { s with count := 0, reads := s.reads + 1 }) with lastFlush := t } := by
  simp only [State.check, if_pos h]
  exact flush_eq _ _ _

theorem check_skip (cfg : Config) (h : ¬ s.startOfPeriod ≤ clock s.reads / rollPerSeconds) :
    ∃ t, s.check cfg clock = { s with count := 0, reads := s.reads + 1, lastFlush := t } := by
  simp only [State.check, if_neg h]
  exact flush_eq _ _ _

/-- **An append**, by cases on how far `append_impl` gets. -/
theorem append_appended (s : State) (f : File) (a : Append) : Appended cfg clock s f a (s.append cfg clock f a) := by
  by_cases hfull : cfg.full (f.writtenBytes + a.counted)
  · have heq : s.append cfg clock f a = (s.wrote f a).roll clock := if_pos hfull
    have hreading : rollReading cfg clock s (f.writtenBytes + a.counted) = some s.reads := if_pos hfull
    rw [heq]
    exact appended_of_rolled (roll_rolled _) ⟨rfl, rfl, rfl, rfl, rfl⟩ (if_pos hfull).symm hreading rfl
      (Nat.le_refl _)
  by_cases hcount : s.count + 1 = cfg.checkInterval
  · -- a check
    have heq : s.append cfg clock f a = State.check cfg clock { s.wrote f a with count := s.count + 1 } :=
      (if_neg hfull).trans (if_pos hcount)
    have hzero : (0 : ℤ) = if cfg.full (f.writtenBytes + a.counted) then s.count
        else if s.count + 1 = cfg.checkInterval then 0 else s.count + 1 := by
      rw [if_neg hfull, if_pos hcount]
    by_cases hstart : s.startOfPeriod ≤ clock s.reads / rollPerSeconds
    · have hreading : rollReading cfg clock s (f.writtenBytes + a.counted) = some (s.reads + 1) :=
        (if_neg hfull).trans (if_pos ⟨hcount, hstart⟩)
      have hstart' : ({ s.wrote f a with count := s.count + 1 } : State).startOfPeriod ≤
          clock ({ s.wrote f a with count := s.count + 1 } : State).reads / rollPerSeconds := hstart
      obtain ⟨t, ht⟩ := check_roll cfg hstart'
      rw [heq, ht]
      exact appended_of_rolled ((roll_rolled _).flush t) ⟨rfl, rfl, rfl, rfl, rfl⟩ hzero hreading rfl
        (Nat.le_succ _)
    · have hreading : rollReading cfg clock s (f.writtenBytes + a.counted) = none :=
        (if_neg hfull).trans (if_neg fun h => hstart h.2)
      have hnone : opensAt cfg clock s (f.writtenBytes + a.counted) = none := by rw [opensAt, hreading]; rfl
      have hstart' : ¬ ({ s.wrote f a with count := s.count + 1 } : State).startOfPeriod ≤
          clock ({ s.wrote f a with count := s.count + 1 } : State).reads / rollPerSeconds := hstart
      obtain ⟨t, ht⟩ := check_skip cfg hstart'
      rw [heq, ht]
      refine ⟨rfl, rfl, hzero, Nat.le_succ _, fun i hi => ?_, fun _ => ⟨rfl, rfl, rfl⟩⟩
      rw [hnone] at hi
      cases hi
  · have heq : s.append cfg clock f a = { s.wrote f a with count := s.count + 1 } :=
      (if_neg hfull).trans (if_neg hcount)
    have hreading : rollReading cfg clock s (f.writtenBytes + a.counted) = none :=
      (if_neg hfull).trans (if_neg fun h => hcount h.1)
    have hnone : opensAt cfg clock s (f.writtenBytes + a.counted) = none := by rw [opensAt, hreading]; rfl
    have hnext : s.count + 1 = if cfg.full (f.writtenBytes + a.counted) then s.count
        else if s.count + 1 = cfg.checkInterval then 0 else s.count + 1 := by
      rw [if_neg hfull, if_neg hcount]
    rw [heq]
    refine ⟨rfl, rfl, hnext, Nat.le_refl _, fun i hi => ?_, fun _ => ⟨rfl, rfl, rfl⟩⟩
    rw [hnone] at hi
    cases hi

/-- **A step**: a record that `AppendFile::append` has brought to its end, and `append_impl` with it. -/
theorem step_appended (h : s.step cfg clock r = some s') :
    ∃ f ∈ s.file, ∃ a ∈ r.result, Appended cfg clock s f a s' := by
  obtain ⟨f, hf, hmap⟩ := Option.bind_eq_some_iff.mp h
  obtain ⟨a, ha, rfl⟩ := Option.map_eq_some_iff.mp hmap
  exact ⟨f, hf, a, ha, append_appended s f a⟩

/-! ### The period and the names -/

/-- The period starts on the day in which the file was opened, and nothing is written to a later name. -/
structure Dated (clock : ℕ → ℕ) (s : State) : Prop where
  period : ∀ f ∈ s.file, s.startOfPeriod = f.name / rollPerSeconds * rollPerSeconds
  pos : ∀ f ∈ s.file, 0 < f.name
  past : ∀ f ∈ s.file, f.name ≤ clock s.reads
  fresh : ∀ f ∈ s.file, ∀ n, f.name < n → s.sizes n = 0

/-- A file that is opened. -/
theorem Dated.opened {i : ℕ} (hclock : Monotone clock) (hi : i < s'.reads) (hfile : s'.file = some ⟨clock i, 0⟩)
    (hstart : s'.startOfPeriod = clock i / rollPerSeconds * rollPerSeconds) (hpos : 0 < clock i)
    (hfresh : ∀ n, clock i < n → s'.sizes n = 0) : Dated clock s' := by
  have hone : ∀ f ∈ s'.file, f = ⟨clock i, 0⟩ := by
    intro f hf
    rw [hfile] at hf
    exact (Option.some.inj hf).symm
  refine ⟨fun f hf => ?_, fun f hf => ?_, fun f hf => ?_, fun f hf => ?_⟩
  · rw [hone f hf]
    exact hstart
  · rw [hone f hf]
    exact hpos
  · rw [hone f hf]
    exact hclock (Nat.le_of_lt hi)
  · rw [hone f hf]
    exact hfresh

/-- **A step keeps the dates.** -/
theorem Dated.step (hclock : Monotone clock) (hD : Dated clock s) (h : s.step cfg clock r = some s') :
    Dated clock s' := by
  obtain ⟨f, hf, a, -, hA⟩ := step_appended h
  have hpast := hD.past f hf
  -- writing to the file leaves the later names alone
  have hfresh : ∀ n, f.name < n → s'.sizes n = 0 := by
    intro n hn
    rw [hA.sizes, Function.update_of_ne (Nat.ne_of_gt hn)]
    exact hD.fresh f hf n hn
  cases hopen : opensAt cfg clock s (f.writtenBytes + a.counted) with
  | some i =>
    obtain ⟨hle, hlt, hfile, -, hstart⟩ := hA.opens i hopen
    have hnot : f.name ≤ clock i := hpast.trans (hclock hle)
    exact Dated.opened hclock hlt hfile hstart (Nat.lt_of_lt_of_le (hD.pos f hf) hnot)
      fun n hn => hfresh n (Nat.lt_of_le_of_lt hnot hn)
  | none =>
    obtain ⟨hfile, -, hstart⟩ := hA.keeps hopen
    have hone : ∀ g ∈ s'.file, g = { f with writtenBytes := f.writtenBytes + a.counted } := by
      intro g hg
      rw [hfile] at hg
      exact (Option.some.inj hg).symm
    refine ⟨fun g hg => ?_, fun g hg => ?_, fun g hg => ?_, fun g hg => ?_⟩
    · rw [hone g hg, hstart]
      exact hD.period f hf
    · rw [hone g hg]
      exact hD.pos f hf
    · rw [hone g hg]
      exact hpast.trans (hclock hA.reads)
    · rw [hone g hg]
      exact hfresh

/-- The constructor rolls the first file. -/
theorem init_rolled (clock : ℕ → ℕ) : Rolled clock ⟨none, 0, 0, 0, 0, 0, fun _ => 0, 0, 0⟩ (State.init clock) :=
  roll_rolled _

theorem dated_init (hclock : Monotone clock) : Dated clock (State.init clock) := by
  by_cases h : 0 < clock 0
  · have hR := init_rolled clock
    obtain ⟨hfile, -, hstart⟩ := hR.opens h
    refine Dated.opened hclock ?_ hfile hstart h fun n _ => ?_
    · rw [hR.reads]
      exact Nat.one_pos
    · rw [hR.sizes]
  · have hfile : (State.init clock).file = none := by
      have heq : State.init clock = _ := if_neg h
      rw [heq]
    refine ⟨fun f hf => ?_, fun f hf => ?_, fun f hf => ?_, fun f hf => ?_⟩ <;> rw [hfile] at hf <;> cases hf

end KwNet.LogFile
