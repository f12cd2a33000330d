import KwNet.Log.LogFile

/-!
# When a log file is rolled

`roll` names the new file by the second and declines when the clock shows the start of the period; the size is
counted for each `AppendFile`, in 32 bits where it is compared; and the check for a new day compares a number of days
with a number of seconds.

* `BelowSize`, `RollsInTime` — **`roll_size_respected`**: no record goes to a file that has reached `rollSize`
  exactly when each record that gets a file there makes `append_impl` roll in a later second;
* **`same_second`** — two rolls in one second;
* `RolledDaily`, `DayDecides` — **`rolls_daily`**: the checks roll on a new day, and only then, exactly when the number
  of the day is as large as the comparison wants it;
* **`new_day_missed`** — it is not.
-/

namespace KwNet.LogFile

open KwNet.Lib

variable {cfg : Config} {clock : ℕ → ℕ} {s s' : State} {r : Record} {bytes i : ℕ}

/-! ### The size of a file -/

/-- The next record goes to a file that holds less than `rollSize`. -/
def BelowSize (cfg : Config) (s : State) : Prop := ∀ f ∈ s.file, s.sizes f.name < cfg.rollSize

/-- If the record gets the file to `rollSize`, `append_impl` calls `roll`, in a later second than the file's. -/
def RollsInTime (cfg : Config) (clock : ℕ → ℕ) (s : State) (r : Record) : Prop :=
  ∀ f ∈ s.file, ∀ a ∈ r.result, cfg.rollSize ≤ s.sizes f.name + a.grown.length →
    ∃ i ∈ rollReading cfg clock s (f.writtenBytes + a.counted), f.name < clock i

theorem opensAt_eq_some :
    opensAt cfg clock s bytes = some i ↔ rollReading cfg clock s bytes = some i ∧ s.startOfPeriod < clock i := by
  rw [opensAt, Option.filter_eq_some_iff, decide_eq_true_iff]

/-- The period does not start after the file was opened. -/
theorem Dated.start_le (hD : Dated clock s) {f : File} (hf : f ∈ s.file) : s.startOfPeriod ≤ f.name := by
  rw [hD.period f hf]
  exact Nat.div_mul_le_self _ _

/-- **One step** keeps the next file below `rollSize`. -/
theorem BelowSize.step (hclock : Monotone clock) (hD : Dated clock s) (hB : BelowSize cfg s)
    (hP : RollsInTime cfg clock s r) (h : s.step cfg clock r = some s') : BelowSize cfg s' := by
  obtain ⟨f, hf, a, ha, hA⟩ := step_appended h
  have hpos : 0 < cfg.rollSize := Nat.zero_lt_of_lt (hB f hf)
  have hself : s'.sizes f.name = s.sizes f.name + a.grown.length := by rw [hA.sizes, Function.update_self]
  intro g hg
  cases hopen : opensAt cfg clock s (f.writtenBytes + a.counted) with
  | some i =>
    obtain ⟨hle, -, hfile, -, -⟩ := hA.opens i hopen
    rw [hfile] at hg
    obtain rfl := Option.some.inj hg
    show s'.sizes (clock i) < cfg.rollSize
    rcases Nat.lt_or_ge f.name (clock i) with hlater | hsame
    · -- a name that was not used before
      rw [hA.sizes, Function.update_of_ne (Nat.ne_of_gt hlater), hD.fresh f hf _ hlater]
      exact hpos
    · have hname : clock i = f.name := Nat.le_antisymm hsame ((hD.past f hf).trans (hclock hle))
      rw [hname, hself]
      by_contra hreached
      obtain ⟨j, hj, hlater⟩ := hP f hf a ha (Nat.le_of_not_lt hreached)
      rw [Option.mem_def, (opensAt_eq_some.mp hopen).1, Option.some.injEq] at hj
      rw [← hj] at hlater
      omega
  | none =>
    obtain ⟨hfile, -, -⟩ := hA.keeps hopen
    rw [hfile] at hg
    obtain rfl := Option.some.inj hg
    show s'.sizes f.name < cfg.rollSize
    rw [hself]
    by_contra hreached
    obtain ⟨j, hj, hlater⟩ := hP f hf a ha (Nat.le_of_not_lt hreached)
    have hstart := hD.start_le hf
    rw [opensAt_eq_some.mpr ⟨hj, by omega⟩] at hopen
    cases hopen

/-- **A step after which the next file is below `rollSize`** has rolled in time. -/
theorem BelowSize.back (hclock : Monotone clock) (hD : Dated clock s) (h : s.step cfg clock r = some s')
    (hB : BelowSize cfg s') : RollsInTime cfg clock s r := by
  obtain ⟨f, hf, a, ha, hA⟩ := step_appended h
  intro f' hf' a' ha' hreached
  obtain rfl : f = f' := Option.mem_unique hf hf'
  obtain rfl : a = a' := Option.mem_unique ha ha'
  have hself : s'.sizes f.name = s.sizes f.name + a.grown.length := by rw [hA.sizes, Function.update_self]
  cases hopen : opensAt cfg clock s (f.writtenBytes + a.counted) with
  | some i =>
    obtain ⟨hle, -, hfile, -, -⟩ := hA.opens i hopen
    have hbelow : s'.sizes (clock i) < cfg.rollSize := hB _ hfile
    refine ⟨i, (opensAt_eq_some.mp hopen).1, ?_⟩
    have hname := (hD.past f hf).trans (hclock hle)
    by_contra hnot
    have hsame : clock i = f.name := by omega
    rw [hsame, hself] at hbelow
    omega
  | none =>
    obtain ⟨hfile, -, -⟩ := hA.keeps hopen
    have hbelow : s'.sizes f.name < cfg.rollSize := hB { f with writtenBytes := f.writtenBytes + a.counted } hfile
    omega

/-- The constructor. -/
theorem belowSize_init : BelowSize cfg (State.init clock) ↔ clock 0 = 0 ∨ 0 < cfg.rollSize := by
  have hR := init_rolled clock
  have hsizes : (State.init clock).sizes = fun _ => 0 := hR.sizes
  rcases Nat.eq_zero_or_pos (clock 0) with hzero | hpos
  · have hnot : ¬ 0 < clock 0 := by omega
    have hfile : (State.init clock).file = none := (hR.keeps hnot).1
    refine ⟨fun _ => .inl hzero, fun _ f hf => ?_⟩
    rw [hfile] at hf
    cases hf
  · have hfile : (State.init clock).file = some ⟨clock 0, 0⟩ := (hR.opens hpos).1
    constructor
    · intro hB
      have hbelow := hB _ hfile
      rw [hsizes] at hbelow
      exact .inr hbelow
    · rintro (hzero | hroll) f hf
      · omega
      · rw [hsizes]
        exact hroll

/-- **Which log files respect the roll size.**  For any records, any answers of `fwrite` and any clock that does not go
back: in every state the next record goes to a file that holds less than `rollSize` exactly when `rollSize` is not 0
and every record that takes the bytes written under a name to `rollSize` makes `append_impl` roll, in a later second
than that of the name. -/
theorem roll_size_respected (cfg : Config) (clock : ℕ → ℕ) (hclock : Monotone clock) (rs : List Record) (s : State)
    (hrun : run (State.step cfg clock) (State.init clock) rs = some s) :
    ((clock 0 = 0 ∨ 0 < cfg.rollSize) ∧ Along (State.step cfg clock) (RollsInTime cfg clock) (State.init clock) rs) ↔
      Throughout (State.step cfg clock) (BelowSize cfg) (State.init clock) rs := by
  rw [← belowSize_init]
  have hiff : BelowSize cfg (State.init clock) →
      (Along (State.step cfg clock) (RollsInTime cfg clock) (State.init clock) rs ↔
        Throughout (State.step cfg clock) (BelowSize cfg) (State.init clock) rs) := by
    intro hB
    refine along_iff_throughout (RollsInTime cfg clock) (fun s => Dated clock s ∧ BelowSize cfg s) (BelowSize cfg)
      (fun s r s' hI hP h => ?_) (fun s r s' hI h hB' => hB'.back hclock hI.1 h) ⟨dated_init hclock, hB⟩ hB hrun
    have hB' := hI.2.step hclock hI.1 hP h
    exact ⟨⟨hI.1.step hclock h, hB'⟩, hB'⟩
  constructor
  · rintro ⟨hB, hP⟩
    exact (hiff hB).mp hP
  · intro hall
    have hB : BelowSize cfg (State.init clock) := hall [] rs _ rfl run_nil
    exact ⟨hB, (hiff hB).mpr hall⟩

/-- A record of `n` bytes, which `fwrite` takes at once. -/
def wholeRecord (n : ℕ) : Record := ⟨List.replicate n 0, [⟨n, false⟩]⟩

/-- `rollSize` 3. -/
def smallFiles : Config := ⟨3, 3, 1024⟩

instance (cfg : Config) (clock : ℕ → ℕ) (s : State) (r : Record) : Decidable (RollsInTime cfg clock s r) :=
  inferInstanceAs (Decidable (∀ f ∈ s.file, ∀ a ∈ r.result, _ → ∃ i ∈ rollReading _ _ _ _, _))

theorem roll_size_respected_seconds :
    Throughout (State.step smallFiles fun n => n + 5) (BelowSize smallFiles) (State.init fun n => n + 5)
      [wholeRecord 2, wholeRecord 2, wholeRecord 2] :=
  have hrun : run (State.step smallFiles fun n => n + 5) (State.init fun n => n + 5)
    [wholeRecord 2, wholeRecord 2, wholeRecord 2] = some _ := rfl
  (roll_size_respected smallFiles (fun n => n + 5) (fun _ _ h => Nat.add_le_add_right h 5) _ _ hrun).mp
    ⟨.inr (by decide), by decide⟩

/-- **Two rolls in one second** get the same name: the second record goes to a file that is full. -/
theorem same_second :
    ¬ ∀ (cfg : Config) (clock : ℕ → ℕ), Monotone clock → 0 < cfg.rollSize → ∀ (rs : List Record) (s : State),
      run (State.step cfg clock) (State.init clock) rs = some s → ∀ (r : Record) (s' : State),
        s.step cfg clock r = some s' → BelowSize cfg s := by
  intro hall
  have hrun : run (State.step smallFiles fun _ => 5) (State.init fun _ => 5) [wholeRecord 4] = some _ := rfl
  have hbelow := hall smallFiles (fun _ => 5) monotone_const (by decide) _ _ hrun (wholeRecord 1) _ rfl ⟨5, 0⟩ rfl
  exact absurd hbelow (by decide)

/-! ### A new day -/

/-- The file stays below `rollSize`. -/
def StaysSmall (cfg : Config) (s : State) (r : Record) : Prop :=
  ∀ f ∈ s.file, ∀ a ∈ r.result, f.writtenBytes + a.counted < cfg.rollSize

/-- At each `checkInterval`-th append the file is rolled exactly on a later day than the one on which it was opened. -/
def RolledDaily (cfg : Config) (clock : ℕ → ℕ) (s : State) (r : Record) : Prop :=
  cfg.checkInterval ∣ s.appends + 1 → ∀ f ∈ s.file, ∀ s', s.step cfg clock r = some s' →
    (s'.opened = s.opened + 1 ↔ f.name / rollPerSeconds < clock s.reads / rollPerSeconds)

/-- At each `checkInterval`-th append: it is still the day of the file, which is not day 0, or it is a later day, with
a number as large as the second in which the file's day began. -/
def DayDecides (cfg : Config) (clock : ℕ → ℕ) (s : State) (r : Record) : Prop :=
  cfg.checkInterval ∣ s.appends + 1 → ∀ f ∈ s.file, r.result.isSome = true →
    (clock s.reads / rollPerSeconds = f.name / rollPerSeconds ∧ 1 ≤ f.name / rollPerSeconds) ∨
      (f.name / rollPerSeconds < clock s.reads / rollPerSeconds ∧
        f.name / rollPerSeconds * rollPerSeconds ≤ clock s.reads / rollPerSeconds)

/-- The dates, and `count` as the number of appends since the last check. -/
structure Daily (cfg : Config) (clock : ℕ → ℕ) (s : State) : Prop where
  dated : Dated clock s
  count : s.count = (s.appends : ℤ) % cfg.checkInterval

/-- A counter that starts again at `c`. -/
theorem mod_succ {n c : ℤ} (hc : 1 ≤ c) :
    (n % c + 1 = c ↔ c ∣ n + 1) ∧ (n + 1) % c = if n % c + 1 = c then 0 else n % c + 1 := by
  have hlow := Int.emod_nonneg n (by omega : c ≠ 0)
  have hhigh := Int.emod_lt_of_pos n (by omega : 0 < c)
  have hsplit := Int.emod_add_mul_ediv n c
  have hsucc : n + 1 = n % c + 1 + c * (n / c) := by omega
  by_cases hlast : n % c + 1 = c
  · have hdvd : c ∣ n + 1 := by
      rw [hsucc, hlast]
      exact ⟨1 + n / c, by ring⟩
    exact ⟨⟨fun _ => hdvd, fun _ => hlast⟩, by rw [if_pos hlast, Int.emod_eq_zero_of_dvd hdvd]⟩
  · have hmod : (n + 1) % c = n % c + 1 := by
      rw [hsucc, Int.add_mul_emod_self_left, Int.emod_eq_of_lt (by omega) (by omega)]
    refine ⟨⟨fun h => absurd h hlast, fun hdvd => ?_⟩, by rw [if_neg hlast, hmod]⟩
    have hzero := Int.emod_eq_zero_of_dvd hdvd
    omega

theorem not_full {f : File} {a : Append} (hQ : StaysSmall cfg s r) (hf : f ∈ s.file) (ha : a ∈ r.result) :
    ¬ cfg.full (f.writtenBytes + a.counted) := by
  have hsmall := hQ f hf a ha
  have hmod := Nat.mod_le (f.writtenBytes + a.counted) (2 ^ 32)
  unfold Config.full
  omega

theorem Daily.step (hclock : Monotone clock) (hcheck : 1 ≤ cfg.checkInterval) (hI : Daily cfg clock s)
    (hQ : StaysSmall cfg s r) (h : s.step cfg clock r = some s') : Daily cfg clock s' := by
  refine ⟨hI.dated.step hclock h, ?_⟩
  obtain ⟨f, hf, a, ha, hA⟩ := step_appended h
  have happends : (s'.appends : ℤ) = s.appends + 1 := by rw [hA.appends, Nat.cast_succ]
  rw [hA.count, if_neg (not_full hQ hf ha), happends, (mod_succ hcheck).2, hI.count]

/-- The day of the file, the day of the check and the comparison between them. -/
theorem day_iff {name now next : ℕ} (hpos : 0 < name) (hnow : name ≤ now) (hnext : now ≤ next) :
    ((now / rollPerSeconds = name / rollPerSeconds ∧ 1 ≤ name / rollPerSeconds) ∨
        (name / rollPerSeconds < now / rollPerSeconds ∧
          name / rollPerSeconds * rollPerSeconds ≤ now / rollPerSeconds)) ↔
      ((name / rollPerSeconds * rollPerSeconds ≤ now / rollPerSeconds ∧
          name / rollPerSeconds * rollPerSeconds < next) ↔
        name / rollPerSeconds < now / rollPerSeconds) := by
  have hday : rollPerSeconds = 86400 := rfl
  rw [hday]
  omega

/-- **One check.** -/
theorem Daily.iff (hclock : Monotone clock) (hcheck : 1 ≤ cfg.checkInterval) (hI : Daily cfg clock s)
    (hQ : StaysSmall cfg s r) : DayDecides cfg clock s r ↔ RolledDaily cfg clock s r := by
  refine forall_congr' fun hdvd => forall_congr' fun f => forall_congr' fun hf => ?_
  have hpos := hI.dated.pos f hf
  have hnow := hI.dated.past f hf
  have hnext : clock s.reads ≤ clock (s.reads + 1) := hclock (Nat.le_succ _)
  rw [day_iff hpos hnow hnext]
  have hlast : s.count + 1 = cfg.checkInterval := by
    rw [hI.count]
    exact (mod_succ hcheck).1.mpr hdvd
  -- what the step does, once the record is written
  have hstep : ∀ s', s.step cfg clock r = some s' → (s'.opened = s.opened + 1 ↔
      f.name / rollPerSeconds * rollPerSeconds ≤ clock s.reads / rollPerSeconds ∧
        f.name / rollPerSeconds * rollPerSeconds < clock (s.reads + 1)) := by
    intro s' h
    obtain ⟨f', hf', a, ha, hA⟩ := step_appended h
    obtain rfl : f = f' := Option.mem_unique hf hf'
    have hreading : rollReading cfg clock s (f.writtenBytes + a.counted) =
        if s.startOfPeriod ≤ clock s.reads / rollPerSeconds then some (s.reads + 1) else none := by
      rw [rollReading, if_neg (not_full hQ hf ha)]
      simp only [hlast, true_and]
    rw [← hI.dated.period f hf]
    by_cases hstart : s.startOfPeriod ≤ clock s.reads / rollPerSeconds
    · rw [if_pos hstart] at hreading
      by_cases hlt : s.startOfPeriod < clock (s.reads + 1)
      · have hopen := opensAt_eq_some.mpr ⟨hreading, hlt⟩
        exact ⟨fun _ => ⟨hstart, hlt⟩, fun _ => (hA.opens _ hopen).2.2.2.1⟩
      · have hopen : opensAt cfg clock s (f.writtenBytes + a.counted) = none := by
          rw [opensAt, hreading, Option.filter_some, if_neg (by simpa using hlt)]
        rw [(hA.keeps hopen).2.1]
        exact ⟨fun h => absurd h (by omega), fun h => absurd h.2 hlt⟩
    · have hopen : opensAt cfg clock s (f.writtenBytes + a.counted) = none := by
        rw [opensAt, hreading, if_neg hstart]
        rfl
      rw [(hA.keeps hopen).2.1]
      exact ⟨fun h => absurd h (by omega), fun h => absurd h.1 hstart⟩
  constructor
  · intro hday s' h
    rw [hstep s' h]
    obtain ⟨f', -, a, ha, -⟩ := step_appended h
    exact hday (Option.isSome_iff_exists.mpr ⟨a, ha⟩)
  · intro hrolled hsome
    obtain ⟨a, ha⟩ := Option.isSome_iff_exists.mp hsome
    have h : s.step cfg clock r = some (s.append cfg clock f a) := by
      rw [State.step, Option.mem_def.mp hf, ha]
      rfl
    rw [← hstep _ h]
    exact hrolled _ h

theorem daily_init (hclock : Monotone clock) : Daily cfg clock (State.init clock) where
  dated := dated_init hclock
  count := by
    have hR := init_rolled clock
    rw [hR.count, hR.appends, Nat.cast_zero, Int.zero_emod]

/-- **When the files are rolled daily.**  For any records that leave the files below `rollSize`, any clock that does
not go back and any `checkInterval`: the file is rolled at each `checkInterval`-th append exactly when a new day has
begun, if and only if at each of them it is still the file's day, which is not day 0, or the number of the day is as
large as the number of the second in which the file's day began. -/
theorem rolls_daily (cfg : Config) (clock : ℕ → ℕ) (hclock : Monotone clock) (hcheck : 1 ≤ cfg.checkInterval)
    (rs : List Record) (hsmall : Along (State.step cfg clock) (StaysSmall cfg) (State.init clock) rs) :
    Along (State.step cfg clock) (DayDecides cfg clock) (State.init clock) rs ↔
      Along (State.step cfg clock) (RolledDaily cfg clock) (State.init clock) rs :=
  along_congr_of (StaysSmall cfg) (Daily cfg clock) (daily_init hclock)
    (fun _ _ _ hI hQ h => hI.step hclock hcheck hQ h) (fun _ _ hI hQ => hI.iff hclock hcheck hQ) hsmall

instance (cfg : Config) (s : State) (r : Record) : Decidable (StaysSmall cfg s r) :=
  inferInstanceAs (Decidable (∀ f ∈ s.file, ∀ a ∈ r.result, _))

instance (cfg : Config) (clock : ℕ → ℕ) (s : State) (r : Record) : Decidable (DayDecides cfg clock s r) :=
  inferInstanceAs (Decidable (_ → ∀ f ∈ s.file, _ → _))

/-- A check at each append. -/
def checkedFiles : Config := ⟨1000, 3, 1⟩

/-- One day. -/
theorem rolls_daily_same_day :
    Along (State.step checkedFiles fun _ => 90000) (RolledDaily checkedFiles fun _ => 90000)
      (State.init fun _ => 90000) [wholeRecord 2, wholeRecord 2] :=
  (rolls_daily checkedFiles (fun _ => 90000) monotone_const (by decide) _ (by decide)).mp (by decide)

/-- The clock shows a new day with each reading. -/
def newDays (n : ℕ) : ℕ := 86400 * (n + 1)

/-- **A new day is missed.** -/
theorem new_day_missed :
    ¬ ∀ (cfg : Config) (clock : ℕ → ℕ), Monotone clock → 1 ≤ cfg.checkInterval → ∀ rs : List Record,
      Along (State.step cfg clock) (StaysSmall cfg) (State.init clock) rs →
        Along (State.step cfg clock) (RolledDaily cfg clock) (State.init clock) rs := by
  intro hall
  have hmono : Monotone newDays := fun _ _ h => Nat.mul_le_mul_left _ (Nat.succ_le_succ h)
  have hrolled := (hall checkedFiles newDays hmono (by decide) [wholeRecord 2] (by decide)).1 (by decide)
    ⟨86400, 0⟩ rfl _ rfl
  exact absurd (hrolled.mpr (by decide)) (by decide)

end KwNet.LogFile
