import KwNet.Lib.Keyed
import KwNet.Lib.Observe
import KwNet.Log.Rolling
import KwNet.Log.Time

/-!
# The log files together

`LogFile::getLogFileName` puts the second in which a file is made into its name, from the year down to the second and
with zeros in front, between texts that stay the same.

* `getLogFileName` — the name; **`getLogFileName_lt_iff`** — up to the year 9999 names are ordered as the seconds;
* `goesTo` — the file that a record goes to;
* `Filed` — what is known of the records filed so far;
* **`files_hold_the_log`** — the files, in the order of their names, hold the records, in the order in which they were
  appended, each of them in one file.
-/

namespace KwNet.LogFile

open KwNet.Lib KwNet.LogStream

/-! ### The names -/

/-- `"%Y%m%d-%H%M%S."` of `strftime`, for years of four digits. -/
def nameFormat : List (ℕ × List Char) := [(4, []), (2, []), (2, ['-']), (2, []), (2, []), (2, ['.'])]

def nameFields (now : ℕ) : List ℕ :=
  let tm := gmtime now
  [tm.year, tm.month, tm.day, tm.hour, tm.min, tm.sec]

/-- `getLogFileName`, called in the second `now`. -/
def getLogFileName (basename hostname : Text) (pid now : ℕ) : Text :=
  let filename := basename
  let filename := filename ++ '.' :: render nameFormat (nameFields now)
  let filename := filename ++ hostname
  let filename := filename ++ '.' :: decimal pid
  filename ++ ".log".toList

/-- The end of the year 9999, in seconds. -/
def endOfNames : ℕ := 253402300800

theorem timeFields_seconds (now : ℕ) : timeFields (now * 1000000) = nameFields now ++ [0] := by
  rw [timeFields, Nat.mul_div_cancel now (by decide), Nat.mul_mod_left]
  rfl

theorem nameFields_fit {now : ℕ} (h : now < endOfNames) : Fit nameFormat (nameFields now) := by
  have hend : now * 1000000 < endOfFormat := by
    rw [endOfFormat]
    rw [endOfNames] at h
    omega
  have hfit := timeFields_fit hend
  rw [timeFields_seconds] at hfit
  simp only [Fit, timeFormat, nameFields, List.cons_append, List.nil_append, List.forall₂_cons] at hfit
  obtain ⟨hyear, hmonth, hday, hhour, hmin, hsec, -⟩ := hfit
  exact .cons hyear (.cons hmonth (.cons hday (.cons hhour (.cons hmin (.cons hsec .nil)))))

theorem nameFields_lt {now now' : ℕ} (h : now < now') : nameFields now < nameFields now' := by
  have hlt := timeFields_lt (show now * 1000000 < now' * 1000000 by omega)
  rw [timeFields_seconds, timeFields_seconds, append_lt_append (show (nameFields now).length = (nameFields now').length from rfl)] at hlt
  exact hlt.resolve_right fun hzero => List.lt_irrefl _ hzero.2

variable {basename hostname : Text} {pid : ℕ}

/-- **Names are ordered as seconds.** -/
theorem getLogFileName_lt_iff {now now' : ℕ} (h : now < endOfNames) (h' : now' < endOfNames) :
    getLogFileName basename hostname pid now < getLogFileName basename hostname pid now' ↔ now < now' := by
  have hfit := nameFields_fit h
  have hfit' := nameFields_fit h'
  have hlen : (render nameFormat (nameFields now)).length = (render nameFormat (nameFields now')).length := by
    rw [length_render hfit, length_render hfit']
  have hfields : nameFields now < nameFields now' ↔ now < now' := by
    refine ⟨fun hlt => ?_, nameFields_lt⟩
    by_contra hge
    rcases (Nat.le_of_not_lt hge).lt_or_eq with hgt | rfl
    · exact List.lt_asymm hlt (nameFields_lt hgt)
    · exact List.lt_irrefl _ hlt
  have hparts : ∀ now, getLogFileName basename hostname pid now =
      (basename ++ ['.']) ++ (render nameFormat (nameFields now) ++ (hostname ++ '.' :: decimal pid ++ ".log".toList)) := by
    intro now
    simp only [getLogFileName, List.append_assoc, List.cons_append, List.nil_append]
  rw [hparts, hparts, append_lt_append rfl, append_lt_append hlen, render_lt hfit hfit', hfields]
  refine ⟨?_, fun hlt => .inr ⟨rfl, .inl hlt⟩⟩
  rintro (habs | ⟨-, hlt | ⟨-, habs⟩⟩)
  · exact absurd habs (List.lt_irrefl _)
  · exact hlt
  · exact absurd habs (List.lt_irrefl _)

/-! ### The files -/

/-- The file that a record goes to. -/
def goesTo (basename hostname : Text) (pid : ℕ) (s : State) (r : Record) : Option (Text × Record) :=
  s.file.map fun f => (getLogFileName basename hostname pid f.name, r)

/-- The records of a run, each with the file that it went to. -/
def filed (basename hostname : Text) (pid : ℕ) (cfg : Config) (clock : ℕ → ℕ) (rs : List Record) : List (Text × Record) :=
  observed (State.step cfg clock) (goesTo basename hostname pid) (State.init clock) rs

/-- What `fwrite` has taken of a record. -/
def Record.taken (r : Record) : Bytes := r.result.elim [] Append.grown

/-- What the records filed under a name have made of the file: `fopen` with `ae` appends to a file that is there. -/
def content (ws : List (Text × Record)) (name : Text) : Bytes := (ws.filter fun w => w.1 = name).flatMap fun w => w.2.taken

/-- Records are filed under names that do not go back, up to that of the file that is open. -/
structure Filed (basename hostname : Text) (pid : ℕ) (clock : ℕ → ℕ) (s : State) (ws : List (Text × Record)) : Prop where
  dated : Dated clock s
  sorted : ws.Pairwise fun w w' => w.1 = w'.1 ∨ w.1 < w'.1
  last : ∀ w ∈ ws, ∀ f ∈ s.file, w.1 = getLogFileName basename hostname pid f.name ∨
    w.1 < getLogFileName basename hostname pid f.name
  done : ∀ w ∈ ws, ∃ a, a ∈ w.2.result

variable {cfg : Config} {clock : ℕ → ℕ} {s s' : State} {r : Record} {ws : List (Text × Record)}

/-- The next file is not older. -/
theorem Dated.name_le (hclock : Monotone clock) (hD : Dated clock s) (h : s.step cfg clock r = some s') :
    ∃ f ∈ s.file, (∃ a, a ∈ r.result) ∧ ∀ f' ∈ s'.file, f.name ≤ f'.name := by
  obtain ⟨f, hf, a, ha, hA⟩ := step_appended h
  refine ⟨f, hf, ⟨a, ha⟩, fun f' hf' => ?_⟩
  cases hopen : opensAt cfg clock s (f.writtenBytes + a.counted) with
  | some i =>
    obtain ⟨hle, -, hfile, -⟩ := hA.opens i hopen
    rw [hfile] at hf'
    cases hf'
    exact (hD.past f hf).trans (hclock hle)
  | none =>
    obtain ⟨hfile, -⟩ := hA.keeps hopen
    rw [hfile] at hf'
    cases hf'
    exact Nat.le_refl _

/-- **A record is filed.** -/
theorem Filed.step (hclock : Monotone clock) (hend : ∀ i, clock i < endOfNames)
    (hF : Filed basename hostname pid clock s ws) (h : s.step cfg clock r = some s') :
    Filed basename hostname pid clock s' ((goesTo basename hostname pid s r).toList.foldl (fun l w => l ++ [w]) ws) := by
  obtain ⟨hD, hsorted, hlast, hdone⟩ := hF
  have hD' := hD.step hclock h
  obtain ⟨f, hf, hresult, hnext⟩ := hD.name_le hclock h
  have hgoes : goesTo basename hostname pid s r = some (getLogFileName basename hostname pid f.name, r) := by
    rw [goesTo, Option.mem_def.mp hf, Option.map_some]
  rw [hgoes]
  refine ⟨hD', List.pairwise_append.mpr ⟨hsorted, List.pairwise_singleton _ _, fun w hw w' hw' => ?_⟩,
    fun w hw f' hf' => ?_, fun w hw => ?_⟩
  · obtain rfl := List.mem_singleton.mp hw'
    exact hlast w hw f hf
  · have hname : getLogFileName basename hostname pid f.name = getLogFileName basename hostname pid f'.name ∨
        getLogFileName basename hostname pid f.name < getLogFileName basename hostname pid f'.name := by
      rcases (hnext f' hf').lt_or_eq with hlt | heq
      · refine .inr ((getLogFileName_lt_iff ?_ ?_).mpr hlt)
        · exact Nat.lt_of_le_of_lt (hD.past f hf) (hend _)
        · exact Nat.lt_of_le_of_lt (hD'.past f' hf') (hend _)
      · exact .inl (congrArg _ heq)
    rcases List.mem_append.mp hw with hw | hw
    · rcases hlast w hw f hf with heq | hlt
      · rw [heq]
        exact hname
      · rcases hname with heq | hlt'
        · exact .inr (heq ▸ hlt)
        · exact .inr (List.lt_trans hlt hlt')
    · obtain rfl := List.mem_singleton.mp hw
      exact hname
  · rcases List.mem_append.mp hw with hw | hw
    · exact hdone w hw
    · obtain rfl := List.mem_singleton.mp hw
      exact hresult

theorem Append.step_logs {a a' : Append} {r : Answer} (h : a.step r = some a') : a'.logs = a.logs := by
  simp only [Append.step] at h
  split at h
  · split at h
    · cases h
      rfl
    · cases h
      unfold Append.next
      split <;> rfl
  · cases h

/-- A record whose bytes were taken where they were due. -/
theorem taken_of_inPlace (hresult : ∃ a, a ∈ r.result) (hplace : Along Append.step InPlace (Append.init r.logs) r.answers) :
    r.taken <+: r.logs ∧ ((∀ a ∈ r.result, a.phase = .returned) → r.taken = r.logs) := by
  obtain ⟨a, ha⟩ := hresult
  obtain ⟨hrun, -⟩ := Option.filter_eq_some_iff.mp ha
  have hlogs : a.logs = r.logs := by
    refine run_induction (fun a : Append => a.logs = r.logs) ?_ (fun _ _ _ hI h => (Append.step_logs h).trans hI) hrun
    unfold Append.init Append.next
    split <;> rfl
  obtain ⟨-, hpre, hphase⟩ := run_induction_along InPlace (fun a => Counting a ∧ Exact a) (init_exact r.logs)
    (fun a r a' hI hP h => hI.1.step hP h) hplace hrun
  have htaken : r.taken = a.grown := by rw [Record.taken, Option.mem_def.mp ha]; rfl
  rw [htaken, ← hlogs]
  refine ⟨hpre, fun hall => ?_⟩
  rw [hall a ha] at hphase
  exact hphase.1

/-- **The log files hold the log.**  For any configuration, any records and answers of `fwrite`, and any clock that does
not go back, up to the year 9999: take any names that the records' files are among, in the order of the names.  Then the
records in the order in which they were appended can be divided so that each file holds those of its part, of each what
`fwrite` took of it: all, where the answers were in place and without an error. -/
theorem files_hold_the_log (basename hostname : Text) (pid : ℕ) (cfg : Config) {clock : ℕ → ℕ} (hclock : Monotone clock)
    (hend : ∀ i, clock i < endOfNames) {rs : List Record} {s : State}
    (hrun : run (State.step cfg clock) (State.init clock) rs = some s) {names : List Text}
    (hsorted : names.Pairwise fun name name' => name < name')
    (hnames : ∀ w ∈ filed basename hostname pid cfg clock rs, w.1 ∈ names) :
    (∃ parts : List (List Record), parts.flatten = rs ∧
      names.map (content (filed basename hostname pid cfg clock rs)) = parts.map fun part => part.flatMap Record.taken) ∧
    ∀ r ∈ rs, Along Append.step InPlace (Append.init r.logs) r.answers →
      r.taken <+: r.logs ∧ ((∀ a ∈ r.result, a.phase = .returned) → r.taken = r.logs) := by
  have hfiled : Filed basename hostname pid clock s (filed basename hostname pid cfg clock rs) :=
    run_logged_along (fun _ _ => True) (goesTo basename hostname pid) (Filed basename hostname pid clock)
      (fun s ws r s' hF _ h => hF.step hclock hend h) ⟨dated_init hclock, .nil, fun _ hw => absurd hw List.not_mem_nil,
        fun _ hw => absurd hw List.not_mem_nil⟩
      (along_true rs) hrun
  have hrecords : (filed basename hostname pid cfg clock rs).map Prod.snd = rs :=
    observed_map (goesTo basename hostname pid) Prod.snd (fun s r s' h => by
      obtain ⟨f, hf, -⟩ := step_cases h
      rw [goesTo, Option.mem_def.mp hf, Option.map_some, Option.map_some]) hrun
  constructor
  · refine ⟨names.map fun name => ((filed basename hostname pid cfg clock rs).filter fun w => w.1 = name).map Prod.snd, ?_, ?_⟩
    · have hgroups := flatMap_filter_of_sorted Prod.fst (fun _ _ => List.lt_asymm) hfiled.sorted hsorted hnames
      calc (names.map fun name => ((filed basename hostname pid cfg clock rs).filter fun w => w.1 = name).map Prod.snd).flatten
          = (names.flatMap fun name => (filed basename hostname pid cfg clock rs).filter fun w => w.1 = name).map Prod.snd := by
            rw [List.map_flatMap, List.flatMap_def]
        _ = rs := by rw [hgroups, hrecords]
    · rw [List.map_map]
      refine List.map_congr_left fun name _ => ?_
      rw [content, Function.comp_apply, List.flatMap_map]
  · intro r hr hplace
    obtain ⟨w, hw, rfl⟩ := List.mem_map.mp (hrecords.symm ▸ hr)
    exact taken_of_inPlace (hfiled.done w hw) hplace

/-- The clock shows three seconds, one after the other. -/
def threeSeconds (n : ℕ) : ℕ := 1709164800 + min n 2

/-- Three records, of which the second one fills the first file. -/
def threeRecords : List Record := [wholeRecord 2, wholeRecord 1, wholeRecord 2]

/-- The names of the two files. -/
def twoNames : List Text := [0, 1].map fun n => getLogFileName "kw".toList "host".toList 7 (threeSeconds n)

theorem threeSeconds_lt (n : ℕ) : threeSeconds n < endOfNames := by
  rw [threeSeconds, endOfNames]
  omega

theorem files_hold_the_log_two :
    ∃ parts : List (List Record), parts.flatten = threeRecords ∧
      twoNames.map (content (filed "kw".toList "host".toList 7 smallFiles threeSeconds threeRecords)) =
        parts.map fun part => part.flatMap Record.taken := by
  have hmono : Monotone threeSeconds := fun n m h => Nat.add_le_add_left (min_le_min_right 2 h) _
  obtain ⟨s, hrun⟩ : ∃ s, run (State.step smallFiles threeSeconds) (State.init threeSeconds) threeRecords = some s := ⟨_, rfl⟩
  have hfiled : (filed "kw".toList "host".toList 7 smallFiles threeSeconds threeRecords).map Prod.fst =
      [0, 0, 1].map fun n => getLogFileName "kw".toList "host".toList 7 (threeSeconds n) := rfl
  refine (files_hold_the_log "kw".toList "host".toList 7 smallFiles hmono threeSeconds_lt hrun ?_ fun w hw => ?_).1
  · refine List.pairwise_pair.mpr ?_
    exact (getLogFileName_lt_iff (threeSeconds_lt 0) (threeSeconds_lt 1)).mpr (by decide)
  · have hmem : w.1 ∈ (filed "kw".toList "host".toList 7 smallFiles threeSeconds threeRecords).map Prod.fst :=
      List.mem_map_of_mem hw
    rw [hfiled] at hmem
    simpa only [twoNames, List.map_cons, List.map_nil, List.mem_cons, List.not_mem_nil, or_false, or_self_left] using hmem

end KwNet.LogFile
