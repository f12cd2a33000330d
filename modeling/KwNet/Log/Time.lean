import KwNet.Lib.Blocks
import KwNet.Lib.Padded
import KwNet.Log.Logger

/-!
# The time of a log record

`Impl::formatedTime` of `Loggers/Logger.cpp`: the time in UTC, by `gmtime_r` and one `snprintf` into 32 cells, of which
26 are inserted.

* `gmtime` — the calendar date and the time of day; **`gmtime_posix`** — they are those of the formula by which POSIX
  defines the seconds since the Epoch;
* `timeText`, `timeBuf` — the text, and the cells it is left in;
* **`timeText_lt_iff`** — up to the year 9999 the texts are ordered as the times;
* **`records_sort_by_time`** — and so are whole records of different times, whatever else is in them.
-/

namespace KwNet.LogStream

open KwNet.Lib

/-- `struct tm`, with `tm_year + 1900` and `tm_mon + 1`. -/
structure Tm where
  year : ℕ
  month : ℕ
  day : ℕ
  hour : ℕ
  min : ℕ
  sec : ℕ
  deriving DecidableEq

/-- The days from the Epoch to the first day of the year `1970 + k`. -/
def yearStart (k : ℕ) : ℕ := 365 * k + (k + 1) / 4 + (k + 369) / 400 - (k + 69) / 100

/-- The year `1970 + k` has 366 days. -/
def leap (k : ℕ) : Bool := yearStart (k + 1) - yearStart k == 366

/-- The months count from zero. -/
def monthLength (leap : Bool) : ℕ → ℕ
  | 1 => if leap then 29 else 28
  | 3 => 30
  | 5 => 30
  | 8 => 30
  | 10 => 30
  | _ => 31

/-- The days of a year before its month `i`. -/
def monthStart (leap : Bool) : ℕ → ℕ
  | 0 => 0
  | i + 1 => monthStart leap i + monthLength leap i

/-- `gmtime_r`, for times from the Epoch on. -/
def gmtime (seconds : ℕ) : Tm :=
  let day := seconds / 86400
  let k := index yearStart (day / 365) day
  let yday := day - yearStart k
  let mon := index (monthStart (leap k)) 11 yday
  { year := 1970 + k
    month := mon + 1
    day := yday - monthStart (leap k) mon + 1
    hour := seconds % 86400 / 3600
    min := seconds % 3600 / 60
    sec := seconds % 60 }

/-- `"%04d-%02d-%02d %02d:%02d:%02d.%06lld"`. -/
def timeFormat : List (ℕ × List Char) :=
  [(4, ['-']), (2, ['-']), (2, [' ']), (2, [':']), (2, [':']), (2, ['.']), (6, [])]

/-- What is printed for a time in microseconds. -/
def timeFields (time : ℕ) : List ℕ :=
  let tm := gmtime (time / 1000000)
  [tm.year, tm.month, tm.day, tm.hour, tm.min, tm.sec, time % 1000000]

def timeText (time : ℕ) : Text := render timeFormat (timeFields time)

/-- `char buffer[32]` behind `snprintf`; it held `garbage`. -/
def timeBuf (garbage : Text) (time : ℕ) : Text :=
  let out := (timeText time).take 31 ++ [nul]
  out ++ garbage.drop out.length

/-! ### The calendar -/

theorem yearStart_succ (k : ℕ) : yearStart k + 365 ≤ yearStart (k + 1) ∧ yearStart (k + 1) ≤ yearStart k + 366 := by
  have hcenturies : (k + 69) / 100 ≤ k := by omega
  simp only [yearStart]
  by_cases hcentury : (k + 70) % 100 = 0
  · -- the year can be divided by four as well
    obtain ⟨m, rfl⟩ : ∃ m, k = 100 * m + 30 := ⟨(k + 70) / 100 - 1, by omega⟩
    omega
  · have hsame : (k + 1 + 69) / 100 = (k + 69) / 100 := by omega
    have hfour : (k + 1) / 4 ≤ (k + 1 + 1) / 4 ∧ (k + 1 + 1) / 4 ≤ (k + 1) / 4 + 1 := by omega
    have hera : (k + 1 + 369) / 400 = (k + 369) / 400 := by
      obtain ⟨q, r, hr, rfl⟩ : ∃ q r, r < 400 ∧ k = 400 * q + r := ⟨k / 400, k % 400, Nat.mod_lt k (by decide), by omega⟩
      omega
    omega

theorem yearStart_mono : Monotone yearStart :=
  monotone_nat_of_le_succ fun k => (Nat.le_add_right _ 365).trans (yearStart_succ k).1

theorem monthStart_mono (leap : Bool) : Monotone (monthStart leap) :=
  monotone_nat_of_le_succ fun _ => Nat.le_add_right _ _

theorem monthStart_last (k : ℕ) : yearStart (k + 1) = yearStart k + monthStart (leap k) 12 := by
  obtain ⟨hlow, hhigh⟩ := yearStart_succ k
  cases hleap : leap k with
  | true =>
    have hyear : yearStart (k + 1) - yearStart k = 366 := beq_iff_eq.mp hleap
    show yearStart (k + 1) = yearStart k + 366
    omega
  | false =>
    have hyear : yearStart (k + 1) - yearStart k ≠ 366 := beq_eq_false_iff_ne.mp hleap
    show yearStart (k + 1) = yearStart k + 365
    omega

/-- The year of a day. -/
theorem inBlock_year (day : ℕ) : InBlock yearStart day (index yearStart (day / 365) day) := by
  refine inBlock_index (Nat.zero_le _) ?_
  have hlong : 365 * (day / 365 + 1) ≤ yearStart (day / 365 + 1) := by
    simp only [yearStart]
    omega
  omega

/-- The month of a day of the year. -/
theorem inBlock_month {k yday : ℕ} (h : yday < monthStart (leap k) 12) :
    InBlock (monthStart (leap k)) yday (index (monthStart (leap k)) 11 yday) := inBlock_index (Nat.zero_le _) h

theorem yday_lt {day k : ℕ} (h : InBlock yearStart day k) : day - yearStart k < monthStart (leap k) 12 := by
  have hlast := monthStart_last k
  have hle := h.le
  have hlt := h.lt
  omega

/-- **The date is right**: it has the fields of a date, and denotes the given second. -/
theorem gmtime_posix (seconds : ℕ) :
    let tm := gmtime seconds
    let k := tm.year - 1970
    (1970 ≤ tm.year ∧ 1 ≤ tm.month ∧ tm.month ≤ 12 ∧ 1 ≤ tm.day ∧ tm.day ≤ monthLength (leap k) (tm.month - 1) ∧
      tm.hour < 24 ∧ tm.min < 60 ∧ tm.sec < 60) ∧
    tm.sec + tm.min * 60 + tm.hour * 3600 + (yearStart k + monthStart (leap k) (tm.month - 1) + (tm.day - 1)) * 86400
      = seconds := by
  have hyear := inBlock_year (seconds / 86400)
  set k := index yearStart (seconds / 86400 / 365) (seconds / 86400) with hk
  have hmonth := inBlock_month (yday_lt hyear)
  set mon := index (monthStart (leap k)) 11 (seconds / 86400 - yearStart k) with hmon
  have hmonLe : mon ≤ 11 := index_le
  have hnext : monthStart (leap k) (mon + 1) = monthStart (leap k) mon + monthLength (leap k) mon := rfl
  have h₁ := hyear.le
  have h₂ := hmonth.le
  have h₃ := hmonth.lt
  have hk' : (gmtime seconds).year - 1970 = k := Nat.add_sub_cancel_left 1970 k
  have hday : (gmtime seconds).day - 1 = seconds / 86400 - yearStart k - monthStart (leap k) mon := Nat.add_sub_cancel _ 1
  refine ⟨⟨Nat.le_add_right _ _, Nat.succ_pos _, Nat.succ_le_succ hmonLe, Nat.succ_pos _, ?_, ?_, ?_, ?_⟩, ?_⟩
  · rw [hk']
    show seconds / 86400 - yearStart k - monthStart (leap k) mon + 1 ≤ monthLength (leap k) mon
    omega
  · show seconds % 86400 / 3600 < 24
    omega
  · show seconds % 3600 / 60 < 60
    omega
  · show seconds % 60 < 60
    omega
  · rw [hk', hday]
    show seconds % 60 + seconds % 3600 / 60 * 60 + seconds % 86400 / 3600 * 3600 +
      (yearStart k + monthStart (leap k) mon + (seconds / 86400 - yearStart k - monthStart (leap k) mon)) * 86400 = seconds
    omega

/-! ### The order of the texts -/

/-- The last microsecond of the year 9999, and one. -/
def endOfFormat : ℕ := 253402300800 * 1000000

/-- Every field is as wide as the format makes it. -/
theorem timeFields_fit {time : ℕ} (h : time < endOfFormat) : Fit timeFormat (timeFields time) := by
  obtain ⟨⟨-, -, hmonth, -, hday, hhour, hmin, hsec⟩, -⟩ := gmtime_posix (time / 1000000)
  have hyear : (gmtime (time / 1000000)).year < 10000 := by
    show 1970 + index yearStart (time / 1000000 / 86400 / 365) (time / 1000000 / 86400) < 10000
    by_contra hge
    have hblock := inBlock_year (time / 1000000 / 86400)
    have hstart : yearStart 8030 ≤ _ := (yearStart_mono (show 8030 ≤ _ by omega)).trans hblock.le
    rw [show yearStart 8030 = 2932897 from rfl] at hstart
    rw [endOfFormat] at h
    omega
  have hday' : (gmtime (time / 1000000)).day < 100 := by
    refine Nat.lt_of_le_of_lt (hday.trans (?_ : _ ≤ 31)) (by decide)
    unfold monthLength
    split
    · split <;> decide
    all_goals decide
  have husec : time % 1000000 < 10 ^ 6 := Nat.mod_lt time (by decide)
  refine .cons ⟨hyear, by decide⟩ (.cons ⟨?_, by decide⟩ (.cons ⟨hday', by decide⟩ (.cons ⟨?_, by decide⟩
    (.cons ⟨?_, by decide⟩ (.cons ⟨?_, by decide⟩ (.cons ⟨husec, by decide⟩ .nil))))))
  · show (gmtime (time / 1000000)).month < 100
    omega
  · show (gmtime (time / 1000000)).hour < 100
    omega
  · show (gmtime (time / 1000000)).min < 100
    omega
  · show (gmtime (time / 1000000)).sec < 100
    omega

/-- Later times have greater fields, from the left. -/
theorem timeFields_lt {time time' : ℕ} (h : time < time') : timeFields time < timeFields time' := by
  simp only [timeFields, List.cons_lt_cons_iff, gmtime]
  set s := time / 1000000 with hs
  set s' := time' / 1000000 with hs'
  have hyear := inBlock_year (s / 86400)
  have hyear' := inBlock_year (s' / 86400)
  set k := index yearStart (s / 86400 / 365) (s / 86400)
  set k' := index yearStart (s' / 86400 / 365) (s' / 86400)
  have hday : s / 86400 ≤ s' / 86400 := by omega
  rcases hday.lt_or_eq with hlt | heq
  · rcases (hyear.lt_iff yearStart_mono hyear').mp hlt with hk | ⟨hk, hyday⟩
    · exact .inl (by omega)
    · refine .inr ⟨by omega, ?_⟩
      have hmonth := inBlock_month (yday_lt hyear)
      have hmonth' := inBlock_month (yday_lt hyear')
      rw [← hk] at hmonth' hyday ⊢
      rcases (hmonth.lt_iff (monthStart_mono _) hmonth').mp hyday with hm | ⟨hm, hd⟩
      · exact .inl (by omega)
      · refine .inr ⟨by omega, .inl ?_⟩
        rw [← hm] at hd ⊢
        omega
  · have hk : k = k' := by
      refine Nat.le_antisymm (hyear.le_of_le yearStart_mono hyear' heq.le) (hyear'.le_of_le yearStart_mono hyear heq.ge)
    rw [← hk, ← heq]
    refine .inr ⟨rfl, .inr ⟨rfl, .inr ⟨rfl, ?_⟩⟩⟩
    omega

/-- **Texts are ordered as times.** -/
theorem timeText_lt_iff {time time' : ℕ} (h : time < endOfFormat) (h' : time' < endOfFormat) :
    timeText time < timeText time' ↔ time < time' := by
  rw [timeText, timeText, render_lt (timeFields_fit h) (timeFields_fit h')]
  refine ⟨fun hlt => ?_, timeFields_lt⟩
  by_contra hge
  rcases (Nat.le_of_not_lt hge).lt_or_eq with hgt | rfl
  · exact List.lt_asymm hlt (timeFields_lt hgt)
  · exact List.lt_irrefl _ hlt

theorem length_timeText {time : ℕ} (h : time < endOfFormat) : (timeText time).length = 26 :=
  length_render (timeFields_fit h)

/-! ### The order of the records -/

theorem prefix_foldl_record (s : Text) (is : List Insert) : s <+: is.foldl record s := by
  induction is generalizing s with
  | nil => exact List.prefix_rfl
  | cons i is ih =>
    have hone : s <+: record s i := by
      unfold record
      split
      · exact List.prefix_append _ _
      · exact List.prefix_rfl
    exact hone.trans (ih _)

/-- How a record begins. -/
def timePrefix (time : ℕ) : Text := '[' :: (timeText time ++ [']', ' '])

theorem prefix_header {l : Logger} {garbage : Text} {time : ℕ} (hbuf : l.timeBuf = timeBuf garbage time)
    (h : time < endOfFormat) (is : List Insert) : timePrefix time <+: (l.header ++ is).foldl record [] := by
  have hlen := length_timeText h
  have hpiece : (Insert.piece l.timeBuf 26).text = timeText time := by
    show l.timeBuf.take 26 = _
    rw [hbuf, timeBuf, List.take_of_length_le (by omega : (timeText time).length ≤ 31), List.append_assoc,
      List.take_left' hlen]
  have hfirst : record (record (record [] (.cString "[".toList)) (.piece l.timeBuf 26)) (.cString "] ".toList) =
      timePrefix time := by
    have hopen : record [] (.cString "[".toList) = ['['] := rfl
    have htime : record ['['] (.piece l.timeBuf 26) = '[' :: timeText time := by
      rw [record, hpiece, if_pos]
      · rfl
      · show (Insert.piece l.timeBuf 26).text.length ≤ _
        rw [hpiece, hlen]
        decide
    have hclose : record ('[' :: timeText time) (.cString "] ".toList) = timePrefix time := by
      refine if_pos ?_
      show 2 ≤ 4096 - ('[' :: timeText time).length
      rw [List.length_cons, hlen]
      decide
    rw [hopen, htime, hclose]
  obtain ⟨rest, hrest⟩ : ∃ rest, l.header ++ is =
      .cString "[".toList :: .piece l.timeBuf 26 :: .cString "] ".toList :: rest := ⟨_, rfl⟩
  rw [hrest, List.foldl_cons, List.foldl_cons, List.foldl_cons, hfirst]
  exact prefix_foldl_record _ rest

/-- **Records sort by time.**  Whatever two records of different times hold, up to the year 9999 the one of the earlier
time comes first in the order of their texts. -/
theorem records_sort_by_time {l l' : Logger} {garbage garbage' : Text} {time time' : ℕ}
    (hbuf : l.timeBuf = timeBuf garbage time) (hbuf' : l'.timeBuf = timeBuf garbage' time') (hlt : time < time')
    (hend : time' < endOfFormat) {data data' : Text} (size : data.length = 4096) (size' : data'.length = 4096)
    {user user' : List Insert} (hok : ∀ i ∈ l.header ++ user, i.Ok) (hok' : ∀ i ∈ l'.header ++ user', i.Ok) :
    ∃ out out', l.output data size user = some out ∧ l'.output data' size' user' = some out' ∧ out < out' := by
  have houtput : ∀ (l : Logger) (data : Text) (size : data.length = 4096) (user : List Insert),
      (∀ i ∈ l.header ++ user, i.Ok) →
      l.output data size user = some ((l.header ++ (user ++ l.finish)).foldl record []) := by
    intro l data size user hok
    have hall : ∀ i ∈ l.header ++ user ++ l.finish, i.Ok := by
      intro i hi
      rcases List.mem_append.mp hi with h | h
      · exact hok i h
      · exact finish_ok l i h
    obtain ⟨b, room, hb, hholds⟩ := insertAll_record (holds_self (.new data size)) hall
    rw [Logger.output, hb, Option.map_some, hholds.toString, List.append_assoc]
    rfl
  refine ⟨_, _, houtput l data size user hok, houtput l' data' size' user' hok', ?_⟩
  have hstart : time < endOfFormat := hlt.trans hend
  obtain ⟨rest, hrest⟩ := prefix_header hbuf hstart (user ++ l.finish)
  obtain ⟨rest', hrest'⟩ := prefix_header hbuf' hend (user' ++ l'.finish)
  have hlen : (timeText time).length = (timeText time').length := by rw [length_timeText hstart, length_timeText hend]
  have hprefix : timePrefix time < timePrefix time' := by
    refine List.cons_lt_cons_iff.mpr (.inr ⟨rfl, ?_⟩)
    exact (append_lt_append hlen).mpr (.inl ((timeText_lt_iff hstart hend).mpr hlt))
  rw [← hrest, ← hrest']
  refine (append_lt_append ?_).mpr (.inl hprefix)
  rw [timePrefix, timePrefix, List.length_cons, List.length_cons, List.length_append, List.length_append, hlen]

/-- The first second of a leap day. -/
def leapDay : ℕ := 1709164800 * 1000000

example : timeText leapDay = "2024-02-29 00:00:00.000000".toList := by decide

/-- `plainLogger` at the given time. -/
def timedLogger (time : ℕ) (h : (timeBuf (List.replicate 32 'x') time).length = 32) : Logger :=
  { plainLogger with timeBuf := timeBuf (List.replicate 32 'x') time, timeSize := h }

theorem timed_header_ok (time : ℕ) (h : (timeBuf (List.replicate 32 'x') time).length = 32) :
    ∀ i ∈ (timedLogger time h).header ++ [], i.Ok := by
  intro i hi
  simp only [Logger.header, timedLogger, plainLogger, ne_eq, not_true_eq_false, if_false, List.append_nil, List.mem_cons,
    List.not_mem_nil, or_false] at hi
  rcases hi with rfl | rfl | rfl | rfl | rfl | rfl | rfl <;> simp only [Insert.Ok, h] <;> decide

theorem records_sort_by_time_leap_day :
    ∃ out out', (timedLogger leapDay (by decide)).output (List.replicate 4096 nul) List.length_replicate [] = some out ∧
      (timedLogger (leapDay + 1) (by decide)).output (List.replicate 4096 nul) List.length_replicate [] = some out' ∧
      out < out' :=
  records_sort_by_time rfl rfl (Nat.lt_succ_self leapDay) (by decide) List.length_replicate List.length_replicate
    (timed_header_ok leapDay _) (timed_header_ok (leapDay + 1) _)

end KwNet.LogStream
