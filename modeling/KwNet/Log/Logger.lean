import KwNet.Log.Stream

/-!
# What `~Logger` hands to `g_output`

`Loggers/Logger.cpp`.  The constructor inserts the time, the thread and the level, and where it is given them an error
and the function; then come the insertions of the user; the destructor inserts ` - `, the file, `:`, the line and
`'\n'`.  All of them go through the stream's 4096 cells.

The texts of the library are parameters: the 32 cells in which `snprintf` leaves the time, `tidString`, and what
`strerrorInfo` returns.

* `Logger.header`, `Logger.finish` — the insertions before and after those of the user;
* `AllFit`, **`foldl_record_eq_iff`** — when no piece is dropped;
* **`record_terminated`** — the suffix is there exactly when 52 cells and those of the file name are left;
* **`record_cut`** — a user can fill the buffer.
-/

namespace KwNet.LogStream

/-- `Logger::LogLevel`. -/
inductive LogLevel where
  | trace
  | debug
  | info
  | warn
  | error
  | fatal
  deriving DecidableEq

/-- `LogLevelName`. -/
def LogLevel.name : LogLevel → Text
  | trace => "TRACE ".toList
  | debug => "DEBUG ".toList
  | info => "INFO  ".toList
  | warn => "WARN  ".toList
  | error => "ERROR ".toList
  | fatal => "FATAL ".toList

/-- `Logger::SourceFile`. -/
structure SourceFile where
  data : Text
  size : ℤ

/-- The constructor from a literal: what follows its last slash. -/
def SourceFile.ofLiteral (arr : Text) : SourceFile :=
  let afterSlash := ((arr.take (strlen arr)).reverse.takeWhile fun c => c ≠ '/').length
  let start := strlen arr - afterSlash
  ⟨arr.drop start, (arr.length - start : ℕ)⟩

/-- `operator<<(LogStream&, const SourceFile&)`. -/
def SourceFile.insert (f : SourceFile) : Insert := .piece f.data f.size

/-- The arguments of `Logger::Logger` and what it finds. -/
structure Logger where
  /-- `char buffer[32]` of `formatedTime`. -/
  timeBuf : Text
  timeSize : timeBuf.length = 32
  tidString : Text
  tidLength : ℕ
  tidSize : tidLength ≤ tidString.length
  level : LogLevel
  errno : IntType.int.Value
  /-- `strerrorInfo(errno_)`. -/
  errorInfo : Text
  /-- `__FILE__`. -/
  file : Text
  line : IntType.int.Value
  func : Option Text

/-- The insertions of the constructor. -/
def Logger.header (l : Logger) : List Insert :=
  [.cString "[".toList, .piece l.timeBuf 26, .cString "] ".toList, .cString "tid:".toList,
    .piece l.tidString l.tidLength, .cString " ".toList, .cString l.level.name] ++
  (if l.errno.val ≠ 0 then
    [.cString l.errorInfo, .cString " (errno=".toList, .int .int l.errno, .cString ") ".toList]
  else []) ++
  match l.func with
  | some func => [.cString func, .cString (some [])]
  | none => []

/-- `Impl::finish`. -/
def Logger.finish (l : Logger) : List Insert :=
  [.cString " - ".toList, (SourceFile.ofLiteral l.file).insert, .char ':', .int .int l.line, .char '\n']

/-- What `~Logger` passes to `g_output`, after the insertions `user`; the stream's array held `data`. -/
def Logger.output (l : Logger) (data : Text) (size : data.length = 4096) (user : List Insert) : Option Text :=
  (insertAll (.new data size) (l.header ++ user ++ l.finish)).map FixedBuffer.toString

/-- The name of the source file, as it is inserted. -/
def Logger.fileName (l : Logger) : Text := (SourceFile.ofLiteral l.file).insert.text

/-- The source suffix and the end of the line. -/
def Logger.suffix (l : Logger) : Text := " - ".toList ++ l.fileName ++ [':'] ++ decimal l.line.val ++ ['\n']

/-! ### When no piece is dropped -/

/-- All insertions fit, one after another, into `avail` cells. -/
def AllFit : ℕ → List Insert → Prop
  | _, [] => True
  | avail, i :: is => i.Fits avail ∧ AllFit (avail - i.text.length) is

theorem length_foldl_record (s : Text) (is : List Insert) :
    (is.foldl record s).length ≤ s.length + (is.flatMap Insert.text).length := by
  induction is generalizing s with
  | nil => exact Nat.le_refl _
  | cons i is ih =>
    have hone : (record s i).length ≤ s.length + i.text.length := by
      unfold record
      split
      · rw [List.length_append]
      · exact Nat.le_add_right _ _
    have hrest := ih (record s i)
    rw [List.foldl_cons, List.flatMap_cons, List.length_append]
    omega

/-- **No piece is dropped** exactly when all fit. -/
theorem foldl_record_eq_iff {s : Text} {is : List Insert} (h : ∀ i ∈ is, i.text = [] → i.numeric = false) :
    is.foldl record s = s ++ is.flatMap Insert.text ↔ AllFit (4096 - s.length) is := by
  induction is generalizing s with
  | nil =>
    rw [List.foldl_nil, List.flatMap_nil, List.append_nil]
    exact ⟨fun _ => trivial, fun _ => rfl⟩
  | cons i is ih =>
    rw [List.foldl_cons, List.flatMap_cons]
    by_cases hfit : i.Fits (4096 - s.length)
    · have hrec : record s i = s ++ i.text := if_pos hfit
      have hlen : 4096 - (s ++ i.text).length = 4096 - s.length - i.text.length := by
        rw [List.length_append, Nat.sub_add_eq]
      rw [hrec, ← List.append_assoc, ih fun j hj => h j (List.mem_cons_of_mem _ hj), hlen]
      exact ⟨fun hrest => ⟨hfit, hrest⟩, fun hall => hall.2⟩
    · have hrec : record s i = s := if_neg hfit
      have hpos : 0 < i.text.length := by
        refine List.length_pos_of_ne_nil fun hnil => hfit ?_
        rw [Insert.Fits, h i List.mem_cons_self hnil, hnil]
        exact Nat.zero_le _
      refine ⟨fun heq => ?_, fun hall => absurd hall.1 hfit⟩
      have hshort := length_foldl_record s is
      rw [hrec] at heq
      rw [heq] at hshort
      simp only [List.length_append] at hshort
      omega

/-- A full buffer stays as it is. -/
theorem foldl_record_full {s : Text} {is : List Insert} (hs : s.length = 4096) (h : ∀ i ∈ is, ¬ i.Fits 0) :
    is.foldl record s = s := by
  induction is with
  | nil => rfl
  | cons i is ih =>
    have hrec : record s i = s := by
      rw [record, hs]
      exact if_neg (h i List.mem_cons_self)
    rw [List.foldl_cons, hrec]
    exact ih fun j hj => h j (List.mem_cons_of_mem _ hj)

/-! ### The suffix -/

theorem fileName_ok (file : Text) : (SourceFile.ofLiteral file).insert.Ok := by
  refine ⟨Int.natCast_nonneg _, ?_⟩
  rw [SourceFile.ofLiteral, List.length_drop]

theorem finish_ok (l : Logger) : ∀ i ∈ l.finish, i.Ok := by
  intro i hi
  rw [Logger.finish] at hi
  simp only [List.mem_cons, List.not_mem_nil, or_false] at hi
  rcases hi with rfl | rfl | rfl | rfl | rfl
  · show strlen " - ".toList < 2 ^ 31
    decide
  · exact fileName_ok l.file
  · trivial
  · trivial
  · trivial

theorem numeral_ne_nil (b n : ℕ) : numeral b n ≠ [] := by
  rw [numeral, Ne, List.map_eq_nil_iff, List.reverse_eq_nil_iff]
  exact Lib.lsdFirst_ne_nil b n

theorem decimal_pos (v : ℤ) : 0 < (decimal v).length := by
  have hnum := List.length_pos_of_ne_nil (numeral_ne_nil 10 v.natAbs)
  rw [decimal, List.length_append]
  omega

theorem finish_text (l : Logger) : l.finish.flatMap Insert.text = l.suffix := by
  simp only [Logger.finish, List.flatMap_cons, List.flatMap_nil, List.append_nil, Logger.suffix, List.append_assoc]
  rfl

/-- The five pieces fit: the number needs 48 cells, the others their length. -/
theorem finish_fit (l : Logger) (avail : ℕ) : AllFit avail l.finish ↔ l.fileName.length + 52 ≤ avail := by
  have hlen := decimal_length_le l.line
  have hpos := decimal_pos l.line.val
  have hdash : (Insert.cString " - ".toList).text.length = 3 := by decide
  show ((Insert.cString " - ".toList).text.length ≤ avail ∧
    l.fileName.length ≤ avail - (Insert.cString " - ".toList).text.length ∧
    1 ≤ avail - (Insert.cString " - ".toList).text.length - l.fileName.length ∧
    48 ≤ avail - (Insert.cString " - ".toList).text.length - l.fileName.length - 1 ∧
    1 ≤ avail - (Insert.cString " - ".toList).text.length - l.fileName.length - 1 - (decimal l.line.val).length ∧
    True) ↔ _
  rw [hdash, and_true]
  omega

/-- **How a record ends.**  Whatever was inserted, the destructor adds those pieces of ` - file:line` and `'\n'` that
fit, in order; they are all there exactly when 52 cells more than the file name has characters are free. -/
theorem record_terminated (l : Logger) (data : Text) (size : data.length = 4096) (user : List Insert) (b : Buffer)
    (hb : insertAll (.new data size) (l.header ++ user) = some b) :
    l.output data size user = some (l.finish.foldl record b.toString) ∧
      (l.finish.foldl record b.toString = b.toString ++ l.suffix ↔ l.fileName.length + 52 ≤ b.avail) := by
  have hself := holds_self b
  constructor
  · obtain ⟨b', room, hfinish, hb'⟩ := insertAll_record hself (finish_ok l)
    have hall : insertAll (.new data size) (l.header ++ user ++ l.finish) = some b' := by
      rw [insertAll, List.foldlM_append]
      exact (congrArg (Option.bind · _) hb).trans hfinish
    rw [Logger.output, hall, Option.map_some, hb'.toString]
  · rw [← finish_text, foldl_record_eq_iff, ← hself.avail_eq, finish_fit]
    intro i hi hnil
    rw [Logger.finish] at hi
    simp only [List.mem_cons, List.not_mem_nil, or_false] at hi
    rcases hi with rfl | rfl | rfl | rfl | rfl
    · rfl
    · rfl
    · rfl
    · have hpos := decimal_pos l.line.val
      have hnil' : decimal l.line.val = [] := hnil
      rw [hnil'] at hpos
      cases hpos
    · rfl

/-- A record of level `INFO` from line 7 of `a.cpp`. -/
def plainLogger : Logger where
  timeBuf := List.replicate 32 '0'
  timeSize := List.length_replicate
  tidString := "   12".toList
  tidLength := 5
  tidSize := by decide
  level := .info
  errno := ⟨0, by decide⟩
  errorInfo := []
  file := "src/a.cpp".toList
  line := ⟨7, by decide⟩
  func := none

/-- What was inserted before the destructor of `plainLogger`. -/
def plainStart : Text := "[00000000000000000000000000] tid:   12 INFO  ".toList

theorem plain_start : plainLogger.header.foldl record [] = plainStart := by decide

theorem plain_header_ok : ∀ i ∈ plainLogger.header, i.Ok := by
  intro i hi
  simp only [Logger.header, plainLogger, ne_eq, not_true_eq_false, if_false, List.append_nil, List.mem_cons,
    List.not_mem_nil, or_false] at hi
  rcases hi with rfl | rfl | rfl | rfl | rfl | rfl | rfl <;> simp only [Insert.Ok] <;> decide

theorem record_terminated_plain :
    ∃ b : Buffer, b.toString = plainStart ++ "ok".toList ∧
      plainLogger.output (List.replicate 4096 nul) List.length_replicate [.string "ok".toList] =
        some (plainLogger.finish.foldl record b.toString) ∧
      plainLogger.finish.foldl record b.toString = b.toString ++ plainLogger.suffix := by
  have hok : ∀ i ∈ plainLogger.header ++ [Insert.string "ok".toList], i.Ok := by
    intro i hi
    rcases List.mem_append.mp hi with h | h
    · exact plain_header_ok i h
    · rw [List.mem_singleton.mp h]
      show "ok".toList.length < 2 ^ 31
      decide
  obtain ⟨b, room, hb, hholds⟩ :=
    insertAll_record (holds_self (.new (List.replicate 4096 nul) List.length_replicate)) hok
  have htext : (plainLogger.header ++ [Insert.string "ok".toList]).foldl record [] = plainStart ++ "ok".toList := by
    rw [List.foldl_append, plain_start]
    rfl
  obtain ⟨hout, hsuffix⟩ := record_terminated plainLogger _ List.length_replicate _ b hb
  have hstart : b.toString = plainStart ++ "ok".toList := hholds.toString.trans htext
  refine ⟨b, hstart, hout, hsuffix.mpr ?_⟩
  rw [hholds.avail_eq]
  decide

/-- **A full buffer cuts the record**: then it does not end with a new line. -/
theorem record_cut :
    ¬ ∀ (l : Logger) (data : Text) (size : data.length = 4096) (user : List Insert) (out : Text),
      (∀ i ∈ user, i.Ok) → l.output data size user = some out → l.suffix <:+ out := by
  intro hall
  -- the message fills what the header has left
  have hlen : plainStart.length = 45 := by decide
  set message : Text := List.replicate 4051 'a' with hmessage
  have hsize : message.length = 4051 := List.length_replicate
  have hmessage_ok : ∀ i ∈ [Insert.string message], i.Ok := by
    intro i hi
    rw [List.mem_singleton.mp hi]
    show message.length < 2 ^ 31
    rw [hsize]
    decide
  have hok : ∀ i ∈ plainLogger.header ++ [Insert.string message] ++ plainLogger.finish, i.Ok := by
    intro i hi
    rcases List.mem_append.mp hi with h | h
    · rcases List.mem_append.mp h with h' | h'
      · exact plain_header_ok i h'
      · exact hmessage_ok i h'
    · exact finish_ok plainLogger i h
  obtain ⟨b, room, hb, hholds⟩ :=
    insertAll_record (holds_self (.new (List.replicate 4096 nul) List.length_replicate)) hok
  have hfits : (Insert.string message).Fits (4096 - plainStart.length) := by
    show message.length ≤ 4096 - plainStart.length
    rw [hsize, hlen]
  have hfull : (plainStart ++ message).length = 4096 := by rw [List.length_append, hsize, hlen]
  have hnone : ∀ i ∈ plainLogger.finish, ¬ i.Fits 0 := by
    intro i hi
    simp only [Logger.finish, List.mem_cons, List.not_mem_nil, or_false] at hi
    rcases hi with rfl | rfl | rfl | rfl | rfl <;> decide
  have htext : (plainLogger.header ++ [Insert.string message] ++ plainLogger.finish).foldl record [] =
      plainStart ++ message := by
    rw [List.foldl_append, List.foldl_append, plain_start, List.foldl_cons, List.foldl_nil, record, if_pos hfits]
    exact foldl_record_full hfull hnone
  have hout : plainLogger.output (List.replicate 4096 nul) List.length_replicate [.string message] =
      some (plainStart ++ message) := by
    rw [Logger.output, hb, Option.map_some, hholds.toString]
    exact congrArg some htext
  obtain ⟨rest, hrest⟩ := hall plainLogger _ List.length_replicate _ _ hmessage_ok hout
  have hlast := congrArg List.getLast? hrest
  have hnewline : (rest ++ plainLogger.suffix).getLast? = some '\n' := by
    rw [Logger.suffix, ← List.append_assoc, List.getLast?_concat]
  have ha : (plainStart ++ message).getLast? = some 'a' := by
    rw [hmessage, List.replicate_succ', ← List.append_assoc, List.getLast?_concat]
  rw [hnewline, ha, Option.some.injEq] at hlast
  exact absurd hlast (by decide)

end KwNet.LogStream
