import KwNet.Lib.Cells
import KwNet.Lib.Count

/-!
# `EventloopThreadPool`

The pool of io loops: `start` makes `threadNum` threads, each with a loop of its own, and `getNextLoop` goes
round the loops.

* `Pool.getNextLoop`, `Pool.getNextLoops` — one call and a run of calls, with the conversions between `int` and
  `size_t`;
* **`spread_round_robin`** — every window of a run returns each loop equally often, up to one call;
* `Pool.start`, `startThreads` — the thread names go through `char buf[16]`, whose cells begin without a value;
* **`threads_named`** — they are written and read back in bounds exactly if there is no thread or no name.
-/

namespace KwNet.EventloopThreadPool

open KwNet.Lib

/-- `EventloopThreadPool`; a thread stands for its name. -/
structure Pool (Loop : Type) where
  baseLoop : Loop
  started : Bool
  threadName : List Char
  threadNum : ℤ
  next : ℤ
  threads : List (List Char)
  loops : List Loop

variable {Loop : Type}

/-- The constructor. -/
def Pool.ctor (baseLoop : Loop) (threadName : List Char) : Pool Loop where
  baseLoop := baseLoop
  started := false
  threadName := threadName
  threadNum := -1
  next := 0
  threads := []
  loops := []

def Pool.setThreadNum (p : Pool Loop) (n : ℤ) : Pool Loop := { p with threadNum := n }

/-- What `start` leaves, given the names of the threads; the `i`-th thread runs the loop `startLoop i`. -/
def Pool.startLoops (p : Pool Loop) (names : List (List Char)) (startLoop : ℕ → Loop) : Pool Loop :=
  { p with
    threads := p.threads ++ names
    loops := p.loops ++ (List.range p.threadNum.toNat).map startLoop
    started := true }

/-! ### The next loop -/

/-- `next++; next %= loops.size();`.  An `int` must not overflow; the remainder is one of `size_t`s. -/
def advance (next : ℤ) (size : ℕ) : Option ℤ :=
  if next + 1 < 2 ^ 31 then some (((((next + 1) % 2 ^ 64).toNat % size : ℕ) : ℤ).bmod (2 ^ 32)) else none

/-- `getNextLoop`, with its assertion. -/
def Pool.getNextLoop (p : Pool Loop) : Option (Loop × Pool Loop) :=
  if p.started then
    if p.loops.isEmpty then some (p.baseLoop, p)
    else
      (advance p.next p.loops.length).bind fun next =>
        p.loops[(next % 2 ^ 64).toNat]?.map fun loop => (loop, { p with next := next })
  else none

/-- `m` calls of `getNextLoop`. -/
def Pool.getNextLoops : ℕ → Pool Loop → Option (List Loop × Pool Loop)
  | 0, p => some ([], p)
  | m + 1, p =>
    p.getNextLoop.bind fun first =>
      (Pool.getNextLoops m first.2).map fun rest => (first.1 :: rest.1, rest.2)

/-- A started pool: `next` is the index `i` of a loop. -/
structure Pool.Ready (p : Pool Loop) (i : ℕ) : Prop where
  started : p.started = true
  small : p.loops.length < 2 ^ 31
  next : p.next = i
  index : p.loops ≠ [] → i < p.loops.length

theorem advance_eq {next size : ℕ} (hsize : size < 2 ^ 31) (h : next < size) :
    advance next size = some (((next + 1) % size : ℕ) : ℤ) := by
  have hmod : (next + 1) % size < size := Nat.mod_lt _ (Nat.zero_lt_of_lt h)
  have hcast : (((next : ℤ) + 1) % 2 ^ 64).toNat = next + 1 := by omega
  rw [advance, if_pos (by omega), hcast, Int.bmod_eq_of_le (by omega) (by omega)]

/-- One call. -/
theorem getNextLoop_ready {p : Pool Loop} {next : ℕ} (h : p.Ready next) (hne : p.loops ≠ []) :
    ∃ loop, p.loops[(next + 1) % p.loops.length]? = some loop ∧
      p.getNextLoop = some (loop, { p with next := ((next + 1) % p.loops.length : ℕ) }) ∧
      Pool.Ready { p with next := ((next + 1) % p.loops.length : ℕ) } ((next + 1) % p.loops.length) := by
  have hpos : 0 < p.loops.length := List.length_pos_iff.mpr hne
  have hlt : (next + 1) % p.loops.length < p.loops.length := Nat.mod_lt _ hpos
  have hempty : p.loops.isEmpty = false := by
    rw [List.isEmpty_eq_false_iff]
    exact hne
  have hsmall := h.small
  have hindex : (((((next + 1) % p.loops.length : ℕ) : ℤ) % 2 ^ 64).toNat) = (next + 1) % p.loops.length := by omega
  refine ⟨p.loops[(next + 1) % p.loops.length], List.getElem?_eq_getElem hlt, ?_, ?_⟩
  · rw [Pool.getNextLoop, if_pos h.started, hempty, if_neg Bool.false_ne_true, h.next,
      advance_eq h.small (h.index hne), Option.bind_some, hindex, List.getElem?_eq_getElem hlt, Option.map_some]
  · exact ⟨h.started, h.small, rfl, fun _ => hlt⟩

/-- **A run of calls** goes round the loops. -/
theorem getNextLoops_ready {p : Pool Loop} {next : ℕ} (h : p.Ready next) (hne : p.loops ≠ []) (m : ℕ) :
    ∃ loops q, p.getNextLoops m = some (loops, q) ∧ q.loops = p.loops ∧
      q.Ready ((next + m) % p.loops.length) ∧ loops.length = m ∧
      ∀ j < m, loops[j]? = p.loops[(next + 1 + j) % p.loops.length]? := by
  induction m generalizing p next with
  | zero =>
    refine ⟨[], p, rfl, rfl, ?_, rfl, fun j hj => absurd hj (Nat.not_lt_zero j)⟩
    rw [Nat.add_zero, Nat.mod_eq_of_lt (h.index hne)]
    exact h
  | succ m ih =>
    obtain ⟨loop, hloop, hcall, hready⟩ := getNextLoop_ready h hne
    obtain ⟨loops, q, hrun, hsame, hq, hlen, hall⟩ := ih hready hne
    refine ⟨loop :: loops, q, ?_, hsame, ?_, by rw [List.length_cons, hlen], fun j hj => ?_⟩
    · rw [Pool.getNextLoops, hcall, Option.bind_some, hrun, Option.map_some]
    · have hmod : ((next + 1) % p.loops.length + m) % p.loops.length = (next + (m + 1)) % p.loops.length := by
        rw [Nat.mod_add_mod, Nat.add_assoc, Nat.add_comm 1]
      rw [← hmod]
      exact hq
    · cases j with
      | zero =>
        rw [List.getElem?_cons_zero, Nat.add_zero]
        exact hloop.symm
      | succ j =>
        have hnext := hall j (Nat.lt_of_succ_lt_succ hj)
        have hmod : ((next + 1) % p.loops.length + 1 + j) % p.loops.length = (next + 1 + (j + 1)) % p.loops.length := by
          rw [Nat.add_assoc, Nat.mod_add_mod, Nat.add_comm 1 j]
        rw [List.getElem?_cons_succ, hnext]
        exact congrArg (fun i => p.loops[i]?) hmod

/-- Without loops every call returns `baseLoop`. -/
theorem getNextLoops_base {p : Pool Loop} (hstarted : p.started = true) (hnil : p.loops = []) (m : ℕ) :
    p.getNextLoops m = some (List.replicate m p.baseLoop, p) := by
  have hcall : p.getNextLoop = some (p.baseLoop, p) := by
    rw [Pool.getNextLoop, if_pos hstarted, hnil, if_pos List.isEmpty_nil]
  induction m with
  | zero => rfl
  | succ m ih =>
    rw [Pool.getNextLoops, hcall, Option.bind_some, ih, Option.map_some]
    rfl

/-- The list of `f j` for the numbers `j` of a window, counted at the value `f` has on one residue. -/
theorem count_window [DecidableEq Loop] {loops : List Loop} (hnodup : loops.Nodup) {xs : List Loop} {m n a : ℕ}
    (hm : a + m ≤ xs.length) (hall : ∀ j < xs.length, xs[j]? = loops[(n + j) % loops.length]?) {i : ℕ}
    (hi : i < loops.length) :
    ((xs.drop a).take m).count loops[i] = Nat.count (fun j => (n + a + j) % loops.length = i) m := by
  have hwindow : (xs.drop a).take m = (List.range m).map fun j =>
      loops.get ⟨(n + a + j) % loops.length, Nat.mod_lt _ (Nat.zero_lt_of_lt hi)⟩ := by
    apply List.ext_getElem?
    intro j
    by_cases hj : j < m
    · rw [List.getElem?_take_of_lt hj, List.getElem?_drop, hall (a + j) (by omega), List.getElem?_map,
        List.getElem?_range hj, Option.map_some, ← Nat.add_assoc, List.getElem?_eq_getElem]
      rfl
    · rw [List.getElem?_eq_none (by rw [List.length_take]; omega),
        List.getElem?_eq_none (by rw [List.length_map, List.length_range]; omega)]
  rw [hwindow, List.count_eq_countP, List.countP_map]
  refine List.countP_congr fun j _ => ?_
  rw [Function.comp_apply, beq_iff_eq, decide_eq_true_eq]
  exact hnodup.getElem_inj_iff

/-- **Connections are spread round-robin.**  For every pool and any number of threads, each with a loop of its
own: any number of calls of `getNextLoop` returns; where there are loops, the index stays below their number and
among any `m` consecutive calls every loop is returned `m / n` times, rounded down or up, hence once for `m = n`;
without loops every call returns `baseLoop`. -/
theorem spread_round_robin [DecidableEq Loop] (baseLoop : Loop) (threadName : List Char) (threadNum : ℤ)
    (hint : threadNum < 2 ^ 31) (names : List (List Char)) (startLoop : ℕ → Loop)
    (hown : Function.Injective startLoop) (k : ℕ) :
    ∃ loops q, (((Pool.ctor baseLoop threadName).setThreadNum threadNum).startLoops names startLoop).getNextLoops k =
        some (loops, q) ∧ loops.length = k ∧
      q.loops = (List.range threadNum.toNat).map startLoop ∧
      (q.loops ≠ [] → 0 ≤ q.next ∧ q.next < q.loops.length) ∧
      (∀ a m, a + m ≤ k → ∀ loop ∈ q.loops,
        m / q.loops.length ≤ ((loops.drop a).take m).count loop ∧
          ((loops.drop a).take m).count loop ≤ (m + q.loops.length - 1) / q.loops.length) ∧
      (∀ a, a + q.loops.length ≤ k → ∀ loop ∈ q.loops, ((loops.drop a).take q.loops.length).count loop = 1) ∧
      (q.loops = [] → loops = List.replicate k baseLoop) := by
  let p := ((Pool.ctor baseLoop threadName).setThreadNum threadNum).startLoops names startLoop
  have hloops : p.loops = (List.range threadNum.toNat).map startLoop := List.nil_append _
  by_cases hne : p.loops = []
  · refine ⟨List.replicate k baseLoop, p, getNextLoops_base rfl hne k, List.length_replicate, hloops,
      fun h => absurd hne h, fun a m _ loop hloop => ?_, fun a _ loop hloop => ?_, fun _ => rfl⟩
    all_goals
      rw [hne] at hloop
      exact absurd hloop List.not_mem_nil
  · have hlen : p.loops.length = threadNum.toNat := by rw [hloops, List.length_map, List.length_range]
    have hready : p.Ready 0 := ⟨rfl, by omega, rfl, fun _ => List.length_pos_iff.mpr hne⟩
    have hnodup : p.loops.Nodup := by
      rw [hloops]
      exact List.Nodup.map hown List.nodup_range
    obtain ⟨loops, q, hrun, hsame, hq, hk, hall⟩ := getNextLoops_ready hready hne k
    have hspread : ∀ a m, a + m ≤ k → ∀ loop ∈ q.loops,
        m / q.loops.length ≤ ((loops.drop a).take m).count loop ∧
          ((loops.drop a).take m).count loop ≤ (m + q.loops.length - 1) / q.loops.length := by
      intro a m ham loop hloop
      rw [hsame] at hloop ⊢
      obtain ⟨i, hi, rfl⟩ := List.mem_iff_getElem.mp hloop
      rw [count_window hnodup (hk ▸ ham) (fun j hj => hall j (hk ▸ hj)) hi]
      exact count_residue hi _ m
    refine ⟨loops, q, hrun, hk, hsame.trans hloops, fun _ => ?_, hspread, fun a ha loop hloop => ?_,
      fun h => absurd (hsame ▸ h) hne⟩
    · have hindex := hq.index (hsame ▸ hne)
      rw [hq.next]
      omega
    · have hpos : 0 < q.loops.length := List.length_pos_of_mem hloop
      have hone := hspread a q.loops.length ha loop hloop
      have hup : (q.loops.length + q.loops.length - 1) / q.loops.length = 1 := by
        rw [Nat.div_eq_iff hpos]
        omega
      rw [Nat.div_self hpos, hup] at hone
      omega

/-- Two loops, three calls. -/
theorem spread_round_robin_two :
    ∃ loops q, (((Pool.ctor 9 []).setThreadNum 2).startLoops [] id).getNextLoops 3 = some (loops, q) ∧
      loops.length = 3 ∧ q.loops = (List.range (2 : ℤ).toNat).map id ∧
      (q.loops ≠ [] → 0 ≤ q.next ∧ q.next < q.loops.length) ∧
      (∀ a m, a + m ≤ 3 → ∀ loop ∈ q.loops,
        m / q.loops.length ≤ ((loops.drop a).take m).count loop ∧
          ((loops.drop a).take m).count loop ≤ (m + q.loops.length - 1) / q.loops.length) ∧
      (∀ a, a + q.loops.length ≤ 3 → ∀ loop ∈ q.loops, ((loops.drop a).take q.loops.length).count loop = 1) ∧
      (q.loops = [] → loops = List.replicate 3 9) :=
  spread_round_robin 9 [] 2 (by decide) [] id Function.injective_id 3

/-! ### The names of the threads -/

/-- How `start` goes wrong. -/
inductive Fault where
  /-- `assert(!started)`. -/
  | assertFailed
  /-- An access outside `buf`. -/
  | outOfBounds
  /-- A cell of `buf` that has no value is read. -/
  | uninitialised
  deriving DecidableEq, Repr

def nul : Char := Char.ofNat 0

/-- `snprintf(buf + at_, sizeof(buf) - at_, "%d", i)`. -/
def snprintf (buf : List (Option Char)) (at_ i : ℕ) : Except Fault (List (Option Char)) :=
  if buf.length < at_ then .error .outOfBounds
  else if buf.length - at_ = 0 then .ok buf
  else
    match storeAll buf at_ (((Nat.toDigits 10 i).take (buf.length - at_ - 1) ++ [nul]).map some) with
    | some buf => .ok buf
    | none => .error .outOfBounds

/-- The C string that begins at the first cell. -/
def readString : List (Option Char) → Except Fault (List Char)
  | [] => .error .outOfBounds
  | none :: _ => .error .uninitialised
  | some c :: cells => if c = nul then .ok [] else (readString cells).map fun s => c :: s

/-- The loop of `start`, from thread `i` on: the names `threadName + buf`. -/
def startThreads (threadName : List Char) : ℕ → ℕ → List (Option Char) → Except Fault (List (List Char))
  | 0, _, _ => .ok []
  | n + 1, i, buf =>
    (snprintf buf threadName.length i).bind fun buf =>
      (readString buf).bind fun s =>
        (startThreads threadName n (i + 1) buf).map fun names => (threadName ++ s) :: names

/-- `char buf[16]`. -/
def freshBuf : List (Option Char) := List.replicate 16 none

/-- `start`; `cb` says whether the callback is set.  The second component says that it is called with
`baseLoop`. -/
def Pool.start (p : Pool Loop) (cb : Bool) (startLoop : ℕ → Loop) : Except Fault (Pool Loop × Bool) :=
  if p.started then .error .assertFailed
  else
    (startThreads p.threadName p.threadNum.toNat 0 freshBuf).map fun names =>
      (p.startLoops names startLoop, p.threadNum = 0 && cb)

/-- A numeral, written at the beginning of the buffer and read back. -/
theorem snprintf_read {buf : List (Option Char)} (hbuf : buf.length = 16) {i : ℕ} (hi : i < 2 ^ 31) :
    ∃ buf', snprintf buf 0 i = .ok buf' ∧ buf'.length = 16 ∧ readString buf' = .ok (Nat.toDigits 10 i) := by
  have hlen : (Nat.toDigits 10 i).length ≤ 10 :=
    (Nat.length_toDigits_le_iff (by decide) (by decide)).mpr (by omega)
  have htake : (Nat.toDigits 10 i).take (buf.length - 0 - 1) = Nat.toDigits 10 i :=
    List.take_of_length_le (by omega)
  have hstore := storeAll_room [] buf ((Nat.toDigits 10 i ++ [nul]).map some) (by
    rw [List.length_map, List.length_append, List.length_singleton]
    omega)
  rw [List.nil_append, List.nil_append, List.length_nil] at hstore
  have hread : ∀ (s : List Char) (cells : List (Option Char)), nul ∉ s →
      readString ((s ++ [nul]).map some ++ cells) = .ok s := by
    intro s cells
    induction s with
    | nil => exact fun _ => if_pos rfl
    | cons c s ih =>
      intro hs
      obtain ⟨hc, hrest⟩ := List.ne_and_not_mem_of_not_mem_cons hs
      show (if c = nul then _ else (readString ((s ++ [nul]).map some ++ cells)).map _) = _
      rw [if_neg (Ne.symm hc), ih hrest]
      rfl
  have hdigits : nul ∉ Nat.toDigits 10 i := by
    intro hmem
    have hdigit := Nat.isDigit_of_mem_toDigits (by decide) (by decide) hmem
    exact absurd hdigit (by decide)
  refine ⟨_, ?_, ?_, hread _ (buf.drop ((Nat.toDigits 10 i ++ [nul]).map some).length) hdigits⟩
  · rw [snprintf, if_neg (by omega), if_neg (by omega), htake, hstore]
  · simp only [List.length_append, List.length_map, List.length_singleton, List.length_drop]
    omega

/-- **Without a name** every thread gets its numeral. -/
theorem startThreads_nil (n i : ℕ) {buf : List (Option Char)} (hbuf : buf.length = 16) (hint : i + n ≤ 2 ^ 31) :
    startThreads [] n i buf = .ok ((List.range' i n).map fun j => Nat.toDigits 10 j) := by
  induction n generalizing i buf with
  | zero => rfl
  | succ n ih =>
    obtain ⟨buf', hwrite, hlen, hread⟩ := snprintf_read hbuf (i := i) (by omega)
    show (snprintf buf 0 i).bind _ = _
    rw [hwrite]
    show (readString buf').bind _ = _
    rw [hread]
    show (startThreads [] n (i + 1) buf').map _ = _
    rw [ih (i + 1) hlen (by omega)]
    rfl

/-- With a name the first cell is never written. -/
theorem startThreads_cons (c : Char) (name : List Char) (n i : ℕ) :
    ∃ fault, startThreads (c :: name) (n + 1) i freshBuf = .error fault := by
  have hlength : freshBuf.length = 16 := List.length_replicate
  show ∃ fault, (snprintf freshBuf (name.length + 1) i).bind _ = _
  rw [snprintf, hlength]
  by_cases hbig : 16 < name.length + 1
  · rw [if_pos hbig]
    exact ⟨_, rfl⟩
  by_cases hfull : 16 - (name.length + 1) = 0
  · rw [if_neg hbig, if_pos hfull]
    exact ⟨_, rfl⟩
  · have hsplit : freshBuf = List.replicate (name.length + 1) none ++ List.replicate (16 - (name.length + 1)) none := by
      rw [List.replicate_append_replicate, freshBuf]
      congr 1
      omega
    have hstore := storeAll_room (List.replicate (name.length + 1) (none : Option Char))
      (List.replicate (16 - (name.length + 1)) none)
      (((Nat.toDigits 10 i).take (16 - (name.length + 1) - 1) ++ [nul]).map some) (by
        rw [List.length_map, List.length_append, List.length_take, List.length_singleton, List.length_replicate]
        omega)
    rw [List.length_replicate, ← hsplit] at hstore
    rw [if_neg hbig, if_neg hfull, hstore]
    exact ⟨_, rfl⟩

theorem start_eq (baseLoop : Loop) (threadName : List Char) (threadNum : ℤ) (cb : Bool) (startLoop : ℕ → Loop) :
    ((Pool.ctor baseLoop threadName).setThreadNum threadNum).start cb startLoop =
      (startThreads threadName threadNum.toNat 0 freshBuf).map fun names =>
        (((Pool.ctor baseLoop threadName).setThreadNum threadNum).startLoops names startLoop, threadNum = 0 && cb) :=
  if_neg Bool.false_ne_true

/-- **When the threads get their names.**  For every name and every number of threads, started with or without
a callback: `start` writes and reads its buffer in bounds, never before it is written, and names the `i`-th
thread with `threadName` and the decimal numeral of `i`, exactly if there is no thread or the name is empty. -/
theorem threads_named (baseLoop : Loop) (threadName : List Char) (threadNum : ℤ) (h0 : 0 ≤ threadNum)
    (hint : threadNum < 2 ^ 31) (cb : Bool) (startLoop : ℕ → Loop) :
    (∃ r, ((Pool.ctor baseLoop threadName).setThreadNum threadNum).start cb startLoop = .ok r ∧
        r.1.threads = (List.range threadNum.toNat).map fun i => threadName ++ Nat.toDigits 10 i) ↔
      threadNum = 0 ∨ threadName = [] := by
  rw [start_eq]
  constructor
  · intro hok
    obtain ⟨r, hr, -⟩ := hok
    by_contra hno
    obtain ⟨hnum, hname⟩ := not_or.mp hno
    obtain ⟨c, name, hcons⟩ := List.exists_cons_of_ne_nil hname
    obtain ⟨n, hn⟩ := Nat.exists_eq_succ_of_ne_zero (show threadNum.toNat ≠ 0 by omega)
    obtain ⟨fault, hfault⟩ := startThreads_cons c name n 0
    rw [hcons, hn, hfault] at hr
    cases hr
  · intro hcase
    obtain hzero | hnil := hcase
    · rw [hzero]
      exact ⟨_, rfl, rfl⟩
    · have hfresh : freshBuf.length = 16 := List.length_replicate
      rw [hnil, startThreads_nil threadNum.toNat 0 hfresh (by omega), ← List.range_eq_range']
      exact ⟨_, rfl, rfl⟩

/-- Two threads without a name. -/
theorem threads_named_two :
    ∃ r, ((Pool.ctor () []).setThreadNum 2).start false (fun _ => ()) = .ok r ∧
      r.1.threads = (List.range (2 : ℤ).toNat).map fun i => [] ++ Nat.toDigits 10 i :=
  (threads_named () [] 2 (by decide) (by decide) false fun _ => ()).mpr (.inr rfl)

/-- The echo server's pool has a name. -/
theorem named_pool_reads_uninitialised :
    ¬ ∀ (threadName : List Char) (threadNum : ℤ), 0 ≤ threadNum → threadNum < 2 ^ 31 →
      ∃ r, ((Pool.ctor () threadName).setThreadNum threadNum).start false (fun _ => ()) = .ok r ∧
        r.1.threads = (List.range threadNum.toNat).map fun i => threadName ++ Nat.toDigits 10 i := by
  intro hall
  obtain ⟨r, hr, -⟩ := hall ['e', 'c', 'h', 'o'] 1 (by decide) (by decide)
  obtain ⟨fault, hfault⟩ := startThreads_cons 'e' ['c', 'h', 'o'] 0 0
  have hone : (1 : ℤ).toNat = 0 + 1 := rfl
  rw [start_eq, hone, hfault] at hr
  cases hr

end KwNet.EventloopThreadPool
