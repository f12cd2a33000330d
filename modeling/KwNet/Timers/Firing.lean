import KwNet.Lib.Bounded
import KwNet.Timers.Content

/-!
# The firing loop of `handle_timers`

From the reading of the clock to `reset`, over callbacks that leave the queue alone.

* `firing` is that loop: the steps of `handle_timers` and of its callbacks, stopped before `reset`;
* `Swept` says what the buckets erased so far have run, `Midway` where the loop stands between two of them;
* **`fires_what_is_due`** — the loop ends, having run what was due, bucket by bucket, and collected what
  repeats.
-/

namespace KwNet.Timers

open KwNet.Lib

variable {κ : Type} (clock : ℕ → ℕ)

/-- The action is no call of the queue. -/
def Action.quiet : Action κ → Bool
  | .fire _ => true
  | .ret => true
  | .step => true
  | _ => false

/-- The loop is over. -/
def Pc.over : Pc κ → Bool
  | .reset _ => true
  | _ => false

/-- A step of the firing loop. -/
def firing [DecidableEq κ] (t : State κ) (a : Action κ) : Option (State κ) :=
  if a.quiet ∧ t.pc.over = false then step clock t a else none

/-- The steps that are left for the buckets `es`: one to look at the first of them, and for each that is due
one to come to its end and two for each of its timers. -/
def sweepWork (now : ℕ) : List (ℕ × Bucket κ) → ℕ
  | [] => 1
  | e :: es => if e.1 ≤ now then 2 * e.2.length + 2 + sweepWork now es else 1

/-- The steps of the loop that are left. -/
def State.firingWork (now : ℕ) (t : State κ) : ℕ :=
  match t.pc with
  | .loop _ => sweepWork now t.activeTimers.entries
  | .firing _ _ ts => 2 * ts.length + 1 + sweepWork now t.activeTimers.entries.tail
  | .callback _ _ _ ts => 2 * ts.length + 2 + sweepWork now t.activeTimers.entries.tail
  | _ => 0

/-- The timers of `ids` that repeat. -/
def State.repeating (s : State κ) (ids : List κ) : List κ := ids.filter fun id => (s.timer id).shouldRepeat

/-- The pass that began in `s` has erased the buckets `pre`, with `post` still to come, and has run `ran`: for
each of them its timers, each once, in some order. -/
structure Swept (s : State κ) (now : ℕ) (pre post : List (ℕ × Bucket κ)) (ran : List κ) : Prop where
  split : s.activeTimers.entries = pre ++ post
  due : ∀ e ∈ pre, e.1 ≤ now
  order : ∃ rs : List (List κ), List.Forall₂ (fun e r => r.Perm (e.2.map Prod.fst)) pre rs ∧ ran = rs.flatten

/-- The loop stands in the bucket `b` of `key`: it has run `r` of it and has `ts` left. -/
structure Within (s t : State κ) (now key : ℕ) (pre post : List (ℕ × Bucket κ)) (b ts : Bucket κ)
    (ran r : List κ) : Prop where
  entries : t.activeTimers.entries = (key, b) :: post
  swept : Swept s now pre ((key, b) :: post) ran
  perm : (r ++ ts.map Prod.fst).Perm (b.map Prod.fst)
  due : key ≤ now

/-- Where the loop that began in `s` at `now` stands. -/
def Midway (s : State κ) (now : ℕ) (t : State κ) : Prop :=
  match t.pc with
  | .idle => False
  | .loop now' => now' = now ∧ t.activeTimers.entries ≠ [] ∧
      (∃ pre, Swept s now pre t.activeTimers.entries t.passRan) ∧ t.triggeredTimers = s.repeating t.passRan
  | .firing now' key ts => now' = now ∧ ∃ pre post b ran r, Within s t now key pre post b ts ran r ∧
      t.passRan = ran ++ r ∧ t.triggeredTimers = s.repeating (ran ++ r)
  | .callback now' key id ts => now' = now ∧ ∃ pre post b ran r, Within s t now key pre post b ts ran (r ++ [id]) ∧
      t.passRan = ran ++ (r ++ [id]) ∧ t.triggeredTimers = s.repeating (ran ++ r)
  | .reset now' => now' = now ∧ (∀ e ∈ t.activeTimers.entries, now < e.1) ∧
      (∃ pre, Swept s now pre t.activeTimers.entries t.passRan) ∧ t.triggeredTimers = s.repeating t.passRan

/-- What the loop has done when it is over. -/
structure Fired (s : State κ) (now : ℕ) (t : State κ) : Prop where
  pc : t.pc = .reset now
  /-- Each timer of each due bucket, once, and no other. -/
  ran : t.passRan.Perm (s.dueAt now)
  /-- Bucket after bucket, by increasing key. -/
  order : ∃ rs : List (List κ), t.passRan = rs.flatten ∧
    List.Forall₂ (fun e r => r.Perm (e.2.map Prod.fst)) (s.activeTimers.entries.filter fun e => e.1 ≤ now) rs
  /-- The other buckets are as they were. -/
  left : t.activeTimers.entries = s.activeTimers.entries.filter fun e => now < e.1
  triggered : t.triggeredTimers = s.repeating t.passRan
  timer : t.timer = s.timer

variable {clock} {s t t' : State κ} {now key : ℕ} {id : κ}

/-! ### Lists -/

theorem Swept.extend {pre post : List (ℕ × Bucket κ)} {b : Bucket κ} {ran r : List κ}
    (hS : Swept s now pre ((key, b) :: post) ran) (hdue : key ≤ now) (hr : r.Perm (b.map Prod.fst)) :
    Swept s now (pre ++ [(key, b)]) post (ran ++ r) where
  split := by rw [hS.split, List.append_assoc, List.singleton_append]
  due := by
    intro e he
    rcases List.mem_append.mp he with he | he
    · exact hS.due e he
    · rw [List.mem_singleton.mp he]
      exact hdue
  order := by
    obtain ⟨rs, hrs, heq⟩ := hS.order
    refine ⟨rs ++ [r], List.rel_append hrs (.cons hr .nil), ?_⟩
    rw [heq, List.flatten_append, List.flatten_singleton]

/-- Taking one timer out of what is left of a bucket. -/
theorem perm_take [DecidableEq κ] {ts : Bucket κ} (hnodup : (ts.map Prod.fst).Nodup) (hid : id ∈ ts.map Prod.fst) :
    (id :: (ts.filter fun e => e.1 ≠ id).map Prod.fst).Perm (ts.map Prod.fst) := by
  have herase : (ts.map Prod.fst).erase id = (ts.filter fun e => e.1 ≠ id).map Prod.fst := by
    rw [hnodup.erase_eq_filter, List.filter_map]
    refine congrArg _ (List.filter_congr fun e _ => ?_)
    by_cases he : e.1 = id <;> simp [he]
  rw [← herase]
  exact (List.perm_cons_erase hid).symm

theorem repeating_concat (ids : List κ) :
    s.repeating (ids ++ [id]) = if (s.timer id).shouldRepeat then s.repeating ids ++ [id] else s.repeating ids := by
  unfold State.repeating
  rw [List.filter_append, List.filter_singleton]
  by_cases h : (s.timer id).shouldRepeat = true <;> simp [h]

theorem filter_swept {pre post : List (ℕ × Bucket κ)} (hpre : ∀ e ∈ pre, e.1 ≤ now)
    (hpost : ∀ e ∈ post, now < e.1) (hsplit : s.activeTimers.entries = pre ++ post) :
    s.activeTimers.entries.filter (fun e => e.1 ≤ now) = pre ∧
      s.activeTimers.entries.filter (fun e => now < e.1) = post := by
  rw [hsplit, List.filter_append, List.filter_append]
  have h₁ : pre.filter (fun e => decide (e.1 ≤ now)) = pre :=
    List.filter_eq_self.mpr fun e he => decide_eq_true (hpre e he)
  have h₂ : post.filter (fun e => decide (e.1 ≤ now)) = [] :=
    List.filter_eq_nil_iff.mpr fun e he => by simpa using hpost e he
  have h₃ : pre.filter (fun e => decide (now < e.1)) = [] :=
    List.filter_eq_nil_iff.mpr fun e he => by simpa using hpre e he
  have h₄ : post.filter (fun e => decide (now < e.1)) = post :=
    List.filter_eq_self.mpr fun e he => decide_eq_true (hpost e he)
  rw [h₁, h₂, h₃, h₄, List.append_nil, List.nil_append]
  exact ⟨rfl, rfl⟩

theorem perm_flatten {es : List (ℕ × Bucket κ)} {rs : List (List κ)}
    (h : List.Forall₂ (fun e r => r.Perm (e.2.map Prod.fst)) es rs) :
    rs.flatten.Perm (es.flatMap fun e => e.2.map Prod.fst) := by
  induction h with
  | nil => exact .refl _
  | cons hr _ ih =>
    rw [List.flatten_cons, List.flatMap_cons]
    exact hr.append ih

/-! ### The steps -/

theorem Midway.handle (hne : s.activeTimers.isEmpty = false) : Midway s (clock s.reads) (s.handleTimers clock) := by
  refine ⟨rfl, fun hnil => ?_, ⟨[], rfl, List.forall_mem_nil _, [], .nil, rfl⟩, rfl⟩
  have hempty : s.activeTimers.isEmpty = true := List.isEmpty_iff.mpr hnil
  rw [hne] at hempty
  cases hempty

/-- The loop reads a due bucket. -/
theorem Midway.bucket {e : ℕ × Bucket κ} {es : List (ℕ × Bucket κ)} (hM : Midway s now t) (hpc : t.pc = .loop now)
    (hentries : t.activeTimers.entries = e :: es) (hdue : e.1 ≤ now) :
    Midway s now { t with pc := .firing now e.1 e.2 } := by
  unfold Midway at hM
  rw [hpc] at hM
  obtain ⟨-, -, ⟨pre, hS⟩, htriggered⟩ := hM
  rw [hentries] at hS
  refine ⟨rfl, pre, es, e.2, t.passRan, [], ⟨hentries, hS, .refl _, hdue⟩, (List.append_nil _).symm, ?_⟩
  rw [List.append_nil]
  exact htriggered

/-- The loop finds no due bucket. -/
theorem Midway.leave {e : ℕ × Bucket κ} {es : List (ℕ × Bucket κ)} (hM : Midway s now t) (hpc : t.pc = .loop now)
    (hentries : t.activeTimers.entries = e :: es) (hlt : now < e.1) : Midway s now { t with pc := .reset now } := by
  unfold Midway at hM
  rw [hpc] at hM
  obtain ⟨-, -, hS, htriggered⟩ := hM
  refine ⟨rfl, fun x hx => ?_, hS, htriggered⟩
  have hsorted := t.activeTimers.sorted
  have hx' : x ∈ t.activeTimers.entries := hx
  rw [hentries] at hsorted hx'
  rcases List.mem_cons.mp hx' with rfl | hx'
  · exact hlt
  · exact hlt.trans ((List.pairwise_cons.mp hsorted).1 x hx')

/-- The loop comes to the next timer of the bucket. -/
theorem Midway.fire [DecidableEq κ] {ts : Bucket κ} (hbuckets : ∀ e ∈ s.activeTimers.entries, (e.2.map Prod.fst).Nodup)
    (hM : Midway s now t) (hpc : t.pc = .firing now key ts) (hid : id ∈ ts.map Prod.fst) :
    Midway s now { t with
      pc := .callback now key id (ts.filter fun e => e.1 ≠ id)
      log := t.log ++ [.ran id]
      passRan := t.passRan ++ [id] } := by
  unfold Midway at hM
  rw [hpc] at hM
  obtain ⟨-, pre, post, b, ran, r, hW, hran, htriggered⟩ := hM
  have hb : (key, b) ∈ s.activeTimers.entries := by
    rw [hW.swept.split]
    exact List.mem_append_right _ List.mem_cons_self
  have hnodup : (r ++ ts.map Prod.fst).Nodup := hW.perm.nodup_iff.mpr (hbuckets _ hb)
  have htake := perm_take (List.nodup_append.mp hnodup).2.1 hid
  refine ⟨rfl, pre, post, b, ran, r, ⟨hW.entries, hW.swept, ?_, hW.due⟩, ?_, htriggered⟩
  · rw [List.append_assoc, List.singleton_append]
    exact (htake.append_left r).trans hW.perm
  · rw [hran, List.append_assoc]

/-- A callback returns. -/
theorem Midway.ret [DecidableEq κ] {ts : Bucket κ} (hM : Midway s now t) (htimer : t.timer = s.timer)
    (hpc : t.pc = .callback now key id ts) : Midway s now (t.afterRun now key id ts) := by
  unfold Midway at hM
  rw [hpc] at hM
  obtain ⟨-, pre, post, b, ran, r, hW, hran, htriggered⟩ := hM
  have hrepeat : s.repeating (ran ++ r ++ [id]) = _ := repeating_concat (ran ++ r)
  rw [List.append_assoc] at hrepeat
  unfold State.afterRun
  rw [htimer]
  split
  · next hr =>
    refine ⟨rfl, pre, post, b, ran, r ++ [id], ⟨hW.entries, hW.swept, hW.perm, hW.due⟩, hran, ?_⟩
    rw [hrepeat, if_pos hr, ← htriggered]
  · next hr =>
    refine ⟨rfl, pre, post, b, ran, r ++ [id], ⟨hW.entries, hW.swept, hW.perm, hW.due⟩, hran, ?_⟩
    rw [hrepeat, if_neg hr, ← htriggered]

/-- A bucket whose timers have all run is the first one still. -/
theorem Within.first {pre post : List (ℕ × Bucket κ)} {b ts : Bucket κ} {ran r : List κ} {e : ℕ × Bucket κ}
    (hW : Within s t now key pre post b ts ran r) (hfirst : t.activeTimers.first? = some e) :
    e = (key, b) ∧ (t.activeTimers.erase e.1).entries = post := by
  have heq : e = (key, b) := by
    rw [SortedMap.first?, hW.entries, List.head?_cons, Option.some.injEq] at hfirst
    exact hfirst.symm
  rw [heq]
  exact ⟨rfl, SortedMap.entries_erase_first hW.entries⟩

/-- The bucket that was run is erased. -/
theorem Midway.erased {e : ℕ × Bucket κ} (hM : Midway s now t) (hpc : t.pc = .firing now key [])
    (hfirst : t.activeTimers.first? = some e) :
    (∃ pre, Swept s now pre (t.activeTimers.erase e.1).entries t.passRan) ∧
      t.triggeredTimers = s.repeating t.passRan := by
  unfold Midway at hM
  rw [hpc] at hM
  obtain ⟨-, pre, post, b, ran, r, hW, hran, htriggered⟩ := hM
  obtain ⟨-, hentries⟩ := hW.first hfirst
  have hperm : r.Perm (b.map Prod.fst) := by
    have hperm := hW.perm
    rw [List.map_nil, List.append_nil] at hperm
    exact hperm
  rw [hentries, hran]
  exact ⟨⟨_, hW.swept.extend hW.due hperm⟩, htriggered⟩

theorem Midway.now_eq (hM : Midway s now t) : t.pc.now? = some now := by
  unfold Midway at hM
  split at hM
  · cases hM
  all_goals
    next hpc =>
      rw [hpc, hM.1]
      rfl

theorem sweepWork_due {e : ℕ × Bucket κ} {es : List (ℕ × Bucket κ)} (h : e.1 ≤ now) :
    sweepWork now (e :: es) = 2 * e.2.length + 2 + sweepWork now es :=
  if_pos h

theorem sweepWork_pos (es : List (ℕ × Bucket κ)) : 0 < sweepWork now es := by
  unfold sweepWork
  split
  · decide
  · split <;> omega

variable [DecidableEq κ] {a : Action κ}

/-- **One step of the loop** leaves it midway, with less work left. -/
theorem Midway.step (hbuckets : ∀ e ∈ s.activeTimers.entries, (e.2.map Prod.fst).Nodup) (hM : Midway s now t)
    (htimer : t.timer = s.timer) (h : firing clock t a = some t') :
    (Midway s now t' ∧ t'.timer = s.timer) ∧ t'.firingWork now < t.firingWork now := by
  unfold firing at h
  split at h
  case isFalse => cases h
  next hgo =>
  obtain ⟨hquiet, hover⟩ := hgo
  have hnow := hM.now_eq
  cases step_cases h with
  | add huser hadd => cases hquiet
  | cancel huser => cases hquiet
  | handle hpc => cases hquiet
  | fire hpc hid =>
    rename_i id now' key ts
    rw [hpc, Pc.now?, Option.some.injEq] at hnow
    subst hnow
    refine ⟨⟨hM.fire hbuckets hpc hid, htimer⟩, ?_⟩
    obtain ⟨e, he, rfl⟩ := List.mem_map.mp hid
    have hless : (ts.filter fun x => x.1 ≠ e.1).length < ts.length :=
      List.length_filter_lt_length_iff_exists.mpr ⟨e, he, by simp⟩
    simp only [State.firingWork, hpc]
    omega
  | ret hpc =>
    rename_i id now' key ts
    rw [hpc, Pc.now?, Option.some.injEq] at hnow
    subst hnow
    have hkeep : (t.afterRun now' key id ts).timer = t.timer ∧
        (t.afterRun now' key id ts).activeTimers = t.activeTimers := by
      unfold State.afterRun
      split <;> exact ⟨rfl, rfl⟩
    refine ⟨⟨hM.ret htimer hpc, hkeep.1.trans htimer⟩, ?_⟩
    simp only [State.firingWork, hpc, afterRun_pc, hkeep.2]
    omega
  | bucket hpc hfirst hle =>
    rename_i now' e
    rw [hpc, Pc.now?, Option.some.injEq] at hnow
    subst hnow
    obtain ⟨es, hes⟩ : ∃ es, t.activeTimers.entries = e :: es := List.head?_eq_some_iff.mp hfirst
    refine ⟨⟨hM.bucket hpc hes hle, htimer⟩, ?_⟩
    simp only [State.firingWork, hpc, hes, sweepWork_due hle, List.tail_cons]
    omega
  | leave hpc hfirst hlt =>
    rename_i now' e
    rw [hpc, Pc.now?, Option.some.injEq] at hnow
    subst hnow
    obtain ⟨es, hes⟩ : ∃ es, t.activeTimers.entries = e :: es := List.head?_eq_some_iff.mp hfirst
    refine ⟨⟨hM.leave hpc hes hlt, htimer⟩, ?_⟩
    simp only [State.firingWork, hpc]
    exact sweepWork_pos _
  | sweep hpc hfirst hne =>
    rename_i now' key e
    rw [hpc, Pc.now?, Option.some.injEq] at hnow
    subst hnow
    obtain ⟨hS, htriggered⟩ := hM.erased hpc hfirst
    refine ⟨⟨⟨rfl, fun hnil => ?_, hS, htriggered⟩, htimer⟩, ?_⟩
    · have hempty : (t.activeTimers.erase e.1).isEmpty = true := List.isEmpty_iff.mpr hnil
      rw [hne] at hempty
      cases hempty
    · obtain ⟨es, hes⟩ : ∃ es, t.activeTimers.entries = e :: es := List.head?_eq_some_iff.mp hfirst
      simp only [State.firingWork, hpc, SortedMap.entries_erase_first hes, hes, List.tail_cons]
      omega
  | sweepLast hpc hfirst hempty =>
    rename_i now' key e
    rw [hpc, Pc.now?, Option.some.injEq] at hnow
    subst hnow
    obtain ⟨hS, htriggered⟩ := hM.erased hpc hfirst
    refine ⟨⟨⟨rfl, fun x hx => ?_, hS, htriggered⟩, htimer⟩, ?_⟩
    · have hnil : (t.activeTimers.erase e.1).entries = [] := List.isEmpty_iff.mp hempty
      have hx' : x ∈ (t.activeTimers.erase e.1).entries := hx
      rw [hnil] at hx'
      cases hx'
    · simp only [State.firingWork, hpc]
      omega
  | reset hpc hreset =>
    rw [hpc] at hover
    cases hover

/-- **The loop is never stuck.** -/
theorem Midway.goes_on (hM : Midway s now t) (hover : t.pc.over = false) : ∃ a t', firing clock t a = some t' := by
  have hmove : ∀ a : Action κ, a.quiet = true → (Timers.step clock t a).isSome = true →
      ∃ a t', firing clock t a = some t' := by
    intro a hquiet hsome
    obtain ⟨t', ht'⟩ := Option.isSome_iff_exists.mp hsome
    exact ⟨a, t', (if_pos ⟨hquiet, hover⟩).trans ht'⟩
  unfold Midway at hM
  cases hpc : t.pc with
  | idle =>
    rw [hpc] at hM
    exact hM.elim
  | loop now' =>
    rw [hpc] at hM
    obtain ⟨e, es, hes⟩ := List.exists_cons_of_ne_nil hM.2.1
    have hfirst : t.activeTimers.first? = some e := by rw [SortedMap.first?, hes, List.head?_cons]
    exact hmove .step rfl (by simp [Timers.step, State.next, hpc, hfirst])
  | firing now' key ts =>
    rw [hpc] at hM
    cases ts with
    | nil =>
      obtain ⟨-, pre, post, b, ran, r, hW, -, -⟩ := hM
      have hfirst : t.activeTimers.first? = some (key, b) := by rw [SortedMap.first?, hW.entries, List.head?_cons]
      exact hmove .step rfl (by simp [Timers.step, State.next, hpc, hfirst])
    | cons x ts =>
      have hid : x.1 ∈ (x :: ts).map Prod.fst := List.mem_map_of_mem List.mem_cons_self
      exact hmove (.fire x.1) rfl (by simp only [Timers.step, hpc, if_pos hid, Option.isSome_some])
  | callback now' key id ts => exact hmove .ret rfl (by simp only [Timers.step, hpc, Option.isSome_some])
  | reset now' =>
    rw [hpc] at hover
    cases hover

omit [DecidableEq κ] in
theorem Midway.fired (hM : Midway s now t) (htimer : t.timer = s.timer) (hover : t.pc.over = true) :
    Fired s now t := by
  unfold Midway at hM
  cases hpc : t.pc with
  | reset now' =>
    rw [hpc] at hM
    obtain ⟨rfl, hlater, ⟨pre, hS⟩, htriggered⟩ := hM
    obtain ⟨hdue, hleft⟩ := filter_swept hS.due hlater hS.split
    obtain ⟨rs, hrs, hran⟩ := hS.order
    refine ⟨hpc, ?_, ⟨rs, hran, hdue.symm ▸ hrs⟩, hleft.symm, htriggered, htimer⟩
    rw [State.dueAt, hdue, hran]
    exact perm_flatten hrs
  | idle =>
    rw [hpc] at hover
    cases hover
  | loop now' =>
    rw [hpc] at hover
    cases hover
  | firing now' key ts =>
    rw [hpc] at hover
    cases hover
  | callback now' key id ts =>
    rw [hpc] at hover
    cases hover

/-- **`handle_timers` fires what is due.**  For every map that is not empty (a bucket has each of its timers
once), every clock and every order in which the buckets are walked: the loop is over after a bounded number of
steps, is never stuck before, and has then run the timers of the buckets up to `now`, bucket after bucket, each
once and no other, has left the other buckets as they were, and has collected the repeating timers it has run. -/
theorem fires_what_is_due (s t : State κ) (hne : s.activeTimers.isEmpty = false)
    (hbuckets : ∀ e ∈ s.activeTimers.entries, (e.2.map Prod.fst).Nodup) (as : List (Action κ))
    (hrun : run (firing clock) (s.handleTimers clock) as = some t) :
    as.length ≤ sweepWork (clock s.reads) s.activeTimers.entries ∧
      (t.pc.over = false → ∃ a t', firing clock t a = some t') ∧
      (t.pc.over = true → Fired s (clock s.reads) t) := by
  have hstart : Midway s (clock s.reads) (s.handleTimers clock) ∧ (s.handleTimers clock).timer = s.timer :=
    ⟨Midway.handle hne, rfl⟩
  have hstep : ∀ u a u', Midway s (clock s.reads) u ∧ u.timer = s.timer → firing clock u a = some u' →
      (Midway s (clock s.reads) u' ∧ u'.timer = s.timer) ∧
        u'.firingWork (clock s.reads) < u.firingWork (clock s.reads) :=
    fun u a u' hu h => hu.1.step hbuckets hu.2 h
  obtain ⟨hM, htimer⟩ := run_induction (fun u => Midway s (clock s.reads) u ∧ u.timer = s.timer) hstart
    (fun u a u' hu h => (hstep u a u' hu h).1) hrun
  have hlength := run_length_le _ (State.firingWork (clock s.reads)) hstep hstart hrun
  exact ⟨(Nat.le_add_right _ _).trans hlength, hM.goes_on, hM.fired htimer⟩

/-- Two timers at `1000`, one at `2000`, one at `5000`; the second and the third repeat. -/
def mixedTimers : Fin 4 → Timer
  | 0 => ⟨1000, 0, false⟩
  | 1 => ⟨1000, 500, true⟩
  | 2 => ⟨2000, 500, true⟩
  | 3 => ⟨5000, 0, false⟩

/-- All four of them waiting. -/
def mixedState : State (Fin 4) :=
  { State.init mixedTimers with
    activeTimers := ⟨[(1000, [(0, false), (1, true)]), (2000, [(2, false)]), (5000, [(3, false)])], by decide⟩ }

/-- The clock shows `2000`, and the first bucket is walked from its end. -/
theorem fires_what_is_due_at_2000 :
    ∃ t, run (firing fun _ => 2000) (mixedState.handleTimers fun _ => 2000)
        [.step, .fire 1, .ret, .fire 0, .ret, .step, .step, .fire 2, .ret, .step, .step] = some t ∧
      t.passRan = [1, 0, 2] ∧ t.triggeredTimers = [1, 2] ∧ t.activeTimers.keys = [5000] ∧
      Fired mixedState 2000 t :=
  have hrun : run (firing fun _ => 2000) (mixedState.handleTimers fun _ => 2000)
      [.step, .fire 1, .ret, .fire 0, .ret, .step, .step, .fire 2, .ret, .step, .step] = some _ := rfl
  ⟨_, hrun, rfl, rfl, rfl, (fires_what_is_due mixedState _ rfl (by decide) _ hrun).2.2 rfl⟩

end KwNet.Timers
