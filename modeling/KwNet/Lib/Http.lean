import Mathlib

/-!
# HTTP/1.1 requests on the wire

A parser for one request: the request line, header lines up to the empty line, and as many bytes of body as
`Content-Length` says (none without it; several that disagree are an error).  Bytes are characters.

* `Request.Valid` — the requests the grammar can express;
* `Request.print` — one way to write a request;
* **`parse_valid`** — only valid requests are parsed;
* **`parse_print`** — a valid request is read back, and not one byte more;
* **`parse_print_iff`** — a written request is read back exactly when it is valid.
-/

namespace KwNet.Lib.Http

abbrev Bytes := List Char

/-- A character of a token. -/
def isToken (c : Char) : Bool := c.isAlphanum || "!#$%&'*+-.^_`|~".toList.contains c

/-- A character of a request target. -/
def isVisible (c : Char) : Bool := 33 ≤ c.toNat && c.toNat ≤ 126

def isBlank (c : Char) : Bool := c = ' ' || c = '\t'

/-- A character of a header value. -/
def isField (c : Char) : Bool := isBlank c || isVisible c || 128 ≤ c.toNat

def Token (s : Bytes) : Prop := s ≠ [] ∧ ∀ c ∈ s, isToken c = true

def Target (s : Bytes) : Prop := s ≠ [] ∧ ∀ c ∈ s, isVisible c = true

/-- A header value, without blanks around it. -/
def FieldValue (s : Bytes) : Prop :=
  (∀ c ∈ s, isField c = true) ∧ s.dropWhile isBlank = s ∧ s.rdropWhile isBlank = s

instance (s : Bytes) : Decidable (Token s) := inferInstanceAs (Decidable (_ ∧ _))

instance (s : Bytes) : Decidable (Target s) := inferInstanceAs (Decidable (_ ∧ _))

instance (s : Bytes) : Decidable (FieldValue s) := inferInstanceAs (Decidable (_ ∧ _ ∧ _))

structure Request where
  method : Bytes
  target : Bytes
  headers : List (Bytes × Bytes)
  body : Bytes
  deriving DecidableEq

/-! ### The length of the body -/

/-- The values of the `Content-Length` headers. -/
def contentLengths (headers : List (Bytes × Bytes)) : List Bytes :=
  (headers.filter fun h => h.1.map Char.toLower = "content-length".toList).map Prod.snd

def number (s : Bytes) : Option ℕ :=
  if s ≠ [] ∧ (∀ c ∈ s, c.isDigit = true) then some (Nat.ofDigitChars 10 s 0) else none

/-- The length that all `Content-Length` headers agree on. -/
def bodyLength (headers : List (Bytes × Bytes)) : Option ℕ :=
  match contentLengths headers with
  | [] => some 0
  | v :: vs => if ∀ w ∈ vs, number w = number v then number v else none

/-- The requests of the grammar. -/
structure Request.Valid (r : Request) : Prop where
  method : Token r.method
  target : Target r.target
  names : ∀ h ∈ r.headers, Token h.1
  values : ∀ h ∈ r.headers, FieldValue h.2
  length : bodyLength r.headers = some r.body.length

/-! ### The parser -/

/-- The bytes before the first CRLF, and those behind it. -/
def takeLine : Bytes → Option (Bytes × Bytes)
  | [] => none
  | c :: rest =>
    if c = '\r' ∧ rest.head? = some '\n' then some ([], rest.tail)
    else (takeLine rest).map fun p => (c :: p.1, p.2)

/-- The bytes before the first `sep`, and those behind it. -/
def splitAt (sep : Char) (s : Bytes) : Bytes × Bytes :=
  (s.takeWhile fun c => c ≠ sep, (s.dropWhile fun c => c ≠ sep).drop 1)

/-- `HTTP/1.1` -/
def version : Bytes := ['H', 'T', 'T', 'P', '/', '1', '.', '1']

/-- Method and target of a request line. -/
def parseRequestLine (line : Bytes) : Option (Bytes × Bytes) :=
  let method := (splitAt ' ' line).1
  let rest := (splitAt ' ' line).2
  let target := (splitAt ' ' rest).1
  if Token method ∧ Target target ∧ (splitAt ' ' rest).2 = version then some (method, target) else none

def trim (s : Bytes) : Bytes := (s.dropWhile isBlank).rdropWhile isBlank

/-- Name and value of a header line. -/
def parseHeader (line : Bytes) : Option (Bytes × Bytes) :=
  let name := (splitAt ':' line).1
  let value := trim (splitAt ':' line).2
  if ':' ∈ line ∧ Token name ∧ ∀ c ∈ value, isField c = true then some (name, value) else none

/-- The header lines, of which there are at most `fuel`, up to the empty line. -/
def parseHeaders : ℕ → Bytes → Option (List (Bytes × Bytes) × Bytes)
  | 0, _ => none
  | fuel + 1, s =>
    (takeLine s).bind fun p =>
      if p.1 = [] then some ([], p.2)
      else (parseHeader p.1).bind fun h => (parseHeaders fuel p.2).map fun q => (h :: q.1, q.2)

/-- A request, and the bytes behind it. -/
def parse (s : Bytes) : Option (Request × Bytes) :=
  (takeLine s).bind fun p =>
    (parseRequestLine p.1).bind fun m =>
      (parseHeaders p.2.length p.2).bind fun q =>
        (bodyLength q.1).bind fun n =>
          if n ≤ q.2.length then some (⟨m.1, m.2, q.1, q.2.take n⟩, q.2.drop n) else none

/-! ### Writing a request -/

def crlf : Bytes := ['\r', '\n']

def printHeader (h : Bytes × Bytes) : Bytes := h.1 ++ [':', ' '] ++ h.2 ++ crlf

def Request.print (r : Request) : Bytes :=
  r.method ++ [' '] ++ r.target ++ [' '] ++ version ++ crlf ++ r.headers.flatMap printHeader ++ crlf ++ r.body

variable {s line name value rest : Bytes} {r : Request}

/-! ### Only valid requests are parsed -/

theorem fieldValue_trim (h : ∀ c ∈ trim s, isField c = true) : FieldValue (trim s) := by
  refine ⟨h, ?_, List.rdropWhile_idempotent _ _⟩
  -- what is left begins with the first character of `s` that is not a blank
  obtain ⟨tail, htail⟩ := List.rdropWhile_prefix isBlank (s.dropWhile isBlank)
  have hfirst := List.head?_dropWhile_not isBlank s
  rw [← htail] at hfirst
  cases hu : trim s with
  | nil => rfl
  | cons c u =>
    have hleft : (s.dropWhile isBlank).rdropWhile isBlank = c :: u := hu
    rw [hleft] at hfirst
    exact List.dropWhile_cons_of_neg (Bool.eq_false_iff.mp hfirst)

theorem parseHeader_valid {h : Bytes × Bytes} (hp : parseHeader line = some h) : Token h.1 ∧ FieldValue h.2 := by
  simp only [parseHeader] at hp
  split at hp
  · next hok =>
    cases hp
    exact ⟨hok.2.1, fieldValue_trim hok.2.2⟩
  · cases hp

theorem parseHeaders_valid {fuel : ℕ} {q : List (Bytes × Bytes) × Bytes} (hp : parseHeaders fuel s = some q) :
    ∀ h ∈ q.1, Token h.1 ∧ FieldValue h.2 := by
  induction fuel generalizing s q with
  | zero => cases hp
  | succ fuel ih =>
    rw [parseHeaders] at hp
    obtain ⟨p, -, hp⟩ := Option.bind_eq_some_iff.mp hp
    split at hp
    · cases hp
      exact List.forall_mem_nil _
    · obtain ⟨h, hh, hp⟩ := Option.bind_eq_some_iff.mp hp
      obtain ⟨q', hq', rfl⟩ := Option.map_eq_some_iff.mp hp
      exact List.forall_mem_cons.mpr ⟨parseHeader_valid hh, ih hq'⟩

/-- **Only valid requests are parsed.** -/
theorem parse_valid (hp : parse s = some (r, rest)) : r.Valid := by
  unfold parse at hp
  obtain ⟨p, -, hp⟩ := Option.bind_eq_some_iff.mp hp
  obtain ⟨m, hm, hp⟩ := Option.bind_eq_some_iff.mp hp
  obtain ⟨q, hq, hp⟩ := Option.bind_eq_some_iff.mp hp
  obtain ⟨n, hn, hp⟩ := Option.bind_eq_some_iff.mp hp
  have hheaders := parseHeaders_valid hq
  simp only [parseRequestLine] at hm
  split at hm
  · next hline =>
    cases hm
    split at hp
    · next hlen =>
      cases hp
      refine ⟨hline.1, hline.2.1, fun h hh => (hheaders h hh).1, fun h hh => (hheaders h hh).2, ?_⟩
      rw [hn, List.length_take, Nat.min_eq_left hlen]
    · cases hp
  · cases hm

/-! ### A valid request is read back -/

theorem takeLine_append (h : '\r' ∉ line) : takeLine (line ++ crlf ++ rest) = some (line, rest) := by
  induction line with
  | nil => rfl
  | cons c line ih =>
    have hc : c ≠ '\r' := fun heq => h (heq ▸ List.mem_cons_self)
    have hrest : '\r' ∉ line := fun hmem => h (List.mem_cons_of_mem _ hmem)
    rw [List.cons_append, List.cons_append, takeLine, if_neg (fun hand => hc hand.1), ih hrest, Option.map_some]

theorem splitAt_append {sep : Char} (h : sep ∉ s) : splitAt sep (s ++ sep :: rest) = (s, rest) := by
  have hpos : ∀ c ∈ s, decide (c ≠ sep) = true := by
    intro c hc
    exact decide_eq_true fun heq => h (heq ▸ hc)
  rw [splitAt, List.takeWhile_append_of_pos hpos, List.dropWhile_append_of_pos hpos]
  simp

theorem token_not_mem (h : Token s) {c : Char} (hc : isToken c = false) : c ∉ s := by
  intro hmem
  rw [h.2 c hmem] at hc
  cases hc

theorem target_not_mem (h : Target s) {c : Char} (hc : isVisible c = false) : c ∉ s := by
  intro hmem
  rw [h.2 c hmem] at hc
  cases hc

theorem field_not_mem (h : FieldValue s) {c : Char} (hc : isField c = false) : c ∉ s := by
  intro hmem
  rw [h.1 c hmem] at hc
  cases hc

theorem trim_field (h : FieldValue s) : trim (' ' :: s) = s := by
  rw [trim, List.dropWhile_cons_of_pos rfl, h.2.1, h.2.2]

theorem parseHeader_print (hname : Token name) (hvalue : FieldValue value) :
    parseHeader (name ++ ':' :: ' ' :: value) = some (name, value) := by
  have hsplit : splitAt ':' (name ++ ':' :: ' ' :: value) = (name, ' ' :: value) :=
    splitAt_append (token_not_mem hname (by decide))
  have hmem : ':' ∈ name ++ ':' :: ' ' :: value := List.mem_append_right _ List.mem_cons_self
  simp only [parseHeader, hsplit, trim_field hvalue]
  exact if_pos ⟨hmem, hname, hvalue.1⟩

theorem parseRequestLine_print {method target : Bytes} (hmethod : Token method) (htarget : Target target) :
    parseRequestLine (method ++ ' ' :: (target ++ ' ' :: version)) = some (method, target) := by
  have hfirst : splitAt ' ' (method ++ ' ' :: (target ++ ' ' :: version)) = (method, target ++ ' ' :: version) :=
    splitAt_append (token_not_mem hmethod (by decide))
  have hsecond : splitAt ' ' (target ++ ' ' :: version) = (target, version) :=
    splitAt_append (target_not_mem htarget (by decide))
  simp only [parseRequestLine, hfirst, hsecond]
  exact if_pos ⟨hmethod, htarget, trivial⟩

theorem parseHeaders_print (more : Bytes) {headers : List (Bytes × Bytes)} {fuel : ℕ}
    (h : ∀ h ∈ headers, Token h.1 ∧ FieldValue h.2) (hfuel : headers.length < fuel) :
    parseHeaders fuel (headers.flatMap printHeader ++ crlf ++ more) = some (headers, more) := by
  induction headers generalizing fuel with
  | nil =>
    obtain ⟨fuel, rfl⟩ := Nat.exists_eq_succ_of_ne_zero (Nat.ne_of_gt hfuel)
    rfl
  | cons hd headers ih =>
    obtain ⟨fuel, rfl⟩ := Nat.exists_eq_succ_of_ne_zero (Nat.ne_of_gt (Nat.zero_lt_of_lt hfuel))
    obtain ⟨hname, hvalue⟩ := h hd List.mem_cons_self
    have hrest := ih (fun h' hh' => h h' (List.mem_cons_of_mem _ hh')) (Nat.lt_of_succ_lt_succ hfuel)
    have hcr : '\r' ∉ hd.1 ++ ':' :: ' ' :: hd.2 := by
      simp only [List.mem_append, List.mem_cons, not_or]
      exact ⟨token_not_mem hname (by decide), by decide, by decide, field_not_mem hvalue (by decide)⟩
    have htext : (hd :: headers).flatMap printHeader ++ crlf ++ more =
        (hd.1 ++ ':' :: ' ' :: hd.2) ++ crlf ++ (headers.flatMap printHeader ++ crlf ++ more) := by
      simp only [List.flatMap_cons, printHeader, List.append_assoc, List.cons_append, List.nil_append]
    have hne : hd.1 ++ ':' :: ' ' :: hd.2 ≠ [] := List.append_ne_nil_of_right_ne_nil _ (List.cons_ne_nil _ _)
    rw [htext, parseHeaders, takeLine_append hcr, Option.bind_some, if_neg hne, parseHeader_print hname hvalue,
      Option.bind_some, hrest, Option.map_some]

/-- There are more bytes than header lines. -/
theorem length_lt_print (more : Bytes) (headers : List (Bytes × Bytes)) :
    headers.length < (headers.flatMap printHeader ++ crlf ++ more).length := by
  have hle : headers.length ≤ (headers.flatMap printHeader).length := by
    induction headers with
    | nil => exact Nat.le_refl 0
    | cons hd headers ih =>
      simp only [List.flatMap_cons, List.length_append, List.length_cons, printHeader]
      omega
  simp only [List.length_append, crlf, List.length_cons]
  omega

/-- **A valid request is read back**, and not one byte more. -/
theorem parse_print (hr : r.Valid) (more : Bytes) : parse (r.print ++ more) = some (r, more) := by
  have hcr : '\r' ∉ r.method ++ ' ' :: (r.target ++ ' ' :: version) := by
    simp only [List.mem_append, List.mem_cons, not_or]
    exact ⟨token_not_mem hr.method (by decide), by decide, target_not_mem hr.target (by decide), by decide,
      by decide⟩
  have htext : r.print ++ more = (r.method ++ ' ' :: (r.target ++ ' ' :: version)) ++ crlf ++
      (r.headers.flatMap printHeader ++ crlf ++ (r.body ++ more)) := by
    simp only [Request.print, List.append_assoc, List.cons_append, List.nil_append]
  have hheaders := parseHeaders_print (r.body ++ more)
    (fun h hh => ⟨hr.names h hh, hr.values h hh⟩) (length_lt_print (r.body ++ more) r.headers)
  have hlen : r.body.length ≤ (r.body ++ more).length := by
    rw [List.length_append]
    exact Nat.le_add_right _ _
  rw [htext, parse, takeLine_append hcr, Option.bind_some, parseRequestLine_print hr.method hr.target,
    Option.bind_some, hheaders, Option.bind_some, hr.length, Option.bind_some, if_pos hlen, List.take_left,
    List.drop_left]

/-- **A written request is read back exactly when it is valid.** -/
theorem parse_print_iff : parse r.print = some (r, []) ↔ r.Valid := by
  constructor
  · exact parse_valid
  · intro hr
    have hparse := parse_print hr []
    rw [List.append_nil] at hparse
    exact hparse

end KwNet.Lib.Http
