import KwNet.Lib.Http
import KwNet.Https.Url

/-!
# What a server reads of a request

`get` and `post` write path, host, names and values between their delimiters as they are.  `Call.request` is the
request that is meant.

* **`text_eq_print`** — the text is that request, written down;
* `Call.Clean` — no part contains what delimits it;
* **`request_on_the_wire`** — a parser for HTTP/1.1 reads exactly the request that is meant, and nothing more,
  exactly when the call is clean;
* **`header_splits_request`** — a value that is not.
-/

namespace KwNet.Https

open KwNet.Lib

/-- The value of `Connection`. -/
def connectionValue (keepAlive : Bool) : Str := if keepAlive then "keep-alive".toList else "close".toList

/-- The headers that are written before those of the caller. -/
def Call.ownHeaders (c : Call) (host : Str) : List (Str × Str) :=
  [("Host".toList, host), ("Connection".toList, connectionValue c.keepAlive)] ++
    match c.body with
    | none => []
    | some body => [("Content-Length".toList, Nat.toDigits 10 body.length)]

/-- The request that is meant. -/
def Call.request (c : Call) (host path : Str) : Http.Request where
  method :=
    match c.body with
    | none => "GET".toList
    | some _ => "POST".toList
  target := path
  headers := c.ownHeaders host ++ c.headers
  body := c.body.getD []

/-- No part of the call contains what delimits it, and no header of the caller gives the body another length. -/
structure Call.Clean (c : Call) (host path : Str) : Prop where
  path : ∀ ch ∈ path, Http.isVisible ch = true
  host : Http.FieldValue host
  names : ∀ h ∈ c.headers, Http.Token h.1
  values : ∀ h ∈ c.headers, Http.FieldValue h.2
  lengths : ∀ v ∈ Http.contentLengths c.headers, Http.number v = some (c.body.getD []).length

variable {c : Call} {host path : Str}

theorem headerLine_eq (h : Str × Str) : headerLine h = Http.printHeader h := by
  simp only [headerLine, Http.printHeader, Http.crlf]
  rfl

theorem connectionLine_eq (keepAlive : Bool) :
    connectionLine keepAlive = Http.printHeader ("Connection".toList, connectionValue keepAlive) := by
  cases keepAlive <;> rfl

theorem getText_eq (host path : Str) (headers : List (Str × Str)) (keepAlive : Bool) :
    getText host path headers keepAlive =
      Http.Request.print ⟨"GET".toList, path,
        [("Host".toList, host), ("Connection".toList, connectionValue keepAlive)] ++ headers, []⟩ := by
  have hheaders : headers.flatMap headerLine = headers.flatMap Http.printHeader :=
    List.flatMap_congr fun h _ => headerLine_eq h
  unfold getText Http.Request.print
  simp only [connectionLine_eq, hheaders, List.flatMap_append, List.flatMap_cons, List.flatMap_nil]
  generalize headers.flatMap Http.printHeader = lines
  simp [Http.version, Http.crlf, Http.printHeader]

theorem postText_eq (host path : Str) (headers : List (Str × Str)) (body : Str) (keepAlive : Bool) :
    postText host path headers body keepAlive =
      Http.Request.print ⟨"POST".toList, path,
        [("Host".toList, host), ("Connection".toList, connectionValue keepAlive),
          ("Content-Length".toList, Nat.toDigits 10 body.length)] ++ headers, body⟩ := by
  have hheaders : headers.flatMap headerLine = headers.flatMap Http.printHeader :=
    List.flatMap_congr fun h _ => headerLine_eq h
  unfold postText Http.Request.print
  simp only [connectionLine_eq, hheaders, List.flatMap_append, List.flatMap_cons, List.flatMap_nil]
  generalize headers.flatMap Http.printHeader = lines
  simp [Http.version, Http.crlf, Http.printHeader]

/-- **The text is the request, written down.** -/
theorem text_eq_print (c : Call) (host path : Str) : c.text host path = (c.request host path).print := by
  obtain ⟨url, headers, body, keepAlive⟩ := c
  cases body with
  | none => exact getText_eq host path headers keepAlive
  | some body => exact postText_eq host path headers body keepAlive

/-! ### Clean calls -/

/-- The path of an accepted URL is not empty. -/
theorem path_ne_nil {url host path : Str} {port : ℕ} (h : parseUrlHttps url = .ok host port path) : path ≠ [] := by
  have hslash : ∀ slash : Str, (if slash.isEmpty = true then "/".toList else slash) ≠ [] := by
    intro slash
    cases slash with
    | nil => simp
    | cons c rest => simp
  simp only [parseUrlHttps] at h
  split at h
  · split at h
    · split at h
      · cases h
      · cases h
        exact hslash _
    · cases h
      exact hslash _
  · cases h

theorem contentLengths_append (hs hs' : List (Str × Str)) :
    Http.contentLengths (hs ++ hs') = Http.contentLengths hs ++ Http.contentLengths hs' := by
  rw [Http.contentLengths, List.filter_append, List.map_append]
  rfl

theorem number_toDigits (n : ℕ) : Http.number (Nat.toDigits 10 n) = some n := by
  have hdigits : Nat.toDigits 10 n ≠ [] ∧ ∀ c ∈ Nat.toDigits 10 n, c.isDigit = true :=
    ⟨Nat.toDigits_ne_nil, toDigits_digits n⟩
  rw [Http.number, if_pos hdigits, Nat.ofDigitChars_toDigits (by decide) (by decide)]

theorem contentLengths_own (c : Call) (host : Str) :
    Http.contentLengths (c.ownHeaders host) = c.body.toList.map fun body => Nat.toDigits 10 body.length := by
  obtain ⟨url, headers, body, keepAlive⟩ := c
  cases body with
  | none => simp [Call.ownHeaders, Http.contentLengths]
  | some body => simp [Call.ownHeaders, Http.contentLengths]

/-- The body is as long as the headers say exactly when those of the caller agree. -/
theorem bodyLength_iff (c : Call) (host : Str) :
    Http.bodyLength (c.ownHeaders host ++ c.headers) = some (c.body.getD []).length ↔
      ∀ v ∈ Http.contentLengths c.headers, Http.number v = some (c.body.getD []).length := by
  rw [Http.bodyLength, contentLengths_append, contentLengths_own]
  cases c.body with
  | some body =>
    simp only [Option.toList_some, List.map_cons, List.map_nil, List.singleton_append, number_toDigits,
      Option.getD_some, ite_eq_left_iff]
    constructor
    · intro h v hv
      by_contra hne
      cases h fun hall => hne (hall v hv)
    · exact fun hall hnot => absurd hall hnot
  | none =>
    rw [Option.toList_none, List.map_nil, List.nil_append, Option.getD_none, List.length_nil]
    cases Http.contentLengths c.headers with
    | nil => exact ⟨fun _ => List.forall_mem_nil _, fun _ => rfl⟩
    | cons v vs =>
      show (if ∀ w ∈ vs, Http.number w = Http.number v then Http.number v else none) = some 0 ↔ _
      constructor
      · intro h
        split at h
        · next hsame =>
          exact List.forall_mem_cons.mpr ⟨h, fun w hw => (hsame w hw).trans h⟩
        · cases h
      · intro hall
        obtain ⟨hv, hvs⟩ := List.forall_mem_cons.mp hall
        exact (if_pos fun w hw => (hvs w hw).trans hv.symm).trans hv

theorem connection_field (keepAlive : Bool) : Http.FieldValue (connectionValue keepAlive) := by
  cases keepAlive <;>
    simp [connectionValue, Http.FieldValue, Http.isField, Http.isBlank, Http.isVisible, List.rdropWhile]

/-- Without blanks a text is a header value. -/
theorem fieldValue_of_visible {s : Str} (h : ∀ ch ∈ s, Http.isVisible ch = true) : Http.FieldValue s := by
  have hfield : ∀ ch ∈ s, Http.isField ch = true := by
    intro ch hch
    rw [Http.isField, h ch hch, Bool.or_true, Bool.true_or]
  have hblank : ∀ ch ∈ s, Http.isBlank ch = false := by
    intro ch hch
    have hvisible := h ch hch
    have hrange : 33 ≤ ch.toNat := by
      simp only [Http.isVisible, Bool.and_eq_true, decide_eq_true_eq] at hvisible
      exact hvisible.1
    have hne : ∀ d : Char, ¬ 33 ≤ d.toNat → ch ≠ d := by
      rintro d hd rfl
      exact hd hrange
    simp only [Http.isBlank, hne ' ' (by decide), hne '\t' (by decide), decide_false, Bool.or_false]
  refine ⟨hfield, ?_, ?_⟩
  · cases s with
    | nil => rfl
    | cons ch s => exact List.dropWhile_cons_of_neg (Bool.eq_false_iff.mp (hblank ch List.mem_cons_self))
  · exact List.rdropWhile_eq_self_iff.mpr fun hne => Bool.eq_false_iff.mp (hblank _ (List.getLast_mem hne))

/-- A numeral is a header value. -/
theorem toDigits_field (n : ℕ) : Http.FieldValue (Nat.toDigits 10 n) := by
  refine fieldValue_of_visible fun ch hch => ?_
  have hdigit := toDigits_digits n ch hch
  simp only [Char.isDigit, Bool.and_eq_true, decide_eq_true_eq] at hdigit
  have hrange : 48 ≤ ch.toNat ∧ ch.toNat ≤ 57 := hdigit
  simp only [Http.isVisible, Bool.and_eq_true, decide_eq_true_eq]
  omega

theorem own_names : Http.Token "Host".toList ∧ Http.Token "Connection".toList ∧ Http.Token "Content-Length".toList := by
  simp [Http.Token, Http.isToken]

/-- The headers of the code itself are well formed exactly when the host is. -/
theorem own_valid (c : Call) (host : Str) :
    (∀ h ∈ c.ownHeaders host, Http.Token h.1 ∧ Http.FieldValue h.2) ↔ Http.FieldValue host := by
  obtain ⟨hname, hconnection, hlength⟩ := own_names
  constructor
  · intro h
    exact (h ("Host".toList, host) (List.mem_append_left _ List.mem_cons_self)).2
  · intro hhost h hh
    rcases List.mem_append.mp hh with hh' | hh'
    · rcases List.mem_cons.mp hh' with rfl | hh'
      · exact ⟨hname, hhost⟩
      · rw [List.mem_singleton.mp hh']
        exact ⟨hconnection, connection_field c.keepAlive⟩
    · cases hbody : c.body with
      | none =>
        rw [hbody] at hh'
        cases hh'
      | some body =>
        rw [hbody] at hh'
        rw [List.mem_singleton.mp hh']
        exact ⟨hlength, toDigits_field _⟩

theorem method_token (c : Call) (host path : Str) : Http.Token (c.request host path).method := by
  obtain ⟨url, headers, body, keepAlive⟩ := c
  cases body with
  | none =>
    show Http.Token "GET".toList
    simp [Http.Token, Http.isToken]
  | some body =>
    show Http.Token "POST".toList
    simp [Http.Token, Http.isToken]

theorem request_valid_iff (hpath : path ≠ []) : (c.request host path).Valid ↔ c.Clean host path := by
  constructor
  · intro hr
    exact ⟨hr.target.2, (own_valid c host).mp fun h hh =>
        ⟨hr.names h (List.mem_append_left _ hh), hr.values h (List.mem_append_left _ hh)⟩,
      fun h hh => hr.names h (List.mem_append_right _ hh), fun h hh => hr.values h (List.mem_append_right _ hh),
      (bodyLength_iff c host).mp hr.length⟩
  · intro hc
    have hown := (own_valid c host).mpr hc.host
    refine ⟨method_token c host path, ⟨hpath, hc.path⟩, fun h hh => ?_, fun h hh => ?_,
      (bodyLength_iff c host).mpr hc.lengths⟩
    · rcases List.mem_append.mp hh with hh' | hh'
      · exact (hown h hh').1
      · exact hc.names h hh'
    · rcases List.mem_append.mp hh with hh' | hh'
      · exact (hown h hh').2
      · exact hc.values h hh'

/-- **What a server reads.**  For every accepted URL, all headers, any body and both values of `keep_alive`: the text
that `get` or `post` builds is read as exactly the request that is meant, with nothing left, exactly when the call is
clean. -/
theorem request_on_the_wire (c : Call) (host path : Str) (port : ℕ) (h : parseUrlHttps c.url = .ok host port path) :
    Http.parse (c.text host path) = some (c.request host path, []) ↔ c.Clean host path := by
  rw [text_eq_print, Http.parse_print_iff, request_valid_iff (path_ne_nil h)]

/-- A `get` with one header. -/
def getWith (name value : String) : Call := ⟨"https://a/x".toList, [(name.toList, value.toList)], none, false⟩

theorem getWith_parsed (name value : String) :
    parseUrlHttps (getWith name value).url = .ok "a".toList 443 "/x".toList := by
  have hurl : parseUrlHttps "https://a/x".toList = .ok "a".toList 443 "/x".toList := by decide
  exact hurl

theorem getWith_clean : (getWith "X" "y z").Clean "a".toList "/x".toList where
  path := by simp [Http.isVisible]
  host := by simp [Http.FieldValue, Http.isField, Http.isBlank, Http.isVisible, List.rdropWhile]
  names := by
    show ∀ h ∈ [("X".toList, "y z".toList)], Http.Token h.1
    simp [Http.Token, Http.isToken]
  values := by
    show ∀ h ∈ [("X".toList, "y z".toList)], Http.FieldValue h.2
    simp [Http.FieldValue, Http.isField, Http.isBlank, Http.isVisible, List.rdropWhile]
  lengths := by
    show ∀ v ∈ Http.contentLengths [("X".toList, "y z".toList)], _
    simp [Http.contentLengths]

theorem request_on_the_wire_plain :
    Http.parse ((getWith "X" "y z").text "a".toList "/x".toList) =
      some ((getWith "X" "y z").request "a".toList "/x".toList, []) :=
  (request_on_the_wire (getWith "X" "y z") "a".toList "/x".toList 443 (getWith_parsed _ _)).mpr getWith_clean

/-- **A header value with a line break** is not read as the caller gave it. -/
theorem header_splits_request :
    ¬ ∀ (c : Call) (host path : Str) (port : ℕ), parseUrlHttps c.url = .ok host port path →
      Http.parse (c.text host path) = some (c.request host path, []) := by
  intro hall
  have hparse := hall (getWith "X" "y\r\nZ: w") "a".toList "/x".toList 443 (getWith_parsed _ _)
  rw [text_eq_print, Http.parse_print_iff] at hparse
  have hvalue := hparse.values ("X".toList, "y\r\nZ: w".toList) (List.mem_append_right _ List.mem_cons_self)
  have hfield := hvalue.1 '\r' (by simp)
  exact absurd hfield (by decide)

end KwNet.Https
