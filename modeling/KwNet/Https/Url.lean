import KwNet.Https.Client

/-!
# `parse_url_https` and its three outputs

The two copies of `parse_url_https` (`https/http_util.cpp`, `https/https_client.cpp`) are one text.  They assign
`path` and `host` before the port is looked at, and leave the port to `std::stoi` and a cast to 16 bits.

* `parseUrl` — the function with its outputs, which `parseUrlHttps` sums up (**`parseUrlHttps_eq`**);
* `render`, **`parse_render`** — a rendered URL is parsed back, whatever its path contains;
* `BadPort`, **`bad_port_not_rejected`** — no URL with a bad port is rejected;
* **`port_wraps`** — one that is accepted.
-/

namespace KwNet.Https

/-- The output parameters. -/
structure UrlParts where
  host : Str
  port : ℕ
  path : Str
  deriving DecidableEq

/-- How the function ends. -/
inductive ParseEnd where
  | returned (ok : Bool)
  /-- `std::stoi` throws. -/
  | threw
  deriving DecidableEq

/-- The body of both functions. -/
def parseUrl (url : Str) (out : UrlParts) : ParseEnd × UrlParts :=
  let start := cStr url
  if start.take 8 = "https://".toList then
    let hostStart := start.drop 8
    let hostPort := hostStart.takeWhile fun c => c ≠ '/'
    let slash := hostStart.dropWhile fun c => c ≠ '/'
    let out := { out with path := if slash.isEmpty then "/".toList else slash }
    if ':' ∈ hostPort then
      let out := { out with host := hostPort.takeWhile fun c => c ≠ ':' }
      match stoi ((hostPort.dropWhile fun c => c ≠ ':').drop 1) with
      | none => (.threw, out)
      | some v => (.returned true, { out with port := (v % 65536).toNat })
    else (.returned true, { out with host := hostPort, port := 443 })
  else (.returned false, out)

/-- `http_util::parse_url_https`. -/
def HttpUtil.parseUrlHttps (url : Str) (out : UrlParts) : ParseEnd × UrlParts := parseUrl url out

/-- `http_client::parse_url_https`. -/
def HttpClient.parseUrlHttps (url : Str) (out : UrlParts) : ParseEnd × UrlParts := parseUrl url out

/-- What `get` and `post` make of it. -/
theorem parseUrlHttps_eq (url : Str) (out : UrlParts) :
    parseUrlHttps url =
      match HttpClient.parseUrlHttps url out with
      | (.returned true, out) => .ok out.host out.port out.path
      | (.returned false, _) => .invalid
      | (.threw, _) => .throws := by
  unfold HttpClient.parseUrlHttps parseUrl parseUrlHttps
  by_cases hscheme : (cStr url).take 8 = "https://".toList
  · rw [if_pos hscheme, if_pos hscheme]
    by_cases hcolon : ':' ∈ ((cStr url).drop 8).takeWhile fun c => c ≠ '/'
    · rw [if_pos hcolon, if_pos hcolon]
      cases stoi (((((cStr url).drop 8).takeWhile fun c => c ≠ '/').dropWhile fun c => c ≠ ':').drop 1) with
      | none => rfl
      | some v => rfl
    · rw [if_neg hcolon, if_neg hcolon]
  · rw [if_neg hscheme, if_neg hscheme]

/-! ### Rendering -/

/-- `host`, and `:` and the port if there is one. -/
def authority (host : Str) (port : Option ℕ) : Str :=
  host ++ match port with
  | some p => ':' :: Nat.toDigits 10 p
  | none => []

def render (host : Str) (port : Option ℕ) (path : Str) : Str := "https://".toList ++ authority host port ++ path

theorem toDigits_digits (n : ℕ) : ∀ c ∈ Nat.toDigits 10 n, c.isDigit = true :=
  fun _ hc => Nat.isDigit_of_mem_toDigits (by decide) (by decide) hc

/-- A digit is not a blank, and none of the delimiters. -/
theorem digit_plain {c : Char} (h : c.isDigit = true) :
    isSpace c = false ∧ c ≠ '-' ∧ c ≠ '+' ∧ c ≠ '/' ∧ c ≠ ':' ∧ c.toNat ≠ 0 := by
  have hrange : 48 ≤ c.toNat ∧ c.toNat ≤ 57 := by
    simp only [Char.isDigit, Bool.and_eq_true, decide_eq_true_eq] at h
    exact h
  have hne : ∀ d : Char, ¬ (48 ≤ d.toNat ∧ d.toNat ≤ 57) → c ≠ d := by
    rintro d hd rfl
    exact hd hrange
  refine ⟨?_, hne '-' (by decide), hne '+' (by decide), hne '/' (by decide), hne ':' (by decide), by omega⟩
  have hblank : c ≠ ' ' := hne ' ' (by decide)
  simp only [isSpace, hblank, decide_false, Bool.false_or, Bool.and_eq_false_iff, decide_eq_false_iff_not]
  omega

/-- `std::stoi` on digits. -/
theorem stoi_digits {s : Str} (hs : s ≠ []) (hdigits : ∀ c ∈ s, c.isDigit = true)
    (hvalue : Nat.ofDigitChars 10 s 0 < 2 ^ 31) : stoi s = some (Nat.ofDigitChars 10 s 0 : ℤ) := by
  obtain ⟨c, rest, rfl⟩ := List.exists_cons_of_ne_nil hs
  obtain ⟨hblank, hminus, hplus, -⟩ := digit_plain (hdigits c List.mem_cons_self)
  have hskip : (c :: rest).dropWhile isSpace = c :: rest := List.dropWhile_cons_of_neg (by rw [hblank]; decide)
  have hall : (c :: rest).takeWhile Char.isDigit = c :: rest := List.takeWhile_eq_self_iff.mpr hdigits
  have hrange : -2 ^ 31 ≤ (1 : ℤ) * (Nat.ofDigitChars 10 (c :: rest) 0 : ℤ) ∧
      (1 : ℤ) * (Nat.ofDigitChars 10 (c :: rest) 0 : ℤ) < 2 ^ 31 := by
    have hcast : (Nat.ofDigitChars 10 (c :: rest) 0 : ℤ) < 2 ^ 31 := by exact_mod_cast hvalue
    omega
  simp only [stoi, hskip]
  split
  next heq => exact absurd (List.cons.inj heq).1 hminus
  next heq => exact absurd (List.cons.inj heq).1 hplus
  next =>
    have hne : ¬ (c :: rest).isEmpty = true := by simp
    rw [hall, if_neg hne]
    exact (if_pos hrange).trans (congrArg some (one_mul _))

/-- **`std::stoi` reads a decimal numeral back.** -/
theorem stoi_toDigits {n : ℕ} (h : n < 2 ^ 31) : stoi (Nat.toDigits 10 n) = some (n : ℤ) := by
  have hvalue : Nat.ofDigitChars 10 (Nat.toDigits 10 n) 0 = n :=
    Nat.ofDigitChars_toDigits (by decide) (by decide)
  have hread := stoi_digits Nat.toDigits_ne_nil (toDigits_digits n) (by rw [hvalue]; exact h)
  rw [hread, hvalue]

theorem cStr_self {s : Str} (h : ∀ c ∈ s, c.toNat ≠ 0) : cStr s = s :=
  List.takeWhile_eq_self_iff.mpr fun c hc => decide_eq_true (h c hc)

theorem scheme_length : "https://".toList.length = 8 := by simp

theorem scheme_plain : ∀ c ∈ "https://".toList, c.toNat ≠ 0 := by simp

/-- `c` ends neither a C string nor a host. -/
theorem mem_authority {host : Str} (port : Option ℕ) (hhost : ∀ c ∈ host, c ≠ ':' ∧ c ≠ '/' ∧ c.toNat ≠ 0) :
    ∀ c ∈ authority host port, c ≠ '/' ∧ c.toNat ≠ 0 := by
  intro c hc
  rcases List.mem_append.mp hc with h | h
  · exact (hhost c h).2
  · cases port with
    | none => cases h
    | some p =>
      rcases List.mem_cons.mp h with rfl | hdigit
      · decide
      · obtain ⟨-, -, -, hslash, -, hnul⟩ := digit_plain (toDigits_digits p c hdigit)
        exact ⟨hslash, hnul⟩

/-- The authority is cut off at the first slash. -/
theorem cut_path {a path : Str} (ha : ∀ c ∈ a, c ≠ '/') (hpath : path = [] ∨ path.head? = some '/') :
    (a ++ path).takeWhile (fun c => c ≠ '/') = a ∧ (a ++ path).dropWhile (fun c => c ≠ '/') = path := by
  have hpos : ∀ c ∈ a, decide (c ≠ '/') = true := fun c hc => decide_eq_true (ha c hc)
  rw [List.takeWhile_append_of_pos hpos, List.dropWhile_append_of_pos hpos]
  cases path with
  | nil => exact ⟨List.append_nil a, rfl⟩
  | cons c rest =>
    have hc : c = '/' := by
      rcases hpath with h | h
      · cases h
      · exact Option.some.inj h
    subst hc
    exact ⟨List.append_nil a, rfl⟩

/-- The host is cut off at the first colon. -/
theorem cut_port {host : Str} (rest : Str) (hhost : ∀ c ∈ host, c ≠ ':') :
    (host ++ ':' :: rest).takeWhile (fun c => c ≠ ':') = host ∧
      (host ++ ':' :: rest).dropWhile (fun c => c ≠ ':') = ':' :: rest := by
  have hpos : ∀ c ∈ host, decide (c ≠ ':') = true := fun c hc => decide_eq_true (hhost c hc)
  rw [List.takeWhile_append_of_pos hpos, List.dropWhile_append_of_pos hpos]
  exact ⟨List.append_nil host, rfl⟩

/-- **`parse_url_https` inverts rendering.**  Both copies parse a rendered URL back, with 443 for a missing port and
`/` for an empty path; the path may contain `:`, `/` and `https://` again. -/
theorem parse_render (host : Str) (port : Option ℕ) (path : Str) (out : UrlParts)
    (hhost : ∀ c ∈ host, c ≠ ':' ∧ c ≠ '/' ∧ c.toNat ≠ 0) (hport : ∀ p ∈ port, 1 ≤ p ∧ p ≤ 65535)
    (hpath : path = [] ∨ path.head? = some '/') (hnul : ∀ c ∈ path, c.toNat ≠ 0) :
    HttpUtil.parseUrlHttps (render host port path) out =
        (.returned true, ⟨host, port.getD 443, if path = [] then "/".toList else path⟩) ∧
      HttpClient.parseUrlHttps (render host port path) out =
        (.returned true, ⟨host, port.getD 443, if path = [] then "/".toList else path⟩) := by
  have hauth := mem_authority port hhost
  have hplain : ∀ c ∈ render host port path, c.toNat ≠ 0 := by
    intro c hc
    rcases List.mem_append.mp hc with h | h
    · rcases List.mem_append.mp h with h' | h'
      · exact scheme_plain c h'
      · exact (hauth c h').2
    · exact hnul c h
  have hstart : cStr (render host port path) = "https://".toList ++ (authority host port ++ path) :=
    (cStr_self hplain).trans (List.append_assoc _ _ _)
  obtain ⟨hcut, hslash⟩ := cut_path (fun c hc => (hauth c hc).1) hpath
  have hempty : (if path.isEmpty = true then "/".toList else path) = if path = [] then "/".toList else path := by
    cases path <;> rfl
  have hone : parseUrl (render host port path) out =
      (.returned true, ⟨host, port.getD 443, if path = [] then "/".toList else path⟩) := by
    unfold parseUrl
    rw [hstart]
    have htake : ("https://".toList ++ (authority host port ++ path)).take 8 = "https://".toList :=
      List.take_left' scheme_length
    have hdrop : ("https://".toList ++ (authority host port ++ path)).drop 8 = authority host port ++ path :=
      List.drop_left' scheme_length
    simp only [htake, hdrop, hcut, hslash, if_true, hempty]
    cases port with
    | none =>
      have hnone : ':' ∉ authority host none := by
        rw [authority, List.append_nil]
        exact fun hmem => (hhost ':' hmem).1 rfl
      rw [if_neg hnone, authority, List.append_nil]
      rfl
    | some p =>
      obtain ⟨hlow, hhigh⟩ := hport p rfl
      obtain ⟨hbefore, hafter⟩ := cut_port (Nat.toDigits 10 p) fun c hc => (hhost c hc).1
      have hcolon : ':' ∈ host ++ ':' :: Nat.toDigits 10 p := List.mem_append_right _ List.mem_cons_self
      have hvalue : ((p : ℤ) % 65536).toNat = p := by omega
      simp only [authority, if_pos hcolon, hbefore, hafter, List.drop_succ_cons, List.drop_zero,
        stoi_toDigits (n := p) (by omega), hvalue, Option.getD_some]
  exact ⟨hone, hone⟩

set_option maxRecDepth 10000 in
/-- A path that looks like a URL. -/
theorem parse_render_nested :
    HttpUtil.parseUrlHttps "https://abc.com:8443/https://x:1/".toList ⟨[], 0, []⟩ =
      (.returned true, ⟨"abc.com".toList, 8443, "/https://x:1/".toList⟩) := by
  have hurl : render "abc.com".toList (some 8443) "/https://x:1/".toList =
      "https://abc.com:8443/https://x:1/".toList := by decide
  rw [← hurl]
  exact (parse_render "abc.com".toList (some 8443) "/https://x:1/".toList ⟨[], 0, []⟩ (by simp) (by simp) (by simp)
    (by simp)).1

/-! ### Bad ports -/

/-- A decimal number from 1 to 65535. -/
def ValidPort (s : Str) : Prop :=
  s ≠ [] ∧ (∀ c ∈ s, c.isDigit = true) ∧ 1 ≤ Nat.ofDigitChars 10 s 0 ∧ Nat.ofDigitChars 10 s 0 ≤ 65535

/-- The text after the first colon of the authority, if there is one. -/
def portText (url : Str) : Option Str :=
  let hostPort := ((cStr url).drop 8).takeWhile fun c => c ≠ '/'
  if ':' ∈ hostPort then some ((hostPort.dropWhile fun c => c ≠ ':').drop 1) else none

/-- An `https://` URL whose authority has a colon that no port follows. -/
def BadPort (url : Str) : Prop :=
  (cStr url).take 8 = "https://".toList ∧ ∃ text, portText url = some text ∧ ¬ ValidPort text

/-- Past the scheme nothing is rejected. -/
theorem parse_not_false {url : Str} (out : UrlParts) (h : (cStr url).take 8 = "https://".toList) :
    (parseUrl url out).1 ≠ .returned false := by
  unfold parseUrl
  rw [if_pos h]
  by_cases hcolon : ':' ∈ ((cStr url).drop 8).takeWhile fun c => c ≠ '/'
  · rw [if_pos hcolon]
    cases stoi (((((cStr url).drop 8).takeWhile fun c => c ≠ '/').dropWhile fun c => c ≠ ':').drop 1) with
    | none => simp
    | some v => simp
  · rw [if_neg hcolon]
    simp

/-- **No bad port is rejected.**  Neither copy of `parse_url_https` returns `false` for it, and `get` and `post` do not
report it. -/
theorem bad_port_not_rejected (url : Str) (out : UrlParts) (h : BadPort url) :
    (HttpUtil.parseUrlHttps url out).1 ≠ .returned false ∧ (HttpClient.parseUrlHttps url out).1 ≠ .returned false ∧
      ∀ (L : Llhttp) (s : State L) (c : Call), c.url = url → (s.call c).outcomes = s.outcomes := by
  have hnot := parse_not_false out h.1
  refine ⟨hnot, hnot, fun L s c hc => ?_⟩
  have hclient := parseUrlHttps_eq url out
  unfold State.call
  rw [hc]
  cases hparse : parseUrlHttps url with
  | throws => rfl
  | ok host port path => rfl
  | invalid =>
    rw [hparse] at hclient
    split at hclient
    · cases hclient
    · next heq =>
      unfold HttpClient.parseUrlHttps at heq
      rw [heq] at hnot
      exact absurd rfl hnot
    · cases hclient

set_option maxRecDepth 10000 in
theorem bad_port_not_rejected_sign :
    (HttpUtil.parseUrlHttps "https://a:-1/".toList ⟨[], 443, []⟩).1 ≠ .returned false :=
  (bad_port_not_rejected "https://a:-1/".toList ⟨[], 443, []⟩
    ⟨by decide, "-1".toList, by decide, fun h => absurd (h.2.1 '-' (by decide)) (by decide)⟩).1

set_option maxRecDepth 10000 in
/-- **A port out of range is cut to 16 bits.** -/
theorem port_wraps :
    ¬ ∀ (url : Str) (out : UrlParts), BadPort url → HttpClient.parseUrlHttps url out = (.returned false, out) := by
  intro hall
  have hbad : BadPort "https://a:70000".toList := by
    refine ⟨by decide, "70000".toList, by decide, fun h => ?_⟩
    have hle : Nat.ofDigitChars 10 "70000".toList 0 ≤ 65535 := h.2.2.2
    exact absurd hle (by decide)
  have hparse : HttpClient.parseUrlHttps "https://a:70000".toList ⟨[], 443, []⟩ =
      (.returned true, ⟨"a".toList, 4464, "/".toList⟩) := by decide
  have hfalse := hall _ ⟨[], 443, []⟩ hbad
  rw [hparse] at hfalse
  cases hfalse

end KwNet.Https
