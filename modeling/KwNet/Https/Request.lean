import Mathlib

/-!
# URLs and request texts

`parse_url_https` and the texts that `get` and `post` build (`https/https_client.cpp`).  A `std::string` is
a list of characters; a header map is the list of its entries in the order in which the code walks it.
-/

namespace KwNet.Https

/-- `std::string`. -/
abbrev Str := List Char

/-- What a C function sees of a string: the characters before the first NUL. -/
def cStr (s : Str) : Str := s.takeWhile fun c => c.toNat ≠ 0

/-- `std::isspace`. -/
def isSpace (c : Char) : Bool := c = ' ' || (9 ≤ c.toNat && c.toNat ≤ 13)

/-- `std::stoi`; `none` where it throws. -/
def stoi (s : Str) : Option ℤ :=
  let s := s.dropWhile isSpace
  let sign : ℤ × Str :=
    match s with
    | '-' :: s => (-1, s)
    | '+' :: s => (1, s)
    | s => (1, s)
  let digits := sign.2.takeWhile Char.isDigit
  let v : ℤ := sign.1 * digits.foldl (fun n c => 10 * n + (c.toNat - '0'.toNat)) 0
  if digits.isEmpty then none else if -2 ^ 31 ≤ v ∧ v < 2 ^ 31 then some v else none

/-- What `parse_url_https` comes to. -/
inductive ParsedUrl where
  /-- It returns `false`. -/
  | invalid
  /-- `std::stoi` throws. -/
  | throws
  | ok (host : Str) (port : ℕ) (path : Str)
  deriving DecidableEq

/-- `parse_url_https`. -/
def parseUrlHttps (url : Str) : ParsedUrl :=
  let start := cStr url
  if start.take 8 = "https://".toList then
    let hostStart := start.drop 8
    let hostPort := hostStart.takeWhile fun c => c ≠ '/'
    let slash := hostStart.dropWhile fun c => c ≠ '/'
    let path := if slash.isEmpty then "/".toList else slash
    if ':' ∈ hostPort then
      match stoi ((hostPort.dropWhile fun c => c ≠ ':').drop 1) with
      | none => .throws
      | some v => .ok (hostPort.takeWhile fun c => c ≠ ':') (v % 65536).toNat path
    else .ok hostPort 443 path
  else .invalid

/-- `Connection:` and its value. -/
def connectionLine (keepAlive : Bool) : Str :=
  "Connection: ".toList ++ if keepAlive then "keep-alive\r\n".toList else "close\r\n".toList

def headerLine (h : Str × Str) : Str := h.1 ++ ": ".toList ++ h.2 ++ "\r\n".toList

/-- The request text of `get`. -/
def getText (host path : Str) (headers : List (Str × Str)) (keepAlive : Bool) : Str :=
  "GET ".toList ++ path ++ " HTTP/1.1\r\n".toList ++ "Host: ".toList ++ host ++ "\r\n".toList ++
    connectionLine keepAlive ++ headers.flatMap headerLine ++ "\r\n".toList

/-- The request text of `post`. -/
def postText (host path : Str) (headers : List (Str × Str)) (body : Str) (keepAlive : Bool) : Str :=
  "POST ".toList ++ path ++ " HTTP/1.1\r\n".toList ++ "Host: ".toList ++ host ++ "\r\n".toList ++
    connectionLine keepAlive ++ "Content-Length: ".toList ++ Nat.toDigits 10 body.length ++
    "\r\n".toList ++ headers.flatMap headerLine ++ "\r\n".toList ++ body

/-- The arguments of `get` (`body` is `none`) and of `post`, without the callbacks. -/
structure Call where
  url : Str
  headers : List (Str × Str)
  body : Option Str
  keepAlive : Bool

/-- The request text of a call, once its URL is parsed. -/
def Call.text (c : Call) (host path : Str) : Str :=
  match c.body with
  | none => getText host path c.headers c.keepAlive
  | some body => postText host path c.headers body c.keepAlive

end KwNet.Https
