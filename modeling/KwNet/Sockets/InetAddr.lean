import KwNet.Lib.Endian

/-!
# `InetAddr` from a text, and back

`InetAddr` is a union of `sockaddr_in` and `sockaddr_in6`.  Its constructor hands the text to one of the two
`fromIpPort`; `ipStr` and `ipPortStr` go by the family they find.  Both `fromIpPort` store `AF_INET` and call
`inet_pton` for `AF_INET`.

* `Storage` — the bytes of the union, one field for each part of its layout;
* `InetAddr.ctor`, `ipStr`, `ipPortStr` — with `inet_pton` and `inet_ntop` as parameters (`Inet`);
* **`address_round_trip`** — the address comes back exactly if it is an IPv4 address;
* **`ipv6_is_any`** — what an IPv6 address becomes.
-/

namespace KwNet.InetAddr

open KwNet.Lib

/-- `inet_pton` and `inet_ntop`; an address is given by its bytes in memory. -/
structure Inet where
  pton4 : List Char → Option (List UInt8)
  pton6 : List Char → Option (List UInt8)
  ntop4 : List UInt8 → List Char
  ntop6 : List UInt8 → List Char

/-- What their documentation says about IPv4. -/
structure Inet.Documented (net : Inet) : Prop where
  /-- Dotted-decimal notation. -/
  dotted : ∀ ip a, net.pton4 ip = some a → ':' ∉ ip
  /-- `INET_ADDRSTRLEN`, the terminator included. -/
  length4 : ∀ a, (net.ntop4 a).length < 16

inductive Family where
  | unspec
  | inet
  | inet6
  deriving DecidableEq, Repr

/-- The union. -/
structure Storage where
  /-- `sin_family`, `sin6_family`. -/
  family : Family
  /-- `sin_port`, `sin6_port`, as they lie in memory. -/
  port : ℕ
  /-- `sin_addr`, and `sin6_flowinfo`. -/
  sinAddr : List UInt8
  /-- `sin6_addr`; its first half is `sin_zero`. -/
  sin6Addr : List UInt8
  /-- `sin6_scope_id`. -/
  scopeId : ℕ
  deriving DecidableEq, Repr

/-- `memset(&addr4, 0, sizeof(addr4))`. -/
def Storage.zero4 (u : Storage) : Storage :=
  { u with
    family := .unspec
    port := 0
    sinAddr := List.replicate 4 0
    sin6Addr := List.replicate 8 0 ++ u.sin6Addr.drop 8 }

/-- `memset(&addr6, 0, sizeof(addr6))`. -/
def Storage.zero6 : Storage :=
  { family := .unspec, port := 0, sinAddr := List.replicate 4 0, sin6Addr := List.replicate 16 0, scopeId := 0 }

variable (net : Inet) (order : ByteOrder)

/-- `fromIpPort` for a `sockaddr_in`. -/
def fromIpPort4 (ip : List Char) (port : ℕ) (u : Storage) : Storage :=
  let u := { u with family := .inet, port := order.htobe 2 port }
  match net.pton4 ip with
  | some a => { u with sinAddr := a }
  | none => u

/-- `fromIpPort` for a `sockaddr_in6`: an address of four bytes goes to the beginning of `sin6_addr`. -/
def fromIpPort6 (ip : List Char) (port : ℕ) (u : Storage) : Storage :=
  let u := { u with family := .inet, port := order.htobe 2 port }
  match net.pton4 ip with
  | some a => { u with sin6Addr := a ++ u.sin6Addr.drop 4 }
  | none => u

/-- The constructor `InetAddr(ip, port, isIpv6)`, on a storage with any content. -/
def ctor (u : Storage) (ip : List Char) (port : ℕ) (isIpv6 : Bool) : Storage :=
  if isIpv6 ∨ ':' ∈ ip then fromIpPort6 net order ip port .zero6 else fromIpPort4 net order ip port u.zero4

/-- `inet_ntop` writes nothing where the text and its terminator do not fit. -/
def put (buf : List Char) (size : ℕ) (text : List Char) : List Char := if text.length < size then text else buf

/-- `toIp`: the string in the buffer afterwards, if the assertion holds. -/
def toIp (buf : List Char) (size : ℕ) (u : Storage) : Option (List Char) :=
  match u.family with
  | .inet => if 16 ≤ size then some (put buf size (net.ntop4 u.sinAddr)) else none
  | .inet6 => if 16 ≤ size then some (put buf size (net.ntop6 u.sin6Addr)) else none
  | .unspec => some buf

/-- `snprintf(buf + strlen(buf), size - strlen(buf), …)`. -/
def printBehind (buf : List Char) (size : ℕ) (text : List Char) : List Char :=
  buf ++ text.take (size - buf.length - 1)

/-- The first part of `toIpPort`, for `AF_INET6`: the string it leaves in the buffer. -/
def toIpPort6 (buf : List Char) (size : ℕ) (u : Storage) : Option (List Char) :=
  if u.family = .inet6 then
    (toIp net (buf.drop 1) (size - 1) u).bind fun ip =>
      let buf := '[' :: ip
      if buf.length + 4 < size then
        some (printBehind buf size ([']', ':'] ++ Nat.toDigits 10 (order.betoh 2 u.port)))
      else none
  else some buf

/-- `toIpPort`.  Whatever the first part has written, the second writes over it. -/
def toIpPort (size : ℕ) (u : Storage) : Option (List Char) :=
  (toIpPort6 net order [] size u).bind fun buf =>
    (toIp net buf size u).bind fun buf =>
      if buf.length < size then some (printBehind buf size (':' :: Nat.toDigits 10 (order.betoh 2 u.port))) else none

/-- `ipStr`; `ipStr4` and `ipStr6` read the same bytes. -/
def ipStr (u : Storage) : Option (List Char) := toIp net [] 64 u

/-- `ipPortStr`. -/
def ipPortStr (u : Storage) : Option (List Char) := toIpPort net order 64 u

/-! ### The round trip -/

def familyOf (isIpv6 : Bool) : Family := if isIpv6 then .inet6 else .inet

/-- The text `ip` is an address of the family, with the bytes `a`. -/
def Denotes (ip : List Char) (isIpv6 : Bool) (a : List UInt8) : Prop :=
  if isIpv6 then net.pton6 ip = some a else net.pton4 ip = some a

/-- Its canonical text. -/
def canonical (isIpv6 : Bool) (a : List UInt8) : List Char := if isIpv6 then net.ntop6 a else net.ntop4 a

/-- `ip:port`, or `[ip]:port`. -/
def withPort (isIpv6 : Bool) (text : List Char) (port : ℕ) : List Char :=
  if isIpv6 then ['['] ++ text ++ [']', ':'] ++ Nat.toDigits 10 port else text ++ [':'] ++ Nat.toDigits 10 port

/-- The storage gives the address back. -/
structure GivesBack (isIpv6 : Bool) (a : List UInt8) (port : ℕ) (u : Storage) : Prop where
  family : u.family = familyOf isIpv6
  ipStr : ipStr net u = some (canonical net isIpv6 a)
  ipPortStr : ipPortStr net order u = some (withPort isIpv6 (canonical net isIpv6 a) port)

variable {net order}

/-- The texts of an IPv4 address. -/
theorem inet_texts (order : ByteOrder) (hdoc : net.Documented) {u : Storage} (hfamily : u.family = .inet) {port : ℕ} (hport : port < 65536)
    (hstored : u.port = order.htobe 2 port) :
    ipStr net u = some (net.ntop4 u.sinAddr) ∧
      ipPortStr net order u = some (net.ntop4 u.sinAddr ++ [':'] ++ Nat.toDigits 10 port) := by
  have hlen := hdoc.length4 u.sinAddr
  have hip : ∀ buf, toIp net buf 64 u = some (net.ntop4 u.sinAddr) := by
    intro buf
    rw [toIp, hfamily]
    show (if 16 ≤ 64 then some (put buf 64 (net.ntop4 u.sinAddr)) else none) = _
    rw [if_pos (by decide), put, if_pos (by omega)]
  have hread : order.betoh 2 u.port = port := by
    rw [hstored]
    exact betoh_htobe order hport
  have hdigits : (Nat.toDigits 10 port).length ≤ 5 :=
    (Nat.length_toDigits_le_iff (by decide) (by decide)).mpr (by omega)
  refine ⟨hip [], ?_⟩
  rw [ipPortStr, toIpPort, toIpPort6, if_neg (by rw [hfamily]; decide), Option.bind_some, hip, Option.bind_some,
    if_pos (by omega), hread, printBehind, List.take_of_length_le (by rw [List.length_cons]; omega), List.append_assoc]
  rfl

/-- What the two functions `fromIpPort` have in common. -/
theorem fromIpPort_fields (net : Inet) (order : ByteOrder) (ip : List Char) (port : ℕ) (u : Storage) :
    (fromIpPort4 net order ip port u).family = .inet ∧ (fromIpPort4 net order ip port u).port = order.htobe 2 port ∧
      (fromIpPort6 net order ip port u).family = .inet ∧ (fromIpPort6 net order ip port u).port = order.htobe 2 port ∧
        (fromIpPort6 net order ip port u).sinAddr = u.sinAddr := by
  unfold fromIpPort4 fromIpPort6
  cases net.pton4 ip with
  | none => exact ⟨rfl, rfl, rfl, rfl, rfl⟩
  | some a => exact ⟨rfl, rfl, rfl, rfl, rfl⟩

/-- **An IPv6 address becomes `0.0.0.0`.** -/
theorem ipv6_is_any (hdoc : net.Documented) (u : Storage) (ip : List Char) {port : ℕ} (hport : port < 65536) :
    (ctor net order u ip port true).family = .inet ∧
      ipPortStr net order (ctor net order u ip port true) =
        some (net.ntop4 [0, 0, 0, 0] ++ [':'] ++ Nat.toDigits 10 port) := by
  obtain ⟨-, -, hfamily, hstored, hword⟩ := fromIpPort_fields net order ip port .zero6
  have heq : ctor net order u ip port true = fromIpPort6 net order ip port .zero6 := if_pos (.inl rfl)
  have htexts := (inet_texts order hdoc hfamily hport hstored).2
  rw [hword] at htexts
  rw [heq]
  exact ⟨hfamily, htexts⟩

/-- **Which addresses come back.**  For every text of an IPv4 or IPv6 address, every port and every host, with
`isIpv6` matching the address: the family, the canonical text and the text with the port are those of the
address exactly if it is an IPv4 address. -/
theorem address_round_trip (net : Inet) (hdoc : net.Documented) (order : ByteOrder) (u : Storage) (ip : List Char)
    (a : List UInt8) (port : ℕ) (hport : port < 65536) (isIpv6 : Bool) (hip : Denotes net ip isIpv6 a) :
    GivesBack net order isIpv6 a port (ctor net order u ip port isIpv6) ↔ isIpv6 = false := by
  cases isIpv6 with
  | true =>
    refine iff_of_false (fun hback => ?_) (by decide)
    have hfamily := hback.family
    rw [(ipv6_is_any hdoc u ip hport).1] at hfamily
    cases hfamily
  | false =>
    refine iff_of_true ?_ rfl
    have haddr : net.pton4 ip = some a := hip
    have hcolon := hdoc.dotted ip a haddr
    have heq : ctor net order u ip port false = fromIpPort4 net order ip port u.zero4 := by
      refine if_neg ?_
      intro h
      exact h.elim (fun h => by cases h) hcolon
    have hword : (fromIpPort4 net order ip port u.zero4).sinAddr = a := by
      rw [fromIpPort4, haddr]
    obtain ⟨hfamily, hstored, -⟩ := fromIpPort_fields net order ip port u.zero4
    obtain ⟨hstr, hportStr⟩ := inet_texts order hdoc hfamily hport hstored
    rw [hword] at hstr hportStr
    rw [heq]
    exact ⟨hfamily, hstr, hportStr⟩

/-! ### A C library for two addresses -/

/-- A number from 0 to 255 in decimal, without leading zeros. -/
def octet (s : List Char) : Option UInt8 :=
  if s ≠ [] ∧ s.length ≤ 3 ∧ (s.head? = some '0' → s = ['0']) ∧ Nat.ofDigitChars 10 s 0 ≤ 255 then
    some (UInt8.ofNat (Nat.ofDigitChars 10 s 0))
  else none

/-- Four numbers with dots between them; of the IPv6 addresses only the loopback address is known. -/
def loopbackNet : Inet where
  pton4 := fun ip =>
    if ip.all fun c => c.isDigit || c == '.' then
      match (ip.splitOn '.').mapM octet with
      | some [a, b, c, d] => some [a, b, c, d]
      | _ => none
    else none
  pton6 := fun ip => if ip = [':', ':', '1'] then some (List.replicate 15 0 ++ [1]) else none
  ntop4 := fun a => (List.intercalate ['.'] (a.map fun x => Nat.toDigits 10 x.toNat)).take 15
  ntop6 := fun _ => [':', ':', '1']

theorem loopbackNet_documented : loopbackNet.Documented where
  dotted := by
    intro ip a h hcolon
    have hall : (ip.all fun c => c.isDigit || c == '.') = true := by
      by_contra hno
      rw [loopbackNet] at h
      dsimp only at h
      rw [if_neg hno] at h
      cases h
    exact absurd (List.all_eq_true.mp hall ':' hcolon) (by decide)
  length4 := by
    intro a
    exact Nat.lt_succ_of_le (List.length_take_le _ _)

/-- `127.0.0.1:80`. -/
theorem address_round_trip_loopback :
    GivesBack loopbackNet .little false [127, 0, 0, 1] 80
      (ctor loopbackNet .little .zero6 ['1', '2', '7', '.', '0', '.', '0', '.', '1'] 80 false) :=
  (address_round_trip loopbackNet loopbackNet_documented .little .zero6
    ['1', '2', '7', '.', '0', '.', '0', '.', '1'] [127, 0, 0, 1] 80 (by decide) false rfl).mpr rfl

/-- `[::1]:80` becomes `0.0.0.0:80`. -/
theorem ipv6_lost :
    ¬ ∀ (net : Inet), net.Documented → ∀ (order : ByteOrder) (u : Storage) (ip : List Char) (a : List UInt8) (port : ℕ),
      port < 65536 → ∀ isIpv6 : Bool, Denotes net ip isIpv6 a →
        GivesBack net order isIpv6 a port (ctor net order u ip port isIpv6) := by
  intro hall
  have hback := hall loopbackNet loopbackNet_documented .little .zero6 [':', ':', '1'] (List.replicate 15 0 ++ [1]) 80
    (by decide) true rfl
  cases hback.family

end KwNet.InetAddr
