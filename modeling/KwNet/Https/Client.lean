import Mathlib
import KwNet.Lib.Run
import KwNet.Https.Request

/-!
# `http_client`: one parser and one list of requests for all connections

`https/https_client.cpp` with what it uses of `TcpClient`, on the loop's thread.  A run is any list of calls
of `get` and `post` and of the events that reach the client: the connection of a URL is established,
delivers bytes, is closed.

`TcpClient::connect` is called right after the client of a URL is made, and nothing ever clears its
`connect_` (`retry_` is never set), so a client has at most one connection.

The response parser is not part of the sources: `Llhttp` is what is used of it, a function from its state
and a piece of input to the callbacks it fires and the error code it returns.  `memset(&response, 0, ..)`
is read as making `response` empty.

Callbacks are named by the number of their call.  The fields from `calls` on are history.
-/

namespace KwNet.Https

/-- The callbacks of the parser. -/
inductive ParserEvent where
  /-- `on_status`, where `status_code` of the parser is `code`. -/
  | status (code : ℕ)
  | headerField (bytes : Str)
  | headerValue (bytes : Str)
  | headersComplete
  | body (bytes : Str)
  | messageComplete
  deriving DecidableEq

/-- `llhttp_errno_t`, as `on_message` tells its values apart. -/
inductive Errno where
  | ok
  | paused
  | error
  deriving DecidableEq

/-- `llhttp`. -/
structure Llhttp where
  Parser : Type
  /-- The parser after `llhttp_init(&parser, HTTP_RESPONSE, ..)`. -/
  init : Parser
  /-- `llhttp_execute`. -/
  execute : Parser → Str → Parser × List ParserEvent × Errno

/-- `http_response`. -/
structure Response where
  statusCode : ℕ
  headers : List (Str × Str)
  body : Str
  deriving DecidableEq

def Response.empty : Response := ⟨0, [], []⟩

/-- `headers[f] = v`. -/
def Response.setHeader (r : Response) (f v : Str) : Response :=
  { r with headers := r.headers.filter (fun h => h.1 ≠ f) ++ [(f, v)] }

/-- The fields that the parser's callbacks use. -/
structure Decoder where
  response : Response
  headersComplete : Bool
  msgComplete : Bool
  curHeaderField : Str
  curHeaderVal : Str
  deriving DecidableEq

/-- `resetParser`, without `llhttp_init`. -/
def Decoder.fresh : Decoder := ⟨.empty, false, false, [], []⟩

/-- `on_status`. -/
def Decoder.onStatus (d : Decoder) (code : ℕ) : Decoder :=
  { d with response := { d.response with statusCode := code } }

/-- `on_header_field`.  `f` and `v` are copies, so what is appended and cleared is lost. -/
def Decoder.onHeaderField (d : Decoder) : Decoder :=
  if d.curHeaderField ≠ [] ∧ d.curHeaderVal ≠ [] then
    { d with response := d.response.setHeader d.curHeaderField d.curHeaderVal }
  else d

/-- `on_hader_val`. -/
def Decoder.onHeaderVal (d : Decoder) (bytes : Str) : Decoder :=
  { d with curHeaderVal := d.curHeaderVal ++ bytes }

/-- `on_header_complete`. -/
def Decoder.onHeaderComplete (d : Decoder) : Decoder :=
  { d with
    response :=
      if d.curHeaderField ≠ [] then d.response.setHeader d.curHeaderField d.curHeaderVal
      else d.response
    headersComplete := true }

/-- `on_body`. -/
def Decoder.onBody (d : Decoder) (bytes : Str) : Decoder :=
  { d with response := { d.response with body := d.response.body ++ bytes } }

/-- `on_msg_complete`. -/
def Decoder.onMsgComplete (d : Decoder) : Decoder := { d with msgComplete := true }

def Decoder.on (d : Decoder) : ParserEvent → Decoder
  | .status code => d.onStatus code
  | .headerField _ => d.onHeaderField
  | .headerValue bytes => d.onHeaderVal bytes
  | .headersComplete => d.onHeaderComplete
  | .body bytes => d.onBody bytes
  | .messageComplete => d.onMsgComplete

/-- The connection of a `TcpClient`. -/
inductive Connection where
  | connecting
  | established
  | closed
  deriving DecidableEq

/-- `TcpClient`. -/
structure TcpClient where
  /-- `connect_`. -/
  connect : Bool
  connection : Connection
  deriving DecidableEq

/-- A request that was built: the number of its call, its URL and its text. -/
structure Request where
  id : ℕ
  url : Str
  text : Str
  deriving DecidableEq

/-- What a callback of the user gets. -/
inductive Outcome where
  /-- `resp_cb(response)`. -/
  | response (r : Response)
  /-- `err_cb(msg)`. -/
  | error (msg : Str)
  deriving DecidableEq

/-- The client and the history of the run. -/
structure State (L : Llhttp) where
  parser : L.Parser
  decoder : Decoder
  respCb : Option ℕ
  errCb : Option ℕ
  clients : Str → Option TcpClient
  /-- `std::forward_list`, its front first. -/
  requestBufs : List Request
  /-- The number of calls. -/
  calls : ℕ
  /-- The requests that were built, in call order. -/
  accepted : List Request
  /-- The requests passed to `send`, with the URL of the client whose connection it was. -/
  sent : List (Str × Request)
  /-- The callbacks that were called. -/
  outcomes : List (ℕ × Outcome)
  /-- The bytes passed to `llhttp_execute`. -/
  received : Str
  /-- A connection was closed, or the parser has reported an error. -/
  failed : Bool

inductive Action where
  /-- `get` or `post`. -/
  | call (c : Call)
  /-- The connection of the client of `url` is established. -/
  | established (url : Str)
  /-- `on_message` of that connection, with `bytes` in its buffer. -/
  | message (url : Str) (bytes : Str)
  /-- That connection is closed. -/
  | closed (url : Str)

variable {L : Llhttp}

/-- `resetParser`. -/
def State.resetParser (s : State L) : State L := { s with parser := L.init, decoder := .fresh }

/-- The `TcpClient` that is made for a URL. -/
def TcpClient.new : TcpClient := ⟨false, .connecting⟩

/-- `if (!client->get_connect()) client->connect();`. -/
def TcpClient.ensureConnect (k : TcpClient) : TcpClient :=
  if k.connect then k else { k with connect := true }

theorem TcpClient.ensureConnect_eq (k : TcpClient) : k.ensureConnect = ⟨true, k.connection⟩ := by
  obtain ⟨connect, connection⟩ := k
  cases connect <;> rfl

/-- The end of `get` and `post`: the client of the URL is made if it is missing, and connects. -/
def State.connect (s : State L) (url : Str) : State L :=
  { s with
    clients := Function.update s.clients url (some ((s.clients url).getD .new).ensureConnect) }

/-- `get` and `post`. -/
def State.call (s : State L) (c : Call) : State L :=
  let s := { s with calls := s.calls + 1 }
  match parseUrlHttps c.url with
  | .invalid =>
    { s with outcomes := s.outcomes ++ [(s.calls - 1, .error ("Invalid URL: ".toList ++ c.url))] }
  | .throws => s
  | .ok host _ path =>
    let r : Request := ⟨s.calls - 1, c.url, c.text host path⟩
    let s := s.resetParser
    { s with
      respCb := some r.id
      errCb := some r.id
      requestBufs := r :: s.requestBufs
      accepted := s.accepted ++ [r] }.connect c.url

/-- `on_connection`. -/
def State.onConnection (s : State L) (url : Str) : State L :=
  { s with
    clients := Function.update s.clients url (some ⟨true, .established⟩)
    sent := s.sent ++ s.requestBufs.map fun r => (url, r)
    requestBufs := [] }

/-- `llhttp_execute` with the client's callbacks. -/
def State.execute (s : State L) (bytes : Str) : State L × Errno :=
  let r := L.execute s.parser bytes
  ({ s with
      parser := r.1
      decoder := r.2.1.foldl Decoder.on s.decoder
      received := s.received ++ bytes }, r.2.2)

/-- `resp_cb(response)`. -/
def State.respond (s : State L) : State L :=
  { s with
    outcomes := s.outcomes ++ (s.respCb.toList.map fun id => (id, .response s.decoder.response)) }

/-- `on_message`. -/
def State.onMessage (s : State L) (bytes : Str) : State L :=
  let r := s.execute bytes
  if r.2 = .ok ∧ r.1.decoder.msgComplete = true then r.1.respond.resetParser
  -- the connection is shut down for writing
  else if r.2 ≠ .ok ∧ r.2 ≠ .paused then { r.1 with failed := true }
  else r.1

/-- The transition function. -/
def step (s : State L) : Action → Option (State L)
  | .call c => some (s.call c)
  | .established url =>
    if s.clients url = some ⟨true, .connecting⟩ then some (s.onConnection url) else none
  | .message url bytes =>
    if s.clients url = some ⟨true, .established⟩ then some (s.onMessage bytes) else none
  | .closed url =>
    if s.clients url = some ⟨true, .established⟩ then
      some { s with
        clients := Function.update s.clients url (some ⟨true, .closed⟩)
        failed := true }
    else none

/-- Right after the constructor. -/
def State.init (L : Llhttp) : State L :=
  { parser := L.init
    decoder := .fresh
    respCb := none
    errCb := none
    clients := fun _ => none
    requestBufs := []
    calls := 0
    accepted := []
    sent := []
    outcomes := []
    received := []
    failed := false }

/-! ### The steps -/

/-- What a call does. -/
theorem call_cases (s : State L) (c : Call) :
    (∃ o, s.call c = { s with calls := s.calls + 1, outcomes := s.outcomes ++ o } ∧
        ∀ p ∈ o, p.1 = s.calls) ∨
      ∃ host port path, parseUrlHttps c.url = .ok host port path ∧
        s.call c = { s with
          parser := L.init
          decoder := .fresh
          respCb := some s.calls
          errCb := some s.calls
          clients := Function.update s.clients c.url
            (some ⟨true, ((s.clients c.url).getD .new).connection⟩)
          requestBufs := ⟨s.calls, c.url, c.text host path⟩ :: s.requestBufs
          calls := s.calls + 1
          accepted := s.accepted ++ [⟨s.calls, c.url, c.text host path⟩] } := by
  unfold State.call
  cases hurl : parseUrlHttps c.url with
  | invalid => exact .inl ⟨[(s.calls, _)], rfl, by simp⟩
  | throws => exact .inl ⟨[], by simp, List.forall_mem_nil _⟩
  | ok host port path =>
    refine .inr ⟨host, port, path, rfl, ?_⟩
    simp only [State.connect, State.resetParser, Nat.add_sub_cancel, TcpClient.ensureConnect_eq]

/-- What `on_message` does after `llhttp_execute`. -/
theorem onMessage_cases (s : State L) (bytes : Str) :
    ((s.execute bytes).2 = .ok ∧ (s.execute bytes).1.decoder.msgComplete = true ∧
        s.onMessage bytes = (s.execute bytes).1.respond.resetParser) ∨
      ((s.execute bytes).2 = .error ∧ s.onMessage bytes = { (s.execute bytes).1 with failed := true }) ∨
      (((s.execute bytes).2 = .ok → (s.execute bytes).1.decoder.msgComplete = false) ∧
        s.onMessage bytes = (s.execute bytes).1) := by
  unfold State.onMessage
  by_cases hdone : (s.execute bytes).2 = .ok ∧ (s.execute bytes).1.decoder.msgComplete = true
  · exact .inl ⟨hdone.1, hdone.2, if_pos hdone⟩
  · by_cases herr : (s.execute bytes).2 ≠ .ok ∧ (s.execute bytes).2 ≠ .paused
    · refine .inr (.inl ⟨?_, (if_neg hdone).trans (if_pos herr)⟩)
      cases hcode : (s.execute bytes).2 with
      | ok => exact absurd hcode herr.1
      | paused => exact absurd hcode herr.2
      | error => rfl
    · refine .inr (.inr ⟨fun hok => ?_, (if_neg hdone).trans (if_neg herr)⟩)
      exact Bool.eq_false_iff.mpr fun hcomplete => hdone ⟨hok, hcomplete⟩

/-- `on_message` leaves the requests and the connections alone. -/
theorem onMessage_frame (s : State L) (bytes : Str) :
    (s.onMessage bytes).clients = s.clients ∧ (s.onMessage bytes).requestBufs = s.requestBufs ∧
      (s.onMessage bytes).accepted = s.accepted ∧ (s.onMessage bytes).sent = s.sent := by
  rcases onMessage_cases s bytes with ⟨-, -, heq⟩ | ⟨-, heq⟩ | ⟨-, heq⟩
  · rw [heq]
    exact ⟨rfl, rfl, rfl, rfl⟩
  · rw [heq]
    exact ⟨rfl, rfl, rfl, rfl⟩
  · rw [heq]
    exact ⟨rfl, rfl, rfl, rfl⟩

end KwNet.Https
