import KwNet.Https.Sending

/-!
# Which callback gets which response

`http_client` has one parser, one response and one pair of callbacks.  A call overwrites the callbacks and
resets the parser; the end of a response is looked at once for each `on_message`; header fields are
appended to a copy; and no path calls the error callback of a request that was sent.

* `Fires`, `Llhttp.Documented` — what is relied on of the parser: the callbacks for a message, however its
  bytes are cut into pieces;
* `Matched` — every request sent has had its own callback once, as soon as its response is in or there is
  no more to come;
* `Alone` — one request at a time, answered by a response without headers that shares no `on_message` with
  another, before any close;
* **`responses_matched`** — then the callbacks match;
* **`close_not_reported`** — a connection that is closed before the response.
-/

namespace KwNet.Https

open KwNet.Lib

variable {L : Llhttp}

/-! ### The parser -/

/-- The callbacks for some headers: names and values, each in one piece or more. -/
inductive HeaderEvents : List (Str × Str) → List ParserEvent → Prop
  | nil : HeaderEvents [] []
  | cons {headers : List (Str × Str)} {es : List ParserEvent} (names values : List Str)
      (hnames : names ≠ []) (hvalues : values ≠ []) (h : HeaderEvents headers es) :
      HeaderEvents ((names.flatten, values.flatten) :: headers)
        (names.map .headerField ++ values.map .headerValue ++ es)

/-- The callbacks for a message. -/
def Fires (m : Response) (es : List ParserEvent) : Prop :=
  ∃ (n : ℕ) (hs : List ParserEvent) (bs : List Str), HeaderEvents m.headers hs ∧ bs.flatten = m.body ∧
    es = List.replicate (n + 1) (.status m.statusCode) ++ hs ++ [.headersComplete] ++
      bs.map .body ++ [.messageComplete]

/-- One more piece of input: the parser, the callbacks so far, and whether all went well. -/
def Llhttp.feedOne (L : Llhttp) (a : L.Parser × List ParserEvent × Bool) (bytes : Str) :
    L.Parser × List ParserEvent × Bool :=
  let r := L.execute a.1 bytes
  (r.1, a.2.1 ++ r.2.1, a.2.2 && decide (r.2.2 = .ok))

/-- Pieces of input, from a parser that was just initialised. -/
def Llhttp.feed (L : Llhttp) (chunks : List Str) : L.Parser × List ParserEvent × Bool :=
  chunks.foldl L.feedOne (L.init, [], true)

theorem feed_concat (chunks : List Str) (bytes : Str) :
    L.feed (chunks ++ [bytes]) = L.feedOne (L.feed chunks) bytes := by
  rw [Llhttp.feed, List.foldl_append]
  rfl

/-- The documented behaviour, for the messages `m` that are written as `w`. -/
structure Llhttp.Documented (L : Llhttp) (wire : Response → Str → Prop) : Prop where
  /-- A message fires its callbacks, however it is cut. -/
  whole : ∀ m w, wire m w → ∀ chunks : List Str, chunks.flatten = w →
    Fires m (L.feed chunks).2.1 ∧ (L.feed chunks).2.2 = true
  /-- It is not complete before its last byte. -/
  part : ∀ m w, wire m w → ∀ (chunks : List Str) (rest : Str), rest ≠ [] → chunks.flatten ++ rest = w →
    .messageComplete ∉ (L.feed chunks).2.1 ∧ (L.feed chunks).2.2 = true

/-! ### The decoder -/

/-- The bytes of the body among the callbacks. -/
def bodyOf (es : List ParserEvent) : Str :=
  es.flatMap fun e =>
    match e with
    | .body bytes => bytes
    | _ => []

/-- The last status among the callbacks. -/
def lastStatus (code : ℕ) (es : List ParserEvent) : ℕ :=
  es.foldl (fun code e =>
    match e with
    | .status code => code
    | _ => code) code

theorem bodyOf_append (es fs : List ParserEvent) : bodyOf (es ++ fs) = bodyOf es ++ bodyOf fs :=
  List.flatMap_append

theorem lastStatus_append (code : ℕ) (es fs : List ParserEvent) :
    lastStatus code (es ++ fs) = lastStatus (lastStatus code es) fs :=
  List.foldl_append

/-- **What the callbacks leave behind**: no header ever gets into the response. -/
theorem decode_response (es : List ParserEvent) (d : Decoder) (hfield : d.curHeaderField = []) :
    (es.foldl Decoder.on d).curHeaderField = [] ∧
      (es.foldl Decoder.on d).response =
        ⟨lastStatus d.response.statusCode es, d.response.headers, d.response.body ++ bodyOf es⟩ := by
  induction es generalizing d with
  | nil =>
    refine ⟨hfield, ?_⟩
    show d.response = ⟨d.response.statusCode, d.response.headers, d.response.body ++ []⟩
    rw [List.append_nil]
  | cons e es ih =>
    have hon : (d.on e).curHeaderField = [] ∧ (d.on e).response =
        ⟨lastStatus d.response.statusCode [e], d.response.headers,
          d.response.body ++ bodyOf [e]⟩ := by
      cases e <;> simp [Decoder.on, Decoder.onStatus, Decoder.onHeaderField, Decoder.onHeaderVal,
        Decoder.onHeaderComplete, Decoder.onBody, Decoder.onMsgComplete, hfield, lastStatus, bodyOf]
    obtain ⟨hfield', hresponse⟩ := ih (d.on e) hon.1
    refine ⟨hfield', ?_⟩
    have hbody : bodyOf (e :: es) = bodyOf [e] ++ bodyOf es := bodyOf_append [e] es
    rw [List.foldl_cons, hresponse, hon.2, hbody, List.append_assoc]
    rfl

theorem decode_msgComplete (es : List ParserEvent) (d : Decoder) :
    (es.foldl Decoder.on d).msgComplete = true ↔
      d.msgComplete = true ∨ .messageComplete ∈ es := by
  induction es generalizing d with
  | nil => simp
  | cons e es ih =>
    have hon : (d.on e).msgComplete = true ↔ d.msgComplete = true ∨ .messageComplete = e := by
      cases e with
      | headerField bytes =>
        simp only [Decoder.on, Decoder.onHeaderField]
        split <;> simp
      | _ => simp [Decoder.on, Decoder.onStatus, Decoder.onHeaderVal, Decoder.onHeaderComplete,
          Decoder.onBody, Decoder.onMsgComplete]
    rw [List.foldl_cons, ih, hon, List.mem_cons, or_assoc]

theorem HeaderEvents.mem {headers : List (Str × Str)} {es : List ParserEvent}
    (h : HeaderEvents headers es) (e : ParserEvent) (he : e ∈ es) :
    (∃ bytes, e = .headerField bytes) ∨ ∃ bytes, e = .headerValue bytes := by
  induction h with
  | nil => cases he
  | cons names values hnames hvalues h ih =>
    rcases List.mem_append.mp he with he' | he'
    · rcases List.mem_append.mp he' with hn | hv
      · obtain ⟨bytes, -, rfl⟩ := List.mem_map.mp hn
        exact .inl ⟨bytes, rfl⟩
      · obtain ⟨bytes, -, rfl⟩ := List.mem_map.mp hv
        exact .inr ⟨bytes, rfl⟩
    · exact ih he'

/-- Header callbacks are neither status nor body. -/
theorem headers_quiet {es : List ParserEvent} (code : ℕ)
    (h : ∀ e ∈ es, (∃ bytes, e = .headerField bytes) ∨ ∃ bytes, e = .headerValue bytes) :
    bodyOf es = [] ∧ lastStatus code es = code := by
  induction es with
  | nil => exact ⟨rfl, rfl⟩
  | cons e es ih =>
    obtain ⟨hbody, hstatus⟩ := ih fun f hf => h f (List.mem_cons_of_mem _ hf)
    rcases h e List.mem_cons_self with ⟨bytes, rfl⟩ | ⟨bytes, rfl⟩
    · exact ⟨hbody, hstatus⟩
    · exact ⟨hbody, hstatus⟩

theorem bodyOf_map (bs : List Str) : bodyOf (bs.map .body) = bs.flatten := by
  induction bs with
  | nil => rfl
  | cons b bs ih =>
    have hcons : bodyOf ((b :: bs).map .body) = b ++ bodyOf (bs.map .body) := rfl
    rw [hcons, ih, List.flatten_cons]

theorem lastStatus_body (code : ℕ) (bs : List Str) : lastStatus code (bs.map .body) = code := by
  induction bs with
  | nil => rfl
  | cons b bs ih => exact ih

theorem status_quiet (code code' n : ℕ) :
    bodyOf (List.replicate (n + 1) (.status code)) = [] ∧
      lastStatus code' (List.replicate (n + 1) (.status code)) = code := by
  induction n generalizing code' with
  | zero => exact ⟨rfl, rfl⟩
  | succ n ih =>
    rw [List.replicate_succ]
    exact ih code

/-- A message is decoded, but for its headers. -/
theorem decode_fires {m : Response} {es : List ParserEvent} (h : Fires m es) :
    (es.foldl Decoder.on .fresh).msgComplete = true ∧
      (es.foldl Decoder.on .fresh).response = ⟨m.statusCode, [], m.body⟩ := by
  obtain ⟨n, hs, bs, hheaders, hbody, rfl⟩ := h
  refine ⟨(decode_msgComplete _ _).mpr (.inr (by simp)), ?_⟩
  rw [(decode_response _ Decoder.fresh rfl).2]
  obtain ⟨hb, hst⟩ := status_quiet m.statusCode 0 n
  obtain ⟨hhb, hhs⟩ := headers_quiet m.statusCode hheaders.mem
  simp only [bodyOf_append, lastStatus_append, bodyOf_map, lastStatus_body, hb, hhb, hbody,
    Decoder.fresh, Response.empty, hst, hhs]
  simp [bodyOf, lastStatus]

/-! ### The callbacks of the requests -/

/-- What the callbacks of call `id` got. -/
def outcomesOf (s : State L) (id : ℕ) : List Outcome :=
  (s.outcomes.filter fun p => p.1 = id).map Prod.snd

/-- The first `k` responses of the server, as bytes. -/
def wireOf (rs : List (Response × Str)) (k : ℕ) : Str := (rs.take k).flatMap Prod.snd

/-- The response to the `k`-th request sent is in. -/
def Answered (rs : List (Response × Str)) (s : State L) (k : ℕ) : Prop :=
  k < rs.length ∧ wireOf rs (k + 1) <+: s.received

/-- The `k`-th request sent has had its response callback with the `k`-th response, once, if that is in;
if it is not, it has had none, or, once the connection has failed, its error callback. -/
def Matched (rs : List (Response × Str)) (s : State L) : Prop :=
  ∀ k p, s.sent[k]? = some p →
    (∃ m w, rs[k]? = some (m, w) ∧ Answered rs s k ∧ outcomesOf s p.2.id = [.response m]) ∨
      (¬ Answered rs s k ∧ s.failed = false ∧ outcomesOf s p.2.id = []) ∨
      (¬ Answered rs s k ∧ s.failed = true ∧ ∃ msg, outcomesOf s p.2.id = [.error msg])

/-- Every request that was sent is answered. -/
def Idle (rs : List (Response × Str)) (s : State L) : Prop := ∀ k < s.sent.length, Answered rs s k

/-- One request at a time, and one response without headers in an `on_message`. -/
def Alone (rs : List (Response × Str)) (s : State L) : Action → Prop
  | .call c => c.Accepted →
      Idle rs s ∧ (s.clients c.url = some ⟨true, .connecting⟩ → s.requestBufs = [])
  | .established _ => True
  | .message _ bytes => ∃ k < s.sent.length, ¬ Answered rs s k ∧ ∃ p ∈ rs[k]?, p.1.headers = [] ∧
      wireOf rs k <+: s.received ∧ s.received ++ bytes <+: wireOf rs (k + 1)
  | .closed _ => Idle rs s

/-- Where the one request that is sent stands. -/
inductive Phase (url : Str) (rs : List (Response × Str)) (s : State L) : Prop
  /-- Nothing is sent. -/
  | waiting
      (hclient : (s.clients url = none ∧ s.requestBufs = []) ∨
        (s.clients url = some ⟨true, .connecting⟩ ∧ ∃ r, s.requestBufs = [r] ∧
          s.respCb = some r.id ∧ r.id < s.calls ∧ outcomesOf s r.id = []))
      (hsent : s.sent = []) (hreceived : s.received = []) (hparser : s.parser = L.init)
      (hdecoder : s.decoder = .fresh) (hfailed : s.failed = false)
  /-- The response has not come in, or a part of it has. -/
  | asked (r : Request) (chunks : List Str) (es : List ParserEvent)
      (hclient : s.clients url = some ⟨true, .established⟩) (hsent : s.sent = [(url, r)])
      (hcb : s.respCb = some r.id) (hid : r.id < s.calls) (hnone : outcomesOf s r.id = [])
      (hreceived : s.received = chunks.flatten) (hfeed : L.feed chunks = (s.parser, es, true))
      (hdecoder : s.decoder = es.foldl Decoder.on .fresh) (hopen : ¬ Answered rs s 0)
      (hfailed : s.failed = false)
  /-- The response is in, and the callback was called. -/
  | answered (r : Request) (m : Response) (w : Str)
      (hclient : s.clients url = some ⟨true, .established⟩ ∨ s.clients url = some ⟨true, .closed⟩)
      (hsent : s.sent = [(url, r)]) (hid : r.id < s.calls) (hrs : rs[0]? = some (m, w))
      (hanswered : Answered rs s 0) (hout : outcomesOf s r.id = [.response m])

/-- The invariant. -/
structure Serving (url : Str) (rs : List (Response × Str)) (s : State L) : Prop where
  others : ∀ v, v ≠ url → s.clients v = none
  ids : ∀ p ∈ s.outcomes, p.1 < s.calls
  phase : Phase url rs s

variable {s s' : State L} {url : Str} {rs : List (Response × Str)} {wire : Response → Str → Prop}

theorem Phase.matched (h : Phase url rs s) : Matched rs s := by
  intro k p hp
  have only_first : ∀ {r : Request}, s.sent = [(url, r)] → k = 0 ∧ p = (url, r) := by
    intro r hsent
    rw [hsent] at hp
    cases k with
    | zero => exact ⟨rfl, (Option.some.inj hp).symm⟩
    | succ k => cases hp
  cases h with
  | waiting hclient hsent =>
    rw [hsent] at hp
    cases hp
  | asked r chunks es hclient hsent hcb hid hnone hreceived hfeed hdecoder hopen hfailed =>
    obtain ⟨rfl, rfl⟩ := only_first hsent
    exact .inr (.inl ⟨hopen, hfailed, hnone⟩)
  | answered r m w hclient hsent hid hrs hanswered hout =>
    obtain ⟨rfl, rfl⟩ := only_first hsent
    exact .inl ⟨m, w, hrs, hanswered, hout⟩

theorem outcomesOf_new (hids : ∀ p ∈ s.outcomes, p.1 < s.calls) : outcomesOf s s.calls = [] := by
  rw [outcomesOf, List.map_eq_nil_iff, List.filter_eq_nil_iff]
  intro p hp
  have hlt := hids p hp
  simp only [decide_eq_true_eq]
  omega

/-- The callbacks of other calls do not matter. -/
theorem outcomesOf_append {id : ℕ} {o : List (ℕ × Outcome)} (ho : ∀ p ∈ o, p.1 ≠ id)
    (h : s'.outcomes = s.outcomes ++ o) : outcomesOf s' id = outcomesOf s id := by
  have hnil : o.filter (fun p => p.1 = id) = [] := by
    rw [List.filter_eq_nil_iff]
    intro p hp
    simpa using ho p hp
  rw [outcomesOf, outcomesOf, h, List.filter_append, hnil, List.append_nil]

theorem wireOf_one (rs : List (Response × Str)) : wireOf rs 1 = (rs[0]?.map Prod.snd).getD [] := by
  cases rs with
  | nil => rfl
  | cons p rs => simp [wireOf]

/-- A call that is not accepted only adds an outcome of its own. -/
theorem Serving.reject (hI : Serving url rs s) {o : List (ℕ × Outcome)} (ho : ∀ p ∈ o, p.1 = s.calls)
    (heq : s' = { s with calls := s.calls + 1, outcomes := s.outcomes ++ o }) : Serving url rs s' := by
  have hkeep : ∀ id, id < s.calls → outcomesOf s' id = outcomesOf s id := by
    intro id hid
    refine outcomesOf_append (o := o) (fun p hp => ?_) (by rw [heq])
    have hp' := ho p hp
    omega
  refine ⟨by rw [heq]; exact hI.others, fun p hp => ?_, ?_⟩
  · rw [heq] at hp ⊢
    rcases List.mem_append.mp hp with hp' | hp'
    · exact Nat.lt_succ_of_lt (hI.ids p hp')
    · rw [ho p hp']
      exact Nat.lt_succ_self _
  · cases hI.phase with
    | waiting hclient hsent hreceived hparser hdecoder hfailed =>
      have hclient' := hclient.imp_right fun h => by
        obtain ⟨hk, r, hbufs, hcb, hid, hnone⟩ := h
        exact (⟨hk, r, hbufs, hcb, Nat.lt_succ_of_lt hid, (hkeep r.id hid).trans hnone⟩ :
          s.clients url = some ⟨true, .connecting⟩ ∧ ∃ r, s.requestBufs = [r] ∧
            s.respCb = some r.id ∧ r.id < s.calls + 1 ∧ outcomesOf s' r.id = [])
      subst heq
      exact .waiting hclient' hsent hreceived hparser hdecoder hfailed
    | asked r chunks es hclient hsent hcb hid hnone hreceived hfeed hdecoder hopen hfailed =>
      have hnone' := (hkeep r.id hid).trans hnone
      subst heq
      exact .asked r chunks es hclient hsent hcb (Nat.lt_succ_of_lt hid) hnone' hreceived hfeed
        hdecoder hopen hfailed
    | answered r m w hclient hsent hid hrs hanswered hout =>
      have hout' := (hkeep r.id hid).trans hout
      subst heq
      exact .answered r m w hclient hsent (Nat.lt_succ_of_lt hid) hrs hanswered hout'

theorem Serving.call (hI : Serving url rs s) {c : Call} (honly : c.url = url)
    (hP : Alone rs s (.call c)) : Serving url rs (s.call c) := by
  rcases call_cases s c with ⟨o, heq, ho⟩ | ⟨host, port, path, hurl, heq⟩
  · exact hI.reject ho heq
  · obtain ⟨hidle, hfree⟩ := hP (Call.accepted_of_ok hurl)
    rw [honly] at hfree heq
    have hnew := outcomesOf_new hI.ids
    rw [heq]
    refine ⟨fun v hv => ?_, fun p hp => Nat.lt_succ_of_lt (hI.ids p hp), ?_⟩
    · simp only [Function.update_of_ne hv]
      exact hI.others v hv
    · cases hI.phase with
      | waiting hclient hsent hreceived hparser hdecoder hfailed =>
        rcases hclient with ⟨hk, hbufs⟩ | ⟨hk, r, hbufs, -⟩
        · refine .waiting (.inr ⟨?_, ⟨s.calls, url, c.text host path⟩, ?_, rfl,
            Nat.lt_succ_self _, hnew⟩) hsent hreceived rfl rfl hfailed
          · simp only [Function.update_self, hk]
            rfl
          · simp only [hbufs]
        · have hnil := hfree hk
          rw [hbufs] at hnil
          cases hnil
      | asked r chunks es hclient hsent hcb hid hnone hreceived hfeed hdecoder hopen hfailed =>
        exact absurd (hidle 0 (by rw [hsent]; exact Nat.one_pos)) hopen
      | answered r m w hclient hsent hid hrs hanswered hout =>
        refine .answered r m w ?_ hsent (Nat.lt_succ_of_lt hid) hrs hanswered hout
        simp only [Function.update_self]
        rcases hclient with hk | hk
        · rw [hk]
          exact .inl rfl
        · rw [hk]
          exact .inr rfl

/-- No message is written with no bytes. -/
theorem Llhttp.Documented.wire_ne_nil (hdoc : L.Documented wire) {m : Response} {w : Str}
    (h : wire m w) : w ≠ [] := by
  intro hw
  obtain ⟨n, hs, bs, -, -, heq⟩ := (hdoc.whole m w h [] hw.symm).1
  have hlen := congrArg List.length heq
  simp [Llhttp.feed] at hlen

theorem Serving.established (hdoc : L.Documented wire) (hwire : ∀ p ∈ rs, wire p.1 p.2)
    (hI : Serving url rs s) (hclient : s.clients url = some ⟨true, .connecting⟩) :
    Serving url rs (s.onConnection url) := by
  refine ⟨fun v hv => ?_, hI.ids, ?_⟩
  · simp only [State.onConnection, Function.update_of_ne hv]
    exact hI.others v hv
  · cases hI.phase with
    | waiting hwhere hsent hreceived hparser hdecoder hfailed =>
      rcases hwhere with ⟨hk, -⟩ | ⟨-, r, hbufs, hcb, hid, hnone⟩
      · rw [hk] at hclient
        cases hclient
      · refine .asked r [] [] ?_ ?_ hcb hid hnone hreceived ?_ hdecoder ?_ hfailed
        · simp only [State.onConnection, Function.update_self]
        · simp only [State.onConnection, hsent, hbufs, List.map_cons, List.map_nil, List.nil_append]
        · rw [State.onConnection, hparser]
          rfl
        · rintro ⟨hlen, hpre⟩
          have hpre' : wireOf rs 1 <+: s.received := hpre
          rw [hreceived, List.prefix_nil, wireOf_one, List.getElem?_eq_getElem hlen] at hpre'
          exact hdoc.wire_ne_nil (hwire _ (List.getElem_mem hlen)) hpre'
    | asked r chunks es hk =>
      rw [hk] at hclient
      exact absurd hclient (by decide)
    | answered r m w hk =>
      rw [hclient] at hk
      exact absurd hk (by decide)

/-- **One more piece of the response.** -/
theorem Serving.message (hdoc : L.Documented wire) (hwire : ∀ p ∈ rs, wire p.1 p.2)
    (hI : Serving url rs s) {bytes : Str} (hP : Alone rs s (.message url bytes)) :
    Serving url rs (s.onMessage bytes) := by
  obtain ⟨k, hk, hnot, ⟨m, w⟩, hrs, hheaders, hbefore, hpre⟩ := hP
  cases hI.phase with
  | waiting hclient hsent =>
    rw [hsent] at hk
    cases hk
  | answered r m' w' hclient hsent hid hrs' hanswered hout =>
    rw [hsent] at hk
    obtain rfl : k = 0 := by simpa using hk
    exact absurd hanswered hnot
  | asked r chunks es hclient hsent hcb hid hnone hreceived hfeed hdecoder hopen hfailed =>
    rw [hsent] at hk
    obtain rfl : k = 0 := by simpa using hk
    have hw : wire m w := hwire _ (List.mem_of_getElem? hrs)
    have hwhole : wireOf rs 1 = w := by
      rw [wireOf_one, Option.mem_def.mp hrs]
      rfl
    rw [hwhole, hreceived] at hpre
    obtain ⟨rest, hrest⟩ := hpre
    -- what the parser makes of this piece
    have hchunks : (chunks ++ [bytes]).flatten = chunks.flatten ++ bytes := by
      rw [List.flatten_append, List.flatten_singleton]
    have hfeed' : L.feed (chunks ++ [bytes]) = ((L.execute s.parser bytes).1,
        es ++ (L.execute s.parser bytes).2.1, decide ((L.execute s.parser bytes).2.2 = .ok)) := by
      rw [feed_concat, hfeed]
      rfl
    have hdecoder' : (s.execute bytes).1.decoder =
        (es ++ (L.execute s.parser bytes).2.1).foldl Decoder.on .fresh := by
      rw [List.foldl_append, ← hdecoder]
      rfl
    obtain ⟨hclients, -, -, hsent'⟩ := onMessage_frame s bytes
    by_cases hlast : rest = []
    · -- the last piece: the callback gets the response
      rw [hlast, List.append_nil, ← hchunks] at hrest
      obtain ⟨hfires, hok⟩ := hdoc.whole m w hw _ hrest
      rw [hfeed'] at hfires hok
      have hcode : (s.execute bytes).2 = .ok := of_decide_eq_true hok
      obtain ⟨hcomplete, hresponse⟩ := decode_fires hfires
      rw [← hdecoder'] at hcomplete hresponse
      have hm : (s.execute bytes).1.decoder.response = m := by
        rw [hresponse, ← hheaders]
      have heq : s.onMessage bytes = (s.execute bytes).1.respond.resetParser := by
        rcases onMessage_cases s bytes with ⟨-, -, h⟩ | ⟨h, -⟩ | ⟨h, -⟩
        · exact h
        · rw [hcode] at h
          cases h
        · rw [h hcode] at hcomplete
          cases hcomplete
      have houtcomes : (s.onMessage bytes).outcomes = s.outcomes ++ [(r.id, .response m)] := by
        rw [heq, ← hm]
        show s.outcomes ++ s.respCb.toList.map _ = _
        rw [hcb]
        rfl
      have hcalls : (s.onMessage bytes).calls = s.calls := by
        rw [heq]
        rfl
      refine ⟨by rw [hclients]; exact hI.others, fun p hp => ?_, ?_⟩
      · rw [houtcomes] at hp
        rw [hcalls]
        rcases List.mem_append.mp hp with hp' | hp'
        · exact hI.ids p hp'
        · rw [List.mem_singleton.mp hp']
          exact hid
      · refine .answered r m w (.inl (hclients ▸ hclient)) (hsent'.trans hsent) (by rw [hcalls]; exact hid)
          hrs ⟨(List.getElem?_eq_some_iff.mp hrs).1, ?_⟩ ?_
        · show wireOf rs 1 <+: (s.onMessage bytes).received
          have hreceived' : (s.onMessage bytes).received = s.received ++ bytes := by
            rw [heq]
            rfl
          rw [hwhole, hreceived', hreceived, ← hchunks, hrest]
        · rw [outcomesOf, houtcomes, List.filter_append, List.map_append]
          have hold : (s.outcomes.filter fun p => p.1 = r.id).map Prod.snd = [] := hnone
          rw [hold]
          simp
    · -- the response is not complete
      obtain ⟨hpart, hok⟩ := hdoc.part m w hw (chunks ++ [bytes]) rest hlast (by rw [hchunks, hrest])
      rw [hfeed'] at hpart hok
      have hcode : (s.execute bytes).2 = .ok := of_decide_eq_true hok
      have hcomplete : ¬ (s.execute bytes).1.decoder.msgComplete = true := by
        rw [hdecoder', decode_msgComplete]
        rintro (h | h)
        · cases h
        · exact hpart h
      have heq : s.onMessage bytes = (s.execute bytes).1 := by
        rcases onMessage_cases s bytes with ⟨-, h, -⟩ | ⟨h, -⟩ | ⟨-, h⟩
        · exact absurd h hcomplete
        · rw [hcode] at h
          cases h
        · exact h
      refine ⟨by rw [hclients]; exact hI.others, by rw [heq]; exact hI.ids, ?_⟩
      rw [heq]
      refine .asked r (chunks ++ [bytes]) (es ++ (L.execute s.parser bytes).2.1) hclient hsent hcb hid
        hnone ?_ ?_ hdecoder' ?_ hfailed
      · show s.received ++ bytes = _
        rw [hchunks, hreceived]
      · rw [hfeed']
        exact congrArg (fun b => (_, _, b)) hok
      · rintro ⟨-, hpre⟩
        have hpre' : wireOf rs 1 <+: s.received ++ bytes := hpre
        have hlen := hpre'.length_le
        rw [hwhole, hreceived, ← hrest, List.length_append] at hlen
        have hpos := List.length_pos_of_ne_nil hlast
        omega

theorem Serving.closed (hI : Serving url rs s) (hidle : Idle rs s)
    (hclient : s.clients url = some ⟨true, .established⟩) :
    Serving url rs { s with
      clients := Function.update s.clients url (some ⟨true, .closed⟩), failed := true } := by
  refine ⟨fun v hv => ?_, hI.ids, ?_⟩
  · simp only [Function.update_of_ne hv]
    exact hI.others v hv
  · cases hI.phase with
    | waiting hwhere =>
      rcases hwhere with ⟨hk, -⟩ | ⟨hk, -⟩
      · rw [hk] at hclient
        cases hclient
      · rw [hk] at hclient
        exact absurd hclient (by decide)
    | asked r chunks es hk hsent hcb hid hnone hreceived hfeed hdecoder hopen hfailed =>
      exact absurd (hidle 0 (by rw [hsent]; exact Nat.one_pos)) hopen
    | answered r m w hk hsent hid hrs hanswered hout =>
      exact .answered r m w (.inr (Function.update_self _ _ _)) hsent hid hrs hanswered hout

theorem Serving.step {a : Action} (hdoc : L.Documented wire) (hwire : ∀ p ∈ rs, wire p.1 p.2)
    (hI : Serving url rs s) (honly : Only url s a) (hP : Alone rs s a)
    (h : Https.step s a = some s') : Serving url rs s' := by
  have hself : ∀ v k, s.clients v = some k → v = url := by
    intro v k hk
    by_contra hne
    rw [hI.others v hne] at hk
    cases hk
  cases a with
  | call c =>
    cases h
    exact hI.call honly hP
  | established v =>
    simp only [Https.step] at h
    split at h <;> cases h
    next hclient =>
    have hv := hself v _ hclient
    subst hv
    exact hI.established hdoc hwire hclient
  | message v bytes =>
    simp only [Https.step] at h
    split at h <;> cases h
    exact hI.message hdoc hwire hP
  | closed v =>
    simp only [Https.step] at h
    split at h <;> cases h
    next hclient =>
    have hv := hself v _ hclient
    subst hv
    exact hI.closed hP hclient

theorem serving_init (L : Llhttp) (url : Str) (rs : List (Response × Str)) :
    Serving url rs (State.init L) where
  others := fun _ _ => rfl
  ids := List.forall_mem_nil _
  phase := .waiting (.inl ⟨rfl, rfl⟩) rfl rfl rfl rfl rfl

/-- **Responses are matched to requests.**  For a parser that behaves as documented, any calls for one URL,
any responses of the server and any way in which their bytes are cut into pieces: if calls and closes find
every request that was sent answered, no second request waits for the connection, and every piece
belongs to one response without headers, then every request sent has had exactly its own callback. -/
theorem responses_matched (wire : Response → Str → Prop) (hdoc : L.Documented wire) (url : Str)
    (rs : List (Response × Str)) (hwire : ∀ p ∈ rs, wire p.1 p.2) (as : List Action) (s : State L)
    (honly : Along step (Only url) (State.init L) as)
    (halone : Along step (Alone rs) (State.init L) as)
    (hrun : run step (State.init L) as = some s) : Matched rs s := by
  have hI : Serving url rs s :=
    run_induction_along (fun s a => Only url s a ∧ Alone rs s a) (Serving url rs)
      (serving_init L url rs) (fun _ _ _ hI hP h => hI.step hdoc hwire hP.1 hP.2 h)
      (honly.and halone) hrun
  exact hI.phase.matched

instance (rs : List (Response × Str)) (s : State L) (k : ℕ) : Decidable (Answered rs s k) :=
  inferInstanceAs (Decidable (_ ∧ _))

instance (rs : List (Response × Str)) (s : State L) : Decidable (Idle rs s) :=
  inferInstanceAs (Decidable (∀ k < s.sent.length, Answered rs s k))

instance (rs : List (Response × Str)) (s : State L) : (a : Action) → Decidable (Alone rs s a)
  | .call c => inferInstanceAs (Decidable (c.Accepted →
      Idle rs s ∧ (s.clients c.url = some ⟨true, .connecting⟩ → s.requestBufs = [])))
  | .established _ => .isTrue trivial
  | .message _ bytes => inferInstanceAs (Decidable (∃ k < s.sent.length, ¬ Answered rs s k ∧
      ∃ p ∈ rs[k]?, p.1.headers = [] ∧ wireOf rs k <+: s.received ∧
        s.received ++ bytes <+: wireOf rs (k + 1)))
  | .closed _ => inferInstanceAs (Decidable (Idle rs s))

/-- A response without headers and body. -/
def noContent : Response := ⟨204, [], []⟩

def noContentWire : Str := "HTTP/1.1 204 No Content\r\n\r\n".toList

def noContentEvents : List ParserEvent := [.status 204, .headersComplete, .messageComplete]

/-- A parser for that response, which it waits for as a whole. -/
def noContentParser : Llhttp where
  Parser := Str
  init := []
  execute p bytes :=
    (p ++ bytes, if p ≠ noContentWire ∧ p ++ bytes = noContentWire then noContentEvents else [], .ok)

theorem noContent_feed (chunks : List Str) (hpre : chunks.flatten <+: noContentWire) :
    noContentParser.feed chunks =
      (chunks.flatten, if chunks.flatten = noContentWire then noContentEvents else [], true) := by
  induction chunks using List.reverseRecOn with
  | nil => rfl
  | append_singleton chunks bytes ih =>
    rw [List.flatten_append, List.flatten_singleton] at hpre ⊢
    have hshort : chunks.flatten <+: noContentWire := (List.prefix_append _ _).trans hpre
    rw [feed_concat, ih hshort]
    show (chunks.flatten ++ bytes, _ ++ _, true && decide (Errno.ok = .ok)) = _
    by_cases hdone : chunks.flatten = noContentWire
    · -- nothing can follow
      have hnil : bytes = [] := by
        have hlen := hpre.length_le
        rw [hdone, List.length_append] at hlen
        exact List.eq_nil_of_length_eq_zero (by omega)
      simp [hdone, hnil, noContentParser]
    · simp [hdone, noContentParser]

theorem noContent_documented :
    noContentParser.Documented fun m w => m = noContent ∧ w = noContentWire where
  whole := by
    rintro m w ⟨rfl, rfl⟩ chunks hchunks
    rw [noContent_feed chunks (by rw [hchunks]), hchunks, if_pos rfl]
    exact ⟨⟨0, [], [], .nil, rfl, rfl⟩, rfl⟩
  part := by
    rintro m w ⟨rfl, rfl⟩ chunks rest hrest hchunks
    have hne : chunks.flatten ≠ noContentWire := by
      intro heq
      rw [heq] at hchunks
      exact hrest (List.append_right_eq_self.mp hchunks)
    rw [noContent_feed chunks ⟨rest, hchunks⟩, if_neg hne]
    exact ⟨List.not_mem_nil, rfl⟩

/-- A request, its response, and the end of the connection. -/
def askOnce : List Action :=
  [.call (plainGet "https://a/x"), .established "https://a/x".toList,
    .message "https://a/x".toList noContentWire, .closed "https://a/x".toList]

theorem responses_matched_no_content :
    ∃ s, Along step (Only "https://a/x".toList) (State.init noContentParser) askOnce ∧
      Along step (Alone [(noContent, noContentWire)]) (State.init noContentParser) askOnce ∧
      run step (State.init noContentParser) askOnce = some s ∧
      s.outcomes = [(0, .response noContent)] ∧ Matched [(noContent, noContentWire)] s := by
  have honly : Along step (Only "https://a/x".toList) (State.init noContentParser) askOnce := by decide
  have halone :
      Along step (Alone [(noContent, noContentWire)]) (State.init noContentParser) askOnce := by decide
  have hrun : run step (State.init noContentParser) askOnce = some _ := rfl
  have hwire : ∀ p ∈ [(noContent, noContentWire)], p.1 = noContent ∧ p.2 = noContentWire := by simp
  exact ⟨_, honly, halone, hrun, rfl,
    responses_matched _ noContent_documented _ _ hwire _ _ honly halone hrun⟩

/-- **A close is not reported**: the request that was sent gets no callback at all. -/
theorem close_not_reported :
    ¬ ∀ (L : Llhttp) (wire : Response → Str → Prop), L.Documented wire → ∀ (url : Str)
      (rs : List (Response × Str)), (∀ p ∈ rs, wire p.1 p.2) → ∀ (as : List Action) (s : State L),
      Along step (Only url) (State.init L) as → run step (State.init L) as = some s →
        Matched rs s := by
  intro hall
  have hrun : run step (State.init noContentParser) [.call (plainGet "https://a/x"),
      .established "https://a/x".toList, .closed "https://a/x".toList] = some _ := rfl
  have hmatched := hall noContentParser _ noContent_documented "https://a/x".toList [] (by simp) _ _
    (by decide) hrun 0 _ rfl
  rcases hmatched with ⟨m, w, hrs, -⟩ | ⟨-, hfailed, -⟩ | ⟨-, -, msg, hout⟩
  · cases hrs
  · cases hfailed
  · cases hout

end KwNet.Https
