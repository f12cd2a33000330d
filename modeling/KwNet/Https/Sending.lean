import KwNet.Https.Client

/-!
# Which connection sends which request

All requests wait in the one list `request_bufs`, new ones in front, until some connection is
established; that connection sends them all.

* **`requests_go_to_own_host`** — a request is sent on the connection of its own URL, if a call never finds
  requests of another URL waiting or another connection on its way;
* **`request_sent_elsewhere`** — two URLs whose connections are on their way at once;
* **`requests_sent_in_order`** — with one URL, everything is sent once and in order, if a call never finds
  a request waiting or the connection established;
* **`request_held_back`** — a second request on an open connection.
-/

namespace KwNet.Https

open KwNet.Lib

variable {L : Llhttp}

/-- The URL of a call is one that `parse_url_https` accepts. -/
def Call.Accepted (c : Call) : Prop :=
  match parseUrlHttps c.url with
  | .ok _ _ _ => True
  | _ => False

instance (c : Call) : Decidable c.Accepted :=
  match h : parseUrlHttps c.url with
  | .ok _ _ _ => .isTrue (by simp only [Call.Accepted, h])
  | .invalid => .isFalse (by simp only [Call.Accepted, h, not_false_eq_true])
  | .throws => .isFalse (by simp only [Call.Accepted, h, not_false_eq_true])

theorem Call.accepted_of_ok {c : Call} {host path : Str} {port : ℕ}
    (h : parseUrlHttps c.url = .ok host port path) : c.Accepted := by
  simp only [Call.Accepted, h]

/-! ### One host for each request -/

/-- A call finds no request of another URL waiting, and no connection to another URL on its way. -/
def Lone (s : State L) : Action → Prop
  | .call c => c.Accepted → (∀ r ∈ s.requestBufs, r.url = c.url) ∧
      ∀ r ∈ s.accepted, r.url ≠ c.url → s.clients r.url ≠ some ⟨true, .connecting⟩
  | _ => True

/-- The invariant of `Lone` runs. -/
structure Isolated (s : State L) : Prop where
  /-- A connection on its way is one that all waiting requests wait for. -/
  pending : ∀ r ∈ s.requestBufs, ∀ v, s.clients v = some ⟨true, .connecting⟩ → v = r.url
  known : ∀ v k, s.clients v = some k → ∃ r ∈ s.accepted, r.url = v
  sent : ∀ p ∈ s.sent, p.2.url = p.1

variable {s s' : State L}

/-- The steps that leave the requests and the connections on their way alone. -/
theorem Isolated.congr (hI : Isolated s) (hclients : ∀ v k, s'.clients v = some k →
      ∃ k', s.clients v = some k' ∧ (k = ⟨true, .connecting⟩ → k' = ⟨true, .connecting⟩))
    (hbufs : s'.requestBufs = s.requestBufs) (haccepted : s'.accepted = s.accepted)
    (hsent : s'.sent = s.sent) : Isolated s' where
  pending := by
    rw [hbufs]
    intro r hr v hv
    obtain ⟨k', hk', hconnecting⟩ := hclients v _ hv
    rw [hconnecting rfl] at hk'
    exact hI.pending r hr v hk'
  known := by
    rw [haccepted]
    intro v k hv
    obtain ⟨k', hk', -⟩ := hclients v k hv
    exact hI.known v k' hk'
  sent := by
    rw [hsent]
    exact hI.sent

theorem Isolated.call (hI : Isolated s) {c : Call} (hP : Lone s (.call c)) : Isolated (s.call c) := by
  rcases call_cases s c with ⟨o, heq, -⟩ | ⟨host, port, path, hurl, heq⟩
  · rw [heq]
    exact hI.congr (fun v k hk => ⟨k, hk, id⟩) rfl rfl rfl
  · rw [heq]
    obtain ⟨hsame, hnone⟩ := hP (Call.accepted_of_ok hurl)
    refine ⟨fun r hr v hv => ?_, fun v k hv => ?_, hI.sent⟩
    · have hvc : v = c.url := by
        by_contra hne
        have hv' : s.clients v = some ⟨true, .connecting⟩ := by
          rw [← hv]
          exact (Function.update_of_ne hne _ _).symm
        obtain ⟨r', hr', rfl⟩ := hI.known v _ hv'
        exact hnone r' hr' hne hv'
      rcases List.mem_cons.mp hr with rfl | hr'
      · exact hvc
      · rw [hsame r hr']
        exact hvc
    · by_cases hvc : v = c.url
      · exact ⟨_, List.mem_append_right _ (List.mem_singleton_self _), hvc.symm⟩
      · have hv' : s.clients v = some k := by
          rw [← hv]
          exact (Function.update_of_ne hvc _ _).symm
        obtain ⟨r, hr, hrv⟩ := hI.known v k hv'
        exact ⟨r, List.mem_append_left _ hr, hrv⟩

theorem Isolated.step {a : Action} (hI : Isolated s) (hP : Lone s a) (h : Https.step s a = some s') :
    Isolated s' := by
  cases a with
  | call c =>
    cases h
    exact hI.call hP
  | established url =>
    simp only [Https.step] at h
    split at h <;> cases h
    next hclient =>
    refine ⟨List.forall_mem_nil _, fun v k hv => ?_, fun p hp => ?_⟩
    · by_cases hvu : v = url
      · rw [hvu]
        exact hI.known url _ hclient
      · have hv' : s.clients v = some k := by
          rw [← hv]
          exact (Function.update_of_ne hvu _ _).symm
        exact hI.known v k hv'
    · rcases List.mem_append.mp hp with hp' | hp'
      · exact hI.sent p hp'
      · obtain ⟨r, hr, rfl⟩ := List.mem_map.mp hp'
        exact (hI.pending r hr url hclient).symm
  | message url bytes =>
    simp only [Https.step] at h
    split at h <;> cases h
    obtain ⟨hclients, hbufs, haccepted, hsent⟩ := onMessage_frame s bytes
    exact hI.congr (fun v k hk => ⟨k, hclients ▸ hk, id⟩) hbufs haccepted hsent
  | closed url =>
    simp only [Https.step] at h
    split at h <;> cases h
    next hclient =>
    refine hI.congr (fun v k hk => ?_) rfl rfl rfl
    by_cases hvu : v = url
    · subst hvu
      simp only [Function.update_self, Option.some.injEq] at hk
      refine ⟨_, hclient, fun hconnecting => ?_⟩
      rw [hconnecting] at hk
      cases hk
    · simp only [Function.update_of_ne hvu] at hk
      exact ⟨k, hk, id⟩

theorem isolated_init (L : Llhttp) : Isolated (State.init L) where
  pending := List.forall_mem_nil _
  known := by
    intro v k hk
    cases hk
  sent := List.forall_mem_nil _

/-- **Requests go to their own host.**  For any calls with any URLs and headers, any order in which the
connections are established and any bytes they deliver: if no call finds a request of another URL
waiting or the connection to another URL on its way, then every request passed to `send` was passed on
the connection of the client of its own URL. -/
theorem requests_go_to_own_host (as : List Action) (s : State L)
    (hlone : Along step Lone (State.init L) as) (hrun : run step (State.init L) as = some s) :
    ∀ p ∈ s.sent, p.2.url = p.1 :=
  (run_induction_along Lone Isolated (isolated_init L) (fun _ _ _ hI hP h => hI.step hP h) hlone
    hrun).sent

instance (s : State L) : (a : Action) → Decidable (Lone s a)
  | .call c => inferInstanceAs (Decidable (c.Accepted → (∀ r ∈ s.requestBufs, r.url = c.url) ∧
      ∀ r ∈ s.accepted, r.url ≠ c.url → s.clients r.url ≠ some ⟨true, .connecting⟩))
  | .established _ => .isTrue trivial
  | .message _ _ => .isTrue trivial
  | .closed _ => .isTrue trivial

/-- A parser that never fires; the runs below deliver no bytes. -/
def noParser : Llhttp := ⟨Unit, (), fun _ _ => ((), [], .ok)⟩

/-- `get` without headers. -/
def plainGet (url : String) : Call := ⟨url.toList, [], none, true⟩

/-- The second URL is called when the first one is connected. -/
def oneAfterTheOther : List Action :=
  [.call (plainGet "https://a/x"), .established "https://a/x".toList, .call (plainGet "https://b/y"),
    .established "https://b/y".toList]

theorem requests_go_to_own_host_two :
    ∃ s, Along step Lone (State.init noParser) oneAfterTheOther ∧
      run step (State.init noParser) oneAfterTheOther = some s ∧
      s.sent.map (fun p => (p.1, p.2.id)) = [("https://a/x".toList, 0), ("https://b/y".toList, 1)] ∧
      ∀ p ∈ s.sent, p.2.url = p.1 := by
  have hlone : Along step Lone (State.init noParser) oneAfterTheOther := by decide
  have hrun : run step (State.init noParser) oneAfterTheOther = some _ := rfl
  exact ⟨_, hlone, hrun, by decide, requests_go_to_own_host oneAfterTheOther _ hlone hrun⟩

/-- **A request goes to another host**: the second connection is established first. -/
theorem request_sent_elsewhere :
    ¬ ∀ (as : List Action) (s : State noParser), run step (State.init noParser) as = some s →
      ∀ p ∈ s.sent, p.2.url = p.1 := by
  intro hall
  have hrun : run step (State.init noParser) [.call (plainGet "https://a/x"),
      .call (plainGet "https://b/y"), .established "https://b/y".toList] = some _ := rfl
  exact absurd (hall _ _ hrun) (by decide)

/-! ### One URL -/

/-- All calls are for `url`. -/
def Only (url : Str) (_ : State L) : Action → Prop
  | .call c => c.url = url
  | _ => True

/-- A call finds no request waiting, and the connection not established. -/
def Prompt (s : State L) : Action → Prop
  | .call c => c.Accepted → s.requestBufs = [] ∧ s.clients c.url ≠ some ⟨true, .established⟩
  | _ => True

/-- The invariant of `Prompt` runs. -/
structure InOrder (url : Str) (s : State L) : Prop where
  others : ∀ v, v ≠ url → s.clients v = none
  connect : ∀ k, s.clients url = some k → k.connect = true
  before : s.clients url ≠ some ⟨true, .established⟩ → s.clients url ≠ some ⟨true, .closed⟩ →
    s.sent = [] ∧ s.accepted = s.requestBufs
  after : s.clients url = some ⟨true, .established⟩ →
    s.sent = s.accepted.map (fun r => (url, r)) ∧ s.requestBufs = []

variable {url : Str}

theorem InOrder.congr (hI : InOrder url s) (hclients : s'.clients = s.clients)
    (hbufs : s'.requestBufs = s.requestBufs) (haccepted : s'.accepted = s.accepted)
    (hsent : s'.sent = s.sent) : InOrder url s' where
  others := by
    rw [hclients]
    exact hI.others
  connect := by
    rw [hclients]
    exact hI.connect
  before := by
    rw [hclients, hsent, haccepted, hbufs]
    exact hI.before
  after := by
    rw [hclients, hsent, haccepted, hbufs]
    exact hI.after

theorem InOrder.call (hI : InOrder url s) {c : Call} (honly : c.url = url)
    (hP : Prompt s (.call c)) : InOrder url (s.call c) := by
  rcases call_cases s c with ⟨o, heq, -⟩ | ⟨host, port, path, hurl, heq⟩
  · rw [heq]
    exact hI.congr rfl rfl rfl rfl
  · obtain ⟨hnone, hclosed⟩ := hP (Call.accepted_of_ok hurl)
    rw [heq, honly]
    rw [honly] at hclosed
    refine ⟨fun v hv => ?_, fun k hk => ?_, fun _ hcl => ?_, fun hest => ?_⟩
    · simp only [Function.update_of_ne hv]
      exact hI.others v hv
    · simp only [Function.update_self, Option.some.injEq] at hk
      rw [← hk]
    · simp only [Function.update_self, ne_eq, Option.some.injEq, TcpClient.mk.injEq, true_and] at hcl
      have hcl' : s.clients url ≠ some ⟨true, .closed⟩ := by
        intro h
        rw [h] at hcl
        exact hcl rfl
      obtain ⟨hsent, haccepted⟩ := hI.before hclosed hcl'
      rw [hnone] at haccepted
      refine ⟨hsent, ?_⟩
      simp only [haccepted, hnone, List.nil_append]
    · -- the connection is as it was before the call, so it is not established
      simp only [Function.update_self, Option.some.injEq, TcpClient.mk.injEq, true_and] at hest
      cases hk : s.clients url with
      | none =>
        rw [hk] at hest
        cases hest
      | some k =>
        have hconnect := hI.connect k hk
        rw [hk, Option.getD_some] at hest
        obtain ⟨connect, connection⟩ := k
        simp only at hconnect hest
        rw [hconnect, hest] at hk
        exact absurd hk hclosed

theorem InOrder.step {a : Action} (hI : InOrder url s) (honly : Only url s a) (hP : Prompt s a)
    (h : Https.step s a = some s') : InOrder url s' := by
  -- only the connection of `url` can be touched
  have hself : ∀ v k, s.clients v = some k → v = url := by
    intro v k hk
    by_contra hne
    rw [hI.others v hne] at hk
    cases hk
  cases a with
  | call c =>
    cases h
    exact hI.call honly hP
  | established v =>
    simp only [Https.step] at h
    split at h <;> cases h
    next hclient =>
    have hv := hself v _ hclient
    subst hv
    have hne : s.clients v ≠ some ⟨true, .established⟩ ∧ s.clients v ≠ some ⟨true, .closed⟩ := by
      rw [hclient]
      decide
    obtain ⟨hsent, haccepted⟩ := hI.before hne.1 hne.2
    refine ⟨fun u hu => ?_, fun k hk => ?_, fun hest => ?_, fun _ => ⟨?_, rfl⟩⟩
    · simp only [State.onConnection, Function.update_of_ne hu]
      exact hI.others u hu
    · simp only [State.onConnection, Function.update_self, Option.some.injEq] at hk
      rw [← hk]
    · simp only [State.onConnection, Function.update_self, ne_eq, not_true_eq_false] at hest
    · simp only [State.onConnection, hsent, haccepted, List.nil_append]
  | message v bytes =>
    simp only [Https.step] at h
    split at h <;> cases h
    obtain ⟨hclients, hbufs, haccepted, hsent⟩ := onMessage_frame s bytes
    exact hI.congr hclients hbufs haccepted hsent
  | closed v =>
    simp only [Https.step] at h
    split at h <;> cases h
    next hclient =>
    have hv := hself v _ hclient
    subst hv
    refine ⟨fun u hu => ?_, fun k hk => ?_, fun _ hcl => ?_, fun hest => ?_⟩
    · simp only [Function.update_of_ne hu]
      exact hI.others u hu
    · simp only [Function.update_self, Option.some.injEq] at hk
      rw [← hk]
    · simp only [Function.update_self, ne_eq, not_true_eq_false] at hcl
    · simp only [Function.update_self] at hest
      exact absurd hest (by decide)

theorem inOrder_init (L : Llhttp) (url : Str) : InOrder url (State.init L) where
  others := fun _ _ => rfl
  connect := by
    intro k hk
    cases hk
  before := fun _ _ => ⟨rfl, rfl⟩
  after := by
    intro h
    cases h

/-- **Every accepted request is sent, once and in order.**  For any calls for one URL, interleaved in any
way with its connection being established, delivering bytes and being closed: if each call finds no
request waiting and the connection not established, then whenever the connection is established the
requests passed to `send` are the accepted ones, in call order, and none waits. -/
theorem requests_sent_in_order (url : Str) (as : List Action) (s : State L)
    (honly : Along step (Only url) (State.init L) as) (hprompt : Along step Prompt (State.init L) as)
    (hrun : run step (State.init L) as = some s)
    (hestablished : s.clients url = some ⟨true, .established⟩) :
    s.sent = s.accepted.map (fun r => (url, r)) ∧ s.requestBufs = [] := by
  have hI : InOrder url s :=
    run_induction_along (fun s a => Only url s a ∧ Prompt s a) (InOrder url) (inOrder_init L url)
      (fun _ _ _ hI hP h => hI.step hP.1 hP.2 h) (honly.and hprompt) hrun
  exact hI.after hestablished

instance (url : Str) (s : State L) : (a : Action) → Decidable (Only url s a)
  | .call c => inferInstanceAs (Decidable (c.url = url))
  | .established _ => .isTrue trivial
  | .message _ _ => .isTrue trivial
  | .closed _ => .isTrue trivial

instance (s : State L) : (a : Action) → Decidable (Prompt s a)
  | .call c => inferInstanceAs (Decidable
      (c.Accepted → s.requestBufs = [] ∧ s.clients c.url ≠ some ⟨true, .established⟩))
  | .established _ => .isTrue trivial
  | .message _ _ => .isTrue trivial
  | .closed _ => .isTrue trivial

/-- One call, then the connection. -/
def callThenConnect : List Action :=
  [.call (plainGet "https://a/x"), .established "https://a/x".toList]

theorem requests_sent_in_order_one :
    ∃ s, Along step (Only "https://a/x".toList) (State.init noParser) callThenConnect ∧
      Along step Prompt (State.init noParser) callThenConnect ∧
      run step (State.init noParser) callThenConnect = some s ∧ s.accepted.length = 1 ∧
      s.sent = s.accepted.map (fun r => ("https://a/x".toList, r)) ∧ s.requestBufs = [] := by
  have honly : Along step (Only "https://a/x".toList) (State.init noParser) callThenConnect := by decide
  have hprompt : Along step Prompt (State.init noParser) callThenConnect := by decide
  have hrun : run step (State.init noParser) callThenConnect = some _ := rfl
  exact ⟨_, honly, hprompt, hrun, rfl, requests_sent_in_order _ _ _ honly hprompt hrun rfl⟩

/-- **A second request is held back**: the connection is open already. -/
theorem request_held_back :
    ¬ ∀ (url : Str) (as : List Action) (s : State noParser),
      Along step (Only url) (State.init noParser) as → run step (State.init noParser) as = some s →
        s.clients url = some ⟨true, .established⟩ →
          s.sent = s.accepted.map (fun r => (url, r)) ∧ s.requestBufs = [] := by
  intro hall
  have hrun : run step (State.init noParser) [.call (plainGet "https://a/x"),
      .established "https://a/x".toList, .call (plainGet "https://a/x")] = some _ := rfl
  have hheld := (hall "https://a/x".toList _ _ (by decide) hrun rfl).2
  exact absurd hheld (by decide)

end KwNet.Https
