import ClaudeCodeConnect.System.Companion

/-!
# What a step can do

The steps of one connection, sorted by what they do to it rather than by which arm they are, and
those of the system.

* `answers` -- what a text message draws; `handleText_written` says that a connection sends this, or
  fails to, whatever the bus.
* `ClientMoved`, `clientMoved_of_step` -- the outcomes of a step of a connection.
* `SystemMoved`, `systemMoved_of_step` -- the outcomes of a step of the system.
-/

namespace Connect

variable {Path Url : Type}

/-! ## Answers

What a text message leads to: one response or none, by the text alone. -/

/-- What a text message draws. -/
def answers (env : Env Path Url) (text : Text) : List MCPResponse :=
  (handleText env.parse env.version (fun _ => .ok ())
    (EventBus.new 1 : EventBus Path Url) text).sent

/-- A request is not answered, or by one response. -/
lemma handleMcpRequest_shape (version : PkgVersion) (request : MCPRequest) :
    (∀ send (bus : EventBus Path Url), ∃ bus',
        handleMcpRequest version send bus request = ⟨[], .ok (), bus'⟩) ∨
      ∃ r, ∀ send (bus : EventBus Path Url),
        handleMcpRequest version send bus request = sendResponse send bus r := by
  simp only [handleMcpRequest]
  cases hnotification : request.isNotification with
  | true =>
      refine Or.inl fun send bus => ?_
      simp only [if_true]
      split_ifs <;> exact ⟨_, rfl⟩
  | false =>
      simp only [Bool.false_eq_true, if_false]
      cases handleRequest version request with
      | ok response => exact Or.inr ⟨response, fun _ _ => rfl⟩
      | error e => cases e <;> exact Or.inr ⟨_, fun _ _ => rfl⟩

/-- The same of a text: which of the two it is depends on nothing else. -/
lemma handleText_shape (parse : Text → Option Json) (version : PkgVersion) (text : Text) :
    (∀ send (bus : EventBus Path Url), ∃ bus',
        handleText parse version send bus text = ⟨[], .ok (), bus'⟩) ∨
      ∃ r, ∀ send (bus : EventBus Path Url),
        handleText parse version send bus text = sendResponse send bus r := by
  simp only [handleText]
  cases parse text with
  | none => exact Or.inr ⟨_, fun _ _ => rfl⟩
  | some raw =>
      rcases Option.eq_none_or_eq_some (MCPRequest.ofJson raw) with hrequest | ⟨request, hrequest⟩
      · simp only [hrequest]
        cases (raw.get "id".toList).filter fun id => !id.isNull with
        | none => exact Or.inl fun _ bus => ⟨bus, rfl⟩
        | some id => exact Or.inr ⟨_, fun _ _ => rfl⟩
      · simp only [hrequest]
        exact handleMcpRequest_shape version request

/-- **A message draws its answers, or the write fails.** -/
theorem handleText_written (env : Env Path Url) (bus : EventBus Path Url) (text : Text)
    (written : Bool) :
    let handled := handleText env.parse env.version
      (fun _ => if written then .ok () else .error []) bus text
    (handled.result = .ok () ∧ handled.sent = answers env text) ∨
      (handled.result = .error [] ∧ handled.sent = []) := by
  rcases @handleText_shape Path Url env.parse env.version text with
    hsilent | ⟨r, hsend⟩
  · obtain ⟨bus', hbus'⟩ := hsilent (fun _ => if written then .ok () else .error []) bus
    obtain ⟨bus'', hbus''⟩ := hsilent (fun _ => .ok ()) (EventBus.new 1)
    exact Or.inl ⟨by rw [hbus'], by rw [hbus', answers, hbus'']⟩
  · rw [answers, hsend, hsend]
    cases written with
    | true => exact Or.inl ⟨rfl, rfl⟩
    | false => exact Or.inr ⟨rfl, rfl⟩

/-! ## Outcomes

The inversion of `Client.step`, one outcome for each thing that can happen. -/

namespace Client

variable (c : Client Path Url) (written : Bool) (frames : List (Outgoing Path Url))

@[simp] lemma write_sent : (c.write written frames).sent
    = c.sent ++ if written then frames else [] := by
  rw [write]
  split_ifs
  · rfl
  · exact (List.append_nil _).symm

@[simp] lemma write_writeFailed :
    (c.write written frames).writeFailed = (c.writeFailed || !written) := by
  cases written <;> simp [write]

@[simp] lemma write_conn : (c.write written frames).conn = c.conn := by
  cases written <;> rfl

@[simp] lemma write_access : (c.write written frames).access = c.access := by
  cases written <;> rfl

@[simp] lemma write_mentioning : (c.write written frames).mentioning = c.mentioning := by
  cases written <;> rfl

@[simp] lemma write_heard : (c.write written frames).heard = c.heard := by
  cases written <;> rfl

@[simp] lemma write_subprotocol : (c.write written frames).subprotocol = c.subprotocol := by
  cases written <;> rfl

@[simp] lemma leave_subprotocol : c.leave.subprotocol = c.subprotocol := rfl

@[simp] lemma leave_sent : c.leave.sent = c.sent := rfl

@[simp] lemma leave_writeFailed : c.leave.writeFailed = c.writeFailed := rfl

@[simp] lemma leave_frames : c.leave.conn.frames = c.conn.frames := rfl

@[simp] lemma leave_access : c.leave.access = c.access := rfl

@[simp] lemma leave_heard : c.leave.heard = c.heard := rfl

@[simp] lemma leave_mentioning : c.leave.mentioning = c.mentioning := rfl

lemma write_true : c.write true frames = { c with sent := c.sent ++ frames } := rfl

lemma serving_of_selecting {c : Client Path Url} (h : c.selecting = true) :
    c.conn.phase = .serving ∧ c.mentioning = none := by
  simpa [Client.selecting] using h

end Client

/-- What a step of a connection can come to. -/
inductive ClientMoved (env : Env Path Url) (c : Client Path Url) (bus : EventBus Path Url)
    (cancelled : Bool) : ClientMove → Client Path Url → List (TrackerLabel Path Url) → Prop
  | letIn {headers : Headers} {written : Bool} : c.access = .unknown →
      c.conn.phase = .unconnected → authorized env.authToken headers = true →
      ClientMoved env c bus cancelled (.connect headers written)
        { c with access := .authorized, subprotocol := negotiated headers } []
  | reject {headers : Headers} {written : Bool} : c.access = .unknown →
      c.conn.phase = .unconnected → authorized env.authToken headers = false →
      ClientMoved env c bus cancelled (.connect headers written)
        (({ c with access := .rejected, subprotocol := negotiated headers }).write written
          [.close 1008 "invalid auth token".toList]).leave []
  | subscribe {conn : Conn Path Url} : c.access = .authorized →
      c.conn.step bus .subscribe = some conn →
      ClientMoved env c bus cancelled .subscribe { c with conn } []
  | replay {conn : Conn Path Url} {written : Bool} : c.conn.step bus .replay = some conn →
      ClientMoved env c bus cancelled (.replay written)
        ({ c with conn }.write (written || bus.latest.isNone)
          (bus.latest.map fun x => Outgoing.push (.selectionChanged x)).toList) []
  | push {conn : Conn Path Url} {e : Event Path Url} {next : ℕ} : c.selecting = true →
      c.conn.step bus .receive = some conn → bus.events.recv c.conn.next = .event e next →
      ClientMoved env c bus cancelled (.receive true)
        { c with conn, sent := c.sent ++ [.push e] } []
  | lag {conn : Conn Path Url} {written : Bool} {skipped next : ℕ} : c.selecting = true →
      c.conn.step bus .receive = some conn → bus.events.recv c.conn.next = .lagged skipped next →
      ClientMoved env c bus cancelled (.receive written) { c with conn } []
  | hear {text : Text} {written : Bool} : c.selecting = true →
      mentionRequested env.parse text = false →
      ClientMoved env c bus cancelled (.message (.ok (.text text)) written)
        { c with
          heard := c.heard ++ [text]
          sent := c.sent ++ (answers env text).map .response } []
  | request {text : Text} {written : Bool} : c.selecting = true →
      mentionRequested env.parse text = true →
      ClientMoved env c bus cancelled (.message (.ok (.text text)) written)
        { c with
          heard := c.heard ++ [text]
          sent := c.sent ++ (answers env text).map .response
          mentioning := bus.latest.map Mention.of } [.request]
  | unanswered {text : Text} {written : Bool} : c.selecting = true →
      mentionRequested env.parse text = false →
      ClientMoved env c bus cancelled (.message (.ok (.text text)) written)
        { c with heard := c.heard ++ [text], writeFailed := true }.leave []
  | ignore {msg : Message} {written : Bool} : c.selecting = true → (∀ text, msg ≠ .text text) →
      ClientMoved env c bus cancelled (.message (.ok msg) written)
        (c.write true (if written then (libraryReply msg).map .library else [])) []
  | publish {m : Mention Path} : c.mentioning = some m →
      ClientMoved env c bus cancelled .publishMention { c with mentioning := none }
        [.publishMention m]
  | told {written : Bool} : c.selecting = true → cancelled = true →
      ClientMoved env c bus cancelled (.cancelled written)
        (c.write written [.close 1001 "shutting down".toList]).leave []
  | unpushed : c.selecting = true →
      ClientMoved env c bus cancelled (.receive false) { c with writeFailed := true }.leave []
  | leave {move : ClientMove} : c.mentioning = none →
      (move = .ended ∨ move = .drop ∨ ∃ e written, move = .message (.error e) written) →
      ClientMoved env c bus cancelled move c.leave []

/-- A write that failed is not forgotten. -/
lemma ClientMoved.writeFailed {env : Env Path Url} {c d : Client Path Url} {bus : EventBus Path Url}
    {cancelled : Bool} {move : ClientMove} {ls : List (TrackerLabel Path Url)}
    (h : ClientMoved env c bus cancelled move d ls) (hd : d.writeFailed = false) :
    c.writeFailed = false := by
  cases h with
  | reject | told | replay =>
      simp only [Client.leave_writeFailed, Client.write_writeFailed, Bool.or_eq_false_iff] at hd
      exact hd.1
  | unanswered | unpushed => cases hd
  | ignore => simpa using hd
  | _ => exact hd

/-- A mention request is not answered, so no write can fail. -/
lemma handleText_requested {env : Env Path Url} {text : Text}
    (h : mentionRequested env.parse text = true) (send : MCPResponse → Except Text Unit)
    (bus : EventBus Path Url) :
    (handleText env.parse env.version send bus text).result = .ok () := by
  rw [mentionRequested] at h
  rw [handleText]
  cases hraw : env.parse text with
  | none => simp [hraw] at h
  | some raw =>
      rw [hraw, Option.bind_some] at h
      rcases Option.eq_none_or_eq_some (MCPRequest.ofJson raw) with hrequest | ⟨request, hrequest⟩
      · simp [hrequest] at h
      · simp only [hrequest, Bool.and_eq_true] at h ⊢
        exact (handleMcpRequest_notification env.version send bus h.1).2

/-- What the message arm makes of a text. -/
lemma message_text (env : Env Path Url) (c : Client Path Url) (bus : EventBus Path Url)
    (text : Text) (written : Bool) :
    c.message env bus (.ok (.text text)) written = { c with
        heard := c.heard ++ [text]
        sent := c.sent ++ (answers env text).map .response } ∨
      (mentionRequested env.parse text = false ∧
        c.message env bus (.ok (.text text)) written
          = { c with heard := c.heard ++ [text], writeFailed := true }.leave) := by
  rcases handleText_written env bus text written with ⟨hresult, hsent⟩ | ⟨hresult, hsent⟩
  · refine Or.inl ?_
    simp only [Client.message, handleWebsocketMessage, hresult, hsent, Client.write_true]
  · refine Or.inr ⟨?_, ?_⟩
    · rw [← Bool.not_eq_true]
      intro hrequest
      rw [handleText_requested hrequest] at hresult
      cases hresult
    · simp only [Client.message, handleWebsocketMessage, hresult, hsent, Client.write_true,
        List.map_nil, List.append_nil]
      rfl

lemma message_error (env : Env Path Url) (c : Client Path Url) (bus : EventBus Path Url) (e : Text)
    (written : Bool) :
    c.message env bus (.error e) written = c.leave := by
  simp only [Client.message, handleWebsocketMessage, Client.write_true, List.map_nil,
    List.append_nil]

lemma message_ignored (env : Env Path Url) (c : Client Path Url) (bus : EventBus Path Url)
    {msg : Message} (h : ∀ text, msg ≠ .text text) (written : Bool) :
    c.message env bus (.ok msg) written
      = c.write true (if written then (libraryReply msg).map .library else []) := by
  cases msg with
  | text text => exact absurd rfl (h text)
  | _ =>
      simp only [Client.message, handleWebsocketMessage, Client.write_true, List.map_nil,
        List.append_nil]

/-- **What a step of a connection comes to.** -/
theorem clientMoved_of_step {env : Env Path Url} {c d : Client Path Url} {bus : EventBus Path Url}
    {cancelled : Bool} {move : ClientMove} {ls : List (TrackerLabel Path Url)}
    (h : c.step env bus cancelled move = some (d, ls)) :
    ClientMoved env c bus cancelled move d ls := by
  cases move with
  | connect headers written =>
      simp only [Client.step] at h
      split_ifs at h with hfresh
      cases h
      cases hauthorized : authorized env.authToken headers with
      | true =>
          simp only [Client.connect, hauthorized, if_true]
          exact .letIn hfresh.1 hfresh.2 hauthorized
      | false =>
          simp only [Client.connect, hauthorized, Bool.false_eq_true, if_false]
          exact .reject hfresh.1 hfresh.2 hauthorized
  | subscribe =>
      simp only [Client.step] at h
      split_ifs at h with haccess
      obtain ⟨conn, hconn, heq⟩ := Option.map_eq_some_iff.mp h
      cases heq
      exact .subscribe haccess hconn
  | replay written =>
      obtain ⟨conn, hconn, heq⟩ := Option.map_eq_some_iff.mp h
      cases heq
      exact .replay hconn
  | receive written =>
      simp only [Client.step] at h
      split_ifs at h with hselecting
      obtain ⟨c', hreceive, heq⟩ := Option.map_eq_some_iff.mp h
      cases heq
      obtain ⟨conn, hconn, rfl⟩ := Option.map_eq_some_iff.mp hreceive
      cases hrecv : bus.events.recv c.conn.next with
      | event e next =>
          cases written with
          | true => exact .push hselecting hconn hrecv
          | false => exact .unpushed hselecting
      | lagged skipped next => exact .lag hselecting hconn hrecv
      | pending =>
          simp only [Conn.step, hrecv] at hconn
          split at hconn <;> simp_all
  | message msg written =>
      simp only [Client.step] at h
      split_ifs at h with hselecting
      split at h
      case h_1 text =>
        rcases message_text env c bus text written with heq | ⟨hnot, heq⟩
        · split_ifs at h with hrequest
          · cases h
            rw [heq]
            exact .request hselecting hrequest
          · cases h
            rw [heq]
            exact .hear hselecting (Bool.not_eq_true _ ▸ hrequest)
        · rw [hnot, if_neg Bool.false_ne_true, heq] at h
          cases h
          exact .unanswered hselecting hnot
      case h_2 hmsg =>
        cases h
        rcases msg with e | msg
        · rw [message_error]
          exact .leave (Client.serving_of_selecting hselecting).2
            (Or.inr (Or.inr ⟨e, written, rfl⟩))
        · have hignored : ∀ text, msg ≠ .text text := fun text heq => hmsg text (by rw [heq])
          rw [message_ignored env c bus hignored]
          exact .ignore hselecting hignored
  | publishMention =>
      obtain ⟨m, hm, heq⟩ := Option.map_eq_some_iff.mp h
      cases heq
      exact .publish hm
  | ended =>
      simp only [Client.step] at h
      split_ifs at h with hselecting
      cases h
      exact .leave (Client.serving_of_selecting hselecting).2 (Or.inl rfl)
  | cancelled written =>
      simp only [Client.step] at h
      split_ifs at h with hselecting
      cases h
      exact .told hselecting.1 hselecting.2
  | drop =>
      simp only [Client.step] at h
      split_ifs at h with hmentioning
      cases h
      exact .leave (Option.isNone_iff_eq_none.mp hmentioning) (Or.inr (Or.inl rfl))

/-! ## The system

The inversion of the step of the system, which is that of its parts. -/

section System

variable {ι Time : Type} [DecidableEq ι] [DecidableEq Path] [DecidableEq Url] [DecidableEq Time]

/-- What a step of the system can come to. -/
inductive SystemMoved (env : Env Path Url) (s : SystemState ι Path Url Time) :
    SystemLabel ι Path Time → SystemState ι Path Url Time → Prop
  /-- The LSP thread or the task ends, or the token is cancelled. -/
  | stop {l : SystemLabel ι Path Time} {t : SystemState ι Path Url Time} :
      (∀ i move, l ≠ .client i move) → t.server = s.server → t.tracker = s.tracker →
      t.clients = s.clients → (s.cancelled = true → t.cancelled = true) → SystemMoved env s l t
  | frame {fs : FileSystem Path Time} {body : List UInt8} {written : Bool}
      {server : LspServer Url Path Time} {reply : Option (List UInt8)}
      {t : SystemState ι Path Url Time} :
      s.server.turn env.libs fs body = some (server, reply) → t.server = server →
      (trackerMachine Path Url).exec s.tracker
        ((server.selections.drop s.server.selections.length).map .update) = some t.tracker →
      t.clients = s.clients → t.cancelled = s.cancelled →
      SystemMoved env s (.frame fs body written) t
  | task {move : TaskMove} {tracker : TrackerState Path Url} :
      s.tracker.step move.label = some tracker →
      SystemMoved env s (.task move) { s with tracker }
  | client {i : ι} {move : ClientMove} {c : Client Path Url} {ls : List (TrackerLabel Path Url)}
      {tracker : TrackerState Path Url} :
      ClientMoved env (s.clients i) s.tracker.bus s.cancelled move c ls →
      (trackerMachine Path Url).exec s.tracker ls = some tracker →
      SystemMoved env s (.client i move)
        { s with tracker, clients := Function.update s.clients i c }

/-- **What a step of the system comes to.** -/
theorem systemMoved_of_step {env : Env Path Url} {s t : SystemState ι Path Url Time}
    {l : SystemLabel ι Path Time} (hl : (systemMachine ι Time env).step s l = some t) :
    SystemMoved env s l t := by
  cases l with
  | frame fs body written =>
      simp only [systemMachine, SystemState.step] at hl
      split_ifs at hl
      rw [SystemState.takeFrame] at hl
      split at hl
      · cases hl
        exact .stop (by simp) rfl rfl rfl id
      · rename_i server reply hturn
        obtain ⟨tracker, hexec, rfl⟩ := Option.map_eq_some_iff.mp hl
        cases reply with
        | none => exact .frame hturn rfl hexec rfl rfl
        | some reply => cases written <;> exact .frame hturn rfl hexec rfl rfl
  | lspEnds =>
      cases hl
      exact .stop (by simp) rfl rfl rfl id
  | task move =>
      simp only [systemMachine, SystemState.step] at hl
      split_ifs at hl
      obtain ⟨tracker, hstep, rfl⟩ := Option.map_eq_some_iff.mp hl
      exact .task hstep
  | trackerEnds =>
      simp only [systemMachine, SystemState.step] at hl
      split_ifs at hl
      cases hl
      exact .stop (by simp) rfl rfl rfl id
  | client i move =>
      simp only [systemMachine, SystemState.step, Option.bind_eq_some_iff] at hl
      obtain ⟨⟨c, ls⟩, hc, hl⟩ := hl
      obtain ⟨tracker, hexec, rfl⟩ := Option.map_eq_some_iff.mp hl
      exact .client (clientMoved_of_step hc) hexec
  | cancel =>
      cases hl
      exact .stop (by simp) rfl rfl rfl fun _ => rfl

/-- A step is one of a connection, or leaves it as it is. -/
lemma SystemMoved.client_cases {env : Env Path Url} {s t : SystemState ι Path Url Time}
    {l : SystemLabel ι Path Time} (h : SystemMoved env s l t) (i : ι) :
    (t.clients i = s.clients i ∧ ∀ move, l ≠ .client i move) ∨ ∃ move ls, l = .client i move ∧
      ClientMoved env (s.clients i) s.tracker.bus s.cancelled move (t.clients i) ls ∧
      (trackerMachine Path Url).exec s.tracker ls = some t.tracker := by
  cases h with
  | stop hnot _ _ hclients _ => exact Or.inl ⟨congrFun hclients i, hnot i⟩
  | frame _ _ _ hclients _ => exact Or.inl ⟨congrFun hclients i, by simp⟩
  | task _ => exact Or.inl ⟨rfl, by simp⟩
  | @client j move c ls tracker hmoved hexec =>
      by_cases hij : i = j
      · subst hij
        refine Or.inr ⟨move, ls, rfl, ?_, hexec⟩
        simpa only [Function.update_self] using hmoved
      · exact Or.inl ⟨Function.update_of_ne hij _ _, by simp [Ne.symm hij]⟩

/-- What every step of a connection keeps of it, the system keeps of each. -/
lemma SystemMoved.forall_clients {env : Env Path Url} {s t : SystemState ι Path Url Time}
    {l : SystemLabel ι Path Time} (h : SystemMoved env s l t) (P : Client Path Url → Prop)
    (hP : ∀ c d move ls, P c → ClientMoved env c s.tracker.bus s.cancelled move d ls → P d)
    (hs : ∀ i, P (s.clients i)) (i : ι) : P (t.clients i) := by
  rcases h.client_cases i with ⟨heq, -⟩ | ⟨move, ls, -, hmoved, -⟩
  · rw [heq]
    exact hs i
  · exact hP _ _ move ls (hs i) hmoved

end System

end Connect
