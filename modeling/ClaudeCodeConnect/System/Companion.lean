import ClaudeCodeConnect.Core.Simulation
import ClaudeCodeConnect.Lsp.AfterShutdown
import ClaudeCodeConnect.Lsp.Correspondence
import ClaudeCodeConnect.Mcp.Connection
import ClaudeCodeConnect.Mcp.Upgrade
import ClaudeCodeConnect.Mcp.Wire
import ClaudeCodeConnect.Selection.Delivery
import ClaudeCodeConnect.Selection.Tracker

/-!
# The companion as one system

The LSP thread, the tracker's task, any number of connections and the cancellation token of
`companion.rs`, interleaved.  Each part is the one the modules before define: the server with its
document store takes whole frames, the task takes the steps of `Selection.Tracker`, a connection
subscribes, replays and receives as in `Selection.Delivery` and answers messages as in
`Mcp.Connection`.  What ties them is here: the selections of a frame go to the tracker, a mention
request reads the bus's latest selection and publishes in a second step, and `select!` may take any
arm that is open.

* `Env` -- what does not change: the decoders, the version, the token.
* `Client`, `Client.step` -- one connection from its upgrade to its end, with what it sent.
* `SystemState`, `SystemState.step`, `systemMachine` -- all of it.
* `mentionRequested_bus` -- the two steps of a mention request are what `handleText` does to the
  bus.
* `selectAndMention` -- a short run that the results below are tried on.
-/

namespace Connect

/-- The decoders, the version, the texts of paths and URLs, the token. -/
structure Env (Path Url : Type) where
  libs : Libs Path Url
  /-- `serde_json::from_str::<Value>`. -/
  parse : Text → Option Json
  version : PkgVersion
  wire : WireLibs Path Url
  authToken : Text

/-! ## One connection

The task of one connection: what it was let in by, what it has been sent, and where it stands. -/

/-- What the WebSocket library sends of itself. -/
inductive LibraryFrame
  | pong
  /-- The answer to a client's close frame. -/
  | close
  deriving DecidableEq, Repr

/-- What the library queues on a message, to send it with its next read or write. -/
def libraryReply : Message → List LibraryFrame
  | .ping => [.pong]
  | .close => [.close]
  | .text _ | .other => []

/-- What goes out over the socket of a connection: what the source sends, and what the library does.
-/
inductive Outgoing (Path Url : Type)
  | push (event : Event Path Url)
  | response (r : MCPResponse)
  /-- A close frame that the source sends. -/
  | close (code : ℕ) (reason : Text)
  | library (frame : LibraryFrame)

/-- What the check of the token has come to. -/
inductive Access
  /-- Before the upgrade. -/
  | unknown
  | rejected
  | authorized
  deriving DecidableEq, Repr

/-- A connection, from the accept to its end, and what it has sent and heard. -/
structure Client (Path Url : Type) where
  access : Access
  /-- The subprotocol of the upgrade response. -/
  subprotocol : Option Text
  conn : Conn Path Url
  /-- In `handle_at_mention_request`, about to publish. -/
  mentioning : Option (Mention Path)
  sent : List (Outgoing Path Url)
  /-- A write of the source failed.  A read that fails ends the task as well, but loses nothing. -/
  writeFailed : Bool
  /-- History: the text messages taken, in order. -/
  heard : List Text

/-- What may happen to a connection; `written` says whether the write of the step succeeds. -/
inductive ClientMove
  /-- The upgrade request, and the check of its token. -/
  | connect (headers : Headers) (written : Bool)
  | subscribe
  | replay (written : Bool)
  /-- The event arm. -/
  | receive (written : Bool)
  /-- The message arm. -/
  | message (msg : Except Text Message) (written : Bool)
  | publishMention
  /-- The message arm, at the end of the stream. -/
  | ended
  /-- The cancelled arm. -/
  | cancelled (written : Bool)
  /-- The handshake fails, or the task is dropped. -/
  | drop

section

variable {Path Url : Type}

/-- `MCPRequest` of a text that is a mention request. -/
def mentionRequested (parse : Text → Option Json) (text : Text) : Bool :=
  match (parse text).bind MCPRequest.ofJson with
  | some request => request.isNotification && request.method == "at_mention_request".toList
  | none => false

namespace Client

/-- A connection that was just accepted. -/
def new : Client Path Url := ⟨.unknown, none, Conn.new, none, [], false, []⟩

/-- What was written goes out; a write that fails does not. -/
def write (c : Client Path Url) (written : Bool) (frames : List (Outgoing Path Url)) :
    Client Path Url :=
  if written then { c with sent := c.sent ++ frames } else { c with writeFailed := true }

/-- The task of the connection ends. -/
def leave (c : Client Path Url) : Client Path Url :=
  { c with conn := { c.conn with phase := .closed } }

/-- `handle_connection`, up to the loop. -/
def connect (env : Env Path Url) (c : Client Path Url) (headers : Headers) (written : Bool) :
    Client Path Url :=
  let c := { c with subprotocol := negotiated headers }
  if authorized env.authToken headers then { c with access := .authorized }
  else ({ c with access := .rejected }.write written
    [.close 1008 "invalid auth token".toList]).leave

/-- The event arm: an event is pushed, a lag is only noted. -/
def receive (c : Client Path Url) (bus : EventBus Path Url) (written : Bool) :
    Option (Client Path Url) :=
  (c.conn.step bus .receive).map fun conn =>
    match bus.events.recv c.conn.next with
    | .event e _ =>
        if written then { c with conn }.write true [.push e] else (c.write false []).leave
    | _ => { c with conn }

/-- The message arm, but for what a mention request does to the bus.  To a message other than a text
`written` says whether the library gets its reply out. -/
def message (env : Env Path Url) (c : Client Path Url) (bus : EventBus Path Url)
    (msg : Except Text Message) (written : Bool) : Client Path Url :=
  let handled := handleWebsocketMessage env.parse env.version
    (fun _ => if written then .ok () else .error []) bus msg
  let c := match msg with
    | .ok (.text text) => { c with heard := c.heard ++ [text] }
    | .ok msg => c.write true (if written then (libraryReply msg).map .library else [])
    | .error _ => c
  let c := c.write true (handled.sent.map .response)
  match handled.result with
  | .ok () => c
  | .error _ =>
      match msg with
      | .ok _ => (c.write false []).leave
      -- the read failed, and nothing was to be written
      | .error _ => c.leave

/-- Whether the loop is at its `select!`. -/
def selecting (c : Client Path Url) : Bool := c.conn.phase == .serving && c.mentioning.isNone

/-- One step of a connection, and what it does to the bus: read the latest selection for a mention,
or publish one. -/
def step (env : Env Path Url) (c : Client Path Url) (bus : EventBus Path Url) (cancelled : Bool) :
    ClientMove → Option (Client Path Url × List (TrackerLabel Path Url))
  | .connect headers written =>
      if c.access = .unknown ∧ c.conn.phase = .unconnected then
        some (c.connect env headers written, [])
      else none
  | .subscribe =>
      if c.access = .authorized then
        (c.conn.step bus .subscribe).map fun conn => ({ c with conn }, [])
      else none
  | .replay written =>
      (c.conn.step bus .replay).map fun conn =>
        ({ c with conn }.write (written || bus.latest.isNone)
          (bus.latest.map fun x => Outgoing.push (.selectionChanged x)).toList, [])
  | .receive written =>
      if c.selecting then (c.receive bus written).map fun c => (c, []) else none
  | .message msg written =>
      if c.selecting then
        match msg with
        | .ok (.text text) =>
            if mentionRequested env.parse text then
              some ({ c.message env bus msg written with
                mentioning := bus.latest.map Mention.of }, [.request])
            else some (c.message env bus msg written, [])
        | _ => some (c.message env bus msg written, [])
      else none
  | .publishMention =>
      c.mentioning.map fun m => ({ c with mentioning := none }, [.publishMention m])
  | .ended => if c.selecting then some (c.leave, []) else none
  | .cancelled written =>
      if c.selecting ∧ cancelled then
        some ((c.write written [.close 1001 "shutting down".toList]).leave, [])
      else none
  | .drop => if c.mentioning.isNone then some (c.leave, []) else none

end Client

/-! ## All of it

The LSP server, the tracker's task and the connections, on one bus.  Any of them may take the next
step. -/

/-- The steps of the tracker's task. -/
inductive TaskMove
  | wake
  | restart
  | timerFires
  | borrowAndUpdate
  | compare
  | replaceLatest
  | send
  deriving DecidableEq, Repr

/-- The step of the tracker's machine. -/
def TaskMove.label : TaskMove → TrackerLabel Path Url
  | wake => .wake
  | restart => .restart
  | timerFires => .timerFires
  | borrowAndUpdate => .borrowAndUpdate
  | compare => .compare
  | replaceLatest => .replaceLatest
  | send => .send

end

/-- The companion: the LSP side, the tracker with its task and the bus, the connections, the token.
-/
structure SystemState (ι Path Url Time : Type) where
  server : LspServer Url Path Time
  /-- `serve_lsp` has returned. -/
  lspEnded : Bool
  /-- The frames that went back to the editor. -/
  replies : List (List UInt8)
  /-- The tracker, its task and the bus. -/
  tracker : TrackerState Path Url
  /-- The task was ended by the token. -/
  trackerEnded : Bool
  clients : ι → Client Path Url
  cancelled : Bool

/-- The steps of the companion's threads and tasks. -/
inductive SystemLabel (ι Path Time : Type)
  /-- The LSP thread takes a frame; its message sees this file system. -/
  | frame (fs : FileSystem Path Time) (body : List UInt8) (written : Bool)
  /-- The input ends, or fails. -/
  | lspEnds
  | task (move : TaskMove)
  /-- The cancelled arm of the tracker's wrapper. -/
  | trackerEnds
  | client (i : ι) (move : ClientMove)
  | cancel

namespace SystemState

variable {ι Path Url Time : Type}

/-- `Companion::start` has returned. -/
def new (capacity : ℕ) : SystemState ι Path Url Time where
  server := LspServer.new
  lspEnded := false
  replies := []
  tracker := TrackerState.new capacity
  trackerEnded := false
  clients _ := Client.new
  cancelled := false

/-- The task waits, so that the token may end it. -/
def trackerWaits (s : SystemState ι Path Url Time) : Bool :=
  match s.tracker.pc with
  | .waiting | .settling => true
  | _ => false

variable [DecidableEq ι] [DecidableEq Path] [DecidableEq Url] [DecidableEq Time]

/-- The LSP thread takes a frame: what the message tells the tracker, and the reply. -/
def takeFrame (env : Env Path Url) (s : SystemState ι Path Url Time) (fs : FileSystem Path Time)
    (body : List UInt8) (written : Bool) : Option (SystemState ι Path Url Time) :=
  match s.server.turn env.libs fs body with
  | none => some { s with lspEnded := true }
  | some (server, reply) =>
      let reported := server.selections.drop s.server.selections.length
      ((trackerMachine Path Url).exec s.tracker (reported.map .update)).map fun tracker =>
        let s := { s with server, tracker }
        match reply with
        | none => s
        | some reply =>
            if written then { s with replies := s.replies ++ [reply] }
            else { s with lspEnded := true }

/-- One step; `none` where it cannot be taken.  A step of a connection may touch the bus. -/
def step (env : Env Path Url) (s : SystemState ι Path Url Time) :
    SystemLabel ι Path Time → Option (SystemState ι Path Url Time)
  | .frame fs body written => if s.lspEnded then none else s.takeFrame env fs body written
  | .lspEnds => some { s with lspEnded := true }
  | .task move =>
      if s.trackerEnded then none
      else (s.tracker.step move.label).map fun tracker => { s with tracker }
  | .trackerEnds =>
      if s.cancelled && s.trackerWaits then some { s with trackerEnded := true } else none
  | .client i move =>
      ((s.clients i).step env s.tracker.bus s.cancelled move).bind fun moved =>
        ((trackerMachine Path Url).exec s.tracker moved.2).map fun tracker =>
          { s with tracker, clients := Function.update s.clients i moved.1 }
  | .cancel => some { s with cancelled := true }

end SystemState

/-- The companion, and everything that may happen to it. -/
def systemMachine (ι : Type) {Path Url : Type} (Time : Type) [DecidableEq ι] [DecidableEq Path]
    [DecidableEq Url] [DecidableEq Time] (env : Env Path Url) :
    Machine (SystemState ι Path Url Time) (SystemLabel ι Path Time) where
  init s := ∃ capacity, s = SystemState.new capacity
  step := SystemState.step env

/-! ## The two steps of a mention request

The dispatcher reads `latest` and publishes; here the connection does, in two steps, and the rest of
the answer does not depend on the bus. -/

lemma sendResponse_bus {Path Url : Type} (send : MCPResponse → Except Text Unit)
    (bus : EventBus Path Url) (response : MCPResponse) :
    (sendResponse send bus response).bus = bus := by
  rw [sendResponse]
  split <;> rfl

lemma handleMcpRequest_bus {Path Url : Type} (version : PkgVersion)
    (send : MCPResponse → Except Text Unit) (bus : EventBus Path Url) (request : MCPRequest) :
    (handleMcpRequest version send bus request).bus
      = if request.isNotification && request.method == "at_mention_request".toList then
          handleAtMentionRequest bus
        else bus := by
  rw [handleMcpRequest]
  cases hnotification : request.isNotification with
  | true =>
      by_cases hmethod : request.method = "at_mention_request".toList
      · simp only [hmethod, if_true, beq_self_eq_true, Bool.and_self]
      · simp only [if_true, if_neg hmethod, beq_false_of_ne hmethod, Bool.and_false,
          Bool.false_eq_true, if_false]
  | false =>
      simp only [Bool.false_eq_true, if_false, Bool.false_and]
      cases handleRequest version request with
      | ok response => exact sendResponse_bus send bus response
      | error e => cases e <;> exact sendResponse_bus send bus _

/-- **What a message does to the bus** is what a mention request does to it, taken in one. -/
theorem mentionRequested_bus {Path Url : Type} (parse : Text → Option Json) (version : PkgVersion)
    (send : MCPResponse → Except Text Unit) (bus : EventBus Path Url) (text : Text) :
    (handleText parse version send bus text).bus
      = if mentionRequested parse text then handleAtMentionRequest bus else bus := by
  rw [handleText, mentionRequested]
  cases hraw : parse text with
  | none => exact sendResponse_bus send bus _
  | some raw =>
      simp only [Option.bind_some]
      rcases Option.eq_none_or_eq_some (MCPRequest.ofJson raw) with hrequest | ⟨request, hrequest⟩
      · simp only [hrequest]
        split
        · exact sendResponse_bus send bus _
        · rfl
      · simp only [hrequest]
        exact handleMcpRequest_bus version send bus request

/-! ## A run

The session of `Lsp.Correspondence`, with one client.  What the editor selected last settles while
the client connects; the client asks for the tools, and for a mention. -/

/-- Paths and URLs that are texts, JSON that is read as the model reads it. -/
def textEnv : Env Text Text := ⟨textLibs, parseJson?, [], ⟨id, id⟩, "token".toList⟩

lemma textEnv_parse (text : Text) : textEnv.parse text = parseJson? text := rfl

/-- What `at_mention.rs` sends, as a text with its members in this order. -/
def mentionRequestDoc : Doc :=
  ⟨.none, Syntax.compact [("jsonrpc".toList, .str "2.0".toList),
    ("method".toList, .str "at_mention_request".toList)], .none⟩

/-- The editor's frames, and a client that connects. -/
def selectAndConnect : List (SystemLabel Unit Text ℕ) :=
  (LspServer.editing.map fun f => .frame f.2 f.1 true) ++
    [.client () (.connect
        [("X-Claude-Code-Ide-Authorization".toList, Text.bytes "token".toList)] true),
      .client () .subscribe]

/-- The selection settles, and is replayed and sent; the client pings, and asks for the tools. -/
def settleAndServe : List (SystemLabel Unit Text ℕ) :=
  [.task .wake, .task .timerFires, .task .borrowAndUpdate, .task .compare, .task .replaceLatest,
    .client () (.replay true), .task .send, .client () (.receive true),
    .client () (.message (.ok .ping) true),
    .client () (.message (.ok (.text toolsListRequest.text)) true)]

/-- It asks for a mention. -/
def askForMention : SystemLabel Unit Text ℕ :=
  .client () (.message (.ok (.text mentionRequestDoc.text)) true)

/-- The mention is published, and sent. -/
def publishAndSend : List (SystemLabel Unit Text ℕ) :=
  [.client () .publishMention, .client () (.receive true)]

/-- All of it. -/
def selectAndMention : List (SystemLabel Unit Text ℕ) :=
  selectAndConnect ++ settleAndServe ++ askForMention :: publishAndSend

/-- Where it ends: everything is at rest, and the client got three events, a pong and a response. -/
def AtRest (t : SystemState Unit Text Text ℕ) : Prop :=
  (t.tracker.pc = .waiting ∧ t.tracker.readAt = t.tracker.updates.length) ∧
    ((t.clients ()).conn.phase = .serving ∧
      (t.clients ()).conn.next = t.tracker.bus.events.sent.length) ∧
    ((t.clients ()).access = .authorized ∧ (t.clients ()).writeFailed = false ∧
      (t.clients ()).sent.length = 5 ∧ t.server.selections.length = 4) ∧
    (t.clients ()).heard = [toolsListRequest.text, mentionRequestDoc.text]

instance (t : SystemState Unit Text Text ℕ) : Decidable (AtRest t) :=
  inferInstanceAs (Decidable (_ ∧ _))

lemma selectAndMention_taken : ∃ t,
    (systemMachine Unit ℕ textEnv).exec (SystemState.new 8) selectAndMention = some t ∧
      AtRest t := by
  have h : ((systemMachine Unit ℕ textEnv).exec (SystemState.new 8) selectAndMention).map
      (fun t => decide (AtRest t)) = some true := by decide +kernel
  obtain ⟨t, ht, hrest⟩ := Option.map_eq_some_iff.mp h
  exact ⟨t, ht, of_decide_eq_true hrest⟩

end Connect
