import ClaudeCodeConnect.Lsp.Framing
import ClaudeCodeConnect.Lsp.MirrorRefinement
import ClaudeCodeConnect.Lsp.Protocol
import ClaudeCodeConnect.Selection.EventBus

/-!
# The editor side

`lsp/server.rs`: one loop reads a frame, decodes it once, dispatches and writes.

* `LspServer`, `route`, `dispatch` -- the server and what a message does to it.  The selections it
  passes to the tracker are recorded in order.  A message sees one file system.
* `turn`, `serve`, `serveLsp` -- one turn of the loop, the loop over frame bodies, and the loop over
  the bytes of the input; `serveLsp_eq_serve` says that the two loops are one.
* `dispatch_initializeReq`, `dispatch_fresh`, `dispatch_refused`, `dispatch_handle` -- `dispatch` by
  the gate a message meets.
* `Step`, `handle_step` -- all that can happen past the gates; `route_ok` says that nothing panics.
* `run` -- a session: messages dispatched one after the other.
-/

namespace Connect

/-! ## Replies

What a handler can say.  A notification is answered by none of it. -/

/-- What a handler answers with. -/
inductive Reply where
  | silent
  | result (text : Text)
  | error (code : ErrorCode) (message : Text) (data : Option Text)
  deriving DecidableEq, Repr

namespace Reply

/-- No code actions: what the selection was asked about for is of no concern to the editor. -/
def emptyActions : Reply := .result (Syntax.emptyArray .none).text

/-- A result of null. -/
def null : Reply := .result Syntax.null.text

/-- A request that comes at the wrong time, or a code action whose params do not decode. -/
def invalidRequest : Reply := .error .invalidRequest "Invalid request".toList none

/-- A request before `initialize`. -/
def notInitialized : Reply := .error .serverNotInitialized "Server not initialized".toList none

/-- A handler panicked. -/
def internalError : Reply := .error .internalError "Internal error".toList none

/-- The frame that goes back. -/
def frame (id : Text) : Reply → Option (List UInt8)
  | silent => none
  | result text => some (successFrame id text)
  | error code message data => some (errorFrame id code message data)

end Reply

/-! ## The server

The handlers, the gates and `dispatch`, each under its name.  Only handlers that touch the mirror
can panic. -/

/-- `LspServer`: the mirror, and the two flags of the handshake. -/
structure LspServer (Url Path Time : Type) where
  /-- What was passed to the tracker, in order. -/
  selections : List (Selection Path Url)
  documents : DocumentStore Url Path Time
  initialized : Bool
  shutDown : Bool

namespace LspServer

variable {Url Path Time : Type}

/-- Before the first message. -/
def new : LspServer Url Path Time := ⟨[], DocumentStore.new, false, false⟩

/-- `decode`. -/
def decode {Params : Type} (fromStr : Text → Option Params) (request : Request) : Option Params :=
  request.params.bind fromStr

section Handlers

variable (libs : Libs Path Url)

/-- `uri_to_path`. -/
def uriToPath (uri : Url) : Path := (libs.toFilePath uri).getD (libs.rawPath uri)

lemma isNumber_two : isNumber ['2'] = true := by decide

/-- `InitializeResult`, as it is written: incremental sync and code actions. -/
def initializeResult : Syntax :=
  Syntax.compact [
    ("capabilities".toList, Syntax.compact [
      ("textDocumentSync".toList, .number ['2'] isNumber_two),
      ("codeActionProvider".toList, .bool true)]),
    ("serverInfo".toList, Syntax.compact [
      ("name".toList, .str "Claude Code Language Server".toList),
      ("version".toList, .str libs.pkgVersion)])]

/-- `initialize`. -/
def initializeReply : Reply := .result (initializeResult libs).text

variable [DecidableEq Url] [DecidableEq Path] [DecidableEq Time]

/-- `did_open`: params that do not decode are logged. -/
def didOpen (s : LspServer Url Path Time) (request : Request) : Reply × LspServer Url Path Time :=
  match decode libs.didOpen request with
  | none => (.silent, s)
  | some params =>
      let document := params.textDocument
      (.silent, { s with documents := s.documents.openDoc document.uri document.text })

/-- `did_change`. -/
def didChange (s : LspServer Url Path Time) (request : Request) :
    Checked (Reply × LspServer Url Path Time) :=
  match decode libs.didChange request with
  | none => .ok (.silent, s)
  | some params => do
      let documents ← s.documents.apply params.textDocument.uri params.contentChanges
      return (.silent, { s with documents })

/-- `did_close`. -/
def didClose (s : LspServer Url Path Time) (request : Request) : Reply × LspServer Url Path Time :=
  match decode libs.didClose request with
  | none => (.silent, s)
  | some params => (.silent, { s with documents := s.documents.close params.textDocument.uri })

/-- `code_action`: the request Zed makes as the selection moves.  The text of the range goes to the
tracker, whatever it is, and the answer is always the empty list. -/
def codeAction (s : LspServer Url Path Time) (fs : FileSystem Path Time) (request : Request) :
    Checked (Reply × LspServer Url Path Time) :=
  match decode libs.codeAction request with
  | none => .ok (.invalidRequest, s)
  | some params => do
      let uri := params.textDocument.uri
      let path := uriToPath libs uri
      let (text, documents) ← s.documents.textForRange fs uri path params.range
      -- `tracker.update`
      let selection : Selection Path Url := { path, uri, range := params.range, text }
      return (.emptyActions, { s with documents, selections := s.selections ++ [selection] })

/-- `match request.method`, past the gates. -/
def handle (s : LspServer Url Path Time) (fs : FileSystem Path Time) (request : Request) :
    Checked (Reply × LspServer Url Path Time) :=
  match request.kind with
  | .initialized => .ok (.silent, s)
  | .shutdown => .ok (.null, { s with shutDown := true })
  | .didOpen => .ok (s.didOpen libs request)
  | .didChange => s.didChange libs request
  | .didClose => .ok (s.didClose libs request)
  | .didSave => .ok (.silent, s)
  | .codeAction => s.codeAction libs fs request
  | .selectionRange => .ok (.null, s)
  | _ =>
      if request.isNotification then .ok (.silent, s)
      else .ok (.error .methodNotFound "Method not found".toList (some request.method), s)

/-- `route`: the gates of the handshake, and then the handler.  `initialize` passes at any time, but
is answered once. -/
def route (s : LspServer Url Path Time) (fs : FileSystem Path Time) (request : Request) :
    Checked (Reply × LspServer Url Path Time) :=
  if request.kind = .initializeReq then
    if s.initialized then .ok (.invalidRequest, s)
    else .ok (initializeReply libs, { s with initialized := true })
  -- before the handshake a request is refused, a notification is dropped
  else if !s.initialized then
    .ok (if request.isNotification then .silent else .notInitialized, s)
  -- after `shutdown` the only thing left to honour is `exit`
  else if s.shutDown && !request.isNotification then .ok (.invalidRequest, s)
  else s.handle libs fs request

/-- `dispatch`: a panic in a handler costs one request. -/
def dispatch (s : LspServer Url Path Time) (fs : FileSystem Path Time) (request : Request) :
    Reply × LspServer Url Path Time :=
  match s.route libs fs request with
  | .ok answer => answer
  | .error _ => (.internalError, s)

/-! ## The loop

One body after the other.  What the editor sees are the frames, and how it ended. -/

/-- One turn of the loop on a frame: the state after it and the frame that goes back; `none` at
`exit`. -/
def turn (s : LspServer Url Path Time) (fs : FileSystem Path Time) (body : List UInt8) :
    Option (LspServer Url Path Time × Option (List UInt8)) :=
  match libs.request body with
  -- nobody to answer
  | none => some (s, none)
  | some request =>
      if request.kind = .exit then none
      else
        let (reply, s) := s.dispatch libs fs request
        some (s, request.id.bind fun id => reply.frame id)

end Handlers

end LspServer

/-- How the loop ended. -/
inductive Ending where
  /-- The input ended, or failed. -/
  | input (result : Except IoError Unit)
  | exit
  | outputFailed

/-- What serving comes to. -/
structure Served (Url Path Time : Type) where
  server : LspServer Url Path Time
  /-- The frames that went back, in order. -/
  written : List (List UInt8)
  /-- The frame whose write failed, of which any part may have gone back. -/
  torn : Option (List UInt8)
  ending : Ending
  /-- How many frames were taken. -/
  frames : ℕ

namespace Served

variable {Url Path Time : Type}

/-- One more frame was taken, and this went back before the rest. -/
def after (frame : Option (List UInt8)) (r : Served Url Path Time) : Served Url Path Time :=
  { r with written := frame.toList ++ r.written, frames := r.frames + 1 }

/-- The bytes that went back, `k` of them at most from the frame whose write failed. -/
def output (r : Served Url Path Time) (k : ℕ) : List UInt8 :=
  r.written.flatMap writeFrame ++ ((r.torn.map writeFrame).getD []).take k

end Served

namespace LspServer

variable {Url Path Time : Type}

/-- The frames, each with its file system. -/
def withFiles (fs : ℕ → FileSystem Path Time) (k : ℕ) (bodies : List (List UInt8)) :
    List (List UInt8 × FileSystem Path Time) :=
  (bodies.zipIdx k).map fun x => (x.1, fs x.2)

lemma withFiles_cons (fs : ℕ → FileSystem Path Time) (k : ℕ) (body : List UInt8)
    (bodies : List (List UInt8)) :
    withFiles fs k (body :: bodies) = (body, fs k) :: withFiles fs (k + 1) bodies := by
  rw [withFiles, List.zipIdx_cons, List.map_cons]
  rfl

/-- The mirror is one of plain texts. -/
def Mirrored (s : LspServer Url Path Time) : Prop :=
  ∃ t : NaiveStore Url, Mirrors s.documents t

lemma mirrored_new : (new : LspServer Url Path Time).Mirrored := ⟨NaiveStore.new, fun _ => rfl⟩

variable [DecidableEq Url] [DecidableEq Path] [DecidableEq Time]

/-- The loop of `serve_lsp` over frames, each with the file system its message sees.  `write n` says
whether the `n`th write succeeds, and `ending` how the input ends after the frames.  A write that
fails ends the loop, and leaves its frame torn. -/
def serve (libs : Libs Path Url) (write : ℕ → Bool) (ending : Except IoError Unit) :
    LspServer Url Path Time → ℕ → List (List UInt8 × FileSystem Path Time) → Served Url Path Time
  | s, _, [] => ⟨s, [], none, .input ending, 0⟩
  | s, n, (body, fs) :: rest =>
      match s.turn libs fs body with
      | none => ⟨s, [], none, .exit, 1⟩
      | some (s, none) => (serve libs write ending s n rest).after none
      | some (s, some frame) =>
          if write n then (serve libs write ending s (n + 1) rest).after (some frame)
          else ⟨s, [], some frame, .outputFailed, 1⟩

/-- `serve_lsp` on the bytes of its input; `fs k` is the file system the `k`th message sees. -/
def serveLsp (libs : Libs Path Url) (write : ℕ → Bool) (fs : ℕ → FileSystem Path Time)
    (s : LspServer Url Path Time) (n k : ℕ) (body input : List UInt8) : Served Url Path Time :=
  match _hframe : nextFrame body input with
  | .error e => ⟨s, [], none, .input (.error e), 0⟩
  | .ok (false, _, _) => ⟨s, [], none, .input (.ok ()), 0⟩
  | .ok (true, body, rest) =>
      match s.turn libs (fs k) body with
      | none => ⟨s, [], none, .exit, 1⟩
      | some (s, none) => (serveLsp libs write fs s n (k + 1) body rest).after none
      | some (s, some frame) =>
          if write n then (serveLsp libs write fs s (n + 1) (k + 1) body rest).after (some frame)
          else ⟨s, [], some frame, .outputFailed, 1⟩
  termination_by input.length
  decreasing_by all_goals exact nextFrame_length _hframe

/-- **The loop over the input is the loop over its frames.** -/
theorem serveLsp_eq_serve (libs : Libs Path Url) (write : ℕ → Bool)
    (fs : ℕ → FileSystem Path Time) (s : LspServer Url Path Time) (n k : ℕ)
    (body input : List UInt8) :
    serveLsp libs write fs s n k body input = serve libs write (readFrames body input).2 s n
      (withFiles fs k (readFrames body input).1) := by
  fun_induction serveLsp libs write fs s n k body input with
  | case1 s n k buf input e hframe =>
      rw [readFrames_error hframe]
      rfl
  | case2 s n k buf input b rest hframe =>
      rw [readFrames_ended hframe]
      rfl
  | case3 s n k buf input body rest hframe hturn =>
      rw [readFrames_frame hframe, withFiles_cons, serve, hturn]
  | case4 s n k buf input body rest hframe s' hturn ih =>
      rw [readFrames_frame hframe, withFiles_cons, serve, hturn]
      exact congrArg (Served.after none) ih
  | case5 s n k buf input body rest hframe s' frame hturn hwrite ih =>
      rw [readFrames_frame hframe, withFiles_cons, serve, hturn]
      simp only [hwrite, if_true]
      exact congrArg (Served.after (some frame)) ih
  | case6 s n k buf input body rest hframe s' frame hturn hwrite =>
      rw [readFrames_frame hframe, withFiles_cons, serve, hturn]
      simp only [hwrite]
      rfl

/-! ## The gates

Which messages get past `route`, by the flags. -/

section Gates

variable {libs : Libs Path Url} {s : LspServer Url Path Time} {fs : FileSystem Path Time}
  {request : Request}

lemma dispatch_initializeReq (h : request.kind = .initializeReq) :
    s.dispatch libs fs request = if s.initialized then (.invalidRequest, s)
      else (initializeReply libs, { s with initialized := true }) := by
  rw [dispatch, route, if_pos h]
  cases s.initialized <;> rfl

lemma dispatch_fresh (h : request.kind ≠ .initializeReq) (hs : s.initialized = false) :
    s.dispatch libs fs request
      = (if request.isNotification then .silent else .notInitialized, s) := by
  rw [dispatch, route, if_neg h, hs]
  rfl

lemma dispatch_refused (h : request.kind ≠ .initializeReq) (hs : s.initialized = true)
    (hdown : s.shutDown = true) (hrequest : request.isNotification = false) :
    s.dispatch libs fs request = (.invalidRequest, s) := by
  rw [dispatch, route, if_neg h, hs, hdown, hrequest]
  rfl

lemma dispatch_handle (h : request.kind ≠ .initializeReq) (hs : s.initialized = true)
    (hgate : s.shutDown = false ∨ request.isNotification = true) :
    s.dispatch libs fs request = match s.handle libs fs request with
      | .ok answer => answer
      | .error _ => (.internalError, s) := by
  have hpass : (s.shutDown && !request.isNotification) = false := by
    rcases hgate with hgate | hgate <;> simp [hgate]
  rw [dispatch, route, if_neg h, hs, hpass]
  rfl

/-! ## Past the gates

`Step` is the inversion of `handle`: a reply, and what became of the documents and the selections.
-/

/-- What a message asks of the mirror. -/
def syncOp (libs : Libs Path Url) (request : Request) : Option (StoreOp Url) :=
  match request.kind with
  | .didOpen => (decode libs.didOpen request).map fun params =>
      .openDoc params.textDocument.uri params.textDocument.text
  | .didChange => (decode libs.didChange request).map fun params =>
      .apply params.textDocument.uri params.contentChanges
  | .didClose => (decode libs.didClose request).map fun params => .close params.textDocument.uri
  | _ => none

/-- What a message can do that got past the gates. -/
inductive Step (libs : Libs Path Url) (s : LspServer Url Path Time) (request : Request) :
    Reply → LspServer Url Path Time → Prop
  | quiet : request.kind.isQuiet = true → syncOp libs request = none → Step libs s request .silent s
  | sync {op : StoreOp Url} {documents : DocumentStore Url Path Time} :
      request.kind.isQuiet = true → syncOp libs request = some op →
      s.documents.runOp op = .ok documents → Step libs s request .silent { s with documents }
  | shutdown : request.kind = .shutdown → Step libs s request .null { s with shutDown := true }
  | undecodable : request.kind = .codeAction → decode libs.codeAction request = none →
      Step libs s request .invalidRequest s
  | codeAction {params : CodeActionParams Url} {documents : DocumentStore Url Path Time}
      (text : Text) : request.kind = .codeAction → decode libs.codeAction request = some params →
      documents.docs = s.documents.docs →
      Step libs s request .emptyActions { s with
        documents
        selections := s.selections ++ [⟨uriToPath libs params.textDocument.uri,
          params.textDocument.uri, params.range, text⟩] }
  | selectionRange : request.kind = .selectionRange → Step libs s request .null s
  | unknown : request.kind.isQuiet = false → request.kind ≠ .shutdown → request.kind ≠ .codeAction →
      request.isNotification = true → Step libs s request .silent s
  | methodNotFound : request.kind.isQuiet = false → request.kind ≠ .shutdown →
      request.kind ≠ .codeAction → request.isNotification = false →
      Step libs s request
        (.error .methodNotFound "Method not found".toList (some request.method)) s

omit [DecidableEq Path] [DecidableEq Time] in
lemma didOpen_step (s : LspServer Url Path Time) (libs : Libs Path Url)
    (hkind : request.kind = .didOpen) :
    Step libs s request (s.didOpen libs request).1 (s.didOpen libs request).2 := by
  have hquiet : request.kind.isQuiet = true := by rw [hkind]; rfl
  rw [didOpen]
  cases hdecode : decode libs.didOpen request with
  | none => exact .quiet hquiet (by simp only [syncOp, hkind, hdecode, Option.map_none])
  | some params =>
      exact .sync hquiet (by simp only [syncOp, hkind, hdecode, Option.map_some])
        (runOp_openDoc s.documents params.textDocument.uri params.textDocument.text)

omit [DecidableEq Path] [DecidableEq Time] in
lemma didClose_step (s : LspServer Url Path Time) (libs : Libs Path Url)
    (hkind : request.kind = .didClose) :
    Step libs s request (s.didClose libs request).1 (s.didClose libs request).2 := by
  have hquiet : request.kind.isQuiet = true := by rw [hkind]; rfl
  rw [didClose]
  cases hdecode : decode libs.didClose request with
  | none => exact .quiet hquiet (by simp only [syncOp, hkind, hdecode, Option.map_none])
  | some params =>
      exact .sync hquiet (by simp only [syncOp, hkind, hdecode, Option.map_some])
        (runOp_close s.documents params.textDocument.uri)

omit [DecidableEq Path] [DecidableEq Time] in
lemma didChange_step (h : s.Mirrored) (libs : Libs Path Url) (hkind : request.kind = .didChange) :
    ∃ reply s', s.didChange libs request = .ok (reply, s') ∧ Step libs s request reply s' := by
  have hquiet : request.kind.isQuiet = true := by rw [hkind]; rfl
  rw [didChange]
  cases hdecode : decode libs.didChange request with
  | none =>
      exact ⟨_, _, rfl, .quiet hquiet (by simp only [syncOp, hkind, hdecode, Option.map_none])⟩
  | some params =>
      obtain ⟨t, ht⟩ := h
      obtain ⟨documents, -, hrun, -, -⟩ :=
        runOp_mirrors ht (.apply params.textDocument.uri params.contentChanges)
      refine ⟨.silent, { s with documents }, ?_,
        .sync hquiet (by simp only [syncOp, hkind, hdecode, Option.map_some]) hrun⟩
      rw [DocumentStore.runOp] at hrun
      simp only [hrun, bind, Except.bind, pure, Except.pure]

lemma codeAction_step (h : s.Mirrored) (libs : Libs Path Url) (fs : FileSystem Path Time)
    (hkind : request.kind = .codeAction) :
    ∃ reply s', s.codeAction libs fs request = .ok (reply, s') ∧
      Step libs s request reply s' := by
  rw [codeAction]
  cases hdecode : decode libs.codeAction request with
  | none => exact ⟨_, _, rfl, .undecodable hkind hdecode⟩
  | some params =>
      obtain ⟨t, ht⟩ := h
      obtain ⟨text, documents, htext, hdocs⟩ := ht.textForRange_ok fs params.textDocument.uri
        (uriToPath libs params.textDocument.uri) params.range
      refine ⟨.emptyActions, _, ?_, .codeAction text hkind hdecode hdocs⟩
      simp only [htext, bind, Except.bind, pure, Except.pure]

/-- **Past the gates nothing panics**, and this is all that can happen. -/
theorem handle_step (h : s.Mirrored) (libs : Libs Path Url) (fs : FileSystem Path Time)
    (request : Request) :
    ∃ reply s', s.handle libs fs request = .ok (reply, s') ∧ Step libs s request reply s' := by
  rw [handle]
  cases hkind : request.kind with
  | initialized =>
      exact ⟨_, _, rfl, .quiet (by rw [hkind]; rfl) (by simp only [syncOp, hkind])⟩
  | didSave =>
      exact ⟨_, _, rfl, .quiet (by rw [hkind]; rfl) (by simp only [syncOp, hkind])⟩
  | shutdown => exact ⟨_, _, rfl, .shutdown hkind⟩
  | selectionRange => exact ⟨_, _, rfl, .selectionRange hkind⟩
  | didOpen => exact ⟨_, _, rfl, didOpen_step s libs hkind⟩
  | didClose => exact ⟨_, _, rfl, didClose_step s libs hkind⟩
  | didChange => exact didChange_step h libs hkind
  | codeAction => exact codeAction_step h libs fs hkind
  | _ =>
      have hquiet : request.kind.isQuiet = false := by rw [hkind]; rfl
      have hshutdown : request.kind ≠ .shutdown := by simp [hkind]
      have haction : request.kind ≠ .codeAction := by simp [hkind]
      cases hnotification : request.isNotification with
      | true => exact ⟨_, _, rfl, .unknown hquiet hshutdown haction hnotification⟩
      | false => exact ⟨_, _, rfl, .methodNotFound hquiet hshutdown haction hnotification⟩

omit [DecidableEq Path] [DecidableEq Time] in
lemma Step.mirrored {reply : Reply} {s' : LspServer Url Path Time} (h : s.Mirrored)
    (hstep : Step libs s request reply s') : s'.Mirrored := by
  obtain ⟨t, ht⟩ := h
  cases hstep with
  | sync _ _ hrun =>
      obtain ⟨documents, t', hrun', -, ht'⟩ := runOp_mirrors ht _
      rw [hrun] at hrun'
      cases hrun'
      exact ⟨t', ht'⟩
  | codeAction _ _ _ hdocs => exact ⟨t, fun uri => (congrFun hdocs uri).trans (ht uri)⟩
  | _ => exact ⟨t, ht⟩

omit [DecidableEq Path] [DecidableEq Time] in
lemma Step.flags {reply : Reply} {s' : LspServer Url Path Time}
    (hstep : Step libs s request reply s') : s'.initialized = s.initialized ∧
      s'.shutDown = (s.shutDown || decide (request.kind = .shutdown)) := by
  have hne : request.kind ≠ .shutdown → s.shutDown = (s.shutDown ||
      decide (request.kind = .shutdown)) := fun h => by simp [h]
  have hquiet : request.kind.isQuiet = true → request.kind ≠ .shutdown := by
    rintro h heq
    rw [heq] at h
    cases h
  cases hstep with
  | quiet h _ => exact ⟨rfl, hne (hquiet h)⟩
  | sync h _ _ => exact ⟨rfl, hne (hquiet h)⟩
  | shutdown h => exact ⟨rfl, by simp [h]⟩
  | undecodable h _ => exact ⟨rfl, hne (by simp [h])⟩
  | codeAction _ h _ _ => exact ⟨rfl, hne (by simp [h])⟩
  | selectionRange h => exact ⟨rfl, hne (by simp [h])⟩
  | unknown _ h _ _ => exact ⟨rfl, hne h⟩
  | methodNotFound _ h _ _ => exact ⟨rfl, hne h⟩

/-- A message that meets no gate takes a step. -/
lemma dispatch_step (h : s.Mirrored) (libs : Libs Path Url) (fs : FileSystem Path Time)
    (hkind : request.kind ≠ .initializeReq) (hs : s.initialized = true)
    (hgate : s.shutDown = false ∨ request.isNotification = true) :
    Step libs s request (s.dispatch libs fs request).1 (s.dispatch libs fs request).2 := by
  obtain ⟨reply, s', hhandle, hstep⟩ := handle_step h libs fs request
  rw [dispatch_handle hkind hs hgate, hhandle]
  exact hstep

/-- **No handler panics**, whatever was said before. -/
theorem route_ok (h : s.Mirrored) (libs : Libs Path Url) (fs : FileSystem Path Time)
    (request : Request) : ∃ answer, s.route libs fs request = .ok answer := by
  obtain ⟨reply, s', hhandle, -⟩ := handle_step h libs fs request
  rw [route, hhandle]
  split_ifs <;> exact ⟨_, rfl⟩

theorem dispatch_mirrored (h : s.Mirrored) (libs : Libs Path Url) (fs : FileSystem Path Time)
    (request : Request) : (s.dispatch libs fs request).2.Mirrored := by
  by_cases hkind : request.kind = .initializeReq
  · rw [dispatch_initializeReq hkind]
    cases s.initialized <;> exact h
  · cases hs : s.initialized with
    | false =>
        rw [dispatch_fresh hkind hs]
        exact h
    | true =>
        by_cases hgate : s.shutDown = false ∨ request.isNotification = true
        · exact (dispatch_step h libs fs hkind hs hgate).mirrored h
        · rw [not_or, Bool.not_eq_false, Bool.not_eq_true] at hgate
          rw [dispatch_refused hkind hs hgate.1 hgate.2]
          exact h

end Gates

/-! ## Sessions

Messages one after the other, without the loop around them. -/

/-- The messages dispatched, one after the other, each with the file system it sees. -/
def run (libs : Libs Path Url) (s : LspServer Url Path Time)
    (messages : List (Request × FileSystem Path Time)) : LspServer Url Path Time :=
  messages.foldl (fun s m => (s.dispatch libs m.2 m.1).2) s

lemma run_singleton (libs : Libs Path Url) (s : LspServer Url Path Time)
    (m : Request × FileSystem Path Time) : s.run libs [m] = (s.dispatch libs m.2 m.1).2 := rfl

lemma run_append (libs : Libs Path Url) (s : LspServer Url Path Time)
    (first second : List (Request × FileSystem Path Time)) :
    s.run libs (first ++ second) = (s.run libs first).run libs second :=
  List.foldl_append

lemma run_mirrored {s : LspServer Url Path Time} (h : s.Mirrored) (libs : Libs Path Url)
    (messages : List (Request × FileSystem Path Time)) : (s.run libs messages).Mirrored := by
  induction messages generalizing s with
  | nil => exact h
  | cons m messages ih => exact ih (dispatch_mirrored h libs m.2 m.1)

end LspServer

end Connect
