import ClaudeCodeConnect.Lsp.Handshake

/-!
# Requests and responses of the loop

What goes back over a session, in terms of the messages alone.

* `heard`, `awaited` -- the messages up to `exit`, and the ids that await a response, by the phase
  each message finds.  This is the specification; no flag, store or handler occurs in it.
* `IsResponse` -- a frame that responds to an id.
* `turn_response` -- one turn of the loop; `serve_written` -- all of them.
* `serve_responses` -- **what goes back are the responses awaited**, in order and nothing else, and
  a frame that does not decode could as well not have been there.
-/

namespace Connect

/-! ## What is awaited

The ids that the editor waits for, read off the frames alone. -/

/-- The id that awaits a response: none of a notification, nor of a message that a running server
answers by silence. -/
def awaits (p : ServerPhase) (r : Request) : Option Text :=
  if p = .running ∧ r.kind.isQuiet = true then none else r.id

lemma awaits_of_isNotification {r : Request} (h : r.isNotification = true) (p : ServerPhase) :
    awaits p r = none := by
  rw [awaits, Option.isNone_iff_eq_none.mp h, ite_self]

/-- The ids that await a response, in order. -/
def awaited : ServerPhase → List Request → List Text
  | _, [] => []
  | p, r :: rest => (awaits p r).toList ++ awaited (p.next r.kind) rest

/-- The messages before `exit`. -/
def heard {Path Url Time : Type} (libs : Libs Path Url)
    (frames : List (List UInt8 × FileSystem Path Time)) : List Request :=
  (frames.filterMap fun f => libs.request f.1).takeWhile fun r => r.kind ≠ .exit

/-- The frame is one JSON object: version 2.0, this very id, and one of result and error. -/
def IsResponse (id : Text) (frame : List UInt8) : Prop :=
  ∃ (tree : Syntax) (name : Text) (result : Syntax), tree.text = id ∧
    (name = "result".toList ∨ name = "error".toList) ∧
    frame = Text.bytes (responseSyntax tree name result).text

/-! ## Replies that are answers

Every request that is let through, or refused, has a reply; no notification has one. -/

namespace Reply

/-- Anything but silence; a result is the text of a value. -/
def IsAnswer : Reply → Prop
  | silent => False
  | result text => ∃ s v, text = Syntax.text s ∧ s.HasValue v
  | error _ _ _ => True

lemma null_isAnswer : null.IsAnswer := ⟨.null, .null, rfl, rfl⟩

lemma emptyActions_isAnswer : emptyActions.IsAnswer := ⟨.emptyArray .none, .array [], rfl, rfl⟩

lemma frame_of_isAnswer {reply : Reply} (h : reply.IsAnswer) (tree : Syntax) :
    ∃ frame, reply.frame tree.text = some frame ∧ IsResponse tree.text frame := by
  cases reply with
  | silent => cases h
  | result text =>
      obtain ⟨s, v, rfl, -⟩ := h
      refine ⟨_, rfl, tree, "result".toList, s, rfl, Or.inl rfl, ?_⟩
      rw [responseSyntax_text _ _ (by decide), successFrame]
  | error code message data =>
      refine ⟨_, rfl, tree, "error".toList, responseError code message data, rfl, Or.inr rfl, ?_⟩
      rw [responseSyntax_text _ _ (by decide), errorFrame]

end Reply

namespace LspServer

variable {Url Path Time : Type} [DecidableEq Url] [DecidableEq Path] [DecidableEq Time]
  {libs : Libs Path Url} {s : LspServer Url Path Time} {request : Request}

omit [DecidableEq Url] [DecidableEq Path] [DecidableEq Time] in
lemma initializeReply_isAnswer (libs : Libs Path Url) : (initializeReply libs).IsAnswer :=
  ⟨_, _, rfl, Syntax.compact_value?
    (haveValues_cons (Syntax.compact_value? (haveValues_cons rfl (haveValues_cons rfl .nil)))
      (haveValues_cons (Syntax.compact_value? (haveValues_cons (Syntax.str_value? _)
        (haveValues_cons (Syntax.str_value? _) .nil))) .nil))⟩

omit [DecidableEq Path] [DecidableEq Time] in
/-- Past the gates a request is answered unless its method is a quiet one. -/
lemma Step.reply {reply : Reply} {s' : LspServer Url Path Time}
    (hstep : Step libs s request reply s') (hrequest : request.isNotification = false) :
    if request.kind.isQuiet = true then reply = .silent else reply.IsAnswer := by
  cases hstep with
  | quiet hquiet _ => rw [if_pos hquiet]
  | sync hquiet _ _ => rw [if_pos hquiet]
  | shutdown hkind =>
      rw [hkind]
      exact Reply.null_isAnswer
  | undecodable hkind _ =>
      rw [hkind]
      exact trivial
  | codeAction _ hkind _ _ =>
      rw [hkind]
      exact Reply.emptyActions_isAnswer
  | selectionRange hkind =>
      rw [hkind]
      exact Reply.null_isAnswer
  | unknown _ _ _ hnotification =>
      rw [hrequest] at hnotification
      cases hnotification
  | methodNotFound hquiet _ _ _ =>
      rw [hquiet]
      exact trivial

/-- **One request**: what is drawn depends on the phase and the method alone. -/
lemma dispatch_reply {p : ServerPhase} (hmirrored : s.Mirrored) (hphase : s.InPhase p)
    (libs : Libs Path Url) (fs : FileSystem Path Time) (hrequest : request.isNotification = false) :
    if p = .running ∧ request.kind.isQuiet = true then (s.dispatch libs fs request).1 = .silent
    else (s.dispatch libs fs request).1.IsAnswer := by
  obtain ⟨hinitialized, hdown⟩ := hphase
  by_cases hkind : request.kind = .initializeReq
  · rw [dispatch_initializeReq hkind, hinitialized, hkind]
    cases p with
    | fresh => exact initializeReply_isAnswer libs
    | running => exact trivial
    | down => exact trivial
  · cases p with
    | fresh =>
        rw [dispatch_fresh hkind hinitialized, hrequest]
        exact trivial
    | running =>
        have hreply := (dispatch_step hmirrored libs fs hkind hinitialized (Or.inl hdown)).reply
          hrequest
        simpa using hreply
    | down =>
        rw [dispatch_refused hkind hinitialized hdown hrequest]
        exact trivial

/-! ## The loop

By induction on the bodies, from any state of the server. -/

/-- **One turn** sends the response awaited, if one is, and nothing else. -/
lemma turn_response {p : ServerPhase} (hmirrored : s.Mirrored) (hphase : s.InPhase p)
    (hraw : libs.RawIds) (fs : FileSystem Path Time) {body : List UInt8}
    (hbody : libs.request body = some request) (hexit : request.kind ≠ .exit) :
    ∃ frame, s.turn libs fs body = some ((s.dispatch libs fs request).2, frame) ∧
      List.Forall₂ IsResponse (awaits p request).toList frame.toList := by
  refine ⟨request.id.bind fun id => (s.dispatch libs fs request).1.frame id, ?_, ?_⟩
  · rw [turn, hbody]
    exact if_neg hexit
  cases hid : request.id with
  | none =>
      rw [awaits_of_isNotification (by rw [Request.isNotification, hid]; rfl)]
      exact .nil
  | some id =>
      have hrequest : request.isNotification = false := by rw [Request.isNotification, hid]; rfl
      have hreply := dispatch_reply hmirrored hphase libs fs hrequest
      obtain ⟨tree, rfl⟩ := hraw body request id hbody (Option.filter_eq_some_iff.mp hid).1
      rw [awaits, Option.bind_some, hid]
      split_ifs at hreply ⊢ with hquiet
      · rw [hreply]
        exact .nil
      · obtain ⟨frame, hframe, hresponse⟩ := Reply.frame_of_isAnswer hreply tree
        rw [hframe]
        exact .cons hresponse .nil

omit [DecidableEq Url] [DecidableEq Path] [DecidableEq Time] in
lemma heard_cons_none {body : List UInt8} {fs : FileSystem Path Time}
    {frames : List (List UInt8 × FileSystem Path Time)} (h : libs.request body = none) :
    heard libs ((body, fs) :: frames) = heard libs frames := by
  simp only [heard, List.filterMap_cons, h]

omit [DecidableEq Url] [DecidableEq Path] [DecidableEq Time] in
lemma heard_cons_some {body : List UInt8} {fs : FileSystem Path Time}
    {frames : List (List UInt8 × FileSystem Path Time)} (h : libs.request body = some request) :
    heard libs ((body, fs) :: frames)
      = if request.kind = .exit then [] else request :: heard libs frames := by
  simp only [heard, List.filterMap_cons, h, List.takeWhile_cons]
  by_cases hexit : request.kind = .exit <;> simp [hexit]

/-- **All turns.**  From a server in some phase, what goes back are the responses awaited from that
phase on. -/
theorem serve_written {p : ServerPhase} (hmirrored : s.Mirrored) (hphase : s.InPhase p)
    (hraw : libs.RawIds) (ending : Except IoError Unit) (n : ℕ)
    (frames : List (List UInt8 × FileSystem Path Time)) :
    List.Forall₂ IsResponse (awaited p (heard libs frames))
      (serve libs (fun _ => true) ending s n frames).written := by
  induction frames generalizing s p n with
  | nil => exact .nil
  | cons f frames ih =>
      obtain ⟨body, fs⟩ := f
      rw [serve]
      cases hbody : libs.request body with
      | none =>
          have hturn : s.turn libs fs body = some (s, none) := by rw [turn, hbody]
          rw [hturn, heard_cons_none hbody]
          exact ih hmirrored hphase n
      | some request =>
          rw [heard_cons_some hbody]
          by_cases hexit : request.kind = .exit
          · have hturn : s.turn libs fs body = none := by rw [turn, hbody]; exact if_pos hexit
            rw [hturn, if_pos hexit]
            exact .nil
          · obtain ⟨frame, hturn, hresponse⟩ := turn_response hmirrored hphase hraw fs hbody hexit
            have hmirrored' := dispatch_mirrored hmirrored libs fs request
            have hphase' := dispatch_inPhase hmirrored hphase libs fs request
            rw [hturn, if_neg hexit, awaited]
            cases frame with
            | none => exact List.rel_append hresponse (ih hmirrored' hphase' n)
            | some frame => exact List.rel_append hresponse (ih hmirrored' hphase' (n + 1))

/-- A frame that does not decode leaves no trace. -/
lemma serve_undecodable {body : List UInt8} (h : libs.request body = none) (write : ℕ → Bool)
    (ending : Except IoError Unit) (fs : FileSystem Path Time) (s : LspServer Url Path Time) (n : ℕ)
    (first rest : List (List UInt8 × FileSystem Path Time)) :
    (serve libs write ending s n (first ++ (body, fs) :: rest)).server
        = (serve libs write ending s n (first ++ rest)).server ∧
      (serve libs write ending s n (first ++ (body, fs) :: rest)).written
        = (serve libs write ending s n (first ++ rest)).written ∧
      (serve libs write ending s n (first ++ (body, fs) :: rest)).ending
        = (serve libs write ending s n (first ++ rest)).ending ∧
      (serve libs write ending s n (first ++ (body, fs) :: rest)).torn
        = (serve libs write ending s n (first ++ rest)).torn := by
  induction first generalizing s n with
  | nil =>
      have hturn : s.turn libs fs body = some (s, none) := by rw [turn, h]
      rw [List.nil_append, serve, hturn]
      exact ⟨rfl, rfl, rfl, rfl⟩
  | cons f first ih =>
      obtain ⟨body', fs'⟩ := f
      rw [List.cons_append, List.cons_append, serve, serve]
      cases s.turn libs fs' body' with
      | none => exact ⟨rfl, rfl, rfl, rfl⟩
      | some out =>
          obtain ⟨s', _ | frame⟩ := out
          · exact ih s' n
          · dsimp only
            split_ifs
            · obtain ⟨hserver, hwritten, hending, htorn⟩ := ih s' (n + 1)
              exact ⟨hserver, congrArg (frame :: ·) hwritten, hending, htorn⟩
            · exact ⟨rfl, rfl, rfl, rfl⟩

/-- **Requests and responses of the loop.**  What goes back over a session are the responses
awaited, in order and nothing else; and deleting a frame that does not decode changes neither what
goes back nor the server, with its store and the selections it passed on. -/
theorem serve_responses (libs : Libs Path Url) (hraw : libs.RawIds)
    (ending : Except IoError Unit) :
    (∀ frames : List (List UInt8 × FileSystem Path Time),
      List.Forall₂ IsResponse (awaited .fresh (heard libs frames))
        (serve libs (fun _ => true) ending (new : LspServer Url Path Time) 0 frames).written) ∧
    ∀ (first rest : List (List UInt8 × FileSystem Path Time)) (body : List UInt8)
      (fs : FileSystem Path Time), libs.request body = none →
      (serve libs (fun _ => true) ending new 0 (first ++ (body, fs) :: rest)).server
          = (serve libs (fun _ => true) ending (new : LspServer Url Path Time) 0
            (first ++ rest)).server ∧
        (serve libs (fun _ => true) ending new 0 (first ++ (body, fs) :: rest)).written
          = (serve libs (fun _ => true) ending (new : LspServer Url Path Time) 0
            (first ++ rest)).written := by
  refine ⟨fun frames => serve_written mirrored_new new_inPhase hraw ending 0 frames, ?_⟩
  intro first rest body fs hbody
  obtain ⟨hserver, hwritten, -⟩ := serve_undecodable hbody (fun _ => true) ending fs
    (new : LspServer Url Path Time) 0 first rest
  exact ⟨hserver, hwritten⟩

/-- An `initialize` request with the id 1. -/
def initializeDoc : Doc :=
  ⟨.none, Syntax.compact [("id".toList, .number ['1'] isNumber_one),
    ("method".toList, .str "initialize".toList)], .none⟩

lemma request_initializeDoc : textLibs.request (Text.bytes initializeDoc.text)
    = some ⟨"initialize".toList, some ['1'], none⟩ := by
  rw [textLibs_lawful.request]
  decide +kernel

/-! ## A session

The editor opens a document and edits it, selects in a file that is on the disk only, which is
rewritten between two selections, and then in its own document.  The modules after this one try
their results on it. -/

/-- A number literal. -/
def numberSyntax (n : ℕ) : Syntax := .number (Text.toDigits n) (isNumber_toDigits n)

/-- A message with params; a request, if it has an id. -/
def messageDoc (id : Option ℕ) (method : Text) (params : List (Text × Syntax)) : Doc :=
  ⟨.none, Syntax.compact ((id.map fun n => ("id".toList, numberSyntax n)).toList ++
    [("method".toList, .str method), ("params".toList, Syntax.compact params)]), .none⟩

/-- The first line and so many characters of the second. -/
def rangeSyntax (character : ℕ) : Syntax :=
  let position (line character : ℕ) := Syntax.compact
    [("line".toList, numberSyntax line), ("character".toList, numberSyntax character)]
  Syntax.compact [("start".toList, position 0 0), ("end".toList, position 1 character)]

/-- `/p/a` is opened, with two lines. -/
def openDoc : Doc := messageDoc none "textDocument/didOpen".toList
  [("textDocument".toList, Syntax.compact
    [("uri".toList, .str "/p/a".toList), ("text".toList, .str "one\ntwo".toList)])]

/-- Its first line is edited away, and one character of the second with it. -/
def changeDoc : Doc := messageDoc none "textDocument/didChange".toList
  [("textDocument".toList, Syntax.compact [("uri".toList, .str "/p/a".toList)]),
    ("contentChanges".toList, Syntax.compactArray [Syntax.compact
      [("range".toList, rangeSyntax 1), ("text".toList, .str "1\n".toList)]])]

/-- A selection. -/
def selectDoc (id : ℕ) (uri : Text) (character : ℕ) : Doc :=
  messageDoc (some id) "textDocument/codeAction".toList
    [("textDocument".toList, Syntax.compact [("uri".toList, .str uri)]),
      ("range".toList, rangeSyntax character)]

/-- The disk after so many times that `/p/b` was written, which holds their number. -/
def savedFiles (n : ℕ) : FileSystem Text ℕ := fun path =>
  if path = "/p/b".toList then
    some ⟨⟨Text.len (Text.toDigits n ++ ['\n']), some n⟩,
      Text.bytes (Text.toDigits n ++ ['\n']), true⟩
  else none

/-- The frames of the session, with the disk as each of them finds it.  The second does not
decode. -/
def editing : List (List UInt8 × FileSystem Text ℕ) :=
  [(Text.bytes initializeDoc.text, savedFiles 1), (['?'.toUInt8], savedFiles 1),
    (Text.bytes openDoc.text, savedFiles 1), (Text.bytes changeDoc.text, savedFiles 1),
    (Text.bytes (selectDoc 2 "/p/b".toList 0).text, savedFiles 1),
    (Text.bytes (selectDoc 3 "/p/b".toList 0).text, savedFiles 1),
    (Text.bytes (selectDoc 4 "/p/b".toList 0).text, savedFiles 2),
    (Text.bytes (selectDoc 5 "/p/a".toList 2).text, savedFiles 2)]

/-- Its five requests are responded to, and without the frame that does not decode they are as
well. -/
theorem serve_responses_editing :
    List.Forall₂ IsResponse ([1, 2, 3, 4, 5].map Text.toDigits)
        (serve textLibs (fun _ => true) (.ok ()) (new : LspServer Text Text ℕ) 0 editing).written ∧
      (serve textLibs (fun _ => true) (.ok ()) (new : LspServer Text Text ℕ) 0 editing).written
        = (serve textLibs (fun _ => true) (.ok ()) (new : LspServer Text Text ℕ) 0
          (editing.eraseIdx 1)).written := by
  have hawaited : awaited .fresh (heard textLibs editing) = [1, 2, 3, 4, 5].map Text.toDigits := by
    decide +kernel
  constructor
  · have hresponses := (serve_responses textLibs textLibs_rawIds (.ok ())).1 editing
    exact hawaited ▸ hresponses
  · have hbody : textLibs.request ['?'.toUInt8] = none := by decide +kernel
    exact ((serve_responses textLibs textLibs_rawIds (.ok ())).2 [_] _ _ _ hbody).2

end LspServer

end Connect
