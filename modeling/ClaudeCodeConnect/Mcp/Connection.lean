import ClaudeCodeConnect.Json.Parser
import ClaudeCodeConnect.Mcp.Dispatcher
import ClaudeCodeConnect.Selection.EventBus

/-!
# Requests and responses on a connection

`handle_websocket_message` of `mcp/connection.rs`.  What `serde_json` makes of a text is a
parameter; what is done with the value is all here.

* `handleWebsocketMessage` -- the message, answered or not; `Handled` is what was sent, whether the
  connection goes on, and the bus after it.
* `Corresponds` -- the law of requests and responses: text that is no JSON draws one parse error
  with a null id, an object with an id one response with that id, and anything else nothing.
* `corresponds_iff` -- it holds of every text but a `PositionalRequest`: an array that decodes as a
  request, field by field, and is answered like one.
-/

namespace Connect

/-- A message of the WebSocket.  The handler tells a text and a close from all others; the library
answers a ping and a close by itself. -/
inductive Message where
  | text (text : Text)
  | ping
  | close
  | other
  deriving DecidableEq, Repr

/-- What handling a message comes to. -/
structure Handled (Path Url : Type) where
  sent : List MCPResponse
  result : Except Text Unit
  bus : EventBus Path Url

section

variable {Path Url : Type}

/-- `handle_at_mention_request`. -/
def handleAtMentionRequest (bus : EventBus Path Url) : EventBus Path Url :=
  match bus.latest with
  | none => bus
  | some selection => bus.publishMention (Mention.of selection)

/-- Send one response, and return with what the sink says. -/
def sendResponse (send : MCPResponse → Except Text Unit) (bus : EventBus Path Url)
    (response : MCPResponse) : Handled Path Url :=
  match send response with
  | .ok () => ⟨[response], .ok (), bus⟩
  | .error e => ⟨[], .error e, bus⟩

/-- `send_error`. -/
def sendError (send : MCPResponse → Except Text Unit) (bus : EventBus Path Url) (id : Option Json)
    (code : ℤ) (message : Text) (data : Option Json) : Handled Path Url :=
  sendResponse send bus {
    jsonrpc := "2.0".toList
    id
    result := none
    error := some ⟨code, message, data⟩ }

/-- A decoded request: a notification is never answered, and only a mention request does anything.
-/
def handleMcpRequest (version : PkgVersion) (send : MCPResponse → Except Text Unit)
    (bus : EventBus Path Url) (request : MCPRequest) : Handled Path Url :=
  if request.isNotification then
    if request.method = "at_mention_request".toList then ⟨[], .ok (), handleAtMentionRequest bus⟩
    else ⟨[], .ok (), bus⟩
  else
    match handleRequest version request with
    | .ok response => sendResponse send bus response
    | .error e =>
        let details := some (.object [("details".toList, .string e.message)])
        match e with
        | .invalidParams _ =>
            sendError send bus request.id (-32602) "Invalid params".toList details
        | .other _ => sendError send bus request.id (-32603) "Internal error".toList details

/-- A text frame. -/
def handleText (parse : Text → Option Json) (version : PkgVersion)
    (send : MCPResponse → Except Text Unit) (bus : EventBus Path Url) (text : Text) :
    Handled Path Url :=
  match parse text with
  | none => sendError send bus (some .null) (-32700) "Parse error".toList none
  | some raw =>
      match MCPRequest.ofJson raw with
      | some request => handleMcpRequest version send bus request
      | none =>
          -- valid JSON of the wrong shape: answered only when an id was recoverable
          match (raw.get "id".toList).filter fun id => !id.isNull with
          | some id => sendError send bus (some id) (-32600) "Invalid Request".toList none
          | none => ⟨[], .ok (), bus⟩

/-- `handle_websocket_message`. -/
def handleWebsocketMessage (parse : Text → Option Json) (version : PkgVersion)
    (send : MCPResponse → Except Text Unit) (bus : EventBus Path Url)
    (msg : Except Text Message) : Handled Path Url :=
  match msg with
  | .ok (.text text) => handleText parse version send bus text
  | .ok .close => ⟨[], .ok (), bus⟩
  | .ok .ping => ⟨[], .ok (), bus⟩
  | .ok .other => ⟨[], .ok (), bus⟩
  | .error e => ⟨[], .error e, bus⟩

end

/-! ## Decoding the envelope

A request is an object with a string for its method, or an array with its fields in their places. -/

/-- An array that decodes as a request with an id: the four fields by position. -/
def PositionalRequest (v : Json) : Prop :=
  ∃ jsonrpc id method params, v = .array [.string jsonrpc, id, .string method, params] ∧ id ≠ .null

/-- The id a value has for the law: a member of an object that is not null. -/
def objectId (v : Json) : Option Json := (v.get "id".toList).filter fun id => !id.isNull

lemma get_array (name : Text) (items : List Json) : (Json.array items).get name = none := rfl

/-- A request decoded from an object has the id the object has. -/
lemma ofJson_object {members : List (Text × Json)} {request : MCPRequest}
    (h : MCPRequest.ofJson (.object members) = some request) :
    request.id = objectId (.object members) := by
  rw [MCPRequest.ofJson, Json.fields, fieldsByName] at h
  split_ifs at h
  simp only [MCPRequest.fieldNames, List.map_cons, List.map_nil] at h
  split at h
  · next heq =>
      cases h
      simp only [Option.some.injEq, List.cons.injEq] at heq
      rw [← heq.2.1]
      rfl
  · cases h

/-- One decoded from an array has the four fields as its elements. -/
lemma ofJson_array {items : List Json} {request : MCPRequest}
    (h : MCPRequest.ofJson (.array items) = some request) :
    ∃ jsonrpc id method params,
      items = [.string jsonrpc, id, .string method, params] ∧
        request.id = Json.optional (some id) := by
  rw [MCPRequest.ofJson, Json.fields, fieldsByPosition] at h
  split_ifs at h with hlen
  have hfour : items.length = 4 := by
    have hnames : MCPRequest.fieldNames.length = 4 := by decide
    omega
  match items, hfour with
  | [a, b, c, d], _ =>
      simp only [MCPRequest.fieldNames, List.length_cons, List.length_nil, List.range_succ,
        List.range_zero, List.nil_append, List.cons_append, List.map_cons, List.map_nil] at h
      split at h
      · next heq =>
          cases h
          simp at heq
          obtain ⟨rfl, rfl, rfl, rfl⟩ := heq
          exact ⟨_, _, _, _, rfl, rfl⟩
      · cases h

/-! ## The law

One response for each message that asks for one.  An array that decodes as a request is answered
too, though it says no id by name. -/

section

variable {Path Url : Type}

/-- The law of requests and responses for one text frame: what is to be sent, and that the
connection goes on. -/
def Corresponds (parsed : Option Json) (h : Handled Path Url) : Prop :=
  h.result = .ok () ∧
  match parsed with
  | none => ∃ data, h.sent = [⟨"2.0".toList, some .null, none,
      some ⟨-32700, "Parse error".toList, data⟩⟩]
  | some v =>
      match objectId v with
      | some id => ∃ response, h.sent = [response] ∧ WireAnswers response.toJson id
      | none => h.sent = []

variable {version : PkgVersion} {send : MCPResponse → Except Text Unit} {bus : EventBus Path Url}

lemma sendResponse_ok (hsend : ∀ r, send r = .ok ()) (response : MCPResponse) :
    sendResponse send bus response = ⟨[response], .ok (), bus⟩ := by
  rw [sendResponse, hsend]

/-- A request that is no notification draws one response with its id. -/
lemma handleMcpRequest_answers (version : PkgVersion) (bus : EventBus Path Url)
    (hsend : ∀ r, send r = .ok ()) {request : MCPRequest} {id : Json}
    (hid : request.id = some id) (hnull : id ≠ .null) :
    ∃ response, response.Answers id ∧
      handleMcpRequest version send bus request = ⟨[response], .ok (), bus⟩ := by
  have hnot : request.isNotification = false := by simp [MCPRequest.isNotification, hid, hnull]
  rw [handleMcpRequest, if_neg (by simp [hnot])]
  cases hresponse : handleRequest version request with
  | ok response => exact ⟨response, handleRequest_ok hid hresponse, sendResponse_ok hsend response⟩
  | error e =>
      cases e <;>
        exact ⟨_, ⟨rfl, hid, Or.inr ⟨rfl, rfl⟩⟩, sendResponse_ok hsend _⟩

lemma handleMcpRequest_notification (version : PkgVersion) (send : MCPResponse → Except Text Unit)
    (bus : EventBus Path Url) {request : MCPRequest} (h : request.isNotification = true) :
    (handleMcpRequest version send bus request).sent = [] ∧
      (handleMcpRequest version send bus request).result = .ok () := by
  rw [handleMcpRequest, if_pos h]
  split_ifs <;> exact ⟨rfl, rfl⟩

/-- A decoded request whose id is what the law goes by satisfies it. -/
lemma handleMcpRequest_corresponds (hsend : ∀ r, send r = .ok ()) {v : Json} {request : MCPRequest}
    (hid : request.id = objectId v) :
    Corresponds (some v) (handleMcpRequest version send bus request) := by
  cases hobject : objectId v with
  | none =>
      have hnot : request.isNotification = true := by
        rw [MCPRequest.isNotification, hid, hobject]
        rfl
      obtain ⟨hsent, hresult⟩ := handleMcpRequest_notification version send bus hnot
      refine ⟨hresult, ?_⟩
      simp only [hobject]
      exact hsent
  | some id =>
      have hnull : id ≠ .null := by
        rw [objectId, Option.filter_eq_some_iff] at hobject
        simpa using hobject.2
      obtain ⟨response, hanswers, heq⟩ :=
        handleMcpRequest_answers version bus hsend (hid.trans hobject) hnull
      rw [heq]
      refine ⟨rfl, ?_⟩
      simp only [hobject]
      exact ⟨response, rfl, hanswers.toJson⟩

/-- JSON of the wrong shape draws an error when it has an id, and nothing otherwise. -/
lemma malformed_corresponds (hsend : ∀ r, send r = .ok ()) {v : Json} :
    Corresponds (some v) (match objectId v with
      | some id => sendError send bus (some id) (-32600) "Invalid Request".toList none
      | none => ⟨[], .ok (), bus⟩) := by
  cases hobject : objectId v with
  | none =>
      refine ⟨rfl, ?_⟩
      simp only [hobject]
  | some id =>
      simp only [sendError, sendResponse_ok hsend]
      refine ⟨rfl, ?_⟩
      simp only [hobject]
      exact ⟨_, rfl, MCPResponse.Answers.toJson ⟨rfl, rfl, Or.inr ⟨rfl, rfl⟩⟩⟩

/-- An array with an id is answered, and the law asks for silence. -/
lemma array_not_corresponds (hsend : ∀ r, send r = .ok ()) {items : List Json}
    {request : MCPRequest} {id : Json} (hid : request.id = some id) (hnull : id ≠ .null) :
    ¬ Corresponds (some (.array items)) (handleMcpRequest version send bus request) := by
  obtain ⟨response, -, heq⟩ := handleMcpRequest_answers version bus hsend hid hnull
  rintro ⟨-, hsent⟩
  simp [heq, objectId, get_array] at hsent

/-- What decodes as a request is an object or an array. -/
lemma ofJson_eq_some {v : Json} {request : MCPRequest} (h : MCPRequest.ofJson v = some request) :
    (∃ members, v = .object members) ∨ ∃ items, v = .array items := by
  cases v with
  | object members => exact Or.inl ⟨members, rfl⟩
  | array items => exact Or.inr ⟨items, rfl⟩
  | _ => simp [MCPRequest.ofJson, Json.fields] at h

/-- **The law holds of every text but an array that decodes as a request.** -/
theorem corresponds_iff (parse : Text → Option Json) (version : PkgVersion)
    (send : MCPResponse → Except Text Unit) (bus : EventBus Path Url) (text : Text)
    (hsend : ∀ r, send r = .ok ()) :
    Corresponds (parse text) (handleWebsocketMessage parse version send bus (.ok (.text text))) ↔
      ∀ v, parse text = some v → ¬ PositionalRequest v := by
  show Corresponds (parse text) (handleText parse version send bus text) ↔ _
  cases hparse : parse text with
  | none =>
      refine iff_of_true ?_ (by simp)
      simp only [handleText, hparse, sendError, sendResponse_ok hsend]
      exact ⟨rfl, none, rfl⟩
  | some v =>
      simp only [Option.some.injEq, forall_eq']
      cases hdecode : MCPRequest.ofJson v with
      | none =>
          have hnot : ¬ PositionalRequest v := by
            rintro ⟨jsonrpc, id, method, params, rfl, -⟩
            cases hdecode
          refine iff_of_true ?_ hnot
          simp only [handleText, hparse, hdecode]
          exact malformed_corresponds hsend
      | some request =>
          simp only [handleText, hparse, hdecode]
          rcases ofJson_eq_some hdecode with ⟨members, rfl⟩ | ⟨items, rfl⟩
          · refine iff_of_true (handleMcpRequest_corresponds hsend (ofJson_object hdecode)) ?_
            rintro ⟨jsonrpc, id, method, params, heq, -⟩
            cases heq
          · obtain ⟨jsonrpc, id, method, params, rfl, hid⟩ := ofJson_array hdecode
            by_cases hnull : id = .null
            · have hobject : request.id
                  = objectId (.array [.string jsonrpc, id, .string method, params]) := by
                rw [hid, hnull]
                rfl
              refine iff_of_true (handleMcpRequest_corresponds hsend hobject) ?_
              rintro ⟨jsonrpc', id', method', params', heq, hne⟩
              simp only [Json.array.injEq, List.cons.injEq] at heq
              exact hne (heq.2.1 ▸ hnull)
            · have hid' : request.id = some id := by simp [hid, Json.optional, hnull]
              refine iff_of_false (array_not_corresponds hsend hid' hnull) ?_
              exact fun h => h ⟨jsonrpc, id, method, params, rfl, hnull⟩

end

/-- A request for the tool list, `\x7b"jsonrpc":"2.0","id":1,"method":"tools/list"\x7d`. -/
def toolsListRequest : Doc :=
  ⟨.none, Syntax.compact [
    ("jsonrpc".toList, .string (escape "2.0".toList)),
    ("id".toList, .number ['1'] isNumber_one),
    ("method".toList, .string (escape "tools/list".toList))], .none⟩

lemma parseJson?_toolsListRequest : parseJson? toolsListRequest.text = some (.object [
    ("jsonrpc".toList, .string "2.0".toList), ("id".toList, .number ['1']),
    ("method".toList, .string "tools/list".toList)]) := by
  rw [parseJson?_text, toolsListRequest]
  refine Syntax.compact_value? (haveValues_cons (string_escape_value? _) ?_)
  exact haveValues_cons rfl (haveValues_cons (string_escape_value? _) .nil)

/-- It draws its response. -/
theorem corresponds_toolsListRequest :
    Corresponds (parseJson? toolsListRequest.text)
      (handleWebsocketMessage parseJson? [] (fun _ => .ok ()) (EventBus.new 4 : EventBus Unit Unit)
        (.ok (.text toolsListRequest.text))) := by
  refine (corresponds_iff parseJson? [] (fun _ => .ok ()) _ _ fun _ => rfl).mpr ?_
  rintro v hv ⟨jsonrpc, id, method, params, rfl, -⟩
  rw [parseJson?_toolsListRequest, Option.some.injEq] at hv
  cases hv

/-- The array `["2.0",1,"tools/list",null]`. -/
def arrayRequest : Doc :=
  ⟨.none, .array (.more .none (.string (escape "2.0".toList)) .none
    (.more .none (.number ['1'] isNumber_one) .none
      (.more .none (.string (escape "tools/list".toList)) .none
        (.last .none .null .none)))), .none⟩

/-- **An array is answered.** It is no request, but decodes as one. -/
theorem not_forall_corresponds : ¬ ∀ (parse : Text → Option Json) (bus : EventBus Unit Unit)
    (text : Text), Corresponds (parse text)
      (handleWebsocketMessage parse [] (fun _ => .ok ()) bus (.ok (.text text))) := by
  intro h
  have hparse : parseJson? arrayRequest.text
      = some (.array
        [.string "2.0".toList, .number ['1'], .string "tools/list".toList, .null]) := by
    rw [parseJson?_text, arrayRequest]
    simp only [Syntax.value?, Elements.values?, escape_value?, Option.map_some, Option.bind_some]
  have hdecode : MCPRequest.ofJson
      (.array [.string "2.0".toList, .number ['1'], .string "tools/list".toList, .null])
        = some ⟨"2.0".toList, some (.number ['1']), "tools/list".toList, none⟩ := rfl
  have harray := h parseJson? (EventBus.new 4) arrayRequest.text
  simp only [handleWebsocketMessage, handleText, hparse, hdecode] at harray
  refine array_not_corresponds (fun _ => rfl) rfl ?_ harray
  rintro ⟨⟩

end Connect
