import ClaudeCodeConnect.Json.Value

/-!
# The MCP request dispatcher

`mcp/protocol.rs`: the envelope of a request and of a response, and `Dispatcher::handle_request`,
which answers every request from the protocol alone.

* `MCPRequest.ofJson` -- the derived decoding of the envelope, by name or by position.
* `MCPResponse.toJson` -- what is sent of a response; `id` is always there, of `result` and `error`
  only what is set.
* `handleRequest` -- the methods; an error is either the caller's (`invalidParams`) or not.
* `handleRequest_ok` -- a response it gives has the request's id and one of result and error.
-/

namespace Connect

/-- The version of the package. -/
abbrev PkgVersion := Text

/-- `MCPRequest`: a request or a notification of the CLI. -/
structure MCPRequest where
  jsonrpc : Text
  id : Option Json
  method : Text
  params : Option Json
  deriving Repr

/-- `MCPError`. -/
structure MCPError where
  code : ℤ
  message : Text
  data : Option Json
  deriving Repr

/-- `MCPResponse`: it has a result or an error. -/
structure MCPResponse where
  jsonrpc : Text
  id : Option Json
  result : Option Json
  error : Option MCPError
  deriving Repr

/-- `anyhow::Error`, as `connection.rs` tells its kinds apart. -/
inductive HandlerError where
  | invalidParams (message : Text)
  | other (message : Text)
  deriving Repr, DecidableEq

/-- `to_string`. -/
def HandlerError.message : HandlerError → Text
  | invalidParams message => message
  | other message => message

namespace MCPRequest

/-- The names of the fields. -/
def fieldNames : List Text :=
  ["jsonrpc".toList, "id".toList, "method".toList, "params".toList]

/-- `serde_json::from_value::<MCPRequest>`. -/
def ofJson (v : Json) : Option MCPRequest :=
  match v.fields fieldNames 4 with
  | some [some (.string jsonrpc), id, some (.string method), params] =>
      some ⟨jsonrpc, Json.optional id, method, Json.optional params⟩
  | _ => none

/-- No id, or a null one: nobody to answer. -/
def isNotification (r : MCPRequest) : Bool := r.id.all Json.isNull

end MCPRequest

/-- A missing value is written as null. -/
def orNull (v : Option Json) : Json := v.getD .null

/-- The error as it is sent: its data are there even when there are none. -/
def MCPError.toJson (e : MCPError) : Json :=
  .object [("code".toList, .number (Json.intLiteral e.code)), ("message".toList, .string e.message),
    ("data".toList, orNull e.data)]

/-- The response as it is sent. -/
def MCPResponse.toJson (r : MCPResponse) : Json :=
  .object ([("jsonrpc".toList, .string r.jsonrpc), ("id".toList, orNull r.id)] ++
    (r.result.map fun result => ("result".toList, result)).toList ++
    (r.error.map fun error => ("error".toList, error.toJson)).toList)

/-! ## The handlers

Each under its name; none looks at the state of the companion. -/

/-- `create_capabilities`, as it is sent. -/
def createCapabilities : Json :=
  .object [
    ("tools".toList, .object [("listChanged".toList, .bool true)]),
    ("prompts".toList, .object [("listChanged".toList, .bool false)]),
    ("logging".toList, .object [])]

/-- The content of a tool's reply, and whether it is a refusal. -/
def dispatchTool (toolName : Text) : Text × Bool :=
  if toolName = "getDiagnostics".toList then ("\x7b\"diagnostics\":[]\x7d".toList, false)
  else ("NOT_SUPPORTED: Tool '".toList ++ toolName ++
    ("' is not available in Zed integration. " ++
      "File operations should be performed directly.").toList, true)

/-- `handle_initialize`: the version of the protocol is the one this server speaks, whatever was
asked for. -/
def handleInitialize (version : PkgVersion) : Json :=
  .object [
    ("protocolVersion".toList, .string "2025-03-26".toList),
    ("capabilities".toList, createCapabilities),
    ("serverInfo".toList, .object [
      ("name".toList, .string "Claude Code Zed MCP".toList),
      ("version".toList, .string version)])]

/-- `handle_tools_list`: no tool is advertised. -/
def handleToolsList : Json := .object [("tools".toList, .array [])]

/-- `handle_tools_call`: a tool that is not there is a result too, which says so. -/
def handleToolsCall (params : Option Json) : Except HandlerError Json :=
  match params with
  | none => .error (.invalidParams "tools/call requires params".toList)
  | some params =>
      match (params.get "name".toList).bind Json.asStr with
      | none => .error (.invalidParams "tools/call requires a string name".toList)
      | some toolName =>
          let (text, isError) := dispatchTool toolName
          .ok (.object [
            ("content".toList, .array [.object [
              ("type".toList, .string "text".toList), ("text".toList, .string text)]]),
            ("isError".toList, .bool isError)])

/-- The level is logged and nothing more. -/
def handleLoggingSetLevel : Json := .object []

/-- `handle_prompts_list`. -/
def handlePromptsList : Json := .object [("prompts".toList, .array [])]

/-- `handle_prompts_get`: its two errors are of the other kind than those of `handle_tools_call`. -/
def handlePromptsGet (params : Option Json) : Except HandlerError Json :=
  match params with
  | none => .error (.other "Missing parameters for prompts/get".toList)
  | some params =>
      match (params.get "name".toList).bind Json.asStr with
      | none => .error (.other "Missing prompt name".toList)
      | some promptName =>
          .ok (.object [
            ("description".toList, .string ("Prompt: ".toList ++ promptName)),
            ("messages".toList, .array [])])

/-- `handle_request`. -/
def handleRequest (version : PkgVersion) (request : MCPRequest) :
    Except HandlerError MCPResponse :=
  let answer (result : Json) : MCPResponse :=
    { jsonrpc := "2.0".toList, id := request.id, result := some result, error := none }
  if request.method = "initialize".toList then .ok (answer (handleInitialize version))
  else if request.method = "tools/list".toList then .ok (answer handleToolsList)
  else if request.method = "tools/call".toList then (handleToolsCall request.params).map answer
  else if request.method = "logging/setLevel".toList then .ok (answer handleLoggingSetLevel)
  else if request.method = "prompts/list".toList then .ok (answer handlePromptsList)
  else if request.method = "prompts/get".toList then (handlePromptsGet request.params).map answer
  else .ok {
    jsonrpc := "2.0".toList
    id := request.id
    result := none
    error := some {
      code := -32601
      message := "Method not found: ".toList ++ request.method
      data := none } }

/-! ## What a response is

To a request with an id: that id, and a result or an error. -/

/-- A response to `id`: it carries that id, and exactly one of result and error. -/
def MCPResponse.Answers (r : MCPResponse) (id : Json) : Prop :=
  r.jsonrpc = "2.0".toList ∧ r.id = some id ∧
    ((r.result.isSome = true ∧ r.error = none) ∨ (r.result = none ∧ r.error.isSome = true))

/-- **A response has the request's id and one of result and error**, whatever the method. -/
theorem handleRequest_ok {version : PkgVersion} {request : MCPRequest} {response : MCPResponse}
    {id : Json} (hid : request.id = some id) (h : handleRequest version request = .ok response) :
    response.Answers id := by
  have hanswer : ∀ result : Json,
      (⟨"2.0".toList, request.id, some result, none⟩ : MCPResponse).Answers id := fun result =>
    ⟨rfl, hid, Or.inl ⟨rfl, rfl⟩⟩
  have hmap : ∀ outcome : Except HandlerError Json,
      outcome.map (fun result => (⟨"2.0".toList, request.id, some result, none⟩ : MCPResponse))
        = .ok response → response.Answers id := by
    rintro (e | result) hout
    · cases hout
    · cases hout
      exact hanswer result
  rw [handleRequest] at h
  split_ifs at h
  · cases h
    exact hanswer _
  · cases h
    exact hanswer _
  · exact hmap _ h
  · cases h
    exact hanswer _
  · cases h
    exact hanswer _
  · exact hmap _ h
  · cases h
    exact ⟨rfl, hid, Or.inr ⟨rfl, rfl⟩⟩

/-- The same of a value on the wire: it has the id, and exactly one of the members `result` and
`error`. -/
def WireAnswers (v id : Json) : Prop :=
  v.get "jsonrpc".toList = some (.string "2.0".toList) ∧ v.get "id".toList = some id ∧
    ((v.get "result".toList).isSome = true ↔ v.get "error".toList = none)

/-- **What is sent of a response is a response.** -/
theorem MCPResponse.Answers.toJson {r : MCPResponse} {id : Json} (h : r.Answers id) :
    WireAnswers r.toJson id := by
  obtain ⟨jsonrpc, i, result, error⟩ := r
  obtain ⟨hjsonrpc, hi, hone⟩ := h
  simp only at hjsonrpc hi hone
  subst hjsonrpc hi
  rcases hone with ⟨hresult, rfl⟩ | ⟨rfl, herror⟩
  · obtain ⟨result, rfl⟩ := Option.isSome_iff_exists.mp hresult
    exact ⟨rfl, rfl, iff_of_true rfl rfl⟩
  · obtain ⟨error, rfl⟩ := Option.isSome_iff_exists.mp herror
    refine ⟨rfl, rfl, iff_of_false ?_ ?_⟩
    · exact Bool.false_ne_true
    · exact Option.some_ne_none _

end Connect
