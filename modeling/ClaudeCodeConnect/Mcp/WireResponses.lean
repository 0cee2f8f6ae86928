import ClaudeCodeConnect.Mcp.Connection
import ClaudeCodeConnect.Mcp.Wire

/-!
# The responses on the wire

What is sent of a response, as text.  The values it carries (the id, a result, the data of an error)
are held as `serde_json` holds values, each object in the order of its names.

* `MCPResponse.held`, `MCPResponse.print` -- the response as it is held, and its text.
* `MCPResponse.Writable` -- its numbers are numbers; `handleText_writable` says that whatever is
  answered to a message is, if the message was read by `serde_json`.
* `MCPResponse.Answers.print` -- the text of a response to an id parses to an object with that id
  and one of result and error; `MCPResponse.Writable.seenIn`, it says nothing a notification says.
-/

namespace Connect

/-- The response as it is held. -/
def MCPResponse.held (r : MCPResponse) : MCPResponse :=
  { r with
    id := r.id.map Json.ordered
    result := r.result.map Json.ordered
    error := r.error.map fun e => { e with data := e.data.map Json.ordered } }

/-- The text that is sent, as `Json.print` writes it. -/
def MCPResponse.print (r : MCPResponse) : Text := r.held.toJson.print

/-- The numbers it carries are numbers. -/
structure MCPResponse.Writable (r : MCPResponse) : Prop where
  id : ∀ v, r.id = some v → v.writable = true
  result : ∀ v, r.result = some v → v.writable = true
  data : ∀ e v, r.error = some e → e.data = some v → v.writable = true

/-! ## Numbers

An error code is written with a sign. -/

/-- A number with a sign is one. -/
lemma isNumber_neg {literal : Text} (h : isNumber literal = true)
    (hsign : literal.head? ≠ some '-') :
    isNumber ('-' :: literal) = true := by
  have hchar : isNumberChar '-' = true := by decide
  simp only [isNumber, if_neg hsign] at h
  simp only [isNumber, List.head?_cons, if_true, List.tail_cons, List.all_cons, hchar,
    Bool.true_and]
  exact h

lemma isNumber_intLiteral (i : ℤ) : isNumber (Json.intLiteral i) = true := by
  rw [Json.intLiteral]
  split_ifs
  · refine isNumber_neg (isNumber_toDigits _) ?_
    intro hhead
    exact absurd (Text.isDigit_of_mem_toDigits (List.mem_of_mem_head? hhead)) (by decide)
  · exact isNumber_toDigits _

/-! ## One response

Its text parses to its value, each object in order. -/

lemma writable_orNull {v : Option Json} (h : ∀ x, v = some x → x.writable = true) :
    (orNull (v.map Json.ordered)).writable = true := by
  cases v with
  | none => rfl
  | some x => exact Json.writable_ordered (h x rfl)

lemma MCPResponse.Writable.toJson {r : MCPResponse} (h : r.Writable) :
    r.held.toJson.writable = true := by
  have hid := writable_orNull h.id
  rw [MCPResponse.toJson, Json.writable, Json.writableMembers_iff]
  intro m hm
  rcases List.mem_append.mp hm with hm | hm
  · rcases List.mem_append.mp hm with hm | hm
    · rcases List.mem_cons.mp hm with rfl | hm
      · rfl
      · rw [List.mem_singleton.mp hm]
        exact hid
    · rw [Option.mem_toList, Option.map_eq_some_iff] at hm
      obtain ⟨v, hv, rfl⟩ := hm
      obtain ⟨result, hresult, rfl⟩ := Option.map_eq_some_iff.mp hv
      exact Json.writable_ordered (h.result result hresult)
  · rw [Option.mem_toList, Option.map_eq_some_iff] at hm
    obtain ⟨e, he, rfl⟩ := hm
    obtain ⟨error, herror, rfl⟩ := Option.map_eq_some_iff.mp he
    have hdata := writable_orNull fun v => h.data error v herror
    simp [MCPError.toJson, Json.writable, Json.writableMembers, isNumber_intLiteral, hdata]

/-- A response has no method. -/
lemma MCPResponse.notification_none (r : MCPResponse) :
    JsonRpcNotification.ofJson r.toJson = none := by
  obtain ⟨jsonrpc, id, result, error⟩ := r
  cases result <;> cases error <;> rfl

lemma MCPResponse.Writable.parse {r : MCPResponse} (h : r.Writable) :
    parseJson? r.print = some r.held.toJson := parseJson?_print h.toJson

/-- Nothing a notification says is said in it. -/
lemma MCPResponse.Writable.seenIn {r : MCPResponse} (h : r.Writable) : seenIn r.print = none := by
  rw [Connect.seenIn, JsonRpcNotification.ofText, h.parse, Option.bind_some, notification_none]
  rfl

/-- **The text of a response.**  It parses to an object that has the id and one of result and
error. -/
theorem MCPResponse.Answers.print {r : MCPResponse} {id : Json} (h : r.Answers id)
    (hw : r.Writable) :
    ∃ v, parseJson? r.print = some v ∧ WireAnswers v id.ordered := by
  have hheld : r.held.Answers id.ordered := by
    obtain ⟨hjsonrpc, hid, hone⟩ := h
    refine ⟨hjsonrpc, by rw [MCPResponse.held, hid]; rfl, ?_⟩
    rcases hone with ⟨hresult, herror⟩ | ⟨hresult, herror⟩
    · exact Or.inl ⟨by simp [MCPResponse.held, hresult], by simp [MCPResponse.held, herror]⟩
    · exact Or.inr ⟨by simp [MCPResponse.held, hresult], by simp [MCPResponse.held, herror]⟩
  exact ⟨_, hw.parse, hheld.toJson⟩

/-! ## Whatever is answered

By handler: the numbers in a result are those of the request, or none. -/

lemma dispatchTool_reply_writable (text : Text) (isError : Bool) :
    (Json.object [
      ("content".toList, .array [.object [
        ("type".toList, .string "text".toList), ("text".toList, .string text)]]),
      ("isError".toList, .bool isError)]).writable = true := by
  simp [Json.writable, Json.writableMembers, Json.writableItems]

/-- A result has no numbers in it. -/
lemma handleToolsCall_writable {params : Option Json} {v : Json}
    (h : handleToolsCall params = .ok v) : v.writable = true := by
  cases params with
  | none => cases h
  | some params =>
      simp only [handleToolsCall] at h
      split at h
      · cases h
      · cases h
        exact dispatchTool_reply_writable _ _

lemma handlePromptsGet_writable {params : Option Json} {v : Json}
    (h : handlePromptsGet params = .ok v) : v.writable = true := by
  cases params with
  | none => cases h
  | some params =>
      simp only [handlePromptsGet] at h
      split at h
      · cases h
      · cases h
        simp [Json.writable, Json.writableMembers, Json.writableItems]

lemma handleRequest_writable {version : PkgVersion} {request : MCPRequest} {response : MCPResponse}
    (hid : ∀ v, request.id = some v → v.writable = true)
    (h : handleRequest version request = .ok response) : response.Writable := by
  have hanswer : ∀ result : Json, result.writable = true →
      (⟨"2.0".toList, request.id, some result, none⟩ : MCPResponse).Writable := by
    intro result hresult
    refine ⟨hid, fun v hv => ?_, fun e v he => by cases he⟩
    cases hv
    exact hresult
  have hmap : ∀ outcome : Except HandlerError Json,
      (∀ v, outcome = .ok v → v.writable = true) →
      outcome.map (fun result => (⟨"2.0".toList, request.id, some result, none⟩ : MCPResponse))
        = .ok response → response.Writable := by
    rintro (e | result) hwritable hout
    · cases hout
    · cases hout
      exact hanswer result (hwritable result rfl)
  rw [handleRequest] at h
  split_ifs at h
  · cases h
    exact hanswer _ (by
      simp [handleInitialize, createCapabilities, Json.writable, Json.writableMembers])
  · cases h
    exact hanswer _ rfl
  · exact hmap _ (fun v hv => handleToolsCall_writable hv) h
  · cases h
    exact hanswer _ rfl
  · cases h
    exact hanswer _ rfl
  · exact hmap _ (fun v hv => handlePromptsGet_writable hv) h
  · cases h
    refine ⟨hid, fun v hv => (by cases hv), fun e v he hv => ?_⟩
    cases he
    cases hv

section Messages

variable {Path Url : Type} {send : MCPResponse → Except Text Unit} {bus : EventBus Path Url}

lemma mem_sendResponse {response r : MCPResponse} (h : r ∈ (sendResponse send bus response).sent) :
    r = response := by
  rw [sendResponse] at h
  split at h
  · exact List.mem_singleton.mp h
  · exact absurd h List.not_mem_nil

lemma mem_sendError {id : Option Json} {code : ℤ} {message : Text} {data : Option Json}
    {r : MCPResponse} (hid : ∀ v, id = some v → v.writable = true)
    (hdata : ∀ v, data = some v → v.writable = true)
    (h : r ∈ (sendError send bus id code message data).sent) : r.Writable := by
  rw [mem_sendResponse h]
  refine ⟨hid, fun v hv => (by cases hv), fun e v he hv => ?_⟩
  cases he
  exact hdata v hv

lemma handleMcpRequest_writable {version : PkgVersion} {request : MCPRequest} {r : MCPResponse}
    (hid : ∀ v, request.id = some v → v.writable = true)
    (h : r ∈ (handleMcpRequest version send bus request).sent) : r.Writable := by
  rw [handleMcpRequest] at h
  split_ifs at h
  · exact absurd h List.not_mem_nil
  · exact absurd h List.not_mem_nil
  · cases hresponse : handleRequest version request with
    | ok response =>
        rw [hresponse] at h
        rw [mem_sendResponse h]
        exact handleRequest_writable hid hresponse
    | error e =>
        rw [hresponse] at h
        cases e <;>
          exact mem_sendError hid (fun v hv => by cases hv; rfl) h

/-! ## What a message is read as

The id of a request that was read can be written. -/

lemma writable_get {name : Text} {v x : Json} (hv : v.writable = true) (h : v.get name = some x) :
    x.writable = true := by
  cases v with
  | object members =>
      rw [Json.get, List.lookup_eq_some_iff] at h
      obtain ⟨before, after, rfl, -⟩ := h
      rw [Json.writable, Json.writableMembers_iff] at hv
      exact hv (name, x) (by simp)
  | _ => cases h

lemma writable_objectId {v x : Json} (hv : v.writable = true) (h : objectId v = some x) :
    x.writable = true :=
  writable_get hv (Option.filter_eq_some_iff.mp h).1

/-- The id of a request is part of the value it was read from. -/
lemma writable_requestId {v x : Json} {request : MCPRequest} (hv : v.writable = true)
    (h : MCPRequest.ofJson v = some request) (hid : request.id = some x) : x.writable = true := by
  rcases ofJson_eq_some h with ⟨members, rfl⟩ | ⟨items, rfl⟩
  · rw [ofJson_object h] at hid
    exact writable_objectId hv hid
  · obtain ⟨jsonrpc, id, method, params, rfl, hrequest⟩ := ofJson_array h
    rw [hrequest, Json.optional, Option.filter_eq_some_iff, Option.some.injEq] at hid
    obtain ⟨rfl, -⟩ := hid
    simp only [Json.writable, Json.writableItems, Bool.true_and, Bool.and_eq_true] at hv
    exact hv.1

/-- **Whatever is answered to a message can be written**, if what it was read as can. -/
theorem handleText_writable {parse : Text → Option Json}
    (hparse : ∀ text v, parse text = some v → v.writable = true) {version : PkgVersion}
    {text : Text} {r : MCPResponse} (h : r ∈ (handleText parse version send bus text).sent) :
    r.Writable := by
  rw [handleText] at h
  cases hraw : parse text with
  | none =>
      rw [hraw] at h
      exact mem_sendError (fun v hv => by cases hv; rfl) (fun v hv => by cases hv) h
  | some raw =>
      have hwritable := hparse text raw hraw
      simp only [hraw] at h
      cases hrequest : MCPRequest.ofJson raw with
      | some request =>
          simp only [hrequest] at h
          exact handleMcpRequest_writable (fun v hv => writable_requestId hwritable hrequest hv) h
      | none =>
          simp only [hrequest] at h
          cases hid : (raw.get "id".toList).filter fun id => !id.isNull with
          | none =>
              rw [hid] at h
              exact absurd h List.not_mem_nil
          | some id =>
              rw [hid] at h
              exact mem_sendError
                (fun v hv => by cases hv; exact writable_objectId hwritable hid)
                (fun v hv => by cases hv) h

end Messages

end Connect
