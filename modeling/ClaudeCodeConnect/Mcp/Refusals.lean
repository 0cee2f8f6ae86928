import ClaudeCodeConnect.Mcp.Connection

/-!
# The code of an error

A handler that refuses its arguments is told from one that fails by the type of its error, far from
where the error is raised: `connection.rs` answers -32602 for an `InvalidParams` and -32603 for
anything else.

* `knownMethods`, `requiredMembers`, `Refuses` -- what the dispatcher knows, what its handlers ask
  of the arguments, and when the arguments do not have it; `handleRequest_error_iff` connects them
  to the handlers.
* `Classified` -- the law of the codes for one request.
* `classified_iff` -- it holds of every request but a `prompts/get` that is refused.
* `promptsGet_internal_error` -- one that is answered with -32603.
-/

namespace Connect

/-- The request as a client writes it. -/
def MCPRequest.toJson (r : MCPRequest) : Json :=
  .object [("jsonrpc".toList, .string r.jsonrpc), ("id".toList, orNull r.id),
    ("method".toList, .string r.method), ("params".toList, orNull r.params)]

/-- Every request is decoded from some value; a null field is an absent one. -/
lemma MCPRequest.ofJson_toJson {r : MCPRequest} (hid : r.id ≠ some .null)
    (hparams : r.params ≠ some .null) : MCPRequest.ofJson r.toJson = some r := by
  obtain ⟨jsonrpc, id, method, params⟩ := r
  have hopt (v : Option Json) (hv : v ≠ some .null) : Json.optional (some (orNull v)) = v := by
    cases v with
    | none => rfl
    | some v =>
        have hnull : v ≠ .null := fun h => hv (congrArg some h)
        simp [Json.optional, orNull, hnull]
  have hfields : (MCPRequest.mk jsonrpc id method params).toJson.fields fieldNames 4
      = some [some (.string jsonrpc), some (orNull id), some (.string method),
          some (orNull params)] := rfl
  simp only [ofJson, hfields, hopt id hid, hopt params hparams]

/-! ## What the handlers ask for

Which methods there are, and which members of their params must be strings. -/

/-- The methods the dispatcher knows. -/
def knownMethods : List Text :=
  ["initialize".toList, "tools/list".toList, "tools/call".toList, "logging/setLevel".toList,
    "prompts/list".toList, "prompts/get".toList]

/-- The members, strings all, that a method's arguments must have. -/
def requiredMembers (method : Text) : List Text :=
  if method = "tools/call".toList ∨ method = "prompts/get".toList then ["name".toList] else []

/-- A string member of the arguments. -/
def stringMember (params : Option Json) (name : Text) : Option Text :=
  (params.bind (Json.get name)).bind Json.asStr

/-- The method asks for a member, and the arguments are absent, or the member is missing or of the
wrong type. -/
def Refuses (request : MCPRequest) : Prop :=
  ∃ name ∈ requiredMembers request.method, stringMember request.params name = none

instance (request : MCPRequest) : Decidable (Refuses request) :=
  inferInstanceAs (Decidable (∃ name ∈ requiredMembers request.method, _))

lemma requiredMembers_known {method name : Text} (h : name ∈ requiredMembers method) :
    method ∈ knownMethods := by
  rw [requiredMembers] at h
  split_ifs at h with hmethod
  · rcases hmethod with rfl | rfl <;> simp [knownMethods]
  · simp at h

lemma refuses_iff {request : MCPRequest}
    (h : request.method = "tools/call".toList ∨ request.method = "prompts/get".toList) :
    Refuses request ↔ stringMember request.params "name".toList = none := by
  simp only [Refuses, requiredMembers, if_pos h, List.mem_singleton, exists_eq_left]

lemma handleToolsCall_ok {params : Option Json} {toolName : Text}
    (h : stringMember params "name".toList = some toolName) :
    ∃ result, handleToolsCall params = .ok result := by
  cases params with
  | none => cases h
  | some params =>
      rw [stringMember, Option.bind_some] at h
      simp only [handleToolsCall, h]
      exact ⟨_, rfl⟩

lemma handleToolsCall_error {params : Option Json}
    (h : stringMember params "name".toList = none) :
    ∃ message, handleToolsCall params = .error (.invalidParams message) := by
  cases params with
  | none => exact ⟨_, rfl⟩
  | some params =>
      rw [stringMember, Option.bind_some] at h
      simp only [handleToolsCall, h]
      exact ⟨_, rfl⟩

lemma handlePromptsGet_ok {params : Option Json} {promptName : Text}
    (h : stringMember params "name".toList = some promptName) :
    ∃ result, handlePromptsGet params = .ok result := by
  cases params with
  | none => cases h
  | some params =>
      rw [stringMember, Option.bind_some] at h
      simp only [handlePromptsGet, h]
      exact ⟨_, rfl⟩

/-- The refusals of `prompts/get` are not of the type the classifier looks for. -/
lemma handlePromptsGet_error {params : Option Json}
    (h : stringMember params "name".toList = none) :
    ∃ message, handlePromptsGet params = .error (.other message) := by
  cases params with
  | none => exact ⟨_, rfl⟩
  | some params =>
      rw [stringMember, Option.bind_some] at h
      simp only [handlePromptsGet, h]
      exact ⟨_, rfl⟩

/-- What `handle_request` comes to. -/
inductive Dispatched (request : MCPRequest) : Except HandlerError MCPResponse → Prop
  | unknown {message : Text} (hmethod : request.method ∉ knownMethods) :
      Dispatched request (.ok ⟨"2.0".toList, request.id, none, some ⟨-32601, message, none⟩⟩)
  | answered {result : Json} (hmethod : request.method ∈ knownMethods) (hargs : ¬Refuses request) :
      Dispatched request (.ok ⟨"2.0".toList, request.id, some result, none⟩)
  | toolRefused {message : Text} (hmethod : request.method = "tools/call".toList)
      (hargs : Refuses request) : Dispatched request (.error (.invalidParams message))
  | promptRefused {message : Text} (hmethod : request.method = "prompts/get".toList)
      (hargs : Refuses request) : Dispatched request (.error (.other message))

/-- **Method by method.** -/
theorem handleRequest_dispatched (version : PkgVersion) (request : MCPRequest) :
    Dispatched request (handleRequest version request) := by
  have hsimple {method : Text} {result : Json} (h : request.method = method)
      (hknown : method ∈ knownMethods) (hnone : requiredMembers method = []) :
      Dispatched request (.ok ⟨"2.0".toList, request.id, some result, none⟩) := by
    refine .answered (h ▸ hknown) ?_
    rintro ⟨name, hname, -⟩
    rw [h, hnone] at hname
    simp at hname
  rw [handleRequest]
  split_ifs with h₁ h₂ h₃ h₄ h₅ h₆
  · exact hsimple h₁ (by decide) (by decide)
  · exact hsimple h₂ (by decide) (by decide)
  · cases hname : stringMember request.params "name".toList with
    | none =>
        obtain ⟨message, herror⟩ := handleToolsCall_error hname
        rw [herror]
        exact .toolRefused h₃ ((refuses_iff (.inl h₃)).mpr hname)
    | some toolName =>
        obtain ⟨result, hok⟩ := handleToolsCall_ok hname
        rw [hok]
        refine .answered (h₃ ▸ by decide) fun hrefuses => ?_
        rw [(refuses_iff (.inl h₃)).mp hrefuses] at hname
        cases hname
  · exact hsimple h₄ (by decide) (by decide)
  · exact hsimple h₅ (by decide) (by decide)
  · cases hname : stringMember request.params "name".toList with
    | none =>
        obtain ⟨message, herror⟩ := handlePromptsGet_error hname
        rw [herror]
        exact .promptRefused h₆ ((refuses_iff (.inr h₆)).mpr hname)
    | some promptName =>
        obtain ⟨result, hok⟩ := handlePromptsGet_ok hname
        rw [hok]
        refine .answered (h₆ ▸ by decide) fun hrefuses => ?_
        rw [(refuses_iff (.inr h₆)).mp hrefuses] at hname
        cases hname
  · refine .unknown ?_
    simp only [knownMethods, List.mem_cons, List.not_mem_nil, or_false, not_or]
    exact ⟨h₁, h₂, h₃, h₄, h₅, h₆⟩

/-- No handler is asked for a method that is not known. -/
lemma not_refuses_of_unknown {request : MCPRequest} (hmethod : request.method ∉ knownMethods) :
    ¬Refuses request := by
  rintro ⟨name, hname, -⟩
  exact hmethod (requiredMembers_known hname)

/-- A handler fails exactly when it refuses the arguments. -/
theorem handleRequest_error_iff (version : PkgVersion) (request : MCPRequest) :
    (∃ e, handleRequest version request = .error e) ↔ Refuses request := by
  generalize hout : handleRequest version request = outcome
  have h : Dispatched request outcome := hout ▸ handleRequest_dispatched version request
  cases h with
  | unknown hmethod => exact iff_of_false (by simp) (not_refuses_of_unknown hmethod)
  | answered _ hargs => exact iff_of_false (by simp) hargs
  | toolRefused _ hargs | promptRefused _ hargs => exact iff_of_true ⟨_, rfl⟩ hargs

/-! ## The law of the codes

An error code says whose fault it was.  `prompts/get` takes the caller's for its own. -/

/-- The error code of a response, if it is an error. -/
def MCPResponse.code (r : MCPResponse) : Option ℤ := r.error.map MCPError.code

/-- **The law.**  One answer, with the request's id: -32601 exactly for an unknown method, -32602
exactly for a known one that refuses its arguments, a result otherwise; and never -32603 for
arguments. -/
def Classified (request : MCPRequest) (sent : List MCPResponse) : Prop :=
  ∃ response, sent = [response] ∧ response.id = request.id ∧
    (response.code = some (-32601) ↔ request.method ∉ knownMethods) ∧
    (response.code = some (-32602) ↔ request.method ∈ knownMethods ∧ Refuses request) ∧
    (response.result.isSome = true ↔ request.method ∈ knownMethods ∧ ¬Refuses request) ∧
    (Refuses request → response.code ≠ some (-32603))

section

variable {Path Url : Type} {version : PkgVersion} {send : MCPResponse → Except Text Unit}
  {bus : EventBus Path Url} {request : MCPRequest}

lemma handleMcpRequest_classified_iff (hsend : ∀ r, send r = .ok ())
    (hnot : request.isNotification = false) :
    Classified request (handleMcpRequest version send bus request).sent ↔
      ¬(request.method = "prompts/get".toList ∧ Refuses request) := by
  rw [handleMcpRequest, if_neg (by simp [hnot])]
  generalize hout : handleRequest version request = outcome
  have h : Dispatched request outcome := hout ▸ handleRequest_dispatched version request
  cases h with
  | unknown hmethod =>
      have hargs : ¬Refuses request := not_refuses_of_unknown hmethod
      refine iff_of_true ?_ (fun hprompt => hargs hprompt.2)
      simp only [sendResponse_ok hsend]
      exact ⟨_, rfl, rfl, by simp [MCPResponse.code, hmethod], by simp [MCPResponse.code, hmethod],
        by simp [hmethod], fun hrefuses => absurd hrefuses hargs⟩
  | answered hmethod hargs =>
      refine iff_of_true ?_ (fun hprompt => hargs hprompt.2)
      simp only [sendResponse_ok hsend]
      exact ⟨_, rfl, rfl, by simp [MCPResponse.code, hmethod], by simp [MCPResponse.code, hargs],
        by simp [hmethod, hargs], fun hrefuses => absurd hrefuses hargs⟩
  | toolRefused hmethod hargs =>
      have hknown : request.method ∈ knownMethods := hmethod ▸ by decide
      refine iff_of_true ?_ (fun hprompt => ?_)
      · simp only [sendError, sendResponse_ok hsend]
        exact ⟨_, rfl, rfl, by simp [MCPResponse.code, hknown],
          by simp [MCPResponse.code, hknown, hargs], by simp [hargs], by simp [MCPResponse.code]⟩
      · exact absurd (hmethod.symm.trans hprompt.1) (by decide)
  | promptRefused hmethod hargs =>
      refine iff_of_false ?_ (fun hprompt => hprompt ⟨hmethod, hargs⟩)
      simp only [sendError, sendResponse_ok hsend]
      rintro ⟨response, hsent, -, -, -, -, hcode⟩
      obtain rfl := (List.singleton_inj.mp hsent)
      exact hcode hargs rfl

/-- **The code says whose fault it is, but for `prompts/get`.**  A request with an id that is not
null is answered by the law exactly when it is not a `prompts/get` that is refused. -/
theorem classified_iff (parse : Text → Option Json) (version : PkgVersion)
    (send : MCPResponse → Except Text Unit) (bus : EventBus Path Url) {text : Text} {raw : Json}
    {request : MCPRequest} {id : Json} (hparse : parse text = some raw)
    (hdecode : MCPRequest.ofJson raw = some request) (hid : request.id = some id)
    (hnull : id ≠ .null) (hsend : ∀ r, send r = .ok ()) :
    Classified request (handleWebsocketMessage parse version send bus (.ok (.text text))).sent ↔
      ¬(request.method = "prompts/get".toList ∧
        stringMember request.params "name".toList = none) := by
  have hnot : request.isNotification = false := by simp [MCPRequest.isNotification, hid, hnull]
  simp only [handleWebsocketMessage, handleText, hparse, hdecode]
  rw [handleMcpRequest_classified_iff hsend hnot, not_iff_not]
  exact and_congr_right fun hmethod => refuses_iff (.inr hmethod)

end

/-- A request without arguments, `\x7b"jsonrpc":"2.0","id":1,"method":…\x7d`. -/
def bareRequest (method : Text) : Doc :=
  ⟨.none, Syntax.compact [
    ("jsonrpc".toList, .string (escape "2.0".toList)),
    ("id".toList, .number ['1'] isNumber_one),
    ("method".toList, .string (escape method))], .none⟩

lemma parseJson?_bareRequest (method : Text) :
    parseJson? (bareRequest method).text = some (.object [
      ("jsonrpc".toList, .string "2.0".toList), ("id".toList, .number ['1']),
      ("method".toList, .string method)]) := by
  rw [parseJson?_text, bareRequest]
  dsimp only
  refine Syntax.compact_value? (haveValues_cons (string_escape_value? _) ?_)
  exact haveValues_cons rfl (haveValues_cons (string_escape_value? _) .nil)

/-- A `tools/call` without arguments is the caller's to fix. -/
theorem classified_toolsCall :
    Classified ⟨"2.0".toList, some (.number ['1']), "tools/call".toList, none⟩
      (handleWebsocketMessage parseJson? [] (fun _ => .ok ()) (EventBus.new 4 : EventBus Unit Unit)
        (.ok (.text (bareRequest "tools/call".toList).text))).sent := by
  refine (classified_iff parseJson? [] (fun _ => .ok ()) _ (parseJson?_bareRequest _) rfl rfl
    (by simp) fun _ => rfl).mpr ?_
  rintro ⟨hmethod, -⟩
  exact absurd hmethod (by decide)

/-- **A `prompts/get` without arguments is answered with an internal error.** -/
theorem promptsGet_internal_error :
    ∃ request : MCPRequest,
      (parseJson? (bareRequest "prompts/get".toList).text).bind MCPRequest.ofJson = some request ∧
        request.id = some (.number ['1']) ∧ Refuses request ∧
        (handleWebsocketMessage parseJson? [] (fun _ => .ok ())
          (EventBus.new 4 : EventBus Unit Unit)
          (.ok (.text (bareRequest "prompts/get".toList).text))).sent.map MCPResponse.code
            = [some (-32603)] ∧
        ¬Classified request (handleWebsocketMessage parseJson? [] (fun _ => .ok ())
          (EventBus.new 4 : EventBus Unit Unit)
          (.ok (.text (bareRequest "prompts/get".toList).text))).sent := by
  have hparse := parseJson?_bareRequest "prompts/get".toList
  have hdecode : MCPRequest.ofJson (.object [
      ("jsonrpc".toList, .string "2.0".toList), ("id".toList, .number ['1']),
      ("method".toList, .string "prompts/get".toList)])
        = some ⟨"2.0".toList, some (.number ['1']), "prompts/get".toList, none⟩ := rfl
  refine ⟨_, by rw [hparse]; exact hdecode, rfl, by decide, ?_, ?_⟩
  · simp only [handleWebsocketMessage, handleText, hparse, hdecode]
    rfl
  · simp only [handleWebsocketMessage, handleText, hparse, hdecode]
    rw [handleMcpRequest_classified_iff (fun _ => rfl) rfl, not_not]
    exact ⟨rfl, by decide⟩

end Connect
