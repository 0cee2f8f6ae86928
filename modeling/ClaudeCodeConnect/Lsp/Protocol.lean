import ClaudeCodeConnect.Json.Parser
import ClaudeCodeConnect.Json.Same
import ClaudeCodeConnect.Lsp.Document

/-!
# The JSON-RPC shapes of the editor

`lsp/protocol.rs`, and what `serde` makes of it.

* `Request` -- a message: its method is lent from the frame, its id and params stay JSON text.
  `Request.ofSyntax` is the derived decoding, on the text itself.
* `DidOpenParams`, `DidChangeParams`, `DidCloseParams`, `CodeActionParams` -- the typed params,
  decoded from the value of their text.
* `successFrame`, `errorFrame` -- the two kinds of response.
* `Libs` -- `serde_json` and `url` as the server calls them; `Libs.Lawful` says that decoding is
  what is written here, on every text that has a value.  `Libs.serde` is one that is.
-/

namespace Connect

/-! ## Decoding structs

What the derived decoders have in common. -/

/-- A field by its place in the declaration. -/
def fieldAt {α : Type} (fs : List (Option α)) (i : ℕ) : Option α := fs[i]?.join

/-- An `Option` field: absent and `null` are both `None`. -/
def optionField {α : Type} (decode : Json → Option α) : Option Json → Option (Option α)
  | none => some none
  | some .null => some none
  | some v => (decode v).map some

section

variable {α β γ : Type} {R : α → β → Prop}

lemma fieldAt_rel {fs : List (Option α)} {fs' : List (Option β)}
    (h : List.Forall₂ (Option.Rel R) fs fs') (i : ℕ) :
    Option.Rel R (fieldAt fs i) (fieldAt fs' i) := by
  have hget := getElem?_rel h i
  rw [fieldAt, fieldAt]
  generalize fs[i]? = x at hget
  generalize fs'[i]? = y at hget
  cases hget with
  | some hfield => exact hfield
  | none => exact .none

/-- A decoding step that does not tell the two apart gives the same. -/
lemma bind_eq_of_rel {x : Option α} {y : Option β} (h : Option.Rel R x y) {f : α → Option γ}
    {g : β → Option γ} (hfg : ∀ a b, R a b → f a = g b) : (x >>= f) = (y >>= g) := by
  cases h with
  | some hab => exact hfg _ _ hab
  | none => rfl

end

namespace Json.Same

variable {v v' : Json}

lemma asStr (h : v.Same v') : v.asStr = v'.asStr := by
  cases h <;> rfl

lemma asU32 (h : v.Same v') : v.asU32 = v'.asU32 := by
  cases h <;> rfl

lemma optionField {α : Type} {decode : Json → Option α} {x x' : Option Json}
    (h : Option.Rel Json.Same x x') (hdecode : ∀ v v', v.Same v' → decode v = decode v') :
    optionField decode x = optionField decode x' := by
  cases h with
  | none => rfl
  | some hv =>
      cases hv with
      | null => rfl
      | array hitems => exact congrArg (Option.map some) (hdecode _ _ (.array hitems))
      | object hmembers => exact congrArg (Option.map some) (hdecode _ _ (.object hmembers))
      | _ => rfl

lemma asVec {α : Type} {decode : Json → Option α} (h : v.Same v')
    (hdecode : ∀ v v', v.Same v' → decode v = decode v') : v.asVec decode = v'.asVec decode := by
  cases h with
  | array hitems =>
      have hrel := hitems.forall₂
      clear hitems
      show List.mapM decode _ = List.mapM decode _
      induction hrel with
      | nil => rfl
      | cons hv _ ih => rw [List.mapM_cons, List.mapM_cons, hdecode _ _ hv, ih]
  | _ => rfl

end Json.Same

/-! ## Messages

`Request` borrows its method from the text, so an escaped method is no method to it. -/

/-- One inbound message. -/
structure Request where
  method : Text
  /-- The raw `id`. -/
  rawId : Option Text
  params : Option Text
  deriving DecidableEq, Repr

/-- The methods the server tells apart. -/
inductive Method where
  | initializeReq
  | initialized
  | shutdown
  | exit
  | didOpen
  | didChange
  | didClose
  | didSave
  | codeAction
  | selectionRange
  | other
  deriving DecidableEq, Repr

/-- The arms of `match request.method`, compared as text. -/
def Method.ofText (method : Text) : Method :=
  if method = "initialize".toList then .initializeReq
  else if method = "initialized".toList then .initialized
  else if method = "shutdown".toList then .shutdown
  else if method = "exit".toList then .exit
  else if method = "textDocument/didOpen".toList then .didOpen
  else if method = "textDocument/didChange".toList then .didChange
  else if method = "textDocument/didClose".toList then .didClose
  else if method = "textDocument/didSave".toList then .didSave
  else if method = "textDocument/codeAction".toList then .codeAction
  else if method = "textDocument/selectionRange".toList then .selectionRange
  else .other

/-- The methods answered by silence. -/
def Method.isQuiet : Method → Bool
  | initialized | didOpen | didChange | didClose | didSave => true
  | _ => false

/-- A `&str`, which can be lent from a string literal in which nothing is escaped. -/
def Syntax.borrowedStr : Syntax → Option Text
  | .string s => if s.isEscaped then none else s.value?
  | _ => none

/-- An `Option<&RawValue>`. -/
def rawField : Option Syntax → Option Text
  | none => none
  | some .null => none
  | some s => some s.text

namespace Request

/-- The fields of `Request`. -/
def fieldNames : List Text := ["method".toList, "id".toList, "params".toList]

/-- The derived decoding. -/
def ofSyntax (s : Syntax) : Option Request := do
  let fs ← s.fields fieldNames 1
  let method ← fieldAt fs 0
  let method ← method.borrowedStr
  return ⟨method, rawField (fieldAt fs 1), rawField (fieldAt fs 2)⟩

/-- The request id; an explicit null counts as absent. -/
def id (r : Request) : Option Text := r.rawId.filter fun raw => raw ≠ "null".toList

/-- `Request::is_notification`. -/
def isNotification (r : Request) : Bool := r.id.isNone

/-- Which method it is. -/
def kind (r : Request) : Method := Method.ofText r.method

end Request

/-! ## Params

The params of the methods that have some that are read; unknown fields are skipped. -/

/-- How a request names the document it is about. -/
structure TextDocumentIdentifier (Url : Type) where
  uri : Url
  deriving DecidableEq, Repr

/-- A document as it is opened, with its whole text. -/
structure TextDocumentItem (Url : Type) where
  uri : Url
  text : Text
  deriving DecidableEq, Repr

/-- The params of `textDocument/didOpen`. -/
structure DidOpenParams (Url : Type) where
  textDocument : TextDocumentItem Url
  deriving DecidableEq, Repr

/-- The params of `textDocument/didChange`. -/
structure DidChangeParams (Url : Type) where
  textDocument : TextDocumentIdentifier Url
  contentChanges : List ContentChange
  deriving DecidableEq, Repr

/-- The params of `textDocument/didClose`. -/
structure DidCloseParams (Url : Type) where
  textDocument : TextDocumentIdentifier Url
  deriving DecidableEq, Repr

/-- The params of `textDocument/codeAction`, as far as they are read: the context is not asked for.
-/
structure CodeActionParams (Url : Type) where
  textDocument : TextDocumentIdentifier Url
  range : Range
  deriving DecidableEq, Repr

/-- The derived decoding of a position. -/
def Position.ofJson (v : Json) : Option Position := do
  let fs ← v.fields ["line".toList, "character".toList] 2
  let line ← fieldAt fs 0
  let character ← fieldAt fs 1
  return ⟨← line.asU32, ← character.asU32⟩

/-- The derived decoding of a range. -/
def Range.ofJson (v : Json) : Option Range := do
  let fs ← v.fields ["start".toList, "end".toList] 2
  let start ← fieldAt fs 0
  let stop ← fieldAt fs 1
  return ⟨← Position.ofJson start, ← Position.ofJson stop⟩

/-- The derived decoding of one change. -/
def ContentChange.ofJson (v : Json) : Option ContentChange := do
  let fs ← v.fields ["range".toList, "rangeLength".toList, "text".toList] 3
  let range ← optionField Range.ofJson (fieldAt fs 0)
  -- it has to be a number, and nothing reads it
  let _rangeLength ← optionField Json.asU32 (fieldAt fs 1)
  let text ← fieldAt fs 2
  return ⟨range, ← text.asStr⟩

section

variable {Url : Type} (parseUrl : Text → Option Url)

/-- The derived decoding; the URI has to parse. -/
def TextDocumentIdentifier.ofJson (v : Json) : Option (TextDocumentIdentifier Url) := do
  let fs ← v.fields ["uri".toList] 1
  let uri ← fieldAt fs 0
  return ⟨← parseUrl (← uri.asStr)⟩

/-- The derived decoding; the URI has to parse. -/
def TextDocumentItem.ofJson (v : Json) : Option (TextDocumentItem Url) := do
  let fs ← v.fields ["uri".toList, "text".toList] 2
  let uri ← fieldAt fs 0
  let text ← fieldAt fs 1
  return ⟨← parseUrl (← uri.asStr), ← text.asStr⟩

/-- The derived decoding. -/
def DidOpenParams.ofJson (v : Json) : Option (DidOpenParams Url) := do
  let fs ← v.fields ["textDocument".toList] 1
  let textDocument ← fieldAt fs 0
  return ⟨← TextDocumentItem.ofJson parseUrl textDocument⟩

/-- The derived decoding; one change that does not decode and none does. -/
def DidChangeParams.ofJson (v : Json) : Option (DidChangeParams Url) := do
  let fs ← v.fields ["textDocument".toList, "contentChanges".toList] 2
  let textDocument ← fieldAt fs 0
  let contentChanges ← fieldAt fs 1
  return ⟨← TextDocumentIdentifier.ofJson parseUrl textDocument,
    ← contentChanges.asVec ContentChange.ofJson⟩

/-- The derived decoding. -/
def DidCloseParams.ofJson (v : Json) : Option (DidCloseParams Url) := do
  let fs ← v.fields ["textDocument".toList] 1
  let textDocument ← fieldAt fs 0
  return ⟨← TextDocumentIdentifier.ofJson parseUrl textDocument⟩

/-- The derived decoding. -/
def CodeActionParams.ofJson (v : Json) : Option (CodeActionParams Url) := do
  let fs ← v.fields ["textDocument".toList, "range".toList] 2
  let textDocument ← fieldAt fs 0
  let range ← fieldAt fs 1
  return ⟨← TextDocumentIdentifier.ofJson parseUrl textDocument, ← Range.ofJson range⟩

end

/-! ## Decoding sees the value

No decoder of params can tell two spellings of one value apart. -/

namespace Json.Same

variable {v v' : Json}

lemma position (h : v.Same v') : Position.ofJson v = Position.ofJson v' := by
  refine bind_eq_of_rel (h.fields _ _) fun fs fs' hfs => ?_
  refine bind_eq_of_rel (fieldAt_rel hfs 0) fun line line' hline => ?_
  refine bind_eq_of_rel (fieldAt_rel hfs 1) fun character character' hcharacter => ?_
  rw [hline.asU32, hcharacter.asU32]

lemma range (h : v.Same v') : Range.ofJson v = Range.ofJson v' := by
  refine bind_eq_of_rel (h.fields _ _) fun fs fs' hfs => ?_
  refine bind_eq_of_rel (fieldAt_rel hfs 0) fun start start' hstart => ?_
  refine bind_eq_of_rel (fieldAt_rel hfs 1) fun stop stop' hstop => ?_
  rw [hstart.position, hstop.position]

lemma contentChange (h : v.Same v') : ContentChange.ofJson v = ContentChange.ofJson v' := by
  refine bind_eq_of_rel (h.fields _ _) fun fs fs' hfs => ?_
  rw [optionField (fieldAt_rel hfs 0) fun _ _ => range,
    optionField (fieldAt_rel hfs 1) fun _ _ => asU32]
  refine congrArg _ (funext fun range => congrArg _ (funext fun _ => ?_))
  refine bind_eq_of_rel (fieldAt_rel hfs 2) fun text text' htext => ?_
  rw [htext.asStr]

variable {Url : Type} (parseUrl : Text → Option Url)

lemma textDocumentIdentifier (h : v.Same v') :
    TextDocumentIdentifier.ofJson parseUrl v = TextDocumentIdentifier.ofJson parseUrl v' := by
  refine bind_eq_of_rel (h.fields _ _) fun fs fs' hfs => ?_
  refine bind_eq_of_rel (fieldAt_rel hfs 0) fun uri uri' huri => ?_
  rw [huri.asStr]

lemma textDocumentItem (h : v.Same v') :
    TextDocumentItem.ofJson parseUrl v = TextDocumentItem.ofJson parseUrl v' := by
  refine bind_eq_of_rel (h.fields _ _) fun fs fs' hfs => ?_
  refine bind_eq_of_rel (fieldAt_rel hfs 0) fun uri uri' huri => ?_
  refine bind_eq_of_rel (fieldAt_rel hfs 1) fun text text' htext => ?_
  rw [huri.asStr, htext.asStr]

lemma didOpen (h : v.Same v') :
    DidOpenParams.ofJson parseUrl v = DidOpenParams.ofJson parseUrl v' := by
  refine bind_eq_of_rel (h.fields _ _) fun fs fs' hfs => ?_
  refine bind_eq_of_rel (fieldAt_rel hfs 0) fun textDocument textDocument' hdocument => ?_
  rw [hdocument.textDocumentItem]

lemma didChange (h : v.Same v') :
    DidChangeParams.ofJson parseUrl v = DidChangeParams.ofJson parseUrl v' := by
  refine bind_eq_of_rel (h.fields _ _) fun fs fs' hfs => ?_
  refine bind_eq_of_rel (fieldAt_rel hfs 0) fun textDocument textDocument' hdocument => ?_
  refine bind_eq_of_rel (fieldAt_rel hfs 1) fun changes changes' hchanges => ?_
  rw [hdocument.textDocumentIdentifier, hchanges.asVec fun _ _ => contentChange]

lemma didClose (h : v.Same v') :
    DidCloseParams.ofJson parseUrl v = DidCloseParams.ofJson parseUrl v' := by
  refine bind_eq_of_rel (h.fields _ _) fun fs fs' hfs => ?_
  refine bind_eq_of_rel (fieldAt_rel hfs 0) fun textDocument textDocument' hdocument => ?_
  rw [hdocument.textDocumentIdentifier]

lemma codeAction (h : v.Same v') :
    CodeActionParams.ofJson parseUrl v = CodeActionParams.ofJson parseUrl v' := by
  refine bind_eq_of_rel (h.fields _ _) fun fs fs' hfs => ?_
  refine bind_eq_of_rel (fieldAt_rel hfs 0) fun textDocument textDocument' hdocument => ?_
  refine bind_eq_of_rel (fieldAt_rel hfs 1) fun range range' hrange => ?_
  rw [hdocument.textDocumentIdentifier, hrange.range]

end Json.Same

/-! ## Responses

What is written, with the id as it came. -/

/-- The error codes. -/
inductive ErrorCode where
  | invalidRequest
  | methodNotFound
  | internalError
  | serverNotInitialized
  deriving DecidableEq, Repr

/-- The number that is sent. -/
def ErrorCode.value : ErrorCode → ℤ
  | invalidRequest => -32600
  | methodNotFound => -32601
  | internalError => -32603
  | serverNotInitialized => -32002

lemma ErrorCode.isNumber (code : ErrorCode) : isNumber (Json.intLiteral code.value) = true := by
  cases code <;> decide

/-- A string literal as `serde_json` writes it. -/
def Syntax.str (s : Text) : Syntax := .string (escape s)

lemma Syntax.str_value? (s : Text) : (Syntax.str s).value? = some (.string s) :=
  string_escape_value? s

/-- A `ResponseError`, as it is written; `data` is omitted, never null. -/
def responseError (code : ErrorCode) (message : Text) (data : Option Text) : Syntax :=
  Syntax.compact ([("code".toList, .number _ code.isNumber), ("message".toList, .str message)] ++
    (data.map fun data => ("data".toList, .str data)).toList)

/-- How a response starts, up to its id. -/
def responseHead : Text := "\x7b\"jsonrpc\":\"2.0\",\"id\":".toList

/-- A response with an id and one more member, as text. -/
def responseText (id name result : Text) : Text :=
  responseHead ++ id ++ [',', '"'] ++ name ++ ['"', ':'] ++ result ++ ['\x7d']

/-- The frame of a result. -/
def successFrame (id result : Text) : List UInt8 :=
  Text.bytes (responseText id "result".toList result)

/-- The frame of an `ErrorResponse`. -/
def errorFrame (id : Text) (code : ErrorCode) (message : Text) (data : Option Text) : List UInt8 :=
  Text.bytes (responseText id "error".toList (responseError code message data).text)

/-- The tree of a response. -/
def responseSyntax (id : Syntax) (name : Text) (result : Syntax) : Syntax :=
  Syntax.compact [("jsonrpc".toList, .str "2.0".toList), ("id".toList, id), (name, result)]

lemma escape_of_unescaped {s : Text} (h : s.all isUnescaped = true) :
    (escape s).text = s := by
  induction s with
  | nil => rfl
  | cons c s ih =>
      rw [List.all_cons, Bool.and_eq_true] at h
      have hc : escapeChar c = .unescaped c h.1 := by rw [escapeChar, dif_pos h.1]
      show (escapeChar c :: escape s).flatMap SpelledChar.text = c :: s
      rw [hc, List.flatMap_cons]
      exact congrArg (c :: ·) (ih h.2)

lemma responseHead_eq : responseHead = '\x7b' :: quoted (escape "jsonrpc".toList) ++
    ':' :: quoted (escape "2.0".toList) ++ ',' :: quoted (escape "id".toList) ++ [':'] := by
  decide +kernel

/-- The text a response is put together from is the text of a tree. -/
lemma responseSyntax_text (id result : Syntax) {name : Text} (hname : name.all isUnescaped = true) :
    (responseSyntax id name result).text = responseText id.text name result.text := by
  have hquoted : quoted (escape name) = '"' :: name ++ ['"'] := by
    rw [quoted, escape_of_unescaped hname]
  rw [responseText, responseHead_eq, responseSyntax]
  simp only [Syntax.compact, Members.compact, Syntax.text, Members.text, Syntax.str, hquoted,
    Blank.none, List.append_assoc, List.cons_append, List.nil_append, List.append_nil]

/-! ## The libraries

`serde_json` and `url` are parameters.  Lawful ones decode every text that has a value as it is
decoded here; what they do with other texts is left open. -/

/-- What the server gets from `serde_json`, from `url` and from its build. -/
structure Libs (Path Url : Type) where
  /-- `serde_json::from_slice` at `Request`. -/
  request : List UInt8 → Option Request
  /-- `serde_json::from_str` at the params of each method. -/
  didOpen : Text → Option (DidOpenParams Url)
  didChange : Text → Option (DidChangeParams Url)
  didClose : Text → Option (DidCloseParams Url)
  codeAction : Text → Option (CodeActionParams Url)
  /-- `Url::to_file_path`. -/
  toFilePath : Url → Option Path
  /-- `PathBuf::from(uri.path())`. -/
  rawPath : Url → Path
  /-- `CARGO_PKG_VERSION`. -/
  pkgVersion : Text

namespace Libs

variable {Path Url : Type}

/-- A raw id is JSON text. -/
def RawIds (libs : Libs Path Url) : Prop :=
  ∀ body r raw, libs.request body = some r → r.rawId = some raw → ∃ s : Syntax, raw = s.text

/-- Decoding is the derived one, on JSON texts. -/
structure Lawful (libs : Libs Path Url) (parseUrl : Text → Option Url) : Prop where
  request : ∀ d : Doc, libs.request (Text.bytes d.text) = Request.ofSyntax d.value
  didOpen : ∀ s v, Syntax.HasValue s v → libs.didOpen s.text = DidOpenParams.ofJson parseUrl v
  didChange : ∀ s v, Syntax.HasValue s v → libs.didChange s.text = DidChangeParams.ofJson parseUrl v
  didClose : ∀ s v, Syntax.HasValue s v → libs.didClose s.text = DidCloseParams.ofJson parseUrl v
  codeAction : ∀ s v, Syntax.HasValue s v →
    libs.codeAction s.text = CodeActionParams.ofJson parseUrl v

/-- One such. -/
def serde (parseUrl : Text → Option Url) (toFilePath : Url → Option Path) (rawPath : Url → Path)
    (pkgVersion : Text) : Libs Path Url where
  request body := (Text.fromUtf8 body).bind fun text => (parseDoc? text).bind fun d =>
    Request.ofSyntax d.value
  didOpen raw := (parseJson? raw).bind (DidOpenParams.ofJson parseUrl)
  didChange raw := (parseJson? raw).bind (DidChangeParams.ofJson parseUrl)
  didClose raw := (parseJson? raw).bind (DidCloseParams.ofJson parseUrl)
  codeAction raw := (parseJson? raw).bind (CodeActionParams.ofJson parseUrl)
  toFilePath
  rawPath
  pkgVersion

variable {parseUrl : Text → Option Url} {toFilePath : Url → Option Path} {rawPath : Url → Path}
  {pkgVersion : Text}

/-- What is decoded of a text is decoded of its value. -/
lemma parseJson?_bind {s : Syntax} {v : Json} (h : s.HasValue v) {α : Type}
    (ofJson : Json → Option α) : (parseJson? s.text).bind ofJson = ofJson v := by
  rw [parseJson?, parseDoc?_tree, Option.bind_some, h, Option.bind_some]

theorem serde_lawful : (serde parseUrl toFilePath rawPath pkgVersion).Lawful parseUrl where
  request d := by
    show (Text.fromUtf8 (Text.bytes d.text)).bind _ = _
    rw [Text.fromUtf8_bytes, Option.bind_some, parseDoc?_text, Option.bind_some]
  didOpen _ _ h := parseJson?_bind h _
  didChange _ _ h := parseJson?_bind h _
  didClose _ _ h := parseJson?_bind h _
  codeAction _ _ h := parseJson?_bind h _

theorem serde_rawIds : (serde parseUrl toFilePath rawPath pkgVersion).RawIds := by
  intro body r raw hr hraw
  obtain ⟨text, -, hr⟩ := Option.bind_eq_some_iff.mp hr
  obtain ⟨d, -, hr⟩ := Option.bind_eq_some_iff.mp hr
  simp only [Request.ofSyntax, Option.bind_eq_bind, Option.bind_eq_some_iff] at hr
  obtain ⟨fs, -, _, -, _, -, hr⟩ := hr
  cases hr
  revert hraw
  cases fieldAt fs 1 with
  | none => rintro ⟨⟩
  | some s =>
      cases s <;> rintro ⟨⟩ <;> exact ⟨_, rfl⟩

end Libs

/-- URLs and paths that are texts. -/
def textLibs : Libs Text Text := Libs.serde some some id "0.1.0".toList

lemma textLibs_lawful : textLibs.Lawful some := Libs.serde_lawful

lemma textLibs_rawIds : textLibs.RawIds := Libs.serde_rawIds

end Connect
