import ClaudeCodeConnect.Json.Writer
import ClaudeCodeConnect.Lock.LockJson
import ClaudeCodeConnect.Selection.EventBus

/-!
# The notifications on the wire

`mcp/wire.rs`: what is pushed of an event.  `PathBuf::to_string_lossy` and the text of a URL are
parameters.

* `notificationFor` -- the notification of an event; `JsonRpcNotification.print`, its text.
* `JsonRpcNotification.ofText` -- the derived decoding.
* `Seen`, `readSeen` -- what a notification says to the one who reads it: a selection or a mention,
  in texts and numbers.
* `wire_round_trip` -- the text pushed of an event decodes to its notification, says what the event
  is, and is no request.
-/

namespace Connect

/-- `JsonRpcNotification`. -/
structure JsonRpcNotification where
  jsonrpc : Text
  method : Text
  params : Json

namespace JsonRpcNotification

/-- The fields, in the order of the struct. -/
def toJson (n : JsonRpcNotification) : Json :=
  .object [("jsonrpc".toList, .string n.jsonrpc), ("method".toList, .string n.method),
    ("params".toList, n.params)]

/-- The text that is sent, as `Json.print` writes it. -/
def print (n : JsonRpcNotification) : Text := n.toJson.print

/-- The fields, as they are read. -/
def fieldNames : List Text := ["jsonrpc".toList, "method".toList, "params".toList]

/-- The derived decoding. -/
def ofJson (v : Json) : Option JsonRpcNotification :=
  match v.fields fieldNames 3 with
  | some [some (.string jsonrpc), some (.string method), some params] =>
      some ⟨jsonrpc, method, params⟩
  | _ => none

/-- The derived decoding of a text, `parseJson?` standing in for `serde_json`'s parser. -/
def ofText (text : Text) : Option JsonRpcNotification := (parseJson? text).bind ofJson

end JsonRpcNotification

/-- What paths and URLs are written as. -/
structure WireLibs (Path Url : Type) where
  /-- `Path::to_string_lossy`. -/
  toStringLossy : Path → Text
  /-- `Url::to_string`. -/
  urlToString : Url → Text

section Wire

variable {Path Url : Type}

/-- `notification`. -/
def notification (method : Text) (params : Json) : JsonRpcNotification :=
  { jsonrpc := "2.0".toList, method, params }

/-- A `u32` as a value. -/
def u32Value (n : UInt32) : Json := .number (Text.toDigits n.toNat)

/-- A position, as `lsp_types` writes it. -/
def positionValue (p : Position) : Json :=
  .object [("line".toList, u32Value p.line), ("character".toList, u32Value p.character)]

/-- The params of `selection_changed`, which `json!` makes a map of. -/
def selectionParams (w : WireLibs Path Url) (selection : Selection Path Url) : Json :=
  (Json.object [
    ("text".toList, .string selection.text),
    ("filePath".toList, .string (w.toStringLossy selection.path)),
    ("fileUrl".toList, .string (w.urlToString selection.uri)),
    ("selection".toList, .object [
      ("start".toList, positionValue selection.range.start),
      ("end".toList, positionValue selection.range.stop),
      ("isEmpty".toList, .bool selection.isEmpty)])]).ordered

/-- `selection_changed`. -/
def selectionChanged (w : WireLibs Path Url) (selection : Selection Path Url) :
    JsonRpcNotification :=
  notification "selection_changed".toList (selectionParams w selection)

/-- `at_mentioned`: the two line numbers are there or they are not; neither is ever null. -/
def atMentioned (w : WireLibs Path Url) (mention : Mention Path) : JsonRpcNotification :=
  let lines := match mention.lines with
    | some (start, stop) =>
        [("lineStart".toList, u32Value start), ("lineEnd".toList, u32Value stop)]
    | none => []
  notification "at_mentioned".toList
    (Json.object (("filePath".toList, .string (w.toStringLossy mention.path)) :: lines)).ordered

/-- `notification_for`. -/
def notificationFor (w : WireLibs Path Url) : Event Path Url → JsonRpcNotification
  | .selectionChanged selection => selectionChanged w selection
  | .atMentioned mention => atMentioned w mention

end Wire

/-! ## What a notification says

The reading side, as strict as the CLI's schemas. -/

/-- What the reader of a notification is told. -/
inductive Seen where
  | selection (text filePath fileUrl : Text) (range : Range) (isEmpty : Bool)
  | mention (filePath : Text) (lines : Option (UInt32 × UInt32))
  deriving DecidableEq

namespace Seen

/-- An event, as it may be seen. -/
def ofEvent {Path Url : Type} (w : WireLibs Path Url) : Event Path Url → Seen
  | .selectionChanged s =>
      selection s.text (w.toStringLossy s.path) (w.urlToString s.uri) s.range s.isEmpty
  | .atMentioned m => mention (w.toStringLossy m.path) m.lines

end Seen

/-- The reader of a position. -/
def readPosition (v : Json) : Option Position := do
  let line ← (v.get "line".toList).bind Json.asU32
  let character ← (v.get "character".toList).bind Json.asU32
  return ⟨line, character⟩

/-- The reader of a truth value. -/
def readBool : Json → Option Bool
  | .bool b => some b
  | _ => none

/-- The reader of a selection; every key has to be there. -/
def readSelection (params : Json) : Option Seen := do
  let text ← (params.get "text".toList).bind Json.asStr
  let filePath ← (params.get "filePath".toList).bind Json.asStr
  let fileUrl ← (params.get "fileUrl".toList).bind Json.asStr
  let selection ← params.get "selection".toList
  let start ← (selection.get "start".toList).bind readPosition
  let stop ← (selection.get "end".toList).bind readPosition
  let isEmpty ← (selection.get "isEmpty".toList).bind readBool
  return .selection text filePath fileUrl ⟨start, stop⟩ isEmpty

/-- An optional number: a missing key is none, null is an error. -/
def readOptionalU32 : Option Json → Option (Option UInt32)
  | none => some none
  | some v => v.asU32.map some

/-- The reader of a mention, as strict as the CLI: one line number alone is an error. -/
def readMention (params : Json) : Option Seen := do
  let filePath ← (params.get "filePath".toList).bind Json.asStr
  let start ← readOptionalU32 (params.get "lineStart".toList)
  let stop ← readOptionalU32 (params.get "lineEnd".toList)
  match start, stop with
  | some start, some stop => return .mention filePath (some (start, stop))
  | none, none => return .mention filePath none
  | _, _ => none

/-- The two notifications there are. -/
def readSeen (n : JsonRpcNotification) : Option Seen :=
  if n.method = "selection_changed".toList then readSelection n.params
  else if n.method = "at_mentioned".toList then readMention n.params
  else none

/-- What a text frame says, if it is a notification. -/
def seenIn (text : Text) : Option Seen := (JsonRpcNotification.ofText text).bind readSeen

/-! ## The round trip

What is written of an event reads back as that event, its path as `to_string_lossy` writes it. -/

lemma writable_u32Value (n : UInt32) : (u32Value n).writable = true := isNumber_toDigits _

lemma writable_positionValue (p : Position) : (positionValue p).writable = true := by
  simp [positionValue, Json.writable, Json.writableMembers, writable_u32Value]

lemma readPosition_positionValue (p : Position) :
    readPosition (positionValue p).ordered = some p := by
  have hget : (positionValue p).ordered.get "line".toList = some (u32Value p.line) ∧
      (positionValue p).ordered.get "character".toList = some (u32Value p.character) := ⟨rfl, rfl⟩
  simp only [readPosition, hget.1, hget.2, Option.bind_some, u32Value, asU32_toDigits]
  rfl

/-- A notification decodes as it was written. -/
lemma ofText_print {n : JsonRpcNotification} (h : n.params.writable = true) :
    JsonRpcNotification.ofText n.print = some n := by
  have hwritable : n.toJson.writable = true := by
    simp [JsonRpcNotification.toJson, Json.writable, Json.writableMembers, h]
  rw [JsonRpcNotification.ofText, JsonRpcNotification.print, parseJson?_print hwritable]
  rfl

section RoundTrip

variable {Path Url : Type}

lemma writable_notificationFor (w : WireLibs Path Url) (e : Event Path Url) :
    (notificationFor w e).params.writable = true := by
  cases e with
  | selectionChanged s =>
      refine Json.writable_ordered ?_
      simp [Json.writable, Json.writableMembers, writable_positionValue]
  | atMentioned m =>
      refine Json.writable_ordered ?_
      obtain ⟨path, _ | ⟨start, stop⟩⟩ := m <;>
        simp [Json.writable, Json.writableMembers, writable_u32Value]

lemma readSelection_selectionParams (w : WireLibs Path Url) (s : Selection Path Url) :
    readSelection (selectionParams w s) = some (Seen.ofEvent w (.selectionChanged s)) := by
  have hselection : (selectionParams w s).get "selection".toList = some (.object [
      ("end".toList, (positionValue s.range.stop).ordered), ("isEmpty".toList, .bool s.isEmpty),
      ("start".toList, (positionValue s.range.start).ordered)]) := rfl
  have htext : (selectionParams w s).get "text".toList = some (.string s.text) := rfl
  have hpath : (selectionParams w s).get "filePath".toList
      = some (.string (w.toStringLossy s.path)) := rfl
  have hurl : (selectionParams w s).get "fileUrl".toList
      = some (.string (w.urlToString s.uri)) := rfl
  have hrange (start stop isEmpty : Json) :
      Json.get "start".toList (.object [("end".toList, stop), ("isEmpty".toList, isEmpty),
        ("start".toList, start)]) = some start ∧
      Json.get "end".toList (.object [("end".toList, stop), ("isEmpty".toList, isEmpty),
        ("start".toList, start)]) = some stop ∧
      Json.get "isEmpty".toList (.object [("end".toList, stop), ("isEmpty".toList, isEmpty),
        ("start".toList, start)]) = some isEmpty := ⟨rfl, rfl, rfl⟩
  simp only [readSelection, htext, hpath, hurl, hselection, Option.bind_eq_bind, Option.bind_some,
    Json.asStr, (hrange _ _ _).1, (hrange _ _ _).2.1, (hrange _ _ _).2.2,
    readPosition_positionValue]
  rfl

lemma readMention_atMentioned (w : WireLibs Path Url) (m : Mention Path) :
    readMention (atMentioned w m).params = some (Seen.ofEvent w (.atMentioned m)) := by
  obtain ⟨path, _ | ⟨start, stop⟩⟩ := m
  · rfl
  · have hpath : (atMentioned w ⟨path, some (start, stop)⟩).params.get "filePath".toList
        = some (.string (w.toStringLossy path)) := rfl
    have hline (n : UInt32) : readOptionalU32 (some (u32Value n)) = some (some n) := by
      rw [readOptionalU32, u32Value, asU32_toDigits, Option.map_some]
    have hstart : (atMentioned w ⟨path, some (start, stop)⟩).params.get "lineStart".toList
        = some (u32Value start) := rfl
    have hstop : (atMentioned w ⟨path, some (start, stop)⟩).params.get "lineEnd".toList
        = some (u32Value stop) := rfl
    rw [readMention, hpath, hstart, hstop, hline, hline]
    rfl

/-- What is read in the notification of an event is the event. -/
lemma readSeen_notificationFor (w : WireLibs Path Url) (e : Event Path Url) :
    readSeen (notificationFor w e) = some (Seen.ofEvent w e) := by
  cases e with
  | selectionChanged s =>
      have hmethod : (notificationFor w (.selectionChanged s)).method
          = "selection_changed".toList := rfl
      rw [readSeen, if_pos hmethod]
      exact readSelection_selectionParams w s
  | atMentioned m =>
      have hmethod : (notificationFor w (.atMentioned m)).method = "at_mentioned".toList := rfl
      rw [readSeen, hmethod, if_neg (by decide), if_pos rfl]
      exact readMention_atMentioned w m

/-- **What is pushed of an event reads back.**  The text decodes to the notification that was
written; it says what the event is, down to the line range of a mention, which has both of its ends
or neither, but for a path, which comes back as `to_string_lossy` writes it; and it is no request:
it has no id. -/
theorem wire_round_trip (w : WireLibs Path Url) (e : Event Path Url) :
    JsonRpcNotification.ofText (notificationFor w e).print = some (notificationFor w e) ∧
      seenIn (notificationFor w e).print = some (Seen.ofEvent w e) ∧
      (parseJson? (notificationFor w e).print).bind (Json.get "id".toList) = none := by
  have htext := ofText_print (writable_notificationFor w e)
  refine ⟨htext, ?_, ?_⟩
  · rw [seenIn, htext]
    exact readSeen_notificationFor w e
  · have hwritable : (notificationFor w e).toJson.writable = true := by
      simp [JsonRpcNotification.toJson, Json.writable, Json.writableMembers,
        writable_notificationFor]
    rw [JsonRpcNotification.print, parseJson?_print hwritable]
    rfl

end RoundTrip

end Connect
