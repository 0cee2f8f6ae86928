import ClaudeCodeConnect.Json.Parser
import ClaudeCodeConnect.Lock.LockFile

/-!
# The body of a lock file

* `LockFile.toJson`, `LockFile.toVec` -- what `serde_json` writes of a lock: six keys, without
  blanks.
* `RawLock.ofJson` -- what it reads of any lock, every field defaulted; `RawLock.fromStr` stands in
  for `serde_json::from_str`.
* `ofJson_toJson` -- a lock that was written reads back as `LockFile.toRawLock`.
* `writtenToken_infix_toVec` -- the token is in it.
-/

namespace Connect

namespace LockFile

/-- The six keys, in the order of the fields. -/
def members (lock : LockFile) : List (Text × Syntax) := [
  ("pid".toList, .number (Text.toDigits lock.pid.toNat) (isNumber_toDigits _)),
  ("workspaceFolders".toList,
    Syntax.compactArray (lock.workspaceFolders.map fun folder => .string (escape folder))),
  ("ideName".toList, .string (escape lock.ideName)),
  ("transport".toList, .string (escape lock.transport)),
  ("runningInWindows".toList, .bool lock.runningInWindows),
  ("authToken".toList, .string (escape lock.authToken))]

/-- `serde_json::to_vec`, as text. -/
def toJson (lock : LockFile) : Text := (Syntax.compact lock.members).text

/-- `serde_json::to_vec`. -/
def toVec (lock : LockFile) : List UInt8 := Text.bytes lock.toJson

/-- The token as it is written. -/
def writtenToken (lock : LockFile) : List UInt8 :=
  Text.bytes (Spelling.text (escape lock.authToken))

end LockFile

/-! ## Reading it back

Four of the six keys are read, each with a default, so a stranger's lock reads too. -/

namespace Json

/-- A field with `#[serde(default)]`. -/
def defaulted {α : Type} (read : Json → Option α) (default : α) : Option Json → Option α
  | none => some default
  | some v => read v

end Json

namespace RawLock

/-- The fields that are read, in the order of the struct. -/
def fieldNames : List Text :=
  ["workspaceFolders".toList, "authToken".toList, "ideName".toList, "pid".toList]

/-- The derived decoding. -/
def ofJson (v : Json) : Option RawLock :=
  match v.fields fieldNames 0 with
  | some [workspaceFolders, authToken, ideName, pid] => do
      let workspaceFolders ← Json.defaulted (Json.asVec Json.asStr) [] workspaceFolders
      let authToken ← Json.defaulted Json.asStr [] authToken
      let ideName ← Json.defaulted Json.asStr [] ideName
      let pid ← Json.defaulted Json.asU32 0 pid
      return ⟨workspaceFolders, authToken, ideName, pid⟩
  | _ => none

/-- A stand-in for `serde_json::from_str::<RawLock>`.  It differs where `parseJson?` does, and where
a key that is not read has a value `serde_json` would not decode: `serde_json` skips over a lone
surrogate there. -/
def fromStr (text : Text) : Option RawLock := (parseJson? text).bind ofJson

end RawLock

lemma asU32_toDigits (n : UInt32) : Json.asU32 (.number (Text.toDigits n.toNat)) = some n := by
  rw [Json.asU32, Text.parseUnsigned_toDigits n.toNat_lt, Option.map_some, UInt32.ofNat_toNat]

lemma asVec_asStr_map (l : List Text) :
    Json.asVec Json.asStr (.array (l.map Json.string)) = some l := by
  rw [Json.asVec]
  induction l with
  | nil => rfl
  | cons s l ih => simp [List.mapM_cons, Json.asStr, ih]

/-- The value of the text that is written. -/
lemma members_value? (lock : LockFile) :
    (Syntax.compact lock.members).value? = some (.object [
      ("pid".toList, .number (Text.toDigits lock.pid.toNat)),
      ("workspaceFolders".toList, .array (lock.workspaceFolders.map Json.string)),
      ("ideName".toList, .string lock.ideName), ("transport".toList, .string lock.transport),
      ("runningInWindows".toList, .bool lock.runningInWindows),
      ("authToken".toList, .string lock.authToken)]) := by
  have hfolders : (Syntax.compactArray
      (lock.workspaceFolders.map fun folder => .string (escape folder))).value?
        = some (.array (lock.workspaceFolders.map Json.string)) := by
    refine Syntax.compactArray_value? ?_
    induction lock.workspaceFolders with
    | nil => exact .nil
    | cons folder folders ih => exact .cons (string_escape_value? folder) ih
  refine Syntax.compact_value? ?_
  refine haveValues_cons rfl (haveValues_cons hfolders ?_)
  refine haveValues_cons (string_escape_value? _) (haveValues_cons (string_escape_value? _) ?_)
  exact haveValues_cons rfl (haveValues_cons (string_escape_value? _) .nil)

/-- **What is written reads back.** -/
theorem ofJson_toJson (lock : LockFile) : RawLock.fromStr lock.toJson = some lock.toRawLock := by
  have hparse : parseJson? lock.toJson = (Syntax.compact lock.members).value? := by
    rw [parseJson?, LockFile.toJson, parseDoc?_tree]
    rfl
  have hfields (folders token ide pid transport windows : Json) :
      Json.fields RawLock.fieldNames 0 (.object [
        ("pid".toList, pid), ("workspaceFolders".toList, folders), ("ideName".toList, ide),
        ("transport".toList, transport), ("runningInWindows".toList, windows),
        ("authToken".toList, token)])
        = some [some folders, some token, some ide, some pid] := rfl
  rw [RawLock.fromStr, hparse, members_value?, Option.bind_some]
  simp only [RawLock.ofJson, hfields, Json.defaulted, asVec_asStr_map, Json.asStr, asU32_toDigits]
  rfl

/-! ## The token

What the file system must not leak: the token stands in the text as it is. -/

/-- **The token is in what is written.** -/
theorem writtenToken_infix_toVec (lock : LockFile) : lock.writtenToken <:+: lock.toVec := by
  have hmember : ("authToken".toList, Syntax.string (escape lock.authToken)) ∈ lock.members := by
    simp [LockFile.members]
  have hquoted : Spelling.text (escape lock.authToken) <:+: quoted (escape lock.authToken) :=
    List.infix_append ['"'] _ ['"']
  obtain ⟨before, after, heq⟩ := hquoted.trans (Syntax.text_infix_compact hmember)
  refine ⟨Text.bytes before, Text.bytes after, ?_⟩
  rw [LockFile.toVec, LockFile.toJson, ← heq, Text.bytes_append, Text.bytes_append]
  rfl

end Connect
