import ClaudeCodeConnect.Core.RustStr

/-!
# The handshake of a connection

What `handle_connection` makes of the headers of the upgrade request: the token that is presented,
the subprotocol that is selected, and whether the client is let in.

* `headerGet`, `toStr` -- `HeaderMap::get` and `HeaderValue::to_str`.
* `presented`, `negotiated`, `authorized` -- the three answers.
* `authorized_iff` -- a client is let in exactly when it presents the token, byte for byte.
-/

namespace Connect

/-- The headers of a request, in order: names, and values as bytes. -/
abbrev Headers := List (Text × List UInt8)

/-- `HeaderMap::get`: the first value of a name, in any case. -/
def headerGet (name : Text) (headers : Headers) : Option (List UInt8) :=
  (headers.find? fun h => Text.eqIgnoreAsciiCase h.1 name).map Prod.snd

/-- What `HeaderValue::to_str` accepts of a byte. -/
def isVisibleAscii (b : UInt8) : Bool := (0x20 ≤ b && b < 0x7F) || b == 0x09

/-- `HeaderValue::to_str`. -/
def toStr (value : List UInt8) : Option Text :=
  if value.all isVisibleAscii then Text.fromUtf8 value else none

/-- The token the handshake callback stashes. -/
def presented (headers : Headers) : Option Text :=
  (headerGet "x-claude-code-ide-authorization".toList headers).bind toStr

/-- The subprotocol of the response: `mcp`, if it is one of those offered. -/
def negotiated (headers : Headers) : Option Text :=
  match (headerGet "Sec-WebSocket-Protocol".toList headers).bind toStr with
  | some protocols =>
      if (protocols.splitOn ',').any fun p => Text.trim p == "mcp".toList then some "mcp".toList
      else none
  | none => none

/-- `ConstantTimeEq::ct_eq`, of slices. -/
def ctEq (a b : List UInt8) : Bool :=
  a.length == b.length && (a.zip b).all fun p => p.1 == p.2

/-- Whether the client is let in. -/
def authorized (authToken : Text) (headers : Headers) : Bool :=
  match presented headers with
  | some t =>
      Text.len t == Text.len authToken && ctEq (Text.bytes t) (Text.bytes authToken)
  | none => false

/-! ## Who is let in

The comparison is of bytes, the value being visible ASCII; of several headers of one name the first
counts. -/

lemma ctEq_iff {a b : List UInt8} : ctEq a b = true ↔ a = b := by
  rw [ctEq, Bool.and_eq_true, beq_iff_eq]
  induction a generalizing b with
  | nil => cases b <;> simp
  | cons x a ih =>
      cases b with
      | nil => simp
      | cons y b =>
          simp only [List.length_cons, Nat.add_right_cancel_iff, List.zip_cons_cons, List.all_cons,
            Bool.and_eq_true, beq_iff_eq, List.cons.injEq, ← ih]
          tauto

/-- **Exactly the token lets a client in.**  The comparison is of the bytes, the first header of
the name counts, and a value that is not visible ASCII is none. -/
theorem authorized_iff {authToken : Text} {headers : Headers} :
    authorized authToken headers = true ↔ presented headers = some authToken := by
  rw [authorized]
  cases presented headers with
  | none => simp
  | some t =>
      simp only [Bool.and_eq_true, beq_iff_eq, ctEq_iff, Option.some.injEq]
      constructor
      · rintro ⟨-, hbytes⟩
        have hdecode := congrArg Text.fromUtf8 hbytes
        simpa using hdecode
      · rintro rfl
        exact ⟨rfl, rfl⟩

end Connect
