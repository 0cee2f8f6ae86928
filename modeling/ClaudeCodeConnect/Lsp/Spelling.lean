import ClaudeCodeConnect.Lsp.Correspondence

/-!
# Meaning, not spelling

Two sessions whose frames are pairwise texts of the same value: other blanks, other orders of
members, other escapes.

* `SameText`, `SameRequest`, `SameFrame` -- the same up to spelling: raw JSON, messages, frames.
* `methodEscaped`, `MethodsAlike` -- whether anything in the method of a message is escaped, and
  that this is so of both texts or of neither, up to `exit`.
* `ofSyntax_same` -- the three decoders: method, id and params of two such texts are the same.
* `dispatch_same`, `turn_same` -- a message does the same, however it is spelled.
* `serve_same` -- **a session is the same in every spelling**, of which an escape in a method is not
  one: it cannot be lent from the frame, and the message is dropped.
-/

namespace Connect

/-! ## Texts

When two frames say the same thing. -/

/-- Raw JSON that is the same up to spelling. -/
def SameText (a b : Text) : Prop := ∃ s s' : Syntax, a = s.text ∧ b = s'.text ∧ SameValue s s'

/-- Messages that are the same up to spelling. -/
structure SameRequest (r r' : Request) : Prop where
  method : r.method = r'.method
  rawId : Option.Rel SameText r.rawId r'.rawId
  params : Option.Rel SameText r.params r'.params

/-- Frames that are the same up to spelling. -/
def SameFrame (a b : List UInt8) : Prop :=
  ∃ s s' : Syntax, a = Text.bytes s.text ∧ b = Text.bytes s'.text ∧ SameValue s s'

/-- Whether anything in the method of a message is escaped. -/
def methodEscaped (s : Syntax) : Bool :=
  match (s.fields Request.fieldNames 1).bind fun fs => fieldAt fs 0 with
  | some (.string spelling) => spelling.isEscaped
  | _ => false

/-! ## Trees and their values

Strings and nulls are found alike in two spellings. -/

lemma Syntax.HasValue.string {s : Syntax} {t : Text} (h : s.HasValue (.string t)) :
    ∃ spelling, s = .string spelling ∧ spelling.value? = some t := by
  cases s with
  | string spelling => exact ⟨spelling, rfl, by simpa [Syntax.HasValue, Syntax.value?] using h⟩
  | _ => simp [Syntax.HasValue, Syntax.value?] at h

lemma Syntax.HasValue.null {s : Syntax} (h : s.HasValue .null) : s = .null := by
  cases s with
  | null => rfl
  | _ => simp [Syntax.HasValue, Syntax.value?] at h

lemma SameValue.null_iff {s s' : Syntax} (h : SameValue s s') : s = .null ↔ s' = .null := by
  obtain ⟨v, v', hv, hv', hsame⟩ := h
  constructor
  · rintro rfl
    cases hv
    cases hsame
    exact hv'.null
  · rintro rfl
    cases hv'
    cases hsame
    exact hv.null

/-! ## The three decoders

One field is borrowed, two are kept as they stand; the first can tell spellings apart. -/

lemma borrowedStr_of_ne_string {s : Syntax} {v : Json} (h : s.HasValue v)
    (hv : ∀ t, v ≠ .string t) : s.borrowedStr = none := by
  cases s with
  | string spelling =>
      obtain ⟨t, -, heq⟩ := Option.map_eq_some_iff.mp h
      exact absurd heq.symm (hv t)
  | _ => rfl

/-- A string can be lent in both spellings or in neither, if nothing is escaped in one alone. -/
lemma borrowedStr_same {s s' : Syntax} (h : SameValue s s')
    (hescaped : ∀ spelling spelling', s = .string spelling → s' = .string spelling' →
      spelling.isEscaped = spelling'.isEscaped) : s.borrowedStr = s'.borrowedStr := by
  obtain ⟨v, v', hv, hv', hsame⟩ := h
  cases hsame with
  | string t =>
      obtain ⟨spelling, rfl, ht⟩ := hv.string
      obtain ⟨spelling', rfl, ht'⟩ := hv'.string
      rw [Syntax.borrowedStr, Syntax.borrowedStr, hescaped _ _ rfl rfl, ht, ht']
  | _ =>
      rw [borrowedStr_of_ne_string hv (by simp), borrowedStr_of_ne_string hv' (by simp)]

lemma rawField_some {s : Syntax} (h : s ≠ .null) : rawField (some s) = some s.text := by
  cases s with
  | null => exact absurd rfl h
  | _ => rfl

lemma rawField_same {x x' : Option Syntax} (h : Option.Rel SameValue x x') :
    Option.Rel SameText (rawField x) (rawField x') := by
  cases h with
  | none => exact .none
  | @some s s' hs =>
      by_cases hnull : s = .null
      · rw [hnull, hs.null_iff.mp hnull]
        exact .none
      · rw [rawField_some hnull, rawField_some fun h => hnull (hs.null_iff.mpr h)]
        exact .some ⟨s, s', rfl, rfl, hs⟩

/-- **Two spellings of a message are the same message**, or both are none. -/
theorem ofSyntax_same {s s' : Syntax} (h : SameValue s s')
    (hescaped : methodEscaped s = methodEscaped s') :
    Option.Rel SameRequest (Request.ofSyntax s) (Request.ofSyntax s') := by
  have hfields := h.fields Request.fieldNames 1
  rw [methodEscaped, methodEscaped] at hescaped
  rw [Request.ofSyntax, Request.ofSyntax]
  generalize s.fields Request.fieldNames 1 = xs at *
  generalize s'.fields Request.fieldNames 1 = xs' at *
  cases hfields with
  | none => exact .none
  | @some fs fs' hfs =>
      have hmethod := fieldAt_rel hfs 0
      have hid := rawField_same (fieldAt_rel hfs 1)
      have hparams := rawField_same (fieldAt_rel hfs 2)
      simp only [Option.bind_some, Option.bind_eq_bind] at hescaped ⊢
      generalize fieldAt fs 0 = m at *
      generalize fieldAt fs' 0 = m' at *
      cases hmethod with
      | none => exact .none
      | @some m m' hm =>
          have hborrowed : m.borrowedStr = m'.borrowedStr := borrowedStr_same hm (by
            rintro spelling spelling' rfl rfl
            exact hescaped)
          rw [Option.bind_some, Option.bind_some, hborrowed]
          cases m'.borrowedStr with
          | none => exact .none
          | some method => exact .some ⟨rfl, hid, hparams⟩

/-! ## Messages

A message in another spelling is handled alike, its method being readable in both. -/

namespace SameRequest

variable {r r' : Request}

lemma kind (h : SameRequest r r') : r.kind = r'.kind := congrArg Method.ofText h.method

/-- The raw ids are null in both or in neither. -/
lemma sameText_ne_null {a b : Text} (h : SameText a b) : a ≠ "null".toList ↔ b ≠ "null".toList := by
  obtain ⟨s, s', rfl, rfl, hs⟩ := h
  have hnull : ∀ s : Syntax, s.text = "null".toList ↔ s = .null := fun s =>
    ⟨fun heq => Syntax.text_injective heq, fun heq => by rw [heq]; rfl⟩
  rw [Ne, Ne, hnull, hnull, hs.null_iff]

lemma id (h : SameRequest r r') : Option.Rel SameText r.id r'.id := by
  have hid := h.rawId
  rw [Request.id, Request.id]
  generalize r.rawId = x at hid
  generalize r'.rawId = x' at hid
  cases hid with
  | none => exact .none
  | some htext =>
      have hnull := sameText_ne_null htext
      rw [Option.filter_some, Option.filter_some]
      simp only [hnull]
      split_ifs
      · exact .some htext
      · exact .none

lemma isNotification (h : SameRequest r r') : r.isNotification = r'.isNotification := by
  have hid := h.id
  rw [Request.isNotification, Request.isNotification]
  generalize r.id = x at hid
  generalize r'.id = x' at hid
  cases hid <;> rfl

/-- Params of the same value are decoded to the same. -/
lemma decode {Params : Type} (h : SameRequest r r') {fromStr : Text → Option Params}
    {ofJson : Json → Option Params}
    (hfrom : ∀ s v, Syntax.HasValue s v → fromStr s.text = ofJson v)
    (hsame : ∀ v v', v.Same v' → ofJson v = ofJson v') :
    LspServer.decode fromStr r = LspServer.decode fromStr r' := by
  have hparams := h.params
  rw [LspServer.decode, LspServer.decode]
  generalize r.params = x at hparams
  generalize r'.params = x' at hparams
  cases hparams with
  | none => rfl
  | some htext =>
      obtain ⟨s, s', rfl, rfl, v, v', hv, hv', hsame'⟩ := htext
      rw [Option.bind_some, Option.bind_some, hfrom s v hv, hfrom s' v' hv', hsame v v' hsame']

end SameRequest

namespace LspServer

variable {Url Path Time : Type} [DecidableEq Url] [DecidableEq Path] [DecidableEq Time]
  {libs : Libs Path Url} {parseUrl : Text → Option Url}

/-- **A message does the same in every spelling.** -/
theorem dispatch_same (hlibs : libs.Lawful parseUrl) {r r' : Request} (h : SameRequest r r')
    (s : LspServer Url Path Time) (fs : FileSystem Path Time) :
    s.dispatch libs fs r = s.dispatch libs fs r' := by
  have hopen := h.decode hlibs.didOpen fun _ _ => Json.Same.didOpen parseUrl
  have hchange := h.decode hlibs.didChange fun _ _ => Json.Same.didChange parseUrl
  have hclose := h.decode hlibs.didClose fun _ _ => Json.Same.didClose parseUrl
  have haction := h.decode hlibs.codeAction fun _ _ => Json.Same.codeAction parseUrl
  simp only [dispatch, route, handle, didOpen, didChange, didClose, codeAction, h.kind, h.method,
    h.isNotification, hopen, hchange, hclose, haction]

end LspServer

/-! ## Frames

The replies are the same up to the spelling of the id. -/

lemma responseError_hasValue (code : ErrorCode) (message : Text) (data : Option Text) :
    ∃ v, (responseError code message data).HasValue v := by
  cases data with
  | none => exact ⟨_, Syntax.compact_value? (haveValues_cons rfl
      (haveValues_cons (Syntax.str_value? _) .nil))⟩
  | some data => exact ⟨_, Syntax.compact_value? (haveValues_cons rfl
      (haveValues_cons (Syntax.str_value? _) (haveValues_cons (Syntax.str_value? _) .nil)))⟩

lemma responseSyntax_same {tree tree' : Syntax} (h : SameValue tree tree') (name : Text)
    {result : Syntax} {v : Json} (hv : result.HasValue v) :
    SameValue (responseSyntax tree name result) (responseSyntax tree' name result) := by
  obtain ⟨id, id', hid, hid', hsame⟩ := h
  have hvalue : ∀ {tree id}, Syntax.HasValue tree id → (responseSyntax tree name result).HasValue
      (.object [("jsonrpc".toList, .string "2.0".toList), ("id".toList, id), (name, v)]) :=
    fun htree => Syntax.compact_value?
      (haveValues_cons (Syntax.str_value? _) (haveValues_cons htree (haveValues_cons hv .nil)))
  exact ⟨_, _, hvalue hid, hvalue hid',
    .object (.cons (.string _) (.cons hsame (.cons (.refl v) .nil)))⟩

/-- The same reply to the same id is the same frame. -/
lemma Reply.frame_same {reply : Reply} (h : reply = .silent ∨ reply.IsAnswer) {a b : Text}
    (hid : SameText a b) : Option.Rel SameFrame (reply.frame a) (reply.frame b) := by
  obtain ⟨tree, tree', rfl, rfl, htree⟩ := hid
  have hframe : ∀ {name : Text} {result : Syntax} {v : Json}, name.all isUnescaped = true →
      result.HasValue v →
      SameFrame (Text.bytes (responseText tree.text name result.text))
        (Text.bytes (responseText tree'.text name result.text)) := by
    intro name result v hname hv
    rw [← responseSyntax_text _ _ hname, ← responseSyntax_text _ _ hname]
    exact ⟨_, _, rfl, rfl, responseSyntax_same htree name hv⟩
  rcases h with rfl | h
  · exact .none
  · cases reply with
    | silent => cases h
    | result text =>
        obtain ⟨s, v, rfl, hv⟩ := h
        exact .some (hframe (by decide) hv)
    | error code message data =>
        obtain ⟨v, hv⟩ := responseError_hasValue code message data
        exact .some (hframe (by decide) hv)

/-! ## Sessions

By induction on pairs of bodies, the methods readable in both or in neither. -/

/-- The message is `exit`. -/
def isExit (s : Syntax) : Bool := (Request.ofSyntax s).any fun r => r.kind = .exit

/-- Up to `exit`, something in the method is escaped in both texts or in neither. -/
def MethodsAlike {Path Time : Type} : List (Doc × Doc × FileSystem Path Time) → Prop
  | [] => True
  | (d, d', _) :: rest =>
      methodEscaped d.value = methodEscaped d'.value ∧ (isExit d.value = true ∨ MethodsAlike rest)

/-- Serving came to the same, up to the spelling of what went back. -/
structure SameServed {Url Path Time : Type} (r r' : Served Url Path Time) : Prop where
  frames : r.frames = r'.frames
  ending : r.ending = r'.ending
  server : r.server = r'.server
  written : List.Forall₂ SameFrame r.written r'.written
  torn : Option.Rel SameFrame r.torn r'.torn

lemma SameServed.after {Url Path Time : Type} {r r' : Served Url Path Time} (h : SameServed r r')
    {frame frame' : Option (List UInt8)} (hframe : Option.Rel SameFrame frame frame') :
    SameServed (r.after frame) (r'.after frame') := by
  refine ⟨congrArg (· + 1) h.frames, h.ending, h.server, ?_, h.torn⟩
  cases hframe with
  | none => exact h.written
  | some hframe => exact .cons hframe h.written

namespace LspServer

variable {Url Path Time : Type} [DecidableEq Url] [DecidableEq Path] [DecidableEq Time]
  {libs : Libs Path Url} {parseUrl : Text → Option Url} {s : LspServer Url Path Time}

/-- The state after a turn that goes on is one a session can be in. -/
lemma turn_inPhase {p : ServerPhase} (hmirrored : s.Mirrored) (hphase : s.InPhase p)
    {fs : FileSystem Path Time} {body : List UInt8} {s' : LspServer Url Path Time}
    {frame : Option (List UInt8)} (h : s.turn libs fs body = some (s', frame)) :
    s'.Mirrored ∧ ∃ p, s'.InPhase p := by
  rw [turn] at h
  split at h
  · cases h
    exact ⟨hmirrored, p, hphase⟩
  · split_ifs at h
    cases h
    exact ⟨dispatch_mirrored hmirrored libs fs _, _, dispatch_inPhase hmirrored hphase libs fs _⟩

/-- **A turn is the same in every spelling.** -/
lemma turn_same (hlibs : libs.Lawful parseUrl) {p : ServerPhase} (hmirrored : s.Mirrored)
    (hphase : s.InPhase p) (fs : FileSystem Path Time) {d d' : Doc}
    (h : SameValue d.value d'.value)
    (hescaped : methodEscaped d.value = methodEscaped d'.value) :
    Option.Rel (fun out out' => out.1 = out'.1 ∧ Option.Rel SameFrame out.2 out'.2)
      (s.turn libs fs (Text.bytes d.text)) (s.turn libs fs (Text.bytes d'.text)) := by
  have hrequest := ofSyntax_same h hescaped
  rw [turn, turn, hlibs.request, hlibs.request]
  generalize Request.ofSyntax d.value = x at hrequest
  generalize Request.ofSyntax d'.value = x' at hrequest
  cases hrequest with
  | none => exact .some ⟨rfl, .none⟩
  | @some r r' hr =>
      dsimp only
      rw [hr.kind]
      split_ifs with hexit
      · exact .none
      · refine .some ⟨by rw [dispatch_same hlibs hr], ?_⟩
        dsimp only
        rw [dispatch_same hlibs hr]
        have hid := hr.id
        generalize hx : r.id = x at hid
        generalize hx' : r'.id = x' at hid
        cases hid with
        | none => exact .none
        | some hid =>
            have hrequest : r'.isNotification = false := by
              rw [Request.isNotification, hx']
              rfl
            have hreply := dispatch_reply hmirrored hphase libs fs hrequest
            refine Reply.frame_same ?_ hid
            split_ifs at hreply
            · exact Or.inl hreply
            · exact Or.inr hreply

/-- The frames of one side. -/
def firstFrames (frames : List (Doc × Doc × FileSystem Path Time)) :
    List (List UInt8 × FileSystem Path Time) :=
  frames.map fun f => (Text.bytes f.1.text, f.2.2)

/-- The frames of the other. -/
def secondFrames (frames : List (Doc × Doc × FileSystem Path Time)) :
    List (List UInt8 × FileSystem Path Time) :=
  frames.map fun f => (Text.bytes f.2.1.text, f.2.2)

lemma turn_exit (hlibs : libs.Lawful parseUrl) (s : LspServer Url Path Time)
    (fs : FileSystem Path Time) {d : Doc} (h : isExit d.value = true) :
    s.turn libs fs (Text.bytes d.text) = none := by
  rw [isExit, Option.any_eq_true] at h
  obtain ⟨r, hr, hexit⟩ := h
  rw [turn, hlibs.request, hr]
  exact if_pos (of_decide_eq_true hexit)

/-- From any state a session can be in. -/
lemma serve_same_from (hlibs : libs.Lawful parseUrl) (write : ℕ → Bool)
    (ending : Except IoError Unit) {frames : List (Doc × Doc × FileSystem Path Time)}
    (hsame : ∀ f ∈ frames, SameValue f.1.value f.2.1.value) (halike : MethodsAlike frames)
    {p : ServerPhase} (hmirrored : s.Mirrored) (hphase : s.InPhase p) (n : ℕ) :
    SameServed (serve libs write ending s n (firstFrames frames))
      (serve libs write ending s n (secondFrames frames)) := by
  induction frames generalizing s p n with
  | nil => exact ⟨rfl, rfl, rfl, .nil, .none⟩
  | cons f frames ih =>
      obtain ⟨d, d', fs⟩ := f
      obtain ⟨hescaped, hrest⟩ := halike
      have hturn := turn_same hlibs hmirrored hphase fs (hsame _ List.mem_cons_self) hescaped
      have hsame' : ∀ f ∈ frames, SameValue f.1.value f.2.1.value := fun f hf =>
        hsame f (List.mem_cons_of_mem _ hf)
      rw [firstFrames, secondFrames, List.map_cons, List.map_cons, serve, serve]
      generalize hfirst : s.turn libs fs (Text.bytes d.text) = out at hturn
      generalize hsecond : s.turn libs fs (Text.bytes d'.text) = out' at hturn
      cases hturn with
      | none => exact ⟨rfl, rfl, rfl, .nil, .none⟩
      | @some out out' hout =>
          obtain ⟨s', frame⟩ := out
          obtain ⟨s'', frame'⟩ := out'
          obtain ⟨rfl, hframe⟩ := hout
          obtain ⟨hmirrored', p', hphase'⟩ := turn_inPhase hmirrored hphase hfirst
          have halike' : MethodsAlike frames := by
            refine hrest.resolve_left fun hexit => ?_
            rw [turn_exit hlibs s fs hexit] at hfirst
            cases hfirst
          cases hframe with
          | none => exact (ih hsame' halike' hmirrored' hphase' n).after .none
          | some hframe =>
              dsimp only
              split_ifs
              · exact (ih hsame' halike' hmirrored' hphase' (n + 1)).after (.some hframe)
              · exact ⟨rfl, rfl, rfl, .nil, .some hframe⟩

/-- **Meaning, not spelling.**  Two sessions of texts of the same values, in whose methods, up to
`exit`, something is escaped in both or in neither: they stop at the same message, keep the same
server with the same store and selections, and send back frames of the same values. -/
theorem serve_same (libs : Libs Path Url) (parseUrl : Text → Option Url)
    (hlibs : libs.Lawful parseUrl) (write : ℕ → Bool) (ending : Except IoError Unit)
    (frames : List (Doc × Doc × FileSystem Path Time))
    (hsame : ∀ f ∈ frames, SameValue f.1.value f.2.1.value) (halike : MethodsAlike frames) :
    SameServed (serve libs write ending (new : LspServer Url Path Time) 0 (firstFrames frames))
      (serve libs write ending new 0 (secondFrames frames)) :=
  serve_same_from hlibs write ending hsame halike mirrored_new new_inPhase 0

/-! ## Three spellings of `initialize`

With an escape in the method the message is dropped; with other blanks and another order it is not.
-/

/-- An `initialize` request with its method first, blanks before the names, and the method spelled
like this. -/
def initializeSpelled (blank : Blank) (method : Spelling) : Doc :=
  ⟨blank, .object
    (.more blank (escape "method".toList) .none .none (.string method) .none
      (.last blank (escape "id".toList) .none .none (.number ['1'] isNumber_one) .none)), blank⟩

/-- `\u0069nitialize`. -/
def escapedInitialize : Spelling := .unit '0' '0' '6' '9' (by decide) :: escape "nitialize".toList

/-- It has the value of the other `initialize`, in which the id comes first. -/
lemma initializeSpelled_same {method : Spelling} (h : method.value? = some "initialize".toList)
    (blank : Blank) : SameValue initializeDoc.value (initializeSpelled blank method).value := by
  refine ⟨.object [("id".toList, .number ['1']), ("method".toList, .string "initialize".toList)],
    .object [("method".toList, .string "initialize".toList), ("id".toList, .number ['1'])], ?_, ?_,
    .object (.perm (.refl _) (.swap _ _ _))⟩
  · exact Syntax.compact_value? (haveValues_cons rfl (haveValues_cons (Syntax.str_value? _) .nil))
  · simp only [Syntax.HasValue, initializeSpelled, Syntax.value?, Members.values?, escape_value?, h,
      Option.bind_some, Option.map_some]

/-- The request with its id first, and in this spelling. -/
def initializePair {Time : Type} (blank : Blank) (method : Spelling) :
    Doc × Doc × FileSystem Text Time :=
  (initializeDoc, initializeSpelled blank method, fun _ => none)

/-- A line break and a blank. -/
def lineBreak : Blank := ⟨['\n', ' '], rfl⟩

/-- A text, and the same with blanks around it. -/
def paddedPair (d : Doc) : Doc × Doc × FileSystem Text ℕ :=
  (d, ⟨lineBreak, d.value, lineBreak⟩, savedFiles 1)

lemma paddedPair_same {d : Doc} (h : d.value.value?.isSome = true) :
    SameValue (paddedPair d).1.value (paddedPair d).2.1.value := by
  obtain ⟨v, hv⟩ := Option.isSome_iff_exists.mp h
  exact ⟨v, v, hv, hv, .refl v⟩

/-- A session: `initialize` with its members in another order, a text that is no message, a document
that is opened and edited, and two selections in it. -/
def respelled : List (Doc × Doc × FileSystem Text ℕ) :=
  initializePair lineBreak (escape "initialize".toList) ::
    [⟨.none, .null, .none⟩, openDoc, changeDoc, selectDoc 2 "/p/a".toList 1,
      selectDoc 3 "/p/a".toList 2].map paddedPair

/-- Blanks and another order make no difference. -/
theorem serve_same_respelled :
    SameServed
      (serve textLibs (fun _ => true) (.ok ()) (new : LspServer Text Text ℕ) 0
        (firstFrames respelled))
      (serve textLibs (fun _ => true) (.ok ()) new 0 (secondFrames respelled)) := by
  refine serve_same textLibs some textLibs_lawful _ _ _ ?_ ?_
  · have hvalues : ∀ d ∈ [(⟨.none, .null, .none⟩ : Doc), openDoc, changeDoc,
        selectDoc 2 "/p/a".toList 1, selectDoc 3 "/p/a".toList 2],
        d.value.value?.isSome = true := by decide +kernel
    rw [respelled, List.forall_mem_cons]
    refine ⟨initializeSpelled_same (escape_value? _) _, fun f hf => ?_⟩
    obtain ⟨d, hd, rfl⟩ := List.mem_map.mp hf
    exact paddedPair_same (hvalues d hd)
  · simp only [respelled, List.map_cons, List.map_nil, MethodsAlike, paddedPair, or_true,
      and_true]
    decide +kernel

/-- One in which the first letter of the method is escaped. -/
def escapedPair : Doc × Doc × FileSystem Text Unit := initializePair .none escapedInitialize

/-- **An escape in the method does**: the message is dropped, and its response with it. -/
theorem not_forall_serve_same : ¬ ∀ frames : List (Doc × Doc × FileSystem Text Unit),
    (∀ f ∈ frames, SameValue f.1.value f.2.1.value) →
      SameServed (serve textLibs (fun _ => true) (.ok ()) new 0 (firstFrames frames))
        (serve textLibs (fun _ => true) (.ok ()) new 0 (secondFrames frames)) := by
  intro h
  have hsame : ∀ f ∈ [escapedPair], SameValue f.1.value f.2.1.value :=
    List.forall_mem_singleton.mpr (initializeSpelled_same (by decide +kernel) _)
  have hwritten := (h [escapedPair] hsame).written
  have hdropped : textLibs.request (Text.bytes escapedPair.2.1.text) = none := by
    rw [textLibs_lawful.request]
    decide +kernel
  have hturn : (new : LspServer Text Text Unit).turn textLibs escapedPair.2.2
      (Text.bytes escapedPair.2.1.text) = some (new, none) := by
    rw [turn, hdropped]
  have hsecond : (serve textLibs (fun _ => true) (.ok ()) (new : LspServer Text Text Unit) 0
      (secondFrames [escapedPair])).written = [] := by
    rw [secondFrames, List.map_singleton, serve, hturn]
    rfl
  have hfirst := serve_written (mirrored_new : (new : LspServer Text Text Unit).Mirrored)
    new_inPhase textLibs_rawIds (.ok ()) 0 (firstFrames [escapedPair])
  have hawaited : awaited .fresh (heard textLibs (firstFrames [escapedPair])) = [['1']] := by
    rw [firstFrames, List.map_singleton, escapedPair, initializePair,
      heard_cons_some request_initializeDoc]
    rfl
  rw [hsecond, List.forall₂_nil_right_iff] at hwritten
  rw [hwritten, hawaited] at hfirst
  cases hfirst

end LspServer

end Connect
