import ClaudeCodeConnect.Lsp.Handshake

/-!
# What is said after `shutdown`

The gate after `shutdown` refuses requests.  A notification passes it, whatever its method.

* `StoreOp.Leaves` -- an operation that leaves the mirror as it is; `runOp_eq_self_iff` says when.
* `Idle` -- a message that has nothing to say: a request, or a notification that asks for no code
  action and leaves the mirror as it is.
* `Unheard` -- nothing of what is said reaches the mirror or the tracker.
* `unheard_iff` -- after a shutdown that is so **exactly when every message is idle**.
-/

namespace Connect

variable {Url Path Time : Type}

/-! ## Operations that change nothing

When a document operation leaves the mirror as it is. -/

/-- The operation finds the mirror as it would leave it. -/
def StoreOp.Leaves (s : DocumentStore Url Path Time) : StoreOp Url → Prop
  | openDoc uri text => (s.docs uri).map Document.text
      = if Text.len text > maxCachedBytes then none else some text
  | apply uri changes => ∀ d, s.docs uri = some d →
      changes.foldlM NaiveStore.applyChange d.text = .ok d.text
  | close uri => s.docs uri = none

section

variable {s : DocumentStore Url Path Time} {t : NaiveStore Url}

lemma with_docs_eq_self_iff (docs : Url → Option Document) :
    { s with docs } = s ↔ docs = s.docs := by
  constructor
  · intro h
    exact congrArg DocumentStore.docs h
  · rintro rfl
    rfl

variable [DecidableEq Url]

lemma openDoc_eq_self_iff (h : Mirrors s t) (uri : Url) (text : Text) :
    s.openDoc uri text = s ↔ (StoreOp.openDoc uri text).Leaves s := by
  have hmap : ∀ text', (s.docs uri).map Document.text = some text' ↔
      s.docs uri = some (Document.new text') := by
    intro text'
    rw [h uri]
    cases t.texts uri with
    | none => simp
    | some text'' =>
        simp only [Option.map_some, Option.some.injEq, Document.new_text]
        refine ⟨fun heq => by rw [heq], fun heq => congrArg Document.text heq⟩
  rw [DocumentStore.openDoc, StoreOp.Leaves]
  split_ifs
  · rw [with_docs_eq_self_iff, Function.update_eq_self_iff, Option.map_eq_none_iff, eq_comm]
  · rw [with_docs_eq_self_iff, Function.update_eq_self_iff, hmap, eq_comm]

/-- **An operation changes nothing exactly when the mirror is as it would leave it.** -/
theorem runOp_eq_self_iff (h : Mirrors s t) (op : StoreOp Url) :
    s.runOp op = .ok s ↔ op.Leaves s := by
  cases op with
  | openDoc uri text => rw [runOp_openDoc, Except.ok.injEq, openDoc_eq_self_iff h]
  | close uri =>
      rw [runOp_close, Except.ok.injEq, DocumentStore.close, with_docs_eq_self_iff,
        Function.update_eq_self_iff, StoreOp.Leaves, eq_comm]
  | apply uri changes =>
      have huri := h uri
      rw [StoreOp.Leaves]
      cases ht : t.texts uri with
      | none =>
          rw [ht, Option.map_none] at huri
          simp [DocumentStore.runOp, DocumentStore.apply, huri]
      | some text =>
          rw [ht, Option.map_some] at huri
          obtain ⟨text', hn, hd⟩ := applyChanges_new text changes
          have hcap := t.capped uri text ht
          rw [DocumentStore.runOp, apply_eq_openDoc huri hd, Except.ok.injEq,
            openDoc_eq_self_iff h, StoreOp.Leaves, huri]
          simp only [Option.map_some, Document.new_text, Option.some.injEq, forall_eq', hn,
            Except.ok.injEq]
          split_ifs with hlen
          · refine iff_of_false (by simp) ?_
            rintro rfl
            omega
          · rw [Option.some.injEq, eq_comm]

end

namespace LspServer

variable [DecidableEq Url] [DecidableEq Path] [DecidableEq Time] {libs : Libs Path Url}
  {s : LspServer Url Path Time} {request : Request}

/-! ## Idle messages

A message after `shutdown` ought to go unheard.  A request does; a notification is handled as ever,
and is idle only if there is nothing for it to do. -/

/-- A request, or a notification that asks for no code action and leaves the mirror as it is. -/
def Idle (libs : Libs Path Url) (documents : DocumentStore Url Path Time) (request : Request) :
    Prop :=
  request.isNotification = true →
    (request.kind = .codeAction → decode libs.codeAction request = none) ∧
      ∀ op, syncOp libs request = some op → op.Leaves documents

/-- Whatever is said, and at every moment of it, the mirror and the selections are those of `s`. -/
def Unheard (libs : Libs Path Url) (s : LspServer Url Path Time)
    (messages : List (Request × FileSystem Path Time)) : Prop :=
  ∀ said, said <+: messages →
    (s.run libs said).documents = s.documents ∧ (s.run libs said).selections = s.selections

omit [DecidableEq Url] [DecidableEq Path] [DecidableEq Time] in
lemma syncOp_eq_none (h : request.kind.isQuiet = false) : syncOp libs request = none := by
  rw [syncOp]
  split <;> simp_all [Method.isQuiet]

omit [DecidableEq Url] [DecidableEq Path] [DecidableEq Time] in
/-- A message of another method than those with an effect is idle. -/
lemma idle_of_kind {documents : DocumentStore Url Path Time} (hquiet : request.kind.isQuiet = false)
    (haction : request.kind ≠ .codeAction) : Idle libs documents request := by
  intro _
  refine ⟨fun h => absurd h haction, fun op hop => ?_⟩
  rw [syncOp_eq_none hquiet] at hop
  cases hop

omit [DecidableEq Path] [DecidableEq Time] in
/-- One step past the gates. -/
lemma Step.unchanged_iff {reply : Reply} {s' : LspServer Url Path Time} (h : s.Mirrored)
    (hstep : Step libs s request reply s') (hnotification : request.isNotification = true) :
    (s'.documents = s.documents ∧ s'.selections = s.selections) ↔
      Idle libs s.documents request := by
  obtain ⟨t, ht⟩ := h
  have hquiet : request.kind.isQuiet = true → request.kind ≠ .codeAction := by
    rintro h heq
    rw [heq] at h
    cases h
  cases hstep with
  | quiet hkind hop =>
      refine iff_of_true ⟨rfl, rfl⟩ fun _ => ⟨fun h => absurd h (hquiet hkind), fun op hop' => ?_⟩
      rw [hop] at hop'
      cases hop'
  | @sync op documents hkind hop hrun =>
      have hleaves := runOp_eq_self_iff ht op
      rw [hrun, Except.ok.injEq] at hleaves
      constructor
      · rintro ⟨hsame, -⟩ _
        refine ⟨fun h => absurd h (hquiet hkind), fun op' hop' => ?_⟩
        rw [hop] at hop'
        cases hop'
        exact hleaves.mp hsame
      · intro hidle
        exact ⟨hleaves.mpr ((hidle hnotification).2 op hop), rfl⟩
  | shutdown hkind =>
      exact iff_of_true ⟨rfl, rfl⟩ (idle_of_kind (by rw [hkind]; rfl) (by simp [hkind]))
  | undecodable hkind hdecode =>
      refine iff_of_true ⟨rfl, rfl⟩ fun _ => ⟨fun _ => hdecode, fun op hop => ?_⟩
      rw [syncOp_eq_none (by rw [hkind]; rfl)] at hop
      cases hop
  | codeAction text hkind hdecode _ =>
      refine iff_of_false ?_ ?_
      · rintro ⟨-, hselections⟩
        simp at hselections
      · intro hidle
        rw [(hidle hnotification).1 hkind] at hdecode
        cases hdecode
  | selectionRange hkind =>
      exact iff_of_true ⟨rfl, rfl⟩ (idle_of_kind (by rw [hkind]; rfl) (by simp [hkind]))
  | unknown hkind _ haction _ => exact iff_of_true ⟨rfl, rfl⟩ (idle_of_kind hkind haction)
  | methodNotFound _ _ _ hrequest =>
      rw [hnotification] at hrequest
      cases hrequest

/-- **One message to a server that is down**: nothing changes exactly when it is idle. -/
lemma dispatch_unchanged_iff (h : s.Mirrored) (hphase : s.InPhase .down) (libs : Libs Path Url)
    (fs : FileSystem Path Time) (request : Request) :
    ((s.dispatch libs fs request).2.documents = s.documents ∧
      (s.dispatch libs fs request).2.selections = s.selections) ↔
        Idle libs s.documents request := by
  obtain ⟨hinitialized, hdown⟩ := hphase
  by_cases hkind : request.kind = .initializeReq
  · have hidle : Idle libs s.documents request :=
      idle_of_kind (by rw [hkind]; rfl) (by simp [hkind])
    rw [dispatch_initializeReq hkind, hinitialized]
    exact iff_of_true ⟨rfl, rfl⟩ hidle
  · cases hnotification : request.isNotification with
    | true =>
        exact (dispatch_step h libs fs hkind hinitialized (Or.inr hnotification)).unchanged_iff h
          hnotification
    | false =>
        have hidle : Idle libs s.documents request := fun hn => by
          rw [hnotification] at hn
          cases hn
        rw [dispatch_refused hkind hinitialized hdown hnotification]
        exact iff_of_true ⟨rfl, rfl⟩ hidle

/-- A server that is down stays down. -/
lemma run_down (h : s.Mirrored) (hphase : s.InPhase .down)
    (messages : List (Request × FileSystem Path Time)) : (s.run libs messages).InPhase .down := by
  induction messages generalizing s with
  | nil => exact hphase
  | cons m messages ih =>
      exact ih (dispatch_mirrored h libs m.2 m.1) (dispatch_inPhase h hphase libs m.2 m.1)

/-- Idle messages leave everything as it is, however many there are. -/
lemma run_unchanged (h : s.Mirrored) (hphase : s.InPhase .down)
    {messages : List (Request × FileSystem Path Time)}
    (hidle : ∀ m ∈ messages, Idle libs s.documents m.1) :
    (s.run libs messages).documents = s.documents ∧
      (s.run libs messages).selections = s.selections := by
  induction messages using List.reverseRecOn with
  | nil => exact ⟨rfl, rfl⟩
  | append_singleton messages m ih =>
      obtain ⟨hdocuments, hselections⟩ := ih fun m' hm' => hidle m' (List.mem_append_left _ hm')
      have hm := hidle m (List.mem_append_right _ (List.mem_singleton_self m))
      rw [← hdocuments] at hm
      have hstep := (dispatch_unchanged_iff (run_mirrored h libs messages)
        (run_down h hphase messages) libs m.2 m.1).mpr hm
      rw [run_append]
      exact ⟨hstep.1.trans hdocuments, hstep.2.trans hselections⟩

/-- **After a shutdown nothing is heard exactly when every message is idle.** -/
theorem unheard_iff (libs : Libs Path Url)
    (before messages : List (Request × FileSystem Path Time)) (h : ShutdownAccepted before) :
    Unheard libs (new.run libs before) messages ↔
      ∀ m ∈ messages,
        Idle libs ((new : LspServer Url Path Time).run libs before).documents m.1 := by
  have hdown := run_shutDown libs h
  have hmirrored : ((new : LspServer Url Path Time).run libs before).Mirrored :=
    run_mirrored mirrored_new libs before
  constructor
  · intro hunheard m hm
    obtain ⟨said, rest, rfl⟩ := List.append_of_mem hm
    obtain ⟨hdocuments, hselections⟩ := hunheard said (List.prefix_append _ _)
    obtain ⟨hdocuments', hselections'⟩ := hunheard (said ++ [m]) ⟨rest, by simp⟩
    rw [run_append] at hdocuments' hselections'
    rw [← hdocuments]
    exact (dispatch_unchanged_iff (run_mirrored hmirrored libs said) (run_down hmirrored hdown said)
      libs m.2 m.1).mp ⟨hdocuments'.trans hdocuments.symm, hselections'.trans hselections.symm⟩
  · rintro hidle said ⟨rest, rfl⟩
    exact run_unchanged hmirrored hdown fun m hm => hidle m (List.mem_append_left _ hm)

/-! ## A code action after `shutdown`

The shortest session in which one is heard: as a notification. -/

lemma isNumber_zero : isNumber ['0'] = true := by decide

lemma isNumber_four : isNumber ['4'] = true := by decide

/-- The position of a column of the first line. -/
def columnSyntax (literal : Text) (h : isNumber literal = true) : Syntax :=
  Syntax.compact [("line".toList, .number ['0'] isNumber_zero),
    ("character".toList, .number literal h)]

/-- The params of a code action on the first four columns of `file:///p/a`. -/
def actionParams : Syntax :=
  Syntax.compact [
    ("textDocument".toList, Syntax.compact [("uri".toList, .str "file:///p/a".toList)]),
    ("range".toList, Syntax.compact [
      ("start".toList, columnSyntax ['0'] isNumber_zero),
      ("end".toList, columnSyntax ['4'] isNumber_four)])]

/-- The value of `columnSyntax`. -/
def columnJson (literal : Text) : Json :=
  .object [("line".toList, .number ['0']), ("character".toList, .number literal)]

/-- The value of `actionParams`. -/
def actionJson : Json :=
  .object [
    ("textDocument".toList, .object [("uri".toList, .string "file:///p/a".toList)]),
    ("range".toList, .object [
      ("start".toList, columnJson ['0']), ("end".toList, columnJson ['4'])])]

lemma columnSyntax_value? (literal : Text) (h : isNumber literal = true) :
    (columnSyntax literal h).HasValue (columnJson literal) :=
  Syntax.compact_value? (haveValues_cons rfl (haveValues_cons rfl .nil))

lemma actionParams_value? : actionParams.HasValue actionJson := by
  refine Syntax.compact_value? (haveValues_cons ?_ (haveValues_cons ?_ .nil))
  · exact Syntax.compact_value? (haveValues_cons (Syntax.str_value? _) .nil)
  · exact Syntax.compact_value? (haveValues_cons (columnSyntax_value? _ isNumber_zero)
      (haveValues_cons (columnSyntax_value? _ isNumber_four) .nil))

lemma codeAction_actionParams : textLibs.codeAction actionParams.text
    = some ⟨⟨"file:///p/a".toList⟩, ⟨0, 0⟩, ⟨0, 4⟩⟩ := by
  rw [textLibs_lawful.codeAction _ _ actionParams_value?]
  decide +kernel

/-- A message that sees no files. -/
def unseeing (request : Request) : Request × FileSystem Text Unit := (request, fun _ => none)

/-- A session up to its end: `initialize`, then `shutdown`. -/
def shutdownSession : List (Request × FileSystem Text Unit) :=
  [unseeing ⟨"initialize".toList, some ['1'], none⟩, unseeing ⟨"shutdown".toList, some ['2'], none⟩]

lemma shutdownSession_accepted : ShutdownAccepted shutdownSession := by
  refine ⟨[_], _, [], rfl, ?_, by decide +kernel⟩
  intro h
  exact h _ (List.mem_singleton_self _) (by decide +kernel)

/-- A code action, as a request or as a notification. -/
def action (rawId : Option Text) : Request :=
  ⟨"textDocument/codeAction".toList, rawId, some actionParams.text⟩

/-- As a request it goes unheard. -/
theorem unheard_actionRequest :
    Unheard textLibs (new.run textLibs shutdownSession) [unseeing (action (some ['3']))] := by
  refine (unheard_iff textLibs shutdownSession _ shutdownSession_accepted).mpr ?_
  intro m hm hnotification
  rw [List.mem_singleton.mp hm] at hnotification
  exact absurd hnotification (by decide +kernel)

/-- **As a notification it is heard.** -/
theorem not_forall_unheard : ¬ ∀ before messages : List (Request × FileSystem Text Unit),
    ShutdownAccepted before → Unheard textLibs (new.run textLibs before) messages := by
  intro h
  have hunheard := h shutdownSession [unseeing (action none)] shutdownSession_accepted _
    List.prefix_rfl
  rw [run_singleton] at hunheard
  have hidle := (dispatch_unchanged_iff (run_mirrored mirrored_new textLibs shutdownSession)
    (run_shutDown textLibs shutdownSession_accepted) textLibs _ _).mp hunheard
  have hdecode := (hidle rfl).1 (by decide +kernel)
  have hsome : decode textLibs.codeAction (action none) = _ := codeAction_actionParams
  exact Option.some_ne_none _ (hsome.symm.trans hdecode)

end LspServer

end Connect
