import ClaudeCodeConnect.Lsp.Correspondence
import ClaudeCodeConnect.Lsp.DiskRead
import ClaudeCodeConnect.Lsp.Online

/-!
# What the editor said

The server seen from the editor: how far the handshake has come, the text of each open document, and
the selections that were reported.  No line table, no index of a file, no flag, and nothing that
could panic: an edit acts on a text, and a selection is read from a text.

* `EditorView`, `EditorView.take` -- the view, and what a message does to it.
* `selectedText` -- the text of a selection: of the open document, or else of the file as it is.
* `Follows`, `dispatch_follows` -- the server stands for a view, and keeps doing so.
* `EditorView.serve` -- the loop, over frames.
* `serve_refines_view` -- **from the outside the server is its view**: the same frames go back, the
  same selections are reported, and the loop ends alike.
-/

namespace Connect

variable {Url Path Time : Type}

/-! ## The view

A server without framing, JSON, line tables and caches: the texts as the editor has them, and whole
files. -/

/-- One edit of a text; a change without a range is the whole text. -/
def editText (text : Text) (change : ContentChange) : Text :=
  match change.range with
  | none => change.text
  | some range => (replaceSlice? Char.utf8Size text (rangeOffsets text range).1
      (rangeOffsets text range).2 change.text).getD text

/-- A text over the cap is not kept. -/
def keepText (text : Text) : Option Text :=
  if Text.len text > maxCachedBytes then none else some text

/-- The text a range selects: nothing if it is empty, else of the open document, else of the
file. -/
def selectedText (texts : Url → Option Text) (fs : FileSystem Path Time) (uri : Url) (path : Path)
    (range : Range) : Text :=
  if range.start = range.stop then []
  else match (texts uri).or (fs.readToString path) with
    | some text => rangeText text range
    | none => []

/-- What the editor can know of the server: how far the handshake is, the texts it has been told,
and the selections it has been asked about. -/
structure EditorView (Url Path : Type) where
  phase : ServerPhase
  texts : Url → Option Text
  selections : List (Selection Path Url)

namespace EditorView

/-- Before the first message. -/
def new : EditorView Url Path := ⟨.fresh, fun _ => none, []⟩

variable [DecidableEq Url] (libs : Libs Path Url)

/-- A message that is let through. -/
def hear (v : EditorView Url Path) (fs : FileSystem Path Time) (request : Request) :
    Reply × EditorView Url Path :=
  match request.kind with
  | .didOpen =>
      match LspServer.decode libs.didOpen request with
      | none => (.silent, v)
      | some ⟨document⟩ =>
          (.silent, { v with
            texts := Function.update v.texts document.uri (keepText document.text) })
  | .didChange =>
      match LspServer.decode libs.didChange request with
      | none => (.silent, v)
      | some ⟨document, changes⟩ =>
          (.silent, { v with
            texts := Function.update v.texts document.uri
              ((v.texts document.uri).bind fun text => keepText (changes.foldl editText text)) })
  | .didClose =>
      match LspServer.decode libs.didClose request with
      | none => (.silent, v)
      | some ⟨document⟩ => (.silent, { v with texts := Function.update v.texts document.uri none })
  | .codeAction =>
      match LspServer.decode libs.codeAction request with
      | none => (.invalidRequest, v)
      | some params =>
          let uri := params.textDocument.uri
          let path := LspServer.uriToPath libs uri
          let text := selectedText v.texts fs uri path params.range
          (.emptyActions, { v with
            selections := v.selections ++ [⟨path, uri, params.range, text⟩] })
  | .shutdown => (.null, { v with phase := .down })
  | .selectionRange => (.null, v)
  | .initialized | .didSave => (.silent, v)
  | _ =>
      if request.isNotification then (.silent, v)
      else (.error .methodNotFound "Method not found".toList (some request.method), v)

/-- A message, in the phase it finds. -/
def take (v : EditorView Url Path) (fs : FileSystem Path Time) (request : Request) :
    Reply × EditorView Url Path :=
  if request.kind = .initializeReq then
    match v.phase with
    | .fresh => (LspServer.initializeReply libs, { v with phase := .running })
    | _ => (.invalidRequest, v)
  else match v.phase with
    | .fresh => (if request.isNotification then .silent else .notInitialized, v)
    | .running => v.hear libs fs request
    | .down => if request.isNotification then v.hear libs fs request else (.invalidRequest, v)

/-- One frame: the view after it and the frame that goes back; `none` at `exit`. -/
def turn (v : EditorView Url Path) (fs : FileSystem Path Time) (body : List UInt8) :
    Option (EditorView Url Path × Option (List UInt8)) :=
  match libs.request body with
  | none => some (v, none)
  | some request =>
      if request.kind = .exit then none
      else some ((v.take libs fs request).2,
        request.id.bind fun id => (v.take libs fs request).1.frame id)

/-- The frames of a session: the view they leave, the frames that go back, and how it ends. -/
def serve (write : ℕ → Bool) (ending : Except IoError Unit) :
    EditorView Url Path → ℕ → List (List UInt8 × FileSystem Path Time) →
      EditorView Url Path × List (List UInt8) × Ending
  | v, _, [] => (v, [], .input ending)
  | v, n, (body, fs) :: rest =>
      match v.turn libs fs body with
      | none => (v, [], .exit)
      | some (v, none) => serve write ending v n rest
      | some (v, some frame) =>
          if write n then
            let served := serve write ending v (n + 1) rest
            (served.1, frame :: served.2.1, served.2.2)
          else (v, [], .outputFailed)

end EditorView

/-! ## One edit, and one batch of them

An edit on the view's text is the edit of the naive store. -/

lemma naive_applyChange (text : Text) (change : ContentChange) :
    NaiveStore.applyChange text change = .ok (editText text change) := by
  obtain ⟨text', hnaive, -⟩ := applyChange_new text change
  rw [hnaive]
  obtain ⟨_ | range, inserted⟩ := change
  · cases hnaive
    rfl
  · simp only [NaiveStore.applyChange, offsetsOf_new, bind, Except.bind] at hnaive
    rw [editText]
    cases hreplace : replaceSlice? Char.utf8Size text (rangeOffsets text range).1
        (rangeOffsets text range).2 inserted with
    | none =>
        rw [hreplace] at hnaive
        cases hnaive
    | some t =>
        rw [hreplace] at hnaive
        cases hnaive
        simp only [hreplace, Option.getD_some]

lemma naive_applyChanges (text : Text) (changes : List ContentChange) :
    changes.foldlM NaiveStore.applyChange text = .ok (changes.foldl editText text) := by
  induction changes generalizing text with
  | nil => rfl
  | cons change changes ih =>
      rw [List.foldlM_cons, naive_applyChange, List.foldl_cons]
      exact ih _

/-- A batch on the mirror leaves the texts the view has. -/
lemma naive_apply_texts [DecidableEq Url] (t : NaiveStore Url) (uri : Url)
    (changes : List ContentChange) : ∃ t', t.apply uri changes = .ok t' ∧
      t'.texts = Function.update t.texts uri
        ((t.texts uri).bind fun text => keepText (changes.foldl editText text)) := by
  rw [NaiveStore.apply]
  cases htext : t.texts uri with
  | none =>
      refine ⟨t, rfl, ?_⟩
      rw [Option.bind_none, ← htext, Function.update_eq_self]
  | some text =>
      simp only [naive_applyChanges, bind, Except.bind, pure, Except.pure]
      exact ⟨_, rfl, rfl⟩

/-! ## The server stands for a view

The relation that every message keeps; reads from disk need the stamps to identify contents. -/

/-- The flags are the phase, the mirror holds the documents of the texts, the index is that of a
file on record, and the selections are those reported. -/
structure Follows (systems : List (FileSystem Path Time)) (s : LspServer Url Path Time)
    (v : EditorView Url Path) : Prop where
  phase : s.InPhase v.phase
  mirrors : ∃ t : NaiveStore Url, Mirrors s.documents t ∧ t.texts = v.texts
  indexed : Indexed systems s.documents
  selections : s.selections = v.selections

lemma follows_new (systems : List (FileSystem Path Time)) :
    Follows systems (LspServer.new : LspServer Url Path Time) EditorView.new where
  phase := LspServer.new_inPhase
  mirrors := ⟨NaiveStore.new, fun _ => rfl, rfl⟩
  indexed := nofun
  selections := rfl

variable {systems : List (FileSystem Path Time)} {s : LspServer Url Path Time}
  {v : EditorView Url Path}

lemma Follows.mirrored (h : Follows systems s v) : s.Mirrored := by
  obtain ⟨t, ht, -⟩ := h.mirrors
  exact ⟨t, ht⟩

/-- The index is as good as before as long as it is not touched. -/
lemma Indexed.of_disk {d d' : DocumentStore Url Path Time} (h : Indexed systems d)
    (hdisk : d'.disk = d.disk) : Indexed systems d' := by
  rw [Indexed, hdisk]
  exact h

/-- The mirror and the view take the same sync message. -/
lemma Follows.sync (h : Follows systems s v) {documents : DocumentStore Url Path Time}
    {t : NaiveStore Url} (hmirrors : Mirrors documents t)
    (hdisk : documents.disk = s.documents.disk) :
    Follows systems { s with documents } { v with texts := t.texts } :=
  ⟨h.phase, ⟨t, hmirrors, rfl⟩, h.indexed.of_disk hdisk, h.selections⟩

/-- Document sync does not touch the index. -/
lemma apply_disk [DecidableEq Url] {d d' : DocumentStore Url Path Time} {uri : Url}
    {changes : List ContentChange} (h : d.apply uri changes = .ok d') : d'.disk = d.disk := by
  rw [DocumentStore.apply] at h
  split at h
  · cases h
    rfl
  · rename_i doc _
    cases hchanges : changes.foldlM Document.applyChange doc with
    | error e =>
        rw [hchanges] at h
        cases h
    | ok doc' =>
        simp only [hchanges, bind, Except.bind, pure, Except.pure] at h
        split_ifs at h <;> cases h <;> rfl

/-- **The text of a selection** is that of the view. -/
lemma Follows.textForRange [DecidableEq Path] [DecidableEq Time] (h : Follows systems s v)
    (hid : StampsIdentify systems) {fs : FileSystem Path Time} (hfs : fs ∈ systems) (uri : Url)
    (path : Path) (range : Range) :
    ∃ documents, s.documents.textForRange fs uri path range
        = .ok (selectedText v.texts fs uri path range, documents) ∧
      documents.docs = s.documents.docs ∧ Indexed systems documents := by
  obtain ⟨t, ht, htexts⟩ := h.mirrors
  rw [DocumentStore.textForRange, selectedText]
  split_ifs
  · exact ⟨_, rfl, rfl, h.indexed⟩
  · rw [ht.textInRange, NaiveStore.textInRange, htexts]
    cases v.texts uri with
    | some text =>
        simp only [textInRange_new, bind, Except.bind, pure, Except.pure, Option.some_or]
        exact ⟨_, rfl, rfl, h.indexed⟩
    | none =>
        obtain ⟨answer, documents, hanswer, hwhole, hindexed⟩ :=
          textFromDisk_spec h.indexed hid hfs path range
        obtain ⟨answer', documents', hanswer', hdocs⟩ :=
          s.documents.textFromDisk_ok fs path range
        rw [hanswer] at hanswer'
        cases hanswer'
        refine ⟨documents, ?_, hdocs, hindexed⟩
        simp only [bind, Except.bind, hanswer, Option.none_or]
        rw [wholeFileRead] at hwhole
        cases hread : fs.readToString path with
        | none =>
            rw [hread] at hwhole
            cases hwhole
            rfl
        | some text =>
            simp only [hread, textInRange_new, Except.ok.injEq] at hwhole
            rw [← hwhole]

section Messages

variable [DecidableEq Url] [DecidableEq Path] [DecidableEq Time] {libs : Libs Path Url}
  {fs : FileSystem Path Time} {request : Request}

/-- **A message that is let through.** -/
lemma handle_follows (libs : Libs Path Url) (h : Follows systems s v)
    (hid : StampsIdentify systems) (hfs : fs ∈ systems) (hphase : v.phase ≠ .fresh)
    (hkind : request.kind ≠ .initializeReq) :
    ∃ s', s.handle libs fs request = .ok ((v.hear libs fs request).1, s') ∧
      Follows systems s' (v.hear libs fs request).2 := by
  obtain ⟨t, ht, htexts⟩ := h.mirrors
  rw [LspServer.handle, EditorView.hear]
  cases hmethod : request.kind with
  | initializeReq => exact absurd hmethod hkind
  | initialized => exact ⟨s, rfl, h⟩
  | didSave => exact ⟨s, rfl, h⟩
  | selectionRange => exact ⟨s, rfl, h⟩
  | shutdown =>
      refine ⟨_, rfl, ⟨⟨?_, rfl⟩, h.mirrors, h.indexed, h.selections⟩⟩
      rw [h.phase.1]
      cases hp : v.phase with
      | fresh => exact absurd hp hphase
      | running => rfl
      | down => rfl
  | didOpen =>
      rw [LspServer.didOpen]
      cases hdecode : LspServer.decode libs.didOpen request with
      | none => exact ⟨s, rfl, h⟩
      | some params =>
          have hput := h.sync (mirrors_put ht params.textDocument.uri params.textDocument.text)
            (by rw [DocumentStore.openDoc]; split_ifs <;> rfl)
          refine ⟨_, rfl, ?_⟩
          rw [← htexts]
          exact hput
  | didChange =>
      rw [LspServer.didChange]
      cases hdecode : LspServer.decode libs.didChange request with
      | none => exact ⟨s, rfl, h⟩
      | some params =>
          obtain ⟨t', happly, htexts'⟩ :=
            naive_apply_texts t params.textDocument.uri params.contentChanges
          obtain ⟨documents, t'', hrun, hrun', hmirrors⟩ :=
            runOp_mirrors ht (.apply params.textDocument.uri params.contentChanges)
          rw [NaiveStore.runOp, happly] at hrun'
          cases hrun'
          rw [DocumentStore.runOp] at hrun
          simp only [hrun, bind, Except.bind, pure, Except.pure]
          refine ⟨_, rfl, ?_⟩
          rw [← htexts, ← htexts']
          exact h.sync hmirrors (apply_disk hrun)
  | didClose =>
      rw [LspServer.didClose]
      cases hdecode : LspServer.decode libs.didClose request with
      | none => exact ⟨s, rfl, h⟩
      | some params =>
          have hclose := h.sync (mirrors_close ht params.textDocument.uri) rfl
          refine ⟨_, rfl, ?_⟩
          rw [← htexts]
          exact hclose
  | codeAction =>
      rw [LspServer.codeAction]
      cases hdecode : LspServer.decode libs.codeAction request with
      | none => exact ⟨s, rfl, h⟩
      | some params =>
          obtain ⟨documents, htext, hdocs, hindexed⟩ := h.textForRange hid hfs
            params.textDocument.uri (LspServer.uriToPath libs params.textDocument.uri) params.range
          simp only [htext, bind, Except.bind, pure, Except.pure]
          refine ⟨_, rfl, h.phase, ⟨t, fun uri => ?_, htexts⟩, hindexed, ?_⟩
          · exact (congrFun hdocs uri).trans (ht uri)
          · simp only [h.selections]
  | _ => cases request.isNotification <;> exact ⟨s, rfl, h⟩

/-- **One message.**  It draws the reply of the view, and the server stands for the view after
it. -/
theorem dispatch_follows (libs : Libs Path Url) (h : Follows systems s v)
    (hid : StampsIdentify systems) (hfs : fs ∈ systems) (request : Request) :
    (s.dispatch libs fs request).1 = (v.take libs fs request).1 ∧
      Follows systems (s.dispatch libs fs request).2 (v.take libs fs request).2 := by
  obtain ⟨hinitialized, hdown⟩ := h.phase
  rw [EditorView.take]
  by_cases hkind : request.kind = .initializeReq
  · rw [LspServer.dispatch_initializeReq hkind, if_pos hkind, hinitialized]
    cases hp : v.phase with
    | fresh =>
        refine ⟨rfl, ⟨rfl, ?_⟩, h.mirrors, h.indexed, h.selections⟩
        rw [hp] at hdown
        exact hdown
    | running => exact ⟨rfl, h⟩
    | down => exact ⟨rfl, h⟩
  · rw [if_neg hkind]
    have hlet : v.phase ≠ .fresh → (s.shutDown = false ∨ request.isNotification = true) →
        (s.dispatch libs fs request).1 = (v.hear libs fs request).1 ∧
          Follows systems (s.dispatch libs fs request).2 (v.hear libs fs request).2 := by
      intro hp hgate
      have hs : s.initialized = true := by
        rw [hinitialized]
        cases hphase : v.phase with
        | fresh => exact absurd hphase hp
        | running => rfl
        | down => rfl
      obtain ⟨s', hhandle, hfollows⟩ := handle_follows libs h hid hfs hp hkind
      rw [LspServer.dispatch_handle hkind hs hgate, hhandle]
      exact ⟨rfl, hfollows⟩
    cases hp : v.phase with
    | fresh =>
        rw [hp] at hinitialized
        rw [LspServer.dispatch_fresh hkind hinitialized]
        exact ⟨rfl, h⟩
    | running =>
        rw [hp] at hdown
        exact hlet (by simp [hp]) (Or.inl hdown)
    | down =>
        rw [hp] at hinitialized hdown
        cases hnotification : request.isNotification with
        | true => exact hlet (by simp [hp]) (Or.inr hnotification)
        | false =>
            rw [LspServer.dispatch_refused hkind hinitialized hdown hnotification]
            exact ⟨rfl, h⟩

/-! ## The loop

By induction on the bodies; both end at the same frame and with the same frames sent. -/

/-- **One turn.** -/
lemma turn_follows (libs : Libs Path Url) (h : Follows systems s v)
    (hid : StampsIdentify systems) (hfs : fs ∈ systems) (body : List UInt8) :
    (s.turn libs fs body = none ∧ v.turn libs fs body = none) ∨
      ∃ s' v' reply, s.turn libs fs body = some (s', reply) ∧
        v.turn libs fs body = some (v', reply) ∧ Follows systems s' v' := by
  rw [LspServer.turn, EditorView.turn]
  cases libs.request body with
  | none => exact Or.inr ⟨s, v, none, rfl, rfl, h⟩
  | some request =>
      by_cases hexit : request.kind = .exit
      · exact Or.inl ⟨if_pos hexit, if_pos hexit⟩
      · obtain ⟨hreply, hfollows⟩ := dispatch_follows libs h hid hfs request
        refine Or.inr ⟨_, _, request.id.bind fun id => (v.take libs fs request).1.frame id, ?_,
          if_neg hexit, hfollows⟩
        rw [← hreply]
        exact if_neg hexit

/-- **All turns.** -/
lemma serve_follows (libs : Libs Path Url) (write : ℕ → Bool) (ending : Except IoError Unit)
    (h : Follows systems s v) (hid : StampsIdentify systems) (n : ℕ)
    {frames : List (List UInt8 × FileSystem Path Time)} (hframes : ∀ f ∈ frames, f.2 ∈ systems) :
    (LspServer.serve libs write ending s n frames).written
        = (v.serve libs write ending n frames).2.1 ∧
      (LspServer.serve libs write ending s n frames).ending
        = (v.serve libs write ending n frames).2.2 ∧
      Follows systems (LspServer.serve libs write ending s n frames).server
        (v.serve libs write ending n frames).1 := by
  induction frames generalizing s v n with
  | nil => exact ⟨rfl, rfl, h⟩
  | cons f frames ih =>
      obtain ⟨body, fs⟩ := f
      obtain ⟨hfs, hrest⟩ := List.forall_mem_cons.mp hframes
      rw [LspServer.serve, EditorView.serve]
      rcases turn_follows libs h hid hfs body with
        ⟨hs, hv⟩ | ⟨s', v', _ | frame, hs, hv, hfollows⟩
      · rw [hs, hv]
        exact ⟨rfl, rfl, h⟩
      · rw [hs, hv]
        exact ih hfollows n hrest
      · rw [hs, hv]
        obtain ⟨hwritten, hending, hserver⟩ := ih hfollows (n + 1) hrest
        dsimp only
        split_ifs
        · exact ⟨congrArg (frame :: ·) hwritten, hending, hserver⟩
        · exact ⟨rfl, rfl, hfollows⟩

/-- **From the outside the server is its view.**  On any input, whichever writes fail, and with
files that come, go and change between messages: as long as matching stamps of one path stand for
the same contents, the same frames go back as from the view, the loop ends alike, and the selections
reported are the same; in the end the server holds what the editor last said of each document. -/
theorem serve_refines_view (libs : Libs Path Url) (write : ℕ → Bool)
    (fs : ℕ → FileSystem Path Time) (input : List UInt8)
    (hid : StampsIdentify
      ((LspServer.withFiles fs 0 (readFrames [] input).1).map Prod.snd)) :
    let served := LspServer.serveLsp libs write fs LspServer.new 0 0 [] input
    let seen := EditorView.new.serve libs write (readFrames [] input).2 0
      (LspServer.withFiles fs 0 (readFrames [] input).1)
    served.written = seen.2.1 ∧ served.ending = seen.2.2 ∧
      served.server.selections = seen.1.selections ∧
      ∀ uri, (served.server.documents.docs uri).map Document.text = seen.1.texts uri := by
  dsimp only
  rw [LspServer.serveLsp_eq_serve]
  obtain ⟨hwritten, hending, hfollows⟩ := serve_follows libs write (readFrames [] input).2
    (follows_new _) hid 0 fun f hf => List.mem_map_of_mem hf
  refine ⟨hwritten, hending, hfollows.selections, fun uri => ?_⟩
  obtain ⟨t, ht, htexts⟩ := hfollows.mirrors
  rw [ht uri, htexts, Option.map_map]
  exact congrFun Option.map_id_fun _

end Messages

/-- The stamps of `savedFiles` tell its versions apart. -/
lemma stampsIdentify_savedFiles {systems : List (FileSystem Text ℕ)}
    (h : ∀ fs ∈ systems, ∃ n, fs = LspServer.savedFiles n) : StampsIdentify systems := by
  intro fs hfs fs' hfs' path f f' hf hf' hmatches
  obtain ⟨n, rfl⟩ := h fs hfs
  obtain ⟨n', rfl⟩ := h fs' hfs'
  simp only [LspServer.savedFiles] at hf hf'
  split_ifs at hf hf'
  cases hf
  cases hf'
  simp only [FileStamp.matchesStamp, Bool.and_eq_true, decide_eq_true_eq, Option.some.injEq]
    at hmatches
  rw [hmatches.1.2]

/-- Of a file that is rewritten each version is selected, and of an open document what it was edited
to. -/
theorem serve_refines_view_editing :
    let served := LspServer.serveLsp textLibs (fun _ => true) LspServer.editingFiles LspServer.new
      0 0 [] LspServer.editingInput
    served.written.length = 5 ∧ served.server.selections.map Selection.text
      = ["1\n".toList, "1\n".toList, "2\n".toList, "1\nwo".toList] := by
  intro served
  have hid : StampsIdentify ((LspServer.withFiles LspServer.editingFiles 0
      (readFrames [] LspServer.editingInput).1).map Prod.snd) := by
    refine stampsIdentify_savedFiles fun fs hfs => ?_
    obtain ⟨f, hf, rfl⟩ := List.mem_map.mp hfs
    obtain ⟨x, -, rfl⟩ := List.mem_map.mp hf
    exact ⟨_, rfl⟩
  obtain ⟨hwritten, -, hselections, -⟩ := serve_refines_view textLibs (fun _ => true)
    LspServer.editingFiles LspServer.editingInput hid
  rw [LspServer.readFrames_editingInput, LspServer.withFiles_editing] at hwritten hselections
  constructor
  · rw [hwritten]
    decide +kernel
  · rw [hselections]
    decide +kernel

end Connect
