import ClaudeCodeConnect.Lsp.DocumentStore

/-!
# The mirror refines a store of plain texts

What the mirror is for, with nothing of how it does it: `NaiveStore` keeps the text of each open
document and no index.  Every position is resolved against a line table recomputed from scratch, and
the cap on what is mirrored is carried by the type.

* `Mirrors` -- the simulation relation: each mirrored document is the document of the naive text.
  It says at once that the texts agree and that the patched index is the recomputed one.
* `applyChange_new`, `runOp_mirrors` -- one change, one operation.
* `store_refines_naive` -- any sequence of operations: neither store panics, and they cannot be told
  apart.
-/

namespace Connect

variable {Url Path Time : Type}

/-! ## The naive store

What the mirror is for: texts, and every range resolved against a table computed for the very text.
The cap is a field, so a store over it cannot be built. -/

/-- Texts by URI, none over the cap. -/
structure NaiveStore (Url : Type) where
  texts : Url → Option Text
  capped : ∀ uri text, texts uri = some text → Text.len text ≤ maxCachedBytes

namespace NaiveStore

/-- Nothing open. -/
def new : NaiveStore Url := ⟨fun _ => none, by simp⟩

/-- One change, its range resolved against a table computed for this very text. -/
def applyChange (text : Text) (change : ContentChange) : Checked Text :=
  match change.range with
  | none => .ok change.text
  | some range => do
      let (start, stop) ← (Document.new text).offsetsOf range
      orPanic .charBoundary (replaceSlice? Char.utf8Size text start stop change.text)

variable [DecidableEq Url]

/-- Keep this text, or nothing when it is over the cap. -/
def put (t : NaiveStore Url) (uri : Url) (text : Text) : NaiveStore Url where
  texts := Function.update t.texts uri
    (if Text.len text > maxCachedBytes then none else some text)
  capped := by
    intro uri' text' h
    by_cases huri : uri' = uri
    · subst huri
      rw [Function.update_self] at h
      split_ifs at h with hlen
      cases h
      omega
    · rw [Function.update_of_ne huri] at h
      exact t.capped uri' text' h

/-- Forget the text. -/
def close (t : NaiveStore Url) (uri : Url) : NaiveStore Url where
  texts := Function.update t.texts uri none
  capped := by
    intro uri' text' h
    by_cases huri : uri' = uri
    · subst huri
      simp at h
    · rw [Function.update_of_ne huri] at h
      exact t.capped uri' text' h

/-- Every change is made to the text as it then is; the cap is looked at once, at the end. -/
def apply (t : NaiveStore Url) (uri : Url) (changes : List ContentChange) :
    Checked (NaiveStore Url) :=
  match t.texts uri with
  | none => .ok t
  | some text => do return t.put uri (← changes.foldlM applyChange text)

/-- The range of a text, by a table computed for it then and there. -/
def textInRange (t : NaiveStore Url) (uri : Url) (range : Range) : Checked (Option Text) :=
  match t.texts uri with
  | none => .ok none
  | some text => do return some (← (Document.new text).textInRange range)

end NaiveStore

/-! ## One document

A document is the one `Document::new` makes of its text, whatever edits led there. -/

/-- **One change.**  On a document with the recomputed index, a change leaves a document with the
recomputed index, of the text the naive change computes. -/
theorem applyChange_new (text : Text) (change : ContentChange) :
    ∃ text', NaiveStore.applyChange text change = .ok text' ∧
      (Document.new text).applyChange change = .ok (Document.new text') := by
  rcases change with ⟨_ | range, inserted⟩
  · exact ⟨inserted, rfl, rfl⟩
  · obtain ⟨hs, he, hle⟩ := boundary_rangeOffsets text range
    obtain ⟨a, m, b, htext, ha, hm⟩ := exists_slice_of_boundaries Text.utf8Size_pos hs he hle
    have hreplace : replaceSlice? Char.utf8Size text (rangeOffsets text range).1
        (rangeOffsets text range).2 inserted = some (a ++ inserted ++ b) :=
      (replaceSlice?_eq_some_iff Text.utf8Size_pos).mpr ⟨a, m, b, htext, ha, hm, rfl⟩
    refine ⟨a ++ inserted ++ b, ?_, ?_⟩
    · simp only [NaiveStore.applyChange, offsetsOf_new, bind, Except.bind, hreplace, orPanic_some]
    · have hsplice := splice_new a m b inserted
      have ha' : Text.len a = (rangeOffsets text range).1 := ha
      have hm' : (rangeOffsets text range).1 + Text.len m = (rangeOffsets text range).2 := hm
      rw [← htext, ha', hm'] at hsplice
      simp only [Document.applyChange, offsetsOf_new, bind, Except.bind, hsplice]

/-- A batch: each change resolved against the document the one before it left. -/
theorem applyChanges_new (text : Text) (changes : List ContentChange) :
    ∃ text', changes.foldlM NaiveStore.applyChange text = .ok text' ∧
      changes.foldlM Document.applyChange (Document.new text) = .ok (Document.new text') := by
  induction changes generalizing text with
  | nil => exact ⟨text, rfl, rfl⟩
  | cons change changes ih =>
      obtain ⟨text', hn, hd⟩ := applyChange_new text change
      obtain ⟨text'', hn', hd'⟩ := ih text'
      refine ⟨text'', ?_, ?_⟩
      · rw [List.foldlM_cons, hn]
        exact hn'
      · rw [List.foldlM_cons, hd]
        exact hd'

/-- Any two offsets a range names can be spliced at: boundaries of the text, in order, inside it. -/
lemma splice_safe (text : Text) (range : Range) (inserted : Text) :
    ∃ start stop, (Document.new text).offsetsOf range = .ok (start, stop) ∧
      start ≤ stop ∧ stop ≤ Text.len text ∧
      IsBoundary Char.utf8Size text start ∧ IsBoundary Char.utf8Size text stop ∧
      ∃ d, (Document.new text).splice start stop inserted = .ok d := by
  obtain ⟨hs, he, hle⟩ := boundary_rangeOffsets text range
  obtain ⟨text', -, hd⟩ := applyChange_new text ⟨some range, inserted⟩
  simp only [Document.applyChange, offsetsOf_new, bind, Except.bind] at hd
  exact ⟨_, _, offsetsOf_new text range, hle, he.le, hs, he, _, hd⟩

/-! ## The simulation relation

The two stores have the same texts, and the mirror's tables are right. -/

/-- Each mirrored document is the document of the naive text. -/
def Mirrors (s : DocumentStore Url Path Time) (t : NaiveStore Url) : Prop :=
  ∀ uri, s.docs uri = (t.texts uri).map Document.new

lemma Mirrors.textInRange {s : DocumentStore Url Path Time} {t : NaiveStore Url}
    (h : Mirrors s t) (uri : Url) (range : Range) :
    s.textInRange uri range = t.textInRange uri range := by
  rw [DocumentStore.textInRange, NaiveStore.textInRange, h uri]
  cases t.texts uri <;> rfl

/-- Reading a range of a document neither panics nor touches the mirror. -/
lemma Mirrors.textForRange_ok [DecidableEq Path] [DecidableEq Time]
    {d : DocumentStore Url Path Time} {t : NaiveStore Url} (h : Mirrors d t)
    (fs : FileSystem Path Time) (uri : Url) (path : Path) (range : Range) :
    ∃ answer d', d.textForRange fs uri path range = .ok (answer, d') ∧ d'.docs = d.docs := by
  rw [DocumentStore.textForRange]
  split_ifs
  · exact ⟨[], d, rfl, rfl⟩
  · rw [h.textInRange, NaiveStore.textInRange]
    cases t.texts uri with
    | none => exact d.textFromDisk_ok fs path range
    | some text =>
        simp only [textInRange_new, bind, Except.bind, pure, Except.pure]
        exact ⟨_, d, rfl, rfl⟩

/-! ## Operations, and sequences of them

Each operation keeps the relation and panics in neither store, and so does any sequence. -/

/-- What the LSP side does to the store. -/
inductive StoreOp (Url : Type)
  | openDoc (uri : Url) (text : Text)
  | apply (uri : Url) (changes : List ContentChange)
  | close (uri : Url)

variable [DecidableEq Url]

/-- An operation on the store of the source. -/
def DocumentStore.runOp (s : DocumentStore Url Path Time) :
    StoreOp Url → Checked (DocumentStore Url Path Time)
  | .openDoc uri text => .ok (s.openDoc uri text)
  | .apply uri changes => s.apply uri changes
  | .close uri => .ok (s.close uri)

/-- The same operation on the naive store. -/
def NaiveStore.runOp (t : NaiveStore Url) : StoreOp Url → Checked (NaiveStore Url)
  | .openDoc uri text => .ok (t.put uri text)
  | .apply uri changes => t.apply uri changes
  | .close uri => .ok (t.close uri)

@[simp] lemma runOp_openDoc (s : DocumentStore Url Path Time) (uri : Url) (text : Text) :
    s.runOp (.openDoc uri text) = .ok (s.openDoc uri text) := rfl

@[simp] lemma runOp_close (s : DocumentStore Url Path Time) (uri : Url) :
    s.runOp (.close uri) = .ok (s.close uri) := rfl

lemma mirrors_put {s : DocumentStore Url Path Time} {t : NaiveStore Url} (h : Mirrors s t)
    (uri : Url) (text : Text) : Mirrors (s.openDoc uri text) (t.put uri text) := by
  intro uri'
  by_cases huri : uri' = uri
  · subst huri
    by_cases hlen : Text.len text > maxCachedBytes <;>
      simp [DocumentStore.openDoc, NaiveStore.put, hlen]
  · by_cases hlen : Text.len text > maxCachedBytes <;>
      simp [DocumentStore.openDoc, NaiveStore.put, hlen, Function.update_of_ne huri, h uri']

lemma mirrors_close {s : DocumentStore Url Path Time} {t : NaiveStore Url} (h : Mirrors s t)
    (uri : Url) : Mirrors (s.close uri) (t.close uri) := by
  intro uri'
  by_cases huri : uri' = uri
  · subst huri
    simp [DocumentStore.close, NaiveStore.close]
  · simp [DocumentStore.close, NaiveStore.close, Function.update_of_ne huri, h uri']

/-- A batch ends as if its last text had been opened. -/
lemma apply_eq_openDoc {s : DocumentStore Url Path Time} {uri : Url} {text text' : Text}
    {changes : List ContentChange} (hs : s.docs uri = some (Document.new text))
    (hd : changes.foldlM Document.applyChange (Document.new text) = .ok (Document.new text')) :
    s.apply uri changes = .ok (s.openDoc uri text') := by
  by_cases hlen : Text.len text' > maxCachedBytes <;>
    simp only [DocumentStore.apply, hs, hd, bind, Except.bind, pure, Except.pure,
      DocumentStore.openDoc, Document.new_text, hlen, if_true, if_false]

/-- **One operation.** -/
theorem runOp_mirrors {s : DocumentStore Url Path Time} {t : NaiveStore Url} (h : Mirrors s t)
    (op : StoreOp Url) :
    ∃ s' t', s.runOp op = .ok s' ∧ t.runOp op = .ok t' ∧ Mirrors s' t' := by
  cases op with
  | openDoc uri text => exact ⟨_, _, rfl, rfl, mirrors_put h uri text⟩
  | close uri => exact ⟨_, _, rfl, rfl, mirrors_close h uri⟩
  | apply uri changes =>
      have huri := h uri
      cases ht : t.texts uri with
      | none =>
          rw [ht, Option.map_none] at huri
          refine ⟨s, t, ?_, ?_, h⟩
          · simp only [DocumentStore.runOp, DocumentStore.apply, huri]
          · simp only [NaiveStore.runOp, NaiveStore.apply, ht]
      | some text =>
          rw [ht, Option.map_some] at huri
          obtain ⟨text', hn, hd⟩ := applyChanges_new text changes
          refine ⟨_, t.put uri text', apply_eq_openDoc huri hd, ?_, mirrors_put h uri text'⟩
          simp only [NaiveStore.runOp, NaiveStore.apply, ht, hn, bind, Except.bind, pure,
            Except.pure]

/-- Any sequence of operations. -/
theorem runOps_mirrors {s : DocumentStore Url Path Time} {t : NaiveStore Url} (h : Mirrors s t)
    (ops : List (StoreOp Url)) :
    ∃ s' t', ops.foldlM DocumentStore.runOp s = .ok s' ∧ ops.foldlM NaiveStore.runOp t = .ok t' ∧
      Mirrors s' t' := by
  induction ops generalizing s t with
  | nil => exact ⟨s, t, rfl, rfl, h⟩
  | cons op ops ih =>
      obtain ⟨s', t', hs, ht, h'⟩ := runOp_mirrors h op
      obtain ⟨s'', t'', hs', ht', h''⟩ := ih h'
      refine ⟨s'', t'', ?_, ?_, h''⟩
      · rw [List.foldlM_cons, hs]
        exact hs'
      · rw [List.foldlM_cons, ht]
        exact ht'

/-- **The mirror cannot be told from a store of plain texts.**  For any sequence of operations from
the empty stores: neither panics; the same URIs are mirrored with the same texts; every
`text_in_range` answers the same; each mirrored document has the index computed from its text and is
within the cap; and in the middle of any further batch the next splice is between two boundaries of
the text, in order and inside it, and does not panic. -/
theorem store_refines_naive (ops : List (StoreOp Url)) :
    ∃ (s : DocumentStore Url Path Time) (t : NaiveStore Url),
      ops.foldlM DocumentStore.runOp DocumentStore.new = .ok s ∧
      ops.foldlM NaiveStore.runOp NaiveStore.new = .ok t ∧
      (∀ uri, (s.docs uri).map Document.text = t.texts uri) ∧
      (∀ uri range, s.textInRange uri range = t.textInRange uri range ∧
        ∃ answer, s.textInRange uri range = .ok answer) ∧
      (∀ uri d, s.docs uri = some d →
        d.lineStarts = computeLineStarts d.text ∧ Text.len d.text ≤ maxCachedBytes) ∧
      (∀ uri d (changes : List ContentChange) range inserted, s.docs uri = some d →
        ∃ d' start stop, changes.foldlM Document.applyChange d = .ok d' ∧
          d'.offsetsOf range = .ok (start, stop) ∧ start ≤ stop ∧ stop ≤ Text.len d'.text ∧
          IsBoundary Char.utf8Size d'.text start ∧ IsBoundary Char.utf8Size d'.text stop ∧
          ∃ d'', d'.splice start stop inserted = .ok d'') := by
  have hnew : Mirrors (DocumentStore.new : DocumentStore Url Path Time) NaiveStore.new :=
    fun _ => rfl
  obtain ⟨s, t, hs, ht, h⟩ := runOps_mirrors hnew ops
  have hdoc : ∀ uri d, s.docs uri = some d → ∃ text, t.texts uri = some text ∧
      d = Document.new text := by
    intro uri d hd
    rw [h uri, Option.map_eq_some_iff] at hd
    obtain ⟨text, htext, rfl⟩ := hd
    exact ⟨text, htext, rfl⟩
  refine ⟨s, t, hs, ht, ?_, ?_, ?_, ?_⟩
  · intro uri
    rw [h uri]
    cases t.texts uri <;> rfl
  · intro uri range
    refine ⟨h.textInRange uri range, ?_⟩
    rw [h.textInRange, NaiveStore.textInRange]
    cases t.texts uri with
    | none => exact ⟨_, rfl⟩
    | some text =>
        refine ⟨some (rangeText text range), ?_⟩
        simp only [textInRange_new, bind, Except.bind, pure, Except.pure]
  · intro uri d hd
    obtain ⟨text, htext, rfl⟩ := hdoc uri d hd
    exact ⟨rfl, t.capped uri text htext⟩
  · intro uri d changes range inserted hd
    obtain ⟨text, -, rfl⟩ := hdoc uri d hd
    obtain ⟨text', -, hd'⟩ := applyChanges_new text changes
    obtain ⟨start, stop, hsafe⟩ := splice_safe text' range inserted
    exact ⟨_, start, stop, hd', hsafe⟩

end Connect
