import ClaudeCodeConnect.Core.BroadcastRing
import ClaudeCodeConnect.Core.WatchChannel
import ClaudeCodeConnect.Lsp.Document

/-!
# Selections, mentions and the bus they travel on

The types of `selection.rs`, and `EventBus`: a ring of events that every connection reads, next to a
cell with the selection published last.

`publish_selection` writes the cell and then the ring.  The two are separate steps for everyone else
(`replaceLatest`, `sendSelection`), so they are separate functions here.  `PathBuf` and `Url` are
parameters, since selections are only ever compared.
-/

namespace Connect

/-- The live selection in some buffer. -/
structure Selection (Path Url : Type) where
  /-- Absolute filesystem path, percent-decoded. -/
  path : Path
  /-- The document URI as Zed sent it. -/
  uri : Url
  /-- 0-based, UTF-16 columns, as LSP counts. -/
  range : Range
  /-- The selected text, from the buffer mirror or from disk. -/
  text : Text
  deriving DecidableEq, Repr

/-- An `@`-mention of a file, optionally narrowed to a line range (0-based). -/
structure Mention (Path : Type) where
  path : Path
  /-- `none` mentions the whole file. -/
  lines : Option (UInt32 × UInt32)
  deriving DecidableEq, Repr

/-- Everything the CLI side is told about. -/
inductive Event (Path Url : Type)
  | selectionChanged (selection : Selection Path Url)
  | atMentioned (mention : Mention Path)
  deriving DecidableEq, Repr

variable {Path Url : Type}

/-- A bare cursor: nothing selected. -/
def Selection.isEmpty (s : Selection Path Url) : Bool := s.range.start == s.range.stop

/-- `Mention::of`: the lines of a selection, or the whole file for a bare cursor. -/
def Mention.of (s : Selection Path Url) : Mention Path where
  path := s.path
  lines := if s.isEmpty then none else some (s.range.start.line, s.range.stop.line)

/-- `EventBus`: from the editor side to every connection, and the one selection a late client is
told about on connect. -/
structure EventBus (Path Url : Type) where
  events : Ring (Event Path Url)
  latestCell : Watch (Option (Selection Path Url))

namespace EventBus

/-- `EventBus::new`. -/
def new (capacity : ℕ) : EventBus Path Url := ⟨Ring.channel capacity, Watch.channel none⟩

/-- `EventBus::subscribe`. -/
def subscribe (bus : EventBus Path Url) : ℕ := bus.events.subscribe

/-- The most recent published selection, if any. -/
def latest (bus : EventBus Path Url) : Option (Selection Path Url) := bus.latestCell.value

/-- The first step of `publish_selection`. -/
def replaceLatest (bus : EventBus Path Url) (s : Selection Path Url) : EventBus Path Url :=
  { bus with latestCell := bus.latestCell.sendReplace (some s) }

/-- The second step of `publish_selection`. -/
def sendSelection (bus : EventBus Path Url) (s : Selection Path Url) : EventBus Path Url :=
  { bus with events := bus.events.send (.selectionChanged s) }

/-- `publish_selection`, both steps at once. -/
def publishSelection (bus : EventBus Path Url) (s : Selection Path Url) : EventBus Path Url :=
  (bus.replaceLatest s).sendSelection s

/-- `publish_mention`. -/
def publishMention (bus : EventBus Path Url) (m : Mention Path) : EventBus Path Url :=
  { bus with events := bus.events.send (.atMentioned m) }

@[simp] lemma latest_replaceLatest (bus : EventBus Path Url) (s : Selection Path Url) :
    (bus.replaceLatest s).latest = some s := rfl

@[simp] lemma latest_sendSelection (bus : EventBus Path Url) (s : Selection Path Url) :
    (bus.sendSelection s).latest = bus.latest := rfl

@[simp] lemma latest_publishMention (bus : EventBus Path Url) (m : Mention Path) :
    (bus.publishMention m).latest = bus.latest := rfl

@[simp] lemma events_replaceLatest (bus : EventBus Path Url) (s : Selection Path Url) :
    (bus.replaceLatest s).events = bus.events := rfl

@[simp] lemma events_sendSelection (bus : EventBus Path Url) (s : Selection Path Url) :
    (bus.sendSelection s).events = bus.events.send (.selectionChanged s) := rfl

@[simp] lemma events_publishMention (bus : EventBus Path Url) (m : Mention Path) :
    (bus.publishMention m).events = bus.events.send (.atMentioned m) := rfl

end EventBus

/-- The selections and the mention that concrete runs are about: four columns on a line of the only
file there is, and that file as a whole. -/
def onLine (line : UInt32) : Selection Unit Unit := ⟨(), (), ⟨⟨line, 0⟩, ⟨line, 4⟩⟩, []⟩

/-- The whole file, mentioned. -/
def wholeFile : Mention Unit := ⟨(), none⟩

/-! ## The selections and the mentions among some events

The ring carries both, and most of what is said of it concerns one kind only. -/

/-- The selection, if the event is one. -/
def Event.selection? : Event Path Url → Option (Selection Path Url)
  | .selectionChanged s => some s
  | .atMentioned _ => none

/-- The mention, if the event is one. -/
def Event.mention? : Event Path Url → Option (Mention Path)
  | .selectionChanged _ => none
  | .atMentioned m => some m

/-- The selections, in order. -/
def selectionsOf (events : List (Event Path Url)) : List (Selection Path Url) :=
  events.filterMap Event.selection?

/-- The mentions, in order. -/
def mentionsOf (events : List (Event Path Url)) : List (Mention Path) :=
  events.filterMap Event.mention?

@[simp] lemma selectionsOf_nil : selectionsOf ([] : List (Event Path Url)) = [] := rfl

@[simp] lemma mentionsOf_nil : mentionsOf ([] : List (Event Path Url)) = [] := rfl

@[simp] lemma selectionsOf_append (xs ys : List (Event Path Url)) :
    selectionsOf (xs ++ ys) = selectionsOf xs ++ selectionsOf ys := List.filterMap_append

@[simp] lemma mentionsOf_append (xs ys : List (Event Path Url)) :
    mentionsOf (xs ++ ys) = mentionsOf xs ++ mentionsOf ys := List.filterMap_append

@[simp] lemma selectionsOf_cons (e : Event Path Url) (es : List (Event Path Url)) :
    selectionsOf (e :: es) = e.selection?.toList ++ selectionsOf es := by
  cases e <;> rfl

@[simp] lemma mentionsOf_cons (e : Event Path Url) (es : List (Event Path Url)) :
    mentionsOf (e :: es) = e.mention?.toList ++ mentionsOf es := by
  cases e <;> rfl

@[simp] lemma Event.selection?_selectionChanged (s : Selection Path Url) :
    (Event.selectionChanged s).selection? = some s := rfl

@[simp] lemma Event.selection?_atMentioned (m : Mention Path) :
    (Event.atMentioned m : Event Path Url).selection? = none := rfl

@[simp] lemma Event.mention?_selectionChanged (s : Selection Path Url) :
    (Event.selectionChanged s).mention? = none := rfl

@[simp] lemma Event.mention?_atMentioned (m : Mention Path) :
    (Event.atMentioned m : Event Path Url).mention? = some m := rfl

end Connect
