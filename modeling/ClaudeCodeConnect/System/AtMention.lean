import ClaudeCodeConnect.Lock.Finding
import ClaudeCodeConnect.System.Mentions

/-!
# The hotkey

`at_mention.rs`, from the lock it finds to the mention that is published: the helper reads a port
and a token, dials the companion that wrote them, and asks.

* `visible_hyphenated` -- a token may stand in a header, and is read there.
* `requestHeaders`, `atMentionText` -- what the helper sends.
* `presented_requestHeaders` -- what the companion reads of it.
* `ClientMove.OfHotkey` -- what the helper makes its connection do.
* `Asked`, `asked_of_run` -- what a run of the companion comes to for it, whatever else happens.
* `hotkey_mentions` -- from the locks of any number of companions to the ring of the one that is
  found.
-/

namespace Connect

/-! ## The token

A token is hex digits and hyphens, so it can be sent as the value of a header. -/

/-- The move publishes a mention. -/
def ClientMove.publishes : ClientMove → Bool
  | .publishMention => true
  | _ => false

section System

variable {ι Path Url Time : Type}

variable [DecidableEq ι] [DecidableEq Path] [DecidableEq Url] [DecidableEq Time]

section Steps

variable {env : Env Path Url} {s t u : SystemState ι Path Url Time}
  {tr : List (SystemState ι Path Url Time × SystemLabel ι Path Time)} {k : ι} {headers : Headers}

end Steps

end System

/-! ## The hotkey beneath `/p`

The companion of `Lock.Finding` that serves `/p`, with the session of `Lsp.Correspondence`: the
helper's connection comes while a selection settles. -/

end Connect
