import ClaudeCodeConnect.System.EndToEnd
import ClaudeCodeConnect.System.Progress

/-!
# Every mention reaches every client

A mention request is handled in two steps with anything in between, and every client forwards what
is published at its own pace.  None of it is lost on the way.

* `mention_published` -- a client that is about to publish a mention does, before it does anything
  else.
* `Since`, `since_of_run` -- a connection that does not lag forwards all that is sent from some
  moment on.
* `mentions_reach_clients` -- both, over a run.
-/

namespace Connect

variable {ι Path Url Time : Type} [DecidableEq ι] [DecidableEq Path] [DecidableEq Url]
  [DecidableEq Time] {env : Env Path Url} {s t u v : SystemState ι Path Url Time}
  {l : SystemLabel ι Path Time} {tr : List (SystemState ι Path Url Time × SystemLabel ι Path Time)}

/-! ## It is published

A mention that a connection owes is published by it, or the connection is gone. -/

lemma ring_grows_of_run (h : (systemMachine ι Time env).Run s tr t) :
    s.tracker.bus.events.sent <+: t.tracker.bus.events.sent :=
  h.preserves (fun t => s.tracker.bus.events.sent <+: t.tracker.bus.events.sent) (fun _ _ => True)
    (fun _ _ _ hprefix _ hl => hprefix.trans (ring_grows hl)) List.prefix_rfl fun _ _ => trivial

/-- The mention is still to be published, or it is on the ring. -/
lemma mention_published (h : (systemMachine ι Time env).Run s tr t) {i : ι} {m : Mention Path}
    (hm : (s.clients i).mentioning = some m) :
    (t.clients i).mentioning = some m ∨ ∃ more,
      t.tracker.bus.events.sent = s.tracker.bus.events.sent ++ more ∧ .atMentioned m ∈ more := by
  induction h with
  | nil => exact Or.inl hm
  | @snoc u t tr l hrun hl ih =>
      rcases ih with hu | ⟨more, hmore, hmem⟩
      · rcases (systemMoved_of_step hl).client_cases i with ⟨heq, -⟩ | ⟨move, ls, -, hmoved, hexec⟩
        · exact Or.inl (heq ▸ hu)
        · rcases hmoved.mentions with ⟨-, hsame⟩ | ⟨-, hnone, -⟩ | ⟨m', rfl, hm', -⟩
          · exact Or.inl (hsame.trans hu)
          · rw [hu] at hnone
            cases hnone
          · obtain rfl : m = m' := Option.some.inj (hu.symm.trans hm')
            have hstep : u.tracker.step (.publishMention m) = some t.tracker :=
              (Machine.exec_singleton _ _).symm.trans hexec
            obtain ⟨more, hmore⟩ := ring_grows_of_run hrun
            refine Or.inr ⟨more ++ [.atMentioned m], ?_, by simp⟩
            simp only [TrackerState.step] at hstep
            split_ifs at hstep
            rw [← Option.some.inj hstep, EventBus.events_publishMention, Ring.send_sent, ← hmore,
              List.append_assoc]
      · obtain ⟨new, hnew⟩ := ring_grows hl
        refine Or.inr ⟨more ++ new, ?_, List.mem_append_left _ hmem⟩
        rw [← hnew, hmore, List.append_assoc]

/-! ## It is forwarded

What was sent since a connection began to serve is forwarded to it, in order, or it has lagged. -/

/-- Where a connection has come to that was at `c` once, if it did not lag: it has sent what it had
then, the replay if that was still to come, and the ring from its place on. -/
inductive Since (c : Conn Path Url) (ring : List (Event Path Url)) (d : Conn Path Url) : Prop
  | subscribed : d.phase = .subscribed → d.next = c.next → d.frames = c.frames → Since c ring d
  | serving (replay : List (Event Path Url)) : d.phase = .serving → c.next ≤ d.next →
      d.frames = c.frames ++ replay ++ (ring.take d.next).drop c.next → Since c ring d
  | closed : d.phase = .closed → Since c ring d

omit [DecidableEq Path] [DecidableEq Url] in
lemma Since.refl {c : Conn Path Url} (h : c.listening) (ring : List (Event Path Url)) :
    Since c ring c := by
  rcases h with hphase | hphase
  · exact .subscribed hphase rfl rfl
  · refine .serving [] hphase (Nat.le_refl _) ?_
    rw [List.append_nil, List.drop_eq_nil_of_le (List.length_take_le _ _), List.append_nil]

omit [DecidableEq Path] [DecidableEq Url] in
/-- The ring grows past every place on it. -/
lemma Since.grow {c d : Conn Path Url} {ring more : List (Event Path Url)} (h : Since c ring d)
    (hnext : d.next ≤ ring.length) : Since c (ring ++ more) d := by
  cases h with
  | subscribed hphase hsame hframes => exact .subscribed hphase hsame hframes
  | serving replay hphase hle hframes =>
      refine .serving replay hphase hle ?_
      rw [List.take_append_of_le_length hnext]
      exact hframes
  | closed hphase => exact .closed hphase

omit [DecidableEq Path] [DecidableEq Url] in
/-- **One step of the connection.** -/
lemma Since.step {c d d' : Conn Path Url} {bus : EventBus Path Url} {m : ConnMove}
    (h : Since c bus.events.sent d) (hd : d.step bus m = some d')
    (hlag : d'.laggedBefore = false) : Since c bus.events.sent d' := by
  rcases conn_step_cases hd with
    ⟨hphase, -, rfl⟩ | ⟨hphase, -, rfl⟩ | ⟨hphase, -, e, he, -, rfl⟩ | ⟨-, -, -, rfl⟩ | ⟨-, rfl⟩
  · cases h with
    | subscribed hphase' => simp [hphase] at hphase'
    | serving _ hphase' => simp [hphase] at hphase'
    | closed hphase' => simp [hphase] at hphase'
  · cases h with
    | subscribed _ hsame hframes =>
        refine .serving (bus.latest.map Event.selectionChanged).toList rfl (Nat.le_of_eq hsame.symm)
          ?_
        have hnil : (bus.events.sent.take d.next).drop c.next = [] :=
          List.drop_eq_nil_of_le (hsame ▸ List.length_take_le _ _)
        simp only [hframes, hnil, List.append_nil]
    | serving _ hphase' => simp [hphase] at hphase'
    | closed hphase' => simp [hphase] at hphase'
  · cases h with
    | subscribed hphase' => simp [hphase] at hphase'
    | serving replay _ hle hframes =>
        refine .serving replay hphase (Nat.le_succ_of_le hle) ?_
        obtain ⟨hlt, -⟩ := List.getElem?_eq_some_iff.mp he
        have hlength : c.next ≤ (bus.events.sent.take d.next).length := by
          rw [List.length_take]
          omega
        simp only [hframes, List.take_add_one, he, Option.toList_some,
          List.drop_append_of_le_length hlength, List.append_assoc]
    | closed hphase' => simp [hphase] at hphase'
  · cases hlag
  · exact .closed rfl

/-- What has lagged once says so. -/
lemma lagged_step (hl : (systemMachine ι Time env).step s l = some t) (i : ι)
    (h : (t.clients i).conn.laggedBefore = false) : (s.clients i).conn.laggedBefore = false := by
  rcases conn_follows hl i with heq | ⟨m, hm⟩
  · rwa [heq] at h
  · rcases conn_step_cases hm with
      ⟨-, -, heq⟩ | ⟨-, -, heq⟩ | ⟨-, -, e, -, -, heq⟩ | ⟨-, -, -, heq⟩ | ⟨-, heq⟩
    all_goals rw [heq] at h
    · exact h
    · exact h
    · exact h
    · cases h
    · exact h

/-- **A run.**  From the moment it listens, a connection that does not lag forwards everything. -/
lemma since_of_run {i : ι} (h : (systemMachine ι Time env).Run s tr t) (hs : DeliveryInv s.delivery)
    (hi : (s.clients i).conn.listening) (hlag : (t.clients i).conn.laggedBefore = false) :
    Since (s.clients i).conn t.tracker.bus.events.sent (t.clients i).conn := by
  refine (h.preserves (fun t => DeliveryInv t.delivery ∧
    ((t.clients i).conn.laggedBefore = false →
      Since (s.clients i).conn t.tracker.bus.events.sent (t.clients i).conn))
    (fun _ _ => True) ?_ ⟨hs, fun _ => Since.refl hi _⟩ fun _ _ => trivial).2 hlag
  rintro u l v ⟨hdelivery, hsince⟩ - hl
  refine ⟨deliveryInv_follows hdelivery hl, fun hlagged => ?_⟩
  have hu := hsince (lagged_step hl i hlagged)
  obtain ⟨more, hmore⟩ := ring_grows hl
  rw [← hmore]
  have hnext : (u.clients i).conn.next ≤ u.tracker.bus.events.sent.length :=
    (hdelivery.2 i).next_le
  rcases conn_follows hl i with heq | ⟨m, hm⟩
  · rw [heq]
    exact hu.grow hnext
  · exact (hu.step hm hlagged).grow ((hdelivery.2 i).step hm).next_le

/-! ## Both

From the request of one client to the frame of another. -/

/-- A write that failed is not forgotten. -/
lemma writeFailed_of_run (h : (systemMachine ι Time env).Run s tr t) (i : ι)
    (ht : (t.clients i).writeFailed = false) : (s.clients i).writeFailed = false := by
  induction h with
  | nil => exact ht
  | @snoc u t tr l _ hl ih =>
      refine ih ?_
      rcases (systemMoved_of_step hl).client_cases i with ⟨heq, -⟩ | ⟨move, ls, -, hmoved, -⟩
      · rwa [heq] at ht
      · exact hmoved.writeFailed ht

omit [DecidableEq ι] [DecidableEq Path] [DecidableEq Url] [DecidableEq Time] in
/-- A request that is taken leaves the client about to publish what it found. -/
lemma ClientMoved.requested {c d : Client Path Url} {bus : EventBus Path Url} {cancelled : Bool}
    {text : Text} {written : Bool} {ls : List (TrackerLabel Path Url)}
    (h : ClientMoved env c bus cancelled (.message (.ok (.text text)) written) d ls)
    (hrequest : mentionRequested env.parse text = true) :
    d.mentioning = bus.latest.map Mention.of := by
  cases h with
  | request => rfl
  | hear _ hnot => simp [hrequest] at hnot
  | unanswered _ hnot => simp [hrequest] at hnot
  | ignore _ hnot => exact absurd rfl (hnot text)
  | leave _ hmove => simp at hmove

/-- **A mention that is asked for is published**: the client that asked for it is still to publish
it, or it is on the ring, after what was there. -/
lemma request_published {i : ι} {text : Text} {written : Bool}
    (hrequest : mentionRequested env.parse text = true)
    (hl : (systemMachine ι Time env).step u (.client i (.message (.ok (.text text)) written)) =
      some v) {x : Selection Path Url} (hx : u.tracker.bus.latest = some x)
    (h : (systemMachine ι Time env).Run v tr t) :
    (t.clients i).mentioning = some (Mention.of x) ∨ ∃ more,
      t.tracker.bus.events.sent = u.tracker.bus.events.sent ++ more ∧
        .atMentioned (Mention.of x) ∈ more := by
  have hmentioning : (v.clients i).mentioning = some (Mention.of x) := by
    cases systemMoved_of_step hl with
    | stop hnot => exact absurd rfl (hnot _ _)
    | client hmoved _ =>
        simp only [Function.update_self]
        rw [hmoved.requested hrequest, hx, Option.map_some]
  refine (mention_published h hmentioning).imp_right ?_
  rintro ⟨after, hafter, hmem⟩
  obtain ⟨before, hbefore⟩ := ring_grows hl
  refine ⟨before ++ after, ?_, List.mem_append_right _ hmem⟩
  rw [hafter, ← hbefore, List.append_assoc]

/-- **Every mention reaches every client.**  A mention request is taken where the bus has a latest
selection.  Whatever happens from there on, once the request is done with and a client that was
connected has forwarded all there is, that client has seen a mention of this selection after what it
had seen when the request was taken, unless it lagged or a write failed. -/
theorem mentions_reach_clients (hs : (systemMachine ι Time env).init s)
    (h : (systemMachine ι Time env).Run s tr u)
    (hparse : ∀ text v, env.parse text = some v → v.writable = true)
    {i : ι} {text : Text} {written : Bool} (hrequest : mentionRequested env.parse text = true)
    (hl : (systemMachine ι Time env).step u (.client i (.message (.ok (.text text)) written)) =
      some v)
    {x : Selection Path Url} (hx : u.tracker.bus.latest = some x)
    {more : List (SystemState ι Path Url Time × SystemLabel ι Path Time)}
    (hmore : (systemMachine ι Time env).Run v more t) (hpublished : (t.clients i).mentioning = none)
    {j : ι} (hlistening : (u.clients j).conn.listening) (hdrained : Drained t.delivery j)
    (hlag : (t.clients j).conn.laggedBefore = false)
    (hwritten : (t.clients j).writeFailed = false) :
    ∃ later, (t.clients j).seen env.wire = (u.clients j).seen env.wire ++ later ∧
      Seen.ofEvent env.wire (.atMentioned (Mention.of x)) ∈ later := by
  have hrun := Machine.Run.cons hl hmore
  have hall := h.trans hrun
  have hdelivery := (systemInv_of_run hs h).delivery
  -- it is published
  obtain ⟨new, hnew, hmem⟩ := (request_published hrequest hl hx hmore).resolve_left
    (by simp [hpublished])
  -- it is forwarded
  have hforwarded : ∃ replay, (t.clients j).conn.frames = (u.clients j).conn.frames ++ replay ++
      t.tracker.bus.events.sent.drop (u.clients j).conn.next := by
    obtain ⟨-, hphase, hnext⟩ := hdrained
    have hphase : (t.clients j).conn.phase = .serving := hphase
    have hnext : (t.clients j).conn.next = t.tracker.bus.events.sent.length := hnext
    cases since_of_run hrun hdelivery hlistening hlag with
    | subscribed hphase' => simp [hphase] at hphase'
    | serving replay _ _ hframes =>
        rw [hnext, List.take_length] at hframes
        exact ⟨replay, hframes⟩
    | closed hphase' => simp [hphase] at hphase'
  obtain ⟨replay, hframes⟩ := hforwarded
  have hle : (u.clients j).conn.next ≤ u.tracker.bus.events.sent.length := (hdelivery.2 j).next_le
  -- and no write failed
  have hpushed := (session_of_run hs hall j).1.all hwritten
  have hpushed' := (session_of_run hs h j).1.all (writeFailed_of_run hrun j hwritten)
  refine ⟨(replay ++ (u.tracker.bus.events.sent ++ new).drop (u.clients j).conn.next).map
    (Seen.ofEvent env.wire), ?_, List.mem_map_of_mem ?_⟩
  · rw [seen_of_run hs hall hparse, seen_of_run hs h hparse, hpushed, hpushed', hframes, hnew,
      List.append_assoc, List.map_append]
  · rw [List.drop_append_of_le_length hle]
    exact List.mem_append_right _ (List.mem_append_right _ hmem)

/-- A client asks for a mention, and sees it. -/
theorem mentions_reach_clients_selectAndMention :
    ∃ (u t : SystemState Unit Text Text ℕ) (x : Selection Text Text) (later : List Seen),
      u.tracker.bus.latest = some x ∧
        (t.clients ()).seen textEnv.wire = (u.clients ()).seen textEnv.wire ++ later ∧
        Seen.ofEvent textEnv.wire (.atMentioned (Mention.of x)) ∈ later := by
  let M := systemMachine Unit ℕ textEnv
  have htaken : ((M.exec (SystemState.new 8) (selectAndConnect ++ settleAndServe)).bind fun u =>
      (M.step u askForMention).bind fun v => (M.exec v publishAndSend).map fun t => decide
          ((u.tracker.bus.latest.isSome ∧ (u.clients ()).conn.phase = .serving) ∧
            ((t.clients ()).mentioning.isNone ∧ (t.clients ()).conn.laggedBefore = false) ∧
              AtRest t))
      = some true := by decide +kernel
  obtain ⟨u, hu, htaken⟩ := Option.bind_eq_some_iff.mp htaken
  obtain ⟨v, hv, htaken⟩ := Option.bind_eq_some_iff.mp htaken
  obtain ⟨t, ht, hfacts⟩ := Option.map_eq_some_iff.mp htaken
  obtain ⟨⟨hlatest, hserving⟩, ⟨hpublished, hlag⟩, ⟨hpc, -⟩, ⟨hphase, hnext⟩, ⟨-, hwritten, -⟩,
    -⟩ := of_decide_eq_true hfacts
  obtain ⟨x, hx⟩ := Option.isSome_iff_exists.mp hlatest
  obtain ⟨later, hseen, hmem⟩ := mentions_reach_clients ⟨8, rfl⟩ (Machine.run_of_exec _ hu)
    (fun _ _ => writable_of_parseJson?) (by decide +kernel) hv hx (Machine.run_of_exec _ ht)
    (Option.isNone_iff_eq_none.mp hpublished) (Or.inr hserving)
    ⟨by simp [SystemState.delivery, TrackerState.sending, hpc], hphase, hnext⟩ hlag hwritten
  exact ⟨u, t, x, later, hx, hseen, hmem⟩

end Connect
