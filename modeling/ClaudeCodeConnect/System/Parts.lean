import ClaudeCodeConnect.Lsp.Online
import ClaudeCodeConnect.Selection.MentionRequest
import ClaudeCodeConnect.System.Moves

/-!
# The parts of the companion

The system is followed by the machines of its parts: what holds of the tracker in every interleaving
of its own steps, and of the connections in every interleaving of theirs, holds of both together.

* `tracker_follows` -- the tracker's machine follows the system, `delivery_follows` the machine of
  the bus and the connections.
* `systemInv_of_run` -- what a run keeps of each part.
* `reported_step` -- what the tracker was told is what the LSP side reported.
-/

namespace Connect

variable {ι Path Url Time : Type} [DecidableEq Path] [DecidableEq Url]

/-! ## The tracker

The steps of the task in the system are those of the tracker machine. -/

namespace TrackerState

/-- The selection whose publication is between its two steps. -/
def sending (s : TrackerState Path Url) : Option (Selection Path Url) :=
  match s.pc with
  | .sending x => some x
  | _ => none

omit [DecidableEq Path] [DecidableEq Url] in
lemma updates_foldl (u : TrackerState Path Url) (xs : List (Selection Path Url)) :
    (xs.foldl update u).updates = u.updates ++ xs ∧ (xs.foldl update u).bus = u.bus ∧
      (xs.foldl update u).pc = u.pc ∧ (xs.foldl update u).pending = u.pending ∧
      (xs.foldl update u).handled = u.handled ∧
      (xs.foldl update u).input.closed = u.input.closed := by
  induction xs generalizing u with
  | nil => exact ⟨(List.append_nil _).symm, rfl, rfl, rfl, rfl, rfl⟩
  | cons x xs ih =>
      obtain ⟨hupdates, hbus, hpc, hpending, hhandled, hclosed⟩ := ih (u.update x)
      refine ⟨?_, hbus, hpc, hpending, hhandled, hclosed⟩
      rw [List.foldl_cons, hupdates, update, List.append_assoc, List.singleton_append]

/-- A list of updates, taken one after the other. -/
lemma exec_updates {u t : TrackerState Path Url} {xs : List (Selection Path Url)}
    (h : (trackerMachine Path Url).exec u (xs.map .update) = some t) :
    t = xs.foldl update u := by
  induction xs generalizing u with
  | nil =>
      cases h
      rfl
  | cons x xs ih =>
      rw [List.map_cons, Machine.exec, Option.bind_eq_some_iff] at h
      obtain ⟨u', hu', h⟩ := h
      simp only [trackerMachine, TrackerState.step] at hu'
      split_ifs at hu'
      cases hu'
      exact ih h

/-- Only an update is one. -/
lemma step_updates {s t : TrackerState Path Url} {l : TrackerLabel Path Url}
    (hl : ∀ x, l ≠ .update x) (h : s.step l = some t) : t.updates = s.updates := by
  cases l with
  | update x => exact absurd rfl (hl x)
  | dropTrackers | request =>
      cases h
      rfl
  | publishMention m =>
      simp only [TrackerState.step] at h
      split_ifs at h
      cases h
      rfl
  | borrowAndUpdate =>
      simp only [TrackerState.step] at h
      split at h <;> cases h
      rw [TrackerState.borrowAndUpdate]
      split <;> rfl
  | compare =>
      simp only [TrackerState.step] at h
      split at h <;> cases h
      rw [TrackerState.compare]
      split_ifs <;> rfl
  | wake | restart | timerFires | replaceLatest | send =>
      simp only [TrackerState.step] at h
      split at h <;> cases h <;> rfl

/-- What a step of the tracker does to the bus: nothing, one of the two steps of a publication, or
a mention. -/
lemma step_bus {s t : TrackerState Path Url} {l : TrackerLabel Path Url} (h : s.step l = some t) :
    (t.bus = s.bus ∧ t.sending = s.sending ∧ ∀ m, l ≠ .publishMention m) ∨
    (∃ x, l = .replaceLatest ∧ s.sending = none ∧ t.bus = s.bus.replaceLatest x ∧
      t.sending = some x) ∨
    (∃ x, l = .send ∧ s.sending = some x ∧ t.bus = s.bus.sendSelection x ∧ t.sending = none) ∨
    (∃ m, l = .publishMention m ∧ t.bus = s.bus.publishMention m ∧ t.sending = s.sending) := by
  cases l with
  | update x =>
      simp only [TrackerState.step] at h
      split_ifs at h
      cases h
      exact Or.inl ⟨rfl, rfl, by simp⟩
  | dropTrackers =>
      cases h
      exact Or.inl ⟨rfl, rfl, by simp⟩
  | wake =>
      simp only [TrackerState.step] at h
      split at h <;> cases h <;> exact Or.inl ⟨rfl, by simp_all [sending], by simp⟩
  | restart =>
      simp only [TrackerState.step] at h
      split at h <;> cases h <;> exact Or.inl ⟨rfl, by simp_all [sending], by simp⟩
  | timerFires =>
      simp only [TrackerState.step] at h
      split at h <;> cases h
      exact Or.inl ⟨rfl, by simp_all [sending], by simp⟩
  | borrowAndUpdate =>
      simp only [TrackerState.step] at h
      split at h <;> cases h
      refine Or.inl ⟨?_, ?_, by simp⟩ <;> rw [TrackerState.borrowAndUpdate] <;> split <;>
        simp_all [sending]
  | compare =>
      simp only [TrackerState.step] at h
      split at h <;> cases h
      refine Or.inl ⟨?_, ?_, by simp⟩ <;> rw [TrackerState.compare] <;> split_ifs <;>
        simp_all [sending]
  | replaceLatest =>
      simp only [TrackerState.step] at h
      split at h <;> cases h
      exact Or.inr (Or.inl ⟨_, rfl, by simp_all [sending], rfl, rfl⟩)
  | send =>
      simp only [TrackerState.step] at h
      split at h <;> cases h
      exact Or.inr (Or.inr (Or.inl ⟨_, rfl, by simp_all [sending], rfl, rfl⟩))
  | request =>
      cases h
      exact Or.inl ⟨rfl, rfl, by simp⟩
  | publishMention m =>
      simp only [TrackerState.step] at h
      split_ifs at h
      cases h
      exact Or.inr (Or.inr (Or.inr ⟨m, rfl, rfl, rfl⟩))

end TrackerState

section System

variable [DecidableEq ι] [DecidableEq Time] {env : Env Path Url}

/-- The tracker follows: each step of the system is a run of its steps. -/
theorem tracker_follows : Machine.Simulation (systemMachine ι Time env) (trackerMachine Path Url)
    (fun s u => s.tracker = u) (fun _ _ => True) (fun _ _ _ => True) := by
  rintro s l t u rfl - hl
  cases systemMoved_of_step hl with
  | stop _ _ htracker _ _ => exact ⟨[], _, trivial, rfl, htracker⟩
  | frame _ _ hexec _ _ => exact ⟨_, _, trivial, hexec, rfl⟩
  | task hstep => exact ⟨_, _, trivial, (Machine.exec_singleton _ _).trans hstep, rfl⟩
  | client _ hexec => exact ⟨_, _, trivial, hexec, rfl⟩

/-! ## The bus and the connections

So are the steps of the connections and of the publisher, in the delivery machine. -/

/-- The bus, the publisher and the connections of the system. -/
def SystemState.delivery (s : SystemState ι Path Url Time) : DeliveryState ι Path Url :=
  ⟨s.tracker.bus, s.tracker.sending, fun i => (s.clients i).conn⟩

omit [DecidableEq Path] [DecidableEq Url] in
/-- What a step of a connection is to the bus and its place on it. -/
lemma ClientMoved.conn {c d : Client Path Url} {bus : EventBus Path Url} {cancelled : Bool}
    {move : ClientMove} {ls : List (TrackerLabel Path Url)}
    (h : ClientMoved env c bus cancelled move d ls) :
    (d.conn = c.conn ∧ (ls = [] ∨ ls = [.request] ∨ ∃ m, ls = [.publishMention m])) ∨
    (ls = [] ∧ ∃ m, c.conn.step bus m = some d.conn ∧
      (m = .receive → ∃ written, move = .receive written)) := by
  cases h with
  | letIn => exact Or.inl ⟨rfl, Or.inl rfl⟩
  | reject =>
      refine Or.inr ⟨rfl, .leave, ?_, by simp⟩
      rw [Client.leave, Client.write_conn]
      rfl
  | subscribe _ hconn => exact Or.inr ⟨rfl, .subscribe, hconn, by simp⟩
  | replay hconn =>
      refine Or.inr ⟨rfl, .replay, ?_, by simp⟩
      rw [Client.write_conn]
      exact hconn
  | push _ hconn => exact Or.inr ⟨rfl, .receive, hconn, fun _ => ⟨_, rfl⟩⟩
  | lag _ hconn => exact Or.inr ⟨rfl, .receive, hconn, fun _ => ⟨_, rfl⟩⟩
  | hear => exact Or.inl ⟨rfl, Or.inl rfl⟩
  | request => exact Or.inl ⟨rfl, Or.inr (Or.inl rfl)⟩
  | unanswered => exact Or.inr ⟨rfl, .leave, rfl, by simp⟩
  | ignore => exact Or.inl ⟨Client.write_conn _ _ _, Or.inl rfl⟩
  | publish => exact Or.inl ⟨rfl, Or.inr (Or.inr ⟨_, rfl⟩)⟩
  | told =>
      refine Or.inr ⟨rfl, .leave, ?_, by simp⟩
      rw [Client.leave, Client.write_conn]
      rfl
  | unpushed => exact Or.inr ⟨rfl, .leave, rfl, by simp⟩
  | leave => exact Or.inr ⟨rfl, .leave, rfl, by simp⟩

omit [DecidableEq Time] in
/-- A step of the tracker, as the machine of the bus sees it. -/
lemma delivery_of_tracker {s t : SystemState ι Path Url Time} {l : TrackerLabel Path Url}
    (hclients : ∀ i, (t.clients i).conn = (s.clients i).conn)
    (hl : s.tracker.step l = some t.tracker) :
    t.delivery = s.delivery ∨
      ∃ d, s.delivery.step d = some t.delivery ∧ ∀ i, d ≠ .conn i .receive := by
  have hconns : (fun i => (t.clients i).conn) = fun i => (s.clients i).conn := funext hclients
  rcases TrackerState.step_bus hl with
    ⟨hbus, hsending, -⟩ | ⟨x, -, hnone, hbus, hsending⟩ | ⟨x, -, hx, hbus, hsending⟩ |
      ⟨m, -, hbus, hsending⟩
  · exact Or.inl (by simp only [SystemState.delivery, hbus, hsending, hconns])
  · refine Or.inr ⟨.replaceLatest x, ?_, by simp⟩
    simp only [DeliveryState.step, SystemState.delivery, hnone, hbus, hsending, hconns]
  · refine Or.inr ⟨.sendSelection, ?_, by simp⟩
    simp only [DeliveryState.step, SystemState.delivery, hx, hbus, hsending, hconns]
  · refine Or.inr ⟨.publishMention m, ?_, by simp⟩
    simp only [DeliveryState.step, SystemState.delivery, hbus, hsending, hconns]

omit [DecidableEq Path] [DecidableEq Url] [DecidableEq Time] in
lemma conn_update (s : SystemState ι Path Url Time) (i : ι) (c : Client Path Url) :
    (fun j => (Function.update s.clients i c j).conn)
      = Function.update (fun j => (s.clients j).conn) i c.conn := by
  funext j
  by_cases hij : j = i
  · subst hij
    rw [Function.update_self, Function.update_self]
  · rw [Function.update_of_ne hij, Function.update_of_ne hij]

/-- **The bus and the connections follow**: a step of the system is one of theirs, or none. -/
theorem delivery_follows {s t : SystemState ι Path Url Time} {l : SystemLabel ι Path Time}
    (hl : (systemMachine ι Time env).step s l = some t) :
    t.delivery = s.delivery ∨ ∃ d, s.delivery.step d = some t.delivery ∧
      ∀ i, d = .conn i .receive → ∃ written, l = .client i (.receive written) := by
  cases systemMoved_of_step hl with
  | stop _ _ htracker hclients _ =>
      exact Or.inl (by simp only [SystemState.delivery, htracker, hclients])
  | frame _ _ hexec hclients _ =>
      have htracker := TrackerState.exec_updates hexec
      obtain ⟨-, hbus, hpc, -⟩ := TrackerState.updates_foldl s.tracker _
      rw [← htracker] at hbus hpc
      refine Or.inl ?_
      simp only [SystemState.delivery, TrackerState.sending, hbus, hpc, hclients]
  | @task move tracker hstep =>
      refine (delivery_of_tracker (s := s) (t := { s with tracker }) (fun _ => rfl)
        hstep).imp_right ?_
      rintro ⟨d, hd, hnot⟩
      exact ⟨d, hd, fun i heq => absurd heq (hnot i)⟩
  | @client i move c ls tracker hmoved hexec =>
      rcases hmoved.conn with ⟨hconn, hls⟩ | ⟨rfl, m, hm, hreceive⟩
      · have hclients : ∀ j, (Function.update s.clients i c j).conn = (s.clients j).conn := by
          intro j
          rw [congrFun (conn_update s i c) j, hconn]
          exact congrFun (Function.update_eq_self i fun j => (s.clients j).conn) j
        have hstep : ∀ l, ls = [l] → s.tracker.step l = some tracker := by
          rintro l rfl
          exact (Machine.exec_singleton _ _).symm.trans hexec
        rcases hls with rfl | rfl | ⟨m, rfl⟩
        · cases hexec
          exact Or.inl (by simp only [SystemState.delivery, hclients])
        all_goals
          refine (delivery_of_tracker (s := s)
            (t := { s with tracker, clients := Function.update s.clients i c })
            hclients (hstep _ rfl)).imp_right ?_
          rintro ⟨d, hd, hnot⟩
          exact ⟨d, hd, fun i heq => absurd heq (hnot i)⟩
      · cases hexec
        refine Or.inr ⟨.conn i m, ?_, ?_⟩
        · have hm' : (s.delivery.conns i).step s.delivery.bus m = some c.conn := hm
          rw [DeliveryState.step, hm', Option.map_some]
          simp only [SystemState.delivery, conn_update]
        · rintro j heq
          simp only [DeliveryLabel.conn.injEq] at heq
          obtain ⟨rfl, rfl⟩ := heq
          obtain ⟨written, rfl⟩ := hreceive rfl
          exact ⟨written, rfl⟩

/-! ## What a run keeps

The invariants of the two machines, of every state of the system. -/

/-- Each part keeps its invariant, and the tracker was told what the LSP side reported. -/
structure SystemInv (s : SystemState ι Path Url Time) : Prop where
  mirrored : s.server.Mirrored
  tracker : s.tracker.Inv
  mentions : MentionsAccounted s.tracker
  delivery : DeliveryInv s.delivery
  reported : s.tracker.updates = s.server.selections

/-- The two that are kept step by step. -/
lemma reported_step {s t : SystemState ι Path Url Time} {l : SystemLabel ι Path Time}
    (h : s.server.Mirrored ∧ s.tracker.updates = s.server.selections)
    (hl : (systemMachine ι Time env).step s l = some t) :
    t.server.Mirrored ∧ t.tracker.updates = t.server.selections := by
  obtain ⟨hmirrored, hreported⟩ := h
  cases systemMoved_of_step hl with
  | stop _ hserver htracker _ _ =>
      rw [hserver, htracker]
      exact ⟨hmirrored, hreported⟩
  | frame hturn hserver hexec _ _ =>
      obtain ⟨hmirrored', new, hnew, -⟩ := LspServer.turn_reports hmirrored hturn
      refine ⟨hserver ▸ hmirrored', ?_⟩
      rw [TrackerState.exec_updates hexec, (TrackerState.updates_foldl _ _).1, hserver, hnew,
        List.drop_left, hreported]
  | @task move tracker hstep =>
    have hnot : ∀ x, (TaskMove.label move : TrackerLabel Path Url) ≠ .update x := by
      intro x
      cases move <;> simp [TaskMove.label]
    exact ⟨hmirrored, (TrackerState.step_updates hnot hstep).trans hreported⟩
  | @client i move c ls tracker hmoved hexec =>
      refine ⟨hmirrored, Eq.trans ?_ hreported⟩
      have hstep : ∀ l, (∀ x, l ≠ .update x) →
          (trackerMachine Path Url).exec s.tracker [l] = some tracker →
          tracker.updates = s.tracker.updates := fun l hl hexec =>
        TrackerState.step_updates hl ((Machine.exec_singleton _ _).symm.trans hexec)
      rcases hmoved.conn with ⟨-, rfl | rfl | ⟨m, rfl⟩⟩ | ⟨rfl, -⟩
      · cases hexec
        rfl
      · exact hstep _ (by simp) hexec
      · exact hstep _ (by simp) hexec
      · cases hexec
        rfl

lemma deliveryInv_follows {s t : SystemState ι Path Url Time} {l : SystemLabel ι Path Time}
    (h : DeliveryInv s.delivery) (hl : (systemMachine ι Time env).step s l = some t) :
    DeliveryInv t.delivery := by
  rcases delivery_follows hl with heq | ⟨d, hd, -⟩
  · rw [heq]
    exact h
  · exact deliveryInv_step h hd

/-- **A run keeps all of it.** -/
theorem systemInv_of_run {s t : SystemState ι Path Url Time}
    {tr : List (SystemState ι Path Url Time × SystemLabel ι Path Time)}
    (hs : (systemMachine ι Time env).init s) (h : (systemMachine ι Time env).Run s tr t) :
    SystemInv t := by
  obtain ⟨capacity, rfl⟩ := hs
  obtain ⟨⟨hmirrored, hreported⟩, hdelivery⟩ := h.preserves
    (fun s => (s.server.Mirrored ∧ s.tracker.updates = s.server.selections) ∧
      DeliveryInv s.delivery)
    (fun _ _ => True)
    (fun s l t hi _ hl => ⟨reported_step hi.1 hl, deliveryInv_follows hi.2 hl⟩)
    ⟨⟨LspServer.mirrored_new, rfl⟩, deliveryInv_new capacity⟩ fun _ _ => trivial
  have hnew : (TrackerState.new capacity : TrackerState Path Url).Inv ∧
      MentionsAccounted (TrackerState.new capacity : TrackerState Path Url) :=
    ⟨TrackerState.inv_new capacity, List.Perm.refl _⟩
  obtain ⟨u, ⟨htracker, hmentions⟩, rfl⟩ := tracker_follows.preserves
    (fun u => u.Inv ∧ MentionsAccounted u)
    (fun u l v hi hl => ⟨inv_step hi.1 hl, accounted_step hi.2 hl⟩) rfl hnew h fun _ _ => trivial
  exact ⟨hmirrored, htracker, hmentions, hdelivery, hreported⟩

end System

end Connect
