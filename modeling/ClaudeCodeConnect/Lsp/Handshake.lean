import ClaudeCodeConnect.Lsp.Server
import Mathlib.Data.Set.Subsingleton

/-!
# The handshake

What the two flags of the server are for, over whole sessions.

* `ServerPhase`, `phaseAfter` -- the handshake as a machine of three phases, driven by methods
  alone.
* `InPhase`, `run_inPhase` -- the flags are the phase of what was said, in every session.
* `HandshakeLaw` -- what the phases promise of one message in a session.
* `handshake` -- **every message of every session keeps the law**, and at most one message of a
  session initializes.
-/

namespace Connect

/-! ## Phases

The two flags of the server have three values between them; the phase is which. -/

/-- How far the handshake has come. -/
inductive ServerPhase where
  | fresh
  | running
  | down
  deriving DecidableEq, Repr

namespace ServerPhase

/-- `initialize` starts the server, the first `shutdown` after it shuts it down. -/
def next : ServerPhase → Method → ServerPhase
  | fresh, .initializeReq => running
  | running, .shutdown => down
  | p, _ => p

/-- `initialize` was answered. -/
def isInitialized : ServerPhase → Bool
  | fresh => false
  | _ => true

/-- `shutdown` was answered. -/
def isDown : ServerPhase → Bool
  | down => true
  | _ => false

end ServerPhase

lemma ServerPhase.isInitialized_of_isDown {p : ServerPhase} (h : p.isDown = true) :
    p.isInitialized = true := by
  cases p with
  | down => rfl
  | _ => cases h

lemma ServerPhase.next_isInitialized {p : ServerPhase} (h : p.isInitialized = true) (m : Method) :
    (p.next m).isInitialized = true := by
  cases p with
  | fresh => cases h
  | running => cases m <;> rfl
  | down => rfl

lemma ServerPhase.next_isDown {p : ServerPhase} (h : p.isDown = true) (m : Method) :
    (p.next m).isDown = true := by
  cases p with
  | down => rfl
  | _ => cases h

/-- The phase after these messages. -/
def phaseAfter (methods : List Method) : ServerPhase := methods.foldl ServerPhase.next .fresh

lemma phaseAfter_append_singleton (methods : List Method) (m : Method) :
    phaseAfter (methods ++ [m]) = (phaseAfter methods).next m := by
  rw [phaseAfter, List.foldl_append]
  rfl

/-- The server is started by `initialize` and by nothing else. -/
lemma phaseAfter_isInitialized (methods : List Method) :
    (phaseAfter methods).isInitialized = true ↔ .initializeReq ∈ methods := by
  induction methods using List.reverseRecOn with
  | nil => simp [phaseAfter, ServerPhase.isInitialized]
  | append_singleton methods m ih =>
      rw [phaseAfter_append_singleton, List.mem_append, List.mem_singleton, ← ih]
      cases phaseAfter methods <;> cases m <;> simp [ServerPhase.next, ServerPhase.isInitialized]

/-- Once down, the server stays down. -/
lemma foldl_next_down (methods : List Method) : methods.foldl ServerPhase.next .down = .down := by
  induction methods with
  | nil => rfl
  | cons m methods ih => exact ih

/-- A `shutdown` after `initialize` shuts the server down. -/
lemma phaseAfter_shutdown {first rest : List Method} (h : .initializeReq ∈ first) :
    phaseAfter (first ++ .shutdown :: rest) = .down := by
  rw [phaseAfter, List.foldl_append, List.foldl_cons]
  show rest.foldl ServerPhase.next ((phaseAfter first).next .shutdown) = .down
  have hstarted := (phaseAfter_isInitialized first).mpr h
  cases hphase : phaseAfter first with
  | fresh =>
      rw [hphase] at hstarted
      cases hstarted
  | running => exact foldl_next_down rest
  | down => exact foldl_next_down rest

namespace LspServer

variable {Url Path Time : Type}

/-! ## The flags are the phase

Every message moves the flags as it moves the phase, which depends on its method alone. -/

/-- The flags of this phase. -/
def InPhase (s : LspServer Url Path Time) (p : ServerPhase) : Prop :=
  s.initialized = p.isInitialized ∧ s.shutDown = p.isDown

lemma new_inPhase : (new : LspServer Url Path Time).InPhase .fresh := ⟨rfl, rfl⟩

/-- The methods of some messages. -/
def methodsOf (messages : List (Request × FileSystem Path Time)) : List Method :=
  messages.map fun m => m.1.kind

/-- No message so far was `initialize`. -/
def NoInitialize (messages : List (Request × FileSystem Path Time)) : Prop :=
  ∀ m ∈ messages, m.1.kind ≠ .initializeReq

/-- A `shutdown` was accepted: one came after `initialize`. -/
def ShutdownAccepted (messages : List (Request × FileSystem Path Time)) : Prop :=
  ∃ before m after, messages = before ++ m :: after ∧ ¬ NoInitialize before ∧
    m.1.kind = .shutdown

lemma noInitialize_iff (messages : List (Request × FileSystem Path Time)) :
    NoInitialize messages ↔ .initializeReq ∉ methodsOf messages := by
  simp [NoInitialize, methodsOf]

variable [DecidableEq Url] [DecidableEq Path] [DecidableEq Time] {libs : Libs Path Url}
  {s : LspServer Url Path Time}

/-- **One message** moves the flags as it moves the phase. -/
lemma dispatch_inPhase {p : ServerPhase} (hmirrored : s.Mirrored) (h : s.InPhase p)
    (libs : Libs Path Url) (fs : FileSystem Path Time) (request : Request) :
    (s.dispatch libs fs request).2.InPhase (p.next request.kind) := by
  obtain ⟨hinitialized, hdown⟩ := h
  by_cases hkind : request.kind = .initializeReq
  · rw [dispatch_initializeReq hkind, hkind]
    cases p <;> simp [InPhase, hinitialized, hdown, ServerPhase.next, ServerPhase.isInitialized,
      ServerPhase.isDown]
  · cases hs : s.initialized with
    | false =>
        rw [dispatch_fresh hkind hs]
        cases p <;> simp_all [InPhase, ServerPhase.next, ServerPhase.isInitialized,
          ServerPhase.isDown]
    | true =>
        rw [hs] at hinitialized
        by_cases hgate : s.shutDown = false ∨ request.isNotification = true
        · obtain ⟨hkeeps, hshuts⟩ := (dispatch_step hmirrored libs fs hkind hs hgate).flags
          rw [hs] at hkeeps
          rw [hdown] at hshuts
          rw [InPhase, hkeeps, hshuts]
          cases p with
          | fresh => cases hinitialized
          | running =>
              generalize request.kind = m at *
              cases m <;> exact ⟨rfl, rfl⟩
          | down => exact ⟨rfl, rfl⟩
        · rw [not_or, Bool.not_eq_false, Bool.not_eq_true] at hgate
          rw [dispatch_refused hkind hs hgate.1 hgate.2]
          cases p with
          | down => exact ⟨hs, hdown⟩
          | _ => simp [hgate.1, ServerPhase.isDown] at hdown

/-- **In every session the flags are the phase** of what was said. -/
theorem run_inPhase (libs : Libs Path Url)
    (messages : List (Request × FileSystem Path Time)) :
    ((new : LspServer Url Path Time).run libs messages).InPhase
      (phaseAfter (methodsOf messages)) := by
  induction messages using List.reverseRecOn with
  | nil => exact new_inPhase
  | append_singleton messages m ih =>
      have hstep := dispatch_inPhase (run_mirrored mirrored_new libs messages) ih libs m.2 m.1
      rw [run_append, methodsOf, List.map_append, List.map_singleton, phaseAfter_append_singleton]
      exact hstep

/-! ## The law

What is answered in each phase, and to whom. -/

/-- What the handshake promises of a message `request` after the messages `before`: `s` is the
server it finds, `reply` and `s'` are what it draws and leaves. -/
structure HandshakeLaw (libs : Libs Path Url) (before : List (Request × FileSystem Path Time))
    (request : Request) (s : LspServer Url Path Time) (reply : Reply)
    (s' : LspServer Url Path Time) : Prop where
  /-- Only the first `initialize` initializes. -/
  initializes : s.initialized = false ∧ s'.initialized = true ↔
    request.kind = .initializeReq ∧ NoInitialize before
  firstInitialize : request.kind = .initializeReq → NoInitialize before →
    reply = initializeReply libs
  laterInitialize : request.kind = .initializeReq → ¬ NoInitialize before → reply = .invalidRequest
  /-- Before it, requests are refused and nothing has any effect. -/
  refusedBefore : NoInitialize before → request.kind ≠ .initializeReq →
    request.isNotification = false → reply = .notInitialized
  nothingBefore : NoInitialize before → request.kind ≠ .initializeReq → s = new ∧ s' = new
  /-- After a shutdown, requests of any method are refused. -/
  refusedAfter : ShutdownAccepted before → request.isNotification = false →
    reply = .invalidRequest
  /-- The flags only move forward. -/
  ordered : s'.shutDown = true → s'.initialized = true
  keepsInitialized : s.initialized = true → s'.initialized = true
  keepsShutDown : s.shutDown = true → s'.shutDown = true

/-- Message `i` of a session initializes. -/
def Initializes (libs : Libs Path Url) (messages : List (Request × FileSystem Path Time))
    (i : ℕ) : Prop :=
  ((new : LspServer Url Path Time).run libs (messages.take i)).initialized = false ∧
    ((new : LspServer Url Path Time).run libs (messages.take (i + 1))).initialized = true

lemma run_initialized_iff (libs : Libs Path Url)
    (before : List (Request × FileSystem Path Time)) :
    ((new : LspServer Url Path Time).run libs before).initialized = true ↔
      ¬ NoInitialize before := by
  rw [(run_inPhase libs before).1, phaseAfter_isInitialized, noInitialize_iff, not_not]

lemma run_initialized_eq_false_iff (libs : Libs Path Url)
    (before : List (Request × FileSystem Path Time)) :
    ((new : LspServer Url Path Time).run libs before).initialized = false ↔
      NoInitialize before := by
  rw [← Bool.not_eq_true, run_initialized_iff, not_not]

/-- Before `initialize` a session is as if nothing had been said. -/
lemma run_eq_new {before : List (Request × FileSystem Path Time)} (h : NoInitialize before) :
    (new : LspServer Url Path Time).run libs before = new := by
  induction before with
  | nil => rfl
  | cons m before ih =>
      have hm : (new.dispatch libs m.2 m.1).2 = (new : LspServer Url Path Time) := by
        rw [dispatch_fresh (h m List.mem_cons_self) rfl]
      rw [run, List.foldl_cons, hm]
      exact ih fun m' hm' => h m' (List.mem_cons_of_mem _ hm')

/-- After an accepted shutdown the server is down. -/
lemma run_shutDown (libs : Libs Path Url) {before : List (Request × FileSystem Path Time)}
    (h : ShutdownAccepted before) :
    ((new : LspServer Url Path Time).run libs before).InPhase .down := by
  obtain ⟨first, m, rest, rfl, hinitialize, hm⟩ := h
  rw [noInitialize_iff, not_not] at hinitialize
  have hphase := run_inPhase libs (first ++ m :: rest)
  have hmethods : methodsOf (first ++ m :: rest)
      = methodsOf first ++ .shutdown :: methodsOf rest := by
    simp [methodsOf, hm]
  rwa [hmethods, phaseAfter_shutdown hinitialize] at hphase

/-- The law, by the phase a message finds. -/
theorem dispatch_law (libs : Libs Path Url) (before : List (Request × FileSystem Path Time))
    (m : Request × FileSystem Path Time) :
    HandshakeLaw libs before m.1 (new.run libs before)
      ((new : LspServer Url Path Time).run libs before |>.dispatch libs m.2 m.1).1
      ((new : LspServer Url Path Time).run libs before |>.dispatch libs m.2 m.1).2 := by
  obtain ⟨request, fs⟩ := m
  have hfalse := run_initialized_eq_false_iff libs before
  have htrue := run_initialized_iff libs before
  have hphase := run_inPhase libs before
  have hnext := dispatch_inPhase (run_mirrored mirrored_new libs before) hphase libs fs request
  constructor
  case initializes =>
    constructor
    · rintro ⟨hbefore, hafter⟩
      refine ⟨?_, hfalse.mp hbefore⟩
      by_contra hkind
      rw [dispatch_fresh hkind hbefore, hbefore] at hafter
      cases hafter
    · rintro ⟨hkind, hnone⟩
      have hbefore := hfalse.mpr hnone
      rw [dispatch_initializeReq hkind, hbefore]
      exact ⟨rfl, rfl⟩
  case firstInitialize =>
    intro hkind hnone
    rw [dispatch_initializeReq hkind, hfalse.mpr hnone]
    rfl
  case laterInitialize =>
    intro hkind hsome
    rw [dispatch_initializeReq hkind, htrue.mpr hsome]
    rfl
  case refusedBefore =>
    intro hnone hkind hrequest
    rw [dispatch_fresh hkind (hfalse.mpr hnone), hrequest]
    rfl
  case nothingBefore =>
    intro hnone hkind
    rw [dispatch_fresh hkind (hfalse.mpr hnone)]
    exact ⟨run_eq_new hnone, run_eq_new hnone⟩
  case refusedAfter =>
    intro haccepted hrequest
    obtain ⟨hinitialized, hdown⟩ := run_shutDown libs haccepted
    by_cases hkind : request.kind = .initializeReq
    · rw [dispatch_initializeReq hkind, hinitialized]
      rfl
    · rw [dispatch_refused hkind hinitialized hdown hrequest]
  case ordered =>
    intro hdown
    rw [hnext.2] at hdown
    rw [hnext.1]
    exact ServerPhase.isInitialized_of_isDown hdown
  case keepsInitialized =>
    intro hinitialized
    rw [hphase.1] at hinitialized
    rw [hnext.1]
    exact ServerPhase.next_isInitialized hinitialized _
  case keepsShutDown =>
    intro hdown
    rw [hphase.2] at hdown
    rw [hnext.2]
    exact ServerPhase.next_isDown hdown _

/-- **The handshake, over whole sessions.**  At most one message of a session initializes, and every
message keeps the law. -/
theorem handshake (libs : Libs Path Url) :
    (∀ messages : List (Request × FileSystem Path Time),
      {i | Initializes libs messages i}.Subsingleton) ∧
    ∀ (before : List (Request × FileSystem Path Time)) (m : Request × FileSystem Path Time),
      HandshakeLaw libs before m.1 (new.run libs before)
        ((new : LspServer Url Path Time).run libs before |>.dispatch libs m.2 m.1).1
        ((new : LspServer Url Path Time).run libs before |>.dispatch libs m.2 m.1).2 := by
  refine ⟨fun messages i hi j hj => ?_, dispatch_law libs⟩
  have hlt : ∀ {a b : ℕ}, Initializes libs messages a → Initializes libs messages b → ¬ a < b := by
    rintro a b ⟨-, ha⟩ ⟨hb, -⟩ hab
    rw [run_initialized_iff] at ha
    rw [run_initialized_eq_false_iff] at hb
    refine ha fun m hm => hb m ?_
    exact (List.take_subset_take_left messages hab) hm
  rcases Nat.lt_trichotomy i j with h | h | h
  · exact absurd h (hlt hi hj)
  · exact h
  · exact absurd h (hlt hj hi)

end LspServer

end Connect
