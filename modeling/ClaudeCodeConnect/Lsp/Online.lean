import ClaudeCodeConnect.Lsp.Correspondence
import ClaudeCodeConnect.Lsp.FramingRoundTrip
import Mathlib.Data.List.Infix

/-!
# Output while the input comes in

Zed's pipe may close anywhere, in the middle of a header or of a body, and `stdout` may fail in the
middle of a frame.  What has gone back by then stands.

* `readFrames_append` -- the frames of an input are read alike if more follows, but for an empty one
  where the cut leaves a blank line.
* `turn_reports`, `serve_append` -- more frames bring more output, and more selections, after those
  that were there.
* `readFrames_written` -- what goes back is read as the frames it is.
* `serve_streams` -- **bytes to bytes**: what has gone back so far is the beginning of what goes
  back, and responds to the first messages.
-/

namespace Connect

/-! ## The input, cut anywhere

What the reader does with the beginning of an input it does with the whole input too, up to the
first frame that is not there in full. -/

lemma takeLine_line {line : List UInt8} (h : lf ∉ line) (rest : List UInt8) :
    takeLine (line ++ lf :: rest) = (line ++ [lf], rest) := by
  have hall : ∀ b ∈ line, (b != lf) = true := by
    intro b hb
    rw [bne_iff_ne]
    rintro rfl
    exact h hb
  rw [takeLine, List.takeWhile_append_of_pos hall, List.dropWhile_append_of_pos hall]
  simp

/-- A line that has ended. -/
lemma readLine_append {a rest : List UInt8} {n : ℕ} {header : Text} (hlf : lf ∈ a)
    (h : readLine a = .ok (n, header, rest)) (b : List UInt8) :
    readLine (a ++ b) = .ok (n, header, rest ++ b) := by
  obtain ⟨line, rest', rfl, hline⟩ := List.eq_append_cons_of_mem hlf
  rw [readLine, takeLine_line hline] at h
  rw [readLine, List.append_assoc, List.cons_append, takeLine_line hline]
  dsimp only at h ⊢
  split at h
  · cases h
    rfl
  · cases h

lemma readLine_ended {a rest : List UInt8} {n : ℕ} {header : Text} (hlf : lf ∉ a)
    (h : readLine a = .ok (n, header, rest)) : rest = [] := by
  rw [readLine_of_no_newline hlf] at h
  split at h <;> cases h
  rfl

lemma readHeaders_read {input rest : List UInt8} {n : ℕ} {header : Text}
    (h : readLine input = .ok (n, header, rest)) (hn : n ≠ 0) (len : Option ℕ) :
    readHeaders len input
      = if Text.trimEnd header = [] then .ok (some (len, rest))
        else readHeaders (headerLen len (Text.trimEnd header)) rest := by
  rw [readHeaders]
  split
  · rename_i e he
    rw [h] at he
    cases he
  · rename_i n' header' rest' he
    rw [h] at he
    cases he
    rw [dif_neg hn]

/-- A header that was read is read alike if more follows, or the input ends with it. -/
lemma readHeaders_append {len len' : Option ℕ} {a rest : List UInt8}
    (h : readHeaders len a = .ok (some (len', rest))) (b : List UInt8) :
    rest = [] ∨ readHeaders len (a ++ b) = .ok (some (len', rest ++ b)) := by
  fun_induction readHeaders len a with
  | case1 => cases h
  | case2 => cases h
  | case3 len a n header rest' hread hn line hline =>
      cases h
      by_cases hlf : lf ∈ a
      · exact Or.inr ((readHeaders_read (readLine_append hlf hread b) hn _).trans (if_pos hline))
      · exact Or.inl (readLine_ended hlf hread)
  | case4 len a n header rest' hread hn line hline ih =>
      by_cases hlf : lf ∈ a
      · refine (ih h).imp_right fun hrest => ?_
        rw [readHeaders_read (readLine_append hlf hread b) hn len, if_neg hline, hrest]
      · rw [readLine_ended hlf hread, readHeaders_nil] at h
        cases h

/-- So is a frame; where the input ends with its header, it is empty. -/
lemma nextFrame_append {buf a body rest : List UInt8} (h : nextFrame buf a = .ok (true, body, rest))
    (b : List UInt8) :
    (body = [] ∧ rest = []) ∨ nextFrame buf (a ++ b) = .ok (true, body, rest ++ b) := by
  rw [nextFrame] at h
  split at h
  · cases h
  · cases h
  · cases h
  · rename_i n rest' hheaders
    split_ifs at h with hn
    dsimp only at h
    by_cases hlen : n ≤ rest'.length
    · rw [readExact_of_le n hlen] at h
      cases h
      refine (readHeaders_append hheaders b).imp (fun hnil => ?_) fun happend => ?_
      · simp [hnil]
      · have hlonger : n ≤ (rest' ++ b).length := by
          rw [List.length_append]
          omega
        rw [nextFrame_of_headers (Nat.not_lt.mp hn) happend, readExact_of_le n hlonger,
          List.take_append_of_le_length hlen, List.drop_append_of_le_length hlen]
    · obtain ⟨e, he⟩ := readExact_of_lt n rest' (Nat.not_le.mp hlen)
      rw [he] at h
      cases h

/-- **The frames of an input, if more follows.** -/
theorem readFrames_append (buf a b : List UInt8) :
    ∃ read, read <+: (readFrames buf (a ++ b)).1 ∧
      ((readFrames buf a).1 = read ∨ (readFrames buf a).1 = read ++ [[]]) := by
  fun_induction readFrames buf a with
  | case1 => exact ⟨[], List.nil_prefix, Or.inl rfl⟩
  | case2 => exact ⟨[], List.nil_prefix, Or.inl rfl⟩
  | case3 buf a body rest hframe bodies ending heq ih =>
      rcases nextFrame_append hframe b with ⟨rfl, rfl⟩ | hframe'
      · rw [readFrames_nil] at heq
        cases heq
        exact ⟨[], List.nil_prefix, Or.inr rfl⟩
      · obtain ⟨read, hprefix, hread⟩ := ih
        rw [heq] at hread
        refine ⟨body :: read, ?_, hread.imp (congrArg (body :: ·)) (congrArg (body :: ·))⟩
        rw [readFrames_frame hframe']
        exact (List.prefix_cons_inj body).mpr hprefix

/-! ## What went back, read

The output is a stream of frames, so the reader of the other side can make no mistake about it. -/

/-- What `write_frame` wrote of some bodies is read as these, and a beginning of it as the first of
them. -/
lemma readFrames_written {bodies : List (List UInt8)}
    (h : ∀ body ∈ bodies, body.length ≤ maxFrameBytes) (buf : List UInt8) :
    readFrames buf (bodies.flatMap writeFrame) = (bodies, .ok ()) ∧
      ∀ k, (readFrames buf ((bodies.flatMap writeFrame).take k)).1 <+: bodies := by
  induction bodies generalizing buf with
  | nil => exact ⟨readFrames_nil buf, fun k => by simp [readFrames_nil]⟩
  | cons body bodies ih =>
      obtain ⟨hbody, hbodies⟩ := List.forall_mem_cons.mp h
      obtain ⟨hwhole, hcut⟩ := ih hbodies body
      have hwire : writeFrame body = (Frame.plain body hbody).wire :=
        (Frame.wire_plain body hbody).symm
      rw [List.flatMap_cons, hwire]
      constructor
      · rw [readFrames_wire, Frame.plain, hwhole]
      · intro k
        by_cases hk : k < (Frame.plain body hbody).wire.length
        · rw [List.take_append_of_le_length (Nat.le_of_lt hk)]
          exact (readFrames_cut _ buf hk).trans ⟨bodies, rfl⟩
        · obtain ⟨k', rfl⟩ := Nat.exists_eq_add_of_le (Nat.le_of_not_lt hk)
          rw [List.take_length_add_append, readFrames_wire]
          exact (List.prefix_cons_inj body).mpr (hcut k')

/-! ## More frames, more output

With more input the server goes on from where it was; what it has sent it has sent. -/

namespace LspServer

variable {Url Path Time : Type} [DecidableEq Url] [DecidableEq Path] [DecidableEq Time]
  {libs : Libs Path Url} {s t : LspServer Url Path Time}

omit [DecidableEq Path] [DecidableEq Time] in
/-- Past the gates a message reports at most one selection. -/
lemma Step.reports {request : Request} {reply : Reply} (h : Step libs s request reply t) :
    ∃ reported, t.selections = s.selections ++ reported ∧ reported.length ≤ 1 := by
  cases h with
  | codeAction => exact ⟨_, rfl, Nat.le_refl 1⟩
  | _ => exact ⟨[], (List.append_nil _).symm, Nat.zero_le 1⟩

/-- So does any message. -/
lemma dispatch_reports (h : s.Mirrored) (fs : FileSystem Path Time) (request : Request) :
    ∃ reported, (s.dispatch libs fs request).2.selections = s.selections ++ reported ∧
      reported.length ≤ 1 := by
  have hsame : ∃ reported, s.selections = s.selections ++ reported ∧ reported.length ≤ 1 :=
    ⟨[], (List.append_nil _).symm, Nat.zero_le 1⟩
  by_cases hkind : request.kind = .initializeReq
  · rw [dispatch_initializeReq hkind]
    cases s.initialized <;> exact hsame
  · cases hs : s.initialized with
    | false =>
        rw [dispatch_fresh hkind hs]
        exact hsame
    | true =>
        by_cases hgate : s.shutDown = false ∨ request.isNotification = true
        · exact (dispatch_step h libs fs hkind hs hgate).reports
        · rw [not_or, Bool.not_eq_false, Bool.not_eq_true] at hgate
          rw [dispatch_refused hkind hs hgate.1 hgate.2]
          exact hsame

/-- A turn of the loop keeps the mirror one of plain texts, and reports at most one selection. -/
lemma turn_reports {fs : FileSystem Path Time} {body : List UInt8} {reply : Option (List UInt8)}
    (h : s.Mirrored) (ht : s.turn libs fs body = some (t, reply)) :
    t.Mirrored ∧ ∃ reported, t.selections = s.selections ++ reported ∧ reported.length ≤ 1 := by
  rw [turn] at ht
  cases hrequest : libs.request body with
  | none =>
      rw [hrequest] at ht
      cases ht
      exact ⟨h, [], (List.append_nil _).symm, Nat.zero_le 1⟩
  | some request =>
      simp only [hrequest] at ht
      split_ifs at ht
      cases ht
      exact ⟨dispatch_mirrored h libs fs request, dispatch_reports h fs request⟩

variable (write : ℕ → Bool) {ending : Except IoError Unit}

/-- The loop reports after what was reported. -/
lemma serve_reports (h : s.Mirrored) (n : ℕ)
    (frames : List (List UInt8 × FileSystem Path Time)) :
    s.selections <+: (serve libs write ending s n frames).server.selections := by
  induction frames generalizing s n with
  | nil => exact List.prefix_rfl
  | cons f frames ih =>
      rw [serve]
      cases hturn : s.turn libs f.2 f.1 with
      | none => exact List.prefix_rfl
      | some out =>
          obtain ⟨s', reply⟩ := out
          obtain ⟨hmirrored, reported, hreported, -⟩ := turn_reports h hturn
          have hturned : s.selections <+: s'.selections := hreported ▸ List.prefix_append _ _
          cases reply with
          | none => exact hturned.trans (ih hmirrored n)
          | some frame =>
              dsimp only
              split_ifs
              · exact hturned.trans (ih hmirrored (n + 1))
              · exact hturned

/-- The second serving went on from where the first one is: it wrote what the first did and went on,
unless the first was stopped by a write that failed, and reported after what the first did. -/
structure GoesOn (r r' : Served Url Path Time) : Prop where
  written : r.written <+: r'.written
  torn : r.torn ≠ none → r'.torn = r.torn ∧ r'.written = r.written
  selections : r.server.selections <+: r'.server.selections

omit [DecidableEq Url] [DecidableEq Path] [DecidableEq Time] in
lemma GoesOn.refl {r r' : Served Url Path Time} (hwritten : r'.written = r.written)
    (htorn : r'.torn = r.torn) (hserver : r'.server = r.server) : GoesOn r r' :=
  ⟨hwritten ▸ List.prefix_rfl, fun _ => ⟨htorn, hwritten⟩, hserver ▸ List.prefix_rfl⟩

omit [DecidableEq Url] [DecidableEq Path] [DecidableEq Time] in
/-- After one more turn of both. -/
lemma GoesOn.after {r r' : Served Url Path Time} (h : GoesOn r r')
    (frame : Option (List UInt8)) : GoesOn (r.after frame) (r'.after frame) := by
  refine ⟨(List.prefix_append_right_inj _).mpr h.written, fun htorn => ?_, h.selections⟩
  obtain ⟨htorn', hwritten⟩ := h.torn htorn
  exact ⟨htorn', congrArg (frame.toList ++ ·) hwritten⟩

omit [DecidableEq Url] [DecidableEq Path] [DecidableEq Time] in
/-- So are its bytes. -/
lemma GoesOn.output {r r' : Served Url Path Time} (h : GoesOn r r') (k : ℕ) :
    r.output k <+: r'.output k := by
  by_cases htorn : r.torn = none
  · rw [Served.output, htorn, Option.map_none, Option.getD_none, List.take_nil, List.append_nil]
    exact (h.written.flatMap writeFrame).trans (List.prefix_append _ _)
  · obtain ⟨htorn', hwritten⟩ := h.torn htorn
    rw [Served.output, Served.output, htorn', hwritten]

/-- **More frames.** -/
theorem serve_append (h : s.Mirrored) (n : ℕ) (ending' : Except IoError Unit)
    (frames more : List (List UInt8 × FileSystem Path Time)) :
    GoesOn (serve libs write ending s n frames)
      (serve libs write ending' s n (frames ++ more)) := by
  induction frames generalizing s n with
  | nil => exact ⟨List.nil_prefix, fun htorn => absurd rfl htorn, serve_reports write h n more⟩
  | cons f frames ih =>
      rw [List.cons_append, serve, serve]
      cases hturn : s.turn libs f.2 f.1 with
      | none => exact .refl rfl rfl rfl
      | some out =>
          obtain ⟨s', reply⟩ := out
          obtain ⟨hmirrored, -⟩ := turn_reports h hturn
          cases reply with
          | none => exact (ih hmirrored n).after none
          | some frame =>
              dsimp only
              split_ifs
              · exact (ih hmirrored (n + 1)).after (some frame)
              · exact .refl rfl rfl rfl

/-- A write that fails costs what comes after its frame. -/
lemma serve_writes (n : ℕ) (frames : List (List UInt8 × FileSystem Path Time)) :
    (serve libs write ending s n frames).written ++ (serve libs write ending s n frames).torn.toList
      <+: (serve libs (fun _ => true) ending s n frames).written := by
  induction frames generalizing s n with
  | nil => exact List.prefix_rfl
  | cons f frames ih =>
      rw [serve, serve]
      cases s.turn libs f.2 f.1 with
      | none => exact List.prefix_rfl
      | some out =>
          obtain ⟨s', reply⟩ := out
          cases reply with
          | none => exact ih n
          | some frame =>
              dsimp only
              rw [if_pos rfl]
              split_ifs
              · exact (List.prefix_cons_inj frame).mpr (ih (n + 1))
              · exact List.prefix_append [frame] _

omit [DecidableEq Url] [DecidableEq Path] [DecidableEq Time] in
lemma withFiles_append (fs : ℕ → FileSystem Path Time) (k : ℕ) (bodies more : List (List UInt8)) :
    withFiles fs k (bodies ++ more)
      = withFiles fs k bodies ++ withFiles fs (k + bodies.length) more := by
  rw [withFiles, List.zipIdx_append, List.map_append]
  rfl

/-- **More input.**  An empty frame does not decode, so that it does no harm to read one. -/
theorem serveLsp_append (h : s.Mirrored) (hempty : libs.request [] = none)
    (fs : ℕ → FileSystem Path Time) (n k : ℕ) (buf input more : List UInt8) :
    GoesOn (serveLsp libs write fs s n k buf input)
      (serveLsp libs write fs s n k buf (input ++ more)) := by
  obtain ⟨read, ⟨rest, hrest⟩, hread⟩ := readFrames_append buf input more
  rw [serveLsp_eq_serve, serveLsp_eq_serve, ← hrest, withFiles_append]
  rcases hread with hread | hread
  · rw [hread]
    exact serve_append write h n _ _ _
  · obtain ⟨hserver, hwritten, -, htorn⟩ := serve_undecodable hempty write (readFrames buf input).2
      (fs (k + read.length)) s n (withFiles fs k read) []
    have hcut : withFiles fs k (read ++ [[]])
        = withFiles fs k read ++ [([], fs (k + read.length))] := withFiles_append fs k read [[]]
    rw [List.append_nil] at hserver hwritten htorn
    rw [hread, hcut]
    have hmore : GoesOn (serve libs write (readFrames buf input).2 s n (withFiles fs k read))
        (serve libs write (readFrames buf (input ++ more)).2 s n
          (withFiles fs k read ++ withFiles fs (k + read.length) rest)) :=
      serve_append write h n _ _ _
    obtain ⟨hwritten', htorn', hselections⟩ := hmore
    exact ⟨hwritten ▸ hwritten', fun hne => by rw [htorn, hwritten]; exact htorn' (htorn ▸ hne),
      hserver ▸ hselections⟩

omit [DecidableEq Url] [DecidableEq Path] [DecidableEq Time] in
/-- The bytes that went back begin those of all frames, the torn one and all. -/
lemma output_begins (r : Served Url Path Time) (k : ℕ) :
    r.output k <+: (r.written ++ r.torn.toList).flatMap writeFrame := by
  rw [Served.output, List.flatMap_append, List.prefix_append_right_inj]
  cases r.torn with
  | none => simp
  | some frame =>
      rw [Option.map_some, Option.getD_some, Option.toList_some, List.flatMap_singleton]
      exact List.take_prefix _ _

/-- **Bytes to bytes.**  Whatever bytes come in, with files that come, go and change between
messages, whichever write fails, and however much of its frame is out by then:

1. if more bytes come in, what went back is the beginning of what goes back then, and the selections
   reported are the first of those reported then;
2. if no frame is over the cap of the reader, then the frames written are what is read of it, unless
   a write failed; and at any moment, what was read of it are responses to the first of the ids that
   await one. -/
theorem serve_streams (libs : Libs Path Url) (hraw : libs.RawIds) (hempty : libs.request [] = none)
    (write : ℕ → Bool) (fs : ℕ → FileSystem Path Time) (k : ℕ) (input more : List UInt8) :
    let served := fun input => serveLsp libs write fs new 0 0 [] input
    let output := fun input => (served input).output k
    output input <+: output (input ++ more) ∧
    (served input).server.selections <+: (served (input ++ more)).server.selections ∧
    ((∀ frame ∈ (served input).written ++ (served input).torn.toList,
        frame.length ≤ maxFrameBytes) →
      ((served input).torn = none →
        readFrames [] (output input) = ((served input).written, .ok ())) ∧
      ∀ j, ∃ ids, ids <+: awaited .fresh (heard libs (withFiles fs 0 (readFrames [] input).1)) ∧
        List.Forall₂ IsResponse ids (readFrames [] ((output input).take j)).1) := by
  intro served output
  have hgoes := serveLsp_append write mirrored_new hempty fs 0 0 [] input more
  refine ⟨hgoes.output k, hgoes.selections, fun hcap => ?_⟩
  obtain ⟨hwhole, hcut⟩ := readFrames_written hcap []
  refine ⟨fun htorn => ?_, fun j => ?_⟩
  · dsimp only [served] at htorn hwhole
    simp only [htorn, Option.toList_none, List.append_nil] at hwhole
    simpa [output, Served.output, served, htorn] using hwhole
  -- had no write failed, all would be responded to
  have hall := serve_written mirrored_new new_inPhase hraw (readFrames [] input).2 0
    (withFiles fs 0 (readFrames [] input).1)
  have hprefix : (served input).written ++ (served input).torn.toList
      <+: (serve libs (fun _ => true) (readFrames [] input).2 new 0
        (withFiles fs 0 (readFrames [] input).1)).written := by
    dsimp only [served]
    rw [serveLsp_eq_serve]
    exact serve_writes write 0 _
  have hread : (readFrames [] ((output input).take j)).1
      <+: (served input).written ++ (served input).torn.toList := by
    have hbegins := (List.take_prefix j (output input)).trans (output_begins (served input) k)
    rw [List.prefix_iff_eq_take.mp hbegins]
    exact hcut _
  rw [List.prefix_iff_eq_take.mp (hread.trans hprefix)]
  exact ⟨_, List.take_prefix _ _, List.forall₂_take _ hall⟩

/-- The session of `Correspondence`, on the wire. -/
def editingInput : List UInt8 := (editing.map Prod.fst).flatMap writeFrame

/-- The disk, as its messages find it. -/
def editingFiles (n : ℕ) : FileSystem Text ℕ := savedFiles (if n < 6 then 1 else 2)

lemma readFrames_editingInput : readFrames [] editingInput = (editing.map Prod.fst, .ok ()) :=
  (readFrames_written (by decide +kernel) []).1

lemma withFiles_editing : withFiles editingFiles 0 (editing.map Prod.fst) = editing := rfl

/-- The input is cut in the middle of a frame, and goes on; of the frame that is written last, ten
bytes get out. -/
theorem serve_streams_editing :
    let served := fun input =>
      serveLsp textLibs (fun n => n != 4) editingFiles new 0 0 [] input
    (served (editingInput.take 200)).output 10 <+: (served editingInput).output 10 ∧
      (served editingInput).written.length = 4 ∧ (served editingInput).torn.isSome = true ∧
      ∀ j, ∃ ids, ids <+: [1, 2, 3, 4, 5].map Text.toDigits ∧
        List.Forall₂ IsResponse ids
          (readFrames [] (((served editingInput).output 10).take j)).1 := by
  intro served
  have hserved : served editingInput = _ := serveLsp_eq_serve _ _ _ _ _ _ _ _
  rw [readFrames_editingInput, withFiles_editing] at hserved
  have hempty : textLibs.request [] = none := by decide +kernel
  have hcap : ∀ frame ∈ (served editingInput).written ++ (served editingInput).torn.toList,
      frame.length ≤ maxFrameBytes := by
    rw [hserved]
    decide +kernel
  have hawaited : awaited .fresh (heard textLibs editing) = [1, 2, 3, 4, 5].map Text.toDigits := by
    decide +kernel
  have hcut := (serve_streams textLibs textLibs_rawIds hempty (fun n => n != 4) editingFiles 10
    (editingInput.take 200) (editingInput.drop 200)).1
  have hwhole := ((serve_streams textLibs textLibs_rawIds hempty (fun n => n != 4) editingFiles 10
    editingInput []).2.2 hcap).2
  rw [List.take_append_drop] at hcut
  rw [readFrames_editingInput, withFiles_editing, hawaited] at hwhole
  refine ⟨hcut, ?_, ?_, hwhole⟩
  · rw [hserved]
    decide +kernel
  · rw [hserved]
    decide +kernel

end LspServer

end Connect
