import ClaudeCodeConnect.Lock.Discovery

/-!
# Strangers in the lock directory

The lock directory is shared: other editors write into it, and companions die and leave their locks.
Here it is as `read_dir` lists it, with names and contents that are any bytes at all.

* `Listing`, `Host.over` -- a listing, and the host whose lock directory it is.
* `sweepDead` -- `sweep_dead`, as the source has it.
* `Host.Finds` -- the file is the lock of a live companion of ours that covers the path, said of its
  bytes and without the scan.
* `SameButStrangers` -- one listing is the other with files that no lock is found through put in or
  taken out.
* `lockFor_undisturbed` -- discovery is sound and complete, and strangers do not disturb it; in
  particular a sweep does not.
-/

namespace Connect

/-- A file of the lock directory; `none` for contents that cannot be read. -/
structure LockDirFile where
  name : List UInt8
  contents : Option (List UInt8)
  modified : Option ℤ
  deriving DecidableEq, Repr

/-- What `read_dir` lists of one directory: no name comes twice. -/
structure Listing where
  files : List LockDirFile
  nodup : (files.map LockDirFile.name).Nodup

/-- `remove_file`. -/
def Listing.remove (l : Listing) (name : List UInt8) : Listing where
  files := l.files.filter fun f => f.name ≠ name
  nodup := l.nodup.sublist (List.filter_sublist.map _)

section

variable (parse : Text → Option RawLock)

namespace LockDirFile

/-- `read_to_string`, and what `serde_json` makes of the text. -/
def raw? (f : LockDirFile) : Option RawLock := (f.contents.bind Text.fromUtf8).bind parse

/-- The file as an entry; one whose name is not UTF-8 is skipped. -/
def entry? (f : LockDirFile) : Option DirEntry :=
  (Text.fromUtf8 f.name).map fun name => ⟨name, f.raw? parse, f.modified⟩

end LockDirFile

/-- The host, with this listing for its lock directory. -/
def Host.over (h : Host) (l : Listing) : Host :=
  { h with readDir := some (l.files.filterMap (LockDirFile.entry? parse)) }

/-- What the sweep does with an entry.  `removes` says of a name whether `remove_ignoring_missing`
succeeds. -/
def sweepEntry (h : Host) (removes : List UInt8 → Bool) (ideName : Text)
    (s : Listing × List UInt16) (f : LockDirFile) : Listing × List UInt16 :=
  match (Text.fromUtf8 f.name).bind lockPort?, f.raw? parse with
  | some port, some raw =>
      if raw.ideName = ideName ∧ h.pidIsAlive raw.pid = false ∧ removes f.name = true then
        (s.1.remove f.name, s.2 ++ [port])
      else s
  | _, _ => s

/-- `sweep_dead`: the directory after it, and the ports removed. -/
def sweepDead (h : Host) (removes : List UInt8 → Bool) (ideName : Text) (l : Listing) :
    Listing × List UInt16 :=
  l.files.foldl (sweepEntry parse h removes ideName) (l, [])

/-! ## What discovery is to find

Said of a file and its bytes, without the scan: the specification. -/

/-- The file is named `<n>.lock`, its text parses, the lock is ours and its process alive, and one
of its folders is the path or contains it; the port is from the name, and the rest from the text. -/
structure Host.Finds (h : Host) (path : Text) (f : LockDirFile) (lock : IdeLock) : Prop where
  name : ∃ stem, f.name = Text.bytes (stem ++ '.' :: lockExtension) ∧
    Text.parseUnsigned UInt16.size stem = some lock.port.toNat
  body : ∃ text raw, f.contents = some (Text.bytes text) ∧ parse text = some raw ∧
    lock.authToken = raw.authToken ∧ lock.workspaceFolders = raw.workspaceFolders ∧
    lock.ideName = raw.ideName ∧ lock.pid = raw.pid
  ours : lock.ideName = ideName
  alive : h.pidIsAlive lock.pid = true
  covers : ∃ folder ∈ lock.workspaceFolders,
    components (h.canonical folder) <+: components (h.canonical path)

/-- No lock is found through the file. -/
def Host.Stranger (h : Host) (path : Text) (f : LockDirFile) : Prop :=
  ∀ lock, ¬h.Finds parse path f lock

/-- Files that no lock is found through are put in and taken out; the rest keep their order. -/
inductive SameButStrangers (h : Host) (path : Text) :
    List LockDirFile → List LockDirFile → Prop
  | nil : SameButStrangers h path [] []
  | keep {f : LockDirFile} {fs gs : List LockDirFile} (hrest : SameButStrangers h path fs gs) :
      SameButStrangers h path (f :: fs) (f :: gs)
  | delete {f : LockDirFile} {fs gs : List LockDirFile} (hf : h.Stranger parse path f)
      (hrest : SameButStrangers h path fs gs) : SameButStrangers h path (f :: fs) gs
  | insert {g : LockDirFile} {fs gs : List LockDirFile} (hg : h.Stranger parse path g)
      (hrest : SameButStrangers h path fs gs) : SameButStrangers h path fs (g :: gs)

/-! ## What the scan finds in a file

One file at a time, the scan agrees with the specification. -/

/-- The lock `lock_for` would return for a file, with the modification time it is sorted by. -/
def Host.found? (h : Host) (path : Text) (f : LockDirFile) : Option (ℤ × IdeLock) :=
  ((f.entry? parse).bind datedLock?).filter fun d =>
    h.isLive d.2 && d.2.workspaceFolders.any (h.covers (h.canonical path))

variable {parse} {h : Host} {path : Text}

lemma datedLock?_eq_some_iff {entry : DirEntry} {d : ℤ × IdeLock} :
    datedLock? entry = some d ↔ ∃ port raw, lockPort? entry.name = some port ∧
      entry.raw = some raw ∧ d = (entry.modified.getD unixEpoch,
        ⟨port, raw.authToken, raw.workspaceFolders, raw.ideName, raw.pid⟩) := by
  simp only [datedLock?, Option.bind_eq_bind, Option.bind_eq_some_iff, Option.pure_def,
    Option.some.injEq]
  constructor
  · rintro ⟨port, hport, raw, hraw, rfl⟩
    exact ⟨port, raw, hport, hraw, rfl⟩
  · rintro ⟨port, raw, hport, hraw, rfl⟩
    exact ⟨port, hport, raw, hraw, rfl⟩

lemma entry?_eq_some_iff {f : LockDirFile} {entry : DirEntry} :
    f.entry? parse = some entry ↔
      f.name = Text.bytes entry.name ∧ entry.raw = f.raw? parse ∧ entry.modified = f.modified := by
  rw [LockDirFile.entry?, Option.map_eq_some_iff]
  constructor
  · rintro ⟨name, hname, rfl⟩
    exact ⟨Text.fromUtf8_eq_some_iff.mp hname, rfl, rfl⟩
  · rintro ⟨hname, hraw, hmodified⟩
    refine ⟨entry.name, Text.fromUtf8_eq_some_iff.mpr hname, ?_⟩
    rw [← hraw, ← hmodified]

lemma raw?_eq_some_iff {f : LockDirFile} {raw : RawLock} :
    f.raw? parse = some raw ↔
      ∃ text, f.contents = some (Text.bytes text) ∧ parse text = some raw := by
  simp only [LockDirFile.raw?, Option.bind_eq_some_iff, Text.fromUtf8_eq_some_iff]
  constructor
  · rintro ⟨text, ⟨bytes, hbytes, rfl⟩, hraw⟩
    exact ⟨text, hbytes, hraw⟩
  · rintro ⟨text, hbytes, hraw⟩
    exact ⟨text, ⟨_, hbytes, rfl⟩, hraw⟩

/-- **The scan finds what it should** in each file. -/
theorem finds_iff {f : LockDirFile} {lock : IdeLock} :
    h.Finds parse path f lock ↔ ∃ modified, h.found? parse path f = some (modified, lock) := by
  constructor
  · rintro ⟨⟨stem, hname, hport⟩, ⟨text, raw, hcontents, hparse, htoken, hfolders, hide, hpid⟩,
      hours, halive, folder, hfolder, hcovers⟩
    refine ⟨f.modified.getD unixEpoch, ?_⟩
    have hentry : f.entry? parse = some ⟨stem ++ '.' :: lockExtension, some raw, f.modified⟩ :=
      entry?_eq_some_iff.mpr ⟨hname, (raw?_eq_some_iff.mpr ⟨text, hcontents, hparse⟩).symm, rfl⟩
    have hdated : datedLock? ⟨stem ++ '.' :: lockExtension, some raw, f.modified⟩
        = some (f.modified.getD unixEpoch, lock) := by
      refine datedLock?_eq_some_iff.mpr
        ⟨lock.port, raw, lockPort?_eq_some_iff.mpr ⟨stem, rfl, hport⟩, rfl, ?_⟩
      rw [← htoken, ← hfolders, ← hide, ← hpid]
    rw [Host.found?, hentry, Option.bind_some, hdated, Option.filter_some, if_pos]
    rw [Bool.and_eq_true, Host.isLive, Bool.and_eq_true, List.any_eq_true]
    refine ⟨⟨by simpa using hours, halive⟩, folder, hfolder, ?_⟩
    rw [Host.covers_eq, startsWith_iff]
    exact hcovers
  · rintro ⟨modified, hfound⟩
    rw [Host.found?, Option.filter_eq_some_iff, Option.bind_eq_some_iff] at hfound
    obtain ⟨⟨entry, hentry, hdated⟩, htest⟩ := hfound
    obtain ⟨hname, hraw, -⟩ := entry?_eq_some_iff.mp hentry
    obtain ⟨port, raw, hport, hraw', heq⟩ := datedLock?_eq_some_iff.mp hdated
    obtain ⟨text, hcontents, hparse⟩ := raw?_eq_some_iff.mp (hraw.symm.trans hraw')
    obtain ⟨stem, hstem, hparsed⟩ := lockPort?_eq_some_iff.mp hport
    obtain ⟨-, rfl⟩ := Prod.ext_iff.mp heq
    rw [Bool.and_eq_true, Host.isLive, Bool.and_eq_true, List.any_eq_true] at htest
    obtain ⟨⟨hours, halive⟩, folder, hfolder, hcovers⟩ := htest
    rw [Host.covers_eq, startsWith_iff] at hcovers
    exact ⟨⟨stem, hstem ▸ hname, hparsed⟩,
      ⟨text, raw, hcontents, hparse, rfl, rfl, rfl, rfl⟩, by simpa using hours, halive,
      folder, hfolder, hcovers⟩

lemma stranger_iff {f : LockDirFile} :
    h.Stranger parse path f ↔ h.found? parse path f = none := by
  rw [Host.Stranger, Option.eq_none_iff_forall_not_mem]
  constructor
  · rintro hf ⟨modified, lock⟩ hfound
    exact hf lock (finds_iff.mpr ⟨modified, hfound⟩)
  · intro hf lock hfinds
    obtain ⟨modified, hfound⟩ := finds_iff.mp hfinds
    exact hf (modified, lock) hfound

/-! ## The scan over the listing

The answer is the newest of what the files give, and files that give nothing can come and go. -/

/-- The first live lock that covers the path. -/
lemma Host.lockFor_eq_elim (h : Host) (path : Text) : h.lockFor path =
    (h.allLocks.find? fun lock =>
      h.isLive lock && lock.workspaceFolders.any (h.covers (h.canonical path))).elim
      (.error ("no running companion covers ".toList ++ h.canonical path ++
        " -- is the project open in Zed?".toList)) .ok := by
  rw [Host.lockFor]
  cases h.allLocks.find? fun lock =>
    h.isLive lock && lock.workspaceFolders.any (h.covers (h.canonical path)) <;> rfl

/-- The newest of the live locks that cover the path. -/
lemma Host.lockFor_eq_newest (h : Host) (path : Text) : h.lockFor path =
    (sortGreatestFirst Prod.fst (h.datedLocks.filter fun d => h.isLive d.2 &&
      d.2.workspaceFolders.any (h.covers (h.canonical path)))).head?.elim
      (.error ("no running companion covers ".toList ++ h.canonical path ++
        " -- is the project open in Zed?".toList)) fun d => .ok d.2 := by
  let test (d : ℤ × IdeLock) : Bool :=
    h.isLive d.2 && d.2.workspaceFolders.any (h.covers (h.canonical path))
  have hfind : h.allLocks.find?
      (fun lock => h.isLive lock && lock.workspaceFolders.any (h.covers (h.canonical path)))
        = (sortGreatestFirst Prod.fst (h.datedLocks.filter test)).head?.map Prod.snd := by
    rw [Host.allLocks, List.find?_map, ← filter_sortGreatestFirst, List.head?_filter]
    rfl
  rw [h.lockFor_eq_elim, hfind]
  cases (sortGreatestFirst Prod.fst (h.datedLocks.filter test)).head? <;> rfl

/-- **The answer is read off what is found**, the newest of it. -/
theorem lockFor_over (l : Listing) :
    (h.over parse l).lockFor path =
      (sortGreatestFirst Prod.fst (l.files.filterMap (h.found? parse path))).head?.elim
        (.error ("no running companion covers ".toList ++ h.canonical path ++
          " -- is the project open in Zed?".toList)) fun d => .ok d.2 := by
  let test (d : ℤ × IdeLock) : Bool :=
    h.isLive d.2 && d.2.workspaceFolders.any (h.covers (h.canonical path))
  have hdated :
      (h.over parse l).datedLocks.filter test = l.files.filterMap (h.found? parse path) := by
    have hlocks : (h.over parse l).datedLocks
        = (l.files.filterMap (LockDirFile.entry? parse)).filterMap datedLock? := rfl
    rw [hlocks, List.filterMap_filterMap, List.filter_filterMap]
    rfl
  rw [← hdated]
  exact (h.over parse l).lockFor_eq_newest path

/-- Sound: what is returned is found through a file. -/
lemma finds_of_lockFor {l : Listing} {lock : IdeLock}
    (hlock : (h.over parse l).lockFor path = .ok lock) :
    ∃ f ∈ l.files, h.Finds parse path f lock := by
  rw [lockFor_over] at hlock
  cases hhead : (sortGreatestFirst Prod.fst (l.files.filterMap (h.found? parse path))).head? with
  | none =>
      rw [hhead] at hlock
      cases hlock
  | some d =>
      rw [hhead] at hlock
      cases hlock
      obtain ⟨f, hf, hfound⟩ :=
        List.mem_filterMap.mp (mem_sortGreatestFirst.mp (List.mem_of_head? hhead))
      exact ⟨f, hf, finds_iff.mpr ⟨d.1, hfound⟩⟩

/-- Complete: if a lock is found through any file, one is returned. -/
lemma exists_lockFor {l : Listing} {f : LockDirFile} {lock : IdeLock} (hf : f ∈ l.files)
    (hfinds : h.Finds parse path f lock) : ∃ lock, (h.over parse l).lockFor path = .ok lock := by
  obtain ⟨modified, hfound⟩ := finds_iff.mp hfinds
  have hmem : (modified, lock) ∈
      sortGreatestFirst Prod.fst (l.files.filterMap (h.found? parse path)) :=
    mem_sortGreatestFirst.mpr (List.mem_filterMap.mpr ⟨f, hf, hfound⟩)
  obtain ⟨d, rest, hsorted⟩ := List.exists_cons_of_ne_nil (List.ne_nil_of_mem hmem)
  exact ⟨d.2, by rw [lockFor_over, hsorted, List.head?_cons, Option.elim_some]⟩

lemma filterMap_sameButStrangers {fs gs : List LockDirFile}
    (hsame : SameButStrangers parse h path fs gs) :
    fs.filterMap (h.found? parse path) = gs.filterMap (h.found? parse path) := by
  induction hsame with
  | nil => rfl
  | keep _ ih => rw [List.filterMap_cons, List.filterMap_cons, ih]
  | delete hf _ ih => rw [List.filterMap_cons_none (stranger_iff.mp hf), ih]
  | insert hg _ ih => rw [List.filterMap_cons_none (stranger_iff.mp hg), ih]

/-- Undisturbed: strangers make no difference. -/
lemma lockFor_sameButStrangers {l l' : Listing}
    (hsame : SameButStrangers parse h path l.files l'.files) :
    (h.over parse l).lockFor path = (h.over parse l').lockFor path := by
  rw [lockFor_over, lockFor_over, filterMap_sameButStrangers hsame]

/-! ## The sweep

A sweep removes strangers only. -/

/-- A file leaves the directory, and nothing else changes. -/
lemma sameButStrangers_filter {keeps : LockDirFile → Bool} {fs : List LockDirFile}
    (hgone : ∀ f ∈ fs, keeps f = false → h.Stranger parse path f) :
    SameButStrangers parse h path fs (fs.filter keeps) := by
  induction fs with
  | nil => exact .nil
  | cons f fs ih =>
      have ih := ih fun g hg => hgone g (List.mem_cons_of_mem f hg)
      cases hf : keeps f with
      | true =>
          rw [List.filter_cons_of_pos hf]
          exact .keep ih
      | false =>
          rw [List.filter_cons_of_neg (by simp [hf])]
          exact .delete (hgone f List.mem_cons_self hf) ih

/-- What the sweep removes is a stranger: its process is dead. -/
lemma stranger_of_dead {f : LockDirFile} {raw : RawLock} (hraw : f.raw? parse = some raw)
    (hdead : h.pidIsAlive raw.pid = false) : h.Stranger parse path f := by
  rintro lock ⟨-, ⟨text, raw', hcontents, hparse, -, -, -, hpid⟩, -, halive, -⟩
  have hsame : some raw = some raw' :=
    hraw.symm.trans (raw?_eq_some_iff.mpr ⟨text, hcontents, hparse⟩)
  cases hsame
  rw [hpid, hdead] at halive
  cases halive

/-- One entry of the sweep: what it removes are strangers. -/
lemma sweepEntry_undisturbed (removes : List UInt8 → Bool) (name : Text) {l : Listing}
    {s : Listing × List UInt16} {f : LockDirFile} (hf : f ∈ l.files)
    (hs : s.1.files ⊆ l.files) :
    (sweepEntry parse h removes name s f).1.files ⊆ l.files ∧
      (h.over parse (sweepEntry parse h removes name s f).1).lockFor path
        = (h.over parse s.1).lockFor path := by
  rw [sweepEntry]
  split
  · rename_i port raw hport hraw
    split_ifs with hsweep
    · refine ⟨fun g hg => hs (List.mem_of_mem_filter hg), (lockFor_sameButStrangers ?_).symm⟩
      refine sameButStrangers_filter fun g hg hgone => ?_
      -- The only file of that name is the one judged dead.
      have hname : g.name = f.name := by simpa using hgone
      have hgf : g = f := List.inj_on_of_nodup_map l.nodup (hs hg) hf hname
      exact stranger_of_dead (hgf ▸ hraw) hsweep.2.1
    · exact ⟨hs, rfl⟩
  · exact ⟨hs, rfl⟩

/-- **A sweep does not change what discovery returns.** -/
theorem lockFor_sweepDead (removes : List UInt8 → Bool) (name : Text) (l : Listing) :
    (h.over parse (sweepDead parse h removes name l).1).lockFor path
      = (h.over parse l).lockFor path := by
  have hfold : ∀ (fs : List LockDirFile) (s : Listing × List UInt16), fs ⊆ l.files →
      s.1.files ⊆ l.files →
        (h.over parse (fs.foldl (sweepEntry parse h removes name) s).1).lockFor path
          = (h.over parse s.1).lockFor path := by
    intro fs
    induction fs with
    | nil => exact fun s _ _ => rfl
    | cons f fs ih =>
        intro s hfs hs
        obtain ⟨hf, hrest⟩ := List.cons_subset.mp hfs
        obtain ⟨hsub, hsame⟩ := sweepEntry_undisturbed removes name hf hs
        rw [List.foldl_cons, ih _ hrest hsub, hsame]
  exact hfold l.files (l, []) (List.Subset.refl _) (List.Subset.refl _)

end

/-- **Discovery is sound, complete and undisturbed by strangers.** -/
theorem lockFor_undisturbed (parse : Text → Option RawLock) (h : Host) (path : Text) :
    (∀ l, (∃ lock, (h.over parse l).lockFor path = .ok lock) ↔
      ∃ f ∈ l.files, ∃ lock, h.Finds parse path f lock) ∧
    (∀ l lock, (h.over parse l).lockFor path = .ok lock →
      ∃ f ∈ l.files, h.Finds parse path f lock) ∧
    (∀ l l' : Listing, SameButStrangers parse h path l.files l'.files →
      (h.over parse l).lockFor path = (h.over parse l').lockFor path) ∧
    ∀ removes name l, (h.over parse (sweepDead parse h removes name l).1).lockFor path
      = (h.over parse l).lockFor path := by
  refine ⟨fun l => ⟨?_, ?_⟩, fun l lock => finds_of_lockFor,
    fun l l' => lockFor_sameButStrangers, lockFor_sweepDead⟩
  · rintro ⟨lock, hlock⟩
    obtain ⟨f, hf, hfinds⟩ := finds_of_lockFor hlock
    exact ⟨f, hf, lock, hfinds⟩
  · rintro ⟨f, hf, lock, hfinds⟩
    exact exists_lockFor hf hfinds

/-- Two locks of ours on one folder, of processes 10 and 11, and what `serde_json` makes of them. -/
def lockText (pid : Text) : Text :=
  "\x7b\"workspaceFolders\":[\"/p\"],\"ideName\":\"Zed\",\"pid\":".toList ++ pid ++ "\x7d".toList

/-- The parser, on these two texts. -/
def parseLock (text : Text) : Option RawLock :=
  if text = lockText "10".toList then some ⟨["/p".toList], [], ideName, 10⟩
  else if text = lockText "11".toList then some ⟨["/p".toList], [], ideName, 11⟩
  else none

/-- The older one, a file of something else, and the newer one. -/
def sharedListing : Listing where
  files := [
    ⟨Text.bytes "4001.lock".toList, some (Text.bytes (lockText "10".toList)), some 1⟩,
    ⟨Text.bytes "README".toList, none, none⟩,
    ⟨Text.bytes "4002.lock".toList, some (Text.bytes (lockText "11".toList)), some 2⟩]
  nodup := by decide +kernel

/-- The newer one's process is dead: with and without a sweep, the older one is found. -/
theorem lockFor_undisturbed_shared :
    let h : Host := ⟨none, some, fun pid => pid == 10⟩
    (sweepDead parseLock h (fun _ => true) ideName sharedListing).2 = [4002] ∧
      (h.over parseLock (sweepDead parseLock h (fun _ => true) ideName sharedListing).1).lockFor
        "/p/q".toList = .ok ⟨4001, [], ["/p".toList], ideName, 10⟩ := by
  intro h
  have hsweep := (lockFor_undisturbed parseLock h "/p/q".toList).2.2.2 (fun _ => true) ideName
    sharedListing
  exact ⟨by decide +kernel, hsweep.trans (by decide +kernel)⟩

end Connect
