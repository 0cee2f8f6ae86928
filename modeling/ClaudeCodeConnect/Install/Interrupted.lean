import ClaudeCodeConnect.Core.Interruptible
import ClaudeCodeConnect.Install.ServerBinary

/-!
# The resolution, step by step

The resolution of `ServerBinary` with every state on the way, and with what each file holds: a
download, or a copy, is there before it is whole.

* `Workdir` -- the work directory and the session; `whole` says which files are complete.
* `serverBinary` and the functions under it -- as the source has them, one step for each change.
* `serverBinary_eq` -- uninterrupted, it is the resolution of `ServerBinary`.
-/

namespace Connect.Launch

open Interruptible

/-- Where a path comes from. -/
inductive Origin
  | settings
  | release
  /-- `which`. -/
  | path
  deriving DecidableEq, Repr

/-- What the calls of one resolution answer; no tag ends like a download in progress. -/
structure Answers extends Calls where
  /-- Whether a copy that failed had created its file. -/
  leavesCopy : Bool
  tag : ∀ release, latestGithubRelease = .ok release → ¬downloadSuffix <:+ release.version

/-- The work directory, and the session. -/
structure Workdir where
  files : List Text
  /-- Whether the file at a path is complete. -/
  whole : Text → Bool
  status : Option InstallationStatus
  cached : Option (Text × Origin)

namespace Workdir

/-- As `ServerBinary` has it. -/
def extensionState (s : Workdir) : ExtensionState := ⟨s.files, s.status, s.cached.map Prod.fst⟩

/-- A file is created, or truncated, and nothing is in it yet. -/
def create (s : Workdir) (path : Text) : Workdir :=
  { s with files := writeFile path s.files, whole := Function.update s.whole path false }

/-- What comes into it makes it whole, or not. -/
def fill (s : Workdir) (path : Text) (whole : Bool) : Workdir :=
  { s with whole := Function.update s.whole path whole }

/-- `fs::remove_file`, which succeeds or does not. -/
def remove (s : Workdir) (removed : Bool) (path : Text) : Workdir :=
  { s with files := removeFile removed path s.files }

/-- `fs::rename`. -/
def rename (s : Workdir) (source target : Text) : Workdir :=
  { s with
    files := writeFile target (s.files.filter (· ≠ source))
    whole := Function.update s.whole target (s.whole source) }

/-- `set_language_server_installation_status`. -/
def setStatus (s : Workdir) (status : InstallationStatus) : Workdir :=
  { s with status := some status }

/-- `self.cached_binary_path = Some(path)`. -/
def remember (s : Workdir) (answer : Text × Origin) : Workdir := { s with cached := some answer }

/-- The path resolved earlier in the session, if the file exists. -/
def remembered (s : Workdir) : Option (Text × Origin) :=
  s.cached.filter fun answer => s.files.contains answer.1

/-- The directory outlives the session. -/
def newSession (s : Workdir) : Workdir := { s with status := none, cached := none }

end Workdir

/-- `download_file`: the file is there first, and then whole. -/
def downloadFile (a : Answers) (url temp : Text) : Interruptible Workdir (Except Text Unit) :=
  match a.downloadFile url with
  | .error e => do
      stepIf a.leavesDownload (·.create temp)
      return .error e
  | .ok () => do
      step (·.create temp)
      step (·.fill temp true)
      return .ok ()

/-- `refresh_stable_copy`. -/
def refreshStableCopy (a : Answers) (versioned : Text) : Interruptible Workdir Unit :=
  match a.copy with
  | .ok () => do
      step (·.create stableName)
      step fun s => s.fill stableName (s.whole versioned)
  | .error _ => stepIf a.leavesCopy (·.create stableName)

/-- `fallback_binary`. -/
def cachedFallback (asset : Text) : Interruptible Workdir (Option Text) := do
  let s ← read
  return Connect.cachedFallback asset s.files

/-- Download to the temporary name, make that executable, rename it into place. -/
def download (a : Answers) (url versioned : Text) : Interruptible Workdir (Except Text Unit) := do
  let temp := downloadTempName versioned
  match ← downloadFile a url temp with
  | .error e => return .error e
  | .ok () =>
    match a.makeFileExecutable temp with
    | .error e => return .error e
    | .ok () =>
      match a.rename with
      | .error e => return .error e
      | .ok () =>
        step (·.rename temp versioned)
        return .ok ()

/-- Delete every build but the one just installed. -/
def removeOld (a : Answers) (asset versioned : Text) : Interruptible Workdir Unit := do
  let s ← read
  ((cachedBinaries asset s.files).filter (· ≠ versioned)).forM fun old =>
    step (·.remove (a.removeFile old) old)

/-- The part of `release_binary` after the asset has been found. -/
def downloadAsset (a : Answers) (asset versioned : Text) (found : GithubReleaseAsset) :
    Interruptible Workdir (Except Text Text) := do
  let temp := downloadTempName versioned
  step (·.remove (a.removeFile temp) temp)
  match ← download a found.downloadUrl versioned with
  | .ok () =>
    removeOld a asset versioned
    refreshStableCopy a versioned
    step (·.setStatus .none)
    return .ok versioned
  | .error e =>
    step (·.remove a.removeDownload temp)
    step (·.setStatus (.failed e))
    match ← cachedFallback asset with
    | some path => return .ok path
    | none => return .error ("download of ".toList ++ found.name ++ " failed (".toList ++ e ++
        ") and no cached binary exists".toList)

/-- `release_binary`. -/
def releaseBinary (a : Answers) : Interruptible Workdir (Except Text Text) :=
  match assetPrefix a.toCalls with
  | .error e => return .error e
  | .ok asset => do
    step (·.setStatus .checkingForUpdate)
    match a.latestGithubRelease with
    | .error e =>
      match ← cachedFallback asset with
      | some path => return .ok path
      | none => return .error ("could not fetch the latest release from ".toList ++ githubRepo ++
          " (".toList ++ e ++ ") and no cached binary exists".toList)
    | .ok release =>
      let versioned := versionedName asset release.version
      let s ← read
      if s.files.contains versioned then
        step (·.setStatus .none)
        match a.makeFileExecutable versioned with
        | .error e => return .error e
        | .ok () =>
          refreshStableCopy a versioned
          return .ok versioned
      else
        match release.assets.find? (·.name == asset) with
        | none => return .error ("release ".toList ++ release.version ++
            " has no asset named ".toList ++ asset)
        | some found =>
          step (·.setStatus .downloading)
          downloadAsset a asset versioned found

/-- What `server_binary` makes of the release tier's answer: without one, it asks `which`. -/
def orOnPath (a : Answers) : Except Text Text → Interruptible Workdir (Except Text (Text × Origin))
  | .ok path => do
      step (·.remember (path, .release))
      return .ok (path, .release)
  | .error e =>
      match a.which with
      | some path => do
          step (·.remember (path, .path))
          return .ok (path, .path)
      | none => do
          let message := e ++ ", and ".toList ++ serverId ++ " is not on PATH".toList
          step (·.setStatus (.failed message))
          return .error message

/-- `ClaudeCodeExtension::server_binary`, with where the path comes from. -/
def serverBinary (a : Answers) : Interruptible Workdir (Except Text (Text × Origin)) :=
  match a.settingsPath with
  | some path => return .ok (path, .settings)
  | none => do
    let s ← read
    match s.remembered with
    | some answer => return .ok answer
    | none => releaseBinary a >>= orOnPath a

/-! ## Uninterrupted

Run to its end, the computation gives the value of the function of `ServerBinary` that it spells
out, and leaves the files as that does.  One lemma for each function, put together by `Yields.bind`.
-/

section Uninterrupted

variable {α β : Type}

/-- From every state that `ServerBinary` has as `e`, the computation gives `v` and ends in one that
it has as `e'`. -/
def Yields (c : Interruptible Workdir α) (e : ExtensionState) (v : α) (e' : ExtensionState) :
    Prop :=
  Triple (fun s => s.extensionState = e) c (fun _ => True) fun a t => t.extensionState = e' ∧ a = v

variable {e e₁ e' : ExtensionState} {v : α}

lemma Yields.ret : Yields (pure v) e v e := triple_pure fun _ hs => ⟨hs, rfl⟩

lemma Yields.bind {c : Interruptible Workdir α} {f : α → Interruptible Workdir β} {v' : β}
    (hc : Yields c e v e₁) (hf : Yields (f v) e₁ v' e') : Yields (c >>= f) e v' e' :=
  triple_bind hc fun _ => triple_and fun h => h ▸ hf

lemma Yields.moves {f : Workdir → Workdir}
    (h : ∀ s, s.extensionState = e → (f s).extensionState = e') : Yields (step f) e () e' :=
  triple_step fun s hs => ⟨trivial, h s hs, rfl⟩

lemma Yields.remove {removed : Bool} {path : Text} :
    Yields (step (·.remove removed path)) e ()
      { e with files := removeFile removed path e.files } :=
  .moves fun s hs => by subst hs; rfl

lemma Yields.setStatus {status : InstallationStatus} :
    Yields (step (·.setStatus status)) e () { e with status := some status } :=
  .moves fun s hs => by subst hs; rfl

lemma Yields.remember {answer : Text × Origin} :
    Yields (step (·.remember answer)) e () { e with cachedBinaryPath := some answer.1 } :=
  .moves fun s hs => by subst hs; rfl

lemma Yields.rename {source target : Text} :
    Yields (step (·.rename source target)) e ()
      { e with files := writeFile target (e.files.filter (· ≠ source)) } :=
  .moves fun s hs => by subst hs; rfl

lemma Yields.create {path : Text} :
    Yields (step (·.create path)) e () { e with files := writeFile path e.files } :=
  .moves fun s hs => by subst hs; rfl

lemma Yields.skip {f : Workdir → Workdir} : Yields (stepIf false f) e () e := .ret

/-- What is read is of the state. -/
lemma Yields.read {f : Workdir → Interruptible Workdir α}
    (hf : ∀ s, s.extensionState = e → Yields (f s) e v e') : Yields (read >>= f) e v e' :=
  triple_bind triple_read fun s t ⟨hst, ht⟩ => hf s (hst ▸ ht) t ht

variable (a : Answers) (asset versioned : Text)

lemma yields_cachedFallback :
    Yields (cachedFallback asset) e (Connect.cachedFallback asset e.files) e :=
  .read fun s hs => by
    subst hs
    exact .ret

lemma yields_download (url : Text) :
    Yields (download a url versioned) e (Connect.download a.toCalls url versioned e.files).1
      { e with files := (Connect.download a.toCalls url versioned e.files).2 } := by
  simp only [download, Connect.download, downloadFile]
  cases a.downloadFile url with
  | error err =>
      cases a.leavesDownload with
      | false => exact .bind (.bind .skip .ret) .ret
      | true => exact .bind (.bind .create .ret) .ret
  | ok u =>
      refine .bind (.bind .create (.bind (.moves fun s hs => hs) .ret)) ?_
      cases a.makeFileExecutable (downloadTempName versioned) with
      | error err => exact .ret
      | ok u =>
          cases a.rename with
          | error err => exact .ret
          | ok u => exact .bind .rename .ret

lemma yields_refreshStableCopy (h : a.leavesCopy = false) :
    Yields (refreshStableCopy a versioned) e ()
      { e with files := Connect.refreshStableCopy a.toCalls e.files } := by
  simp only [refreshStableCopy, Connect.refreshStableCopy, h]
  cases a.copy with
  | error err => exact .skip
  | ok u => exact .bind .create (.moves fun s hs => hs)

lemma yields_removeOld :
    Yields (removeOld a asset versioned) e ()
      { e with files := Connect.removeOld a.toCalls asset versioned e.files } := by
  have hloop (old : List Text) (e : ExtensionState) :
      Yields (old.forM fun path => step (·.remove (a.removeFile path) path)) e ()
        { e with files :=
            old.foldl (fun files path => removeFile (a.removeFile path) path files) e.files } := by
    induction old generalizing e with
    | nil => exact .ret
    | cons path old ih =>
        exact .bind .remove (ih { e with files := removeFile (a.removeFile path) path e.files })
  refine .read fun s hs => ?_
  subst hs
  exact hloop _ _

lemma yields_downloadAsset (found : GithubReleaseAsset) (h : a.leavesCopy = false) :
    Yields (downloadAsset a asset versioned found) e
      (Connect.downloadAsset a.toCalls asset versioned found e).1
      (Connect.downloadAsset a.toCalls asset versioned found e).2 := by
  simp only [downloadAsset, Connect.downloadAsset]
  refine .bind .remove ((yields_download a versioned found.downloadUrl).bind ?_)
  dsimp only
  rcases Connect.download a.toCalls found.downloadUrl versioned
    (removeFile (a.removeFile (downloadTempName versioned)) (downloadTempName versioned) e.files)
    with ⟨err | u, files⟩
  · refine .bind .remove (.bind .setStatus ((yields_cachedFallback asset).bind ?_))
    dsimp only
    cases Connect.cachedFallback asset
      (removeFile a.removeDownload (downloadTempName versioned) files) with
    | none => exact .ret
    | some path => exact .ret
  · exact (yields_removeOld a asset versioned).bind
      ((yields_refreshStableCopy a versioned h).bind (.bind .setStatus .ret))

lemma yields_releaseBinary (h : a.leavesCopy = false) :
    Yields (releaseBinary a) e (Connect.releaseBinary a.toCalls e).1
      (Connect.releaseBinary a.toCalls e).2 := by
  simp only [releaseBinary, Connect.releaseBinary]
  cases assetPrefix a.toCalls with
  | error err => exact .ret
  | ok asset =>
      dsimp only
      refine .bind .setStatus ?_
      cases a.latestGithubRelease with
      | error err =>
          refine (yields_cachedFallback asset).bind ?_
          dsimp only
          cases Connect.cachedFallback asset e.files with
          | none => exact .ret
          | some path => exact .ret
      | ok release =>
          refine .read fun s hs => ?_
          have hfiles : s.files = e.files := congrArg ExtensionState.files hs
          simp only [hfiles, List.contains_iff_mem]
          split_ifs with hhere
          · refine .bind .setStatus ?_
            cases a.makeFileExecutable (versionedName asset release.version) with
            | error err => exact .ret
            | ok u => exact (yields_refreshStableCopy a _ h).bind .ret
          · cases release.assets.find? (·.name == asset) with
            | none => exact .ret
            | some found => exact .bind .setStatus (yields_downloadAsset a asset _ found h)

lemma yields_orOnPath_ok {path : Text} :
    Yields (orOnPath a (.ok path)) e (.ok (path, .release))
      { e with cachedBinaryPath := some path } := .bind .remember .ret

lemma yields_orOnPath_which {err path : Text} (h : a.which = some path) :
    Yields (orOnPath a (.error err)) e (.ok (path, .path))
      { e with cachedBinaryPath := some path } := by
  simp only [orOnPath, h]
  exact .bind .remember .ret

lemma yields_orOnPath_none {err : Text} (h : a.which = none) :
    Yields (orOnPath a (.error err)) e
      (.error (err ++ ", and ".toList ++ serverId ++ " is not on PATH".toList))
      { e with
        status :=
          some (.failed (err ++ ", and ".toList ++ serverId ++ " is not on PATH".toList)) } := by
  simp only [orOnPath, h]
  exact .bind .setStatus .ret

/-- **Uninterrupted, it is the resolution of `ServerBinary`.** -/
theorem serverBinary_eq (s : Workdir) (h : a.leavesCopy = false) :
    ((serverBinary a s).value.map Prod.fst, (serverBinary a s).last.extensionState)
      = Connect.serverBinary a.toCalls s.extensionState := by
  simp only [serverBinary, Connect.serverBinary]
  cases a.settingsPath with
  | some path => rfl
  | none =>
      have hcached : s.extensionState.cachedBinaryPath.filter (· ∈ s.extensionState.files)
          = s.remembered.map Prod.fst := by
        show (s.cached.map Prod.fst).filter (· ∈ s.files) = _
        rw [Option.filter_map, Workdir.remembered]
        simp only [List.contains_eq_mem]
        rfl
      rw [hcached]
      simp only [bind_apply, read_apply]
      cases s.remembered with
      | some answer => rfl
      | none =>
          have hyields := yields_releaseBinary a h (e := s.extensionState)
          rcases hrelease : Connect.releaseBinary a.toCalls s.extensionState with ⟨err | path, e'⟩
          · rw [hrelease] at hyields
            cases hwhich : a.which with
            | none =>
                obtain ⟨-, hlast, hvalue⟩ := hyields.bind (yields_orOnPath_none a hwhich) s rfl
                exact Prod.ext (congrArg (Except.map Prod.fst) hvalue) hlast
            | some path =>
                obtain ⟨-, hlast, hvalue⟩ := hyields.bind (yields_orOnPath_which a hwhich) s rfl
                exact Prod.ext (congrArg (Except.map Prod.fst) hvalue) hlast
          · rw [hrelease] at hyields
            obtain ⟨-, hlast, hvalue⟩ := hyields.bind (yields_orOnPath_ok a) s rfl
            exact Prod.ext (congrArg (Except.map Prod.fst) hvalue) hlast

end Uninterrupted

end Connect.Launch
