import AppSuite.Codex.ApplyPatch.Replacements

/-!
This module contains how hunks are applied to a file system, up to the first failure, and the delta
of what they changed, and file systems that are maps from paths to texts.
-/

namespace Codex.ApplyPatch

inductive ErrorKind where
  | notFound
  | invalidInput
  | other
  deriving DecidableEq, Repr

structure IoError where
  kind : ErrorKind
  message : Str
  deriving DecidableEq, Repr

structure FileMetadata where
  isDirectory : Bool
  isFile : Bool
  isSymlink : Bool
  deriving DecidableEq, Repr

-- The calls that applying a patch makes. A removal is neither forced nor recursive, and directories
-- are created with all their parents.
structure ExecutorFileSystem (σ : Type) where
  readFileText : Str → σ → Except IoError Str × σ
  writeFile : Str → Str → σ → Except IoError Unit × σ
  createDirectory : Str → σ → Except IoError Unit × σ
  getMetadata : Str → σ → Except IoError FileMetadata × σ
  remove : Str → σ → Except IoError Unit × σ

inductive ApplyError where
  | noFilesModified
  | ioError (context : Str) (source : IoError)
  | computeReplacements (message : Str)
  deriving DecidableEq, Repr

inductive AppliedPatchFileChange where
  | add (content : Str) (overwrittenContent : Option Str)
  | delete (content : Str)
  | update (movePath : Option Str) (oldContent : Str) (overwrittenMoveContent : Option Str)
      (newContent : Str)
  deriving DecidableEq, Repr

structure AppliedPatchChange where
  path : Str
  change : AppliedPatchFileChange
  deriving DecidableEq, Repr

structure AppliedPatchDelta where
  changes : List AppliedPatchChange
  exact : Bool
  deriving DecidableEq, Repr

def AppliedPatchDelta.empty : AppliedPatchDelta := ⟨[], true⟩

def AppliedPatchDelta.push (delta : AppliedPatchDelta) (path : Str) (change : AppliedPatchFileChange)
    : AppliedPatchDelta :=
  { delta with changes := delta.changes ++ [⟨path, change⟩] }

structure AffectedPaths where
  added : List Str
  modified : List Str
  deleted : List Str
  deriving DecidableEq, Repr

structure AppliedPatch where
  originalContents : Str
  newContents : Str
  deriving DecidableEq, Repr

structure Applying (σ : Type) where
  fs : σ
  delta : AppliedPatchDelta
  affected : AffectedPaths

def Applying.start {σ : Type} (s : σ) : Applying σ := ⟨s, .empty, ⟨[], [], []⟩⟩

def Hunk.path : Hunk → Str
  | addFile path _ => path
  | deleteFile path => path
  | updateFile _ (some dest) _ => dest
  | updateFile path none _ => path

def parent (path : Str) : Option Str :=
  if path = ['/'] then
    none
  else
    match path.rdropWhile (· ≠ '/') with
    | [] => none
    | ['/'] => some ['/']
    | dir => some dir.dropLast

section

variable {σ : Type} (fs : ExecutorFileSystem σ) (path : Str)

def ensureNotDirectory (s : σ) : Except IoError Unit × σ :=
  match fs.getMetadata path s with
  | (.error e, s) => (.error e, s)
  | (.ok metadata, s) =>
    if metadata.isDirectory then
      (.error ⟨.invalidInput, "path is a directory".toList⟩, s)
    else
      (.ok (), s)

def removeFailureWasSideEffectFree (expectedContent : Option Str) (s : σ) : Bool × σ :=
  match expectedContent with
  | none => (false, s)
  | some expected =>
    match fs.readFileText path s with
    | (.ok content, s) => (content == expected, s)
    | (.error _, s) => (false, s)

def noteExistingPathDeltaSupport (exact : Bool) (s : σ) : Bool × σ :=
  match fs.getMetadata path s with
  | (.ok metadata, s) => (if metadata.isFile && !metadata.isSymlink then exact else false, s)
  | (.error e, s) => (if e.kind = .notFound then exact else false, s)

def readOptionalFileTextForDelta (exact : Bool) (s : σ) : Option Str × Bool × σ :=
  match noteExistingPathDeltaSupport fs path exact s with
  | (exact, s) =>
    match fs.readFileText path s with
    | (.ok content, s) => (some content, exact, s)
    | (.error e, s) => (none, if e.kind = .notFound then exact else false, s)

variable (path : Str) (source : IoError)

def failedToWrite : ApplyError :=
  .ioError ("Failed to write file ".toList ++ path) source

def failedToCreateParents : ApplyError :=
  .ioError ("Failed to create parent directories for ".toList ++ path) source

def failedToDelete : ApplyError :=
  .ioError ("Failed to delete file ".toList ++ path) source

def failedToRemoveOriginal : ApplyError :=
  .ioError ("Failed to remove original ".toList ++ path) source

def failedToRead : ApplyError :=
  .ioError ("Failed to read file to update ".toList ++ path) source

def writeFile (path contents : Str) (s : σ) : Except ApplyError Unit × σ :=
  match fs.writeFile path contents s with
  | (.ok (), s) => (.ok (), s)
  | (.error e, s) => (.error (failedToWrite path e), s)

def createParent (s : σ) : Except ApplyError Unit × σ :=
  match parent path with
  | none => (.ok (), s)
  | some dir =>
    match fs.createDirectory dir s with
    | (.ok (), s) => (.ok (), s)
    | (.error e, s) => (.error (failedToCreateParents path e), s)

def writeFileWithMissingParentRetry (path contents : Str) (s : σ) : Except ApplyError Unit × σ :=
  match fs.writeFile path contents s with
  | (.ok (), s) => (.ok (), s)
  | (.error e, s) =>
    if e.kind = .notFound then
      match createParent fs path s with
      | (.error e, s) => (.error e, s)
      | (.ok (), s) => writeFile fs path contents s
    else
      (.error (failedToWrite path e), s)

def deriveNewContentsFromChunks (chunks : List UpdateFileChunk) (s : σ)
    : Except ApplyError AppliedPatch × σ :=
  match fs.readFileText path s with
  | (.error e, s) => (.error (failedToRead path e), s)
  | (.ok original, s) =>
    match newContents original path chunks with
    | .error e => (.error (.computeReplacements e.message), s)
    | .ok contents => (.ok ⟨original, contents⟩, s)

def failedWrite (st : Applying σ) (s : σ) : Applying σ :=
  { st with fs := s, delta := { st.delta with exact := false } }

def addFile (path affectedPath contents : Str) (st : Applying σ) : Except ApplyError Unit × Applying σ :=
  match readOptionalFileTextForDelta fs path st.delta.exact st.fs with
  | (overwritten, exact, s) =>
    match writeFileWithMissingParentRetry fs path contents s with
    | (.error e, s) => (.error e, failedWrite st s)
    | (.ok (), s) =>
      (.ok (),
        { fs := s
          delta := { st.delta with exact }.push path (.add contents overwritten)
          affected := { st.affected with added := st.affected.added ++ [affectedPath] } })

def deleteFile (path affectedPath : Str) (st : Applying σ) : Except ApplyError Unit × Applying σ :=
  match noteExistingPathDeltaSupport fs path st.delta.exact st.fs with
  | (exact, s) =>
    match fs.readFileText path s with
    | (read, s) =>
      let deletedContent := read.toOption
      let delta := { st.delta with exact := exact && deletedContent.isSome }
      match ensureNotDirectory fs path s with
      | (.error e, s) => (.error (failedToDelete path e), { st with fs := s, delta })
      | (.ok (), s) =>
        match fs.remove path s with
        | (.error e, s) =>
          match removeFailureWasSideEffectFree fs path deletedContent s with
          | (free, s) =>
            (.error (failedToDelete path e),
              { st with fs := s, delta := { delta with exact := delta.exact && free } })
        | (.ok (), s) =>
          (.ok (),
            { fs := s
              delta :=
                match deletedContent with
                | some content => delta.push path (.delete content)
                | none => delta
              affected := { st.affected with deleted := st.affected.deleted ++ [affectedPath] } })

section

variable (path dest affectedPath : Str) (patch : AppliedPatch)

def removeOriginal (overwritten : Option Str) (index : Nat) (st : Applying σ)
    : Except ApplyError Unit × Applying σ :=
  match ensureNotDirectory fs path st.fs with
  | (.error e, s) => (.error (failedToRemoveOriginal path e), { st with fs := s })
  | (.ok (), s) =>
    match fs.remove path s with
    | (.error e, s) =>
      match removeFailureWasSideEffectFree fs path (some patch.originalContents) s with
      | (free, s) =>
        (.error (failedToRemoveOriginal path e),
          { st with fs := s, delta := { st.delta with exact := st.delta.exact && free } })
    | (.ok (), s) =>
      (.ok (),
        { fs := s
          delta :=
            { st.delta with
              changes := st.delta.changes.set index
                ⟨path, .update (some dest) patch.originalContents overwritten patch.newContents⟩ }
          affected := { st.affected with modified := st.affected.modified ++ [affectedPath] } })

def moveFile (st : Applying σ) : Except ApplyError Unit × Applying σ :=
  match readOptionalFileTextForDelta fs dest st.delta.exact st.fs with
  | (overwritten, exact, s) =>
    match writeFileWithMissingParentRetry fs dest patch.newContents s with
    | (.error e, s) => (.error e, failedWrite st s)
    | (.ok (), s) =>
      removeOriginal fs path dest affectedPath patch overwritten st.delta.changes.length
        { st with
          fs := s
          delta := { st.delta with exact }.push dest (.add patch.newContents overwritten) }

end

def rewriteFile (path affectedPath : Str) (patch : AppliedPatch) (st : Applying σ)
    : Except ApplyError Unit × Applying σ :=
  match writeFile fs path patch.newContents st.fs with
  | (.error e, s) => (.error e, failedWrite st s)
  | (.ok (), s) =>
    (.ok (),
      { fs := s
        delta := st.delta.push path (.update none patch.originalContents none patch.newContents)
        affected := { st.affected with modified := st.affected.modified ++ [affectedPath] } })

def updateFile (dest : Option Str) (affectedPath : Str) (chunks : List UpdateFileChunk) (st : Applying σ)
    : Except ApplyError Unit × Applying σ :=
  match noteExistingPathDeltaSupport fs path st.delta.exact st.fs with
  | (exact, s) =>
    match deriveNewContentsFromChunks fs path chunks s with
    | (.error e, s) => (.error e, { st with fs := s, delta := { st.delta with exact } })
    | (.ok patch, s) =>
      let st := { st with fs := s, delta := { st.delta with exact } }
      match dest with
      | some dest => moveFile fs path dest affectedPath patch st
      | none => rewriteFile fs path affectedPath patch st

variable (resolvePath : Str → Str)

def applyHunk (hunk : Hunk) (st : Applying σ) : Except ApplyError Unit × Applying σ :=
  match hunk with
  | .addFile path contents => addFile fs (resolvePath path) hunk.path contents st
  | .deleteFile path => deleteFile fs (resolvePath path) hunk.path st
  | .updateFile path dest chunks =>
    updateFile fs (resolvePath path) (dest.map resolvePath) hunk.path chunks st

def applyEach (st : Applying σ) : List Hunk → Except ApplyError Unit × Applying σ
  | [] => (.ok (), st)
  | hunk :: hunks =>
    match applyHunk fs resolvePath hunk st with
    | (.error e, st) => (.error e, st)
    | (.ok (), st) => applyEach st hunks

def applyHunksToFiles (hunks : List Hunk) (s : σ) : Except ApplyError AffectedPaths × Applying σ :=
  if hunks = [] then
    (.error .noFilesModified, .start s)
  else
    match applyEach fs resolvePath (.start s) hunks with
    | (.error e, st) => (.error e, st)
    | (.ok (), st) => (.ok st.affected, st)

end

abbrev Files := Str → Option Str

-- A file system that is a map from paths to texts. A call may fail for any reason: a failed write may
-- leave anything at its path, a failed removal may have removed the file or not.
structure TextFileSystem (σ : Type) extends ExecutorFileSystem σ where
  files : σ → Files
  files_readFileText (path : Str) (s : σ) : files (readFileText path s).2 = files s
  files_getMetadata (path : Str) (s : σ) : files (getMetadata path s).2 = files s
  files_createDirectory (path : Str) (s : σ) : files (createDirectory path s).2 = files s
  readFileText_ok {path text : Str} {s s' : σ}
    : readFileText path s = (.ok text, s') → files s path = some text
  writeFile_ok {path text : Str} {s s' : σ}
    : writeFile path text s = (.ok (), s') → files s' = Function.update (files s) path (some text)
  writeFile_error {path text : Str} {e : IoError} {s s' : σ}
    : writeFile path text s = (.error e, s') → ∀ other, other ≠ path → files s' other = files s other
  remove_ok {path : Str} {s s' : σ}
    : remove path s = (.ok (), s') → files s' = Function.update (files s) path none
  remove_error {path : Str} {e : IoError} {s s' : σ}
    : remove path s = (.error e, s')
      → files s' = files s ∨ files s' = Function.update (files s) path none

def inMemory : TextFileSystem Files where
  readFileText path files :=
    match files path with
    | some text => (.ok text, files)
    | none => (.error ⟨.notFound, "No such file or directory".toList⟩, files)
  writeFile path text files := (.ok (), Function.update files path (some text))
  createDirectory _ files := (.ok (), files)
  getMetadata path files :=
    match files path with
    | some _ => (.ok ⟨false, true, false⟩, files)
    | none => (.error ⟨.notFound, "No such file or directory".toList⟩, files)
  remove path files :=
    match files path with
    | some _ => (.ok (), Function.update files path none)
    | none => (.error ⟨.notFound, "No such file or directory".toList⟩, files)
  files := id
  files_readFileText path files := by
    split
    . rfl
    . rfl
  files_getMetadata path files := by
    split
    . rfl
    . rfl
  files_createDirectory _ _ := rfl
  readFileText_ok := by
    intro path text s s' h
    split at h
    next found =>
      cases h
      assumption
    . simp at h
  writeFile_ok := by
    intro path text s s' h
    cases h
    rfl
  writeFile_error := by
    intro path text e s s' h
    simp at h
  remove_ok := by
    intro path s s' h
    split at h
    . cases h
      rfl
    . simp at h
  remove_error := by
    intro path e s s' h
    split at h
    . simp at h
    . cases h
      left
      rfl

section

variable {σ : Type} (fs : TextFileSystem σ) {path contents : Str} {exact : Bool} {s s' : σ}

theorem files_of_readFileText {r : Except IoError Str} (h : fs.readFileText path s = (r, s'))
    : fs.files s' = fs.files s := by
  have := fs.files_readFileText path s
  rw [h] at this
  assumption

theorem files_of_getMetadata {r : Except IoError FileMetadata} (h : fs.getMetadata path s = (r, s'))
    : fs.files s' = fs.files s := by
  have := fs.files_getMetadata path s
  rw [h] at this
  assumption

variable {r : Except IoError Unit} {expected : Option Str} {exact' : Bool}

theorem files_of_createDirectory (h : fs.createDirectory path s = (r, s')) : fs.files s' = fs.files s := by
  have := fs.files_createDirectory path s
  rw [h] at this
  assumption

theorem files_of_ensureNotDirectory (h : ensureNotDirectory fs.toExecutorFileSystem path s = (r, s'))
    : fs.files s' = fs.files s := by
  unfold ensureNotDirectory at h
  split at h
  next hm =>
    cases h
    exact files_of_getMetadata fs hm
  next hm =>
    split at h
    all_goals
      cases h
      exact files_of_getMetadata fs hm

theorem files_of_removeFailure
    (h : removeFailureWasSideEffectFree fs.toExecutorFileSystem path expected s = (free, s'))
    : fs.files s' = fs.files s ∧ (free = true → expected = fs.files s path ∧ expected.isSome) := by
  unfold removeFailureWasSideEffectFree at h
  split at h
  . cases h
    simp
  . split at h
    next hr =>
      cases h
      refine ⟨files_of_readFileText fs hr, ?_⟩
      rw [fs.readFileText_ok hr]
      simp +contextual
    next hr =>
      cases h
      refine ⟨files_of_readFileText fs hr, ?_⟩
      simp

theorem files_of_failed_remove {path : Str}
    (hremove : fs.remove path s₁ = (.error e, s₂))
    (hfree : removeFailureWasSideEffectFree fs.toExecutorFileSystem path expected s₂ = (true, s₃))
    : fs.files s₃ = fs.files s₁ := by
  obtain ⟨hfiles, hexpected⟩ := files_of_removeFailure fs hfree
  obtain ⟨hsame, hsome⟩ := hexpected rfl
  rw [hfiles]
  cases fs.remove_error hremove with
  | inl h => assumption
  | inr h =>
    rw [hsame, h] at hsome
    simp at hsome

theorem files_of_noteExisting
    (h : noteExistingPathDeltaSupport fs.toExecutorFileSystem path exact s = (exact', s'))
    : fs.files s' = fs.files s ∧ (exact' = true → exact = true) := by
  unfold noteExistingPathDeltaSupport at h
  split at h
  all_goals
    next hm =>
    cases h
    refine ⟨files_of_getMetadata fs hm, ?_⟩
    split
    . exact id
    . simp

theorem files_of_readOptional
    (h : readOptionalFileTextForDelta fs.toExecutorFileSystem path exact s = (overwritten, exact', s'))
    : fs.files s' = fs.files s ∧ (exact' = true → exact = true) := by
  unfold readOptionalFileTextForDelta at h
  split at h
  next hn =>
  have hnote := files_of_noteExisting fs hn
  split at h
  next hr =>
    cases h
    rw [files_of_readFileText fs hr]
    assumption
  next hr =>
    cases h
    rw [files_of_readFileText fs hr]
    refine ⟨hnote.1, ?_⟩
    split
    . exact hnote.2
    . simp

theorem files_of_deriveNewContents {r : Except ApplyError AppliedPatch}
    (h : deriveNewContentsFromChunks fs.toExecutorFileSystem path chunks s = (r, s'))
    : fs.files s' = fs.files s := by
  unfold deriveNewContentsFromChunks at h
  split at h
  next hr =>
    cases h
    exact files_of_readFileText fs hr
  next hr =>
    split at h
    all_goals
      cases h
      exact files_of_readFileText fs hr

theorem files_of_createParent {r : Except ApplyError Unit}
    (h : createParent fs.toExecutorFileSystem path s = (r, s'))
    : fs.files s' = fs.files s := by
  unfold createParent at h
  split at h
  . cases h
    rfl
  . split at h
    all_goals
      next hc =>
      cases h
      exact files_of_createDirectory fs hc

theorem files_of_writeFile (h : writeFile fs.toExecutorFileSystem path contents s = (.ok (), s'))
    : fs.files s' = Function.update (fs.files s) path (some contents) := by
  unfold writeFile at h
  split at h
  next hw =>
    cases h
    exact fs.writeFile_ok hw
  . simp at h

theorem files_of_writeFileWithMissingParentRetry
    (h : writeFileWithMissingParentRetry fs.toExecutorFileSystem path contents s = (.ok (), s'))
    : fs.files s' = Function.update (fs.files s) path (some contents) := by
  unfold writeFileWithMissingParentRetry at h
  split at h
  next hw =>
    cases h
    exact fs.writeFile_ok hw
  next hw =>
    split at h
    . split at h
      . simp at h
      next hc =>
        rw [files_of_writeFile fs h, files_of_createParent fs hc]
        funext other
        by_cases hother : other = path
        . simp [hother]
        . rw [Function.update_of_ne hother, Function.update_of_ne hother]
          exact fs.writeFile_error hw other hother
    . simp at h

end

end Codex.ApplyPatch
