import AppSuite.Codex.ApplyPatch.Apply
import AppSuite.System.Run

/-!
This module contains what a delta says about the files.
-/

namespace Codex.ApplyPatch

open AppliedPatchDelta

def AppliedPatchChange.replay (files : Files) (entry : AppliedPatchChange) : Files :=
  match entry.change with
  | .add content _ => Function.update files entry.path (some content)
  | .delete _ => Function.update files entry.path none
  | .update none _ _ content => Function.update files entry.path (some content)
  | .update (some dest) _ _ content =>
    let moved := Function.update files dest (some content)
    if entry.path = dest then moved else Function.update moved entry.path none

def replay (changes : List AppliedPatchChange) (files : Files) : Files :=
  changes.foldl AppliedPatchChange.replay files

section

variable {σ : Type} (fs : TextFileSystem σ) {exact : Bool} {s s' : σ}

def Recorded (before after : Applying σ) : Prop :=
  after.delta.exact = true →
    before.delta.exact = true
      ∧ ∃ done, after.delta.changes = before.delta.changes ++ done
          ∧ fs.files after.fs = replay done (fs.files before.fs)

def Faithful (s : σ) (st : Applying σ) : Prop :=
  st.delta.exact = true → replay st.delta.changes (fs.files s) = fs.files st.fs

theorem Recorded.faithful {fs : TextFileSystem σ}
    (h : Recorded fs before after) (hbefore : Faithful fs s before)
    : Faithful fs s after := by
  intro hexact
  obtain ⟨hbeforeExact, done, hchanges, hfiles⟩ := h hexact
  rw [hchanges, replay, List.foldl_append, ← replay, ← replay, hbefore hbeforeExact, hfiles]

theorem Recorded.trans {fs : TextFileSystem σ} (hab : Recorded fs a b)
    (hbc : Recorded fs b c)
    : Recorded fs a c := by
  intro hexact
  obtain ⟨hb, later, hchanges', hfiles'⟩ := hbc hexact
  obtain ⟨ha, done, hchanges, hfiles⟩ := hab hb
  refine ⟨ha, done ++ later, ?_, ?_⟩
  . rw [hchanges', hchanges, List.append_assoc]
  . rw [hfiles', hfiles, replay, replay, replay, List.foldl_append]

variable (affectedPath : Str) (st : Applying σ)

theorem recorded_of_files_eq (hfiles : fs.files s' = fs.files st.fs)
    (hexact : exact = true → st.delta.exact = true)
    : Recorded fs st { st with fs := s', delta := { st.delta with exact } } := by
  intro h
  refine ⟨hexact h, [], by simp, ?_⟩
  rw [hfiles]
  rfl

theorem recorded_failedWrite (s : σ) : Recorded fs st (failedWrite st s) := by
  intro hexact
  simp [failedWrite] at hexact

theorem addFile_recorded (path contents : Str)
    : Recorded fs st (addFile fs.toExecutorFileSystem path affectedPath contents st).2 := by
  unfold addFile
  split
  next overwritten exact s₁ hread =>
  obtain ⟨hfiles, hexact⟩ := files_of_readOptional fs hread
  split
  . apply recorded_failedWrite
  next s₂ hwrite =>
    intro h
    refine ⟨hexact h, [⟨path, .add contents overwritten⟩], rfl, ?_⟩
    rw [files_of_writeFileWithMissingParentRetry fs hwrite, hfiles]
    rfl

theorem deleteFile_recorded (path : Str)
    : Recorded fs st (deleteFile fs.toExecutorFileSystem path affectedPath st).2 := by
  unfold deleteFile
  split
  next exact s₁ hnote =>
  obtain ⟨hfiles₁, hexact⟩ := files_of_noteExisting fs hnote
  split
  next read s₂ hread =>
  have hfiles₂ := files_of_readFileText fs hread
  rw [hfiles₁] at hfiles₂
  dsimp only
  split
  next s₃ hdir =>
    apply recorded_of_files_eq
    . rw [files_of_ensureNotDirectory fs hdir, hfiles₂]
    . simp +contextual [hexact]
  next s₃ hdir =>
    have hfiles₃ := files_of_ensureNotDirectory fs hdir
    rw [hfiles₂] at hfiles₃
    split
    next s₄ hremove =>
      intro h
      simp only [Bool.and_eq_true] at h
      refine ⟨hexact h.1.1, [], by simp, ?_⟩
      rw [files_of_failed_remove fs hremove (Prod.ext h.2 rfl), hfiles₃]
      rfl
    next s₄ hremove =>
      split
      next content _ =>
        intro h
        simp only [push, Bool.and_eq_true] at h
        refine ⟨hexact h.1, [⟨path, .delete content⟩], rfl, ?_⟩
        rw [fs.remove_ok hremove, hfiles₃]
        rfl
      next hnone =>
        intro h
        simp [hnone] at h

theorem rewriteFile_recorded (path : Str) (patch : AppliedPatch)
    : Recorded fs st (rewriteFile fs.toExecutorFileSystem path affectedPath patch st).2 := by
  unfold rewriteFile
  split
  . apply recorded_failedWrite
  next s₁ hwrite =>
    intro h
    refine ⟨h, [⟨path, .update none patch.originalContents none patch.newContents⟩], rfl, ?_⟩
    rw [files_of_writeFile fs hwrite]
    rfl

variable (path dest : Str) (patch : AppliedPatch) {st' : Applying σ} {e : ApplyError}

variable {overwritten : Option Str} {index : Nat}

theorem removeOriginal_error
    (h : removeOriginal fs.toExecutorFileSystem path dest affectedPath patch overwritten index st = (.error e, st'))
    (hexact : st'.delta.exact = true)
    : st'.delta = st.delta ∧ fs.files st'.fs = fs.files st.fs := by
  unfold removeOriginal at h
  split at h
  next hdir =>
    cases h
    exact ⟨rfl, files_of_ensureNotDirectory fs hdir⟩
  next hdir =>
    have hfiles := files_of_ensureNotDirectory fs hdir
    split at h
    next hremove =>
      split at h
      next hfree =>
      cases h
      simp only [Bool.and_eq_true] at hexact
      obtain ⟨hexact, rfl⟩ := hexact
      rw [← hfiles, files_of_failed_remove fs hremove hfree, Bool.and_true]
      exact ⟨rfl, rfl⟩
    . simp at h

theorem removeOriginal_ok_iff
    : removeOriginal fs.toExecutorFileSystem path dest affectedPath patch overwritten index st
        = (.ok (), st')
      ↔ ∃ s₁ s₂, ensureNotDirectory fs.toExecutorFileSystem path st.fs = (.ok (), s₁)
          ∧ fs.remove path s₁ = (.ok (), s₂)
          ∧ st' =
            { fs := s₂
              delta :=
                { st.delta with
                  changes := st.delta.changes.set index
                    ⟨path, .update (some dest) patch.originalContents overwritten patch.newContents⟩ }
              affected := { st.affected with modified := st.affected.modified ++ [affectedPath] } } := by
  unfold removeOriginal
  split
  . simp_all
  next hdir =>
    split
    next hremove => simp [hdir, hremove]
    next hremove => simp [hdir, hremove, eq_comm]

theorem moveFile_error
    (h : moveFile fs.toExecutorFileSystem path dest affectedPath patch st = (.error e, st'))
    : Recorded fs st st' := by
  unfold moveFile at h
  split at h
  next overwritten exact s₁ hread =>
  obtain ⟨hfiles, hexact⟩ := files_of_readOptional fs hread
  split at h
  . cases h
    apply recorded_failedWrite
  next s₂ hwrite =>
    intro hexact'
    obtain ⟨hdelta, hfiles'⟩ := removeOriginal_error fs _ _ _ _ _ h hexact'
    rw [hdelta] at hexact'
    refine ⟨hexact hexact', [⟨dest, .add patch.newContents overwritten⟩], ?_, ?_⟩
    . rw [hdelta]
      rfl
    . rw [hfiles', files_of_writeFileWithMissingParentRetry fs hwrite, hfiles]
      rfl

theorem moveFile_ok_iff
    : moveFile fs.toExecutorFileSystem path dest affectedPath patch st = (.ok (), st')
      ↔ ∃ overwritten exact s₁ s₂ s₃ s₄,
          readOptionalFileTextForDelta fs.toExecutorFileSystem dest st.delta.exact st.fs
            = (overwritten, exact, s₁)
          ∧ writeFileWithMissingParentRetry fs.toExecutorFileSystem dest patch.newContents s₁
            = (.ok (), s₂)
          ∧ ensureNotDirectory fs.toExecutorFileSystem path s₂ = (.ok (), s₃)
          ∧ fs.remove path s₃ = (.ok (), s₄)
          ∧ st' =
            { fs := s₄
              delta :=
                { st.delta with exact }.push path
                  (.update (some dest) patch.originalContents overwritten patch.newContents)
              affected := { st.affected with modified := st.affected.modified ++ [affectedPath] } } := by
  unfold moveFile
  split
  next overwritten exact s₁ hread =>
  split
  next hwrite => simp [hread, hwrite]
  next s₂ hwrite =>
    rw [removeOriginal_ok_iff]
    constructor
    . rintro ⟨s₃, s₄, hdir, hremove, rfl⟩
      refine ⟨overwritten, exact, s₁, s₂, s₃, s₄, hread, hwrite, hdir, hremove, ?_⟩
      simp [push]
    . rintro ⟨overwritten', exact', s₁', s₂', s₃, s₄, hread', hwrite', hdir, hremove, rfl⟩
      rw [hread] at hread'
      cases hread'
      rw [hwrite] at hwrite'
      cases hwrite'
      refine ⟨s₃, s₄, hdir, hremove, ?_⟩
      simp [push]

theorem moveFile_ok (h : moveFile fs.toExecutorFileSystem path dest affectedPath patch st = (.ok (), st'))
    : (st'.delta.exact = true → st.delta.exact = true)
      ∧ fs.files st'.fs
          = Function.update (Function.update (fs.files st.fs) dest (some patch.newContents)) path none
      ∧ ∃ overwritten, st'.delta.changes
          = st.delta.changes ++ [⟨path, .update (some dest) patch.originalContents overwritten
              patch.newContents⟩] := by
  rw [moveFile_ok_iff] at h
  obtain ⟨overwritten, exact, s₁, s₂, s₃, s₄, hread, hwrite, hdir, hremove, rfl⟩ := h
  obtain ⟨hfiles, hexact⟩ := files_of_readOptional fs hread
  refine ⟨hexact, ?_, overwritten, rfl⟩
  rw [fs.remove_ok hremove, files_of_ensureNotDirectory fs hdir,
    files_of_writeFileWithMissingParentRetry fs hwrite, hfiles]

theorem moveFile_recorded (hne : path ≠ dest)
    : Recorded fs st (moveFile fs.toExecutorFileSystem path dest affectedPath patch st).2 := by
  cases h : moveFile fs.toExecutorFileSystem path dest affectedPath patch st with
  | mk r st' =>
    cases r with
    | error e => exact moveFile_error fs _ _ _ _ _ h
    | ok _ =>
      intro hexact'
      obtain ⟨hexact, hfiles, overwritten, hchanges⟩ := moveFile_ok fs _ _ _ _ _ h
      refine ⟨hexact hexact', _, hchanges, ?_⟩
      rw [hfiles]
      simp [replay, AppliedPatchChange.replay, hne]

def GoesThrough (chunks : List UpdateFileChunk) (s : σ) : Prop :=
  ∃ patch overwritten s₁ s₂ s₃ s₄ s₅ s₆,
    noteExistingPathDeltaSupport fs.toExecutorFileSystem path true s = (true, s₁)
    ∧ deriveNewContentsFromChunks fs.toExecutorFileSystem path chunks s₁ = (.ok patch, s₂)
    ∧ readOptionalFileTextForDelta fs.toExecutorFileSystem path true s₂ = (overwritten, true, s₃)
    ∧ writeFileWithMissingParentRetry fs.toExecutorFileSystem path patch.newContents s₃ = (.ok (), s₄)
    ∧ ensureNotDirectory fs.toExecutorFileSystem path s₄ = (.ok (), s₅)
    ∧ fs.remove path s₅ = (.ok (), s₆)

theorem updateFile_recorded (dest : Option Str) (chunks : List UpdateFileChunk)
    (h : dest = some path → st.delta.exact = true → ¬GoesThrough fs path chunks st.fs)
    : Recorded fs st (updateFile fs.toExecutorFileSystem path dest affectedPath chunks st).2 := by
  unfold updateFile
  split
  next exact s₁ hnote =>
  obtain ⟨hfiles, hexact⟩ := files_of_noteExisting fs hnote
  split
  next s₂ hderive =>
    apply recorded_of_files_eq
    . rw [files_of_deriveNewContents fs hderive, hfiles]
    . assumption
  next patch s₂ hderive =>
    rw [← files_of_deriveNewContents fs hderive] at hfiles
    apply (recorded_of_files_eq fs st hfiles hexact).trans
    cases dest with
    | none => apply rewriteFile_recorded
    | some dest =>
      by_cases hne : path = dest
      . subst hne
        dsimp only
        cases hmove : moveFile fs.toExecutorFileSystem path path affectedPath patch
          { st with fs := s₂, delta := { st.delta with exact } } with
        | mk r st' =>
          cases r with
          | error e => exact moveFile_error fs _ _ _ _ _ hmove
          | ok _ =>
            intro hexact'
            have hexact₁ := (moveFile_ok fs _ _ _ _ _ hmove).1 hexact'
            rw [moveFile_ok_iff] at hmove
            obtain ⟨overwritten, exact₂, s₃, s₄, s₅, s₆, hread, hwrite, hdir, hremove, rfl⟩ := hmove
            subst hexact₁ hexact'
            rw [hexact rfl] at hnote
            exact absurd ⟨patch, overwritten, s₁, s₂, s₃, s₄, s₅, s₆, hnote, hderive, hread, hwrite,
              hdir, hremove⟩ (h rfl (hexact rfl))
      . apply moveFile_recorded
        assumption

theorem not_faithful_of_goesThrough (hexact : st.delta.exact = true)
    (h : GoesThrough fs path chunks st.fs)
    : ¬Faithful fs s (updateFile fs.toExecutorFileSystem path (some path) affectedPath chunks st).2 := by
  obtain ⟨patch, overwritten, s₁, s₂, s₃, s₄, s₅, s₆, hnote, hderive, hread, hwrite, hdir, hremove⟩ := h
  unfold updateFile
  rw [hexact, hnote]
  dsimp only
  rw [hderive]
  dsimp only
  rw [(moveFile_ok_iff fs _ _ _ _ _).mpr ⟨overwritten, true, s₃, s₄, s₅, s₆, hread, hwrite, hdir,
    hremove, rfl⟩]
  intro hfaithful
  have hpath := congrFun (hfaithful rfl) path
  rw [fs.remove_ok hremove] at hpath
  simp [push, replay, AppliedPatchChange.replay] at hpath

end

section

variable {σ : Type} (fs : TextFileSystem σ) (resolvePath : Str → Str)

variable (run : Except ApplyError Unit × Applying σ) (hunk : Hunk)

def applyStep : Except ApplyError Unit × Applying σ :=
  match run with
  | (.ok (), st) => applyHunk fs.toExecutorFileSystem resolvePath hunk st
  | (.error e, st) => (.error e, st)

variable (e : ApplyError) (st : Applying σ) (hunks : List Hunk)

theorem foldl_applyStep_error
    : hunks.foldl (applyStep fs resolvePath) (.error e, st) = (.error e, st) := by
  induction hunks with
  | nil => rfl
  | cons hunk hunks ih =>
    exact ih

theorem applyEach_eq_foldl
    : applyEach fs.toExecutorFileSystem resolvePath st hunks
      = hunks.foldl (applyStep fs resolvePath) (.ok (), st) := by
  induction hunks generalizing st with
  | nil => rfl
  | cons hunk hunks ih =>
    rw [applyEach, List.foldl_cons, applyStep]
    split
    next h => rw [h, foldl_applyStep_error]
    next h =>
      rw [h]
      apply ih

theorem applyHunksToFiles_left (s : σ)
    : (applyHunksToFiles fs.toExecutorFileSystem resolvePath hunks s).2
      = (hunks.foldl (applyStep fs resolvePath) (.ok (), .start s)).2 := by
  unfold applyHunksToFiles
  split
  next h =>
    rw [h]
    rfl
  . rw [applyEach_eq_foldl]
    split
    all_goals
      next h =>
      rw [h]

def Harmless : Prop :=
  match run, hunk with
  | (.ok (), st), .updateFile path (some dest) chunks =>
    resolvePath dest = resolvePath path → st.delta.exact = true →
      ¬GoesThrough fs (resolvePath path) chunks st.fs
  | _, _ => True

variable {hunk : Hunk} {run : Except ApplyError Unit × Applying σ}

theorem applyStep_recorded (h : Harmless fs resolvePath run hunk)
    : Recorded fs run.2 (applyStep fs resolvePath run hunk).2 := by
  obtain ⟨r, st⟩ := run
  cases r with
  | error e => apply recorded_of_files_eq fs st rfl id
  | ok _ =>
    cases hunk with
    | addFile path contents => apply addFile_recorded
    | deleteFile path => apply deleteFile_recorded
    | updateFile path dest chunks =>
      apply updateFile_recorded
      cases dest with
      | none => simp
      | some dest =>
        intro hdest
        rw [Option.map_some, Option.some.injEq] at hdest
        exact h hdest

theorem not_faithful_of_not_harmless {s : σ} (h : ¬Harmless fs resolvePath run hunk)
    : ¬Faithful fs s (applyStep fs resolvePath run hunk).2 := by
  unfold Harmless at h
  split at h
  . simp only [Classical.not_imp, not_not] at h
    obtain ⟨hdest, hexact, hthrough⟩ := h
    simp only [applyStep, applyHunk, Option.map_some, hdest]
    apply not_faithful_of_goesThrough
    . assumption
    . assumption
  . exact absurd trivial h

theorem always_faithful_iff (s : σ)
    : Run.Always (applyStep fs resolvePath) (fun run => Faithful fs s run.2) (.ok (), .start s) hunks
      ↔ Run.Along (applyStep fs resolvePath) (Harmless fs resolvePath) (.ok (), .start s) hunks := by
  apply Run.always_iff_along (fun run => Faithful fs s run.2) (fun _ => True)
  . intro run h
    exact h
  . intro run hunk h _ hok
    exact (applyStep_recorded fs resolvePath hok).faithful h
  . intro run hunk _ _ hbad
    apply not_faithful_of_not_harmless
    assumption
  . intro _
    rfl
  . simp

theorem applyHunksToFiles_faithful_iff (hunks : List Hunk) (s : σ)
    : (∀ done, done <+: hunks →
        Faithful fs s (applyHunksToFiles fs.toExecutorFileSystem resolvePath done s).2)
      ↔ Run.Along (applyStep fs resolvePath) (Harmless fs resolvePath) (.ok (), .start s) hunks := by
  rw [← always_faithful_iff, Run.always_iff_forall_isPrefix]
  simp only [applyHunksToFiles_left]

end

theorem not_faithful_moveOntoItself
    : let path := "/w/a".toList
      let files := Function.update (fun _ => none) path (some "x\n".toList)
      let chunk : UpdateFileChunk := ⟨none, ["x".toList], ["y".toList], false⟩
      let (result, left) := applyHunksToFiles inMemory.toExecutorFileSystem id
        [.updateFile path (some path) [chunk]] files
      result = .ok ⟨[], [path], []⟩ ∧ left.delta.exact = true
        ∧ replay left.delta.changes files path = some "y\n".toList ∧ left.fs path = none := by
  decide

end Codex.ApplyPatch
