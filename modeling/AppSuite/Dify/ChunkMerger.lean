import AppSuite.Data.OrderedMap
import AppSuite.System.Run

/-!
This module contains the merging of the blob chunks among the messages of a plugin.
-/

namespace Dify

open List

abbrev Bytes := List UInt8

structure FileChunk where
  bytesWritten : Nat
  data : Bytes
  written_le : bytesWritten ≤ data.length

inductive MergeError where
  | fileTooLarge (maxFileSize : Nat)
  | chunkTooLarge (maxChunkSize : Nat)
  | overflowError
  | memoryError
  deriving DecidableEq

namespace FileChunk

-- The buffer is allocated as long as it is declared: the length has to be an index, and
-- `allocates` says which lengths there is memory for.
def ofTotalLength (allocates : Nat → Bool) (totalLength : Nat) : Except MergeError FileChunk :=
  if totalLength ≥ 2 ^ 63 then
    throw .overflowError
  else if !allocates totalLength then
    throw .memoryError
  else
    pure ⟨0, replicate totalLength 0, Nat.zero_le _⟩

variable (file : FileChunk) (blobData : Bytes)

-- The slice that is assigned may reach past the end of the buffer.
def append : FileChunk where
  bytesWritten := file.bytesWritten + blobData.length
  data := file.data.take file.bytesWritten ++ blobData ++ file.data.drop (file.bytesWritten + blobData.length)
  written_le := by
    have := file.written_le
    simp
    omega

def written : Bytes := file.data.take file.bytesWritten

theorem length_written : file.written.length = file.bytesWritten := length_take_of_le file.written_le

theorem written_append : (file.append blobData).written = file.written ++ blobData := by
  apply take_left'
  rw [length_append]
  exact congrArg (· + _) file.length_written

end FileChunk

structure BlobChunk (ι μ : Type) where
  id : ι
  totalLength : Nat
  blob : Bytes
  isEnd : Bool
  info : μ

-- A message is a chunk or another one, and a yielded one is a blob or another one.
abbrev Response (ι μ ω : Type) := List (BlobChunk ι μ ⊕ ω)

abbrev Merged (μ ω : Type) := List (Bytes × μ ⊕ ω)

variable {ι μ ω : Type} [DecidableEq ι] (allocates : Nat → Bool) (maxFileSize maxChunkSize : Nat)

def openFile (files : OrderedMap ι FileChunk) (chunk : BlobChunk ι μ) : Except MergeError FileChunk :=
  match files.get? chunk.id with
  | some file => pure file
  | none => FileChunk.ofTotalLength allocates chunk.totalLength

-- What the generator yields, and the error that ends it.
def mergeBlobChunks (files : OrderedMap ι FileChunk) (response : Response ι μ ω)
    : Merged μ ω × Option MergeError :=
  match response with
  | [] => ([], none)
  | .inr other :: response =>
    let (merged, error) := mergeBlobChunks files response
    (.inr other :: merged, error)
  | .inl chunk :: response =>
    match openFile allocates files chunk with
    | .error e => ([], some e)
    | .ok file =>
      if file.bytesWritten + chunk.blob.length > maxFileSize then
        ([], some (.fileTooLarge maxFileSize))
      else if chunk.blob.length > maxChunkSize then
        ([], some (.chunkTooLarge maxChunkSize))
      else
        let file := file.append chunk.blob
        if chunk.isEnd then
          let (merged, error) := mergeBlobChunks (files.delete chunk.id) response
          (.inl (file.written, chunk.info) :: merged, error)
        else
          mergeBlobChunks (files.set chunk.id file) response

def sinceEnd (id : ι) (before : Response ι μ ω) : List (BlobChunk ι μ) :=
  ((before.filterMap Sum.getLeft?).filter (·.id = id)).rtakeWhile (!·.isEnd)

def pending (id : ι) (before : Response ι μ ω) : Bytes := (sinceEnd id before).flatMap (·.blob)

def blobOf (before : Response ι μ ω) (chunk : BlobChunk ι μ) : Bytes := pending chunk.id before ++ chunk.blob

def expected (before response : Response ι μ ω) : Merged μ ω :=
  match response with
  | [] => []
  | .inr other :: response => .inr other :: expected (before ++ [.inr other]) response
  | .inl chunk :: response =>
    let blob := if chunk.isEnd then [.inl (blobOf before chunk, chunk.info)] else []
    blob ++ expected (before ++ [.inl chunk]) response

-- The length that the first chunk of a file declares, which the later ones may contradict.
def CanOpen (before : Response ι μ ω) (chunk : BlobChunk ι μ) : Prop :=
  sinceEnd chunk.id before = [] → chunk.totalLength < 2 ^ 63 ∧ allocates chunk.totalLength = true

def FitsAt (before : Response ι μ ω) : BlobChunk ι μ ⊕ ω → Prop
  | .inl chunk =>
    CanOpen allocates before chunk ∧ (blobOf before chunk).length ≤ maxFileSize
      ∧ chunk.blob.length ≤ maxChunkSize
  | .inr _ => True

def Fits (before response : Response ι μ ω) : Prop :=
  Run.Along (fun before resp => before ++ [resp]) (FitsAt allocates maxFileSize maxChunkSize) before response

def Buffers (files : OrderedMap ι FileChunk) (before : Response ι μ ω) : Prop :=
  ∀ id, (files.get? id).map (·.written) = if sinceEnd id before = [] then none else some (pending id before)

variable {allocates maxFileSize maxChunkSize} {files : OrderedMap ι FileChunk}
  {before response : Response ι μ ω} {chunk : BlobChunk ι μ}

theorem sinceEnd_inl (id : ι) (before : Response ι μ ω) (chunk : BlobChunk ι μ)
    : sinceEnd id (before ++ [.inl chunk])
      = if chunk.id = id then if chunk.isEnd then [] else sinceEnd id before ++ [chunk]
        else sinceEnd id before := by
  unfold sinceEnd
  split
  . next hid => cases hend : chunk.isEnd <;> simp [hid, hend]
  . next hid => simp [hid]

namespace Buffers

theorem other (h : Buffers files before) (other : ω) : Buffers files (before ++ [.inr other]) := by
  intro id
  have hsince : sinceEnd id (before ++ [.inr other]) = sinceEnd id before := by
    unfold sinceEnd
    rw [filterMap_append, filterMap_cons_none Sum.getLeft?_inr, filterMap_nil, append_nil]
  rw [pending, hsince]
  exact h id

theorem delete (h : Buffers files before) (hend : chunk.isEnd = true)
    : Buffers (files.delete chunk.id) (before ++ [.inl chunk]) := by
  intro id
  rw [OrderedMap.get?_delete, pending, sinceEnd_inl, if_pos hend]
  split <;> simp_all [Buffers, pending]

theorem set (h : Buffers files before) (hend : ¬chunk.isEnd = true) (hfile : file.written = blobOf before chunk)
    : Buffers (files.set chunk.id file) (before ++ [.inl chunk]) := by
  intro id
  rw [OrderedMap.get?_set, pending, sinceEnd_inl, if_neg hend]
  split
  . next hid => simp [hfile, blobOf, pending, hid]
  . exact h id

theorem openFile_eq (h : Buffers files before) (chunk : BlobChunk ι μ)
    : (∃ file, openFile allocates files chunk = .ok file ∧ file.written = pending chunk.id before
        ∧ CanOpen allocates before chunk)
      ∨ ∃ e, openFile allocates files chunk = .error e ∧ ¬CanOpen allocates before chunk := by
  have hid := h chunk.id
  unfold openFile CanOpen
  cases hfile : files.get? chunk.id with
  | some file =>
    rw [hfile] at hid
    split at hid
    . contradiction
    . next hopen =>
      injection hid with hwritten
      exact .inl ⟨file, rfl, hwritten, fun hnew => absurd hnew hopen⟩
  | none =>
    rw [hfile] at hid
    split at hid
    . next hnew =>
      dsimp only [FileChunk.ofTotalLength]
      split
      . next hlong => exact .inr ⟨_, rfl, fun h => absurd (h hnew).1 (Nat.not_lt.mpr hlong)⟩
      split
      . next hmemory => exact .inr ⟨_, rfl, fun h => by simp [(h hnew).2] at hmemory⟩
      . next hlength hmemory =>
        refine .inl ⟨_, rfl, ?_, fun _ => ⟨Nat.not_le.mp hlength, by simpa using hmemory⟩⟩
        rw [pending, hnew]
        rfl
    . contradiction

end Buffers

theorem mergeBlobChunks_eq_iff (hfiles : Buffers files before)
    : mergeBlobChunks allocates maxFileSize maxChunkSize files response = (expected before response, none)
      ↔ Fits allocates maxFileSize maxChunkSize before response := by
  induction response generalizing files before with
  | nil => exact iff_of_true rfl trivial
  | cons resp response ih =>
    rw [Fits, Run.Along]
    cases resp with
    | inr other =>
      rw [mergeBlobChunks, expected, FitsAt, true_and]
      simpa [Prod.ext_iff, Fits] using ih (hfiles.other other)
    | inl chunk =>
      rw [mergeBlobChunks, expected, FitsAt]
      rcases hfiles.openFile_eq chunk with ⟨file, hopen, hwritten, hcan⟩ | ⟨e, hopen, hcan⟩
      . have hblob : (file.append chunk.blob).written = blobOf before chunk := by
          rw [FileChunk.written_append, hwritten, blobOf]
        have hsize : (blobOf before chunk).length = file.bytesWritten + chunk.blob.length := by
          rw [← hblob]
          exact FileChunk.length_written _
        rw [hopen]
        dsimp only
        rw [hblob, hsize]
        split
        . next hlarge => simp [Nat.not_le.mpr hlarge]
        split
        . next hlarge => simp [Nat.not_le.mpr hlarge]
        next hfile hchunk =>
          rw [and_iff_right ⟨hcan, Nat.not_lt.mp hfile, Nat.not_lt.mp hchunk⟩]
          split
          . next hend => simpa [Prod.ext_iff, Fits] using ih (hfiles.delete hend)
          . next hend => exact ih (hfiles.set hend hblob)
      . rw [hopen]
        simp [hcan]

theorem length_blob_le (h : .inl blob ∈ (mergeBlobChunks allocates maxFileSize maxChunkSize files response).1)
    : blob.1.length ≤ maxFileSize := by
  induction response generalizing files with
  | nil => cases h
  | cons resp response ih =>
    cases resp with
    | inr other =>
      cases h with
      | tail _ h => exact ih h
    | inl chunk =>
      unfold mergeBlobChunks at h
      split at h
      . cases h
      dsimp only at h
      split at h
      . cases h
      . next hsize =>
        split at h
        . cases h
        . split at h
          . cases h with
            | head =>
              rw [FileChunk.length_written]
              exact Nat.not_lt.mp hsize
            | tail _ h => exact ih h
          . exact ih h

theorem mergeBlobChunks_eq_expected_iff (allocates : Nat → Bool) (maxFileSize maxChunkSize : Nat)
    (response : Response ι μ ω)
    : (mergeBlobChunks allocates maxFileSize maxChunkSize .empty response = (expected [] response, none)
        ↔ Fits allocates maxFileSize maxChunkSize [] response)
      ∧ ∀ blob, .inl blob ∈ (mergeBlobChunks allocates maxFileSize maxChunkSize .empty response).1 →
          blob.1.length ≤ maxFileSize := by
  constructor
  . apply mergeBlobChunks_eq_iff
    intro id
    rfl
  . intro blob
    exact length_blob_le

def chunkOf (id totalLength : Nat) (blob : Bytes) (isEnd : Bool) : BlobChunk Nat Unit ⊕ String :=
  .inl ⟨id, totalLength, blob, isEnd, ()⟩

-- The first file declares too little and later another length, the second one too much.
def twoFiles : Response Nat Unit String :=
  [chunkOf 1 1 [10, 11] false, chunkOf 2 9 [20] false, .inr "log", chunkOf 1 7 [12] true,
    chunkOf 2 9 [21, 22] true, chunkOf 1 0 [13] true]

theorem mergeBlobChunks_eq_expected_iff_twoFiles
    : mergeBlobChunks (· < 16) 3 2 .empty twoFiles
      = ([.inr "log", .inl ([10, 11, 12], ()), .inl ([20, 21, 22], ()), .inl ([13], ())], none) := by
  apply (mergeBlobChunks_eq_expected_iff (· < 16) 3 2 twoFiles).1.mpr
  simp only [twoFiles, chunkOf, Fits, Run.Along, FitsAt, CanOpen]
  decide

theorem mergeBlobChunks_overflowError
    : mergeBlobChunks (fun _ => true) 3 2 .empty [chunkOf 1 (2 ^ 63) [10] true, .inr "log"]
        = ([], some .overflowError)
      ∧ expected [] [chunkOf 1 (2 ^ 63) [10] true, .inr "log"] = [.inl ([10], ()), .inr "log"] := by
  decide

end Dify
