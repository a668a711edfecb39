import AppSuite.Text.Lines
import AppSuite.ClawCode.SessionCodec

/-!
This module contains the session file, with one JSON record on each line.
-/

namespace ClawCode

open List Text Session JsonObject SessionPromptEntry

section Save

variable (display : PathBuf → Str)

def workspaceRootToString (path : PathBuf) : Except SessionError Str :=
  match decode? path with
  | some text => .ok text
  | none => .error (.format ("workspace_root is not valid UTF-8: ".toList ++ display path))

variable (session : Session)

def Session.metaObject (createdAtMs updatedAtMs : Int64) (workspaceRoot : Option Str) : JsonObject :=
  []
    |> insert "type" (.string "session_meta".toList)
    |> insert "version" (numberOfU32 session.version)
    |> insert "session_id" (.string session.sessionId)
    |> insert "created_at_ms" (.number createdAtMs)
    |> insert "updated_at_ms" (.number updatedAtMs)
    |> insertSome "fork" (session.fork.map SessionFork.toJson)
    |> insertSome "workspace_root" (workspaceRoot.map .string)
    |> insertSome "model" (session.model.map .string)

def Session.metaRecord : Except SessionError JsonValue := do
  let createdAtMs ← i64FromU64 "created_at_ms" session.createdAtMs
  let updatedAtMs ← i64FromU64 "updated_at_ms" session.updatedAtMs
  let workspaceRoot ← session.workspaceRoot.mapM (workspaceRootToString display)
  .ok (.object (session.metaObject createdAtMs updatedAtMs workspaceRoot))

def Session.records : Except SessionError (List JsonValue) := do
  let first ← session.metaRecord display
  let compaction ← session.compaction.mapM SessionCompaction.toJsonlRecord
  .ok (first :: (compaction.toList ++ session.promptHistory.map toJsonlRecord
    ++ session.messages.map messageRecord))

def Session.renderJsonlSnapshot : Except SessionError Str := do
  let records ← session.records display
  .ok (['\n'].intercalate (records.map JsonValue.render) ++ ['\n'])

def Session.saveToPath : Except SessionError (List UInt8) :=
  (session.renderJsonlSnapshot display).map encode

end Save

section Load

structure Loaded where
  version : UInt32 := 1
  sessionId : Option Str := none
  createdAtMs : Option UInt64 := none
  updatedAtMs : Option UInt64 := none
  messages : List ConversationMessage := []
  compaction : Option SessionCompaction := none
  fork : Option SessionFork := none
  workspaceRoot : Option PathBuf := none
  model : Option Str := none
  promptHistory : List SessionPromptEntry := []

def atLine (before : String) (index : Nat) (after : String) : Str :=
  (before ++ toString (index + 1) ++ after).toList

def Loaded.readRecord (loaded : Loaded) (index : Nat) (object : JsonObject)
    : Except SessionError Loaded :=
  match (object.get? "type").bind JsonValue.asStr with
  | none => .error (.format (atLine "JSONL record at line " index " missing type"))
  | some kind =>
    if kind = "session_meta".toList then do
      let version ← requiredU32 object "version"
      let sessionId ← requiredString object "session_id"
      let createdAtMs ← requiredU64 object "created_at_ms"
      let updatedAtMs ← requiredU64 object "updated_at_ms"
      let fork ← (object.get? "fork").mapM SessionFork.fromJson
      .ok { loaded with
        version, fork
        sessionId := some sessionId
        createdAtMs := some createdAtMs
        updatedAtMs := some updatedAtMs
        workspaceRoot := ((object.get? "workspace_root").bind JsonValue.asStr).map encode
        model := (object.get? "model").bind JsonValue.asStr }
    else if kind = "message".toList then
      match object.get? "message" with
      | none => .error (.format (atLine "JSONL record at line " index " missing message"))
      | some value => do
        let message ← ConversationMessage.fromJson value
        .ok { loaded with messages := loaded.messages ++ [message] }
    else if kind = "compaction".toList then do
      let compaction ← SessionCompaction.fromJson (.object object)
      .ok { loaded with compaction := some compaction }
    else if kind = "prompt_history".toList then
      match fromJsonOpt (.object object) with
      | some entry => .ok { loaded with promptHistory := loaded.promptHistory ++ [entry] }
      | none => .ok loaded
    else
      .error (.format (atLine "unsupported JSONL record type at line " index ": " ++ kind))

def JsonError.fmt (error : JsonError) : Str :=
  match error with
  | .new message => message
  | .exhausted => []

def Loaded.readLine (loaded : Loaded) (rawLine : Str × Nat) : Except SessionError Loaded :=
  let line := trim isWhiteSpace rawLine.1
  if line = [] then
    .ok loaded
  else
    match JsonValue.parse line with
    | .error error => .error (.format (atLine "invalid JSONL record at line " rawLine.2 ": " ++ error.fmt))
    | .ok value =>
      match value.asObject with
      | none => .error (.format (atLine "JSONL record at line " rawLine.2 " must be an object"))
      | some object => loaded.readRecord rawLine.2 object

-- The id and the time that are used where the file has none.
variable (generatedId : Str) (now : UInt64)

def Loaded.toSession (loaded : Loaded) : Session :=
  { loaded with
    sessionId := loaded.sessionId.getD generatedId
    createdAtMs := loaded.createdAtMs.getD now
    updatedAtMs := loaded.updatedAtMs.getD (loaded.createdAtMs.getD now)
    lastHealthCheckMs := none
    persistence := none }

def Session.fromJsonl (contents : Str) : Except SessionError Session := do
  let loaded ← (lines contents).zipIdx.foldlM Loaded.readLine {}
  .ok (loaded.toSession generatedId now)

def Session.fromJson (value : JsonValue) : Except SessionError Session :=
  match value.asObject with
  | none => .error (.format "session must be an object".toList)
  | some object => do
    let version ← requiredU32 object "version"
    match (object.get? "messages").bind JsonValue.asArray with
    | none => .error (.format "missing messages".toList)
    | some values =>
      let messages ← values.mapM ConversationMessage.fromJson
      let createdAtMs ← (object.get? "created_at_ms").mapM (requiredU64FromValue "created_at_ms")
      let updatedAtMs ← (object.get? "updated_at_ms").mapM (requiredU64FromValue "updated_at_ms")
      let compaction ← (object.get? "compaction").mapM SessionCompaction.fromJson
      let fork ← (object.get? "fork").mapM SessionFork.fromJson
      .ok (Loaded.toSession generatedId now {
        version, createdAtMs, updatedAtMs, messages, compaction, fork
        sessionId := (object.get? "session_id").bind JsonValue.asStr
        workspaceRoot := ((object.get? "workspace_root").bind JsonValue.asStr).map encode
        model := (object.get? "model").bind JsonValue.asStr
        promptHistory := (((object.get? "prompt_history").bind JsonValue.asArray).getD []).filterMap
          fromJsonOpt })

def Session.loadFromPath (path : PathBuf) (file : Option (List UInt8)) : Except SessionError Session :=
  match file.bind decode? with
  | none => .error .io
  | some contents => do
    let session ← match JsonValue.parse contents with
      | .ok value =>
        if (value.asObject.bind (·.get? "messages")).isSome then
          fromJson generatedId now value
        else
          fromJsonl generatedId now contents
      | .error _ => fromJsonl generatedId now contents
    .ok { session with persistence := some path }

end Load

section Log

variable {record : JsonValue} {records : List JsonValue} {loaded : Loaded}

def IsObject (record : JsonValue) : Prop := ∃ object, record = .object object

theorem IsObject.render_eq (h : IsObject record) : ∃ inner, record.render = '\x7b' :: (inner ++ ['\x7d']) := by
  have ⟨object, hobject⟩ := h
  rw [hobject, JsonValue.render, cons_append]
  exact ⟨_, rfl⟩

theorem IsObject.getLast?_render (h : IsObject record) : record.render.getLast? = some '\x7d' := by
  have ⟨inner, hinner⟩ := h.render_eq
  rw [hinner, ← cons_append, getLast?_concat]

theorem IsObject.trim_render (h : IsObject record)
    : trim isWhiteSpace record.render = record.render := by
  have ⟨inner, hinner⟩ := h.render_eq
  rw [trim_eq_trimEnd, trimEnd_eq_self_iff]
  . intro c hc
    rw [h.getLast?_render] at hc
    cases hc
    decide
  . intro c hc
    rw [hinner] at hc
    cases hc
    decide

structure ReadsAs (record : JsonValue) (effect : Loaded → Loaded) : Prop where
  sorted : record.Sorted
  read : ∃ object, record = .object object
    ∧ ∀ loaded index, Loaded.readRecord loaded index object = .ok (effect loaded)

variable {effect : Loaded → Loaded} {file : List UInt8}

theorem ReadsAs.isObject (h : ReadsAs record effect) : IsObject record := by
  have ⟨object, hobject, _⟩ := h.read
  exact ⟨object, hobject⟩

theorem ReadsAs.readLine_render (h : ReadsAs record effect) (loaded : Loaded) (index : Nat)
    : loaded.readLine (record.render, index) = .ok (effect loaded) := by
  have ⟨inner, hinner⟩ := h.isObject.render_eq
  have ⟨object, hobject, hread⟩ := h.read
  have hne : record.render ≠ [] := by
    rw [hinner]
    exact cons_ne_nil _ _
  unfold Loaded.readLine
  rw [h.isObject.trim_render, if_neg hne, parse_render h.sorted, hobject]
  exact hread loaded index

structure Log (records : List JsonValue) (loaded : Loaded) : Prop where
  sorted : ∀ record ∈ records, record.Sorted ∧ IsObject record
  read : (records.map JsonValue.render).zipIdx.foldlM Loaded.readLine {} = .ok loaded

theorem Log.nil : Log [] {} := ⟨nofun, rfl⟩

theorem Log.concat (h : Log records loaded) (hreads : ReadsAs record effect)
    : Log (records ++ [record]) (effect loaded) where
  sorted := by
    rw [forall_mem_append, forall_mem_singleton]
    exact ⟨h.sorted, hreads.sorted, hreads.isObject⟩
  read := by
    rw [map_append, zipIdx_append, foldlM_append, h.read]
    simp [bind, Except.bind, hreads.readLine_render, pure, Except.pure]

theorem Log.append {α : Type} {f : α → JsonValue} {effect : α → Loaded → Loaded} {items : List α}
    (h : Log records loaded) (hreads : ∀ item ∈ items, ReadsAs (f item) (effect item))
    : Log (records ++ items.map f) (items.foldl (fun loaded item => effect item loaded) loaded) := by
  induction items generalizing records loaded with
  | nil =>
    rw [map_nil, append_nil]
    exact h
  | cons item items ih =>
    rw [forall_mem_cons] at hreads
    rw [map_cons, append_cons, foldl_cons]
    exact ih (h.concat hreads.1) hreads.2

variable (generatedId : Str) (now : UInt64)

theorem Log.fromJsonl (h : Log records loaded)
    : fromJsonl generatedId now (unlines (records.map JsonValue.render))
      = .ok (loaded.toSession generatedId now) := by
  have hlines
      : lines (unlines (records.map JsonValue.render)) = records.map JsonValue.render := by
    apply lines_unlines
    rw [forall_mem_map]
    intro record hrecord
    have ⟨hsorted, hobject⟩ := h.sorted record hrecord
    rw [hobject.getLast?_render]
    exact ⟨newline_not_mem_render hsorted, by decide⟩
  rw [Session.fromJsonl, hlines, h.read]
  rfl

def logFile (records : List JsonValue) : List UInt8 :=
  encode (unlines (records.map JsonValue.render))

def Holds (file : List UInt8) (loaded : Loaded) : Prop :=
  ∃ (first : JsonObject) (records : List JsonValue), file = logFile (.object first :: records)
    ∧ first.get? "messages" = none ∧ Log (.object first :: records) loaded

theorem Holds.loadFromPath (h : Holds file loaded) (path : PathBuf)
    : loadFromPath generatedId now path (some file)
      = .ok { loaded.toSession generatedId now with persistence := some path } := by
  have ⟨first, records, hfile, hfirst, hlog⟩ := h
  have hjsonl := hlog.fromJsonl generatedId now
  have hsorted := (hlog.sorted _ mem_cons_self).1
  have hparse := parse_spaced hsorted (spaced_render hsorted _)
    (endsNumber_cons (c := '\n') (by decide) (unlines (records.map JsonValue.render)))
  have hcontents : unlines ((.object first :: records).map JsonValue.render)
      = (JsonValue.object first).render ++ '\n' :: unlines (records.map JsonValue.render) := by
    simp [unlines]
  unfold Session.loadFromPath
  rw [hfile, logFile, Option.bind_some, decode?_encode]
  dsimp only
  rw [hcontents] at hjsonl ⊢
  rw [hparse]
  by_cases hspace : skipWhitespace ('\n' :: unlines (records.map JsonValue.render)) = []
  . simp [hspace, hfirst, hjsonl, bind, Except.bind]
  . simp [hspace, hjsonl, bind, Except.bind]

theorem Holds.append (h : Holds file loaded) (hreads : ReadsAs record effect)
    : Holds (file ++ encode (record.render ++ ['\n'])) (effect loaded) := by
  have ⟨first, records, hfile, hfirst, hlog⟩ := h
  refine ⟨first, records ++ [record], ?_, hfirst, hlog.concat hreads⟩
  rw [hfile, logFile, logFile, ← encode_append]
  simp [unlines]

theorem Holds.ne_nil (h : Holds file loaded) : file ≠ [] := by
  have ⟨first, records, hfile, _⟩ := h
  rw [hfile, logFile, ne_eq, encode_eq_nil_iff]
  simp [unlines]

end Log

section Snapshot

structure Writable (session : Session) : Prop where
  root : ∀ root, session.workspaceRoot = some root → ∃ text, root = encode text
  created : Fits session.createdAtMs
  updated : Fits session.updatedAtMs
  compaction : ∀ compaction, session.compaction = some compaction → Fits compaction.removedMessageCount
  prompts : ∀ entry ∈ session.promptHistory, Fits entry.timestampMs

variable {session : Session}

def Loaded.readMeta (session : Session) (loaded : Loaded) : Loaded :=
  { loaded with
    version := session.version
    sessionId := some session.sessionId
    createdAtMs := some session.createdAtMs
    updatedAtMs := some session.updatedAtMs
    fork := session.fork
    workspaceRoot := session.workspaceRoot
    model := session.model }

def Loaded.pushMessage (message : ConversationMessage) (loaded : Loaded) : Loaded :=
  { loaded with messages := loaded.messages ++ [message] }

def Loaded.pushPrompt (entry : SessionPromptEntry) (loaded : Loaded) : Loaded :=
  { loaded with promptHistory := loaded.promptHistory ++ [entry] }

variable (display : PathBuf → Str)

theorem mapM_workspaceRootToString (h : Writable session)
    : ∃ text : Option Str, session.workspaceRoot.mapM (workspaceRootToString display) = .ok text
      ∧ text.map encode = session.workspaceRoot := by
  cases hroot : session.workspaceRoot with
  | none => exact ⟨none, rfl, rfl⟩
  | some root =>
    have ⟨text, htext⟩ := h.root root hroot
    refine ⟨some text, ?_, by rw [htext]; rfl⟩
    simp [workspaceRootToString, htext, decode?_encode, Functor.map, Except.map]

theorem exists_metaRecord (h : Writable session)
    : ∃ object : JsonObject, session.metaRecord display = .ok (.object object)
      ∧ object.get? "messages" = none ∧ ReadsAs (.object object) (Loaded.readMeta session) := by
  have ⟨text, htext, hencode⟩ := mapM_workspaceRootToString display h
  have hfork : (session.fork.map SessionFork.toJson).mapM SessionFork.fromJson = .ok session.fork := by
    cases session.fork with
    | none => rfl
    | some fork => simp [SessionFork.fromJson_toJson, Except.map, Functor.map]
  refine ⟨session.metaObject (.ofNat session.createdAtMs.toNat) (.ofNat session.updatedAtMs.toNat) text,
    ?_, by simp [metaObject], ?_, _, rfl, ?_⟩
  . rw [metaRecord, i64FromU64_of_lt _ h.created, i64FromU64_of_lt _ h.updated, htext]
    rfl
  . exact ((((((((JsonValue.Sorted.nil.insert (.string _)).insert (.number _)).insert (.string _)).insert
      (.number _)).insert (.number _)).insertMap SessionFork.sorted_toJson).insertMap .string).insertMap
      .string)
  . intro loaded index
    simp [metaObject, Loaded.readRecord, requiredU32, requiredString, requiredU64,
      requiredU64FromValue, requiredUnsigned_u64 _ h.created, requiredUnsigned_u64 _ h.updated, hfork,
      hencode, Loaded.readMeta, bind, Except.bind, Except.map]

theorem readsAs_messageRecord (message : ConversationMessage)
    : ReadsAs (messageRecord message) (Loaded.pushMessage message) := by
  refine ⟨sorted_messageRecord message, _, rfl, ?_⟩
  intro loaded index
  simp [Loaded.readRecord, ConversationMessage.fromJson_toJson, bind, Except.bind, Loaded.pushMessage]

variable {loaded : Loaded} {index : Nat} {object : JsonObject} {entry : SessionPromptEntry}

theorem Loaded.readRecord_compaction (hkind : object.get? "type" = some (.string "compaction".toList))
    : loaded.readRecord index object = (do
      let compaction ← SessionCompaction.fromJson (.object object)
      .ok { loaded with compaction := some compaction }) := by
  rw [Loaded.readRecord, hkind, Option.bind_some]
  dsimp only [JsonValue.asStr]
  rw [if_neg (by decide), if_neg (by decide), if_pos rfl]

theorem Loaded.readRecord_prompt (hkind : object.get? "type" = some (.string "prompt_history".toList))
    (hread : fromJsonOpt (.object object) = some entry)
    : loaded.readRecord index object = .ok (loaded.pushPrompt entry) := by
  rw [Loaded.readRecord, hkind, Option.bind_some]
  dsimp only [JsonValue.asStr]
  rw [if_neg (by decide), if_neg (by decide), if_neg (by decide), if_pos rfl, hread]
  rfl

theorem readsAs_promptRecord (h : Fits entry.timestampMs)
    : ReadsAs entry.toJsonlRecord (Loaded.pushPrompt entry) where
  sorted := entry.sorted_toJsonlRecord
  read := by
    refine ⟨_, rfl, ?_⟩
    intro loaded index
    apply Loaded.readRecord_prompt
    . simp
    . exact fromJsonOpt_toJsonlRecord h

theorem exists_compactionRecord (h : Writable session)
    : ∃ record, session.compaction.mapM SessionCompaction.toJsonlRecord = .ok record
      ∧ ∀ {records loaded}, Log records loaded
        → Log (records ++ record.toList)
            { loaded with compaction := session.compaction.or loaded.compaction } := by
  cases hcompaction : session.compaction with
  | none =>
    refine ⟨none, rfl, ?_⟩
    intro records loaded hlog
    simpa using hlog
  | some compaction =>
    have ⟨object, hrecord, hsorted, hkind, hread⟩ :=
      SessionCompaction.fromJson_toJsonlRecord (h.compaction compaction hcompaction)
    refine ⟨some (.object object), by simp [hrecord, Functor.map, Except.map], ?_⟩
    intro records loaded hlog
    have hreads : ReadsAs (.object object)
        fun loaded => { loaded with compaction := some compaction } := by
      refine ⟨hsorted, object, rfl, ?_⟩
      intro loaded index
      rw [Loaded.readRecord_compaction hkind, hread]
      rfl
    exact hlog.concat hreads

theorem foldl_pushPrompt (entries : List SessionPromptEntry) (loaded : Loaded)
    : entries.foldl (fun loaded entry => loaded.pushPrompt entry) loaded
      = { loaded with promptHistory := loaded.promptHistory ++ entries } := by
  induction entries generalizing loaded with
  | nil => simp
  | cons entry entries ih =>
    rw [foldl_cons, ih]
    simp [Loaded.pushPrompt]

theorem foldl_pushMessage (messages : List ConversationMessage) (loaded : Loaded)
    : messages.foldl (fun loaded message => loaded.pushMessage message) loaded
      = { loaded with messages := loaded.messages ++ messages } := by
  induction messages generalizing loaded with
  | nil => simp
  | cons message messages ih =>
    rw [foldl_cons, ih]
    simp [Loaded.pushMessage]

def Session.toLoaded (session : Session) : Loaded :=
  { session with
    sessionId := some session.sessionId
    createdAtMs := some session.createdAtMs
    updatedAtMs := some session.updatedAtMs }

theorem exists_saveToPath (h : Writable session)
    : ∃ file, session.saveToPath display = .ok file ∧ Holds file session.toLoaded := by
  have ⟨first, hfirst, hmessages, hmeta⟩ := exists_metaRecord display h
  have ⟨compaction, hcompaction, hlog⟩ := exists_compactionRecord h
  have hprompts := (hlog (Log.nil.concat hmeta)).append fun entry hentry =>
    readsAs_promptRecord (h.prompts entry hentry)
  have hall := hprompts.append fun message (_ : message ∈ session.messages) =>
    readsAs_messageRecord message
  rw [foldl_pushPrompt, foldl_pushMessage] at hall
  refine ⟨logFile (.object first :: (compaction.toList
    ++ session.promptHistory.map toJsonlRecord ++ session.messages.map messageRecord)),
    ?_, first, _, rfl, hmessages, ?_⟩
  . rw [saveToPath, renderJsonlSnapshot, records, hfirst, hcompaction, logFile,
      map_cons, ← intercalate_append_newline]
    rfl
  . simpa [Loaded.readMeta, toLoaded] using hall

end Snapshot

theorem loadFromPath_saveToPath (display : PathBuf → Str) (generatedId : Str) (now : UInt64)
    (path : PathBuf) (session : Session) (h : Writable session) (hhealth : session.lastHealthCheckMs = none)
    : ∃ file, session.saveToPath display = .ok file
      ∧ loadFromPath generatedId now path (some file)
        = .ok { session with persistence := some path } := by
  have ⟨file, hsave, hholds⟩ := exists_saveToPath display h
  refine ⟨file, hsave, ?_⟩
  rw [hholds.loadFromPath generatedId now path]
  simp [Loaded.toSession, toLoaded, hhealth]

def awkwardSession : Session where
  version := 1
  sessionId := "s\r\n".toList
  createdAtMs := 1
  updatedAtMs := 2
  messages := [⟨.assistant, [.toolUse ['\x01'] "bash".toList "[\"type\"]\n".toList], some ⟨1, 2, 3, 4⟩⟩,
    .toolResult ['\x01'] "bash".toList [' ', '\u2028', '\\'] true]
  compaction := some ⟨1, 7, "\n\n".toList⟩
  fork := some ⟨"s".toList, none⟩
  workspaceRoot := some (encode "/é".toList)
  promptHistory := [⟨3, "\t\"".toList⟩]
  lastHealthCheckMs := none
  model := some []
  persistence := none

theorem loadFromPath_saveToPath_awkward
    : ∃ file, awkwardSession.saveToPath (fun _ => []) = .ok file
      ∧ loadFromPath [] 0 [] (some file) = .ok { awkwardSession with persistence := some [] } := by
  refine loadFromPath_saveToPath (fun _ => []) [] 0 [] awkwardSession ?_ rfl
  constructor
  . intro root hroot
    exact ⟨"/é".toList, (Option.some.inj hroot).symm⟩
  all_goals simp [awkwardSession, Fits]

end ClawCode
