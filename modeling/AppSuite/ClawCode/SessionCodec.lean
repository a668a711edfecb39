import AppSuite.ClawCode.JsonRoundTrip
import AppSuite.ClawCode.Session

/-!
This module contains how the parts of a session are written as JSON and read back.
-/

namespace ClawCode

inductive SessionError where
  | io
  | format (message : Str)
  deriving DecidableEq, Repr

namespace JsonObject

def insert (key : String) (value : JsonValue) (object : JsonObject) : JsonObject :=
  SortedMap.insert key.toList value object

def insertSome (key : String) (value : Option JsonValue) (object : JsonObject) : JsonObject :=
  SortedMap.insertSome key.toList value object

def get? (object : JsonObject) (key : String) : Option JsonValue := SortedMap.get? object key.toList

variable {object : JsonObject} {key key' : String}

@[simp]
theorem get?_nil : get? [] key = none := rfl

@[simp]
theorem get?_insert {value : JsonValue}
    : get? (insert key value object) key' = if key = key' then some value else get? object key' := by
  simp [get?, insert, String.toList_inj]

@[simp]
theorem get?_insertSome {value : Option JsonValue}
    : get? (insertSome key value object) key'
      = if key = key' then value.or (get? object key') else get? object key' := by
  simp [get?, insertSome, String.toList_inj]

end JsonObject

namespace JsonValue.Sorted

variable {object : JsonObject} {key : String}

theorem nil : (JsonValue.object []).Sorted := .object .nil nofun

theorem insert {value : JsonValue} (h : (JsonValue.object object).Sorted) (hvalue : value.Sorted)
    : (JsonValue.object (JsonObject.insert key value object)).Sorted := by
  cases h with
  | object hkeys hvalues =>
    refine .object (SortedMap.sorted_insert hkeys _ _) ?_
    intro entry hentry
    cases SortedMap.mem_of_mem_insert hentry with
    | inl heq => exact heq ▸ hvalue
    | inr hmem => exact hvalues entry hmem

theorem insertMap {α : Type} {value : Option α} {f : α → JsonValue} (h : (JsonValue.object object).Sorted)
    (hvalue : ∀ a, (f a).Sorted)
    : (JsonValue.object (JsonObject.insertSome key (value.map f) object)).Sorted := by
  cases value with
  | none => exact h
  | some value => exact h.insert (hvalue value)

end JsonValue.Sorted

section Required

variable (object : JsonObject) (key : String)

def requiredString : Except SessionError Str :=
  match (object.get? key).bind JsonValue.asStr with
  | some value => .ok value
  | none => .error (.format ("missing " ++ key).toList)

def requiredUnsigned (bits : Nat) (value : Option Int64) : Except SessionError Nat :=
  match value with
  | some value =>
    if 0 ≤ value.toInt ∧ value.toInt < 2 ^ bits then
      .ok value.toInt.toNat
    else
      .error (.format (key ++ " out of range").toList)
  | none => .error (.format ("missing " ++ key).toList)

def requiredU32 : Except SessionError UInt32 :=
  (requiredUnsigned key 32 ((object.get? key).bind JsonValue.asI64)).map .ofNat

def requiredU64FromValue (value : JsonValue) : Except SessionError UInt64 :=
  (requiredUnsigned key 64 value.asI64).map .ofNat

def requiredU64 : Except SessionError UInt64 :=
  match object.get? key with
  | some value => requiredU64FromValue key value
  | none => .error (.format ("missing " ++ key).toList)

def requiredUsize : Except SessionError UInt64 :=
  (requiredUnsigned key 64 ((object.get? key).bind JsonValue.asI64)).map .ofNat

def i64FromU64 (value : UInt64) : Except SessionError Int64 :=
  match i64? value.toNat with
  | some value => .ok value
  | none => .error (.format (key ++ " out of range for JSON number").toList)

end Required

def numberOfU32 (value : UInt32) : JsonValue := .number (.ofNat value.toNat)

section Codecs

def TokenUsage.toJson (usage : TokenUsage) : JsonValue :=
  .object ([]
    |> JsonObject.insert "input_tokens" (numberOfU32 usage.inputTokens)
    |> JsonObject.insert "output_tokens" (numberOfU32 usage.outputTokens)
    |> JsonObject.insert "cache_creation_input_tokens" (numberOfU32 usage.cacheCreationInputTokens)
    |> JsonObject.insert "cache_read_input_tokens" (numberOfU32 usage.cacheReadInputTokens))

variable (value : JsonValue)

def TokenUsage.fromJson : Except SessionError TokenUsage :=
  match value.asObject with
  | none => .error (.format "usage must be an object".toList)
  | some object => do
    let inputTokens ← requiredU32 object "input_tokens"
    let outputTokens ← requiredU32 object "output_tokens"
    let cacheCreationInputTokens ← requiredU32 object "cache_creation_input_tokens"
    let cacheReadInputTokens ← requiredU32 object "cache_read_input_tokens"
    .ok { inputTokens, outputTokens, cacheCreationInputTokens, cacheReadInputTokens }

def ContentBlock.toJson (block : ContentBlock) : JsonValue :=
  match block with
  | .text content =>
    .object ([]
      |> JsonObject.insert "type" (.string "text".toList)
      |> JsonObject.insert "text" (.string content))
  | .thinking content signature =>
    .object ([]
      |> JsonObject.insert "type" (.string "thinking".toList)
      |> JsonObject.insert "thinking" (.string content)
      |> JsonObject.insertSome "signature" (signature.map .string))
  | .toolUse id name input =>
    .object ([]
      |> JsonObject.insert "type" (.string "tool_use".toList)
      |> JsonObject.insert "id" (.string id)
      |> JsonObject.insert "name" (.string name)
      |> JsonObject.insert "input" (.string input))
  | .toolResult toolUseId toolName output isError =>
    .object ([]
      |> JsonObject.insert "type" (.string "tool_result".toList)
      |> JsonObject.insert "tool_use_id" (.string toolUseId)
      |> JsonObject.insert "tool_name" (.string toolName)
      |> JsonObject.insert "output" (.string output)
      |> JsonObject.insert "is_error" (.bool isError))

def ContentBlock.fromJson : Except SessionError ContentBlock :=
  match value.asObject with
  | none => .error (.format "block must be an object".toList)
  | some object =>
    match (object.get? "type").bind JsonValue.asStr with
    | none => .error (.format "missing block type".toList)
    | some kind =>
      if kind = "text".toList then do
        let content ← requiredString object "text"
        .ok (.text content)
      else if kind = "thinking".toList then do
        let content ← requiredString object "thinking"
        .ok (.thinking content ((object.get? "signature").bind JsonValue.asStr))
      else if kind = "tool_use".toList then do
        let id ← requiredString object "id"
        let name ← requiredString object "name"
        let input ← requiredString object "input"
        .ok (.toolUse id name input)
      else if kind = "tool_result".toList then do
        let toolUseId ← requiredString object "tool_use_id"
        let toolName ← requiredString object "tool_name"
        let output ← requiredString object "output"
        match (object.get? "is_error").bind JsonValue.asBool with
        | none => .error (.format "missing is_error".toList)
        | some isError => .ok (.toolResult toolUseId toolName output isError)
      else
        .error (.format ("unsupported block type: ".toList ++ kind))

def MessageRole.name (role : MessageRole) : String :=
  match role with
  | .system => "system"
  | .user => "user"
  | .assistant => "assistant"
  | .tool => "tool"

def ConversationMessage.toJson (message : ConversationMessage) : JsonValue :=
  .object ([]
    |> JsonObject.insert "role" (.string message.role.name.toList)
    |> JsonObject.insert "blocks" (.array (message.blocks.map ContentBlock.toJson))
    |> JsonObject.insertSome "usage" (message.usage.map TokenUsage.toJson))

def MessageRole.fromName (name : Str) : Except SessionError MessageRole :=
  if name = "system".toList then .ok .system
  else if name = "user".toList then .ok .user
  else if name = "assistant".toList then .ok .assistant
  else if name = "tool".toList then .ok .tool
  else .error (.format ("unsupported message role: ".toList ++ name))

def ConversationMessage.fromJson (value : JsonValue) : Except SessionError ConversationMessage :=
  match value.asObject with
  | none => .error (.format "message must be an object".toList)
  | some object =>
    match (object.get? "role").bind JsonValue.asStr with
    | none => .error (.format "missing role".toList)
    | some name => do
      let role ← MessageRole.fromName name
      match (object.get? "blocks").bind JsonValue.asArray with
      | none => .error (.format "missing blocks".toList)
      | some values =>
        let blocks ← values.mapM ContentBlock.fromJson
        let usage ← (object.get? "usage").mapM TokenUsage.fromJson
        .ok { role, blocks, usage }

def messageRecord (message : ConversationMessage) : JsonValue :=
  .object ([]
    |> JsonObject.insert "type" (.string "message".toList)
    |> JsonObject.insert "message" message.toJson)

def SessionCompaction.toJsonlRecord (compaction : SessionCompaction) : Except SessionError JsonValue := do
  let removedMessageCount ← i64FromU64 "removed_message_count" compaction.removedMessageCount
  .ok (.object ([]
    |> JsonObject.insert "type" (.string "compaction".toList)
    |> JsonObject.insert "count" (numberOfU32 compaction.count)
    |> JsonObject.insert "removed_message_count" (.number removedMessageCount)
    |> JsonObject.insert "summary" (.string compaction.summary)))

def SessionCompaction.fromJson : Except SessionError SessionCompaction :=
  match value.asObject with
  | none => .error (.format "compaction must be an object".toList)
  | some object => do
    let count ← requiredU32 object "count"
    let removedMessageCount ← requiredUsize object "removed_message_count"
    let summary ← requiredString object "summary"
    .ok { count, removedMessageCount, summary }

def SessionFork.toJson (fork : SessionFork) : JsonValue :=
  .object ([]
    |> JsonObject.insert "parent_session_id" (.string fork.parentSessionId)
    |> JsonObject.insertSome "branch_name" (fork.branchName.map .string))

def SessionFork.fromJson : Except SessionError SessionFork :=
  match value.asObject with
  | none => .error (.format "fork metadata must be an object".toList)
  | some object => do
    let parentSessionId ← requiredString object "parent_session_id"
    .ok { parentSessionId, branchName := (object.get? "branch_name").bind JsonValue.asStr }

def SessionPromptEntry.toJsonlRecord (entry : SessionPromptEntry) : JsonValue :=
  .object ([]
    |> JsonObject.insert "type" (.string "prompt_history".toList)
    |> JsonObject.insert "timestamp_ms" (.number ((i64? entry.timestampMs.toNat).getD Int64.maxValue))
    |> JsonObject.insert "text" (.string entry.text))

def SessionPromptEntry.fromJsonOpt : Option SessionPromptEntry := do
  let object ← value.asObject
  let timestamp ← (object.get? "timestamp_ms").bind JsonValue.asI64
  let timestampMs ← if 0 ≤ timestamp.toInt then some (UInt64.ofNat timestamp.toInt.toNat) else none
  let text ← (object.get? "text").bind JsonValue.asStr
  some { timestampMs, text }

end Codecs

section ReadBack

open JsonValue ConversationMessage SessionCompaction SessionFork SessionPromptEntry

variable (key : String)

theorem requiredUnsigned_ofNat (h : n < 2 ^ 63) (hbits : n < 2 ^ bits)
    : requiredUnsigned key bits (some (.ofNat n)) = .ok n := by
  have hint : (Int64.ofNat n).toInt = n := Int64.toInt_ofNat_of_lt h
  have hrange : 0 ≤ (n : Int) ∧ (n : Int) < 2 ^ bits := ⟨Int.natCast_nonneg n, by exact_mod_cast hbits⟩
  rw [requiredUnsigned, hint, if_pos hrange, Int.toNat_natCast]

theorem i64?_natCast {n : Nat} (h : n < 2 ^ 63) : i64? n = some (.ofNat n) := by
  have hint : (Int64.ofNat n).toInt = n := Int64.toInt_ofNat_of_lt h
  rw [← hint, i64?_toInt]

@[simp]
theorem requiredUnsigned_u32 (value : UInt32)
    : requiredUnsigned key 32 (numberOfU32 value).asI64 = .ok value.toNat :=
  requiredUnsigned_ofNat key (Nat.lt_trans value.toNat_lt (by decide)) value.toNat_lt

theorem requiredUnsigned_u64 {value : UInt64} (h : value.toNat < 2 ^ 63)
    : requiredUnsigned key 64 (some (.ofNat value.toNat)) = .ok value.toNat :=
  requiredUnsigned_ofNat key h value.toNat_lt

theorem i64FromU64_of_lt {value : UInt64} (h : value.toNat < 2 ^ 63)
    : i64FromU64 key value = .ok (.ofNat value.toNat) := by
  simp only [i64FromU64, i64?_natCast h]

@[simp]
theorem bind_string (value : Option Str) : (value.map string).bind asStr = value := by
  cases value <;> rfl

theorem TokenUsage.fromJson_toJson (usage : TokenUsage) : TokenUsage.fromJson usage.toJson = .ok usage := by
  simp [TokenUsage.toJson, TokenUsage.fromJson, requiredU32, bind, Except.bind,
    Except.map]

theorem ContentBlock.fromJson_toJson (block : ContentBlock)
    : ContentBlock.fromJson block.toJson = .ok block := by
  cases block <;> simp [ContentBlock.toJson, ContentBlock.fromJson, requiredString, bind, Except.bind]

theorem MessageRole.fromName_name (role : MessageRole)
    : MessageRole.fromName role.name.toList = .ok role := by
  cases role <;> rfl

theorem ConversationMessage.fromJson_toJson (message : ConversationMessage)
    : fromJson message.toJson = .ok message := by
  have hblocks : message.blocks.mapM (ContentBlock.fromJson ∘ ContentBlock.toJson) = .ok message.blocks := by
    have h := ExceptFold.mapM_eq_ok (g := id) fun block (_ : block ∈ message.blocks) =>
      ContentBlock.fromJson_toJson block
    rw [List.map_id] at h
    exact h
  have husage : (message.usage.map TokenUsage.toJson).mapM TokenUsage.fromJson = .ok message.usage := by
    cases message.usage with
    | none => rfl
    | some usage => simp [TokenUsage.fromJson_toJson, Except.map, Functor.map]
  simp [toJson, fromJson, MessageRole.fromName_name, hblocks, husage, bind, Except.bind]

theorem SessionFork.fromJson_toJson (fork : SessionFork) : fromJson fork.toJson = .ok fork := by
  simp [toJson, fromJson, requiredString, bind,
    Except.bind]

def Fits (value : UInt64) : Prop := value.toNat < 2 ^ 63

theorem SessionCompaction.fromJson_toJsonlRecord
    (h : Fits compaction.removedMessageCount)
    : ∃ object : JsonObject, compaction.toJsonlRecord = .ok (.object object)
      ∧ (JsonValue.object object).Sorted ∧ object.get? "type" = some (.string "compaction".toList)
      ∧ fromJson (.object object) = .ok compaction := by
  refine ⟨_, by rw [toJsonlRecord, i64FromU64_of_lt _ h]; rfl, ?_, by simp, ?_⟩
  . exact (((Sorted.nil.insert (.string _)).insert (.number _)).insert (.number _)).insert (.string _)
  simp [fromJson, requiredString,
    requiredU32, requiredUsize, requiredUnsigned_u64 _ h, bind, Except.bind, Except.map]

theorem SessionPromptEntry.fromJsonOpt_toJsonlRecord {entry : SessionPromptEntry}
    (h : Fits entry.timestampMs)
    : fromJsonOpt entry.toJsonlRecord = some entry := by
  have hint : (Int64.ofNat entry.timestampMs.toNat).toInt = entry.timestampMs.toNat :=
    Int64.toInt_ofNat_of_lt h
  have hclamp : (Int64.ofNat entry.timestampMs.toNat).toNatClampNeg = entry.timestampMs.toNat := by
    rw [Int64.toNatClampNeg, hint, Int.toNat_natCast]
  simp [toJsonlRecord, fromJsonOpt, i64?_natCast h, hint, hclamp]

end ReadBack

section Sorted

open JsonValue

theorem TokenUsage.sorted_toJson (usage : TokenUsage) : usage.toJson.Sorted :=
  (((Sorted.nil.insert (.number _)).insert (.number _)).insert (.number _)).insert (.number _)

theorem ContentBlock.sorted_toJson (block : ContentBlock) : block.toJson.Sorted := by
  cases block with
  | text _ => exact (Sorted.nil.insert (.string _)).insert (.string _)
  | thinking _ _ => exact ((Sorted.nil.insert (.string _)).insert (.string _)).insertMap .string
  | toolUse _ _ _ =>
    exact (((Sorted.nil.insert (.string _)).insert (.string _)).insert (.string _)).insert (.string _)
  | toolResult _ _ _ _ =>
    exact ((((Sorted.nil.insert (.string _)).insert (.string _)).insert (.string _)).insert
      (.string _)).insert (.bool _)

theorem ConversationMessage.sorted_toJson (message : ConversationMessage) : message.toJson.Sorted := by
  have hblocks : (array (message.blocks.map ContentBlock.toJson)).Sorted := by
    apply Sorted.array
    rw [List.forall_mem_map]
    exact fun block _ => block.sorted_toJson
  exact ((Sorted.nil.insert (.string _)).insert hblocks).insertMap TokenUsage.sorted_toJson

theorem sorted_messageRecord (message : ConversationMessage) : (messageRecord message).Sorted :=
  (Sorted.nil.insert (.string _)).insert message.sorted_toJson

theorem SessionFork.sorted_toJson (fork : SessionFork) : fork.toJson.Sorted :=
  (Sorted.nil.insert (.string _)).insertMap .string

theorem SessionPromptEntry.sorted_toJsonlRecord (entry : SessionPromptEntry)
    : entry.toJsonlRecord.Sorted :=
  ((Sorted.nil.insert (.string _)).insert (.number _)).insert (.string _)

end Sorted

end ClawCode
