import AppSuite.ClawCode.Permissions
import AppSuite.Text.Search
import AppSuite.Text.Utf8

/-!
This module contains the data of a session and its compaction. The text of a summary is left to a writer.
-/

namespace ClawCode

inductive MessageRole where
  | system
  | user
  | assistant
  | tool
  deriving DecidableEq, Repr

inductive ContentBlock where
  | text (text : Str)
  | thinking (thinking : Str) (signature : Option Str)
  | toolUse (id name input : Str)
  | toolResult (toolUseId toolName output : Str) (isError : Bool)
  deriving DecidableEq, Repr

structure TokenUsage where
  inputTokens : UInt32
  outputTokens : UInt32
  cacheCreationInputTokens : UInt32
  cacheReadInputTokens : UInt32
  deriving DecidableEq, Repr

structure ConversationMessage where
  role : MessageRole
  blocks : List ContentBlock
  usage : Option TokenUsage
  deriving DecidableEq, Repr

structure SessionCompaction where
  count : UInt32
  removedMessageCount : UInt64
  summary : Str
  deriving DecidableEq, Repr

structure SessionFork where
  parentSessionId : Str
  branchName : Option Str
  deriving DecidableEq, Repr

structure SessionPromptEntry where
  timestampMs : UInt64
  text : Str
  deriving DecidableEq, Repr

abbrev PathBuf := List UInt8

structure Session where
  version : UInt32
  sessionId : Str
  createdAtMs : UInt64
  updatedAtMs : UInt64
  messages : List ConversationMessage
  compaction : Option SessionCompaction
  fork : Option SessionFork
  workspaceRoot : Option PathBuf
  promptHistory : List SessionPromptEntry
  lastHealthCheckMs : Option UInt64
  model : Option Str
  persistence : Option PathBuf
  deriving DecidableEq, Repr

namespace ContentBlock

def isToolResult (block : ContentBlock) : Bool :=
  match block with
  | .toolResult .. => true
  | _ => false

def isToolUse (block : ContentBlock) : Bool :=
  match block with
  | .toolUse .. => true
  | _ => false

end ContentBlock

namespace ConversationMessage

def userText (text : Str) : ConversationMessage := ⟨.user, [.text text], none⟩

def assistantWithUsage (blocks : List ContentBlock) (usage : Option TokenUsage) : ConversationMessage :=
  ⟨.assistant, blocks, usage⟩

def toolResult (toolUseId toolName output : Str) (isError : Bool) : ConversationMessage :=
  ⟨.tool, [.toolResult toolUseId toolName output isError], none⟩

def startsWithToolResult (message : ConversationMessage) : Bool :=
  message.blocks.head?.any (·.isToolResult)

def hasToolUse (message : ConversationMessage) : Bool := message.blocks.any (·.isToolUse)

end ConversationMessage

namespace Session

def new (now : UInt64) (sessionId : Str) : Session where
  version := 1
  sessionId := sessionId
  createdAtMs := now
  updatedAtMs := now
  messages := []
  compaction := none
  fork := none
  workspaceRoot := none
  promptHistory := []
  lastHealthCheckMs := none
  model := none
  persistence := none

variable (session : Session) (now : UInt64)

def touch : Session := { session with updatedAtMs := now }

def recordCompaction (summary : Str) (removedMessageCount : Nat) : Session :=
  let session := session.touch now
  let count := match session.compaction with
    | some compaction => compaction.count + 1
    | none => 1
  { session with compaction := some ⟨count, .ofNat removedMessageCount, summary⟩ }

end Session

def compactContinuationPreamble : Str :=
  ("This session is being continued from a previous conversation that ran out of context. The summary "
    ++ "below covers the earlier portion of the conversation.\n\n").toList

def compactRecentMessagesNote : Str := "Recent messages are preserved verbatim.".toList

def compactDirectResumeInstruction : Str :=
  ("Continue the conversation from where it left off without asking the user any further questions. "
    ++ "Resume directly — do not acknowledge the summary, do not recap what was happening, and do not "
    ++ "preface with continuation text.").toList

structure CompactionConfig where
  preserveRecentMessages : Nat := 4
  maxEstimatedTokens : Nat := 10000
  deriving DecidableEq, Repr

structure CompactionResult where
  summary : Str
  formattedSummary : Str
  compactedSession : Session
  removedMessageCount : Nat
  deriving DecidableEq, Repr

structure SummaryWriter where
  summarizeMessages : List ConversationMessage → Str
  mergeCompactSummaries : Option Str → Str → Str
  formatCompactSummary : Str → Str

def byteLen (s : Str) : Nat := (Text.encode s).length

def estimateBlockTokens (block : ContentBlock) : Nat :=
  match block with
  | .text text => byteLen text / 4 + 1
  | .toolUse _ name input => (byteLen name + byteLen input) / 4 + 1
  | .toolResult _ toolName output _ => (byteLen toolName + byteLen output) / 4 + 1
  | .thinking thinking signature =>
    byteLen thinking / 4 + signature.elim 0 fun value => byteLen value / 4 + 1

variable (message : ConversationMessage)

def estimateMessageTokens : Nat :=
  (message.blocks.map estimateBlockTokens).sum

def firstTextBlock : Option Str :=
  message.blocks.findSome? fun block =>
    match block with
    | .text text => if Text.trim Text.isWhiteSpace text = [] then none else some text
    | _ => none

def splitBefore (needle s : Str) : Str :=
  match Text.find? needle s with
  | some i => s.take i
  | none => s

def extractExistingCompactedSummary : Option Str :=
  if message.role ≠ .system then
    none
  else
    match firstTextBlock message with
    | none => none
    | some text =>
      if compactContinuationPreamble <+: text then
        let summary := text.drop compactContinuationPreamble.length
        let summary := splitBefore ("\n\n".toList ++ compactRecentMessagesNote) summary
        let summary := splitBefore ('\n' :: compactDirectResumeInstruction) summary
        some (Text.trim Text.isWhiteSpace summary)
      else
        none

variable (messages : List ConversationMessage)

def existingSummary : Option Str :=
  messages.head?.bind extractExistingCompactedSummary

def compactedSummaryPrefixLen : Nat :=
  if (existingSummary messages).isSome then 1 else 0

def shouldCompact (session : Session) (config : CompactionConfig) : Bool :=
  let compactable := session.messages.drop (compactedSummaryPrefixLen session.messages)
  compactable.length > config.preserveRecentMessages
    ∧ (compactable.map estimateMessageTokens).sum ≥ config.maxEstimatedTokens

-- The boundary is walked back over tool results; `none` is an index past the last message.
def walkBack (messages : List ConversationMessage) (compactedPrefixLen k : Nat) : Option Nat :=
  match k with
  | 0 => some 0
  | k + 1 =>
    if k + 1 ≤ compactedPrefixLen then
      some (k + 1)
    else
      match messages[k + 1]? with
      | none => none
      | some firstPreserved =>
        if firstPreserved.startsWithToolResult then
          match messages[k]? with
          | none => none
          | some preceding =>
            if preceding.hasToolUse then some k else walkBack messages compactedPrefixLen k
        else
          some (k + 1)

section

variable (writer : SummaryWriter)

def getCompactContinuationMessage (summary : Str)
    (suppressFollowUpQuestions recentMessagesPreserved : Bool) : Str :=
  compactContinuationPreamble ++ writer.formatCompactSummary summary
    ++ (if recentMessagesPreserved then "\n\n".toList ++ compactRecentMessagesNote else [])
    ++ (if suppressFollowUpQuestions then '\n' :: compactDirectResumeInstruction else [])

def compactSession (now : UInt64) (session : Session) (config : CompactionConfig)
    : Option CompactionResult :=
  if shouldCompact session config then
    let rawKeepFrom := session.messages.length - config.preserveRecentMessages
    let compactedPrefixLen := compactedSummaryPrefixLen session.messages
    match walkBack session.messages compactedPrefixLen rawKeepFrom with
    | none => none
    | some keepFrom =>
      let removed := (session.messages.take keepFrom).drop compactedPrefixLen
      let preserved := session.messages.drop keepFrom
      let summary := writer.mergeCompactSummaries (existingSummary session.messages)
        (writer.summarizeMessages removed)
      let continuation := getCompactContinuationMessage writer summary true (preserved ≠ [])
      let compactedMessages := ⟨.system, [.text continuation], none⟩ :: preserved
      some {
        summary := summary
        formattedSummary := writer.formatCompactSummary summary
        compactedSession :=
          { session with messages := compactedMessages }.recordCompaction now summary removed.length
        removedMessageCount := removed.length }
  else
    some ⟨[], [], session, 0⟩

end

end ClawCode
