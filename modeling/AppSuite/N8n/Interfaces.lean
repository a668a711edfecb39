import AppSuite.Data.IndexMap
import AppSuite.Data.PlainObject
import AppSuite.Data.SparseArray

/-!
This module contains the data types that the workflow package shares with the execution engine.
-/

namespace N8n

-- A failed `a.ok(..)`, a property access on `undefined`, and the package's own error for users.
inductive JsError where
  | assertionError (message : String)
  | typeError
  | userError (message description : String)
  deriving DecidableEq, Repr

inductive NodeConnectionType where
  | aiAgent
  | aiChain
  | aiDocument
  | aiEmbedding
  | aiLanguageModel
  | aiMemory
  | aiOutputParser
  | aiRetriever
  | aiReranker
  | aiTextSplitter
  | aiTool
  | aiVectorStore
  | main
  deriving DecidableEq, Repr

def NodeConnectionType.toText : NodeConnectionType → String
  | .aiAgent => "ai_agent"
  | .aiChain => "ai_chain"
  | .aiDocument => "ai_document"
  | .aiEmbedding => "ai_embedding"
  | .aiLanguageModel => "ai_languageModel"
  | .aiMemory => "ai_memory"
  | .aiOutputParser => "ai_outputParser"
  | .aiRetriever => "ai_retriever"
  | .aiReranker => "ai_reranker"
  | .aiTextSplitter => "ai_textSplitter"
  | .aiTool => "ai_tool"
  | .aiVectorStore => "ai_vectorStore"
  | .main => "main"

-- The value of a node parameter. No function reads a number, so it is kept as it is written.
inductive NodeParameterValue where
  | undefined
  | null
  | boolean (b : Bool)
  | number (literal : String)
  | string (s : String)
  | array (items : List NodeParameterValue)
  | object (fields : List (String × NodeParameterValue))
  deriving Repr

namespace NodeParameterValue

mutual

def decEq (a b : NodeParameterValue) : Decidable (a = b) :=
  match a, b with
  | undefined, undefined => isTrue rfl
  | null, null => isTrue rfl
  | boolean x, boolean y => decidable_of_iff (x = y) (by simp)
  | number x, number y => decidable_of_iff (x = y) (by simp)
  | string x, string y => decidable_of_iff (x = y) (by simp)
  | array xs, array ys =>
    have := decEqItems xs ys
    decidable_of_iff (xs = ys) (by simp)
  | object xs, object ys =>
    have := decEqFields xs ys
    decidable_of_iff (xs = ys) (by simp)
  | undefined, null | undefined, boolean _ | undefined, number _ | undefined, string _
  | undefined, array _ | undefined, object _
  | null, undefined | null, boolean _ | null, number _ | null, string _ | null, array _
  | null, object _
  | boolean _, undefined | boolean _, null | boolean _, number _ | boolean _, string _
  | boolean _, array _ | boolean _, object _
  | number _, undefined | number _, null | number _, boolean _ | number _, string _
  | number _, array _ | number _, object _
  | string _, undefined | string _, null | string _, boolean _ | string _, number _
  | string _, array _ | string _, object _
  | array _, undefined | array _, null | array _, boolean _ | array _, number _
  | array _, string _ | array _, object _
  | object _, undefined | object _, null | object _, boolean _ | object _, number _
  | object _, string _ | object _, array _ => isFalse (by intro h; cases h)

def decEqItems (xs ys : List NodeParameterValue) : Decidable (xs = ys) :=
  match xs, ys with
  | [], [] => isTrue rfl
  | x :: xs, y :: ys =>
    have := decEq x y
    have := decEqItems xs ys
    decidable_of_iff (x = y ∧ xs = ys) (by simp)
  | [], _ :: _ | _ :: _, [] => isFalse (by intro h; cases h)

def decEqFields (xs ys : List (String × NodeParameterValue)) : Decidable (xs = ys) :=
  match xs, ys with
  | [], [] => isTrue rfl
  | (k, x) :: xs, (l, y) :: ys =>
    have := decEq x y
    have := decEqFields xs ys
    decidable_of_iff ((k = l ∧ x = y) ∧ xs = ys) (by simp)
  | [], _ :: _ | _ :: _, [] => isFalse (by intro h; cases h)

end

instance : DecidableEq NodeParameterValue := decEq

end NodeParameterValue

-- The engine compares node objects with `===`, that is by reference: `ref` is that reference, so
-- two objects with the same fields are still told apart.
structure INode where
  ref : Nat
  name : String
  type : String
  disabled : Bool
  parameters : NodeParameterValue
  deriving DecidableEq, Repr

@[ext]
structure IConnection where
  node : String
  type : NodeConnectionType
  index : Nat
  deriving DecidableEq, Repr

-- All connections of one type that leave (or enter) one node, by output (or input) index. The array
-- may have gaps: a missing element and `null` are read the same way by every consumer (`?? []`).
abbrev NodeInputConnections := List (Option (List IConnection))

abbrev INodeConnections := OrderedMap NodeConnectionType NodeInputConnections

abbrev IConnections := OrderedMap String INodeConnections

-- The items a node hands on, as an array object. The engine only asks for their number; `emptyItem`
-- is the `[{ json: {} }]` that it makes itself, `foreign` another object in the place of the items.
inductive Batch where
  | output (ref : Nat) (length : Nat)
  | emptyItem
  | foreign (length : Nat)
  deriving DecidableEq, Repr

def Batch.length : Batch → Nat
  | .output _ length => length
  | .emptyItem => 1
  | .foreign length => length

-- An element of a JavaScript array: `undefined` (or never written), `null`, or a value.
inductive Slot (α : Type) where
  | absent
  | null
  | value (a : α)
  deriving DecidableEq, Repr

instance {α : Type} : Inhabited (Slot α) := ⟨.absent⟩

def Slot.truthy {α : Type} : Slot α → Bool
  | .value _ => true
  | _ => false

abbrev ITaskDataConnections := OrderedMap NodeConnectionType (List (Slot Batch))

structure ISourceData where
  previousNode : String
  previousNodeOutput : Nat
  previousNodeRun : Nat
  deriving DecidableEq, Repr

abbrev ITaskDataConnectionsSource := OrderedMap NodeConnectionType (List (Slot ISourceData))

structure IExecuteData where
  node : Option INode
  data : ITaskDataConnections
  source : Option ITaskDataConnectionsSource
  runIndex : Option Nat
  deriving DecidableEq

structure ITaskData where
  data : Option ITaskDataConnections
  error : Option String
  deriving DecidableEq

abbrev IRunData := OrderedMap String (List ITaskData)

abbrev IWaitingForExecution := OrderedMap String (IndexMap ITaskDataConnections)

abbrev IWaitingForExecutionSource := OrderedMap String (IndexMap ITaskDataConnectionsSource)

structure RunExecutionData where
  nodeExecutionStack : List IExecuteData
  waitingExecution : IWaitingForExecution
  waitingExecutionSource : IWaitingForExecutionSource
  runData : IRunData
  deriving DecidableEq

def onlyMain {α : Type} (slots : List (Slot α)) : OrderedMap NodeConnectionType (List (Slot α)) :=
  OrderedMap.empty.set .main slots

@[simp]
theorem get?_onlyMain {α : Type} (slots : List (Slot α)) : (onlyMain slots).get? .main = some slots := by
  simp [onlyMain]

end N8n
