import AppSuite.N8n.Workflow.Basic

/-!
This module contains `addNodeToBeExecuted`, which hands the output of a node on to one input of a
node behind it. The tables of the engine have own keys only: no node is taken to be named like a
property that every object inherits.
-/

namespace N8n

abbrev Outcome := RunExecutionData × Option JsError

def Outcome.andThen (o : Outcome) (f : RunExecutionData → Outcome) : Outcome :=
  match o with
  | (s, none) => f s
  | (s, some e) => (s, some e)

structure Delivery where
  connectionData : IConnection
  outputIndex : Nat
  parentNodeName : String
  nodeSuccessData : Option (List (Slot Batch))
  runIndex : Nat
  newRunIndex : Option Nat
  deriving DecidableEq

namespace Delivery

def node (d : Delivery) : String := d.connectionData.node

def index (d : Delivery) : Nat := d.connectionData.index

def data (d : Delivery) : Slot Batch :=
  match d.nodeSuccessData with
  | some outputs => SparseArray.get outputs d.outputIndex
  | none => .null

def source (d : Delivery) : Slot ISourceData :=
  match d.nodeSuccessData with
  | some _ => .value ⟨d.parentNodeName, d.outputIndex, d.runIndex⟩
  | none => .null

end Delivery

namespace WorkflowExecute

variable (w : Workflow)

def isLegacyExecutionOrder : Bool := w.executionOrder ≠ some .v1

def enqueue (item : IExecuteData) (s : RunExecutionData) : RunExecutionData :=
  { s with
    nodeExecutionStack :=
      if w.executionOrder = some .v1 then
        item :: s.nodeExecutionStack
      else
        s.nodeExecutionStack ++ [item] }

-- `get(runData, [node, runIndex, 'data', 'main', index])`
def incomingData (runData : IRunData) (connection : IConnection) (runIndex : Nat) : Slot Batch :=
  let slots := do
    let runs ← runData.get? connection.node
    let run ← runs[runIndex]?
    let data ← run.data
    data.get? .main
  SparseArray.get (slots.getD []) connection.index

def incomingConnectionIsEmpty (runData : IRunData) (inputConnections : List IConnection)
    (runIndex : Nat) : Except JsError Bool :=
  match inputConnections with
  | [] => .ok true
  | inputConnection :: inputConnections =>
    match incomingData runData inputConnection runIndex with
    | .absent => incomingConnectionIsEmpty runData inputConnections runIndex
    | .null => .error .typeError
    | .value batch =>
      if batch.length = 0 then
        incomingConnectionIsEmpty runData inputConnections runIndex
      else
        .ok false

def inputConnections? (nodeName : String) : Option NodeInputConnections :=
  (w.connectionsByDestinationNode.get? nodeName).bind fun byType => byType.get? .main

def numberOfInputs (nodeName : String) : Nat :=
  ((inputConnections? w nodeName).map List.length).getD 0

def firstInputIsEmpty (runData : IRunData) (nodeName : String) (runIndex : Nat) : Except JsError Bool :=
  match inputConnections? w nodeName with
  | some inputs => incomingConnectionIsEmpty runData ((SparseArray.get inputs 0).getD []) runIndex
  | none => .error .typeError

section Siblings

def checkOutputNodes (parentNodeName : String) : Except JsError (List String) :=
  match w.connectionsBySourceNode.get? parentNodeName with
  | some byType =>
    .ok (((byType.get? .main).getD []).flatMap fun slot => (slot.getD []).map IConnection.node)
  | none => .error .typeError

def executionStackNodes (s : RunExecutionData) : Except JsError (List String) :=
  s.nodeExecutionStack.mapM fun stackData =>
    match stackData.node with
    | some node => .ok node.name
    | none => .error .typeError

def chooseNodeToAdd (inputNode : String) (checkOutputNodes executionStackNodes : List String)
    (runData : IRunData) (parentNodes : List String) (nodeToAdd : Option String) : Option String :=
  match parentNodes with
  | [] => nodeToAdd
  | parentNode :: parentNodes =>
    if inputNode ≠ parentNode ∧ parentNode ∈ checkOutputNodes then
      none
    else if parentNode ∈ executionStackNodes then
      none
    else if runData.has parentNode then
      nodeToAdd
    else
      chooseNodeToAdd inputNode checkOutputNodes executionStackNodes runData parentNodes
        (some parentNode)

def deliveredLength (d : Delivery) : Except JsError Nat :=
  match d.data with
  | .value batch => .ok batch.length
  | _ => .error .typeError

variable (w : Workflow) (d : Delivery)

def siblingToAdd (checkOutputNodes executionStackNodes : List String) (runData : IRunData)
    (inputNode : String) : Except JsError (Option String) := do
  if inputNode ∈ checkOutputNodes then
    let isEmpty ← firstInputIsEmpty w runData inputNode d.runIndex
    if !isEmpty then
      return none
  if inputNode ∈ executionStackNodes then
    return none
  if runData.has inputNode then
    return none
  if !isLegacyExecutionOrder w then
    return none
  let parentNodes := (w.getParentNodes inputNode (.only .main) (-1) ++ [inputNode]).reverse
  let nodeToAdd :=
    chooseNodeToAdd inputNode checkOutputNodes executionStackNodes runData parentNodes
      (some inputNode)
  -- without a node to add the parents of `undefined` are looked up
  let parentNodesNodeToAdd := w.getParentNodes (nodeToAdd.getD "undefined") (.only .main) (-1)
  if d.parentNodeName ∈ parentNodesNodeToAdd then
    let length ← deliveredLength d
    if length = 0 then
      return none
  match nodeToAdd with
  | none => return none
  | some nodeToAdd =>
    if w.connectionsByDestinationNode.has nodeToAdd then
      let isEmpty ← firstInputIsEmpty w runData nodeToAdd d.runIndex
      return if isEmpty then some nodeToAdd else none
    else
      return some nodeToAdd

def emptyItemFor (nodeName : String) : IExecuteData :=
  ⟨w.nodes.get? nodeName, onlyMain [.value .emptyItem],
    some (onlyMain [.value ⟨d.parentNodeName, d.outputIndex, d.runIndex⟩]), none⟩

def addSibling (checkOutputNodes : List String) (s : RunExecutionData) (inputData : IConnection) : Outcome :=
  if inputData.node = d.parentNodeName then
    (s, none)
  else
    let nodeToAdd := do
      let executionStackNodes ← executionStackNodes s
      siblingToAdd w d checkOutputNodes executionStackNodes s.runData inputData.node
    match nodeToAdd with
    | .error e => (s, some e)
    | .ok none => (s, none)
    | .ok (some nodeToAdd) => (enqueue w (emptyItemFor w d nodeToAdd) s, none)

def addSiblings (s : RunExecutionData) : Outcome :=
  match checkOutputNodes w d.parentNodeName with
  | .error e => (s, some e)
  | .ok names =>
    (((inputConnections? w d.node).getD []).flatMap (·.getD [])).foldl
      (fun o inputData => Outcome.andThen o fun s => addSibling w d names s inputData) (s, none)

end Siblings

section Waiting

variable {ν α : Type} (waiting : OrderedMap String (IndexMap ν)) (nodeName : String) (index : Nat)

def waitingEntryOf : Option ν :=
  (waiting.get? nodeName).bind fun entries => entries.get? index

def setWaitingEntry (entry : ν) : OrderedMap String (IndexMap ν) :=
  waiting.set nodeName (((waiting.get? nodeName).getD .empty).set index entry)

def deleteWaitingEntry : OrderedMap String (IndexMap ν) :=
  let entries := ((waiting.get? nodeName).getD .empty).delete index
  if entries.size = 0 then
    waiting.delete nodeName
  else
    waiting.set nodeName entries

def setMainSlot
    (waiting : OrderedMap String (IndexMap (OrderedMap NodeConnectionType (List (Slot α)))))
    (nodeName : String) (waitingNodeIndex index : Nat) (slot : Slot α)
    : Except JsError (OrderedMap String (IndexMap (OrderedMap NodeConnectionType (List (Slot α))))) :=
  match waitingEntryOf waiting nodeName waitingNodeIndex with
  | some entry =>
    match entry.get? .main with
    | some slots =>
      .ok (setWaitingEntry waiting nodeName waitingNodeIndex
        (entry.set .main (SparseArray.set slots index slot)))
    | none => .error .typeError
  | none => .error .typeError

end Waiting

def prepareWaitingToExecution (nodeName : String) (numberOfConnections runIndex : Nat)
    (s : RunExecutionData) : RunExecutionData :=
  { s with
    waitingExecution :=
      setWaitingEntry s.waitingExecution nodeName runIndex
        (onlyMain (List.replicate numberOfConnections .null))
    waitingExecutionSource :=
      setWaitingEntry s.waitingExecutionSource nodeName runIndex
        (onlyMain (List.replicate numberOfConnections .null)) }

def entryWithout (index : Nat) (entries : List (Nat × ITaskDataConnections))
    : Except JsError (Option Nat) :=
  match entries with
  | [] => .ok none
  | (waitingNodeIndex, entry) :: entries =>
    match entry.get? .main with
    | some slots =>
      if (SparseArray.get slots index).truthy then
        entryWithout index entries
      else
        .ok (some waitingNodeIndex)
    | none => .error .typeError

def addData (d : Delivery) (waitingNodeIndex : Nat) (s : RunExecutionData) : Outcome :=
  match setMainSlot s.waitingExecution d.node waitingNodeIndex d.index d.data with
  | .error e => (s, some e)
  | .ok waitingExecution =>
    let s := { s with waitingExecution := waitingExecution }
    match setMainSlot s.waitingExecutionSource d.node waitingNodeIndex d.index d.source with
    | .error e => (s, some e)
    | .ok waitingExecutionSource => ({ s with waitingExecutionSource := waitingExecutionSource }, none)

def allDataFound (slots : List (Slot Batch)) : Bool := slots.all (· ≠ .null)

def pushWaiting (nodeName : String) (waitingNodeIndex : Nat) (entry : ITaskDataConnections)
    (s : RunExecutionData) : RunExecutionData :=
  let item : IExecuteData :=
    ⟨w.nodes.get? nodeName, entry,
      waitingEntryOf s.waitingExecutionSource nodeName waitingNodeIndex, none⟩
  let s := enqueue w item s
  let waitingExecution := deleteWaitingEntry s.waitingExecution nodeName waitingNodeIndex
  { s with
    waitingExecution := waitingExecution
    waitingExecutionSource :=
      if waitingExecution.has nodeName then
        s.waitingExecutionSource.set nodeName
          (((s.waitingExecutionSource.get? nodeName).getD .empty).delete waitingNodeIndex)
      else
        s.waitingExecutionSource.delete nodeName }

variable (w : Workflow) (d : Delivery) (waitingNodeIndex : Nat) (s : RunExecutionData)

def keepWaiting : Outcome :=
  let slots :=
    ((waitingEntryOf s.waitingExecution d.node waitingNodeIndex).bind fun entry => entry.get? .main).getD
      (List.replicate (d.index + 1) .null)
  let connectionDataArray := SparseArray.set slots d.index d.data
  match waitingEntryOf s.waitingExecutionSource d.node waitingNodeIndex with
  | none => (s, some .typeError)
  | some source =>
    let s := prepareWaitingToExecution d.node (numberOfInputs w d.node) waitingNodeIndex s
    ({ s with
      waitingExecution :=
        setWaitingEntry s.waitingExecution d.node waitingNodeIndex (onlyMain connectionDataArray)
      waitingExecutionSource :=
        setWaitingEntry s.waitingExecutionSource d.node waitingNodeIndex
          (onlyMain ((source.get? .main).getD [])) }, none)

def addToWaiting : Outcome :=
  let nodeWasWaiting := s.waitingExecution.has d.node
  let s :=
    if nodeWasWaiting then
      s
    else
      { s with
        waitingExecution := s.waitingExecution.set d.node .empty
        waitingExecutionSource := s.waitingExecutionSource.set d.node .empty }
  let entries := (s.waitingExecution.get? d.node).getD .empty
  match entryWithout d.index entries.entries with
  | .error e => (s, some e)
  | .ok found =>
    let waitingNodeIndex := found.getD entries.size
    let s :=
      if found.isSome then
        s
      else
        prepareWaitingToExecution d.node (numberOfInputs w d.node) waitingNodeIndex s
    Outcome.andThen (addData d waitingNodeIndex s) fun s =>
      match waitingEntryOf s.waitingExecution d.node waitingNodeIndex with
      | none => (s, some .typeError)
      | some entry =>
        if allDataFound ((entry.get? .main).getD []) then
          (pushWaiting w d.node waitingNodeIndex entry s, none)
        else
          Outcome.andThen (if nodeWasWaiting then (s, none) else addSiblings w d s)
            (keepWaiting w d waitingNodeIndex)

def addDirectly : RunExecutionData :=
  let connectionDataArray := SparseArray.set (List.replicate (d.index + 1) .null) d.index d.data
  match w.nodes.get? d.node with
  | some node =>
    enqueue w ⟨some node, onlyMain connectionDataArray,
      some (onlyMain [.value ⟨d.parentNodeName, d.outputIndex, d.runIndex⟩]), d.newRunIndex⟩ s
  | none => s

def addNodeToBeExecuted : Outcome :=
  if numberOfInputs w d.node > 1 then
    addToWaiting w d s
  else
    (addDirectly w d s, none)

end WorkflowExecute

end N8n
