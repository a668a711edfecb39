import AppSuite.N8n.Connections

/-!
This module contains the workflow object and the search for all nodes before (or behind) a node.
-/

namespace N8n

inductive ExecutionOrder where
  | v0
  | v1
  deriving DecidableEq, Repr

structure Workflow where
  nodes : OrderedMap String INode
  connectionsBySourceNode : IConnections
  connectionsByDestinationNode : IConnections
  executionOrder : Option ExecutionOrder
  deriving DecidableEq

namespace Workflow

def empty : Workflow := ⟨OrderedMap.empty, OrderedMap.empty, OrderedMap.empty, none⟩

def setNodes (w : Workflow) (nodes : List INode) : Workflow :=
  { w with nodes := nodes.foldl (fun nodes node => nodes.set node.name node) OrderedMap.empty }

-- Node names are taken to be none of those that `mapConnectionsByDestination` treats differently.
def setConnections (w : Workflow) (connections : IConnections) : Workflow :=
  { w with
    connectionsBySourceNode := connections
    connectionsByDestinationNode := reverseConnections connections }

def InStep (w : Workflow) : Prop :=
  w.connectionsByDestinationNode = reverseConnections w.connectionsBySourceNode

end Workflow

inductive ConnectionSelector where
  | all
  | allNonMain
  | only (type : NodeConnectionType)
  deriving DecidableEq, Repr

def ConnectionSelector.types (selector : ConnectionSelector) (byType : INodeConnections)
    : List NodeConnectionType :=
  match selector with
  | .all => byType.keys
  | .allNonMain => byType.keys.filter (· ≠ .main)
  | .only type => [type]

-- A call works on a node that is a key of the table and is not among the checked nodes, and passes
-- this node on as checked. So calls are nested at most as deep as the table has keys.
def getConnectedNodes (connections : IConnections) (nodeName : String)
    (connectionType : ConnectionSelector) (depth : Int) : List String :=
  go (connections.keys.length + 1) nodeName depth []
where
  go (fuel : Nat) (nodeName : String) (depth : Int) (checkedNodesIncoming : List String)
      : List String :=
    match fuel with
    | 0 => []
    | fuel + 1 =>
      let newDepth := if depth = -1 then depth else depth - 1
      if depth = 0 then
        []
      else
        match connections.get? nodeName with
        | none => []
        | some byType =>
          (connectionType.types byType).foldl
            (fun returnNodes type =>
              match byType.get? type with
              | none => returnNodes
              | some slots =>
                if checkedNodesIncoming.contains nodeName then
                  returnNodes
                else
                  let checkedNodes := checkedNodesIncoming ++ [nodeName]
                  (slots.flatMap (·.getD [])).foldl
                    (fun returnNodes connection =>
                      if checkedNodes.contains connection.node then
                        returnNodes
                      else
                        let addNodes := go fuel connection.node newDepth checkedNodes
                        addNodes.foldr (fun name nodes => name :: nodes.erase name)
                          (connection.node :: returnNodes))
                    returnNodes)
            []

def Workflow.getParentNodes (w : Workflow) (nodeName : String) (type : ConnectionSelector)
    (depth : Int) : List String :=
  getConnectedNodes w.connectionsByDestinationNode nodeName type depth

end N8n
