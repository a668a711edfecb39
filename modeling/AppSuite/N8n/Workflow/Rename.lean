import AppSuite.N8n.Workflow.Basic

/-!
This module contains `Workflow.renameNode` and when it leaves the workflow consistent.
-/

namespace N8n

open List OrderedMap

namespace NodeParameterValue

variable (value : NodeParameterValue) (name : String)

def field? : Option NodeParameterValue :=
  match value with
  | .object fields => fields.lookup name
  | _ => none

def setField (v : NodeParameterValue) : NodeParameterValue :=
  match value with
  | .object fields => .object (OrderedMap.setEntry name v fields)
  | value => value

end NodeParameterValue

-- `toLowerCase` as far as a comparison with ASCII words can see it: besides the ASCII capitals only
-- the Kelvin sign is mapped to an ASCII letter.
def toLowerCase (s : String) : List Char :=
  s.toList.map fun c => if c = Char.ofNat 0x212A then 'k' else c.toLower

namespace Workflow

def restrictedKeys : List String := [
  "hasOwnProperty", "isPrototypeOf", "propertyIsEnumerable", "toLocaleString", "toString",
  "valueOf", "constructor", "prototype", "__proto__", "__defineGetter__", "__defineSetter__",
  "__lookupGetter__", "__lookupSetter__"]

def isRestricted (name : String) : Bool :=
  (restrictedKeys.map toLowerCase).contains (toLowerCase name)

def nodesWithRenamableContent : List String := [
  "n8n-nodes-base.function", "n8n-nodes-base.functionItem", "n8n-nodes-base.code",
  "n8n-nodes-base.aiTransform"]

def nodesWithRenamableFormHtmlContent : List String := ["n8n-nodes-base.form"]

def nodesWithRenameableToplevelHtmlContent : List String := [
  "n8n-nodes-base.mailgun", "n8n-nodes-base.html"]

section

variable (applyAccessPatterns : String → String → String → String)

mutual

def renameNodeInParameterValue (currentName newName : String) (hasRenamableContent : Bool)
    : NodeParameterValue → NodeParameterValue
  | .string s =>
    if s.toList.head? = some '=' ∨ hasRenamableContent then
      .string (applyAccessPatterns s currentName newName)
    else
      .string s
  -- the option is not passed on to the items of an array
  | .array items => .array (renameItems currentName newName items)
  | .object fields => .object (renameFields currentName newName hasRenamableContent fields)
  -- `typeof null` is `'object'` and its keys are those of `null || {}`
  | .null => .object []
  | .undefined => .undefined
  | .boolean b => .boolean b
  | .number literal => .number literal

def renameItems (currentName newName : String) : List NodeParameterValue → List NodeParameterValue
  | [] => []
  | item :: items =>
    renameNodeInParameterValue currentName newName false item
      :: renameItems currentName newName items

def renameFields (currentName newName : String) (hasRenamableContent : Bool)
    : List (String × NodeParameterValue) → List (String × NodeParameterValue)
  | [] => []
  | (name, value) :: fields =>
    (name, renameNodeInParameterValue currentName newName hasRenamableContent value)
      :: renameFields currentName newName hasRenamableContent fields

end

def renameFormFieldValue (renameField : NodeParameterValue → NodeParameterValue)
    (formFieldValue : NodeParameterValue) : NodeParameterValue :=
  match formFieldValue.field? "fieldType", formFieldValue.field? "html" with
  | some (.string "html"), some html => formFieldValue.setField "html" (renameField html)
  | _, _ => formFieldValue

def renameFormFields (parameters : NodeParameterValue)
    (renameField : NodeParameterValue → NodeParameterValue) : NodeParameterValue :=
  match parameters.field? "formFields" with
  | none => parameters
  | some formFields =>
    match formFields.field? "values" with
    | some (.array values) =>
      parameters.setField "formFields"
        (formFields.setField "values" (.array (values.map (renameFormFieldValue renameField))))
    | _ => parameters

def renameContent (currentName newName name : String) (parameters : NodeParameterValue)
    : NodeParameterValue :=
  parameters.setField name
    (renameNodeInParameterValue applyAccessPatterns currentName newName true
      ((parameters.field? name).getD .undefined))

variable (currentName newName : String)

def renameInNode (node : INode) : INode :=
  let parameters :=
    renameNodeInParameterValue applyAccessPatterns currentName newName false node.parameters
  let parameters :=
    if node.type ∈ nodesWithRenamableContent then
      renameContent applyAccessPatterns currentName newName "jsCode" parameters
    else
      parameters
  let parameters :=
    if node.type ∈ nodesWithRenameableToplevelHtmlContent then
      renameContent applyAccessPatterns currentName newName "html" parameters
    else
      parameters
  let parameters :=
    if node.type ∈ nodesWithRenamableFormHtmlContent then
      renameFormFields parameters
        (renameNodeInParameterValue applyAccessPatterns currentName newName true)
    else
      parameters
  { node with parameters := parameters }

def moveNode (nodes : OrderedMap String INode) : OrderedMap String INode :=
  match nodes.get? currentName with
  | some node => (nodes.set newName { node with name := newName }).delete currentName
  | none => nodes

def moveSource (connections : IConnections) : IConnections :=
  match connections.get? currentName with
  | some byType => (connections.set newName byType).delete currentName
  | none => connections

def renameTarget (connectionData : IConnection) : IConnection :=
  if connectionData.node = currentName then
    { connectionData with node := newName }
  else
    connectionData

def renameTargets (connections : IConnections) : IConnections :=
  connections.mapValues fun _ byType =>
    byType.mapValues fun _ slots =>
      slots.map (Option.map (List.map (renameTarget currentName newName)))

def renameNode (w : Workflow) (currentName newName : String) : Except JsError Workflow :=
  if isRestricted newName then
    .error (.userError ("Node name \"" ++ newName ++ "\" is a restricted name.")
      ("Node names cannot be any of the following: " ++ ", ".intercalate restrictedKeys))
  else
    .ok { w with
      nodes := (moveNode currentName newName w.nodes).mapValues fun _ node =>
        renameInNode applyAccessPatterns currentName newName node
      connectionsBySourceNode :=
        renameTargets currentName newName (moveSource currentName newName w.connectionsBySourceNode) }

end

variable (connections : IConnections) (name : String)

def Mentions : Prop :=
  name ∈ connections.keys ∨ ∃ e ∈ edgeList connections, e.target.node = name

def Connected : Prop :=
  ∃ e ∈ edgeList connections, e.node = name ∨ e.target.node = name

structure Unused (w : Workflow) (name : String) : Prop where
  node : name ∉ w.nodes.keys
  bySource : ¬Mentions w.connectionsBySourceNode name

instance (connections : IConnections) (name : String) : Decidable (Mentions connections name) :=
  inferInstanceAs (Decidable (_ ∨ _))

instance (connections : IConnections) (name : String) : Decidable (Connected connections name) :=
  inferInstanceAs (Decidable (∃ e ∈ _, _))

structure Renamed (w w' : Workflow) (a b : String) : Prop where
  count : w'.nodes.keys.length = w.nodes.keys.length
  found : ∃ node, w.nodes.get? a = some node
    ∧ ∃ node', w'.nodes.get? b = some node' ∧ node'.ref = node.ref ∧ node'.name = b
  unmentioned : b ≠ a →
    ¬Mentions w'.connectionsBySourceNode a ∧ ¬Mentions w'.connectionsByDestinationNode a
  inStep : w'.InStep

namespace renameNode

variable {applyAccessPatterns : String → String → String → String}

variable {w : Workflow} {a b : String} {nodes : OrderedMap String INode} {connections : IConnections}

theorem eq_ok (hb : isRestricted b = false)
    : w.renameNode applyAccessPatterns a b = .ok { w with
        nodes := (moveNode a b w.nodes).mapValues fun _ node =>
          renameInNode applyAccessPatterns a b node
        connectionsBySourceNode := renameTargets a b (moveSource a b w.connectionsBySourceNode) } := by
  unfold renameNode
  rw [hb]
  rfl

theorem keys_moveNode_self (ha : a ∈ nodes.keys)
    : (moveNode a a nodes).keys.length + 1 = nodes.keys.length := by
  unfold moveNode
  split
  . rw [keys_delete, keys_set_of_mem _ ha]
    exact length_erase_add_one ha
  . next hnone => exact absurd ha (get?_eq_none_iff.mp hnone)

theorem keys_moveNode (ha : a ∈ nodes.keys) (hb : b ∉ nodes.keys)
    : (moveNode a b nodes).keys.length = nodes.keys.length := by
  unfold moveNode
  split
  . rw [keys_delete, keys_set_of_not_mem _ hb]
    rw [length_erase_of_mem (mem_append_left [b] ha)]
    simp
  . rfl

theorem get?_moveNode (hnode : nodes.get? a = some node) (hne : b ≠ a)
    : (moveNode a b nodes).get? b = some { node with name := b } := by
  unfold moveNode
  rw [hnode]
  rw [get?_delete, if_neg (Ne.symm hne), get?_set_self]

variable {byType : INodeConnections} {w' : Workflow}

theorem edgesOf_rename (h : edgesOf (a, byType) = []) : edgesOf (b, byType) = [] := by
  rw [eq_nil_iff_forall_not_mem] at *
  intro e he
  rw [mem_edgesOf] at he
  apply h { e with node := a }
  rw [mem_edgesOf]
  exact ⟨rfl, he.2⟩

theorem edgesOf_eq_nil (h : ¬Connected connections a) (hentry : (a, byType) ∈ connections.entries)
    : edgesOf (a, byType) = [] := by
  rw [eq_nil_iff_forall_not_mem]
  intro e he
  apply h
  refine ⟨e, ?_, Or.inl (mem_edgesOf.mp he).1⟩
  unfold edgeList
  rw [mem_flatMap]
  exact ⟨(a, byType), PlainObject.mem_ownEntries.mpr hentry, he⟩

theorem not_mem_keys_moveSource : a ∉ (moveSource a b connections).keys := by
  unfold moveSource
  split
  . rw [← get?_eq_none_iff, get?_delete, if_pos rfl]
  . next hnone => exact get?_eq_none_iff.mp hnone

theorem edgeList_moveSource (ha : ¬Connected connections a) (hb : b ∉ connections.keys)
    : edgeList (moveSource a b connections) = edgeList connections := by
  unfold moveSource
  split
  . next byType hget =>
    have hentry := get?_eq_some_iff.mp hget
    have hnil := edgesOf_eq_nil ha hentry
    have hset : (connections.set b byType).entries = connections.entries ++ [(b, byType)] :=
      setEntry_of_not_mem byType hb
    apply PlainObject.flatMap_ownEntries_congr
    unfold OrderedMap.delete OrderedMap.filter
    dsimp only
    rw [hset, filter_filter, filter_append]
    have hlast : edgesOf (b, byType) = [] := edgesOf_rename hnil
    rw [filter_cons_of_neg (by simp [hlast]), filter_nil, append_nil]
    apply filter_congr
    intro entry hmem
    cases decEq entry.1 a with
    | isFalse hne => simp [hne]
    | isTrue heq =>
      subst heq
      have := get?_eq_some_iff.mpr hmem
      rw [hget] at this
      injection this with this
      subst this
      simp [hnil]
  . rfl

theorem renameTargets_eq_self (b : String) (h : ¬∃ e ∈ edgeList connections, e.target.node = a)
    : renameTargets a b connections = connections := by
  apply mapValues_eq_self
  intro entry hentry
  apply mapValues_eq_self
  intro byType hbyType
  apply (map_congr_left (g := id) ?_).trans (map_id byType.2)
  intro slot hslot
  cases slot with
  | none => rfl
  | some targets =>
    rw [Option.map_some, id_eq, Option.some.injEq]
    apply (map_congr_left (g := id) ?_).trans (map_id targets)
    intro target htarget
    rw [renameTarget, if_neg, id_eq]
    intro hnode
    apply h
    obtain ⟨index, hindex⟩ := mem_iff_getElem?.mp hslot
    refine ⟨⟨entry.1, byType.1, index, target⟩, ?_, hnode⟩
    rw [mem_edgeList]
    unfold connectionsAt
    rw [get?_eq_some_iff.mpr hentry, Option.bind_some]
    rw [get?_eq_some_iff.mpr hbyType, Option.bind_some]
    unfold SparseArray.get
    rw [hindex]
    exact htarget

theorem mentions_reverseConnections {name : String}
    : Mentions (reverseConnections connections) name ↔ Connected connections name := by
  unfold Mentions Connected
  rw [mem_keys_reverseConnections]
  constructor
  . intro h
    cases h with
    | inl hkey =>
      have ⟨e, he, hnode⟩ := hkey
      exact ⟨e, he, Or.inr hnode⟩
    | inr hedge =>
      have ⟨e, he, hnode⟩ := hedge
      exact ⟨e.reverse, mem_edgeList_reverseConnections.mp he, Or.inl hnode⟩
  . intro ⟨e, he, hnode⟩
    cases hnode with
    | inl hnode =>
      right
      exact ⟨e.reverse, mem_edgeList_reverseConnections.mpr he, hnode⟩
    | inr hnode =>
      left
      exact ⟨e, he, hnode⟩

theorem ne_of_renamed (ha : a ∈ w.nodes.keys) (hb : isRestricted b = false)
    (hw' : w.renameNode applyAccessPatterns a b = .ok w') (hrenamed : Renamed w w' a b)
    : b ≠ a := by
  rw [eq_ok hb] at hw'
  injection hw' with hw'
  subst hw'
  intro heq
  subst heq
  have hcount := hrenamed.count
  rw [keys_mapValues] at hcount
  have := keys_moveNode_self ha
  omega

theorem not_connected_of_renamed (hstep : w.InStep) (hb : isRestricted b = false) (hne : b ≠ a)
    (hw' : w.renameNode applyAccessPatterns a b = .ok w') (hrenamed : Renamed w w' a b)
    : ¬Connected w.connectionsBySourceNode a := by
  rw [eq_ok hb] at hw'
  injection hw' with hw'
  subst hw'
  have hdest := (hrenamed.unmentioned hne).2
  rw [hstep, mentions_reverseConnections] at hdest
  assumption

theorem found_moveNode (ha : a ∈ nodes.keys) (hne : b ≠ a)
    : ∃ node, nodes.get? a = some node
      ∧ ∃ node', ((moveNode a b nodes).mapValues fun _ node =>
            renameInNode applyAccessPatterns a b node).get? b = some node'
          ∧ node'.ref = node.ref ∧ node'.name = b := by
  cases hnode : nodes.get? a with
  | none => exact absurd ha (get?_eq_none_iff.mp hnode)
  | some node =>
    refine ⟨node, rfl, renameInNode applyAccessPatterns a b { node with name := b }, ?_, rfl, rfl⟩
    rw [get?_mapValues, get?_moveNode hnode hne]
    rfl

theorem not_mentions_moveSource (ha : ¬Connected connections a) (hb : b ∉ connections.keys)
    : ¬Mentions (moveSource a b connections) a := by
  intro hmentions
  cases hmentions with
  | inl hkey => exact not_mem_keys_moveSource hkey
  | inr hedge =>
    rw [edgeList_moveSource ha hb] at hedge
    have ⟨e, he, hnode⟩ := hedge
    exact ha ⟨e, he, Or.inr hnode⟩

theorem renameTargets_moveSource (ha : ¬Connected connections a) (hb : b ∉ connections.keys)
    : renameTargets a b (moveSource a b connections) = moveSource a b connections := by
  apply renameTargets_eq_self
  intro hedge
  exact not_mentions_moveSource ha hb (Or.inr hedge)

end renameNode

def startNode : INode := ⟨0, "Start", "n8n-nodes-base.manualTrigger", false, .object []⟩
def codeNode : INode :=
  ⟨1, "Code", "n8n-nodes-base.code", false, .object [("jsCode", .string "return $('Start')")]⟩
def noteNode : INode := ⟨2, "Note", "n8n-nodes-base.stickyNote", false, .object []⟩

def startToCode : IConnections :=
  OrderedMap.empty.set "Start" (OrderedMap.empty.set .main [some [⟨"Code", .main, 0⟩]])

def noted : Workflow := (Workflow.empty.setNodes [startNode, codeNode, noteNode]).setConnections startToCode

end Workflow

end N8n
