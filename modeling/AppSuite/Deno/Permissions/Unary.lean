import AppSuite.Data.BinarySearch

/-!
This module contains the unary permissions and their descriptors, which are placed by a binary search.
What the user answers to a prompt and what a broker decides are arguments.
-/

namespace Deno.Permissions

abbrev Str := List Char

class DenyDescriptor (D : Type) where
  cmpDeny : D → D → Ordering

class AllowDescriptor (A : Type) (D Q : outParam Type) where
  cmpAllow : A → A → Ordering
  cmpDeny : A → D → Ordering

class QueryDescriptor (Q : Type) (A D : outParam Type) where
  flagName : Str
  displayName : Q → Str
  fromAllow : A → Q
  asAllow : Q → Option A
  asDeny : Q → D
  assertNonPartial : Bool
  matchesAllow : Q → A → Bool
  matchesDeny : Q → D → Bool
  revokes : Q → A → Bool
  strongerThanDeny : Q → D → Bool
  overlapsDeny : Q → D → Bool

inductive UnaryPermissionDesc (A D : Type) where
  | granted (desc : A)
  | flagDenied (desc : D)
  | flagIgnored (desc : D)
  | promptDenied (desc : D)
  deriving DecidableEq, Repr

namespace UnaryPermissionDesc

variable {A D Q : Type} [DenyDescriptor D] [AllowDescriptor A D Q] [QueryDescriptor Q A D]

inductive AllowOrDenyDesc (A D : Type) where
  | allow (desc : A)
  | deny (desc : D) (order : Nat)

def allowOrDenyDesc : UnaryPermissionDesc A D → AllowOrDenyDesc A D
  | granted desc => .allow desc
  | flagDenied desc => .deny desc 0
  | promptDenied desc => .deny desc 1
  | flagIgnored desc => .deny desc 2

def kindPrecedence : UnaryPermissionDesc A D → Nat
  | flagDenied _ => 0
  | promptDenied _ => 1
  | flagIgnored _ => 2
  | granted _ => 3

def cmp (self other : UnaryPermissionDesc A D) : Ordering :=
  match self.allowOrDenyDesc, other.allowOrDenyDesc with
  | .allow selfDesc, .allow otherDesc => AllowDescriptor.cmpAllow selfDesc otherDesc
  | .allow selfDesc, .deny otherDesc _ =>
    match AllowDescriptor.cmpDeny selfDesc otherDesc with
    | .eq => compare self.kindPrecedence other.kindPrecedence
    | ord => ord
  | .deny selfDesc _, .allow otherDesc =>
    match AllowDescriptor.cmpDeny otherDesc selfDesc with
    | .eq => compare self.kindPrecedence other.kindPrecedence
    | .lt => .gt
    | .gt => .lt
  | .deny selfDesc selfOrder, .deny otherDesc otherOrder =>
    match DenyDescriptor.cmpDeny selfDesc otherDesc with
    | .eq => compare selfOrder otherOrder
    | ordering => ordering

def isGranted : UnaryPermissionDesc A D → Bool
  | granted _ => true
  | _ => false

end UnaryPermissionDesc

structure UnaryPermissionDescriptors (A D : Type) where
  inner : List (UnaryPermissionDesc A D)
  hasFlagDenied : Bool
  hasPromptDenied : Bool
  hasFlagIgnored : Bool
  deriving DecidableEq, Repr

namespace UnaryPermissionDescriptors

variable {A D Q : Type} [DenyDescriptor D] [AllowDescriptor A D Q] [QueryDescriptor Q A D]

def empty : UnaryPermissionDescriptors A D := ⟨[], false, false, false⟩

variable (ds : UnaryPermissionDescriptors A D)

def hasAnyDeniedOrIgnored : Bool :=
  ds.hasFlagDenied || ds.hasPromptDenied || ds.hasFlagIgnored

def mark : UnaryPermissionDesc A D → UnaryPermissionDescriptors A D
  | .granted _ => ds
  | .flagDenied _ => { ds with hasFlagDenied := true }
  | .flagIgnored _ => { ds with hasFlagIgnored := true }
  | .promptDenied _ => { ds with hasPromptDenied := true }

def insert (item : UnaryPermissionDesc A D) : UnaryPermissionDescriptors A D :=
  let ds := ds.mark item
  match BinarySearch.binarySearchBy (fun x => x.cmp item) ds.inner with
  | .error insertIndex => { ds with inner := ds.inner.insertIdx insertIndex item }
  | .ok _ => ds

def revokeGranted (desc : Q) : UnaryPermissionDescriptors A D :=
  { ds with
    inner := ds.inner.filter fun
      | .granted v => !QueryDescriptor.revokes desc v
      | .flagDenied _ => true
      | .flagIgnored _ => true
      | .promptDenied _ => true }

def revokeAllGranted : UnaryPermissionDescriptors A D :=
  { ds with inner := ds.inner.filter fun x => !x.isGranted }

end UnaryPermissionDescriptors

inductive PermissionState where
  | granted
  | grantedPartial
  | prompt
  | denied
  | deniedPartial
  | ignored
  deriving DecidableEq, Repr

inductive AllowPartial where
  | treatAsGranted
  | treatAsDenied
  | treatAsPartialGranted
  deriving DecidableEq, Repr

def AllowPartial.from (value : Bool) : AllowPartial := if value then .treatAsGranted else .treatAsDenied

inductive PromptResponse where
  | allow
  | deny
  | allowAll
  deriving DecidableEq, Repr

inductive BrokerResponse where
  | allow
  | deny (message : Option Str)
  deriving DecidableEq, Repr

structure PermissionDeniedError where
  access : Str
  name : Str
  customMessage : Option Str
  state : PermissionState
  deriving DecidableEq, Repr

def formatDisplayName (displayName : Str) : Str :=
  if displayName.head? = some '<' ∧ displayName.getLast? = some '>' then displayName
  else '"' :: displayName ++ ['"']

namespace PermissionState

variable (name : Str) (info : Option Str)

def fmtAccess : Str :=
  name ++ " access".toList ++ (info.map fun info => " to ".toList ++ info).getD []

def permissionDeniedError (state : PermissionState) : PermissionDeniedError :=
  ⟨fmtAccess name info, name, none, state⟩

structure Checked where
  result : Except PermissionDeniedError Unit
  prompted : Bool
  isAllowAll : Bool

def askUser (answer : PromptResponse) : Checked :=
  match answer with
  | .allow => ⟨.ok (), true, false⟩
  | .allowAll => ⟨.ok (), true, true⟩
  | .deny => ⟨.error (permissionDeniedError name info .denied), true, false⟩

def check (self : PermissionState) (name : Str) (info : Option Str) (prompt : Bool)
    (broker : Option BrokerResponse) (answer : PromptResponse) : Checked :=
  match broker with
  | some .allow => ⟨.ok (), false, false⟩
  | some (.deny message) => ⟨.error ⟨fmtAccess name info, name, message, .denied⟩, false, false⟩
  | none =>
    match self with
    | .granted => ⟨.ok (), false, false⟩
    | .prompt =>
      if prompt then askUser name info answer
      else ⟨.error (permissionDeniedError name info .prompt), false, false⟩
    | state => ⟨.error (permissionDeniedError name info state), false, false⟩

end PermissionState

structure UnaryPermission (A D : Type) where
  grantedGlobal : Bool
  flagDeniedGlobal : Bool
  flagIgnoredGlobal : Bool
  promptDeniedGlobal : Bool
  descriptors : UnaryPermissionDescriptors A D
  prompt : Bool
  deriving DecidableEq, Repr

inductive ChildUnaryPermissionArg where
  | inherit
  | granted
  | notGranted
  | grantedList (list : List Str)
  deriving DecidableEq, Repr

inductive ChildPermissionError (E : Type) where
  | escalation
  | parse (e : E)
  deriving DecidableEq, Repr

namespace UnaryPermission

open QueryDescriptor

variable {A D Q : Type} [DenyDescriptor D] [AllowDescriptor A D Q] [QueryDescriptor Q A D]

def default : UnaryPermission A D := ⟨false, false, false, false, .empty, false⟩

def isAllowAll (self : UnaryPermission A D) (broker : Option BrokerResponse) : Bool :=
  self.grantedGlobal && !self.flagDeniedGlobal && !self.promptDeniedGlobal && !self.flagIgnoredGlobal &&
    !self.descriptors.hasAnyDeniedOrIgnored && broker.isNone

def isPartialFlagDenied (self : UnaryPermission A D) (query : Option Q) : Bool :=
  match query with
  | none => self.descriptors.hasFlagDenied || self.descriptors.hasFlagIgnored
  | some query =>
    self.descriptors.inner.any fun
      | .flagIgnored v => overlapsDeny query v
      | .flagDenied v => overlapsDeny query v
      | .granted _ => false
      | .promptDenied _ => false

variable (self : UnaryPermission A D) (desc : Option Q) (allowPartial : AllowPartial)

def queryAllowedDesc : PermissionState :=
  match allowPartial with
  | .treatAsGranted => .granted
  | .treatAsDenied => if self.isPartialFlagDenied desc then .deniedPartial else .granted
  | .treatAsPartialGranted => if self.isPartialFlagDenied desc then .grantedPartial else .granted

def queryAllowedDescForExactMatch : Option PermissionState :=
  desc.bind fun desc =>
    self.descriptors.inner.findSome? fun
      | .granted v =>
        if matchesAllow desc v then some (self.queryAllowedDesc (some desc) allowPartial) else none
      | .flagDenied v => if matchesDeny desc v then some .denied else none
      | .flagIgnored v => if matchesDeny desc v then some .ignored else none
      | .promptDenied v => if strongerThanDeny desc v then some .denied else none

def queryDesc : PermissionState :=
  match self.queryAllowedDescForExactMatch desc allowPartial with
  | some state => state
  | none =>
    if self.flagIgnoredGlobal then
      .ignored
    else if allowPartial = .treatAsDenied ∧ self.isPartialFlagDenied desc then
      .deniedPartial
    else if self.flagDeniedGlobal ||
        desc.isNone && (self.promptDeniedGlobal || self.descriptors.hasPromptDenied) then
      .denied
    else if self.grantedGlobal then
      self.queryAllowedDesc desc allowPartial
    else
      .prompt

def insertGranted (query : Option Q) : UnaryPermission A D :=
  match query with
  | some query =>
    match asAllow query with
    | some desc => { self with descriptors := self.descriptors.insert (.granted desc) }
    -- The user was asked, but the descriptor is not valid, so that nothing is granted.
    | none => self
  | none => { self with grantedGlobal := true }

def insertPromptDenied (desc : Option D) : UnaryPermission A D :=
  match desc with
  | some desc => { self with descriptors := self.descriptors.insert (.promptDenied desc) }
  | none => { self with promptDeniedGlobal := true }

def checkDesc (assertNonPartial : Bool) (broker : Option BrokerResponse) (answer : PromptResponse)
    : Except PermissionDeniedError Unit × UnaryPermission A D :=
  let info := desc.map fun d => formatDisplayName (displayName d)
  let checked := (self.queryDesc desc (.from !assertNonPartial)).check (flagName Q) info self.prompt broker answer
  let self :=
    if checked.prompted then
      match checked.result with
      | .ok _ => self.insertGranted (if checked.isAllowAll then none else desc)
      | .error _ => self.insertPromptDenied (desc.map asDeny)
    else
      self
  (checked.result, self)

section

variable (desc : Q) (broker : Option BrokerResponse) (answer : PromptResponse)

def check : Except PermissionDeniedError Unit × UnaryPermission A D :=
  if self.isAllowAll broker then (.ok (), self)
  else self.checkDesc (some desc) (assertNonPartial Q) broker answer

def checkAllApi : Except PermissionDeniedError Unit × UnaryPermission A D :=
  if self.isAllowAll broker then (.ok (), self)
  else self.checkDesc (none : Option Q) false broker answer

end

def query : PermissionState :=
  self.queryDesc desc .treatAsPartialGranted

def requestDesc (answer : PromptResponse) : PermissionState × UnaryPermission A D :=
  let state := self.queryDesc desc .treatAsPartialGranted
  if state = .granted then
    (state, self.insertGranted desc)
  else if state ≠ .prompt then
    (state, self)
  else if !self.prompt then
    (.denied, self)
  else
    match answer with
    | .allow => (.granted, self.insertGranted desc)
    | .deny => (.denied, self.insertPromptDenied (desc.map asDeny))
    | .allowAll => (.granted, self.insertGranted (none : Option Q))

def revokeDesc : PermissionState × UnaryPermission A D :=
  let self :=
    match desc with
    | some desc => { self with descriptors := self.descriptors.revokeGranted desc }
    | none => { self with grantedGlobal := false, descriptors := self.descriptors.revokeAllGranted }
  (self.queryDesc desc .treatAsPartialGranted, self)

def grantList {E : Type} (parse : Str → Except E (Option A)) (broker : Option BrokerResponse)
    (answer : Q → PromptResponse) (list : List Str) (self : UnaryPermission A D)
    (descriptors : UnaryPermissionDescriptors A D)
    : Except (ChildPermissionError E) (UnaryPermissionDescriptors A D) × UnaryPermission A D :=
  match list with
  | [] => (.ok descriptors, self)
  | text :: list =>
    match parse text with
    | .error e => (.error (.parse e), self)
    | .ok none => grantList parse broker answer list self descriptors
    | .ok (some desc) =>
      let query : Q := fromAllow desc
      match self.check query broker (answer query) with
      | (.error _, self) => (.error .escalation, self)
      | (.ok _, self) => grantList parse broker answer list self (descriptors.insert (.granted desc))

def childGrants {E : Type} (self : UnaryPermission A D) (flag : ChildUnaryPermissionArg)
    (parse : Str → Except E (Option A)) (broker : Option BrokerResponse) (answer : Option Q → PromptResponse)
    : Except (ChildPermissionError E) (UnaryPermission A D) × UnaryPermission A D :=
  match flag with
  | .inherit => (.ok self, self)
  | .granted =>
    match self.checkAllApi broker (answer none) with
    | (.error _, self) => (.error .escalation, self)
    | (.ok _, self) => (.ok { (default : UnaryPermission A D) with grantedGlobal := true }, self)
  | .notGranted => (.ok default, self)
  | .grantedList list =>
    match grantList parse broker (answer ∘ some) list self .empty with
    | (.error e, self) => (.error e, self)
    | (.ok descriptors, self) => (.ok { (default : UnaryPermission A D) with descriptors }, self)

def createChildPermissions {E : Type} (self : UnaryPermission A D) (flag : ChildUnaryPermissionArg)
    (parse : Str → Except E (Option A)) (broker : Option BrokerResponse) (answer : Option Q → PromptResponse)
    : Except (ChildPermissionError E) (UnaryPermission A D) × UnaryPermission A D :=
  match self.childGrants flag parse broker answer with
  | (.error e, self) => (.error e, self)
  | (.ok perms, self) =>
    let denials := self.descriptors.inner.filter fun x => !x.isGranted
    (.ok
      { perms with
        flagDeniedGlobal := self.flagDeniedGlobal
        promptDeniedGlobal := self.promptDeniedGlobal
        prompt := self.prompt
        flagIgnoredGlobal := self.flagIgnoredGlobal
        descriptors := denials.foldl .insert perms.descriptors }, self)

end UnaryPermission

def globalFromOption {α : Type} (flag : Option (List α)) : Bool := flag.any (·.isEmpty)

section New

variable {A D Q : Type} [DenyDescriptor D] [AllowDescriptor A D Q]

def newUnaryWithIgnore (allowList : Option (List A)) (denyList ignoreList : Option (List D)) (prompt : Bool)
    : UnaryPermission A D :=
  let items := (allowList.getD []).map .granted ++ (denyList.getD []).map .flagDenied ++
    (ignoreList.getD []).map .flagIgnored
  { grantedGlobal := globalFromOption allowList
    flagDeniedGlobal := globalFromOption denyList
    flagIgnoredGlobal := globalFromOption ignoreList
    promptDeniedGlobal := false
    descriptors := items.foldl .insert .empty
    prompt }

def newUnary (allowList : Option (List A)) (denyList : Option (List D)) (prompt : Bool)
    : UnaryPermission A D :=
  newUnaryWithIgnore allowList denyList none prompt

end New

end Deno.Permissions
