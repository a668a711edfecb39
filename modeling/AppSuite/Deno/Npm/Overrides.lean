import AppSuite.Data.OrderedMap

/-!
This module contains the `overrides` of a `package.json`, their rules and the two lookups. Versions
and requirements are those of any semver library.
-/

namespace Deno.Npm

abbrev Str := List Char

-- A value of `serde_json`, an object with its members in the order of iteration.
inductive Json where
  | null
  | bool (b : Bool)
  | number (text : Str)
  | string (s : Str)
  | array (items : List Json)
  | object (map : List (Str × Json))

inductive NpmOverridesError (ε : Type) where
  | keyParse (key : Str) (source : ε)
  | valueParse (key value : Str) (source : ε)
  | unresolvedDollarReference (reference : Str)
  | invalidValueType (key : Str)
  | invalidDotValueType (key : Str)
  | invalidTopLevelType
  | jsrRequiresScope (key value : Str)
  | unresolvedCatalog (key catalog : Str)
  deriving DecidableEq, Repr

inductive NpmOverrideValue (ρ : Type) where
  | version (req : ρ)
  | alias (package : Str) (versionReq : ρ)
  | inherited
  | removed
  deriving DecidableEq, Repr

structure NpmOverrideRule (ρ : Type) where
  name : Str
  selector : Option ρ
  value : NpmOverrideValue ρ
  children : List (NpmOverrideRule ρ)

abbrev NpmOverrides (ρ : Type) := List (NpmOverrideRule ρ)

abbrev Catalogs := OrderedMap Str (OrderedMap Str Str)

section Parse

def splitOnce (c : Char) (s : Str) : Option (Str × Str) :=
  (s.findIdx? (· = c)).map fun i => (s.take i, s.drop (i + 1))

def rsplitOnce (c : Char) (s : Str) : Option (Str × Str) :=
  (splitOnce c s.reverse).map fun (after, before) => (before.reverse, after.reverse)

def stripPrefix? (start s : Str) : Option Str :=
  if start <+: s then some (s.drop start.length) else none

def splitKey (key : Str) : Str × Option Str :=
  match key with
  | '@' :: rest =>
    match splitOnce '@' rest with
    | some (name, versionText) => ('@' :: name, some versionText)
    | none => (key, none)
  | _ =>
    match splitOnce '@' key with
    | some (name, versionText) => (name, some versionText)
    | none => (key, none)

def parseJsrDepValue (fallbackName jsrValue : Str) : Option (Str × Str) :=
  let (jsrName, versionStr) :=
    if jsrValue.head? = some '@' then
      match rsplitOnce '@' jsrValue with
      | some (name, version) => if name = [] then (jsrValue, ['*']) else (name, version)
      | none => (jsrValue, ['*'])
    else
      match splitOnce '@' jsrValue with
      | some (name, version) => (name, version)
      | none => (fallbackName, jsrValue)
  match (stripPrefix? ['@'] jsrName).bind (splitOnce '/') with
  | none => none
  | some (scope, name) => some ("@jsr/".toList ++ scope ++ "__".toList ++ name, versionStr)

variable {ρ ε : Type} (parseFromNpm : Str → Except ε ρ)

def parseOverrideKey (key : Str) : Except (NpmOverridesError ε) (Str × Option ρ) :=
  match splitKey key with
  | (name, none) => .ok (name, none)
  | (name, some versionText) =>
    match parseFromNpm versionText with
    | .ok versionReq => .ok (name, some versionReq)
    | .error source => .error (.keyParse key source)

def parseValueReq (key value versionStr : Str) : Except (NpmOverridesError ε) ρ :=
  (parseFromNpm versionStr).mapError (.valueParse key value)

def parseNpmAliasOverride (key npmValue : Str) : Except (NpmOverridesError ε) (NpmOverrideValue ρ) := do
  let (name, versionStr) :=
    match rsplitOnce '@' npmValue with
    | some (name, version) => if name = [] then (npmValue, ['*']) else (name, version)
    | none => (npmValue, ['*'])
  let versionReq ← parseValueReq parseFromNpm key ("npm:".toList ++ npmValue) versionStr
  return .alias name versionReq

def parseJsrOverride (key jsrValue : Str) : Except (NpmOverridesError ε) (NpmOverrideValue ρ) := do
  match parseJsrDepValue (splitKey key).1 jsrValue with
  | none => throw (.jsrRequiresScope key ("jsr:".toList ++ jsrValue))
  | some (npmName, versionStr) =>
    let versionReq ← parseValueReq parseFromNpm key ("jsr:".toList ++ jsrValue) versionStr
    return .alias npmName versionReq

def resolveOverrideVersionString (rootDeps : OrderedMap Str Str) (key value : Str)
    : Except (NpmOverridesError ε) ρ :=
  match stripPrefix? ['$'] value with
  | some refName =>
    match rootDeps.get? refName with
    | none => .error (.unresolvedDollarReference refName)
    | some depVersion => parseValueReq parseFromNpm key depVersion depVersion
  | none => parseValueReq parseFromNpm key value value

def resolveCatalogOverride (catalogs : Catalogs) (key catalogName : Str)
    : Except (NpmOverridesError ε) (NpmOverrideValue ρ) := do
  let catalogName := if catalogName = [] then "default".toList else catalogName
  let (pkgName, _) ← parseOverrideKey parseFromNpm key
  match (catalogs.get? catalogName).bind (·.get? pkgName) with
  | none => throw (.unresolvedCatalog key catalogName)
  | some versionStr =>
    let value := "catalog:".toList ++ catalogName ++ " → ".toList ++ versionStr
    let versionReq ← parseValueReq parseFromNpm key value versionStr
    return .version versionReq

def parseOverrideString (rootDeps : OrderedMap Str Str) (catalogs : Catalogs) (key s : Str)
    : Except (NpmOverridesError ε) (NpmOverrideValue ρ) :=
  if s = [] then
    .ok .removed
  else if let some rest := stripPrefix? "npm:".toList s then
    parseNpmAliasOverride parseFromNpm key rest
  else if let some rest := stripPrefix? "jsr:".toList s then
    parseJsrOverride parseFromNpm key rest
  else if let some catalogName := stripPrefix? "catalog:".toList s then
    resolveCatalogOverride parseFromNpm catalogs key catalogName
  else do
    let versionReq ← resolveOverrideVersionString parseFromNpm rootDeps key s
    return .version versionReq

mutual

def parseOverrideValue (rootDeps : OrderedMap Str Str) (catalogs : Catalogs) (key : Str) (value : Json)
    : Except (NpmOverridesError ε) (NpmOverrideValue ρ × List (NpmOverrideRule ρ)) :=
  match value with
  | .string s => do
    let value ← parseOverrideString parseFromNpm rootDeps catalogs key s
    return (value, [])
  | .object map => parseOverrideObject rootDeps catalogs key .inherited [] map
  | _ => .error (.invalidValueType key)

def parseOverrideObject (rootDeps : OrderedMap Str Str) (catalogs : Catalogs) (key : Str)
    (selfValue : NpmOverrideValue ρ) (children : List (NpmOverrideRule ρ)) (map : List (Str × Json))
    : Except (NpmOverridesError ε) (NpmOverrideValue ρ × List (NpmOverrideRule ρ)) :=
  match map with
  | [] => .ok (selfValue, children)
  | (childKey, childValue) :: map =>
    if childKey = ['.'] then
      match childValue with
      | .string s => do
        let selfValue ← parseOverrideString parseFromNpm rootDeps catalogs key s
        parseOverrideObject rootDeps catalogs key selfValue children map
      | _ => .error (.invalidDotValueType key)
    else do
      let (childName, childSelector) ← parseOverrideKey parseFromNpm childKey
      let (childVal, grandchildren) ← parseOverrideValue rootDeps catalogs childKey childValue
      parseOverrideObject rootDeps catalogs key selfValue
        (children ++ [⟨childName, childSelector, childVal, grandchildren⟩]) map

end

variable (rootDeps : OrderedMap Str Str) (catalogs : Catalogs)

def parseOverrideRules (map : List (Str × Json)) : Except (NpmOverridesError ε) (NpmOverrides ρ) :=
  map.mapM fun (key, value) => do
    let (name, selector) ← parseOverrideKey parseFromNpm key
    let (overrideValue, children) ← parseOverrideValue parseFromNpm rootDeps catalogs key value
    return ⟨name, selector, overrideValue, children⟩

def fromValue (value : Json) : Except (NpmOverridesError ε) (NpmOverrides ρ) :=
  match value with
  | .object map => parseOverrideRules parseFromNpm rootDeps catalogs map
  | .null => .ok []
  | _ => .error .invalidTopLevelType

end Parse

section Lookup

variable {ρ ν : Type} (satisfies : ρ → ν → Bool)

structure Descent (ρ : Type) where
  scopedChildren : List (NpmOverrideRule ρ) := []
  passthroughRules : List (NpmOverrideRule ρ) := []
  changed : Bool := false

def NpmOverrideRule.selectorMatches (rule : NpmOverrideRule ρ) (version : ν) : Bool :=
  match rule.selector with
  | some selector => satisfies selector version
  | none => true

def descend (childName : Str) (childVersion : ν) (descent : Descent ρ) (rule : NpmOverrideRule ρ)
    : Descent ρ :=
  if rule.name = childName then
    let selectorMatches := rule.selectorMatches satisfies childVersion
    { scopedChildren :=
        if selectorMatches ∧ rule.children ≠ [] then
          descent.scopedChildren ++ rule.children
        else
          descent.scopedChildren
      passthroughRules :=
        if rule.children = [] ∨ (rule.selector.isSome ∧ ¬selectorMatches) then
          descent.passthroughRules ++ [rule]
        else
          descent.passthroughRules
      changed := true }
  else
    { descent with passthroughRules := descent.passthroughRules ++ [rule] }

def forChild (rules : NpmOverrides ρ) (childName : Str) (childVersion : ν) : NpmOverrides ρ :=
  if rules = [] then
    rules
  else
    let descent := rules.foldl (descend satisfies childName childVersion) {}
    if descent.changed then descent.scopedChildren ++ descent.passthroughRules else rules

def getOverrideFor (rules : NpmOverrides ρ) (depName : Str) (resolvedVersion : Option ν) : Option ρ :=
  match rules with
  | [] => none
  | rule :: rules =>
    if rule.name ≠ depName then
      getOverrideFor rules depName resolvedVersion
    else
      match rule.value with
      | .version req | .alias _ req =>
        match rule.selector with
        | none => some req
        | some selector =>
          if resolvedVersion.any (satisfies selector) then
            some req
          else
            getOverrideFor rules depName resolvedVersion
      | .removed =>
        match rule.selector with
        | none => none
        | some selector =>
          if resolvedVersion.any (satisfies selector) then
            none
          else
            getOverrideFor rules depName resolvedVersion
      | .inherited => getOverrideFor rules depName resolvedVersion

def getAliasFor (rules : NpmOverrides ρ) (depName : Str) : Option Str :=
  match rules with
  | [] => none
  | rule :: rules =>
    if rule.name ≠ depName ∨ rule.selector.isSome then
      getAliasFor rules depName
    else
      match rule.value with
      | .alias package _ => some package
      | _ => none

def activeRules (overrides : NpmOverrides ρ) (chain : List (Str × ν)) : NpmOverrides ρ :=
  chain.foldl (fun rules nv => forChild satisfies rules nv.1 nv.2) overrides

structure NpmDependencyEntry (ρ : Type) where
  name : Str
  versionReq : ρ

variable (rules : NpmOverrides ρ) (entry : NpmDependencyEntry ρ)

def effectiveReq (naturalVersion : Option ν) : ρ :=
  match getOverrideFor satisfies rules entry.name none with
  | some req => req
  | none =>
    match naturalVersion.bind fun version => getOverrideFor satisfies rules entry.name (some version) with
    | some req => req
    | none => entry.versionReq

def fetchedName : Str :=
  (getAliasFor rules entry.name).getD entry.name

end Lookup

end Deno.Npm
