import AppSuite.Data.OrderedMap

/-!
This module contains the manager of dynamic routes. Route objects are changed in place.
-/

namespace PyApi

inductive RouteType where
  | json
  | html
  | redirect
  | proxy
  | echo
  | static
  deriving DecidableEq, Repr

inductive PyError where
  | attributeError
  | valueError
  | keyError
  deriving DecidableEq, Repr

inductive PyValue where
  | none
  | bool (b : Bool)
  | int (n : Int)
  | str (s : String)
  | list (values : List PyValue)
  | dict (entries : List (String × PyValue))

def RouteType.parse : Option String → Except PyError RouteType
  | some "json" => pure .json
  | some "html" => pure .html
  | some "redirect" => pure .redirect
  | some "proxy" => pure .proxy
  | some "echo" => pure .echo
  | some "static" => pure .static
  | _ => throw .valueError

-- `attributes` holds those that are only stored: name, description, response_data and so on.
structure DynamicRoute where
  id : String
  path : String
  method : String
  routeType : RouteType
  attributes : OrderedMap String PyValue
  createdAt : String
  updatedAt : String
  isActive : Bool
  usageCount : Nat

def DynamicRoute.key (r : DynamicRoute) : String := r.method ++ ":" ++ r.path

def normalizePath (path : String) : String :=
  if "/dynamic/".toList.isPrefixOf path.toList then
    path
  else
    "/dynamic/" ++ String.ofList (path.toList.dropWhile (· = '/'))

def createDefaults : OrderedMap String PyValue where
  entries :=
    [("name", .str "Untitled Route"), ("description", .str ""), ("response_data", .dict []),
      ("response_headers", .dict []), ("status_code", .int 200), ("redirect_url", .none),
      ("proxy_target", .none), ("html_content", .none), ("delay_ms", .int 0),
      ("require_auth", .bool false), ("rate_limit", .none), ("tags", .list [])]
  nodup := by decide

def dataclassDefaults : OrderedMap String PyValue := createDefaults.set "response_data" .none

structure RouteData where
  path : Option String
  method : Option (Option String)
  routeType : Option (Option String)
  attributes : OrderedMap String PyValue

inductive Change where
  | path (value : Option String)
  | method (value : Option String)
  | routeType (value : Option String)
  | attribute (name : String) (value : PyValue)

structure DynamicRouteManager where
  heap : List DynamicRoute
  routes : OrderedMap String Nat
  routeByPath : OrderedMap String Nat

namespace DynamicRouteManager

variable (m : DynamicRouteManager)

def addRouteUnlocked (route : DynamicRoute) : DynamicRouteManager :=
  let ref := m.heap.length
  { heap := m.heap ++ [route]
    routes := m.routes.set route.id ref
    routeByPath := m.routeByPath.set route.key ref }

def defaultRoute (id path method : String) (routeType : RouteType) (attributes : OrderedMap String PyValue)
    (now : String) : DynamicRoute :=
  ⟨id, path, method, routeType, dataclassDefaults.assign attributes, now, now, true, 0⟩

def defaultRoutes (now : String) : List DynamicRoute :=
  [defaultRoute "route_default_1" "/dynamic/hello" "GET" .json
      ⟨[("name", .str "Hello World"), ("description", .str "默认的 Hello World 测试路由"),
        ("response_data", .dict [("message", .str "Hello from Dynamic Route!"), ("timestamp", .str now),
          ("service", .str "enterprise-resilience-api")])], by simp⟩ now,
    defaultRoute "route_default_2" "/dynamic/status" "GET" .json
      ⟨[("name", .str "系统状态"), ("description", .str "简单的系统状态检查路由"),
        ("response_data", .dict [("status", .str "ok"), ("version", .str "3.0.0"),
          ("dynamic_routes_enabled", .bool true)])], by simp⟩ now,
    defaultRoute "route_default_3" "/dynamic/delay" "GET" .json
      ⟨[("name", .str "延迟响应"), ("description", .str "模拟延迟的路由（2秒）"),
        ("response_data", .dict [("message", .str "This response was delayed by 2 seconds")]),
        ("delay_ms", .int 2000)], by simp⟩ now,
    defaultRoute "route_default_4" "/dynamic/echo" "POST" .echo
      ⟨[("name", .str "Echo 服务"), ("description", .str "回显请求内容的路由")], by simp⟩ now]

def init (now : String) : DynamicRouteManager :=
  (defaultRoutes now).foldl addRouteUnlocked ⟨[], .empty, .empty⟩

variable (upper : String → String) (id now : String) (data : RouteData)

def newRoute : Except PyError DynamicRoute := do
  let path ← (match data.path with
    | none => throw .attributeError
    | some path => pure (normalizePath path))
  let method ← (match data.method.getD (some "GET") with
    | none => throw .attributeError
    | some method => pure (upper method))
  let routeType ← RouteType.parse (data.routeType.getD (some "json"))
  return ⟨id, path, method, routeType,
    createDefaults.mapValues fun name value => (data.attributes.get? name).getD value, now, now, true, 0⟩

def createRoute : Except PyError DynamicRoute × DynamicRouteManager :=
  match newRoute upper id now data with
  | .ok route => (.ok route, m.addRouteUnlocked route)
  | .error e => (.error e, m)

def applyChange (r : DynamicRoute) : Change → Except PyError DynamicRoute
  | .path none => throw .attributeError
  | .path (some value) => pure { r with path := normalizePath value }
  | .method none => throw .attributeError
  | .method (some value) => pure { r with method := upper value }
  | .routeType value => do return { r with routeType := ← RouteType.parse value }
  | .attribute name value =>
    pure (if r.attributes.has name then { r with attributes := r.attributes.set name value } else r)

def applyChanges (r : DynamicRoute) : List Change → DynamicRoute × Option PyError
  | [] => (r, none)
  | change :: changes =>
    match applyChange upper r change with
    | .ok r => applyChanges r changes
    | .error e => (r, some e)

def updateRoute (routeId now : String) (changes : List Change)
    : Except PyError (Option DynamicRoute) × DynamicRouteManager :=
  match m.routes.get? routeId with
  | none => (.ok none, m)
  | some ref =>
    match m.heap[ref]? with
    | none => (.ok none, m)
    | some route =>
      match applyChanges upper route changes with
      | (changed, some e) => (.error e, { m with heap := m.heap.set ref changed })
      | (changed, none) =>
        let changed := { changed with updatedAt := now }
        let m := { m with heap := m.heap.set ref changed }
        if route.key ≠ changed.key then
          if m.routeByPath.has route.key then
            (.ok (some changed),
              { m with routeByPath := (m.routeByPath.delete route.key).set changed.key ref })
          else
            (.error .keyError, m)
        else
          (.ok (some changed), m)

def deleteRoute (routeId : String) : Except PyError Bool × DynamicRouteManager :=
  match m.routes.get? routeId with
  | none => (.ok false, m)
  | some ref =>
    match m.heap[ref]? with
    | none => (.ok false, m)
    | some route =>
      let m := { m with routes := m.routes.delete routeId }
      if m.routeByPath.has route.key then
        (.ok true, { m with routeByPath := m.routeByPath.delete route.key })
      else
        (.error .keyError, m)

def toggleRoute (routeId : String) (isActive : Bool) (now : String)
    : Option DynamicRoute × DynamicRouteManager :=
  match m.routes.get? routeId with
  | none => (none, m)
  | some ref =>
    match m.heap[ref]? with
    | none => (none, m)
    | some route =>
      let toggled := { route with isActive := isActive, updatedAt := now }
      (some toggled, { m with heap := m.heap.set ref toggled })

end DynamicRouteManager

end PyApi
