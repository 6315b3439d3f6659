import RustPlc.L1Ir.Names

/-!
# Watch lists and watch trees

What the monitor sends to a client for its subscriptions
(crates/st-monitor/src/server.rs): the variables under a subscribed name, and one
tree for each subscription.

A map from names to variables is the list of its entries; `HashMap::values` gives
them in an order that is not specified, here in that of the list. Upper case is that
of the ASCII letters.
-/
namespace RustPlc.Target

open RustPlc.Ir

/-- mirrors crates/st-monitor/src/protocol.rs:173-185 -/
structure VariableValue where
  name : String
  value : String
  varType : String
  forced : Bool
  retain : Bool
  persistent : Bool
  deriving DecidableEq, Repr

/-- mirrors crates/st-monitor/src/protocol.rs:143-171 -/
inductive WatchNode where
  | mk (name fullPath kind varType value : String) (forced retain persistent : Bool)
      (children : List WatchNode)

/-- The entries of the map that is collected from a list: of two variables with one
name the later stays. -/
def varMap (all : List VariableValue) : List VariableValue :=
  all.foldl (fun map v => map.filter (·.name != v.name) ++ [v]) []

/-- `vu.starts_with(dot) || vu.starts_with(bracket)` -/
def isUnder (sub name : String) : Bool :=
  let root := (toUppercase sub).toList
  let vu := (toUppercase name).toList
  (root ++ ['.']).isPrefixOf vu || (root ++ ['[']).isPrefixOf vu

/-- mirrors crates/st-monitor/src/server.rs:438-466 -/
def collectWatchedVariables (subscriptions : List String) (vars : List VariableValue) :
    List VariableValue :=
  vars.filter fun v =>
    subscriptions.any fun sub => toUppercase sub == toUppercase v.name || isUnder sub v.name

/-! ## Paths -/

/-- The rest of a path, with the segment that has been read so far. -/
def splitSegments : List Char → List Char → List (List Char)
  | [], segment => if segment = [] then [] else [segment]
  | c :: path, segment =>
    if c = '.' then
      if segment = [] then splitSegments path [] else segment :: splitSegments path []
    else if c = '[' ∧ segment ≠ [] then segment :: splitSegments path ['[']
    else splitSegments path (segment ++ [c])

/-- mirrors crates/st-monitor/src/server.rs:695-717 -/
def splitPathSegments (path : List Char) : List String := (splitSegments path []).map String.ofList

/-! ## Trees -/

/-- mirrors crates/st-monitor/src/server.rs:560-568 -/
structure NodeData where
  fullPath : String := ""
  varType : String := ""
  value : String := ""
  forced : Bool := false
  retain : Bool := false
  persistent : Bool := false

/-- `BTreeMap<String, Node>`, in the order of its keys. -/
inductive NodeMap where
  | nil
  | cons (key : String) (data : NodeData) (children rest : NodeMap)

/-- `map.entry(key).or_insert_with(..)`, followed by a change of the node. -/
def NodeMap.entry (key : String) (f : NodeData → NodeMap → NodeData × NodeMap) :
    NodeMap → NodeMap
  | .nil =>
    let node := f {} .nil
    .cons key node.1 node.2 .nil
  | .cons k data children rest =>
    if key = k then
      let node := f data children
      .cons k node.1 node.2 rest
    else if key < k then
      let node := f {} .nil
      .cons key node.1 node.2 (.cons k data children rest)
    else .cons k data children (rest.entry key f)

/-- mirrors crates/st-monitor/src/server.rs:592-636 -/
def insertAt (v : VariableValue) (isForced : Bool) : List String → NodeMap → NodeMap
  | [], map => map
  | [key], map => map.entry key fun _ children =>
    (⟨v.name, v.varType, v.value, isForced, v.retain, v.persistent⟩, children)
  | key :: next :: parts, map => map.entry key fun data children =>
    ({ data with retain := v.retain || data.retain, persistent := v.persistent || data.persistent },
      insertAt v isForced (next :: parts) children)

/-- mirrors crates/st-monitor/src/server.rs:654-686 -/
def toNodes : NodeMap → String → List WatchNode
  | .nil, _ => []
  | .cons key data children rest, parentFullPath =>
    let fullPath :=
      if data.fullPath ≠ "" then data.fullPath
      else if "[".toList.isPrefixOf key.toList then parentFullPath ++ key
      else if parentFullPath = "" then key
      else parentFullPath ++ "." ++ key
    let nodes := toNodes children fullPath
    let kind :=
      if nodes.isEmpty then "scalar"
      else if "[".toList.isPrefixOf key.toList then "array" else "fb"
    .mk key fullPath kind data.varType data.value data.forced data.retain data.persistent nodes ::
      toNodes rest parentFullPath

/-- The part of a name below `parentPath`. -/
def relativePath (parentPath name : String) : Option (List Char) :=
  let root := (toUppercase parentPath).toList
  let vu := (toUppercase name).toList
  if (root ++ ['.']).isPrefixOf vu then some (name.toList.drop (parentPath.length + 1))
  else if (root ++ ['[']).isPrefixOf vu then some (name.toList.drop parentPath.length)
  else none

/-- mirrors crates/st-monitor/src/server.rs:553-689 -/
def buildChildrenFromFlat (parentPath : String) (descendants : List VariableValue)
    (forced : List String) : List WatchNode :=
  let root := descendants.foldl (fun map v =>
    match relativePath parentPath v.name with
    | none => map
    | some relative =>
      insertAt v (forced.contains (toUppercase v.name)) (splitPathSegments relative) map) .nil
  toNodes root parentPath

/-- The tree of one subscription.
mirrors crates/st-monitor/src/server.rs:476-547 -/
def watchRoot (vars : List VariableValue) (forced : List String) (subName : String) : WatchNode :=
  let descendants := (vars.filter fun v => isUnder subName v.name).mergeSort
    fun a b => decide (a.name ≤ b.name)
  let parent := (vars.find? (·.name == subName)).orElse fun _ =>
    vars.find? fun v => eqIgnoreAsciiCase v.name subName
  if descendants.isEmpty then
    match parent with
    | some v => .mk v.name v.name "scalar" v.varType v.value (forced.contains (toUppercase v.name))
        v.retain v.persistent []
    | none => .mk subName subName "scalar" "" "" false false false []
  else
    let parentType := (parent.map (·.varType)).getD ""
    let kind :=
      if "ARRAY".toList.isPrefixOf parentType.toList then "array"
      else if parentType = "PROGRAM" then "program" else "fb"
    .mk subName subName kind parentType "" false ((parent.map (·.retain)).getD false)
      ((parent.map (·.persistent)).getD false)
      (buildChildrenFromFlat subName descendants forced)

/-- mirrors crates/st-monitor/src/server.rs:470-550 -/
def buildWatchTree (subscriptions : List String) (vars : List VariableValue)
    (forced : List String) : List WatchNode :=
  (subscriptions.map (watchRoot vars forced)).mergeSort fun
    | .mk a .., .mk b .. => decide (a ≤ b)

/-- Every subscription has a tree, also one for a name that does not exist. -/
theorem buildWatchTree_length (subscriptions : List String) (vars : List VariableValue)
    (forced : List String) :
    (buildWatchTree subscriptions vars forced).length = subscriptions.length := by
  unfold buildWatchTree
  rw [List.length_mergeSort, List.length_map]

end RustPlc.Target
