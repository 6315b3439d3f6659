import RustPlc.L1Ir.Names
import RustPlc.L2Semantics.Types

/-!
# Scopes

crates/st-semantics/src/scope.rs: the tree of scopes and the symbols in them.
A scope maps upper-case names to symbols; the global scope is scope 0, and a
scope is created after its parent.
-/
namespace RustPlc.Analysis

open RustPlc.Ir RustPlc.Syntax

/-- mirrors crates/st-semantics/src/scope.rs:73-78 -/
structure ParamDef where
  name : String
  ty : Ty
  varKind : VarKind

/-- mirrors crates/st-semantics/src/scope.rs:52-61 -/
structure MethodDef where
  name : String
  returnType : Ty
  params : List ParamDef
  access : AccessSpecifier
  isAbstract : Bool
  isFinal : Bool
  isOverride : Bool

/-- The data of a class symbol. mirrors crates/st-semantics/src/scope.rs:33-43 -/
structure ClassInfo where
  params : List ParamDef
  outputs : List ParamDef
  vars : List ParamDef
  methods : List MethodDef
  baseClass : Option String
  interfaces : List String
  isAbstract : Bool
  isFinal : Bool

/-- mirrors crates/st-semantics/src/scope.rs:27-49 -/
inductive SymbolKind where
  | variable (kind : VarKind)
  | function (returnType : Ty) (params : List ParamDef)
  | functionBlock (params outputs : List ParamDef)
  | program (params : List ParamDef)
  | cls (info : ClassInfo)
  | interface (methods : List MethodDef) (baseInterfaces : List String)
  | type

/-- mirrors crates/st-semantics/src/scope.rs:15-24 -/
structure Symbol where
  name : String
  ty : Ty
  kind : SymbolKind
  range : TextRange
  used : Bool
  assigned : Bool

/-- A hash map from upper-case names to symbols: its entries, each key once. -/
abbrev SymbolMap := List (String × Symbol)

def SymbolMap.get (m : SymbolMap) (key : String) : Option Symbol :=
  (m.find? fun e => e.1 == key).map (·.2)

/-- `HashMap::insert`: a symbol that is there is replaced. -/
def SymbolMap.insert (m : SymbolMap) (key : String) (symbol : Symbol) : SymbolMap :=
  if (m.get key).isSome then m.map fun e => if e.1 == key then (key, symbol) else e
  else (key, symbol) :: m

/-- mirrors crates/st-semantics/src/scope.rs:81-87 -/
structure Scope where
  parent : Option Nat
  symbols : SymbolMap

/-- mirrors crates/st-semantics/src/scope.rs:100-103 -/
def Scope.define (s : Scope) (symbol : Symbol) : Scope :=
  { s with symbols := s.symbols.insert (toUppercase symbol.name) symbol }

/-- mirrors crates/st-semantics/src/scope.rs:106-108 -/
def Scope.lookupLocal (s : Scope) (name : String) : Option Symbol :=
  s.symbols.get (toUppercase name)

/-- `lookup_local_mut` and an update. -/
def Scope.modifyLocal (s : Scope) (name : String) (f : Symbol → Symbol) : Scope :=
  { s with symbols := s.symbols.map fun e =>
      if e.1 == toUppercase name then (e.1, f e.2) else e }

/-- mirrors crates/st-semantics/src/scope.rs:122-124 -/
structure SymbolTable where
  scopes : List Scope

namespace SymbolTable

/-- mirrors crates/st-semantics/src/scope.rs:145-149: the table and the new id. -/
def createScope (t : SymbolTable) (parent : Nat) : SymbolTable × Nat :=
  (⟨t.scopes ++ [⟨some parent, []⟩]⟩, t.scopes.length)

/-- mirrors crates/st-semantics/src/scope.rs:160-162 -/
def define (t : SymbolTable) (id : Nat) (symbol : Symbol) : SymbolTable :=
  ⟨t.scopes.modify id (·.define symbol)⟩

/-- Look a name up in one scope. -/
def lookupIn (t : SymbolTable) (id : Nat) (name : String) : Option Symbol :=
  t.scopes[id]?.bind (·.lookupLocal name)

/-- The loop of `resolve`, with a bound on the number of levels. -/
def resolveUp (t : SymbolTable) (name : String) : Nat → Nat → Option (Nat × Symbol)
  | 0, _ => none
  | fuel + 1, id => match t.scopes[id]? with
    | none => none
    | some scope => match scope.lookupLocal name with
      | some sym => some (id, sym)
      | none => match scope.parent with
        | some parent => resolveUp t name fuel parent
        | none => none

/-- mirrors crates/st-semantics/src/scope.rs:165-177; a parent is older than
its child, so there are at most `id + 1` levels. -/
def resolve (t : SymbolTable) (id : Nat) (name : String) : Option (Nat × Symbol) :=
  resolveUp t name (id + 1) id

/-- Update the symbol a name resolves to. -/
def modifySymbol (t : SymbolTable) (id : Nat) (name : String) (f : Symbol → Symbol) :
    SymbolTable :=
  match t.resolve id name with
  | some (sid, _) => ⟨t.scopes.modify sid (·.modifyLocal name f)⟩
  | none => t

/-- mirrors crates/st-semantics/src/scope.rs:180-190 -/
def markUsed (t : SymbolTable) (id : Nat) (name : String) : SymbolTable :=
  t.modifySymbol id name fun sym => { sym with used := true }

/-- mirrors crates/st-semantics/src/scope.rs:193-203 -/
def markAssigned (t : SymbolTable) (id : Nat) (name : String) : SymbolTable :=
  t.modifySymbol id name fun sym => { sym with assigned := true }

/-- A global symbol of one of the given kinds. -/
def resolveGlobal (t : SymbolTable) (p : SymbolKind → Bool) (name : String) : Option Symbol :=
  (t.lookupIn 0 name).filter fun sym => p sym.kind

/-- mirrors crates/st-semantics/src/scope.rs:211-219 -/
def resolveType (t : SymbolTable) : String → Option Symbol :=
  t.resolveGlobal fun
    | .type => true
    | _ => false

/-- mirrors crates/st-semantics/src/scope.rs:222-232 -/
def resolvePou (t : SymbolTable) : String → Option Symbol :=
  t.resolveGlobal fun
    | .function _ _ | .functionBlock _ _ | .cls _ | .program _ => true
    | _ => false

/-- mirrors crates/st-semantics/src/scope.rs:235-243: the data of the class. -/
def resolveClass (t : SymbolTable) (name : String) : Option ClassInfo :=
  match t.lookupIn 0 name with
  | some ⟨_, _, .cls info, _, _, _⟩ => some info
  | _ => none

/-- mirrors crates/st-semantics/src/scope.rs:246-254: the methods of the
interface. -/
def resolveInterface (t : SymbolTable) (name : String) : Option (List MethodDef) :=
  match t.lookupIn 0 name with
  | some ⟨_, _, .interface methods _, _, _, _⟩ => some methods
  | _ => none

end SymbolTable

end RustPlc.Analysis
