import Mathlib.Data.List.Basic

/-!
# The TypeScript types of Python types

`get_field_type_for_ts` and `parse_literal_value` of type_mapper.py. A Python type is what
the mapper tells apart; a TypeScript type is the list of the alternatives of a union, since
the mapper joins them with bars wherever it stands. The text is written out from that.
-/
namespace TypeScriptTypes

/-- The types that the mapper knows by name, and `object`, whose name is a type of TypeScript. -/
inductive Scalar where
  | response
  | any
  | uploadFile
  | time
  | date
  | datetime
  | noneType
  | uuid
  | str
  | int
  | float
  | bool
  | decimal
  | object
  deriving DecidableEq, Repr

def Scalar.ts : Scalar → String
  | .response => "unknown"
  | .any => "any"
  | .uploadFile => "File"
  | .time | .date | .datetime | .uuid | .str | .decimal => "string"
  | .noneType => "null"
  | .int | .float => "number"
  | .bool => "boolean"
  | .object => "object"

structure TypeVar where
  ref : Nat
  name : String
  deriving DecidableEq, Repr

/-- A class, `split` being `SplitInputOutput.is_split_model`. -/
structure Cls where
  ref : Nat
  name : String
  split : Bool := false
  deriving DecidableEq, Repr

inductive LiteralValue where
  | none
  | enumMember (enum : Cls) (name : String)
  | str (value : String)
  | float (repr : String)
  | bool (value : Bool)
  | int (value : Int)
  | other
  deriving DecidableEq, Repr

/-- A Python type. `model` is a parametrized model, `root` a root model with its wrapped type,
`opaqueRoot` one whose type is not found (with the arguments of a parametrized one); `union`
says if it is written with bars; `validated` is an annotated type with a plain validator and
its input type. -/
inductive PyType where
  | scalar (s : Scalar)
  | typeVar (v : TypeVar)
  | ellipsis
  | cls (c : Cls)
  | model (origin : Cls) (args : List PyType)
  | root (c : Cls) (wrapped : PyType)
  | opaqueRoot (c : Cls) (args : List PyType)
  | classVar (t : PyType)
  | tuple (args : List PyType)
  | list (t : PyType)
  | frozenset (t : PyType)
  | set (t : PyType)
  | dict (key value : PyType)
  | literal (values : List LiteralValue)
  | union (bars : Bool) (args : List PyType)
  | annotated (t : PyType)
  | validated (t input : PyType)
  | other

mutual

def typeVars : PyType → List TypeVar
  | .typeVar v => [v]
  | .model _ args | .opaqueRoot _ args | .tuple args | .union _ args => typeVarsList args
  | .root _ t | .classVar t | .list t | .frozenset t | .set t | .annotated t => typeVars t
  | .dict key value => typeVars key ++ typeVars value
  | .validated t input => typeVars t ++ typeVars input
  | _ => []

def typeVarsList : List PyType → List TypeVar
  | [] => []
  | t :: rest => typeVars t ++ typeVarsList rest

end

/-- One alternative of a TypeScript type. `setOf` has the comment of the source behind it. -/
inductive Atom where
  | name (n : String)
  | app (n : String) (args : List (List Atom))
  | setOf (element : List Atom)
  | tuple (elements : List (List Atom))
  | index (key value : List Atom)
  | str (value : String)
  | num (text : String)
  | member (enum name : String)
  | typeofMember (enum name : String)

/-- A union of alternatives. -/
abbrev Ts := List Atom

inductive EnumStyle where
  | enum
  | const
  deriving DecidableEq, Repr

def parseLiteralValue (style : EnumStyle) : LiteralValue → Atom
  | .none => .name "null"
  | .enumMember enum name => match style with
    | .enum => .member enum.name name
    | .const => .typeofMember enum.name name
  | .str value => .str value
  | .float repr => .num repr
  | .bool value => .name (if value then "true" else "false")
  | .int value => .num (toString value)
  | .other => .name "unknown"

/-- The name of a class that is not parametrized. -/
def Cls.tsName (c : Cls) (suffix : String) : String :=
  if c.split = true ∧ suffix ≠ "" then c.name ++ suffix else c.name

/-- The name of a parametrized model, `display` being the one pydantic gives its class. -/
def Cls.headName (c : Cls) (display suffix : String) : String :=
  if c.split = true ∧ suffix ≠ "" then display ++ suffix else c.name

/-- The suffixes of the interfaces that are declared for a class. -/
def Cls.suffixes (c : Cls) : List String := if c.split then ["Input", "Output"] else [""]

@[simp] theorem Cls.tsName_empty (c : Cls) : c.tsName "" = c.name := by simp [Cls.tsName]

@[simp] theorem Cls.headName_empty (c : Cls) (display : String) :
    c.headName display "" = c.name := by
  simp [Cls.headName]

section Mapper

variable (style : EnumStyle) (display : Cls → List PyType → String) (suffix : String)
  (mapping : TypeVar → Option Ts)

mutual

/-- `get_field_type_for_ts`; `mapping` has what it gives for the variables of the type mapping. -/
def getFieldTypeForTs : PyType → Ts
  | .scalar s => [.name s.ts]
  | .typeVar v => (mapping v).getD [.name v.name]
  | .ellipsis => [.name "unknown"]
  | .cls c => [.name (c.tsName suffix)]
  | .model origin args =>
    [.app (origin.headName (display origin args) suffix) (getFieldTypesForTs args)]
  | .root _ wrapped => getFieldTypeForTs wrapped
  | .opaqueRoot _ _ => [.name "unknown"]
  | .classVar t => getFieldTypeForTs t
  | .tuple args => [.tuple (getFieldTypesForTs args)]
  | .list t => [.app "Array" [getFieldTypeForTs t]]
  | .frozenset t => [.app "Array" [getFieldTypeForTs t]]
  | .set t => [.setOf (getFieldTypeForTs t)]
  | .dict key value => [.index (getFieldTypeForTs key) (getFieldTypeForTs value)]
  | .literal values => values.map (parseLiteralValue style)
  | .union _ args => (getFieldTypesForTs args).flatten
  | .annotated t => getFieldTypeForTs t
  | .validated _ input => getFieldTypeForTs input
  | .other => [.name "unknown"]

def getFieldTypesForTs : List PyType → List Ts
  | [] => []
  | t :: rest => getFieldTypeForTs t :: getFieldTypesForTs rest

end

theorem getFieldTypesForTs_eq_map (ts : List PyType) :
    getFieldTypesForTs style display suffix mapping ts =
    ts.map (getFieldTypeForTs style display suffix mapping) := by
  induction ts with
  | nil => rfl
  | cons t ts ih => rw [getFieldTypesForTs, ih, List.map_cons]

theorem length_getFieldTypesForTs (ts : List PyType) :
    (getFieldTypesForTs style display suffix mapping ts).length = ts.length := by
  rw [getFieldTypesForTs_eq_map, List.length_map]

end Mapper

end TypeScriptTypes
