import Jararaca.ClientRoutes
import Jararaca.GenericModels
import Jararaca.TypeScriptText

/-!
# The JSON of a Python type and the TypeScript type for it

What pydantic serialises values of a type to, what belongs to a TypeScript type with the
interfaces and enumerations of the generated file, and types for which the first is always
part of the second. The text of these types is read back as the type it stands for.
-/
namespace JsonTypes

open TypeScriptTypes TypeScriptText GenericModels

inductive Json where
  | null
  | bool (b : Bool)
  | int (n : Int)
  | float (repr : String)
  | str (s : String)
  | arr (items : List Json)
  | obj (fields : List (String × Json))

/-- A member of an enumeration: its value as JSON and as text of an f-string. -/
structure EnumMember where
  name : String
  json : Json
  text : String

/-- A class among the bases of a model, as its heir names it: without `args` if it is not generic
or, as pydantic makes `Page` of `Page[T]`, if these are its own parameters. `heirSplit` says if the
heir is split. -/
structure Base where
  cls : Cls
  parameters : List TypeVar := []
  args : List PyType := []
  heirSplit : Bool := false

/-- A member of the interface of a model. An inherited one has it through `bases`, the class that
has the annotation first; `ownerSplit` says if that class is split. A class variable and a
property that is no computed field are not `serialised`. -/
structure Field where
  name : String
  annotation : PyType
  bases : List Base := []
  serializationAlias : Option String := none
  serialised : Bool := true
  property : Bool := false
  hasDefault : Bool := false
  ownerSplit : Bool := false

/-- An enumeration is declared as one if `Enum` is among its own bases, `direct`; a `StrEnum`, an
`IntEnum` and one with an `Enum` of the program as its base are declared as interfaces. -/
inductive ClassDef where
  | enum (direct : Bool) (members : List EnumMember)
  | model (parameters : List TypeVar) (fields : List Field)

/-- The classes of a program by number, those that the generated file declares, the names
pydantic gives to parametrized models, `str.title`, and if models are serialised by alias. -/
structure Program where
  classes : Nat → ClassDef
  declared : List Cls
  display : Cls → List PyType → String
  title : List Char → List Char
  byAlias : Bool

def isConstant (name : String) : Bool :=
  name.toList ≠ [] && name.toList.all fun c => c.isUpper || c == '_'

/-- Words of TypeScript that name neither a declaration nor a parameter. -/
def keywords : List String :=
  ["any", "unknown", "never", "void", "null", "undefined", "string", "number", "boolean", "symbol",
    "bigint", "object",
    "true", "false", "break", "case", "catch", "class", "const", "continue", "debugger", "default",
      "delete", "do", "else",
    "enum", "export", "extends", "finally", "for", "function", "if", "import", "in", "instanceof",
      "new", "return", "super",
    "switch", "this", "throw", "try", "typeof", "var", "while", "with"]

namespace Program

variable (P : Program)

/-- The key that a key of JSON is renamed to. -/
def rename (name : String) : String :=
  if isConstant name then name else ClientRoutes.snakeToCamel P.title name

/-- The key of a member in an interface. -/
def key (f : Field) : String :=
  if f.property then ClientRoutes.snakeToCamel P.title f.name else P.rename f.name

/-- The key of a member in JSON. -/
def entry (f : Field) : String := if P.byAlias then f.serializationAlias.getD f.name else f.name

/-- The classes and suffixes that a name is declared for. -/
def declarations (n : String) : List (Cls × String) :=
  if n ∈ keywords then []
  else (P.declared.flatMap fun c => c.suffixes.map fun s => (c, s)).filter fun d =>
    d.1.name ++ d.2 == n

/-- What a name is declared for. Two declarations of one name are merged by TypeScript. -/
def declaration (n : String) : Option (Cls × String) :=
  match P.declarations n with
  | [d] => some d
  | _ => none

theorem declaration_keyword {n : String} (hn : n ∈ keywords) : P.declaration n = none := by
  rw [declaration, declarations, if_pos hn]

end Program

namespace Field

def suffix (f : Field) (interface : String) : String := if f.ownerSplit then interface else ""

def optional (f : Field) (interface : String) : Bool :=
  f.hasDefault && !f.property && f.suffix interface != "Output"

end Field

def Base.suffix (b : Base) (interface : String) : String := if b.heirSplit then interface else ""

/-- The model as `parse_single_typescript_interface` declares it. -/
def genericModel (c : Cls) (parameters : List TypeVar) (fields : List Field) : GenericModel where
  cls := c
  parameters := parameters
  fields := fields.map fun f => (f.name, f.annotation)

def Base.model (b : Base) : GenericModel := genericModel b.cls b.parameters []

/-- What the variables of an annotation stand for below its bases, if those of the class stand for
`ρ`. -/
def boundTypes (ρ : TypeVar → Option PyType) : List Base → TypeVar → Option PyType
  | [] => ρ
  | b :: rest =>
    if b.args.isEmpty then boundTypes ρ rest
    else assign b.parameters (b.args.map (replaceVars (boundTypes ρ rest)))

section Values

variable (P : Program)

/-- The JSON of a value of a literal type. -/
inductive LiteralJson : LiteralValue → Json → Prop
  | none : LiteralJson .none .null
  | bool (b : Bool) : LiteralJson (.bool b) (.bool b)
  | str (s : String) : LiteralJson (.str s) (.str s)
  | int (n : Int) : LiteralJson (.int n) (.int n)
  | float (repr : String) : LiteralJson (.float repr) (.float repr)
  | enumMember {c : Cls} {direct : Bool} {members : List EnumMember} {m : EnumMember} :
    P.classes c.ref = .enum direct members → m ∈ members → LiteralJson (.enumMember c m.name) m.json
  | other (j : Json) : LiteralJson .other j

def textScalars : List Scalar := [.time, .date, .datetime, .uuid, .str, .decimal]

/-- What pydantic serialises a value of a type to. Infinities and NaN become null; a type
variable and a forward reference stand for any value. -/
inductive Produces : PyType → Json → Prop
  | any (j : Json) : Produces (.scalar .any) j
  | object (j : Json) : Produces (.scalar .object) j
  | text {s : Scalar} (v : String) : s ∈ textScalars → Produces (.scalar s) (.str v)
  | none : Produces (.scalar .noneType) .null
  | bool (b : Bool) : Produces (.scalar .bool) (.bool b)
  | int (n : Int) : Produces (.scalar .int) (.int n)
  | float (repr : String) : Produces (.scalar .float) (.float repr)
  | notFinite : Produces (.scalar .float) .null
  | typeVar (v : TypeVar) (j : Json) : Produces (.typeVar v) j
  | other (j : Json) : Produces .other j
  | opaqueRoot (c : Cls) (args : List PyType) (j : Json) : Produces (.opaqueRoot c args) j
  | root {c : Cls} {t : PyType} {j : Json} : Produces t j → Produces (.root c t) j
  | list {t : PyType} {xs : List Json} : (∀ x ∈ xs, Produces t x) → Produces (.list t) (.arr xs)
  | frozenset {t : PyType} {xs : List Json} :
      (∀ x ∈ xs, Produces t x) → Produces (.frozenset t) (.arr xs)
  | set {t : PyType} {xs : List Json} : (∀ x ∈ xs, Produces t x) → Produces (.set t) (.arr xs)
  | tuple {args : List PyType} {xs : List Json} : .ellipsis ∉ args → xs.length = args.length →
    (∀ (i : Nat) t x, args[i]? = some t → xs[i]? = some x → Produces t x) →
      Produces (.tuple args) (.arr xs)
  | variadic {t : PyType} {xs : List Json} :
      (∀ x ∈ xs, Produces t x) → Produces (.tuple [t, .ellipsis]) (.arr xs)
  | dict {key value : PyType} {fields : List (String × Json)} :
    (∀ f ∈ fields, Produces value f.2) → Produces (.dict key value) (.obj fields)
  | literal {values : List LiteralValue} {v : LiteralValue} {j : Json} :
    v ∈ values → LiteralJson P v j → Produces (.literal values) j
  | union {bars : Bool} {args : List PyType} {t : PyType} {j : Json} :
    t ∈ args → Produces t j → Produces (.union bars args) j
  | annotated {t : PyType} {j : Json} : Produces t j → Produces (.annotated t) j
  | validated {t input : PyType} {j : Json} : Produces t j → Produces (.validated t input) j
  | enum {c : Cls} {direct : Bool} {members : List EnumMember} {m : EnumMember} :
    P.classes c.ref = .enum direct members → m ∈ members → Produces (.cls c) m.json
  | plain {c : Cls} {parameters : List TypeVar} {fields : List Field} (values : Field → Json) :
    P.classes c.ref = .model parameters fields →
    (∀ f ∈ fields, f.serialised = true →
      Produces (replaceVars (boundTypes (fun _ => none) f.bases) f.annotation) (values f)) →
    Produces (.cls c) (.obj ((fields.filter Field.serialised).map fun f => (P.entry f, values f)))
  | model {c : Cls} {parameters : List TypeVar} {fields : List Field} {args : List PyType}
      (values : Field → Json) :
    P.classes c.ref = .model parameters fields →
    (∀ f ∈ fields, f.serialised = true →
      Produces (replaceVars (boundTypes (assign parameters args) f.bases) f.annotation)
        (values f)) →
    Produces (.model c args) (.obj
      ((fields.filter Field.serialised).map fun f => (P.entry f, values f)))

variable (style : EnumStyle)

/-- What the names of parameters stand for below the bases that an interface extends, if those of
the interface stand for `τ`. -/
def boundNames (interface : String) (τ : String → Option Ts) : List Base → String → Option Ts
  | [] => τ
  | b :: rest => assign b.model.parameterNames (b.args.map fun t =>
      subst (boundNames interface τ rest)
        (getFieldTypeForTs style P.display (b.suffix interface) (fun _ => none) t))

/-- The type of a member of an interface, as far as its bases give types to its names. -/
def memberType (interface : String) (τ : String → Option Ts) (f : Field) : Ts :=
  subst (boundNames P style interface τ f.bases)
    (getFieldTypeForTs style P.display (f.suffix interface) (fun _ => none) f.annotation)

/-- What TypeScript accepts as the type of the key of an index signature. -/
def IsKey (key : Ts) : Prop := key ≠ [] ∧ ∀ a ∈ key, a = .name "string" ∨ a = .name "number"

mutual

/-- A value belongs to an alternative of a type, the keys of its objects being renamed. -/
inductive HasAtom : Atom → Json → Prop
  | unknown (j : Json) : HasAtom (.name "unknown") j
  | any (j : Json) : HasAtom (.name "any") j
  | null : HasAtom (.name "null") .null
  | string (s : String) : HasAtom (.name "string") (.str s)
  | int (n : Int) : HasAtom (.name "number") (.int n)
  | float (repr : String) : HasAtom (.name "number") (.float repr)
  | boolean (b : Bool) : HasAtom (.name "boolean") (.bool b)
  | literalBool (b : Bool) : HasAtom (.name (if b then "true" else "false")) (.bool b)
  | literalStr (s : String) : HasAtom (.str s) (.str s)
  | literalInt (n : Int) : HasAtom (.num (toString n)) (.int n)
  | literalFloat (repr : String) : HasAtom (.num repr) (.float repr)
  | array {t : Ts} {xs : List Json} : P.declarations "Array" = [] → (∀ x ∈ xs, Has t x) →
    HasAtom (.app "Array" [t]) (.arr xs)
  | tuple {ts : List Ts} {xs : List Json} : xs.length = ts.length →
    (∀ (i : Nat) t x, ts[i]? = some t → xs[i]? = some x → Has t x) → HasAtom (.tuple ts) (.arr xs)
  | index {key value : Ts} {fields : List (String × Json)} :
    IsKey key → (∀ f ∈ fields, Has value f.2) → HasAtom (.index key value) (.obj fields)
  | enum {n : String} {c : Cls} {members : List EnumMember} {m : EnumMember} {s : String} :
    P.declaration n = some (c, "") → P.classes c.ref = .enum true members → m ∈ members →
      quoted m.text = some s →
    HasAtom (.name n) (.str s)
  | member {n : String} {c : Cls} {members : List EnumMember} {m : EnumMember} {s : String} :
    P.declaration n = some (c, "") → P.classes c.ref = .enum true members → m ∈ members →
      quoted m.text = some s →
    HasAtom (.member n m.name) (.str s)
  | typeofMember {n : String} {c : Cls} {members : List EnumMember} {m : EnumMember} {s : String} :
    P.declaration n = some (c, "") → P.classes c.ref = .enum true members → m ∈ members →
      quoted m.text = some s →
    HasAtom (.typeofMember n m.name) (.str s)
  | derived {n interface : String} {c : Cls} {members : List EnumMember}
      (entries : List (String × Json)) :
    P.declaration n = some (c, interface) → P.classes c.ref = .enum false members →
      HasAtom (.name n) (.obj entries)
  | interface {n interface : String} {c : Cls} {fields : List Field}
      {entries : List (String × Json)} :
    P.declaration n = some (c, interface) → P.classes c.ref = .model [] fields →
    (∀ f ∈ fields, ∀ e ∈ entries, P.rename e.1 = P.key f →
      Has (memberType P style interface (fun _ => none) f) e.2) →
    (∀ f ∈ fields, f.optional interface = true ∨ ∃ e ∈ entries, P.rename e.1 = P.key f) →
    HasAtom (.name n) (.obj entries)
  | generic {n interface : String} {c : Cls} {parameters : List TypeVar} {fields : List Field}
      {targs : List Ts}
      {entries : List (String × Json)} :
    P.declaration n = some (c, interface) → P.classes c.ref = .model parameters fields →
    targs.length = parameters.length →
    (∀ f ∈ fields, ∀ e ∈ entries, P.rename e.1 = P.key f →
      Has (memberType P style interface
        (assign (genericModel c parameters fields).parameterNames targs) f) e.2) →
    (∀ f ∈ fields, f.optional interface = true ∨ ∃ e ∈ entries, P.rename e.1 = P.key f) →
    HasAtom (.app n targs) (.obj entries)

inductive Has : Ts → Json → Prop
  | mk {t : Ts} {a : Atom} {j : Json} : a ∈ t → HasAtom a j → Has t j

end

/-- The text of a type parses to one type, which has every value that is serialised. -/
def Described (suffix : String) (t : PyType) : Prop :=
  ∃ ts, ReadsAs (typeText (getFieldTypeForTs style P.display suffix (fun _ => none) t)) ts ∧
    ∀ j, Produces P t j → Has P style ts j

end Values

section Regularity

variable (P : Program) (style : EnumStyle)

/-- The declaration of a member of an enumeration is read as what it serialises to. -/
def EnumMember.Plain (m : EnumMember) : Prop := m.json = .str m.text ∧ IsPlain m.text

/-- A value of a literal type whose text and whose member are what they stand for. -/
def RegularLiteral : LiteralValue → Prop
  | .none | .bool _ | .int _ | .other => True
  | .float repr => IsNumber repr.toList
  | .str s => ∀ c ∈ s.toList, isBreak c = false
  | .enumMember c name =>
    IsWord c.name.toList ∧ IsWord name.toList ∧ P.declaration c.name = some (c, "") ∧
    ∀ direct members, P.classes c.ref = .enum direct members →
      direct = true ∧ ∀ m ∈ members, m.name = name → m.Plain

/-- The name of a class at a suffix is declared for it. -/
def Named (suffix : String) (c : Cls) : Prop :=
  IsWord (c.tsName suffix).toList ∧
    P.declaration (c.tsName suffix) = some (c, if c.split then suffix else "")

/-- An alternative of the type has every value. -/
def Wide (suffix : String) (t : PyType) : Prop :=
  ∀ mapping, .name "any" ∈ getFieldTypeForTs style P.display suffix mapping t ∨
    .name "unknown" ∈ getFieldTypeForTs style P.display suffix mapping t

/-- Null is an alternative of the type. -/
def Nullable (suffix : String) (t : PyType) : Prop :=
  ∀ mapping, .name "null" ∈ getFieldTypeForTs style P.display suffix mapping t

/-- Keys that do not collide; what is not serialised is optional. -/
structure RegularFields (interface : String) (fields : List Field) : Prop where
  keys : ∀ f ∈ fields, f.serialised = true → P.key f = P.rename (P.entry f)
  apart : ∀ f ∈ fields, f.serialised = true → ∀ g ∈ fields, P.rename (P.entry f) = P.key g → f = g
  absent : ∀ f ∈ fields, f.serialised = false → f.optional interface = true

/-- The class that has the annotation of a member. -/
def scopeOf (own : GenericModel) : List Base → GenericModel
  | [] => own
  | b :: _ => b.model

/-- The variables of a type are parameters of the class it is written in, and its names mean in the
interface what they mean in the class. -/
def InScope (m : GenericModel) (suffix : String) (t : PyType) : Prop :=
  (∀ v ∈ typeVars t, v ∈ m.parameters) ∧
    (m.parameters = [] ∨ suffix = "" ∧ ∀ l ∈ leaves t, m.LeafKept l)

section Types

variable (Admitted : String → Cls → Prop)

/-- A type at a suffix for which the mapper is right, if it is for the admitted classes. `null`
says that null is an alternative of a union around the type. -/
inductive Regular : Prop → String → PyType → Prop
  | scalar {null : Prop} {suffix : String} {s : Scalar} :
      s ≠ .float → s ≠ .object → Regular null suffix (.scalar s)
  | float {null : Prop} {suffix : String} : null → Regular null suffix (.scalar .float)
  | typeVar {null : Prop} {suffix : String} {v : TypeVar} :
      IsWord v.name.toList → v.name ∉ keywords →
    Regular null suffix (.typeVar v)
  | wide {null : Prop} {suffix : String} {t : PyType} : t ≠ .ellipsis → Wide P style suffix t →
    CleanType (getFieldTypeForTs style P.display suffix (fun _ => none) t) → Regular null suffix t
  | root {null : Prop} {suffix : String} {c : Cls} {t : PyType} :
      Regular null suffix t → Regular null suffix (.root c t)
  | list {null : Prop} {suffix : String} {t : PyType} :
      P.declarations "Array" = [] → Regular False suffix t →
    Regular null suffix (.list t)
  | frozenset {null : Prop} {suffix : String} {t : PyType} :
      P.declarations "Array" = [] → Regular False suffix t →
    Regular null suffix (.frozenset t)
  | tuple {null : Prop} {suffix : String} {args : List PyType} :
      (∀ t ∈ args, Regular False suffix t) →
    Regular null suffix (.tuple args)
  | dict {null : Prop} {suffix : String} {key value : PyType} :
    (∀ mapping, IsKey (getFieldTypeForTs style P.display suffix mapping key)) →
      Regular False suffix value →
    Regular null suffix (.dict key value)
  | literal {null : Prop} {suffix : String} {values : List LiteralValue} : values ≠ [] →
    (∀ v ∈ values, RegularLiteral P v) → Regular null suffix (.literal values)
  | union {null : Prop} {suffix : String} {bars : Bool} {args : List PyType} : args ≠ [] →
    (∀ t ∈ args, Regular (null ∨ Nullable P style suffix (.union bars args)) suffix t) →
    Regular null suffix (.union bars args)
  | annotated {null : Prop} {suffix : String} {t : PyType} :
      Regular null suffix t → Regular null suffix (.annotated t)
  | validated {null : Prop} {suffix : String} {t input : PyType} : Regular null suffix t →
    (∀ mapping, getFieldTypeForTs style P.display suffix mapping t ⊆
      getFieldTypeForTs style P.display suffix mapping input) →
    CleanType (getFieldTypeForTs style P.display suffix (fun _ => none) input) →
    Regular null suffix (.validated t input)
  | cls {null : Prop} {suffix : String} {c : Cls} : Admitted suffix c →
    (∀ parameters fields, P.classes c.ref = .model parameters fields → parameters = []) →
    Regular null suffix (.cls c)
  | model {null : Prop} {suffix : String} {c : Cls} {parameters : List TypeVar}
      {fields : List Field}
      {args : List PyType} :
    P.classes c.ref = .model parameters fields → Admitted "" c → c.split = false → args ≠ [] →
    args.length = parameters.length →
    (∀ t ∈ args, Regular False suffix t) → Regular null suffix (.model c args)

/-- Bases that are declared under the names they are extended by, with arguments that are right. -/
def RegularBases (interface : String) (own : GenericModel) : List Base → Prop
  | [] => True
  | b :: rest => Named P (b.suffix interface) b.cls ∧ (b.args ≠ [] → b.cls.split = false) ∧
    b.args.length = b.parameters.length ∧
    (∀ t ∈ b.args, InScope (scopeOf own rest) (b.suffix interface) t ∧
      Regular P style Admitted False (b.suffix interface) t) ∧
    RegularBases interface own rest

structure RegularModel (interface : String) (own : GenericModel) (fields : List Field) : Prop
    extends RegularFields P interface fields where
  bases : ∀ f ∈ fields, f.serialised = true →
    RegularBases P style Admitted interface own f.bases
  known : ∀ f ∈ fields, f.serialised = true →
    InScope (scopeOf own f.bases) (f.suffix interface) f.annotation
  types : ∀ f ∈ fields, f.serialised = true →
    Regular P style Admitted False (f.suffix interface) f.annotation

/-- A class that is declared under its name, with members that are right. -/
def RegularClass (suffix : String) (c : Cls) : Prop :=
  Named P suffix c ∧ match P.classes c.ref with
    | .enum direct members => direct = true ∧ c.split = false ∧ ∀ m ∈ members, m.Plain
    | .model parameters fields =>
      RegularModel P style Admitted (if c.split then suffix else "")
        (genericModel c parameters fields) fields

end Types

end Regularity

mutual

theorem replaceVars_none : ∀ t : PyType, replaceVars (fun _ => none) t = t
  | .typeVar _ => rfl
  | .model _ args => by rw [replaceVars, replaceVarsList_none args]
  | .root _ t => by rw [replaceVars, replaceVars_none t]
  | .opaqueRoot _ args => by rw [replaceVars, replaceVarsList_none args]
  | .classVar t => by rw [replaceVars, replaceVars_none t]
  | .tuple args => by rw [replaceVars, replaceVarsList_none args]
  | .list t => by rw [replaceVars, replaceVars_none t]
  | .frozenset t => by rw [replaceVars, replaceVars_none t]
  | .set t => by rw [replaceVars, replaceVars_none t]
  | .dict key value => by rw [replaceVars, replaceVars_none key, replaceVars_none value]
  | .union _ args => by rw [replaceVars, replaceVarsList_none args]
  | .annotated t => by rw [replaceVars, replaceVars_none t]
  | .validated t input => by rw [replaceVars, replaceVars_none t, replaceVars_none input]
  | .scalar _ | .ellipsis | .cls _ | .literal _ | .other => rfl

theorem replaceVarsList_none : ∀ ts : List PyType, replaceVarsList (fun _ => none) ts = ts
  | [] => rfl
  | t :: rest => by rw [replaceVarsList, replaceVars_none t, replaceVarsList_none rest]

end

theorem replaceVarsList_eq_map (ρ : TypeVar → Option PyType) (ts : List PyType) :
    replaceVarsList ρ ts = ts.map (replaceVars ρ) := by
  induction ts with
  | nil => rfl
  | cons t ts ih => rw [replaceVarsList, ih, List.map_cons]

theorem mem_typeVarsList {ts : List PyType} {t : PyType} (ht : t ∈ ts) {v : TypeVar}
    (hv : v ∈ typeVars t) :
    v ∈ typeVarsList ts := by
  induction ts with
  | nil => cases ht
  | cons u ts ih =>
    rw [typeVarsList, List.mem_append]
    rcases List.mem_cons.1 ht with rfl | ht
    · exact .inl hv
    · exact .inr (ih ht)

mutual

theorem substAtom_none : ∀ a : Atom, substAtom (fun _ => none) a = [a]
  | .app _ args => by simp [substAtom, substArgs_none args]
  | .setOf element => by simp [substAtom, subst_none element]
  | .tuple elements => by rw [substAtom, substArgs_none elements]
  | .index key value => by rw [substAtom, subst_none key, subst_none value]
  | .name _ | .str _ | .num _ | .member .. | .typeofMember .. => rfl

theorem subst_none : ∀ ts : List Atom, subst (fun _ => none) ts = ts
  | [] => rfl
  | a :: rest => by rw [subst, substAtom_none a, subst_none rest, List.singleton_append]

theorem substArgs_none : ∀ ts : List (List Atom), substArgs (fun _ => none) ts = ts
  | [] => rfl
  | t :: rest => by rw [substArgs, subst_none t, substArgs_none rest]

end

@[simp] theorem Field.suffix_empty (f : Field) : f.suffix "" = "" := by simp [Field.suffix]

section Sizes

theorem sizeOf_lt_arr {x : Json} {xs : List Json} (h : x ∈ xs) :
    sizeOf x < sizeOf (Json.arr xs) := by
  have hlt := List.sizeOf_lt_of_mem h
  rw [Json.arr.sizeOf_spec]
  omega

theorem sizeOf_lt_obj {e : String × Json} {entries : List (String × Json)} (h : e ∈ entries) :
    sizeOf e.2 < sizeOf (Json.obj entries) := by
  have hlt := List.sizeOf_lt_of_mem h
  have hpair : sizeOf e = 1 + sizeOf e.1 + sizeOf e.2 := rfl
  rw [Json.obj.sizeOf_spec]
  omega

end Sizes

section Soundness

variable {P : Program} {style : EnumStyle}

/-- A value of a union is a value of any wider one. -/
theorem Has.mono {s t : Ts} {j : Json} (h : Has P style s j) (hst : s ⊆ t) : Has P style t j := by
  cases h with
  | mk ha hj => exact .mk (hst ha) hj

theorem Has.single {a : Atom} {j : Json} (h : HasAtom P style a j) : Has P style [a] j :=
  .mk List.mem_cons_self h

/-- Types put for the variables serialise to values of the TypeScript types put for them, as
far as these are smaller than `n`. -/
def Valued (P : Program) (style : EnumStyle) (n : Nat) (ρ : TypeVar → Option PyType)
    (ν : TypeVar → Option Ts)
    (vars : List TypeVar) : Prop :=
  ∀ v ∈ vars, (∀ j, sizeOf j < n → Produces P ((ρ v).getD (.typeVar v)) j →
    Has P style ((ν v).getD [.name v.name]) j) ∧
    ρ v ≠ some .ellipsis

/-- Types put for the parameters of a class, and for their names in its interface, as far as names
mean there what they mean in the class. -/
def Bound (P : Program) (style : EnumStyle) (n : Nat) (m : GenericModel)
    (ρ : TypeVar → Option PyType) (τ : String → Option Ts) : Prop :=
  ∃ ν, Valued P style n ρ ν m.parameters ∧
    (m.parameters = [] → τ = fun _ => none) ∧ ∀ l, m.LeafKept l → Agrees τ ν l

/-- Regular types serialise to values of the TypeScript types for them, as far as these are
smaller than `n`. -/
def RightBelow (P : Program) (style : EnumStyle) (Admitted : String → Cls → Prop)
    (n : Nat) : Prop :=
  ∀ {suffix : String} {t : PyType}, Regular P style Admitted False suffix t →
    ∀ {ρ : TypeVar → Option PyType} {ν : TypeVar → Option Ts} {j : Json},
      Valued P style n ρ ν (typeVars t) → sizeOf j < n → Produces P (replaceVars ρ t) j →
      Has P style (getFieldTypeForTs style P.display suffix ν t) j

theorem Valued.mono {n : Nat} {ρ : TypeVar → Option PyType} {ν : TypeVar → Option Ts}
    {vars vars' : List TypeVar}
    (h : Valued P style n ρ ν vars') (hsub : vars ⊆ vars') : Valued P style n ρ ν vars :=
      fun v hv => h v (hsub hv)

theorem wide_has {suffix : String} {t : PyType} (h : Wide P style suffix t)
    (ν : TypeVar → Option Ts) (j : Json) :
    Has P style (getFieldTypeForTs style P.display suffix ν t) j := by
  rcases h ν with hany | hunknown
  · exact .mk hany (.any j)
  · exact .mk hunknown (.unknown j)

/-- The scalars but `float` and `object` serialise to values of their TypeScript types. -/
theorem scalar_has {s : Scalar} (hfloat : s ≠ .float) (hobject : s ≠ .object) {j : Json}
    (hj : Produces P (.scalar s) j) :
    Has P style [.name s.ts] j := by
  cases hj with
  | any j => exact .single (.any j)
  | object j => exact absurd rfl hobject
  | text v hs =>
    have hts : s.ts = "string" := by
      simp only [textScalars, List.mem_cons, List.not_mem_nil, or_false] at hs
      rcases hs with rfl | rfl | rfl | rfl | rfl | rfl <;> rfl
    rw [hts]
    exact .single (.string v)
  | none => exact .single .null
  | bool b => exact .single (.boolean b)
  | int n => exact .single (.int n)
  | float repr => exact absurd rfl hfloat
  | notFinite => exact absurd rfl hfloat

/-- Infinities and NaN are the only floats that are no numbers. -/
theorem float_has {j : Json} (hj : Produces P (.scalar .float) j) :
    Has P style [.name "number"] j ∨ j = .null := by
  cases hj with
  | text v hs => simp [textScalars] at hs
  | float repr => exact .inl (.single (.float repr))
  | notFinite => exact .inr rfl

/-- A literal serialises to a value of its literal type. -/
theorem literal_has {value : LiteralValue} (hvalue : RegularLiteral P value) {j : Json}
    (hj : LiteralJson P value j) :
    HasAtom P style (parseLiteralValue style value) j := by
  cases hj with
  | none => exact .null
  | bool b => exact .literalBool b
  | str s => exact .literalStr s
  | int n => exact .literalInt n
  | float repr => exact .literalFloat repr
  | @enumMember c direct members m hc hm =>
    obtain ⟨-, -, hdeclared, hplain⟩ := hvalue
    obtain ⟨rfl, hmembers⟩ := hplain direct members hc
    obtain ⟨hjson, htext⟩ := hmembers m hm rfl
    rw [hjson]
    cases style with
    | enum => exact .member hdeclared hc hm (quoted_plain htext)
    | const => exact .typeofMember hdeclared hc hm (quoted_plain htext)
  | other j => exact .unknown j

theorem replaceVars_ne_ellipsis {t : PyType} (ht : t ≠ .ellipsis) {ρ : TypeVar → Option PyType}
    (hρ : ∀ v ∈ typeVars t, ρ v ≠ some .ellipsis) : replaceVars ρ t ≠ .ellipsis := by
  cases t with
  | ellipsis => exact absurd rfl ht
  | typeVar v =>
    intro heq
    cases hv : ρ v with
    | none => simp [replaceVars, hv] at heq
    | some u => exact hρ v (by simp [typeVars]) (by simpa [replaceVars, hv] using heq)
  | _ => simp [replaceVars]

theorem Regular.ne_ellipsis {Admitted : String → Cls → Prop} {null : Prop}
    {suffix : String} {t : PyType}
    (h : Regular P style Admitted null suffix t) : t ≠ .ellipsis := by
  cases h with
  | wide ht _ _ => exact ht
  | _ => simp

/-- The entries of a serialised model, at the members of its interface. -/
theorem entries_has {interface : String} {fields : List Field}
    (hfields : RegularFields P interface fields)
    {types : Field → Ts} {values : Field → Json}
    (h : ∀ f ∈ fields, f.serialised = true → Has P style (types f) (values f)) :
    (∀ f ∈ fields, ∀ e ∈ (fields.filter Field.serialised).map fun f => (P.entry f, values f),
      P.rename e.1 = P.key f → Has P style (types f) e.2) ∧
    ∀ f ∈ fields, f.optional interface = true ∨
      ∃ e ∈ (fields.filter Field.serialised).map fun f =>
        (P.entry f, values f), P.rename e.1 = P.key f := by
  constructor
  · intro f hf e he hkey
    obtain ⟨g, hg, rfl⟩ := List.mem_map.1 he
    obtain ⟨hg, hserialised⟩ := List.mem_filter.1 hg
    obtain rfl := hfields.apart g hg hserialised f hf hkey
    exact h g hg hserialised
  · intro f hf
    cases hserialised : f.serialised with
    | false => exact .inl (hfields.absent f hf hserialised)
    | true =>
      refine .inr ⟨(P.entry f, values f),
        List.mem_map.2 ⟨f, List.mem_filter.2 ⟨hf, hserialised⟩, rfl⟩, ?_⟩
      exact (hfields.keys f hf hserialised).symm

/-- The value of a field is smaller than the object it is in. -/
theorem sizeOf_lt_entries {fields : List Field} {values : Field → Json} {f : Field}
    (hf : f ∈ fields)
    (hserialised : f.serialised = true) :
    sizeOf (values f) < sizeOf
      (Json.obj ((fields.filter Field.serialised).map fun f => (P.entry f, values f))) :=
  @sizeOf_lt_obj (P.entry f, values f) _
    (List.mem_map.2 ⟨f, List.mem_filter.2 ⟨hf, hserialised⟩, rfl⟩)

/-- What is right up to null is right where null is not allowed for. -/
theorem has_of_strict {t : Ts} {j : Json} (h : Has P style t j ∨ False ∧ j = .null) :
    Has P style t j := by
  rcases h with h | ⟨h, -⟩
  · exact h
  · exact h.elim

section Parts

variable {n : Nat} {suffix : String} {ρ : TypeVar → Option PyType} {ν : TypeVar → Option Ts}
  {args : List PyType} {j : Json}

theorem array_has (harray : P.declarations "Array" = []) {t : Ts} {xs : List Json}
    (hn : sizeOf (Json.arr xs) < n)
    (ih : ∀ x ∈ xs, sizeOf x < n → Has P style t x) : Has P style [.app "Array" [t]] (.arr xs) := by
  refine .single (.array harray fun x hx => ih x hx ?_)
  have hsmall := sizeOf_lt_arr hx
  omega

/-- A tuple serialises to a value of its tuple type, if its components do. -/
theorem tuple_has (hargs : ∀ t ∈ args, replaceVars ρ t ≠ .ellipsis)
    (ih : ∀ t ∈ args, ∀ x, sizeOf x < n → Produces P (replaceVars ρ t) x →
      Has P style (getFieldTypeForTs style P.display suffix ν t) x)
    (hn : sizeOf j < n) (hj : Produces P (replaceVars ρ (.tuple args)) j) :
    Has P style (getFieldTypeForTs style P.display suffix ν (.tuple args)) j := by
  rw [replaceVars, replaceVarsList_eq_map] at hj
  rw [getFieldTypeForTs, getFieldTypesForTs_eq_map]
  generalize hts : args.map (replaceVars ρ) = ts at hj
  cases hj with
  | tuple _ hlength hj =>
    subst hts
    refine .single (.tuple (by simpa using hlength) fun i T x hT hx => ?_)
    rw [List.getElem?_map, Option.map_eq_some_iff] at hT
    obtain ⟨t, ht, rfl⟩ := hT
    have hsmall := sizeOf_lt_arr (List.mem_of_getElem? hx)
    exact ih t (List.mem_of_getElem? ht) x (by omega) (hj i _ x (by simp [ht]) hx)
  | variadic _ =>
    have hmem : PyType.ellipsis ∈ args.map (replaceVars ρ) := by simp [hts]
    obtain ⟨t, ht, heq⟩ := List.mem_map.1 hmem
    exact absurd heq (hargs t ht)

theorem union_has {null : Prop} {bars : Bool}
    (ih : ∀ t ∈ args, Produces P (replaceVars ρ t) j →
      Has P style (getFieldTypeForTs style P.display suffix ν t) j ∨
      (null ∨ Nullable P style suffix (.union bars args)) ∧ j = .null)
    (hj : Produces P (replaceVars ρ (.union bars args)) j) :
    Has P style (getFieldTypeForTs style P.display suffix ν (.union bars args)) j ∨ null ∧
      j = .null := by
  rw [replaceVars, replaceVarsList_eq_map] at hj
  cases hj with
  | union hmem hj =>
    obtain ⟨t, ht, rfl⟩ := List.mem_map.1 hmem
    rcases ih t ht hj with hhas | ⟨hnull | hnullable, rfl⟩
    · refine .inl (hhas.mono fun a ha => ?_)
      rw [getFieldTypeForTs, getFieldTypesForTs_eq_map]
      exact List.mem_flatten.2 ⟨_, List.mem_map_of_mem ht, ha⟩
    · exact .inr ⟨hnull, rfl⟩
    · exact .inl (.mk (hnullable ν) .null)

/-- The arguments of a model are values for its parameters. -/
theorem valued_assign {types : PyType → PyType} {names : PyType → Ts}
    {parameters : List TypeVar} (hlength : args.length = parameters.length)
    (hargs : ∀ t ∈ args, types t ≠ .ellipsis)
    (ih : ∀ t ∈ args, ∀ j, sizeOf j < n → Produces P (types t) j → Has P style (names t) j) :
    Valued P style n (assign parameters (args.map types)) (assign parameters (args.map names))
      parameters := by
  intro v hv
  have hindex : parameters.idxOf v < args.length := hlength ▸ List.idxOf_lt_length_iff.2 hv
  have hmem : args[parameters.idxOf v] ∈ args := List.getElem_mem hindex
  simp only [assign, List.getElem?_map, List.getElem?_eq_getElem hindex, Option.map_some,
    Option.getD_some]
  refine ⟨ih _ hmem, fun heq => hargs _ hmem ?_⟩
  exact Option.some.inj heq

/-- A class that is not generic has nothing to bind. -/
theorem bound_closed {m : GenericModel} (hm : m.parameters = []) :
    Bound P style n m ρ fun _ => none := by
  refine ⟨fun _ => none, fun v hv => ?_, fun _ => rfl, fun l _ => ?_⟩
  · simp [hm] at hv
  · cases l <;> rfl

/-- The arguments of a generic class bind its parameters. -/
theorem bound_assign {types : PyType → PyType} {names : PyType → Ts} {m : GenericModel}
    (hlength : args.length = m.parameters.length)
    (hargs : ∀ t ∈ args, types t ≠ .ellipsis)
    (ih : ∀ t ∈ args, ∀ j, sizeOf j < n → Produces P (types t) j → Has P style (names t) j) :
    Bound P style n m (assign m.parameters (args.map types))
      (assign m.parameterNames (args.map names)) := by
  refine ⟨_, valued_assign hlength hargs ih, fun hm => ?_, fun l hl =>
    m.agrees_of_leafKept (by simpa using hlength) hl⟩
  obtain rfl : args = [] := by simpa [hm] using hlength
  funext v
  simp [assign]

theorem Bound.ne_ellipsis {m : GenericModel} {τ : String → Option Ts} {t : PyType}
    (hbound : Bound P style n m ρ τ) (hscope : InScope m suffix t) (ht : t ≠ .ellipsis) :
    replaceVars ρ t ≠ .ellipsis := by
  obtain ⟨ν, hvalued, -⟩ := hbound
  exact replaceVars_ne_ellipsis ht fun v hv => (hvalued v (hscope.1 v hv)).2

section Members

variable {Admitted : String → Cls → Prop} (hright : RightBelow P style Admitted n)
  {m : GenericModel} {τ : String → Option Ts} {interface : String}

include hright in
/-- A regular type in the interface of a class has what it serialises to in the class. -/
theorem Bound.has (hbound : Bound P style n m ρ τ) {t : PyType} (hscope : InScope m suffix t)
    (ht : Regular P style Admitted False suffix t) (hn : sizeOf j < n)
    (hj : Produces P (replaceVars ρ t) j) :
    Has P style (subst τ (getFieldTypeForTs style P.display suffix (fun _ => none) t)) j := by
  obtain ⟨ν, hvalued, hnone, hagrees⟩ := hbound
  obtain ⟨hknown, hclosed | ⟨rfl, hleaves⟩⟩ := hscope
  · rw [hnone hclosed, subst_none]
    refine hright ht (fun v hv => ?_) hn hj
    have hparameter := hknown v hv
    simp [hclosed] at hparameter
  · rw [subst_of_agrees style P.display τ ν t fun l hl => hagrees l (hleaves l hl)]
    exact hright ht (hvalued.mono hknown) hn hj

include hright in
/-- What the parameters of a class stand for below regular bases, by induction on these. -/
theorem Bound.bases (hbound : Bound P style n m ρ τ) {bases : List Base}
    (hbases : RegularBases P style Admitted interface m bases) :
    Bound P style n (scopeOf m bases) (boundTypes ρ bases)
      (boundNames P style interface τ bases) := by
  induction bases with
  | nil => exact hbound
  | cons b rest ih =>
    obtain ⟨-, -, hlength, hargs, hrest⟩ := hbases
    have hheir := ih hrest
    by_cases hempty : b.args = []
    · have hparameters : b.parameters = [] := by simpa [hempty] using hlength.symm
      have hnames : boundNames P style interface τ (b :: rest) = fun _ => none := by
        funext v
        simp [boundNames, hempty, assign]
      rw [hnames]
      exact bound_closed hparameters
    · have htypes : boundTypes ρ (b :: rest) =
          assign b.parameters (b.args.map (replaceVars (boundTypes ρ rest))) := by
        simp [boundTypes, hempty]
      rw [htypes]
      refine bound_assign hlength (fun t ht => ?_) fun t ht x hx hj => ?_
      · exact hheir.ne_ellipsis (hargs t ht).1 (hargs t ht).2.ne_ellipsis
      · exact hheir.has hright (hargs t ht).1 (hargs t ht).2 hx hj

include hright in
/-- A member of a regular model has what its field serialises to. -/
theorem member_has (hbound : Bound P style n m ρ τ) {fields : List Field}
    (hmodel : RegularModel P style Admitted interface m fields) {f : Field} (hf : f ∈ fields)
    (hserialised : f.serialised = true) (hn : sizeOf j < n)
    (hj : Produces P (replaceVars (boundTypes ρ f.bases) f.annotation) j) :
    Has P style (memberType P style interface τ f) j := by
  have hscope := hbound.bases hright (hmodel.bases f hf hserialised)
  exact hscope.has hright (hmodel.known f hf hserialised) (hmodel.types f hf hserialised) hn hj

include hright in
/-- An instance of a generic model has the fields of the interface, with the arguments put for the
variables. -/
theorem model_has {c : Cls} {parameters : List TypeVar} {fields : List Field}
    (hc : P.classes c.ref = .model parameters fields) (hsplit : c.split = false)
    (hnamed : Named P "" c)
    (hlength : args.length = parameters.length)
    (hmodel : RegularModel P style Admitted "" (genericModel c parameters fields) fields)
    (hargs : ∀ t ∈ args, replaceVars ρ t ≠ .ellipsis)
    (ih : ∀ t ∈ args, ∀ x, sizeOf x < n → Produces P (replaceVars ρ t) x →
      Has P style (getFieldTypeForTs style P.display suffix ν t) x)
    (hn : sizeOf j ≤ n) (hj : Produces P (replaceVars ρ (.model c args)) j) :
    Has P style (getFieldTypeForTs style P.display suffix ν (.model c args)) j := by
  rw [replaceVars, replaceVarsList_eq_map] at hj
  rw [getFieldTypeForTs, getFieldTypesForTs_eq_map]
  have hhead : c.headName (P.display c args) suffix = c.name := by simp [Cls.headName, hsplit]
  have hdeclared : P.declaration c.name = some (c, "") := by simpa [hsplit] using hnamed.2
  rw [hhead]
  cases hj with
  | model values hc' hvalues =>
    cases hc.symm.trans hc'
    have hbound := bound_assign (m := genericModel c parameters fields) hlength hargs ih
    have hmember (f : Field) (hf : f ∈ fields) (hserialised : f.serialised = true) :=
      member_has hright hbound hmodel hf hserialised
        (Nat.lt_of_lt_of_le (sizeOf_lt_entries hf hserialised) hn) (hvalues f hf hserialised)
    have hentries := entries_has hmodel.toRegularFields hmember
    exact .single (.generic hdeclared hc (by simpa using hlength) hentries.1 hentries.2)

include hright in
/-- An instance of a class has the type that is declared for the class. -/
theorem class_has {c : Cls} (hregular : RegularClass P style Admitted suffix c)
    (hplain : ∀ parameters fields, P.classes c.ref = .model parameters fields → parameters = [])
    (hn : sizeOf j ≤ n) (hj : Produces P (.cls c) j) : Has P style [.name (c.tsName suffix)] j := by
  obtain ⟨hnamed, hclass⟩ := hregular
  cases hj with
  | enum hc hm =>
    rw [hc] at hclass
    obtain ⟨rfl, hsplit, hmembers⟩ := hclass
    obtain ⟨hjson, htext⟩ := hmembers _ hm
    rw [hjson]
    exact .single (.enum (by simpa [hsplit] using hnamed.2) hc hm (quoted_plain htext))
  | @plain _ parameters fields values hc hvalues =>
    obtain rfl := hplain parameters fields hc
    rw [hc] at hclass
    have hmember (f : Field) (hf : f ∈ fields) (hserialised : f.serialised = true) :=
      member_has hright (bound_closed rfl) hclass hf hserialised
        (Nat.lt_of_lt_of_le (sizeOf_lt_entries hf hserialised) hn) (hvalues f hf hserialised)
    have hentries := entries_has hclass.toRegularFields hmember
    exact .single (.interface hnamed.2 hc hentries.1 hentries.2)

end Members

end Parts

theorem clean_name {n : String} (hn : IsWord n.toList) :
    CleanAtom (.name n) := by simpa only [CleanAtom] using hn

theorem clean_array {t : Ts} (ht : CleanType t) : CleanType [.app "Array" [t]] :=
  ⟨by decide, by simp, ht, trivial⟩

theorem clean_key {key : Ts} (hkey : IsKey key) : CleanType key := by
  refine cleanType_iff.2 ⟨hkey.1, fun a ha => ?_⟩
  rcases hkey.2 a ha with rfl | rfl <;> exact clean_name (by decide)

theorem clean_flatten {ts : List Ts} (hne : ts ≠ []) (hts : ∀ t ∈ ts, CleanType t) :
    CleanType ts.flatten := by
  rw [cleanType_iff]
  constructor
  · obtain ⟨t, ht⟩ := List.exists_mem_of_ne_nil ts hne
    exact fun hnil => (cleanType_iff.1 (hts t ht)).1 (List.flatten_eq_nil_iff.1 hnil t ht)
  · intro a ha
    obtain ⟨t, ht, hat⟩ := List.mem_flatten.1 ha
    exact (cleanType_iff.1 (hts t ht)).2 a hat

theorem clean_literal {value : LiteralValue} (hvalue : RegularLiteral P value) :
    CleanAtom (parseLiteralValue style value) := by
  cases value with
  | none => exact clean_name (by decide)
  | enumMember c name =>
    obtain ⟨hclass, hname, -⟩ := hvalue
    cases style with
    | enum => exact ⟨hclass, hname⟩
    | const => exact ⟨hclass, hname⟩
  | str s => exact hvalue
  | float repr => exact hvalue
  | bool b => cases b <;> exact clean_name (by decide)
  | int n => exact isNumber_toString n
  | other => exact clean_name (by decide)

section Run

variable {Admitted : String → Cls → Prop}

/-- A value that a regular type serialises to belongs to the TypeScript type for it. -/
theorem regular_has (hclasses : ∀ suffix c, Admitted suffix c →
    RegularClass P style Admitted suffix c) (n : Nat) :
    ∀ {null : Prop} {suffix : String} {t : PyType}, Regular P style Admitted null suffix t →
    ∀ {ρ : TypeVar → Option PyType} {ν : TypeVar → Option Ts}
    {j : Json}, Valued P style n ρ ν (typeVars t) →
      sizeOf j < n → Produces P (replaceVars ρ t) j →
      Has P style (getFieldTypeForTs style P.display suffix ν t) j ∨ null ∧ j = .null := by
  -- classes may mention each other, so a class is entered with the smaller values of its fields
  induction n with
  | zero =>
    intro null suffix t _ ρ ν j _ hn _
    exact absurd hn (Nat.not_lt_zero _)
  | succ n ihn =>
    have hright : RightBelow P style Admitted n := fun ht _ _ _ hvars hn hj =>
      has_of_strict (ihn ht hvars hn hj)
    intro null suffix t h
    induction h with
    | scalar hfloat hobject =>
      intro ρ ν j _ _ hj
      exact .inl (scalar_has hfloat hobject hj)
    | float hnull =>
      intro ρ ν j _ _ hj
      exact (float_has hj).imp_right fun heq => ⟨hnull, heq⟩
    | @typeVar _ _ v _ _ =>
      intro ρ ν j hvars hn hj
      exact .inl ((hvars v (by simp [typeVars])).1 j hn hj)
    | wide _ hwide _ =>
      intro ρ ν j _ _ _
      exact .inl (wide_has hwide ν j)
    | root _ ih =>
      intro ρ ν j hvars hn hj
      cases hj with
      | root hj => exact ih hvars hn hj
    | list harray _ ih =>
      intro ρ ν j hvars hn hj
      cases hj with
      | list hj =>
        exact .inl (array_has harray hn fun x hx hsmall =>
        has_of_strict (ih hvars hsmall (hj x hx)))
    | frozenset harray _ ih =>
      intro ρ ν j hvars hn hj
      cases hj with
      | frozenset hj =>
        exact .inl (array_has harray hn fun x hx hsmall =>
        has_of_strict (ih hvars hsmall (hj x hx)))
    | tuple hargs ih =>
      intro ρ ν j hvars hn hj
      have hof {t : PyType} (ht : t ∈ _) : Valued P style (n + 1) ρ ν (typeVars t) :=
        hvars.mono fun v hv => mem_typeVarsList ht hv
      refine .inl (tuple_has (fun t ht => ?_) (fun t ht x hx hj => ?_) hn hj)
      · exact replaceVars_ne_ellipsis (hargs t ht).ne_ellipsis fun v hv => (hof ht v hv).2
      · exact has_of_strict (ih t ht (hof ht) hx hj)
    | dict hkey _ ih =>
      intro ρ ν j hvars hn hj
      cases hj with
      | dict hj =>
        refine .inl (.single (.index (hkey ν) fun e he => ?_))
        have hsmall := sizeOf_lt_obj he
        exact has_of_strict (ih (hvars.mono (List.subset_append_right ..)) (by omega) (hj e he))
    | literal _ hvalues =>
      intro ρ ν j _ _ hj
      cases hj with
      | literal hv hj => exact .inl (.mk (List.mem_map_of_mem hv) (literal_has (hvalues _ hv) hj))
    | union _ _ ih =>
      intro ρ ν j hvars hn hj
      exact union_has (fun t ht hj =>
        ih t ht (hvars.mono fun v hv => mem_typeVarsList ht hv) hn hj) hj
    | annotated _ ih =>
      intro ρ ν j hvars hn hj
      cases hj with
      | annotated hj => exact ih hvars hn hj
    | validated _ hsub _ ih =>
      intro ρ ν j hvars hn hj
      cases hj with
      | validated hj =>
        exact (ih (hvars.mono (List.subset_append_left ..)) hn hj).imp_left fun hhas =>
          hhas.mono (hsub ν)
    | cls hadmitted hplain =>
      intro ρ ν j _ hn hj
      exact .inl (class_has hright (hclasses _ _ hadmitted) hplain (Nat.lt_succ_iff.1 hn) hj)
    | @model _ _ c parameters fields args hc hadmitted hsplit _ hlength hargs ih =>
      intro ρ ν j hvars hn hj
      have hof {t : PyType} (ht : t ∈ args) : Valued P style (n + 1) ρ ν (typeVars t) :=
        hvars.mono fun v hv => mem_typeVarsList ht hv
      obtain ⟨hnamed, hclass⟩ := hclasses _ _ hadmitted
      rw [hc] at hclass
      simp only [hsplit, Bool.false_eq_true, if_false] at hclass
      refine .inl (model_has hright hc hsplit hnamed hlength hclass ?_ ?_
        (Nat.lt_succ_iff.1 hn) hj)
      · exact fun t ht => replaceVars_ne_ellipsis (hargs t ht).ne_ellipsis fun v hv =>
          (hof ht v hv).2
      · exact fun t ht x hx hj => has_of_strict (ih t ht (hof ht) (Nat.lt_succ_of_lt hx) hj)

/-- The text of a regular type parses to one type. -/
theorem regular_clean {null : Prop} {suffix : String} {t : PyType}
    (h : Regular P style Admitted null suffix t)
    (hnames : ∀ suffix c, Admitted suffix c → Named P suffix c) :
    CleanType (getFieldTypeForTs style P.display suffix (fun _ => none) t) := by
  induction h with
  | @scalar _ _ s _ _ => cases s <;> exact clean_name (by decide)
  | float _ => exact clean_name (by decide)
  | typeVar hword _ => exact clean_name hword
  | wide _ _ hclean => exact hclean
  | root _ ih => exact ih
  | list _ _ ih => exact clean_array ih
  | frozenset _ _ ih => exact clean_array ih
  | tuple _ ih =>
    rw [getFieldTypeForTs, getFieldTypesForTs_eq_map]
    exact cleanTypes_iff.2 (List.forall_mem_map.2 ih)
  | dict hkey _ ih => exact ⟨clean_key (hkey _), ih⟩
  | literal hne hvalues =>
    rw [getFieldTypeForTs, cleanType_iff]
    exact ⟨by simpa using hne, List.forall_mem_map.2 fun v hv => clean_literal (hvalues v hv)⟩
  | union hne _ ih =>
    rw [getFieldTypeForTs, getFieldTypesForTs_eq_map]
    exact clean_flatten (by simpa using hne) (List.forall_mem_map.2 ih)
  | annotated _ ih => exact ih
  | validated _ _ hclean _ => exact hclean
  | cls hadmitted _ => exact (hnames _ _ hadmitted).1
  | model _ hadmitted hsplit hne _ _ ih =>
    rw [getFieldTypeForTs, getFieldTypesForTs_eq_map]
    refine ⟨?_, by simpa using hne, cleanTypes_iff.2 (List.forall_mem_map.2 ih)⟩
    simpa [Cls.headName, hsplit] using (hnames _ _ hadmitted).1

end Run

end Soundness

section Defects

-- What the mapper gets wrong is wrong in every program. In a union another alternative may
-- hide it, so that being regular is not necessary.

/-- A value that is serialised has the type the mapper wrote, where the text parses to one. -/
theorem Described.has {P : Program} {style : EnumStyle} {suffix : String} {t : PyType}
    (h : Described P style suffix t)
    (hclean : CleanType (getFieldTypeForTs style P.display suffix (fun _ => none) t))
    {j : Json} (hj : Produces P t j) :
    Has P style (getFieldTypeForTs style P.display suffix (fun _ => none) t) j := by
  obtain ⟨ts, hreads, hall⟩ := h
  obtain rfl := hreads.unique (reads_clean hclean)
  exact hall j hj

variable (P : Program) (style : EnumStyle) (suffix : String)

/-- The empty tuple does not belong to a tuple of two elements. -/
theorem variadic_undescribed {t : PyType}
    (hclean : CleanType (getFieldTypeForTs style P.display suffix (fun _ => none) t)) :
    ¬ Described P style suffix (.tuple [t, .ellipsis]) := by
  intro h
  cases h.has ⟨hclean, clean_name (by decide), trivial⟩
    (.variadic (by simp) : Produces P _ (.arr [])) with
  | mk ha hj =>
    obtain rfl := List.mem_singleton.1 ha
    cases hj with
    | tuple hlength _ => cases hlength

theorem null_atom {a : Atom} (h : HasAtom P style a .null) :
    a ∈ [.name "any", .name "unknown", .name "null"] := by
  cases h <;> simp

/-- NaN serialises to null, which is no number. -/
theorem float_undescribed : ¬ Described P style suffix (.scalar .float) := by
  intro h
  cases h.has (clean_name (by decide)) .notFinite with
  | mk ha hj =>
    obtain rfl := List.mem_singleton.1 ha
    exact absurd (null_atom P style hj) (by simp [Scalar.ts])

/-- A `StrEnum` is declared as an interface, which has no strings. -/
theorem derivedEnum_undescribed {c : Cls} {members : List EnumMember}
    (hc : P.classes c.ref = .enum false members)
    (hnamed : Named P suffix c) {m : EnumMember} (hm : m ∈ members) {s : String}
    (hjson : m.json = .str s) :
    ¬ Described P style suffix (.cls c) := by
  intro h
  have hstring := h.has (clean_name hnamed.1) (.enum hc hm)
  rw [hjson] at hstring
  have hword : c.tsName suffix ∉ keywords := by
    intro hmem
    cases (P.declaration_keyword hmem).symm.trans hnamed.2
  cases hstring with
  | mk ha hj =>
    obtain rfl := List.mem_singleton.1 ha
    generalize hn : Atom.name (c.tsName suffix) = a at hj
    cases hj with
    | enum hd hc' =>
      cases hn
      obtain ⟨rfl, -⟩ := Prod.mk.inj (Option.some.inj (hnamed.2.symm.trans hd))
      cases hc.symm.trans hc'
    | unknown | any | string =>
      have hkeyword := (Atom.name.inj hn).symm
      exact hword (hkeyword ▸ by decide)
    | literalStr | member | typeofMember => cases hn

/-- The comment of a set swallows what stands behind the type. -/
theorem set_undescribed {t : PyType}
    (hclean : CleanType (getFieldTypeForTs style P.display suffix (fun _ => none) t)) :
    ¬ Described P style suffix (.set t) := by
  rintro ⟨ts, hreads, -⟩
  exact set_swallows hclean ts hreads

end Defects

section Forest

def tree : Cls := ⟨0, "Tree", false⟩

def color : Cls := ⟨1, "Color", false⟩

def paged : Cls := ⟨2, "Page", false⟩

def pagedOfColor : Base := { cls := paged, parameters := [typeVarT], args := [.cls color] }

def treeFields : List Field :=
  [{ name := "left_tree"
     annotation := .union true [.cls tree, .scalar .noneType]
     serializationAlias := some "leftTree"
     hasDefault := true },
    { name := "weight"
      annotation := .union true [.annotated (.scalar .float), .scalar .noneType] },
    { name := "color", annotation := .cls color },
    { name := "items", annotation := .list (.typeVar typeVarT), bases := [pagedOfColor] },
    { name := "size", annotation := .scalar .int, property := true }]

def pagedFields : List Field := [{ name := "items", annotation := .list (.typeVar typeVarT) }]

/-- `Tree`, which is recursive and derived from `Page[Color]`, an enumeration `Color` and a generic
`Page`. -/
def forest : Program where
  classes := fun
    | 0 => .model [] treeFields
    | 1 => .enum true [⟨"RED", .str "red", "red"⟩]
    | _ => .model [typeVarT] pagedFields
  declared := [tree, color, paged]
  display := fun c _ => c.name
  title := ClientRoutes.capitalize
  byAlias := true

def InForest (suffix : String) (c : Cls) : Prop := suffix = "" ∧ c ∈ forest.declared

theorem paged_parameterNames (fields : List Field) :
    (genericModel paged [typeVarT] fields).parameterNames = ["T"] := by
  simp [GenericModel.parameterNames, genericModel, typeVarT]

theorem paged_inScope (fields : List Field) :
    InScope (genericModel paged [typeVarT] fields) "" (.list (.typeVar typeVarT)) := by
  refine ⟨by simp [typeVars, genericModel], .inr ⟨rfl, fun l hl => ?_⟩⟩
  simp only [leaves, List.mem_cons, List.not_mem_nil, or_false] at hl
  rcases hl with rfl | rfl
  · rw [GenericModel.LeafKept, paged_parameterNames]
    decide
  · rw [GenericModel.LeafKept, paged_parameterNames]
    rfl

theorem tree_regularFields : RegularFields forest "" treeFields where
  keys := by
    simp only [treeFields, List.forall_mem_cons, List.not_mem_nil, false_implies,
      implies_true, and_true]
    decide
  apart := by
    -- the renamed keys are all different
    intro f hf _ g hg hkey
    simp only [treeFields, List.mem_cons, List.not_mem_nil, or_false] at hf hg
    rcases hf with rfl | rfl | rfl | rfl | rfl <;> rcases hg with rfl | rfl | rfl | rfl | rfl <;>
      first | rfl | exact absurd hkey (by decide)
  absent := by simp [treeFields]

theorem regular_or_none {t : PyType}
    (h : ∀ null : Prop, null → Regular forest .enum InForest null "" t) :
    Regular forest .enum InForest False "" (.union true [t, .scalar .noneType]) := by
  have hnullable : Nullable forest .enum "" (.union true [t, .scalar .noneType]) := by
    intro mapping
    simp [getFieldTypeForTs, getFieldTypesForTs, Scalar.ts]
  refine .union (by simp) ?_
  simp only [List.forall_mem_cons, List.not_mem_nil, false_implies, implies_true, and_true]
  exact ⟨h _ (.inr hnullable), .scalar (by decide) (by decide)⟩

theorem regular_tree (null : Prop) : Regular forest .enum InForest null "" (.cls tree) := by
  refine .cls ⟨rfl, by simp [forest]⟩ fun _ _ hc => ?_
  cases hc
  rfl

theorem regular_color : Regular forest .enum InForest False "" (.cls color) := by
  refine .cls ⟨rfl, by simp [forest]⟩ fun _ _ hc => ?_
  cases hc

theorem regular_items : Regular forest .enum InForest False "" (.list (.typeVar typeVarT)) :=
  .list (by decide) (.typeVar (by decide) (by decide))

theorem pagedOfColor_regular {m : GenericModel} (hm : m.parameters = []) :
    RegularBases forest .enum InForest "" m [pagedOfColor] := by
  refine ⟨⟨by decide, by decide⟩, fun _ => rfl, rfl, ?_, trivial⟩
  simp only [pagedOfColor, List.forall_mem_cons, List.not_mem_nil, false_implies, implies_true,
    and_true]
  exact ⟨⟨by simp [typeVars], .inl hm⟩, regular_color⟩

theorem tree_regular : RegularClass forest .enum InForest "" tree := by
  refine ⟨⟨by decide, by decide⟩, ?_⟩
  show RegularModel forest .enum InForest "" (genericModel tree [] treeFields) treeFields
  have hclosed (t : PyType) (ht : typeVars t = []) :
      InScope (genericModel tree [] treeFields) "" t := ⟨by simp [ht], .inl rfl⟩
  refine { tree_regularFields with bases := ?_, known := ?_, types := ?_ }
  · simp only [treeFields, List.forall_mem_cons, List.not_mem_nil, false_implies, implies_true,
      and_true, forall_const]
    exact ⟨trivial, trivial, trivial, pagedOfColor_regular rfl, trivial⟩
  · simp only [treeFields, List.forall_mem_cons, List.not_mem_nil, false_implies, implies_true,
      and_true, forall_const, Field.suffix_empty]
    exact ⟨hclosed _ rfl, hclosed _ rfl, hclosed _ rfl, paged_inScope [], hclosed _ rfl⟩
  · simp only [treeFields, List.forall_mem_cons, List.not_mem_nil, false_implies, implies_true,
      and_true, forall_const, Field.suffix_empty]
    exact ⟨regular_or_none fun null _ => regular_tree null,
      regular_or_none fun _ hnull => .annotated (.float hnull),
      regular_color, regular_items, .scalar (by decide) (by decide)⟩

theorem color_regular : RegularClass forest .enum InForest "" color := by
  refine ⟨⟨by decide, by decide⟩, rfl, rfl, ?_⟩
  simp only [List.forall_mem_cons, List.not_mem_nil, false_implies, implies_true, and_true]
  exact ⟨rfl, by simp [IsPlain, isBreak]⟩

theorem paged_regular : RegularClass forest .enum InForest "" paged := by
  refine ⟨⟨by decide, by decide⟩, ?_⟩
  show RegularModel forest .enum InForest "" (genericModel paged [typeVarT] pagedFields) pagedFields
  constructor
  · constructor <;> simp [pagedFields, Program.key, Program.rename, Program.entry]
  · simp [pagedFields, RegularBases]
  · simpa [pagedFields, scopeOf] using paged_inScope pagedFields
  · simpa [pagedFields] using regular_items

theorem forest_regular :
    ∀ suffix c, InForest suffix c → RegularClass forest .enum InForest suffix c := by
  rintro _ c ⟨rfl, hc⟩
  simp only [forest, List.mem_cons, List.not_mem_nil, or_false] at hc
  rcases hc with rfl | rfl | rfl
  · exact tree_regular
  · exact color_regular
  · exact paged_regular

theorem regular_page : Regular forest .enum InForest False "" (.model paged [.cls tree]) := by
  have hclass : forest.classes paged.ref = .model [typeVarT] pagedFields := rfl
  exact .model hclass ⟨rfl, by simp [forest]⟩ rfl (by simp) rfl (by simpa using regular_tree False)

/-- An alternative `list[int]` hides what is wrong with `tuple[int, ...]`. -/
theorem hidden_variadic_described :
    Described forest .enum ""
      (.union true [.tuple [.scalar .int, .ellipsis], .list (.scalar .int)]) := by
  have hclean : CleanType [.tuple [[.name "number"], [.name "unknown"]],
      .app "Array" [[.name "number"]]] :=
    ⟨⟨clean_name (by decide), clean_name (by decide), trivial⟩,
      clean_array (clean_name (by decide))⟩
  refine ⟨_, reads_clean hclean, fun j hj => ?_⟩
  have harray {xs : List Json} (hxs : ∀ x ∈ xs, Produces forest (.scalar .int) x) :
      HasAtom forest .enum (.app "Array" [[.name "number"]]) (.arr xs) :=
    .array (by decide) fun x hx => scalar_has (by decide) (by decide) (hxs x hx)
  have hmem : Atom.app "Array" [[.name "number"]] ∈
      [.tuple [[.name "number"], [.name "unknown"]], .app "Array" [[.name "number"]]] := by simp
  cases hj with
  | union ht hj =>
    simp only [List.mem_cons, List.not_mem_nil, or_false] at ht
    rcases ht with rfl | rfl
    · cases hj with
      | tuple hellipsis _ _ => simp at hellipsis
      | variadic hxs => exact .mk hmem (harray hxs)
    · cases hj with
      | list hxs => exact .mk hmem (harray hxs)

end Forest

end JsonTypes
