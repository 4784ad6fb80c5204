import Mathlib.Data.List.Sort
import Mathlib.Data.String.Basic
import Mathlib.Tactic.Common
import Jararaca.TypeScriptTypes

/-!
# Generic models and their arguments

A generic model is declared by `parse_single_typescript_interface`, which sorts the names of
its type variables, and used through `get_field_type_for_ts`, which lists the arguments in the
order of the class. TypeScript puts the arguments for the names by position: here is when
that gives a field the type it has in Python.
-/
namespace GenericModels

open TypeScriptTypes

section Substitution

variable (σ : String → Option Ts)

mutual

/-- An alternative with types put for the names of parameters. A parameter is not generic:
TypeScript reports an application of one and goes on with `any`. -/
def substAtom : Atom → Ts
  | .name n => (σ n).getD [.name n]
  | .app n args => if (σ n).isSome then [.name "any"] else [.app n (substArgs args)]
  | .setOf element => if (σ "Array").isSome then [.name "any"] else [.setOf (subst element)]
  | .tuple elements => [.tuple (substArgs elements)]
  | .index key value => [.index (subst key) (subst value)]
  | .str value => [.str value]
  | .num text => [.num text]
  | .member enum name => [.member enum name]
  | .typeofMember enum name => [.typeofMember enum name]

def subst : List Atom → Ts
  | [] => []
  | a :: rest => substAtom a ++ subst rest

def substArgs : List (List Atom) → List Ts
  | [] => []
  | t :: rest => subst t :: substArgs rest

end

theorem subst_append (s t : Ts) : subst σ (s ++ t) = subst σ s ++ subst σ t := by
  induction s with
  | nil => rfl
  | cons a s ih => rw [List.cons_append, subst, subst, ih, List.append_assoc]

theorem subst_flatten (ts : List Ts) : subst σ ts.flatten = (substArgs σ ts).flatten := by
  induction ts with
  | nil => rfl
  | cons t ts ih => rw [List.flatten_cons, subst_append, substArgs, List.flatten_cons, ih]

@[simp] theorem subst_singleton (a : Atom) : subst σ [a] = substAtom σ a := by
  rw [subst, subst, List.append_nil]

theorem subst_app_iff {n : String} {args targs : List Ts} :
    subst σ [.app n args] = [.app n targs] ↔ σ n = none ∧ substArgs σ args = targs := by
  rw [subst_singleton, substAtom]
  cases σ n with
  | none => simp
  | some t => simp

theorem subst_setOf_iff {element t : Ts} :
    subst σ [.setOf element] = [.setOf t] ↔ σ "Array" = none ∧ subst σ element = t := by
  rw [subst_singleton, substAtom]
  cases σ "Array" with
  | none => simp
  | some t => simp

end Substitution

/-- A generic model: its type variables in the order of the class, and its emitted fields. -/
structure GenericModel where
  cls : Cls
  isRoot : Bool := false
  parameters : List TypeVar
  fields : List (String × PyType)

namespace GenericModel

variable (m : GenericModel)

/-- `sorted([arg.__name__ for arg in generic_args])`. -/
def parameterNames : List String :=
  (m.parameters.map TypeVar.name).mergeSort fun a b => decide (a ≤ b)

/-- `Model[A1, ..., An]`. -/
def instantiated (args : List PyType) : PyType :=
  if m.isRoot then .opaqueRoot m.cls args else .model m.cls args

end GenericModel

/-- What TypeScript looks up in a type: a type variable, another name or a generic name. -/
inductive Leaf where
  | var (v : TypeVar)
  | bare (n : String)
  | head (n : String)
  deriving DecidableEq

def literalLeaf : LiteralValue → List Leaf
  | .none => [.bare "null"]
  | .bool value => [.bare (if value then "true" else "false")]
  | .other => [.bare "unknown"]
  | _ => []

mutual

/-- The leaves of a type as an interface without a suffix has it. -/
def leaves : PyType → List Leaf
  | .scalar s => [.bare s.ts]
  | .typeVar v => [.var v]
  | .ellipsis | .opaqueRoot _ _ | .other => [.bare "unknown"]
  | .cls c => [.bare c.name]
  | .model origin args => .head origin.name :: leavesList args
  | .root _ t | .classVar t | .annotated t => leaves t
  | .list t | .frozenset t | .set t => .head "Array" :: leaves t
  | .tuple args | .union _ args => leavesList args
  | .dict key value => leaves key ++ leaves value
  | .literal values => values.flatMap literalLeaf
  | .validated _ input => leaves input

def leavesList : List PyType → List Leaf
  | [] => []
  | t :: rest => leaves t ++ leavesList rest

end

section Agreement

variable (style : EnumStyle) (display : Cls → List PyType → String)
variable (σ : String → Option Ts) (ν : TypeVar → Option Ts)

/-- A leaf means the same with the arguments put for the names and for the variables. -/
def Agrees : Leaf → Prop
  | .var v => (σ v.name).getD [.name v.name] = (ν v).getD [.name v.name]
  | .bare n => (σ n).getD [.name n] = [.name n]
  | .head n => σ n = none

/-- The substitution does not touch literals whose leaves agree. -/
theorem subst_literals {values : List LiteralValue}
    (h : ∀ l ∈ values.flatMap literalLeaf, Agrees σ ν l) :
    subst σ (values.map (parseLiteralValue style)) = values.map (parseLiteralValue style) := by
  induction values with
  | nil => rfl
  | cons value rest ih =>
    simp only [List.flatMap_cons, List.mem_append] at h
    rw [List.map_cons, subst, ih fun l hl => h l (.inr hl)]
    have hvalue : substAtom σ (parseLiteralValue style value) =
        [parseLiteralValue style value] := by
      cases value with
      | none => exact h (.bare "null") (.inl (by simp [literalLeaf]))
      | bool b => exact h (.bare _) (.inl (by simp [literalLeaf]))
      | other => exact h (.bare "unknown") (.inl (by simp [literalLeaf]))
      | enumMember enum name => cases style <;> rfl
      | str value => rfl
      | float repr => rfl
      | int value => rfl
    rw [hvalue, List.singleton_append]

mutual

/-- If the leaves agree, so do the types. -/
theorem subst_of_agrees : ∀ t : PyType, (∀ l ∈ leaves t, Agrees σ ν l) →
    subst σ (getFieldTypeForTs style display "" (fun _ => none) t) =
      getFieldTypeForTs style display "" ν t
  | .scalar s, h => by simpa [getFieldTypeForTs, substAtom, leaves, Agrees] using h
  | .typeVar v, h => by simpa [getFieldTypeForTs, substAtom, leaves, Agrees] using h
  | .ellipsis, h => by simpa [getFieldTypeForTs, substAtom, leaves, Agrees] using h
  | .cls c, h => by simpa [getFieldTypeForTs, substAtom, leaves, Agrees] using h
  | .opaqueRoot c args, h => by simpa [getFieldTypeForTs, substAtom, leaves, Agrees] using h
  | .other, h => by simpa [getFieldTypeForTs, substAtom, leaves, Agrees] using h
  | .model origin args, h => by
    simp only [leaves, List.forall_mem_cons] at h
    simp only [getFieldTypeForTs, Cls.headName_empty]
    exact (subst_app_iff σ).2 ⟨h.1, substArgs_of_agrees args h.2⟩
  | .root c t, h => subst_of_agrees t h
  | .classVar t, h => subst_of_agrees t h
  | .annotated t, h => subst_of_agrees t h
  | .validated t input, h => subst_of_agrees input h
  | .list t, h => by
    simp only [leaves, List.forall_mem_cons] at h
    exact (subst_app_iff σ).2 ⟨h.1, congrArg (fun element => [element]) (subst_of_agrees t h.2)⟩
  | .frozenset t, h => by
    simp only [leaves, List.forall_mem_cons] at h
    exact (subst_app_iff σ).2 ⟨h.1, congrArg (fun element => [element]) (subst_of_agrees t h.2)⟩
  | .set t, h => by
    simp only [leaves, List.forall_mem_cons] at h
    exact (subst_setOf_iff σ).2 ⟨h.1, subst_of_agrees t h.2⟩
  | .tuple args, h => by
    simp only [getFieldTypeForTs, subst_singleton, substAtom]
    rw [substArgs_of_agrees args h]
  | .dict key value, h => by
    simp only [leaves, List.forall_mem_append] at h
    simp only [getFieldTypeForTs, subst_singleton, substAtom]
    rw [subst_of_agrees key h.1, subst_of_agrees value h.2]
  | .literal values, h => subst_literals style σ ν h
  | .union bars args, h => by
    simp only [getFieldTypeForTs]
    rw [subst_flatten, substArgs_of_agrees args h]

theorem substArgs_of_agrees : ∀ ts : List PyType, (∀ l ∈ leavesList ts, Agrees σ ν l) →
    substArgs σ (getFieldTypesForTs style display "" (fun _ => none) ts) =
      getFieldTypesForTs style display "" ν ts
  | [], _ => rfl
  | t :: rest, h => by
    simp only [leavesList, List.forall_mem_append] at h
    simp only [getFieldTypesForTs, substArgs]
    rw [subst_of_agrees t h.1, substArgs_of_agrees rest h.2]

end

-- For the converse the alternatives of a union must not run into each other: arguments of
-- one alternative each keep every type at its length.

def Singles {α : Type} (f : α → Option Ts) : Prop := ∀ k t, f k = some t → t.length = 1

mutual

theorem length_getFieldTypeForTs (hν : Singles ν) : ∀ t : PyType,
    (getFieldTypeForTs style display "" ν t).length =
      (getFieldTypeForTs style display "" (fun _ => none) t).length
  | .typeVar v => by
    cases h : ν v with
    | none => simp [getFieldTypeForTs, h]
    | some t => simpa [getFieldTypeForTs, h] using hν v t h
  | .root _ t => length_getFieldTypeForTs hν t
  | .classVar t => length_getFieldTypeForTs hν t
  | .annotated t => length_getFieldTypeForTs hν t
  | .validated _ input => length_getFieldTypeForTs hν input
  | .union _ args => by
    simp only [getFieldTypeForTs, List.length_flatten]
    rw [lengths_getFieldTypesForTs hν args]
  | .scalar _ | .ellipsis | .cls _ | .model .. | .opaqueRoot .. | .tuple _ | .list _
  | .frozenset _ | .set _
  | .dict .. | .literal _ | .other => rfl

theorem lengths_getFieldTypesForTs (hν : Singles ν) : ∀ ts : List PyType,
    (getFieldTypesForTs style display "" ν ts).map List.length =
      (getFieldTypesForTs style display "" (fun _ => none) ts).map List.length
  | [] => rfl
  | t :: rest => by
    simp only [getFieldTypesForTs, List.map_cons]
    rw [length_getFieldTypeForTs hν t, lengths_getFieldTypesForTs hν rest]

end

theorem length_substAtom (hσ : Singles σ) (a : Atom) : (substAtom σ a).length = 1 := by
  cases a with
  | name n =>
    cases h : σ n with
    | none => simp [substAtom, h]
    | some t => simpa [substAtom, h] using hσ n t h
  | app n args => simp only [substAtom]; split <;> rfl
  | setOf element => simp only [substAtom]; split <;> rfl
  | _ => rfl

theorem length_subst (hσ : Singles σ) (ts : Ts) : (subst σ ts).length = ts.length := by
  induction ts with
  | nil => rfl
  | cons a ts ih =>
    rw [subst, List.length_append, length_substAtom σ hσ, ih, List.length_cons, Nat.add_comm]

/-- The leaves of untouched literals agree. -/
theorem agrees_of_subst_literals (hσ : Singles σ) {values : List LiteralValue}
    (h : subst σ (values.map (parseLiteralValue style)) = values.map (parseLiteralValue style)) :
    ∀ l ∈ values.flatMap literalLeaf, Agrees σ ν l := by
  induction values with
  | nil => simp
  | cons value rest ih =>
    rw [List.map_cons, subst, ← List.singleton_append] at h
    obtain ⟨hvalue, hrest⟩ := List.append_inj h (length_substAtom σ hσ _)
    simp only [List.flatMap_cons, List.forall_mem_append]
    refine ⟨?_, ih hrest⟩
    cases value with
    | none => simpa [literalLeaf, Agrees, parseLiteralValue, substAtom] using hvalue
    | bool b => simpa [literalLeaf, Agrees, parseLiteralValue, substAtom] using hvalue
    | other => simpa [literalLeaf, Agrees, parseLiteralValue, substAtom] using hvalue
    | _ => simp [literalLeaf]

mutual

/-- If substituting in the printed type gives the type printed under the mapping, every leaf
agrees, by recursion on the type. -/
theorem agrees_of_subst (hσ : Singles σ) (hν : Singles ν) : ∀ t : PyType,
    subst σ (getFieldTypeForTs style display "" (fun _ => none) t) =
      getFieldTypeForTs style display "" ν t → ∀ l ∈ leaves t, Agrees σ ν l
  | .scalar s, h => by simpa [getFieldTypeForTs, substAtom, leaves, Agrees] using h
  | .typeVar v, h => by simpa [getFieldTypeForTs, substAtom, leaves, Agrees] using h
  | .ellipsis, h => by simpa [getFieldTypeForTs, substAtom, leaves, Agrees] using h
  | .cls c, h => by simpa [getFieldTypeForTs, substAtom, leaves, Agrees] using h
  | .opaqueRoot c args, h => by simpa [getFieldTypeForTs, substAtom, leaves, Agrees] using h
  | .other, h => by simpa [getFieldTypeForTs, substAtom, leaves, Agrees] using h
  | .root c t, h => agrees_of_subst hσ hν t h
  | .classVar t, h => agrees_of_subst hσ hν t h
  | .annotated t, h => agrees_of_subst hσ hν t h
  | .validated t input, h => agrees_of_subst hσ hν input h
  | .model origin args, h => by
    simp only [getFieldTypeForTs, Cls.headName_empty] at h
    obtain ⟨hhead, hargs⟩ := (subst_app_iff σ).1 h
    rw [leaves, List.forall_mem_cons]
    exact ⟨hhead, agrees_of_flatten hσ hν args (congrArg List.flatten hargs)⟩
  | .list t, h => by
    obtain ⟨hhead, helement⟩ := (subst_app_iff σ).1 h
    rw [leaves, List.forall_mem_cons]
    exact ⟨hhead, agrees_of_subst hσ hν t (List.cons.inj helement).1⟩
  | .frozenset t, h => by
    obtain ⟨hhead, helement⟩ := (subst_app_iff σ).1 h
    rw [leaves, List.forall_mem_cons]
    exact ⟨hhead, agrees_of_subst hσ hν t (List.cons.inj helement).1⟩
  | .set t, h => by
    obtain ⟨hhead, helement⟩ := (subst_setOf_iff σ).1 h
    rw [leaves, List.forall_mem_cons]
    exact ⟨hhead, agrees_of_subst hσ hν t helement⟩
  | .tuple args, h => by
    simp only [getFieldTypeForTs, subst_singleton, substAtom] at h
    exact agrees_of_flatten hσ hν args (congrArg List.flatten (by simpa using h))
  | .dict key value, h => by
    simp only [getFieldTypeForTs, subst_singleton, substAtom, List.cons.injEq, Atom.index.injEq,
      and_true] at h
    simp only [leaves, List.forall_mem_append]
    exact ⟨agrees_of_subst hσ hν key h.1, agrees_of_subst hσ hν value h.2⟩
  | .literal values, h => agrees_of_subst_literals style σ ν hσ h
  | .union bars args, h => by
    simp only [getFieldTypeForTs] at h
    rw [subst_flatten] at h
    exact agrees_of_flatten hσ hν args h

/-- The same for a list of types: the texts are of one length, so they agree one by one. -/
theorem agrees_of_flatten (hσ : Singles σ) (hν : Singles ν) : ∀ ts : List PyType,
    (substArgs σ (getFieldTypesForTs style display "" (fun _ => none) ts)).flatten =
      (getFieldTypesForTs style display "" ν ts).flatten → ∀ l ∈ leavesList ts, Agrees σ ν l
  | [], _ => by simp [leavesList]
  | t :: rest, h => by
    simp only [getFieldTypesForTs, substArgs, List.flatten_cons] at h
    have hlength := (length_subst σ hσ (getFieldTypeForTs style display "" (fun _ => none) t)).trans
      (length_getFieldTypeForTs style display ν hν t).symm
    obtain ⟨hfirst, hrest⟩ := List.append_inj h hlength
    simp only [leavesList, List.forall_mem_append]
    exact ⟨agrees_of_subst hσ hν t hfirst, agrees_of_flatten hσ hν rest hrest⟩

end

end Agreement

section Replacement

variable (style : EnumStyle) (display : Cls → List PyType → String) (ρ : TypeVar → Option PyType)

mutual

/-- An annotation with types put for its variables. -/
def replaceVars : PyType → PyType
  | .typeVar v => (ρ v).getD (.typeVar v)
  | .model origin args => .model origin (replaceVarsList args)
  | .root c t => .root c (replaceVars t)
  | .opaqueRoot c args => .opaqueRoot c (replaceVarsList args)
  | .classVar t => .classVar (replaceVars t)
  | .tuple args => .tuple (replaceVarsList args)
  | .list t => .list (replaceVars t)
  | .frozenset t => .frozenset (replaceVars t)
  | .set t => .set (replaceVars t)
  | .dict key value => .dict (replaceVars key) (replaceVars value)
  | .union bars args => .union bars (replaceVarsList args)
  | .annotated t => .annotated (replaceVars t)
  | .validated t input => .validated (replaceVars t) (replaceVars input)
  | .scalar s => .scalar s
  | .ellipsis => .ellipsis
  | .cls c => .cls c
  | .literal values => .literal values
  | .other => .other

def replaceVarsList : List PyType → List PyType
  | [] => []
  | t :: rest => replaceVars t :: replaceVarsList rest

end

/-- The mapping of the mapper that stands for a replacement. -/
def emitted (v : TypeVar) : Option Ts :=
  (ρ v).map (getFieldTypeForTs style display "" fun _ => none)

mutual

/-- Types put for the variables of an annotation are what the mapper puts for them. -/
theorem getFieldTypeForTs_replaceVars : ∀ t : PyType,
    getFieldTypeForTs style display "" (fun _ => none) (replaceVars ρ t) =
      getFieldTypeForTs style display "" (emitted style display ρ) t
  | .typeVar v => by
    cases h : ρ v with
    | none => simp [replaceVars, getFieldTypeForTs, emitted, h]
    | some t => simp [replaceVars, getFieldTypeForTs, emitted, h]
  | .model origin args => by
    simp [replaceVars, getFieldTypeForTs, getFieldTypesForTs_replaceVars args]
  | .root c t => getFieldTypeForTs_replaceVars t
  | .classVar t => getFieldTypeForTs_replaceVars t
  | .annotated t => getFieldTypeForTs_replaceVars t
  | .validated t input => getFieldTypeForTs_replaceVars input
  | .list t => by simp [replaceVars, getFieldTypeForTs, getFieldTypeForTs_replaceVars t]
  | .frozenset t => by simp [replaceVars, getFieldTypeForTs, getFieldTypeForTs_replaceVars t]
  | .set t => by simp [replaceVars, getFieldTypeForTs, getFieldTypeForTs_replaceVars t]
  | .tuple args => by simp [replaceVars, getFieldTypeForTs, getFieldTypesForTs_replaceVars args]
  | .union _ args => by simp [replaceVars, getFieldTypeForTs, getFieldTypesForTs_replaceVars args]
  | .dict key value => by
    simp [replaceVars, getFieldTypeForTs, getFieldTypeForTs_replaceVars key,
      getFieldTypeForTs_replaceVars value]
  | .scalar _ | .ellipsis | .cls _ | .opaqueRoot .. | .literal _ | .other => rfl

theorem getFieldTypesForTs_replaceVars : ∀ ts : List PyType,
    getFieldTypesForTs style display "" (fun _ => none) (replaceVarsList ρ ts) =
      getFieldTypesForTs style display "" (emitted style display ρ) ts
  | [] => rfl
  | t :: rest => by
    simp [replaceVarsList, getFieldTypesForTs, getFieldTypeForTs_replaceVars t,
      getFieldTypesForTs_replaceVars rest]

end

end Replacement

/-- The value at the position of a key. -/
def assign {α β : Type} [BEq α] (keys : List α) (values : List β) (k : α) : Option β :=
  values[keys.idxOf k]?

/-- The suffixes at which the writers call the mapper. -/
def contextSuffixes : List String := ["", "Input", "Output"]

namespace GenericModel

variable (m : GenericModel)

/-- An annotation mentions a parameter of the model. -/
def Mentions (t : PyType) : Prop := ∃ p ∈ m.parameters, p ∈ typeVars t

/-- A use of the model names a declared interface, and the arguments of the use make of the
annotation `t` in it what they make of it in Python. -/
def KeepsField (style : EnumStyle) (display : Cls → List PyType → String) (suffix : String)
    (mapping : TypeVar → Option Ts) (args : List PyType) (t : PyType) : Prop :=
  let targs := getFieldTypesForTs style display suffix mapping args
  m.parameterNames.Nodup ∧ ∃ interfaceSuffix ∈ m.cls.suffixes,
    getFieldTypeForTs style display suffix mapping (m.instantiated args) =
      [.app (m.cls.name ++ interfaceSuffix) targs] ∧
    subst (assign m.parameterNames targs)
      (getFieldTypeForTs style display interfaceSuffix (fun _ => none) t) =
      getFieldTypeForTs style display interfaceSuffix (assign m.parameters targs) t

/-- Every use of the model keeps its arguments in every field that mentions a parameter. -/
def KeepsArguments : Prop :=
  ∀ style display, ∀ suffix ∈ contextSuffixes, ∀ mapping args, args.length = m.parameters.length →
    ∀ field ∈ m.fields, m.Mentions field.2 → m.KeepsField style display suffix mapping args field.2

/-- A variable has the position of its name, and another name is not one of a parameter. -/
def LeafKept : Leaf → Prop
  | .var v => m.parameterNames.idxOf v.name = m.parameters.idxOf v
  | .bare n => n ∉ m.parameterNames
  | .head n => n ∉ m.parameterNames

def InOrder : Prop :=
  ∀ field ∈ m.fields, m.Mentions field.2 →
    m.isRoot = false ∧ m.cls.split = false ∧ m.parameterNames.Nodup ∧
    ∀ l ∈ leaves field.2, m.LeafKept l

theorem length_parameterNames : m.parameterNames.length = m.parameters.length := by
  rw [parameterNames, List.length_mergeSort, List.length_map]

theorem assign_parameterNames_eq_none {targs : List Ts}
    (hlength : targs.length = m.parameters.length) {n : String}
    (h : n ∉ m.parameterNames) : assign m.parameterNames targs n = none := by
  rw [assign, List.idxOf_eq_length h, List.getElem?_eq_none]
  rw [hlength, length_parameterNames]

theorem agrees_of_leafKept {targs : List Ts}
    (hlength : targs.length = m.parameters.length) {l : Leaf}
    (h : m.LeafKept l) : Agrees (assign m.parameterNames targs) (assign m.parameters targs) l := by
  cases l with
  | var v =>
    simp only [Agrees, assign, show m.parameterNames.idxOf v.name = m.parameters.idxOf v from h]
  | bare n => simp only [Agrees, m.assign_parameterNames_eq_none hlength h, Option.getD_none]
  | head n => exact m.assign_parameterNames_eq_none hlength h

/-- A field is kept when every leaf of its type is. -/
theorem keepsField_of_leafKept {t : PyType} (hroot : m.isRoot = false)
    (hsplit : m.cls.split = false)
    (hnames : m.parameterNames.Nodup) (hleaves : ∀ l ∈ leaves t, m.LeafKept l) (style : EnumStyle)
    (display : Cls → List PyType → String) (suffix : String) (mapping : TypeVar → Option Ts)
    {args : List PyType}
    (hargs : args.length = m.parameters.length) :
    m.KeepsField style display suffix mapping args t := by
  refine ⟨hnames, "", by simp [Cls.suffixes, hsplit], ?_, ?_⟩
  · simp [instantiated, hroot, getFieldTypeForTs, Cls.headName, hsplit]
  · exact subst_of_agrees style display _ _ t fun l hl =>
      m.agrees_of_leafKept ((length_getFieldTypesForTs ..).trans hargs) (hleaves l hl)

/-- Arguments that are all different, of one alternative each. -/
def probe (i : Nat) : PyType := .tuple (List.replicate i .ellipsis)

def probeTs (i : Nat) : Ts := [.tuple (List.replicate i [.name "unknown"])]

def probes (n : Nat) : List PyType := (List.range n).map probe

/-- The probes print as themselves, whatever the mapping. -/
theorem getFieldTypesForTs_probes (style : EnumStyle) (display : Cls → List PyType → String)
    (suffix : String)
    (mapping : TypeVar → Option Ts) (n : Nat) :
    getFieldTypesForTs style display suffix mapping (probes n) = (List.range n).map probeTs := by
  rw [getFieldTypesForTs_eq_map, probes, List.map_map]
  congr 1
  funext i
  simp [probe, probeTs, getFieldTypeForTs, getFieldTypesForTs_eq_map]

theorem getElem?_probes (n i : Nat) :
    ((List.range n).map probeTs)[i]? = if i < n then some (probeTs i) else none := by
  split <;> simp_all

/-- The probes are one token each. -/
theorem singles_assign {α : Type} [BEq α] (keys : List α) (n : Nat) :
    Singles (assign keys ((List.range n).map probeTs)) := by
  intro k t h
  rw [assign, getElem?_probes] at h
  split at h
  · cases h
    rfl
  · cases h

/-- A leaf that agrees on the probes is kept for all arguments. -/
theorem leafKept_of_agrees {l : Leaf}
    (h : Agrees (assign m.parameterNames ((List.range m.parameters.length).map probeTs))
      (assign m.parameters ((List.range m.parameters.length).map probeTs)) l) : m.LeafKept l := by
  -- a name of a parameter would stand for a tuple
  have hbound (n : String) (hn : n ∈ m.parameterNames) :
      assign m.parameterNames ((List.range m.parameters.length).map probeTs) n =
        some (probeTs (m.parameterNames.idxOf n)) := by
    rw [assign, getElem?_probes, if_pos]
    rw [← length_parameterNames]
    exact List.idxOf_lt_length_iff.2 hn
  cases l with
  | var v =>
    have hi : m.parameterNames.idxOf v.name ≤ m.parameters.length := by
      rw [← length_parameterNames]
      exact List.idxOf_le_length
    have hj : m.parameters.idxOf v ≤ m.parameters.length := List.idxOf_le_length
    simp only [Agrees, assign, getElem?_probes] at h
    simp only [LeafKept]
    generalize m.parameterNames.idxOf v.name = i at *
    generalize m.parameters.idxOf v = j at *
    split at h <;> split at h
    · simp only [Option.getD_some, probeTs, List.cons.injEq, Atom.tuple.injEq, and_true] at h
      simpa using congrArg List.length h
    · simp [probeTs] at h
    · simp [probeTs] at h
    · omega
  | bare n =>
    intro hn
    simp [Agrees, hbound n hn, probeTs] at h
  | head n =>
    intro hn
    simp [Agrees, hbound n hn] at h

/-- A suffixed name is another name. -/
theorem append_suffix_ne (name : String) {suffix : String} (h : suffix ∈ ["Input", "Output"]) :
    name ++ suffix ≠ name := by
  intro hname
  have hlength := congrArg String.length hname
  rw [String.length_append] at hlength
  simp only [List.mem_cons, List.not_mem_nil, or_false] at h
  rcases h with rfl | rfl
  · simp at hlength
  · simp at hlength

/-- A model keeps its arguments exactly when, for every field that mentions a parameter, the
model is neither a root model nor split, its names are different, each variable of the field
has the position of its name in the alphabet, and no other name in it is that of a parameter. -/
theorem keeps_arguments_iff_in_order : m.KeepsArguments ↔ m.InOrder := by
  constructor
  · intro h field hfield hmentions
    obtain ⟨hnames, interfaceSuffix, hsuffix, huse, htype⟩ :=
      h .enum (fun c _ => c.name) "" (by simp [contextSuffixes]) (fun _ => none)
        (probes m.parameters.length)
        (by simp [probes]) field hfield hmentions
    have hroot : m.isRoot = false := by
      by_contra hroot
      rw [Bool.not_eq_false] at hroot
      simp [instantiated, hroot, getFieldTypeForTs] at huse
    have hsplit : m.cls.split = false := by
      by_contra hsplit
      rw [Bool.not_eq_false] at hsplit
      simp only [Cls.suffixes, hsplit, if_true] at hsuffix
      simp only [instantiated, hroot, getFieldTypeForTs, Cls.headName_empty,
        Bool.false_eq_true, if_false,
        List.cons.injEq, Atom.app.injEq, and_true] at huse
      exact append_suffix_ne _ hsuffix huse.symm
    obtain rfl : interfaceSuffix = "" := by simpa [Cls.suffixes, hsplit] using hsuffix
    refine ⟨hroot, hsplit, hnames, fun l hl => m.leafKept_of_agrees ?_⟩
    rw [getFieldTypesForTs_probes] at htype
    exact agrees_of_subst .enum _ _ _ (singles_assign _ _) (singles_assign _ _) field.2 htype l hl
  · intro h style display suffix _ mapping args hargs field hfield hmentions
    obtain ⟨hroot, hsplit, hnames, hleaves⟩ := h field hfield hmentions
    exact m.keepsField_of_leafKept hroot hsplit hnames hleaves style display suffix mapping hargs

end GenericModel

def typeVarT : TypeVar := ⟨0, "T"⟩

def typeVarK : TypeVar := ⟨1, "K"⟩

/-- `class Page(BaseModel, Generic[T, K])` with `items: list[T]` and `next_key: K`. -/
def page : GenericModel where
  cls := ⟨0, "Page", false⟩
  parameters := [typeVarT, typeVarK]
  fields := [("items", .list (.typeVar typeVarT)), ("next_key", .typeVar typeVarK)]

theorem page_parameterNames : page.parameterNames = ["K", "T"] := by
  have horder : ¬ ("T" : String) ≤ "K" := by decide
  simp [GenericModel.parameterNames, page, typeVarT, typeVarK, List.mergeSort,
    List.MergeSort.Internal.splitInTwo, horder]

/-- `Page[int, str]` is `Page<number, string>` of an `interface Page<K, T>`: its items are
strings. -/
theorem page_swaps_arguments : ¬ page.KeepsArguments := by
  intro h
  obtain ⟨-, interfaceSuffix, -, -, htype⟩ :=
    h .enum (fun c _ => c.name) "" (by simp [contextSuffixes]) (fun _ => none)
      [.scalar .int, .scalar .str] rfl
      ("items", .list (.typeVar typeVarT)) (by simp [page])
      ⟨typeVarT, by simp [page], by simp [typeVars]⟩
  rw [page_parameterNames] at htype
  simp [getFieldTypeForTs, getFieldTypesForTs, assign, page, typeVarT, substAtom, substArgs,
    Scalar.ts] at htype

end GenericModels
