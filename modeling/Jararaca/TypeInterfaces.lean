import Mathlib.Tactic.Common
import Mathlib.Order.Lattice
import Jararaca.TypeScriptTypes
import Jararaca.Unfoldings
import Jararaca.WorkLists

/-!
# The interfaces of a microservice

`write_type_interfaces` of microservice_writer.py declares the classes that
`extract_all_envolved_types` finds in the annotations; `get_field_type_for_ts` writes their
names. The two recursions do not see the same classes: here is when every name that is
written is declared.
-/
namespace TypeInterfaces

open TypeScriptTypes Unfoldings

/-- An annotation of a class; a constant or an excluded field is not `emitted`. -/
structure Annotation where
  type : PyType
  emitted : Bool := true

/-- What the generator reads of a class. `isEnum` is `Enum in inherited_classes`, `primitive`
is true of `Enum`, `set` and `IO`; the base `BaseModel` is left out of `bases`. -/
structure ClassInfo where
  isEnum : Bool := false
  primitive : Bool := false
  bases : List PyType := []
  annotations : List Annotation := []
  properties : List PyType := []

namespace ClassInfo

def annotationTypes (i : ClassInfo) : List PyType := i.annotations.map Annotation.type

def memberTypes (i : ClassInfo) : List PyType :=
  (i.annotations.filter Annotation.emitted).map Annotation.type ++ i.properties

def mentioned (i : ClassInfo) : List PyType := i.bases ++ i.annotationTypes ++ i.properties

end ClassInfo

def literalEnum : LiteralValue → Option Cls
  | .enumMember enum _ => some enum
  | _ => none

def isClass : PyType → Bool
  | .scalar _ | .cls _ | .model _ _ | .root _ _ | .opaqueRoot _ _ => true
  | _ => false

/-- The classes of a program by number, finitely many of which mention others, themselves
among them where annotations are evaluated late. `display` are the names pydantic gives to
parametrized models, `rootModel` is its `RootModel`; a recursion of Python goes no more than
`limit` calls below the first. -/
structure World where
  info : Nat → ClassInfo
  display : Cls → List PyType → String
  rootModel : Cls
  limit : Nat
  size : Nat
  beyond : ∀ r, size ≤ r → (info r).mentioned = []
  classes : ∀ r, ∀ b ∈ (info r).bases, isClass b = true

variable (w : World)

section Extraction

/-- `extract_all_envolved_types`, a set of types as a list; no result is a `RecursionError`. -/
def extractAllEnvolvedTypes : Nat → PyType → Option (List PyType)
  | 0, _ => none
  | _ + 1, .scalar s => some [.scalar s]
  | depth + 1, .cls c =>
    (gather (extractAllEnvolvedTypes depth) (w.info c.ref).annotationTypes).map (.cls c :: ·)
  | depth + 1, .model origin args =>
    (gather (extractAllEnvolvedTypes depth) args).map (.cls origin :: ·)
  | depth + 1, .root c t =>
    (gather (extractAllEnvolvedTypes depth) [t]).map
      ((if c = w.rootModel then .cls c else .root c t) :: ·)
  | depth + 1, .opaqueRoot c [] =>
    (gather (extractAllEnvolvedTypes depth) (w.info c.ref).annotationTypes).map
      (.opaqueRoot c [] :: ·)
  | depth + 1, .opaqueRoot c (t :: args) =>
    (gather (extractAllEnvolvedTypes depth) (t :: args)).map (.opaqueRoot c [] :: ·)
  | depth + 1, .classVar t => gather (extractAllEnvolvedTypes depth) [t]
  | depth + 1, .list t => gather (extractAllEnvolvedTypes depth) [t]
  | depth + 1, .frozenset t => gather (extractAllEnvolvedTypes depth) [t]
  | depth + 1, .set t => gather (extractAllEnvolvedTypes depth) [t]
  | depth + 1, .annotated t => gather (extractAllEnvolvedTypes depth) [t]
  | depth + 1, .tuple args => gather (extractAllEnvolvedTypes depth) args
  | depth + 1, .union _ args => gather (extractAllEnvolvedTypes depth) args
  | depth + 1, .dict key value => gather (extractAllEnvolvedTypes depth) [key, value]
  -- the input type is put in as it stands
  | _ + 1, .validated _ input => some [input]
  | _ + 1, .typeVar _ => some []
  | _ + 1, .ellipsis => some []
  | _ + 1, .literal _ => some []
  | _ + 1, .other => some []

def extractAll (t : PyType) : Option (List PyType) := extractAllEnvolvedTypes w (w.limit + 1) t

/-- What the function calls itself for. -/
def walks : PyType → List PyType
  | .cls c | .opaqueRoot c [] => (w.info c.ref).annotationTypes
  | .model _ args | .opaqueRoot _ args | .tuple args | .union _ args => args
  | .root _ t | .classVar t | .list t | .frozenset t | .set t | .annotated t => [t]
  | .dict key value => [key, value]
  | .scalar _ | .validated _ _ | .typeVar _ | .ellipsis | .literal _ | .other => []

/-- What a call puts in by itself. -/
def own : PyType → List PyType
  | .scalar s => [.scalar s]
  | .cls c | .model c _ => [.cls c]
  | .root c t => [if c = w.rootModel then .cls c else .root c t]
  | .opaqueRoot c _ => [.opaqueRoot c []]
  | .validated _ input => [input]
  | _ => []

/-- The recursion unfolds the graph of the annotations. -/
theorem extractAllEnvolvedTypes_eq (depth : Nat) (t : PyType) :
    extractAllEnvolvedTypes w depth t = unfold (walks w) (own w) depth t := by
  induction depth generalizing t with
  | zero => rfl
  | succ depth ih =>
    have hrec : extractAllEnvolvedTypes w depth = unfold (walks w) (own w) depth := funext ih
    have hgather (ts : List PyType) : gather (unfold (walks w) (own w) depth) ts =
        (gather (unfold (walks w) (own w) depth) ts).map ([] ++ ·) := (Option.map_id' ..).symm
    rw [unfold]
    cases t with
    | opaqueRoot c args => cases args <;> rw [extractAllEnvolvedTypes, hrec] <;> rfl
    | cls c | model origin args | root c t => rw [extractAllEnvolvedTypes, hrec]; rfl
    | classVar t | list t | frozenset t | set t | annotated t | tuple args | union bars args
    | dict key value => rw [extractAllEnvolvedTypes, hrec]; exact hgather _
    | _ => rfl

/-- A type that the function puts in somewhere below. -/
def Extracts (t x : PyType) : Prop :=
  ∃ u, Relation.ReflTransGen (Edge (walks w)) t u ∧ x ∈ own w u

/-- No chain of annotations goes deeper than the recursion may. -/
def Shallow (t : PyType) : Prop := ¬Chain (walks w) (w.limit + 1) t

theorem extractAll_exists_iff (t : PyType) : (∃ xs, extractAll w t = some xs) ↔ Shallow w t := by
  simp only [extractAll, extractAllEnvolvedTypes_eq]
  exact unfold_exists_iff (w.limit + 1) t

variable {w}

theorem mem_extractAll {t : PyType} {xs : List PyType} (h : extractAll w t = some xs)
    (x : PyType) : x ∈ xs ↔ Extracts w t x := by
  rw [extractAll, extractAllEnvolvedTypes_eq] at h
  exact mem_unfold h x

/-- Nothing that leads to a type below itself is shallow: there is no result for it. -/
theorem not_shallow_of_cycle {t u : PyType} (htu : Relation.ReflTransGen (Edge (walks w)) t u)
    (hcycle : Relation.TransGen (Edge (walks w)) u u) : ¬Shallow w t :=
  not_not_intro (chain_of_below htu (chain_of_cycle hcycle _))

theorem Extracts.own {t x : PyType} (h : x ∈ own w t) : Extracts w t x := ⟨t, .refl, h⟩

theorem Extracts.walk {t u x : PyType} (hu : u ∈ walks w t) (h : Extracts w u x) :
    Extracts w t x := by
  obtain ⟨v, huv, hx⟩ := h
  exact ⟨v, .head hu huv, hx⟩

end Extraction

/-- A class with the name that is written for it. -/
abbrev Reference := Cls × String

section References

variable (display : Cls → List PyType → String) (suffix : String) (ν : TypeVar → List Reference)

mutual

/-- The classes that the mapper names in a type; `ν` has those of the variables it resolves. -/
def references : PyType → List Reference
  | .typeVar v => ν v
  | .cls c => [(c, c.tsName suffix)]
  | .model origin args =>
    (origin, origin.headName (display origin args) suffix) :: referencesList args
  | .root _ t | .classVar t | .list t | .frozenset t | .set t | .annotated t => references t
  | .tuple args | .union _ args => referencesList args
  | .dict key value => references key ++ references value
  | .literal values => (values.filterMap literalEnum).map fun e => (e, e.name)
  | .validated _ input => references input
  | .scalar _ | .ellipsis | .opaqueRoot _ _ | .other => []

def referencesList : List PyType → List Reference
  | [] => []
  | t :: rest => references t ++ referencesList rest

end

mutual

/-- The classes that are named in the input type of a validator or for a variable. -/
def concealed : PyType → List Cls
  | .typeVar v => (ν v).map Prod.fst
  | .model _ args | .tuple args | .union _ args => concealedList args
  | .root _ t | .classVar t | .list t | .frozenset t | .set t | .annotated t => concealed t
  | .dict key value => concealed key ++ concealed value
  | .validated _ input => (references display suffix ν input).map Prod.fst
  | .scalar _ | .ellipsis | .cls _ | .opaqueRoot _ _ | .literal _ | .other => []

def concealedList : List PyType → List Cls
  | [] => []
  | t :: rest => concealed t ++ concealedList rest

end

mutual

/-- The enumerations that `parse_literal_value` adds to the parse context. -/
def noted (ν : TypeVar → List Cls) : PyType → List Cls
  | .typeVar v => ν v
  | .literal values => values.filterMap literalEnum
  | .model _ args | .tuple args | .union _ args => notedList ν args
  | .root _ t | .classVar t | .list t | .frozenset t | .set t | .annotated t => noted ν t
  | .dict key value => noted ν key ++ noted ν value
  | .validated _ input => noted ν input
  | .scalar _ | .ellipsis | .cls _ | .opaqueRoot _ _ | .other => []

def notedList (ν : TypeVar → List Cls) : List PyType → List Cls
  | [] => []
  | t :: rest => noted ν t ++ notedList ν rest

end

/-- A class of which a name is written is concealed, extracted or noted. -/
def Visible (η : TypeVar → List Cls) (t : PyType) (c : Cls) : Prop :=
  c ∈ concealed display suffix ν t ∨ Extracts w t (.cls c) ∨ c ∈ noted η t

variable {w display suffix ν}

/-- What is seen in a type that the function calls itself for is seen in the type. -/
theorem Visible.walk {η : TypeVar → List Cls} {t u : PyType} {c : Cls} (hu : u ∈ walks w t)
    (hconcealed : concealed display suffix ν u ⊆ concealed display suffix ν t)
    (hnoted : noted η u ⊆ noted η t) (h : Visible w display suffix ν η u c) :
    Visible w display suffix ν η t c :=
  h.imp (fun h => hconcealed h) (.imp (Extracts.walk hu) fun h => hnoted h)

/-- The same for a type around one other. -/
theorem Visible.inner {η : TypeVar → List Cls} {t u : PyType} {c : Cls}
    (h : Visible w display suffix ν η u c) (hwalks : walks w t = [u])
    (hconcealed : concealed display suffix ν t = concealed display suffix ν u)
    (hnoted : noted η t = noted η u) : Visible w display suffix ν η t c :=
  h.walk (hwalks ▸ List.mem_cons_self) (hconcealed ▸ List.Subset.refl _)
    (hnoted ▸ List.Subset.refl _)

theorem concealed_subset {ts : List PyType} {t : PyType} (h : t ∈ ts) :
    concealed display suffix ν t ⊆ concealedList display suffix ν ts := by
  induction ts with
  | nil => cases h
  | cons u ts ih =>
    rcases List.mem_cons.1 h with rfl | h
    · exact List.subset_append_left ..
    · exact fun c hc => List.mem_append_right _ (ih h hc)

theorem noted_subset {η : TypeVar → List Cls} {ts : List PyType} {t : PyType} (h : t ∈ ts) :
    noted η t ⊆ notedList η ts := by
  induction ts with
  | nil => cases h
  | cons u ts ih =>
    rcases List.mem_cons.1 h with rfl | h
    · exact List.subset_append_left ..
    · exact fun c hc => List.mem_append_right _ (ih h hc)

variable (w display suffix ν)

mutual

/-- A class that the mapper names is concealed, extracted or noted. -/
theorem references_visible (η : TypeVar → List Cls) : ∀ (t : PyType) {r : Reference},
    r ∈ references display suffix ν t → Visible w display suffix ν η t r.1
  | .typeVar v, r, h => .inl (List.mem_map_of_mem h)
  | .cls c, r, h => by
    obtain rfl : r = (c, c.tsName suffix) := by simpa [references] using h
    exact .inr (.inl (.own (by simp [own])))
  | .model origin args, r, h => by
    simp only [references, List.mem_cons] at h
    rcases h with rfl | h
    · exact .inr (.inl (.own (by simp [own])))
    · obtain ⟨t, ht, h⟩ := referencesList_visible η args h
      exact h.walk ht (concealed_subset ht) (noted_subset ht)
  | .root c t, r, h => (references_visible η t h).inner rfl rfl rfl
  | .classVar t, r, h => (references_visible η t h).inner rfl rfl rfl
  | .list t, r, h => (references_visible η t h).inner rfl rfl rfl
  | .frozenset t, r, h => (references_visible η t h).inner rfl rfl rfl
  | .set t, r, h => (references_visible η t h).inner rfl rfl rfl
  | .annotated t, r, h => (references_visible η t h).inner rfl rfl rfl
  | .tuple args, r, h => by
    obtain ⟨t, ht, h⟩ := referencesList_visible η args h
    exact h.walk ht (concealed_subset ht) (noted_subset ht)
  | .union _ args, r, h => by
    obtain ⟨t, ht, h⟩ := referencesList_visible η args h
    exact h.walk ht (concealed_subset ht) (noted_subset ht)
  | .dict key value, r, h => by
    rcases List.mem_append.1 h with h | h
    · exact (references_visible η key h).walk (by simp [walks]) (List.subset_append_left ..)
        (List.subset_append_left ..)
    · exact (references_visible η value h).walk (by simp [walks]) (List.subset_append_right ..)
        (List.subset_append_right ..)
  | .literal values, r, h => by
    simp only [references, List.mem_map] at h
    obtain ⟨e, he, rfl⟩ := h
    exact .inr (.inr he)
  | .validated _ input, r, h => .inl (List.mem_map_of_mem h)

theorem referencesList_visible (η : TypeVar → List Cls) : ∀ (ts : List PyType) {r : Reference},
    r ∈ referencesList display suffix ν ts → ∃ t ∈ ts, Visible w display suffix ν η t r.1
  | t :: rest, r, h => by
    rcases List.mem_append.1 h with h | h
    · exact ⟨t, List.mem_cons_self, references_visible η t h⟩
    · obtain ⟨u, hu, h⟩ := referencesList_visible η rest h
      exact ⟨u, List.mem_cons_of_mem t hu, h⟩

end

end References

section Names

mutual

/-- The names that TypeScript looks up in an alternative. -/
def atomNames : Atom → List String
  | .name n => [n]
  | .app n args => n :: typesNames args
  | .setOf element => "Array" :: typeNames element
  | .tuple elements => typesNames elements
  | .index key value => typeNames key ++ typeNames value
  | .str _ | .num _ => []
  | .member enum _ | .typeofMember enum _ => [enum]

def typeNames : List Atom → List String
  | [] => []
  | a :: rest => atomNames a ++ typeNames rest

def typesNames : List (List Atom) → List String
  | [] => []
  | t :: rest => typeNames t ++ typesNames rest

end

def builtins : List String :=
  ["unknown", "any", "File", "string", "null", "number", "boolean", "object", "true",
    "false", "Array"]

theorem mem_typeNames {n : String} {ts : Ts} : n ∈ typeNames ts ↔ ∃ a ∈ ts, n ∈ atomNames a := by
  induction ts with
  | nil => simp [typeNames]
  | cons a ts ih => simp [typeNames, ih]

theorem mem_typesNames {n : String} {ts : List Ts} :
    n ∈ typesNames ts ↔ ∃ t ∈ ts, n ∈ typeNames t := by
  induction ts with
  | nil => simp [typesNames]
  | cons t ts ih => simp [typesNames, ih]

theorem mem_typeNames_flatten {n : String} {ts : List Ts} :
    n ∈ typeNames ts.flatten ↔ n ∈ typesNames ts := by
  simp only [mem_typeNames, mem_typesNames, List.mem_flatten]
  constructor
  · rintro ⟨a, ⟨t, ht, ha⟩, hn⟩
    exact ⟨t, ht, a, ha, hn⟩
  · rintro ⟨t, ht, a, ha, hn⟩
    exact ⟨a, ⟨t, ht, ha⟩, hn⟩

theorem Scalar.ts_mem_builtins (s : Scalar) : s.ts ∈ builtins := by
  cases s <;> simp [Scalar.ts, builtins]

variable (style : EnumStyle) (display : Cls → List PyType → String) (suffix : String)
  (mapping : TypeVar → Option Ts) (η : TypeVar → List TypeVar) (ν : TypeVar → List Reference)

theorem atomNames_literal {n : String} {value : LiteralValue}
    (h : n ∈ atomNames (parseLiteralValue style value)) :
    n ∈ builtins ∨ ∃ e, literalEnum value = some e ∧ n = e.name := by
  cases value with
  | none => simp_all [parseLiteralValue, atomNames, builtins]
  | enumMember enum name => cases style <;> simp_all [parseLiteralValue, atomNames, literalEnum]
  | bool b => cases b <;> simp_all [parseLiteralValue, atomNames, builtins]
  | other => simp_all [parseLiteralValue, atomNames, builtins]
  | _ => simp_all [parseLiteralValue, atomNames]

theorem literalEnum_written {value : LiteralValue} {e : Cls} (h : literalEnum value = some e) :
    e.name ∈ atomNames (parseLiteralValue style value) := by
  cases value with
  | enumMember enum name =>
    obtain rfl : enum = e := Option.some.inj h
    cases style <;> simp [parseLiteralValue, atomNames]
  | _ => cases h

/-- A name that is written is built in, that of a variable, or that of a class. -/
def Accounted (n : String) (vars : List TypeVar) (refs : List Reference) : Prop :=
  n ∈ builtins ∨ (∃ v ∈ vars, n = v.name) ∨ ∃ c, (c, n) ∈ refs

/-- A name stays accounted for among more variables and references. -/
theorem Accounted.mono {n : String} {vars vars' : List TypeVar} {refs refs' : List Reference}
    (h : Accounted n vars refs) (hvars : vars ⊆ vars') (hrefs : refs ⊆ refs') :
    Accounted n vars' refs' := by
  rcases h with h | ⟨v, hv, rfl⟩ | ⟨c, hc⟩
  · exact .inl h
  · exact .inr (.inl ⟨v, hvars hv, rfl⟩)
  · exact .inr (.inr ⟨c, hrefs hc⟩)

/-- The names of an array are its own name and those of the elements. -/
theorem accounted_array {n : String} {names : List String} {vars : List TypeVar}
    {refs : List Reference} (h : n = "Array" ∨ n ∈ names)
    (helement : n ∈ names → Accounted n vars refs) : Accounted n vars refs := by
  rcases h with rfl | h
  · exact .inl (by simp [builtins])
  · exact helement h

/-- The variables that what stands for the variables of a type leaves open. -/
def openVars (t : PyType) : List TypeVar := (typeVars t).flatMap η

def openVarsList (ts : List PyType) : List TypeVar := (typeVarsList ts).flatMap η

variable {η} in
theorem openVars_mono {vs vs' : List TypeVar} (h : vs ⊆ vs') : vs.flatMap η ⊆ vs'.flatMap η := by
  intro v hv
  obtain ⟨u, hu, hv⟩ := List.mem_flatMap.1 hv
  exact List.mem_flatMap.2 ⟨u, h hu, hv⟩

/-- The names in what is put in for a variable are accounted for; a variable for which nothing
is put in stays open. -/
structure VarsAccounted : Prop where
  bound : ∀ v s, mapping v = some s → ∀ n ∈ typeNames s, Accounted n (η v) (ν v)
  free : ∀ v, mapping v = none → v ∈ η v

variable {mapping η ν}

mutual

/-- Every name that the mapper writes is accounted for by the references. -/
theorem names_accounted (hν : VarsAccounted mapping η ν) : ∀ (t : PyType) {n : String},
    n ∈ typeNames (getFieldTypeForTs style display suffix mapping t) →
      Accounted n (openVars η t) (references display suffix ν t)
  | .scalar s, n, h => by
    obtain rfl : n = s.ts := by simpa [getFieldTypeForTs, typeNames, atomNames] using h
    exact .inl (Scalar.ts_mem_builtins s)
  | .typeVar v, n, h => by
    have hvars : η v ⊆ openVars η (.typeVar v) := by simp [openVars, typeVars]
    cases hv : mapping v with
    | none =>
      obtain rfl : n = v.name := by
        simpa [getFieldTypeForTs, hv, typeNames, atomNames] using h
      exact .inr (.inl ⟨v, hvars (hν.free v hv), rfl⟩)
    | some s =>
      rw [getFieldTypeForTs, hv, Option.getD_some] at h
      exact (hν.bound v s hv n h).mono hvars fun _ hr => hr
  | .ellipsis, n, h => .inl (by simp_all [getFieldTypeForTs, typeNames, atomNames, builtins])
  | .opaqueRoot _ _, n, h => .inl (by simp_all [getFieldTypeForTs, typeNames, atomNames, builtins])
  | .other, n, h => .inl (by simp_all [getFieldTypeForTs, typeNames, atomNames, builtins])
  | .cls c, n, h => by
    obtain rfl : n = c.tsName suffix := by simpa [getFieldTypeForTs, typeNames, atomNames] using h
    exact .inr (.inr ⟨c, by simp [references]⟩)
  | .model origin args, n, h => by
    simp only [getFieldTypeForTs, typeNames, atomNames, List.append_nil, List.mem_cons] at h
    rcases h with rfl | h
    · exact .inr (.inr ⟨origin, by simp [references]⟩)
    · exact (names_accounted_list hν args h).mono (fun _ hv => hv)
        (fun _ hr => List.mem_cons_of_mem _ hr)
  | .root _ t, n, h => names_accounted hν t h
  | .classVar t, n, h => names_accounted hν t h
  | .annotated t, n, h => names_accounted hν t h
  | .list t, n, h => by
    simp only [getFieldTypeForTs, typeNames, atomNames, typesNames, List.append_nil,
      List.mem_cons] at h
    exact accounted_array h fun h => names_accounted hν t h
  | .frozenset t, n, h => by
    simp only [getFieldTypeForTs, typeNames, atomNames, typesNames, List.append_nil,
      List.mem_cons] at h
    exact accounted_array h fun h => names_accounted hν t h
  | .set t, n, h => by
    simp only [getFieldTypeForTs, typeNames, atomNames, List.append_nil, List.mem_cons] at h
    exact accounted_array h fun h => names_accounted hν t h
  | .tuple args, n, h => by
    simp only [getFieldTypeForTs, typeNames, atomNames, List.append_nil] at h
    exact names_accounted_list hν args h
  | .dict key value, n, h => by
    simp only [getFieldTypeForTs, typeNames, atomNames, List.append_nil, List.mem_append] at h
    rcases h with h | h
    · exact (names_accounted hν key h).mono (openVars_mono (List.subset_append_left ..))
        (List.subset_append_left ..)
    · exact (names_accounted hν value h).mono (openVars_mono (List.subset_append_right ..))
        (List.subset_append_right ..)
  | .literal values, n, h => by
    simp only [getFieldTypeForTs, mem_typeNames, List.mem_map] at h
    obtain ⟨_, ⟨value, hvalue, rfl⟩, hn⟩ := h
    rcases atomNames_literal style hn with hn | ⟨e, he, rfl⟩
    · exact .inl hn
    · exact .inr (.inr ⟨e, List.mem_map_of_mem (List.mem_filterMap.2 ⟨value, hvalue, he⟩)⟩)
  | .union _ args, n, h => by
    simp only [getFieldTypeForTs, mem_typeNames_flatten] at h
    exact names_accounted_list hν args h
  | .validated _ input, n, h =>
    (names_accounted hν input h).mono (openVars_mono (List.subset_append_right ..))
      (fun _ hr => hr)

theorem names_accounted_list (hν : VarsAccounted mapping η ν) : ∀ (ts : List PyType) {n : String},
    n ∈ typesNames (getFieldTypesForTs style display suffix mapping ts) →
      Accounted n (openVarsList η ts) (referencesList display suffix ν ts)
  | t :: rest, n, h => by
    simp only [getFieldTypesForTs, typesNames, List.mem_append] at h
    rcases h with h | h
    · exact (names_accounted hν t h).mono (openVars_mono (List.subset_append_left ..))
        (List.subset_append_left ..)
    · exact (names_accounted_list hν rest h).mono (openVars_mono (List.subset_append_right ..))
        (List.subset_append_right ..)

end

mutual

/-- And every reference is written. -/
theorem references_written
    (hν : ∀ v, ∀ r ∈ ν v, r.2 ∈ typeNames ((mapping v).getD [.name v.name])) :
    ∀ (t : PyType) {r : Reference}, r ∈ references display suffix ν t →
      r.2 ∈ typeNames (getFieldTypeForTs style display suffix mapping t)
  | .typeVar v, r, h => hν v r h
  | .cls c, r, h => by
    obtain rfl : r = (c, c.tsName suffix) := by simpa [references] using h
    simp [getFieldTypeForTs, typeNames, atomNames]
  | .model origin args, r, h => by
    simp only [references, List.mem_cons] at h
    simp only [getFieldTypeForTs, typeNames, atomNames, List.append_nil, List.mem_cons]
    rcases h with rfl | h
    · exact .inl rfl
    · exact .inr (references_written_list hν args h)
  | .root _ t, r, h => references_written hν t h
  | .classVar t, r, h => references_written hν t h
  | .annotated t, r, h => references_written hν t h
  | .list t, r, h => by
    simpa [getFieldTypeForTs, typeNames, atomNames, typesNames] using
      .inr (references_written hν t h)
  | .frozenset t, r, h => by
    simpa [getFieldTypeForTs, typeNames, atomNames, typesNames] using
      .inr (references_written hν t h)
  | .set t, r, h => by
    simpa [getFieldTypeForTs, typeNames, atomNames] using .inr (references_written hν t h)
  | .tuple args, r, h => by
    simpa [getFieldTypeForTs, typeNames, atomNames] using references_written_list hν args h
  | .dict key value, r, h => by
    simp only [getFieldTypeForTs, typeNames, atomNames, List.append_nil, List.mem_append]
    exact (List.mem_append.1 h).imp (references_written hν key) (references_written hν value)
  | .literal values, r, h => by
    simp only [references, List.mem_map] at h
    obtain ⟨e, he, rfl⟩ := h
    obtain ⟨value, hvalue, he⟩ := List.mem_filterMap.1 he
    simp only [getFieldTypeForTs, mem_typeNames, List.mem_map]
    exact ⟨_, ⟨value, hvalue, rfl⟩, literalEnum_written style he⟩
  | .union _ args, r, h => by
    simpa [getFieldTypeForTs, mem_typeNames_flatten] using references_written_list hν args h
  | .validated _ input, r, h => references_written hν input h

theorem references_written_list
    (hν : ∀ v, ∀ r ∈ ν v, r.2 ∈ typeNames ((mapping v).getD [.name v.name])) :
    ∀ (ts : List PyType) {r : Reference}, r ∈ referencesList display suffix ν ts →
      r.2 ∈ typesNames (getFieldTypesForTs style display suffix mapping ts)
  | t :: rest, r, h => by
    simp only [getFieldTypesForTs, typesNames, List.mem_append]
    exact (List.mem_append.1 h).imp (references_written hν t) (references_written_list hν rest)

end

/-- Where no variable is bound, its own name is written. -/
theorem varsAccounted_free : VarsAccounted (fun _ => none) (fun v => [v]) fun _ => [] where
  bound v s h := by cases h
  free v _ := List.mem_singleton_self v

end Names

/-- A place where a type is written, with the variables left open in it, the classes whose
names are in it and those that the extractor does not see there. The names in the type are
these. -/
structure Spot where
  written : Ts
  vars : List TypeVar
  references : List Reference
  concealed : List Cls
  accounted : ∀ n ∈ typeNames written, Accounted n vars references
  standing : ∀ r ∈ references, r.2 ∈ typeNames written

/-- What is said of the references is said of the names in the type. -/
theorem Spot.forall_names_iff (spot : Spot) {P : Reference → Prop} :
    (∀ n ∈ typeNames spot.written, Accounted n spot.vars spot.references ∧
      ∀ c, (c, n) ∈ spot.references → P (c, n)) ↔ ∀ r ∈ spot.references, P r := by
  constructor
  · rintro h ⟨c, n⟩ hr
    exact (h n (spot.standing _ hr)).2 c hr
  · intro h n hn
    exact ⟨spot.accounted n hn, fun c hc => h _ hc⟩

namespace World

def isPrimitive : PyType → Bool
  | .scalar s => s != .response
  | .cls c | .root c _ | .opaqueRoot c [] => (w.info c.ref).primitive
  | .union bars _ => bars
  | .typeVar _ | .tuple _ | .list _ | .set _ | .dict _ _ | .literal _ | .annotated _
  | .validated _ _ => true
  | .ellipsis | .model _ _ | .opaqueRoot _ _ | .classVar _ | .frozenset _ | .other => false

def isEnum : PyType → Bool
  | .cls c => (w.info c.ref).isEnum
  | _ => false

def classOf : PyType → Option Cls
  | .cls c => some c
  | .root c _ => if c = w.rootModel then none else some c
  | .opaqueRoot c [] => some c
  | _ => none

/-- The types of the members of the interface of a class. -/
def members : PyType → List PyType
  | .root c t => t :: (w.info c.ref).properties
  | .cls c | .opaqueRoot c _ => (w.info c.ref).memberTypes
  | _ => []

def validBases (c : Cls) : List PyType := (w.info c.ref).bases.filter fun b => !w.isPrimitive b

/-- The types that `parse_type_to_typescript_interface` puts in as they stand. The origin of an
alias of `typing` is an object that nothing is found in. -/
def direct (t : PyType) : List PyType :=
  match w.classOf t with
  | some c => if w.isEnum t then [] else (w.info c.ref).bases ++ w.members t
  | none => match t with
    | .model origin _ => [.cls origin]
    | .root c _ => [.cls c]
    | .opaqueRoot c _ => [.opaqueRoot c []]
    | .union _ args => args ++ [.other]
    | .frozenset t | .classVar t => [t, .other]
    | _ => []

/-- The types that it calls the extractor for. -/
def expanded (t : PyType) : List PyType :=
  match w.classOf t with
  | some _ => if w.isEnum t then [] else w.members t
  | none => match t with
    | .model _ args | .opaqueRoot _ args => args
    | .root _ t => [t]
    | _ => []

/-- The types that `parse_type_to_typescript_interface` identifies; no result is a
`RecursionError` of the extractor. -/
def identified (t : PyType) : Option (List PyType) :=
  (gather (extractAll w) (w.expanded t)).map (w.direct t ++ ·)

/-- The class of a base, with its `__name__`. -/
def baseName : PyType → Option (Cls × String)
  | .cls c | .root c _ | .opaqueRoot c [] => some (c, c.name)
  | .model c args | .opaqueRoot c args => some (c, w.display c args)
  | _ => none

/-- The classes that an `extends` names. -/
def baseReferences (suffix : String) (b : PyType) : List Reference :=
  match baseName w b with
  | some (c, name) =>
    if c.split = true ∧ suffix ≠ "" then [(c, name ++ suffix)]
    else references w.display suffix (fun _ => []) b
  | none => references w.display suffix (fun _ => []) b

/-- What an `extends` has for a base. -/
def baseWritten (style : EnumStyle) (suffix : String) (b : PyType) : Ts :=
  match baseName w b with
  | some (c, name) =>
    if c.split = true ∧ suffix ≠ "" then [.name (name ++ suffix)]
    else getFieldTypeForTs style w.display suffix (fun _ => none) b
  | none => getFieldTypeForTs style w.display suffix (fun _ => none) b

section Spots

variable (style : EnumStyle) (suffix : String)

theorem closed_accounted (t : PyType) {n : String}
    (h : n ∈ typeNames (getFieldTypeForTs style w.display suffix (fun _ => none) t)) :
    Accounted n (typeVars t) (references w.display suffix (fun _ => []) t) := by
  have haccounted := names_accounted style w.display suffix varsAccounted_free t h
  rwa [openVars, List.flatMap_singleton'] at haccounted

theorem closed_standing (t : PyType) {r : Reference}
    (h : r ∈ references w.display suffix (fun _ => []) t) :
    r.2 ∈ typeNames (getFieldTypeForTs style w.display suffix (fun _ => none) t) :=
  references_written style w.display suffix (by simp) t h

def memberSpot (t : PyType) : Spot where
  written := getFieldTypeForTs style w.display suffix (fun _ => none) t
  vars := typeVars t
  references := references w.display suffix (fun _ => []) t
  concealed := concealed w.display suffix (fun _ => []) t
  accounted _ h := w.closed_accounted style suffix t h
  standing _ h := w.closed_standing style suffix t h

theorem base_accounted (b : PyType) {n : String}
    (h : n ∈ typeNames (w.baseWritten style suffix b)) :
    Accounted n (typeVars b) (w.baseReferences suffix b) := by
  unfold baseWritten at h
  unfold baseReferences
  split at h
  · split at h
    · rename_i c name _ hsplit
      obtain rfl : n = name ++ suffix := by simpa [typeNames, atomNames] using h
      exact .inr (.inr ⟨c, by simp [hsplit]⟩)
    · rename_i hsplit
      simpa [hsplit] using w.closed_accounted style suffix b h
  · exact w.closed_accounted style suffix b h

theorem base_standing (b : PyType) {r : Reference} (h : r ∈ w.baseReferences suffix b) :
    r.2 ∈ typeNames (w.baseWritten style suffix b) := by
  unfold baseReferences at h
  unfold baseWritten
  split at h
  · split at h
    · rename_i hsplit
      rw [List.mem_singleton.1 h]
      simp [hsplit, typeNames, atomNames]
    · rename_i hsplit
      simpa [hsplit] using w.closed_standing style suffix b h
  · exact w.closed_standing style suffix b h

def baseSpot (b : PyType) : Spot where
  written := w.baseWritten style suffix b
  vars := typeVars b
  references := w.baseReferences suffix b
  concealed := concealed w.display suffix (fun _ => []) b
  accounted _ h := w.base_accounted style suffix b h
  standing _ h := w.base_standing style suffix b h

end Spots

/-- The interfaces that `parse_type_to_typescript_interface` writes. -/
def interfaceSpots (style : EnumStyle) (t : PyType) : List Spot :=
  match w.classOf t with
  | some c =>
    if w.isEnum t then []
    else c.suffixes.flatMap fun suffix =>
      (w.members t).map (w.memberSpot style suffix) ++
        (w.validBases c).map (w.baseSpot style suffix)
  | none => []

/-- The enumerations that the interface of a type adds to the parse context. -/
def interfaceNoted (t : PyType) : List Cls :=
  match w.classOf t with
  | some c =>
    if w.isEnum t then [] else (w.members t ++ w.validBases c).flatMap (noted fun _ => [])
  | none => []

/-- The loop of `write_type_interfaces`, as far as the extractor has results. -/
def workList : WorkLists.WorkList PyType where
  skips t := w.isPrimitive t = true
  finds t := (w.identified t).getD []
  notes t := (w.interfaceNoted t).map PyType.cls

end World

section Identified

variable {w}

/-- A type that the function identifies is put in as it stands or extracted. -/
def World.Identifies (w : World) (t x : PyType) : Prop :=
  x ∈ w.direct t ∨ ∃ u ∈ w.expanded t, Extracts w u x

theorem mem_identified {t : PyType} {xs : List PyType} (h : w.identified t = some xs)
    (x : PyType) : x ∈ xs ↔ w.Identifies t x := by
  obtain ⟨ys, hys, rfl⟩ := Option.map_eq_some_iff.1 h
  rw [List.mem_append, mem_gather hys, World.Identifies]
  refine or_congr_right (exists_congr fun u => and_congr_right fun hu => ?_)
  obtain ⟨zs, hzs⟩ := (gather_exists_iff _).1 ⟨ys, hys⟩ u hu
  simp [hzs, mem_extractAll hzs]

theorem identified_exists_iff (t : PyType) :
    (∃ xs, w.identified t = some xs) ↔ ∀ u ∈ w.expanded t, Shallow w u := by
  have hgather : (∃ xs, w.identified t = some xs) ↔
      ∃ ys, gather (extractAll w) (w.expanded t) = some ys := by
    simp [World.identified, Option.map_eq_some_iff]
  rw [hgather, gather_exists_iff]
  exact forall₂_congr fun u _ => extractAll_exists_iff w u

theorem identifies_of_finds {t x : PyType} (h : x ∈ w.workList.finds t) : w.Identifies t x := by
  have hfinds : x ∈ (w.identified t).getD [] := h
  cases hxs : w.identified t with
  | none => simp [hxs] at hfinds
  | some xs =>
    rw [hxs] at hfinds
    exact (mem_identified hxs x).1 hfinds

end Identified

section Finite

/-- What a type is made of; no class is opened. -/
def pieces : PyType → List PyType
  | .model origin args => .cls origin :: args
  | .root c t => [.cls c, t]
  | .opaqueRoot c (t :: args) => .opaqueRoot c [] :: t :: args
  | .tuple args => args
  | .union _ args => .other :: args
  | .frozenset t | .classVar t => [t, .other]
  | .list t | .set t | .annotated t => [t]
  | .dict key value => [key, value]
  | .validated _ input => [input]
  | .literal values => (values.filterMap literalEnum).map .cls
  | .opaqueRoot _ [] | .scalar _ | .typeVar _ | .ellipsis | .cls _ | .other => []

theorem sizeOf_literalEnum {values : List LiteralValue} {e : Cls}
    (h : e ∈ values.filterMap literalEnum) : sizeOf e < sizeOf values := by
  obtain ⟨value, hvalue, he⟩ := List.mem_filterMap.1 h
  have hsize := List.sizeOf_lt_of_mem hvalue
  cases value with
  | enumMember enum name =>
    obtain rfl : enum = e := by simpa [literalEnum] using he
    simp only [LiteralValue.enumMember.sizeOf_spec] at hsize
    omega
  | _ => simp [literalEnum] at he

theorem sizeOf_type_pos (t : PyType) : 0 < sizeOf t := by cases t <;> simp

/-- A piece of a type is smaller than the type. -/
theorem pieces_smaller {t x : PyType} (h : x ∈ pieces t) : sizeOf x < sizeOf t := by
  cases t with
  | model origin args =>
    rcases List.mem_cons.1 h with rfl | h
    · have hpos : 0 < sizeOf args := by cases args <;> simp
      simpa using hpos
    · have hsize : sizeOf x < sizeOf args := List.sizeOf_lt_of_mem h
      simp only [PyType.model.sizeOf_spec]
      omega
  | root c t =>
    have hpos := sizeOf_type_pos t
    rcases List.mem_pair.1 h with rfl | rfl
    · simpa using hpos
    · simp
  | opaqueRoot c args =>
    cases args with
    | nil => cases h
    | cons t args =>
      have hpos := sizeOf_type_pos t
      rcases List.mem_cons.1 h with rfl | h
      · simp only [PyType.opaqueRoot.sizeOf_spec, List.nil.sizeOf_spec, List.cons.sizeOf_spec]
        omega
      · have hsize : sizeOf x < sizeOf (t :: args) := List.sizeOf_lt_of_mem h
        simp only [PyType.opaqueRoot.sizeOf_spec]
        omega
  | tuple args =>
    have hsize : sizeOf x < sizeOf args := List.sizeOf_lt_of_mem h
    simp only [PyType.tuple.sizeOf_spec]
    omega
  | union bars args =>
    rcases List.mem_cons.1 h with rfl | h
    · have hpos : 0 < sizeOf args := by cases args <;> simp
      simp only [PyType.other.sizeOf_spec, PyType.union.sizeOf_spec]
      omega
    · have hsize : sizeOf x < sizeOf args := List.sizeOf_lt_of_mem h
      simp only [PyType.union.sizeOf_spec]
      omega
  | frozenset t | classVar t =>
    have hpos := sizeOf_type_pos t
    rcases List.mem_pair.1 h with rfl | rfl
    · simp
    · simpa using hpos
  | list t | set t | annotated t =>
    obtain rfl := List.mem_singleton.1 h
    simp
  | dict key value =>
    rcases List.mem_pair.1 h with rfl | rfl
    · simp only [PyType.dict.sizeOf_spec]
      omega
    · simp only [PyType.dict.sizeOf_spec]
      omega
  | validated t input =>
    obtain rfl := List.mem_singleton.1 h
    simp
  | literal values =>
    obtain ⟨e, he, rfl⟩ := List.mem_map.1 h
    have hsize := sizeOf_literalEnum he
    simp only [PyType.cls.sizeOf_spec, PyType.literal.sizeOf_spec]
    omega
  | scalar _ | typeVar _ | ellipsis | cls _ | other => cases h

/-- A type is made of finitely many. -/
theorem pieces_finite (t : PyType) : {x | Relation.ReflTransGen (Edge pieces) t x}.Finite := by
  have hwf : WellFounded fun x t : PyType => Edge pieces t x :=
    Subrelation.wf (fun {_ _} h => pieces_smaller h) (measure sizeOf).wf
  exact finite_below (hwf.apply t)

/-- The given types and those that the classes of the program mention. -/
def World.written (base : List PyType) : List PyType :=
  base ++ (List.range w.size).flatMap fun r => (w.info r).mentioned

/-- What these are made of. -/
def Confines (base : List PyType) : Set PyType :=
  {x | ∃ t ∈ w.written base, Relation.ReflTransGen (Edge pieces) t x}

theorem confines_finite (base : List PyType) : (Confines w base).Finite := by
  have hbelow : (⋃ t ∈ {t | t ∈ w.written base},
      {x | Relation.ReflTransGen (Edge pieces) t x}).Finite :=
    (List.finite_toSet (w.written base)).biUnion fun t _ => pieces_finite t
  refine hbelow.subset fun x hx => ?_
  obtain ⟨t, ht, hx⟩ := hx
  exact Set.mem_biUnion ht hx

variable {w} {base : List PyType}

theorem confines_base {t : PyType} (h : t ∈ base) : t ∈ Confines w base :=
  ⟨t, List.mem_append_left _ h, .refl⟩

theorem confines_piece {t x : PyType} (ht : t ∈ Confines w base) (hx : x ∈ pieces t) :
    x ∈ Confines w base := by
  obtain ⟨u, hu, ht⟩ := ht
  exact ⟨u, hu, ht.tail hx⟩

theorem confines_mentioned {r : Nat} {t : PyType} (h : t ∈ (w.info r).mentioned) :
    t ∈ Confines w base := by
  have hr : r < w.size := by
    by_contra hr
    rw [w.beyond r (Nat.le_of_not_lt hr)] at h
    cases h
  exact ⟨t, List.mem_append_right _ (List.mem_flatMap.2 ⟨r, List.mem_range.2 hr, h⟩), .refl⟩

theorem confines_annotation {r : Nat} {t : PyType} (h : t ∈ (w.info r).annotationTypes) :
    t ∈ Confines w base :=
  confines_mentioned (r := r) (by simp [ClassInfo.mentioned, h])

theorem mem_mentioned {i : ClassInfo} {m : PyType} (h : m ∈ i.memberTypes) : m ∈ i.mentioned := by
  simp only [ClassInfo.memberTypes, ClassInfo.mentioned, ClassInfo.annotationTypes,
    List.mem_append, List.mem_map, List.mem_filter] at h ⊢
  rcases h with ⟨a, ⟨ha, -⟩, rfl⟩ | h
  · exact .inl (.inr ⟨a, ha, rfl⟩)
  · exact .inr h

/-- The extractor does not leave them, -/
theorem confines_walk {t u : PyType} (ht : t ∈ Confines w base) (hu : u ∈ walks w t) :
    u ∈ Confines w base := by
  cases t with
  | cls c => exact confines_annotation hu
  | opaqueRoot c args =>
    cases args with
    | nil => exact confines_annotation hu
    | cons t args => exact confines_piece ht (List.mem_cons_of_mem _ hu)
  | model origin args => exact confines_piece ht (List.mem_cons_of_mem _ hu)
  | root c t => exact confines_piece ht (List.mem_cons_of_mem _ hu)
  | union bars args => exact confines_piece ht (List.mem_cons_of_mem _ hu)
  | frozenset t | classVar t =>
    exact confines_piece ht (List.mem_cons.2 (.inl (List.mem_singleton.1 hu)))
  | tuple args | list t | set t | annotated t | dict key value => exact confines_piece ht hu
  | scalar _ | validated _ _ | typeVar _ | ellipsis | literal _ | other => cases hu

/-- What a type of the set holds is in the set. -/
theorem confines_own {t x : PyType} (ht : t ∈ Confines w base) (hx : x ∈ own w t) :
    x ∈ Confines w base := by
  cases t with
  | scalar s => exact List.mem_singleton.1 hx ▸ ht
  | cls c => exact List.mem_singleton.1 hx ▸ ht
  | model origin args => exact confines_piece ht (List.mem_singleton.1 hx ▸ List.mem_cons_self)
  | root c t =>
    rw [List.mem_singleton.1 hx]
    split
    · exact confines_piece ht List.mem_cons_self
    · exact ht
  | opaqueRoot c args =>
    rw [List.mem_singleton.1 hx]
    cases args with
    | nil => exact ht
    | cons t args => exact confines_piece ht List.mem_cons_self
  | validated t input => exact confines_piece ht hx
  | _ => cases hx

/-- and what it puts in is among them. -/
theorem confines_extracts {t x : PyType} (ht : t ∈ Confines w base) (h : Extracts w t x) :
    x ∈ Confines w base := by
  obtain ⟨u, hu, hx⟩ := h
  have hbelow : u ∈ Confines w base := by
    clear hx
    induction hu with
    | refl => exact ht
    | tail _ hedge ih => exact confines_walk ih hedge
  exact confines_own hbelow hx

/-- The types that stand for a class. -/
theorem classOf_cases {t : PyType} {c : Cls} (h : w.classOf t = some c) :
    t = .cls c ∨ (∃ u, t = .root c u ∧ c ≠ w.rootModel) ∨ t = .opaqueRoot c [] := by
  cases t with
  | cls d => exact .inl (congrArg PyType.cls (Option.some.inj h))
  | root d u =>
    simp only [World.classOf] at h
    split at h
    · cases h
    · rename_i hroot
      obtain rfl := Option.some.inj h
      exact .inr (.inl ⟨u, rfl, hroot⟩)
  | opaqueRoot d args =>
    cases args with
    | nil => exact .inr (.inr (congrArg (PyType.opaqueRoot · []) (Option.some.inj h)))
    | cons t args => cases h
  | _ => cases h

theorem confines_member {t m : PyType} {c : Cls} (ht : t ∈ Confines w base)
    (h : w.classOf t = some c) (hm : m ∈ w.members t) : m ∈ Confines w base := by
  rcases classOf_cases h with rfl | ⟨u, rfl, -⟩ | rfl
  · exact confines_mentioned (mem_mentioned hm)
  · rcases List.mem_cons.1 hm with rfl | hm
    · exact confines_piece ht (by simp [pieces])
    · exact confines_mentioned (r := c.ref) (by simp [ClassInfo.mentioned, hm])
  · exact confines_mentioned (mem_mentioned hm)

/-- What a type of the set mentions directly is in the set. -/
theorem confines_direct {t x : PyType} (ht : t ∈ Confines w base) (h : x ∈ w.direct t) :
    x ∈ Confines w base := by
  unfold World.direct at h
  split at h
  · rename_i c hc
    split at h
    · cases h
    · rcases List.mem_append.1 h with h | h
      · exact confines_mentioned (r := c.ref) (by simp [ClassInfo.mentioned, h])
      · exact confines_member ht hc h
  · rename_i hc
    refine confines_piece ht ?_
    split at h
    · exact List.mem_singleton.1 h ▸ List.mem_cons_self
    · exact List.mem_singleton.1 h ▸ List.mem_cons_self
    · rename_i c args
      cases args with
      | nil => cases hc
      | cons t args => exact List.mem_singleton.1 h ▸ List.mem_cons_self
    · rcases List.mem_append.1 h with h | h
      · exact List.mem_cons_of_mem _ h
      · exact List.mem_singleton.1 h ▸ List.mem_cons_self
    · exact h
    · exact h
    · cases h

/-- So is what it expands to. -/
theorem confines_expanded {t x : PyType} (ht : t ∈ Confines w base) (h : x ∈ w.expanded t) :
    x ∈ Confines w base := by
  unfold World.expanded at h
  split at h
  · rename_i c hc
    split at h
    · cases h
    · exact confines_member ht hc h
  · rename_i hc
    refine confines_piece ht ?_
    split at h
    · exact List.mem_cons_of_mem _ h
    · rename_i c args
      cases args with
      | nil => cases hc
      | cons t args => exact List.mem_cons_of_mem _ h
    · exact List.mem_cons_of_mem _ h
    · cases h

mutual

theorem confines_noted : ∀ (t : PyType) {e : Cls}, t ∈ Confines w base →
    e ∈ noted (fun _ => []) t → .cls e ∈ Confines w base
  | .literal values, e, ht, h => confines_piece ht (List.mem_map_of_mem h)
  | .model origin args, e, ht, h =>
    confines_notedList args (fun u hu => confines_piece ht (List.mem_cons_of_mem _ hu)) h
  | .tuple args, e, ht, h => confines_notedList args (fun u hu => confines_piece ht hu) h
  | .union _ args, e, ht, h =>
    confines_notedList args (fun u hu => confines_piece ht (List.mem_cons_of_mem _ hu)) h
  | .root c t, e, ht, h => confines_noted t (confines_piece ht (by simp [pieces])) h
  | .classVar t, e, ht, h => confines_noted t (confines_piece ht (by simp [pieces])) h
  | .list t, e, ht, h => confines_noted t (confines_piece ht (by simp [pieces])) h
  | .frozenset t, e, ht, h => confines_noted t (confines_piece ht (by simp [pieces])) h
  | .set t, e, ht, h => confines_noted t (confines_piece ht (by simp [pieces])) h
  | .annotated t, e, ht, h => confines_noted t (confines_piece ht (by simp [pieces])) h
  | .validated _ input, e, ht, h => confines_noted input (confines_piece ht (by simp [pieces])) h
  | .dict key value, e, ht, h => by
    rcases List.mem_append.1 h with h | h
    · exact confines_noted key (confines_piece ht (by simp [pieces])) h
    · exact confines_noted value (confines_piece ht (by simp [pieces])) h

theorem confines_notedList : ∀ (ts : List PyType) {e : Cls}, (∀ t ∈ ts, t ∈ Confines w base) →
    e ∈ notedList (fun _ => []) ts → .cls e ∈ Confines w base
  | t :: rest, e, hts, h => by
    rw [List.forall_mem_cons] at hts
    rcases List.mem_append.1 h with h | h
    · exact confines_noted t hts.1 h
    · exact confines_notedList rest hts.2 h

end

theorem confines_interfaceNoted {t : PyType} {e : Cls} (ht : t ∈ Confines w base)
    (h : e ∈ w.interfaceNoted t) : .cls e ∈ Confines w base := by
  unfold World.interfaceNoted at h
  split at h
  · rename_i c hc
    split at h
    · cases h
    · obtain ⟨m, hm, h⟩ := List.mem_flatMap.1 h
      rcases List.mem_append.1 hm with hm | hm
      · exact confines_noted m (confines_member ht hc hm) h
      · have hbase := List.mem_of_mem_filter hm
        exact confines_noted m (confines_mentioned (r :=
          c.ref) (by simp [ClassInfo.mentioned, hbase])) h
  · cases h

/-- What processing a type leads to stays among them. -/
theorem confines_leads {t x : PyType} (ht : t ∈ Confines w base)
    (h : WorkLists.Leads w.workList t x) : x ∈ Confines w base := by
  rcases List.mem_append.1 h with h | h
  · rcases identifies_of_finds h with h | ⟨u, hu, h⟩
    · exact confines_direct ht h
    · exact confines_extracts (confines_expanded ht hu) h
  · obtain ⟨e, he, rfl⟩ := List.mem_map.1 h
    exact confines_interfaceNoted ht he

end Finite

end TypeInterfaces
