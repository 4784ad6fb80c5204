import Jararaca.ReferenceClosure

/-!
# The names of split models

A model marked `@SplitInputOutput` has two interfaces, and every place where it is written has to
pick one of them. The suffix is chosen once for a whole annotation: "Output" for a return type,
that of the outermost class for a parameter, that of the interface for a member. Here is where
the choice is right, for the classes as they stand in the annotations.
-/
namespace SplitModels

open TypeScriptTypes TypeInterfaces ReferenceClosure WorkLists

/-- How a class stands in a type: by itself, with arguments, or through one of its members in a
`Literal`. -/
inductive Manner where
  | alone
  | applied (args : List PyType)
  | member

structure Occurrence where
  cls : Cls
  manner : Manner

namespace Occurrence

variable (display : Cls → List PyType → String)

/-- What is written for it in an annotation with the given suffix. -/
def named (suffix : String) (o : Occurrence) : Reference :=
  (o.cls, match o.manner with
    | .alone => o.cls.tsName suffix
    | .applied args => o.cls.headName (display o.cls args) suffix
    | .member => o.cls.name)

/-- A suffix would make it the name of an interface: it is no member of an enumeration, and
pydantic gives the parametrized model the name of its origin. -/
def Nameable (o : Occurrence) : Prop :=
  match o.manner with
  | .alone => True
  | .applied args => display o.cls args = o.cls.name
  | .member => False

variable {display} {c : Cls} {suffix : String}

theorem named_alone (hsplit : c.split = true) (hsuffix : suffix ≠ "") :
    named display suffix ⟨c, .alone⟩ = (c, c.name ++ suffix) := by
  simp [named, Cls.tsName, hsplit, hsuffix]

theorem named_applied {args : List PyType} (hsplit : c.split = true) (hsuffix : suffix ≠ "") :
    named display suffix ⟨c, .applied args⟩ = (c, display c args ++ suffix) := by
  simp [named, Cls.headName, hsplit, hsuffix]

variable {o : Occurrence}

/-- With a suffix, what can be named has the name of that interface. -/
theorem named_of_nameable (hsplit : o.cls.split = true) (hsuffix : suffix ≠ "")
    (h : o.Nameable display) :
    named display suffix o = (o.cls, o.cls.name ++ suffix) := by
  obtain ⟨c, manner⟩ := o
  cases manner with
  | alone => exact named_alone hsplit hsuffix
  | applied args =>
    have hdisplay : display c args = c.name := h
    rw [named_applied hsplit hsuffix, hdisplay]
  | member => exact h.elim

/-- Without one, a split model has its bare name. -/
theorem named_empty : named display "" o = (o.cls, o.cls.name) := by
  obtain ⟨c, manner⟩ := o
  cases manner <;> simp [named]

theorem bare_not_declared (hsplit : c.split = true) : c.name ∉ declaredNames c := by
  intro hmem
  simp only [declaredNames, Cls.suffixes, hsplit, if_true, List.map_cons, List.map_nil,
    List.mem_cons,
    List.not_mem_nil, or_false] at hmem
  rcases hmem with h | h
  · have := congrArg String.length h
    simp at this
  · have := congrArg String.length h
    simp at this

theorem output_ne_input (a b : String) : a ++ "Output" ≠ b ++ "Input" := by
  intro h
  have hreverse := congrArg (fun s : String => s.toList.reverse[3]?) h
  simp at hreverse

/-- A text with a suffix is the name of an interface just where it is the class's name before it. -/
theorem suffixed_declared (hsplit : c.split = true) (hsuffix : suffix = "Input" ∨ suffix = "Output")
    (name : String) :
    name ++ suffix ∈ declaredNames c ↔ name = c.name := by
  simp only [declaredNames, Cls.suffixes, hsplit, if_true, List.map_cons, List.map_nil,
    List.mem_cons,
    List.not_mem_nil, or_false]
  rcases hsuffix with rfl | rfl
  · constructor
    · rintro (h | h)
      · exact (String.append_left_inj _).mp h
      · exact absurd h.symm (output_ne_input _ _)
    · rintro rfl
      exact .inl rfl
  · constructor
    · rintro (h | h)
      · exact absurd h (output_ne_input _ _)
      · exact (String.append_left_inj _).mp h
    · rintro rfl
      exact .inr rfl

/-- A use of a split class is declared exactly when it is nameable. -/
theorem named_declared_iff (hsplit : o.cls.split = true)
    (hsuffix : suffix = "Input" ∨ suffix = "Output") :
    (named display suffix o).2 ∈ declaredNames o.cls ↔ o.Nameable display := by
  have hne : suffix ≠ "" := by rcases hsuffix with rfl | rfl <;> decide
  obtain ⟨c, manner⟩ := o
  cases manner with
  | alone =>
    rw [named_alone hsplit hne]
    exact iff_of_true ((suffixed_declared hsplit hsuffix _).mpr rfl) trivial
  | applied args =>
    rw [named_applied hsplit hne]
    exact suffixed_declared hsplit hsuffix _
  | member => exact iff_of_false (bare_not_declared hsplit) id

end Occurrence

section Annotations

variable (ν : TypeVar → List Occurrence)

mutual

/-- The classes that are written for a type; `ν` has those of the variables. -/
def occurrences : PyType → List Occurrence
  | .typeVar v => ν v
  | .cls c => [⟨c, .alone⟩]
  | .model origin args => ⟨origin, .applied args⟩ :: occurrencesList args
  | .root _ t | .classVar t | .list t | .frozenset t | .set t | .annotated t => occurrences t
  | .tuple args | .union _ args => occurrencesList args
  | .dict key value => occurrences key ++ occurrences value
  | .literal values => (values.filterMap literalEnum).map fun e => ⟨e, .member⟩
  | .validated _ input => occurrences input
  | .scalar _ | .ellipsis | .opaqueRoot _ _ | .other => []

def occurrencesList : List PyType → List Occurrence
  | [] => []
  | t :: rest => occurrences t ++ occurrencesList rest

end

mutual

/-- The classes among them that stand in the input type of a validator or for a variable. -/
def hidden : PyType → List Cls
  | .typeVar v => (ν v).map Occurrence.cls
  | .model _ args | .tuple args | .union _ args => hiddenList args
  | .root _ t | .classVar t | .list t | .frozenset t | .set t | .annotated t => hidden t
  | .dict key value => hidden key ++ hidden value
  | .validated _ input => (occurrences ν input).map Occurrence.cls
  | .scalar _ | .ellipsis | .cls _ | .opaqueRoot _ _ | .literal _ | .other => []

def hiddenList : List PyType → List Cls
  | [] => []
  | t :: rest => hidden t ++ hiddenList rest

end

variable {ν} {display : Cls → List PyType → String} {suffix : String} {ρ : TypeVar → List Reference}

mutual

/-- The mapper writes the occurrences of an annotation, all with one suffix. -/
theorem references_eq (hρ : ∀ v, ρ v = (ν v).map (Occurrence.named display suffix)) : ∀ t : PyType,
    references display suffix ρ t = (occurrences ν t).map (Occurrence.named display suffix)
  | .typeVar v => hρ v
  | .cls c => rfl
  | .model origin args => congrArg (List.cons _) (referencesList_eq hρ args)
  | .root _ t => references_eq hρ t
  | .classVar t => references_eq hρ t
  | .list t => references_eq hρ t
  | .frozenset t => references_eq hρ t
  | .set t => references_eq hρ t
  | .annotated t => references_eq hρ t
  | .tuple args => referencesList_eq hρ args
  | .union _ args => referencesList_eq hρ args
  | .dict key value => by
    rw [references, occurrences, List.map_append, references_eq hρ key, references_eq hρ value]
  | .literal values => by
    rw [references, occurrences, List.map_map]
    rfl
  | .validated _ input => references_eq hρ input
  | .scalar _ | .ellipsis | .opaqueRoot _ _ | .other => rfl

theorem referencesList_eq (hρ : ∀ v, ρ v = (ν v).map (Occurrence.named display suffix)) :
    ∀ ts : List PyType,
    referencesList display suffix ρ ts =
      (occurrencesList ν ts).map (Occurrence.named display suffix)
  | [] => rfl
  | t :: rest => by
    rw [referencesList, occurrencesList, List.map_append, references_eq hρ t,
      referencesList_eq hρ rest]

end

theorem classes_named (os : List Occurrence) :
    (os.map (Occurrence.named display suffix)).map Prod.fst = os.map Occurrence.cls := by
  rw [List.map_map]
  rfl

mutual

theorem concealed_eq (hρ : ∀ v, ρ v = (ν v).map (Occurrence.named display suffix)) : ∀ t : PyType,
    concealed display suffix ρ t = hidden ν t
  | .typeVar v => by rw [concealed, hidden, hρ, classes_named]
  | .model _ args => concealedList_eq hρ args
  | .root _ t => concealed_eq hρ t
  | .classVar t => concealed_eq hρ t
  | .list t => concealed_eq hρ t
  | .frozenset t => concealed_eq hρ t
  | .set t => concealed_eq hρ t
  | .annotated t => concealed_eq hρ t
  | .tuple args => concealedList_eq hρ args
  | .union _ args => concealedList_eq hρ args
  | .dict key value => by rw [concealed, hidden, concealed_eq hρ key, concealed_eq hρ value]
  | .validated _ input => by rw [concealed, hidden, references_eq hρ, classes_named]
  | .scalar _ | .ellipsis | .cls _ | .opaqueRoot _ _ | .literal _ | .other => rfl

theorem concealedList_eq (hρ : ∀ v, ρ v = (ν v).map (Occurrence.named display suffix)) :
    ∀ ts : List PyType,
    concealedList display suffix ρ ts = hiddenList ν ts
  | [] => rfl
  | t :: rest => by rw [concealedList, hiddenList, concealed_eq hρ t, concealedList_eq hρ rest]

end

/-- The same where nothing stands for the variables. -/
theorem references_closed (t : PyType) : references display suffix (fun _ => []) t =
    (occurrences (fun _ => []) t).map (Occurrence.named display suffix) :=
  references_eq (fun _ => List.map_nil.symm) t

theorem concealed_closed (t : PyType) :
    concealed display suffix (fun _ => []) t = hidden (fun _ => []) t :=
  concealed_eq (fun _ => List.map_nil.symm) t

end Annotations

/-- A place of the output: the occurrences of an annotation, those that are hidden, and the suffix
they are written with. -/
structure Place where
  occurrences : List Occurrence
  hidden : List Cls
  suffix : String

/-- The names in the output are those of the place. -/
structure Shows (w : World) (p : Place) (spot : Spot) : Prop where
  references : spot.references = p.occurrences.map (Occurrence.named w.display p.suffix)
  concealed : spot.concealed = p.hidden

/-- What the type variables of a mapping stand for. -/
def standsFor (w : World) (mapping : TypeVar → Option PyType) : TypeVar → List Occurrence :=
  boundTo mapping occurrences w.limit

/-- A type in a signature. -/
def signaturePlace (w : World) (t : Signature) : Place :=
  ⟨occurrences (standsFor w t.mapping) t.type, hidden (standsFor w t.mapping) t.type, t.suffix⟩

def memberPlace (suffix : String) (t : PyType) : Place :=
  ⟨occurrences (fun _ => []) t, hidden (fun _ => []) t, suffix⟩

/-- A base, as the class that it is. -/
def baseOccurrence : PyType → Option Occurrence
  | .cls c | .root c _ | .opaqueRoot c [] => some ⟨c, .alone⟩
  | .model c args | .opaqueRoot c args => some ⟨c, .applied args⟩
  | _ => none

/-- A split base of a split model is written by its own name, other bases as types are. -/
def baseOccurrences (owner : Bool) (b : PyType) : List Occurrence :=
  match baseOccurrence b with
  | some o => if o.cls.split && owner then [o] else occurrences (fun _ => []) b
  | none => occurrences (fun _ => []) b

def basePlace (suffix : String) (b : PyType) : Place :=
  ⟨baseOccurrences (suffix != "") b, hidden (fun _ => []) b, suffix⟩

section Spots

variable (w : World) (style : EnumStyle)

/-- The mapper writes what stands for the variables, however deep they are entered. -/
theorem boundTo_named (mapping : TypeVar → Option PyType) (suffix : String) (depth : Nat)
    (v : TypeVar) :
    boundTo mapping (references w.display suffix) depth v =
      (boundTo mapping occurrences depth v).map (Occurrence.named w.display suffix) := by
  induction depth generalizing v with
  | zero => rfl
  | succ depth ih =>
    rw [boundTo, boundTo]
    cases mapping v with
    | none => rfl
    | some u => exact references_eq ih u

theorem signature_shows (t : Signature) : Shows w (signaturePlace w t) (t.spot w style) where
  references := references_eq (boundTo_named w t.mapping t.suffix w.limit) t.type
  concealed := concealed_eq (boundTo_named w t.mapping t.suffix w.limit) t.type

theorem member_shows (suffix : String) (t : PyType) :
    Shows w (memberPlace suffix t) (w.memberSpot style suffix t) :=
  ⟨references_closed t, concealed_closed t⟩

/-- The name of a base is the one that a suffix is put behind. -/
theorem baseName_eq (b : PyType) :
    (∃ o, baseOccurrence b = some o ∧ ∃ name, World.baseName w b = some (o.cls, name) ∧
      ∀ suffix, o.cls.split = true → suffix ≠ "" →
        (o.cls, name ++ suffix) = o.named w.display suffix) ∨
    (baseOccurrence b = none ∧ World.baseName w b = none) := by
  cases b with
  | cls c =>
    exact .inl ⟨⟨c, .alone⟩, rfl, c.name, rfl, fun s hs hne => (Occurrence.named_alone hs hne).symm⟩
  | root c u =>
    exact .inl ⟨⟨c, .alone⟩, rfl, c.name, rfl, fun s hs hne => (Occurrence.named_alone hs hne).symm⟩
  | model c args =>
    exact .inl ⟨⟨c, .applied args⟩, rfl, w.display c args, rfl,
      fun s hs hne => (Occurrence.named_applied hs hne).symm⟩
  | opaqueRoot c args =>
    cases args with
    | nil =>
      exact .inl ⟨⟨c, .alone⟩, rfl, c.name, rfl,
        fun s hs hne => (Occurrence.named_alone hs hne).symm⟩
    | cons u args =>
      exact .inl ⟨⟨c, .applied (u :: args)⟩, rfl, w.display c (u :: args), rfl,
        fun s hs hne => (Occurrence.named_applied hs hne).symm⟩
  | _ => exact .inr ⟨rfl, rfl⟩

/-- The place of a base shows its names. -/
theorem base_shows (suffix : String) (b : PyType) :
    Shows w (basePlace suffix b) (w.baseSpot style suffix b) where
  references := by
    change w.baseReferences suffix b =
      (baseOccurrences (suffix != "") b).map (Occurrence.named w.display suffix)
    unfold World.baseReferences baseOccurrences
    rcases baseName_eq w b with ⟨o, ho, name, hname, hnamed⟩ | ⟨ho, hname⟩
    · simp only [ho, hname]
      by_cases hsplit : o.cls.split = true ∧ suffix ≠ ""
      · have hboth : (o.cls.split && suffix != "") = true := by simpa using hsplit
        rw [if_pos hsplit, if_pos hboth, hnamed suffix hsplit.1 hsplit.2]
        rfl
      · have hnot : ¬ (o.cls.split && suffix != "") = true := by simpa using hsplit
        rw [if_neg hsplit, if_neg hnot, references_closed]
    · simp only [ho, hname, references_closed]
  concealed := concealed_closed b

end Spots

/-- `input_suffix` finds a split class. -/
def splitItself : PyType → Bool
  | .cls c | .model c _ | .root c _ | .opaqueRoot c _ => c.split
  | _ => false

variable {w : World} (ms : Microservice w)

/-- The two ways of a value. -/
inductive Direction where
  | toServer
  | fromServer

def Direction.suffix : Direction → String
  | .toServer => "Input"
  | .fromServer => "Output"

/-- The places of one interface of a class. -/
def variantSpots (w : World) (style : EnumStyle) (t : PyType) (c : Cls)
    (suffix : String) : List Spot :=
  (w.members t).map (w.memberSpot style suffix) ++ (w.validBases c).map (w.baseSpot style suffix)

/-- The names that a value may have in one direction: those of the arguments or of the return
types, and those in an interface that such a name is the name of. -/
inductive Travels (types : PyType → Prop) : Direction → Reference → Prop
  | argument {k : Controller} {e : Endpoint} {p : Parameter} {r : Reference}
      (hk : k ∈ ms.controllers)
      (he : e ∈ k.endpoints) (hp : p ∈ e.parameters)
      (hr : r ∈ ((k.written p).spot w ms.enumStyle).references) :
      Travels types .toServer r
  | result {k : Controller} {e : Endpoint} {r : Reference} (hk : k ∈ ms.controllers)
      (he : e ∈ k.endpoints)
      (hr : r ∈ ((k.returned e).spot w ms.enumStyle).references) :
      Travels types .fromServer r
  | inside {d : Direction} {r r' : Reference} {t : PyType} {suffix : String} {spot : Spot}
      (h : Travels types d r) (ht : t ∈ ms.messages ∨ types t) (hclass : w.classOf t = some r.1)
      (henum : w.isEnum t = false) (hsuffix : suffix ∈ r.1.suffixes)
        (hname : r.2 = r.1.name ++ suffix)
      (hspot : spot ∈ variantSpots w ms.enumStyle t r.1 suffix) (hr : r' ∈ spot.references) :
      Travels types d r'

/-- When the given types have been written, every name of a split model in the text is that of an
interface that is declared for it, and the one of its direction. -/
structure SplitsNamed (types : PyType → Prop) : Prop where
  declared : ∀ spot, ms.Written types spot → ∀ n ∈ typeNames spot.written,
    Accounted n spot.vars spot.references ∧
      ∀ c, (c, n) ∈ spot.references → c.split = true → Declared w types (c, n)
  messages : ∀ r ∈ ms.messageMap, r.1.split = true →
    Declared w (fun t => t ∈ ms.messages ∨ types t) r
  directed : ∀ d r, Travels ms types d r → r.1.split = true → r.2 = r.1.name ++ d.suffix

/-- And so at the end of every run of the work list, where the generator returns. -/
def SplitsAlwaysNamed : Prop :=
  ms.Returns → ∀ s, Runs w.workList ms.initial s → s.backlog = ∅ → SplitsNamed ms (· ∈ s.processed)

/-- The split models of an annotation stand where a suffix reaches them, can be named with one, and
are found by the annotations. -/
def Reaches (suffixed : Bool) (os : List Occurrence) (hidden : List Cls) : Prop :=
  ∀ o ∈ os, o.cls.split = true →
    suffixed = true ∧ o.Nameable w.display ∧ (w.info o.cls.ref).primitive = false ∧
    (o.cls ∈ hidden → Known ms o.cls)

/-- Where split models stand: in return types; in the arguments that are split classes themselves
and no form fields; in the interfaces of split models. None is a message, if its `__name__` is
not that of an interface of it. -/
structure WellPlaced : Prop where
  results : ∀ k ∈ ms.controllers, ∀ e ∈ k.endpoints,
    Reaches ms true (occurrences (standsFor w k.mapping) e.returnType)
      (hidden (standsFor w k.mapping) e.returnType)
  arguments : ∀ k ∈ ms.controllers, ∀ e ∈ k.endpoints, ∀ p ∈ e.parameters, p.kind ≠ .text →
    Reaches ms (p.kind != .form && splitItself (k.resolve p))
      (occurrences (standsFor w (k.mappingFor p)) (k.resolve p))
      (hidden (standsFor w (k.mappingFor p)) (k.resolve p))
  interfaces : ∀ t c, (t ∈ ms.messages ∨ ms.Reached t ∧ ¬ w.isPrimitive t = true) →
    w.classOf t = some c →
    w.isEnum t = false →
      (∀ m ∈ w.members t, Reaches ms c.split (occurrences (fun _ => []) m)
        (hidden (fun _ => []) m)) ∧
      ∀ b ∈ w.validBases c, Reaches ms c.split (baseOccurrences c.split b) (hidden (fun _ => []) b)
  messages : ∀ r ∈ ms.messageMap, r.1.split = true → r.2 ∈ declaredNames r.1 ∧
    ((∃ t ∈ ms.messages, w.classOf t = some r.1) ∨ Known ms r.1)

section Places

/-- A place that leaves no split model without a declared name. -/
def GoodSpot (spot : Spot) : Prop :=
  ∀ r ∈ spot.references, r.1.split = true →
    (w.info r.1.ref).primitive = false ∧ r.2 ∈ declaredNames r.1 ∧
    (r.1 ∈ spot.concealed → Known ms r.1)

/-- A place is good exactly when what occurs in it is reached. -/
theorem good_place_iff {p : Place} {spot : Spot} (h : Shows w p spot)
    (hsuffix : p.suffix = "" ∨ p.suffix = "Input" ∨ p.suffix = "Output") :
    GoodSpot ms spot ↔ Reaches ms (p.suffix != "") p.occurrences p.hidden := by
  have hmem : ∀ r, r ∈ spot.references ↔ ∃ o ∈ p.occurrences, o.named w.display p.suffix = r :=
    fun r => by rw [h.references, List.mem_map]
  rw [GoodSpot, h.concealed]
  -- the two conditions on the class are the same, those on the name are compared
  have hname : ∀ o : Occurrence, o.cls.split = true →
      ((o.named w.display p.suffix).2 ∈ declaredNames o.cls ↔
        (p.suffix != "") = true ∧ o.Nameable w.display) := by
    intro o hsplit
    rcases hsuffix with hempty | hsuffix
    · rw [hempty, Occurrence.named_empty]
      simp [Occurrence.bare_not_declared hsplit]
    · have hne : (p.suffix != "") = true := by rcases hsuffix with h | h <;> rw [h] <;> decide
      rw [Occurrence.named_declared_iff hsplit hsuffix, hne]
      simp
  constructor
  · intro hgood o ho hsplit
    obtain ⟨hprimitive, hdeclared, hknown⟩ := hgood _ ((hmem _).mpr ⟨o, ho, rfl⟩) hsplit
    obtain ⟨hne, hnameable⟩ := (hname o hsplit).mp hdeclared
    exact ⟨hne, hnameable, hprimitive, hknown⟩
  · intro hreaches r hr hsplit
    obtain ⟨o, ho, rfl⟩ := (hmem r).mp hr
    obtain ⟨hne, hnameable, hprimitive, hknown⟩ := hreaches o ho hsplit
    exact ⟨hprimitive, (hname o hsplit).mpr ⟨hne, hnameable⟩, hknown⟩

/-- In a place with well-placed models a split model has the suffix of the place. -/
theorem named_of_reaches {p : Place} {spot : Spot} (hshows : Shows w p spot)
    (h : Reaches ms (p.suffix != "") p.occurrences p.hidden) {r : Reference}
    (hr : r ∈ spot.references) (hsplit : r.1.split = true) :
    p.suffix ≠ "" ∧ r.2 = r.1.name ++ p.suffix := by
  rw [hshows.references] at hr
  obtain ⟨o, ho, rfl⟩ := List.mem_map.mp hr
  obtain ⟨hne, hnameable, -⟩ := h o ho hsplit
  have hsuffix : p.suffix ≠ "" := by simpa using hne
  refine ⟨hsuffix, ?_⟩
  rw [Occurrence.named_of_nameable hsplit hsuffix hnameable]

theorem inputSuffix_eq (t : PyType) : inputSuffix t = if splitItself t then "Input" else "" := by
  cases t <;> rfl

/-- A header or a cookie is written as a string. -/
theorem written_text (k : Controller) {p : Parameter} (h : p.kind = .text) :
    k.written p = ⟨k.mappingFor p, .scalar .str, ""⟩ := by
  unfold Controller.written
  rw [h]

/-- A parameter that is no text is written with "Input" where it is a split class and no form
field. -/
theorem written_eq (k : Controller) {p : Parameter} (h : p.kind ≠ .text) :
    k.written p = ⟨k.mappingFor p, k.resolve p,
      if (p.kind != .form && splitItself (k.resolve p)) = true then "Input" else ""⟩ := by
  unfold Controller.written
  cases hkind : p.kind with
  | text => exact absurd hkind h
  | form => rfl
  | _ => rw [inputSuffix_eq]; rfl

theorem suffixed_eq {c : Cls} {suffix : String} (h : suffix ∈ c.suffixes) :
    (suffix != "") = c.split ∧ (suffix = "" ∨ suffix = "Input" ∨ suffix = "Output") := by
  unfold Cls.suffixes at h
  cases hsplit : c.split with
  | true =>
    rw [hsplit, if_pos rfl] at h
    simp only [List.mem_cons, List.not_mem_nil, or_false] at h
    rcases h with rfl | rfl
    · exact ⟨rfl, .inr (.inl rfl)⟩
    · exact ⟨rfl, .inr (.inr rfl)⟩
  | false =>
    rw [hsplit] at h
    obtain rfl : suffix = "" := by simpa using h
    exact ⟨rfl, .inl rfl⟩

end Places

section Whole

theorem argument_good_iff (k : Controller) {p : Parameter} (h : p.kind ≠ .text) :
    GoodSpot ms ((k.written p).spot w ms.enumStyle) ↔
      Reaches ms (p.kind != .form && splitItself (k.resolve p))
        (occurrences (standsFor w (k.mappingFor p)) (k.resolve p))
        (hidden (standsFor w (k.mappingFor p)) (k.resolve p)) := by
  rw [written_eq k h]
  generalize (p.kind != .form && splitItself (k.resolve p)) = suffixed
  cases suffixed with
  | true => exact good_place_iff ms (signature_shows w ms.enumStyle _) (.inr (.inl rfl))
  | false => exact good_place_iff ms (signature_shows w ms.enumStyle _) (.inl rfl)

theorem text_good (k : Controller) {p : Parameter} (h : p.kind = .text) :
    GoodSpot ms ((k.written p).spot w ms.enumStyle) := by
  intro r hr
  rw [written_text k h] at hr
  cases hr

theorem result_good_iff (k : Controller) (e : Endpoint) :
    GoodSpot ms ((k.returned e).spot w ms.enumStyle) ↔
      Reaches ms true (occurrences (standsFor w k.mapping) e.returnType)
        (hidden (standsFor w k.mapping) e.returnType) :=
  good_place_iff ms (signature_shows w ms.enumStyle (k.returned e)) (.inr (.inr rfl))

/-- The interfaces of a class, whichever suffix they have. -/
theorem variant_good_iff (t : PyType) {c : Cls} {suffix : String} (h : suffix ∈ c.suffixes) :
    (∀ spot ∈ variantSpots w ms.enumStyle t c suffix, GoodSpot ms spot) ↔
      (∀ m ∈ w.members t, Reaches ms c.split (occurrences (fun _ => []) m)
        (hidden (fun _ => []) m)) ∧
      ∀ b ∈ w.validBases c, Reaches ms c.split (baseOccurrences c.split b)
        (hidden (fun _ => []) b) := by
  obtain ⟨hsplit, hsuffix⟩ := suffixed_eq h
  unfold variantSpots
  rw [List.forall_mem_append, List.forall_mem_map, List.forall_mem_map, ← hsplit]
  refine and_congr ?_ ?_
  · exact forall₂_congr fun m _ => good_place_iff ms (member_shows w ms.enumStyle suffix m) hsuffix
  · exact forall₂_congr fun b _ => good_place_iff ms (base_shows w ms.enumStyle suffix b) hsuffix

theorem interfaceSpots_eq {t : PyType} {c : Cls} (hclass : w.classOf t = some c)
    (henum : w.isEnum t = false) :
    w.interfaceSpots ms.enumStyle t = c.suffixes.flatMap (variantSpots w ms.enumStyle t c) := by
  unfold World.interfaceSpots
  rw [hclass]
  simp only [henum]
  rfl

/-- An interface is good exactly when its members and bases are. -/
theorem interface_good_iff (t : PyType) :
    (∀ spot ∈ w.interfaceSpots ms.enumStyle t, GoodSpot ms spot) ↔
    ∀ c, w.classOf t = some c → w.isEnum t = false →
      (∀ m ∈ w.members t, Reaches ms c.split (occurrences (fun _ => []) m)
        (hidden (fun _ => []) m)) ∧
      ∀ b ∈ w.validBases c, Reaches ms c.split (baseOccurrences c.split b)
        (hidden (fun _ => []) b) := by
  constructor
  · intro hgood c hclass henum
    obtain ⟨suffix, hsuffix⟩ : ∃ suffix, suffix ∈ c.suffixes := by
      unfold Cls.suffixes
      cases c.split with
      | true => exact ⟨"Input", by simp⟩
      | false => exact ⟨"", by simp⟩
    rw [interfaceSpots_eq ms hclass henum] at hgood
    refine (variant_good_iff ms t hsuffix).mp fun spot hspot => hgood spot ?_
    exact List.mem_flatMap.mpr ⟨suffix, hsuffix, hspot⟩
  · intro hplaced spot hspot
    cases hclass : w.classOf t with
    | none => simp [World.interfaceSpots, hclass] at hspot
    | some c =>
      cases henum : w.isEnum t with
      | true => simp [World.interfaceSpots, hclass, henum] at hspot
      | false =>
        rw [interfaceSpots_eq ms hclass henum] at hspot
        obtain ⟨suffix, hsuffix, hspot⟩ := List.mem_flatMap.mp hspot
        exact (variant_good_iff ms t hsuffix).mpr (hplaced c hclass henum) spot hspot

/-- A name of the map of messages that leaves no split model without a declared name. -/
def GoodMessage (r : Reference) : Prop :=
  r.1.split = true → r.2 ∈ declaredNames r.1 ∧
    ((∃ t ∈ ms.messages, w.classOf t = some r.1) ∨ Known ms r.1)

/-- Every place of the output is good just where split models are well placed. -/
theorem good_iff_wellPlaced :
    (∀ spot, ms.Written (fun t => ms.Reached t ∧ ¬ w.isPrimitive t = true) spot →
      GoodSpot ms spot) ∧
      (∀ r ∈ ms.messageMap, GoodMessage ms r) ↔ WellPlaced ms := by
  constructor
  · rintro ⟨hgood, hmessages⟩
    have hsignature :
        ∀ k ∈ ms.controllers, ∀ t ∈ k.signatures, GoodSpot ms (t.spot w ms.enumStyle) :=
      fun k hk t ht => hgood _ (.inl (List.mem_append_left _
        (List.mem_flatMap.mpr ⟨k, hk, List.mem_map_of_mem ht⟩)))
    refine ⟨?_, ?_, ?_, hmessages⟩
    · intro k hk e he
      refine (result_good_iff ms k e).mp (hsignature k hk _ ?_)
      exact List.mem_flatMap.mpr ⟨e, he, List.mem_cons_self⟩
    · intro k hk e he p hp hkind
      refine (argument_good_iff ms k hkind).mp (hsignature k hk _ ?_)
      exact List.mem_flatMap.mpr ⟨e, he, List.mem_cons_of_mem _ (List.mem_map_of_mem hp)⟩
    · intro t c ht
      refine (interface_good_iff ms t).mp (fun spot hspot => hgood spot ?_) c
      rcases ht with hmessage | hreached
      · exact .inl (List.mem_append_right _ (List.mem_flatMap.mpr ⟨t, hmessage, hspot⟩))
      · exact .inr ⟨t, hreached, hspot⟩
  · refine fun hplaced => ⟨fun spot hspot => ?_, hplaced.messages⟩
    have hinterface : ∀ t, (t ∈ ms.messages ∨ ms.Reached t ∧ ¬ w.isPrimitive t = true) →
        spot ∈ w.interfaceSpots ms.enumStyle t → GoodSpot ms spot := fun t ht =>
      (interface_good_iff ms t).mpr (fun c => hplaced.interfaces t c ht) spot
    rcases hspot with hspot | ⟨t, ht, hspot⟩
    · rcases List.mem_append.mp hspot with hspot | hspot
      · obtain ⟨k, hk, hspot⟩ := List.mem_flatMap.mp hspot
        obtain ⟨t, ht, rfl⟩ := List.mem_map.mp hspot
        obtain ⟨e, he, ht⟩ := List.mem_flatMap.mp ht
        rcases List.mem_cons.mp ht with rfl | ht
        · exact (result_good_iff ms k e).mpr (hplaced.results k hk e he)
        · obtain ⟨p, hp, rfl⟩ := List.mem_map.mp ht
          by_cases hkind : p.kind = .text
          · exact text_good ms k hkind
          · exact (argument_good_iff ms k hkind).mpr (hplaced.arguments k hk e he p hp hkind)
      · obtain ⟨t, ht, hspot⟩ := List.mem_flatMap.mp hspot
        exact hinterface t (.inl ht) hspot
    · exact hinterface t (.inr ht) hspot

end Whole

section Directions

variable {ms}

/-- A split model in an argument has the name of its Input interface. -/
theorem argument_named (h : WellPlaced ms) {k : Controller} (hk : k ∈ ms.controllers) {e : Endpoint}
    (he : e ∈ k.endpoints) {p : Parameter} (hp : p ∈ e.parameters) {r : Reference}
    (hr : r ∈ ((k.written p).spot w ms.enumStyle).references) (hsplit : r.1.split = true) :
    r.2 = r.1.name ++ "Input" := by
  by_cases hkind : p.kind = .text
  · rw [written_text k hkind] at hr
    cases hr
  · have hreaches := h.arguments k hk e he p hp hkind
    have hshows := signature_shows w ms.enumStyle
    rw [written_eq k hkind] at hr
    cases hsuffixed : (p.kind != .form && splitItself (k.resolve p)) with
    | true =>
      rw [hsuffixed] at hr hreaches
      exact (named_of_reaches ms
        (hshows ⟨k.mappingFor p, k.resolve p, "Input"⟩) hreaches hr hsplit).2
    | false =>
      rw [hsuffixed] at hr hreaches
      exact absurd rfl (named_of_reaches ms
        (hshows ⟨k.mappingFor p, k.resolve p, ""⟩) hreaches hr hsplit).1

theorem result_named (h : WellPlaced ms) {k : Controller} (hk : k ∈ ms.controllers) {e : Endpoint}
    (he : e ∈ k.endpoints) {r : Reference}
    (hr : r ∈ ((k.returned e).spot w ms.enumStyle).references)
    (hsplit : r.1.split = true) : r.2 = r.1.name ++ "Output" := by
  have hshows := signature_shows w ms.enumStyle (k.returned e)
  exact (named_of_reaches ms hshows (h.results k hk e he) hr hsplit).2

/-- A split model in an interface has the suffix of that interface. -/
theorem variant_named (h : WellPlaced ms) {t : PyType} {c : Cls}
    (ht : t ∈ ms.messages ∨ ms.Reached t ∧ ¬ w.isPrimitive t = true) (hclass : w.classOf t = some c)
    (henum : w.isEnum t = false) {suffix : String} (hsuffix : suffix ∈ c.suffixes) {spot : Spot}
    (hspot : spot ∈ variantSpots w ms.enumStyle t c suffix) {r : Reference}
    (hr : r ∈ spot.references) (hsplit : r.1.split = true) :
    suffix ≠ "" ∧ r.2 = r.1.name ++ suffix := by
  obtain ⟨hmembers, hbases⟩ := h.interfaces t c ht hclass henum
  obtain ⟨hsuffixed, -⟩ := suffixed_eq hsuffix
  rw [← hsuffixed] at hmembers hbases
  rcases List.mem_append.mp hspot with hspot | hspot
  · obtain ⟨m, hm, rfl⟩ := List.mem_map.mp hspot
    exact named_of_reaches ms (member_shows w ms.enumStyle suffix m) (hmembers m hm) hr hsplit
  · obtain ⟨b, hb, rfl⟩ := List.mem_map.mp hspot
    exact named_of_reaches ms (base_shows w ms.enumStyle suffix b) (hbases b hb) hr hsplit

/-- Along a direction the suffix stays that of the direction: an unsplit model in between names no
split one, and a split one is followed through the interface of its name. -/
theorem travels_named (h : WellPlaced ms) {d : Direction} {r : Reference}
    (htravels : Travels ms (fun t => ms.Reached t ∧ ¬ w.isPrimitive t = true) d r)
    (hsplit : r.1.split = true) :
    r.2 = r.1.name ++ d.suffix := by
  induction htravels with
  | argument hk he hp hr => exact argument_named h hk he hp hr hsplit
  | result hk he hr => exact result_named h hk he hr hsplit
  | @inside d r r' t suffix spot _ ht hclass henum hsuffix hname hspot hr ih =>
    obtain ⟨hne, hnamed⟩ := variant_named h ht hclass henum hsuffix hspot hr hsplit
    cases howner : r.1.split with
    | true =>
      have hsame : suffix = d.suffix :=
        (String.append_right_inj _).mp (hname.symm.trans (ih howner))
      rw [hnamed, hsame]
    | false =>
      rw [Cls.suffixes, howner] at hsuffix
      exact absurd (by simpa using hsuffix) hne

end Directions

/-- The names of the split models in the text are the references to them. -/
theorem splits_declared_iff (types : PyType → Prop) (spot : Spot) :
    (∀ n ∈ typeNames spot.written, Accounted n spot.vars spot.references ∧
      ∀ c, (c, n) ∈ spot.references → c.split = true → Declared w types (c, n)) ↔
      ∀ r ∈ spot.references, r.1.split = true → Declared w types r :=
  spot.forall_names_iff (P := fun r => r.1.split = true → Declared w types r)

/-- If every split class is named, it is well placed. -/
theorem wellPlaced_of_named (hreturns : ms.Returns) (hnamed : SplitsAlwaysNamed ms) :
    WellPlaced ms := by
  obtain ⟨s, hrun, hend⟩ := exists_end w.workList (finite_types ms)
  have hsplits := hnamed hreturns s hrun hend
  rw [processed_eq ms hrun hend] at hsplits
  refine (good_iff_wellPlaced ms).mp ⟨fun spot hspot r hr hsplit => ?_, fun r hr hsplit => ?_⟩
  · obtain ⟨hknown, hname⟩ :=
      (splits_declared_iff _ spot).mp (hsplits.declared spot hspot) r hr hsplit
    exact ⟨primitive_of_known hknown, hname, fun _ => hknown⟩
  · exact (message_declared_iff ms r).1 (hsplits.messages r hr hsplit)

/-- Split models are named by a declared interface of their direction, in every microservice and
every order of the work list, just where they are well placed or a recursion goes too deep. -/
theorem splits_named_iff : SplitsAlwaysNamed ms ↔ (Bounded ms → WellPlaced ms) := by
  constructor
  · exact fun hnamed hbounded => wellPlaced_of_named ms ((returns_iff_bounded ms).2 hbounded) hnamed
  · intro himp hreturns s hrun hend
    have hbounded := (returns_iff_bounded ms).1 hreturns
    have hplaced := himp hbounded
    obtain ⟨hgood, hmessages⟩ := (good_iff_wellPlaced ms).mpr hplaced
    rw [processed_eq ms hrun hend]
    refine ⟨fun spot hspot => (splits_declared_iff _ spot).mpr fun r hr hsplit => ?_,
      fun r hr hsplit => (message_declared_iff ms r).2 (hmessages r hr hsplit),
      fun d r htravels hsplit => travels_named hplaced htravels hsplit⟩
    obtain ⟨hprimitive, hname, hconcealed⟩ := hgood spot hspot r hr hsplit
    refine ⟨?_, hname⟩
    by_cases hvisible : r.1 ∈ spot.concealed
    · exact hconcealed hvisible
    · exact written_known hbounded hspot hr hprimitive hvisible

def itemClass : Cls := ⟨4, "Item", true⟩

/-- `def put(self, items: list[Item]) -> int`. -/
def putItems : Parameter where
  kind := .plain
  type := .list (.cls itemClass)

def items : Controller where
  mapping _ := none
  endpoints := [{ returnType := .scalar .int, parameters := [putItems] }]

theorem wrapperClass_plain : (userWorld.info wrapperClass.ref).primitive = false := rfl

def itemService : Microservice userWorld where
  wrapper := wrapperClass
  controllers := [items]
  wrapperIsModel := wrapperClass_plain

theorem itemService_returns : itemService.Returns := by
  refine userWorld_returns (fun t ht => ?_) rfl ⟨_, rfl⟩ fun k hk t ht => ?_
  · have hroots : itemService.roots = some [.cls wrapperClass, .scalar .int, .cls itemClass] := rfl
    simp only [hroots, Option.getD_some, List.mem_cons, List.not_mem_nil, or_false] at ht
    rcases ht with rfl | rfl | rfl
    · exact .inl ⟨_, rfl⟩
    · exact .inr rfl
    · exact .inl ⟨_, rfl⟩
  · obtain rfl : k = items := List.mem_singleton.mp hk
    rcases List.mem_pair.mp ht with rfl | rfl
    · exact ⟨_, rfl⟩
    · exact ⟨_, rfl⟩

/-- The argument is written `Array<Item>`, and the interfaces are `ItemInput` and `ItemOutput`. -/
theorem list_argument_unnamed : itemService.Returns ∧
    typeNames ((items.written putItems).spot userWorld .enum).written = ["Array", "Item"] ∧
    declaredNames itemClass = ["ItemInput", "ItemOutput"] ∧ ¬ SplitsAlwaysNamed itemService := by
  refine ⟨itemService_returns, rfl, rfl, ?_⟩
  intro hnamed
  have harguments := (wellPlaced_of_named itemService itemService_returns hnamed).arguments items
    (by simp [itemService]) { returnType := .scalar .int, parameters := [putItems] }
      (by simp [items]) putItems
    (by simp) (by decide)
  obtain ⟨hitself, -⟩ := harguments ⟨itemClass, .alone⟩ (List.mem_singleton.mpr rfl) rfl
  cases hitself

/-- `RegisterWebSocketMessage(Item)` on a controller without endpoints. -/
def itemMessages : Microservice userWorld where
  wrapper := wrapperClass
  messages := [.cls itemClass]
  wrapperIsModel := wrapperClass_plain

/-- The map of messages has `Item`, which is declared nowhere either. -/
theorem message_unnamed :
    itemMessages.messageMap = [(itemClass, "Item")] ∧ ¬ SplitsAlwaysNamed itemMessages := by
  refine ⟨rfl, fun hnamed => ?_⟩
  have hreturns : itemMessages.Returns :=
    userWorld_returns (fun t ht => .inl ⟨wrapperClass, List.mem_singleton.mp ht⟩) rfl ⟨_, rfl⟩ nofun
  have hmessages := (wellPlaced_of_named itemMessages hreturns hnamed).messages
  obtain ⟨hname, -⟩ := hmessages (itemClass, "Item") (List.mem_singleton.mpr rfl) rfl
  exact Occurrence.bare_not_declared rfl hname

end SplitModels
