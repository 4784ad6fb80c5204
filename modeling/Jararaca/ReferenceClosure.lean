import Jararaca.TypeBindings
import Jararaca.TypeInterfaces

/-!
# The names of the generated file

`_write_microservice` collects the types of the controllers and hands them to
`write_type_interfaces`. A name in a signature or an interface is declared exactly when it is
one that its class declares and the work list gets to the class, which can only fail for
what stands in the input type of a validator or for a type variable of a controller; and
nothing is written at all where a recursion goes deeper than it may.
-/
namespace ReferenceClosure

open TypeScriptTypes TypeInterfaces WorkLists
open Unfoldings (gather gather_exists_iff mem_gather Chain)
open TypeBindings (getMappedFieldTypeForTs mapped_succ_iff mapped_exists_iff mapper_congr calledVars
  substituted)

/-- How a parameter is declared: a model or another type without `Annotated`; `Header()` or
`Cookie()`; `Form()`; `Body()`; `Query()` or `Path()`; other metadata. -/
inductive ParameterKind where
  | model
  | plain
  | text
  | form
  | body
  | located
  | unmarked
  deriving DecidableEq, Repr

/-- A parameter with its annotation, without `Annotated` where the builder unwraps it. The
type mapping is not used for those of a middleware. -/
structure Parameter where
  kind : ParameterKind
  type : PyType
  ofMiddleware : Bool := false

/-- An endpoint with the parameters, merged by name, of its handler, its dependencies and its
middlewares. `others` are further types that `extract_parameters` comes across, if it does not
end with a `RecursionError`. -/
structure Endpoint where
  returnType : PyType
  parameters : List Parameter := []
  others : Option (List PyType) := some []

/-- A controller with what `get_generic_type_mapping` gives for its type variables. -/
structure Controller where
  mapping : TypeVar → Option PyType
  endpoints : List Endpoint

/-- A microservice: the style of its enumerations, `WebSocketMessageWrapper`, the exposed types,
the controllers and the messages they register. -/
structure Microservice (w : World) where
  enumStyle : EnumStyle := .enum
  wrapper : Cls
  exposed : List PyType := []
  controllers : List Controller := []
  messages : List PyType := []
  wrapperIsModel : (w.info wrapper.ref).primitive = false

def inputSuffix : PyType → String
  | .cls c | .model c _ | .root c _ | .opaqueRoot c _ => if c.split then "Input" else ""
  | _ => ""

section Variables

variable (mapping : TypeVar → Option PyType)

/-- What a variable comes to, its type entered again as deep as the recursion goes. -/
def boundTo {β : Type} (f : (TypeVar → List β) → PyType → List β) : Nat → TypeVar → List β
  | 0, _ => []
  | depth + 1, v => (mapping v).elim [] (f (boundTo f depth))

/-- The variables that it leaves open. -/
def leftOpen : Nat → TypeVar → List TypeVar
  | 0, v => [v]
  | depth + 1, v => (mapping v).elim [v] (openVars (leftOpen depth))

variable (style : EnumStyle) (display : Cls → List PyType → String) (suffix : String)

/-- What the mapper gives for the variables of a type mapping. -/
def emitted : Nat → TypeVar → Option Ts
  | 0, _ => none
  | depth + 1, v => (mapping v).map (getFieldTypeForTs style display suffix (emitted depth))

/-- A result of the mapper is written with these. -/
theorem mapped_eq_emitted {depth : Nat} {t : PyType} {r : Ts}
    (h : getMappedFieldTypeForTs style display suffix mapping (depth + 1) t = some r) :
    getFieldTypeForTs style display suffix (emitted mapping style display suffix depth) t = r := by
  induction depth generalizing t r with
  | zero =>
    obtain ⟨hends, rfl⟩ := (mapped_succ_iff style display suffix).1 h
    refine mapper_congr style display suffix t fun v hv => ?_
    cases hu : mapping v with
    | none => simp [TypeBindings.written, emitted, hu]
    | some u =>
      obtain ⟨s, hs⟩ := hends v hv u hu
      cases hs
  | succ depth ih =>
    obtain ⟨hends, rfl⟩ := (mapped_succ_iff style display suffix).1 h
    refine mapper_congr style display suffix t fun v hv => ?_
    cases hu : mapping v with
    | none => simp [TypeBindings.written, emitted, hu]
    | some u =>
      obtain ⟨s, hs⟩ := hends v hv u hu
      simp [TypeBindings.written, emitted, hu, hs, ih hs]

/-- The names in what the variables come to are accounted for, -/
theorem vars_accounted (depth : Nat) : VarsAccounted (emitted mapping style display suffix depth)
    (leftOpen mapping depth) (boundTo mapping (references display suffix) depth) := by
  induction depth with
  | zero => exact ⟨fun v s h => (nomatch h), fun v _ => List.mem_singleton_self v⟩
  | succ depth ih =>
    refine ⟨fun v s h n hn => ?_, fun v h => ?_⟩
    · obtain ⟨u, hu, rfl⟩ := Option.map_eq_some_iff.1 h
      have haccounted := names_accounted style display suffix ih u hn
      simpa [leftOpen, boundTo, hu] using haccounted
    · have hu : mapping v = none := Option.map_eq_none_iff.1 h
      simp [leftOpen, hu]

/-- and what is named for them is written. -/
theorem vars_written (depth : Nat) : ∀ v, ∀ r ∈ boundTo mapping (references display suffix) depth v,
    r.2 ∈ typeNames ((emitted mapping style display suffix depth v).getD [.name v.name]) := by
  induction depth with
  | zero => exact fun v r h => nomatch h
  | succ depth ih =>
    intro v r h
    cases hu : mapping v with
    | none => simp [boundTo, hu] at h
    | some u =>
      rw [boundTo, hu] at h
      simpa [emitted, hu] using references_written style display suffix ih u h

end Variables

/-- A type in the signature of a method, with the type mapping and the suffix it is written with. -/
structure Signature where
  mapping : TypeVar → Option PyType
  type : PyType
  suffix : String

namespace Signature

variable (w : World) (style : EnumStyle) (s : Signature)

/-- What the mapper gives for the type; no result is a `RecursionError`. -/
def mapped : Option Ts :=
  getMappedFieldTypeForTs style w.display s.suffix s.mapping (w.limit + 1) s.type

/-- The references of what the variables of the type come to. -/
def bound : TypeVar → List Reference := boundTo s.mapping (references w.display s.suffix) w.limit

def spot : Spot where
  written :=
    getFieldTypeForTs style w.display s.suffix
      (emitted s.mapping style w.display s.suffix w.limit) s.type
  vars := openVars (leftOpen s.mapping w.limit) s.type
  references := references w.display s.suffix (s.bound w) s.type
  concealed := concealed w.display s.suffix (s.bound w) s.type
  accounted _ h :=
    names_accounted style w.display s.suffix
      (vars_accounted s.mapping style w.display s.suffix w.limit)
      s.type h
  standing _ h :=
    references_written style w.display s.suffix
      (vars_written s.mapping style w.display s.suffix w.limit)
      s.type h

/-- What is written in the place is what the mapper gives. -/
theorem spot_written {r : Ts} (h : s.mapped w style = some r) : (s.spot w style).written = r :=
  mapped_eq_emitted s.mapping style w.display s.suffix h

/-- The enumerations that the type adds to the parse context. -/
def noted : List Cls := TypeInterfaces.noted (boundTo s.mapping TypeInterfaces.noted w.limit) s.type

end Signature

namespace Controller

variable (w : World) (k : Controller)

/-- The type mapping that a parameter is built with. -/
def mappingFor (p : Parameter) : TypeVar → Option PyType :=
  if p.ofMiddleware then fun _ => none else k.mapping

/-- The type that is built: that of the mapping for a variable. -/
def resolve (p : Parameter) : PyType :=
  match p.type with
  | .typeVar v => (k.mappingFor p v).getD (.typeVar v)
  | t => t

def written (p : Parameter) : Signature :=
  match p.kind with
  | .text => ⟨k.mappingFor p, .scalar .str, ""⟩
  | .form => ⟨k.mappingFor p, k.resolve p, ""⟩
  | .model | .plain | .body | .located | .unmarked =>
    ⟨k.mappingFor p, k.resolve p, inputSuffix (k.resolve p)⟩

def returned (e : Endpoint) : Signature := ⟨k.mapping, e.returnType, "Output"⟩

def endpointSignatures (e : Endpoint) : List Signature := k.returned e :: e.parameters.map k.written

def signatures : List Signature := k.endpoints.flatMap k.endpointSignatures

/-- The types that the extraction of a parameter returns. -/
def collected (p : Parameter) : Option (List PyType) :=
  match p.kind with
  | .text => some [.scalar .str]
  | .model | .body => extractAll w (k.resolve p)
  | .plain | .form | .located | .unmarked => some [k.resolve p]

def endpointTypes (e : Endpoint) : Option (List PyType) :=
  (extractAll w e.returnType).bind fun fromReturn =>
    (gather (k.collected w) e.parameters).bind fun parameters =>
      e.others.bind fun others =>
        (gather (extractAll w) (parameters ++ others)).map (fromReturn ++ ·)

/-- The types that `write_rest_controller_to_typescript_interface` maps. -/
def mappedTypes : Option (List PyType) := gather (k.endpointTypes w) k.endpoints

def spots (style : EnumStyle) : List Spot := k.signatures.map (Signature.spot w style)

/-- The enumerations in the parse context after the controller is written. -/
def context : List Cls := k.signatures.flatMap (Signature.noted w)

end Controller

namespace Microservice

variable {w : World} (ms : Microservice w)

/-- The types that `write_type_interfaces` starts with. -/
def roots : Option (List PyType) :=
  (gather (·.mappedTypes w) ms.controllers).bind fun fromControllers =>
    (gather w.identified ms.messages).map fun fromMessages =>
      .cls ms.wrapper :: ms.exposed ++ fromControllers ++ fromMessages

def context : List PyType :=
  (ms.controllers.flatMap (·.context w) ++ ms.messages.flatMap w.interfaceNoted).map PyType.cls

/-- The signatures and the interfaces that are written before the work list is. -/
def spots : List Spot :=
  ms.controllers.flatMap (·.spots w ms.enumStyle) ++
    ms.messages.flatMap (w.interfaceSpots ms.enumStyle)

/-- The names that `write_websocket_message_map` writes: the `__name__` of each message. -/
def messageMap : List Reference := ms.messages.filterMap w.baseName

def initial : State PyType :=
  WorkLists.start {t | t ∈ ms.roots.getD []} {t | t ∈ ms.context}

/-- The types that the annotations lead to. -/
def Reached (t : PyType) : Prop :=
  WorkLists.Reached w.workList {t | t ∈ ms.roots.getD []} {t | t ∈ ms.context} t

/-- A place in the output when the interfaces of the given types are written. -/
def Written (types : PyType → Prop) (spot : Spot) : Prop :=
  spot ∈ ms.spots ∨ ∃ t, types t ∧ spot ∈ w.interfaceSpots ms.enumStyle t

/-- No recursion of the generator goes too deep: it returns the types and the texts of all
controllers and messages, and what is found in a type that the work list takes. -/
structure Returns : Prop where
  rooted : ∃ ts, ms.roots = some ts
  mapped : ∀ k ∈ ms.controllers, ∀ t ∈ k.signatures, ∃ r, t.mapped w ms.enumStyle = some r
  found : ∀ s, Runs w.workList ms.initial s → ∀ t ∈ s.backlog, ¬ w.isPrimitive t = true →
    ∃ ts, w.identified t = some ts

end Microservice

def declaredNames (c : Cls) : List String := c.suffixes.map (c.name ++ ·)

/-- A name that is declared for its class when the interfaces of the given types are written. -/
def Declared (w : World) (types : PyType → Prop) (r : Reference) : Prop :=
  (∃ t, types t ∧ w.classOf t = some r.1) ∧ r.2 ∈ declaredNames r.1

variable {w : World} (ms : Microservice w)

/-- Every name in a place is built in, that of an open variable, or declared for the class it is
the name of. -/
def DeclaredIn (types : PyType → Prop) (spot : Spot) : Prop :=
  ∀ n ∈ typeNames spot.written, Accounted n spot.vars spot.references ∧
    ∀ c, (c, n) ∈ spot.references → Declared w types (c, n)

/-- The generator returns; the work list ends, processes no type twice, and leaves no name
undeclared, those of the messages among them. -/
def Closes : Prop :=
  ms.Returns ∧
  (¬ ∃ run : ℕ → State PyType, run 0 = ms.initial ∧
    ∀ n, Step w.workList (run n) (run (n + 1))) ∧
  ∀ s, Runs w.workList ms.initial s → s.processed.Nodup ∧
    (s.backlog = ∅ →
      (∀ spot, ms.Written (· ∈ s.processed) spot → DeclaredIn (w := w) (· ∈ s.processed) spot) ∧
      ∀ r ∈ ms.messageMap, Declared w (fun t => t ∈ ms.messages ∨ t ∈ s.processed) r)

/-- A class with an interface that the annotations lead to. -/
def Known (c : Cls) : Prop :=
  ∃ t, (ms.Reached t ∧ ¬ w.isPrimitive t = true) ∧ w.classOf t = some c

/-- Every class that is written is not `Enum`, `set` or `IO`, has the name of an interface of
it, and is led to by annotations if a validator or a variable conceals it; the class of a
message has that name too, and is the message itself or led to. -/
structure Covered : Prop where
  written : ∀ spot, ms.Written (fun t => ms.Reached t ∧ ¬ w.isPrimitive t = true) spot →
    ∀ r ∈ spot.references, (w.info r.1.ref).primitive = false ∧ r.2 ∈ declaredNames r.1 ∧
      (r.1 ∈ spot.concealed → Known ms r.1)
  messages : ∀ r ∈ ms.messageMap, r.2 ∈ declaredNames r.1 ∧
    ((∃ t ∈ ms.messages, w.classOf t = some r.1) ∨ Known ms r.1)

section Depth

/-- The types that the extraction of a parameter returns, if it does. -/
def Controller.Collects (w : World) (k : Controller) (p : Parameter) (x : PyType) : Prop :=
  match p.kind with
  | .text => x = .scalar .str
  | .model | .body => Extracts w (k.resolve p) x
  | .plain | .form | .located | .unmarked => x = k.resolve p

/-- The types that the extractor is called with for an endpoint. -/
inductive Controller.Hands (w : World) (k : Controller) (e : Endpoint) : PyType → Prop
  | result : Hands w k e e.returnType
  | model {p : Parameter} (hp : p ∈ e.parameters) (hkind : p.kind = .model ∨ p.kind = .body) :
      Hands w k e (k.resolve p)
  | parameter {p : Parameter} {x : PyType} (hp : p ∈ e.parameters) (hx : k.Collects w p x) :
      Hands w k e x
  | other {ts : List PyType} {x : PyType} (hothers : e.others = some ts) (hx : x ∈ ts) :
      Hands w k e x

/-- No chain of annotations is longer than a recursion may be deep: not from a type that the
extractor is called with, and neither of the bindings of type variables. -/
structure Bounded : Prop where
  parameters : ∀ k ∈ ms.controllers, ∀ e ∈ k.endpoints, ∃ ts, e.others = some ts
  endpoints : ∀ k ∈ ms.controllers, ∀ e ∈ k.endpoints, ∀ x, k.Hands w e x → Shallow w x
  bindings : ∀ k ∈ ms.controllers, ∀ t ∈ k.signatures,
    ¬Chain (substituted t.mapping) (w.limit + 1) t.type
  interfaces : ∀ t, (t ∈ ms.messages ∨ ms.Reached t ∧ ¬ w.isPrimitive t = true) →
    ∀ u ∈ w.expanded t, Shallow w u

theorem mem_collected {k : Controller} {p : Parameter} {xs : List PyType}
    (h : k.collected w p = some xs) (x : PyType) : x ∈ xs ↔ k.Collects w p x := by
  obtain ⟨kind, type, ofMiddleware⟩ := p
  cases kind with
  | model | body => exact mem_extractAll h x
  | text | plain | form | located | unmarked =>
    obtain rfl := Option.some.inj h
    exact List.mem_singleton

theorem collected_exists_iff (k : Controller) (p : Parameter) : (∃ xs, k.collected w p = some xs) ↔
    (p.kind = .model ∨ p.kind = .body → Shallow w (k.resolve p)) := by
  obtain ⟨kind, type, ofMiddleware⟩ := p
  cases kind with
  | model | body => simp [Controller.collected, extractAll_exists_iff]
  | text | plain | form | located | unmarked => simp [Controller.collected]

/-- The types of an endpoint are returned just where all calls of the extractor are. -/
theorem endpointTypes_exists_iff (k : Controller) (e : Endpoint) :
    (∃ xs, k.endpointTypes w e = some xs) ↔
      (∃ ts, e.others = some ts) ∧ ∀ x, k.Hands w e x → Shallow w x := by
  constructor
  · rintro ⟨xs, h⟩
    obtain ⟨fromReturn, hreturn, h⟩ := Option.bind_eq_some_iff.1 h
    obtain ⟨parameters, hparameters, h⟩ := Option.bind_eq_some_iff.1 h
    obtain ⟨others, hothers, h⟩ := Option.bind_eq_some_iff.1 h
    obtain ⟨rest, hrest, -⟩ := Option.map_eq_some_iff.1 h
    have hcollected := (gather_exists_iff _).1 ⟨_, hparameters⟩
    have hextracted := (gather_exists_iff _).1 ⟨_, hrest⟩
    refine ⟨⟨others, hothers⟩, fun x hx => ?_⟩
    cases hx with
    | result => exact (extractAll_exists_iff w _).1 ⟨_, hreturn⟩
    | @model p hp hkind => exact (collected_exists_iff k p).1 (hcollected p hp) hkind
    | @parameter p _ hp hx =>
      obtain ⟨ys, hys⟩ := hcollected p hp
      refine (extractAll_exists_iff w x).1 (hextracted x (List.mem_append_left _ ?_))
      exact (mem_gather hparameters x).2 ⟨p, hp, ys, hys, (mem_collected hys x).2 hx⟩
    | @other ts _ hts hx =>
      obtain rfl : others = ts := Option.some.inj (hothers.symm.trans hts)
      exact (extractAll_exists_iff w x).1 (hextracted x (List.mem_append_right _ hx))
  · rintro ⟨⟨others, hothers⟩, hshallow⟩
    obtain ⟨fromReturn, hreturn⟩ := (extractAll_exists_iff w _).2 (hshallow _ .result)
    obtain ⟨parameters, hparameters⟩ := (gather_exists_iff (f := k.collected w) e.parameters).2
      fun p hp => (collected_exists_iff k p).2 fun hkind => hshallow _ (.model hp hkind)
    obtain ⟨rest, hrest⟩ := (gather_exists_iff (f := extractAll w) (parameters ++ others)).2
      fun x hx => (extractAll_exists_iff w x).2 <| hshallow x <| by
        rcases List.mem_append.1 hx with hx | hx
        · obtain ⟨p, hp, ys, hys, hx⟩ := (mem_gather hparameters x).1 hx
          exact .parameter hp ((mem_collected hys x).1 hx)
        · exact .other hothers hx
    exact ⟨fromReturn ++ rest,
      by simp [Controller.endpointTypes, hreturn, hparameters, hothers, hrest]⟩

theorem roots_exists_iff : (∃ ts, ms.roots = some ts) ↔
    (∀ k ∈ ms.controllers, ∀ e ∈ k.endpoints,
      (∃ ts, e.others = some ts) ∧ ∀ x, k.Hands w e x → Shallow w x) ∧
    ∀ t ∈ ms.messages, ∀ u ∈ w.expanded t, Shallow w u := by
  have hcontrollers : (∃ xs, gather (·.mappedTypes w) ms.controllers = some xs) ↔
      ∀ k ∈ ms.controllers, ∀ e ∈ k.endpoints,
        (∃ ts, e.others = some ts) ∧ ∀ x, k.Hands w e x → Shallow w x := by
    simp only [gather_exists_iff, Controller.mappedTypes, endpointTypes_exists_iff]
  have hmessages : (∃ xs, gather w.identified ms.messages = some xs) ↔
      ∀ t ∈ ms.messages, ∀ u ∈ w.expanded t, Shallow w u := by
    simp only [gather_exists_iff, identified_exists_iff]
  rw [← hcontrollers, ← hmessages]
  constructor
  · rintro ⟨ts, h⟩
    obtain ⟨xs, hxs, h⟩ := Option.bind_eq_some_iff.1 h
    obtain ⟨ys, hys, -⟩ := Option.map_eq_some_iff.1 h
    exact ⟨⟨xs, hxs⟩, ys, hys⟩
  · rintro ⟨⟨xs, hxs⟩, ys, hys⟩
    exact ⟨_, by simp [Microservice.roots, hxs, hys]; rfl⟩

end Depth

/-- The annotations lead to finitely many types, also where classes mention themselves. -/
theorem finite_types : {t | ms.Reached t}.Finite := by
  have hbase {t : PyType} (h : t ∈ ms.roots.getD [] ++ ms.context) :
      t ∈ Confines w (ms.roots.getD [] ++ ms.context) := confines_base h
  exact finite_reached w.workList (confines_finite w (ms.roots.getD [] ++ ms.context))
    (fun t ht => hbase (List.mem_append_left _ ht)) (fun t ht => hbase (List.mem_append_right _ ht))
    fun t ht x hx => confines_leads ht hx

section Taken

/-- An element that was processed was in the backlog of a state before. -/
theorem taken_of_processed {s : State PyType} (hrun : Runs w.workList ms.initial s) {t : PyType}
    (ht : t ∈ s.processed) : ∃ s', Runs w.workList ms.initial s' ∧ t ∈ s'.backlog := by
  induction hrun with
  | refl => cases ht
  | @tail s _ hrun hstep ih =>
    cases hstep with
    | skip _ _ => exact ih ht
    | @process u hu _ =>
      rcases List.mem_cons.1 ht with rfl | ht
      · exact ⟨s, hrun, hu⟩
      · exact ih ht

/-- What the annotations lead to is taken, if it is no primitive. -/
theorem taken_of_reached {t : PyType} (ht : ms.Reached t) (hplain : ¬ w.isPrimitive t = true) :
    ∃ s, Runs w.workList ms.initial s ∧ t ∈ s.backlog := by
  obtain ⟨s, hrun, hend⟩ := exists_end w.workList (finite_types ms)
  have hprocessed := (run_sound w.workList hrun).mem_processed_iff w.workList hend t
  exact taken_of_processed ms hrun (hprocessed.2 ⟨ht, hplain⟩)

/-- The generator returns just where no chain of annotations or bindings is too long. -/
theorem returns_iff_bounded : ms.Returns ↔ Bounded ms := by
  have hmapped : (∀ k ∈ ms.controllers, ∀ t ∈ k.signatures, ∃ r, t.mapped w ms.enumStyle = some r) ↔
      ∀ k ∈ ms.controllers, ∀ t ∈ k.signatures, ¬Chain (substituted t.mapping)
        (w.limit + 1) t.type :=
    forall₄_congr fun _ _ t _ =>
      mapped_exists_iff ms.enumStyle w.display t.suffix (w.limit + 1) t.type
  constructor
  · intro h
    obtain ⟨hendpoints, hmessages⟩ := (roots_exists_iff ms).1 h.rooted
    refine ⟨fun k hk e he => (hendpoints k hk e he).1, fun k hk e he => (hendpoints k hk e he).2,
      hmapped.1 h.mapped, ?_⟩
    rintro t (ht | ⟨ht, hplain⟩)
    · exact hmessages t ht
    · obtain ⟨s, hrun, ht⟩ := taken_of_reached ms ht hplain
      exact (identified_exists_iff t).1 (h.found s hrun t ht hplain)
  · intro h
    refine ⟨(roots_exists_iff ms).2
      ⟨fun k hk e he => ⟨h.parameters k hk e he, h.endpoints k hk e he⟩,
      fun t ht => h.interfaces t (.inl ht)⟩, hmapped.2 h.bindings, fun s hrun t ht hplain => ?_⟩
    have hreached : ms.Reached t := (run_sound w.workList hrun).waiting t ht
    exact (identified_exists_iff t).2 (h.interfaces t (.inr ⟨hreached, hplain⟩))

/-- No file is written where the extractor is called with a type that leads to a class whose
annotations lead back to it. -/
theorem not_returns_of_cycle {k : Controller} (hk : k ∈ ms.controllers) {e : Endpoint}
    (he : e ∈ k.endpoints) {x u : PyType} (hx : k.Hands w e x)
    (hu : Relation.ReflTransGen (Unfoldings.Edge (walks w)) x u)
    (hcycle : Relation.TransGen (Unfoldings.Edge (walks w)) u u) : ¬ ms.Returns := by
  intro h
  exact not_shallow_of_cycle hu hcycle (((returns_iff_bounded ms).1 h).endpoints k hk e he x hx)

def nodeClass : Cls := ⟨3, "Node", false⟩

/-- `class Node(BaseModel): next: Node | None`, the annotation evaluated late. -/
def nodeWorld : World where
  info
    | 3 => { annotations := [⟨.union true [.cls nodeClass, .scalar .noneType], true⟩] }
    | _ => {}
  display c _ := c.name
  rootModel := ⟨1, "RootModel", false⟩
  limit := 900
  size := 4
  beyond r hr := by
    split
    · omega
    · rfl
  classes r b hb := by split at hb <;> cases hb

/-- An endpoint that returns a `Node`. -/
def nodes : Controller where
  mapping _ := none
  endpoints := [{ returnType := .cls nodeClass }]

def nodeService : Microservice nodeWorld where
  wrapper := ⟨2, "WebSocketMessageWrapper", false⟩
  controllers := [nodes]
  wrapperIsModel := rfl

theorem node_not_returned : ¬ nodeService.Returns :=
  not_returns_of_cycle nodeService (k := nodes) List.mem_cons_self List.mem_cons_self .result .refl
    (.head (b := .union true [.cls nodeClass, .scalar .noneType]) List.mem_cons_self
      (.single List.mem_cons_self))

end Taken

section Known

variable {ms}

theorem known_of_reached {c : Cls} (h : ms.Reached (.cls c))
    (hplain : (w.info c.ref).primitive = false) : Known ms c :=
  ⟨.cls c, ⟨h, by simp [World.isPrimitive, hplain]⟩, rfl⟩

theorem reached_of_identified (hbounded : Bounded ms) {t x : PyType} (ht : ms.Reached t)
    (hplain : ¬ w.isPrimitive t = true) (hx : w.Identifies t x) : ms.Reached x := by
  obtain ⟨xs, hxs⟩ := (identified_exists_iff t).2 (hbounded.interfaces t (.inr ⟨ht, hplain⟩))
  have hfinds : x ∈ w.workList.finds t := by
    simpa [World.workList, hxs] using (mem_identified hxs x).2 hx
  exact .found ht hplain (List.mem_append_left _ hfinds)

theorem reached_of_noted {t : PyType} {e : Cls} (ht : ms.Reached t)
    (hplain : ¬ w.isPrimitive t = true) (he : e ∈ w.interfaceNoted t) : ms.Reached (.cls e) :=
  .found ht hplain (List.mem_append_right _ (List.mem_map_of_mem he))

/-- A class that is seen in a type is led to, if what is extracted and noted there is and
nothing conceals it. -/
theorem visible_known {suffix : String} {ν : TypeVar → List Reference} {η : TypeVar → List Cls}
    {t : PyType} {c : Cls} (h : Visible w w.display suffix ν η t c)
    (hextracted : ∀ x, Extracts w t x → ms.Reached x)
    (hnoted : ∀ e ∈ noted η t, ms.Reached (.cls e))
    (hprimitive : (w.info c.ref).primitive = false)
    (hvisible : c ∉ concealed w.display suffix ν t) :
    Known ms c := by
  rcases h with h | h | h
  · exact absurd h hvisible
  · exact known_of_reached (hextracted _ h) hprimitive
  · exact known_of_reached (hnoted _ h) hprimitive

theorem baseReferences_cls {c : Cls} {suffix : String} {r : Reference}
    (hr : r ∈ w.baseReferences suffix (.cls c)) : r.1 = c := by
  simp only [World.baseReferences, World.baseName] at hr
  split at hr <;> simp_all [references]

theorem baseReferences_opaqueRoot {c : Cls} {args : List PyType} {suffix : String}
    {r : Reference} (hr : r ∈ w.baseReferences suffix (.opaqueRoot c args)) : r.1 = c := by
  cases args <;> simp only [World.baseReferences, World.baseName] at hr <;>
    split at hr <;> simp_all [references]

/-- A class that a base names is led to, if no validator conceals it. -/
theorem base_known (hbounded : Bounded ms) {b : PyType} {suffix : String} (hb : ms.Reached b)
    (hplain : ¬ w.isPrimitive b = true) (hclass : isClass b = true)
    (hnoted : ∀ e ∈ noted (fun _ => []) b, ms.Reached (.cls e)) {r : Reference}
    (hr : r ∈ w.baseReferences suffix b) (hprimitive : (w.info r.1.ref).primitive = false)
    (hvisible : r.1 ∉ concealed w.display suffix (fun _ => []) b) : Known ms r.1 := by
  have hfound {x : PyType} (hx : w.Identifies b x) : ms.Reached x :=
    reached_of_identified hbounded hb hplain hx
  cases b with
  | cls c =>
    exact ⟨.cls c, ⟨hb, hplain⟩, by simp [World.classOf, baseReferences_cls hr]⟩
  | model origin args =>
    have horigin : r.1 = origin → Known ms r.1 := by
      rintro rfl
      exact known_of_reached (hfound (.inl (by simp [World.direct, World.classOf]))) hprimitive
    simp only [World.baseReferences, World.baseName] at hr
    split at hr
    · exact horigin (by simp_all)
    · rw [references, List.mem_cons] at hr
      rcases hr with rfl | hr
      · exact horigin rfl
      · obtain ⟨t, ht, hseen⟩ := referencesList_visible w _ _ _ (fun _ => []) args hr
        have hexpanded : t ∈ w.expanded (.model origin args) := ht
        exact visible_known hseen (fun x hx => hfound (.inr ⟨t, hexpanded, hx⟩))
          (fun e he => hnoted e (noted_subset ht he)) hprimitive
          fun h => hvisible (concealed_subset ht h)
  | root c t =>
    have hexpanded : t ∈ w.expanded (.root c t) := by
      by_cases hroot : c = w.rootModel <;>
        simp [World.expanded, World.classOf, World.isEnum, World.members, hroot]
    simp only [World.baseReferences, World.baseName] at hr
    split at hr
    · obtain rfl : r.1 = c := by simp_all
      by_cases hroot : r.1 = w.rootModel
      · refine known_of_reached (hfound (.inl ?_)) hprimitive
        simp [World.direct, World.classOf, hroot]
      · exact ⟨_, ⟨hb, hplain⟩, by simp [World.classOf, hroot]⟩
    · exact visible_known (references_visible w _ _ _ (fun _ => []) t hr)
        (fun x hx => hfound (.inr ⟨t, hexpanded, hx⟩)) hnoted hprimitive hvisible
  | opaqueRoot c args =>
    have hc : r.1 = c := baseReferences_opaqueRoot hr
    cases args with
    | nil => exact ⟨_, ⟨hb, hplain⟩, by simp [World.classOf, hc]⟩
    | cons t args =>
      have hdirect : PyType.opaqueRoot c [] ∈ w.direct (.opaqueRoot c (t :: args)) :=
        List.mem_singleton_self _
      refine ⟨.opaqueRoot c [], ⟨hfound (.inl hdirect), ?_⟩, by simp [World.classOf, hc]⟩
      simp [World.isPrimitive, ← hc, hprimitive]
  | scalar s => simp [World.baseReferences, World.baseName, references] at hr
  | _ => simp [isClass] at hclass

/-- A class in an interface is led to, if the types of the interface are and nothing conceals it. -/
theorem interface_known (hbounded : Bounded ms) {style : EnumStyle} {t : PyType}
    (hfound : ∀ x, w.Identifies t x → ms.Reached x)
    (hnoted : ∀ e ∈ w.interfaceNoted t, ms.Reached (.cls e)) {spot : Spot}
    (hspot : spot ∈ w.interfaceSpots style t) {r : Reference} (hr : r ∈ spot.references)
    (hprimitive : (w.info r.1.ref).primitive = false) (hvisible : r.1 ∉ spot.concealed) :
    Known ms r.1 := by
  simp only [World.interfaceSpots] at hspot
  simp only [World.Identifies, World.direct, World.expanded] at hfound
  simp only [World.interfaceNoted] at hnoted
  split at hspot
  · rename_i c hc
    split at hspot
    · cases hspot
    · rename_i henum
      simp only [hc, if_neg henum] at hfound hnoted
      simp only [List.mem_flatMap, List.mem_append, List.mem_map] at hspot
      obtain ⟨suffix, -, ⟨m, hm, rfl⟩ | ⟨b, hb, rfl⟩⟩ := hspot
      · exact visible_known (references_visible w _ _ _ (fun _ => []) m hr)
          (fun x hx => hfound x (.inr ⟨m, hm, hx⟩))
          (fun e he => hnoted e (List.mem_flatMap.2 ⟨m, List.mem_append_left _ hm, he⟩))
          hprimitive hvisible
      · obtain ⟨hbase, hplain⟩ := List.mem_filter.1 hb
        refine base_known hbounded (hfound _ (.inl (List.mem_append_left _ hbase)))
          (by simpa using hplain) (w.classes c.ref b hbase) (fun e he => hnoted e ?_) hr hprimitive
          hvisible
        exact List.mem_flatMap.2 ⟨b, List.mem_append_right _ hb, he⟩
  · cases hspot

/-- The wrapper is processed, and with it what the parse context has. -/
theorem reached_of_context {roots : List PyType} (hroots : ms.roots = some roots) {t : PyType}
    (h : t ∈ ms.context) : ms.Reached t := by
  have hwrapper : ms.Reached (.cls ms.wrapper) := by
    refine .root ?_
    obtain ⟨xs, -, h⟩ := Option.bind_eq_some_iff.1 hroots
    obtain ⟨ys, -, h⟩ := Option.map_eq_some_iff.1 h
    simp [hroots, ← h]
  have hplain : ¬ w.workList.skips (.cls ms.wrapper) := by
    simp [World.workList, World.isPrimitive, ms.wrapperIsModel]
  exact .noted hwrapper hplain h

/-- A class in a signature is among the types that are mapped for its endpoint. -/
theorem endpoint_extracted {k : Controller} {e : Endpoint} {xs : List PyType}
    (h : k.endpointTypes w e = some xs) {t : Signature} (ht : t ∈ k.endpointSignatures e) {c : Cls}
    (hc : Extracts w t.type (.cls c)) : .cls c ∈ xs := by
  obtain ⟨fromReturn, hreturn, h⟩ := Option.bind_eq_some_iff.1 h
  obtain ⟨parameters, hparameters, h⟩ := Option.bind_eq_some_iff.1 h
  obtain ⟨others, -, h⟩ := Option.bind_eq_some_iff.1 h
  obtain ⟨rest, hrest, rfl⟩ := Option.map_eq_some_iff.1 h
  rcases List.mem_cons.1 ht with rfl | ht
  · exact List.mem_append_left _ ((mem_extractAll hreturn _).2 hc)
  · obtain ⟨p, hp, rfl⟩ := List.mem_map.1 ht
    refine List.mem_append_right _ ((mem_gather hrest _).2 ?_)
    -- the class itself of what is extracted at once, the whole type of another
    have hcollected : ∃ x, k.Collects w p x ∧ Extracts w x (.cls c) := by
      obtain ⟨kind, type, ofMiddleware⟩ := p
      cases kind with
      | model | body => exact ⟨.cls c, hc, .own (by simp [own])⟩
      | text => exact ⟨.scalar .str, rfl, hc⟩
      | plain | form | located | unmarked => exact ⟨_, rfl, hc⟩
    obtain ⟨x, hx, hc⟩ := hcollected
    obtain ⟨ys, hys⟩ := (gather_exists_iff _).1 ⟨_, hparameters⟩ p hp
    have hmem : x ∈ parameters :=
      (mem_gather hparameters x).2 ⟨p, hp, ys, hys, (mem_collected hys x).2 hx⟩
    obtain ⟨zs, hzs⟩ := (gather_exists_iff _).1 ⟨_, hrest⟩ x (List.mem_append_left _ hmem)
    exact ⟨x, List.mem_append_left _ hmem, zs, hzs, (mem_extractAll hzs _).2 hc⟩

theorem signature_extracted {roots : List PyType} (hroots : ms.roots = some roots)
    {k : Controller} (hk : k ∈ ms.controllers) {t : Signature} (ht : t ∈ k.signatures)
    {c : Cls} (hc : Extracts w t.type (.cls c)) : ms.Reached (.cls c) := by
  refine .root ?_
  obtain ⟨fromControllers, hcontrollers, h⟩ := Option.bind_eq_some_iff.1 hroots
  obtain ⟨fromMessages, -, rfl⟩ := Option.map_eq_some_iff.1 h
  obtain ⟨e, he, ht⟩ := List.mem_flatMap.1 ht
  obtain ⟨ys, hys⟩ := (gather_exists_iff _).1 ⟨_, hcontrollers⟩ k hk
  obtain ⟨zs, hzs⟩ := (gather_exists_iff _).1 ⟨_, hys⟩ e he
  have hmapped : .cls c ∈ ys := (mem_gather hys _).2 ⟨e, he, zs, hzs, endpoint_extracted hzs ht hc⟩
  have hmem : .cls c ∈ fromControllers := (mem_gather hcontrollers _).2 ⟨k, hk, ys, hys, hmapped⟩
  simp [hroots, hmem]

theorem message_identified {roots : List PyType} (hroots : ms.roots = some roots) {t x : PyType}
    (ht : t ∈ ms.messages) (hx : w.Identifies t x) : ms.Reached x := by
  refine .root ?_
  obtain ⟨fromControllers, -, h⟩ := Option.bind_eq_some_iff.1 hroots
  obtain ⟨fromMessages, hmessages, rfl⟩ := Option.map_eq_some_iff.1 h
  obtain ⟨ys, hys⟩ := (gather_exists_iff _).1 ⟨_, hmessages⟩ t ht
  have hmem : x ∈ fromMessages :=
    (mem_gather hmessages x).2 ⟨t, ht, ys, hys, (mem_identified hys x).2 hx⟩
  simp [hroots, hmem]

theorem signature_noted {k : Controller} (hk : k ∈ ms.controllers) {t : Signature}
    (ht : t ∈ k.signatures) {e : Cls} (he : e ∈ t.noted w) : .cls e ∈ ms.context := by
  have hcontext : e ∈ k.context w := List.mem_flatMap.2 ⟨t, ht, he⟩
  exact List.mem_map_of_mem (List.mem_append_left _ (List.mem_flatMap.2 ⟨k, hk, hcontext⟩))

/-- A class in a signature or in the interface of a message is led to, if nothing conceals it. -/
theorem spot_known (hbounded : Bounded ms) {spot : Spot} (hspot : spot ∈ ms.spots) {r : Reference}
    (hr : r ∈ spot.references) (hprimitive : (w.info r.1.ref).primitive = false)
    (hvisible : r.1 ∉ spot.concealed) : Known ms r.1 := by
  obtain ⟨roots, hroots⟩ := ((returns_iff_bounded ms).2 hbounded).rooted
  rcases List.mem_append.1 hspot with hspot | hspot
  · obtain ⟨k, hk, hspot⟩ := List.mem_flatMap.1 hspot
    obtain ⟨t, ht, rfl⟩ := List.mem_map.1 hspot
    rcases references_visible w _ _ _ (boundTo t.mapping noted w.limit) t.type hr with h | h | h
    · exact absurd h hvisible
    · exact known_of_reached (signature_extracted hroots hk ht h) hprimitive
    · exact known_of_reached (reached_of_context hroots (signature_noted hk ht h)) hprimitive
  · obtain ⟨t, ht, hspot⟩ := List.mem_flatMap.1 hspot
    refine interface_known hbounded (fun x hx => message_identified hroots ht hx)
      (fun e he => reached_of_context hroots ?_) hspot hr hprimitive hvisible
    exact List.mem_map_of_mem (List.mem_append_right _ (List.mem_flatMap.2 ⟨t, ht, he⟩))

/-- A name that is written is that of a class with an interface, unless it is primitive or
concealed. -/
theorem written_known (hbounded : Bounded ms) {spot : Spot}
    (hspot : ms.Written (fun t => ms.Reached t ∧ ¬ w.isPrimitive t = true) spot) {r : Reference}
    (hr : r ∈ spot.references) (hprimitive : (w.info r.1.ref).primitive = false)
    (hvisible : r.1 ∉ spot.concealed) : Known ms r.1 := by
  rcases hspot with hspot | ⟨t, ⟨ht, hplain⟩, hspot⟩
  · exact spot_known hbounded hspot hr hprimitive hvisible
  · exact interface_known hbounded (fun x hx => reached_of_identified hbounded ht hplain hx)
      (fun e he => reached_of_noted ht hplain he) hspot hr hprimitive hvisible

theorem primitive_of_known {c : Cls} (h : Known ms c) : (w.info c.ref).primitive = false := by
  obtain ⟨t, ⟨-, hplain⟩, hc⟩ := h
  rcases classOf_cases hc with rfl | ⟨u, rfl, -⟩ | rfl <;> simpa [World.isPrimitive] using hplain

end Known

/-- The types that a finished work list has processed. -/
theorem processed_eq {s : State PyType} (hrun : Runs w.workList ms.initial s)
    (hend : s.backlog = ∅) :
    (· ∈ s.processed) = fun t => ms.Reached t ∧ ¬ w.isPrimitive t = true := by
  funext t
  exact propext ((run_sound w.workList hrun).mem_processed_iff w.workList hend t)

/-- The class of a message is declared by its own interfaces or by those of the work list. -/
theorem message_declared_iff (r : Reference) :
    Declared w (fun t => t ∈ ms.messages ∨ ms.Reached t ∧ ¬ w.isPrimitive t = true) r ↔
      r.2 ∈ declaredNames r.1 ∧ ((∃ t ∈ ms.messages, w.classOf t = some r.1) ∨ Known ms r.1) := by
  rw [Declared, and_comm]
  refine and_congr_right fun _ => ?_
  simp only [Known, or_and_right, exists_or]

/-- If the text declares what it mentions, everything is covered. -/
theorem covered_of_closes (h : Closes ms) : Covered ms := by
  obtain ⟨s, hrun, hend⟩ := exists_end w.workList (finite_types ms)
  obtain ⟨hwritten, hmessages⟩ := (h.2.2 s hrun).2 hend
  have hprocessed := processed_eq ms hrun hend
  have heq (t : PyType) : t ∈ s.processed ↔ ms.Reached t ∧ ¬ w.isPrimitive t = true :=
    iff_of_eq (congrFun hprocessed t)
  constructor
  · intro spot hspot r hr
    rw [hprocessed] at hwritten
    obtain ⟨hknown, hname⟩ := (Spot.forall_names_iff spot).1 (hwritten spot hspot) r hr
    exact ⟨primitive_of_known hknown, hname, fun _ => hknown⟩
  · intro r hr
    simp only [heq] at hmessages
    exact (message_declared_iff ms r).1 (hmessages r hr)

def genericClass : Cls := ⟨0, "Generic", false⟩

def wrapperClass : Cls := ⟨2, "WebSocketMessageWrapper", false⟩

def userClass : Cls := ⟨3, "User", false⟩

def entity : TypeVar := ⟨0, "ENTITY"⟩

/-- `WebSocketMessageWrapper` and a plain model `User`. -/
def userWorld : World where
  info
    | 2 => {
        bases := [.cls genericClass]
        annotations := [⟨.scalar .str, true⟩, ⟨.typeVar ⟨1, "INHERITS_WS_MESSAGE"⟩, true⟩] }
    | _ => {}
  display c _ := c.name
  rootModel := ⟨1, "RootModel", false⟩
  limit := 900
  size := 3
  beyond r hr := by
    split
    · omega
    · rfl
  classes r b hb := by
    split at hb
    · obtain rfl : b = .cls genericClass := by simpa using hb
      rfl
    · cases hb

section UserWorld

variable {ms : Microservice userWorld}
  (hroots : ∀ t ∈ ms.roots.getD [], (∃ c, t = .cls c) ∨ userWorld.isPrimitive t = true)
  (hcontext : ms.context = [])

include hroots hcontext

/-- Where the roots are classes and nothing is noted, the wrapper's `Generic` is all that is
found. -/
theorem userWorld_reached {t : PyType} (h : ms.Reached t) :
    t ∈ ms.roots.getD [] ∨ t = .cls genericClass ∨ userWorld.isPrimitive t = true := by
  induction h with
  | root hroot => exact .inl hroot
  | noted _ _ hnoted _ => simp [hcontext] at hnoted
  | @found x u _ hu hfound ih =>
    have hcls {c : Cls} (hx : x ∈ userWorld.workList.finds
        (.cls c) ++ userWorld.workList.notes (.cls c)) :
        x = .cls genericClass ∨ userWorld.isPrimitive x = true := by
      obtain ⟨ref, name, split⟩ := c
      by_cases href : ref = 2
      · subst href
        have hleads : userWorld.workList.finds (.cls ⟨2, name, split⟩) ++
            userWorld.workList.notes (.cls ⟨2, name, split⟩) =
              [.cls genericClass, .scalar .str, .typeVar ⟨1, "INHERITS_WS_MESSAGE"⟩,
                .scalar .str] := rfl
        rw [hleads] at hx
        simp only [List.mem_cons, List.not_mem_nil, or_false] at hx
        rcases hx with rfl | rfl | rfl | rfl
        · exact .inl rfl
        · exact .inr rfl
        · exact .inr rfl
        · exact .inr rfl
      · simp [World.workList, World.identified, World.expanded, World.direct, World.interfaceNoted,
          World.classOf, World.isEnum, World.members, World.validBases, userWorld,
          ClassInfo.memberTypes, gather] at hx
    rcases ih with hroot | rfl | hprimitive
    · rcases hroots u hroot with ⟨c, rfl⟩ | hprimitive
      · exact .inr (hcls hfound)
      · exact absurd hprimitive hu
    · exact .inr (hcls hfound)
    · exact absurd hprimitive hu

/-- Then no recursion of the loop goes too deep. -/
theorem userWorld_returns (hrooted : ∃ ts, ms.roots = some ts)
    (hmapped : ∀ k ∈ ms.controllers, ∀ t ∈ k.signatures, ∃ r,
      t.mapped userWorld ms.enumStyle = some r) :
    ms.Returns := by
  refine ⟨hrooted, hmapped, fun s hrun t ht hplain => ?_⟩
  have hcls (c : Cls) : ∃ ts, userWorld.identified (.cls c) = some ts := by
    obtain ⟨ref, name, split⟩ := c
    by_cases href : ref = 2
    · subst href
      exact ⟨_, rfl⟩
    · simp [World.identified, World.expanded, World.classOf, World.isEnum, World.members, userWorld,
        ClassInfo.memberTypes, gather]
  rcases userWorld_reached hroots hcontext
    ((run_sound _ hrun).waiting t ht) with hroot | rfl | hprimitive
  · rcases hroots t hroot with ⟨c, rfl⟩ | hprimitive
    · exact hcls c
    · exact absurd hprimitive hplain
  · exact hcls genericClass
  · exact absurd hprimitive hplain

end UserWorld

/-- A method of `Crud` that returns `list[ENTITY]`. -/
def listEntities : Endpoint where
  returnType := .list (.typeVar entity)

/-- `class Users(Crud[User])`. -/
def users : Controller where
  mapping v := if v = entity then some (.cls userClass) else none
  endpoints := [listEntities]

def userService : Microservice userWorld where
  wrapper := wrapperClass
  controllers := [users]
  wrapperIsModel := rfl

theorem userService_roots {t : PyType} (h : t ∈ userService.roots.getD []) :
    t = .cls wrapperClass :=
  List.mem_singleton.1 h

theorem userService_returns : userService.Returns := by
  refine userWorld_returns (fun t ht => .inl ⟨wrapperClass, userService_roots ht⟩) rfl ⟨_, rfl⟩
    fun k hk t ht => ?_
  obtain rfl : k = users := List.mem_singleton.1 hk
  obtain rfl : t = users.returned listEntities := List.mem_singleton.1 ht
  exact ⟨_, rfl⟩

end ReferenceClosure
