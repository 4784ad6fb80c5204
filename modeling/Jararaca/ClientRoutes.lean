import Mathlib.Data.List.Dedup
import Mathlib.Data.List.Perm.Basic
import Jararaca.HttpRoutes
import Jararaca.PathTemplates

/-!
# The routes of a controller and the methods of its client

The router factory of `RestController` and the TypeScript writer of controller_writer.py for
one class. Both go through the member functions of the class and look for their mappings
along the method resolution order; the router takes the last one found and the writer the
first. `upper` is what FastAPI does with the method of a route, `title` is `str.title`.
-/
namespace ClientRoutes

open PathTemplates

/-- A path in which braces stand around parameters only. -/
structure Template where
  pieces : List Piece
  wellFormed : WellFormed pieces

def Template.text (t : Template) : String := String.ofList (render t.pieces)

structure HttpMapping where
  method : String
  path : Template
  order : Nat

structure WebSocketEndpoint where
  path : String
  order : Nat

/-- What a class has under a name, with the decorators on it in the order of their
application. -/
structure Attribute where
  isFunction : Bool := true
  httpMappings : List HttpMapping := []
  webSocketEndpoints : List WebSocketEndpoint := []

/-- The own attributes of the classes of a method resolution order, the class itself first. -/
abbrev Mro := List (List (String × Attribute))

def getattr (mro : Mro) (name : String) : Option Attribute :=
  mro.findSome? fun attributes => attributes.lookup name

/-- `inspect.getmembers_static(cls, predicate=inspect.isfunction)`. -/
def memberNames (mro : Mro) : List String :=
  ((mro.flatMap fun attributes => attributes.map Prod.fst).dedup.filter fun name =>
    (getattr mro name).any Attribute.isFunction).mergeSort fun a b => decide (a ≤ b)

section Resolution

variable {α : Type} (decorators : Attribute → List α) (mro : Mro) (name : String) (inherit : Bool)

/-- `resolve_method_decorators`, base classes first. -/
def resolveMethodDecorators : List α :=
  if inherit then
    mro.reverse.flatMap fun attributes => ((attributes.lookup name).map decorators).getD []
  else ((getattr mro name).map decorators).getD []

def resolveBoundMethodDecorator (last : Bool) : Option α :=
  if last then (resolveMethodDecorators decorators mro name inherit).getLast?
  else (resolveMethodDecorators decorators mro name inherit).head?

end Resolution

/-- A decorated class. `APIRouter` asserts of its prefix that it is empty, or begins with a
slash and does not end with one. -/
structure Controller (M D : Type) where
  path : Template
  asserted : render path.pieces = [] ∨
    ((render path.pieces).head? = some '/' ∧ (render path.pieces).getLast? ≠ some '/')
  methodsInheritDecorators : Bool
  mro : Mro
  middlewares : List M := []
  classMiddlewares : List M := []
  classDependencies : List D := []
  methodMiddlewares : String → List M := fun _ => []
  methodDependencies : String → List D := fun _ => []

variable {M D : Type}

namespace Controller

variable (c : Controller M D)

/-- The mapping that the router takes, or the writer. -/
def httpMapping (last : Bool) (name : String) : Option HttpMapping :=
  resolveBoundMethodDecorator Attribute.httpMappings c.mro name c.methodsInheritDecorators last

def webSocketEndpoint (name : String) : Option WebSocketEndpoint :=
  resolveBoundMethodDecorator Attribute.webSocketEndpoints c.mro name
    c.methodsInheritDecorators true

def member (name : String) : HttpRoutes.Member M D where
  name := name
  httpMapping := (c.httpMapping true name).map fun m => .http m.method m.path.text m.order
  webSocketEndpoint := (c.webSocketEndpoint name).map fun m => .webSocket m.path m.order
  middlewares := c.methodMiddlewares name
  dependencies := c.methodDependencies name

def restController : HttpRoutes.RestController M D where
  path := c.path.text
  middlewares := c.middlewares
  classMiddlewares := c.classMiddlewares
  classDependencies := c.classDependencies
  members := (memberNames c.mro).map c.member

end Controller

/-- The method of an HTTP route, none for a websocket. -/
def routeMethod (upper : String → String) : HttpRoutes.Mapping → Option String
  | .http method _ _ => some (upper method)
  | .webSocket _ _ => none

def httpRoutes (upper : String → String) (c : Controller M D) : List (HttpRoutes.Route M D) :=
  (HttpRoutes.routerFactory c.restController).routes.filter fun route =>
    (routeMethod upper route.mapping).isSome

def snakeToCamel (title : List Char → List Char) (name : String) : String :=
  match name.toList.splitOn '_' with
  | [] => ""
  | first :: rest => String.ofList (first ++ (rest.map title).flatten)

/-- An emitted method: its name, the member it stands for, and its request. -/
structure ClientMethod where
  name : String
  endpoint : String
  method : String
  path : List Char

/-- `write_rest_controller_to_typescript_interface`, with the parameters of each member. -/
def writeRestController (title : List Char → List Char) (parameters : String → List (List Char))
    (c : Controller M D) : List ClientMethod :=
  (memberNames c.mro).filterMap fun name => (c.httpMapping false name).map fun m =>
    { name := snakeToCamel title name
      endpoint := name
      method := m.method
      path := buildEndpointPath (render c.path.pieces) (render m.path.pieces) (parameters name) }

/-- Methods and routes are in bijection by their members, and alike. -/
structure Agree (upper : String → String) (methods : List ClientMethod)
    (routes : List (HttpRoutes.Route M D)) :
    Prop where
  names : (methods.map ClientMethod.name).Nodup
  once : (methods.map ClientMethod.endpoint).Nodup
  paired : (methods.map ClientMethod.endpoint).Perm (routes.map HttpRoutes.Route.endpoint)
  alike : ∀ m ∈ methods, ∀ r ∈ routes, m.endpoint = r.endpoint →
    some m.method = routeMethod upper r.mapping ∧ canonical m.path = canonical r.path.toList

def httpNames (c : Controller M D) : List String :=
  (memberNames c.mro).filter fun name => (c.httpMapping true name).isSome

/-- The first and the last mapping of a member ask for the same request, and the last one
begins with a slash where the prefix ends. -/
def SameRequest (upper : String → String) (first last : HttpMapping) : Prop :=
  first.method = upper last.method ∧
    (render last.path.pieces = [] ∨ (render last.path.pieces).head? = some '/') ∧
    segments (plain first.path.pieces) = segments (plain last.path.pieces)

def Aligned (upper : String → String) (title : List Char → List Char) (c : Controller M D) : Prop :=
  ((httpNames c).map (snakeToCamel title)).Nodup ∧
    ∀ name first last, c.httpMapping false name = some first → c.httpMapping true name = some last →
      name ∈ memberNames c.mro → SameRequest upper first last

section Routes

variable (upper : String → String) (c : Controller M D)

def routeOf (name : String) (m : HttpMapping) : HttpRoutes.Route M D where
  mapping := .http m.method m.path.text m.order
  path := c.path.text ++ m.path.text
  endpoint := name
  dependencies :=
    HttpRoutes.routerDependencies c.restController ++ HttpRoutes.routeDependencies (c.member name)

/-- What the loop over the members makes of one of them. -/
def addRoute (entry : HttpRoutes.Mapping × HttpRoutes.Member M D) : HttpRoutes.Route M D where
  mapping := entry.1
  path := c.path.text ++ entry.1.path
  endpoint := entry.2.name
  dependencies :=
    HttpRoutes.routerDependencies c.restController ++ HttpRoutes.routeDependencies entry.2

/-- The routes that have an HTTP method are the members with an HTTP mapping, in their order. -/
theorem addRoute_members (names : List String) :
    ((((names.map c.member).filterMap fun member =>
      member.mapping.map fun mapping => (mapping, member)).map
      (addRoute c)).filter fun route => (routeMethod upper route.mapping).isSome) =
      names.filterMap fun name => (c.httpMapping true name).map fun m => routeOf c name m := by
  induction names with
  | nil => rfl
  | cons name rest ih =>
    rw [List.map_cons, List.filterMap_cons, List.filterMap_cons]
    cases hhttp : c.httpMapping true name with
    | some m =>
      have hmapping : (c.member name).mapping = some (.http m.method m.path.text m.order) := by
        simp [HttpRoutes.Member.mapping, Controller.member, hhttp]
      simp only [hmapping, Option.map_some, List.map_cons]
      rw [List.filter_cons_of_pos (by rfl), ih]
      rfl
    | none =>
      cases hsocket : c.webSocketEndpoint name with
      | some m =>
        have hmapping : (c.member name).mapping = some (.webSocket m.path m.order) := by
          simp [HttpRoutes.Member.mapping, Controller.member, hhttp, hsocket]
        simp only [hmapping, Option.map_some, Option.map_none, List.map_cons]
        rw [List.filter_cons_of_neg (by simp [routeMethod, addRoute]), ih]
      | none =>
        have hmapping : (c.member name).mapping = none := by
          simp [HttpRoutes.Member.mapping, Controller.member, hhttp, hsocket]
        simp only [hmapping, Option.map_none]
        exact ih

/-- Up to their order, the HTTP routes are those of the members with a mapping. -/
theorem httpRoutes_perm : (httpRoutes upper c).Perm
    ((memberNames c.mro).filterMap fun name =>
      (c.httpMapping true name).map fun m => routeOf c name m) := by
  rw [← addRoute_members upper c]
  exact ((List.mergeSort_perm _ _).map (addRoute c)).filter _

theorem mem_httpRoutes {route : HttpRoutes.Route M D} : route ∈ httpRoutes upper c ↔
    ∃ name ∈ memberNames c.mro, ∃ m, c.httpMapping true name = some m ∧
      route = routeOf c name m := by
  rw [(httpRoutes_perm upper c).mem_iff, List.mem_filterMap]
  simp only [Option.map_eq_some_iff, @eq_comm _ _ route]

/-- The endpoints served are the ones the controller maps, in some order. -/
theorem endpoints_perm :
    ((httpRoutes upper c).map HttpRoutes.Route.endpoint).Perm (httpNames c) := by
  refine ((httpRoutes_perm upper c).map _).trans (List.Perm.of_eq ?_)
  unfold httpNames
  generalize memberNames c.mro = names
  induction names with
  | nil => rfl
  | cons name rest ih =>
    cases hhttp : c.httpMapping true name with
    | some m =>
      rw [List.filterMap_cons, hhttp, List.filter_cons_of_pos (by simp [hhttp]), ← ih]
      rfl
    | none =>
      rw [List.filterMap_cons, hhttp, List.filter_cons_of_neg (by simp [hhttp]), ← ih]
      rfl

/-- The two look through one list: a member has a first mapping if and only if it has a last. -/
theorem first_isSome (name : String) :
    (c.httpMapping false name).isSome = (c.httpMapping true name).isSome := by
  simp only [Controller.httpMapping, resolveBoundMethodDecorator]
  cases resolveMethodDecorators Attribute.httpMappings c.mro name c.methodsInheritDecorators with
  | nil => rfl
  | cons m rest => simp

variable (title : List Char → List Char) (parameters : String → List (List Char))

theorem mem_writeRestController {method : ClientMethod} :
    method ∈ writeRestController title parameters c ↔
    ∃ name ∈ memberNames c.mro, ∃ m, c.httpMapping false name = some m ∧ method =
      { name := snakeToCamel title name
        endpoint := name
        method := m.method
        path := buildEndpointPath (render c.path.pieces) (render m.path.pieces)
          (parameters name) } := by
  rw [writeRestController, List.mem_filterMap]
  simp only [Option.map_eq_some_iff, @eq_comm _ _ method]

/-- The client has one method for each of them. -/
theorem written_endpoints :
    (writeRestController title parameters c).map ClientMethod.endpoint = httpNames c := by
  unfold writeRestController httpNames
  generalize memberNames c.mro = names
  induction names with
  | nil => rfl
  | cons name rest ih =>
    rw [List.filterMap_cons]
    have hsame := first_isSome c name
    cases hfirst : c.httpMapping false name with
    | some m =>
      rw [hfirst] at hsame
      simp [← hsame, ih]
    | none =>
      rw [hfirst] at hsame
      simp [← hsame, ih]

theorem written_names :
    (writeRestController title parameters c).map ClientMethod.name =
      (httpNames c).map (snakeToCamel title) := by
  rw [← written_endpoints c title parameters, List.map_map]
  refine List.map_congr_left ?_
  intro method hmethod
  obtain ⟨name, -, m, -, rfl⟩ := (mem_writeRestController c title parameters).mp hmethod
  rfl

theorem memberNames_nodup (mro : Mro) : (memberNames mro).Nodup :=
  (List.mergeSort_perm _ _).nodup_iff.mpr ((List.nodup_dedup _).filter _)

/-- The request of a method and the one of its route, by the mappings they were made from. -/
theorem alike_iff (name : String) (first last : HttpMapping) :
    (some first.method = routeMethod upper (routeOf c name last).mapping ∧
      canonical (buildEndpointPath (render c.path.pieces) (render first.path.pieces)
        (parameters name)) =
        canonical (routeOf c name last).path.toList) ↔ SameRequest upper first last := by
  have htext : (routeOf c name last).path.toList =
      render c.path.pieces ++ render last.path.pieces := by
    simp [routeOf, Template.text]
  rw [htext, canonical_eq_iff c.path.wellFormed first.path.wellFormed
    last.path.wellFormed c.asserted]
  simp [SameRequest, routeMethod, routeOf]

/-- Where the client and the server agree, the names, paths and mappings are aligned. -/
theorem aligned_of_agree
    (h : Agree upper (writeRestController title parameters c) (httpRoutes upper c)) :
    Aligned upper title c := by
  refine ⟨by rw [← written_names]; exact h.names, ?_⟩
  intro name first last hfirst hlast hname
  rw [← alike_iff upper c parameters name]
  exact h.alike _
    ((mem_writeRestController c title parameters).mpr ⟨name, hname, first, hfirst, rfl⟩) _
    ((mem_httpRoutes upper c).mpr ⟨name, hname, last, hlast, rfl⟩) rfl

/-- Where they are aligned, each method of the client calls the route of its endpoint. -/
theorem agree_of_aligned (h : Aligned upper title c) :
    Agree upper (writeRestController title parameters c) (httpRoutes upper c) := by
  refine ⟨?_, ?_, ?_, ?_⟩
  · rw [written_names]
    exact h.1
  · rw [written_endpoints]
    exact (memberNames_nodup c.mro).filter _
  · rw [written_endpoints]
    exact (endpoints_perm upper c).symm
  · intro method hmethod route hroute heq
    obtain ⟨name, hname, first, hfirst, rfl⟩ :=
      (mem_writeRestController c title parameters).mp hmethod
    obtain ⟨name', -, last, hlast, rfl⟩ := (mem_httpRoutes upper c).mp hroute
    obtain rfl : name = name' := heq
    exact (alike_iff upper c parameters name first last).mpr
      (h.2 name first last hfirst hlast hname)

/-- The client's methods and the server's routes agree if and only if no two members with a
mapping have one name in the client, and the first and the last mapping of each of them ask
for the same request, with a slash where the prefix ends. -/
theorem client_agrees_iff_aligned :
    Agree upper (writeRestController title parameters c)
      (httpRoutes upper c) ↔ Aligned upper title c :=
  ⟨aligned_of_agree upper c title parameters, agree_of_aligned upper c title parameters⟩

end Routes

def template (s : String) (h : '{' ∉ s.toList) : Template where
  pieces := s.toList.map .char
  wellFormed piece hpiece := by
    obtain ⟨c, hc, rfl⟩ := List.mem_map.mp hpiece
    rintro rfl
    exact h hc

/-- A class that overrides `list_items` of its base, with another path. -/
def overriding : Controller Unit Unit where
  path := template "/shop" (by decide)
  asserted := by decide
  methodsInheritDecorators := true
  mro := [[("list_items", { httpMappings := [⟨"GET", template "/v2/items" (by decide), 2⟩] })],
    [("list_items", { httpMappings := [⟨"GET", template "/v1/items" (by decide), 1⟩] })]]

/-- `str.title` on a word of lower case letters. -/
def capitalize : List Char → List Char
  | [] => []
  | c :: rest => c.toUpper :: rest

/-- The server answers under the new path, and the client asks under the old one. -/
theorem overridden_path_differs :
    ¬ Agree String.toUpper (writeRestController capitalize (fun _ => []) overriding)
      (httpRoutes String.toUpper overriding) := by
  intro h
  have hname : "list_items" ∈ memberNames overriding.mro := by
    simp [memberNames, overriding, getattr]
  have hsame :=
    (aligned_of_agree String.toUpper overriding capitalize _ h).2 "list_items" _ _ rfl rfl hname
  exact absurd hsame.2.2 (by decide)

end ClientRoutes
