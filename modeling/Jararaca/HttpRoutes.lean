import Mathlib.Data.List.Basic
import Mathlib.Data.List.Count

/-!
# The routes of an HTTP application

The startup of `HttpAppLifecycle` in presentation/server.py with the router factory of
`RestController`: what each route carries in the end, for any list of controllers and any
application-wide middlewares. `include_router` copies the dependencies the application's
router has at that moment into the routes. `M` are the middleware types, `D` whatever else
a route may depend on.
-/
namespace HttpRoutes

/-- A FastAPI dependency: `Depends(middleware_instance.intercept)`, or any other callable. -/
inductive Dependency (M D : Type) where
  | intercept (middleware : M)
  | callable (dependency : D)
  deriving DecidableEq

/-- What makes a method a route; `order` is the counter at decoration. -/
inductive Mapping where
  | http (method path : String) (order : Nat)
  | webSocket (path : String) (order : Nat)
  deriving DecidableEq, Repr

def Mapping.path : Mapping → String
  | .http _ path _ => path
  | .webSocket path _ => path

def Mapping.order : Mapping → Nat
  | .http _ _ order => order
  | .webSocket _ order => order

/-- A method of a controller class with its resolved decorators. -/
structure Member (M D : Type) where
  name : String
  httpMapping : Option Mapping
  webSocketEndpoint : Option Mapping
  middlewares : List M
  dependencies : List D

/-- `HttpMapping... or WebSocketEndpoint...`. -/
def Member.mapping {M D : Type} (member : Member M D) : Option Mapping :=
  member.httpMapping.or member.webSocketEndpoint

/-- A controller class with its `RestController` decorator and its other resolved ones. -/
structure RestController (M D : Type) where
  path : String
  middlewares : List M
  classMiddlewares : List M
  classDependencies : List D
  members : List (Member M D)

structure Route (M D : Type) where
  mapping : Mapping
  path : String
  endpoint : String
  dependencies : List (Dependency M D)
  deriving DecidableEq

/-- A router: its own dependencies and the routes added so far. -/
structure Router (M D : Type) where
  dependencies : List (Dependency M D)
  routes : List (Route M D)

variable {M D : Type}

/-- The members that are routes, by the order of their decorators. -/
def routerMembers (controller : RestController M D) : List (Mapping × Member M D) :=
  (controller.members.filterMap fun member =>
    member.mapping.map fun mapping => (mapping, member)).mergeSort
    fun a b => decide (a.1.order ≤ b.1.order)

def routerDependencies (controller : RestController M D) : List (Dependency M D) :=
  controller.middlewares.map .intercept ++ controller.classMiddlewares.map .intercept ++
    controller.classDependencies.map .callable

def routeDependencies (member : Member M D) : List (Dependency M D) :=
  member.middlewares.map .intercept ++ member.dependencies.map .callable

/-- `router_factory`. A route starts with a copy of its router's dependencies. -/
def routerFactory (controller : RestController M D) : Router M D where
  dependencies := routerDependencies controller
  routes := (routerMembers controller).map fun (mapping, member) =>
    { mapping := mapping
      path := controller.path ++ mapping.path
      endpoint := member.name
      dependencies := routerDependencies controller ++ routeDependencies member }

/-- `include_router`: every route is added again, after the including router's dependencies. -/
def includeRouter (api router : Router M D) : Router M D :=
  { api with routes := api.routes ++ router.routes.map fun route =>
      { route with dependencies := api.dependencies ++ route.dependencies } }

def appendMiddlewares (middlewares : List M) (api : Router M D) : Router M D :=
  { api with dependencies := api.dependencies ++ middlewares.map .intercept }

/-- The loop over the controllers; none is a controller without a `RestController` decorator. -/
def startup (middlewares : List M) :
    List (Option (RestController M D)) → Router M D → Router M D
  | [], api => api
  | none :: controllers, api => startup middlewares controllers api
  | some controller :: controllers, api =>
    startup middlewares controllers
      (appendMiddlewares middlewares (includeRouter api (routerFactory controller)))

/-- The application's router as `create_http_server` leaves it: the dependencies of the
factory and the unit of work. -/
def createHttpServer (base : List D) : Router M D := ⟨base.map .callable, []⟩

/-- The dependencies of a route that was included after `before` REST controllers. -/
def carried (middlewares : List M) (base : List (Dependency M D)) (before : Nat)
    (dependencies : List (Dependency M D)) : List (Dependency M D) :=
  base ++ ((List.replicate before (middlewares.map .intercept)).flatten ++ dependencies)

/-- The routes of a controller that was included after `before` REST controllers. -/
def includedAfter (middlewares : List M) (base : List (Dependency M D)) (before : Nat)
    (controller : RestController M D) : List (Route M D) :=
  (routerFactory controller).routes.map fun route => { route with
    dependencies := carried middlewares base before route.dependencies }

theorem includedAfter_succ (middlewares : List M) (base : List (Dependency M D)) (before : Nat)
    (controller : RestController M D) :
    includedAfter middlewares (base ++ middlewares.map .intercept) before controller =
      includedAfter middlewares base (before + 1) controller := by
  unfold includedAfter
  congr 1
  funext route
  simp [carried, List.replicate_succ]

def restControllers (controllers : List (Option (RestController M D))) :
    List (RestController M D) :=
  controllers.filterMap id

/-- The invariant of the loop: a controller's routes carry the middlewares once for every
REST controller before it. -/
theorem mem_startup_routes (middlewares : List M) (controllers : List (Option (RestController M D)))
    (api : Router M D) (route : Route M D) : route ∈ (startup middlewares controllers api).routes ↔
      route ∈ api.routes ∨ ∃ before controller,
        (restControllers controllers)[before]? = some controller ∧
        route ∈ includedAfter middlewares api.dependencies before controller := by
  induction controllers generalizing api with
  | nil => simp [startup, restControllers]
  | cons controller controllers ih =>
    cases controller with
    | none => exact ih api
    | some controller =>
      have hfirst : (appendMiddlewares middlewares
          (includeRouter api (routerFactory controller))).routes =
            api.routes ++ includedAfter middlewares api.dependencies 0 controller := by
        simp [appendMiddlewares, includeRouter, includedAfter, carried]
      have hdependencies : (appendMiddlewares middlewares
          (includeRouter api (routerFactory controller))).dependencies =
            api.dependencies ++ middlewares.map .intercept := rfl
      have hlist : restControllers (some controller :: controllers) =
          controller :: restControllers controllers := rfl
      rw [startup, ih, hfirst, hdependencies, hlist, List.mem_append, or_assoc]
      apply or_congr_right
      constructor
      · rintro (hroute | ⟨before, c, hc, hroute⟩)
        · exact ⟨0, controller, rfl, hroute⟩
        · rw [includedAfter_succ] at hroute
          exact ⟨before + 1, c, hc, hroute⟩
      · rintro ⟨before, c, hc, hroute⟩
        cases before with
        | zero =>
          rw [List.getElem?_cons_zero, Option.some.injEq] at hc
          rw [← hc] at hroute
          exact .inl hroute
        | succ before =>
          rw [← includedAfter_succ] at hroute
          exact .inr ⟨before, c, hc, hroute⟩

section Counting

variable [DecidableEq M] [DecidableEq D]

/-- How often the controller and the method themselves declare a middleware. -/
def declared (controller : RestController M D) (member : Member M D) (m : M) : Nat :=
  controller.middlewares.count m + controller.classMiddlewares.count m + member.middlewares.count m

theorem count_intercept (ms : List M) (m : M) :
    (ms.map fun m' => (.intercept m' : Dependency M D)).count (.intercept m) = ms.count m :=
  List.count_map_of_injective ms _ (fun _ _ h => Dependency.intercept.inj h) m

theorem count_callable (ds : List D) (m : M) :
    (ds.map fun d => (.callable d : Dependency M D)).count (.intercept m) = 0 := by
  rw [List.count_eq_zero]
  simp

/-- How often a route carries a middleware. -/
theorem count_included (middlewares : List M) (base : List D) (before : Nat)
    (controller : RestController M D) (member : Member M D) (m : M) :
    (carried middlewares (base.map .callable) before
      (routerDependencies controller ++ routeDependencies member)).count (.intercept m) =
        before * middlewares.count m + declared controller member m := by
  have hflat : ((List.replicate before (middlewares.map .intercept)).flatten :
      List (Dependency M D)).count (.intercept m) = before * middlewares.count m := by
    rw [List.count_flatten, List.map_replicate, List.sum_replicate_nat, count_intercept]
  simp only [carried, routerDependencies, routeDependencies, declared, List.count_append, hflat,
    count_intercept, count_callable]
  omega

theorem once_iff {before occurrences own : Nat} (hpos : 0 < occurrences) :
    before * occurrences + own = 1 ↔
      (before = 0 ∧ own = 1) ∨ (before = 1 ∧ occurrences = 1 ∧ own = 0) := by
  obtain _ | _ | before := before
  · omega
  · omega
  · have hlarge : occurrences + occurrences ≤ (before + 1 + 1) * occurrences := by
      rw [Nat.succ_mul, Nat.succ_mul]
      omega
    omega

/-- A route carries every application-wide middleware exactly once. -/
def GuardedOnce (middlewares : List M) (route : Route M D) : Prop :=
  ∀ m ∈ middlewares, route.dependencies.count (.intercept m) = 1

/-- Where every route is guarded once: on the second REST controller, if it does not declare
the middlewares itself, and on the first, if it does. -/
theorem guarded_once_iff (middlewares : List M) (base : List D)
    (controllers : List (Option (RestController M D))) :
    (∀ route ∈ (startup middlewares controllers (createHttpServer base)).routes,
      GuardedOnce middlewares route) ↔
    ∀ before controller, (restControllers controllers)[before]? = some controller →
      ∀ entry ∈ routerMembers controller, ∀ m ∈ middlewares,
        (before = 0 ∧ declared controller entry.2 m = 1) ∨
          (before = 1 ∧ middlewares.count m = 1 ∧ declared controller entry.2 m = 0) := by
  constructor
  · intro hall before controller hc entry hentry m hm
    have hroute := hall _ ((mem_startup_routes middlewares controllers _ _).mpr
      (.inr ⟨before, controller, hc, List.mem_map_of_mem (List.mem_map_of_mem hentry)⟩)) m hm
    rw [← once_iff (List.count_pos_iff.mpr hm), ← count_included middlewares base]
    exact hroute
  · intro hall route hroute m hm
    obtain hnew | ⟨before, controller, hc, hincluded⟩ :=
      (mem_startup_routes middlewares controllers _ _).mp hroute
    · cases hnew
    · obtain ⟨route', hroute', rfl⟩ := List.mem_map.mp hincluded
      obtain ⟨entry, hentry, rfl⟩ := List.mem_map.mp hroute'
      have honce := hall before controller hc entry hentry m hm
      rw [← once_iff (List.count_pos_iff.mpr hm), ← count_included middlewares base] at honce
      exact honce

end Counting

/-- One controller with one route, as a service with an authentication middleware has it. -/
def users : RestController String String where
  path := "/users"
  middlewares := []
  classMiddlewares := []
  classDependencies := []
  members := [⟨"list_users", some (.http "GET" "/" 1), none, [], []⟩]

/-- The only controller of an application: its route carries no middleware at all. -/
theorem first_controller_unguarded :
    ∃ route ∈ (startup ["AuthMiddleware"] [some users] (createHttpServer ["uow"])).routes,
      route.dependencies = [.callable "uow"] ∧ ¬GuardedOnce ["AuthMiddleware"] route := by
  have hroutes : (startup ["AuthMiddleware"] [some users] (createHttpServer ["uow"])).routes =
      [⟨.http "GET" "/" 1, "/users/", "list_users", [.callable "uow"]⟩] := by
    decide +kernel
  refine ⟨⟨.http "GET" "/" 1, "/users/", "list_users", [.callable "uow"]⟩, ?_, rfl, ?_⟩
  · rw [hroutes]
    exact List.mem_singleton_self _
  · intro hguarded
    have hone := hguarded "AuthMiddleware" (by simp)
    cases hone

end HttpRoutes
