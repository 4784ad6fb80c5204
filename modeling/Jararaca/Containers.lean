import Mathlib.Logic.Function.Basic
import Mathlib.Logic.Relation
import Mathlib.Tactic.Common
import Jararaca.Messages

/-!
# The dependency container

`Container` of microservice.py: the map from tokens and types to objects, the recursive
instantiation that registers dependencies on demand, and `fill_providers`. An object that
was built carries a number of its own and the arguments it was called with, so that two
objects are one exactly when they are equal. Every change of the map is one of two moves:
a value is registered, or an object whose arguments are all in the map.
-/
namespace Containers

open Messages

/-- A class or a factory. -/
abbrev Callable := Nat

/-- What the map is keyed by: a type (or a callable), or a `Token` with its type. -/
inductive Key where
  | type (t : Callable)
  | token (t : Callable) (name : String)
  deriving DecidableEq, Repr

/-- What is instantiated where nothing is registered for a key. -/
def Key.callable : Key → Callable
  | .type t => t
  | .token t _ => t

/-- What the container reads of callables: the annotated parameters, and whether the call
with its arguments succeeds (`inspect.signature` included). -/
structure Signatures where
  dependencies : Callable → List (String × Key)
  succeeds : Callable → Bool

/-- A value given as `use_value`, and whether Python takes it for true. -/
structure Value where
  ref : Nat
  truthy : Bool
  deriving DecidableEq, Repr

inductive Obj where
  | value (v : Value)
  | built (id : Nat) (callable : Callable) (args : List (String × Obj))

/-- What an object is: a given value, or what a callable returned. -/
inductive Label where
  | value (v : Value)
  | of (callable : Callable)
  deriving DecidableEq, Repr

def Obj.label : Obj → Label
  | .value v => .value v
  | .built _ callable _ => .of callable

/-- `instances_map`, and the number of the next object. -/
structure Container where
  instances : Key → Option Obj := fun _ => none
  next : Nat := 0

def Container.register (s : Container) (key : Key) (o : Obj) : Container :=
  { s with instances := Function.update s.instances key (some o) }

def Container.call (s : Container) (key : Key) (callable : Callable) (args : List (String × Obj)) :
    Obj × Container :=
  (.built s.next callable args,
    { (s.register key (.built s.next callable args)) with next := s.next + 1 })

section Code

variable (sig : Signatures)

/-- The loop of `_instantiate` over the dependencies. -/
def evaluate (resolve : Key → Container → Except PyExc (Obj × Container)) :
    List (String × Key) → Container → Except PyExc (List (String × Obj) × Container)
  | [], s => .ok ([], s)
  | (name, key) :: rest, s =>
    match resolve key s with
    | .error e => .error e
    | .ok (o, s') =>
      match evaluate resolve rest s' with
      | .error e => .error e
      | .ok (args, s'') => .ok ((name, o) :: args, s'')

/-- `_get_and_register`: `_instantiate`, then `register`. -/
def getAndRegister (resolve : Key → Container → Except PyExc (Obj × Container))
    (callable : Callable)
    (bindTo : Key) (s : Container) : Except PyExc (Obj × Container) :=
  match evaluate resolve (sig.dependencies callable) s with
  | .error e => .error e
  | .ok (args, s') =>
    if sig.succeeds callable then .ok (s'.call bindTo callable args)
    else .error (.error "TypeError" "")

/-- `get_or_register_token_or_type`, under the interpreter's recursion limit. -/
def getOrRegister : Nat → Key → Container → Except PyExc (Obj × Container)
  | 0, _, _ => .error (.error "RecursionError" "maximum recursion depth exceeded")
  | limit + 1, key, s =>
    match s.instances key with
    | some o => .ok (o, s)
    | none => getAndRegister sig (getOrRegister limit) key.callable key s

structure ProviderSpec where
  provide : Key
  useValue : Option Value := none
  useFactory : Option Callable := none
  useClass : Option Callable := none
  afterInterceptors : Bool := false
  deriving DecidableEq, Repr

inductive Provider where
  | spec (p : ProviderSpec)
  | plain (t : Callable)
  deriving DecidableEq, Repr

/-- The body of the loop of `fill_providers` for a spec: `if provider.use_value` passes a
value over that Python does not take for true. -/
def fillOne (limit : Nat) (p : ProviderSpec) (s : Container) : Except PyExc Container :=
  match p.useValue.filter Value.truthy with
  | some v => .ok (s.register p.provide (.value v))
  | none =>
    match p.useClass with
    | some c => (getAndRegister sig (getOrRegister sig limit) c p.provide s).map Prod.snd
    | none =>
      match p.useFactory with
      | some f => (getAndRegister sig (getOrRegister sig limit) f p.provide s).map Prod.snd
      | none => .ok s

/-- `fill_providers`. The generator reads `after_interceptors` of every entry, which a
plain type does not have. -/
def fillProviders (limit : Nat) (afterInterceptors : Bool) :
    List Provider → Container → Except PyExc Container
  | [], s => .ok s
  | .plain _ :: _, _ =>
    .error (.error "AttributeError" "type object has no attribute 'after_interceptors'")
  | .spec p :: rest, s =>
    if p.afterInterceptors == afterInterceptors then
      match fillOne sig limit p s with
      | .error e => .error e
      | .ok s' => fillProviders limit afterInterceptors rest s'
    else fillProviders limit afterInterceptors rest s

/-- The interceptors of the app that are callables, resolved one after the other. -/
def resolveInterceptors (limit : Nat) : List Callable → Container → Except PyExc Container
  | [], s => .ok s
  | i :: rest, s =>
    match getOrRegister sig limit (.type i) s with
    | .error e => .error e
    | .ok (_, s') => resolveInterceptors limit rest s'

/-- The container after the start of `AppLifecycle`. -/
def startContainer (limit : Nat) (providers : List Provider) (interceptors : List Callable) :
    Except PyExc Container :=
  match fillProviders sig limit false providers {} with
  | .error e => .error e
  | .ok s =>
    match resolveInterceptors sig limit interceptors s with
    | .error e => .error e
    | .ok s' => fillProviders sig limit true providers s'

end Code

/-- Arguments for dependencies: name for name the objects the container has for them. -/
def Fit (s : Container) (dependencies : List (String × Key)) (args : List (String × Obj)) : Prop :=
  List.Forall₂ (fun d a => a.1 = d.1 ∧ s.instances d.2 = some a.2) dependencies args

/-- One change of the map, where `P` says what may be registered under which key. -/
inductive Move (sig : Signatures) (P : Container → Key → Label → Prop) :
    Container → Container → Prop where
  | value {s : Container} {key : Key} {v : Value} (allowed : P s key (.value v)) :
      Move sig P s (s.register key (.value v))
  | built {s : Container} {key : Key} {c : Callable} {args : List (String × Obj)}
      (allowed : P s key (.of c)) (fit : Fit s (sig.dependencies c) args) :
      Move sig P s (s.call key c args).2

def Moves (sig : Signatures) (P : Container → Key → Label → Prop) : Container → Container → Prop :=
  Relation.ReflTransGen (Move sig P)

/-- Registration on demand: of the key's own callable, under a key of `D` that has no
object yet. -/
def OnDemand (D : Key → Prop) (s : Container) (key : Key) (l : Label) : Prop :=
  D key ∧ s.instances key = none ∧ l = .of key.callable

/-- The keys of `D` that have no object depend on keys of `D` only. -/
def Closed (sig : Signatures) (D : Key → Prop) (s : Container) : Prop :=
  ∀ key, D key → s.instances key = none → ∀ d ∈ sig.dependencies key.callable, D d.2

section Moves

variable {sig : Signatures} {D : Key → Prop} {s s' : Container}

@[simp] theorem register_instances (s : Container) (key : Key) (o : Obj) :
    (s.register key o).instances = Function.update s.instances key (some o) := rfl

@[simp] theorem call_instances (s : Container) (key : Key) (c : Callable)
    (args : List (String × Obj)) :
    (s.call key c args).2.instances =
      Function.update s.instances key (some (.built s.next c args)) := rfl

@[simp] theorem call_next (s : Container) (key : Key) (c : Callable) (args : List (String × Obj)) :
    (s.call key c args).2.next = s.next + 1 := rfl

/-- Registrations that all have `P` all have `Q`, if `P` implies `Q`. -/
theorem Moves.mono {P Q : Container → Key → Label → Prop} (h : Moves sig P s s')
    (himp : ∀ s key l, P s key l → Q s key l) : Moves sig Q s s' := by
  have hmove : ∀ a b, Move sig P a b → Move sig Q a b := by
    intro a b hmove
    cases hmove with
    | value allowed => exact .value (himp _ _ _ allowed)
    | built allowed fit => exact .built (himp _ _ _ allowed) fit
  exact Relation.ReflTransGen.mono hmove _ _ h

/-- An invariant of the moves is an invariant of every run of them. -/
theorem Moves.preserves {P : Container → Key → Label → Prop} {I : Container → Prop}
    (hstep : ∀ a b, Move sig P a b → I a → I b) (h : Moves sig P s s') (hs : I s) : I s' := by
  induction h with
  | refl => exact hs
  | tail _ hmove ih => exact hstep _ _ hmove ih

/-- What is registered stays while the rest is registered on demand. -/
theorem Moves.keeps (h : Moves sig (OnDemand D) s s') {key : Key} {o : Obj}
    (hs : s.instances key = some o) : s'.instances key = some o := by
  refine h.preserves (I := fun s => s.instances key = some o) ?_ hs
  intro a b hmove ha
  cases hmove with
  | value allowed => exact absurd allowed.2.2 (by simp)
  | @built key' c args allowed fit =>
    have hne : key ≠ key' := by
      rintro rfl
      rw [allowed.2.1] at ha
      contradiction
    rw [call_instances, Function.update_of_ne hne, ha]

theorem Moves.absent (h : Moves sig (OnDemand D) s s') {key : Key}
    (hs : s'.instances key = none) : s.instances key = none := by
  cases hk : s.instances key with
  | none => rfl
  | some o =>
    rw [h.keeps hk] at hs
    contradiction

theorem Closed.moved (hc : Closed sig D s) (h : Moves sig (OnDemand D) s s') : Closed sig D s' := by
  intro key hD hnone
  exact hc key hD (h.absent hnone)

theorem Fit.moved (h : Moves sig (OnDemand D) s s') {deps : List (String × Key)}
    {args : List (String × Obj)} (hfit : Fit s deps args) : Fit s' deps args := by
  refine List.Forall₂.imp ?_ hfit
  rintro d a ⟨hname, hobj⟩
  exact ⟨hname, h.keeps hobj⟩

/-- What it means that a way to resolve keys only registers on demand. -/
def Resolves (sig : Signatures) (D : Key → Prop)
    (resolve : Key → Container → Except PyExc (Obj × Container)) : Prop :=
  ∀ key s o s', resolve key s = .ok (o, s') → D key → Closed sig D s →
    Moves sig (OnDemand D) s s' ∧ s'.instances key = some o

/-- Evaluating parameters registers on demand only, if resolving them does, and the arguments fit.
-/
theorem evaluate_moves {resolve : Key → Container → Except PyExc (Obj × Container)}
    (hr : Resolves sig D resolve) {deps : List (String × Key)} {args : List (String × Obj)}
    (h : evaluate resolve deps s = .ok (args, s')) (hD : ∀ d ∈ deps, D d.2) (hc : Closed sig D s) :
    Moves sig (OnDemand D) s s' ∧ Fit s' deps args := by
  induction deps generalizing s args with
  | nil =>
    obtain ⟨rfl, rfl⟩ : [] = args ∧ s = s' := by simpa [evaluate] using h
    exact ⟨.refl, .nil⟩
  | cons d rest ih =>
    obtain ⟨name, key⟩ := d
    rw [evaluate] at h
    cases hkey : resolve key s with
    | error e => simp [hkey] at h
    | ok r =>
      obtain ⟨o, s₁⟩ := r
      obtain ⟨hmoves, hobj⟩ := hr key s o s₁ hkey (hD (name, key) (by simp)) hc
      cases hrest : evaluate resolve rest s₁ with
      | error e => simp [hkey, hrest] at h
      | ok r =>
        obtain ⟨more, s₂⟩ := r
        obtain ⟨rfl, rfl⟩ : (name, o) :: more = args ∧ s₂ = s' := by simpa [hkey, hrest] using h
        obtain ⟨hmore, hfit⟩ := ih hrest (fun d hd => hD d (by simp [hd])) (hc.moved hmoves)
        exact ⟨hmoves.trans hmore, .cons ⟨rfl, hmore.keeps hobj⟩ hfit⟩

theorem getAndRegister_ok {resolve : Key → Container → Except PyExc (Obj × Container)}
    {c : Callable}
    {bindTo : Key} {o : Obj} (h : getAndRegister sig resolve c bindTo s = .ok (o, s')) :
    ∃ s₁ args, evaluate resolve (sig.dependencies c) s = .ok (args, s₁) ∧
      o = .built s₁.next c args ∧ s' = (s₁.call bindTo c args).2 := by
  unfold getAndRegister at h
  cases he : evaluate resolve (sig.dependencies c) s with
  | error e => simp [he] at h
  | ok r =>
    obtain ⟨args, s₁⟩ := r
    by_cases hok : sig.succeeds c = true
    · simp only [he, hok, if_true, Except.ok.injEq] at h
      exact ⟨s₁, args, rfl, congrArg Prod.fst h.symm, congrArg Prod.snd h.symm⟩
    · simp [he, hok] at h

/-- Keys `V` that are being instantiated while `key` is resolved: none has an object, and
each waits for another of them or for `key`. -/
def Pending (sig : Signatures) (V : Key → Prop) (key : Key) (s : Container) : Prop :=
  ∀ v, V v → s.instances v = none ∧ ∃ d ∈ sig.dependencies v.callable, V d.2 ∨ d.2 = key

/-- Resolving a key leaves what is pending without object, and a pending key cannot be
resolved: it would wait for itself. -/
def Spares (sig : Signatures) (resolve : Key → Container → Except PyExc (Obj × Container)) : Prop :=
  ∀ V key s o s', resolve key s = .ok (o, s') → Pending sig V key s →
    (s.instances key = none → ¬V key) ∧ ∀ v, V v → s'.instances v = none

/-- Evaluating parameters leaves what is pending without object. -/
theorem evaluate_spares {resolve : Key → Container → Except PyExc (Obj × Container)}
    (hr : Spares sig resolve) {V : Key → Prop} {deps : List (String × Key)}
    {args : List (String × Obj)}
    (h : evaluate resolve deps s = .ok (args, s')) (hV : ∀ d ∈ deps, Pending sig V d.2 s)
    (habsent : ∀ v, V v → s.instances v = none) :
    (∀ d ∈ deps, ¬V d.2) ∧ ∀ v, V v → s'.instances v = none := by
  induction deps generalizing s args with
  | nil =>
    obtain ⟨-, rfl⟩ : [] = args ∧ s = s' := by simpa [evaluate] using h
    exact ⟨by simp, habsent⟩
  | cons d rest ih =>
    obtain ⟨name, key⟩ := d
    rw [evaluate] at h
    cases hkey : resolve key s with
    | error e => simp [hkey] at h
    | ok r =>
      obtain ⟨o, s₁⟩ := r
      obtain ⟨hnot, hkept⟩ := hr V key s o s₁ hkey (hV (name, key) (by simp))
      cases hrest : evaluate resolve rest s₁ with
      | error e => simp [hkey, hrest] at h
      | ok r =>
        obtain ⟨more, s₂⟩ := r
        obtain ⟨-, rfl⟩ : (name, o) :: more = args ∧ s₂ = s' := by simpa [hkey, hrest] using h
        have hlater : ∀ d ∈ rest, Pending sig V d.2 s₁ := by
          intro d hd v hv
          exact ⟨hkept v hv, (hV d (by simp [hd]) v hv).2⟩
        obtain ⟨hothers, hend⟩ := ih hrest hlater hkept
        refine ⟨?_, hend⟩
        intro d hd
        obtain rfl | hd := List.mem_cons.mp hd
        · intro hv
          exact hnot (habsent _ hv) hv
        · exact hothers d hd

/-- While the dependencies of an absent key are evaluated, the key is pending too. -/
theorem evaluate_pending {resolve : Key → Container → Except PyExc (Obj × Container)}
    (hr : Spares sig resolve) {V : Key → Prop} {key : Key} {args : List (String × Obj)}
    (h : evaluate resolve (sig.dependencies key.callable) s = .ok (args, s'))
    (hV : Pending sig V key s) (hk : s.instances key = none) :
    ¬V key ∧ ∀ v, V v ∨ v = key → s'.instances v = none := by
  have hpending :
      ∀ d ∈ sig.dependencies key.callable, Pending sig (fun v => V v ∨ v = key) d.2 s := by
    rintro d hd v (hv | rfl)
    · obtain ⟨hnone, d', hd', hwait⟩ := hV v hv
      exact ⟨hnone, d', hd', .inl hwait⟩
    · exact ⟨hk, d, hd, .inr rfl⟩
  have habsent : ∀ v, V v ∨ v = key → s.instances v = none := by
    rintro v (hv | rfl)
    · exact (hV v hv).1
    · exact hk
  obtain ⟨hnot, hend⟩ := evaluate_spares hr h hpending habsent
  refine ⟨?_, hend⟩
  intro hv
  obtain ⟨-, d, hd, hwait⟩ := hV key hv
  exact hnot d hd hwait

/-- `get_or_register_token_or_type` leaves what is pending without object: a key that waits for
itself is never resolved. -/
theorem getOrRegister_spares (limit : Nat) : Spares sig (getOrRegister sig limit) := by
  induction limit with
  | zero =>
    intro V key s o s' h
    simp [getOrRegister] at h
  | succ limit ih =>
    intro V key s o s' h hV
    rw [getOrRegister] at h
    cases hk : s.instances key with
    | some o' =>
      obtain ⟨-, rfl⟩ : o' = o ∧ s = s' := by simpa [hk] using h
      exact ⟨by simp, fun v hv => (hV v hv).1⟩
    | none =>
      simp only [hk] at h
      obtain ⟨s₁, args, he, -, rfl⟩ := getAndRegister_ok h
      obtain ⟨hnot, hend⟩ := evaluate_pending ih he hV hk
      refine ⟨fun _ => hnot, ?_⟩
      intro v hv
      have hne : v ≠ key := by
        rintro rfl
        exact hnot hv
      rw [call_instances, Function.update_of_ne hne, hend v (.inl hv)]

/-- `get_or_register_token_or_type` registers on demand only. -/
theorem getOrRegister_resolves (limit : Nat) : Resolves sig D (getOrRegister sig limit) := by
  induction limit with
  | zero =>
    intro key s o s' h
    simp [getOrRegister] at h
  | succ limit ih =>
    intro key s o s' h hD hc
    rw [getOrRegister] at h
    cases hk : s.instances key with
    | some o' =>
      obtain ⟨rfl, rfl⟩ : o' = o ∧ s = s' := by simpa [hk] using h
      exact ⟨.refl, hk⟩
    | none =>
      simp only [hk] at h
      obtain ⟨s₁, args, he, rfl, rfl⟩ := getAndRegister_ok h
      obtain ⟨hmoves, hfit⟩ := evaluate_moves ih he (hc key hD hk) hc
      have habsent : s₁.instances key = none :=
        (evaluate_pending (V :=
          fun _ => False) (getOrRegister_spares limit) he (by simp [Pending]) hk).2
          key (.inr rfl)
      exact ⟨hmoves.tail (.built ⟨hD, habsent, rfl⟩ hfit), by simp⟩

/-- A call for a key: everything on demand, then the object itself. -/
theorem getAndRegister_moves {limit : Nat} {c : Callable} {bindTo : Key} {o : Obj}
    (h : getAndRegister sig (getOrRegister sig limit) c bindTo s = .ok (o, s'))
    (hD : ∀ d ∈ sig.dependencies c, D d.2) (hc : Closed sig D s) :
    ∃ s₁ args, Moves sig (OnDemand D) s s₁ ∧ Fit s₁ (sig.dependencies c) args ∧
      o = .built s₁.next c args ∧ s' = (s₁.call bindTo c args).2 := by
  obtain ⟨s₁, args, he, ho, hs'⟩ := getAndRegister_ok h
  obtain ⟨hmoves, hfit⟩ := evaluate_moves (getOrRegister_resolves limit) he hD hc
  exact ⟨s₁, args, hmoves, hfit, ho, hs'⟩

end Moves

section Turns

variable (sig : Signatures)

def specs (providers : List Provider) : List ProviderSpec :=
  providers.filterMap fun
    | .spec p => some p
    | .plain _ => none

/-- A part of the start: a provider of one of the two fills, or an interceptor. -/
inductive Turn where
  | provider (p : ProviderSpec)
  | interceptor (i : Callable)

def takeTurn (limit : Nat) : Turn → Container → Except PyExc Container
  | .provider p, s => fillOne sig limit p s
  | .interceptor i, s => (getOrRegister sig limit (.type i) s).map Prod.snd

def takeTurns (limit : Nat) : List Turn → Container → Except PyExc Container
  | [], s => .ok s
  | t :: rest, s =>
    match takeTurn sig limit t s with
    | .error e => .error e
    | .ok s' => takeTurns limit rest s'

def fillTurns (providers : List Provider) (afterInterceptors : Bool) : List Turn :=
  ((specs providers).filter fun p => p.afterInterceptors == afterInterceptors).map .provider

def turns (providers : List Provider) (interceptors : List Callable) : List Turn :=
  fillTurns providers false ++ interceptors.map .interceptor ++ fillTurns providers true

variable {sig} {limit : Nat}

theorem takeTurns_append (first second : List Turn) (s : Container) :
    takeTurns sig limit (first ++ second) s = (takeTurns sig limit first s).bind
      (takeTurns sig limit second) := by
  induction first generalizing s with
  | nil => rfl
  | cons t rest ih =>
    rw [List.cons_append, takeTurns, takeTurns]
    cases takeTurn sig limit t s with
    | error e => rfl
    | ok s' => exact ih s'

theorem takeTurns_append_ok {first second : List Turn} {s s' : Container} :
    takeTurns sig limit (first ++ second) s = .ok s' ↔
      ∃ s₁, takeTurns sig limit first s = .ok s₁ ∧ takeTurns sig limit second s₁ = .ok s' := by
  rw [takeTurns_append]
  cases takeTurns sig limit first s with
  | error e => simp [Except.bind]
  | ok s₁ => simp [Except.bind]

theorem takeTurns_cons_ok {t : Turn} {rest : List Turn} {s s' : Container} :
    takeTurns sig limit (t :: rest) s = .ok s' ↔
      ∃ s₁, takeTurn sig limit t s = .ok s₁ ∧ takeTurns sig limit rest s₁ = .ok s' := by
  rw [takeTurns]
  cases takeTurn sig limit t s with
  | error e => simp
  | ok s₁ => simp

/-- Without plain types among the providers, both calls of `fill_providers` take the turns in
order. -/
theorem fillProviders_turns {providers : List Provider} {afterInterceptors : Bool}
    (hplain : ∀ t, .plain t ∉ providers) (s : Container) :
    fillProviders sig limit afterInterceptors providers s =
      takeTurns sig limit (fillTurns providers afterInterceptors) s := by
  induction providers generalizing s with
  | nil => rfl
  | cons x rest ih =>
    have hrest : ∀ t, .plain t ∉ rest := fun t ht => hplain t (List.mem_cons_of_mem _ ht)
    cases x with
    | plain t => exact absurd List.mem_cons_self (hplain t)
    | spec p =>
      rw [fillProviders]
      by_cases hp : (p.afterInterceptors == afterInterceptors) = true
      · have hturns : fillTurns (.spec p :: rest) afterInterceptors =
            .provider p :: fillTurns rest afterInterceptors := by
          simp only [fillTurns, specs, List.filterMap_cons, List.filter_cons, hp, if_true,
            List.map_cons]
        rw [if_pos hp, hturns, takeTurns, takeTurn]
        cases fillOne sig limit p s with
        | error e => rfl
        | ok s' => exact ih hrest s'
      · have hturns :
            fillTurns (.spec p :: rest) afterInterceptors = fillTurns rest afterInterceptors := by
          simp only [fillTurns, specs, List.filterMap_cons, List.filter_cons, hp,
            Bool.false_eq_true,
            if_false]
        rw [if_neg hp, hturns, ih hrest]

theorem resolveInterceptors_turns (interceptors : List Callable) (s : Container) :
    resolveInterceptors sig limit interceptors s =
      takeTurns sig limit (interceptors.map .interceptor) s := by
  induction interceptors generalizing s with
  | nil => rfl
  | cons i rest ih =>
    rw [resolveInterceptors, List.map_cons, takeTurns, takeTurn]
    cases getOrRegister sig limit (.type i) s with
    | error e => rfl
    | ok r => exact ih r.2

/-- Without plain types the start takes the turns one after the other. -/
theorem startContainer_turns {providers : List Provider} (hplain : ∀ t, .plain t ∉ providers)
    (interceptors : List Callable) :
    startContainer sig limit providers interceptors =
      takeTurns sig limit (turns providers interceptors) {} := by
  unfold startContainer turns
  rw [List.append_assoc, takeTurns_append, fillProviders_turns hplain]
  cases takeTurns sig limit (fillTurns providers false) {} with
  | error e => rfl
  | ok s =>
    simp only [Except.bind, takeTurns_append, resolveInterceptors_turns]
    cases takeTurns sig limit (interceptors.map .interceptor) s with
    | error e => rfl
    | ok s' => exact fillProviders_turns hplain s'

/-- With a plain type among the providers there is no start. -/
theorem startContainer_plain {providers : List Provider} {t : Callable} (h : .plain t ∈ providers)
    (interceptors : List Callable) (s : Container) :
    startContainer sig limit providers interceptors ≠ .ok s := by
  have hfill : ∀ (listing : List Provider) (s s' : Container), .plain t ∈ listing →
      fillProviders sig limit false listing s ≠ .ok s' := by
    intro listing
    induction listing with
    | nil => simp
    | cons x rest ih =>
      intro s s' hmem
      cases x with
      | plain t' => simp [fillProviders]
      | spec p =>
        have hrest : .plain t ∈ rest := by simpa using hmem
        rw [fillProviders]
        split
        · split
          · simp
          · exact ih _ _ hrest
        · exact ih _ _ hrest
  unfold startContainer
  cases hf : fillProviders sig limit false providers {} with
  | error e => simp
  | ok s₁ => exact absurd hf (hfill providers {} s₁ h)

end Turns

end Containers
