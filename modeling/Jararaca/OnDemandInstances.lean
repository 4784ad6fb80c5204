import Mathlib.Order.Filter.AtTopBot.Basic
import Mathlib.Order.Filter.Finite
import Jararaca.Containers
import Jararaca.Unfoldings

/-!
# Instances on demand

Requests to a container without providers, one after the other. Where the container of
`Containers` gives no container with an error, the one here is the mutable map of the source:
what a request registered before it raised stays. Beside the map stands the list of what was
constructed, for which token or type and in which order.
-/
namespace OnDemandInstances

open Messages Containers

/-- The container, and the objects that were constructed for its tokens and types. -/
structure Session where
  container : Container := {}
  constructed : List (Key × Obj) := []

/-- `type_(**evaluated_dependencies)` and `register`. -/
def Session.construct (s : Session) (key : Key) (args : List (String × Obj)) : Obj × Session :=
  ((s.container.call key key.callable args).1,
    { container := (s.container.call key key.callable args).2
      constructed := s.constructed ++ [(key, (s.container.call key key.callable args).1)] })

/-- What a call returns or raises, and the session after it. -/
abbrev Outcome (α : Type) := Except PyExc α × Session

section Code

variable (sig : Signatures)

/-- The loop of `_instantiate` over the dependencies. -/
def evaluateDependencies (resolve : Key → Session → Outcome Obj) :
    List (String × Key) → Session → Outcome (List (String × Obj))
  | [], s => (.ok [], s)
  | (name, key) :: rest, s =>
    match resolve key s with
    | (.error e, s') => (.error e, s')
    | (.ok o, s') =>
      match evaluateDependencies resolve rest s' with
      | (.error e, s'') => (.error e, s'')
      | (.ok args, s'') => (.ok ((name, o) :: args), s'')

/-- `_get_and_register` of the key's own callable. -/
def instantiate (resolve : Key → Session → Outcome Obj) (key : Key) (s : Session) : Outcome Obj :=
  match evaluateDependencies resolve (sig.dependencies key.callable) s with
  | (.error e, s') => (.error e, s')
  | (.ok args, s') =>
    if sig.succeeds key.callable then (.ok (s'.construct key args).1, (s'.construct key args).2)
    else (.error (.error "TypeError" ""), s')

/-- `get_or_register_token_or_type`, under the interpreter's recursion limit. -/
def getOrRegisterTokenOrType : Nat → Key → Session → Outcome Obj
  | 0, _, s => (.error (.error "RecursionError" "maximum recursion depth exceeded"), s)
  | limit + 1, key, s =>
    match s.container.instances key with
    | some o => (.ok o, s)
    | none => instantiate sig (getOrRegisterTokenOrType limit) key s

/-- The three ways to ask. -/
inductive Request where
  | getByType (t : Callable)
  | getByToken (t : Callable) (name : String)
  | getOrRegister (key : Key)

def Request.key : Request → Key
  | .getByType t => .type t
  | .getByToken t name => .token t name
  | .getOrRegister key => key

/-- The answers to the requests with what they asked for, and the session after them. -/
def serve (limit : Nat) : List Request → Session → List (Key × Except PyExc Obj) × Session
  | [], s => ([], s)
  | r :: rest, s =>
    let (answer, s') := getOrRegisterTokenOrType sig limit r.key s
    let (answers, s'') := serve limit rest s'
    ((r.key, answer) :: answers, s'')

end Code

/-- A callable depends on another: one of its parameters is annotated with it or with a
token for it. -/
def DependsOn (sig : Signatures) (c c' : Callable) : Prop :=
  ∃ d ∈ sig.dependencies c, d.2.callable = c'

structure AcyclicGraph (sig : Signatures) : Prop where
  acyclic : ∀ c, ¬Relation.TransGen (DependsOn sig) c c
  finite : {c | sig.dependencies c ≠ []}.Finite

/-- Everything in the map was constructed for its key, once, with the map's own objects. -/
structure Sound (sig : Signatures) (s : Session) : Prop where
  once : (s.constructed.map Prod.fst).Nodup
  logged : ∀ key o, s.container.instances key = some o ↔ (key, o) ∈ s.constructed
  wired : ∀ e ∈ s.constructed, ∃ id args,
    e.2 = .built id e.1.callable args ∧ Fit s.container (sig.dependencies e.1.callable) args

/-- One session goes on from another by constructions for keys of `D`. -/
def Continues (D : Key → Prop) (s s' : Session) : Prop :=
  ∃ more, s'.constructed = s.constructed ++ more ∧ ∀ e ∈ more, D e.1

/-- The keys whose callable is the one of `key` or reached from it through dependencies. -/
def Below (sig : Signatures) (key key' : Key) : Prop :=
  Relation.ReflTransGen (DependsOn sig) key.callable key'.callable

section Refinement

variable {sig : Signatures}

/-- What the containers of `Containers` return is what the sessions return. -/
def Matches {α : Type} (result : Except PyExc (α × Container)) (outcome : Outcome α) : Prop :=
  result = outcome.1.map fun a => (a, outcome.2.container)

/-- Evaluating parameters gives the same with the constructions counted as without. -/
theorem evaluate_matches {resolve : Key → Container → Except PyExc (Obj × Container)}
    {resolve' : Key → Session → Outcome Obj}
    (hr : ∀ key s, Matches (resolve key s.container) (resolve' key s))
    (deps : List (String × Key)) (s : Session) :
    Matches (evaluate resolve deps s.container) (evaluateDependencies resolve' deps s) := by
  induction deps generalizing s with
  | nil => rfl
  | cons d rest ih =>
    obtain ⟨name, key⟩ := d
    unfold Matches at hr ih ⊢
    rw [evaluate, evaluateDependencies, hr]
    obtain ⟨answer, s'⟩ := resolve' key s
    cases answer with
    | error e => rfl
    | ok o =>
      simp only [Except.map, ih]
      obtain ⟨answers, s''⟩ := evaluateDependencies resolve' rest s'
      cases answers with
      | error e => rfl
      | ok args => rfl

/-- A request that returns leaves the container that the model without errors gives. -/
theorem getOrRegister_matches (limit : Nat) (key : Key) (s : Session) :
    Matches (getOrRegister sig limit key s.container)
      (getOrRegisterTokenOrType sig limit key s) := by
  induction limit generalizing key s with
  | zero => rfl
  | succ limit ih =>
    unfold Matches
    rw [getOrRegister, getOrRegisterTokenOrType]
    cases s.container.instances key with
    | some o => rfl
    | none =>
      simp only [getAndRegister, instantiate]
      rw [evaluate_matches ih]
      obtain ⟨answers, s'⟩ :=
        evaluateDependencies (getOrRegisterTokenOrType sig limit) (sig.dependencies key.callable) s
      cases answers with
      | error e => rfl
      | ok args =>
        cases hsucceeds : sig.succeeds key.callable <;> simp [Except.map, Session.construct]

end Refinement

section Soundness

variable {sig : Signatures} {D E : Key → Prop} {s s' s'' : Session}

theorem Continues.refl (s : Session) : Continues D s s := ⟨[], by simp, by simp⟩

theorem Continues.trans (h : Continues D s s') (h' : Continues D s' s'') : Continues D s s'' := by
  obtain ⟨more, hmore, hD⟩ := h
  obtain ⟨more', hmore', hD'⟩ := h'
  refine ⟨more ++ more', by rw [hmore', hmore, List.append_assoc], ?_⟩
  intro e he
  obtain he | he := List.mem_append.mp he
  · exact hD e he
  · exact hD' e he

theorem Continues.mono (h : Continues D s s') (himp : ∀ key, D key → E key) : Continues E s s' := by
  obtain ⟨more, hmore, hD⟩ := h
  exact ⟨more, hmore, fun e he => himp e.1 (hD e he)⟩

theorem sound_empty : Sound sig {} where
  once := List.nodup_nil
  logged key o := by simp
  wired e he := by cases he

/-- Objects stay in the map. -/
theorem Continues.keeps (h : Continues D s s') (hs : Sound sig s) (hs' : Sound sig s')
    {key : Key} {o : Obj}
    (ho : s.container.instances key = some o) : s'.container.instances key = some o := by
  obtain ⟨more, hmore, -⟩ := h
  rw [hs'.logged, hmore]
  exact List.mem_append_left more ((hs.logged key o).mp ho)

/-- A key outside `D` has an object only if it had one. -/
theorem Continues.absent (h : Continues D s s') (hs : Sound sig s) (hs' : Sound sig s') {key : Key}
    (hkey : ¬D key) (hnone : s.container.instances key = none) :
    s'.container.instances key = none := by
  obtain ⟨more, hmore, hD⟩ := h
  cases ho : s'.container.instances key with
  | none => rfl
  | some o =>
    rw [hs'.logged, hmore] at ho
    obtain ho | ho := List.mem_append.mp ho
    · rw [← hs.logged, hnone] at ho
      cases ho
    · exact absurd (hD _ ho) hkey

/-- A construction keeps a session sound, if the key had no object and the arguments fit. -/
theorem Sound.construct (hs : Sound sig s) {key : Key} {args : List (String × Obj)}
    (hnone : s.container.instances key = none)
    (hfit : Fit s.container (sig.dependencies key.callable) args) :
    Sound sig (s.construct key args).2 := by
  have habsent : ∀ o, (key, o) ∉ s.constructed := by
    intro o ho
    rw [← hs.logged, hnone] at ho
    cases ho
  have hfits : ∀ deps more, Fit s.container deps more →
      Fit (s.construct key args).2.container deps more := by
    intro deps more hmore
    refine List.Forall₂.imp ?_ hmore
    rintro d a ⟨hname, hobj⟩
    have hne : d.2 ≠ key := by
      intro heq
      rw [heq, hnone] at hobj
      cases hobj
    exact ⟨hname, (Function.update_of_ne hne _ _).trans hobj⟩
  constructor
  · change ((s.constructed ++ _).map Prod.fst).Nodup
    rw [List.map_append, List.nodup_append]
    refine ⟨hs.once, List.nodup_singleton _, ?_⟩
    rintro k hk k' hk' rfl
    obtain ⟨e, he, rfl⟩ := List.mem_map.mp hk
    rw [List.map_singleton, List.mem_singleton] at hk'
    have hkey : e.1 = key := hk'
    exact habsent e.2 (hkey ▸ he)
  · intro key' o
    change Function.update s.container.instances key _ key' = some o ↔
      (key', o) ∈ s.constructed ++ _
    rw [List.mem_append, List.mem_singleton]
    by_cases hkey : key' = key
    · subst hkey
      rw [Function.update_self, Option.some.injEq, Prod.mk.injEq]
      exact ⟨fun ho => .inr ⟨rfl, ho.symm⟩, fun ho => (ho.resolve_left (habsent o)).2.symm⟩
    · simp [hs.logged, hkey]
  · intro e he
    obtain he | he := List.mem_append.mp he
    · obtain ⟨id, more, ho, hmore⟩ := hs.wired e he
      exact ⟨id, more, ho, hfits _ _ hmore⟩
    · rw [List.mem_singleton] at he
      subst he
      exact ⟨s.container.next, args, rfl, hfits _ _ hfit⟩

theorem continues_construct {key : Key} (args : List (String × Obj)) (hkey : D key) :
    Continues D s (s.construct key args).2 := by
  refine ⟨_, rfl, ?_⟩
  intro e he
  rw [List.mem_singleton.mp he]
  exact hkey

/-- A way to resolve a key keeps the session sound, constructs only for keys below it, and
returns what is then in the map. -/
def Serves (sig : Signatures) (resolve : Key → Session → Outcome Obj) : Prop :=
  ∀ key s, Sound sig s → Sound sig (resolve key s).2 ∧
    Continues (Below sig key) s (resolve key s).2 ∧
    ∀ o, (resolve key s).1 = .ok o → (resolve key s).2.container.instances key = some o

/-- The keys below a dependency of `c`. -/
def BelowDependency (sig : Signatures) (c : Callable) (key : Key) : Prop :=
  Relation.TransGen (DependsOn sig) c key.callable

/-- Evaluating dependencies keeps a session sound, if resolving them does. -/
theorem evaluateDependencies_sound {resolve : Key → Session → Outcome Obj} (hr : Serves sig resolve)
    {c : Callable}
    {deps : List (String × Key)} (hdeps : ∀ d ∈ deps, d ∈ sig.dependencies c) (hs : Sound sig s) :
    Sound sig (evaluateDependencies resolve deps s).2 ∧
      Continues (BelowDependency sig c) s (evaluateDependencies resolve deps s).2 ∧
      ∀ args, (evaluateDependencies resolve deps s).1 = .ok args →
        Fit (evaluateDependencies resolve deps s).2.container deps args := by
  induction deps generalizing s with
  | nil =>
    refine ⟨hs, .refl s, ?_⟩
    rintro args ⟨rfl⟩
    exact .nil
  | cons d rest ih =>
    obtain ⟨name, key⟩ := d
    obtain ⟨hsound, hcontinues, hobj⟩ := hr key s hs
    have hbelow : Continues (BelowDependency sig c) s (resolve key s).2 := by
      apply hcontinues.mono
      intro key' hkey'
      exact .head' ⟨(name, key), hdeps _ List.mem_cons_self, rfl⟩ hkey'
    rw [evaluateDependencies]
    rcases hanswer : resolve key s with ⟨answer, s'⟩
    rw [hanswer] at hsound hbelow hobj
    cases answer with
    | error e => exact ⟨hsound, hbelow, by simp⟩
    | ok o =>
      obtain ⟨hsound', hbelow', hfit⟩ := ih (fun d hd => hdeps d (List.mem_cons_of_mem _ hd)) hsound
      rcases hanswers : evaluateDependencies resolve rest s' with ⟨answers, s''⟩
      rw [hanswers] at hsound' hbelow' hfit
      simp only [hanswers]
      cases answers with
      | error e => exact ⟨hsound', hbelow.trans hbelow', by simp⟩
      | ok args =>
        refine ⟨hsound', hbelow.trans hbelow', ?_⟩
        rintro _ ⟨rfl⟩
        exact .cons ⟨rfl, hbelow'.keeps hsound hsound' (hobj o rfl)⟩ (hfit args rfl)

/-- In an acyclic graph every request keeps the session sound and constructs only below its key. -/
theorem getOrRegister_serves (hacyclic : ∀ c, ¬Relation.TransGen (DependsOn sig) c c)
    (limit : Nat) :
    Serves sig (getOrRegisterTokenOrType sig limit) := by
  induction limit with
  | zero =>
    intro key s hs
    exact ⟨hs, .refl s, by simp [getOrRegisterTokenOrType]⟩
  | succ limit ih =>
    intro key s hs
    rw [getOrRegisterTokenOrType]
    cases hkey : s.container.instances key with
    | some o =>
      refine ⟨hs, .refl s, ?_⟩
      rintro _ ⟨rfl⟩
      exact hkey
    | none =>
      obtain ⟨hsound, hbelow, hfit⟩ :=
        evaluateDependencies_sound ih (c := key.callable) (fun d hd => hd) hs
      have hcontinues := hbelow.mono (E := Below sig key) fun key' h => h.to_reflTransGen
      -- the key itself is not below its own dependencies
      have habsent := hbelow.absent hs hsound (hacyclic key.callable) hkey
      simp only [instantiate]
      rcases hanswers :
        evaluateDependencies (getOrRegisterTokenOrType sig limit) (sig.dependencies key.callable) s
        with ⟨answers, s'⟩
      rw [hanswers] at hsound hcontinues habsent hfit
      cases answers with
      | error e => exact ⟨hsound, hcontinues, by simp⟩
      | ok args =>
        by_cases hsucceeds : sig.succeeds key.callable = true
        · simp only [hsucceeds, if_true]
          refine ⟨hsound.construct habsent (hfit args rfl),
            hcontinues.trans (continues_construct args .refl), ?_⟩
          rintro _ ⟨rfl⟩
          exact Function.update_self key _ _
        · simp only [hsucceeds]
          exact ⟨hsound, hcontinues, by simp⟩

/-- So do all requests one after the other. -/
theorem serve_sound (hacyclic : ∀ c, ¬Relation.TransGen (DependsOn sig) c c) (limit : Nat)
    (requests : List Request)
    (hs : Sound sig s) :
    Sound sig (serve sig limit requests s).2 ∧
      Continues (fun _ => True) s (serve sig limit requests s).2 ∧
      ∀ a ∈ (serve sig limit requests s).1, ∀ o, a.2 = .ok o →
        (serve sig limit requests s).2.container.instances a.1 = some o := by
  induction requests generalizing s with
  | nil => exact ⟨hs, .refl s, by simp [serve]⟩
  | cons r rest ih =>
    obtain ⟨hsound, hcontinues, hobj⟩ := getOrRegister_serves hacyclic limit r.key s hs
    obtain ⟨hend, hrest, hanswers⟩ := ih hsound
    refine ⟨hend, (hcontinues.mono fun _ _ => trivial).trans hrest, ?_⟩
    intro a ha o ho
    obtain rfl | ha := List.mem_cons.mp ha
    · exact hrest.keeps hsound hend (hobj o ho)
    · exact hanswers a ha o ho

end Soundness

section Termination

variable {sig : Signatures}

/-- Every request for a token or type of the callable is answered with an object. -/
def Answers (sig : Signatures) (c : Callable) (limit : Nat) : Prop :=
  ∀ key : Key, key.callable = c → ∀ s, ∃ o, (getOrRegisterTokenOrType sig limit key s).1 = .ok o

def dependedOn (sig : Signatures) (c : Callable) : List Callable :=
  (sig.dependencies c).map fun d => d.2.callable

theorem edge_dependedOn : Unfoldings.Edge (dependedOn sig) = DependsOn sig := by
  funext c c'
  simp [Unfoldings.Edge, dependedOn, DependsOn]

/-- No chain of dependencies goes on without end. -/
theorem AcyclicGraph.accessible (graph : AcyclicGraph sig) (c : Callable) :
    Acc (fun c' c => DependsOn sig c c') c := by
  have hbelow : {b | Relation.ReflTransGen (DependsOn sig) c b}.Finite := by
    refine ((Set.finite_singleton c).union
      (graph.finite.biUnion fun b _ => List.finite_toSet (dependedOn sig b))).subset ?_
    intro b hb
    rcases Relation.ReflTransGen.cases_tail hb with rfl | ⟨a, -, d, hd, rfl⟩
    · exact .inl rfl
    · have hchild : d.2.callable ∈ dependedOn sig a := List.mem_map.mpr ⟨d, hd, rfl⟩
      exact .inr (Set.mem_biUnion (x := a) (List.ne_nil_of_mem hd) hchild)
  rw [← edge_dependedOn] at hbelow ⊢
  refine (Unfoldings.acc_iff_acyclic hbelow).mpr fun b _ => ?_
  rw [edge_dependedOn]
  exact graph.acyclic b

/-- Dependencies that are all answered are evaluated. -/
theorem evaluateDependencies_ok {resolve : Key → Session → Outcome Obj} {deps : List (String × Key)}
    (hr : ∀ d ∈ deps, ∀ s, ∃ o, (resolve d.2 s).1 = .ok o) (s : Session) :
    ∃ args, (evaluateDependencies resolve deps s).1 = .ok args := by
  induction deps generalizing s with
  | nil => exact ⟨[], rfl⟩
  | cons d rest ih =>
    obtain ⟨name, key⟩ := d
    obtain ⟨o, ho⟩ := hr (name, key) List.mem_cons_self s
    obtain ⟨args, hargs⟩ := ih (fun d hd => hr d (List.mem_cons_of_mem _ hd)) (resolve key s).2
    rw [evaluateDependencies]
    rcases hanswer : resolve key s with ⟨answer, s'⟩
    rw [hanswer] at ho hargs
    obtain rfl : answer = .ok o := ho
    rcases hanswers : evaluateDependencies resolve rest s' with ⟨answers, s''⟩
    rw [hanswers] at hargs
    obtain rfl : answers = .ok args := hargs
    exact ⟨(name, o) :: args, by simp [hanswers]⟩

/-- One level more than the dependencies need is enough for a callable that succeeds. -/
theorem answers_succ {c : Callable} {limit : Nat} (hsucceeds : sig.succeeds c = true)
    (hdeps : ∀ d ∈ sig.dependencies c, Answers sig d.2.callable limit) :
    Answers sig c (limit + 1) := by
  rintro key rfl s
  rw [getOrRegisterTokenOrType]
  cases s.container.instances key with
  | some o => exact ⟨o, rfl⟩
  | none =>
    obtain ⟨args, hargs⟩ := evaluateDependencies_ok (fun d hd => hdeps d hd d.2 rfl) s
    simp only [instantiate]
    rcases hanswers :
      evaluateDependencies (getOrRegisterTokenOrType sig limit) (sig.dependencies key.callable) s
      with ⟨answers, s'⟩
    rw [hanswers] at hargs
    obtain rfl : answers = .ok args := hargs
    simp only [hsucceeds, if_true]
    exact ⟨_, rfl⟩

/-- Some depth is enough for every callable of an acyclic graph, by induction along it. -/
theorem eventually_answers (graph : AcyclicGraph sig) (hsucceeds : ∀ c, sig.succeeds c = true)
    (c : Callable) :
    ∀ᶠ limit in Filter.atTop, Answers sig c limit := by
  induction graph.accessible c with
  | intro c _ ih =>
    have hdeps : ∀ᶠ limit in Filter.atTop, ∀ d ∈ {d | d ∈ sig.dependencies c},
        Answers sig d.2.callable limit := by
      rw [Filter.eventually_all_finite (List.finite_toSet _)]
      intro d hd
      exact ih d.2.callable ⟨d, hd, rfl⟩
    obtain ⟨enough, henough⟩ := Filter.eventually_atTop.mp hdeps
    rw [Filter.eventually_atTop]
    refine ⟨enough + 1, ?_⟩
    intro limit hlimit
    obtain ⟨limit, rfl⟩ := Nat.exists_eq_add_of_lt hlimit
    exact answers_succ (hsucceeds c) (henough _ (by omega))

/-- One recursion limit is enough for every callable of the graph. -/
theorem eventually_all_answer (graph : AcyclicGraph sig) (hsucceeds : ∀ c, sig.succeeds c = true) :
    ∃ enough, ∀ limit, enough ≤ limit → ∀ c, Answers sig c limit := by
  have hall : ∀ᶠ limit in Filter.atTop, ∀ c ∈ {c | sig.dependencies c ≠ []},
      Answers sig c limit := by
    rw [Filter.eventually_all_finite graph.finite]
    intro c _
    exact eventually_answers graph hsucceeds c
  obtain ⟨enough, henough⟩ := Filter.eventually_atTop.mp hall
  refine ⟨enough + 1, ?_⟩
  intro limit hlimit c
  by_cases hc : sig.dependencies c = []
  · obtain ⟨limit, rfl⟩ := Nat.exists_eq_add_of_lt hlimit
    exact answers_succ (hsucceeds c) (by simp [hc])
  · exact henough limit (by omega) c hc

/-- Where every callable is answered, so is every request. -/
theorem serve_ok {limit : Nat} (h : ∀ c, Answers sig c limit) (requests : List Request)
    (s : Session) :
    ∀ a ∈ (serve sig limit requests s).1, ∃ o, a.2 = .ok o := by
  induction requests generalizing s with
  | nil => simp [serve]
  | cons r rest ih =>
    intro a ha
    obtain rfl | ha := List.mem_cons.mp ha
    · exact h r.key.callable r.key rfl s
    · exact ih _ a ha

end Termination

/-- What a sequence of requests gives: each token or type was constructed at most once;
requests for the same one returned the same object; and every constructed object holds, for
each of its dependencies, the object that the container returns for it from then on. -/
structure Singletons (sig : Signatures) (limit : Nat) (requests : List Request) : Prop where
  once : ((serve sig limit requests {}).2.constructed.map Prod.fst).Nodup
  repeated : ∀ a ∈ (serve sig limit requests {}).1,
    ∀ b ∈ (serve sig limit requests {}).1, a.1 = b.1 →
    ∀ o o', a.2 = .ok o → b.2 = .ok o' → o = o'
  returned : ∀ a ∈ (serve sig limit requests {}).1, ∀ o, a.2 = .ok o →
    (a.1, o) ∈ (serve sig limit requests {}).2.constructed
  held : ∀ e ∈ (serve sig limit requests {}).2.constructed, ∃ id args,
    e.2 = .built id e.1.callable args ∧
    List.Forall₂ (fun d a => a.1 = d.1 ∧ ∀ limit', getOrRegisterTokenOrType sig (limit' + 1) d.2
      (serve sig limit requests {}).2 = (.ok a.2, (serve sig limit requests {}).2))
      (sig.dependencies e.1.callable) args

/-- On-demand instances are singletons, whatever the requests and whether they return or
raise; and where the graph is finite and no constructor raises, all of them return. -/
theorem on_demand_singletons (sig : Signatures)
    (hacyclic : ∀ c, ¬Relation.TransGen (DependsOn sig) c c) :
    (∀ limit requests, Singletons sig limit requests) ∧
      ({c | sig.dependencies c ≠ []}.Finite → (∀ c, sig.succeeds c = true) →
        ∃ enough, ∀ limit, enough ≤ limit →
        ∀ requests, ∀ a ∈ (serve sig limit requests {}).1, ∃ o, a.2 = .ok o) := by
  constructor
  · intro limit requests
    obtain ⟨hsound, -, hanswers⟩ := serve_sound hacyclic limit requests sound_empty
    constructor
    · exact hsound.once
    · intro a ha b hb hkey o o' ho ho'
      have hfirst := hanswers a ha o ho
      rw [hkey, hanswers b hb o' ho'] at hfirst
      exact (Option.some.inj hfirst).symm
    · intro a ha o ho
      exact (hsound.logged a.1 o).mp (hanswers a ha o ho)
    · intro e he
      obtain ⟨id, args, ho, hfit⟩ := hsound.wired e he
      refine ⟨id, args, ho, List.Forall₂.imp ?_ hfit⟩
      rintro d a ⟨hname, hobj⟩
      refine ⟨hname, ?_⟩
      intro limit'
      rw [getOrRegisterTokenOrType, hobj]
  · intro hfinite hsucceeds
    obtain ⟨enough, henough⟩ := eventually_all_answer ⟨hacyclic, hfinite⟩ hsucceeds
    refine ⟨enough, ?_⟩
    intro limit hlimit requests
    exact serve_ok (henough limit hlimit) requests {}

/-- A service that takes a repository and a token for the same one. -/
def repositories : Signatures where
  dependencies
    | 1 => [("repository", .type 0), ("audited", .token 0 "audited")]
    | _ => []
  succeeds _ := true

theorem repositories_acyclic : AcyclicGraph repositories where
  acyclic := by
    have hsmaller : ∀ c c', Relation.TransGen (DependsOn repositories) c c' → c' < c := by
      intro c c' h
      have hstep : ∀ c c', DependsOn repositories c c' → c' < c := by
        rintro c _ ⟨d, hd, rfl⟩
        match c with
        | 0 => cases hd
        | 1 =>
          simp only [repositories, List.mem_cons, List.not_mem_nil, or_false] at hd
          obtain rfl | rfl := hd <;> decide
        | c + 2 => cases hd
      induction h with
      | single h => exact hstep _ _ h
      | tail _ h ih => exact (hstep _ _ h).trans ih
    intro c h
    exact lt_irrefl c (hsmaller c c h)
  finite := by
    apply (Set.finite_singleton 1).subset
    intro c hc
    match c with
    | 0 => exact absurd rfl hc
    | 1 => rfl
    | c + 2 => exact absurd rfl hc

/-- Two repositories on one session. -/
theorem on_demand_singletons_repositories :
    Singletons repositories 5 [.getByType 1, .getByToken 0 "audited", .getByType 0,
      .getOrRegister (.type 1)] ∧
      ((serve repositories 5 [.getByType 1, .getByToken 0 "audited", .getByType 0,
        .getOrRegister (.type 1)] {}).2.constructed.map
        Prod.fst) = [.type 0, .token 0 "audited", .type 1] :=
  ⟨(on_demand_singletons repositories repositories_acyclic.acyclic).1 5 _, by decide⟩

end OnDemandInstances
