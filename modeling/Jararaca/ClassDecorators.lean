import Mathlib.Data.List.Basic
import Mathlib.Data.List.Induction
import Mathlib.Data.List.Nodup
import Mathlib.Logic.Function.Basic
import Jararaca.HttpRoutes

/-!
# Class decorators and inheritance

The stackable decorators of reflect/decorators.py over any class hierarchy. The metadata of a
class sits in its own `__dict__`, where `get_or_set_metadata` looks for it, but `get_metadata`
reads it by attribute lookup, which goes on to the bases. `resolve_class_decorators` walks the
whole method resolution order with that lookup, and the router factory of `RestController`
takes the middlewares and dependencies of a controller class from it.
-/
namespace ClassDecorators

/-- Classes with their `mro()`: the class itself first, no class twice, and with a class all
classes of its own order. -/
structure Hierarchy (κ : Type) where
  mro : κ → List κ
  head : ∀ c, (mro c).head? = some c
  nodup : ∀ c, (mro c).Nodup
  closed : ∀ c, ∀ b ∈ mro c, mro b ⊆ mro c

namespace Hierarchy

variable {κ : Type} (h : Hierarchy κ)

/-- The method resolution order of a class begins with the class itself. -/
theorem mro_eq (c : κ) : ∃ bases, h.mro c = c :: bases :=
  List.head?_eq_some_iff.mp (h.head c)

theorem self_mem (c : κ) : c ∈ h.mro c := by
  obtain ⟨bases, hbases⟩ := h.mro_eq c
  simp [hbases]

end Hierarchy

/-- What `decorator_key()` of a decorator class returns. -/
inductive Key where
  | restController
  | useMiddleware
  | useDependency
  | named (key : String)
  deriving DecidableEq, Repr

/-- A decorator object with what the router factory reads of it; `T` are the middleware types
and the dependencies, `id` tells objects with equal arguments apart. -/
inductive Decorator (T : Type) where
  | restController (id : Nat) (path : String) (middlewares : List T)
      (classInheritsDecorators : Bool)
  | useMiddleware (id : Nat) (middleware : T)
  | useDependency (id : Nat) (dependency : T)
  | other (id : Nat) (key : String)
  deriving DecidableEq, Repr

def Decorator.key {T : Type} : Decorator T → Key
  | .restController .. => .restController
  | .useMiddleware _ _ => .useMiddleware
  | .useDependency _ _ => .useDependency
  | .other _ key => .named key

/-- The decorator class that is asked: `StackableDecorator` itself, which lists them all, or
one with its key. -/
inductive DecoratorType where
  | stackableDecorator
  | keyed (key : Key)
  deriving DecidableEq, Repr

def DecoratorType.covers {T : Type} (D : DecoratorType) (d : Decorator T) : Bool :=
  match D with
  | .stackableDecorator => true
  | .keyed key => decide (d.key = key)

structure Metadata (T : Type) where
  decorators : List (Decorator T)
  decoratorsByType : Key → List (Decorator T)

def Metadata.empty {T : Type} : Metadata T := ⟨[], fun _ => []⟩

/-- The two appends of `register`. -/
def Metadata.append {T : Type} (m : Metadata T) (d : Decorator T) : Metadata T where
  decorators := m.decorators ++ [d]
  decoratorsByType := Function.update m.decoratorsByType d.key (m.decoratorsByType d.key ++ [d])

/-- The metadata in the `__dict__` of each class. -/
abbrev Dicts (κ T : Type) := κ → Option (Metadata T)

variable {κ T : Type} [DecidableEq κ] (h : Hierarchy κ)

/-- `getattr` on a class: the first class of its order that has the attribute. -/
def getMetadata (s : Dicts κ T) (c : κ) : Option (Metadata T) := (h.mro c).findSome? s

def setMetadata (s : Dicts κ T) (c : κ) : Dicts κ T :=
  match s c with
  | none => Function.update s c (some .empty)
  | some _ => s

/-- `register`: the object that `getattr` returns after `setMetadata` is the one of the class
itself, and the appends change it in place. -/
def register (s : Dicts κ T) (c : κ) (d : Decorator T) : Dicts κ T :=
  let s := setMetadata s c
  match getMetadata h s c with
  | none => s
  | some m => Function.update s c (some (m.append d))

/-- A sequence of decorator applications, from classes without any. -/
def decorate (log : List (κ × Decorator T)) : Dicts κ T :=
  log.foldl (fun s e => register h s e.1 e.2) fun _ => none

def get (s : Dicts κ T) (D : DecoratorType) (c : κ) : List (Decorator T) :=
  match getMetadata h s c with
  | none => []
  | some m =>
    match D with
    | .stackableDecorator => m.decorators
    | .keyed key => m.decoratorsByType key

def getLast (s : Dicts κ T) (D : DecoratorType) (c : κ) : Option (Decorator T) :=
  (get h s D c).getLast?

/-- `resolve_class_decorators`, on a class. -/
def resolveClassDecorators (s : Dicts κ T) (c : κ) (D : DecoratorType) (inherit : Bool) :
    List (Decorator T) :=
  if inherit then (h.mro c).reverse.flatMap (get h s D) else get h s D c

section Lookup

/-- The decorators of type `D` applied to the class itself, in order. -/
def applied (log : List (κ × Decorator T)) (D : DecoratorType) (c : κ) : List (Decorator T) :=
  (log.filter fun e => decide (e.1 = c) && D.covers e.2).map Prod.snd

def Decorated (log : List (κ × Decorator T)) (c : κ) : Prop := ∃ e ∈ log, e.1 = c

instance (log : List (κ × Decorator T)) (c : κ) : Decidable (Decorated log c) :=
  inferInstanceAs (Decidable (∃ e ∈ log, e.1 = c))

/-- The class whose metadata the lookup from `c` finds: the first decorated one. -/
def holder (log : List (κ × Decorator T)) (c : κ) : Option κ :=
  (h.mro c).find? fun b => decide (Decorated log b)

/-- What the `__dict__` of a class holds after the applications. -/
def metadataOf (log : List (κ × Decorator T)) : Dicts κ T := fun c =>
  if Decorated log c then some ⟨applied log .stackableDecorator c,
    fun key => applied log (.keyed key) c⟩ else none

theorem applied_append (log : List (κ × Decorator T)) (D : DecoratorType) (b c : κ)
    (d : Decorator T) :
    applied (log ++ [(b, d)]) D c = applied log D c ++ if b = c ∧ D.covers d then [d] else [] := by
  unfold applied
  rw [List.filter_append, List.map_append]
  congr 1
  by_cases hb : b = c
  · cases hd : D.covers d
    · simp [hb, hd]
    · simp [hb, hd]
  · simp [hb]

theorem applied_eq_nil {log : List (κ × Decorator T)} {c : κ} (D : DecoratorType)
    (hc : ¬Decorated log c) :
    applied log D c = [] := by
  unfold applied
  rw [List.map_eq_nil_iff, List.filter_eq_nil_iff]
  intro e he hcovers
  rw [Bool.and_eq_true, decide_eq_true_eq] at hcovers
  exact hc ⟨e, he, hcovers.1⟩

omit [DecidableEq κ] in
theorem decorated_append {log : List (κ × Decorator T)} {b c : κ} {d : Decorator T} :
    Decorated (log ++ [(b, d)]) c ↔ Decorated log c ∨ b = c := by
  simp [Decorated, or_and_right, exists_or]

omit [DecidableEq κ] in
theorem getMetadata_self {s : Dicts κ T} {c : κ} {m : Metadata T} (hm : s c = some m) :
    getMetadata h s c = some m := by
  obtain ⟨bases, hbases⟩ := h.mro_eq c
  unfold getMetadata
  rw [hbases, List.findSome?_cons_of_isSome (by rw [hm]; rfl), hm]

/-- Decorating a class once more is the log with one entry more, whether its dictionary is made on
this write or was there before. -/
theorem register_metadataOf (log : List (κ × Decorator T)) (c : κ) (d : Decorator T) :
    register h (metadataOf log) c d = metadataOf (log ++ [(c, d)]) := by
  have hset : setMetadata (metadataOf log) c = Function.update (metadataOf log) c
      (some ⟨applied log .stackableDecorator c, fun key => applied log (.keyed key) c⟩) := by
    unfold setMetadata
    by_cases hc : Decorated log c
    · have hown : metadataOf log c =
          some ⟨applied log .stackableDecorator c, fun key => applied log (.keyed key) c⟩ :=
            if_pos hc
      rw [hown]
      exact (Function.update_eq_self_iff.mpr hown.symm).symm
    · have hown : metadataOf log c = none := if_neg hc
      rw [hown]
      simp only [Metadata.empty, applied_eq_nil _ hc]
  unfold register
  rw [hset]
  simp only [getMetadata_self h (Function.update_self c _ _), Function.update_idem]
  funext b
  by_cases hb : b = c
  · subst hb
    have hown : Decorated (log ++ [(b, d)]) b := decorated_append.mpr (.inr rfl)
    rw [Function.update_self, metadataOf, if_pos hown]
    simp only [Metadata.append, applied_append, DecoratorType.covers, true_and, if_true,
      decide_eq_true_eq]
    congr 2
    funext key
    by_cases hkey : key = d.key
    · simp [hkey]
    · simp [Function.update_of_ne hkey, Ne.symm hkey]
  · have hsame : Decorated (log ++ [(c, d)]) b ↔ Decorated log b := by
      rw [decorated_append]
      exact or_iff_left (Ne.symm hb)
    rw [Function.update_of_ne hb]
    unfold metadataOf
    simp only [hsame, applied_append, Ne.symm hb, false_and, if_false, List.append_nil]

/-- After any sequence of applications each class holds exactly its own decorators. -/
theorem decorate_eq (log : List (κ × Decorator T)) : decorate h log = metadataOf log := by
  induction log using List.reverseRecOn with
  | nil => rfl
  | append_singleton log e ih =>
    have hstep : decorate h (log ++ [e]) = register h (decorate h log) e.1 e.2 := by
      unfold decorate
      rw [List.foldl_append]
      rfl
    rw [hstep, ih, register_metadataOf]

theorem getMetadata_decorate (log : List (κ × Decorator T)) (c : κ) :
    getMetadata h (decorate h log) c = (holder h log c).map fun b =>
      ⟨applied log .stackableDecorator b, fun key => applied log (.keyed key) b⟩ := by
  rw [decorate_eq]
  unfold getMetadata holder
  induction h.mro c with
  | nil => rfl
  | cons b bases ih =>
    by_cases hb : Decorated log b
    · simp [metadataOf, hb]
    · rw [List.findSome?_cons, metadataOf, if_neg hb, List.find?_cons_of_neg (by simpa using hb)]
      exact ih

/-- `get` shows the decorators of the class that the lookup finds. -/
theorem get_decorate (log : List (κ × Decorator T)) (D : DecoratorType) (c : κ) :
    get h (decorate h log) D c = ((holder h log c).map (applied log D)).getD [] := by
  unfold get
  rw [getMetadata_decorate]
  cases holder h log c with
  | none => rfl
  | some b => cases D <;> rfl

theorem holder_self {log : List (κ × Decorator T)} {c : κ} (hc : Decorated log c) :
    holder h log c = some c := by
  obtain ⟨bases, hbases⟩ := h.mro_eq c
  unfold holder
  rw [hbases, List.find?_cons_of_pos (by simpa using hc)]

theorem holder_mem {log : List (κ × Decorator T)} {b c : κ} (hb : holder h log c = some b) :
    b ∈ h.mro c ∧ Decorated log b := by
  have hdecorated := List.find?_some hb
  exact ⟨List.mem_of_find?_eq_some hb, of_decide_eq_true hdecorated⟩

end Lookup

section Listing

/-- The decorators of a class as inheritance is meant: bases first, each class with its own. -/
def inherited (log : List (κ × Decorator T)) (D : DecoratorType) (c : κ) : List (Decorator T) :=
  (h.mro c).reverse.flatMap (applied log D)

/-- `resolve_class_decorators` lists every application once, with and without inheritance. -/
def ListsApplied (log : List (κ × Decorator T)) (c : κ) (D : DecoratorType) : Prop :=
  resolveClassDecorators h (decorate h log) c D true = inherited h log D c ∧
    resolveClassDecorators h (decorate h log) c D false = applied log D c

/-- No undecorated class of the order of `c` shows a decorator of type `D` of one of its bases. -/
def Unborrowed (log : List (κ × Decorator T)) (c : κ) (D : DecoratorType) : Prop :=
  ∀ x ∈ h.mro c, ∀ b, holder h log x = some b → x ≠ b → applied log D b = []

theorem length_flatMap_le {α β : Type} {f g : α → List β} {l : List α}
    (hle : ∀ x ∈ l, (g x).length ≤ (f x).length) : (l.flatMap g).length ≤ (l.flatMap f).length := by
  induction l with
  | nil => simp
  | cons a l ih =>
    have ha := hle a List.mem_cons_self
    have hl := ih fun x hx => hle x (List.mem_cons_of_mem a hx)
    rw [List.flatMap_cons, List.flatMap_cons, List.length_append, List.length_append]
    omega

/-- Where the terms of the second family are those of the first or empty, equal concatenations
have equal terms. -/
theorem flatMap_eq_iff {α β : Type} {f g : α → List β} :
    ∀ {l : List α}, (∀ x ∈ l, g x = f x ∨ g x = []) →
      (l.flatMap f = l.flatMap g ↔ ∀ x ∈ l, f x = g x)
  | [], _ => by simp
  | a :: l, hg => by
    have ih := flatMap_eq_iff fun x hx => hg x (List.mem_cons_of_mem a hx)
    rw [List.flatMap_cons, List.flatMap_cons, List.forall_mem_cons, ← ih]
    obtain ha | ha := hg a List.mem_cons_self
    · rw [ha, List.append_cancel_left_eq]
      simp
    · constructor
      · intro heq
        have hshort : (l.flatMap g).length ≤ (l.flatMap f).length := by
          apply length_flatMap_le
          intro x hx
          obtain hx | hx := hg x (List.mem_cons_of_mem a hx)
          · exact hx ▸ Nat.le_refl _
          · exact hx ▸ Nat.zero_le _
        have hlen := congrArg List.length heq
        rw [ha, List.nil_append, List.length_append] at hlen
        have hf : f a = [] := List.length_eq_zero_iff.mp (by omega)
        rw [ha, hf] at heq
        exact ⟨hf.trans ha.symm, heq⟩
      · rintro ⟨hf, hl⟩
        rw [hf, hl]

/-- Reading through the class gives what was applied to it, unless the dictionary it reads is
another class's and holds decorators of this type. -/
theorem get_eq_applied_iff (log : List (κ × Decorator T)) (D : DecoratorType) (x : κ) :
    get h (decorate h log) D x = applied log D x ↔
      ∀ b, holder h log x = some b → x ≠ b → applied log D b = [] := by
  rw [get_decorate]
  by_cases hx : Decorated log x
  · rw [holder_self h hx]
    constructor
    · intro _ b hb hne
      cases hb
      exact absurd rfl hne
    · intro _
      rfl
  · rw [applied_eq_nil D hx]
    cases hb : holder h log x with
    | none => simp
    | some b =>
      have hne : x ≠ b := by
        rintro rfl
        exact hx (holder_mem h hb).2
      constructor
      · intro hnil b' hb' _
        cases hb'
        exact hnil
      · intro hall
        exact hall b rfl hne

/-- `resolve_class_decorators` lists every application once, exactly when no undecorated class of
the order shows what a base has. -/
theorem listsApplied_iff (log : List (κ × Decorator T)) (c : κ) (D : DecoratorType) :
    ListsApplied h log c D ↔ Unborrowed h log c D := by
  have hterms : ∀ x ∈ (h.mro c).reverse,
      applied log D x = get h (decorate h log) D x ∨ applied log D x = [] := by
    intro x _
    by_cases hx : Decorated log x
    · left
      rw [get_decorate, holder_self h hx]
      rfl
    · exact .inr (applied_eq_nil D hx)
  have hinherit : resolveClassDecorators h (decorate h log) c D true = inherited h log D c ↔
      Unborrowed h log c D := by
    rw [resolveClassDecorators, if_pos rfl, inherited, flatMap_eq_iff hterms]
    simp only [List.mem_reverse, get_eq_applied_iff, Unborrowed]
  constructor
  · intro hlists
    exact hinherit.mp hlists.1
  · intro hun
    refine ⟨hinherit.mpr hun, ?_⟩
    rw [resolveClassDecorators, if_neg Bool.false_ne_true, get_eq_applied_iff]
    exact hun c (h.self_mem c)

end Listing

section Routes

variable [DecidableEq T]

/-- The class that the router factory of a `RestController` object closes over:
`post_decorated` sets it anew at every application. -/
def subject (log : List (κ × Decorator T)) (r : Decorator T) : Option κ :=
  (log.filter fun e => decide (e.2 = r)).getLast?.map Prod.fst

/-- The middlewares of a controller: those of the `RestController` itself, and those that a
`UseMiddleware` names. -/
inductive Middleware (T : Type) where
  | listed (middleware : T)
  | used (decorator : Decorator T)
  deriving DecidableEq

/-- The controller that `HttpAppLifecycle` builds a router for; none where the class shows no
`RestController`. -/
def routerController (members : κ → List (HttpRoutes.Member (Middleware T) (Decorator T)))
    (log : List (κ × Decorator T)) (c : κ) :
    Option (HttpRoutes.RestController (Middleware T) (Decorator T)) :=
  let s := decorate h log
  match getLast h s (.keyed .restController) c with
  | some (.restController id path middlewares inherits) =>
    (subject log (.restController id path middlewares inherits)).map fun owner =>
      { path := path
        middlewares := middlewares.map .listed
        classMiddlewares :=
          (resolveClassDecorators h s owner (.keyed .useMiddleware) inherits).map .used
        classDependencies := resolveClassDecorators h s owner (.keyed .useDependency) inherits
        members := members owner }
  | _ => none

/-- How often the router of a controller depends on a decorator's middleware or dependency. -/
def runs (controller : HttpRoutes.RestController (Middleware T) (Decorator T))
    (d : Decorator T) : Nat :=
  (HttpRoutes.routerDependencies controller).count
    (if d.key = .useMiddleware then .intercept (.used d) else .callable d)

/-- A middleware or dependency that is applied once, to the class `b`. -/
def AppliedOnce (log : List (κ × Decorator T)) (d : Decorator T) (b : κ) : Prop :=
  (d.key = .useMiddleware ∨ d.key = .useDependency) ∧
    log.filter (fun e => decide (e.2 = d)) = [(b, d)]

/-- The class that builds the routes of `c`: the one that the `RestController` found from `c`
was applied to, where that one inherits class decorators. -/
def servedBy (log : List (κ × Decorator T)) (c : κ) : Option κ :=
  match (holder h log c).bind fun b => (applied log (.keyed .restController) b).getLast? with
  | some (.restController id path middlewares true) =>
    subject log (.restController id path middlewares true)
  | _ => none

variable (members : κ → List (HttpRoutes.Member (Middleware T) (Decorator T)))

/-- What is applied once to a base of `c` is once in the router of the routes of `c`, where
the `RestController` inherits class decorators. -/
def RunsOnce (log : List (κ × Decorator T)) (c : κ) : Prop :=
  ∀ id path middlewares,
    getLast h (decorate h log)
      (.keyed .restController) c = some (.restController id path middlewares true) →
      ∀ controller, routerController h members log c = some controller →
        ∀ d b, AppliedOnce log d b → b ∈ h.mro c → b ≠ c → runs controller d = 1

/-- The class that builds the routes of `c` has the decorated base in its own order, and there
no undecorated class shows that base's metadata. -/
def Served (log : List (κ × Decorator T)) (c : κ) : Prop :=
  ∀ owner, servedBy h log c = some owner → ∀ d b, AppliedOnce log d b → b ∈ h.mro c → b ≠ c →
    b ∈ h.mro owner ∧ ∀ x ∈ h.mro owner, holder h log x = some b → x = b

omit [DecidableEq T] in
theorem getLast_decorate (log : List (κ × Decorator T)) (D : DecoratorType) (c : κ) :
    getLast h (decorate h log) D c = (holder h log c).bind fun b => (applied log D b).getLast? := by
  unfold getLast
  rw [get_decorate]
  cases holder h log c <;> rfl

/-- The controller that an inheriting `RestController` of the class `owner` makes. -/
def inheriting (log : List (κ × Decorator T)) (owner : κ) (path : String) (middlewares : List T) :
    HttpRoutes.RestController (Middleware T) (Decorator T) where
  path := path
  middlewares := middlewares.map .listed
  classMiddlewares :=
    (resolveClassDecorators h (decorate h log) owner (.keyed .useMiddleware) true).map .used
  classDependencies := resolveClassDecorators h (decorate h log) owner (.keyed .useDependency) true
  members := members owner

theorem servedBy_eq {log : List (κ × Decorator T)} {c : κ} {id : Nat} {path : String}
    {middlewares : List T}
    (hlast : getLast h (decorate h log) (.keyed .restController) c =
      some (.restController id path middlewares true)) :
    servedBy h log c = subject log (.restController id path middlewares true) ∧
      routerController h members log c =
        (servedBy h log c).map fun owner => inheriting h members log owner path middlewares := by
  have hserved : servedBy h log c = subject log (.restController id path middlewares true) := by
    unfold servedBy
    rw [← getLast_decorate, hlast]
  refine ⟨hserved, ?_⟩
  simp only [routerController, hlast, hserved]
  rfl

theorem getLast_of_servedBy {log : List (κ × Decorator T)} {c owner : κ}
    (howner : servedBy h log c = some owner) :
    ∃ id path middlewares, getLast h (decorate h log) (.keyed .restController) c =
      some (.restController id path middlewares true) := by
  unfold servedBy at howner
  rw [← getLast_decorate] at howner
  split at howner
  · next id path middlewares hlast => exact ⟨id, path, middlewares, hlast⟩
  · cases howner

omit [DecidableEq κ] in
theorem appliedOnce_decorated {log : List (κ × Decorator T)} {d : Decorator T} {b : κ}
    (hd : AppliedOnce log d b) :
    Decorated log b := by
  have hmem : (b, d) ∈ log.filter fun e =>
      decide (e.2 = d) := by rw [hd.2]; exact List.mem_singleton_self _
  exact ⟨(b, d), (List.mem_filter.mp hmem).1, rfl⟩

/-- What is applied once is in the metadata of its class once, and in no other's. -/
theorem count_applied {log : List (κ × Decorator T)} {d : Decorator T} {b : κ}
    (hd : AppliedOnce log d b) (y : κ) :
    (applied log (.keyed d.key) y).count d = if y = b then 1 else 0 := by
  unfold applied
  rw [List.count, List.countP_map, List.countP_filter]
  have hsame : log.countP (fun e => decide (e.1 = y ∧ e.2 = d)) =
      (log.filter fun e => decide (e.2 = d)).countP fun e => decide (e.1 = y) := by
    rw [List.countP_filter]
    congr 1
    funext e
    simp
  have hpred : (fun e : κ × Decorator T => ((fun x => x == d) ∘ Prod.snd) e &&
      (decide (e.1 = y) && (DecoratorType.keyed d.key).covers e.2)) =
        fun e => decide (e.1 = y ∧ e.2 = d) := by
    funext e
    by_cases he : e.2 = d
    · simp [he, DecoratorType.covers]
    · simp [he]
  rw [hpred, hsame, hd.2]
  by_cases hy : y = b
  · simp [hy]
  · simp [hy, Ne.symm hy]

/-- How often a decorator that is applied once is listed: by every class that shows its metadata. -/
theorem count_resolve {log : List (κ × Decorator T)} {d : Decorator T} {b : κ}
    (hd : AppliedOnce log d b) (owner : κ) :
    (resolveClassDecorators h (decorate h log) owner (.keyed d.key) true).count d =
      (h.mro owner).countP fun x => decide (holder h log x = some b) := by
  have hget : ∀ x, (get h (decorate h log) (.keyed d.key) x).count d =
      if holder h log x = some b then 1 else 0 := by
    intro x
    rw [get_decorate]
    cases holder h log x with
    | none => simp
    | some y =>
      rw [Option.map_some, Option.getD_some, count_applied hd]
      simp only [Option.some.injEq]
  rw [resolveClassDecorators, if_pos rfl, List.count_flatMap]
  have hfun : List.count d ∘ get h (decorate h log) (.keyed d.key) =
      fun x => if holder h log x = some b then 1 else 0 := funext hget
  rw [hfun, ← List.countP_reverse]
  induction (h.mro owner).reverse with
  | nil => rfl
  | cons x l ih =>
    rw [List.map_cons, List.sum_cons, List.countP_cons, ih, Nat.add_comm]
    simp only [decide_eq_true_eq]

omit [DecidableEq κ] in
/-- In a list without repetition one entry is counted exactly when it is there and it is the only
one. -/
theorem countP_eq_one_iff {p : κ → Bool} {l : List κ} (hl : l.Nodup) {b : κ} (hb : b ∈ l → p b)
    (hmem : ∀ x ∈ l, p x → b ∈ l) : l.countP p = 1 ↔ b ∈ l ∧ ∀ x ∈ l, p x → x = b := by
  rw [List.countP_eq_length_filter, List.length_eq_one_iff]
  constructor
  · rintro ⟨a, ha⟩
    have ha' : a ∈ l ∧ p a := by
      rw [← List.mem_filter, ha]
      exact List.mem_singleton_self a
    have hbl : b ∈ l := hmem a ha'.1 ha'.2
    have hone : ∀ x ∈ l, p x → x = a := by
      intro x hx hpx
      rw [← List.mem_singleton, ← ha]
      exact List.mem_filter.mpr ⟨hx, hpx⟩
    refine ⟨hbl, ?_⟩
    intro x hx hpx
    rw [hone x hx hpx, hone b hbl (hb hbl)]
  · rintro ⟨hbl, hone⟩
    refine ⟨b, List.perm_singleton.mp ?_⟩
    rw [List.perm_ext_iff_of_nodup (hl.filter _) (List.nodup_singleton b)]
    intro x
    rw [List.mem_filter, List.mem_singleton]
    constructor
    · intro hx
      exact hone x hx.1 hx.2
    · rintro rfl
      exact ⟨hbl, hb hbl⟩

/-- The router depends on a middleware or dependency as often as it is listed. -/
theorem runs_inheriting (log : List (κ × Decorator T)) (owner : κ) (path : String)
    (middlewares : List T)
    (d : Decorator T) (hd : d.key = .useMiddleware ∨ d.key = .useDependency) :
    runs (inheriting h members log owner path middlewares) d =
      (resolveClassDecorators h (decorate h log) owner (.keyed d.key) true).count d := by
  have hintercept : ∀ ds : List (Decorator T),
      ((ds.map Middleware.used).map fun m =>
        (.intercept m : HttpRoutes.Dependency (Middleware T) (Decorator T))).count
        (.intercept (.used d)) = ds.count d := by
    intro ds
    rw [HttpRoutes.count_intercept]
    exact List.count_map_of_injective ds _ (fun _ _ heq => Middleware.used.inj heq) d
  have hlisted : ∀ ts : List T,
      ((ts.map Middleware.listed).map fun m =>
        (.intercept m : HttpRoutes.Dependency (Middleware T) (Decorator T))).count
        (.intercept (.used d)) = 0 := by
    intro ts
    rw [HttpRoutes.count_intercept, List.count_eq_zero]
    simp
  unfold runs HttpRoutes.routerDependencies inheriting
  obtain hd | hd := hd
  · simp only [hd, if_true, List.count_append, hintercept, hlisted, HttpRoutes.count_callable]
    omega
  · have hcallable : ∀ ds : List (Decorator T),
        (ds.map fun d => (.callable d : HttpRoutes.Dependency (Middleware T) (Decorator T))).count
          (.callable d) = ds.count d := fun ds =>
      List.count_map_of_injective ds _ (fun _ _ heq => HttpRoutes.Dependency.callable.inj heq) d
    have hother : ∀ ms : List (Middleware T),
        (ms.map fun m => (.intercept m : HttpRoutes.Dependency (Middleware T) (Decorator T))).count
          (.callable d) = 0 := by
      intro ms
      rw [List.count_eq_zero]
      simp
    simp only [hd, reduceCtorEq, if_false, List.count_append, hcallable, hother]
    omega

theorem listed_once_iff {log : List (κ × Decorator T)} {d : Decorator T} {b : κ}
    (hd : AppliedOnce log d b)
    (owner : κ) : (resolveClassDecorators h (decorate h log) owner (.keyed d.key) true).count d =
      1 ↔
      b ∈ h.mro owner ∧ ∀ x ∈ h.mro owner, holder h log x = some b → x = b := by
  rw [count_resolve h hd, countP_eq_one_iff (h.nodup owner) (b := b)]
  · simp only [decide_eq_true_eq]
  · intro _
    rw [holder_self h (appliedOnce_decorated hd)]
    simp
  · intro x hx hp
    exact h.closed owner x hx (holder_mem h (of_decide_eq_true hp)).1

/-- What is applied to a base runs once, exactly when the class that builds the routes has the
base in its order and shows its metadata once. -/
theorem runsOnce_iff (log : List (κ × Decorator T)) (c : κ) :
    RunsOnce h members log c ↔ Served h log c := by
  constructor
  · intro hruns owner howner d b hd hb hne
    obtain ⟨id, path, middlewares, hlast⟩ := getLast_of_servedBy h howner
    obtain ⟨-, hrouter⟩ := servedBy_eq h members hlast
    rw [howner, Option.map_some] at hrouter
    have hone := hruns id path middlewares hlast _ hrouter d b hd hb hne
    rw [runs_inheriting h members log owner path middlewares d hd.1] at hone
    exact (listed_once_iff h hd owner).mp hone
  · intro hserved id path middlewares hlast controller hcontroller d b hd hb hne
    obtain ⟨-, hrouter⟩ := servedBy_eq h members hlast
    rw [hcontroller] at hrouter
    obtain ⟨owner, howner, rfl⟩ := Option.map_eq_some_iff.mp hrouter.symm
    rw [runs_inheriting h members log owner path middlewares d hd.1]
    exact (listed_once_iff h hd owner).mpr (hserved owner howner d b hd hb hne)

/-- Exactly when every decorator of type `D` is listed as it was applied and what is applied
once to a base runs once for the routes of `c`. -/
theorem class_decorators_iff (log : List (κ × Decorator T)) (c : κ) (D : DecoratorType) :
    ListsApplied h log c D ∧ RunsOnce h members log c ↔ Unborrowed h log c D ∧ Served h log c :=
  and_congr (listsApplied_iff h log c D) (runsOnce_iff h members log c)

end Routes

/-- A controller, its base and the base of that. -/
inductive Chain where
  | base
  | middle
  | sub
  deriving DecidableEq

def Chain.hierarchy : Hierarchy Chain where
  mro
    | .base => [.base]
    | .middle => [.middle, .base]
    | .sub => [.sub, .middle, .base]
  head c := by cases c <;> rfl
  nodup c := by cases c <;> decide
  closed c := by cases c <;> decide

/-- A middleware on the base, a `RestController` on the class below the undecorated middle one. -/
def Chain.log : List (Chain × Decorator String) :=
  [(.base, .useMiddleware 0 "AuthMiddleware"), (.sub, .restController 1 "/items" [] true)]

/-- The middle class shows the middleware of its base, so the middleware is listed twice for
the controller and twice in its router, and once as the middle class's own. -/
theorem undecorated_base_lists_twice :
    ¬ListsApplied Chain.hierarchy Chain.log .sub (.keyed .useMiddleware) ∧
      ¬RunsOnce Chain.hierarchy (fun _ => []) Chain.log .sub ∧
        resolveClassDecorators Chain.hierarchy (decorate Chain.hierarchy Chain.log) .sub
          (.keyed .useMiddleware) true =
          [.useMiddleware 0 "AuthMiddleware", .useMiddleware 0 "AuthMiddleware"] ∧
        resolveClassDecorators Chain.hierarchy (decorate Chain.hierarchy Chain.log) .middle
          (.keyed .useMiddleware) false = [.useMiddleware 0 "AuthMiddleware"] := by
  refine ⟨?_, ?_, by decide, by decide⟩
  · intro hlists
    exact absurd hlists.1 (by decide)
  · intro hruns
    have hone := hruns 1 "/items" [] (by decide) _ rfl (.useMiddleware 0 "AuthMiddleware") .base
      ⟨.inl rfl, by decide⟩ (by decide) (by decide)
    exact absurd hone (by decide)

end ClassDecorators
