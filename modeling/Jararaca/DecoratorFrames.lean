import Jararaca.ClassDecorators

/-!
# Decorators of different kinds

What the application of one decorator to a class leaves of the decorators of every other kind,
for every class of the hierarchy. All kinds share one metadata attribute: the first decorator of
a class gives it metadata of its own, and from then on the lookup of reflect/decorators.py stops
there. `inspect_controller` of reflect/controller_inspect.py reads the `SetMetadata` values of
a controller class and of its member functions with that lookup.
-/
namespace DecoratorFrames

open ClassDecorators

variable {κ T : Type} [DecidableEq κ] (h : Hierarchy κ)

section Lookup

/-- The lookup from `x` comes to `c` before any class that has metadata. -/
def Opens (log : List (κ × Decorator T)) (c x : κ) : Prop :=
  c ∈ h.mro x ∧ ∀ b ∈ (h.mro x).takeWhile fun b => decide (b ≠ c), ¬Decorated log b

instance (log : List (κ × Decorator T)) (c x : κ) : Decidable (Opens h log c x) :=
  inferInstanceAs (Decidable (_ ∧ _))

/-- Metadata for `c` hides no decorator that is registered under `key`: `c` has metadata
already, or wherever the lookup comes to `c` first, the decorated class behind it has none. -/
def Unhidden (log : List (κ × Decorator T)) (key : Key) (c : κ) : Prop :=
  Decorated log c ∨
    ∀ x b, Opens h log c x → holder h log x = some b → applied log (.keyed key) b = []

theorem takeWhile_cons_ne {a c : κ} (hac : a ≠ c) (order : List κ) :
    (a :: order).takeWhile (fun b => decide (b ≠ c)) = a :: order.takeWhile fun b =>
      decide (b ≠ c) := by
  simp [hac]

/-- The first decorated class of an order, after one decoration more. -/
theorem find_decorated (log : List (κ × Decorator T)) (c : κ) (d : Decorator T) (order : List κ) :
    order.find? (fun b => decide (Decorated (log ++ [(c, d)]) b)) =
      if c ∈ order ∧ ∀ b ∈ order.takeWhile fun b => decide (b ≠ c), ¬Decorated log b then some c
      else order.find? fun b => decide (Decorated log b) := by
  induction order with
  | nil => simp
  | cons a order ih =>
    by_cases hac : a = c
    · subst hac
      rw [List.find?_cons_of_pos (by simp [decorated_append]), if_pos]
      simp
    · have hsame : Decorated (log ++ [(c, d)]) a ↔ Decorated log a := by
        rw [decorated_append]
        exact or_iff_left (Ne.symm hac)
      rw [takeWhile_cons_ne hac]
      by_cases ha : Decorated log a
      · rw [List.find?_cons_of_pos (by simpa [hsame] using ha),
          List.find?_cons_of_pos (by simpa using ha), if_neg]
        rintro ⟨-, hbefore⟩
        exact hbefore a List.mem_cons_self ha
      · rw [List.find?_cons_of_neg (by simpa [hsame] using ha), ih,
          List.find?_cons_of_neg (by simpa using ha)]
        simp only [List.mem_cons, Ne.symm hac, false_or, forall_eq_or_imp, ha,
          not_false_eq_true, true_and]

/-- The new metadata is found from exactly the classes that open on it. -/
theorem holder_append (log : List (κ × Decorator T)) (c : κ) (d : Decorator T) (x : κ) :
    holder h (log ++ [(c, d)]) x = if Opens h log c x then some c else holder h log x :=
  find_decorated log c d (h.mro x)

/-- A lookup that comes to a decorated class first finds its metadata. -/
theorem holder_of_opens {log : List (κ × Decorator T)} {c x : κ} (hc : Decorated log c)
    (hx : Opens h log c x) :
    holder h log x = some c := by
  obtain ⟨hmem, hbefore⟩ := hx
  unfold holder
  generalize h.mro x = order at hmem hbefore
  induction order with
  | nil => cases hmem
  | cons a order ih =>
    by_cases hac : a = c
    · subst hac
      exact List.find?_cons_of_pos (by simpa using hc)
    · rw [takeWhile_cons_ne hac] at hbefore
      rw [List.find?_cons_of_neg (by simpa using hbefore a List.mem_cons_self)]
      apply ih
      · exact (List.mem_cons.mp hmem).resolve_left (Ne.symm hac)
      · intro b hb
        exact hbefore b (List.mem_cons_of_mem a hb)

theorem applied_other {log : List (κ × Decorator T)} {c : κ} {d : Decorator T} {key : Key}
    (hkey : d.key ≠ key)
    (b : κ) : applied (log ++ [(c, d)]) (.keyed key) b = applied log (.keyed key) b := by
  rw [applied_append]
  simp [DecoratorType.covers, hkey]

theorem decorate_append (log : List (κ × Decorator T)) (c : κ) (d : Decorator T) :
    register h (decorate h log) c d = decorate h (log ++ [(c, d)]) := by
  unfold decorate
  rw [List.foldl_append]
  rfl

/-- What another kind shows after the application: from a class that opens on `c` what was
applied to `c` itself, from every other class what it showed before. -/
theorem get_register {log : List (κ × Decorator T)} {c : κ} {d : Decorator T} {key : Key}
    (hkey : d.key ≠ key)
    (x : κ) : get h (register h (decorate h log) c d) (.keyed key) x =
      if Opens h log c x then applied log (.keyed key) c
      else get h (decorate h log) (.keyed key) x := by
  rw [decorate_append, get_decorate, get_decorate, holder_append]
  split
  · exact applied_other hkey c
  · cases holder h log x with
    | none => rfl
    | some b => exact applied_other hkey b

/-- One class keeps what it shows of another kind, or it shows none of it any more. -/
theorem get_register_cases {log : List (κ × Decorator T)} {c : κ} {d : Decorator T} {key : Key}
    (hkey : d.key ≠ key) (x : κ) :
    get h (register h (decorate h log) c d) (.keyed key) x = get h (decorate h log) (.keyed key) x ∨
      get h (register h (decorate h log) c d) (.keyed key) x = [] := by
  rw [get_register h hkey]
  split
  · next hx =>
    by_cases hc : Decorated log c
    · left
      rw [get_decorate, holder_of_opens h hc hx]
      rfl
    · exact .inr (applied_eq_nil _ hc)
  · exact .inl rfl

/-- Registering under another key changes no reading, exactly when the new metadata hides nothing.
-/
theorem get_kept_iff {log : List (κ × Decorator T)} {c : κ} {d : Decorator T} {key : Key}
    (hkey : d.key ≠ key) :
    (∀ x, get h (register h (decorate h log) c d) (.keyed key) x =
      get h (decorate h log) (.keyed key) x) ↔
      Unhidden h log key c := by
  by_cases hc : Decorated log c
  · have hkept : ∀ x, get h (register h (decorate h log) c d) (.keyed key) x =
        get h (decorate h log) (.keyed key) x := by
      intro x
      rw [get_register h hkey]
      split
      · next hx =>
        rw [get_decorate, holder_of_opens h hc hx]
        rfl
      · rfl
    exact iff_of_true hkept (.inl hc)
  · have hown : applied log (.keyed key) c = [] := applied_eq_nil _ hc
    constructor
    · intro hkept
      right
      intro x b hx hb
      have hone := hkept x
      rw [get_register h hkey, if_pos hx, hown, get_decorate, hb] at hone
      exact hone.symm
    · intro hun x
      rw [get_register h hkey]
      split
      · next hx =>
        rw [hown, get_decorate]
        cases hb : holder h log x with
        | none => rfl
        | some b => exact (hun.resolve_left hc x b hx hb).symm
      · rfl

end Lookup

section Inspection

variable {F V : Type}

structure TransactionMetadata (V : Type) where
  value : V
  inheritedFromController : Bool
  deriving DecidableEq

/-- A `Mapping[str, TransactionMetadata]`. -/
abbrev MetadataMap (V : Type) := String → Option (TransactionMetadata V)

structure ControllerReflect (κ V : Type) where
  controllerClass : κ
  metadata : MetadataMap V

structure ControllerMemberReflect (κ F V : Type) where
  controllerReflect : ControllerReflect κ V
  memberFunction : F
  metadata : MetadataMap V

/-- The `decorator_key()` of `SetMetadata`. -/
def setMetadataKey : Key := .named "SetMetadata"

/-- The dict comprehension over `SetMetadata` objects: a later entry of a key replaces an
earlier one. `attributes` are `key` and `value` of such an object. -/
def metadataMap (attributes : Decorator T → String × V) (decorators : List (Decorator T)) :
    MetadataMap V :=
  decorators.foldl (fun m d => Function.update m (attributes d).1 (some ⟨(attributes d).2, false⟩))
    fun _ => none

/-- `{**controller, **member}`, where the controller's entries are marked as inherited. -/
def memberMap (controller member : MetadataMap V) : MetadataMap V := fun key =>
  match member key with
  | some metadata => some metadata
  | none => (controller key).map fun metadata => ⟨metadata.value, true⟩

/-- `inspect_controller`. `members` is `getmembers_static` with `isfunction`; a function has no
class it inherits an attribute from, so `SetMetadata.get` of it reads its own metadata. -/
def inspectController (attributes : Decorator T → String × V) (members : κ → List (String × F))
    (functions : F → Option (Metadata T)) (s : Dicts κ T) (controller : κ) :
    ControllerReflect κ V × List (String × ControllerMemberReflect κ F V) :=
  let controllerMetadata := metadataMap attributes (get h s (.keyed setMetadataKey) controller)
  let reflect := ⟨controller, controllerMetadata⟩
  (reflect, (members controller).map fun member =>
    let own := ((functions member.2).map fun m => m.decoratorsByType setMetadataKey).getD []
    (member.1, ⟨reflect, member.2, memberMap controllerMetadata (metadataMap attributes own)⟩))

variable (attributes : Decorator T → String × V) (members : κ → List (String × F))
  (functions : F → Option (Metadata T))

/-- Every decorator of the list is reported under its key, by itself or by a later one. -/
theorem metadataMap_isSome {d : Decorator T} {decorators : List (Decorator T)}
    (hd : d ∈ decorators) :
    (metadataMap attributes decorators (attributes d).1).isSome := by
  unfold metadataMap
  induction decorators using List.reverseRecOn with
  | nil => cases hd
  | append_singleton decorators e ih =>
    rw [List.foldl_append, List.foldl_cons, List.foldl_nil]
    by_cases hkey : (attributes d).1 = (attributes e).1
    · rw [hkey, Function.update_self]
      rfl
    · rw [Function.update_of_ne hkey]
      apply ih
      obtain hd | hd := List.mem_append.mp hd
      · exact hd
      · rw [List.mem_singleton.mp hd] at hkey
        exact absurd rfl hkey

theorem metadataMap_eq_none_iff (decorators : List (Decorator T)) :
    metadataMap attributes decorators = (fun _ => none) ↔ decorators = [] := by
  constructor
  · intro hnone
    rw [List.eq_nil_iff_forall_not_mem]
    intro d hd
    have hsome := metadataMap_isSome attributes hd
    rw [hnone] at hsome
    cases hsome
  · rintro rfl
    rfl

/-- The report on a class changes exactly when the `SetMetadata` decorators that it shows do. -/
theorem inspectController_register_iff {log : List (κ × Decorator T)} {c : κ} {d : Decorator T}
    (hkey : d.key ≠ setMetadataKey) (x : κ) :
    inspectController h attributes members functions (register h (decorate h log) c d) x =
        inspectController h attributes members functions (decorate h log) x ↔
      get h (register h (decorate h log) c d) (.keyed setMetadataKey) x =
        get h (decorate h log) (.keyed setMetadataKey) x := by
  constructor
  · intro heq
    have hmap : metadataMap attributes
        (get h (register h (decorate h log) c d) (.keyed setMetadataKey) x) =
        metadataMap attributes (get h (decorate h log) (.keyed setMetadataKey) x) :=
      congrArg (fun report => report.1.metadata) heq
    have hcases : get h (register h (decorate h log) c d) (.keyed setMetadataKey) x =
        get h (decorate h log) (.keyed setMetadataKey) x ∨
          get h (register h (decorate h log) c d) (.keyed setMetadataKey) x = [] :=
            get_register_cases h hkey x
    obtain hsame | hnil := hcases
    · exact hsame
    · rw [hnil] at hmap
      rw [hnil, (metadataMap_eq_none_iff attributes _).mp hmap.symm]
  · intro heq
    unfold inspectController
    rw [heq]

/-- Another kind keeps its decorators on every class, and every class its report, exactly when
the new metadata hides none. -/
theorem decorators_framed_iff (log : List (κ × Decorator T)) (c : κ) (d : Decorator T) (key : Key)
    (hkey : d.key ≠ key) :
    (∀ x, get h (register h (decorate h log) c d) (.keyed key) x =
      get h (decorate h log) (.keyed key) x) ∧
        (key = setMetadataKey → ∀ x,
          inspectController h attributes members functions (register h (decorate h log) c d) x =
            inspectController h attributes members functions (decorate h log) x) ↔
      Unhidden h log key c := by
  rw [← get_kept_iff h hkey]
  constructor
  · intro hframed
    exact hframed.1
  · intro hkept
    refine ⟨hkept, ?_⟩
    rintro rfl x
    exact (inspectController_register_iff h attributes members functions hkey x).mpr (hkept x)

end Inspection

/-- Metadata on the base and on the class below it. -/
def Annotated.log : List (Chain × Decorator String) :=
  [(.base, .other 0 "SetMetadata"), (.middle, .useMiddleware 1 "AuthMiddleware")]

/-- A class that has metadata may take a controller decorator: the base keeps its values. -/
theorem decorators_framed_iff_middle :
    (∀ x, get Chain.hierarchy
      (register Chain.hierarchy (decorate Chain.hierarchy Annotated.log) .middle
        (.restController 2 "/items" [] true)) (.keyed setMetadataKey) x =
      get Chain.hierarchy (decorate Chain.hierarchy Annotated.log) (.keyed setMetadataKey) x) ∧
      get Chain.hierarchy (decorate Chain.hierarchy Annotated.log) (.keyed setMetadataKey) .base =
        [.other 0 "SetMetadata"] := by
  have hframed :=
    (decorators_framed_iff Chain.hierarchy (fun _ => ("role", "admin"))
    (fun _ => ([] : List (String × Unit)))
    (fun _ => none) Annotated.log .middle (.restController 2 "/items" [] true) setMetadataKey
      (by decide)).mpr
      (.inl ⟨(.middle, .useMiddleware 1 "AuthMiddleware"), by decide, rfl⟩)
  exact ⟨hframed.1, by decide⟩

/-- `@SetMetadata("role", "admin")` on the base alone. -/
def Annotated.base : List (Chain × Decorator String) := [(.base, .other 0 "SetMetadata")]

/-- The controller decorator of the class below the base hides the base's metadata: before it
the report on that class has the role, after it the report is empty. -/
theorem controller_decorator_hides_metadata :
    (inspectController Chain.hierarchy (fun _ => ("role", "admin"))
      (fun _ => ([] : List (String × Unit)))
        (fun _ => none) (decorate Chain.hierarchy Annotated.base) .middle).1.metadata "role" =
      some ⟨"admin", false⟩ ∧
    (inspectController Chain.hierarchy (fun _ => ("role", "admin"))
      (fun _ => ([] : List (String × Unit)))
        (fun _ => none) (register Chain.hierarchy (decorate Chain.hierarchy Annotated.base) .middle
          (.restController 1 "/items" [] true)) .middle).1.metadata "role" = none ∧
    get Chain.hierarchy (decorate Chain.hierarchy Annotated.base) (.keyed setMetadataKey) .sub =
      [.other 0 "SetMetadata"] ∧
    get Chain.hierarchy (register Chain.hierarchy (decorate Chain.hierarchy Annotated.base) .middle
      (.restController 1 "/items" [] true)) (.keyed setMetadataKey) .sub = [] := by
  exact ⟨by decide, by decide, by decide, by decide⟩

end DecoratorFrames
