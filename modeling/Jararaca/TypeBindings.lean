import Mathlib.Data.Fintype.Basic
import Mathlib.Data.List.Nodup
import Jararaca.GenericModels
import Jararaca.Unfoldings

/-!
# The type variables of a controller

`get_generic_type_mapping` reads the bindings at the bases of a controller class, and
`get_field_type_for_ts` puts them in for type variables, also in what it has put in. The members of
a controller are inherited from classes whose variables are bound over several levels. Here is
when each variable is written as what it is bound to.
-/
namespace TypeBindings

open TypeScriptTypes Unfoldings

/-- A base of a class: a class by itself, a class with arguments, or `Generic[...]`, which has no
parameters of its own. -/
inductive Base (κ : Type) where
  | plain (c : κ)
  | subscript (c : κ) (args : List PyType)
  | generic

namespace Base

variable {κ : Type}

def cls : Base κ → Option κ
  | plain c | subscript c _ => some c
  | generic => none

/-- A base that is no class; with one of them a class has `__orig_bases__` of its own. -/
def isAlias : Base κ → Bool
  | plain _ => false
  | subscript _ _ | generic => true

end Base

/-- The classes of a program. `mentioned` are the type variables in the members of a class, those
of single methods among them; in an `mro`, every class but the first is a base of an earlier one. -/
structure Hierarchy (κ : Type) where
  parameters : κ → List TypeVar
  mentioned : κ → List TypeVar
  bases : κ → List (Base κ)
  mro : κ → List κ
  distinct : ∀ c, (parameters c).Nodup
  used : ∀ c, parameters c ⊆ mentioned c
  linear : ∀ c before k after, mro c = before ++ k :: after → before = [] ∧ k = c ∨
    ∃ b ∈ before, ∃ base ∈ bases b, base.cls = some k

section Mapping

variable {κ : Type} (h : Hierarchy κ)

/-- The class whose `__orig_bases__` a class has. -/
def basesOwner (c : κ) : Option κ := (h.mro c).find? fun k => (h.bases k).any Base.isAlias

/-- The pairs that a base gives. -/
def bindings : Base κ → List (TypeVar × PyType)
  | .subscript c args =>
    if args.length = (h.parameters c).length then (h.parameters c).zip args else []
  | .plain _ | .generic => []

/-- `get_generic_type_mapping`; the last assignment to a variable counts. -/
def getGenericTypeMapping (c : κ) (v : TypeVar) : Option PyType :=
  (((basesOwner h c).elim [] h.bases).flatMap (bindings h)).reverse.lookup v

end Mapping

section Mapper

mutual

/-- The variables for which the mapper is called on a type. -/
def calledVars : PyType → List TypeVar
  | .typeVar v => [v]
  | .model _ args | .tuple args | .union _ args => calledVarsList args
  | .root _ t | .classVar t | .list t | .frozenset t | .set t | .annotated t => calledVars t
  | .dict key value => calledVars key ++ calledVars value
  | .validated _ input => calledVars input
  | .scalar _ | .ellipsis | .cls _ | .opaqueRoot _ _ | .literal _ | .other => []

def calledVarsList : List PyType → List TypeVar
  | [] => []
  | t :: rest => calledVars t ++ calledVarsList rest

end

variable (style : EnumStyle) (display : Cls → List PyType → String) (suffix : String)

/-- `get_field_type_for_ts` with a type mapping, which it enters again for what it finds there; no
result is a `RecursionError`. -/
def getMappedFieldTypeForTs (mapping : TypeVar → Option PyType) : Nat → PyType → Option Ts
  | 0, _ => none
  | depth + 1, t =>
    if (calledVars t).all fun v => (mapping v).all fun u =>
      (getMappedFieldTypeForTs mapping depth u).isSome then
      some (getFieldTypeForTs style display suffix
        (fun v => (mapping v).bind (getMappedFieldTypeForTs mapping depth)) t)
    else none

/-- What is written for a variable. -/
def written (ρ : TypeVar → Option Ts) (v : TypeVar) : Ts := (ρ v).getD [.name v.name]

mutual

/-- The mapper on a type depends on what is written for its variables. -/
theorem mapper_congr {ρ ρ' : TypeVar → Option Ts} :
    ∀ t : PyType, (∀ v ∈ calledVars t, written ρ v = written ρ' v) →
    getFieldTypeForTs style display suffix ρ t = getFieldTypeForTs style display suffix ρ' t
  | .typeVar v, h => h v (by simp [calledVars])
  | .model origin args, h => by
    rw [getFieldTypeForTs, getFieldTypeForTs, mappers_congr args h]
  | .tuple args, h => by
    rw [getFieldTypeForTs, getFieldTypeForTs, mappers_congr args h]
  | .union _ args, h => by
    rw [getFieldTypeForTs, getFieldTypeForTs, mappers_congr args h]
  | .root _ t, h => mapper_congr t h
  | .classVar t, h => mapper_congr t h
  | .annotated t, h => mapper_congr t h
  | .list t, h => by rw [getFieldTypeForTs, getFieldTypeForTs, mapper_congr t h]
  | .frozenset t, h => by rw [getFieldTypeForTs, getFieldTypeForTs, mapper_congr t h]
  | .set t, h => by rw [getFieldTypeForTs, getFieldTypeForTs, mapper_congr t h]
  | .dict key value, h => by
    rw [getFieldTypeForTs, getFieldTypeForTs,
      mapper_congr key fun v hv => h v (List.mem_append_left _ hv),
      mapper_congr value fun v hv => h v (List.mem_append_right _ hv)]
  | .validated _ input, h => mapper_congr input h
  | .scalar _, _ | .ellipsis, _ | .cls _, _ | .opaqueRoot _ _, _ | .literal _, _ | .other, _ => rfl

theorem mappers_congr {ρ ρ' : TypeVar → Option Ts} : ∀ ts : List PyType,
    (∀ v ∈ calledVarsList ts, written ρ v = written ρ' v) →
    getFieldTypesForTs style display suffix ρ ts = getFieldTypesForTs style display suffix ρ' ts
  | [], _ => rfl
  | t :: rest, h => by
    rw [getFieldTypesForTs, getFieldTypesForTs,
      mapper_congr t fun v hv => h v (List.mem_append_left _ hv),
      mappers_congr rest fun v hv => h v (List.mem_append_right _ hv)]

end

end Mapper

section Depth

variable (style : EnumStyle) (display : Cls → List PyType → String) (suffix : String)
  {mapping : TypeVar → Option PyType}

/-- The variables for which a variable is entered again. -/
def rebinds (mapping : TypeVar → Option PyType) (v : TypeVar) : List TypeVar :=
  (mapping v).elim [] calledVars

theorem mapped_succ_iff {depth : Nat} {t : PyType} {r : Ts} :
    getMappedFieldTypeForTs style display suffix mapping (depth + 1) t = some r ↔
      (∀ v ∈ calledVars t, ∀ u, mapping v = some u → ∃ s,
        getMappedFieldTypeForTs style display suffix mapping depth u = some s) ∧
      getFieldTypeForTs style display suffix
        (fun v => (mapping v).bind (getMappedFieldTypeForTs style display suffix mapping depth)) t =
        r := by
  rw [getMappedFieldTypeForTs, Option.ite_none_right_eq_some, List.all_eq_true, Option.some.injEq]
  refine and_congr_left fun _ => forall₂_congr fun v _ => ?_
  cases mapping v with
  | none => simp
  | some u => simp [Option.isSome_iff_exists]

/-- The types that the mapper is entered again with. -/
def substituted (mapping : TypeVar → Option PyType) (t : PyType) : List PyType :=
  (calledVars t).filterMap mapping

/-- The mapper has a result just where no chain of bindings is as long as it may be deep. -/
theorem mapped_exists_iff (depth : Nat) (t : PyType) :
    (∃ r, getMappedFieldTypeForTs style display suffix mapping depth t = some r) ↔
      ¬Chain (substituted mapping) depth t := by
  induction depth generalizing t with
  | zero => simp [getMappedFieldTypeForTs, Chain]
  | succ depth ih =>
    simp only [mapped_succ_iff, exists_and_left, exists_eq', and_true, ih, Chain, substituted,
      List.mem_filterMap, not_exists, not_and]
    constructor
    · rintro h u ⟨v, hv, hu⟩
      exact h v hv u hu
    · exact fun h v hv u hu => h u ⟨v, hv, hu⟩

/-- A result stays with more depth. -/
theorem mapped_succ {depth : Nat} {t : PyType} {r : Ts}
    (h : getMappedFieldTypeForTs style display suffix mapping depth t = some r) :
    getMappedFieldTypeForTs style display suffix mapping (depth + 1) t = some r := by
  induction depth generalizing t r with
  | zero => cases h
  | succ depth ih =>
    obtain ⟨hends, hr⟩ := (mapped_succ_iff style display suffix).1 h
    refine (mapped_succ_iff style display suffix).2 ⟨fun v hv u hu => ?_,
      hr ▸ mapper_congr style display suffix t fun v hv => ?_⟩
    · obtain ⟨s, hs⟩ := hends v hv u hu
      exact ⟨s, ih hs⟩
    · cases hu : mapping v with
      | none => simp [written, hu]
      | some u =>
        obtain ⟨s, hs⟩ := hends v hv u hu
        simp only [written, hu, Option.bind_some, hs, ih hs]

theorem mapped_mono {depth depth' : Nat} (hle : depth ≤ depth') {t : PyType} {r : Ts}
    (h : getMappedFieldTypeForTs style display suffix mapping depth t = some r) :
    getMappedFieldTypeForTs style display suffix mapping depth' t = some r := by
  induction hle with
  | refl => exact h
  | step _ ih => exact mapped_succ style display suffix ih

/-- More depth does not change what is returned. -/
theorem mapped_unique {depth depth' : Nat} {t : PyType} {r r' : Ts}
    (h : getMappedFieldTypeForTs style display suffix mapping depth t = some r)
    (h' : getMappedFieldTypeForTs style display suffix mapping depth' t = some r') : r = r' := by
  have hmax := mapped_mono style display suffix (le_max_left depth depth') h
  rw [mapped_mono style display suffix (le_max_right depth depth') h'] at hmax
  exact (Option.some.inj hmax).symm

/-- One depth does for what all variables of a list are bound to. -/
theorem exists_depth {vs : List TypeVar}
    (h : ∀ v ∈ vs, ∃ depth, ∀ u, mapping v = some u → ∃ s,
      getMappedFieldTypeForTs style display suffix mapping depth u = some s) :
    ∃ depth, ∀ v ∈ vs, ∀ u, mapping v = some u →
      ∃ s, getMappedFieldTypeForTs style display suffix mapping depth u = some s := by
  refine exists_for_all (fun v m n hle hends u hu => ?_) h
  obtain ⟨s, hs⟩ := hends u hu
  exact ⟨s, mapped_mono style display suffix hle hs⟩

/-- The mapper ends on a type exactly if following the bindings ends on its variables. -/
theorem mapped_ends_iff (t : PyType) :
    (∃ depth r, getMappedFieldTypeForTs style display suffix mapping depth t = some r) ↔
      ∀ v ∈ calledVars t, Acc (fun u v => Edge (rebinds mapping) v u) v := by
  constructor
  · rintro ⟨depth, r, h⟩
    induction depth generalizing t r with
    | zero => cases h
    | succ depth ih =>
      intro v hv
      refine ⟨v, fun u hu => ?_⟩
      cases hbound : mapping v with
      | none => simp [Edge, rebinds, hbound] at hu
      | some s =>
        obtain ⟨r', hr'⟩ := ((mapped_succ_iff style display suffix).1 h).1 v hv s hbound
        exact ih s r' hr' u (by simpa [Edge, rebinds, hbound] using hu)
  · intro h
    have hvar : ∀ v, Acc (fun u v => Edge (rebinds mapping) v u) v →
        ∃ depth, ∀ u, mapping v = some u →
          ∃ s, getMappedFieldTypeForTs style display suffix mapping depth u = some s := by
      intro v hv
      induction hv with
      | intro v _ ih =>
        cases hbound : mapping v with
        | none => exact ⟨0, nofun⟩
        | some u =>
          have hedge : ∀ w ∈ calledVars u, Edge (rebinds mapping) v w :=
            fun w hw => by simpa [Edge, rebinds, hbound] using hw
          obtain ⟨depth, hdepth⟩ := exists_depth style display suffix fun w hw => ih w (hedge w hw)
          refine ⟨depth + 1, fun u' hu' => ?_⟩
          obtain rfl := Option.some.inj hu'
          exact ⟨_, (mapped_succ_iff style display suffix).2 ⟨hdepth, rfl⟩⟩
    obtain ⟨depth, hdepth⟩ := exists_depth style display suffix fun v hv => hvar v (h v hv)
    exact ⟨depth + 1, _, (mapped_succ_iff style display suffix).2 ⟨hdepth, rfl⟩⟩

/-- What stands for the variables, if every binding is written with it as it should be, is what
the mapper puts in. -/
theorem mapped_eq_of_solution {ρ : TypeVar → Option Ts}
    (hρ : ∀ v, ρ v = (mapping v).map (getFieldTypeForTs style display suffix ρ)) {depth : Nat}
    {t : PyType} {r : Ts}
    (h : getMappedFieldTypeForTs style display suffix mapping depth t = some r) :
    r = getFieldTypeForTs style display suffix ρ t := by
  induction depth generalizing t r with
  | zero => cases h
  | succ depth ih =>
    obtain ⟨hends, hr⟩ := (mapped_succ_iff style display suffix).1 h
    rw [← hr]
    refine mapper_congr style display suffix t fun v hv => ?_
    rw [written, written, hρ v]
    cases hbound : mapping v with
    | none => rfl
    | some u =>
      obtain ⟨s, hs⟩ := hends v hv u hbound
      simp only [Option.bind_some, hs, Option.map_some, ih hs]

/-- A bound variable is mapped as what it is bound to. -/
theorem mapped_typeVar {v : TypeVar} {t : PyType} (hv : mapping v = some t) {depth : Nat} {r : Ts} :
    getMappedFieldTypeForTs style display suffix mapping (depth + 1) (.typeVar v) = some r ↔
      getMappedFieldTypeForTs style display suffix mapping depth t = some r := by
  rw [mapped_succ_iff]
  simp only [calledVars, List.mem_singleton, forall_eq, hv, Option.some.injEq, forall_eq',
    getFieldTypeForTs, Option.bind_some]
  constructor
  · rintro ⟨⟨s, hs⟩, rfl⟩
    simp [hs]
  · intro h
    exact ⟨⟨r, h⟩, by simp [h]⟩

end Depth

section Ancestors

variable {κ : Type} (h : Hierarchy κ) (style : EnumStyle) (display : Cls → List PyType → String)
  (suffix : String)

/-- A class that another one inherits from, with the bases on the way, the last one first. -/
inductive Descends (c : κ) : κ → List (Base κ) → Prop
  | base {base : Base κ} {d : κ} : base ∈ h.bases c → base.cls = some d → Descends c d [base]
  | step {d e : κ} {path : List (Base κ)} {base : Base κ} :
      Descends c d path → base ∈ h.bases d → base.cls = some e → Descends c e (base :: path)

/-- What the variables of an ancestor are bound to in the class at the other end of the way: the
arguments at its base, with the variables in them bound further on the way. -/
def boundAlong : List (Base κ) → TypeVar → Option Ts
  | [] => fun _ => none
  | base :: path =>
    fun v => ((bindings h base).lookup v).map
    (getFieldTypeForTs style display suffix (boundAlong path))

/-- The same as types of Python. -/
def boundTypes : List (Base κ) → TypeVar → Option PyType
  | [] => fun _ => none
  | base :: path =>
    fun v => ((bindings h base).lookup v).map (GenericModels.replaceVars (boundTypes path))

/-- Without a suffix, what is bound is what is written for the types that are bound. -/
theorem boundAlong_eq_emitted (path : List (Base κ)) :
    boundAlong h style display "" path =
      GenericModels.emitted style display (boundTypes h path) := by
  induction path with
  | nil => rfl
  | cons base path ih =>
    funext v
    simp only [boundAlong, boundTypes, GenericModels.emitted, Option.map_map, ih]
    cases (bindings h base).lookup v with
    | none => rfl
    | some t =>
      exact congrArg some (GenericModels.getFieldTypeForTs_replaceVars style display _ t).symm

/-- Then an annotation with bound variables is written like the annotation with the types put in. -/
theorem annotation_eq_replaced (path : List (Base κ)) (t : PyType) :
    getFieldTypeForTs style display "" (boundAlong h style display "" path) t =
      getFieldTypeForTs style display "" (fun _ => none)
        (GenericModels.replaceVars (boundTypes h path) t) := by
  rw [boundAlong_eq_emitted, GenericModels.getFieldTypeForTs_replaceVars]

/-- The mapper ends on every annotation of every inherited member, with its variables written as
what they are bound to. -/
def Resolves (c : κ) : Prop :=
  ∀ d path, Descends h c d path → ∀ t, typeVars t ⊆ h.mentioned d →
    ∃ depth, getMappedFieldTypeForTs style display suffix (getGenericTypeMapping h c) depth t =
      some (getFieldTypeForTs style display suffix (boundAlong h style display suffix path) t)

/-- What is written for the direct bindings by themselves. -/
def directly (mapping : TypeVar → Option PyType) (v : TypeVar) : Option Ts :=
  (mapping v).map (getFieldTypeForTs style display suffix fun _ => none)

/-- Following the direct bindings never comes back to a variable, putting them into one another
changes nothing, and they bind the variables of every ancestor to what these are bound to over all
levels. -/
def BoundDirectly (c : κ) : Prop :=
  (∀ v, AcyclicFrom (rebinds (getGenericTypeMapping h c)) v) ∧
  (∀ v t, getGenericTypeMapping h c v = some t →
    getFieldTypeForTs style display suffix
      (directly style display suffix (getGenericTypeMapping h c)) t =
      getFieldTypeForTs style display suffix (fun _ => none) t) ∧
  ∀ d path, Descends h c d path → ∀ v ∈ h.mentioned d,
    written (boundAlong h style display suffix path) v =
      written (directly style display suffix (getGenericTypeMapping h c)) v

mutual

theorem calledVars_subset_typeVars : ∀ t : PyType, calledVars t ⊆ typeVars t
  | .model _ args => calledVarsList_subset args
  | .tuple args => calledVarsList_subset args
  | .union _ args => calledVarsList_subset args
  | .root _ t => calledVars_subset_typeVars t
  | .classVar t => calledVars_subset_typeVars t
  | .list t => calledVars_subset_typeVars t
  | .frozenset t => calledVars_subset_typeVars t
  | .set t => calledVars_subset_typeVars t
  | .annotated t => calledVars_subset_typeVars t
  | .dict key value =>
    List.append_subset.2 ⟨List.subset_append_of_subset_left _ (calledVars_subset_typeVars key),
      List.subset_append_of_subset_right _ (calledVars_subset_typeVars value)⟩
  | .validated _ input => List.subset_append_of_subset_right _ (calledVars_subset_typeVars input)
  | .typeVar _ => fun _ hv => hv
  | .scalar _ | .ellipsis | .cls _ | .opaqueRoot _ _ | .literal _ | .other => List.nil_subset _

theorem calledVarsList_subset : ∀ ts : List PyType, calledVarsList ts ⊆ typeVarsList ts
  | [] => List.nil_subset _
  | t :: rest =>
    List.append_subset.2 ⟨List.subset_append_of_subset_left _ (calledVars_subset_typeVars t),
      List.subset_append_of_subset_right _ (calledVarsList_subset rest)⟩

end

theorem mem_of_lookup {l : List (TypeVar × PyType)} {v : TypeVar} {t : PyType}
    (hl : l.lookup v = some t) : (v, t) ∈ l := by
  obtain ⟨before, after, rfl, -⟩ := List.lookup_eq_some_iff.1 hl
  simp

theorem lookup_zip {vs : List TypeVar} {ts : List PyType} (hvs : vs.Nodup)
    {v : TypeVar} {t : PyType}
    (hmem : (v, t) ∈ vs.zip ts) : (vs.zip ts).lookup v = some t := by
  induction vs generalizing ts with
  | nil => cases hmem
  | cons w vs ih =>
    cases ts with
    | nil => cases hmem
    | cons u ts =>
      obtain ⟨hw, hvs⟩ := List.nodup_cons.1 hvs
      rw [List.zip_cons_cons, List.mem_cons] at hmem
      rcases hmem with hmem | hmem
      · obtain ⟨rfl, rfl⟩ := Prod.mk.inj hmem
        exact List.lookup_cons_self
      · have hne : v ≠ w := fun he => hw (he ▸ (List.of_mem_zip hmem).1)
        rw [List.zip_cons_cons, List.lookup_cons, beq_false_of_ne hne]
        exact ih hvs hmem

/-- The class with the `__orig_bases__` is the class itself, or an ancestor in which nothing is
bound on the way. -/
theorem owner_descends {c : κ} (before : List κ) {k : κ} {after : List κ}
    (hmro : h.mro c = before ++ k :: after)
    (hplain : ∀ b ∈ before, (h.bases b).any Base.isAlias = false) :
    k = c ∨ ∃ path, Descends h c k path ∧
      boundAlong h style display suffix path = fun _ => none := by
  induction hn : before.length using Nat.strong_induction_on generalizing before k after with
  | _ n ih =>
    rcases h.linear c before k after hmro with ⟨-, rfl⟩ | ⟨b, hb, base, hbase, hcls⟩
    · exact .inl rfl
    · obtain ⟨l₁, l₂, rfl⟩ := List.append_of_mem hb
      have hnone : ∀ path, boundAlong h style display suffix (base :: path) = fun _ => none := by
        have hno : base.isAlias = false :=
          Bool.eq_false_iff.2 (List.any_eq_false.1 (hplain b hb) base hbase)
        cases base with
        | plain d => exact fun _ => rfl
        | subscript d args => cases hno
        | generic => cases hno
      rw [List.append_assoc] at hmro
      have hlt : l₁.length < n := by
        rw [← hn, List.length_append, List.length_cons]
        omega
      rcases ih l₁.length hlt l₁ hmro
        (fun x hx => hplain x (List.mem_append_left _ hx)) rfl with rfl | ⟨path, hpath, -⟩
      · exact .inr ⟨_, .base hbase hcls, hnone []⟩
      · exact .inr ⟨_, .step hpath hbase hcls, hnone path⟩

/-- A direct binding is that of a variable of an ancestor. -/
theorem direct_binding {c : κ} {v : TypeVar} {t : PyType}
    (hv : getGenericTypeMapping h c v = some t) :
    ∃ d path, Descends h c d path ∧ v ∈ h.parameters d ∧
      boundAlong h style display suffix path v =
        some (getFieldTypeForTs style display suffix (fun _ => none) t) := by
  have hmem := mem_of_lookup hv
  rw [List.mem_reverse] at hmem
  obtain ⟨base, hbase, hpair⟩ := List.mem_flatMap.1 hmem
  cases howner : basesOwner h c with
  | none => simp [howner] at hbase
  | some k =>
    rw [howner, Option.elim_some] at hbase
    obtain ⟨-, before, after, hmro, hplain⟩ := List.find?_eq_some_iff_append.1 howner
    have hplain' : ∀ b ∈ before, (h.bases b).any Base.isAlias = false :=
      fun b hb => by simpa using hplain b hb
    cases base with
    | plain d => cases hpair
    | generic => cases hpair
    | subscript d args =>
      have hlookup : (bindings h (.subscript d args)).lookup v = some t := by
        rw [bindings] at hpair ⊢
        split at hpair
        · rename_i hlength
          rw [if_pos hlength]
          exact lookup_zip (h.distinct d) hpair
        · cases hpair
      have hparam : v ∈ h.parameters d := by
        rw [bindings] at hpair
        split at hpair
        · exact (List.of_mem_zip hpair).1
        · cases hpair
      rcases owner_descends h style display suffix before hmro hplain' with
        rfl | ⟨path, hpath, hnone⟩
      · exact ⟨d, _, .base hbase rfl, hparam, by simp [boundAlong, hlookup]⟩
      · exact ⟨d, _, .step hpath hbase rfl, hparam, by simp [boundAlong, hlookup, hnone]⟩

/-- Finitely many variables are entered again. -/
theorem rebinds_finite (c : κ) (v : TypeVar) :
    {u | Relation.ReflTransGen (Edge (rebinds (getGenericTypeMapping h c))) v u}.Finite := by
  have hbound : ({v} ∪ {u | u ∈ (((basesOwner h c).elim [] h.bases).flatMap (bindings h)).flatMap
      fun p => calledVars p.2}).Finite :=
    (Set.finite_singleton v).union (List.finite_toSet _)
  refine hbound.subset fun u hu => ?_
  rcases Relation.ReflTransGen.cases_tail hu with rfl | ⟨w, -, hedge⟩
  · exact .inl rfl
  · cases hw : getGenericTypeMapping h c w with
    | none => simp [Edge, rebinds, hw] at hedge
    | some t =>
      refine .inr (List.mem_flatMap.2 ⟨(w, t), List.mem_reverse.1 (mem_of_lookup hw), ?_⟩)
      simpa [Edge, rebinds, hw] using hedge

theorem acc_iff_acyclic_mapping (c : κ) (v : TypeVar) :
    Acc (fun u v => Edge (rebinds (getGenericTypeMapping h c)) v u) v ↔
    AcyclicFrom (rebinds (getGenericTypeMapping h c)) v := acc_iff_acyclic (rebinds_finite h c v)

theorem typeVar_in_scope {d : κ} {v : TypeVar} (hv : v ∈ h.mentioned d) :
    typeVars (.typeVar v) ⊆ h.mentioned d := by
  rw [typeVars]
  exact List.cons_subset.2 ⟨hv, List.nil_subset _⟩

/-- Where everything resolves, a direct binding is written as it stands. -/
theorem Resolves.direct {c : κ} (hc : Resolves h style display suffix c) {v : TypeVar} {t : PyType}
    (hv : getGenericTypeMapping h c v = some t) :
    ∃ depth, getMappedFieldTypeForTs style display suffix (getGenericTypeMapping h c) depth t =
      some (getFieldTypeForTs style display suffix (fun _ => none) t) := by
  obtain ⟨d, path, hpath, hparam, hbound⟩ := direct_binding h style display suffix hv
  obtain ⟨depth, hdepth⟩ := hc d path hpath (.typeVar v) (typeVar_in_scope h (h.used d hparam))
  rw [getFieldTypeForTs, hbound, Option.getD_some] at hdepth
  cases depth with
  | zero => cases hdepth
  | succ depth => exact ⟨depth, (mapped_typeVar style display suffix hv).1 hdepth⟩

/-- Where the mapper returns, no variable is bound to itself in circles. -/
theorem Resolves.acyclic {c : κ} (hc : Resolves h style display suffix c) (v : TypeVar) :
    AcyclicFrom (rebinds (getGenericTypeMapping h c)) v := by
  rw [← acc_iff_acyclic_mapping]
  refine ⟨v, fun u hu => ?_⟩
  cases hv : getGenericTypeMapping h c v with
  | none => simp [Edge, rebinds, hv] at hu
  | some t =>
    obtain ⟨depth, hdepth⟩ := hc.direct h style display suffix hv
    exact (mapped_ends_iff style display suffix t).1 ⟨depth, _, hdepth⟩ u
      (by simpa [Edge, rebinds, hv] using hu)

/-- Where everything resolves, putting the direct bindings into one another changes nothing. -/
theorem Resolves.idempotent {c : κ} (hc : Resolves h style display suffix c)
    {v : TypeVar} {t : PyType}
    (hv : getGenericTypeMapping h c v = some t) :
    getFieldTypeForTs style display suffix
      (directly style display suffix (getGenericTypeMapping h c)) t =
      getFieldTypeForTs style display suffix (fun _ => none) t := by
  obtain ⟨depth, hdepth⟩ := hc.direct h style display suffix hv
  cases depth with
  | zero => cases hdepth
  | succ depth =>
    obtain ⟨hends, hr⟩ := (mapped_succ_iff style display suffix).1 hdepth
    rw [← hr]
    refine mapper_congr style display suffix t fun u hu => ?_
    rw [written, written, directly]
    cases hbound : getGenericTypeMapping h c u with
    | none => rfl
    | some s =>
      obtain ⟨r, hs⟩ := hends u hu s hbound
      obtain ⟨depth', hdepth'⟩ := hc.direct h style display suffix hbound
      rw [Option.map_some, Option.bind_some, hs, mapped_unique style display suffix hs hdepth']

/-- Where the mapper resolves, the variables are bound directly. -/
theorem boundDirectly_of_resolves {c : κ} (hc : Resolves h style display suffix c) :
    BoundDirectly h style display suffix c := by
  refine ⟨hc.acyclic h style display suffix, fun v t hv => hc.idempotent h style display suffix hv,
    fun d path hpath v hv => ?_⟩
  obtain ⟨depth, hdepth⟩ := hc d path hpath (.typeVar v) (typeVar_in_scope h hv)
  rw [getFieldTypeForTs] at hdepth
  cases hbound : getGenericTypeMapping h c v with
  | none =>
    cases depth with
    | zero => cases hdepth
    | succ depth =>
      have hname := ((mapped_succ_iff style display suffix).1 hdepth).2
      rw [getFieldTypeForTs, hbound] at hname
      rw [written, written, directly, hbound]
      exact hname.symm
  | some t =>
    obtain ⟨depth', hdepth'⟩ := hc.direct h style display suffix hbound
    have hvar := (mapped_typeVar style display suffix hbound).2 hdepth'
    rw [written, written, directly, hbound]
    exact mapped_unique style display suffix hdepth hvar

/-- And where that is so, it resolves every field. -/
theorem resolves_of_boundDirectly {c : κ} (hc : BoundDirectly h style display suffix c) :
    Resolves h style display suffix c := by
  obtain ⟨hacyclic, hidempotent, hbound⟩ := hc
  intro d path hpath t ht
  have hends : ∃ depth r, getMappedFieldTypeForTs style display suffix
      (getGenericTypeMapping h c) depth t = some r :=
    (mapped_ends_iff style display suffix t).2 fun v _ =>
      (acc_iff_acyclic_mapping h c v).2 (hacyclic v)
  obtain ⟨depth, r, hr⟩ := hends
  have hsolution :
      ∀ v, directly style display suffix (getGenericTypeMapping h c) v =
      (getGenericTypeMapping h c v).map
      (getFieldTypeForTs style display suffix
        (directly style display suffix (getGenericTypeMapping h c))) := by
    intro v
    cases hv : getGenericTypeMapping h c v with
    | none => rw [directly, hv, Option.map_none, Option.map_none]
    | some u => rw [directly, hv, Option.map_some, Option.map_some, hidempotent v u hv]
  refine ⟨depth, hr.trans (congrArg some ?_)⟩
  rw [mapped_eq_of_solution style display suffix hsolution hr]
  exact mapper_congr style display suffix t fun v hv =>
    (hbound d path hpath v (ht (calledVars_subset_typeVars t hv))).symm

/-- Every annotation of every inherited member is mapped, with its variables as what they are bound
to, if and only if the direct bindings bind everything. -/
theorem resolves_iff (c : κ) :
    Resolves h style display suffix c ↔ BoundDirectly h style display suffix c :=
  ⟨boundDirectly_of_resolves h style display suffix,
    resolves_of_boundDirectly h style display suffix⟩

end Ancestors

section Swapped

def firstVar : TypeVar := ⟨0, "T"⟩

def secondVar : TypeVar := ⟨1, "U"⟩

def pairVars : Fin 3 → List TypeVar
  | 0 | 1 => [firstVar, secondVar]
  | 2 => []

def pairBases : Fin 3 → List (Base (Fin 3))
  | 0 => [.generic]
  | 1 => [.subscript 0 [.typeVar secondVar, .typeVar firstVar], .generic]
  | 2 => [.subscript 1 [.scalar .int, .scalar .str]]

def pairMro : Fin 3 → List (Fin 3)
  | 0 => [0]
  | 1 => [1, 0]
  | 2 => [2, 1, 0]

theorem pairVars_nodup : ∀ c, (pairVars c).Nodup := by decide

theorem pairMro_linear (c : Fin 3) (before : List (Fin 3)) (k : Fin 3) (after : List (Fin 3))
    (hmro : pairMro c = before ++ k :: after) : before = [] ∧ k = c ∨
      ∃ b ∈ before, ∃ base ∈ pairBases b, base.cls = some k := by
  have hplaces : ∀ (c i k : Fin 3), (pairMro c)[i.val]? = some k → (pairMro c).take i = [] ∧ k = c ∨
      ∃ b ∈ (pairMro c).take i, ∃ base ∈ pairBases b, base.cls = some k := by decide
  have hlength : ∀ c, (pairMro c).length ≤ 3 := by decide
  have hlt : before.length < 3 := by
    have h := hlength c
    rw [hmro, List.length_append, List.length_cons] at h
    omega
  simpa [hmro] using hplaces c ⟨before.length, hlt⟩ k

/-- `class Pair(Generic[T, U])`, `class Swapped(Pair[U, T], Generic[T, U])` and
`class Ints(Swapped[int, str])`. -/
def pairs : Hierarchy (Fin 3) where
  parameters := pairVars
  mentioned := pairVars
  bases := pairBases
  mro := pairMro
  distinct := pairVars_nodup
  used := fun _ => List.Subset.refl _
  linear := pairMro_linear

/-- Swapped variables lead to one another at every depth. -/
theorem swapped_recursion (depth : Nat) :
    getMappedFieldTypeForTs .enum (fun c _ => c.name) "Output" (getGenericTypeMapping pairs 1) depth
      (.typeVar firstVar) = none ∧
    getMappedFieldTypeForTs .enum (fun c _ => c.name) "Output" (getGenericTypeMapping pairs 1) depth
      (.typeVar secondVar) = none := by
  have hfirst : getGenericTypeMapping pairs 1 firstVar = some (.typeVar secondVar) := by rfl
  have hsecond : getGenericTypeMapping pairs 1 secondVar = some (.typeVar firstVar) := by rfl
  induction depth with
  | zero => exact ⟨rfl, rfl⟩
  | succ depth ih => simp [getMappedFieldTypeForTs, calledVars, hfirst, hsecond, ih]

/-- A member of `Pair` has no type in `Swapped`, and in `Ints` the type of the other variable. -/
theorem swapped_variables_not_resolved :
    (∀ depth, getMappedFieldTypeForTs .enum (fun c _ => c.name) "Output"
      (getGenericTypeMapping pairs 1) depth
      (.typeVar firstVar) = none) ∧
    getMappedFieldTypeForTs .enum (fun c _ => c.name) "Output" (getGenericTypeMapping pairs 2) 2
      (.typeVar firstVar) =
      some [.name "number"] ∧
    boundAlong pairs .enum (fun c _ => c.name) "Output"
      [.subscript 0 [.typeVar secondVar, .typeVar firstVar],
        .subscript 1 [.scalar .int, .scalar .str]] firstVar =
      some [.name "string"] ∧
    ¬Resolves pairs .enum (fun c _ => c.name) "Output" 1 ∧
      ¬Resolves pairs .enum (fun c _ => c.name) "Output" 2 := by
  have hnumber :
      getMappedFieldTypeForTs .enum (fun c _ => c.name) "Output" (getGenericTypeMapping pairs 2) 2
      (.typeVar firstVar) = some [.name "number"] := by rfl
  have hscope : typeVars (.typeVar firstVar) ⊆ pairs.mentioned 0 := by decide
  have hswapped : Descends pairs 1 0 [.subscript 0 [.typeVar secondVar, .typeVar firstVar]] :=
    .base (.head _) rfl
  have hints : Descends pairs 2 0
      [.subscript 0 [.typeVar secondVar, .typeVar firstVar],
        .subscript 1 [.scalar .int, .scalar .str]] :=
    .step (.base (.head _) rfl) (.head _) rfl
  refine ⟨fun depth => (swapped_recursion depth).1, hnumber, rfl, fun h => ?_, fun h => ?_⟩
  · obtain ⟨depth, hdepth⟩ := h 0 _ hswapped (.typeVar firstVar) hscope
    rw [(swapped_recursion depth).1] at hdepth
    cases hdepth
  · obtain ⟨depth, hdepth⟩ := h 0 _ hints (.typeVar firstVar) hscope
    have htext : [Atom.name "number"] = [.name "string"] := mapped_unique _ _ _ hnumber hdepth
    simp at htext

end Swapped

end TypeBindings
