import Mathlib.Data.Set.Finite.Lattice
import Mathlib.Data.Fintype.EquivFin
import Jararaca.Unfoldings

/-!
# The types of recursive models

`extract_all_envolved_types` on annotations that hold the classes themselves, as annotations
that are evaluated late do. Classes may mention each other and themselves. Here is when the
recursion ends with every model and enumeration that an annotation leads to.
-/
namespace RecursiveModels

open Unfoldings

/-- What a type with arguments is made of; `optional` is a union that is not written with bars. -/
inductive Origin where
  | list
  | dict
  | tuple
  | literal
  | union
  | set
  | optional
  | frozenset
  | other
  deriving DecidableEq, Repr

namespace Origin

/-- The origins in the list of `is_primitive`. -/
def primitive : Origin → Bool
  | .list | .dict | .tuple | .literal | .union | .set => true
  | .optional | .frozenset | .other => false

end Origin

/-- An annotation over the classes of a program. `validated` has the input type of its first plain
validator; a `value` is neither a class nor has arguments: a literal value, a name that is not
evaluated, a type variable, `None`. -/
inductive TypeHint (κ : Type) where
  | value
  | cls (c : κ)
  | generic (origin : Origin) (args : List (TypeHint κ))
  | annotated (t : TypeHint κ)
  | validated (t input : TypeHint κ)

inductive Kind where
  | model
  | enum
  | other
  deriving DecidableEq, Repr

structure GenericMetadata (κ : Type) where
  origin : Option κ := none
  args : List (TypeHint κ) := []

/-- What is read of a class, `annotations` being its own. -/
structure ClassInfo (κ : Type) where
  kind : Kind
  generic : Option (GenericMetadata κ) := none
  annotations : List (TypeHint κ) := []

/-- A class with its parametrized forms, which are classes too. -/
abbrev Program (κ : Type) := κ → ClassInfo κ

variable {κ : Type} (program : Program κ)

/-- `extract_all_envolved_types`, a set of types as a list; no result is a `RecursionError`. -/
def extractAllEnvolvedTypes : Nat → TypeHint κ → Option (List (TypeHint κ))
  | 0, _ => none
  | _ + 1, .value => some []
  | _ + 1, .validated _ input => some [input]
  | depth + 1, .annotated t => gather (extractAllEnvolvedTypes depth) [t]
  | depth + 1, .generic origin args =>
    if origin.primitive then gather (extractAllEnvolvedTypes depth) args
    -- no class, but it has arguments
    else gather (extractAllEnvolvedTypes depth) args
  | depth + 1, .cls c =>
    match (program c).generic with
    | some metadata =>
      (gather (extractAllEnvolvedTypes depth) metadata.args).bind fun fromArgs =>
        (gather (extractAllEnvolvedTypes depth) (program c).annotations).map fun members =>
          .cls (metadata.origin.getD c) :: fromArgs ++ members
    | none => (gather (extractAllEnvolvedTypes depth) (program c).annotations).map fun members =>
      .cls c :: members

def genericArgs (c : κ) : List (TypeHint κ) := (program c).generic.elim [] GenericMetadata.args

/-- The model that a parametrized one comes from. -/
def genericOrigin (c : κ) : Option κ := (program c).generic.bind GenericMetadata.origin

/-- What the function calls itself for. -/
def walks : TypeHint κ → List (TypeHint κ)
  | .value | .validated _ _ => []
  | .annotated t => [t]
  | .generic _ args => args
  | .cls c => genericArgs program c ++ (program c).annotations

/-- What a call puts in by itself. -/
def own : TypeHint κ → List (TypeHint κ)
  | .value | .annotated _ | .generic _ _ => []
  | .validated _ input => [input]
  | .cls c => [.cls ((genericOrigin program c).getD c)]

/-- The recursion unfolds the graph of the annotations. -/
theorem extractAllEnvolvedTypes_eq (depth : Nat) (t : TypeHint κ) :
    extractAllEnvolvedTypes program depth t = unfold (walks program) (own program) depth t := by
  induction depth generalizing t with
  | zero => rfl
  | succ depth ih =>
    have hrec : extractAllEnvolvedTypes program depth = unfold (walks program)
      (own program) depth := funext ih
    rw [unfold]
    cases t with
    | value => rfl
    | validated t input => rfl
    | annotated t =>
      rw [extractAllEnvolvedTypes, hrec, walks, own]
      exact (Option.map_id' ..).symm
    | generic origin args =>
      rw [extractAllEnvolvedTypes, hrec, walks, own, ite_self]
      exact (Option.map_id' ..).symm
    | cls c =>
      rw [extractAllEnvolvedTypes, hrec, walks, own, gather_append]
      cases hgeneric : (program c).generic with
      | none => simp [genericArgs, genericOrigin, hgeneric, gather]
      | some metadata =>
        simp only [genericArgs, genericOrigin, hgeneric, Option.elim_some, Option.bind_some]
        cases gather (unfold (walks program) (own program) depth) metadata.args with
        | none => rfl
        | some fromArgs =>
          cases gather (unfold (walks program) (own program) depth) (program c).annotations <;> simp

section Parts

mutual

/-- The annotations inside an annotation, itself among them; no class is opened. -/
def parts : TypeHint κ → List (TypeHint κ)
  | .value => [.value]
  | .cls c => [.cls c]
  | .generic origin args => .generic origin args :: partsList args
  | .annotated t => .annotated t :: parts t
  | .validated t input => [.validated t input]

def partsList : List (TypeHint κ) → List (TypeHint κ)
  | [] => []
  | t :: rest => parts t ++ partsList rest

end

theorem mem_parts (t : TypeHint κ) : t ∈ parts t := by
  cases t <;> simp [parts]

theorem parts_subset_partsList {ts : List (TypeHint κ)} {t : TypeHint κ} (h : t ∈ ts) :
    parts t ⊆ partsList ts := by
  induction ts with
  | nil => cases h
  | cons u ts ih =>
    rcases List.mem_cons.mp h with rfl | h
    · exact List.subset_append_left ..
    · exact fun x hx => List.mem_append_right _ (ih h hx)

mutual

/-- What a part that is no class calls the function for is a part. -/
theorem walks_parts : ∀ (t : TypeHint κ) {u v : TypeHint κ}, u ∈ parts t → (∀ c, u ≠ .cls c) →
    v ∈ walks program u → v ∈ parts t
  | .value, u, v, hu, _, hv => by
    obtain rfl : u = .value := by simpa [parts] using hu
    cases hv
  | .cls c, u, v, hu, hcls, _ => absurd (by simpa [parts] using hu) (hcls c)
  | .validated t input, u, v, hu, _, hv => by
    obtain rfl : u = .validated t input := by simpa [parts] using hu
    cases hv
  | .annotated t, u, v, hu, hcls, hv => by
    rw [parts, List.mem_cons] at hu ⊢
    rcases hu with rfl | hu
    · obtain rfl : v = t := by simpa [walks] using hv
      exact .inr (mem_parts v)
    · exact .inr (walks_parts t hu hcls hv)
  | .generic origin args, u, v, hu, hcls, hv => by
    rw [parts, List.mem_cons] at hu ⊢
    rcases hu with rfl | hu
    · exact .inr (parts_subset_partsList hv (mem_parts v))
    · exact .inr (walks_partsList args hu hcls hv)

theorem walks_partsList :
    ∀ (ts : List (TypeHint κ)) {u v : TypeHint κ}, u ∈ partsList ts → (∀ c, u ≠ .cls c) →
    v ∈ walks program u → v ∈ partsList ts
  | t :: rest, u, v, hu, hcls, hv => by
    rw [partsList, List.mem_append] at hu ⊢
    rcases hu with hu | hu
    · exact .inl (walks_parts t hu hcls hv)
    · exact .inr (walks_partsList rest hu hcls hv)

end

/-- Finitely many annotations are walked. -/
theorem walked_finite [Finite κ] (t : TypeHint κ) :
    {u | Relation.ReflTransGen (Edge (walks program)) t u}.Finite := by
  have hbound : ({u | u ∈ parts t} ∪ ⋃ c : κ,
      {u | u ∈ partsList (walks program (.cls c))}).Finite :=
    (List.finite_toSet _).union (Set.finite_iUnion fun c => List.finite_toSet _)
  refine hbound.subset fun u hu => ?_
  induction hu with
  | refl => exact .inl (mem_parts t)
  | @tail u v _ hedge ih =>
    by_cases hcls : ∃ c, u = .cls c
    · obtain ⟨c, rfl⟩ := hcls
      exact .inr (Set.mem_iUnion.mpr ⟨c, parts_subset_partsList hedge (mem_parts v)⟩)
    · have hne : ∀ c, u ≠ .cls c := fun c h => hcls ⟨c, h⟩
      rcases ih with ih | ih
      · exact .inl (walks_parts program t ih hne hedge)
      · obtain ⟨c, ih⟩ := Set.mem_iUnion.mp ih
        exact .inr (Set.mem_iUnion.mpr ⟨c, walks_partsList program _ ih hne hedge⟩)

end Parts

section Completeness

/-- What an annotation leads to in one step: the arguments of a type, the input type of a validator
in place of its type, and of a class its annotations, its arguments and the model it comes from. -/
def leads : TypeHint κ → List (TypeHint κ)
  | .value => []
  | .annotated t => [t]
  | .validated _ input => [input]
  | .generic _ args => args
  | .cls c =>
    (genericOrigin program c).toList.map .cls ++ (genericArgs program c ++ (program c).annotations)

/-- A model or an enumeration that an annotation leads to. A parametrized model counts as the
one it comes from. -/
def LeadsTo (t : TypeHint κ) (c : κ) : Prop :=
  Relation.ReflTransGen (Edge (leads program)) t (.cls c) ∧ (program c).kind ≠ .other ∧
    genericOrigin program c = none

def Complete (t : TypeHint κ) (result : List (TypeHint κ)) : Prop :=
  ∀ c, LeadsTo program t c → .cls c ∈ result

/-- What an annotation leads to but the function does not call itself for. -/
def hidden : TypeHint κ → List (TypeHint κ)
  | .validated _ input => [input]
  | .cls c => (genericOrigin program c).toList.map .cls
  | .value | .annotated _ | .generic _ _ => []

/-- The class is put in by a call for an annotation below. -/
def Collected (t : TypeHint κ) (c : κ) : Prop :=
  ∃ u, Relation.ReflTransGen (Edge (walks program)) t u ∧ .cls c ∈ own program u

/-- Behind a hidden annotation there is no class that is not collected anyway. -/
def Unconcealed (t : TypeHint κ) : Prop :=
  ∀ u, Relation.ReflTransGen (Edge (walks program)) t u →
    ∀ v ∈ hidden program u, ∀ c, LeadsTo program v c →
    Collected program t c

theorem mem_leads_iff (u v : TypeHint κ) :
    v ∈ leads program u ↔ v ∈ walks program u ∨ v ∈ hidden program u := by
  cases u with
  | cls c => simp only [leads, walks, hidden, List.mem_append]; tauto
  | _ => simp [leads, walks, hidden]

theorem leads_of_walks {t u : TypeHint κ} (h : Relation.ReflTransGen (Edge (walks program)) t u) :
    Relation.ReflTransGen (Edge (leads program)) t u :=
  Relation.ReflTransGen.mono (fun a b hab => (mem_leads_iff program a b).mpr (.inl hab)) _ _ h

/-- A way to a class is walked, or leaves the walk at something hidden. -/
theorem walked_or_hidden {t v : TypeHint κ} (h : Relation.ReflTransGen (Edge (leads program)) t v) :
    Relation.ReflTransGen (Edge (walks program)) t v ∨
    ∃ u, Relation.ReflTransGen (Edge (walks program)) t u ∧ ∃ x ∈ hidden program u,
      Relation.ReflTransGen (Edge (leads program)) x v := by
  induction h with
  | refl => exact .inl .refl
  | @tail v y _ hedge ih =>
    rcases ih with hwalk | ⟨u, hu, x, hx, hv⟩
    · rcases (mem_leads_iff program v y).mp hedge with hy | hy
      · exact .inl (hwalk.tail hy)
      · exact .inr ⟨v, hwalk, y, hy, .refl⟩
    · exact .inr ⟨u, hu, x, hx, hv.tail hedge⟩

theorem collected_iff_unconcealed (t : TypeHint κ) :
    (∀ c, LeadsTo program t c → Collected program t c) ↔ Unconcealed program t := by
  constructor
  · intro h u hu v hv c ⟨hc, hkind⟩
    have hedge : Edge (leads program) u v := (mem_leads_iff program u v).mpr (.inr hv)
    exact h c ⟨((leads_of_walks program hu).tail hedge).trans hc, hkind⟩
  · intro h c ⟨hc, hkind, horigin⟩
    rcases walked_or_hidden program hc with hwalk | ⟨u, hu, x, hx, hxc⟩
    · exact ⟨.cls c, hwalk, by simp [own, horigin]⟩
    · exact h u hu x hx c ⟨hxc, hkind, horigin⟩

/-- A result is complete if and only if nothing is concealed. -/
theorem complete_iff {depth : Nat} {t : TypeHint κ} {result : List (TypeHint κ)}
    (h : extractAllEnvolvedTypes program depth t = some result) :
    Complete program t result ↔ Unconcealed program t := by
  rw [extractAllEnvolvedTypes_eq] at h
  rw [← collected_iff_unconcealed]
  exact forall₂_congr fun c _ => mem_unfold h _

/-- The recursion ends if and only if nothing that is walked is below itself. -/
theorem extraction_terminates_iff [Finite κ] (t : TypeHint κ) :
    (∃ depth result, extractAllEnvolvedTypes program depth t = some result) ↔
      AcyclicFrom (walks program) t := by
  simp only [extractAllEnvolvedTypes_eq]
  exact unfold_terminates_iff_acyclic (walked_finite program t)

/-- On every program of finitely many classes the function ends with every model and every
enumeration that the annotation leads to, if and only if nothing that is walked is below itself
and nothing is concealed. -/
theorem extraction_complete_iff {n : Nat} (program : Program (Fin n)) (t : TypeHint (Fin n)) :
    (∃ depth result, extractAllEnvolvedTypes program depth t = some result ∧
      Complete program t result) ↔
      AcyclicFrom (walks program) t ∧ Unconcealed program t := by
  rw [← extraction_terminates_iff]
  constructor
  · rintro ⟨depth, result, hrun, hcomplete⟩
    exact ⟨⟨depth, result, hrun⟩, (complete_iff program hrun).mp hcomplete⟩
  · rintro ⟨⟨depth, result, hrun⟩, h⟩
    exact ⟨depth, result, hrun, (complete_iff program hrun).mpr h⟩

/-- `class Node(BaseModel): children: list[Node]`. -/
def nodes : Program (Fin 1) :=
  fun _ => { kind := .model, generic := some {}, annotations := [.generic .list [.cls 0]] }

theorem nodes_recursion (depth : Nat) : extractAllEnvolvedTypes nodes depth (.cls 0) = none ∧
    extractAllEnvolvedTypes nodes depth (.generic .list [.cls 0]) = none := by
  induction depth with
  | zero => exact ⟨rfl, rfl⟩
  | succ depth ih =>
    have hcls : extractAllEnvolvedTypes nodes (depth + 1) (.cls 0) = none := by
      simp [extractAllEnvolvedTypes, nodes, gather, ih.2]
    have hlist : extractAllEnvolvedTypes nodes (depth + 1) (.generic .list [.cls 0]) = none := by
      simp [extractAllEnvolvedTypes, Origin.primitive, gather, ih.1]
    exact ⟨hcls, hlist⟩

/-- A model that mentions itself has no result at any depth. -/
theorem node_not_extracted :
    (∀ depth, extractAllEnvolvedTypes nodes depth (.cls 0) = none) ∧
    ¬∀ (n : Nat) (program : Program (Fin n)) (t : TypeHint (Fin n)),
      ∃ depth result, extractAllEnvolvedTypes program depth t = some result ∧
        Complete program t result := by
  refine ⟨fun depth => (nodes_recursion depth).1, fun h => ?_⟩
  obtain ⟨depth, result, hrun, -⟩ := h 1 nodes (.cls 0)
  rw [(nodes_recursion depth).1] at hrun
  cases hrun

end Completeness

end RecursiveModels
