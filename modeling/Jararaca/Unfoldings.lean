import Mathlib.Data.Set.Finite.Lattice
import Mathlib.Data.Fintype.EquivFin
import Mathlib.Logic.Relation
import Mathlib.Order.WellFounded
import Mathlib.Order.Preorder.Finite

/-!
# Unfoldings of a graph

A recursion that follows the children of a node and remembers nothing. It ends at a node,
however deep it may go, if and only if the node is accessible; on a finite graph that is when no
node below it is below itself. What it gives is then what stands at the nodes below.
-/
namespace Unfoldings

variable {α β : Type}

/-- The results of a call for each element, in order. -/
def gather (f : α → Option (List β)) : List α → Option (List β)
  | [] => some []
  | a :: rest => (f a).bind fun xs => (gather f rest).map (xs ++ ·)

/-- The recursion with the depth it may reach. -/
def unfold (children : α → List α) (own : α → List β) : Nat → α → Option (List β)
  | 0, _ => none
  | depth + 1, a => (gather (unfold children own depth) (children a)).map (own a ++ ·)

section Gather

variable {f : α → Option (List β)}

theorem gather_append (as bs : List α) :
    gather f (as ++ bs) = (gather f as).bind fun xs => (gather f bs).map (xs ++ ·) := by
  induction as with
  | nil => simp [gather]
  | cons a as ih =>
    rw [List.cons_append, gather, gather, ih]
    cases f a with
    | none => rfl
    | some xs => cases gather f as <;> cases gather f bs <;> simp

theorem gather_exists_iff (as : List α) :
    (∃ r, gather f as = some r) ↔ ∀ a ∈ as, ∃ r, f a = some r := by
  induction as with
  | nil => simp [gather]
  | cons a as ih =>
    rw [List.forall_mem_cons, ← ih, gather]
    constructor
    · rintro ⟨r, h⟩
      obtain ⟨xs, hxs, h⟩ := Option.bind_eq_some_iff.mp h
      obtain ⟨ys, hys, -⟩ := Option.map_eq_some_iff.mp h
      exact ⟨⟨xs, hxs⟩, ys, hys⟩
    · rintro ⟨⟨xs, hxs⟩, ys, hys⟩
      exact ⟨xs ++ ys, by simp [hxs, hys]⟩

theorem mem_gather {as : List α} {r : List β} (h : gather f as = some r) (x : β) :
    x ∈ r ↔ ∃ a ∈ as, ∃ xs, f a = some xs ∧ x ∈ xs := by
  induction as generalizing r with
  | nil =>
    obtain rfl : [] = r := Option.some.inj h
    simp
  | cons a as ih =>
    rw [gather] at h
    obtain ⟨xs, hxs, h⟩ := Option.bind_eq_some_iff.mp h
    obtain ⟨ys, hys, rfl⟩ := Option.map_eq_some_iff.mp h
    simp [ih hys, hxs]

theorem gather_mono {f' : α → Option (List β)} (hf : ∀ a xs, f a = some xs → f' a = some xs)
    {as : List α} {r : List β}
    (h : gather f as = some r) : gather f' as = some r := by
  induction as generalizing r with
  | nil => exact h
  | cons a as ih =>
    rw [gather] at h
    obtain ⟨xs, hxs, h⟩ := Option.bind_eq_some_iff.mp h
    obtain ⟨ys, hys, rfl⟩ := Option.map_eq_some_iff.mp h
    rw [gather, hf a xs hxs, Option.bind_some, ih hys, Option.map_some]

end Gather

/-- Where more is never worse, one number does for all the elements of a list. -/
theorem exists_for_all {P : α → Nat → Prop} (hmono : ∀ a {m n}, m ≤ n → P a m → P a n) {as : List α}
    (h : ∀ a ∈ as, ∃ n, P a n) : ∃ n, ∀ a ∈ as, P a n := by
  induction as with
  | nil => exact ⟨0, nofun⟩
  | cons a as ih =>
    rw [List.forall_mem_cons] at h
    obtain ⟨⟨m, hm⟩, h⟩ := h
    obtain ⟨n, hn⟩ := ih h
    refine ⟨max m n, List.forall_mem_cons.mpr ⟨hmono a (le_max_left ..) hm, fun b hb => ?_⟩⟩
    exact hmono b (le_max_right ..) (hn b hb)

variable (children : α → List α) (own : α → List β)

/-- There is an edge to every child. -/
def Edge (a b : α) : Prop := b ∈ children a

variable {children own}

theorem unfold_succ {depth : Nat} {a : α} {r : List β} (h : unfold children own depth a = some r) :
    unfold children own (depth + 1) a = some r := by
  induction depth generalizing a r with
  | zero => cases h
  | succ depth ih =>
    rw [unfold] at h
    obtain ⟨xs, hxs, rfl⟩ := Option.map_eq_some_iff.mp h
    rw [unfold, gather_mono (fun b ys hb => ih hb) hxs, Option.map_some]

theorem unfold_mono {depth depth' : Nat} (hle : depth ≤ depth') {a : α} {r : List β}
    (h : unfold children own depth a = some r) : unfold children own depth' a = some r := by
  induction hle with
  | refl => exact h
  | step _ ih => exact unfold_succ ih

/-- The recursion ends exactly at the accessible nodes. -/
theorem unfold_terminates_iff (a : α) :
    (∃ depth r, unfold children own depth a = some r) ↔ Acc (fun b a => Edge children a b) a := by
  constructor
  · rintro ⟨depth, r, h⟩
    induction depth generalizing a r with
    | zero => cases h
    | succ depth ih =>
      rw [unfold] at h
      obtain ⟨xs, hxs, -⟩ := Option.map_eq_some_iff.mp h
      refine ⟨a, fun b hb => ?_⟩
      obtain ⟨s, hs⟩ := (gather_exists_iff _).mp ⟨xs, hxs⟩ b hb
      exact ih b s hs
  · intro h
    induction h with
    | intro a _ ih =>
      have hmono : ∀ b {m n}, m ≤ n → (∃ r, unfold children own m b = some r) →
          ∃ r, unfold children own n b = some r :=
        fun b m n hle h => h.imp fun r => unfold_mono hle
      obtain ⟨depth, hdepth⟩ := exists_for_all hmono ih
      obtain ⟨r, hr⟩ := (gather_exists_iff _).mpr hdepth
      exact ⟨depth + 1, own a ++ r, by rw [unfold, hr, Option.map_some]⟩

/-- What the recursion gives is what stands at the nodes below. -/
theorem mem_unfold {depth : Nat} {a : α} {r : List β}
    (h : unfold children own depth a = some r) (x : β) :
    x ∈ r ↔ ∃ b, Relation.ReflTransGen (Edge children) a b ∧ x ∈ own b := by
  induction depth generalizing a r with
  | zero => cases h
  | succ depth ih =>
    rw [unfold] at h
    obtain ⟨xs, hxs, rfl⟩ := Option.map_eq_some_iff.mp h
    rw [List.mem_append, mem_gather hxs]
    constructor
    · rintro (hx | ⟨b, hb, ys, hys, hx⟩)
      · exact ⟨a, .refl, hx⟩
      · obtain ⟨c, hc, hx⟩ := (ih hys).mp hx
        exact ⟨c, .head hb hc, hx⟩
    · rintro ⟨c, hc, hx⟩
      rcases Relation.ReflTransGen.cases_head hc with rfl | ⟨b, hb, hc⟩
      · exact .inl hx
      · obtain ⟨ys, hys⟩ := (gather_exists_iff _).mp ⟨xs, hxs⟩ b hb
        exact .inr ⟨b, hb, ys, hys, (ih hys).mpr ⟨c, hc, hx⟩⟩

section Chains

/-- A chain of that many edges begins at a node. -/
def Chain (children : α → List α) : Nat → α → Prop
  | 0, _ => True
  | n + 1, a => ∃ b ∈ children a, Chain children n b

/-- The recursion has a result just where no chain is as long as it may be deep. -/
theorem unfold_exists_iff (depth : Nat) (a : α) :
    (∃ r, unfold children own depth a = some r) ↔ ¬Chain children depth a := by
  induction depth generalizing a with
  | zero => simp [unfold, Chain]
  | succ depth ih =>
    have hgather : (∃ r, unfold children own (depth + 1) a = some r) ↔
        ∃ xs, gather (unfold children own depth) (children a) = some xs := by
      simp [unfold, Option.map_eq_some_iff]
    rw [hgather, gather_exists_iff, Chain, not_exists]
    simp only [not_and, ih]

theorem chain_of_succ {n : Nat} {a : α} (h : Chain children (n + 1) a) : Chain children n a := by
  induction n generalizing a with
  | zero => trivial
  | succ n ih =>
    obtain ⟨b, hb, h⟩ := h
    exact ⟨b, hb, ih h⟩

/-- A chain from a node below is one from above, longer by the way down. -/
theorem chain_of_below {n : Nat} {a b : α} (hab : Relation.ReflTransGen (Edge children) a b)
    (h : Chain children n b) : Chain children n a := by
  induction hab using Relation.ReflTransGen.head_induction_on with
  | refl => exact h
  | head hedge _ ih => exact chain_of_succ ⟨_, hedge, ih⟩

/-- From a node that is below itself there are chains of every length. -/
theorem chain_of_cycle {a : α} (h : Relation.TransGen (Edge children) a a) (n : Nat) :
    Chain children n a := by
  obtain ⟨b, hedge, hback⟩ := Relation.TransGen.head'_iff.mp h
  induction n with
  | zero => trivial
  | succ n ih => exact ⟨b, hedge, chain_of_below hback ih⟩

end Chains

/-- Finitely many nodes are below an accessible one. -/
theorem finite_below {a : α} (h : Acc (fun b a => Edge children a b) a) :
    {b | Relation.ReflTransGen (Edge children) a b}.Finite := by
  induction h with
  | intro a _ ih =>
    have hnext : (⋃ b ∈ {b | Edge children a b},
        {c | Relation.ReflTransGen (Edge children) b c}).Finite :=
      (List.finite_toSet (children a)).biUnion fun b hb => ih b hb
    refine ((Set.finite_singleton a).union hnext).subset fun x hx => ?_
    rcases Relation.ReflTransGen.cases_head hx with rfl | ⟨b, hb, hbx⟩
    · exact .inl rfl
    · exact .inr (Set.mem_biUnion hb hbx)

/-- No node below is below itself. -/
def AcyclicFrom (children : α → List α) (a : α) : Prop :=
  ∀ b, Relation.ReflTransGen (Edge children) a b → ¬Relation.TransGen (Edge children) b b

theorem not_rel_of_acc {r : α → α → Prop} {a : α} (h : Acc r a) : ¬r a a := by
  induction h with
  | intro a _ ih => exact fun ha => ih a ha ha

theorem not_acc_of_cycle {a : α} (h : Relation.TransGen (Edge children) a a) :
    ¬Acc (fun b a => Edge children a b) a := by
  intro hacc
  have htrans : Acc (Relation.TransGen fun b a => Edge children a b) a := hacc.transGen
  exact not_rel_of_acc htrans (Relation.transGen_swap.mpr h)

theorem acc_below {a b : α} (hacc : Acc (fun b a => Edge children a b) a)
    (h : Relation.ReflTransGen (Edge children) a b) :
    Acc (fun b a => Edge children a b) b := by
  induction h with
  | refl => exact hacc
  | tail _ hedge ih => exact ih.inv hedge

/-- Where finitely many nodes are below, acyclic is accessible. -/
theorem acc_iff_acyclic {a : α} (hfinite : {b | Relation.ReflTransGen (Edge children) a b}.Finite) :
    Acc (fun b a => Edge children a b) a ↔ AcyclicFrom children a := by
  constructor
  · exact fun hacc b hb hcycle => not_acc_of_cycle hcycle (acc_below hacc hb)
  · intro hacyclic
    have : Finite {b // Relation.ReflTransGen (Edge children) a b} := hfinite
    let Below :=
      fun x y : {b // Relation.ReflTransGen (Edge children) a b} =>
      Relation.TransGen (Edge children) y.1 x.1
    have : IsTrans _ Below := ⟨fun _ _ _ hxy hyz => Relation.TransGen.trans hyz hxy⟩
    have : Std.Irrefl Below := ⟨fun x h => hacyclic x.1 x.2 h⟩
    have hwf : WellFounded Below := Finite.wellFounded_of_trans_of_irrefl Below
    have hall : ∀ x : {b // Relation.ReflTransGen (Edge children) a b},
        Acc (fun b a => Edge children a b) x.1 := by
      intro x
      induction x using hwf.induction with
      | _ x ih => exact ⟨x.1, fun b hb => ih ⟨b, x.2.tail hb⟩ (.single hb)⟩
    exact hall ⟨a, .refl⟩

/-- The recursion ends if and only if no node below is below itself. -/
theorem unfold_terminates_iff_acyclic {own : α → List β} {a : α}
    (hfinite : {b | Relation.ReflTransGen (Edge children) a b}.Finite) :
    (∃ depth r, unfold children own depth a = some r) ↔ AcyclicFrom children a :=
  (unfold_terminates_iff a).trans (acc_iff_acyclic hfinite)

end Unfoldings
