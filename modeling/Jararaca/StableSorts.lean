import Mathlib.Order.Lattice
import Mathlib.Data.List.Perm.Basic
import Mathlib.Tactic.Common

/-!
# Stable sorts

A list sorted by a key. The elements of one key stay as they were, and the list is made of those
with smaller keys, those with a key and those with greater keys.
-/
namespace StableSorts

variable {α κ : Type} [LinearOrder κ] (key : α → κ)

def sortBy (l : List α) : List α := l.mergeSort fun a b => decide (key a ≤ key b)

theorem key_trans (a b c : α) (hab : decide (key a ≤ key b) = true)
    (hbc : decide (key b ≤ key c) = true) :
    decide (key a ≤ key c) = true :=
  decide_eq_true ((of_decide_eq_true hab).trans (of_decide_eq_true hbc))

theorem key_total (a b : α) : (decide (key a ≤ key b) || decide (key b ≤ key a)) = true := by
  simpa using le_total (key a) (key b)

theorem sortBy_perm (l : List α) : (sortBy key l).Perm l := List.mergeSort_perm ..

theorem pairwise_sortBy (l : List α) : (sortBy key l).Pairwise fun a b => key a ≤ key b :=
  (List.pairwise_mergeSort (key_trans key) (key_total key) l).imp of_decide_eq_true

/-- The elements of one key keep their order. -/
theorem filter_sortBy (k : κ) (l : List α) :
    (sortBy key l).filter (fun a => decide (key a = k)) = l.filter fun a => decide (key a = k) := by
  have htied : (l.filter fun a => decide (key a = k)).Pairwise fun a b =>
      decide (key a ≤ key b) = true := by
    refine List.pairwise_of_forall_mem_list fun a ha b hb => decide_eq_true ?_
    rw [of_decide_eq_true (List.mem_filter.1 ha).2, of_decide_eq_true (List.mem_filter.1 hb).2]
  have hsub :=
    (List.sublist_mergeSort (key_trans key) (key_total key) htied List.filter_sublist).filter
    fun a => decide (key a = k)
  simp only [List.filter_filter, Bool.and_self] at hsub
  exact (hsub.eq_of_length_le (Nat.le_of_eq ((sortBy_perm key l).filter _).length_eq)).symm

/-- Two elements of one key stand in a sorted list as they stood before. -/
theorem pair_sublist_of_sortBy {l : List α} {a b : α} (h : [a, b].Sublist (sortBy key l))
    (hkey : key a = key b) :
    [a, b].Sublist l := by
  have hfilter := h.filter fun c => decide (key c = key b)
  rw [filter_sortBy] at hfilter
  have hpair : [a, b].filter (fun c => decide (key c = key b)) = [a, b] := by simp [hkey]
  rw [hpair] at hfilter
  exact hfilter.trans List.filter_sublist

/-- A sorted list in three parts. -/
theorem eq_three_parts {l : List α} (h : l.Pairwise fun a b => key a ≤ key b) (k : κ) :
    l = (l.filter fun a => decide (key a < k)) ++ (l.filter fun a => decide (key a = k)) ++
      l.filter fun a => decide (k < key a) := by
  induction l with
  | nil => rfl
  | cons a l ih =>
    obtain ⟨ha, hl⟩ := List.pairwise_cons.1 h
    rcases lt_trichotomy (key a) k with hlt | heq | hgt
    · have hne : ¬key a = k := hlt.ne
      simpa [hlt, hne, hlt.not_gt] using ih hl
    · have hsmaller : l.filter (fun b => decide (key b < k)) = [] :=
        List.filter_eq_nil_iff.2 fun b hb hlt =>
          absurd (of_decide_eq_true hlt) (heq ▸ ha b hb).not_gt
      have := ih hl
      rw [hsmaller, List.nil_append] at this
      simpa [heq, hsmaller] using this
    · have hnone : ∀ b ∈ l, k < key b := fun b hb => hgt.trans_le (ha b hb)
      have hsmaller : l.filter (fun b => decide (key b < k)) = [] :=
        List.filter_eq_nil_iff.2 fun b hb hlt => absurd (of_decide_eq_true hlt) (hnone b hb).not_gt
      have hsame : l.filter (fun b => decide (key b = k)) = [] :=
        List.filter_eq_nil_iff.2 fun b hb heq => absurd (of_decide_eq_true heq) (hnone b hb).ne'
      have hgreater : l.filter (fun b => decide (k < key b)) = l :=
        List.filter_eq_self.2 fun b hb => decide_eq_true (hnone b hb)
      simp [hgt, hgt.not_gt, hgt.ne', hsmaller, hsame, hgreater]

end StableSorts
