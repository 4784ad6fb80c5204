import Mathlib.Data.ENat.Lattice
import Mathlib.Tactic.Common

/-!
# Calls up to a decisive one

A loop calls again and again until an outcome is decisive, and at most `limit` times. The last
call is then known from the outcomes alone, and what a run of the loop does is proved from the
last call back to the first.
-/
namespace DecisiveCalls

variable {decisive : Nat → Prop} {limit k : Nat}

/-- How many calls the first decisive outcome takes: infinitely many where none is. -/
noncomputable def first (decisive : Nat → Prop) : ℕ∞ := ⨅ n, ⨅ _ : decisive n, ((n + 1 : Nat) : ℕ∞)

/-- Call `k` is the last one. -/
structure Last (decisive : Nat → Prop) (limit k : Nat) : Prop where
  lt : k < limit
  undecided : ∀ m < k, ¬decisive m
  ends : decisive k ∨ k + 1 = limit

theorem exists_last (decisive : Nat → Prop) (h : 0 < limit) : ∃ k, Last decisive limit k := by
  classical
  have hex : ∃ n, decisive n ∨ n + 1 = limit := ⟨limit - 1, .inr (by omega)⟩
  have hbound : Nat.find hex ≤ limit - 1 := Nat.find_min' hex (.inr (by omega))
  refine ⟨Nat.find hex, by omega, ?_, Nat.find_spec hex⟩
  intro m hm hdecisive
  exact Nat.find_min hex hm (.inl hdecisive)

namespace Last

/-- The calls are as many as the first decisive outcome takes, and no more than the limit. -/
theorem count (h : Last decisive limit k) : ((k + 1 : Nat) : ℕ∞) = min (first decisive) limit := by
  have hbelow : ((k + 1 : Nat) : ℕ∞) ≤ first decisive := by
    refine le_iInf fun n => le_iInf fun hn => ?_
    have : k ≤ n := not_lt.mp fun hlt => h.undecided n hlt hn
    exact_mod_cast Nat.succ_le_succ this
  have hlimit : ((k + 1 : Nat) : ℕ∞) ≤ limit := by exact_mod_cast h.lt
  obtain hdecisive | hend := h.ends
  · refine le_antisymm (le_min hbelow hlimit) ((min_le_left _ _).trans ?_)
    exact iInf_le_of_le k (iInf_le _ hdecisive)
  · rw [hend] at hbelow ⊢
    exact (min_eq_right hbelow).symm

/-- The calls before the last one are those that are followed by another and decide nothing. -/
theorem lt_iff (h : Last decisive limit k) (n : Nat) :
    n < k ↔ n + 1 < limit ∧ ∀ m ≤ n, ¬decisive m := by
  have hlt := h.lt
  constructor
  · intro hn
    exact ⟨by omega, fun m hm => h.undecided m (by omega)⟩
  · rintro ⟨hnext, hundecided⟩
    by_contra hge
    obtain hdecisive | hend := h.ends
    · exact hundecided k (by omega) hdecisive
    · omega

/-- What holds at the last call, and before a call that decides nothing whenever it does behind
it, holds at the first. -/
theorem descend {motive : Nat → Prop} (h : Last decisive limit k) (hlast : motive k)
    (hstep : ∀ n < k, ¬decisive n → n + 1 < limit → motive (n + 1) → motive n) : motive 0 := by
  have hall : ∀ n ≤ k, motive n := by
    intro n hn
    induction hn using Nat.decreasingInduction with
    | self => exact hlast
    | of_succ n hn ih =>
      have hlt := h.lt
      exact hstep n hn (h.undecided n hn) (by omega) ih
  exact hall 0 (Nat.zero_le k)

end Last

end DecisiveCalls
