import Mathlib.Data.Multiset.AddSub
import Mathlib.Data.Set.Insert

/-!
# Things in exactly one place

Several places, each with a multiset of things. Things move from place to place and new
ones come in; what is known to be in exactly one place stays in exactly one place.
-/
namespace Placements

variable {η κ : Type} [DecidableEq η] [DecidableEq κ]

/-- `a` is held once, at `p`, and nowhere else. -/
def OnceAt (held : η → Multiset κ) (a : κ) (p : η) : Prop :=
  ∀ q, (held q).count a = if q = p then 1 else 0

def Nowhere (held : η → Multiset κ) (a : κ) : Prop := ∀ q, (held q).count a = 0

/-- Everything known is in exactly one place, and nothing else is anywhere. -/
structure Conserved (held : η → Multiset κ) (known : Set κ) : Prop where
  once : ∀ a ∈ known, ∃ p, OnceAt held a p
  nowhere : ∀ a, a ∉ known → Nowhere held a

/-- `m` comes to `p`. -/
structure Added (p : η) (m : Multiset κ) (held held' : η → Multiset κ) : Prop where
  given : held' p = m + held p
  others : ∀ r, r ≠ p → held' r = held r

/-- `m` goes from `p` to `q`. -/
structure Moved (p q : η) (m : Multiset κ) (held held' : η → Multiset κ) : Prop where
  taken : held p = m + held' p
  given : held' q = m + held q
  others : ∀ r, r ≠ p → r ≠ q → held' r = held r

variable {held held' : η → Multiset κ} {known : Set κ} {m : Multiset κ} {p q : η} {a : κ}

theorem OnceAt.count_self (h : OnceAt held a p) : (held p).count a = 1 := by simp [h p]

theorem OnceAt.count_other (h : OnceAt held a p) (hne : q ≠ p) : (held q).count a = 0 := by
  simp [h q, hne]

omit [DecidableEq η] in
theorem Added.count (h : Added p m held held') (hm : m.count a = 0) (r : η) :
    (held' r).count a = (held r).count a := by
  by_cases hr : r = p
  · rw [hr, h.given, Multiset.count_add, hm, Nat.zero_add]
  · rw [h.others r hr]

omit [DecidableEq η] in
theorem Moved.count (h : Moved p q m held held') (hm : m.count a = 0) (r : η) :
    (held' r).count a = (held r).count a := by
  by_cases hp : r = p
  · rw [hp, h.taken, Multiset.count_add, hm, Nat.zero_add]
  · by_cases hq : r = q
    · rw [hq, h.given, Multiset.count_add, hm, Nat.zero_add]
    · rw [h.others r hp hq]

/-- A thing that was nowhere comes to one place. -/
theorem Added.onceAt (h : Added p {a} held held') (hno : Nowhere held a) : OnceAt held' a p := by
  intro r
  by_cases hr : r = p
  · rw [hr, h.given, Multiset.count_add, hno p]
    simp
  · rw [h.others r hr, hno r]
    simp [hr]

/-- What moves was at its first place and is then at its last one; the rest stays. -/
theorem Moved.onceAt (h : Moved p q m held held') (hne : p ≠ q) {r : η} (hr : OnceAt held a r) :
    ∃ r', OnceAt held' a r' := by
  by_cases hm : m.count a = 0
  · refine ⟨r, ?_⟩
    intro t
    rw [h.count hm, hr t]
  · have htaken : (held p).count a = m.count a + (held' p).count a := by
      rw [h.taken, Multiset.count_add]
    have hrp : p = r := by
      by_contra hother
      have hzero := hr.count_other hother
      omega
    subst hrp
    have hone := hr.count_self
    refine ⟨q, ?_⟩
    intro t
    by_cases htq : t = q
    · rw [htq, h.given, Multiset.count_add, hr.count_other hne.symm, if_pos rfl]
      omega
    · rw [if_neg htq]
      by_cases htp : t = p
      · rw [htp]
        omega
      · rw [h.others t htp htq, hr.count_other htp]

theorem Conserved.moved (hc : Conserved held known) (h : Moved p q m held held') (hne : p ≠ q) :
    Conserved held' known where
  once a ha := by
    obtain ⟨r, hr⟩ := hc.once a ha
    exact h.onceAt hne hr
  nowhere a ha r := by
    have hzero : m.count a = 0 := by
      have htaken : (held p).count a = m.count a + (held' p).count a := by
        rw [h.taken, Multiset.count_add]
      have hnone := hc.nowhere a ha p
      omega
    rw [h.count hzero, hc.nowhere a ha r]

theorem Conserved.added (hc : Conserved held known) (hnew : a ∉ known)
    (h : Added p {a} held held') :
    Conserved held' (insert a known) where
  once b hb := by
    by_cases hba : b = a
    · rw [hba]
      exact ⟨p, h.onceAt (hc.nowhere a hnew)⟩
    · obtain ⟨r, hr⟩ := hc.once b (Set.mem_of_mem_insert_of_ne hb hba)
      refine ⟨r, ?_⟩
      intro t
      rw [h.count (by simp [hba]), hr t]
  nowhere b hb r := by
    have hba : b ≠ a := by
      rintro rfl
      exact hb (Set.mem_insert b known)
    have hold : b ∉ known := fun hmem => hb (Set.mem_insert_of_mem a hmem)
    rw [h.count (by simp [hba]), hc.nowhere b hold r]

end Placements
