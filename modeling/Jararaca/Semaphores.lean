import Mathlib.Data.List.Basic

/-!
# Counting semaphores, made on demand

A counting semaphore and a table that makes one for each key at its first use. Who
holds a permit is not the table's business: a consistent table is one whose values
and the number of holders of each semaphore, counted elsewhere, add up to its capacity.
-/
namespace Semaphores

variable {κ : Type}

/-- A counting semaphore, with the key it was made for. -/
structure Semaphore (κ : Type) where
  key : κ
  capacity : Nat
  value : Nat

namespace Semaphore

def acquire (s : Semaphore κ) : Option (Semaphore κ) :=
  if 0 < s.value then some { s with value := s.value - 1 } else none

def release (s : Semaphore κ) : Semaphore κ := { s with value := s.value + 1 }

theorem acquire_eq {s t : Semaphore κ} (h : s.acquire = some t) :
    0 < s.value ∧ t = { s with value := s.value - 1 } := by
  unfold acquire at h
  split at h
  · rename_i hpos
    exact ⟨hpos, (Option.some.inj h).symm⟩
  · cases h

end Semaphore

/-- Every semaphore ever made, and the place of the one in use for each key. -/
structure Table (κ : Type) where
  made : List (Semaphore κ) := []
  current : κ → Option Nat := fun _ => none

namespace Table

/-- Look the key up, and make its semaphore where there is none. -/
def get [DecidableEq κ] (t : Table κ) (k : κ) (capacity : Nat) : Table κ × Nat :=
  match t.current k with
  | some i => (t, i)
  | none =>
    ({ made := t.made ++ [⟨k, capacity, capacity⟩]
       current := Function.update t.current k (some t.made.length) }, t.made.length)

/-- The semaphore at place `i` becomes `s`. -/
def put (t : Table κ) (i : Nat) (s : Semaphore κ) : Table κ := { t with made := t.made.set i s }

/-- A table whose semaphores are the current ones of their keys, with the capacity the
key asks for and `holders i` permits of the `i`-th one given out. -/
structure Consistent (capacity : κ → Nat) (holders : Nat → Nat) (t : Table κ) : Prop where
  current : ∀ k i, t.current k = some i → ∃ s, t.made[i]? = some s ∧ s.key = k
  made : ∀ i s, t.made[i]? = some s → t.current s.key = some i ∧ s.capacity = capacity s.key
  balanced : ∀ i s, t.made[i]? = some s → s.value + holders i = s.capacity

variable {capacity : κ → Nat} {holders : Nat → Nat} {t : Table κ}

theorem empty_consistent : Consistent capacity (fun _ => 0) ({} : Table κ) := by
  constructor
  · intro k i h
    cases h
  · intro i s h
    simp at h
  · intro i s h
    simp at h

/-- A key has one semaphore at most. -/
theorem Consistent.unique (h : Consistent capacity holders t) {i j : Nat} {a b : Semaphore κ}
    (hi : t.made[i]? = some a) (hj : t.made[j]? = some b) (hkey : a.key = b.key) : i = j := by
  have hcurrent := (h.made i a hi).1
  rw [hkey, (h.made j b hj).1] at hcurrent
  exact (Option.some.inj hcurrent).symm

theorem Consistent.holders_le (h : Consistent capacity holders t) {i : Nat} {s : Semaphore κ}
    (hi : t.made[i]? = some s) : holders i ≤ capacity s.key := by
  have hbalanced := h.balanced i s hi
  have hcapacity := (h.made i s hi).2
  omega

/-- A semaphore that nobody holds has its full value. -/
theorem Consistent.free (h : Consistent capacity holders t) {i : Nat} {s : Semaphore κ}
    (hi : t.made[i]? = some s) (hnone : holders i = 0) : s.value = capacity s.key := by
  have hbalanced := h.balanced i s hi
  have hcapacity := (h.made i s hi).2
  omega

section Get

variable [DecidableEq κ] (k : κ) (n : Nat)

theorem get_keeps {i : Nat} {s : Semaphore κ} (h : t.made[i]? = some s) :
    (t.get k n).1.made[i]? = some s := by
  unfold get
  split
  · exact h
  · have hi : i < t.made.length := (List.getElem?_eq_some_iff.mp h).1
    simpa [List.getElem?_append_left hi] using h

/-- The place returned holds a semaphore of the key. -/
theorem get_found (h : Consistent capacity holders t) :
    ∃ s, (t.get k n).1.made[(t.get k n).2]? = some s ∧ s.key = k := by
  unfold get
  split
  · rename_i i hi
    exact h.current k i hi
  · exact ⟨⟨k, n, n⟩, by simp, rfl⟩

/-- Looking a key up keeps the table consistent; nobody may hold a permit of a semaphore
that is not there yet. -/
theorem Consistent.get (h : Consistent capacity holders t) (hn : n = capacity k)
    (hnone : holders t.made.length = 0) : Consistent capacity holders (t.get k n).1 := by
  cases hcur : t.current k with
  | some i =>
    have hsame : (t.get k n).1 = t := by simp [Table.get, hcur]
    rw [hsame]
    exact h
  | none =>
    have hget : (t.get k n).1 = ⟨t.made ++ [⟨k, n, n⟩],
        Function.update t.current k (some t.made.length)⟩ := by simp [Table.get, hcur]
    rw [hget]
    -- a place of the longer list is an old one, or the new one
    have hplace : ∀ i s, (t.made ++ [⟨k, n, n⟩])[i]? = some s →
        t.made[i]? = some s ∨ (i = t.made.length ∧ s = ⟨k, n, n⟩) := by
      intro i s hs
      rw [List.getElem?_append] at hs
      split at hs
      · exact .inl hs
      · rename_i hle
        obtain ⟨hi, hs⟩ := List.getElem?_eq_some_iff.mp hs
        have hi' : i - t.made.length = 0 := by simpa using hi
        exact .inr ⟨by omega, by simpa [hi'] using hs.symm⟩
    constructor
    · intro k' i hi
      by_cases hk : k' = k
      · subst hk
        have hplace' : t.made.length = i := by simpa using hi
        exact ⟨⟨k', n, n⟩, by simp [← hplace'], rfl⟩
      · replace hi : t.current k' = some i := by simpa [hk] using hi
        obtain ⟨s, hs, hkey⟩ := h.current k' i hi
        have hlt : i < t.made.length := (List.getElem?_eq_some_iff.mp hs).1
        exact ⟨s, by simpa [List.getElem?_append_left hlt] using hs, hkey⟩
    · intro i s hs
      obtain hold | ⟨rfl, rfl⟩ := hplace i s hs
      · obtain ⟨hcurrent, hcapacity⟩ := h.made i s hold
        have hne : s.key ≠ k := by
          rintro rfl
          rw [hcur] at hcurrent
          cases hcurrent
        exact ⟨by simpa [hne] using hcurrent, hcapacity⟩
      · exact ⟨by simp, hn⟩
    · intro i s hs
      obtain hold | ⟨rfl, rfl⟩ := hplace i s hs
      · exact h.balanced i s hold
      · rw [hnone, Nat.add_zero]

end Get

/-- A semaphore takes a value, and its holders the rest. -/
theorem Consistent.put (h : Consistent capacity holders t) {i : Nat} {s : Semaphore κ}
    (hi : t.made[i]? = some s) {value : Nat} {after : Nat → Nat}
    (hbalanced : value + after i = s.capacity) (hother : ∀ j, j ≠ i → after j = holders j) :
    Consistent capacity after (t.put i { s with value := value }) := by
  have hlt : i < t.made.length := (List.getElem?_eq_some_iff.mp hi).1
  have hplace : ∀ j, (t.put i { s with value := value }).made[j]? =
      if j = i then some { s with value := value } else t.made[j]? := by
    intro j
    simp only [Table.put, List.getElem?_set, hlt, if_true, eq_comm]
  constructor
  · intro k j hj
    obtain ⟨s', hs', hkey⟩ := h.current k j hj
    rw [hplace]
    split
    · rename_i heq
      rw [heq, hi] at hs'
      cases hs'
      exact ⟨_, rfl, hkey⟩
    · exact ⟨s', hs', hkey⟩
  · intro j s' hs'
    rw [hplace] at hs'
    split at hs'
    · rename_i heq
      cases hs'
      rw [heq]
      exact h.made i s hi
    · exact h.made j s' hs'
  · intro j s' hs'
    rw [hplace] at hs'
    split at hs'
    · rename_i heq
      cases hs'
      rw [heq]
      exact hbalanced
    · rename_i hne
      rw [hother j hne]
      exact h.balanced j s' hs'

end Table

end Semaphores
