import Mathlib.Data.Prod.Lex
import Mathlib.Data.List.Nodup

/-!
# Sorted sets

A finite set of members, each with one score, read in the order of score and then
member. Both orders are arbitrary linear orders. A value carries that its entries are
in order and that no member has two scores, so the operations below need no side
conditions.
-/
namespace SortedSets

variable {α β : Type}

def score (e : α ×ₗ β) : α := (ofLex e).1

def member (e : α ×ₗ β) : β := (ofLex e).2

@[simp] theorem score_toLex (s : α) (m : β) : score (toLex (s, m)) = s := rfl
@[simp] theorem member_toLex (s : α) (m : β) : member (toLex (s, m)) = m := rfl

variable [LinearOrder α] [LinearOrder β]

structure ZSet (α β : Type) [LinearOrder α] [LinearOrder β] where
  entries : List (α ×ₗ β)
  sorted : entries.Pairwise (· < ·)
  unique : ∀ p ∈ entries, ∀ q ∈ entries, member p = member q → p = q

/-- When an update of a member that is there takes effect. -/
inductive Update where
  | always | greater | lesser
  deriving DecidableEq, Repr

/-- The score an update leaves, from the one that was there. -/
def Update.leaves (u : Update) (old : Option α) (s : α) : α :=
  match old, u with
  | some old, .greater => max old s
  | some old, .lesser => min old s
  | _, _ => s

namespace ZSet

def empty : ZSet α β := ⟨[], List.Pairwise.nil, by simp⟩

def members (z : ZSet α β) : List β := z.entries.map member

def keep (z : ZSet α β) (p : α ×ₗ β → Bool) : ZSet α β where
  entries := z.entries.filter p
  sorted := z.sorted.filter p
  unique a ha b hb := z.unique a (List.mem_of_mem_filter ha) b (List.mem_of_mem_filter hb)

def remove (z : ZSet α β) (m : β) : ZSet α β := z.keep fun e => decide (member e ≠ m)

/-- Put a member at a score, whether it is there or not. -/
def add (z : ZSet α β) (s : α) (m : β) : ZSet α β where
  entries := ((z.remove m).entries.filter (· < toLex (s, m))) ++
    toLex (s, m) :: ((z.remove m).entries.filter (toLex (s, m) < ·))
  sorted := by
    have hlow : ∀ e ∈ (z.remove m).entries.filter (· < toLex (s, m)), e < toLex (s, m) := by
      intro e he
      simpa using (List.mem_filter.mp he).2
    have hhigh : ∀ e ∈ (z.remove m).entries.filter (toLex (s, m) < ·), toLex (s, m) < e := by
      intro e he
      simpa using (List.mem_filter.mp he).2
    refine List.pairwise_append.mpr ⟨(z.remove m).sorted.filter _,
      List.pairwise_cons.mpr ⟨hhigh, (z.remove m).sorted.filter _⟩, ?_⟩
    intro a ha b hb
    obtain rfl | hb := List.mem_cons.mp hb
    · exact hlow a ha
    · exact (hlow a ha).trans (hhigh b hb)
  unique := by
    have hold : ∀ e, e ∈ (z.remove m).entries → e ∈ z.entries ∧ member e ≠ m := by
      intro e he
      obtain ⟨hmem, hne⟩ := List.mem_filter.mp he
      exact ⟨hmem, by simpa using hne⟩
    have hmem : ∀ e ∈ ((z.remove m).entries.filter (· < toLex (s, m))) ++
        toLex (s, m) :: ((z.remove m).entries.filter (toLex (s, m) < ·)),
        e = toLex (s, m) ∨ (e ∈ z.entries ∧ member e ≠ m) := by
      intro e he
      obtain he | he := List.mem_append.mp he
      · exact .inr (hold e (List.mem_of_mem_filter he))
      · obtain rfl | he := List.mem_cons.mp he
        · exact .inl rfl
        · exact .inr (hold e (List.mem_of_mem_filter he))
    intro p hp q hq heq
    obtain rfl | ⟨hp, hpm⟩ := hmem p hp
    · obtain rfl | ⟨-, hqm⟩ := hmem q hq
      · rfl
      · exact absurd heq.symm hqm
    · obtain rfl | ⟨hq, -⟩ := hmem q hq
      · exact absurd heq hpm
      · exact z.unique p hp q hq heq

def score? (z : ZSet α β) (m : β) : Option α :=
  (z.entries.find? fun e => decide (member e = m)).map score

/-- `ZADD` with no option, with `GT` or with `LT`: a new member is always added. -/
def upsert (z : ZSet α β) (u : Update) (s : α) (m : β) : ZSet α β :=
  match z.score? m, u with
  | some old, .greater => if old < s then z.add s m else z
  | some old, .lesser => if s < old then z.add s m else z
  | _, _ => z.add s m

def upTo (z : ZSet α β) (max : α) : List (α ×ₗ β) :=
  z.entries.filter fun e => decide (score e ≤ max)

def rangeByScore (z : ZSet α β) (max : α) (limit : Nat) : List (α ×ₗ β) := (z.upTo max).take limit

section Facts

variable {z : ZSet α β} {e : α ×ₗ β} {s : α} {m : β} {u : Update}

theorem mem_members : m ∈ z.members ↔ ∃ s, toLex (s, m) ∈ z.entries := by
  rw [members, List.mem_map]
  constructor
  · rintro ⟨e, he, rfl⟩
    exact ⟨score e, he⟩
  · rintro ⟨s, hs⟩
    exact ⟨toLex (s, m), hs, rfl⟩

/-- A member is in the set once. -/
theorem members_nodup (z : ZSet α β) : z.members.Nodup := by
  have hnodup : z.entries.Nodup := z.sorted.imp fun h => h.ne
  refine List.Nodup.map_on ?_ hnodup
  intro a ha b hb heq
  exact z.unique a ha b hb heq

@[simp] theorem mem_remove : e ∈ (z.remove m).entries ↔ e ∈ z.entries ∧ member e ≠ m := by
  simp [remove, keep]

@[simp] theorem mem_add :
    e ∈ (z.add s m).entries ↔ e = toLex (s, m) ∨ (e ∈ z.entries ∧ member e ≠ m) := by
  simp only [add, List.mem_append, List.mem_cons, List.mem_filter, mem_remove, decide_eq_true_eq]
  constructor
  · rintro (⟨h, -⟩ | rfl | ⟨h, -⟩)
    · exact .inr h
    · exact .inl rfl
    · exact .inr h
  · rintro (rfl | h)
    · exact .inr (.inl rfl)
    · have hne : e ≠ toLex (s, m) := by
        rintro rfl
        exact h.2 rfl
      obtain hlt | hgt := lt_or_gt_of_ne hne
      · exact .inl ⟨h, hlt⟩
      · exact .inr (.inr ⟨h, hgt⟩)

/-- The score of a member is that of its entry. -/
theorem score?_eq_some : z.score? m = some s ↔ toLex (s, m) ∈ z.entries := by
  unfold score?
  constructor
  · intro h
    obtain ⟨e, he, rfl⟩ := Option.map_eq_some_iff.mp h
    have hm : member e = m := by simpa using List.find?_some he
    rw [← hm]
    exact List.mem_of_find?_eq_some he
  · intro h
    cases hf : z.entries.find? fun e => decide (member e = m) with
    | none =>
      have hnone := List.find?_eq_none.mp hf _ h
      simp at hnone
    | some e =>
      have hm : member e = m := by simpa using List.find?_some hf
      rw [z.unique e (List.mem_of_find?_eq_some hf) _ h hm]
      rfl

/-- A member that has a score has one entry. -/
theorem filter_member (h : z.score? m = some s) :
    z.entries.filter (fun e => decide (member e = m)) = [toLex (s, m)] := by
  have hmem := score?_eq_some.mp h
  have hnodup : z.entries.Nodup := z.sorted.imp fun hlt => hlt.ne
  refine List.perm_singleton.mp ?_
  rw [List.perm_ext_iff_of_nodup (hnodup.filter _) (List.nodup_singleton _)]
  intro e
  rw [List.mem_filter, List.mem_singleton, decide_eq_true_eq]
  constructor
  · intro he
    exact z.unique e he.1 _ hmem he.2
  · rintro rfl
    exact ⟨hmem, rfl⟩

/-- An update changes no other member. -/
theorem mem_upsert_other (h : member e ≠ m) : e ∈ (z.upsert u s m).entries ↔ e ∈ z.entries := by
  have hne : e ≠ toLex (s, m) := by
    rintro rfl
    exact h rfl
  have hadd : e ∈ (z.add s m).entries ↔ e ∈ z.entries := by simp [hne, h]
  unfold upsert
  split
  · split
    · exact hadd
    · exact Iff.rfl
  · split
    · exact hadd
    · exact Iff.rfl
  · exact hadd

/-- A member is there after an update. -/
theorem mem_members_upsert : m ∈ (z.upsert u s m).members := by
  have hadd : m ∈ (z.add s m).members := mem_members.mpr ⟨s, by simp⟩
  have hold : ∀ old, z.score? m = some old → m ∈ z.members :=
    fun old h => mem_members.mpr ⟨old, score?_eq_some.mp h⟩
  unfold upsert
  split
  · next old hs =>
    split
    · exact hadd
    · exact hold old hs
  · next old hs =>
    split
    · exact hadd
    · exact hold old hs
  · exact hadd

/-- A member that was not there is added at its score, whatever the option. -/
theorem upsert_new (h : m ∉ z.members) : z.upsert u s m = z.add s m := by
  have hnone : z.score? m = none := by
    cases hs : z.score? m with
    | none => rfl
    | some old => exact absurd (mem_members.mpr ⟨old, score?_eq_some.mp hs⟩) h
  unfold upsert
  rw [hnone]

/-- What an update leaves as the score of its member. -/
theorem score?_upsert : (z.upsert u s m).score? m = some (u.leaves (z.score? m) s) := by
  have hadd : (z.add s m).score? m = some s := score?_eq_some.mpr (by simp)
  unfold upsert
  cases hold : z.score? m with
  | none => exact hadd
  | some old =>
    cases u with
    | always => exact hadd
    | greater =>
      simp only [Update.leaves]
      split
      · rename_i hlt
        rw [hadd, max_eq_right hlt.le]
      · rename_i hge
        rw [hold, max_eq_left (not_lt.mp hge)]
    | lesser =>
      simp only [Update.leaves]
      split
      · rename_i hlt
        rw [hadd, min_eq_right hlt.le]
      · rename_i hge
        rw [hold, min_eq_left (not_lt.mp hge)]

theorem upsert_always : z.upsert .always s m = z.add s m := by
  unfold upsert
  split <;> simp_all

/-- A set with no other member is the one that was put. -/
theorem add_only (h : ∀ e ∈ z.entries, member e = m) : (z.add s m).entries = [toLex (s, m)] := by
  have hnone : (z.remove m).entries = [] := by
    rw [remove, keep, List.filter_eq_nil_iff]
    intro e he
    simp [h e he]
  simp [add, hnone]

/-- An upsert adds its member and takes none away. -/
theorem members_upsert {m' : β} : m' ∈ (z.upsert u s m).members ↔ m' = m ∨ m' ∈ z.members := by
  by_cases h : m' = m
  · subst h
    exact iff_of_true mem_members_upsert (.inl rfl)
  · simp only [h, false_or, mem_members]
    constructor
    · rintro ⟨s', hs'⟩
      exact ⟨s', (mem_upsert_other (by simpa using h)).mp hs'⟩
    · rintro ⟨s', hs'⟩
      exact ⟨s', (mem_upsert_other (by simpa using h)).mpr hs'⟩

end Facts

section Ranges

variable {z : ZSet α β} {e : α ×ₗ β} {max : α} {limit : Nat}

@[simp] theorem mem_upTo : e ∈ z.upTo max ↔ e ∈ z.entries ∧ score e ≤ max := by simp [upTo]

theorem mem_rangeByScore (h : e ∈ z.rangeByScore max limit) : e ∈ z.entries ∧ score e ≤ max :=
  mem_upTo.mp (List.mem_of_mem_take h)

theorem rangeByScore_length :
    (z.rangeByScore max limit).length = min limit (z.upTo max).length := by
  simp [rangeByScore]

/-- The range is the front of the due entries: what is due and left out comes later. -/
theorem rangeByScore_first {e' : α ×ₗ β} (h : e ∈ z.rangeByScore max limit) (h' : e' ∈ z.upTo max)
    (hnot : e' ∉ z.rangeByScore max limit) : e < e' := by
  have hsorted : (z.upTo max).Pairwise (· < ·) := z.sorted.filter _
  have hsplit := List.take_append_drop limit (z.upTo max)
  rw [← hsplit] at hsorted h'
  obtain hmem | hmem := List.mem_append.mp h'
  · exact absurd hmem hnot
  · exact (List.pairwise_append.mp hsorted).2.2 e h e' hmem

/-- Removing the members of a list of entries of the set. -/
def removeAll (z : ZSet α β) (ms : List β) : ZSet α β := ms.foldl remove z

@[simp] theorem mem_removeAll {ms : List β} :
    e ∈ (z.removeAll ms).entries ↔ e ∈ z.entries ∧ member e ∉ ms := by
  induction ms generalizing z with
  | nil => simp [removeAll]
  | cons m ms ih =>
    have hstep : z.removeAll (m :: ms) = (z.remove m).removeAll ms := rfl
    rw [hstep, ih, mem_remove, List.mem_cons, not_or, and_assoc]

theorem removeAll_entries (ms : List β) :
    (z.removeAll ms).entries = z.entries.filter fun e => decide (member e ∉ ms) := by
  induction ms generalizing z with
  | nil => simp [removeAll]
  | cons m ms ih =>
    have hstep : z.removeAll (m :: ms) = (z.remove m).removeAll ms := rfl
    rw [hstep, ih]
    simp only [remove, keep, List.filter_filter]
    congr 1
    funext e
    by_cases hm : member e = m <;> simp [hm]

/-- Where everything is due, a claim takes the front off. -/
theorem removeAll_range_late (hlate : ∀ e ∈ z.entries, score e ≤ max) :
    (z.removeAll ((z.rangeByScore max limit).map member)).entries = z.entries.drop limit := by
  have hall : z.upTo max = z.entries := by
    rw [upTo, List.filter_eq_self]
    intro e he
    simpa using hlate e he
  have hnodup : z.entries.Nodup := z.sorted.imp fun h => h.ne
  have hsplit := List.take_append_drop limit z.entries
  rw [removeAll_entries, rangeByScore, hall]
  have hfront : (z.entries.take limit).filter
      (fun e => decide (member e ∉ (z.entries.take limit).map member)) = [] := by
    rw [List.filter_eq_nil_iff]
    intro e he
    have hmem : member e ∈ (z.entries.take limit).map member := List.mem_map_of_mem he
    simpa using hmem
  have hback : (z.entries.drop limit).filter
      (fun e => decide (member e ∉ (z.entries.take limit).map member)) = z.entries.drop limit := by
    rw [List.filter_eq_self]
    intro e he
    have hnot : member e ∉ (z.entries.take limit).map member := by
      intro hmem
      obtain ⟨e', he', heq⟩ := List.mem_map.mp hmem
      have hsame := z.unique e' (List.mem_of_mem_take he') e (List.mem_of_mem_drop he) heq
      have hdisjoint := List.disjoint_take_drop hnodup (le_refl limit)
      exact hdisjoint he' (hsame ▸ he)
    simpa using hnot
  conv_lhs => rw [← hsplit]
  rw [List.filter_append]
  simp only [hsplit, hfront, hback, List.nil_append]

end Ranges

end ZSet

end SortedSets
