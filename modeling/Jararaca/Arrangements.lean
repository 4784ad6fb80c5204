import Mathlib.Data.List.Nodup
import Mathlib.Data.List.Perm.Basic
import Mathlib.Data.List.Range
import Mathlib.Tactic.Common

/-!
# Sorted arrangements of tied elements

A total preorder leaves open how tied elements are arranged. What is sure of an arrangement is
where one group of ties ends and the next begins: up to there every arrangement has the same
elements. So pages cut from different arrangements fit together where no page ends inside of a
group of ties.
-/
namespace Arrangements

variable {ρ : Type}

/-- The elements of a list in an order that a relation allows. -/
structure Arranges (le : ρ → ρ → Prop) (rows l : List ρ) : Prop where
  perm : l.Perm rows
  sorted : l.Pairwise le

def pageOf (size : Nat) (l : List ρ) (page : Nat) : List ρ := (l.drop (page * size)).take size

theorem take_append_pageOf (size : Nat) (l : List ρ) (page : Nat) :
    l.take (page * size) ++ pageOf size l page = l.take ((page + 1) * size) := by
  rw [pageOf, Nat.succ_mul, List.take_add]

section Preorder

variable {le : ρ → ρ → Prop} {rows l l' : List ρ}

/-- The elements before a place, where the one at it is not tied with the one before. -/
def Divides (le : ρ → ρ → Prop) (l : List ρ) (place : Nat) : Prop :=
  ∀ a b, l[place - 1]? = some a → l[place]? = some b → ¬le b a

/-- A set of a sorted list that holds whatever comes before its elements is a beginning of it. -/
theorem filter_append_filter {p : ρ → Bool} (hl : l.Pairwise le)
    (hdown : ∀ x y, le x y → p y = true → p x = true) :
    l.filter p ++ l.filter (fun x => !p x) = l := by
  induction l with
  | nil => rfl
  | cons x l ih =>
    obtain ⟨hx, hrest⟩ := List.pairwise_cons.mp hl
    cases hpx : p x with
    | true => simp [hpx, ih hrest]
    | false =>
      have hnone : ∀ y ∈ l, p y = false := by
        intro y hy
        cases hpy : p y with
        | false => rfl
        | true => rw [hdown x y (hx y hy) hpy] at hpx; cases hpx
      have hempty : l.filter p = [] := List.filter_eq_nil_iff.mpr fun y hy => by simp [hnone y hy]
      have hall : l.filter (fun y => !p y) = l :=
        List.filter_eq_self.mpr fun y hy => by simp [hnone y hy]
      simp [hpx, hempty, hall]

variable (htotal : ∀ a b, le a b ∨ le b a) (htrans : ∀ a b c, le a b → le b c → le a c)

include htotal htrans in
/-- Up to a place where no tie goes across, every arrangement has the same elements. -/
theorem take_perm (h : Arranges le rows l) (h' : Arranges le rows l') {place : Nat}
    (hplace : 0 < place)
    (hdivides : Divides le l place) : (l.take place).Perm (l'.take place) := by
  have hperm : l.Perm l' := h.perm.trans h'.perm.symm
  obtain hlt | hge := Nat.lt_or_ge place l.length
  · classical
    have hb : l[place]? = some l[place] := List.getElem?_eq_getElem hlt
    have ha : l[place - 1]? = some l[place - 1] := List.getElem?_eq_getElem (by omega)
    have hnot : ¬le l[place] l[place - 1] := hdivides _ _ ha hb
    generalize hbdef : l[place] = b at hb hnot
    -- what is not tied with `b` or after it
    let p : ρ → Bool := fun x => !decide (le b x)
    have hdown : ∀ x y, le x y → p y = true → p x = true := by
      intro x y hxy hy
      simp only [p, Bool.not_eq_true', decide_eq_false_iff_not] at hy ⊢
      exact fun hbx => hy (htrans b x y hbx hxy)
    have hbefore : ∀ x ∈ l.take place, p x = true := by
      intro x hx
      obtain ⟨i, hi, rfl⟩ := List.getElem_of_mem hx
      have hi' : i < place := by
        rw [List.length_take] at hi
        omega
      simp only [p, Bool.not_eq_true', decide_eq_false_iff_not, List.getElem_take]
      intro hbx
      refine hnot ?_
      obtain heq | hless := Nat.eq_or_lt_of_le (Nat.le_sub_one_of_lt hi')
      · simpa [heq] using hbx
      · exact htrans _ _ _ hbx (List.pairwise_iff_getElem.mp h.sorted i (place - 1) (by omega)
          (by omega) hless)
    have hafter : ∀ x ∈ l.drop place, p x = false := by
      intro x hx
      obtain ⟨i, hi, rfl⟩ := List.getElem_of_mem hx
      simp only [p, Bool.not_eq_false', decide_eq_true_eq, List.getElem_drop]
      cases i with
      | zero =>
        simp only [Nat.add_zero, hbdef]
        exact (htotal b b).elim id id
      | succ i =>
        rw [← hbdef]
        exact List.pairwise_iff_getElem.mp h.sorted place (place + (i + 1)) _ _ (by omega)
    have hleft : l.filter p = l.take place := by
      conv_lhs => rw [← List.take_append_drop place l]
      rw [List.filter_append, List.filter_eq_self.mpr hbefore,
        List.filter_eq_nil_iff.mpr fun x hx => by simp [hafter x hx], List.append_nil]
    have hcount : (l'.filter p).length = place := by
      rw [← (hperm.filter p).length_eq, hleft, List.length_take]
      omega
    have hright : l'.take place = l'.filter p := by
      conv_lhs => rw [← filter_append_filter h'.sorted hdown]
      rw [List.take_append_of_le_length (Nat.le_of_eq hcount.symm),
        List.take_of_length_le (Nat.le_of_eq hcount)]
    rw [hright, ← hleft]
    exact hperm.filter p
  · rw [List.take_of_length_le hge, List.take_of_length_le (hperm.length_eq ▸ hge)]
    exact hperm

/-- Two neighbours that are tied may stand the other way round. -/
theorem Arranges.swap {before after : List ρ} {a b : ρ}
    (h : Arranges le rows (before ++ a :: b :: after))
    (htie : le b a) : Arranges le rows (before ++ b :: a :: after) := by
  refine ⟨((List.Perm.swap a b after).append_left before).trans h.perm, ?_⟩
  obtain ⟨hbefore, hpair, hcross⟩ := List.pairwise_append.mp h.sorted
  obtain ⟨ha, hrest⟩ := List.pairwise_cons.mp hpair
  obtain ⟨hb, hafter⟩ := List.pairwise_cons.mp hrest
  refine List.pairwise_append.mpr ⟨hbefore, ?_, ?_⟩
  · refine List.pairwise_cons.mpr ⟨?_, List.pairwise_cons.mpr ⟨?_, hafter⟩⟩
    · intro x hx
      obtain rfl | hx := List.mem_cons.mp hx
      · exact htie
      · exact hb x hx
    · exact fun x hx => ha x (List.mem_cons_of_mem _ hx)
  · intro x hx y hy
    refine hcross x hx y ?_
    simp only [List.mem_cons] at hy ⊢
    tauto

/-- No page of the size ends inside of a group of ties. -/
def PagesDivide (le : ρ → ρ → Prop) (rows : List ρ) (size : Nat) : Prop :=
  ∀ l, Arranges le rows l → ∀ page, Divides le l ((page + 1) * size)

/-- Where no two elements are tied, pages of every size divide. -/
theorem pagesDivide_of_antisymm (hrows : rows.Nodup)
    (h : ∀ a ∈ rows, ∀ b ∈ rows, le a b → le b a → a = b)
    {size : Nat} (hsize : 0 < size) : PagesDivide le rows size := by
  intro l hl page a b ha hb htie
  have hplace : 0 < (page + 1) * size := Nat.mul_pos page.succ_pos hsize
  generalize (page + 1) * size = place at ha hb hplace
  obtain ⟨hlta, rfl⟩ := List.getElem?_eq_some_iff.mp ha
  obtain ⟨hltb, rfl⟩ := List.getElem?_eq_some_iff.mp hb
  have hle := List.pairwise_iff_getElem.mp hl.sorted (place - 1) place hlta hltb (by omega)
  have heq :=
    h _ (hl.perm.mem_iff.mp (List.getElem_mem hlta)) _
    (hl.perm.mem_iff.mp (List.getElem_mem hltb)) hle htie
  have hindex := (hl.perm.nodup_iff.mpr hrows).getElem_inj_iff.mp heq
  omega

include htotal htrans in
theorem pairwise_mergeSort [DecidableRel le] (rows : List ρ) :
    (rows.mergeSort fun a b => decide (le a b)).Pairwise le := by
  refine (List.pairwise_mergeSort ?_ ?_ rows).imp of_decide_eq_true
  · exact fun a b c hab hbc =>
      decide_eq_true (htrans a b c (of_decide_eq_true hab) (of_decide_eq_true hbc))
  · intro a b
    simpa using htotal a b

include htotal htrans in
/-- There is an arrangement. -/
theorem exists_arranges (rows : List ρ) : ∃ l, Arranges le rows l := by
  classical
  exact ⟨rows.mergeSort fun a b => decide (le a b), List.mergeSort_perm ..,
    pairwise_mergeSort htotal htrans rows⟩

include htotal htrans in
/-- Pages that fit: one page after the other, each from an arrangement of its own. -/
theorem flatMap_pageOf_perm {size : Nat} (hsize : 0 < size) (hdivide : PagesDivide le rows size)
    {arranged : Nat → List ρ} (h : ∀ page, Arranges le rows (arranged page))
    (hl : Arranges le rows l) (pages : Nat) :
    ((List.range pages).flatMap fun page => pageOf size (arranged page) page).Perm
      (l.take (pages * size)) := by
  induction pages with
  | zero => simp
  | succ pages ih =>
    have htake : ∀ n, (l.take (n * size)).Perm ((arranged pages).take (n * size)) := by
      intro n
      cases n with
      | zero => simp
      | succ n =>
        exact take_perm htotal htrans hl (h pages) (Nat.mul_pos n.succ_pos hsize) (hdivide l hl n)
    have hpage : (pageOf size (arranged pages) pages).Perm (pageOf size l pages) := by
      refine (List.perm_append_left_iff (l.take (pages * size))).mp ?_
      calc (l.take (pages * size) ++ pageOf size (arranged pages) pages).Perm
            ((arranged pages).take (pages * size) ++ pageOf size (arranged pages) pages) :=
          (htake pages).append_right _
        _ = (arranged pages).take ((pages + 1) * size) := take_append_pageOf ..
        List.Perm _ (l.take ((pages + 1) * size)) := (htake (pages + 1)).symm
        _ = l.take (pages * size) ++ pageOf size l pages := (take_append_pageOf ..).symm
    rw [List.range_succ, List.flatMap_append, ← take_append_pageOf]
    simp only [List.flatMap_cons, List.flatMap_nil, List.append_nil]
    exact ih.append hpage

/-- Where a tie goes across the end of a page, two arrangements show one of the two twice. -/
theorem shown_twice {size : Nat} (hsize : 0 < size) (hl : Arranges le rows l) {page : Nat} {a b : ρ}
    (ha : l[(page + 1) * size - 1]? = some a) (hb : l[(page + 1) * size]? = some b)
    (htie : le b a) :
    ∃ l', Arranges le rows l' ∧ a ∈ pageOf size l page ∧ a ∈ pageOf size l' (page + 1) := by
  have hplace : 0 < (page + 1) * size := Nat.mul_pos page.succ_pos hsize
  generalize hend : (page + 1) * size = place at ha hb hplace
  obtain ⟨hlt, hbget⟩ := List.getElem?_eq_some_iff.mp hb
  obtain ⟨hlta, haget⟩ := List.getElem?_eq_some_iff.mp ha
  have hdrop : l.drop (place - 1) = a :: b :: l.drop (place + 1) := by
    rw [List.drop_eq_getElem_cons hlta, haget, Nat.sub_add_cancel hplace,
      List.drop_eq_getElem_cons hlt, hbget]
  have hsplit : l = l.take (place - 1) ++ a :: b :: l.drop (place + 1) := by
    rw [← hdrop, List.take_append_drop]
  refine ⟨l.take (place - 1) ++ b :: a :: l.drop (place + 1), (hsplit ▸ hl).swap htie, ?_, ?_⟩
  · have hstart : page * size + (size - 1) = place - 1 := by
      rw [Nat.succ_mul] at hend
      omega
    have hget : (pageOf size l page)[size - 1]? = some a := by
      rw [pageOf, List.getElem?_take_of_lt (by omega), List.getElem?_drop, hstart, ha]
    exact List.mem_of_getElem? hget
  · have hlength : (l.take (place - 1)).length = place - 1 := List.length_take_of_le (by omega)
    have hget : (pageOf size (l.take (place - 1) ++ b :: a :: l.drop (place + 1)) (page + 1))[0]? =
        some a := by
      rw [pageOf, hend, List.getElem?_take_of_lt hsize, List.getElem?_drop,
        List.getElem?_append_right (by omega), hlength]
      have hone : place + 0 - (place - 1) = 1 := by omega
      rw [hone]
      rfl
    exact List.mem_of_getElem? hget

include htotal htrans in
/-- Pages cut from arrangements of their own show every element once, however tied elements are
arranged each time, exactly where no page ends inside of a group of ties. -/
theorem pages_perm_iff {size pages : Nat} (hsize : 0 < size) (hrows : rows.Nodup)
    (hpages : rows.length ≤ pages * size) (hsome : ∃ l, Arranges le rows l) :
    (∀ arranged : Nat → List ρ, (∀ page, Arranges le rows (arranged page)) →
      ((List.range pages).flatMap fun page => pageOf size (arranged page) page).Perm rows) ↔
        PagesDivide le rows size := by
  constructor
  · intro hall l hl page a b ha hb htie
    obtain ⟨l', hl', hfirst, hsecond⟩ := shown_twice hsize hl ha hb htie
    have hlt : (page + 1) * size < pages * size :=
      Nat.lt_of_lt_of_le (List.getElem?_eq_some_iff.mp hb).1 (hl.perm.length_eq ▸ hpages)
    have hpage : page + 1 < pages := Nat.lt_of_mul_lt_mul_right hlt
    have hshown := hall (fun k => if k = page + 1 then l' else l) fun k => by
      show Arranges le rows (if k = page + 1 then l' else l)
      split
      · exact hl'
      · exact hl
    have hnodup := List.nodup_flatMap.mp (hshown.nodup_iff.mpr hrows)
    have hdisjoint :=
      List.pairwise_iff_getElem.mp hnodup.2 page (page + 1) (by simp; omega) (by simpa using hpage)
      (Nat.lt_succ_self page)
    simp only [List.getElem_range, Function.onFun, Nat.ne_of_lt (Nat.lt_succ_self page),
      if_false, if_true]
      at hdisjoint
    exact hdisjoint hfirst hsecond
  · intro hdivide arranged h
    obtain ⟨l, hl⟩ := hsome
    have hpages' := flatMap_pageOf_perm htotal htrans hsize hdivide h hl pages
    rw [List.take_of_length_le (hl.perm.length_eq ▸ hpages)] at hpages'
    exact hpages'.trans hl.perm

end Preorder

end Arrangements
