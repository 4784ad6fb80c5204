import Mathlib.Data.List.Infix
import Mathlib.Data.List.Forall2

/-!
# Replacing a text in a text

`str.replace` on lists of characters: every occurrence from the left is replaced and the search
goes on behind it. An `old` text whose first character is nowhere else in it has no occurrence
that overlaps another one, so a text can be cut in front of that character and each piece
replaced by itself.
-/
namespace TextReplacement

variable {α : Type} [DecidableEq α]

/-- The search, with the characters of an occurrence that are still to be passed over. -/
def replaceFrom (old new : List α) : Nat → List α → List α
  | _, [] => []
  | skip + 1, _ :: text => replaceFrom old new skip text
  | 0, c :: text =>
    if old.isPrefixOf (c :: text) then new ++ replaceFrom old new (old.length - 1) text
    else c :: replaceFrom old new 0 text

/-- `text.replace(old, new)`, for an `old` that is not empty. -/
def replaceAll (old new text : List α) : List α := replaceFrom old new 0 text

theorem replaceFrom_append (old new : List α) (skipped text : List α) :
    replaceFrom old new skipped.length (skipped ++ text) = replaceAll old new text := by
  induction skipped with
  | nil => rfl
  | cons c skipped ih => exact ih

@[simp] theorem replaceAll_nil (old new : List α) : replaceAll old new [] = [] := rfl

theorem replaceAll_cons (old new : List α) (c : α) (text : List α) :
    replaceAll old new (c :: text) =
      if old.isPrefixOf (c :: text) then new ++ replaceFrom old new (old.length - 1) text
      else c :: replaceAll old new text := rfl

/-- The text itself is replaced wherever it is met. -/
theorem replaceAll_self_append (first : α) (rest new text : List α) :
    replaceAll (first :: rest) new (first :: rest ++ text) =
      new ++ replaceAll (first :: rest) new text := by
  rw [List.cons_append, replaceAll_cons, if_pos]
  · rw [List.length_cons, Nat.add_sub_cancel, replaceFrom_append]
  · exact List.isPrefixOf_iff_prefix.mpr ⟨text, by simp⟩

omit [DecidableEq α] in
/-- An occurrence in front of a character that only begins one ends before it. -/
theorem prefix_append_marked {first : α} {rest : List α} (h : first ∉ rest) (c : α)
    (text more : List α) :
    first :: rest <+: c :: (text ++ first :: more) ↔ first :: rest <+: c :: text := by
  have happend : c :: text <+: c :: (text ++ first :: more) := ⟨first :: more, by simp⟩
  constructor
  · intro hprefix
    by_cases hlength : (first :: rest).length ≤ (c :: text).length
    · exact List.prefix_of_prefix_length_le hprefix happend hlength
    · have hmarked : c :: (text ++ [first]) <+: c :: (text ++ first :: more) := ⟨more, by simp⟩
      have hinside : c :: (text ++ [first]) <+: first :: rest :=
        List.prefix_of_prefix_length_le hmarked hprefix (by simp at hlength ⊢; omega)
      have htail := (List.cons_prefix_cons.mp hinside).2
      exact absurd (htail.subset (by simp)) h
  · exact fun hprefix => hprefix.trans happend

/-- Before a mark that the searched text does not have, the replacement does not see what is
behind it. -/
theorem replaceFrom_append_marked {first : α} {rest new : List α} (h : first ∉ rest)
    (text more : List α) (skip : Nat) (hskip : skip ≤ text.length) :
    replaceFrom (first :: rest) new skip (text ++ first :: more) =
      replaceFrom (first :: rest) new skip text ++ replaceAll (first :: rest) new
        (first :: more) := by
  induction text generalizing skip with
  | nil =>
    rw [Nat.le_zero.mp hskip]
    rfl
  | cons c text ih =>
    cases skip with
    | succ skip => exact ih skip (by simpa using hskip)
    | zero =>
      have hmarked := prefix_append_marked h c text more
      change replaceAll _ _ (c :: (text ++ first :: more)) = replaceAll _ _ (c :: text) ++ _
      rw [replaceAll_cons, replaceAll_cons]
      by_cases hprefix : first :: rest <+: c :: text
      · rw [if_pos (List.isPrefixOf_iff_prefix.mpr (hmarked.mpr hprefix)),
          if_pos (List.isPrefixOf_iff_prefix.mpr hprefix), ih, List.append_assoc]
        have hlength := hprefix.length_le
        simp only [List.length_cons] at hlength ⊢
        omega
      · rw [if_neg (by rw [List.isPrefixOf_iff_prefix]; exact fun hp => hprefix (hmarked.mp hp)),
          if_neg (by rwa [List.isPrefixOf_iff_prefix]), List.cons_append]
        exact congrArg (c :: ·) (ih 0 (Nat.zero_le _))

/-- Texts are replaced one after the other where the second begins with a character that only
begins an occurrence. -/
theorem replaceAll_append_marked {first : α} {rest new : List α} (h : first ∉ rest)
    (text more : List α) :
    replaceAll (first :: rest) new (text ++ first :: more) =
      replaceAll (first :: rest) new text ++ replaceAll (first :: rest) new (first :: more) :=
  replaceFrom_append_marked h text more 0 (Nat.zero_le _)

/-- Pieces joined by the text that is replaced: it is replaced between them, and in each. -/
theorem replaceAll_intercalate {first : α} {rest new : List α} (h : first ∉ rest)
    (pieces : List (List α)) :
    replaceAll (first :: rest) new ((first :: rest).intercalate pieces) =
      new.intercalate (pieces.map (replaceAll (first :: rest) new)) := by
  induction pieces with
  | nil => simp
  | cons piece pieces ih =>
    cases pieces with
    | nil => simp
    | cons next pieces =>
      rw [List.intercalate_cons_cons, List.map_cons, List.map_cons, List.intercalate_cons_cons,
        ← List.map_cons, ← ih, List.append_assoc, List.cons_append, replaceAll_append_marked h,
        ← List.cons_append, replaceAll_self_append, List.append_assoc]

/-! ## Where nothing changes -/

theorem replaceAll_of_absent {old new text : List α} (h : ¬old <:+: text) :
    replaceAll old new text = text := by
  induction text with
  | nil => rfl
  | cons c text ih =>
    rw [replaceAll_cons, if_neg, ih fun hinfix => h (List.infix_cons hinfix)]
    rw [List.isPrefixOf_iff_prefix]
    exact fun hprefix => h hprefix.isInfix

/-- The first occurrence, and what is made of the text around it. -/
theorem replaceAll_first {first : α} {rest text : List α} (new : List α)
    (h : first :: rest <:+: text) :
    ∃ before behind, text = before ++ (first :: rest) ++ behind ∧
      replaceAll (first :: rest) new text =
        before ++ new ++ replaceAll (first :: rest) new behind := by
  induction text with
  | nil => simp at h
  | cons c text ih =>
    by_cases hprefix : first :: rest <+: c :: text
    · obtain ⟨behind, hbehind⟩ := hprefix
      exact ⟨[], behind, hbehind.symm, by rw [← hbehind, replaceAll_self_append]; rfl⟩
    · have hinfix := (List.infix_cons_iff.mp h).resolve_left hprefix
      obtain ⟨before, behind, rfl, hreplaced⟩ := ih hinfix
      refine ⟨c :: before, behind, rfl, ?_⟩
      rw [replaceAll_cons, if_neg (by rwa [List.isPrefixOf_iff_prefix]), hreplaced]
      rfl

/-- What holds of a text without an occurrence, and of an occurrence in front of what it holds of,
holds of every text and what is made of it. -/
theorem replaceAll_induction {first : α} {rest new : List α} {P : List α → List α → Prop}
    (hnone : ∀ text, P text text)
    (hfirst : ∀ before behind replaced, P behind replaced →
      P (before ++ (first :: rest) ++ behind) (before ++ new ++ replaced))
    (text : List α) : P text (replaceAll (first :: rest) new text) := by
  induction hn : text.length using Nat.strong_induction_on generalizing text with
  | _ n ih =>
    by_cases hinfix : first :: rest <:+: text
    · obtain ⟨before, behind, htext, hreplaced⟩ := replaceAll_first new hinfix
      rw [hreplaced, htext]
      have hlength : behind.length < n := by
        rw [← hn, htext]
        simp only [List.length_append, List.length_cons]
        omega
      exact hfirst before behind _ (ih behind.length hlength behind rfl)
    · rw [replaceAll_of_absent hinfix]
      exact hnone text

theorem replaceAll_same (first : α) (rest text : List α) :
    replaceAll (first :: rest) (first :: rest) text = text := by
  refine replaceAll_induction (P := fun text replaced => replaced = text) ?_ ?_ text
  · exact fun text => rfl
  · intro before behind replaced hbehind
    rw [hbehind]

theorem le_length_replaceAll {first : α} {rest new : List α}
    (h : (first :: rest).length ≤ new.length)
    (text : List α) : text.length ≤ (replaceAll (first :: rest) new text).length := by
  refine replaceAll_induction (P := fun text replaced => text.length ≤ replaced.length) ?_ ?_ text
  · exact fun text => le_rfl
  · intro before behind replaced hbehind
    simp only [List.length_append]
    omega

theorem length_replaceAll_le {first : α} {rest new : List α}
    (h : new.length ≤ (first :: rest).length)
    (text : List α) : (replaceAll (first :: rest) new text).length ≤ text.length := by
  refine replaceAll_induction (P := fun text replaced => replaced.length ≤ text.length) ?_ ?_ text
  · exact fun text => le_rfl
  · intro before behind replaced hbehind
    simp only [List.length_append]
    omega

/-- A text stays as it is where nothing is replaced, or by itself. -/
theorem replaceAll_eq_self_iff {first : α} {rest new text : List α} :
    replaceAll (first :: rest) new text = text ↔
      new = first :: rest ∨ ¬first :: rest <:+: text := by
  constructor
  · intro hself
    by_contra hneither
    push Not at hneither
    obtain ⟨hnew, hinfix⟩ := hneither
    obtain ⟨before, behind, htext, hreplaced⟩ := replaceAll_first new hinfix
    rw [hreplaced] at hself
    rw [htext, List.append_assoc, List.append_assoc] at hself
    have hbehind := List.append_cancel_left hself
    have hlength := congrArg List.length hbehind
    simp only [List.length_append] at hlength
    have hle : (first :: rest).length ≤ new.length →
        behind.length ≤ (replaceAll (first :: rest) new behind).length :=
          fun h => le_length_replaceAll h behind
    have hge : new.length ≤ (first :: rest).length →
        (replaceAll (first :: rest) new behind).length ≤ behind.length :=
          fun h => length_replaceAll_le h behind
    have hsame : new.length = (first :: rest).length := by
      simp only [List.length_cons] at hlength hle hge ⊢
      omega
    exact hnew (List.append_inj_left hbehind hsame)
  · rintro (rfl | hinfix)
    · exact replaceAll_same first rest text
    · exact replaceAll_of_absent hinfix

/-! ## Pieces -/

section

omit [DecidableEq α]

theorem intercalate_length_le (sep : List α) {xs ys : List (List α)}
    (h : List.Forall₂ (fun x y => x.length ≤ y.length) xs ys) :
    (sep.intercalate xs).length ≤ (sep.intercalate ys).length := by
  induction h with
  | nil => exact le_rfl
  | cons hxy htail ih =>
    cases htail with
    | nil => simpa using hxy
    | cons hnext hmore =>
      rw [List.intercalate_cons_cons, List.intercalate_cons_cons]
      simp only [List.length_append]
      omega

/-- Pieces of which none is longer than its partner are the same pieces where they make the same
text. -/
theorem intercalate_injective (sep : List α) {xs ys : List (List α)}
    (h : List.Forall₂ (fun x y => x.length ≤ y.length) xs ys)
    (heq : sep.intercalate xs = sep.intercalate ys) : xs = ys := by
  induction h with
  | nil => rfl
  | @cons x y xs ys hxy htail ih =>
    cases htail with
    | nil => simpa using heq
    | @cons next next' xs ys hnext hmore =>
      have hrest := intercalate_length_le sep (List.Forall₂.cons hnext hmore)
      rw [List.intercalate_cons_cons, List.intercalate_cons_cons, List.append_assoc,
        List.append_assoc] at heq
      have hlength := congrArg List.length heq
      simp only [List.length_append] at hlength
      obtain ⟨rfl, hbehind⟩ := List.append_inj heq (by omega)
      rw [ih (List.append_cancel_left hbehind)]

theorem intercalate_map_eq_iff {sep : List α} {f : List α → List α} (pieces : List (List α))
    (h : (∀ piece, piece.length ≤ (f piece).length) ∨ ∀ piece, (f piece).length ≤ piece.length) :
    sep.intercalate (pieces.map f) = sep.intercalate pieces ↔
      ∀ piece ∈ pieces, f piece = piece := by
  have hsame : pieces.map f = pieces ↔ ∀ piece ∈ pieces, f piece = piece := by
    simpa using List.map_inj_left (l := pieces) (f := f) (g := id)
  rw [← hsame]
  refine ⟨fun heq => ?_, fun heq => by rw [heq]⟩
  rcases h with hlonger | hshorter
  · exact (intercalate_injective sep (List.forall₂_map_right_iff.mpr (List.forall₂_same.mpr
      fun piece _ => hlonger piece)) heq.symm).symm
  · exact intercalate_injective sep (List.forall₂_map_left_iff.mpr (List.forall₂_same.mpr
      fun piece _ => hshorter piece)) heq

end

/-- Between the occurrences that are meant, a text is left as it is where none is met that is
not. -/
theorem replaceAll_intercalate_eq_iff {first : α} {rest new : List α} (h : first ∉ rest)
    (pieces : List (List α)) :
    replaceAll (first :: rest) new ((first :: rest).intercalate pieces) = new.intercalate pieces ↔
      new = first :: rest ∨ ∀ piece ∈ pieces, ¬first :: rest <:+: piece := by
  rw [replaceAll_intercalate h, intercalate_map_eq_iff]
  · simp only [replaceAll_eq_self_iff]
    by_cases hnew : new = first :: rest <;> simp [hnew]
  · rcases le_total (first :: rest).length new.length with hle | hge
    · exact .inl (le_length_replaceAll hle)
    · exact .inr (length_replaceAll_le hge)

end TextReplacement
