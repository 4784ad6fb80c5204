import Jararaca.TextReplacement
import Jararaca.SeparatedLists
import Mathlib.Tactic.Common

/-!
# Placeholders

A text is cut into its `:name` placeholders, each with the longest name that stands there, and
the characters between them. Filling puts the values of some names in their places, all at once;
replacing `:name` in the text does the same for one name where the text holds no other occurrence
of it, in a longer name or in what was filled in before.
-/
namespace Placeholders

open TextReplacement

/-- The characters of names: the one that begins a placeholder is none of them. -/
structure NameChars where
  isName : Char → Bool
  colon : isName ':' = false

inductive Token where
  | literal (c : Char)
  | placeholder (name : List Char)
  deriving DecidableEq, Repr

/-- What was read behind a colon: a name, or nothing. -/
def finish (name : List Char) : Token := if name = [] then .literal ':' else .placeholder name

/-- Reading a text, behind a colon with the name read so far, or elsewhere. -/
def tokensFrom (chars : NameChars) : Option (List Char) → List Char → List Token
  | none, [] => []
  | some name, [] => [finish name]
  | none, c :: text => if c = ':' then tokensFrom chars (some []) text
    else .literal c :: tokensFrom chars none text
  | some name, c :: text =>
    if chars.isName c then tokensFrom chars (some (name ++ [c])) text
    else if c = ':' then finish name :: tokensFrom chars (some []) text
    else finish name :: .literal c :: tokensFrom chars none text

def tokens (chars : NameChars) (text : List Char) : List Token := tokensFrom chars none text

/-- What stands for a token once the placeholders of `names` are filled. -/
def fillToken (value : List Char → List Char) (names : List (List Char)) : Token → List Char
  | .literal c => [c]
  | .placeholder name => if name ∈ names then value name else ':' :: name

/-- All placeholders of `names` filled at once, and everything else as it was. -/
def fill (value : List Char → List Char) (names : List (List Char))
    (text : List Token) : List Char :=
  text.flatMap (fillToken value names)

/-- The placeholders replaced one name after the other. -/
def replaceEach (value : List Char → List Char) (names : List (List Char))
    (text : List Char) : List Char :=
  names.foldl (fun text name => replaceAll (':' :: name) (value name) text) text

variable {value : List Char → List Char}

theorem fill_cons (names : List (List Char)) (token : Token) (text : List Token) :
    fill value names (token :: text) = fillToken value names token ++ fill value names text := rfl

theorem fillToken_literal (names : List (List Char)) (c : Char) :
    fillToken value names (.literal c) = [c] := rfl

theorem fillToken_finish (name : List Char) : fillToken value [] (finish name) = ':' :: name := by
  by_cases h : name = [] <;> simp [finish, fillToken, h]

/-- Filling nothing gives the text back. -/
theorem fill_tokensFrom (chars : NameChars) (text : List Char) (read : Option (List Char)) :
    fill value [] (tokensFrom chars read text) = (read.map (':' :: ·)).getD [] ++ text := by
  induction text generalizing read with
  | nil =>
    cases read with
    | none => rfl
    | some name => simp [tokensFrom, fill, fillToken_finish]
  | cons c text ih =>
    cases read with
    | none =>
      by_cases hc : c = ':'
      · simp [tokensFrom, hc, ih]
      · simp [tokensFrom, hc, fill_cons, fillToken_literal, ih]
    | some name =>
      by_cases hc : c = ':'
      · simp [tokensFrom, hc, chars.colon, fill_cons, fillToken_finish, ih]
      · by_cases hname : chars.isName c <;>
          simp [tokensFrom, hname, hc, fill_cons, fillToken_finish, fillToken_literal, ih]

/-- A text with nothing filled in is the text. -/
theorem fill_tokens (chars : NameChars) (text : List Char) :
    fill value [] (tokens chars text) = text :=
  fill_tokensFrom chars text none

/-! ## One name -/

/-- The text between the placeholders of one name. -/
def segments (name : List Char) (text : List Token) : List (List Token) :=
  text.splitOn (.placeholder name)

theorem intercalate_flatMap {α β : Type} (f : α → List β) (sep : List α) (pieces : List (List α)) :
    (sep.intercalate pieces).flatMap f =
      (sep.flatMap f).intercalate (pieces.map (List.flatMap f)) := by
  induction pieces with
  | nil => simp
  | cons piece pieces ih =>
    cases pieces with
    | nil => simp
    | cons next pieces =>
      rw [List.intercalate_cons_cons, List.map_cons, List.map_cons, List.intercalate_cons_cons,
        ← List.map_cons, ← ih, List.flatMap_append, List.flatMap_append]

theorem fill_segments (names : List (List Char)) (name : List Char) (text : List Token) :
    fill value names text = (fillToken value names (.placeholder name)).intercalate
      ((segments name text).map (fill value names)) := by
  have htext : [Token.placeholder name].intercalate (text.splitOn (.placeholder name)) = text :=
    List.intercalate_splitOn _
  conv_lhs => rw [fill, ← htext, intercalate_flatMap]
  rw [List.flatMap_singleton]
  rfl

theorem fill_insert {name : List Char} {names : List (List Char)} {text : List Token}
    (h : .placeholder name ∉ text) : fill value (names ++ [name]) text = fill value names text := by
  induction text with
  | nil => rfl
  | cons token text ih =>
    simp only [List.mem_cons, not_or] at h
    rw [fill_cons, fill_cons, ih h.2]
    cases token with
    | literal c => rfl
    | placeholder other =>
      have hother : other ≠ name := fun heq => h.1 (by rw [heq])
      simp [fillToken, hother]

/-- No placeholder between those of a name, filled in as far as they are, holds the name's own. -/
def Undisturbed (value : List Char → List Char) (names : List (List Char)) (text : List Token)
    (name : List Char) :
    Prop :=
  value name = ':' :: name ∨
    ∀ segment ∈ segments name text, ¬ ':' :: name <:+: fill value names segment

instance (names : List (List Char)) (text : List Token) (name : List Char) :
    Decidable (Undisturbed value names text name) := inferInstanceAs (Decidable (_ ∨ _))

/-- One more name is replaced as it would be with the others: exactly where it is undisturbed. -/
theorem replaceAll_fill_iff {name : List Char} {names : List (List Char)} (text : List Token)
    (hcolon : ':' ∉ name) (hnew : name ∉ names) :
    replaceAll (':' :: name) (value name)
      (fill value names text) = fill value (names ++ [name]) text ↔
      Undisturbed value names text name := by
  have hsegments : (segments name text).map (fill value (names ++ [name])) =
      (segments name text).map (fill value names) :=
    List.map_congr_left fun segment hsegment =>
      fill_insert (SeparatedLists.not_mem_of_mem_splitOn hsegment)
  rw [fill_segments names name, fill_segments (names ++ [name]) name, hsegments]
  have hfilled :
      fillToken value (names ++ [name]) (.placeholder name) = value name := by simp [fillToken]
  have hleft : fillToken value names (.placeholder name) = ':' :: name := by simp [fillToken, hnew]
  rw [hfilled, hleft, replaceAll_intercalate_eq_iff hcolon]
  simp [Undisturbed]

/-! ## Some names, in any order -/

theorem replaceEach_append (names : List (List Char)) (name text : List Char) :
    replaceEach value (names ++ [name]) text = replaceAll (':' :: name) (value name)
      (replaceEach value names text) := by
  simp [replaceEach]

/-- Whatever names out of `declared` are replaced, in whatever order, their placeholders are filled
at once. -/
def FillsAtOnce (chars : NameChars) (value : List Char → List Char) (declared : List (List Char))
    (text : List Char) : Prop :=
  ∀ names : List (List Char), names.Nodup → names ⊆ declared →
    replaceEach value names text = fill value names (tokens chars text)

/-- Filling one name after the other is filling them at once, exactly when no value brings a name.
-/
theorem fillsAtOnce_iff {chars : NameChars} {declared : List (List Char)} {text : List Char}
    (hcolon : ∀ name ∈ declared, ':' ∉ name) :
    FillsAtOnce chars value declared text ↔ ∀ names : List (List Char), names.Nodup →
      names ⊆ declared →
      ∀ name ∈ declared, name ∉ names → Undisturbed value names (tokens chars text) name := by
  constructor
  · intro h names hnodup hnames name hname hnew
    have hboth : (names ++ [name]).Nodup := by
      rw [List.nodup_append]
      simpa [hnodup] using fun other hother => ne_of_mem_of_not_mem hother hnew
    rw [← replaceAll_fill_iff _ (hcolon name hname) hnew, ← h names hnodup hnames,
      ← replaceEach_append]
    exact h _ hboth (by simpa [hname] using hnames)
  · intro h names
    induction names using List.reverseRecOn with
    | nil => exact fun _ _ => (fill_tokens chars text).symm
    | append_singleton names name ih =>
      intro hnodup hnames
      rw [List.nodup_append] at hnodup
      simp only [List.append_subset, List.cons_subset, List.nil_subset, and_true] at hnames
      have hnew : name ∉ names := fun hmem => hnodup.2.2 name hmem name (by simp) rfl
      rw [replaceEach_append, ih hnodup.1 hnames.1]
      exact (replaceAll_fill_iff _ (hcolon name hnames.2) hnew).mpr
        (h names hnodup.1 hnames.1 name hnames.2 hnew)

end Placeholders
