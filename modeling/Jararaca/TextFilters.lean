import Jararaca.SortFilters

/-!
# Text filters

`contains`, `doesNotContain`, `startsWith` and `endsWith` on a text column. The value becomes a
part of a pattern as it is, so a wildcard or an escape character in it is not searched for but
obeyed. An empty value is no filter, which is right for the operators that keep every text then.
-/
namespace TextFilters

open SortFilters
open LikePatterns.Like

inductive TextOperator where
  | contains
  | doesNotContain
  | startsWith
  | endsWith
  deriving DecidableEq, Repr

namespace TextOperator

def operator : TextOperator → Operator
  | contains => .contains
  | doesNotContain => .doesNotContain
  | startsWith => .startsWith
  | endsWith => .endsWith

/-- What the operators say of a text and a value. -/
def Says (lower : Char → Char) (text value : List Char) : TextOperator → Prop
  | contains => value.map lower <:+: text.map lower
  | doesNotContain => ¬value.map lower <:+: text.map lower
  | startsWith => value <+: text
  | endsWith => value <:+ text

instance (lower : Char → Char) (text value : List Char) (op : TextOperator) :
    Decidable (op.Says lower text value) :=
  match op with
  | contains => inferInstanceAs (Decidable (_ <:+: _))
  | doesNotContain => inferInstanceAs (Decidable ¬_ <:+: _)
  | startsWith => inferInstanceAs (Decidable (_ <+: _))
  | endsWith => inferInstanceAs (Decidable (_ <:+ _))

end TextOperator

structure TextField (allowedFilters : String → Option Column) extends Allowed allowedFilters where
  typed : column.type = .str

variable (printable : Char → Bool) (d : Dialect) {allowedFilters : String → Option Column}

def TextField.row (field : TextField allowedFilters) (text : String) : Row field.column where
  cells _ := some (.str text)
  typed value h := by
    cases h
    rw [field.typed]
    rfl

/-- A filter keeps the texts of which the operator says so, and no others. -/
def Literal (field : TextField allowedFilters) (op : TextOperator) (value : String) : Prop :=
  ∀ text : String, keeps printable d field.toAllowed op.operator (.text value)
    (field.row text) = true ↔
    op.Says d.lower text.toList value.toList

variable {printable d} {field : TextField allowedFilters}

/-! ## Lower case -/

theorem plain_lower {value : List Char} : d.Plain (value.map d.lower) ↔ d.Plain value := by
  simp only [LikePatterns.Like.Plain, List.forall_mem_map]
  refine forall₂_congr fun c _ => ?_
  have hmany := d.lower_special c '%' (.inl rfl)
  have hany := d.lower_special c '_' (.inr (.inl rfl))
  have hescape : d.escape = some (d.lower c) ↔ d.escape = some c := by
    constructor
    · intro h
      have hlower := (d.lower_special c (d.lower c) (.inr (.inr h))).mp rfl
      rwa [← hlower] at h
    · intro h
      have hlower := (d.lower_special c c (.inr (.inr h))).mpr rfl
      rwa [hlower]
  rw [ne_eq, ne_eq, hmany, hany, ne_eq, hescape]

theorem lower_fixed {value text : List Char} (h : ∀ c ∈ text, c ∈ value.map d.lower ∨ c = '%') :
    text.map d.lower = text := by
  have hfixed : ∀ c ∈ text, d.lower c = c := by
    intro c hc
    rcases h c hc with hmem | rfl
    · obtain ⟨original, _, rfl⟩ := List.mem_map.mp hmem
      exact d.lower_lower original
    · exact (d.lower_special '%' '%' (.inl rfl)).mpr rfl
  calc text.map d.lower = text.map id := List.map_congr_left hfixed
    _ = text := List.map_id text

/-! ## The patterns -/

theorem forall_string {P : List Char → Prop} : (∀ text : String, P text.toList) ↔ ∀ text, P text :=
  ⟨fun h text => by simpa using h (String.ofList text), fun h text => h text.toList⟩

/-- `icontains` looks for the text without case, exactly when it has no wildcard. -/
theorem icontains_iff {value : List Char} :
    (∀ text : String, TextMatch.icontains.holds d text.toList value = true ↔
      value.map d.lower <:+: text.toList.map d.lower) ↔ d.Plain value := by
  rw [forall_string (P := fun text => TextMatch.icontains.holds d text value = true ↔
    value.map d.lower <:+: text.map d.lower), ← plain_lower]
  constructor
  · intro h
    by_contra hplain
    obtain ⟨text, hchars, hlike, hinfix⟩ := exists_not_infix hplain
    have htext := h text
    rw [TextMatch.holds, lower_fixed hchars, List.cons_append, like_many] at htext
    exact hinfix (htext.mp ⟨text, List.suffix_refl _, hlike⟩)
  · exact fun hplain text => like_inside hplain _

/-- `startswith` looks for the text at the start, exactly when it has no wildcard. -/
theorem startswith_iff {value : List Char} :
    (∀ text : String, TextMatch.startswith.holds d text.toList value = true ↔
      value <+: text.toList) ↔
      d.Plain value := by
  rw [forall_string (P :=
    fun text => TextMatch.startswith.holds d text value = true ↔ value <+: text)]
  exact like_beginning_iff

/-- `endswith` looks for it at the end, exactly when it has no wildcard. -/
theorem endswith_iff {value : List Char} :
    (∀ text : String, TextMatch.endswith.holds d text.toList value = true ↔ value <:+ text.toList) ↔
      d.Plain value := by
  rw [forall_string (P :=
    fun text => TextMatch.endswith.holds d text value = true ↔ value <:+ text)]
  exact like_suffix_iff

/-! ## The filters -/

/-- The LIKE of an operator, and whether it is negated. -/
def likeOf : TextOperator → TextMatch × Bool
  | .contains => (.icontains, false)
  | .doesNotContain => (.icontains, true)
  | .startsWith => (.startswith, false)
  | .endsWith => (.endswith, false)

/-- Which rows a text filter keeps. -/
theorem keeps_text (op : TextOperator) {value : String} (hvalue : value ≠ "") (text : String) :
    keeps printable d field.toAllowed op.operator (.text value) (field.row text) =
      ((likeOf op).1.holds d text.toList value.toList != (likeOf op).2) := by
  have htruthy :
      FilterValue.truthy (.text value) = true := by simpa [FilterValue.truthy] using hvalue
  have houtcome : outcome printable field.toAllowed op.operator (.text value) =
      .ok (some (.textMatch (likeOf op).1 (likeOf op).2 (.str value))) := by
    simp only [outcome, conditionFor, field.typed, htruthy]
    cases op <;> rfl
  rw [keeps_eq, houtcome]
  change decide
    (some ((likeOf op).1.holds d text.toList value.toList != (likeOf op).2) = some true) = _
  cases (likeOf op).1.holds d text.toList value.toList != (likeOf op).2 <;> rfl

/-- The empty text keeps every row. -/
theorem keeps_empty (op : TextOperator) (text : String) :
    keeps printable d field.toAllowed op.operator (.text "") (field.row text) = true := by
  rw [keeps_eq]
  simp only [outcome, conditionFor, field.typed]
  rfl

variable (printable d field)

/-- A filter is literal exactly for a value without wildcards and escape characters; without any
characters, where the operator keeps every text. -/
theorem literal_iff (op : TextOperator) (value : String) :
    Literal printable d field op value ↔
      d.Plain value.toList ∧ (op = .doesNotContain → value ≠ "") := by
  by_cases hvalue : value = ""
  · subst hvalue
    have hplain : d.Plain "".toList := fun c hc => by cases hc
    simp only [Literal, keeps_empty, true_iff, hplain, true_and]
    cases op <;> simp [TextOperator.Says]
  · rw [and_iff_left fun _ => hvalue]
    simp only [Literal, keeps_text op hvalue]
    cases op <;> simp only [likeOf, TextOperator.Says, Bool.bne_false, Bool.bne_true]
    case contains => exact icontains_iff
    case startsWith => exact startswith_iff
    case endsWith => exact endswith_iff
    case doesNotContain =>
      rw [← icontains_iff]
      refine forall_congr' fun text => ?_
      rw [Bool.not_eq_true', ← Bool.not_eq_true, not_iff_not]

/-- A column of names, filtered by its own name. -/
def nameField : TextField fun field => if field = "name" then some ⟨"name", .str⟩ else none where
  field := "name"
  column := ⟨"name", .str⟩
  found := rfl
  typed := rfl

/-- A value with a percent sign in it is found in a text that does not hold it. -/
theorem percent_not_literal :
    ¬Literal (fun _ => true) (backslash fun _ _ => false) nameField .contains "0%1" := fun h =>
  absurd ((h "101").mp (by decide +kernel)) (by decide +kernel)

end TextFilters
