import Jararaca.SortFilters

/-!
# Filters for emptiness

`isEmpty` and `isNotEmpty` of `FilterRuleApplier`. Neither needs a value, but only the branch of
UUIDs asks for the operator before the value: an empty value is no filter at all elsewhere, an
integer is parsed first, and a text column is compared with the empty text, which NULL is not.
-/
namespace EmptinessFilters

open SortFilters
open ValueParsers (isInteger integerDigits pyInt_eq_none_iff)
open Messages (pyInt)

/-- The types of columns that offer the two operators. -/
inductive EmptinessType where
  | str
  | int
  | date
  | datetime
  | uuid
  deriving DecidableEq, Repr

def EmptinessType.columnType : EmptinessType → ColumnType
  | str => .str
  | int => .int
  | date => .date
  | datetime => .datetime
  | uuid => .uuid

structure Offered (allowedFilters : String → Option Column) extends Allowed allowedFilters where
  type : EmptinessType
  typed : column.type = type.columnType

variable (printable : Char → Bool) (d : Dialect) {allowedFilters : String → Option Column}

/-- NULL or the empty text. -/
def Empty (cell : Option PyValue) : Prop := cell = none ∨ cell = some (.str "")

instance (cell : Option PyValue) : Decidable (Empty cell) := inferInstanceAs (Decidable (_ ∨ _))

/-- Exactly one of the two filters keeps a row, `isEmpty` where the cell is empty. -/
structure Partitions (offered : Offered allowedFilters) (value : FilterValue)
    (row : Row offered.column) : Prop where
  one : (keeps printable d offered.toAllowed .isEmpty value row = true) ≠
    (keeps printable d offered.toAllowed .isNotEmpty value row = true)
  empty : keeps printable d offered.toAllowed .isEmpty value row = true ↔
    Empty (row.cells offered.column.name)

/-- What the branches ask for: a value that is no empty text or list, one that `int` reads, or
none; and a text column that is not NULL. -/
def Asked (value : FilterValue) (cell : Option PyValue) : EmptinessType → Prop
  | .uuid => True
  | .date => value.truthy = true
  | .datetime => value.truthy = true
  | .str => value.truthy = true ∧ cell ≠ none
  | .int => ∃ s, value = .text s ∧ isInteger s = true ∧ (integerDigits s.toList).length ≤ 4300

/-- The law, one filter at a time. -/
theorem partitions_iff {offered : Offered allowedFilters} {value : FilterValue}
    {row : Row offered.column} :
    Partitions printable d offered value row ↔
      (keeps printable d offered.toAllowed .isEmpty value row = true ↔
        Empty (row.cells offered.column.name)) ∧
        (keeps printable d offered.toAllowed .isNotEmpty value row = true ↔
          ¬Empty (row.cells offered.column.name)) := by
  constructor
  · intro h
    refine ⟨h.empty, ?_⟩
    rw [← h.empty]
    have hone := h.one
    by_cases hempty : keeps printable d offered.toAllowed .isEmpty value row = true <;> simp_all
  · rintro ⟨hempty, hnotEmpty⟩
    refine ⟨fun hsame => ?_, hempty⟩
    rw [hsame, hnotEmpty] at hempty
    exact (iff_not_self hempty.symm)

/-- A cell of a column that is not of texts is no empty text. -/
theorem empty_iff_null {column : Column} {row : Row column} (h : column.type ≠ .str) :
    Empty (row.cells column.name) ↔ row.cells column.name = none := by
  refine ⟨fun hempty => hempty.resolve_right fun hcell => ?_, .inl⟩
  have htyped := row.typed _ hcell
  cases htype : column.type <;> simp_all [PyValue.hasType]

variable {printable d} {offered : Offered allowedFilters} {value : FilterValue}
  {row : Row offered.column}

theorem partitions_of_null (htype : offered.column.type ≠ .str)
    (hempty : outcome printable offered.toAllowed .isEmpty value = .ok (some .isNull))
    (hnotEmpty : outcome printable offered.toAllowed .isNotEmpty value = .ok (some .isNotNull)) :
    Partitions printable d offered value row := by
  rw [partitions_iff, keeps_eq, keeps_eq, hempty, hnotEmpty, empty_iff_null htype]
  cases row.cells offered.column.name <;> simp [keptBy, Condition.eval]

/-- Filters that keep the same rows do not part them. -/
theorem not_partitions_of_same
    (hsame : keptBy d (row.cells offered.column.name)
      (outcome printable offered.toAllowed .isEmpty value) =
      keptBy d (row.cells offered.column.name)
        (outcome printable offered.toAllowed .isNotEmpty value)) :
    ¬Partitions printable d offered value row := by
  intro h
  have hone := h.one
  rw [keeps_eq, keeps_eq, hsame] at hone
  exact hone rfl

/-- Where an empty value is no filter, it is none for both operators. -/
theorem not_partitions_of_empty (htype : offered.column.type ≠ .uuid)
    (hvalue : ¬value.truthy = true) :
    ¬Partitions printable d offered value row := by
  have hnone : ∀ operator, outcome printable offered.toAllowed operator value = .ok none :=
    fun operator => by
    have hfalse : value.truthy = false := by simpa using hvalue
    unfold outcome conditionFor
    cases hcolumn : offered.column.type <;> simp_all
  exact not_partitions_of_same (by rw [hnone, hnone])

/-- A text column is compared with the empty text, by both filters. -/
theorem partitions_str_iff (htype : offered.column.type = .str) :
    Partitions printable d offered value row ↔
    value.truthy = true ∧ row.cells offered.column.name ≠ none := by
  by_cases htruthy : value.truthy = true
  · have hempty :
        outcome printable offered.toAllowed .isEmpty value =
        .ok (some (.compare .eq (.str ""))) := by
      simp only [outcome, conditionFor, htype, htruthy, stringFilter]
    have hnotEmpty :
        outcome printable offered.toAllowed .isNotEmpty value =
        .ok (some (.compare .ne (.str ""))) := by
      simp only [outcome, conditionFor, htype, htruthy, stringFilter]
    rw [partitions_iff, keeps_eq, keeps_eq, hempty, hnotEmpty, and_iff_right htruthy]
    cases row.cells offered.column.name <;> simp [keptBy, Condition.eval, Comparison.holds, Empty]
  · exact iff_of_false (not_partitions_of_empty (by simp [htype]) htruthy) fun h => htruthy h.1

/-- A date or datetime column asks for the operator behind the shortcut, and before the value is
read. -/
theorem partitions_temporal_iff (htype : offered.column.type = .date ∨
    offered.column.type = .datetime) :
    Partitions printable d offered value row ↔ value.truthy = true := by
  by_cases htruthy : value.truthy = true
  · refine iff_of_true (partitions_of_null ?_ ?_ ?_) htruthy <;> rcases htype with htype | htype <;>
      simp [outcome, conditionFor, htype, htruthy, dateFilter, datetimeFilter, temporalFilter]
  · refine iff_of_false (not_partitions_of_empty ?_ htruthy) htruthy
    rcases htype with htype | htype <;> simp [htype]

/-- A text is read as an integer before the operator is asked for. -/
theorem integerFilter_null (field : String) {s : String} (hinteger : isInteger s = true)
    (hlimit : (integerDigits s.toList).length ≤ 4300) :
    integerFilter ⟨field, .isEmpty, .text s⟩ = .ok (some .isNull) ∧
      integerFilter ⟨field, .isNotEmpty, .text s⟩ = .ok (some .isNotNull) := by
  have hread : pyInt s ≠ none := by
    rw [ne_eq, pyInt_eq_none_iff hinteger]
    omega
  obtain ⟨n, hn⟩ := Option.ne_none_iff_exists'.mp hread
  constructor <;> simp only [integerFilter, hinteger, readInt, hn] <;> rfl

/-- What is read as no integer fails in the same way for both operators, a list with two texts. -/
theorem integerFilter_refused (field : String) (h : ¬∃ s, value = .text s ∧ isInteger s = true ∧
    (integerDigits s.toList).length ≤ 4300) (operator : Operator)
    (hoperator : operator = .isEmpty ∨ operator = .isNotEmpty) :
    ∃ e, integerFilter ⟨field, operator, value⟩ = .error e := by
  cases value with
  | texts l => rcases hoperator with rfl | rfl <;> exact ⟨_, rfl⟩
  | text s =>
    by_cases hinteger : isInteger s = true
    · have hlong : pyInt s = none := (pyInt_eq_none_iff hinteger).mpr
        (Nat.lt_of_not_le fun hlimit => h ⟨s, rfl, hinteger, hlimit⟩)
      exact ⟨.digitLimit, by simp only [integerFilter, hinteger, readInt, hlong]; rfl⟩
    · exact ⟨_, by simp only [integerFilter, hinteger]; rfl⟩

/-- An integer column is partitioned exactly by texts that look like an integer and that `int` can
read. -/
theorem partitions_int_iff (htype : offered.column.type = .int) :
    Partitions printable d offered value row ↔
    ∃ s, value = .text s ∧ isInteger s = true ∧ (integerDigits s.toList).length ≤ 4300 := by
  by_cases hasked :
    ∃ s, value = .text s ∧ isInteger s = true ∧ (integerDigits s.toList).length ≤ 4300
  · refine iff_of_true ?_ hasked
    obtain ⟨s, rfl, hinteger, hlimit⟩ := hasked
    have htruthy : FilterValue.truthy (.text s) = true := by
      have hne : s ≠ "" := by
        rintro rfl
        exact absurd hinteger (by decide)
      simpa [FilterValue.truthy] using hne
    obtain ⟨hempty, hnotEmpty⟩ := integerFilter_null offered.field hinteger hlimit
    exact partitions_of_null (by simp [htype])
      (by simp only [outcome, conditionFor, htype, htruthy, hempty])
      (by simp only [outcome, conditionFor, htype, htruthy, hnotEmpty])
  · refine iff_of_false ?_ hasked
    by_cases htruthy : value.truthy = true
    · obtain ⟨e, he⟩ := integerFilter_refused offered.field hasked .isEmpty (.inl rfl)
      obtain ⟨e', he'⟩ := integerFilter_refused offered.field hasked .isNotEmpty (.inr rfl)
      apply not_partitions_of_same
      simp only [outcome, conditionFor, htype, htruthy, he, he', keptBy]
    · exact not_partitions_of_empty (by simp [htype]) htruthy

/-- The branch of UUIDs asks for the operator first. -/
theorem partitions_uuid (htype : offered.column.type = .uuid) :
    Partitions printable d offered value row :=
  partitions_of_null (by simp [htype]) (by simp [outcome, conditionFor, htype, uuidFilter])
    (by simp [outcome, conditionFor, htype, uuidFilter])

variable (printable d offered value row)

/-- The filters part the rows exactly where their branch is asked as it expects. -/
theorem partitions_iff_asked :
    Partitions printable d offered value row ↔
      Asked value (row.cells offered.column.name) offered.type := by
  have htyped := offered.typed
  cases htype : offered.type <;> rw [htype] at htyped
  case str => exact partitions_str_iff htyped
  case int => exact partitions_int_iff htyped
  case date => exact partitions_temporal_iff (.inl htyped)
  case datetime => exact partitions_temporal_iff (.inr htyped)
  case uuid => exact iff_of_true (partitions_uuid htyped) trivial

/-- A column of names, filtered by its own name. -/
def nameColumn : Column := ⟨"name", .str⟩

def nameFilters : Offered fun field => if field = "name" then some nameColumn else none where
  field := "name"
  column := nameColumn
  found := rfl
  type := .str
  typed := rfl

def named : Row nameColumn where
  cells _ := some (.str "a")
  typed value h := by cases h; rfl

/-- The default value: both filters keep a row with a name in it. -/
theorem default_value_keeps_both :
    ¬Partitions (fun _ => true)
      (backslash fun _ _ => false) nameFilters (.text "") named := fun h =>
  h.one (propext (iff_of_true rfl rfl))

end EmptinessFilters
