import Jararaca.SortFilters

/-!
# Filters applied or rejected

`create_query_for_filter_list` on the filters of a client. A filter is rejected with the error
that is answered, adds a condition with operands of the type of its column, or does neither: an
error of another kind leaves the applier, a list is compared with a text column, or of a list of
values one that does not parse is passed over.
-/
namespace TypedFilters

open SortFilters
open ValueParsers (isInteger integerDigits parseDate parseDateTime parseUuid strip
  pyInt_eq_none_iff)
open Messages (pyInt)

/-! ## Values and operators -/

/-- A numeral above the limit of `int`. -/
def AboveLimit (s : String) : Prop := isInteger s = true ∧ 4300 < (integerDigits s.toList).length

/-- Whether a text is read as a value of a type. -/
def parses (s : String) : ColumnType → Bool
  | .int => isInteger s && decide ((integerDigits s.toList).length ≤ 4300)
  | .date => (parseDate s).isSome
  | .datetime => (parseDateTime s).isSome
  | .uuid => (parseUuid s).isSome
  | _ => true

def stringOperators : List Operator :=
  [.contains, .doesNotContain, .equals, .doesNotEqual, .startsWith, .endsWith, .isEmpty,
    .isNotEmpty, .isAnyOf]

def dateDatetimeOperators : List Operator :=
  [.is, .not, .after, .onOrAfter, .before, .onOrBefore, .isEmpty, .isNotEmpty]

def numberOperators : List Operator := [.eq, .ne, .gt, .lt, .ge, .le, .isEmpty, .isNotEmpty]

def uuidOperators : List Operator := [.equals, .is, .doesNotEqual, .not]

/-- The operators that take no value. -/
def emptinessOperators : List Operator := [.isEmpty, .isNotEmpty]

/-! ## What becomes of a filter -/

/-- The filters on a column that end in another error than `InvalidFilterError`: `isAnyOf` of a
text, a numeral above the limit, a column of another type. -/
def Crashes (op : Operator) (value : FilterValue) : ColumnType → Prop
  | .str => op = .isAnyOf ∧ value.truthy = true ∧ ∃ s, value = .text s
  | .int => (∃ s, value = .text s ∧ AboveLimit s) ∨
      op = .isAnyOf ∧ ∃ l, value = .texts l ∧ ∃ s ∈ l, AboveLimit s
  | .other _ => value.truthy = true
  | _ => False

/-- A date or datetime: no value of the type, or no operator of the type. -/
def TemporalRejects (op : Operator) (value : FilterValue) (type : ColumnType) : Prop :=
  value.truthy = true ∧ op ∉ emptinessOperators ∧ strip value.first.toList ≠ [] ∧
    (parses value.first type = false ∨ op ∉ dateDatetimeOperators)

/-- The filters on a column that are rejected: an operator that its type does not have, or a value
that does not parse where it is looked at. -/
def Rejects (op : Operator) (value : FilterValue) : ColumnType → Prop
  | .str => value.truthy = true ∧ op ∉ stringOperators
  | .bool => value.truthy = true ∧ op ≠ .is
  | .date => TemporalRejects op value .date
  | .datetime => TemporalRejects op value .datetime
  | .int =>
    match value with
    | .texts l => l ≠ [] ∧ op ≠ .isAnyOf
    | .text s => s ≠ "" ∧ (isInteger s = false ∨ ¬AboveLimit s ∧ op ∉ numberOperators)
  | .uuid => value.truthy = true ∧ op ∉ emptinessOperators ∧
      (op = .isAnyOf ∧ (∃ s ∈ value.all, parses s .uuid = false) ∨
        op ∈ uuidOperators ∧ parses value.first .uuid = false ∨ op ∉ .isAnyOf :: uuidOperators)
  | .other _ => False

/-- A text column compared with a list. -/
def ComparesList (op : Operator) (value : FilterValue) (type : ColumnType) : Prop :=
  type = .str ∧ op ∈ stringOperators ∧ op ∉ .isAnyOf :: emptinessOperators ∧
    ∃ l, value = .texts l ∧ l ≠ []

/-- A blank text is no value for a date, as an empty value is for every column. -/
def NoValue (s : String) : ColumnType → Prop
  | .date => strip s.toList = []
  | .datetime => strip s.toList = []
  | _ => False

/-- A value that does not parse, for an operator that takes a value. -/
def Unparsed (op : Operator) (value : FilterValue) (type : ColumnType) : Prop :=
  op ∉ emptinessOperators ∧ value.truthy = true ∧ ∃ s ∈ value.all, ¬NoValue s type ∧
    parses s type = false

/-- The operands of a condition are of the type of its column. -/
def Typed (type : ColumnType) : Condition → Prop
  | .compare _ operand => operand.hasType type = true
  | .textMatch _ _ operand => operand.hasType type = true
  | .inList operands => ∀ operand ∈ operands, operand.hasType type = true
  | .isNull => True
  | .isNotNull => True

/-- What a result of a filter says of it. -/
def Says (op : Operator) (value : FilterValue) (type : ColumnType) :
    Except Failure (Option Condition) → Prop
  | .error (.invalidFilter _) => Rejects op value type ∧ ¬Crashes op value type
  | .error _ => Crashes op value type ∧ ¬Rejects op value type
  | .ok none => ¬Rejects op value type ∧ ¬Crashes op value type ∧ ¬ComparesList op value type
  | .ok (some condition) => ¬Rejects op value type ∧ ¬Crashes op value type ∧
      (Typed type condition ↔ ¬ComparesList op value type)

theorem not_comparesList {op : Operator} {value : FilterValue} {type : ColumnType}
    (htype : type ≠ .str) :
    ¬ComparesList op value type := fun h => htype h.1

variable (printable : Char → Bool)

theorem stringFilter_spec (op : Operator) {value : FilterValue} (h : value.truthy = true) :
    Says op value .str (stringFilter op value) := by
  cases value with
  | text s =>
    cases op <;> simp [stringFilter, Says, invalid, Rejects, Crashes, ComparesList, stringOperators,
      emptinessOperators, Typed, PyValue.hasType, h]
  | texts l =>
    have hl : l ≠ [] := by simpa [FilterValue.truthy] using h
    cases op <;> simp [stringFilter, Says, invalid, Rejects, Crashes, ComparesList, stringOperators,
      emptinessOperators, Typed, PyValue.hasType, h, hl]

/-- What a filter on a boolean column says. -/
theorem boolFilter_spec (op : Operator) {value : FilterValue} (h : value.truthy = true) :
    Says op value .bool (boolFilter op value) := by
  by_cases hop : op = .is
  · subst hop
    by_cases hfirst : value.first = "" <;>
      simp [boolFilter, Says, Rejects, Crashes, ComparesList, Typed, PyValue.hasType, hfirst]
  · have hinvalid : boolFilter op value = invalid ("Unsupported bool operator: " ++ op.text) := by
      cases op <;> first | rfl | exact absurd rfl hop
    rw [hinvalid]
    exact ⟨⟨h, hop⟩, id⟩

section temporal

variable {type : ColumnType} (htype : type = .date ∨ type = .datetime)
include htype

theorem rejects_temporal (op : Operator) (value : FilterValue) :
    Rejects op value type = TemporalRejects op value type := by
  rcases htype with rfl | rfl <;> rfl

theorem not_crashes_temporal (op : Operator) (value : FilterValue) : ¬Crashes op value type := by
  rcases htype with rfl | rfl <;> exact id

theorem not_comparesList_temporal (op : Operator) (value : FilterValue) :
    ¬ComparesList op value type :=
  not_comparesList (by rcases htype with rfl | rfl <;> simp)

/-- The value decides, and where it was read the operator does. -/
theorem temporalCondition_spec (typeName field : String) {op : Operator} {value : FilterValue}
    (h : value.truthy = true) (hempty : op ∉ emptinessOperators)
    (hblank : strip value.first.toList ≠ [])
    {read : Option PyValue} (hread : read.isSome = parses value.first type)
    (htyped : ∀ v ∈ read, v.hasType type = true) :
    Says op value type
      (temporalCondition printable typeName ⟨field, op, value⟩ value.first read) := by
  have hrejects := rejects_temporal htype op value
  have hcrashes := not_crashes_temporal htype op value
  have hoperators : temporalComparison op = none ↔ op ∉ dateDatetimeOperators := by
    cases op <;> first | decide | exact absurd (by decide) hempty
  cases read with
  | none => exact ⟨hrejects ▸ ⟨h, hempty, hblank, .inl hread.symm⟩, hcrashes⟩
  | some v =>
    simp only [temporalCondition]
    cases hcomparison : temporalComparison op with
    | none => exact ⟨hrejects ▸ ⟨h, hempty, hblank, .inr (hoperators.mp hcomparison)⟩, hcrashes⟩
    | some comparison =>
      refine ⟨?_, hcrashes, iff_of_true (htyped v rfl) (not_comparesList_temporal htype op value)⟩
      rw [hrejects]
      rintro ⟨_, _, _, hunparsed | hop⟩
      · rw [← hread] at hunparsed
        cases hunparsed
      · rw [hoperators.mpr hop] at hcomparison
        cases hcomparison

/-- Dates and datetimes, with what their parser makes of a text. -/
theorem temporalFilter_spec (typeName : String) {parse : String → Option PyValue}
    (filter : FilterModel)
    (h : filter.value.truthy = true) (hparse : ∀ s, (parse s).isSome = parses s type)
    (htyped : ∀ s, ∀ v ∈ parse s, v.hasType type = true) :
    Says filter.operator filter.value type (temporalFilter printable typeName parse filter) := by
  obtain ⟨field, op, value⟩ := filter
  have hrejects := rejects_temporal htype op value
  have hcrashes := not_crashes_temporal htype op value
  have hlist := not_comparesList_temporal htype op value
  by_cases hempty : op ∈ emptinessOperators
  · have hnot : ¬TemporalRejects op value type := fun hr => hr.2.1 hempty
    simp only [emptinessOperators, List.mem_cons, List.not_mem_nil, or_false] at hempty
    rcases hempty with rfl | rfl <;> simp [temporalFilter, Says, hrejects, hnot, hcrashes,
      hlist, Typed]
  · have hfilter : temporalFilter printable typeName parse ⟨field, op, value⟩ =
        if strip value.first.toList = [] then .ok none
        else temporalCondition printable typeName ⟨field, op, value⟩ value.first
          (parse value.first) := by
      cases op <;> first | rfl | exact absurd (by decide) hempty
    rw [hfilter]
    by_cases hblank : strip value.first.toList = []
    · rw [if_pos hblank]
      exact ⟨hrejects ▸ fun hr => hr.2.2.1 hblank, hcrashes, hlist⟩
    · rw [if_neg hblank]
      exact temporalCondition_spec printable htype typeName field h hempty hblank (hparse _)
        (htyped _)

end temporal

theorem dateFilter_spec (filter : FilterModel) (h : filter.value.truthy = true) :
    Says filter.operator filter.value .date (dateFilter printable filter) :=
  temporalFilter_spec printable (.inl rfl) "date" filter h (fun s => by simp [parses]) fun s v hv =>
    by
    obtain ⟨date, _, rfl⟩ := Option.map_eq_some_iff.mp hv
    rfl

theorem datetimeFilter_spec (filter : FilterModel) (h : filter.value.truthy = true) :
    Says filter.operator filter.value .datetime (datetimeFilter printable filter) :=
  temporalFilter_spec printable (.inr rfl) "datetime" filter h
    (fun s => by simp [parses]) fun s v hv => by
    obtain ⟨date, _, rfl⟩ := Option.map_eq_some_iff.mp hv
    rfl

/-! ## Lists of values -/

/-- A list is read as a whole, or an error of one of its values comes out. -/
theorem mapM_cases {α β ε : Type} (f : α → Except ε β) (l : List α) :
    (∃ values, l.mapM f = .ok values ∧ ∀ a ∈ l, ∃ b, f a = .ok b) ∨
      ∃ e, l.mapM f = .error e ∧ ∃ a ∈ l, f a = .error e := by
  induction l with
  | nil => exact .inl ⟨[], rfl, fun a ha => by cases ha⟩
  | cons a l ih =>
    rw [List.mapM_cons]
    cases ha : f a with
    | error e => exact .inr ⟨e, rfl, a, List.mem_cons_self, ha⟩
    | ok b =>
      rcases ih with ⟨values, hvalues, hall⟩ | ⟨e, he, a', ha', hfa'⟩
      · refine .inl ⟨b :: values, by rw [hvalues]; rfl, ?_⟩
        exact List.forall_mem_cons.mpr ⟨⟨b, ha⟩, hall⟩
      · exact .inr ⟨e, by rw [he]; rfl, a', List.mem_cons_of_mem a ha', hfa'⟩

theorem readInt_cases {s : String} (h : isInteger s = true) :
    (readInt s = .error .digitLimit ∧ AboveLimit s) ∨ ∃ n, readInt s = .ok n ∧ ¬AboveLimit s := by
  have hlimit := pyInt_eq_none_iff h
  cases hread : pyInt s with
  | none => exact .inl ⟨by rw [readInt, hread], h, hlimit.mp hread⟩
  | some n =>
    refine .inr ⟨n, by rw [readInt, hread], fun habove => ?_⟩
    rw [hlimit.mpr habove.2] at hread
    cases hread

/-- Of a list the numerals are read, and one above the limit raises. -/
theorem integerFilter_isAnyOf_spec (field : String) {l : List String} (hl : l ≠ []) :
    Says .isAnyOf (.texts l) .int (integerFilter ⟨field, .isAnyOf, .texts l⟩) := by
  simp only [integerFilter, if_neg hl]
  rcases mapM_cases readInt (l.filter isInteger) with
    ⟨values, hvalues, hall⟩ | ⟨e, he, s, hs, hread⟩
  · rw [hvalues]
    refine ⟨fun hr => hr.2 rfl, ?_, iff_of_true ?_ (not_comparesList (by simp))⟩
    · rintro (⟨s, hs, _⟩ | ⟨_, l', hl', s, hs, habove⟩)
      · cases hs
      · cases hl'
        obtain ⟨n, hn⟩ := hall s (List.mem_filter.mpr ⟨hs, habove.1⟩)
        rcases readInt_cases habove.1 with ⟨herror, _⟩ | ⟨_, _, hnot⟩
        · rw [herror] at hn
          cases hn
        · exact hnot habove
    · simp [Typed, PyValue.hasType]
  · rw [he]
    obtain ⟨hmem, hinteger⟩ := List.mem_filter.mp hs
    rcases readInt_cases hinteger with ⟨herror, habove⟩ | ⟨n, hn, _⟩
    · rw [herror] at hread
      cases hread
      exact ⟨.inr ⟨rfl, l, rfl, s, hmem, habove⟩, fun hr => hr.2 rfl⟩
    · rw [hn] at hread
      cases hread

theorem integerFilter_texts_spec (field : String) (op : Operator) {l : List String} (hl : l ≠ []) :
    Says op (.texts l) .int (integerFilter ⟨field, op, .texts l⟩) := by
  by_cases hop : op = .isAnyOf
  · rw [hop]
    exact integerFilter_isAnyOf_spec field hl
  · have hinvalid : integerFilter ⟨field, op, .texts l⟩ =
        invalid ("Unsupported int operator: " ++ op.text ++ " for list") := by
      cases op <;> first | rfl | exact absurd rfl hop
    rw [hinvalid]
    refine ⟨⟨hl, hop⟩, ?_⟩
    rintro (⟨s, hs, _⟩ | ⟨hany, _⟩)
    · cases hs
    · exact hop hany

/-- A text that was read as an integer: the operator decides. -/
theorem integerFilter_number_spec (field : String) (op : Operator) {s : String} (hs : s ≠ "")
    (hinteger : isInteger s = true) {n : Int} (hn : readInt s = .ok n) (hnot : ¬AboveLimit s) :
    Says op (.text s) .int (integerFilter ⟨field, op, .text s⟩) := by
  have hcrash : ¬Crashes op (.text s) .int := by simpa [Crashes] using hnot
  by_cases hop : op ∈ numberOperators
  · have hreject : ¬Rejects op (.text s) .int := by simp [Rejects, hinteger, hop]
    simp only [numberOperators, List.mem_cons, List.not_mem_nil, or_false] at hop
    rcases hop with rfl | rfl | rfl | rfl | rfl | rfl | rfl | rfl <;> simp only [integerFilter,
      hinteger, hn] <;>
      exact ⟨hreject, hcrash, iff_of_true (by simp [Typed, PyValue.hasType])
        (not_comparesList (by simp))⟩
  · have hinvalid : integerFilter ⟨field, op, .text s⟩ =
        invalid ("Unsupported int operator: " ++ op.text ++ " for single value") := by
      simp only [integerFilter, hinteger, hn]
      cases op <;> first | rfl | exact absurd (by decide) hop
    rw [hinvalid]
    exact ⟨⟨hs, .inr ⟨hnot, hop⟩⟩, hcrash⟩

/-- What a text says on an integer column. -/
theorem integerFilter_text_spec (field : String) (op : Operator) {s : String} (hs : s ≠ "") :
    Says op (.text s) .int (integerFilter ⟨field, op, .text s⟩) := by
  have hcrashes : Crashes op (.text s) .int ↔ AboveLimit s := by simp [Crashes]
  cases hinteger : isInteger s with
  | false =>
    have hinvalid : integerFilter ⟨field, op, .text s⟩ =
        invalid ("Invalid integer value: " ++ s ++ " for field " ++ field) := by
      simp only [integerFilter, hinteger]
      rfl
    rw [hinvalid]
    refine ⟨⟨hs, .inl hinteger⟩, fun hc => ?_⟩
    rw [(hcrashes.mp hc).1] at hinteger
    cases hinteger
  | true =>
    rcases readInt_cases hinteger with ⟨herror, habove⟩ | ⟨n, hn, hnot⟩
    · have herror : integerFilter ⟨field, op, .text s⟩ = .error .digitLimit := by
        simp only [integerFilter, hinteger, herror]
        rfl
      rw [herror]
      exact ⟨hcrashes.mpr habove, by simp [Rejects, hinteger, habove]⟩
    · exact integerFilter_number_spec field op hs hinteger hn hnot

theorem integerFilter_spec (filter : FilterModel) (h : filter.value.truthy = true) :
    Says filter.operator filter.value .int (integerFilter filter) := by
  obtain ⟨field, op, value⟩ := filter
  cases value with
  | texts l => exact integerFilter_texts_spec field op (by simpa [FilterValue.truthy] using h)
  | text s => exact integerFilter_text_spec field op (by simpa [FilterValue.truthy] using h)

/-! ## UUIDs -/

theorem readUuid_cases (fieldName raw : String) :
    (∃ e, readUuid printable fieldName raw = .error (.invalidFilter e) ∧ parses raw .uuid = false) ∨
      ∃ u, readUuid printable fieldName raw = .ok u ∧ parses raw .uuid = true := by
  unfold readUuid parses
  cases parseUuid raw with
  | none => exact .inl ⟨_, rfl, rfl⟩
  | some u => exact .inr ⟨u, rfl, rfl⟩

variable (field : String)

/-- What `isAnyOf` says on a column of UUIDs. -/
theorem isAnyOf_spec {value : FilterValue} (htruthy : value.truthy = true) :
    Says .isAnyOf value .uuid (uuidFilter printable ⟨field, .isAnyOf, value⟩) := by
  have hlist : ¬ComparesList .isAnyOf value .uuid := not_comparesList (by simp)
  simp only [uuidFilter, htruthy, if_true]
  rcases mapM_cases (readUuid printable field) value.all with
    ⟨values, hvalues, hall⟩ | ⟨e, he, s, hs, hread⟩
  · rw [hvalues]
    refine ⟨?_, id, iff_of_true (by simp [Typed, PyValue.hasType]) hlist⟩
    rintro ⟨_, _, ⟨_, s, hs, hunparsed⟩ | ⟨hop, _⟩ | hop⟩
    · obtain ⟨u, hu⟩ := hall s hs
      rcases readUuid_cases printable field s with ⟨e, he, _⟩ | ⟨_, _, hparsed⟩
      · rw [he] at hu
        cases hu
      · rw [hparsed] at hunparsed
        cases hunparsed
    · exact absurd hop (by decide)
    · exact absurd hop (by decide)
  · rw [he]
    rcases readUuid_cases printable field s with ⟨e', he', hunparsed⟩ | ⟨u, hu, _⟩
    · rw [he'] at hread
      cases hread
      exact ⟨⟨htruthy, by decide, .inl ⟨rfl, s, hs, hunparsed⟩⟩, id⟩
    · rw [hu] at hread
      cases hread

theorem uuidFilter_comparison {op : Operator} {value : FilterValue} (htruthy : value.truthy = true)
    (hop : op ∈ uuidOperators) : ∃ comparison, uuidFilter printable ⟨field, op, value⟩ =
      (readUuid printable field value.first).map fun u => some (.compare comparison (.uuid u)) := by
  simp only [uuidOperators, List.mem_cons, List.not_mem_nil, or_false] at hop
  rcases hop with rfl | rfl | rfl | rfl <;> simp only [uuidFilter, htruthy, if_true] <;>
    cases readUuid printable field value.first
  · exact ⟨.eq, rfl⟩
  · exact ⟨.eq, rfl⟩
  · exact ⟨.eq, rfl⟩
  · exact ⟨.eq, rfl⟩
  · exact ⟨.ne, rfl⟩
  · exact ⟨.ne, rfl⟩
  · exact ⟨.ne, rfl⟩
  · exact ⟨.ne, rfl⟩

/-- The operators that compare with the first value. -/
theorem comparison_spec {op : Operator} {value : FilterValue} (htruthy : value.truthy = true)
    (hop : op ∈ uuidOperators) : Says op value .uuid (uuidFilter printable ⟨field, op, value⟩) := by
  have hlist : ¬ComparesList op value .uuid := not_comparesList (by simp)
  have hother : op ≠ .isAnyOf ∧ op ∉ emptinessOperators := by
    cases op <;> first | decide | exact absurd hop (by decide)
  obtain ⟨comparison, hfilter⟩ := uuidFilter_comparison printable field htruthy hop
  rw [hfilter]
  have hread := readUuid_cases printable field value.first
  generalize readUuid printable field value.first = result at hread ⊢
  rcases hread with ⟨e, rfl, hunparsed⟩ | ⟨u, rfl, hparsed⟩
  · exact ⟨⟨htruthy, hother.2, .inr (.inl ⟨hop, hunparsed⟩)⟩, id⟩
  · refine ⟨fun hr => ?_, id, iff_of_true rfl hlist⟩
    rcases hr.2.2 with ⟨hanyOf, _⟩ | ⟨_, hunparsed⟩ | hnone
    · exact hother.1 hanyOf
    · rw [hparsed] at hunparsed
      cases hunparsed
    · exact hnone (List.mem_cons_of_mem _ hop)

/-- What any operator says there. -/
theorem uuidFilter_spec (op : Operator) (value : FilterValue) :
    Says op value .uuid (uuidFilter printable ⟨field, op, value⟩) := by
  by_cases hempty : op ∈ emptinessOperators
  · have hlist : ¬ComparesList op value .uuid := not_comparesList (by simp)
    have hreject : ¬Rejects op value .uuid := fun hr => hr.2.1 hempty
    simp only [emptinessOperators, List.mem_cons, List.not_mem_nil, or_false] at hempty
    rcases hempty with rfl | rfl <;> exact ⟨hreject, id, iff_of_true trivial hlist⟩
  · cases htruthy : value.truthy with
    | false =>
      have hnone : uuidFilter printable ⟨field, op, value⟩ = .ok none := by
        cases op <;> first | exact absurd (by decide) hempty | simp [uuidFilter, htruthy]
      rw [hnone]
      refine ⟨fun hr => ?_, id, not_comparesList (by simp)⟩
      have hvalue := hr.1
      rw [htruthy] at hvalue
      cases hvalue
    | true =>
      by_cases hany : op = .isAnyOf
      · subst hany
        exact isAnyOf_spec printable field htruthy
      · by_cases hop : op ∈ uuidOperators
        · exact comparison_spec printable field htruthy hop
        · have hinvalid : uuidFilter printable ⟨field, op, value⟩ =
              invalid ("Unsupported uuid operator: " ++ op.text) := by
            cases op <;> first
              | exact absurd (by decide) hempty
              | exact absurd (by decide) hop
              | exact absurd rfl hany
              | (simp only [uuidFilter, htruthy, if_true])
          rw [hinvalid]
          refine ⟨⟨htruthy, hempty, .inr (.inr fun hmem => ?_)⟩, id⟩
          rcases List.mem_cons.mp hmem with hanyOf | hmem
          · exact hany hanyOf
          · exact hop hmem

/-! ## One filter -/

theorem not_truthy {value : FilterValue} (h : value.truthy = false) :
    value = .text "" ∨ value = .texts [] := by
  cases value with
  | text s => exact .inl (by simpa [FilterValue.truthy] using h)
  | texts l => exact .inr (by simpa [FilterValue.truthy] using h)

/-- Without a value a filter is none, but on a UUID column. -/
theorem none_spec (op : Operator) {value : FilterValue} {type : ColumnType} (htype : type ≠ .uuid)
    (h : value.truthy = false) : Says op value type (.ok none) := by
  have habove : ¬AboveLimit "" := fun habove => absurd habove.1 (by decide)
  rcases not_truthy h with rfl | rfl <;> cases type <;>
    simp [Says, Rejects, Crashes, ComparesList, TemporalRejects, FilterValue.truthy,
      habove] at htype ⊢

/-- What a filter says, for every column type. -/
theorem conditionFor_spec (type : ColumnType) (filter : FilterModel) :
    Says filter.operator filter.value type (conditionFor printable type filter) := by
  cases htruthy : filter.value.truthy with
  | false =>
    cases type with
    | uuid => exact uuidFilter_spec printable filter.field filter.operator filter.value
    | _ =>
      simp only [conditionFor, htruthy]
      exact none_spec filter.operator (by simp) htruthy
  | true =>
    cases type <;> simp only [conditionFor, htruthy]
    case str => exact stringFilter_spec filter.operator htruthy
    case int => exact integerFilter_spec filter htruthy
    case bool => exact boolFilter_spec filter.operator htruthy
    case date => exact dateFilter_spec printable filter htruthy
    case datetime => exact datetimeFilter_spec printable filter htruthy
    case uuid => exact uuidFilter_spec printable filter.field filter.operator filter.value
    case other name => exact ⟨htruthy, id⟩

/-! ## A list of filters -/

section list

variable (allowedFilters : String → Option Column)

/-- A filter on an allowed field for whose column something holds. -/
def On (P : Operator → FilterValue → ColumnType → Prop) (filter : FilterModel) : Prop :=
  ∃ column, allowedFilters filter.field = some column ∧ P filter.operator filter.value column.type

/-- A filter on an unknown field, or one that its column rejects. -/
def RejectsFilter (filter : FilterModel) : Prop :=
  allowedFilters filter.field = none ∨ On allowedFilters Rejects filter

/-- Every operand that was added is of the type of its column. -/
def AllTyped (added : Query) : Prop := ∀ condition ∈ added, Typed condition.1.type condition.2

/-- What is asked of the filters of a client: they are rejected with `InvalidFilterError`, or a
query comes back whose new conditions have operands of the types of their columns, and no value that
does not parse was passed over. -/
def Handled (query : Query) (filters : List FilterModel) : Prop :=
  match createQueryForFilterList printable allowedFilters query filters with
  | .error (.invalidFilter _) => True
  | .error _ => False
  | .ok result => (∃ added, result = query ++ added ∧ AllTyped added) ∧
      ∀ filter ∈ filters, ¬On allowedFilters Unparsed filter

/-- A filter is rejected, and none before it crashes. -/
def RejectedFirst (filters : List FilterModel) : Prop :=
  ∃ before filter after, filters = before ++ filter :: after ∧
    (∀ other ∈ before, ¬On allowedFilters Crashes other) ∧ RejectsFilter allowedFilters filter

/-- What a result of one filter says of it. -/
def FilterSays (query : Query) (filter : FilterModel) : Except Failure Query → Prop
  | .error (.invalidFilter _) =>
    RejectsFilter allowedFilters filter ∧ ¬On allowedFilters Crashes filter
  | .error _ => On allowedFilters Crashes filter ∧ ¬RejectsFilter allowedFilters filter
  | .ok result => ¬RejectsFilter allowedFilters filter ∧ ¬On allowedFilters Crashes filter ∧
      ∃ added, result = query ++ added ∧ (AllTyped added ↔ ¬On allowedFilters ComparesList filter)

/-- What a result of a list of filters says of them. -/
def ListSays (query : Query) (filters : List FilterModel) : Except Failure Query → Prop
  | .error (.invalidFilter _) => RejectedFirst allowedFilters filters
  | .error _ => (∃ filter ∈ filters, On allowedFilters Crashes filter) ∧
      ¬RejectedFirst allowedFilters filters
  | .ok result => (∀ filter ∈ filters, ¬On allowedFilters Crashes filter) ∧
      ¬RejectedFirst allowedFilters filters ∧ ∃ added, result = query ++ added ∧
        (AllTyped added ↔ ∀ filter ∈ filters, ¬On allowedFilters ComparesList filter)

variable {allowedFilters}

theorem on_iff {P : Operator → FilterValue → ColumnType → Prop} {filter : FilterModel}
    {column : Column}
    (h : allowedFilters filter.field = some column) :
    On allowedFilters P filter ↔ P filter.operator filter.value column.type := by
  simp [On, h]

/-- What one filter adds to the query, or how it is refused. -/
theorem createQueryForFilter_spec (query : Query) (filter : FilterModel) :
    FilterSays allowedFilters query filter
    (createQueryForFilter printable allowedFilters query filter) := by
  cases hfield : allowedFilters filter.field with
  | none =>
    simp only [createQueryForFilter, hfield]
    exact ⟨.inl hfield, by simp [On, hfield]⟩
  | some column =>
    have hreject :
        RejectsFilter allowedFilters filter ↔ Rejects filter.operator filter.value column.type := by
      simp [RejectsFilter, on_iff hfield, hfield]
    have hspec := conditionFor_spec printable column.type filter
    simp only [createQueryForFilter, hfield]
    cases hresult : conditionFor printable column.type filter with
    | error e =>
      rw [hresult] at hspec
      cases e <;> simp only [FilterSays, Except.map, hreject, on_iff hfield] <;> exact hspec
    | ok condition =>
      rw [hresult] at hspec
      simp only [FilterSays, Except.map, hreject, on_iff hfield]
      cases condition with
      | none => exact ⟨hspec.1, hspec.2.1, [], rfl, iff_of_true (by simp [AllTyped]) hspec.2.2⟩
      | some condition =>
        exact ⟨hspec.1, hspec.2.1, [(column, condition)], rfl, by simpa [AllTyped] using hspec.2.2⟩

/-- The first of the filters that is not applied decides. -/
theorem rejectedFirst_cons {filter : FilterModel} {filters : List FilterModel} :
    RejectedFirst allowedFilters (filter :: filters) ↔ RejectsFilter allowedFilters filter ∨
      ¬On allowedFilters Crashes filter ∧ RejectedFirst allowedFilters filters := by
  constructor
  · rintro ⟨before, rejected, after, heq, hbefore, hreject⟩
    cases before with
    | nil =>
      cases heq
      exact .inl hreject
    | cons other before =>
      cases heq
      exact .inr ⟨hbefore _ List.mem_cons_self, before, rejected, after, rfl,
        fun other hother => hbefore other (List.mem_cons_of_mem _ hother), hreject⟩
  · rintro (hreject | ⟨hcrash, before, rejected, after, rfl, hbefore, hreject⟩)
    · exact ⟨[], filter, filters, rfl, by simp, hreject⟩
    · exact ⟨filter :: before, rejected, after, rfl,
        List.forall_mem_cons.mpr ⟨hcrash, hbefore⟩, hreject⟩

/-- The fold stops at the first filter that raises. -/
theorem createQueryForFilterList_spec (query : Query) (filters : List FilterModel) :
    ListSays allowedFilters query filters
      (createQueryForFilterList printable allowedFilters query filters) := by
  induction filters generalizing query with
  | nil => exact ⟨by simp, by simp [RejectedFirst], [], by simp, by simp [AllTyped]⟩
  | cons filter filters ih =>
    have hfilter : FilterSays allowedFilters query filter _ :=
      createQueryForFilter_spec printable query filter
    unfold createQueryForFilterList
    rw [List.foldlM_cons]
    cases hquery : createQueryForFilter printable allowedFilters query filter with
    | error e =>
      rw [hquery] at hfilter
      have hcrashed : On allowedFilters Crashes filter ∧ ¬RejectsFilter allowedFilters filter →
          (∃ other ∈ filter :: filters, On allowedFilters Crashes other) ∧
            ¬RejectedFirst allowedFilters (filter :: filters) := fun ⟨hcrash, hreject⟩ => by
        rw [rejectedFirst_cons]
        exact ⟨⟨filter, List.mem_cons_self, hcrash⟩, by simp [hcrash, hreject]⟩
      cases e with
      | invalidFilter e => exact rejectedFirst_cons.mpr (.inl hfilter.1)
      | unsupportedType text => exact hcrashed hfilter
      | digitLimit => exact hcrashed hfilter
      | argumentError => exact hcrashed hfilter
    | ok query' =>
      rw [hquery] at hfilter
      obtain ⟨hreject, hcrash, added, rfl, htyped⟩ := hfilter
      have hrest := ih (query ++ added)
      have hfirst : RejectedFirst allowedFilters (filter :: filters) ↔
          RejectedFirst allowedFilters filters := by
        rw [rejectedFirst_cons]
        simp [hreject, hcrash]
      change ListSays allowedFilters query (filter :: filters)
        (createQueryForFilterList printable allowedFilters (query ++ added) filters)
      cases hresult :
        createQueryForFilterList printable allowedFilters (query ++ added) filters with
      | error e =>
        rw [hresult] at hrest
        have hcrashed : (∃ other ∈ filters, On allowedFilters Crashes other) ∧
            ¬RejectedFirst allowedFilters filters →
              (∃ other ∈ filter :: filters, On allowedFilters Crashes other) ∧
                ¬RejectedFirst allowedFilters (filter :: filters) :=
          fun ⟨⟨other, hother, hcrash⟩, hnot⟩ =>
            ⟨⟨other, List.mem_cons_of_mem _ hother, hcrash⟩, hfirst.not.mpr hnot⟩
        cases e with
        | invalidFilter e => exact hfirst.mpr hrest
        | unsupportedType text => exact hcrashed hrest
        | digitLimit => exact hcrashed hrest
        | argumentError => exact hcrashed hrest
      | ok result =>
        rw [hresult] at hrest
        obtain ⟨hcrashes, hnot, more, rfl, hmore⟩ := hrest
        refine ⟨List.forall_mem_cons.mpr ⟨hcrash, hcrashes⟩, hfirst.not.mpr hnot, added ++ more,
          List.append_assoc _ _ _, ?_⟩
        rw [List.forall_mem_cons, ← htyped, ← hmore]
        exact List.forall_mem_append

variable (allowedFilters)

/-- The filters are handled exactly where one is rejected before any crashes, or none crashes,
compares a text column with a list or has a value that does not parse. -/
theorem handled_iff (query : Query) (filters : List FilterModel) :
    Handled printable allowedFilters query filters ↔ RejectedFirst allowedFilters filters ∨
      ∀ filter ∈ filters, ¬On allowedFilters Crashes filter ∧
        ¬On allowedFilters ComparesList filter ∧
        ¬On allowedFilters Unparsed filter := by
  have hspec : ListSays allowedFilters query filters _ :=
    createQueryForFilterList_spec printable query filters
  unfold Handled
  cases hresult : createQueryForFilterList printable allowedFilters query filters with
  | error e =>
    rw [hresult] at hspec
    have hcrashed : (∃ filter ∈ filters, On allowedFilters Crashes filter) ∧
        ¬RejectedFirst allowedFilters filters →
          ¬(RejectedFirst allowedFilters filters ∨ ∀ filter ∈ filters,
            ¬On allowedFilters Crashes filter ∧
            ¬On allowedFilters ComparesList filter ∧ ¬On allowedFilters Unparsed filter) := by
      rintro ⟨⟨filter, hfilter, hcrash⟩, hnot⟩ (hreject | happlied)
      · exact hnot hreject
      · exact (happlied filter hfilter).1 hcrash
    cases e with
    | invalidFilter e => exact iff_of_true trivial (.inl hspec)
    | unsupportedType text => exact iff_of_false id (hcrashed hspec)
    | digitLimit => exact iff_of_false id (hcrashed hspec)
    | argumentError => exact iff_of_false id (hcrashed hspec)
  | ok result =>
    rw [hresult] at hspec
    obtain ⟨hcrashes, hnot, added, rfl, htyped⟩ := hspec
    rw [or_iff_right hnot]
    constructor
    · rintro ⟨⟨added', hadded, htyped'⟩, hparsed⟩ filter hfilter
      rw [← List.append_cancel_left hadded] at htyped'
      exact ⟨hcrashes filter hfilter, htyped.mp htyped' filter hfilter, hparsed filter hfilter⟩
    · intro happlied
      exact ⟨⟨added, rfl, htyped.mpr fun filter hfilter => (happlied filter hfilter).2.1⟩,
        fun filter hfilter => (happlied filter hfilter).2.2⟩

end list

def countColumn : Column := ⟨"count", .int⟩

def ticketFilters (field : String) : Option Column :=
  if field = "count" then some countColumn else if field = "name" then some ⟨"name", .str⟩ else none

/-- A list of integers with a word in it, and a text for a list of names: the word is passed over,
and SQLAlchemy's error is no rejection. -/
theorem word_passed_over :
    ¬Handled (fun _ => true) ticketFilters [] [⟨"count", .isAnyOf, .texts ["1", "x"]⟩] ∧
      ¬Handled (fun _ => true) ticketFilters [] [⟨"name", .isAnyOf, .text "a"⟩] := by
  constructor
  · intro h
    have hresult : createQueryForFilterList (fun _ => true) ticketFilters []
        [⟨"count", .isAnyOf, .texts ["1", "x"]⟩] =
          .ok [(countColumn, .inList [.int 1])] := by decide +kernel
    rw [Handled, hresult] at h
    exact h.2 _ List.mem_cons_self ⟨countColumn, rfl, by decide, rfl, "x", by decide, id, by decide⟩
  · exact id

end TypedFilters
