import Jararaca.ValueParsers
import Jararaca.LikePatterns

/-!
# Filters of a query

`FilterRuleApplier` of persistence/sort_filter.py. A filter adds at most one condition on one
column to a query, or raises. The conditions are those that SQLAlchemy builds, on rows whose
cells may be NULL; a row is kept where every condition is true, and NULL is not true.
-/
namespace SortFilters

open ValueParsers (Date DateTime UUID isInteger parseDate parseDateTime parseUuid strip)
open LikePatterns (Like)

/-! ## Filters and columns -/

inductive Operator where
  | contains
  | doesNotContain
  | equals
  | doesNotEqual
  | startsWith
  | endsWith
  | isEmpty
  | isNotEmpty
  | isAnyOf
  | is
  | not
  | after
  | onOrAfter
  | before
  | onOrBefore
  | eq
  | ne
  | gt
  | lt
  | ge
  | le
  deriving DecidableEq, Repr

def Operator.text : Operator → String
  | contains => "contains"
  | doesNotContain => "doesNotContain"
  | equals => "equals"
  | doesNotEqual => "doesNotEqual"
  | startsWith => "startsWith"
  | endsWith => "endsWith"
  | isEmpty => "isEmpty"
  | isNotEmpty => "isNotEmpty"
  | isAnyOf => "isAnyOf"
  | is => "is"
  | not => "not"
  | after => "after"
  | onOrAfter => "onOrAfter"
  | before => "before"
  | onOrBefore => "onOrBefore"
  | eq => "="
  | ne => "!="
  | gt => ">"
  | lt => "<"
  | ge => ">="
  | le => "<="

/-- The value of a filter, a text or a list of texts. -/
inductive FilterValue where
  | text (s : String)
  | texts (l : List String)
  deriving DecidableEq, Repr

namespace FilterValue

def truthy : FilterValue → Bool
  | text s => s ≠ ""
  | texts l => l ≠ []

def all : FilterValue → List String
  | text s => [s]
  | texts l => l

/-- `filter.value[0]` of a list, or the text. -/
def first : FilterValue → String
  | text s => s
  | texts l => l.headD ""

end FilterValue

structure FilterModel where
  field : String
  operator : Operator
  value : FilterValue := .text ""

/-- The `python_type` of a column. -/
inductive ColumnType where
  | str
  | int
  | bool
  | date
  | datetime
  | uuid
  | other (name : String)
  deriving DecidableEq, Repr

structure Column where
  name : String
  type : ColumnType
  deriving DecidableEq, Repr

/-! ## Conditions -/

/-- An operand of a condition, or the value of a cell. -/
inductive PyValue where
  | str (s : String)
  | int (n : Int)
  | bool (b : Bool)
  | date (d : Date)
  | datetime (d : DateTime)
  | uuid (u : UUID)
  | list (l : List String)
  deriving DecidableEq

/-- Whether a value is of the Python type of a column. -/
def PyValue.hasType : PyValue → ColumnType → Bool
  | str _, .str => true
  | int _, .int => true
  | bool _, .bool => true
  | date _, .date => true
  | datetime _, .datetime => true
  | uuid _, .uuid => true
  | _, _ => false

inductive Comparison where
  | eq
  | ne
  | gt
  | lt
  | ge
  | le
  deriving DecidableEq, Repr

/-- The operators of SQLAlchemy that make a LIKE. -/
inductive TextMatch where
  | icontains
  | startswith
  | endswith
  deriving DecidableEq, Repr

inductive Condition where
  | compare (op : Comparison) (operand : PyValue)
  | textMatch (op : TextMatch) (negated : Bool) (operand : PyValue)
  | inList (operands : List PyValue)
  | isNull
  | isNotNull
  deriving DecidableEq

/-- The conditions of a query, each on its column. -/
abbrev Query := List (Column × Condition)

structure InvalidFilterError where
  detail : String
  statusCode : Nat := 422
  deriving DecidableEq, Repr

inductive Failure where
  | invalidFilter (e : InvalidFilterError)
  /-- A column of a type that no branch knows. -/
  | unsupportedType (text : String)
  /-- `int` of a numeral above its limit of digits. -/
  | digitLimit
  /-- `in_` of a text. -/
  | argumentError
  deriving DecidableEq, Repr

/-! ## The applier -/

def apostrophe : Char := Char.ofNat 39

def quotationMark : Char := Char.ofNat 34

def hexEscape (kind : Char) (width : Nat) (c : Char) : List Char :=
  '\\' :: kind :: (Nat.toDigits 16 c.toNat).leftpad width '0'

section applier

-- `str.isprintable` of a character beyond ASCII, from the Unicode tables
variable (printable : Char → Bool)

/-- A character in the `repr` of a text. -/
def reprChar (quote c : Char) : List Char :=
  if c = quote ∨ c = '\\' then ['\\', c]
  else if c = '\t' then ['\\', 't']
  else if c = '\n' then ['\\', 'n']
  else if c = '\r' then ['\\', 'r']
  else if 0x20 ≤ c.toNat ∧ c.toNat < 0x7f then [c]
  else if c.toNat ≥ 0x80 ∧ printable c then [c]
  else if c.toNat ≤ 0xff then hexEscape 'x' 2 c
  else if c.toNat ≤ 0xffff then hexEscape 'u' 4 c
  else hexEscape 'U' 8 c

def pyRepr (s : String) : String :=
  let quote :=
    if apostrophe ∈ s.toList ∧ quotationMark ∉ s.toList then quotationMark else apostrophe
  String.ofList (quote :: s.toList.flatMap (reprChar printable quote) ++ [quote])

def invalid {α : Type} (detail : String) : Except Failure α :=
  .error (.invalidFilter { detail := detail })

def stringFilter (operator : Operator) (value : FilterValue) : Except Failure (Option Condition) :=
  let operand := match value with
    | .text s => PyValue.str s
    | .texts l => .list l
  match operator with
  | .contains => .ok (some (.textMatch .icontains false operand))
  | .doesNotContain => .ok (some (.textMatch .icontains true operand))
  | .equals => .ok (some (.compare .eq operand))
  | .doesNotEqual => .ok (some (.compare .ne operand))
  | .startsWith => .ok (some (.textMatch .startswith false operand))
  | .endsWith => .ok (some (.textMatch .endswith false operand))
  | .isEmpty => .ok (some (.compare .eq (.str "")))
  | .isNotEmpty => .ok (some (.compare .ne (.str "")))
  | .isAnyOf =>
    match value with
    | .text _ => .error .argumentError
    | .texts l => .ok (some (.inList (l.map .str)))
  | _ => invalid ("Unsupported string operator: " ++ operator.text)

def temporalComparison : Operator → Option Comparison
  | .is => some .eq
  | .not => some .ne
  | .after => some .gt
  | .onOrAfter => some .ge
  | .before => some .lt
  | .onOrBefore => some .le
  | _ => none

/-- A date or datetime that was read, or not. -/
def temporalCondition (typeName : String) (filter : FilterModel) (raw : String) :
    Option PyValue → Except Failure (Option Condition)
  | none => invalid ("Invalid " ++ typeName ++ " value " ++ pyRepr printable raw ++ " for field " ++
      pyRepr printable filter.field)
  | some value =>
    match temporalComparison filter.operator with
    | some op => .ok (some (.compare op value))
    | none => invalid ("Unsupported data/datetime operator: " ++ filter.operator.text)

/-- The branch of dates and of datetimes, with the name and the parser of the type. -/
def temporalFilter (typeName : String) (parse : String → Option PyValue) (filter : FilterModel) :
    Except Failure (Option Condition) :=
  match filter.operator with
  | .isEmpty => .ok (some .isNull)
  | .isNotEmpty => .ok (some .isNotNull)
  | _ =>
    if strip filter.value.first.toList = [] then .ok none
    else temporalCondition printable typeName filter filter.value.first (parse filter.value.first)

def dateFilter (filter : FilterModel) : Except Failure (Option Condition) :=
  temporalFilter printable "date" (fun raw => (parseDate raw).map .date) filter

def datetimeFilter (filter : FilterModel) : Except Failure (Option Condition) :=
  temporalFilter printable "datetime" (fun raw => (parseDateTime raw).map .datetime) filter

def boolFilter (operator : Operator) (value : FilterValue) : Except Failure (Option Condition) :=
  match operator with
  | .is =>
    if value.first = "" then .ok (some .isNotNull)
    else .ok (some (.compare .eq (.bool (value.first = "true"))))
  | _ => invalid ("Unsupported bool operator: " ++ operator.text)

/-- `int` of a text that matches the pattern. -/
def readInt (s : String) : Except Failure Int :=
  match Messages.pyInt s with
  | some n => .ok n
  | none => .error .digitLimit

def integerFilter (filter : FilterModel) : Except Failure (Option Condition) :=
  match filter.value with
  | .texts l =>
    match filter.operator with
    | .isAnyOf =>
      if l = [] then .ok none
      else do
        let numbers ← (l.filter isInteger).mapM readInt
        .ok (some (.inList (numbers.map .int)))
    | operator => invalid ("Unsupported int operator: " ++ operator.text ++ " for list")
  | .text s =>
    if isInteger s then do
      let number ← readInt s
      match filter.operator with
      | .eq => .ok (some (.compare .eq (.int number)))
      | .ne => .ok (some (.compare .ne (.int number)))
      | .gt => .ok (some (.compare .gt (.int number)))
      | .lt => .ok (some (.compare .lt (.int number)))
      | .ge => .ok (some (.compare .ge (.int number)))
      | .le => .ok (some (.compare .le (.int number)))
      | .isEmpty => .ok (some .isNull)
      | .isNotEmpty => .ok (some .isNotNull)
      | operator => invalid ("Unsupported int operator: " ++ operator.text ++ " for single value")
    else invalid ("Invalid integer value: " ++ s ++ " for field " ++ filter.field)

def readUuid (fieldName raw : String) : Except Failure UUID :=
  match parseUuid raw with
  | some u => .ok u
  | none =>
    invalid ("Invalid UUID value " ++ pyRepr printable raw ++ " for field " ++
    pyRepr printable fieldName)

def uuidFilter (filter : FilterModel) : Except Failure (Option Condition) :=
  match filter.operator with
  | .isEmpty => .ok (some .isNull)
  | .isNotEmpty => .ok (some .isNotNull)
  | operator =>
    if filter.value.truthy then
      match operator with
      | .isAnyOf => do
        let values ← filter.value.all.mapM (readUuid printable filter.field)
        .ok (some (.inList (values.map .uuid)))
      | .equals => do
        .ok (some (.compare .eq (.uuid (← readUuid printable filter.field filter.value.first))))
      | .is => do
        .ok (some (.compare .eq (.uuid (← readUuid printable filter.field filter.value.first))))
      | .doesNotEqual => do
        .ok (some (.compare .ne (.uuid (← readUuid printable filter.field filter.value.first))))
      | .not => do
        .ok (some (.compare .ne (.uuid (← readUuid printable filter.field filter.value.first))))
      | operator => invalid ("Unsupported uuid operator: " ++ operator.text)
    else .ok none

/-- The condition that a filter puts on a column of a type. -/
def conditionFor (type : ColumnType) (filter : FilterModel) : Except Failure (Option Condition) :=
  match type, filter.value.truthy with
  | .uuid, _ => uuidFilter printable filter
  | _, false => .ok none
  | .str, true => stringFilter filter.operator filter.value
  | .date, true => dateFilter printable filter
  | .datetime, true => datetimeFilter printable filter
  | .bool, true => boolFilter filter.operator filter.value
  | .int, true => integerFilter filter
  | .other name, true => .error (.unsupportedType ("Unsupported field type: " ++ name))

def createQueryForFilter (allowedFilters : String → Option Column) (query : Query)
    (filter : FilterModel) :
    Except Failure Query :=
  match allowedFilters filter.field with
  | none => invalid ("Unsupported field: " ++ filter.field)
  | some column => (conditionFor printable column.type filter).map fun condition =>
    query ++ (condition.map fun condition => (column, condition)).toList

def createQueryForFilterList (allowedFilters : String → Option Column) (query : Query)
    (filters : List FilterModel) : Except Failure Query :=
  filters.foldlM (createQueryForFilter printable allowedFilters) query

end applier

/-! ## Rows -/

/-- What the conditions mean to a database. Its `lower` leaves wildcards and the escape character
alone. -/
structure Dialect extends Like where
  lower : Char → Char
  less : PyValue → PyValue → Bool
  lower_lower : ∀ c, lower (lower c) = lower c
  lower_special : ∀ c special, special = '%' ∨ special = '_' ∨ escape = some special →
    (lower c = special ↔ c = special)

def Comparison.holds (d : Dialect) : Comparison → PyValue → PyValue → Bool
  | eq, cell, operand => cell = operand
  | ne, cell, operand => cell ≠ operand
  | gt, cell, operand => d.less operand cell
  | lt, cell, operand => d.less cell operand
  | ge, cell, operand => d.less operand cell || cell = operand
  | le, cell, operand => d.less cell operand || cell = operand

/-- The LIKE of an operator without `autoescape`: its wildcards are put around the value as it
is. -/
def TextMatch.holds (d : Dialect) : TextMatch → List Char → List Char → Bool
  | icontains, text, value => d.like ('%' :: value.map d.lower ++ ['%']) (text.map d.lower)
  | startswith, text, value => d.like (value ++ ['%']) text
  | endswith, text, value => d.like ('%' :: value) text

/-- The value of a condition on a cell, which is NULL on NULL but for the tests of NULL. -/
def Condition.eval (d : Dialect) (cell : Option PyValue) : Condition → Option Bool
  | compare op operand => cell.map fun value => op.holds d value operand
  | textMatch op negated operand => cell.map fun value =>
      match value, operand with
      | .str text, .str s => op.holds d text.toList s.toList != negated
      | _, _ => false
  | inList operands => cell.map fun value => operands.contains value
  | isNull => some cell.isNone
  | isNotNull => some cell.isSome

def kept (d : Dialect) (row : String → Option PyValue) (query : Query) : Bool :=
  query.all fun condition => condition.2.eval d (row condition.1.name) = some true

/-- A field that a client may filter, with its column. -/
structure Allowed (allowedFilters : String → Option Column) where
  field : String
  column : Column
  found : allowedFilters field = some column

/-- A row as far as a column of it goes: NULL or a value of its type. -/
structure Row (column : Column) where
  cells : String → Option PyValue
  typed : ∀ value ∈ cells column.name, value.hasType column.type

section keeps

variable (printable : Char → Bool) (d : Dialect) {allowedFilters : String → Option Column}

/-- Whether a filter on a field keeps a row; where it raises there are no rows. -/
def keeps (allowed : Allowed allowedFilters) (operator : Operator) (value : FilterValue)
    (row : Row allowed.column) : Bool :=
  match createQueryForFilter printable allowedFilters [] ⟨allowed.field, operator, value⟩ with
  | .ok query => kept d row.cells query
  | .error _ => false

/-- What a filter on a field comes to. -/
def outcome (allowed : Allowed allowedFilters) (operator : Operator) (value : FilterValue) :
    Except Failure (Option Condition) :=
  conditionFor printable allowed.column.type ⟨allowed.field, operator, value⟩

/-- Whether a row is kept, by its cell in the column of the filter. -/
def keptBy (cell : Option PyValue) : Except Failure (Option Condition) → Bool
  | .ok (some condition) => condition.eval d cell = some true
  | .ok none => true
  | .error _ => false

theorem keeps_eq (allowed : Allowed allowedFilters) (operator : Operator) (value : FilterValue)
    (row : Row allowed.column) : keeps printable d allowed operator value row =
      keptBy d (row.cells allowed.column.name) (outcome printable allowed operator value) := by
  simp only [keeps, createQueryForFilter, allowed.found, outcome]
  cases conditionFor printable allowed.column.type ⟨allowed.field, operator, value⟩ with
  | error e => rfl
  | ok condition =>
    cases condition with
    | none => rfl
    | some condition => simp [Except.map, kept, keptBy]

end keeps

/-! ## Dialects -/

theorem toLower_cases (c : Char) :
    (65 ≤ c.toNat ∧ c.toNat ≤ 90 ∧ c.toLower.toNat = c.toNat + 32) ∨
      (¬(65 ≤ c.toNat ∧ c.toNat ≤ 90) ∧ c.toLower = c) := by
  have hnat : c.toNat = c.val.toNat := rfl
  unfold Char.toLower
  split
  · rename_i h
    have hlow : 65 ≤ c.val.toNat := UInt32.le_iff_toNat_le.mp h.1
    have hhigh : c.val.toNat ≤ 90 := UInt32.le_iff_toNat_le.mp h.2
    refine .inl ⟨by omega, by omega, ?_⟩
    change (c.val + 32).toNat = c.val.toNat + 32
    rw [UInt32.toNat_add]
    change (c.val.toNat + 32) % 2 ^ 32 = c.val.toNat + 32
    omega
  · rename_i h
    refine .inr ⟨fun hrange =>
      h ⟨UInt32.le_iff_toNat_le.mpr ?_, UInt32.le_iff_toNat_le.mpr ?_⟩, rfl⟩
    · exact hrange.1
    · exact hrange.2

theorem toLower_toLower (c : Char) : c.toLower.toLower = c.toLower := by
  rcases toLower_cases c with ⟨hlow, hhigh, hlower⟩ | ⟨_, hsame⟩
  · rcases toLower_cases c.toLower with ⟨hlow', hhigh', _⟩ | ⟨_, hsame⟩
    · omega
    · exact hsame
  · rw [hsame, hsame]

theorem toLower_special (c : Char) {special : Char}
    (h : special.toNat < 65 ∨ 90 < special.toNat ∧ special.toNat < 97) :
    c.toLower = special ↔ c = special := by
  constructor
  · rintro rfl
    rcases toLower_cases c with ⟨_, _, hlower⟩ | ⟨_, hsame⟩
    · omega
    · exact hsame.symm
  · rintro rfl
    rcases toLower_cases c with ⟨hlow, hhigh, _⟩ | ⟨_, hsame⟩
    · omega
    · exact hsame

/-- A dialect with the backslash as its escape character. -/
def backslash (less : PyValue → PyValue → Bool) : Dialect where
  escape := some '\\'
  escape_ne_many := by decide
  escape_ne_any := by decide
  lower := Char.toLower
  less := less
  lower_lower := toLower_toLower
  lower_special c special h := by
    rcases h with rfl | rfl | h
    · exact toLower_special c (by decide)
    · exact toLower_special c (by decide)
    · cases h
      exact toLower_special c (by decide)

end SortFilters
