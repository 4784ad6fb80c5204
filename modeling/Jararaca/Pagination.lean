import Mathlib.Algebra.Order.Field.Basic
import Mathlib.Data.List.Nodup
import Mathlib.Data.List.Range
import Mathlib.Data.Rat.Floor

/-!
# Pages of a query

`QueryOperations.query` of persistence/utilities.py. The total comes from a window function on
the rows of the page or from a second query. A page past the end has no row to read the window
from, so there the first way says that the whole result is empty.
-/
namespace Pagination

variable {S X ρ : Type}

/-- `PAGINATION_MAX_PAGE_SIZE` of const.py, which the environment sets. -/
structure Const where
  paginationMaxPageSize : Nat := 100

/-- `PaginatedFilter`; `rest` is its sort and filter models and the fields of a subclass. -/
structure PaginatedFilter (c : Const) (X : Type) where
  page : Nat
  pageSize : Nat
  rest : X
  pageSize_pos : 0 < pageSize
  pageSize_le : pageSize ≤ c.paginationMaxPageSize

structure Paginated (ρ : Type) where
  items : List ρ
  total : Nat
  unpaginatedTotal : Int
  totalPages : Int
  deriving DecidableEq, Repr

inductive TotalType where
  | totalOver
  | countSubquery
  | none
  deriving DecidableEq, Repr

inductive BaseStatement (S : Type) where
  | callable (f : S → S)
  | select (s : S)

/-- `QueryOperations`, with `select(self.entity_type)` and what its functions and rule appliers
make of a statement. -/
structure QueryOperations (S X : Type) where
  selectEntity : S
  filtersFunctions : List (S → X → S)
  unique : Bool
  sortRuleApplier : Option (X → S → S)
  filterRuleApplier : Option (X → S → S)
  baseStatement : Option (BaseStatement S)

/-- The other arguments of `query`. -/
structure QueryArgs (S : Type) where
  interceptors : List (S → S) := []
  baseStatement : Option (BaseStatement S) := none
  finalListingStatement : Option (S → S) := none

/-- The rows of a statement before LIMIT, each entity once, in the order of the statement. -/
structure Database (S ρ : Type) where
  rows : S → List ρ
  nodup : ∀ s, (rows s).Nodup

/-- `Result.unique()`: of equal rows the first. -/
def uniqueRows {τ : Type} [DecidableEq τ] : List τ → List τ
  | [] => []
  | x :: xs => x :: (uniqueRows xs).filter fun y => decide (y ≠ x)

/-- `.limit(page_size).offset(page * page_size)`. -/
def limitOffset {τ : Type} (rows : List τ) (pageSize page : Nat) : List τ :=
  (rows.drop (page * pageSize)).take pageSize

/-- `.add_columns(func.count().over())`. -/
def countOver (rows : List ρ) : List (ρ × Nat) := rows.map fun row => (row, rows.length)

/-- The items and the total that are read from rows with a count. -/
def scalarsAndTotal : List (ρ × Nat) → List ρ × Int
  | [] => ([], 0)
  | row :: more => ((row :: more).map Prod.fst, row.2)

namespace QueryOperations

variable (ops : QueryOperations S X)

def judgeUnique {τ : Type} [DecidableEq τ] (result : List τ) : List τ :=
  if ops.unique then uniqueRows result else result

def generateFilteredQuery (filter : X) (selectQuery : S) : S :=
  ops.filtersFunctions.foldl (fun query inject => inject query filter) selectQuery

def initialStatement (args : QueryArgs S) : S :=
  let initial := match ops.baseStatement with
    | some (.callable f) => f ops.selectEntity
    | some (.select s) => s
    | none => ops.selectEntity
  match args.baseStatement with
  | some (.callable f) => f initial
  | some (.select s) => s
  | none => initial

/-- `tier_two_filtered_query`. -/
def statement (args : QueryArgs S) (filter : X) : S :=
  let query := args.interceptors.foldl (fun query interceptor => interceptor query)
    (ops.generateFilteredQuery filter (ops.initialStatement args))
  let query := match ops.sortRuleApplier with
    | some apply => apply filter query
    | none => query
  let query := match ops.filterRuleApplier with
    | some apply => apply filter query
    | none => query
  match args.finalListingStatement with
  | some f => f query
  | none => query

def query [DecidableEq ρ] {c : Const} (db : Database S ρ) (args : QueryArgs S)
    (filter : PaginatedFilter c X)
    (totalType : TotalType) : Paginated ρ :=
  let rows := db.rows (ops.statement args filter.rest)
  let result : List ρ × Int := match totalType with
    | .totalOver =>
      scalarsAndTotal (ops.judgeUnique (limitOffset (countOver rows) filter.pageSize filter.page))
    | .countSubquery =>
      (ops.judgeUnique (limitOffset rows filter.pageSize filter.page), rows.length)
    | .none => (ops.judgeUnique (limitOffset rows filter.pageSize filter.page), -1)
  { items := result.1
    total := result.1.length
    unpaginatedTotal := result.2
    totalPages := ⌈(result.2 : ℚ) / filter.pageSize⌉ }

end QueryOperations

/-! ## Rows and pages -/

theorem uniqueRows_of_nodup {τ : Type} [DecidableEq τ] {rows : List τ} (h : rows.Nodup) :
    uniqueRows rows = rows := by
  induction rows with
  | nil => rfl
  | cons x xs ih =>
    obtain ⟨hx, hxs⟩ := List.nodup_cons.mp h
    rw [uniqueRows, ih hxs, List.filter_eq_self.mpr]
    intro y hy
    simpa using ne_of_mem_of_not_mem hy hx

theorem judgeUnique_of_nodup {τ : Type} [DecidableEq τ] (ops : QueryOperations S X) {rows : List τ}
    (h : rows.Nodup) : ops.judgeUnique rows = rows := by
  unfold QueryOperations.judgeUnique
  split
  · exact uniqueRows_of_nodup h
  · rfl

theorem limitOffset_nodup {τ : Type} {rows : List τ} (h : rows.Nodup) (pageSize page : Nat) :
    (limitOffset rows pageSize page).Nodup :=
  (h.sublist (List.drop_sublist _ _)).sublist (List.take_sublist _ _)

theorem limitOffset_countOver (rows : List ρ) (pageSize page : Nat) :
    limitOffset (countOver rows) pageSize page =
      (limitOffset rows pageSize page).map fun row => (row, rows.length) := by
  simp only [limitOffset, countOver, List.map_drop, List.map_take]

theorem scalarsAndTotal_map (items : List ρ) (total : Nat) :
    scalarsAndTotal (items.map fun row => (row, total)) =
      (items, if items.isEmpty then 0 else (total : Int)) := by
  cases items with
  | nil => rfl
  | cons row more => simp [scalarsAndTotal, Function.comp_def]

/-- A page is empty exactly behind the last row. -/
theorem limitOffset_eq_nil_iff {τ : Type} (rows : List τ) {pageSize : Nat} (hpos : 0 < pageSize)
    (page : Nat) : limitOffset rows pageSize page = [] ↔ rows.length ≤ page * pageSize := by
  simp [limitOffset, List.take_eq_nil_iff, hpos.ne']

/-- The first pages, one after the other, are the first rows. -/
theorem flatMap_limitOffset {τ : Type} (rows : List τ) (pageSize pages : Nat) :
    ((List.range pages).flatMap fun page => limitOffset rows pageSize page) =
      rows.take (pages * pageSize) := by
  induction pages with
  | zero => simp
  | succ pages ih =>
    rw [List.range_succ, List.flatMap_append, ih, Nat.succ_mul, List.take_add]
    simp [limitOffset]

/-- Pages enough for the ceiling hold all rows. -/
theorem length_le_ceil_mul (n : Nat) {pageSize : Nat} (hpos : 0 < pageSize) :
    n ≤ ⌈((n : Int) : ℚ) / pageSize⌉.toNat * pageSize := by
  have hsize : (0 : ℚ) < pageSize := by exact_mod_cast hpos
  have hceil : (n : ℚ) ≤ ⌈((n : Int) : ℚ) / pageSize⌉ * pageSize := by
    rw [← div_le_iff₀ hsize]
    exact Int.le_ceil _
  have hint : (n : Int) ≤ ⌈((n : Int) : ℚ) / pageSize⌉ * pageSize := by exact_mod_cast hceil
  have hle := Int.self_le_toNat ⌈((n : Int) : ℚ) / pageSize⌉
  have hmul := Int.mul_le_mul_of_nonneg_right hle (Int.natCast_nonneg pageSize)
  exact_mod_cast hint.trans hmul

/-! ## The total of a page -/

section query

variable [DecidableEq ρ] {c : Const} (ops : QueryOperations S X) (db : Database S ρ)
  (args : QueryArgs S)
  (filter : PaginatedFilter c X)

def wholeResult : List ρ := db.rows (ops.statement args filter.rest)

def pageItems : List ρ := limitOffset (wholeResult ops db args filter) filter.pageSize filter.page

omit [DecidableEq ρ] in
theorem pageItems_nodup : (pageItems ops db args filter).Nodup := limitOffset_nodup (db.nodup _) _ _

/-- The page of a total, whichever way that was found. -/
def pageOf (items : List ρ) (total : Int) : Paginated ρ :=
  ⟨items, items.length, total, ⌈(total : ℚ) / filter.pageSize⌉⟩

/-- With `COUNT_SUBQUERY` a query gives the page and the number of all rows. -/
theorem query_countSubquery :
    ops.query db args filter .countSubquery =
      pageOf filter (pageItems ops db args filter) (wholeResult ops db args filter).length := by
  simp only [QueryOperations.query]
  rw [judgeUnique_of_nodup ops (limitOffset_nodup (db.nodup _) _ _)]
  rfl

/-- The window tells the total where the page has a row. -/
theorem query_totalOver :
    ops.query db args filter .totalOver =
      pageOf filter (pageItems ops db args filter)
        (if (pageItems ops db args filter).isEmpty then 0
          else (wholeResult ops db args filter).length) := by
  have hunique : ops.judgeUnique (limitOffset (countOver (wholeResult ops db args filter))
      filter.pageSize filter.page) = (pageItems ops db args filter).map
        fun row => (row, (wholeResult ops db args filter).length) := by
    rw [limitOffset_countOver]
    exact judgeUnique_of_nodup ops
      ((pageItems_nodup ops db args filter).map fun _ _ hrow => (Prod.mk.inj hrow).1)
  have hwindow := scalarsAndTotal_map (pageItems ops db args filter)
    (wholeResult ops db args filter).length
  rw [← hunique] at hwindow
  simp only [QueryOperations.query]
  rw [show db.rows (ops.statement args filter.rest) =
    wholeResult ops db args filter from rfl, hwindow]
  rfl

/-- `total_type="none"`: the same items, and no total. -/
theorem query_none :
    ops.query db args filter .none = pageOf filter (pageItems ops db args filter) (-1) := by
  simp only [QueryOperations.query]
  rw [judgeUnique_of_nodup ops (limitOffset_nodup (db.nodup _) _ _)]
  rfl

def atPage (page : Nat) : PaginatedFilter c X := { filter with page := page }

/-- The items of the pages that a result announces. -/
def announcedItems (mode : TotalType) : List ρ :=
  (List.range (ops.query db args filter mode).totalPages.toNat).flatMap fun page =>
    (ops.query db args (atPage filter page) mode).items

/-- Both modes give the same page and the length of the whole result as its total, and the pages
they announce hold the whole result. -/
structure PagesAgree : Prop where
  modes : ops.query db args filter .totalOver = ops.query db args filter .countSubquery
  total : ∀ mode, mode ≠ .none →
    (ops.query db args filter mode).unpaginatedTotal = (wholeResult ops db args filter).length
  pages : ∀ mode, mode ≠ .none →
    announcedItems ops db args filter mode = wholeResult ops db args filter

/-- The total by the second query is right on every page. -/
theorem announcedItems_countSubquery :
    announcedItems ops db args filter .countSubquery = wholeResult ops db args filter := by
  have hitems : (fun page => (ops.query db args (atPage filter page) .countSubquery).items) =
      limitOffset (wholeResult ops db args filter) filter.pageSize := by
    funext page
    rw [query_countSubquery]
    rfl
  rw [announcedItems, hitems, flatMap_limitOffset, query_countSubquery]
  exact List.take_of_length_le (length_le_ceil_mul _ filter.pageSize_pos)

/-- The pages agree on every page of the result and, where it is empty, on every page. -/
theorem pagesAgree_iff :
    PagesAgree ops db args filter ↔
      wholeResult ops db args filter = [] ∨
        filter.page * filter.pageSize < (wholeResult ops db args filter).length := by
  have hpage : (pageItems ops db args filter).isEmpty = true ↔
      (wholeResult ops db args filter).length ≤ filter.page * filter.pageSize :=
    List.isEmpty_iff.trans (limitOffset_eq_nil_iff _ filter.pageSize_pos _)
  constructor
  · intro h
    by_contra hpast
    rw [not_or, not_lt] at hpast
    have htotal := h.total .totalOver (by decide)
    rw [query_totalOver, if_pos (hpage.mpr hpast.2)] at htotal
    exact hpast.1 (List.length_eq_zero_iff.mp (by simpa [pageOf] using htotal.symm))
  · intro h
    have hover : ops.query db args filter .totalOver = ops.query db args filter .countSubquery := by
      rw [query_totalOver, query_countSubquery]
      congr 1
      split
      · obtain hempty | hinside := h
        · simp [hempty]
        · exact absurd (hpage.mp ‹_›) (not_le.mpr hinside)
      · rfl
    have hitems : ∀ page, (ops.query db args (atPage filter page) .totalOver).items =
        (ops.query db args (atPage filter page) .countSubquery).items := by
      intro page
      rw [query_totalOver, query_countSubquery]
      rfl
    constructor
    case modes => exact hover
    case total =>
      intro mode hmode
      cases mode with
      | totalOver => rw [hover, query_countSubquery]; rfl
      | countSubquery => rw [query_countSubquery]; rfl
      | none => exact absurd rfl hmode
    case pages =>
      intro mode hmode
      cases mode with
      | totalOver =>
        calc announcedItems ops db args filter .totalOver
            = announcedItems ops db args filter .countSubquery := by
              simp only [announcedItems, hover, hitems]
          _ = wholeResult ops db args filter := announcedItems_countSubquery ops db args filter
      | countSubquery => exact announcedItems_countSubquery ops db args filter
      | none => exact absurd rfl hmode

end query

/-- Three entities in pages of two, asked for the page after the last. -/
def plainOperations : QueryOperations Unit Unit := ⟨(), [], false, none, none, none⟩

def threeEntities : Database Unit Nat := ⟨fun _ => [1, 2, 3], fun _ => by decide⟩

def thirdPage : PaginatedFilter {} Unit := ⟨2, 2, (), by decide, by decide⟩

/-- The window says that there is nothing, the second query that there are three. -/
theorem past_the_end_total : ¬ PagesAgree plainOperations threeEntities {} thirdPage := by
  intro h
  have htotal := h.total .totalOver (by decide)
  exact absurd htotal (by decide)

end Pagination
