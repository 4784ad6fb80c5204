import Jararaca.Arrangements
import Jararaca.Pagination
import Jararaca.SortFilters

/-!
# The order of a query and its pages

`SortRuleApplier` of persistence/sort_filter.py and `DateOrderedQueryInjector` of
persistence/utilities.py add to the ORDER BY of a query. Rows that are tied in all of it come in
any order, each time the query is executed; every page is an execution of its own.
-/
namespace QueryOrder

open Arrangements Pagination
open SortFilters (InvalidFilterError)

variable {ρ κ X : Type}

inductive Direction where
  | asc | desc
  deriving DecidableEq, Repr

structure SortModel where
  field : String
  direction : Direction
  deriving DecidableEq, Repr

/-- A column of an ORDER BY. Its cells are ordered as the database orders them, with NULL. -/
structure OrderBy (ρ κ : Type) where
  column : ρ → κ
  direction : Direction

/-- What of a statement decides its rows. -/
structure Statement (ρ κ : Type) where
  condition : ρ → Bool
  orderBy : List (OrderBy ρ κ)

def Statement.addOrderBy (query : Statement ρ κ) (o : OrderBy ρ κ) : Statement ρ κ :=
  { query with orderBy := query.orderBy ++ [o] }

section applier

variable (allowedSorts : String → Option (ρ → κ))

/-- `InvalidSortError` is an `InvalidFilterError`. -/
def invalidSort (sort : SortModel) : InvalidFilterError :=
  { detail := "Unsupported field: " ++ sort.field }

def createQueryForSorting (query : Statement ρ κ) (sort : SortModel) :
    Except InvalidFilterError (Statement ρ κ) :=
  match allowedSorts sort.field with
  | none => .error (invalidSort sort)
  | some field => .ok (query.addOrderBy ⟨field, sort.direction⟩)

def createQueryForSortingList (query : Statement ρ κ) (sorts : List SortModel) :
    Except InvalidFilterError (Statement ρ κ) :=
  sorts.foldlM (createQueryForSorting allowedSorts) query

/-- `DateOrderedQueryInjector.inject`. -/
def injectDateOrder (createdAt : ρ → κ) (query : Statement ρ κ) (orderBy : Direction) :
    Statement ρ κ :=
  query.addOrderBy ⟨createdAt, orderBy⟩

def sortColumns (sorts : List SortModel) : List (OrderBy ρ κ) :=
  sorts.filterMap fun sort => (allowedSorts sort.field).map fun field => ⟨field, sort.direction⟩

/-- The sorts are added in their order, or the first whose field is not allowed is refused. -/
theorem createQueryForSortingList_eq (query : Statement ρ κ) (sorts : List SortModel) :
    createQueryForSortingList allowedSorts query sorts =
      match sorts.find? fun sort => (allowedSorts sort.field).isNone with
      | some sort => .error (invalidSort sort)
      | none => .ok { query with orderBy := query.orderBy ++ sortColumns allowedSorts sorts } := by
  induction sorts generalizing query with
  | nil => simp [createQueryForSortingList, sortColumns, pure, Except.pure]
  | cons sort sorts ih =>
    have hcons : createQueryForSortingList allowedSorts query (sort :: sorts) =
        createQueryForSorting allowedSorts query sort >>= fun q =>
          createQueryForSortingList allowedSorts q sorts := rfl
    rw [hcons, createQueryForSorting]
    cases hfield : allowedSorts sort.field with
    | none => simp [hfield, bind, Except.bind]
    | some field =>
      have hrest := ih (query.addOrderBy ⟨field, sort.direction⟩)
      simp only [bind, Except.bind, hrest, List.find?_cons, hfield, Option.isNone_some]
      cases sorts.find? fun sort => (allowedSorts sort.field).isNone with
      | some refused => rfl
      | none => simp [Statement.addOrderBy, sortColumns, hfield]

end applier

/-! ## What an ORDER BY means -/

variable [LinearOrder κ]

def OrderBy.le (o : OrderBy ρ κ) (a b : ρ) : Prop :=
  match o.direction with
  | .asc => o.column a ≤ o.column b
  | .desc => o.column b ≤ o.column a

/-- The first column decides, and the others among its ties. -/
def before : List (OrderBy ρ κ) → ρ → ρ → Prop
  | [], _, _ => True
  | o :: os, a, b => o.le a b ∧ (o.le b a → before os a b)

theorem OrderBy.total (o : OrderBy ρ κ) (a b : ρ) : o.le a b ∨ o.le b a := by
  unfold OrderBy.le
  cases o.direction with
  | asc => exact le_total _ _
  | desc => exact le_total _ _

theorem OrderBy.trans (o : OrderBy ρ κ) {a b c : ρ} (hab : o.le a b) (hbc : o.le b c) :
    o.le a c := by
  unfold OrderBy.le at *
  cases hdirection : o.direction with
  | asc => simp only [hdirection] at *; exact hab.trans hbc
  | desc => simp only [hdirection] at *; exact hbc.trans hab

/-- Any two rows are ordered by a list of columns. -/
theorem before_total (os : List (OrderBy ρ κ)) (a b : ρ) : before os a b ∨ before os b a := by
  induction os with
  | nil => exact .inl trivial
  | cons o os ih =>
    by_cases hab : o.le a b
    · by_cases hba : o.le b a
      · exact ih.imp (fun h => ⟨hab, fun _ => h⟩) fun h => ⟨hba, fun _ => h⟩
      · exact .inl ⟨hab, fun h => absurd h hba⟩
    · exact .inr ⟨(o.total a b).resolve_left hab, fun h => absurd h hab⟩

/-- And the order is transitive. -/
theorem before_trans (os : List (OrderBy ρ κ)) (a b c : ρ) (hab : before os a b)
    (hbc : before os b c) :
    before os a c := by
  induction os with
  | nil => trivial
  | cons o os ih =>
    refine ⟨o.trans hab.1 hbc.1, fun hca => ?_⟩
    exact ih (hab.2 (o.trans hbc.1 hca)) (hbc.2 (o.trans hca hab.1))

instance (o : OrderBy ρ κ) (a b : ρ) : Decidable (o.le a b) :=
  match h : o.direction with
  | .asc => decidable_of_iff (o.column a ≤ o.column b) (by simp [OrderBy.le, h])
  | .desc => decidable_of_iff (o.column b ≤ o.column a) (by simp [OrderBy.le, h])

instance decidableBefore : (os : List (OrderBy ρ κ)) → DecidableRel (before os)
  | [], _, _ => inferInstanceAs (Decidable True)
  | o :: os, a, b =>
    have := decidableBefore os a b
    inferInstanceAs (Decidable (o.le a b ∧ (o.le b a → before os a b)))

/-- The columns behind decide among rows that are equal in those before. -/
theorem before_append (os os' : List (OrderBy ρ κ)) (a b : ρ) :
    before (os ++ os') a b ↔ before os a b ∧ (before os b a → before os' a b) := by
  induction os with
  | nil => simp [before]
  | cons o os ih =>
    simp only [List.cons_append, before, ih]
    tauto

/-- Tied in all of an ORDER BY: the same cell in every column. -/
theorem tied_iff (os : List (OrderBy ρ κ)) (a b : ρ) :
    before os a b ∧ before os b a ↔ ∀ o ∈ os, o.column a = o.column b := by
  induction os with
  | nil => simp [before]
  | cons o os ih =>
    have hcell : o.le a b ∧ o.le b a ↔ o.column a = o.column b := by
      unfold OrderBy.le
      cases o.direction with
      | asc => exact le_antisymm_iff.symm
      | desc => exact and_comm.trans le_antisymm_iff.symm
    simp only [before, List.forall_mem_cons, ← hcell, ← ih]
    tauto

/-! ## Answers -/

/-- The database answers a statement with the rows of the table that it wants, in some order that
its ORDER BY allows. -/
def Answers (table : List ρ) (db : Database (Statement ρ κ) ρ) : Prop :=
  ∀ s, Arranges (before s.orderBy) (table.filter s.condition) (db.rows s)

/-- A database that keeps tied rows as they are in a list. -/
def sortingDatabase (rows : List ρ) (hrows : rows.Nodup) : Database (Statement ρ κ) ρ where
  rows s := (rows.filter s.condition).mergeSort fun a b => decide (before s.orderBy a b)
  nodup _ := (List.mergeSort_perm ..).nodup_iff.mpr (hrows.filter _)

theorem sortingDatabase_answers {table rows : List ρ} (hrows : rows.Nodup)
    (hperm : rows.Perm table) :
    Answers table (sortingDatabase rows hrows : Database (Statement ρ κ) ρ) := fun s =>
  ⟨(List.mergeSort_perm ..).trans (hperm.filter _),
    pairwise_mergeSort (before_total s.orderBy) (before_trans s.orderBy) _⟩

/-- A database that answers one statement with a given arrangement. -/
theorem exists_answers {table : List ρ} (htable : table.Nodup) {s : Statement ρ κ} {l : List ρ}
    (hl : Arranges (before s.orderBy) (table.filter s.condition) l) :
    ∃ db, Answers table db ∧ db.rows s = l := by
  classical
  have hsome : ∀ s' : Statement ρ κ, ∃ l', Arranges (before s'.orderBy)
    (table.filter s'.condition) l' := fun s' =>
    exists_arranges (before_total s'.orderBy) (before_trans s'.orderBy) _
  choose arranged harranged using hsome
  have hanswer : ∀ s', Arranges (before s'.orderBy) (table.filter s'.condition)
      (Function.update arranged s l s') := by
    intro s'
    rw [Function.update_apply]
    split
    · rename_i heq
      exact heq ▸ hl
    · exact harranged s'
  exact ⟨⟨Function.update arranged s l,
    fun s' => (hanswer s').perm.nodup_iff.mpr (htable.filter _)⟩, hanswer,
    by simp⟩

section pages

variable [DecidableEq ρ] {c : Const} (ops : QueryOperations (Statement ρ κ) X)
  (args : QueryArgs (Statement ρ κ))
  (filter : PaginatedFilter c X)

omit [LinearOrder κ] in
theorem query_items (db : Database (Statement ρ κ) ρ) (mode : TotalType) (page : Nat) :
    (ops.query db args (atPage filter page) mode).items =
      Arrangements.pageOf filter.pageSize (db.rows (ops.statement args filter.rest)) page := by
  cases mode with
  | totalOver => rw [query_totalOver]; rfl
  | countSubquery => rw [query_countSubquery]; rfl
  | none => rw [query_none]; rfl

/-- The pages of a query, each from an execution of its own. -/
def shownItems (mode : TotalType) (dbs : Nat → Database (Statement ρ κ) ρ) (pages : Nat) : List ρ :=
  (List.range pages).flatMap fun page => (ops.query (dbs page) args (atPage filter page) mode).items

/-- The pages of a query show every row that it wants once, whatever the database does with tied
rows, exactly where no page ends inside of a group of rows that are tied in the whole ORDER BY. -/
theorem pages_show_once_iff (mode : TotalType) {table : List ρ} (htable : table.Nodup) {pages : Nat}
    (hpages : (table.filter (ops.statement args filter.rest).condition).length ≤
      pages * filter.pageSize) :
    (∀ dbs : Nat → Database (Statement ρ κ) ρ, (∀ page, Answers table (dbs page)) →
        (shownItems ops args filter mode dbs pages).Perm
          (table.filter (ops.statement args filter.rest).condition)) ↔
      PagesDivide (before (ops.statement args filter.rest).orderBy)
        (table.filter (ops.statement args filter.rest).condition) filter.pageSize := by
  classical
  have htotal := before_total (ops.statement args filter.rest).orderBy
  have htrans := before_trans (ops.statement args filter.rest).orderBy
  rw [← pages_perm_iff htotal htrans filter.pageSize_pos (htable.filter _) hpages
    (exists_arranges htotal htrans _)]
  simp only [shownItems, query_items]
  constructor
  · intro hall arranged harranged
    choose dbs hanswers hrows using fun page => exists_answers htable (harranged page)
    have hshown := hall dbs hanswers
    simpa only [hrows] using hshown
  · intro hall dbs hanswers
    exact hall (fun page => (dbs page).rows (ops.statement args filter.rest)) fun page =>
      hanswers page (ops.statement args filter.rest)

end pages

/-- A table that is read in no order. -/
def unordered : QueryOperations (Statement Nat Nat) Unit :=
  ⟨⟨fun _ => true, []⟩, [], false, none, none, none⟩

/-- Two pages with one row on both. -/
theorem unordered_pages_overlap : ¬∀ dbs : Nat → Database (Statement Nat Nat) Nat,
    (∀ page, Answers [1, 2, 3] (dbs page)) →
      (shownItems unordered {} thirdPage .none dbs 2).Perm [1, 2, 3] := by
  intro hall
  have htable : [1, 2, 3].Nodup := by decide
  have hpages : ([1, 2, 3].filter (unordered.statement {} ()).condition).length ≤
      2 * thirdPage.pageSize := by decide
  have hdivide := (pages_show_once_iff unordered {} thirdPage .none htable hpages).mp hall [1, 2, 3]
    ⟨List.Perm.refl _, by simp [before, unordered, QueryOperations.statement,
      QueryOperations.generateFilteredQuery, QueryOperations.initialStatement]⟩ 0
  exact hdivide 2 3 rfl rfl trivial

/-! ## Dates before sorts -/

/-- A filter that is a `DateOrderedFilter` and a `PaginatedFilter`. -/
structure ListFilter where
  orderBy : Direction
  sortModels : List SortModel

/-- Operations with a `DateOrderedQueryInjector` and a `SortRuleApplier`, which does not raise
here. -/
def datedOperations (select : Statement ρ κ) (createdAt : ρ → κ)
    (allowedSorts : String → Option (ρ → κ)) :
    QueryOperations (Statement ρ κ) ListFilter where
  selectEntity := select
  filtersFunctions := [fun query filter => injectDateOrder createdAt query filter.orderBy]
  unique := false
  sortRuleApplier := some fun filter query =>
    (createQueryForSortingList allowedSorts query filter.sortModels).toOption.getD query
  filterRuleApplier := none
  baseStatement := none

section dates

variable (select : Statement ρ κ) (createdAt : ρ → κ) (allowedSorts : String → Option (ρ → κ))

omit [LinearOrder κ] in
/-- The ORDER BY is that of the table, the date, and the sorts in their order. -/
theorem datedOperations_statement {filter : ListFilter}
    (hallowed : ∀ sort ∈ filter.sortModels, (allowedSorts sort.field).isSome = true) :
    (datedOperations select createdAt allowedSorts).statement {} filter =
      { select with orderBy :=
        select.orderBy ++ [⟨createdAt, filter.orderBy⟩] ++
          sortColumns allowedSorts filter.sortModels } := by
  have hnone : filter.sortModels.find? (fun sort => (allowedSorts sort.field).isNone) = none := by
    refine List.find?_eq_none.mpr fun sort hsort => ?_
    simp [Option.isSome_iff_ne_none.mp (hallowed sort hsort)]
  have hsorted := createQueryForSortingList_eq allowedSorts
    (injectDateOrder createdAt select filter.orderBy) filter.sortModels
  simp only [hnone, injectDateOrder, Statement.addOrderBy] at hsorted
  simp [QueryOperations.statement, QueryOperations.generateFilteredQuery,
    QueryOperations.initialStatement,
    datedOperations, hsorted, injectDateOrder, Statement.addOrderBy, Except.toOption]

/-- Rows of dates of their own are shown once on all pages, whatever they are sorted by. -/
theorem dated_pages_divide {table : List ρ} (htable : table.Nodup)
    (hdates : ∀ a ∈ table, ∀ b ∈ table, createdAt a = createdAt b → a = b) {c : Const}
    (filter : PaginatedFilter c ListFilter)
    (hallowed : ∀ sort ∈ filter.rest.sortModels, (allowedSorts sort.field).isSome = true) :
    PagesDivide (before ((datedOperations select createdAt allowedSorts).statement
      {} filter.rest).orderBy)
      (table.filter select.condition) filter.pageSize := by
  rw [datedOperations_statement select createdAt allowedSorts hallowed]
  refine pagesDivide_of_antisymm (htable.filter _) ?_ filter.pageSize_pos
  intro a ha b hb hab hba
  have hcolumns := (tied_iff _ a b).mp ⟨hab, hba⟩
  exact hdates a (List.mem_filter.mp ha).1 b (List.mem_filter.mp hb).1
    (hcolumns ⟨createdAt, filter.rest.orderBy⟩ (by simp))

/-- With the date injected, the sorts of a filter change nothing where no two rows have one date. -/
theorem sorts_without_effect {table : List ρ}
    (hdates : ∀ a ∈ table, ∀ b ∈ table, createdAt a = createdAt b → a = b)
    {db db' : Database (Statement ρ κ) ρ} (hdb : Answers table db) (hdb' : Answers table db')
    {filter filter' : ListFilter}
    (hsame : filter'.orderBy = filter.orderBy)
    (hallowed : ∀ sort ∈ filter.sortModels, (allowedSorts sort.field).isSome = true)
    (hallowed' : ∀ sort ∈ filter'.sortModels, (allowedSorts sort.field).isSome = true) :
    db.rows ((datedOperations select createdAt allowedSorts).statement {} filter) =
      db'.rows ((datedOperations select createdAt allowedSorts).statement {} filter') := by
  have hanswer := hdb ((datedOperations select createdAt allowedSorts).statement {} filter)
  have hanswer' := hdb' ((datedOperations select createdAt allowedSorts).statement {} filter')
  rw [datedOperations_statement select createdAt allowedSorts hallowed] at hanswer ⊢
  rw [datedOperations_statement select createdAt allowedSorts hallowed', hsame] at hanswer' ⊢
  have hdated : ∀ os : List (OrderBy ρ κ), ∀ a b,
      before (select.orderBy ++ [⟨createdAt, filter.orderBy⟩] ++ os) a b →
      before (select.orderBy ++ [⟨createdAt, filter.orderBy⟩]) a b :=
        fun os a b h => ((before_append _ os a b).mp h).1
  refine List.Perm.eq_of_pairwise ?_ (hanswer.sorted.imp (hdated _ _ _))
    (hanswer'.sorted.imp (hdated _ _ _))
    (hanswer.perm.trans hanswer'.perm.symm)
  intro a b ha hb hab hba
  have hcolumns := (tied_iff _ a b).mp ⟨hab, hba⟩
  refine hdates a ?_ b ?_ (hcolumns ⟨createdAt, filter.orderBy⟩ (by simp))
  · exact (List.mem_filter.mp (hanswer.perm.mem_iff.mp ha)).1
  · exact (List.mem_filter.mp (hanswer'.perm.mem_iff.mp hb)).1

end dates

/-- The names are sorted for in vain. -/
theorem names_without_effect :
    (sortingDatabase [1, 2, 3] (by decide)).rows ((datedOperations ⟨fun _ => true, []⟩ id
      (fun field => if field = "name" then some fun n => n % 2 else none)).statement {}
        ⟨.desc, [⟨"name", .asc⟩]⟩) =
    (sortingDatabase [3, 1, 2] (by decide)).rows ((datedOperations ⟨fun _ => true, []⟩ id
      (fun field => if field = "name" then some fun n => n % 2 else none)).statement {}
        ⟨.desc, []⟩) :=
  sorts_without_effect _ id _ (fun (a : Nat) (_ : a ∈ [1, 2, 3]) b _ h => h)
    (sortingDatabase_answers (by decide) (List.Perm.refl _))
      (sortingDatabase_answers (by decide) (by decide)) rfl
    (by decide) (by decide)

end QueryOrder
