import Mathlib.Data.Finset.Card
import Mathlib.Data.Finset.Filter
import Jararaca.GlobPatterns

/-!
# The execution counter

`in_execution` and `get_in_execution_count` of `RedisMessageBrokerBackend`. An open context
is one key, made of the action's name and the second in which the context was entered, and
the count is the number of keys that match a pattern with that name. Any number of workers
enter and leave contexts of any actions, and the backend writes its other keys meanwhile.
-/
namespace ExecutionCounter

open GlobPatterns

/-- The characters of a dotted Python identifier: letters, digits, the underscore and the dot,
and beyond ASCII whatever an identifier may have. -/
def nameChar (c : Char) : Bool := c.isAlphanum || c == '_' || c == '.' || decide (128 ≤ c.toNat)

def DottedName (name : String) : Prop := ∀ c ∈ name.toList, nameChar c = true

/-- `execution_indicator_key` with its two fields filled in. -/
def executionIndicatorKey (actionName timestamp : String) : String :=
  "in_execution:" ++ actionName ++ ":" ++ timestamp

/-- A call of `in_execution`: the worker, the action, and `int(time.time())` at the call. -/
structure Execution (ω : Type) where
  worker : ω
  actionName : String
  second : Nat
  deriving DecidableEq

def Execution.key {ω : Type} (x : Execution ω) : String :=
  executionIndicatorKey x.actionName (toString x.second)

/-- The keys of the database; the calls that have computed their key, and those whose key was
set: the open contexts. -/
structure State (ω : Type) where
  keys : Finset String
  entering : List (Execution ω) := []
  opened : List (Execution ω) := []

variable {ω : Type}

def getInExecutionCount (s : State ω) (actionName : String) : Nat :=
  (s.keys.filter fun key => globMatch (executionIndicatorKey actionName "*") key = true).card

def openContexts (s : State ω) (actionName : String) : Nat :=
  (s.opened.filter fun x => decide (x.actionName = actionName)).length

/-- A key of something else. -/
def Foreign (key : String) : Prop := ¬"in_execution:".toList <+: key.toList

inductive Event (ω : Type) where
  | computes (x : Execution ω)
  | sets (x : Execution ω)
  | deletes (x : Execution ω)
  | writes (key : String)
  | drops (key : String)

/-- One step of one worker; each command is atomic at the server. -/
inductive Step [DecidableEq ω] : Event ω → State ω → State ω → Prop
  | computes {s} (x : Execution ω) (hname : DottedName x.actionName) :
      Step (.computes x) s { s with entering := x :: s.entering }
  | sets {s x} (hx : x ∈ s.entering) :
      Step (.sets x) s ⟨insert x.key s.keys, s.entering.erase x, x :: s.opened⟩
  | deletes {s x} (hx : x ∈ s.opened) :
      Step (.deletes x) s ⟨s.keys.erase x.key, s.entering, s.opened.erase x⟩
  -- `set_last_dispatch_time`, the delayed messages and the lock
  | writes {s key} (hkey : Foreign key) : Step (.writes key) s { s with keys := insert key s.keys }
  | drops {s key} (hkey : Foreign key) : Step (.drops key) s { s with keys := s.keys.erase key }

/-- A run: each event with the state it leaves. -/
inductive Path [DecidableEq ω] : State ω → List (Event ω × State ω) → Prop
  | nil (s) : Path s []
  | cons {s e s' rest} (hstep : Step e s s') (hrest : Path s' rest) : Path s ((e, s') :: rest)

/-- A database without such keys, and nobody inside. -/
def start (keys : Finset String) : State ω := { keys := keys }

/-- The counter is right for every action. -/
def Exact (s : State ω) : Prop := ∀ actionName, DottedName actionName →
  getInExecutionCount s actionName = openContexts s actionName

/-- A context is opened in another second than every open context of its action. -/
def OwnSecond (s : State ω) : Event ω → Prop
  | .sets x => ∀ y ∈ s.opened, y.actionName = x.actionName → y.second ≠ x.second
  | _ => True

/-- Every step of a run does so. -/
def OwnSeconds : State ω → List (Event ω × State ω) → Prop
  | _, [] => True
  | s, (e, s') :: rest => OwnSecond s e ∧ OwnSeconds s' rest

section Keys

theorem nameChar_ne {c : Char} (hc : nameChar c = true) : c ≠ ':' ∧ c ∉ special := by
  have hcolon : nameChar ':' = false := by decide
  have hspecial : (special.all fun d => !nameChar d) = true := by decide
  constructor
  · rintro rfl
    rw [hcolon] at hc
    cases hc
  · intro hmem
    have hnot := List.all_eq_true.mp hspecial c hmem
    rw [hc] at hnot
    cases hnot

theorem DottedName.colon {name : String} (h : DottedName name) : ':' ∉ name.toList :=
  fun hmem => (nameChar_ne (h ':' hmem)).1 rfl

theorem key_toList (name timestamp : String) : (executionIndicatorKey name timestamp).toList =
    "in_execution:".toList ++ (name.toList ++ ':' :: timestamp.toList) := by
  change ("in_execution:" ++ name ++ ":" ++ timestamp).toList = _
  simp

/-- The name of a key ends at the first colon after it. -/
theorem prefix_colon_iff {a b r r' : List Char} (ha : ':' ∉ a) (hb : ':' ∉ b) :
    a ++ ':' :: r <+: b ++ ':' :: r' ↔ a = b ∧ r <+: r' := by
  induction a generalizing b with
  | nil =>
    cases b with
    | nil => simp
    | cons d b =>
      have hd : ':' ≠ d := fun heq => hb (heq ▸ List.mem_cons_self)
      simp [hd]
  | cons c a ih =>
    cases b with
    | nil =>
      have hc : c ≠ ':' := fun heq => ha (heq ▸ List.mem_cons_self)
      simp [hc]
    | cons d b =>
      have ha' : ':' ∉ a := fun hmem => ha (List.mem_cons_of_mem c hmem)
      have hb' : ':' ∉ b := fun hmem => hb (List.mem_cons_of_mem d hmem)
      rw [List.cons_append, List.cons_append, List.cons_prefix_cons, ih ha' hb',
        List.cons.injEq, and_assoc]

/-- Which keys the pattern of an action matches. -/
theorem match_iff {name : String} (hname : DottedName name) (key : String) :
    globMatch (executionIndicatorKey name "*") key = true ↔
      "in_execution:".toList ++ (name.toList ++ [':']) <+: key.toList := by
  have hpattern : executionIndicatorKey name "*" = (executionIndicatorKey name "") ++ "*" := by
    change "in_execution:" ++ name ++ ":" ++ "*" = "in_execution:" ++ name ++ ":" ++ "" ++ "*"
    rw [String.append_empty]
  have hlist : (executionIndicatorKey name "").toList =
      "in_execution:".toList ++ (name.toList ++ [':']) := by
    rw [key_toList]
    rfl
  rw [hpattern, globMatch_star, hlist]
  intro c hc
  rw [hlist, List.mem_append, List.mem_append] at hc
  obtain hc | hc | hc := hc
  · have hhead : "in_execution:".toList.all (fun d => decide (d ∉ special)) = true := by decide
    exact of_decide_eq_true (List.all_eq_true.mp hhead c hc)
  · exact (nameChar_ne (hname c hc)).2
  · rw [List.mem_singleton.mp hc]
    decide

/-- The pattern of an action matches the key of a context just where it is one of that action. -/
theorem match_key {name : String} (hname : DottedName name) {x : Execution ω}
    (hx : DottedName x.actionName) :
    globMatch (executionIndicatorKey name "*") x.key = true ↔ x.actionName = name := by
  rw [match_iff hname, Execution.key, key_toList, List.prefix_append_right_inj,
    prefix_colon_iff hname.colon hx.colon, String.toList_inj]
  simp [eq_comm]

theorem foreign_of_no_match {name key : String} (hname : DottedName name) (hkey : Foreign key) :
    globMatch (executionIndicatorKey name "*") key = false := by
  rw [← Bool.not_eq_true, match_iff hname]
  intro hprefix
  exact hkey ((List.prefix_append _ _).trans hprefix)

theorem toString_injective : Function.Injective (toString : Nat → String) := by
  intro m n heq
  have hdigits : Nat.toDigits 10 m = Nat.toDigits 10 n := by
    have hlist := congrArg String.toList heq
    rwa [Nat.toString_eq_repr, Nat.toString_eq_repr, Nat.toList_repr, Nat.toList_repr] at hlist
  rw [← Nat.ofDigitChars_ten_toDigits (n := m), hdigits, Nat.ofDigitChars_ten_toDigits]

/-- Two contexts have one key just where they have one action and one second. -/
theorem key_eq_iff {x y : Execution ω} (hx : DottedName x.actionName)
    (hy : DottedName y.actionName) :
    x.key = y.key ↔ x.actionName = y.actionName ∧ x.second = y.second := by
  constructor
  · intro heq
    have hlist := congrArg String.toList heq
    rw [Execution.key, Execution.key, key_toList, key_toList, List.append_cancel_left_eq] at hlist
    obtain ⟨hname, -⟩ := (prefix_colon_iff hx.colon hy.colon).mp (by rw [hlist])
    rw [hname, List.append_cancel_left_eq, List.cons.injEq] at hlist
    exact ⟨String.toList_inj.mp hname, toString_injective (String.toList_inj.mp hlist.2)⟩
  · rintro ⟨hname, hsecond⟩
    rw [Execution.key, Execution.key, hname, hsecond]

theorem key_not_foreign (x : Execution ω) : ¬Foreign x.key := by
  rw [Foreign, not_not, Execution.key, key_toList]
  exact List.prefix_append _ _

end Keys

/-- The open contexts and their keys correspond one to one. -/
structure Marked (s : State ω) : Prop where
  entering : ∀ x ∈ s.entering, DottedName x.actionName
  opened : ∀ x ∈ s.opened, DottedName x.actionName
  keys : ∀ key ∈ s.keys, ¬Foreign key → ∃ x ∈ s.opened, x.key = key
  marks : ∀ x ∈ s.opened, x.key ∈ s.keys
  nodup : (s.opened.map Execution.key).Nodup

/-- In a database with foreign keys only nobody is inside. -/
theorem start_marked {keys : Finset String} (hkeys : ∀ key ∈ keys, Foreign key) :
    Marked (start keys : State ω) where
  entering := by simp [start]
  opened := by simp [start]
  keys key hkey hnot := absurd (hkeys key hkey) hnot
  marks := by simp [start]
  nodup := List.nodup_nil

/-- Where they do, the counter is right. -/
theorem Marked.exact {s : State ω} (h : Marked s) : Exact s := by
  intro name hname
  have hkeys : s.keys.filter (fun key => globMatch (executionIndicatorKey name "*") key = true) =
      ((s.opened.filter fun x => decide (x.actionName = name)).map Execution.key).toFinset := by
    ext key
    simp only [Finset.mem_filter, List.mem_toFinset, List.mem_map, List.mem_filter,
      decide_eq_true_eq]
    constructor
    · rintro ⟨hkey, hmatch⟩
      have hnot : ¬Foreign key := by
        intro hforeign
        rw [foreign_of_no_match hname hforeign] at hmatch
        cases hmatch
      obtain ⟨x, hx, rfl⟩ := h.keys key hkey hnot
      exact ⟨x, ⟨hx, (match_key hname (h.opened x hx)).mp hmatch⟩, rfl⟩
    · rintro ⟨x, ⟨hx, hown⟩, rfl⟩
      exact ⟨h.marks x hx, (match_key hname (h.opened x hx)).mpr hown⟩
  have hnodup : ((s.opened.filter fun x => decide (x.actionName = name)).map Execution.key).Nodup :=
    h.nodup.sublist (List.filter_sublist.map Execution.key)
  rw [getInExecutionCount, hkeys, List.toFinset_card_of_nodup hnodup, List.length_map, openContexts]

section Steps

variable [DecidableEq ω] {s s' : State ω} {e : Event ω}

/-- Setting a key in a second of its own keeps the correspondence. -/
theorem Marked.sets (h : Marked s) {x : Execution ω} (hx : x ∈ s.entering)
    (hown : OwnSecond s (.sets x)) :
    Marked ⟨insert x.key s.keys, s.entering.erase x, x :: s.opened⟩ where
  entering y hy := h.entering y (List.mem_of_mem_erase hy)
  opened y hy := by
    obtain rfl | hy := List.mem_cons.mp hy
    · exact h.entering y hx
    · exact h.opened y hy
  keys key hkey hnot := by
    obtain rfl | hkey := Finset.mem_insert.mp hkey
    · exact ⟨x, List.mem_cons_self, rfl⟩
    · obtain ⟨y, hy, rfl⟩ := h.keys key hkey hnot
      exact ⟨y, List.mem_cons_of_mem x hy, rfl⟩
  marks y hy := by
    obtain rfl | hy := List.mem_cons.mp hy
    · exact Finset.mem_insert_self _ _
    · exact Finset.mem_insert_of_mem (h.marks y hy)
  nodup := by
    rw [List.map_cons, List.nodup_cons]
    refine ⟨?_, h.nodup⟩
    intro hmem
    obtain ⟨y, hy, heq⟩ := List.mem_map.mp hmem
    obtain ⟨hname, hsecond⟩ := (key_eq_iff (h.opened y hy) (h.entering x hx)).mp heq
    exact hown y hy hname hsecond

/-- Deleting the key of an open context keeps the correspondence. -/
theorem Marked.deletes (h : Marked s) {x : Execution ω} (hx : x ∈ s.opened) :
    Marked ⟨s.keys.erase x.key, s.entering, s.opened.erase x⟩ := by
  have hperm : s.opened.Perm (x :: s.opened.erase x) := List.perm_cons_erase hx
  have hnodup : (x.key :: (s.opened.erase x).map Execution.key).Nodup :=
    ((hperm.map Execution.key).nodup_iff).mp h.nodup
  have hother : ∀ y ∈ s.opened.erase x, y.key ≠ x.key := by
    intro y hy heq
    exact (List.nodup_cons.mp hnodup).1 (heq ▸ List.mem_map_of_mem hy)
  refine ⟨h.entering, fun y hy => h.opened y (List.mem_of_mem_erase hy), ?_, ?_,
    (List.nodup_cons.mp hnodup).2⟩
  · intro key hkey hnot
    obtain ⟨hne, hkey⟩ := Finset.mem_erase.mp hkey
    obtain ⟨y, hy, rfl⟩ := h.keys key hkey hnot
    obtain rfl | hy := List.mem_cons.mp (hperm.mem_iff.mp hy)
    · exact absurd rfl hne
    · exact ⟨y, hy, rfl⟩
  · intro y hy
    exact Finset.mem_erase.mpr ⟨hother y hy, h.marks y (List.mem_of_mem_erase hy)⟩

/-- A step in which no second is shared keeps the correspondence. -/
theorem Marked.step (h : Marked s) (hstep : Step e s s') (hown : OwnSecond s e) : Marked s' := by
  cases hstep with
  | computes x hname =>
    refine ⟨?_, h.opened, h.keys, h.marks, h.nodup⟩
    intro y hy
    obtain rfl | hy := List.mem_cons.mp hy
    · exact hname
    · exact h.entering y hy
  | sets hx => exact h.sets hx hown
  | deletes hx => exact h.deletes hx
  | @writes _ key hkey =>
    refine ⟨h.entering, h.opened, ?_, fun x hx => Finset.mem_insert_of_mem (h.marks x hx), h.nodup⟩
    intro key' hkey' hnot
    obtain rfl | hkey' := Finset.mem_insert.mp hkey'
    · exact absurd hkey hnot
    · exact h.keys key' hkey' hnot
  | @drops _ key hkey =>
    refine ⟨h.entering, h.opened,
      fun key' hkey' => h.keys key' (Finset.mem_of_mem_erase hkey'), ?_, h.nodup⟩
    intro x hx
    refine Finset.mem_erase.mpr ⟨?_, h.marks x hx⟩
    rintro rfl
    exact key_not_foreign x hkey

/-- A context that shares the second of an open one is not counted. -/
theorem Marked.shared (h : Marked s) (hstep : Step e s s') (hshared : ¬OwnSecond s e) :
    ¬Exact s' := by
  cases hstep with
  | computes x hname => exact absurd trivial hshared
  | deletes hx => exact absurd trivial hshared
  | writes hkey => exact absurd trivial hshared
  | drops hkey => exact absurd trivial hshared
  | @sets _ x hx =>
    intro hexact
    obtain ⟨y, hy, hname, hsecond⟩ :
      ∃ y ∈ s.opened, y.actionName = x.actionName ∧ y.second = x.second := by
      simpa [OwnSecond] using hshared
    have hkey : x.key ∈ s.keys := by
      rw [← (key_eq_iff (h.opened y hy) (h.entering x hx)).mpr ⟨hname, hsecond⟩]
      exact h.marks y hy
    have hbefore := h.exact x.actionName (h.entering x hx)
    have hafter := hexact x.actionName (h.entering x hx)
    simp only [getInExecutionCount, openContexts, Finset.insert_eq_of_mem hkey,
      List.filter_cons, decide_true,
      if_true, List.length_cons] at hbefore hafter
    omega

end Steps

section Runs

variable [DecidableEq ω]

/-- In a run from a state where contexts and keys correspond, the counter is right in every
state just where no context is opened in the second of an open one of its action. -/
theorem run_exact_iff {s : State ω} {path : List (Event ω × State ω)} (hpath : Path s path)
    (h : Marked s) :
    (Exact s ∧ ∀ p ∈ path, Exact p.2) ↔ OwnSeconds s path := by
  induction hpath with
  | nil s => simp [OwnSeconds, h.exact]
  | @cons s e s' rest hstep hrest ih =>
    rw [OwnSeconds, List.forall_mem_cons, and_iff_right h.exact]
    by_cases hown : OwnSecond s e
    · rw [ih (h.step hstep hown), and_iff_right hown]
    · exact iff_of_false (fun hall => h.shared hstep hown hall.1) (fun hall => hown hall.1)

/-- Exactly when the counter is right all along: in every run of any workers from an empty
counter, in every state it reaches, just where every context is opened in another second than
the open contexts of its action. -/
theorem execution_count_exact_iff {keys : Finset String} (hkeys : ∀ key ∈ keys, Foreign key)
    {path : List (Event ω × State ω)} (hpath : Path (start keys) path) :
    (Exact (start keys : State ω) ∧ ∀ p ∈ path, Exact p.2) ↔ OwnSeconds (start keys) path :=
  run_exact_iff hpath (start_marked hkeys)

end Runs

/-- Two workers enter the same action, in seconds that are given. -/
def cleanup (worker : Bool) (second : Nat) : Execution Bool := ⟨worker, "app.tasks.cleanup", second⟩

def bothInside (first second : Nat) : State Bool where
  keys := insert (cleanup true second).key (insert (cleanup false first).key ∅)
  entering :=
    ([cleanup true second, cleanup false first].erase (cleanup false first)).erase
    (cleanup true second)
  opened := [cleanup true second, cleanup false first]

def twoWorkers (first second : Nat) : List (Event Bool × State Bool) :=
  let x := cleanup false first
  let y := cleanup true second
  [(.computes x, ⟨∅, [x], []⟩), (.computes y, ⟨∅, [y, x], []⟩),
    (.sets x, ⟨insert x.key ∅, [y, x].erase x, [x]⟩),
    (.sets y, bothInside first second)]

theorem twoWorkers_path (first second : Nat) : Path (start ∅) (twoWorkers first second) := by
  have hname : DottedName "app.tasks.cleanup" := List.all_eq_true.1 (by decide)
  have hkept : cleanup true second ∈
      [cleanup true second, cleanup false first].erase (cleanup false first) := by
    simp [cleanup]
  exact .cons (.computes _ hname) (.cons (.computes _ hname)
    (.cons (.sets (by simp)) (.cons (.sets hkept) (.nil _))))

/-- In the same second both contexts share a key: two are open and one is counted. -/
theorem same_second_counted_once : Path (start ∅) (twoWorkers 100 100) ∧
    ∃ p ∈ twoWorkers 100 100, getInExecutionCount p.2 "app.tasks.cleanup" = 1 ∧
      openContexts p.2 "app.tasks.cleanup" = 2 ∧ ¬Exact p.2 := by
  have hcount : getInExecutionCount (bothInside 100 100) "app.tasks.cleanup" =
      1 := by decide +kernel
  have hlast : (.sets (cleanup true 100), bothInside 100 100) ∈ twoWorkers 100 100 := by
    simp only [twoWorkers, List.mem_cons, true_or, or_true]
  refine ⟨twoWorkers_path 100 100, _, hlast, hcount, rfl, ?_⟩
  intro hexact
  have hright := hexact "app.tasks.cleanup" (List.all_eq_true.1 (by decide))
  rw [hcount] at hright
  exact absurd hright (by decide)

/-- In different seconds the counter is right all along. -/
theorem different_seconds_counted :
    Exact (start ∅ : State Bool) ∧ ∀ p ∈ twoWorkers 100 101, Exact p.2 :=
  (execution_count_exact_iff (by simp) (twoWorkers_path 100 101)).mpr
    (by simp [twoWorkers, OwnSeconds, OwnSecond, cleanup])

end ExecutionCounter
