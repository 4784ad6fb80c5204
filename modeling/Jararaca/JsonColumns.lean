import Mathlib.Data.List.Basic

/-!
# JSON columns with a model

`ValidatedJSON` and `PydanticJSONB` of persistence/pydantic_helpers.py. A wrapper validates its
JSON at the first access that needs it and keeps the model or the error. Every wrapper that a
query returns is one just built or one just attempted, whatever was asked of it, so an access
answers from the stored value alone. A NULL has neither a model nor an error: it is valid, and
`get` stops at its assertion.
-/
namespace JsonColumns

variable {R M E : Type}

/-- The model class of a column: `model_validate`, which returns a model or raises a
`ValidationError`, and `model_dump(mode="json")`. -/
structure ModelType (R M E : Type) where
  modelValidate : R → Except E M
  modelDump : M → R

inductive Raised (E : Type) where
  | validation (error : E)
  | assertion (message : String)
  deriving DecidableEq, Repr

structure ValidatedJSON (R M E : Type) where
  raw : Option R
  modelType : ModelType R M E
  cache : Option M
  error : Option E
  attempted : Bool

namespace ValidatedJSON

def init (raw : Option R) (modelType : ModelType R M E) : ValidatedJSON R M E :=
  ⟨raw, modelType, none, none, false⟩

def attempt (w : ValidatedJSON R M E) : ValidatedJSON R M E :=
  if w.attempted then w
  else
    match w.raw with
    | none => { w with attempted := true }
    | some raw =>
      match w.modelType.modelValidate raw with
      | .ok model => { w with attempted := true, cache := some model }
      | .error e => { w with attempted := true, error := some e }

def isNull (w : ValidatedJSON R M E) : Bool := w.raw.isNone

def isValid (w : ValidatedJSON R M E) : Bool × ValidatedJSON R M E :=
  (w.attempt.error.isNone, w.attempt)

def emptyCache : String :=
  "ValidatedJSON: cache should not be None after successful validation"

def get (w : ValidatedJSON R M E) : Except (Raised E) M × ValidatedJSON R M E :=
  match w.attempt.error, w.attempt.cache with
  | some e, _ => (.error (.validation e), w.attempt)
  | none, some model => (.ok model, w.attempt)
  | none, none => (.error (.assertion emptyCache), w.attempt)

def getOrNone (w : ValidatedJSON R M E) : Option M × ValidatedJSON R M E :=
  (w.attempt.cache, w.attempt)

end ValidatedJSON

/-- What `process_bind_param` is given: `None`, a wrapper, a model, or what
`isinstance(value, self.pydantic_type)` does not hold for. -/
inductive BindValue (R M E : Type) where
  | absent
  | wrapper (w : ValidatedJSON R M E)
  | model (m : M)
  | other (value : R)

def processBindParam (pydanticType : ModelType R M E) :
    BindValue R M E → Except (Raised E) (Option R)
  | .absent => .ok none
  | .wrapper w => w.get.1.map fun m => some (pydanticType.modelDump m)
  | .model m => .ok (some (pydanticType.modelDump m))
  | .other value =>
    ((pydanticType.modelValidate value).mapError Raised.validation).map fun m =>
      some (pydanticType.modelDump m)

def processResultValue (pydanticType : ModelType R M E) (value : Option R) : ValidatedJSON R M E :=
  .init value pydanticType

/-! ## Accesses -/

inductive Access where
  | isValid
  | isNull
  | get
  | getOrNone
  deriving DecidableEq, Repr

inductive Answer (M E : Type) where
  | flag (b : Bool)
  | got (r : Except (Raised E) M)
  | gotOrNone (m : Option M)

namespace ValidatedJSON

def access (w : ValidatedJSON R M E) : Access → Answer M E × ValidatedJSON R M E
  | .isValid => (.flag w.isValid.1, w.isValid.2)
  | .isNull => (.flag w.isNull, w)
  | .get => (.got w.get.1, w.get.2)
  | .getOrNone => (.gotOrNone w.getOrNone.1, w.getOrNone.2)

/-- The answers of a sequence of accesses, and the wrapper they leave. -/
def run (w : ValidatedJSON R M E) : List Access → List (Answer M E) × ValidatedJSON R M E
  | [] => ([], w)
  | a :: rest => ((w.access a).1 :: ((w.access a).2.run rest).1, ((w.access a).2.run rest).2)

/-- A wrapper is as it was built, or as its one attempt left it. -/
def Settled (w : ValidatedJSON R M E) : Prop :=
  w = .init w.raw w.modelType ∨ w = (init w.raw w.modelType).attempt

end ValidatedJSON

/-! ## The stored value alone -/

/-- What the model class makes of a stored value. -/
def verdict (t : ModelType R M E) : Option R → Except (Raised E) M
  | none => .error (.assertion ValidatedJSON.emptyCache)
  | some raw => (t.modelValidate raw).mapError Raised.validation

def validates (t : ModelType R M E) : Option R → Bool
  | none => true
  | some raw => (t.modelValidate raw).isOk

def answerOf (t : ModelType R M E) (stored : Option R) : Access → Answer M E
  | .isValid => .flag (validates t stored)
  | .isNull => .flag stored.isNone
  | .get => .got (verdict t stored)
  | .getOrNone => .gotOrNone (verdict t stored).toOption

namespace ValidatedJSON

@[simp] theorem attempt_raw (w : ValidatedJSON R M E) : w.attempt.raw = w.raw := by
  unfold attempt
  split
  · rfl
  · split
    · rfl
    · split <;> rfl

@[simp] theorem attempt_modelType (w : ValidatedJSON R M E) :
    w.attempt.modelType = w.modelType := by
  unfold attempt
  split
  · rfl
  · split
    · rfl
    · split <;> rfl

theorem attempt_attempted (w : ValidatedJSON R M E) : w.attempt.attempted = true := by
  unfold attempt
  split
  · assumption
  · split
    · rfl
    · split <;> rfl

@[simp] theorem attempt_attempt (w : ValidatedJSON R M E) : w.attempt.attempt = w.attempt := by
  rw [attempt, if_pos w.attempt_attempted]

theorem settled_init (raw : Option R) (t : ModelType R M E) : (init raw t).Settled := .inl rfl

/-- All attempts at one stored value end the same way. -/
theorem Settled.attempt_eq {w : ValidatedJSON R M E} (h : w.Settled) :
    w.attempt = (init w.raw w.modelType).attempt := by
  obtain h | h := h
  · exact congrArg attempt h
  · calc w.attempt = (init w.raw w.modelType).attempt.attempt := congrArg attempt h
      _ = (init w.raw w.modelType).attempt := attempt_attempt _

/-- An attempt leaves a wrapper settled. -/
theorem Settled.attempt {w : ValidatedJSON R M E} (h : w.Settled) : w.attempt.Settled := by
  right
  simpa using h.attempt_eq

/-- What an access leaves: the wrapper itself, or the wrapper attempted. -/
theorem access_leaves (w : ValidatedJSON R M E) (a : Access) :
    (w.access a).2 = w ∨ (w.access a).2 = w.attempt := by
  cases a with
  | isValid => exact .inr rfl
  | isNull => exact .inl rfl
  | get =>
    right
    simp only [access, get]
    split <;> rfl
  | getOrNone => exact .inr rfl

/-- So does every access. -/
theorem Settled.access {w : ValidatedJSON R M E} (h : w.Settled) (a : Access) :
    (w.access a).2.Settled := by
  obtain hw | hw := w.access_leaves a
  · rwa [hw]
  · rw [hw]
    exact h.attempt

@[simp] theorem access_raw (w : ValidatedJSON R M E) (a : Access) : (w.access a).2.raw = w.raw := by
  obtain hw | hw := w.access_leaves a <;> simp [hw]

@[simp] theorem access_modelType (w : ValidatedJSON R M E) (a : Access) :
    (w.access a).2.modelType = w.modelType := by
  obtain hw | hw := w.access_leaves a <;> simp [hw]

/-- The attempt at a wrapper just built, by the three kinds of stored value. -/
theorem init_attempt (raw : Option R) (t : ModelType R M E) :
    (init raw t).attempt = ⟨raw, t, (verdict t raw).toOption,
      match raw with
      | none => none
      | some r => match t.modelValidate r with
        | .ok _ => none
        | .error e => some e, true⟩ := by
  cases raw with
  | none => rfl
  | some r =>
    simp only [attempt, init, verdict]
    cases t.modelValidate r <;> rfl

/-- The first access answers by the stored value. -/
theorem init_access (raw : Option R) (t : ModelType R M E) (a : Access) :
    ((init raw t).access a).1 = answerOf t raw a := by
  cases a with
  | isNull => rfl
  | getOrNone => simp only [access, getOrNone, init_attempt, answerOf]
  | isValid =>
    simp only [access, isValid, init_attempt, answerOf]
    cases raw with
    | none => rfl
    | some r => cases h : t.modelValidate r <;> simp [validates, h, Except.isOk, Except.toBool]
  | get =>
    simp only [access, get, init_attempt, answerOf]
    cases raw with
    | none => rfl
    | some r => cases h : t.modelValidate r <;> simp [verdict, h, Except.mapError, Except.toOption]

/-- An access looks at the wrapper through the stored value and the attempt only. -/
theorem access_congr (v w : ValidatedJSON R M E) (hraw : v.raw = w.raw)
    (hattempt : v.attempt = w.attempt)
    (a : Access) : (v.access a).1 = (w.access a).1 := by
  cases a with
  | isNull => simp only [access, isNull, hraw]
  | isValid => simp only [access, isValid, hattempt]
  | getOrNone => simp only [access, getOrNone, hattempt]
  | get => simp only [access, get, hattempt]

theorem Settled.access_answer {w : ValidatedJSON R M E} (h : w.Settled) (a : Access) :
    (w.access a).1 = answerOf w.modelType w.raw a :=
  calc (w.access a).1 = ((init w.raw w.modelType).access a).1 :=
      access_congr w (init w.raw w.modelType) rfl h.attempt_eq a
    _ = answerOf w.modelType w.raw a := init_access _ _ a

/-- A sequence of accesses answers each as the stored value does. -/
theorem Settled.run_answers {w : ValidatedJSON R M E} (h : w.Settled) (accesses : List Access) :
    (w.run accesses).1 = accesses.map (answerOf w.modelType w.raw) := by
  induction accesses generalizing w with
  | nil => rfl
  | cons a rest ih =>
    simp only [ValidatedJSON.run, List.map_cons, h.access_answer a, ih (h.access a),
      access_raw, access_modelType]

/-- Accesses change neither the stored value nor the class. -/
theorem Settled.run_settled {w : ValidatedJSON R M E} (h : w.Settled) (accesses : List Access) :
    (w.run accesses).2.Settled ∧ (w.run accesses).2.raw = w.raw ∧
      (w.run accesses).2.modelType = w.modelType := by
  induction accesses generalizing w with
  | nil => exact ⟨h, rfl, rfl⟩
  | cons a rest ih =>
    simpa only [ValidatedJSON.run, access_raw, access_modelType] using ih (h.access a)

/-- `get` gives the verdict on the stored value. -/
theorem Settled.get_eq {w : ValidatedJSON R M E} (h : w.Settled) :
    w.get.1 = verdict w.modelType w.raw :=
  Answer.got.inj (h.access_answer .get)

theorem Settled.isValid_eq {w : ValidatedJSON R M E} (h : w.Settled) :
    w.isValid.1 = validates w.modelType w.raw :=
  Answer.flag.inj (h.access_answer .isValid)

theorem Settled.getOrNone_eq {w : ValidatedJSON R M E} (h : w.Settled) :
    w.getOrNone.1 = (verdict w.modelType w.raw).toOption :=
  Answer.gotOrNone.inj (h.access_answer .getOrNone)

end ValidatedJSON

/-! ## Reading, then writing back -/

/-- A column whose values are read, asked and written back: the accesses answer in any order as
each alone would, a valid wrapper has a model, NULL is written as NULL, JSON that validates as
the dump of its model, and JSON that does not is never written. -/
structure ReadModifyWrite (t : ModelType R M E) (stored : Option R) : Prop where
  anyOrder : ∃ answer : Access → Answer M E, ∀ accesses : List Access,
    ((processResultValue t stored).run accesses).1 = accesses.map answer
  validGets : ∀ before between : List Access,
    ((processResultValue t stored).run before).2.isValid.1 = true →
      ∃ m, (((processResultValue t stored).run before).2.isValid.2.run between).2.get.1 = .ok m
  writesNull : stored = none → ∀ accesses : List Access,
    processBindParam t (.wrapper ((processResultValue t stored).run accesses).2) = .ok none
  writesModel : ∀ raw m, stored = some raw → t.modelValidate raw = .ok m → ∀ accesses : List Access,
    processBindParam t (.wrapper ((processResultValue t stored).run accesses).2) =
      .ok (some (t.modelDump m))
  raisesInvalid : ∀ raw e, stored = some raw → t.modelValidate raw = .error e →
    ∀ accesses : List Access,
      processBindParam t (.wrapper ((processResultValue t stored).run accesses).2) =
          .error (.validation e) ∧
        ((processResultValue t stored).run accesses).2.getOrNone.1 = none

section stored

variable (t : ModelType R M E) (stored : Option R) (accesses : List Access)

/-- The wrapper of a stored value after some accesses. -/
theorem read_settled : ((processResultValue t stored).run accesses).2.Settled :=
  (ValidatedJSON.settled_init stored t).run_settled accesses |>.1

@[simp] theorem read_raw : ((processResultValue t stored).run accesses).2.raw = stored :=
  (ValidatedJSON.settled_init stored t).run_settled accesses |>.2.1

@[simp] theorem read_modelType : ((processResultValue t stored).run accesses).2.modelType = t :=
  (ValidatedJSON.settled_init stored t).run_settled accesses |>.2.2

theorem read_get : ((processResultValue t stored).run accesses).2.get.1 = verdict t stored := by
  simpa using (read_settled t stored accesses).get_eq

/-- After any accesses `is_valid` says whether the stored value validates. -/
theorem read_isValid :
    ((processResultValue t stored).run accesses).2.isValid.1 = validates t stored := by
  simpa using (read_settled t stored accesses).isValid_eq

/-- After any accesses `get_or_none` gives what the value validates to, if it does. -/
theorem read_getOrNone :
    ((processResultValue t stored).run accesses).2.getOrNone.1 = (verdict t stored).toOption := by
  simpa using (read_settled t stored accesses).getOrNone_eq

/-- A wrapper that was asked is written back as its stored value is judged. -/
theorem read_bind : processBindParam t (.wrapper ((processResultValue t stored).run accesses).2) =
    (verdict t stored).map fun m => some (t.modelDump m) := by
  rw [processBindParam, read_get]

/-- The accesses answer alike in any order, NULL or not. -/
theorem accesses_any_order :
    ((processResultValue t stored).run accesses).1 = accesses.map (answerOf t stored) :=
  (ValidatedJSON.settled_init stored t).run_answers accesses

theorem verdict_of_validates {t : ModelType R M E} {raw : R} (h : validates t (some raw) = true) :
    ∃ m, verdict t (some raw) = .ok m := by
  simp only [validates, verdict] at h ⊢
  cases hv : t.modelValidate raw with
  | ok m => exact ⟨m, rfl⟩
  | error e => simp [hv, Except.isOk, Except.toBool] at h

end stored

/-- The column is read and written back as it should exactly when the stored value is not NULL. -/
theorem readModifyWrite_iff (t : ModelType R M E) (stored : Option R) :
    ReadModifyWrite t stored ↔ stored ≠ none := by
  constructor
  · intro h hnull
    have hwrites := h.writesNull hnull []
    rw [read_bind, hnull] at hwrites
    cases hwrites
  · intro hstored
    obtain ⟨raw, rfl⟩ := Option.ne_none_iff_exists'.mp hstored
    constructor
    case anyOrder =>
      exact ⟨answerOf t (some raw), accesses_any_order t (some raw)⟩
    case validGets =>
      intro before between hvalid
      rw [read_isValid] at hvalid
      obtain ⟨m, hm⟩ := verdict_of_validates hvalid
      have hsettled := (read_settled t (some raw) before).access .isValid
      have hread := hsettled.run_settled between
      refine ⟨m, ?_⟩
      calc _ = verdict _ _ := hread.1.get_eq
        _ = verdict t (some raw) := by
          rw [hread.2.1, hread.2.2, ValidatedJSON.access_raw, ValidatedJSON.access_modelType,
            read_raw, read_modelType]
        _ = .ok m := hm
    case writesNull => exact fun h => absurd h hstored
    case writesModel =>
      intro r m hr hm accesses
      cases hr
      rw [read_bind]
      simp [verdict, hm, Except.mapError, Except.map]
    case raisesInvalid =>
      intro r e hr he accesses
      cases hr
      rw [read_bind, read_getOrNone]
      simp [verdict, he, Except.mapError, Except.map, Except.toOption]

/-- The model of a column with one number, and the name of the field that is missing. -/
def volumeModel : ModelType (List (String × Nat)) Nat String where
  modelValidate raw := match raw.lookup "volume" with
    | some n => .ok n
    | none => .error "volume"
  modelDump n := [("volume", n)]

/-- A NULL that is read and written back unchanged: the write raises. -/
theorem null_not_written_back : ¬ ReadModifyWrite volumeModel none := by
  intro h
  have hwrites := h.writesNull rfl []
  cases hwrites

/-- A wrapper of NULL says that it is valid, and `get` raises. -/
theorem null_valid_without_model (t : ModelType R M E) (accesses : List Access) :
    ((processResultValue t none).run accesses).2.isValid.1 = true ∧
      ((processResultValue t none).run accesses).2.get.1 =
        .error (.assertion ValidatedJSON.emptyCache) :=
  ⟨read_isValid t none accesses, read_get t none accesses⟩

/-! ## `partition_by_schema_validity` -/

structure ValidRow (I M : Type) where
  rowId : I
  value : M

structure InvalidRow (I R : Type) where
  rowId : I
  raw : Option R
  error : String

structure SchemaValidationReport (I R M : Type) where
  valid : List (ValidRow I M)
  invalid : List (InvalidRow I R)

namespace SchemaValidationReport

variable {I : Type}

def total (report : SchemaValidationReport I R M) : Nat :=
  report.valid.length + report.invalid.length

end SchemaValidationReport

section partition

variable {I T : Type} (str : Option E → String) (fieldAccessor : T → ValidatedJSON R M E)
  (idAccessor : T → I)

/-- The loop over the rows, with the report so far. -/
def partitionRows :
    List T → SchemaValidationReport I R M → Except (Raised E) (SchemaValidationReport I R M)
  | [], report => .ok report
  | row :: rows, report =>
    let wrapper := fieldAccessor row
    if wrapper.isNull then partitionRows rows report
    else if wrapper.isValid.1 then
      match wrapper.isValid.2.get.1 with
      | .ok value =>
        partitionRows rows { report with valid := report.valid ++ [⟨idAccessor row, value⟩] }
      | .error e => .error e
    else
      partitionRows rows { report with
        invalid := report.invalid ++ [⟨idAccessor row, wrapper.raw, str wrapper.isValid.2.error⟩] }

def partitionBySchemaValidity (rows : List T) :
    Except (Raised E) (SchemaValidationReport I R M) :=
  partitionRows str fieldAccessor idAccessor rows ⟨[], []⟩

/-- The row of the report for an entity: none for NULL, else its model or its error. -/
def rowOf (t : ModelType R M E) (row : T) : Option (ValidRow I M ⊕ InvalidRow I R) :=
  (fieldAccessor row).raw.map fun raw => match t.modelValidate raw with
    | .ok value => .inl ⟨idAccessor row, value⟩
    | .error e => .inr ⟨idAccessor row, some raw, str (some e)⟩

variable {str fieldAccessor idAccessor}

/-- One entity: left out, added to the valid rows, or added to the invalid ones. -/
theorem partitionRows_cons {t : ModelType R M E} {row : T} (hrow : (fieldAccessor row).Settled)
    (ht : (fieldAccessor row).modelType = t) (rows : List T)
    (report : SchemaValidationReport I R M) :
    partitionRows str fieldAccessor idAccessor (row :: rows) report =
      partitionRows str fieldAccessor idAccessor rows
        (match rowOf str fieldAccessor idAccessor t row with
          | none => report
          | some (.inl valid) => { report with valid := report.valid ++ [valid] }
          | some (.inr invalid) => { report with invalid := report.invalid ++ [invalid] }) := by
  have hvalid := hrow.isValid_eq
  have hget := (hrow.access .isValid).get_eq
  have herror := congrArg ValidatedJSON.error hrow.attempt_eq
  rw [ValidatedJSON.init_attempt] at herror
  simp only [ValidatedJSON.access_raw, ValidatedJSON.access_modelType, ht] at hvalid hget herror
  simp only [partitionRows, rowOf, ValidatedJSON.isNull]
  obtain hraw | ⟨raw, hraw⟩ := Option.eq_none_or_eq_some (fieldAccessor row).raw
  · simp [hraw]
  · simp only [hraw, validates, verdict] at hvalid hget herror
    cases hv : t.modelValidate raw with
    | ok value =>
      simp only [hv, Except.isOk, Except.toBool, Except.mapError] at hvalid hget
      simp [hraw, hvalid, hv, show (fieldAccessor row).isValid.2.get.1 = .ok value from hget]
    | error e =>
      simp only [hv, Except.isOk, Except.toBool] at hvalid herror
      simp [hraw, hvalid, hv, show (fieldAccessor row).isValid.2.error = some e from herror]

/-- The whole report: never an exception, the rows in their order, NULL left out. -/
theorem partitionRows_ok {t : ModelType R M E} {rows : List T}
    (hrows : ∀ row ∈ rows, (fieldAccessor row).Settled ∧ (fieldAccessor row).modelType = t)
    (report : SchemaValidationReport I R M) :
    partitionRows str fieldAccessor idAccessor rows report =
      .ok ⟨report.valid ++
          (rows.filterMap (rowOf str fieldAccessor idAccessor t)).filterMap Sum.getLeft?,
        report.invalid ++
          (rows.filterMap (rowOf str fieldAccessor idAccessor t)).filterMap Sum.getRight?⟩ := by
  induction rows generalizing report with
  | nil => simp [partitionRows]
  | cons row rows ih =>
    have hrow := hrows row (by simp)
    rw [partitionRows_cons hrow.1 hrow.2, ih fun r hr => hrows r (by simp [hr])]
    cases h : rowOf str fieldAccessor idAccessor t row with
    | none => simp [h]
    | some either => cases either <;> simp [List.filterMap_cons, h]

theorem length_valid_add_invalid (items : List (ValidRow I M ⊕ InvalidRow I R)) :
    (items.filterMap Sum.getLeft?).length + (items.filterMap Sum.getRight?).length =
      items.length := by
  induction items with
  | nil => rfl
  | cons item items ih => cases item <;> simp [List.filterMap_cons] <;> omega

theorem length_rowOf (t : ModelType R M E) (rows : List T) :
    (rows.filterMap (rowOf str fieldAccessor idAccessor t)).length =
      (rows.filter fun row => !(fieldAccessor row).isNull).length := by
  simp only [ValidatedJSON.isNull]
  induction rows with
  | nil => rfl
  | cons row rows ih => cases h : (fieldAccessor row).raw <;> simpa [rowOf, h] using ih

/-- Every row with a value is counted once, valid or not. -/
theorem partitionBySchemaValidity_ok {t : ModelType R M E} {rows : List T}
    (hrows : ∀ row ∈ rows, (fieldAccessor row).Settled ∧ (fieldAccessor row).modelType = t) :
    ∃ report, partitionBySchemaValidity str fieldAccessor idAccessor rows = .ok report ∧
      report.total = (rows.filter fun row => !(fieldAccessor row).isNull).length :=
  ⟨_, partitionRows_ok hrows _, by
    simpa [SchemaValidationReport.total, length_rowOf] using
      length_valid_add_invalid (rows.filterMap (rowOf str fieldAccessor idAccessor t))⟩

end partition

end JsonColumns
