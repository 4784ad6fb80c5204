import Mathlib.Data.List.Infix

/-!
# Patterns of a topic exchange

A routing key is a list of words and a binding pattern a list of words and wildcards: one
word for a star, any number of words for a hash.
-/
namespace TopicPatterns

inductive Word (α : Type) where
  | lit (a : α)
  | star
  | hash
  deriving DecidableEq, Repr

variable {α : Type} [DecidableEq α]

/-- Whether a binding pattern accepts the words of a routing key. -/
def accepts : List (Word α) → List α → Bool
  | [], ws => ws.isEmpty
  | .hash :: ps, ws => ws.tails.any fun rest => accepts ps rest
  | .star :: ps, ws => match ws with
    | [] => false
    | _ :: rest => accepts ps rest
  | .lit a :: ps, ws => match ws with
    | [] => false
    | w :: rest => a == w && accepts ps rest

theorem accepts_hash_cons {ps : List (Word α)} {ws : List α} :
    accepts (.hash :: ps) ws = true ↔
      ∃ skipped rest, ws = skipped ++ rest ∧ accepts ps rest = true := by
  simp only [accepts, List.any_eq_true, List.mem_tails]
  constructor
  · rintro ⟨rest, ⟨skipped, h⟩, hrest⟩
    exact ⟨skipped, rest, h.symm, hrest⟩
  · rintro ⟨skipped, rest, rfl, hrest⟩
    exact ⟨rest, ⟨skipped, rfl⟩, hrest⟩

theorem accepts_star_cons {ps : List (Word α)} {ws : List α} :
    accepts (.star :: ps) ws = true ↔ ∃ w rest, ws = w :: rest ∧ accepts ps rest = true := by
  cases ws with
  | nil => simp [accepts]
  | cons w ws => simp [accepts]

theorem accepts_lit_cons {a : α} {ps : List (Word α)} {ws : List α} :
    accepts (.lit a :: ps) ws = true ↔ ∃ rest, ws = a :: rest ∧ accepts ps rest = true := by
  cases ws with
  | nil => simp [accepts]
  | cons w ws =>
    simp only [accepts, Bool.and_eq_true, beq_iff_eq, List.cons.injEq]
    constructor
    · rintro ⟨rfl, h⟩
      exact ⟨ws, ⟨rfl, rfl⟩, h⟩
    · rintro ⟨rest, ⟨rfl, rfl⟩, h⟩
      exact ⟨rfl, h⟩

/-- Patterns in sequence take a key apart. -/
theorem accepts_append {ps qs : List (Word α)} {ws : List α} :
    accepts (ps ++ qs) ws = true ↔
      ∃ first second, ws = first ++ second ∧ accepts ps first = true ∧
        accepts qs second = true := by
  induction ps generalizing ws with
  | nil =>
    simp only [List.nil_append, accepts, List.isEmpty_iff]
    constructor
    · intro h
      exact ⟨[], ws, rfl, rfl, h⟩
    · rintro ⟨first, second, rfl, rfl, h⟩
      exact h
  | cons p ps ih =>
    rw [List.cons_append]
    cases p with
    | hash =>
      simp only [accepts_hash_cons, ih]
      constructor
      · rintro ⟨skipped, rest, rfl, first, second, rfl, hfirst, hsecond⟩
        exact ⟨skipped ++ first, second, by simp, ⟨skipped, first, rfl, hfirst⟩, hsecond⟩
      · rintro ⟨first, second, rfl, ⟨skipped, rest, rfl, hrest⟩, hsecond⟩
        exact ⟨skipped, rest ++ second, by simp, rest, second, rfl, hrest, hsecond⟩
    | star =>
      simp only [accepts_star_cons, ih]
      constructor
      · rintro ⟨w, rest, rfl, first, second, rfl, hfirst, hsecond⟩
        exact ⟨w :: first, second, rfl, ⟨w, first, rfl, hfirst⟩, hsecond⟩
      · rintro ⟨first, second, rfl, ⟨w, rest, rfl, hrest⟩, hsecond⟩
        exact ⟨w, rest ++ second, rfl, rest, second, rfl, hrest, hsecond⟩
    | lit a =>
      simp only [accepts_lit_cons, ih]
      constructor
      · rintro ⟨rest, rfl, first, second, rfl, hfirst, hsecond⟩
        exact ⟨a :: first, second, rfl, ⟨first, rfl, hfirst⟩, hsecond⟩
      · rintro ⟨first, second, rfl, ⟨rest, rfl, hrest⟩, hsecond⟩
        exact ⟨rest ++ second, rfl, rest, second, rfl, hrest, hsecond⟩

theorem accepts_hash (ws : List α) : accepts [.hash] ws = true :=
  accepts_hash_cons.mpr ⟨ws, [], by simp, rfl⟩

/-- A pattern that ends with a hash accepts what begins with a key of the rest. -/
theorem accepts_concat_hash {ps : List (Word α)} {ws : List α} :
    accepts (ps ++ [.hash]) ws = true ↔ ∃ first, first <+: ws ∧ accepts ps first = true := by
  rw [accepts_append]
  constructor
  · rintro ⟨first, second, rfl, hfirst, -⟩
    exact ⟨first, ⟨second, rfl⟩, hfirst⟩
  · rintro ⟨first, ⟨second, rfl⟩, hfirst⟩
    exact ⟨first, second, rfl, hfirst, accepts_hash second⟩

/-- A pattern without wildcards accepts itself only. -/
theorem accepts_lits {as ws : List α} : accepts (as.map .lit) ws = true ↔ ws = as := by
  induction as generalizing ws with
  | nil => simp [accepts]
  | cons a as ih =>
    rw [List.map_cons, accepts_lit_cons]
    constructor
    · rintro ⟨rest, rfl, hrest⟩
      rw [ih.mp hrest]
    · rintro rfl
      exact ⟨as, rfl, ih.mpr rfl⟩

/-- Words read as patterns accept the words they were read from, if each one does. -/
theorem accepts_self {read : α → Word α} (h : ∀ w, accepts [read w] [w] = true) (ws : List α) :
    accepts (ws.map read) ws = true := by
  induction ws with
  | nil => rfl
  | cons w ws ih =>
    rw [List.map_cons, ← List.singleton_append, accepts_append]
    exact ⟨[w], ws, rfl, h w, ih⟩

end TopicPatterns
