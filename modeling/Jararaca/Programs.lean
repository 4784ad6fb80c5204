import Mathlib.Logic.Basic

/-!
# Programs with state and exceptions

A program maps a state to a result and the state it leaves behind. Raising does
not undo anything: the state reached before the raise is the one a handler
sees, as in a language with mutable objects and `try`. The rules below compose
facts about programs along the constructors, so that a fact about a long
program never needs its whole case tree.
-/
namespace Programs

variable {σ ε α β : Type}

/-- Computations on `σ` that return an `α` or raise an `ε`. -/
def Prog (σ ε α : Type) := σ → Except ε α × σ

namespace Prog

instance : Monad (Prog σ ε) where
  pure a := fun s => (.ok a, s)
  bind m f := fun s => match m s with
    | (.ok a, t) => f a t
    | (.error e, t) => (.error e, t)

def raise (e : ε) : Prog σ ε α := fun s => (.error e, s)

def get : Prog σ ε σ := fun s => (.ok s, s)

def modify (f : σ → σ) : Prog σ ε Unit := fun s => (.ok (), f s)

/-- A reply from outside: either a value or something to raise here. -/
def ofExcept : Except ε α → Prog σ ε α
  | .ok a => pure a
  | .error e => raise e

/-- `if c: m`. -/
def when (c : Bool) (m : Prog σ ε Unit) : Prog σ ε Unit := if c then m else pure ()

/-- Run `m` and look at how it ended, without raising. -/
def attempt (m : Prog σ ε α) : Prog σ ε (Except ε α) := fun s => (.ok (m s).1, (m s).2)

/-- `try m except ...`: the handler sees every raise and may raise again. -/
def tryExcept (m : Prog σ ε α) (h : ε → Prog σ ε α) : Prog σ ε α := fun s =>
  match m s with
  | (.ok a, t) => (.ok a, t)
  | (.error e, t) => h e t

/-- An except clause for one class of exceptions; the others pass through. -/
def catching (p : ε → Bool) (m : Prog σ ε α) (h : ε → Prog σ ε α) : Prog σ ε α :=
  tryExcept m (fun e => if p e then h e else raise e)

@[simp] theorem pure_run (a : α) (s : σ) : (pure a : Prog σ ε α) s = (.ok a, s) := rfl

theorem bind_run (m : Prog σ ε α) (f : α → Prog σ ε β) (s : σ) :
    (m >>= f) s = match m s with
      | (.ok a, t) => f a t
      | (.error e, t) => (.error e, t) := rfl

theorem bind_ok {m : Prog σ ε α} {s t : σ} {a : α} (h : m s = (.ok a, t)) (f : α → Prog σ ε β) :
    (m >>= f) s = f a t := by rw [bind_run, h]

theorem bind_error {m : Prog σ ε α} {s t : σ} {e : ε} (h : m s = (.error e, t))
    (f : α → Prog σ ε β) : (m >>= f) s = (.error e, t) := by rw [bind_run, h]

@[simp] theorem raise_run (e : ε) (s : σ) : (raise e : Prog σ ε α) s = (.error e, s) := rfl
@[simp] theorem get_run (s : σ) : (get : Prog σ ε σ) s = (.ok s, s) := rfl
@[simp] theorem modify_run (f : σ → σ) (s : σ) : (modify f : Prog σ ε Unit) s = (.ok (), f s) := rfl
@[simp] theorem ofExcept_run (r : Except ε α) (s : σ) : ofExcept r s = (r, s) := by
  cases r <;> rfl
@[simp] theorem when_true (m : Prog σ ε Unit) : when true m = m := rfl
@[simp] theorem when_false (m : Prog σ ε Unit) : when false m = pure () := rfl
@[simp] theorem attempt_run (m : Prog σ ε α) (s : σ) : attempt m s = (.ok (m s).1, (m s).2) := rfl

theorem tryExcept_ok {m : Prog σ ε α} {s t : σ} {a : α} (h : m s = (.ok a, t))
    (k : ε → Prog σ ε α) : tryExcept m k s = (.ok a, t) := by rw [tryExcept, h]

theorem tryExcept_error {m : Prog σ ε α} {s t : σ} {e : ε} (h : m s = (.error e, t))
    (k : ε → Prog σ ε α) : tryExcept m k s = k e t := by rw [tryExcept, h]

theorem catching_ok {m : Prog σ ε α} {s t : σ} {a : α} {p : ε → Bool} (h : m s = (.ok a, t))
    (k : ε → Prog σ ε α) : catching p m k s = (.ok a, t) := tryExcept_ok h _

theorem catching_caught {m : Prog σ ε α} {s t : σ} {e : ε} {p : ε → Bool} (h : m s = (.error e, t))
    (he : p e = true) (k : ε → Prog σ ε α) : catching p m k s = k e t := by
  rw [catching, tryExcept_error h, if_pos he]

theorem catching_passed {m : Prog σ ε α} {s t : σ} {e : ε} {p : ε → Bool} (h : m s = (.error e, t))
    (he : p e = false) (k : ε → Prog σ ε α) : catching p m k s = (.error e, t) := by
  rw [catching, tryExcept_error h, if_neg (by simp [he]), raise_run]

/-- What a run may do to the state: a relation that holds of no step at all and
of two runs in a row. -/
structure Frame (σ : Type) where
  rel : σ → σ → Prop
  refl : ∀ s, rel s s
  trans : ∀ {s t u}, rel s t → rel t u → rel s u

/-- Runs that keep an invariant. -/
def Frame.invariant (I : σ → Prop) : Frame σ :=
  ⟨fun s t => I s → I t, fun _ h => h, fun h k i => k (h i)⟩

/-- Runs that leave one part of the state as it was. -/
def Frame.constant (f : σ → β) : Frame σ :=
  ⟨fun s t => f t = f s, fun _ => rfl, fun h k => k.trans h⟩

/-- Every run of `m` stays inside the frame, however it ends. -/
def Keeps (F : Frame σ) (m : Prog σ ε α) : Prop := ∀ s, F.rel s (m s).2

section Rules

variable {F : Frame σ}

theorem Keeps.pure (a : α) : Keeps F (pure a : Prog σ ε α) := fun s => F.refl s

theorem Keeps.raise (e : ε) : Keeps F (raise e : Prog σ ε α) := fun s => F.refl s

theorem Keeps.get : Keeps F (Prog.get : Prog σ ε σ) := fun s => F.refl s

theorem Keeps.ofExcept (r : Except ε α) : Keeps F (Prog.ofExcept r : Prog σ ε α) := by
  intro s
  rw [ofExcept_run]
  exact F.refl s

theorem Keeps.modify {f : σ → σ} (h : ∀ s, F.rel s (f s)) :
    Keeps F (Prog.modify f : Prog σ ε Unit) := h

theorem Keeps.bind {m : Prog σ ε α} {f : α → Prog σ ε β} (hm : Keeps F m)
    (hf : ∀ a, Keeps F (f a)) : Keeps F (m >>= f) := by
  intro s
  have h := hm s
  rw [bind_run]
  split
  · rename_i a t heq
    rw [heq] at h
    exact F.trans h (hf a t)
  · rename_i e t heq
    rw [heq] at h
    exact h

theorem Keeps.attempt {m : Prog σ ε α} (hm : Keeps F m) : Keeps F (Prog.attempt m) := hm

theorem Keeps.tryExcept {m : Prog σ ε α} {k : ε → Prog σ ε α} (hm : Keeps F m)
    (hk : ∀ e, Keeps F (k e)) : Keeps F (Prog.tryExcept m k) := by
  intro s
  have h := hm s
  rw [Prog.tryExcept]
  split
  · rename_i a t heq
    rw [heq] at h
    exact h
  · rename_i e t heq
    rw [heq] at h
    exact F.trans h (hk e t)

theorem Keeps.ite {c : Prop} [Decidable c] {m n : Prog σ ε α} (hm : Keeps F m)
    (hn : Keeps F n) : Keeps F (if c then m else n) := by
  split
  · exact hm
  · exact hn

theorem Keeps.when {c : Bool} {m : Prog σ ε Unit} (hm : Keeps F m) : Keeps F (Prog.when c m) :=
  hm.ite (Keeps.pure ())

theorem Keeps.catching {p : ε → Bool} {m : Prog σ ε α} {k : ε → Prog σ ε α} (hm : Keeps F m)
    (hk : ∀ e, Keeps F (k e)) : Keeps F (Prog.catching p m k) :=
  hm.tryExcept fun e => Keeps.ite (hk e) (Keeps.raise e)

end Rules

end Prog

end Programs
