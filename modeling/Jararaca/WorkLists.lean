import Mathlib.Data.Set.Card
import Mathlib.Data.Set.Finite.Lattice
import Mathlib.Logic.Relation
import Mathlib.Order.WellFounded
import Mathlib.Tactic.Tauto

/-!
# Work lists

A loop that takes any element of a backlog, skips it or processes it once, and puts into the
backlog what the processing found and what was noted so far. It ends when only finitely many
elements can be reached, and it has then processed exactly these.
-/
namespace WorkLists

/-- What the loop skips, what processing an element finds and what it notes for good. -/
structure WorkList (α : Type) where
  skips : α → Prop
  finds : α → List α
  notes : α → List α

/-- `processed` has the last element first. -/
structure State (α : Type) where
  processed : List α
  backlog : Set α
  noted : Set α

variable {α : Type} (w : WorkList α)

def start (roots noted : Set α) : State α := ⟨[], roots, noted⟩

def process (s : State α) (t : α) : State α where
  processed := t :: s.processed
  noted := s.noted ∪ {x | x ∈ w.notes t}
  backlog := (s.backlog \ {t}) ∪
    (({x | x ∈ w.finds t} ∪ (s.noted ∪ {x | x ∈ w.notes t})) \ {x | x ∈ t :: s.processed})

inductive Step : State α → State α → Prop
  | skip {s : State α} {t : α} :
      t ∈ s.backlog → w.skips t → Step s { s with backlog := s.backlog \ {t} }
  | process {s : State α} {t : α} : t ∈ s.backlog → ¬ w.skips t → Step s (process w s t)

inductive Runs (s : State α) : State α → Prop
  | refl : Runs s s
  | tail {t u : State α} : Runs s t → Step w t u → Runs s u

/-- Two runs one after the other are a run. -/
theorem Runs.trans {s t u : State α} (h : Runs w s t) (h' : Runs w t u) : Runs w s u := by
  induction h' with
  | refl => exact h
  | tail _ hstep ih => exact .tail ih hstep

/-- What the elements of the backlog lead to. -/
inductive Reached (roots noted : Set α) : α → Prop
  | root {t : α} : t ∈ roots → Reached roots noted t
  | noted {t u : α} : Reached roots noted u → ¬ w.skips u → t ∈ noted → Reached roots noted t
  | found {t u : α} :
      Reached roots noted u → ¬ w.skips u → t ∈ w.finds u ++ w.notes u → Reached roots noted t

variable {roots noted : Set α}

/-- An element that is processed, still to come or skipped. -/
def Handled (s : State α) (t : α) : Prop := t ∈ s.processed ∨ t ∈ s.backlog ∨ w.skips t

/-- What holds in every state of a run. -/
structure Sound (roots noted : Set α) (s : State α) : Prop where
  reached : ∀ t ∈ s.processed, Reached w roots noted t ∧ ¬ w.skips t
  waiting : ∀ t ∈ s.backlog, Reached w roots noted t
  recorded : ∀ t, t ∈ s.noted ↔ t ∈ noted ∨ ∃ u ∈ s.processed, t ∈ w.notes u
  once : s.processed.Nodup
  apart : ∀ t ∈ s.processed, t ∉ s.backlog
  rooted : ∀ t ∈ roots, Handled w s t
  closed : ∀ u ∈ s.processed, ∀ t, t ∈ noted ∨ t ∈ w.finds u ++ w.notes u → Handled w s t

theorem sound_start : Sound w roots noted (start roots noted) where
  reached t h := by cases h
  waiting t h := .root h
  recorded t := by simp [start]
  once := List.nodup_nil
  apart t h := by cases h
  rooted t h := .inr (.inl h)
  closed u h := by cases h

theorem Handled.skip {s : State α} {t x : α} (ht : w.skips t) (h : Handled w s x) :
    Handled w { s with backlog := s.backlog \ {t} } x := by
  by_cases hx : x = t
  · exact .inr (.inr (hx ▸ ht))
  · exact h.imp id (.imp (fun hmem => ⟨hmem, hx⟩) id)

theorem Handled.process {s : State α} {t x : α} (h : Handled w s x) :
    Handled w (process w s t) x := by
  by_cases hx : x = t
  · exact .inl (hx ▸ List.mem_cons_self)
  · exact h.imp (List.mem_cons_of_mem t) (.imp (fun hmem => .inl ⟨hmem, hx⟩) id)

/-- What an element leads to is handled after it is processed. -/
theorem handled_new {s : State α} {t x : α} (h : x ∈ w.finds t ∨ x ∈ s.noted ∨ x ∈ w.notes t) :
    Handled w (process w s t) x := by
  by_cases hx : x ∈ t :: s.processed
  · exact .inl hx
  · exact .inr (.inl (.inr ⟨h, hx⟩))

/-- Handling a type keeps the state sound. -/
theorem Sound.process {s : State α} {t : α} (h : Sound w roots noted s) (ht : t ∈ s.backlog)
    (hskip : ¬ w.skips t) :
    Sound w roots noted (process w s t) where
  reached x hx := by
    rcases List.mem_cons.1 hx with rfl | hx
    · exact ⟨h.waiting x ht, hskip⟩
    · exact h.reached x hx
  waiting x hx := by
    rcases hx with hx | ⟨hx | hx | hx, -⟩
    · exact h.waiting x hx.1
    · exact .found (h.waiting t ht) hskip (List.mem_append_left _ hx)
    · rcases (h.recorded x).1 hx with hx | ⟨u, hu, hx⟩
      · exact .noted (h.waiting t ht) hskip hx
      · exact .found (h.reached u hu).1 (h.reached u hu).2 (List.mem_append_right _ hx)
    · exact .found (h.waiting t ht) hskip (List.mem_append_right _ hx)
  recorded x := by
    simp only [WorkLists.process, Set.mem_union, h.recorded, Set.mem_ofPred_eq, List.mem_cons,
      exists_eq_or_imp]
    exact or_assoc.trans (or_congr_right or_comm)
  once := List.nodup_cons.2 ⟨fun hmem => h.apart t hmem ht, h.once⟩
  apart x hx hback := by
    rcases hback with hback | ⟨-, hback⟩
    · rcases List.mem_cons.1 hx with rfl | hx
      · exact hback.2 rfl
      · exact h.apart x hx hback.1
    · exact hback hx
  rooted x hx := (h.rooted x hx).process
  closed u hu x hx := by
    rcases List.mem_cons.1 hu with rfl | hu
    · refine handled_new w ?_
      rw [h.recorded]
      rw [List.mem_append] at hx
      tauto
    · exact (h.closed u hu x hx).process

theorem Sound.skip {s : State α} {t : α} (h : Sound w roots noted s) (ht : w.skips t) :
    Sound w roots noted { s with backlog := s.backlog \ {t} } where
  reached := h.reached
  waiting x hx := h.waiting x hx.1
  recorded := h.recorded
  once := h.once
  apart x hx hback := h.apart x hx hback.1
  rooted x hx := (h.rooted x hx).skip w ht
  closed u hu x hx := (h.closed u hu x hx).skip w ht

/-- Every step does. -/
theorem step_sound {s t : State α} (h : Sound w roots noted s) (hstep : Step w s t) :
    Sound w roots noted t := by
  cases hstep with
  | skip _ hskip => exact h.skip w hskip
  | process hmem hskip => exact h.process w hmem hskip

/-- So does every run. -/
theorem run_sound {s : State α} (hrun : Runs w (start roots noted) s) : Sound w roots noted s := by
  induction hrun with
  | refl => exact sound_start w
  | tail _ hstep ih => exact step_sound w ih hstep

/-- A loop that has come to its end has processed what is reached and not skipped. -/
theorem Sound.mem_processed_iff {s : State α} (h : Sound w roots noted s)
    (hend : s.backlog = ∅) (t : α) :
    t ∈ s.processed ↔ Reached w roots noted t ∧ ¬ w.skips t := by
  constructor
  · exact h.reached t
  · rintro ⟨ht, hskip⟩
    have hdone {x : α} (hx : Handled w s x) (hskip : ¬ w.skips x) : x ∈ s.processed := by
      rcases hx with hx | hx | hx
      · exact hx
      · simp [hend] at hx
      · exact absurd hx hskip
    induction ht with
    | root hroot => exact hdone (h.rooted _ hroot) hskip
    | noted _ hu hnoted ih => exact hdone (h.closed _ (ih hu) _ (.inl hnoted)) hskip
    | found _ hu hfound ih => exact hdone (h.closed _ (ih hu) _ (.inr hfound)) hskip

section Finite

/-- What one element leads to. -/
def Leads (t x : α) : Prop := x ∈ w.finds t ++ w.notes t

/-- Finitely many elements are reached where a finite set has the roots and what is noted, and
nothing leads out of it. -/
theorem finite_reached {confines : Set α} (hfinite : confines.Finite) (hroots : roots ⊆ confines)
    (hnoted : noted ⊆ confines) (hclosed : ∀ t ∈ confines, ∀ x, Leads w t x → x ∈ confines) :
    {t | Reached w roots noted t}.Finite := by
  refine hfinite.subset fun x hx => ?_
  induction hx with
  | root ht => exact hroots ht
  | noted _ _ ht _ => exact hnoted ht
  | found _ _ hfound ih => exact hclosed _ ih _ hfound

end Finite

section Ends

variable (hfinite : {t | Reached w roots noted t}.Finite)

/-- Elements to process, and elements to take. -/
noncomputable def measure (roots noted : Set α) (s : State α) : ℕ × ℕ :=
  ({t | Reached w roots noted t ∧ t ∉ s.processed}.ncard, s.backlog.ncard)

include hfinite in
theorem measure_step {s t : State α} (h : Sound w roots noted s) (hstep : Step w s t) :
    Prod.Lex (· < ·) (· < ·) (measure w roots noted t) (measure w roots noted s) := by
  cases hstep with
  | @skip x hx _ =>
    refine .right _ ?_
    exact Set.ncard_lt_ncard (Set.sdiff_singleton_ssubset.2 hx) (hfinite.subset h.waiting)
  | @process x hx _ =>
    refine .left _ _ (Set.ncard_lt_ncard ?_ (hfinite.subset fun y hy => hy.1))
    refine ⟨fun y hy => ⟨hy.1, fun hmem => hy.2 (List.mem_cons_of_mem x hmem)⟩, fun hsub => ?_⟩
    exact (hsub ⟨h.waiting x hx, fun hmem => h.apart x hmem hx⟩).2 List.mem_cons_self

include hfinite in
/-- The loop ends, whatever it takes first. -/
theorem ends : ¬ ∃ run : ℕ → State α, run 0 = start roots noted ∧ ∀ n, Step w (run n)
    (run (n + 1)) := by
  rintro ⟨run, hstart, hsteps⟩
  have hsound (n : ℕ) : Sound w roots noted (run n) := by
    induction n with
    | zero => exact hstart ▸ sound_start w
    | succ n ih => exact step_sound w ih (hsteps n)
  have hwf : WellFounded (Prod.Lex ((· < ·) : ℕ → ℕ → Prop) ((· < ·) : ℕ → ℕ → Prop)) :=
    WellFounded.prod_lex wellFounded_lt wellFounded_lt
  obtain ⟨m, ⟨n, rfl⟩, hmin⟩ :=
    hwf.has_min (Set.range fun n => measure w roots noted (run n)) ⟨_, 0, rfl⟩
  exact hmin _ ⟨n + 1, rfl⟩ (measure_step w hfinite (hsound n) (hsteps n))

/-- The loop goes on while there is something in the backlog. -/
theorem exists_step {s : State α} (h : s.backlog.Nonempty) : ∃ t, Step w s t := by
  obtain ⟨x, hx⟩ := h
  by_cases hskip : w.skips x
  · exact ⟨_, .skip hx hskip⟩
  · exact ⟨_, .process hx hskip⟩

include hfinite in
/-- Every run can be completed. -/
theorem exists_end_from {s : State α} (hrun : Runs w (start roots noted) s) :
    ∃ t, Runs w s t ∧ t.backlog = ∅ := by
  have hwf : WellFounded (Prod.Lex ((· < ·) : ℕ → ℕ → Prop) ((· < ·) : ℕ → ℕ → Prop)) :=
    WellFounded.prod_lex wellFounded_lt wellFounded_lt
  obtain ⟨t, ht, hmin⟩ :=
    (InvImage.wf (measure w roots noted) hwf).has_min {t | Runs w s t} ⟨s, .refl⟩
  refine ⟨t, ht, Set.not_nonempty_iff_eq_empty.1 fun hmore => ?_⟩
  obtain ⟨u, hstep⟩ := exists_step w hmore
  exact hmin u (.tail ht hstep) (measure_step w hfinite (run_sound w (hrun.trans w ht)) hstep)

include hfinite in
theorem exists_end : ∃ s, Runs w (start roots noted) s ∧ s.backlog = ∅ :=
  exists_end_from w hfinite .refl

end Ends

end WorkLists
