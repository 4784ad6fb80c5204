import Jararaca.WorkLists

/-!
# The orders of a work list

Two complete runs process the same elements. One element comes before another in every run
exactly if the other is reached only through it.
-/
namespace WorkLists

variable {α : Type} (w : WorkList α) {roots noted : Set α}

/-- What is processed stays so, below what is processed later. -/
theorem processed_suffix {s t : State α} (h : Runs w s t) : s.processed <:+ t.processed := by
  induction h with
  | refl => exact List.suffix_refl _
  | tail _ hstep ih =>
    cases hstep with
    | skip _ _ => exact ih
    | process _ _ => exact ih.trans (List.suffix_cons ..)

/-- The work list that passes over one element. -/
def without (x : α) : WorkList α where
  skips t := w.skips t ∨ t = x
  finds := w.finds
  notes := w.notes

/-- An element that is not reached when another is passed over. -/
def OnlyThrough (roots noted : Set α) (x t : α) : Prop := ¬Reached (without w x) roots noted t

/-- Before an element is processed, everything is reached without it. -/
theorem reached_without {s : State α} {x : α} (hrun : Runs w (start roots noted) s)
    (hx : x ∉ s.processed) {y : α}
    (hy : y ∈ s.processed ∨ y ∈ s.backlog) : Reached (without w x) roots noted y := by
  induction hrun generalizing y with
  | refl =>
    rcases hy with hy | hy
    · cases hy
    · exact .root hy
  | tail hrun hstep ih =>
    have hsound := run_sound w hrun
    cases hstep with
    | skip _ _ => exact ih hx (hy.imp_right And.left)
    | @process t ht hskip =>
      have hne : x ≠ t := fun h => hx (h ▸ List.mem_cons_self)
      have hold {y : α} (hy : y ∈ _ ∨ y ∈ _) :=
        ih (fun h => hx (List.mem_cons_of_mem t h)) (y := y) hy
      have hpass : ¬(without w x).skips t := by
        rintro (h | h)
        · exact hskip h
        · exact hne h.symm
      rcases hy with hy | hy | ⟨hy | hy | hy, -⟩
      · rcases List.mem_cons.1 hy with rfl | hy
        · exact hold (.inr ht)
        · exact hold (.inl hy)
      · exact hold (.inr hy.1)
      · exact .found (hold (.inr ht)) hpass (List.mem_append_left _ hy)
      · rcases (hsound.recorded y).1 hy with hy | ⟨u, hu, hy⟩
        · exact .noted (hold (.inr ht)) hpass hy
        · refine .found (hold (.inl hu)) ?_ (List.mem_append_right _ hy)
          rintro (h | rfl)
          · exact (hsound.reached u hu).2 h
          · exact hx (List.mem_cons_of_mem t hu)
      · exact .found (hold (.inr ht)) hpass (List.mem_append_right _ hy)

/-- What is reached only through an element is processed after it. -/
theorem processed_after {s : State α} {x t : α} (hrun : Runs w (start roots noted) s)
    (h : OnlyThrough w roots noted x t)
    (ht : t ∈ s.processed) : [t, x].Sublist s.processed := by
  induction hrun with
  | refl => cases ht
  | @tail u v hrun hstep ih =>
    cases hstep with
    | skip _ _ => exact ih ht
    | @process y hy _ =>
      rcases List.mem_cons.1 ht with rfl | ht
      · have hx : x ∈ u.processed := by
          by_contra hx
          exact h (reached_without w hrun hx (.inr hy))
        exact (List.singleton_sublist.2 hx).cons_cons t
      · exact (ih ht).cons y

/-- An element that is handled can be processed next. -/
theorem exists_processed {s : State α} {x t : α} (hx : x ∉ s.processed) (ht : Handled w s t)
    (hskip : ¬(without w x).skips t) :
    ∃ s', Runs w s s' ∧ x ∉ s'.processed ∧ t ∈ s'.processed := by
  rcases ht with ht | ht | ht
  · exact ⟨s, .refl, hx, ht⟩
  · refine ⟨process w s t, .tail .refl (.process ht fun h => hskip (.inl h)), ?_,
      List.mem_cons_self⟩
    rintro (_ | ⟨_, h⟩)
    · exact hskip (.inr rfl)
    · exact hx h
  · exact absurd (.inl ht) hskip

/-- What is reached without an element can be taken care of before it is processed. -/
theorem exists_handled {x t : α} (h : Reached (without w x) roots noted t) :
    ∃ s, Runs w (start roots noted) s ∧ x ∉ s.processed ∧ Handled w s t := by
  induction h with
  | root ht => exact ⟨_, .refl, nofun, (sound_start w).rooted _ ht⟩
  | @noted t u _ hskip ht ih =>
    obtain ⟨s, hrun, hx, hu⟩ := ih
    obtain ⟨s', hrun', hx', hu'⟩ := exists_processed w hx hu hskip
    exact ⟨s', hrun.trans w hrun', hx', (run_sound w (hrun.trans w hrun')).closed u hu' t (.inl ht)⟩
  | @found t u _ hskip ht ih =>
    obtain ⟨s, hrun, hx, hu⟩ := ih
    obtain ⟨s', hrun', hx', hu'⟩ := exists_processed w hx hu hskip
    exact ⟨s', hrun.trans w hrun', hx', (run_sound w (hrun.trans w hrun')).closed u hu' t (.inr ht)⟩

/-- What is not reached only through an element is processed before it in some complete run. -/
theorem exists_before (hfinite : {t | Reached w roots noted t}.Finite) {x t : α}
    (hx : Reached w roots noted x ∧ ¬w.skips x) (h : ¬OnlyThrough w roots noted x t)
    (hskip : ¬w.skips t) (hne : t ≠ x) :
    ∃ s, Runs w (start roots noted) s ∧ s.backlog = ∅ ∧ [x, t].Sublist s.processed := by
  obtain ⟨s, hrun, hxs, ht⟩ := exists_handled w (not_not.1 h)
  have hpass : ¬(without w x).skips t := by
    rintro (h | h)
    · exact hskip h
    · exact hne h
  obtain ⟨s', hrun', hxs', ht'⟩ := exists_processed w hxs ht hpass
  obtain ⟨s'', hrun'', hend⟩ := exists_end_from w hfinite (hrun.trans w hrun')
  have hall := (hrun.trans w hrun').trans w hrun''
  obtain ⟨later, hlater⟩ := processed_suffix w hrun''
  have hmem : x ∈ s''.processed := ((run_sound w hall).mem_processed_iff w hend x).2 hx
  rw [← hlater, List.mem_append] at hmem
  refine ⟨s'', hall, hend, ?_⟩
  rw [← hlater]
  exact (List.singleton_sublist.2 (hmem.resolve_right hxs')).append (List.singleton_sublist.2 ht')

end WorkLists
