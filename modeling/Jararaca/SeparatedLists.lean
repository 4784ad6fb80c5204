import Mathlib.Data.List.DropRight
import Mathlib.Data.List.Basic

/-!
# Lists of names in one text

Texts that hold a list of names: cut at a separator, with the blanks around each name taken off
and the empty ones left out. Joining names and cutting again gives the names back where each is
one that the text can hold, and the pieces of what is no such name where it is not.
-/
namespace SeparatedLists

variable {α : Type} {sep : α} {blank : α → Bool}

def strip (blank : α → Bool) (text : List α) : List α := (text.dropWhile blank).rdropWhile blank

def parts [BEq α] (sep : α) (blank : α → Bool) (text : List α) : List (List α) :=
  ((text.splitOn sep).map (strip blank)).filter fun part => !part.isEmpty

/-- A name that a text can hold as it is. -/
structure Listable (sep : α) (blank : α → Bool) (name : List α) : Prop where
  nonempty : name ≠ []
  unseparated : sep ∉ name
  stripped : strip blank name = name

theorem strip_sublist (blank : α → Bool) (text : List α) : (strip blank text).Sublist text :=
  (List.rdropWhile_prefix _ _).sublist.trans (List.dropWhile_sublist _)

/-- Stripping twice is stripping. -/
theorem strip_strip (blank : α → Bool) (text : List α) :
    strip blank (strip blank text) = strip blank text := by
  have hfront : (strip blank text).dropWhile blank = strip blank text := by
    cases hstrip : strip blank text with
    | nil => rfl
    | cons c rest =>
      have hprefix : c :: rest <+: text.dropWhile blank := hstrip ▸ List.rdropWhile_prefix _ _
      obtain ⟨more, hmore⟩ := hprefix
      have hhead : blank c = false := by
        have := List.head?_dropWhile_not blank text
        rw [← hmore] at this
        simpa using this
      rw [List.dropWhile_cons_of_neg (by simp [hhead])]
  rw [strip, hfront]
  exact List.rdropWhile_idempotent _ _

theorem strip_map {f : α → α} (hblank : ∀ c, blank (f c) = blank c) (text : List α) :
    strip blank (text.map f) = (strip blank text).map f := by
  have hcomp : blank ∘ f = blank := funext hblank
  simp only [strip, List.rdropWhile, List.dropWhile_map, hcomp, ← List.map_reverse]

/-- A renaming that keeps separators and blanks keeps listable names. -/
theorem listable_map {f : α → α} (hsep : ∀ c, f c = sep ↔ c = sep)
    (hblank : ∀ c, blank (f c) = blank c)
    {name : List α} : Listable sep blank (name.map f) ↔ Listable sep blank name := by
  have hmem : sep ∈ name.map f ↔ sep ∈ name := by
    rw [List.mem_map]
    constructor
    · rintro ⟨c, hc, hfc⟩
      exact (hsep c).mp hfc ▸ hc
    · intro h
      exact ⟨sep, h, (hsep sep).mpr rfl⟩
  constructor
  · intro h
    refine ⟨by simpa using h.nonempty, fun hs => h.unseparated (hmem.mpr hs), ?_⟩
    have hlength := congrArg List.length h.stripped
    rw [strip_map hblank, List.length_map, List.length_map] at hlength
    exact (strip_sublist blank name).eq_of_length hlength
  · intro h
    refine ⟨by simpa using h.nonempty, fun hs => h.unseparated (hmem.mp hs), ?_⟩
    rw [strip_map hblank, h.stripped]

variable [BEq α] [LawfulBEq α]

/-- No piece of a split has the separator. -/
theorem not_mem_of_mem_splitOn {text piece : List α} (h : piece ∈ text.splitOn sep) :
    sep ∉ piece := by
  induction text generalizing piece with
  | nil =>
    rw [List.splitOn_nil, List.mem_singleton] at h
    simp [h]
  | cons c text ih =>
    rw [List.splitOn_cons_eq_if_modifyHead] at h
    split at h
    · obtain rfl | h := List.mem_cons.mp h
      · simp
      · exact ih h
    · rename_i hc
      obtain ⟨first, more, hsplit⟩ := List.exists_cons_of_ne_nil (List.splitOn_ne_nil sep text)
      rw [hsplit] at h ih
      obtain rfl | h := List.mem_cons.mp h
      · have hfirst := ih (List.mem_cons_self ..)
        intro hmem
        obtain rfl | hmem := List.mem_cons.mp hmem
        · simp at hc
        · exact hfirst hmem
      · exact ih (List.mem_cons_of_mem _ h)

theorem listable_of_mem_parts {text name : List α} (h : name ∈ parts sep blank text) :
    Listable sep blank name := by
  obtain ⟨hmem, hnonempty⟩ := List.mem_filter.mp h
  obtain ⟨piece, hpiece, rfl⟩ := List.mem_map.mp hmem
  constructor
  case nonempty => simpa using hnonempty
  case unseparated => exact fun hsep =>
    not_mem_of_mem_splitOn hpiece ((strip_sublist blank piece).subset hsep)
  case stripped => exact strip_strip blank piece

/-- A listable name is the one name of its text. -/
theorem Listable.parts {name : List α} (h : Listable sep blank name) :
    parts sep blank name = [name] := by
  rw [SeparatedLists.parts, List.splitOn_eq_singleton h.unseparated, List.map_singleton, h.stripped]
  simp [h.nonempty]

theorem listable_iff {name : List α} : Listable sep blank name ↔ parts sep blank name = [name] :=
  ⟨Listable.parts, fun h => listable_of_mem_parts (h ▸ List.mem_singleton_self name)⟩

theorem flatMap_parts {names : List (List α)} (h : ∀ name ∈ names, Listable sep blank name) :
    names.flatMap (parts sep blank) = names := by
  induction names with
  | nil => rfl
  | cons name names ih =>
    rw [List.flatMap_cons, (h name (by simp)).parts, ih fun n hn => h n (by simp [hn])]
    rfl

theorem parts_append (first second : List α) :
    parts sep blank (first ++ sep :: second) = parts sep blank first ++ parts sep blank second := by
  rw [parts, List.splitOn_append_cons_self, List.map_append, List.filter_append]
  rfl

/-- A blank in front is taken off. -/
theorem parts_cons_blank {c : α} (hblank : blank c = true) (hsep : c ≠ sep) (text : List α) :
    parts sep blank (c :: text) = parts sep blank text := by
  obtain ⟨first, more, hsplit⟩ := List.exists_cons_of_ne_nil (List.splitOn_ne_nil sep text)
  have hstrip : strip blank (c :: first) = strip blank first := by
    rw [strip, List.dropWhile_cons_of_pos hblank, strip]
  rw [parts, List.splitOn_cons_eq_if_modifyHead, if_neg (by simpa using hsep), hsplit,
    List.modifyHead_cons, List.map_cons, hstrip, parts, hsplit, List.map_cons]

/-- The names of a joined text are those of the texts that were joined. -/
theorem parts_intercalate {c : α} (hblank : blank c = true) (hsep : c ≠ sep)
    (texts : List (List α)) :
    parts sep blank ([sep, c].intercalate texts) = texts.flatMap (parts sep blank) := by
  induction texts with
  | nil => simp [parts, strip]
  | cons text texts ih =>
    cases texts with
    | nil => simp
    | cons next texts =>
      rw [List.intercalate_cons_cons, List.flatMap_cons, ← ih]
      simp only [List.append_assoc, List.cons_append, List.nil_append]
      rw [parts_append, parts_cons_blank hblank hsep]

end SeparatedLists
