import Jararaca.GlobPatterns
import Mathlib.Tactic.Common

/-!
# Patterns of LIKE

A percent sign stands for any text, an underscore for one character, and behind the escape
character, where the database has one, a character is meant literally. A text of other characters
is searched for as it is; any other text, taken for a pattern, matches a text that it is not in.
-/
namespace LikePatterns

open GlobPatterns (Item accepts accepts_star)

/-- How a database reads a pattern without an `ESCAPE` clause. -/
structure Like where
  escape : Option Char
  escape_ne_many : escape ≠ some '%'
  escape_ne_any : escape ≠ some '_'

namespace Like

def item (c : Char) : Item := if c = '%' then .many else if c = '_' then .any else .lit c

variable (l : Like)

/-- The items of a pattern; an escape character at its end makes none. -/
def read : List Char → Option (List Item)
  | [] => some []
  | [c] => if l.escape = some c then none else some [item c]
  | c :: d :: rest =>
    if l.escape = some c then (read rest).map (.lit d :: ·)
    else (read (d :: rest)).map (item c :: ·)

def like (pattern text : List Char) : Bool := (l.read pattern).any fun items => accepts items text

/-- A text without wildcards and escape characters. -/
def Plain (text : List Char) : Prop := ∀ c ∈ text, c ≠ '%' ∧ c ≠ '_' ∧ l.escape ≠ some c

instance (text : List Char) : Decidable (l.Plain text) :=
  List.decidableBAll (fun c => c ≠ '%' ∧ c ≠ '_' ∧ l.escape ≠ some c) text

variable {l}

theorem read_cons {c : Char} (h : l.escape ≠ some c) (rest : List Char) :
    l.read (c :: rest) = (l.read rest).map (item c :: ·) := by
  cases rest with
  | nil => simp [read, h]
  | cons d rest => simp [read, h]

theorem read_append {text : List Char} (h : l.Plain text) (rest : List Char) :
    l.read (text ++ rest) = (l.read rest).map (text.map .lit ++ ·) := by
  induction text with
  | nil => simp
  | cons c text ih =>
    obtain ⟨hc, htext⟩ := List.forall_mem_cons.mp h
    rw [List.cons_append, read_cons hc.2.2, ih htext, Option.map_map]
    simp [item, hc.1, hc.2.1, Function.comp_def]

theorem like_many (pattern text : List Char) :
    l.like ('%' :: pattern) text = true ↔ ∃ rest, rest <:+ text ∧ l.like pattern rest = true := by
  rw [like, read_cons l.escape_ne_many]
  cases hread : l.read pattern with
  | none => simp [like, hread]
  | some items => simp [like, hread, item, accepts]

theorem accepts_lits (cs text : List Char) : accepts (cs.map .lit) text = true ↔ text = cs := by
  induction cs generalizing text with
  | nil => simp [accepts]
  | cons c cs ih =>
    cases text with
    | nil => simp [accepts]
    | cons d text =>
      simp only [List.map_cons, accepts, Item.accepts, Bool.and_eq_true, beq_iff_eq, ih,
        List.cons.injEq]
      exact and_congr_left fun _ => eq_comm

/-! ## Plain texts -/

theorem like_beginning {value : List Char} (h : l.Plain value) (text : List Char) :
    l.like (value ++ ['%']) text = true ↔ value <+: text := by
  rw [like, read_append h, read_cons l.escape_ne_many]
  exact accepts_star value text

theorem like_inside {value : List Char} (h : l.Plain value) (text : List Char) :
    l.like ('%' :: value ++ ['%']) text = true ↔ value <:+: text := by
  rw [List.cons_append, like_many, List.infix_iff_prefix_suffix]
  simp only [like_beginning h]
  exact ⟨fun ⟨rest, hrest, hprefix⟩ => ⟨rest, hprefix, hrest⟩,
    fun ⟨rest, hprefix, hrest⟩ => ⟨rest, hrest, hprefix⟩⟩

theorem like_suffix {value : List Char} (h : l.Plain value) (text : List Char) :
    l.like ('%' :: value) text = true ↔ value <:+ text := by
  have hvalue : ∀ rest, l.like value rest = true ↔ rest = value := fun rest => by
    have hread := read_append h []
    rw [List.append_nil] at hread
    rw [like, hread, read]
    simpa using accepts_lits value rest
  simp [like_many, hvalue]

/-! ## Other texts -/

/-- What a character of a pattern can stand for. -/
def shown (c : Char) : List Char := if c = '%' then [] else if c = '_' then ['%'] else [c]

variable (l) in
/-- A short text that a pattern matches: nothing for a percent sign, another character for an
underscore, and no escape characters. -/
def sample : List Char → List Char
  | [] => []
  | [c] => shown c
  | c :: d :: rest => if l.escape = some c then d :: sample rest else shown c ++ sample (d :: rest)

theorem accepts_shown {c : Char} {items : List Item} {text : List Char}
    (h : accepts items text = true) :
    accepts (item c :: items) (shown c ++ text) = true := by
  by_cases hmany : c = '%'
  · simp only [item, shown, hmany, if_true, accepts, List.any_eq_true, List.mem_tails,
      List.nil_append]
    exact ⟨text, List.suffix_refl _, h⟩
  · by_cases hany : c = '_' <;> simp [item, shown, hmany, hany, accepts, Item.accepts, h]

/-- A pattern that can be read accepts its sample. -/
theorem like_sample {pattern : List Char} (h : (l.read pattern).isSome) :
    l.like pattern (l.sample pattern) = true := by
  induction pattern using read.induct (l := l) with
  | case1 => rfl
  | case2 c hc => simp [read, hc] at h
  | case3 c hc =>
    have hshown : accepts (item c :: []) (shown c ++ []) = true := accepts_shown rfl
    simpa [like, read, hc, sample] using hshown
  | case4 c d rest hc ih =>
    simp only [like, read, hc, sample, if_true, Option.isSome_map] at h ih ⊢
    obtain ⟨items, hitems⟩ := Option.isSome_iff_exists.mp h
    simpa [hitems, accepts, Item.accepts] using ih h
  | case5 c d rest hc ih =>
    simp only [like, read, hc, sample, if_false, Option.isSome_map] at h ih ⊢
    obtain ⟨items, hitems⟩ := Option.isSome_iff_exists.mp h
    have haccepts := ih h
    rw [hitems] at haccepts ⊢
    exact accepts_shown haccepts

theorem shown_length (c : Char) : (shown c).length ≤ 1 := by
  unfold shown
  split
  · simp
  · split <;> simp

theorem shown_eq_self {c : Char} : shown c = [c] ↔ c ≠ '%' ∧ c ≠ '_' := by
  by_cases hmany : c = '%'
  · simp [shown, hmany]
  · by_cases hany : c = '_' <;> simp [shown, hmany, hany]

/-- The sample of a text, with a percent sign behind it or not, is no longer than the text, and
another text where there is a character to be told apart. -/
theorem sample_spec {value tail : List Char} (htail : tail = [] ∨ tail = ['%'])
    (h : (l.read (value ++ tail)).isSome) :
    (l.sample (value ++ tail)).length ≤ value.length ∧
      (l.sample (value ++ tail) = value → l.Plain value) := by
  induction value using read.induct (l := l) with
  | case1 =>
    rcases htail with rfl | rfl <;> simp [sample, shown, Plain]
  | case2 c hc =>
    rcases htail with rfl | rfl
    · simp [read, hc] at h
    · have hescape : c ≠ '%' := fun heq => l.escape_ne_many (heq ▸ hc)
      simp [sample, hc, hescape.symm]
  | case3 c hc =>
    have hsample : l.sample ([c] ++ tail) = shown c := by
      rcases htail with rfl | rfl
      · simp [sample]
      · simp [sample, hc, shown]
    rw [hsample]
    exact ⟨shown_length c, fun heq => List.forall_mem_singleton.mpr
      ⟨(shown_eq_self.mp heq).1, (shown_eq_self.mp heq).2, hc⟩⟩
  | case4 c d rest hc ih =>
    simp only [List.cons_append, read, sample, hc, if_true, Option.isSome_map] at h ih ⊢
    obtain ⟨hlength, _⟩ := ih h
    constructor
    · simp only [List.length_cons]
      omega
    · intro heq
      have hlengths := congrArg List.length heq
      simp only [List.length_cons] at hlengths
      omega
  | case5 c d rest hc ih =>
    simp only [List.cons_append, read, sample, hc, if_false, Option.isSome_map] at h ih ⊢
    obtain ⟨hlength, hplain⟩ := ih h
    have hshown := shown_length c
    constructor
    · simp only [List.length_append, List.length_cons] at hlength ⊢
      omega
    · intro heq
      have hlengths := congrArg List.length heq
      simp only [List.length_append, List.length_cons] at hlength hlengths
      obtain ⟨hc', hrest⟩ := List.append_inj (show shown c ++ _ = [c] ++ d :: rest from heq)
        (by simp only [List.length_singleton]; omega)
      exact List.forall_mem_cons.mpr ⟨⟨(shown_eq_self.mp hc').1, (shown_eq_self.mp hc').2, hc⟩,
        hplain hrest⟩

/-- A sample has characters of the pattern only, and `%`. -/
theorem sample_subset {pattern : List Char} {c : Char} (h : c ∈ l.sample pattern) :
    c ∈ pattern ∨ c = '%' := by
  have hshown : ∀ {d : Char}, c ∈ shown d → c = d ∨ c = '%' := fun {d} hc => by
    unfold shown at hc
    split at hc
    · cases hc
    · split at hc <;> simp_all
  induction pattern using read.induct (l := l) with
  | case1 => cases h
  | case2 d hd => exact (hshown h).imp List.mem_singleton.mpr id
  | case3 d hd => exact (hshown h).imp List.mem_singleton.mpr id
  | case4 d e rest hd ih =>
    simp only [sample, hd, if_true, List.mem_cons] at h ⊢
    rcases h with rfl | h
    · exact .inl (.inr (.inl rfl))
    · exact (ih h).imp (.inr ∘ .inr) id
  | case5 d e rest hd ih =>
    simp only [sample, hd, if_false, List.mem_append] at h
    rcases h with h | h
    · exact (hshown h).imp (fun heq => List.mem_cons.mpr (.inl heq)) id
    · exact (ih h).imp (List.mem_cons_of_mem d) id

/-- In front of a percent sign an escape character has something to stand before. -/
theorem read_many_isSome (value : List Char) : (l.read (value ++ ['%'])).isSome := by
  induction value using read.induct (l := l) with
  | case1 => simp [read, l.escape_ne_many]
  | case2 c hc => simp [read, hc]
  | case3 c hc => simp [read, hc, l.escape_ne_many]
  | case4 c d rest hc ih => simpa [read, hc] using ih
  | case5 c d rest hc ih => simpa [read, hc] using ih

theorem not_infix_of_length {value text : List Char} (hlength : text.length ≤ value.length)
    (hne : text ≠ value) :
    ¬value <:+: text := fun h => hne (h.eq_of_length_le hlength).symm

/-- A text that is not plain is met, as a pattern, in a text that it is not in. -/
theorem exists_not_infix {value : List Char} (h : ¬l.Plain value) :
    ∃ text, (∀ c ∈ text, c ∈ value ∨ c = '%') ∧ l.like (value ++ ['%']) text = true ∧
      ¬value <:+: text := by
  have hread := l.read_many_isSome value
  obtain ⟨hlength, hplain⟩ := sample_spec (.inr rfl) hread
  refine ⟨l.sample (value ++ ['%']), ?_, like_sample hread,
    not_infix_of_length hlength fun heq => h (hplain heq)⟩
  intro c hc
  simpa [or_assoc] using sample_subset hc

/-- A text ends with a plain value where the pattern matches it, and with no other value. -/
theorem like_suffix_iff {value : List Char} :
    (∀ text, l.like ('%' :: value) text = true ↔ value <:+ text) ↔ l.Plain value := by
  refine ⟨fun h => ?_, like_suffix⟩
  have hvalue := (h value).mpr (List.suffix_refl _)
  obtain ⟨rest, _, hlike⟩ := (like_many value value).mp hvalue
  have hread : (l.read (value ++ [])).isSome := by
    rw [List.append_nil]
    exact Option.isSome_of_any hlike
  obtain ⟨hlength, hplain⟩ := sample_spec (.inl rfl) hread
  rw [List.append_nil] at hlength hplain hread
  have hsample := (h _).mp ((like_many value _).mpr ⟨_, List.suffix_refl _, like_sample hread⟩)
  exact hplain (hsample.eq_of_length_le hlength).symm

theorem like_beginning_iff {value : List Char} :
    (∀ text, l.like (value ++ ['%']) text = true ↔ value <+: text) ↔ l.Plain value := by
  refine ⟨fun h => ?_, like_beginning⟩
  by_contra hplain
  obtain ⟨text, _, hlike, hinfix⟩ := exists_not_infix hplain
  exact hinfix ((h text).mp hlike).isInfix

end Like

end LikePatterns
