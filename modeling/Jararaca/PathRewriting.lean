import Jararaca.ParameterPlaces
import Jararaca.PathTemplates

/-!
# Rewriting a path in one pass

`parse_path_with_params` substitutes once for each parameter, each time in what the time before
left. Where no brace is opened inside another pair this is one pass from the left, and the pass
finds the parameters that `is_path_parameter` finds with a pattern of its own.
-/
namespace PathRewriting

open EndpointMethods (HttpParameterSpec)
open ParameterPlaces
open PathTemplates

/-- The names of the parameters. -/
def names (parameters : List HttpParameterSpec) : List (List Char) :=
  parameters.map fun p => p.name.toList

def substitute (names : List (List Char)) : List Char → Option (List Char) → List Char :=
  fun name converter => if names.contains name then ':' :: name else token name converter

/-! ## The pass -/

/-- `{name}` or `{name:converter}` at the beginning of a text. -/
def braced : List Char → Option (List Char × Option (List Char))
  | '{' :: text =>
    if '}' ∈ text then
      let content := text.takeWhile (· ≠ '}')
      some (content.takeWhile (· ≠ ':'), (content.dropWhile (· ≠ ':')).tail?)
    else none
  | _ => none

/-- From left to right: what is braced gives way to `:name` where the name is one of the names, and
everything else is kept. The number counts the characters of a placeholder that are still to be
passed over. -/
def passFrom (names : List (List Char)) : Nat → List Char → List Char
  | _, [] => []
  | skip + 1, _ :: text => passFrom names skip text
  | 0, c :: text =>
    match braced (c :: text) with
    | some (name, converter) =>
      if names.contains name then ':' :: name ++ passFrom names
        ((token name converter).length - 1) text
      else c :: passFrom names 0 text
    | none => c :: passFrom names 0 text

def onePass (names : List (List Char)) (path : List Char) : List Char := passFrom names 0 path

/-- A pair of braces with another opening brace inside. -/
def Nested (path : List Char) : Prop :=
  ∃ before inside rest, path = before ++ '{' :: inside ++ '{' :: rest ∧ '}' ∉ inside ∧ '}' ∈ rest

/-- A Python identifier: letters, digits, underscores, and what is not ASCII. -/
def IsIdentifier (name : String) : Prop :=
  name.toList ≠ [] ∧ ∀ c ∈ name.toList, isWord c = true ∨ 128 ≤ c.toNat

instance (name : String) : Decidable (IsIdentifier name) :=
  @instDecidableAnd _ _ inferInstance (List.decidableBAll _ _)

/-- A path without line breaks and nested braces. -/
structure Plain (path : List Char) : Prop where
  lines : '\n' ∉ path
  braces : ¬Nested path

/-- The result has the placeholder `:name` where the path has a braced one. -/
def Placed (parameters : List HttpParameterSpec) (name path : List Char) : Prop :=
  ∃ before converter behind, path = before ++ token name converter ++ behind ∧
    (∀ text, converter = some text → '}' ∉ text) ∧
    parsePathWithParams path (names parameters) =
      parsePathWithParams before (names parameters) ++ ':' :: name ++ parsePathWithParams behind
        (names parameters)

/-! ## The pattern -/

section Pattern

variable (replace : List Char → Option (List Char) → List Char)

/-- What was read of a match that is not complete. -/
def pending : Scan → List Char
  | .text => []
  | .name name => '{' :: name
  | .converter name converter => '{' :: name ++ ':' :: converter

/-- What a scan has read, up to the character it is at. -/
def Read : Scan → Prop
  | .text => True
  | .name name => ∀ c ∈ name, c ≠ ':' ∧ c ≠ '}'
  | .converter name converter => name ≠ [] ∧ (∀ c ∈ name, c ≠ ':' ∧ c ≠ '}') ∧ '}' ∉ converter

/-- A brace that is open has not been closed. -/
theorem Read.open {scan : Scan} (h : Read scan) : '}' ∉ pending scan := by
  cases scan with
  | text => simp [pending]
  | name name =>
    have hname : '}' ∉ name := fun hmem => (h _ hmem).2 rfl
    simp [pending, hname]
  | converter name converter =>
    have hname : '}' ∉ name := fun hmem => (h.2.1 _ hmem).2 rfl
    simp [pending, hname, h.2.2]

theorem Read.name_snoc {name : List Char} (h : Read (.name name)) {c : Char} (hcolon : c ≠ ':')
    (hclose : c ≠ '}') : Read (.name (name ++ [c])) := by
  intro d hd
  obtain hd | hd := List.mem_append.mp hd
  · exact h d hd
  · rw [List.mem_singleton.mp hd]
    exact ⟨hcolon, hclose⟩

theorem Read.converter_snoc {name converter : List Char}
    (h : Read (.converter name converter)) {c : Char}
    (hclose : c ≠ '}') : Read (.converter name (converter ++ [c])) := by
  refine ⟨h.1, h.2.1, ?_⟩
  simp [h.2.2, Ne.symm hclose]

/-- Without a closing brace there is no match. -/
theorem sub_without_close {text : List Char} (h : '}' ∉ text) (scan : Scan) :
    sub replace scan text = pending scan ++ text := by
  induction text generalizing scan with
  | nil => cases scan <;> simp [sub, pending]
  | cons c text ih =>
    simp only [List.mem_cons, not_or] at h
    have hrest := ih h.2
    cases scan with
    | text =>
      rw [sub]
      split
      · rename_i hopen
        rw [hrest, hopen]
        rfl
      · rw [hrest]
        rfl
    | name name =>
      rw [sub, if_neg (Ne.symm h.1)]
      split
      · rename_i hcolon
        split
        · simp_all [pending]
        · simp [hrest, pending, hcolon]
      · simp [hrest, pending]
    | converter name converter =>
      rw [sub, if_neg (Ne.symm h.1), hrest]
      simp [pending]

/-- A text without an opening brace is passed over. -/
theorem sub_plain {skipped : List Char} (h : '{' ∉ skipped) (rest : List Char) :
    sub replace .text (skipped ++ rest) = skipped ++ sub replace .text rest := by
  induction skipped with
  | nil => rfl
  | cons c skipped ih =>
    simp only [List.mem_cons, not_or] at h
    rw [List.cons_append, sub, if_neg (Ne.symm h.1), ih h.2]
    rfl

/-- Where every match is put back the text stays. -/
theorem sub_token_self (scan : Scan) (text : List Char) :
    sub token scan text = pending scan ++ text := by
  induction text generalizing scan with
  | nil => cases scan <;> simp [sub, pending]
  | cons c text ih =>
    cases scan with
    | text =>
      rw [sub]
      split
      · rename_i hopen
        rw [ih, hopen]
        rfl
      · rw [ih]
        rfl
    | name name =>
      rw [sub]
      split
      · rename_i hcolon
        split <;> simp_all [pending]
      · split
        · rename_i hclose
          split <;> simp_all [pending, token]
        · simp [ih, pending]
    | converter name converter =>
      rw [sub]
      split
      · rename_i hclose
        simp [ih, pending, token, hclose]
      · simp [ih, pending]

/-- Two substitutions are one where the second makes of every match what the one does. -/
theorem sub_sub {first second both : List Char → Option (List Char) → List Char}
    (h : ∀ name converter rest, name ≠ [] → (∀ c ∈ name, c ≠ ':' ∧ c ≠ '}') →
      (∀ text, converter = some text → '}' ∉ text) →
      sub second .text (first name converter ++ rest) =
        both name converter ++ sub second .text rest)
    (scan : Scan) (hread : Read scan) (text : List Char) :
    sub second .text (sub first scan text) = sub both scan text := by
  induction text generalizing scan with
  | nil =>
    have hsame : ∀ replace, sub replace scan [] = pending scan :=
      fun replace => by cases scan <;> rfl
    rw [hsame, hsame, sub_without_close second hread.open]
    rfl
  | cons c text ih =>
    have htext := ih .text trivial
    cases scan with
    | text =>
      rw [sub, sub]
      split
      · exact ih (.name []) (by simp [Read])
      · rename_i hopen
        rw [sub, if_neg hopen, htext]
    | name name =>
      rw [sub, sub]
      split
      · split
        · simp only [sub, if_true, htext, Char.reduceEq, if_false]
        · rename_i hne
          exact ih (.converter name []) ⟨hne, hread, by simp⟩
      · rename_i hcolon
        split
        · split
          · simp only [sub, if_true, htext, Char.reduceEq, if_false]
          · rename_i hne
            rw [h name none _ hne hread (by simp), htext]
        · rename_i hclose
          exact ih _ (hread.name_snoc hcolon hclose)
    | converter name converter =>
      rw [sub, sub]
      split
      · rw [h name (some converter) _ hread.1 hread.2.1 (by simpa using hread.2.2), htext]
      · rename_i hclose
        exact ih _ (hread.converter_snoc hclose)

end Pattern

/-! ## The parameters one after the other -/

section Parameters

theorem substitute_of_mem {ns : List (List Char)} {name : List Char} (h : name ∈ ns)
    (converter : Option (List Char)) : substitute ns name converter = ':' :: name :=
  if_pos (List.contains_iff_mem.mpr h)

theorem substitute_of_not_mem {ns : List (List Char)} {name : List Char} (h : name ∉ ns)
    (converter : Option (List Char)) : substitute ns name converter = token name converter :=
  if_neg (mt List.contains_iff_mem.mp h)

/-- One substitution after the other is one for all of them. -/
theorem parsePathWithParams_eq {ns : List (List Char)} (h : ∀ name ∈ ns, '{' ∉ name)
    (path : List Char) :
    parsePathWithParams path ns = sub (substitute ns) .text path := by
  induction ns generalizing path with
  | nil =>
    have hnone : substitute [] = token := by
      funext name converter
      simp [substitute]
    rw [hnone, sub_token_self]
    rfl
  | cons parameter ns ih =>
    rw [parsePathWithParams, subParameter,
      ih fun name hname => h name (List.mem_cons_of_mem _ hname)]
    refine sub_sub ?_ .text trivial path
    intro name converter rest hne hname hconverter
    by_cases heq : name = parameter
    · have hopen : '{' ∉ ':' :: name := by
        have := h parameter List.mem_cons_self
        simp [heq, this]
      rw [if_pos heq, sub_plain _ hopen, substitute_of_mem (by simp [heq])]
    · rw [if_neg heq, sub_match _ rest hne hname hconverter]
      simp [substitute, heq]

/-- The substitution depends on the set of names only. -/
theorem sub_substitute_congr {ns ms : List (List Char)} (h : ∀ name, name ∈ ns ↔ name ∈ ms) :
    substitute ns = substitute ms := by
  funext name converter
  simp [substitute, h name]

end Parameters

/-! ## The pass -/

section Pass

/-- What stands between the braces. -/
def content (name : List Char) : Option (List Char) → List Char
  | none => name
  | some converter => name ++ ':' :: converter

theorem token_eq (name : List Char) (converter : Option (List Char)) :
    token name converter = '{' :: content name converter ++ ['}'] := by
  cases converter <;> simp [token, content]

/-- A placeholder without its braces closes nothing. -/
theorem not_mem_content {name : List Char} {converter : Option (List Char)} (hname : '}' ∉ name)
    (hconverter : ∀ text, converter = some text → '}' ∉ text) : '}' ∉ content name converter := by
  cases converter with
  | none => exact hname
  | some text => simp [content, hname, hconverter text rfl]

/-- The name ends at the first colon, and the converter is what follows that. -/
theorem content_split (inside : List Char) :
    content (inside.takeWhile (· ≠ ':')) (inside.dropWhile (· ≠ ':')).tail? = inside := by
  have hsplit := List.takeWhile_append_dropWhile (p := fun c => decide (c ≠ ':')) (l := inside)
  cases hdrop : inside.dropWhile (· ≠ ':') with
  | nil =>
    rw [hdrop, List.append_nil] at hsplit
    exact hsplit
  | cons c converter =>
    have hhead := List.head?_dropWhile_not (fun c => decide (c ≠ ':')) inside
    rw [hdrop] at hhead hsplit
    have hcolon : c = ':' := by simpa using hhead
    rw [hcolon] at hsplit
    exact hsplit

theorem takeWhile_close {inside : List Char} (h : '}' ∉ inside) (rest : List Char) :
    (inside ++ '}' :: rest).takeWhile (· ≠ '}') = inside := by
  have hinside : ∀ c ∈ inside, decide (c ≠ '}') = true :=
    fun c hc => decide_eq_true fun heq => h (heq ▸ hc)
  rw [List.takeWhile_append_of_pos hinside]
  simp

/-- What is read at the beginning of a text is a placeholder. -/
theorem braced_some {text name : List Char} {converter : Option (List Char)}
    (h : braced text = some (name, converter)) :
    (∃ rest, text = token name converter ++ rest) ∧ (∀ c ∈ name, c ≠ ':' ∧ c ≠ '}') ∧
      ∀ t, converter = some t → '}' ∉ t := by
  unfold braced at h
  split at h
  · split at h
    · rename_i hclose
      obtain ⟨inside, rest, rfl, hinside⟩ := List.eq_append_cons_of_mem hclose
      dsimp only at h
      rw [takeWhile_close hinside] at h
      obtain ⟨rfl, rfl⟩ := Prod.mk.inj (Option.some.inj h)
      refine ⟨⟨rest, ?_⟩, ?_, ?_⟩
      · rw [token_eq, content_split]
        simp
      · intro c hc
        refine ⟨by simpa using List.mem_takeWhile_imp hc, ?_⟩
        rintro rfl
        exact hinside (List.takeWhile_subset _ hc)
      · intro t ht hmem
        have hcontent := content_split inside
        rw [ht] at hcontent
        exact hinside (hcontent ▸ List.mem_append_right _ (List.mem_cons_of_mem _ hmem))
    · cases h
  · cases h

theorem braced_none {text : List Char} (h : braced ('{' :: text) = none) : '}' ∉ text := by
  intro hclose
  simp [braced, hclose] at h

theorem braced_other {c : Char} (h : c ≠ '{') (text : List Char) : braced (c :: text) = none := by
  unfold braced
  split
  · rename_i heq
    exact absurd (List.cons.inj heq).1 h
  · rfl

variable {ns : List (List Char)}

theorem passFrom_skip (skipped text : List Char) :
    passFrom ns skipped.length (skipped ++ text) = onePass ns text := by
  induction skipped with
  | nil => rfl
  | cons c skipped ih => exact ih

theorem onePass_cons (c : Char) (text : List Char) : onePass ns (c :: text) =
    match braced (c :: text) with
    | some (name, converter) =>
      if ns.contains name then ':' :: name ++ passFrom ns ((token name converter).length - 1) text
      else c :: onePass ns text
    | none => c :: onePass ns text := rfl

theorem onePass_other_name {c : Char} {text name : List Char} {converter : Option (List Char)}
    (h : braced (c :: text) = some (name, converter)) (hname : name ∉ ns) :
    onePass ns (c :: text) = c :: onePass ns text := by
  rw [onePass_cons, h]
  exact if_neg (mt List.contains_iff_mem.mp hname)

/-- A placeholder of one of the names gives way. -/
theorem onePass_named {name rest : List Char} {converter : Option (List Char)} (hname : name ∈ ns)
    (h : braced (token name converter ++ rest) = some (name, converter)) :
    onePass ns (token name converter ++ rest) = ':' :: name ++ onePass ns rest := by
  rw [token_eq, List.cons_append, List.cons_append] at h ⊢
  rw [onePass_cons, h]
  simp only [List.contains_iff_mem.mpr hname, if_true, token_eq, List.cons_append, List.length_cons,
    Nat.add_sub_cancel]
  rw [passFrom_skip]

/-- Where no brace is opened everything is kept. -/
theorem onePass_plain {skipped : List Char} (h : '{' ∉ skipped) (rest : List Char) :
    onePass ns (skipped ++ rest) = skipped ++ onePass ns rest := by
  induction skipped with
  | nil => rfl
  | cons c skipped ih =>
    simp only [List.mem_cons, not_or] at h
    rw [List.cons_append, onePass_cons, braced_other (Ne.symm h.1)]
    exact congrArg (c :: ·) (ih h.2)

/-- Any other placeholder without a brace inside is kept. -/
theorem onePass_kept {name rest : List Char} {converter : Option (List Char)} (hname : name ∉ ns)
    (h : braced (token name converter ++ rest) = some (name, converter))
    (hcontent : '{' ∉ content name converter) :
    onePass ns (token name converter ++ rest) = token name converter ++ onePass ns rest := by
  have hinside : '{' ∉ content name converter ++ ['}'] := by simpa using hcontent
  rw [token_eq, List.cons_append, List.cons_append] at h ⊢
  rw [onePass_other_name h hname, onePass_plain hinside]
  rfl

theorem not_nested_of_append (before : List Char) {rest : List Char}
    (h : ¬Nested (before ++ rest)) :
    ¬Nested rest := by
  rintro ⟨a, inside, more, rfl, hinside, hclose⟩
  exact h ⟨before ++ a, inside, more, by simp, hinside, hclose⟩

/-- A placeholder of a path that is not nested holds no brace. -/
theorem content_closed {name rest : List Char} {converter : Option (List Char)}
    (h : ¬Nested (token name converter ++ rest)) (hname : '}' ∉ name)
    (hconverter : ∀ text, converter = some text → '}' ∉ text) : '{' ∉ content name converter := by
  intro hopen
  have hclose := not_mem_content hname hconverter
  obtain ⟨inside, more, hcontent, -⟩ := List.eq_append_cons_of_mem hopen
  rw [hcontent] at hclose
  refine h ⟨[], inside, more ++ '}' :: rest, ?_, ?_, by simp⟩
  · rw [token_eq, hcontent]
    simp
  · exact fun hmem => hclose (List.mem_append_left _ hmem)

/-- Where the pattern finds no name it goes on behind the brace. -/
theorem sub_unnamed (replace : List Char → Option (List Char) → List Char)
    (converter : Option (List Char))
    (rest : List Char) : ∃ text, token [] converter ++ rest = '{' :: text ∧
      sub replace .text (token [] converter ++ rest) = '{' :: sub replace .text text := by
  cases converter with
  | none => exact ⟨_, rfl, by simp [token, sub]⟩
  | some t => exact ⟨_, rfl, by simp [token, sub]⟩

/-- At a placeholder the pattern and the pass do the same, if they do behind its brace and behind
it. -/
theorem sub_substitute_token (hnames : [] ∉ ns) {name rest : List Char}
    {converter : Option (List Char)}
    (hnested : ¬Nested (token name converter ++ rest))
    (hbraced : braced (token name converter ++ rest) = some (name, converter))
    (hbrace : ∀ text, token name converter ++ rest = '{' :: text →
      sub (substitute ns) .text text = onePass ns text)
    (hrest : sub (substitute ns) .text rest = onePass ns rest) :
    sub (substitute ns) .text (token name converter ++ rest) =
      onePass ns (token name converter ++ rest) := by
  obtain ⟨-, hname, hconverter⟩ := braced_some hbraced
  by_cases hne : name = []
  · subst hne
    obtain ⟨text, htext, hsub⟩ := sub_unnamed (substitute ns) converter rest
    rw [hsub, hbrace text htext, htext]
    rw [htext] at hbraced
    exact (onePass_other_name hbraced hnames).symm
  · rw [sub_match _ rest hne hname hconverter, hrest]
    by_cases hmem : name ∈ ns
    · rw [onePass_named hmem hbraced, substitute_of_mem hmem]
    · have hclose : '}' ∉ name := fun hmem => (hname _ hmem).2 rfl
      have hcontent := content_closed hnested hclose hconverter
      rw [onePass_kept hmem hbraced hcontent, substitute_of_not_mem hmem]

/-- Where braces are not nested the pattern finds what the pass finds. -/
theorem sub_substitute (hnames : [] ∉ ns) {path : List Char} (h : ¬Nested path) :
    sub (substitute ns) .text path = onePass ns path := by
  induction hlength : path.length using Nat.strong_induction_on generalizing path with
  | _ n ih =>
    cases path with
    | nil => rfl
    | cons c text =>
      have htext : sub (substitute ns) .text text = onePass ns text :=
        ih text.length (by simp [← hlength]) (not_nested_of_append [c] h) rfl
      by_cases hopen : c = '{'
      · subst hopen
        cases hbraced : braced ('{' :: text) with
        | none =>
          have hclose := braced_none hbraced
          rw [onePass_cons, hbraced]
          dsimp only
          rw [← htext, sub_without_close _ hclose, sub_without_close _ (by simpa using hclose)]
          rfl
        | some found =>
          obtain ⟨name, converter⟩ := found
          obtain ⟨⟨rest, hsplit⟩, -, -⟩ := braced_some hbraced
          have hshort : rest.length < n := by
            rw [← hlength, hsplit, token_eq]
            simp
            omega
          have hrest : ¬Nested rest := not_nested_of_append (token name converter) (hsplit ▸ h)
          have hbrace : ∀ text', token name converter ++ rest = '{' :: text' →
              sub (substitute ns) .text text' = onePass ns text' := by
            intro text' heq
            rw [← hsplit] at heq
            exact (List.cons.inj heq).2 ▸ htext
          rw [hsplit] at h hbraced ⊢
          exact sub_substitute_token hnames h hbraced hbrace (ih rest.length hshort hrest rfl)
      · rw [sub, if_neg hopen, htext, onePass_cons, braced_other hopen]

end Pass

/-! ## The other pattern -/

section Search

/-- `after` takes a word off the front. -/
theorem after_eq_some {word text rest : List Char} :
    after word text = some rest ↔ text = word ++ rest := by
  induction word generalizing text with
  | nil => simp [after, eq_comm]
  | cons a word ih =>
    cases text with
    | nil => simp [after]
    | cons c text =>
      rw [after]
      split
      · rename_i heq
        rw [ih]
        simp [heq]
      · rename_i hne
        simp [Ne.symm hne]

/-- The search finds the name behind an opening brace, with what closes it behind it. -/
theorem search_iff {closes : List Char → Bool} {name path : List Char} :
    search closes name path = true ↔
      ∃ before behind, path = before ++ '{' :: name ++ behind ∧ closes behind = true := by
  induction path with
  | nil => simp [search]
  | cons c path ih =>
    rw [search, Bool.or_eq_true, ih]
    constructor
    · rintro (hhere | ⟨before, behind, rfl, hcloses⟩)
      · cases hafter : after ('{' :: name) (c :: path) with
        | none => simp [hafter] at hhere
        | some behind =>
          rw [hafter] at hhere
          exact ⟨[], behind, after_eq_some.mp hafter, hhere⟩
      · exact ⟨c :: before, behind, rfl, hcloses⟩
    · rintro ⟨before, behind, hpath, hcloses⟩
      cases before with
      | nil =>
        rw [List.nil_append] at hpath
        rw [after_eq_some.mpr hpath]
        exact .inl hcloses
      | cons d before => exact .inr ⟨before, behind, (List.cons.inj hpath).2, hcloses⟩

/-- What a placeholder has behind its name. -/
def closing : Option (List Char) → List Char
  | none => ['}']
  | some converter => ':' :: converter ++ ['}']

theorem token_closing (name : List Char) (converter : Option (List Char)) :
    token name converter = '{' :: name ++ closing converter := by
  cases converter <;> simp [token, closing]

/-- On one line the name is closed by a brace at once, or behind a colon and a converter. -/
theorem closesParameter_iff {behind : List Char} (hlines : '\n' ∉ behind) :
    closesParameter behind = true ↔
    ∃ converter rest, behind = closing converter ++ rest ∧ ∀ text, converter = some text →
      '}' ∉ text := by
  constructor
  · intro h
    unfold closesParameter at h
    split at h
    · rename_i rest
      exact ⟨none, rest, rfl, by simp⟩
    · rename_i more
      have hmem : '}' ∈ more := List.takeWhile_subset _ (by simpa using h)
      obtain ⟨text, rest, rfl, htext⟩ := List.eq_append_cons_of_mem hmem
      exact ⟨some text, rest, by simp [closing], by simpa using htext⟩
    · cases h
  · rintro ⟨converter, rest, rfl, -⟩
    cases converter with
    | none => rfl
    | some text =>
      have htake : (text ++ ['}'] ++ rest).takeWhile (· ≠ '\n') = text ++ ['}'] ++ rest :=
        List.takeWhile_eq_self_iff.mpr fun c hc => decide_eq_true fun heq =>
          hlines (List.mem_cons_of_mem _ (heq ▸ hc))
      rw [closing, List.cons_append, List.cons_append, closesParameter, htake]
      simp

/-- Every opening brace of a text is followed by a closing one. -/
def Closed (text : List Char) : Prop := ∀ a b, text = a ++ '{' :: b → '}' ∈ b

/-- A text in which every brace is closed is substituted by itself. -/
theorem sub_append (replace : List Char → Option (List Char) → List Char) {before : List Char}
    (h : Closed before)
    (rest : List Char) (scan : Scan) (hscan : scan = .text ∨ '}' ∈ before) :
    sub replace scan (before ++ rest) = sub replace scan before ++ sub replace .text rest := by
  induction before generalizing scan with
  | nil =>
    obtain rfl : scan = .text := by simpa using hscan
    rfl
  | cons c before ih =>
    have hbefore : Closed before := fun a b heq => h (c :: a) b (by rw [heq]; rfl)
    have htext := ih hbefore .text (.inl rfl)
    cases scan with
    | text =>
      rw [List.cons_append, sub, sub]
      split
      · rename_i hopen
        exact ih hbefore _ (.inr (h [] before (by rw [hopen]; rfl)))
      · rw [htext]
        rfl
    | name name =>
      have hclose : c ≠ '}' → '}' ∈ before := fun hne => by simpa [Ne.symm hne] using hscan
      rw [List.cons_append, sub, sub]
      split
      · rename_i hcolon
        split
        · rw [htext]
          rfl
        · exact ih hbefore _ (.inr (hclose (by simp [hcolon])))
      · split
        · split
          · rw [htext]
            rfl
          · rw [htext, List.append_assoc]
        · rename_i hne
          exact ih hbefore _ (.inr (hclose hne))
    | converter name converter =>
      have hclose : c ≠ '}' → '}' ∈ before := fun hne => by simpa [Ne.symm hne] using hscan
      rw [List.cons_append, sub, sub]
      split
      · rw [htext, List.append_assoc]
      · rename_i hne
        exact ih hbefore _ (.inr (hclose hne))

/-- In front of a placeholder of a path that is not nested every brace is closed. -/
theorem closed_before {before name behind : List Char} {converter : Option (List Char)}
    (h : ¬Nested (before ++ token name converter ++ behind)) : Closed before := by
  intro a b heq
  by_contra hclose
  refine h ⟨a, b, content name converter ++ ['}'] ++ behind, ?_, hclose, by simp⟩
  rw [token_eq, heq]
  simp

end Search

/-! ## The result -/

section Result

variable {parameters : List HttpParameterSpec} {path : List Char}

theorem IsIdentifier.not_mem {name : String} (h : IsIdentifier name) {c : Char}
    (hword : isWord c = false)
    (hascii : c.toNat < 128) : c ∉ name.toList := by
  intro hmem
  obtain hc | hc := h.2 c hmem
  · rw [hc] at hword
    cases hword
  · omega

/-- An identifier holds neither of the characters that end a name. -/
theorem IsIdentifier.ends_at_none {name : String} (h : IsIdentifier name) :
    ∀ c ∈ name.toList, c ≠ ':' ∧ c ≠ '}' := by
  intro c hc
  refine ⟨?_, ?_⟩
  · rintro rfl
    exact h.not_mem (by decide) (by decide) hc
  · rintro rfl
    exact h.not_mem (by decide) (by decide) hc

theorem names_no_brace (h : ∀ p ∈ parameters, IsIdentifier p.name) :
    ∀ name ∈ names parameters, '{' ∉ name := by
  intro name hname
  obtain ⟨p, hp, rfl⟩ := List.mem_map.mp hname
  exact (h p hp).not_mem (by decide) (by decide)

theorem names_not_nil (h : ∀ p ∈ parameters, IsIdentifier p.name) : [] ∉ names parameters := by
  intro hmem
  obtain ⟨p, hp, heq⟩ := List.mem_map.mp hmem
  exact (h p hp).1 heq

/-- A path has the placeholder of a parameter in its result where the other pattern is found. -/
theorem search_iff_placed (h : ∀ p ∈ parameters, IsIdentifier p.name) (hpath : Plain path)
    {p : HttpParameterSpec} (hp : p ∈ parameters) :
    search closesParameter p.name.toList path = true ↔ Placed parameters p.name.toList path := by
  have hbrace := names_no_brace h
  have hidentifier := h p hp
  have hname := hidentifier.ends_at_none
  have hmem : p.name.toList ∈ names parameters := List.mem_map_of_mem hp
  rw [search_iff]
  constructor
  · rintro ⟨before, behind, htext, hcloses⟩
    have hlines : '\n' ∉ behind := fun hmem => hpath.lines (htext ▸ List.mem_append_right _ hmem)
    obtain ⟨converter, rest, rfl, hconverter⟩ := (closesParameter_iff hlines).mp hcloses
    have hsplit : path = before ++ token p.name.toList converter ++ rest := by
      rw [htext, token_closing]
      simp
    have hclosed := closed_before (hsplit ▸ hpath.braces)
    refine ⟨before, converter, rest, hsplit, hconverter, ?_⟩
    rw [hsplit, parsePathWithParams_eq hbrace, parsePathWithParams_eq hbrace,
      parsePathWithParams_eq hbrace,
      List.append_assoc, sub_append _ hclosed _ _ (.inl rfl),
        sub_match _ rest hidentifier.1 hname hconverter,
      substitute_of_mem hmem, List.append_assoc]
  · rintro ⟨before, converter, behind, htext, hconverter, -⟩
    have hsplit : path = before ++ '{' :: p.name.toList ++ (closing converter ++ behind) := by
      rw [htext, token_closing]
      simp
    have hlines : '\n' ∉ closing converter ++ behind := fun hmem =>
      hpath.lines (hsplit ▸ List.mem_append_right _ hmem)
    exact ⟨before, _, hsplit, (closesParameter_iff hlines).mpr ⟨converter, behind, rfl, hconverter⟩⟩

/-- A path without line breaks and nested braces is rewritten in one pass from the left, in whatever
order and how often the parameters are listed. The path, or the path of a method beside it, then has
the placeholder of a parameter where it had a braced one if `is_path_parameter` says so, and
only then. -/
theorem rewritten_in_one_pass (hpath : Plain path)
    (hnames : ∀ p ∈ parameters, IsIdentifier p.name) :
    parsePathWithParams path (names parameters) = onePass (names parameters) path ∧
      (∀ others : List HttpParameterSpec, (∀ p, p ∈ others ↔ p ∈ parameters) →
        parsePathWithParams path (names others) = parsePathWithParams path (names parameters)) ∧
      ∀ p ∈ parameters, ∀ method, Plain method → (isPathParameter p.name ⟨path, method⟩ = true ↔
        Placed parameters p.name.toList path ∨ Placed parameters p.name.toList method) := by
  refine ⟨?_, ?_, ?_⟩
  · rw [parsePathWithParams_eq (names_no_brace hnames)]
    exact sub_substitute (names_not_nil hnames) hpath.braces
  · intro others hsame
    have hothers : ∀ p ∈ others, IsIdentifier p.name := fun p hp => hnames p ((hsame p).mp hp)
    have hmem : ∀ name, name ∈ names others ↔ name ∈ names parameters := by
      intro name
      simp only [names, List.mem_map, hsame]
    rw [parsePathWithParams_eq (names_no_brace hothers),
      parsePathWithParams_eq (names_no_brace hnames),
      sub_substitute_congr hmem]
  · intro p hp method hmethod
    rw [isPathParameter, Bool.or_eq_true]
    exact or_congr (search_iff_placed hnames hpath hp) (search_iff_placed hnames hmethod hp)

def userId : HttpParameterSpec where
  type_ := .path
  name := "id"
  argumentTypeStr := "string"

def usersPath : List Char := "/users/{id:uuid}".toList

theorem usersPath_plain : Plain usersPath := by
  refine ⟨by decide, ?_⟩
  rintro ⟨before, inside, rest, heq, -⟩
  have hcount := congrArg (List.count '{') heq
  have hone : usersPath.count '{' = 1 := by decide
  rw [hone] at hcount
  simp at hcount
  omega

/-- The path of a user. -/
theorem users_rewritten : parsePathWithParams usersPath (names [userId]) = "/users/:id".toList ∧
    (isPathParameter "id" ⟨usersPath, []⟩ = true ↔
      Placed [userId] "id".toList usersPath ∨ Placed [userId] "id".toList []) := by
  have hnames : ∀ p ∈ [userId], IsIdentifier p.name := by
    intro p hp
    rw [List.mem_singleton.mp hp]
    decide
  have hempty : Plain [] := ⟨by simp, by rintro ⟨before, inside, rest, heq, -⟩; simp at heq⟩
  obtain ⟨hpass, -, hplaced⟩ := rewritten_in_one_pass usersPath_plain hnames
  exact ⟨hpass.trans (by decide), hplaced userId (by simp) [] hempty⟩

def nestedPath : List Char := '/' :: '{' :: "users/{id}".toList

/-- In nested braces the two patterns differ. -/
example : isPathParameter "id" ⟨nestedPath, []⟩ = true ∧
    parsePathWithParams nestedPath (names [userId]) = nestedPath := by decide

end Result

end PathRewriting
