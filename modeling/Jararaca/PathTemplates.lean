import Mathlib.Data.List.DropRight
import Mathlib.Tactic.Common

/-!
# Paths with parameters

`parse_path_with_params` of parameters.py and `build_endpoint_path` of endpoint_writer.py, on
the characters of the paths. A template is a path in which braces stand only around the name
of a parameter and its converter; on templates the pattern finds the parameters. What is
left of a path up to slashes are its segments.
-/
namespace PathTemplates

/-- Where the pattern `{([^:}]+)(?::[^}]*)?}` stands: outside, inside a name, or inside a
converter. -/
inductive Scan where
  | text
  | name (name : List Char)
  | converter (name converter : List Char)

/-- The text of a match. -/
def token (name : List Char) : Option (List Char) → List Char
  | none => '{' :: name ++ ['}']
  | some converter => '{' :: name ++ ':' :: converter ++ ['}']

/-- `pattern.sub(replace, path)`. A brace that begins no match stays; it is followed by a
character that begins none, or by no closing brace at all. -/
def sub (replace : List Char → Option (List Char) → List Char) : Scan → List Char → List Char
  | .text, [] => []
  | .text, c :: rest => if c = '{' then sub replace (.name []) rest else c :: sub replace .text rest
  | .name name, [] => '{' :: name
  | .name name, c :: rest =>
    if c = ':' then
      if name = [] then '{' :: ':' :: sub replace .text rest
      else sub replace (.converter name []) rest
    else if c = '}' then
      if name = [] then '{' :: '}' :: sub replace .text rest
      else replace name none ++ sub replace .text rest
    else sub replace (.name (name ++ [c])) rest
  | .converter name converter, [] => '{' :: name ++ ':' :: converter
  | .converter name converter, c :: rest =>
    if c = '}' then replace name (some converter) ++ sub replace .text rest
    else sub replace (.converter name (converter ++ [c])) rest

/-- The substitution for one parameter. -/
def subParameter (parameter path : List Char) : List Char :=
  sub (fun name converter =>
    if name = parameter then ':' :: name else token name converter) .text path

/-- `parse_path_with_params`, on the names of the parameters. -/
def parsePathWithParams (path : List Char) : List (List Char) → List Char
  | [] => path
  | parameter :: parameters => parsePathWithParams (subParameter parameter path) parameters

def strip (s : List Char) : List Char := (s.dropWhile (· = '/')).rdropWhile (· = '/')

def buildEndpointPath (controllerPath endpointPath : List Char)
    (parameters : List (List Char)) : List Char :=
  let endpoint := strip (parsePathWithParams endpointPath parameters)
  let controller := strip (parsePathWithParams controllerPath parameters)
  let parts :=
    (if controller = [] then [] else [controller]) ++ (if endpoint = [] then [] else [endpoint])
  '/' :: ['/'].intercalate parts

/-- A character, or a parameter with its converter. -/
inductive Piece where
  | char (c : Char)
  | param (name : List Char) (converter : Option (List Char))
  deriving DecidableEq

namespace Piece

def render : Piece → List Char
  | char c => [c]
  | param name converter => token name converter

/-- The piece with its parameter written `:p`. -/
def plain : Piece → List Char
  | char c => [c]
  | param name _ => ':' :: name

def WellFormed : Piece → Prop
  | char c => c ≠ '{'
  | param name converter => name ≠ [] ∧ (∀ c ∈ name, c ≠ ':' ∧ c ≠ '}' ∧ c ≠ '{' ∧ c ≠ '/') ∧
      ∀ text, converter = some text → '}' ∉ text

end Piece

def render (pieces : List Piece) : List Char := pieces.flatMap Piece.render

def plain (pieces : List Piece) : List Char := pieces.flatMap Piece.plain

def WellFormed (pieces : List Piece) : Prop := ∀ piece ∈ pieces, piece.WellFormed

/-- Every match of the pattern rewritten to `:p`. -/
def rewriteAll (path : List Char) : List Char := sub (fun name _ => ':' :: name) .text path

/-- The parts of a path between its slashes. -/
def segments (path : List Char) : List (List Char) := (path.splitOn '/').filter (· ≠ [])

/-- A path up to duplicate and trailing slashes and the way parameters are written. -/
def canonical (path : List Char) : Bool × List (List Char) :=
  (path.head? = some '/' ∧ segments (rewriteAll path) ≠ [], segments (rewriteAll path))

section Scanning

variable (replace : List Char → Option (List Char) → List Char)

theorem sub_name (name more : List Char) (rest : List Char) (h : ∀ c ∈ more, c ≠ ':' ∧ c ≠ '}') :
    sub replace (.name name) (more ++ rest) = sub replace (.name (name ++ more)) rest := by
  induction more generalizing name with
  | nil => simp
  | cons c more ih =>
    obtain ⟨hcolon, hclose⟩ := h c List.mem_cons_self
    rw [List.cons_append, sub, if_neg hcolon, if_neg hclose,
      ih _ fun c hc => h c (List.mem_cons_of_mem _ hc)]
    simp

theorem sub_converter (name converter more rest : List Char) (h : '}' ∉ more) :
    sub replace (.converter name converter) (more ++ rest) =
      sub replace (.converter name (converter ++ more)) rest := by
  induction more generalizing converter with
  | nil => simp
  | cons c more ih =>
    simp only [List.mem_cons, not_or] at h
    rw [List.cons_append, sub, if_neg (Ne.symm h.1), ih _ h.2]
    simp

/-- A match is replaced as a whole. -/
theorem sub_match {name : List Char} {converter : Option (List Char)} (rest : List Char)
    (hne : name ≠ [])
    (hname : ∀ c ∈ name, c ≠ ':' ∧ c ≠ '}')
    (hconverter : ∀ text, converter = some text → '}' ∉ text) :
    sub replace .text (token name converter ++ rest) =
      replace name converter ++ sub replace .text rest := by
  cases converter with
  | none =>
    rw [token, List.append_assoc, List.cons_append, sub, if_pos rfl, sub_name _ _ _ _ hname]
    simp [sub, hne]
  | some text =>
    rw [token, List.append_assoc, List.append_assoc, List.cons_append, sub, if_pos rfl,
      sub_name _ _ _ _ hname]
    simp only [List.nil_append, List.cons_append]
    rw [sub, if_pos rfl, if_neg hne, sub_converter _ _ _ _ _ (hconverter text rfl)]
    simp [sub]

/-- The pattern finds a parameter as a whole. -/
theorem sub_token {name : List Char} {converter : Option (List Char)} (rest : List Char)
    (h : (Piece.param name converter).WellFormed) :
    sub replace .text (token name converter ++ rest) =
      replace name converter ++ sub replace .text rest := by
  obtain ⟨hname, hchars, hconverter⟩ := h
  exact sub_match replace rest hname (fun c hc => ⟨(hchars c hc).1, (hchars c hc).2.1⟩) hconverter

/-- On a template the pattern finds exactly the parameters. -/
theorem sub_render {pieces : List Piece} (h : WellFormed pieces) :
    sub replace .text (render pieces) = pieces.flatMap fun
      | .char c => [c]
      | .param name converter => replace name converter := by
  induction pieces with
  | nil => rfl
  | cons piece rest ih =>
    have hrest := ih fun p hp => h p (List.mem_cons_of_mem _ hp)
    have hpiece := h piece List.mem_cons_self
    rw [render, List.flatMap_cons, List.flatMap_cons]
    cases piece with
    | char c =>
      have hc : c ≠ '{' := hpiece
      rw [Piece.render, List.singleton_append, sub, if_neg hc]
      exact congrArg (c :: ·) hrest
    | param name converter =>
      rw [Piece.render, sub_token replace _ hpiece]
      exact congrArg (replace name converter ++ ·) hrest

end Scanning

section Templates

theorem rewriteAll_render {pieces : List Piece} (h : WellFormed pieces) :
    rewriteAll (render pieces) = plain pieces := by
  rw [rewriteAll, sub_render _ h, plain]
  rfl

theorem wellFormed_append {p q : List Piece} (hp : WellFormed p) (hq : WellFormed q) :
    WellFormed (p ++ q) := by
  intro piece h
  obtain h | h := List.mem_append.mp h
  · exact hp piece h
  · exact hq piece h

theorem wellFormed_slash {pieces : List Piece} (h : WellFormed pieces) :
    WellFormed (.char '/' :: pieces) :=
  wellFormed_append (p := [.char '/']) (by simp [WellFormed, Piece.WellFormed]) h

theorem render_append (p q : List Piece) : render (p ++ q) = render p ++ render q :=
  List.flatMap_append

theorem plain_append (p q : List Piece) : plain (p ++ q) = plain p ++ plain q := List.flatMap_append

/-- A parameter written out as characters. -/
def expand (parameter : List Char) : Piece → List Piece
  | .char c => [.char c]
  | .param name converter => if name = parameter then (':' :: name).map .char
    else [.param name converter]

theorem render_chars (s : List Char) : render (s.map .char) = s := by
  induction s with
  | nil => rfl
  | cons c s ih => exact congrArg (c :: ·) ih

theorem plain_chars (s : List Char) : plain (s.map .char) = s := by
  induction s with
  | nil => rfl
  | cons c s ih => exact congrArg (c :: ·) ih

/-- Substituting one parameter gives a template that is written the same way in the end. -/
theorem subParameter_render (parameter : List Char) {pieces : List Piece} (h : WellFormed pieces) :
    ∃ pieces', subParameter parameter (render pieces) = render pieces' ∧ WellFormed pieces' ∧
      plain pieces' = plain pieces := by
  refine ⟨pieces.flatMap (expand parameter), ?_, ?_, ?_⟩
  · rw [subParameter, sub_render _ h, render, List.flatMap_assoc]
    congr 1
    funext piece
    cases piece with
    | char c => rfl
    | param name converter =>
      simp only [expand]
      split
      · exact (render_chars _).symm
      · simp [Piece.render]
  · intro piece hpiece
    obtain ⟨original, horiginal, hmem⟩ := List.mem_flatMap.mp hpiece
    have hwell := h original horiginal
    cases original with
    | char c =>
      rw [List.mem_singleton.mp hmem]
      exact hwell
    | param name converter =>
      simp only [expand] at hmem
      split at hmem
      · obtain ⟨c, hc, rfl⟩ := List.mem_map.mp hmem
        obtain rfl | hc := List.mem_cons.mp hc
        · simp [Piece.WellFormed]
        · exact (hwell.2.1 c hc).2.2.1
      · rw [List.mem_singleton.mp hmem]
        exact hwell
  · rw [plain, plain, List.flatMap_assoc]
    congr 1
    funext piece
    cases piece with
    | char c => rfl
    | param name converter =>
      simp only [expand]
      split
      · exact plain_chars _
      · simp [Piece.plain]

theorem parsePathWithParams_render (parameters : List (List Char)) {pieces : List Piece}
    (h : WellFormed pieces) :
    ∃ pieces', parsePathWithParams (render pieces) parameters = render pieces' ∧
      WellFormed pieces' ∧
      plain pieces' = plain pieces := by
  induction parameters generalizing pieces with
  | nil => exact ⟨pieces, rfl, h, rfl⟩
  | cons parameter rest ih =>
    obtain ⟨pieces₁, hsub, hwell₁, hplain₁⟩ := subParameter_render parameter h
    obtain ⟨pieces₂, hparse, hwell₂, hplain₂⟩ := ih hwell₁
    exact ⟨pieces₂, by rw [parsePathWithParams, hsub, hparse], hwell₂, hplain₂.trans hplain₁⟩

end Templates

section Segments

theorem segments_append (p q : List Char) :
    segments (p ++ '/' :: q) = segments p ++ segments q := by
  rw [segments, List.splitOn_append_cons_self, List.filter_append, segments, segments]

theorem segments_slash (p : List Char) : segments ('/' :: p) = segments p := by
  have h := segments_append [] p
  simpa [segments] using h

theorem segments_append_slash (p : List Char) : segments (p ++ ['/']) = segments p := by
  rw [segments_append]
  simp [segments]

theorem segments_single {p : List Char} (hne : p ≠ []) (h : '/' ∉ p) : segments p = [p] := by
  rw [segments, List.splitOn_eq_singleton h]
  simp [hne]

theorem render_head (piece : Piece) (rest : List Piece) :
    ∃ c text, render (piece :: rest) = c :: text ∧ (c = '/' ↔ piece = .char '/') := by
  cases piece with
  | char c => exact ⟨c, render rest, rfl, by simp⟩
  | param name converter =>
    cases converter with
    | none => exact ⟨'{', _, rfl, by simp⟩
    | some text => exact ⟨'{', _, rfl, by simp⟩

theorem render_last (piece : Piece) (rest : List Piece) :
    ∃ text c, render (rest ++ [piece]) = text ++ [c] ∧ (c = '/' ↔ piece = .char '/') := by
  cases piece with
  | char c => exact ⟨render rest, c, by simp [render, Piece.render], by simp⟩
  | param name converter =>
    cases converter with
    | none =>
      exact ⟨render rest ++ '{' :: name, '}', by simp [render, Piece.render, token], by simp⟩
    | some text =>
      exact ⟨render rest ++ '{' :: name ++ ':' :: text, '}',
        by simp [render, Piece.render, token], by simp⟩

theorem render_eq_nil {pieces : List Piece} : render pieces = [] ↔ pieces = [] := by
  cases pieces with
  | nil => simp [render]
  | cons piece rest =>
    obtain ⟨c, text, hrender, -⟩ := render_head piece rest
    simp [hrender]

/-- Leading slashes do not change the segments. -/
theorem dropWhile_render {pieces : List Piece} (h : WellFormed pieces) :
    ∃ pieces', (render pieces).dropWhile (· = '/') = render pieces' ∧ WellFormed pieces' ∧
      segments (plain pieces') = segments (plain pieces) := by
  induction pieces with
  | nil => exact ⟨[], rfl, h, rfl⟩
  | cons piece rest ih =>
    by_cases hslash : piece = .char '/'
    · subst hslash
      obtain ⟨pieces', hdrop, hwell, hsegments⟩ := ih fun p hp => h p (List.mem_cons_of_mem _ hp)
      refine ⟨pieces', ?_, hwell, ?_⟩
      · rw [← hdrop]
        simp [render, Piece.render]
      · rw [hsegments]
        exact (segments_slash _).symm
    · obtain ⟨c, text, hrender, hc⟩ := render_head piece rest
      have hc' : c ≠ '/' := fun heq => hslash (hc.mp heq)
      refine ⟨piece :: rest, ?_, h, rfl⟩
      rw [hrender, List.dropWhile_cons_of_neg (by simpa using hc')]

/-- Nor do trailing ones. -/
theorem rdropWhile_render {pieces : List Piece} (h : WellFormed pieces) :
    ∃ pieces', (render pieces).rdropWhile (· = '/') = render pieces' ∧ WellFormed pieces' ∧
      segments (plain pieces') = segments (plain pieces) := by
  induction pieces using List.reverseRecOn with
  | nil => exact ⟨[], rfl, h, rfl⟩
  | append_singleton rest piece ih =>
    by_cases hslash : piece = .char '/'
    · subst hslash
      obtain ⟨pieces', hdrop, hwell, hsegments⟩ := ih fun p hp => h p (List.mem_append_left _ hp)
      refine ⟨pieces', ?_, hwell, ?_⟩
      · rw [← hdrop, render_append]
        exact List.rdropWhile_concat_pos _ _ _ (by simp)
      · rw [hsegments, plain_append]
        exact (segments_append_slash _).symm
    · obtain ⟨text, c, hrender, hc⟩ := render_last piece rest
      have hc' : c ≠ '/' := fun heq => hslash (hc.mp heq)
      refine ⟨rest ++ [piece], ?_, h, rfl⟩
      rw [hrender, List.rdropWhile_concat_neg _ _ _ (by simpa using hc')]

theorem strip_render {pieces : List Piece} (h : WellFormed pieces) :
    ∃ pieces', strip (render pieces) = render pieces' ∧ WellFormed pieces' ∧
      segments (plain pieces') = segments (plain pieces) := by
  obtain ⟨pieces₁, hdrop, hwell₁, hsegments₁⟩ := dropWhile_render h
  obtain ⟨pieces₂, hrdrop, hwell₂, hsegments₂⟩ := rdropWhile_render hwell₁
  exact ⟨pieces₂, by rw [strip, hdrop, hrdrop], hwell₂, hsegments₂.trans hsegments₁⟩

/-- The path that the writer builds has the segments of the two paths. -/
theorem segments_buildEndpointPath {p q : List Piece} (hp : WellFormed p) (hq : WellFormed q)
    (parameters : List (List Char)) :
    segments (rewriteAll (buildEndpointPath (render p) (render q) parameters)) =
      segments (plain p) ++ segments (plain q) := by
  obtain ⟨p₁, hparse, hwell₁, hplain₁⟩ := parsePathWithParams_render parameters hp
  obtain ⟨p₂, hstrip, hwell₂, hsegments₂⟩ := strip_render hwell₁
  obtain ⟨q₁, hparse', hwell₁', hplain₁'⟩ := parsePathWithParams_render parameters hq
  obtain ⟨q₂, hstrip', hwell₂', hsegments₂'⟩ := strip_render hwell₁'
  rw [← hplain₁, ← hplain₁', ← hsegments₂, ← hsegments₂', buildEndpointPath, hparse, hparse',
    hstrip, hstrip']
  by_cases hp₂ : p₂ = [] <;> by_cases hq₂ : q₂ = []
  · subst hp₂ hq₂
    decide
  · have htext : '/' :: render q₂ = render (.char '/' :: q₂) := rfl
    subst hp₂
    simp only [render_eq_nil, hq₂, if_true, if_false, List.nil_append, List.intercalate_singleton]
    rw [htext, rewriteAll_render (wellFormed_slash hwell₂')]
    exact segments_slash (plain q₂)
  · have htext : '/' :: render p₂ = render (.char '/' :: p₂) := rfl
    subst hq₂
    simp only [render_eq_nil, hp₂, if_true, if_false, List.append_nil, List.intercalate_singleton]
    rw [htext, rewriteAll_render (wellFormed_slash hwell₂)]
    refine (segments_slash (plain p₂)).trans ?_
    simp [plain, segments]
  · have htext :
        '/' :: (render p₂ ++ '/' :: render q₂) = render (.char '/' :: (p₂ ++ .char '/' :: q₂)) := by
      simp [render, Piece.render]
    simp only [render_eq_nil, hp₂, hq₂, if_false, List.singleton_append, List.intercalate_cons_cons,
      List.intercalate_singleton, List.append_assoc]
    rw [htext, rewriteAll_render
      (wellFormed_slash (wellFormed_append hwell₂ (wellFormed_slash hwell₂')))]
    have hplain : plain (.char '/' :: (p₂ ++ .char '/' :: q₂)) =
        '/' :: (plain p₂ ++ '/' :: plain q₂) := by
      simp [plain, Piece.plain]
    rw [hplain, segments_slash, segments_append]

theorem head_buildEndpointPath (controllerPath endpointPath : List Char)
    (parameters : List (List Char)) :
    (buildEndpointPath controllerPath endpointPath parameters).head? = some '/' := rfl

/-- A text that does not begin with a slash has a first segment, and what stands before it
is glued to that. -/
theorem first_segment {s : List Char} (hne : s ≠ []) (h : s.head? ≠ some '/') :
    ∃ first rest, first ≠ [] ∧ ∀ p, '/' ∉ p → segments (p ++ s) = (p ++ first) :: rest := by
  have hfirst : s.takeWhile (· ≠ '/') ≠ [] := by
    cases s with
    | nil => exact absurd rfl hne
    | cons c s =>
      have hc : c ≠ '/' := by simpa using h
      simp [hc]
  have hplain : '/' ∉ s.takeWhile (· ≠ '/') :=
    fun hmem => by simpa using List.mem_takeWhile_imp hmem
  refine ⟨s.takeWhile (· ≠ '/'), segments (s.dropWhile (· ≠ '/')), hfirst, ?_⟩
  intro p hp
  have hglued : segments (p ++ s.takeWhile (· ≠ '/')) = [p ++ s.takeWhile (· ≠ '/')] :=
    segments_single (fun hnil => hfirst (List.append_eq_nil_iff.mp hnil).2)
      (fun hmem => (List.mem_append.mp hmem).elim hp hplain)
  have hsplit : p ++ s = (p ++ s.takeWhile (· ≠ '/')) ++ s.dropWhile (· ≠ '/') := by
    rw [List.append_assoc, List.takeWhile_append_dropWhile]
  rw [hsplit]
  cases hrest : s.dropWhile (· ≠ '/') with
  | nil =>
    rw [List.append_nil, hglued]
    simp [segments]
  | cons c rest =>
    have hc : c = '/' := by
      have hhead := List.head?_dropWhile_not (fun c => decide (c ≠ '/')) s
      rw [hrest] at hhead
      simpa using hhead
    rw [hc, segments_append, segments_slash, hglued, List.singleton_append]

/-- A text that has a slash but does not end with one has a last segment. -/
theorem last_segment {s : List Char} (hmem : '/' ∈ s) (h : s.getLast? ≠ some '/') :
    ∃ before last, s = before ++ '/' :: last ∧ '/' ∉ last ∧ last ≠ [] := by
  obtain ⟨last, before, hsplit, hlast⟩ := List.eq_append_cons_of_mem (List.mem_reverse.mpr hmem)
  have hs : s = before.reverse ++ '/' :: last.reverse := by
    rw [← List.reverse_reverse s, hsplit]
    simp
  refine ⟨before.reverse, last.reverse, hs, by simpa using hlast, ?_⟩
  intro hnil
  rw [hs, hnil] at h
  simp at h

theorem plain_ne_nil {pieces : List Piece} : plain pieces ≠ [] ↔ render pieces ≠ [] := by
  cases pieces with
  | nil => rfl
  | cons piece rest =>
    cases piece with
    | char c => simp [plain, render, Piece.plain, Piece.render]
    | param name converter =>
      cases converter <;> simp [plain, render, Piece.plain, Piece.render, token]

theorem plain_head {pieces : List Piece} :
    (plain pieces).head? = some '/' ↔ (render pieces).head? = some '/' := by
  cases pieces with
  | nil => rfl
  | cons piece rest =>
    cases piece with
    | char c => simp [plain, render, Piece.plain, Piece.render]
    | param name converter =>
      cases converter <;> simp [plain, render, Piece.plain, Piece.render, token]

/-- A template that does not end with a slash has no slash at the end of its plain text. -/
theorem plain_last {pieces : List Piece} (h : WellFormed pieces)
    (hlast : (render pieces).getLast? ≠ some '/') :
    (plain pieces).getLast? ≠ some '/' := by
  induction pieces using List.reverseRecOn with
  | nil => simp [plain]
  | append_singleton rest piece _ =>
    cases piece with
    | char c => simpa [plain, render, Piece.plain, Piece.render] using hlast
    | param name converter =>
      obtain ⟨hne, hchars, -⟩ := h (.param name converter) (by simp)
      have hlast : (plain [.param name converter]).getLast? = name.getLast? := by
        cases name with
        | nil => exact absurd rfl hne
        | cons c name => simp [plain, Piece.plain]
      intro heq
      rw [plain_append, List.getLast?_append_of_ne_nil _ (by simp [plain, Piece.plain]),
        hlast] at heq
      exact (hchars '/' (List.mem_of_getLast? heq)).2.2.2 rfl

theorem segments_joined (p : List Piece) {l : List Piece}
    (h : render l = [] ∨ (render l).head? = some '/') :
    segments (plain p ++ plain l) = segments (plain p) ++ segments (plain l) := by
  obtain h | h := h
  · rw [render_eq_nil.mp h]
    simp [plain, segments]
  · obtain ⟨rest, hrest⟩ := List.head?_eq_some_iff.mp (plain_head.mpr h)
    rw [hrest, segments_append, segments_slash]

theorem head_joined {p l : List Piece}
    (hbase : render p = [] ∨ ((render p).head? = some '/' ∧ (render p).getLast? ≠ some '/'))
    (h : render l = [] ∨ (render l).head? = some '/') (hne : segments (plain p ++ plain l) ≠ []) :
    (render p ++ render l).head? = some '/' := by
  obtain hp | ⟨hp, -⟩ := hbase
  · obtain hl | hl := h
    · rw [render_eq_nil.mp hp, render_eq_nil.mp hl] at hne
      exact absurd rfl hne
    · rw [hp]
      exact hl
  · obtain ⟨rest, hrest⟩ := List.head?_eq_some_iff.mp hp
    rw [hrest]
    rfl

/-- A path without a slash before it is glued to the prefix. -/
theorem segments_glued {p l : List Piece} (hp : WellFormed p)
    (hbase : (render p).head? = some '/' ∧ (render p).getLast? ≠ some '/')
    (hne : render l ≠ []) (hhead : (render l).head? ≠ some '/') (f : List (List Char)) :
    segments (plain p) ++ f ≠ segments (plain p ++ plain l) := by
  have hmem : '/' ∈ plain p := List.mem_of_head? (plain_head.mpr hbase.1)
  obtain ⟨before, last, hsplit, hlast, hlast_ne⟩ := last_segment hmem (plain_last hp hbase.2)
  obtain ⟨first, rest, hfirst, hglue⟩ :=
    first_segment (plain_ne_nil.mpr hne) (fun h => hhead (plain_head.mp h))
  intro heq
  rw [hsplit, List.append_assoc, List.cons_append, segments_append, segments_append,
    hglue last hlast,
    segments_single hlast_ne hlast, List.append_assoc] at heq
  have hcons := List.append_cancel_left heq
  rw [List.singleton_append, List.cons.injEq] at hcons
  exact hfirst (by simpa using hcons.1.symm)

/-- What the two ways of joining have in common: the server's path begins with a slash
after the prefix, and the writer's mapping has the same segments. -/
theorem canonical_eq_iff {p f l : List Piece} (hp : WellFormed p) (hf : WellFormed f)
    (hl : WellFormed l)
    (hbase : render p = [] ∨ ((render p).head? = some '/' ∧ (render p).getLast? ≠ some '/'))
    (parameters : List (List Char)) :
    canonical (buildEndpointPath (render p) (render f) parameters) =
      canonical (render p ++ render l) ↔
      (render l = [] ∨ (render l).head? = some '/') ∧ segments (plain f) = segments (plain l) := by
  have hserver : rewriteAll (render p ++ render l) = plain p ++ plain l := by
    rw [← render_append, rewriteAll_render (wellFormed_append hp hl), plain_append]
  rw [canonical, canonical, segments_buildEndpointPath hp hf, head_buildEndpointPath, hserver,
    Prod.mk.injEq]
  by_cases hshape : render l = [] ∨ (render l).head? = some '/'
  · have hsegments := segments_joined p hshape
    have hhead : segments (plain p ++ plain l) ≠ [] → (render p ++ render l).head? = some '/' :=
      head_joined hbase hshape
    simp only [hshape, true_and, hsegments, List.append_cancel_left_eq]
    constructor
    · rintro ⟨-, h⟩
      exact h
    · intro h
      refine ⟨?_, h⟩
      rw [h]
      rw [hsegments] at hhead
      simp only [decide_eq_decide]
      exact ⟨fun hne => ⟨hhead hne, hne⟩, fun hne => hne.2⟩
  · simp only [hshape, false_and, iff_false]
    push Not at hshape
    rintro ⟨hflag, heq⟩
    obtain hempty | hbase := hbase
    · obtain ⟨first, rest, -, hfirst⟩ :=
        first_segment (plain_ne_nil.mpr hshape.1) fun h => hshape.2 (plain_head.mp h)
      have hne : segments (plain p ++ plain l) ≠ [] := by
        have hsegments := hfirst [] (by simp)
        rw [render_eq_nil.mp hempty]
        exact hsegments.symm ▸ List.cons_ne_nil _ _
      rw [heq, hempty, List.nil_append] at hflag
      simp [hne, hshape.2] at hflag
    · exact segments_glued hp hbase hshape.1 hshape.2 _ heq

end Segments

end PathTemplates
