import Mathlib.Data.List.Basic
import Mathlib.Tactic.Common
import Jararaca.TypeScriptTypes

/-!
# The text of a TypeScript type

The text that `get_field_type_for_ts` returns, and a reader of TypeScript types: a scanner
that knows words, numbers, strings and line comments, and a parser over its tokens. A text
without the comment of a set and without a line break in a string is read back as the one
type it was written for, whatever follows it.
-/
namespace TypeScriptText

open TypeScriptTypes

def isWordStart (c : Char) : Bool := c.isAlpha || c == '_' || c == '$' || decide (127 < c.toNat)

def isWordChar (c : Char) : Bool := isWordStart c || c.isDigit

def isPunctuation (c : Char) : Bool :=
  ['<', '>', '[', ']', '{', '}', '(', ')', ',', ':', ';', '|', '.', '-', '=', '?', '&'].contains c

def isBreak (c : Char) : Bool := c == '\n' || c == '\r'

def escape (value : List Char) : List Char :=
  (value.flatMap fun c => if c = '\\' then ['\\', '\\'] else [c]).flatMap fun c =>
    if c = '"' then ['\\', '"'] else [c]

def arrayOpen : List Char := ['A', 'r', 'r', 'a', 'y', '<']

def setClose : List Char := ['>', ' ', '/', '/', ' ', 'S', 'e', 't']

def keyWord : List Char := ['k', 'e', 'y']

def typeofWord : List Char := ['t', 'y', 'p', 'e', 'o', 'f']

mutual

def atomText : Atom → List Char
  | .name n => n.toList
  | .app n args => n.toList ++ '<' :: typesText args ++ ['>']
  | .setOf element => arrayOpen ++ typeText element ++ setClose
  | .tuple elements => '[' :: typesText elements ++ [']']
  | .index key value =>
    '{' :: '[' :: keyWord ++ ':' :: ' ' :: typeText key ++ ']' :: ':' :: ' ' ::
      typeText value ++ ['}']
  | .str value => '"' :: escape value.toList ++ ['"']
  | .num text => text.toList
  | .member enum name => enum.toList ++ '.' :: name.toList
  | .typeofMember enum name => typeofWord ++ ' ' :: enum.toList ++ '.' :: name.toList

def typeText : List Atom → List Char
  | [] => []
  | [a] => atomText a
  | a :: b :: rest => atomText a ++ ' ' :: '|' :: ' ' :: typeText (b :: rest)

def typesText : List (List Atom) → List Char
  | [] => []
  | [t] => typeText t
  | t :: u :: rest => typeText t ++ ',' :: ' ' :: typesText (u :: rest)

end

inductive Token where
  | word (chars : List Char)
  | number (chars : List Char)
  | str (chars : List Char)
  | punct (c : Char)
  | bad
  deriving DecidableEq, Repr

/-- What the scanner is in the middle of; characters are collected in reverse. The exponent of a
number may begin with a sign. -/
inductive Mode where
  | start
  | word (chars : List Char)
  | number (chars : List Char)
  | exponent (chars : List Char)
  | str (chars : List Char)
  | escaped (chars : List Char)
  | slash
  | comment
  deriving DecidableEq, Repr

/-- A character between tokens. -/
def begin (c : Char) : List Token × Mode :=
  if c.isWhitespace then ([], .start)
  else if isWordStart c then ([], .word [c])
  else if c.isDigit then ([], .number [c])
  else if c = '"' then ([], .str [])
  else if c = '/' then ([], .slash)
  else if isPunctuation c then ([.punct c], .start)
  else ([.bad], .start)

/-- The character behind a backslash; codes of characters are not read. -/
def unescape (c : Char) : Option Char :=
  if c = 'n' then some '\n' else if c = 't' then some '\t' else if c = 'r' then some '\r'
  else if c = 'x' ∨ c = 'u' ∨ c.isDigit ∨ isBreak c then none else some c

def scan : Mode → List Char → List Token
  | .start, [] => []
  | .word chars, [] => [.word chars.reverse]
  | .number chars, [] => [.number chars.reverse]
  | .exponent chars, [] => [.number chars.reverse]
  | .comment, [] => []
  | .str _, [] => [.bad]
  | .escaped _, [] => [.bad]
  | .slash, [] => [.bad]
  | .start, c :: cs => (begin c).1 ++ scan (begin c).2 cs
  | .word chars, c :: cs =>
    if isWordChar c then scan (.word (c :: chars)) cs
    else .word chars.reverse :: ((begin c).1 ++ scan (begin c).2 cs)
  | .number chars, c :: cs =>
    if c = 'e' then scan (.exponent (c :: chars)) cs
    else if isWordChar c || c == '.' then scan (.number (c :: chars)) cs
    else .number chars.reverse :: ((begin c).1 ++ scan (begin c).2 cs)
  | .exponent chars, c :: cs =>
    if isWordChar c || c == '+' || c == '-' then scan (.number (c :: chars)) cs
    else .number chars.reverse :: ((begin c).1 ++ scan (begin c).2 cs)
  | .str chars, c :: cs =>
    if c = '"' then .str chars.reverse :: scan .start cs
    else if c = '\\' then scan (.escaped chars) cs
    else if isBreak c then [.bad]
    else scan (.str (c :: chars)) cs
  | .escaped chars, c :: cs =>
    match unescape c with
    | some d => scan (.str (d :: chars)) cs
    | none => [.bad]
  | .slash, c :: cs => if c = '/' then scan .comment cs else [.bad]
  | .comment, c :: cs => if isBreak c then scan .start cs else scan .comment cs

/-- A comment ends with its line. -/
example (c : Char) (cs : List Char) (h : isBreak c = true) :
    scan .comment (c :: cs) = scan .start cs := by
  simp [scan, h]

mutual

/-- A type: alternatives between bars. -/
def parseType : Nat → List Token → Option (Ts × List Token)
  | 0, _ => none
  | fuel + 1, toks =>
    match parseAtom fuel toks with
    | some (a, .punct '|' :: rest) => (parseType fuel rest).map fun r => (a :: r.1, r.2)
    | some (a, rest) => some ([a], rest)
    | none => none

def parseAtom : Nat → List Token → Option (Atom × List Token)
  | 0, _ => none
  | _ + 1, .str s :: toks => some (.str (String.ofList s), toks)
  | _ + 1, .number n :: toks => some (.num (String.ofList n), toks)
  | _ + 1, .punct '-' :: .number n :: toks => some (.num (String.ofList ('-' :: n)), toks)
  | fuel + 1, .punct '[' :: toks =>
    if toks.head? = some (.punct ']') then some (.tuple [], toks.tail)
    else (parseTypes ']' fuel toks).map fun r => (.tuple r.1, r.2)
  | fuel + 1, .punct '{' :: .punct '[' :: .word _ :: .punct ':' :: toks =>
    match parseType fuel toks with
    | some (key, .punct ']' :: .punct ':' :: toks) =>
      match parseType fuel toks with
      | some (value, .punct '}' :: toks) => some (.index key value, toks)
      | _ => none
    | _ => none
  | fuel + 1, .word n :: toks =>
    if n = typeofWord then
      match toks with
      | .word enum :: .punct '.' :: .word name :: toks =>
        some (.typeofMember (String.ofList enum) (String.ofList name), toks)
      | _ => none
    else
      match toks with
      | .punct '<' :: toks =>
        (parseTypes '>' fuel toks).map fun r => (.app (String.ofList n) r.1, r.2)
      | .punct '.' :: .word name :: toks =>
        some (.member (String.ofList n) (String.ofList name), toks)
      | toks => some (.name (String.ofList n), toks)
  | _ + 1, _ => none

def parseTypes (close : Char) : Nat → List Token → Option (List Ts × List Token)
  | 0, _ => none
  | fuel + 1, toks =>
    match parseType fuel toks with
    | some (t, .punct c :: rest) =>
      if c = close then some ([t], rest)
      else if c = ',' then (parseTypes close fuel rest).map fun r => (t :: r.1, r.2)
      else none
    | _ => none

end

section Scanner

/-- What follows a word without being part of it. -/
def Breaks (rest : List Char) : Prop := ∀ c r, rest = c :: r → isWordChar c = false

/-- What follows a number without being part of it. -/
def Ends (rest : List Char) : Prop := Breaks rest ∧ ∀ r, rest ≠ '.' :: r

theorem breaks_cons {c : Char} {r : List Char} (h : isWordChar c = false) : Breaks (c :: r) := by
  intro d s hd
  cases hd
  exact h

/-- A character that is a token and ends a word. -/
def isMark (c : Char) : Bool :=
  isPunctuation c && !(c.isWhitespace || isWordChar c || c == '"' || c == '/')

theorem scan_mark {c : Char} {rest : List Char} (h : isMark c = true) :
    scan .start (c :: rest) = .punct c :: scan .start rest := by
  simp only [isMark, isWordChar, Bool.and_eq_true, Bool.not_eq_true', Bool.or_eq_false_iff,
    beq_eq_false_iff_ne] at h
  obtain ⟨hpunct, ⟨⟨hspace, hstart, hdigit⟩, hquote⟩, hslash⟩ := h
  simp [scan, begin, hspace, hstart, hdigit, hquote, hslash, hpunct]

theorem breaks_mark {c : Char} {rest : List Char} (h : isMark c = true) : Breaks (c :: rest) := by
  simp only [isMark, Bool.and_eq_true, Bool.not_eq_true', Bool.or_eq_false_iff] at h
  exact breaks_cons h.2.1.1.2

theorem ends_mark {c : Char} {rest : List Char} (h : isMark c = true ∧ c ≠ '.') :
    Ends (c :: rest) :=
  ⟨breaks_mark h.1, fun _ hr => h.2 (List.cons.inj hr).1⟩

theorem scan_space (rest : List Char) : scan .start (' ' :: rest) = scan .start rest := by
  have hspace : (' ' : Char).isWhitespace = true := by decide
  simp [scan, begin, hspace]

theorem scan_word_break {chars rest : List Char} (h : Breaks rest) :
    scan (.word chars) rest = .word chars.reverse :: scan .start rest := by
  cases rest with
  | nil => rfl
  | cons c rest => simp [scan, h c rest rfl]

theorem scan_number_break {chars rest : List Char} (h : Ends rest) :
    scan (.number chars) rest = .number chars.reverse :: scan .start rest := by
  cases rest with
  | nil => rfl
  | cons c rest =>
    have hword := h.1 c rest rfl
    have hpoint : c ≠ '.' := by
      rintro rfl
      exact h.2 rest rfl
    have hexponent : c ≠ 'e' := by
      rintro rfl
      exact absurd hword (by decide)
    simp [scan, hword, hpoint, hexponent]

theorem scan_word_chars {cs chars rest : List Char} (hcs : ∀ c ∈ cs, isWordChar c = true)
    (h : Breaks rest) :
    scan (.word chars) (cs ++ rest) = .word (chars.reverse ++ cs) :: scan .start rest := by
  induction cs generalizing chars with
  | nil => simpa using scan_word_break h
  | cons c cs ih =>
    rw [List.forall_mem_cons] at hcs
    rw [List.cons_append, scan, if_pos hcs.1, ih hcs.2]
    simp

/-- A name that TypeScript reads as one word. -/
def isWord : List Char → Bool
  | [] => false
  | c :: cs =>
    isWordStart c && !c.isWhitespace && cs.all isWordChar && decide (c :: cs ≠ typeofWord)

abbrev IsWord (chars : List Char) : Prop := isWord chars = true

theorem IsWord.ne_typeof {chars : List Char} (h : IsWord chars) : chars ≠ typeofWord := by
  rintro rfl
  exact absurd h (by decide)

theorem scan_word {chars rest : List Char} (hchars : IsWord chars) (h : Breaks rest) :
    scan .start (chars ++ rest) = .word chars :: scan .start rest := by
  cases chars with
  | nil => cases hchars
  | cons c cs =>
    simp only [IsWord, isWord, Bool.and_eq_true, Bool.not_eq_true', List.all_eq_true] at hchars
    obtain ⟨⟨⟨hstart, hspace⟩, hcs⟩, -⟩ := hchars
    have hbegin : begin c = ([], .word [c]) := by simp [begin, hspace, hstart]
    rw [List.cons_append, scan, hbegin, List.nil_append, scan_word_chars hcs h]
    rfl

theorem scan_typeof (rest : List Char) :
    scan .start (typeofWord ++ ' ' :: rest) = .word typeofWord :: scan .start rest := by
  have hbegin : begin 't' = ([], .word ['t']) := by decide
  rw [typeofWord, List.cons_append, scan, hbegin, List.nil_append,
    scan_word_chars (List.all_eq_true.1 (by decide)) (breaks_cons (by decide)), scan_space]
  rfl

theorem escape_cons (c : Char) (cs : List Char) : escape (c :: cs) =
    (if c = '\\' then ['\\', '\\'] else if c = '"' then ['\\', '"'] else [c]) ++ escape cs := by
  by_cases hback : c = '\\'
  · simp [escape, hback]
  · by_cases hquote : c = '"'
    · simp [escape, hquote]
    · simp [escape, hback, hquote]

/-- A string is read back, if no line ends in it. -/
theorem scan_string {cs chars rest : List Char} (hcs : ∀ c ∈ cs, isBreak c = false) :
    scan (.str chars) (escape cs ++ '"' :: rest) =
      .str (chars.reverse ++ cs) :: scan .start rest := by
  induction cs generalizing chars with
  | nil => simp [escape, scan]
  | cons c cs ih =>
    rw [List.forall_mem_cons] at hcs
    rw [escape_cons]
    by_cases hback : c = '\\'
    · have hescape : unescape '\\' = some '\\' := by decide
      simp [hback, scan, hescape, ih hcs.2]
    · by_cases hquote : c = '"'
      · have hescape : unescape '"' = some '"' := by decide
        simp [hquote, scan, hescape, ih hcs.2]
      · simp [hback, hquote, scan, hcs.1, ih hcs.2]

end Scanner

/-- At least one digit. -/
def IsDigits (text : List Char) : Prop := text ≠ [] ∧ ∀ c ∈ text, c.isDigit = true

/-- Digits with or without a fraction and an exponent, as Python writes integers and finite
floats. -/
def IsUnsigned (text : List Char) : Prop :=
  ∃ whole fraction exponent, text = whole ++ fraction ++ exponent ∧ IsDigits whole ∧
    (fraction = [] ∨ ∃ ds, fraction = '.' :: ds ∧ IsDigits ds) ∧
    (exponent = [] ∨ ∃ sign ds,
      exponent = 'e' :: sign ++ ds ∧ sign ∈ [[], ['+'], ['-']] ∧ IsDigits ds)

/-- The number after a minus sign or not. -/
def IsNumber (text : List Char) : Prop := IsUnsigned text ∨ ∃ u, text = '-' :: u ∧ IsUnsigned u

mutual

/-- No set, no line break in a string, and names and numbers as TypeScript reads them. -/
def CleanAtom : Atom → Prop
  | .name n => IsWord n.toList
  | .app n args => IsWord n.toList ∧ args ≠ [] ∧ CleanTypes args
  | .setOf _ => False
  | .tuple elements => CleanTypes elements
  | .index key value => CleanType key ∧ CleanType value
  | .str value => ∀ c ∈ value.toList, isBreak c = false
  | .num text => IsNumber text.toList
  | .member enum name => IsWord enum.toList ∧ IsWord name.toList
  | .typeofMember enum name => IsWord enum.toList ∧ IsWord name.toList

def CleanType : List Atom → Prop
  | [] => False
  | [a] => CleanAtom a
  | a :: b :: rest => CleanAtom a ∧ CleanType (b :: rest)

def CleanTypes : List (List Atom) → Prop
  | [] => True
  | t :: rest => CleanType t ∧ CleanTypes rest

end

def numberTokens : List Char → List Token
  | '-' :: ds => [.punct '-', .number ds]
  | ds => [.number ds]

mutual

/-- The tokens of a type. -/
def atomTokens : Atom → List Token
  | .name n => [.word n.toList]
  | .app n args => .word n.toList :: .punct '<' :: typesTokens '>' args
  | .setOf element =>
    Token.word ['A', 'r', 'r', 'a', 'y'] :: .punct '<' :: (typeTokens element ++ [.punct '>'])
  | .tuple elements => .punct '[' :: typesTokens ']' elements
  | .index key value =>
    .punct '{' :: .punct '[' :: .word keyWord :: .punct ':' ::
      (typeTokens key ++ .punct ']' :: .punct ':' :: (typeTokens value ++ [.punct '}']))
  | .str value => [.str value.toList]
  | .num text => numberTokens text.toList
  | .member enum name => [.word enum.toList, .punct '.', .word name.toList]
  | .typeofMember enum name => [.word typeofWord, .word enum.toList, .punct '.', .word name.toList]

def typeTokens : List Atom → List Token
  | [] => []
  | [a] => atomTokens a
  | a :: b :: rest => atomTokens a ++ .punct '|' :: typeTokens (b :: rest)

/-- The closing character included. -/
def typesTokens (close : Char) : List (List Atom) → List Token
  | [] => [.punct close]
  | [t] => typeTokens t ++ [.punct close]
  | t :: u :: rest => typeTokens t ++ .punct ',' :: typesTokens close (u :: rest)

end

theorem digit_isWordChar {c : Char} (h : c.isDigit = true) :
    isWordChar c = true := by simp [isWordChar, h]

theorem digit_isWordStart {c : Char} (h : c.isDigit = true) : isWordStart c = false := by
  have hrange : 48 ≤ c.toNat ∧ c.toNat ≤ 57 := by
    simp only [Char.isDigit, Bool.and_eq_true, decide_eq_true_eq, UInt32.le_iff_toNat_le] at h
    exact h
  have hne (d : Char) (hd : 57 < d.toNat ∨ d.toNat < 48) : c ≠ d := by
    rintro rfl
    omega
  have halpha : c.isAlpha = false := by
    have hval : c.val.toNat = c.toNat := rfl
    have hcases : c.isAlpha =
        (decide (c.val ≥ 'A'.val ∧
          c.val ≤ 'Z'.val) || (decide (c.val ≥ 'a'.val) && decide (c.val ≤ 'z'.val))) := rfl
    simp only [hcases, Bool.or_eq_false_iff, Bool.and_eq_false_iff, decide_eq_false_iff_not,
      UInt32.le_iff_toNat_le,
      ge_iff_le, hval]
    simp
    omega
  simp [isWordStart, halpha, hne '_' (by decide), hne '$' (by decide)]
  omega

theorem digit_begin {c : Char} (h : c.isDigit = true) : begin c = ([], .number [c]) := by
  have hspace : c.isWhitespace = false := by
    by_contra hspace
    simp only [Char.isWhitespace, Bool.not_eq_false, Bool.or_eq_true, decide_eq_true_eq] at hspace
    rcases hspace with ((rfl | rfl) | rfl) | rfl <;> exact absurd h (by decide)
  simp [begin, hspace, digit_isWordStart h, h]

theorem digit_continues {c : Char} (h : c.isDigit = true) (chars rest : List Char) :
    scan (.number chars) (c :: rest) = scan (.number (c :: chars)) rest := by
  have hexponent : c ≠ 'e' := by
    rintro rfl
    exact absurd h (by decide)
  simp [scan, hexponent, digit_isWordChar h]

theorem scan_digits {ds : List Char} (hds : ∀ c ∈ ds, c.isDigit = true) (chars rest : List Char) :
    scan (.number chars) (ds ++ rest) = scan (.number (ds.reverse ++ chars)) rest := by
  induction ds generalizing chars with
  | nil => rfl
  | cons c ds ih =>
    rw [List.forall_mem_cons] at hds
    rw [List.cons_append, digit_continues hds.1, ih hds.2, List.reverse_cons, List.append_assoc,
      List.singleton_append]

theorem scan_fraction {fraction : List Char}
    (h : fraction = [] ∨ ∃ ds, fraction = '.' :: ds ∧ IsDigits ds)
    (chars rest : List Char) :
    scan (.number chars) (fraction ++ rest) = scan (.number (fraction.reverse ++ chars)) rest := by
  obtain rfl | ⟨ds, rfl, -, hds⟩ := h
  · rfl
  · have hpoint : scan (.number chars) ('.' :: (ds ++ rest)) = scan (.number ('.' :: chars))
      (ds ++ rest) := by
      simp [scan]
    rw [List.cons_append, hpoint, scan_digits hds, List.reverse_cons, List.append_assoc,
      List.singleton_append]

/-- A sign is part of the exponent. -/
theorem scan_exponent {exponent : List Char}
    (h : exponent = [] ∨ ∃ sign ds,
      exponent = 'e' :: sign ++ ds ∧ sign ∈ [[], ['+'], ['-']] ∧ IsDigits ds)
    (chars rest : List Char) :
    scan (.number chars) (exponent ++ rest) = scan (.number (exponent.reverse ++ chars)) rest := by
  obtain rfl | ⟨sign, ds, rfl, hsign, hne, hds⟩ := h
  · rfl
  · have hopens : scan (.number chars) ('e' :: (sign ++ (ds ++ rest))) =
        scan (.exponent ('e' :: chars)) (sign ++ (ds ++ rest)) := by
      rw [scan, if_pos rfl]
    have hfirst : scan (.exponent ('e' :: chars)) (sign ++ (ds ++ rest)) =
        scan (.number (sign.reverse ++ 'e' :: chars)) (ds ++ rest) := by
      simp only [List.mem_cons, List.not_mem_nil, or_false] at hsign
      rcases hsign with rfl | rfl | rfl
      · -- without a sign the first digit stands there
        cases ds with
        | nil => exact absurd rfl hne
        | cons d ds =>
          have hd := hds d List.mem_cons_self
          rw [List.nil_append, List.cons_append, digit_continues hd]
          simp [scan, digit_isWordChar hd]
      · simp [scan]
      · simp [scan]
    rw [List.append_assoc, List.cons_append, hopens, hfirst, scan_digits hds]
    simp

theorem IsUnsigned.head {text : List Char} (h : IsUnsigned text) :
    ∃ d ds, text = d :: ds ∧ d.isDigit = true := by
  obtain ⟨whole, fraction, exponent, rfl, ⟨hne, hdigits⟩, -, -⟩ := h
  cases whole with
  | nil => exact absurd rfl hne
  | cons d ds => exact ⟨d, ds ++ fraction ++ exponent, rfl, hdigits d List.mem_cons_self⟩

/-- A number without sign is one token. -/
theorem IsUnsigned.tokens {text : List Char} (h : IsUnsigned text) :
    numberTokens text = [.number text] := by
  obtain ⟨d, ds, rfl, hd⟩ := h.head
  have hminus : d ≠ '-' := by
    rintro rfl
    exact absurd hd (by decide)
  simp [numberTokens, hminus]

theorem scan_unsigned {text rest : List Char} (htext : IsUnsigned text) (h : Ends rest) :
    scan .start (text ++ rest) = .number text :: scan .start rest := by
  obtain ⟨whole, fraction, exponent, rfl, ⟨hne, hdigits⟩, hfraction, hexponent⟩ := htext
  cases whole with
  | nil => exact absurd rfl hne
  | cons d ds =>
    rw [List.forall_mem_cons] at hdigits
    simp only [List.append_assoc, List.cons_append]
    rw [scan, digit_begin hdigits.1, List.nil_append, scan_digits hdigits.2,
      scan_fraction hfraction,
      scan_exponent hexponent, scan_number_break h]
    simp

theorem scan_number {text rest : List Char} (htext : IsNumber text) (h : Ends rest) :
    scan .start (text ++ rest) = numberTokens text ++ scan .start rest := by
  rcases htext with htext | ⟨u, rfl, hu⟩
  · rw [scan_unsigned htext h, htext.tokens, List.singleton_append]
  · rw [List.cons_append, scan_mark (by decide), scan_unsigned hu h]
    rfl

mutual

/-- The text of a clean type is scanned to its tokens. -/
theorem scan_atom : ∀ (a : Atom) {rest : List Char}, CleanAtom a → Ends rest →
    scan .start (atomText a ++ rest) = atomTokens a ++ scan .start rest
  | .name n, rest, ha, h => by
    simp only [CleanAtom] at ha
    simp only [atomText, atomTokens, scan_word ha h.1, List.cons_append, List.nil_append]
  | .app n args, rest, ha, h => by
    simp only [CleanAtom] at ha
    simp only [atomText, atomTokens, List.append_assoc, List.cons_append, List.nil_append]
    rw [scan_word ha.1 (breaks_mark (by decide)), scan_mark (by decide),
      scan_types '>' args ha.2.2 (by decide)]
  | .setOf _, rest, ha, h => by simp [CleanAtom] at ha
  | .tuple elements, rest, ha, h => by
    simp only [CleanAtom] at ha
    simp only [atomText, atomTokens, List.append_assoc, List.cons_append, List.nil_append]
    rw [scan_mark (by decide), scan_types ']' elements ha (by decide)]
  | .index key value, rest, ha, h => by
    simp only [CleanAtom] at ha
    have hkey : IsWord keyWord := by decide
    simp only [atomText, atomTokens, List.append_assoc, List.cons_append, List.nil_append]
    rw [scan_mark (by decide), scan_mark (by decide), scan_word hkey (breaks_mark (by decide)),
      scan_mark (by decide),
      scan_space, scan_type key ha.1 (ends_mark (by decide)), scan_mark (by decide),
        scan_mark (by decide),
      scan_space, scan_type value ha.2 (ends_mark (by decide)), scan_mark (by decide)]
  | .str value, rest, ha, h => by
    simp only [CleanAtom] at ha
    have hbegin : begin '"' = ([], .str []) := by decide
    simp only [atomText, atomTokens, List.cons_append, List.append_assoc, List.nil_append]
    rw [scan, hbegin, List.nil_append, scan_string ha]
    rfl
  | .num text, rest, ha, h => by
    simp only [CleanAtom] at ha
    simp only [atomText, atomTokens, scan_number ha h]
  | .member enum name, rest, ha, h => by
    simp only [CleanAtom] at ha
    simp only [atomText, atomTokens, List.append_assoc, List.cons_append, List.nil_append]
    rw [scan_word ha.1 (breaks_mark (by decide)), scan_mark (by decide), scan_word ha.2 h.1]
  | .typeofMember enum name, rest, ha, h => by
    simp only [CleanAtom] at ha
    simp only [atomText, atomTokens, List.append_assoc, List.cons_append, List.nil_append]
    rw [scan_typeof, scan_word ha.1 (breaks_mark (by decide)), scan_mark (by decide),
      scan_word ha.2 h.1]

theorem scan_type : ∀ (t : Ts) {rest : List Char}, CleanType t → Ends rest →
    scan .start (typeText t ++ rest) = typeTokens t ++ scan .start rest
  | [], rest, ht, h => by simp [CleanType] at ht
  | [a], rest, ht, h => by
    simp only [CleanType] at ht
    simp only [typeText, typeTokens, scan_atom a ht h]
  | a :: b :: t, rest, ht, h => by
    simp only [CleanType] at ht
    simp only [typeText, typeTokens, List.append_assoc, List.cons_append]
    rw [scan_atom a ht.1 ⟨breaks_cons (by decide), by simp⟩, scan_space,
      scan_mark (by decide), scan_space,
      scan_type (b :: t) ht.2 h]

theorem scan_types (close : Char) :
    ∀ (ts : List Ts) {rest : List Char}, CleanTypes ts → isMark close = true ∧ close ≠ '.' →
    scan .start (typesText ts ++ close :: rest) = typesTokens close ts ++ scan .start rest
  | [], rest, ht, hclose => by simp [typesText, typesTokens, scan_mark hclose.1]
  | [t], rest, ht, hclose => by
    simp only [CleanTypes] at ht
    simp only [typesText, typesTokens, List.append_assoc, List.cons_append, List.nil_append]
    rw [scan_type t ht.1 (ends_mark hclose), scan_mark hclose.1]
  | t :: u :: ts, rest, ht, hclose => by
    simp only [CleanTypes] at ht
    simp only [typesText, typesTokens, List.append_assoc, List.cons_append]
    rw [scan_type t ht.1 (ends_mark (by decide)), scan_mark (by decide), scan_space,
      scan_types close (u :: ts) (by simpa only [CleanTypes] using ht.2) hclose]

end

mutual

/-- How deep the parser goes into a type. -/
def atomSize : Atom → Nat
  | .app _ args => 1 + typesSize args
  | .tuple elements => 1 + typesSize elements
  | .index key value => 1 + typeSize key + typeSize value
  | _ => 1

def typeSize : List Atom → Nat
  | [] => 0
  | a :: rest => 1 + atomSize a + typeSize rest

def typesSize : List (List Atom) → Nat
  | [] => 0
  | t :: rest => 1 + typeSize t + typesSize rest

end

/-- Tokens that cannot belong to the alternative before them. -/
def EndsAtom (toks : List Token) : Prop :=
  ∀ rest, toks ≠ .punct '<' :: rest ∧ toks ≠ .punct '.' :: rest

/-- Tokens that cannot belong to the type before them. -/
def EndsType (toks : List Token) : Prop := EndsAtom toks ∧ ∀ rest, toks ≠ .punct '|' :: rest

theorem endsType_cons {c : Char} {rest : List Token} (h : c ≠ '<' ∧ c ≠ '.' ∧ c ≠ '|') :
    EndsType (.punct c :: rest) := by
  refine ⟨fun toks => ⟨fun heq => h.1 ?_, fun heq => h.2.1 ?_⟩,
    fun toks heq => h.2.2 ?_⟩ <;> cases heq <;> rfl

theorem parse_word {n : List Char} (hn : n ≠ typeofWord) {toks : List Token} (htoks : EndsAtom toks)
    (fuel : Nat) :
    parseAtom (fuel + 1) (.word n :: toks) = some (.name (String.ofList n), toks) := by
  simp only [parseAtom, if_neg hn]
  split
  · exact absurd rfl (htoks _).1
  · exact absurd rfl (htoks _).2
  · rfl

theorem parse_number {text : List Char} (htext : IsNumber text) (toks : List Token) (fuel : Nat) :
    parseAtom (fuel + 1) (numberTokens text ++ toks) = some (.num (String.ofList text), toks) := by
  rcases htext with htext | ⟨u, rfl, hu⟩
  · rw [htext.tokens]
    rfl
  · rfl

/-- A clean type does not begin with a closing bracket. -/
theorem atomTokens_head {a : Atom} (ha : CleanAtom a) :
    ∃ k rest, atomTokens a = k :: rest ∧ k ≠ .punct ']' := by
  cases a with
  | num text =>
    simp only [CleanAtom] at ha
    simp only [atomTokens]
    rcases ha with hunsigned | ⟨u, htext, -⟩
    · exact ⟨.number text.toList, [], hunsigned.tokens, by simp⟩
    · exact ⟨.punct '-', [.number u], by simp [htext, numberTokens], by simp⟩
  | setOf element => simp [CleanAtom] at ha
  | _ =>
    rw [atomTokens]
    exact ⟨_, _, rfl, by simp⟩

theorem typesTokens_head {t : Ts} {ts : List Ts} (ht : CleanType t) (close : Char) :
    ∃ k rest, typesTokens close (t :: ts) = k :: rest ∧ k ≠ .punct ']' := by
  have htype : ∃ k rest, typeTokens t = k :: rest ∧ k ≠ .punct ']' := by
    cases t with
    | nil => simp [CleanType] at ht
    | cons a t =>
      cases t with
      | nil =>
        simp only [CleanType] at ht
        simpa only [typeTokens] using atomTokens_head ht
      | cons b t =>
        simp only [CleanType] at ht
        obtain ⟨k, rest, hk, hne⟩ := atomTokens_head ht.1
        exact ⟨k, rest ++ .punct '|' :: typeTokens (b :: t), by simp [typeTokens, hk], hne⟩
  obtain ⟨k, rest, hk, hne⟩ := htype
  cases ts with
  | nil => exact ⟨k, rest ++ [.punct close], by simp [typesTokens, hk], hne⟩
  | cons u ts =>
    exact ⟨k, rest ++ .punct ',' :: typesTokens close (u :: ts), by simp [typesTokens, hk], hne⟩

mutual

/-- The parser reads the tokens of a clean type back to the type. -/
theorem parse_atom :
    ∀ (a : Atom) {toks : List Token} {fuel : Nat}, CleanAtom a → EndsAtom toks → atomSize a ≤ fuel →
    parseAtom fuel (atomTokens a ++ toks) = some (a, toks)
  | .name n, toks, fuel, ha, htoks, hfuel => by
    simp only [CleanAtom] at ha
    simp only [atomSize] at hfuel
    obtain ⟨fuel, rfl⟩ := Nat.exists_eq_add_of_le' hfuel
    simp only [atomTokens, List.cons_append, List.nil_append]
    rw [parse_word ha.ne_typeof htoks, String.ofList_toList]
  | .app n args, toks, fuel, ha, htoks, hfuel => by
    simp only [CleanAtom] at ha
    simp only [atomSize] at hfuel
    obtain ⟨fuel, rfl⟩ : ∃ f, fuel = f + 1 := ⟨fuel - 1, by omega⟩
    simp only [atomTokens, List.cons_append, parseAtom, if_neg ha.1.ne_typeof]
    rw [parse_types '>' args ha.2.2 ha.2.1 (by decide) (by omega)]
    simp
  | .setOf _, toks, fuel, ha, htoks, hfuel => by simp [CleanAtom] at ha
  | .tuple [], toks, fuel, ha, htoks, hfuel => by
    simp only [atomSize] at hfuel
    obtain ⟨fuel, rfl⟩ : ∃ f, fuel = f + 1 := ⟨fuel - 1, by omega⟩
    simp [atomTokens, typesTokens, parseAtom]
  | .tuple (t :: ts), toks, fuel, ha, htoks, hfuel => by
    simp only [CleanAtom] at ha
    simp only [atomSize] at hfuel
    obtain ⟨fuel, rfl⟩ : ∃ f, fuel = f + 1 := ⟨fuel - 1, by omega⟩
    have hhead : (typesTokens ']' (t :: ts) ++ toks).head? ≠ some (.punct ']') := by
      obtain ⟨k, rest, hk, hne⟩ :=
        @typesTokens_head t ts (by simp only [CleanTypes] at ha; exact ha.1) ']'
      simpa [hk] using hne
    simp only [atomTokens, List.cons_append, parseAtom, if_neg hhead]
    rw [parse_types ']' (t :: ts) ha (by simp) (by decide) (by omega)]
    rfl
  | .index key value, toks, fuel, ha, htoks, hfuel => by
    simp only [CleanAtom] at ha
    simp only [atomSize] at hfuel
    obtain ⟨fuel, rfl⟩ : ∃ f, fuel = f + 1 := ⟨fuel - 1, by omega⟩
    simp only [atomTokens, List.cons_append, List.append_assoc, List.nil_append, parseAtom]
    rw [parse_type key ha.1 (endsType_cons (by decide)) (by omega)]
    simp only
    rw [parse_type value ha.2 (endsType_cons (by decide)) (by omega)]
    rfl
  | .str value, toks, fuel, ha, htoks, hfuel => by
    simp only [atomSize] at hfuel
    obtain ⟨fuel, rfl⟩ : ∃ f, fuel = f + 1 := ⟨fuel - 1, by omega⟩
    simp [atomTokens, parseAtom]
  | .num text, toks, fuel, ha, htoks, hfuel => by
    simp only [CleanAtom] at ha
    simp only [atomSize] at hfuel
    obtain ⟨fuel, rfl⟩ : ∃ f, fuel = f + 1 := ⟨fuel - 1, by omega⟩
    rw [atomTokens, parse_number ha, String.ofList_toList]
  | .member enum name, toks, fuel, ha, htoks, hfuel => by
    simp only [CleanAtom] at ha
    simp only [atomSize] at hfuel
    obtain ⟨fuel, rfl⟩ : ∃ f, fuel = f + 1 := ⟨fuel - 1, by omega⟩
    simp [atomTokens, parseAtom, ha.1.ne_typeof]
  | .typeofMember enum name, toks, fuel, ha, htoks, hfuel => by
    simp only [atomSize] at hfuel
    obtain ⟨fuel, rfl⟩ : ∃ f, fuel = f + 1 := ⟨fuel - 1, by omega⟩
    simp [atomTokens, parseAtom]

/-- The parser reads a clean type back, by recursion on the type. -/
theorem parse_type :
    ∀ (t : Ts) {toks : List Token} {fuel : Nat}, CleanType t → EndsType toks → typeSize t ≤ fuel →
    parseType fuel (typeTokens t ++ toks) = some (t, toks)
  | [], toks, fuel, ht, htoks, hfuel => by simp [CleanType] at ht
  | [a], toks, fuel, ht, htoks, hfuel => by
    simp only [CleanType] at ht
    simp only [typeSize] at hfuel
    obtain ⟨fuel, rfl⟩ : ∃ f, fuel = f + 1 := ⟨fuel - 1, by omega⟩
    rw [typeTokens, parseType, parse_atom a ht htoks.1 (by omega)]
    split
    · rename_i h
      cases h
      exact absurd rfl (htoks.2 _)
    · rename_i h
      cases h
      rfl
    · rename_i h
      cases h
  | a :: b :: t, toks, fuel, ht, htoks, hfuel => by
    simp only [CleanType] at ht
    simp only [typeSize] at hfuel
    obtain ⟨fuel, rfl⟩ : ∃ f, fuel = f + 1 := ⟨fuel - 1, by omega⟩
    have hends (rest : List Token) : EndsAtom (.punct '|' :: rest) := fun r => ⟨by simp, by simp⟩
    simp only [typeTokens, List.append_assoc, List.cons_append]
    rw [parseType, parse_atom a ht.1 (hends _) (by omega)]
    simp only
    rw [parse_type (b :: t) ht.2 htoks (by simp only [typeSize]; omega)]
    rfl

/-- The same for a list of types up to its closing token. -/
theorem parse_types (close : Char) :
    ∀ (ts : List Ts) {toks : List Token} {fuel : Nat}, CleanTypes ts → ts ≠ [] →
    (close ≠ '<' ∧ close ≠ '.' ∧ close ≠ '|') ∧ close ≠ ',' → typesSize ts ≤ fuel →
    parseTypes close fuel (typesTokens close ts ++ toks) = some (ts, toks)
  | [], toks, fuel, ht, hne, hclose, hfuel => absurd rfl hne
  | [t], toks, fuel, ht, hne, hclose, hfuel => by
    simp only [CleanTypes] at ht
    simp only [typesSize] at hfuel
    obtain ⟨fuel, rfl⟩ : ∃ f, fuel = f + 1 := ⟨fuel - 1, by omega⟩
    simp only [typesTokens, List.append_assoc, List.cons_append, List.nil_append]
    rw [parseTypes, parse_type t ht.1 (endsType_cons hclose.1) (by omega)]
    simp
  | t :: u :: ts, toks, fuel, ht, hne, hclose, hfuel => by
    simp only [CleanTypes] at ht
    simp only [typesSize] at hfuel
    obtain ⟨fuel, rfl⟩ : ∃ f, fuel = f + 1 := ⟨fuel - 1, by omega⟩
    simp only [typesTokens, List.append_assoc, List.cons_append]
    rw [parseTypes, parse_type t ht.1 (endsType_cons (by decide)) (by omega)]
    simp only [if_neg (Ne.symm hclose.2), if_true]
    rw [parse_types close (u :: ts) (by simpa only [CleanTypes] using ht.2) (by simp) hclose
      (by simp only [typesSize]; omega)]
    rfl

end

/-- What stands behind a type in the generated file. -/
def Follows (rest : List Char) : Prop := ∃ c r, rest = c :: r ∧ c ∈ [';', ',', ')', '>']

/-- Where it stands, a text is read as one type, and nothing behind it is touched. -/
def ReadsAs (text : List Char) (t : Ts) : Prop :=
  ∀ rest, Follows rest → ∃ n, ∀ fuel ≥ n,
    parseType fuel (scan .start (text ++ rest)) = some (t, scan .start rest)

/-- The text of a clean type reads as this type. -/
theorem reads_clean {t : Ts} (ht : CleanType t) : ReadsAs (typeText t) t := by
  rintro _ ⟨c, r, rfl, hc⟩
  have hmark : isMark c = true ∧ c ≠ '<' ∧ c ≠ '.' ∧ c ≠ '|' := by
    simp only [List.mem_cons, List.not_mem_nil, or_false] at hc
    rcases hc with rfl | rfl | rfl | rfl <;> decide
  refine ⟨typeSize t, fun fuel hfuel => ?_⟩
  rw [scan_type t ht (ends_mark ⟨hmark.1, hmark.2.2.1⟩), scan_mark hmark.1]
  exact parse_type t ht (endsType_cons hmark.2) hfuel

/-- A text is read as one type only. -/
theorem ReadsAs.unique {text : List Char} {t u : Ts} (ht : ReadsAs text t)
    (hu : ReadsAs text u) : t = u := by
  obtain ⟨m, hm⟩ := ht [';'] ⟨';', [], rfl, by simp⟩
  obtain ⟨n, hn⟩ := hu [';'] ⟨';', [], rfl, by simp⟩
  have hboth :=
    (hm (max m n) (Nat.le_max_left m n)).symm.trans (hn (max m n) (Nat.le_max_right m n))
  simpa using hboth

theorem scan_setClose (rest : List Char) (hrest : ∀ c ∈ rest, isBreak c = false) :
    scan .start (setClose ++ rest) = [.punct '>'] := by
  have hcomment : ∀ cs : List Char, (∀ c ∈ cs, isBreak c = false) → scan .comment cs = [] := by
    intro cs hcs
    induction cs with
    | nil => rfl
    | cons c cs ih =>
      rw [List.forall_mem_cons] at hcs
      rw [scan, if_neg (by simp [hcs.1]), ih hcs.2]
  have hslash : begin '/' = ([], .slash) := by decide
  simp only [setClose, List.cons_append, List.nil_append]
  rw [scan_mark (by decide), scan_space, scan, hslash, List.nil_append, scan, if_pos rfl, hcomment]
  simpa [isBreak] using hrest

/-- The comment of a set swallows what stands behind the type. -/
theorem set_swallows {element : Ts} (h : CleanType element) (t : Ts) :
    ¬ ReadsAs (typeText [.setOf element]) t := by
  intro hreads
  have harray : CleanType [.app "Array" [element]] := ⟨by decide, by simp, h, trivial⟩
  have hscan : scan .start (typeText [.setOf element] ++ [';']) =
      typeTokens [.app "Array" [element]] ++ [] := by
    have hword : IsWord "Array".toList := by decide
    have htext : typeText [.setOf element] ++ [';'] =
        "Array".toList ++ '<' :: (typeText element ++ (setClose ++ [';'])) := by
      simp [typeText, atomText, arrayOpen]
    have hends : Ends (setClose ++ [';']) := ends_mark (by decide)
    rw [htext, scan_word hword (breaks_mark (by decide)), scan_mark (by decide),
      scan_type element h hends,
      scan_setClose [';'] (by simp [isBreak])]
    simp [typeTokens, atomTokens, typesTokens]
  obtain ⟨n, hn⟩ := hreads [';'] ⟨';', [], rfl, by simp⟩
  have hfuel := hn (max n (typeSize [.app "Array" [element]])) (Nat.le_max_left ..)
  rw [hscan, parse_type _ harray ⟨fun r => ⟨by simp, by simp⟩,
    by simp⟩ (Nat.le_max_right ..)] at hfuel
  have hnil : scan .start [';'] = [.punct ';'] := by decide
  simp [hnil] at hfuel

theorem cleanType_iff {t : Ts} : CleanType t ↔ t ≠ [] ∧ ∀ a ∈ t, CleanAtom a := by
  induction t with
  | nil => simp [CleanType]
  | cons a t ih =>
    cases t with
    | nil => simp [CleanType]
    | cons b t => simp [CleanType, ih]

theorem cleanTypes_iff {ts : List Ts} : CleanTypes ts ↔ ∀ t ∈ ts, CleanType t := by
  induction ts with
  | nil => simp [CleanTypes]
  | cons t ts ih => simp [CleanTypes, ih]

/-- The string that stands between quotes in the declaration of an enumeration. -/
def quoted (text : String) : Option String :=
  match scan .start ('"' :: text.toList ++ ['"']) with
  | [.str s] => some (String.ofList s)
  | _ => none

def IsPlain (text : String) : Prop := ∀ c ∈ text.toList, isBreak c = false ∧ c ≠ '"' ∧ c ≠ '\\'

/-- A plain text is quoted as it is. -/
theorem quoted_plain {text : String} (h : IsPlain text) : quoted text = some text := by
  have hescape : escape text.toList = text.toList := by
    have hall : ∀ cs : List Char, (∀ c ∈ cs, isBreak c = false ∧ c ≠ '"' ∧ c ≠ '\\') →
        escape cs = cs := by
      intro cs hcs
      induction cs with
      | nil => rfl
      | cons c cs ih =>
        rw [List.forall_mem_cons] at hcs
        rw [escape_cons, ih hcs.2]
        simp [hcs.1.2.1, hcs.1.2.2]
    exact hall _ h
  have hscan : scan .start ('"' :: text.toList ++ ['"']) = [.str text.toList] := by
    have hbegin : begin '"' = ([], .str []) := by decide
    rw [← hescape, List.cons_append, scan, hbegin, List.nil_append,
      scan_string fun c hc => (h c hc).1]
    simp [scan, hescape]
  rw [quoted, hscan]
  simp

theorem digits_repr (n : Nat) : IsUnsigned n.repr.toList := by
  have hrepr : n.repr.toList = Nat.toDigits 10 n := by simp [Nat.repr]
  refine ⟨n.repr.toList, [], [], by simp, ⟨?_, fun c hc => ?_⟩, .inl rfl, .inl rfl⟩
  · rw [hrepr]
    exact Nat.toDigits_ne_nil
  · exact Nat.isDigit_of_mem_toDigits (by decide) (by decide) (hrepr ▸ hc)

theorem isNumber_toString (i : Int) : IsNumber (toString i).toList := by
  rw [Int.toString_eq_repr, Int.repr_eq_if]
  split
  · exact .inl (digits_repr _)
  · exact .inr ⟨(-i).toNat.repr.toList, by simp, digits_repr _⟩

end TypeScriptText
