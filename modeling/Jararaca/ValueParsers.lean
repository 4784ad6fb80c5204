import Jararaca.Messages
import Jararaca.TextReplacement
import Mathlib.Data.List.DropRight

/-!
# Values from texts

What Python makes of the texts of a filter: `int` behind its pattern, `datetime.strptime` and the
`UUID` constructor. A pattern is read in the order in which the engine tries its alternatives, so
the first reading is the match, and a match that ends before the text does is refused.
-/
namespace ValueParsers

open Messages (decimalValue isSpace isIntSpace pyInt natOfDigits digitsTail)
open TextReplacement (replaceAll)

def strip (s : List Char) : List Char := (s.dropWhile isSpace).rdropWhile isSpace

/-- A decimal digit of any script, as `\d` has it. -/
def isDigit (c : Char) : Bool := (decimalValue c).isSome

/-! ## Integers -/

/-- The digits in a match of `^-?\d+$`; the end of the pattern is also met before a last line
feed. -/
def integerDigits (s : List Char) : List Char :=
  let digits := if s.head? = some '-' then s.tail else s
  if digits.getLast? = some '\n' then digits.dropLast else digits

def isInteger (s : String) : Bool :=
  decide (integerDigits s.toList ≠ []) && (integerDigits s.toList).all isDigit

theorem decimalValue_of_isSpace {c : Char} (h : isSpace c = true) : decimalValue c = none := by
  have hspaces :
      ∀ n ∈ [0x9, 0xa, 0xb, 0xc, 0xd, 0x1c, 0x1d, 0x1e, 0x1f, 0x20, 0x85, 0xa0, 0x1680,
      0x2000, 0x2001,
      0x2002, 0x2003, 0x2004, 0x2005, 0x2006, 0x2007, 0x2008, 0x2009, 0x200a, 0x2028, 0x2029,
        0x202f, 0x205f, 0x3000],
      Messages.decimalZeros.find? (fun z => z ≤ n && n < z + 10) = none := by decide
  rw [decimalValue, hspaces c.toNat (List.contains_iff_mem.mp h)]
  rfl

theorem isSpace_of_isDigit {c : Char} (h : isDigit c = true) : isSpace c = false := by
  by_contra hspace
  rw [isDigit, decimalValue_of_isSpace (by simpa using hspace)] at h
  cases h

theorem digitsTail_digits {cs : List Char} (h : ∀ c ∈ cs, isDigit c = true) :
    ∃ ds, digitsTail cs = some ds ∧ ds.length = cs.length := by
  induction cs with
  | nil => exact ⟨[], rfl, rfl⟩
  | cons c cs ih =>
    simp only [List.mem_cons, forall_eq_or_imp] at h
    obtain ⟨d, hd⟩ := Option.isSome_iff_exists.mp h.1
    obtain ⟨ds, hds, hlength⟩ := ih h.2
    have hscore : c ≠ '_' := by
      rintro rfl
      exact absurd h.1 (by decide)
    refine ⟨d :: ds, ?_, by simp [hlength]⟩
    rw [digitsTail]
    · simp [hd, hds]
    · rintro _ _ rfl
      exact absurd rfl hscore

/-- A run of digits is refused for its length alone. -/
theorem natOfDigits_eq_none_iff {cs : List Char} (hne : cs ≠ []) (h : ∀ c ∈ cs, isDigit c = true) :
    natOfDigits cs = none ↔ 4300 < cs.length := by
  cases cs with
  | nil => exact absurd rfl hne
  | cons c cs =>
    simp only [List.mem_cons, forall_eq_or_imp] at h
    obtain ⟨d, hd⟩ := Option.isSome_iff_exists.mp h.1
    obtain ⟨ds, hds, hlength⟩ := digitsTail_digits h.2
    simp only [natOfDigits, hd, hds, Option.bind_eq_bind, Option.bind_some, hlength,
      List.length_cons]
    split <;> simp <;> omega

/-- The parts of a match. -/
theorem integerDigits_parts (s : List Char) : ∃ sign ending,
    (sign = [] ∨ sign = ['-']) ∧ (ending = [] ∨ ending = ['\n']) ∧
      s = sign ++ integerDigits s ++ ending := by
  have hsign : ∃ sign, (sign = [] ∨ sign = ['-']) ∧
      s = sign ++ (if s.head? = some '-' then s.tail else s) := by
    split
    · rename_i hhead
      exact ⟨['-'], .inr rfl, (List.cons_head?_tail hhead).symm⟩
    · exact ⟨[], .inl rfl, rfl⟩
  obtain ⟨sign, hsign, hs⟩ := hsign
  unfold integerDigits
  generalize (if s.head? = some '-' then s.tail else s) = digits at hs
  by_cases hlast : digits.getLast? = some '\n'
  · have hdigits := List.dropLast_append_getLast? '\n' hlast
    exact ⟨sign, ['\n'], hsign, .inr rfl,
      by simp only [hlast, if_true, List.append_assoc, hdigits, hs]⟩
  · exact ⟨sign, [], hsign, .inl rfl, by simp only [hlast, if_false, List.append_nil, hs]⟩

theorem strip_append {p : Char → Bool} {text ending : List Char} (hne : text ≠ [])
    (hspace : ∀ c ∈ text, p c = false) (hending : ∀ c ∈ ending, p c = true) :
    (((text ++ ending).dropWhile p).reverse.dropWhile p).reverse = text := by
  obtain ⟨c, text, rfl⟩ := List.exists_cons_of_ne_nil hne
  rw [List.cons_append, List.dropWhile_cons_of_neg (by simp [hspace c]), ← List.cons_append,
    List.reverse_append,
    List.dropWhile_append_of_pos fun c hc => hending c (List.mem_reverse.mp hc)]
  obtain ⟨d, rest, hreverse⟩ := List.exists_cons_of_ne_nil (List.reverse_ne_nil_iff.mpr hne)
  have hd : p d = false := hspace d (List.mem_reverse.mp (hreverse ▸ List.mem_cons_self))
  rw [hreverse, List.dropWhile_cons_of_neg (by simp [hd]), ← hreverse, List.reverse_reverse]

/-- A text that matches the pattern is refused by `int` for its length alone. -/
theorem pyInt_eq_none_iff {s : String} (h : isInteger s = true) :
    pyInt s = none ↔ 4300 < (integerDigits s.toList).length := by
  simp only [isInteger, Bool.and_eq_true, decide_eq_true_eq, List.all_eq_true] at h
  obtain ⟨hne, hdigits⟩ := h
  obtain ⟨sign, ending, hsign, hending, hs⟩ := integerDigits_parts s.toList
  generalize integerDigits s.toList = digits at *
  have hstripped :
      ((s.toList.dropWhile isIntSpace).reverse.dropWhile isIntSpace).reverse = sign ++ digits := by
    rw [hs]
    apply strip_append (by simp [hne])
    · intro c hc
      rcases List.mem_append.mp hc with hc | hc
      · rcases hsign with rfl | rfl
        · cases hc
        · rw [List.mem_singleton.mp hc]; decide
      · rw [isIntSpace, isSpace_of_isDigit (hdigits c hc), Bool.false_and]
    · intro c hc
      rcases hending with rfl | rfl
      · cases hc
      · rw [List.mem_singleton.mp hc]; decide
  rw [pyInt, hstripped, ← natOfDigits_eq_none_iff hne hdigits]
  rcases hsign with rfl | rfl
  · obtain ⟨c, cs, rfl⟩ := List.exists_cons_of_ne_nil hne
    have hc := hdigits c List.mem_cons_self
    rw [List.nil_append]
    split
    · rename_i heq; cases heq; exact absurd hc (by decide)
    · rename_i heq; cases heq; exact absurd hc (by decide)
    · exact Option.map_eq_none_iff
  · cases hnat : natOfDigits digits <;> simp [hnat]

/-! ## Dates -/

/-- A reading of a part of a text: its value and what is left, in the order of the alternatives. -/
abbrev Reading := List Char → List (Nat × List Char)

def one (value : Char → Option Nat) : Reading
  | [] => []
  | c :: rest => (value c).toList.map fun n => (n, rest)

def two (tens ones : Char → Option Nat) : Reading := fun text =>
  (one tens text).flatMap fun first => (one ones first.2).map fun second =>
    (10 * first.1 + second.1, second.2)

def between (low high : Nat) (c : Char) : Option Nat :=
  if '0'.toNat + low ≤ c.toNat ∧
    c.toNat ≤ '0'.toNat + high then some (c.toNat - '0'.toNat) else none

def literal (same : Char → Bool) : Reading := one fun c => if same c then some 0 else none

/-- `[0-9]{1,6}`, the longest first, in millionths. -/
def fraction : Nat → Reading
  | 0, _ => []
  | _ + 1, [] => []
  | places + 1, c :: rest =>
    match between 0 9 c with
    | none => []
    | some digit =>
      (fraction places rest).map (fun more => (digit * 10 ^ places + more.1, more.2)) ++
        [(digit * 10 ^ places, rest)]

/-- The directives of `strptime` that the filters use. -/
inductive Directive where
  | year
  | month
  | day
  | hour
  | minute
  | second
  | microsecond
  | char (c : Char)
  deriving DecidableEq, Repr

def Directive.read : Directive → Reading
  | .year => fun text => (two decimalValue decimalValue text).flatMap fun first =>
      (two decimalValue decimalValue first.2).map fun second => (100 * first.1 + second.1, second.2)
  | .month =>
    fun text => two (between 1 1) (between 0 2) text ++ two (between 0 0) (between 1 9) text ++
      one (between 1 9) text
  | .day =>
    fun text => two (between 3 3) (between 0 1) text ++ two (between 1 2) decimalValue text ++
      two (between 0 0) (between 1 9) text ++ one (between 1 9) text ++
      two (fun c => if c = ' ' then some 0 else none) (between 1 9) text
  | .hour =>
    fun text => two (between 2 2) (between 0 3) text ++ two (between 0 1) decimalValue text ++
      one decimalValue text
  | .minute => fun text => two (between 0 5) decimalValue text ++ one decimalValue text
  | .second =>
    fun text => two (between 6 6) (between 0 1) text ++ two (between 0 5) decimalValue text ++
      one decimalValue text
  | .microsecond => fraction 6
  -- the pattern is compiled with IGNORECASE
  | .char c => literal fun other => other.toLower = c.toLower

def readAll : List Directive → List Char → List (List Nat × List Char)
  | [], text => [([], text)]
  | directive :: format, text => (directive.read text).flatMap fun first =>
      (readAll format first.2).map fun more => (first.1 :: more.1, more.2)

/-- The values of the directives of a format. -/
def matchFormat (format : List Directive) (text : List Char) : Option (List Nat) :=
  match readAll format text with
  | (values, []) :: _ => some values
  | _ => none

def isLeap (year : Nat) : Bool := year % 4 = 0 && (year % 100 ≠ 0 || year % 400 = 0)

def daysInMonth (year month : Nat) : Nat :=
  if month = 2 then (if isLeap year then 29 else 28) else if month ∈ [4, 6, 9, 11] then 30 else 31

structure Date where
  year : Nat
  month : Nat
  day : Nat
  year_pos : 1 ≤ year
  month_range : 1 ≤ month ∧ month ≤ 12
  day_range : 1 ≤ day ∧ day ≤ daysInMonth year month
  deriving DecidableEq

structure DateTime where
  date : Date
  hour : Nat
  minute : Nat
  second : Nat
  microsecond : Nat
  time_range : hour < 24 ∧ minute < 60 ∧ second < 60 ∧ microsecond < 1000000
  deriving DecidableEq

def Date.make (year month day : Nat) : Option Date :=
  if h : 1 ≤ year ∧ (1 ≤ month ∧ month ≤ 12) ∧ 1 ≤ day ∧ day ≤ daysInMonth year month then
    some ⟨year, month, day, h.1, h.2.1, h.2.2⟩
  else none

def DateTime.make (date : Date) (hour minute second microsecond : Nat) : Option DateTime :=
  if h : hour < 24 ∧ minute < 60 ∧ second < 60 ∧ microsecond < 1000000 then
    some ⟨date, hour, minute, second, microsecond, h⟩
  else none

/-- `datetime.strptime(text, "%Y-%m-%d").date()`. -/
def parseDate (text : String) : Option Date :=
  match matchFormat [.year, .char '-', .month, .char '-', .day] text.toList with
  | some [year, _, month, _, day] => Date.make year month day
  | _ => none

/-- `datetime.strptime(text, "%Y-%m-%dT%H:%M:%S.%fZ")`. -/
def parseDateTime (text : String) : Option DateTime :=
  match matchFormat [.year, .char '-', .month, .char '-', .day, .char 'T', .hour, .char ':',
    .minute, .char ':',
      .second, .char '.', .microsecond, .char 'Z'] text.toList with
  | some [year, _, month, _, day, _, hour, _, minute, _, second, _, microsecond, _] => do
    DateTime.make (← Date.make year month day) hour minute second microsecond
  | _ => none

/-! ## UUIDs -/

def hexValue (c : Char) : Option Nat :=
  (decimalValue c).or <|
    if 'a' ≤ c ∧ c ≤ 'f' then some (c.toNat - 'a'.toNat + 10)
    else if 'A' ≤ c ∧ c ≤ 'F' then some (c.toNat - 'A'.toNat + 10)
    else none

/-- Hexadecimal digits, with at most one underscore between two of them. -/
def hexTail : List Char → Option (List Nat)
  | [] => some []
  | '_' :: c :: cs => do
    let d ← hexValue c
    let ds ← hexTail cs
    some (d :: ds)
  | c :: cs => do
    let d ← hexValue c
    let ds ← hexTail cs
    some (d :: ds)

def natOfHex : List Char → Option Nat
  | [] => none
  | c :: cs => do
    let d ← hexValue c
    let ds ← hexTail cs
    some ((d :: ds).foldl (fun n d => 16 * n + d) 0)

/-- What is left of a numeral in base sixteen behind its prefix. -/
def hexPrefix : List Char → List Char
  | '0' :: 'x' :: '_' :: cs => cs
  | '0' :: 'X' :: '_' :: cs => cs
  | '0' :: 'x' :: cs => cs
  | '0' :: 'X' :: cs => cs
  | cs => cs

/-- `int(s, 16)`. -/
def intOfHex (s : List Char) : Option Int :=
  match strip s with
  | '+' :: cs => (natOfHex (hexPrefix cs)).map Int.ofNat
  | '-' :: cs => (natOfHex (hexPrefix cs)).map fun n => -(n : Int)
  | cs => (natOfHex (hexPrefix cs)).map Int.ofNat

abbrev UUID := Fin (2 ^ 128)

def isBrace (c : Char) : Bool := c = '\x7b' || c = '\x7d'

def uuid (hex : List Char) : Option UUID :=
  let hex := replaceAll "uuid:".toList [] (replaceAll "urn:".toList [] hex)
  let hex := ((hex.dropWhile isBrace).rdropWhile isBrace).filter (· ≠ '-')
  if hex.length ≠ 32 then none
  else
    match intOfHex hex with
    | some (.ofNat n) => if h : n < 2 ^ 128 then some ⟨n, h⟩ else none
    | _ => none

def parseUuid (raw : String) : Option UUID := uuid (strip raw.toList)

example : parseDate "2024-02-29" = Date.make 2024 2 29 ∧ parseDate "2023-02-29" = none ∧
    parseDate "2024-1-123" = none := by
  decide

end ValueParsers
