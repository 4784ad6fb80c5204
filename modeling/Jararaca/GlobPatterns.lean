import Mathlib.Data.List.Infix
import Mathlib.Data.String.Basic

/-!
# Glob patterns of a key store

The patterns of `KEYS`: a star for any text, a question mark for one character, a class in
brackets, and a backslash before a character that is meant literally.
-/
namespace GlobPatterns

inductive Item where
  | lit (c : Char)
  | any
  | many
  | cls (negated : Bool) (ranges : List (Char × Char))
  deriving DecidableEq, Repr

/-- Whether an item that stands for one character accepts it; the ends of a range in any order. -/
def Item.accepts : Item → Char → Bool
  | .lit a, c => a == c
  | .any, _ => true
  | .many, _ => true
  | .cls negated ranges, c =>
    (ranges.any fun r => decide (min r.1.toNat r.2.toNat ≤ c.toNat ∧
      c.toNat ≤ max r.1.toNat r.2.toNat)) != negated

def accepts : List Item → List Char → Bool
  | [], cs => cs.isEmpty
  | .many :: items, cs => cs.tails.any fun rest => accepts items rest
  | item :: items, cs => match cs with
    | [] => false
    | c :: rest => item.accepts c && accepts items rest

/-- The members of a class up to its bracket, and what follows. -/
def readClass : List Char → List (Char × Char) × List Char
  | [] => ([], [])
  | '\\' :: c :: rest => let r := readClass rest; ((c, c) :: r.1, r.2)
  | ']' :: rest => ([], rest)
  | a :: '-' :: b :: rest => let r := readClass rest; ((a, b) :: r.1, r.2)
  | a :: rest => let r := readClass rest; ((a, a) :: r.1, r.2)

/-- The items of a pattern; each takes at least one character, so its length is enough fuel. -/
def readItems : Nat → List Char → List Item
  | 0, _ => []
  | _ + 1, [] => []
  | n + 1, c :: rest =>
    match c, rest with
    | '*', rest => .many :: readItems n rest
    | '?', rest => .any :: readItems n rest
    | '[', '^' :: rest => .cls true (readClass rest).1 :: readItems n (readClass rest).2
    | '[', rest => .cls false (readClass rest).1 :: readItems n (readClass rest).2
    | '\\', c :: rest => .lit c :: readItems n rest
    | c, rest => .lit c :: readItems n rest

def globMatch (pattern key : String) : Bool :=
  accepts (readItems pattern.toList.length pattern.toList) key.toList

/-- The characters that a pattern reads as something else. -/
def special : List Char := ['*', '?', '[', '\\']

theorem readItems_plain {c : Char} (hc : c ∉ special) (n : Nat) (rest : List Char) :
    readItems (n + 1) (c :: rest) = .lit c :: readItems n rest := by
  simp only [special, List.mem_cons, List.not_mem_nil, or_false, not_or] at hc
  obtain ⟨hstar, hany, hcls, hescape⟩ := hc
  rw [readItems]
  · exact hstar
  · exact hany
  · exact hcls
  · intro _ hopen
    exact absurd hopen hcls
  · intro _ _ hbackslash
    exact absurd hbackslash hescape

/-- Plain text before a star. -/
theorem readItems_star {cs : List Char} (hcs : ∀ c ∈ cs, c ∉ special) :
    readItems (cs ++ ['*']).length (cs ++ ['*']) = cs.map .lit ++ [.many] := by
  induction cs with
  | nil => rfl
  | cons c cs ih =>
    have hrest := ih fun c' hc' => hcs c' (List.mem_cons_of_mem c hc')
    rw [List.cons_append, List.length_cons, readItems_plain (hcs c List.mem_cons_self), hrest]
    rfl

theorem accepts_star (cs text : List Char) :
    accepts (cs.map .lit ++ [.many]) text = true ↔ cs <+: text := by
  induction cs generalizing text with
  | nil =>
    simp only [List.map_nil, List.nil_append, accepts, List.any_eq_true, List.mem_tails,
      List.nil_prefix, iff_true]
    exact ⟨[], List.nil_suffix, rfl⟩
  | cons c cs ih =>
    cases text with
    | nil => simp [accepts]
    | cons d text =>
      simp only [List.map_cons, List.cons_append, accepts, Item.accepts, Bool.and_eq_true,
        beq_iff_eq, ih,
        List.cons_prefix_cons]

/-- A plain text with a star at its end matches what begins with that text. -/
theorem globMatch_star {p : String} (hp : ∀ c ∈ p.toList, c ∉ special) (key : String) :
    globMatch (p ++ "*") key = true ↔ p.toList <+: key.toList := by
  have hlist : (p ++ "*").toList = p.toList ++ ['*'] := String.toList_append
  rw [globMatch, hlist, readItems_star hp, accepts_star]

example : globMatch "h[a-c]\\*o*" "hb*o:1" = true := by decide +kernel

end GlobPatterns
