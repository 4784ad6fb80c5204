import Mathlib.Data.String.Basic
import Jararaca.ClientRoutes
import Jararaca.StableSorts
import Jararaca.TypeScriptTypes
import Jararaca.WorkListOrders

/-!
# The interfaces in any order

`write_type_interfaces` takes the types of its backlog in the order of a set and sorts what
`parse_type_to_typescript_interface` writes by the names of the types. Two types can have one name.
Here is when the text is the same for every order and declares every name once.
-/
namespace InterfaceOrder

open TypeScriptTypes (EnumStyle)
open WorkLists StableSorts

/-- An annotation of a class, with what `should_exclude_field` and `has_default_value` say. -/
structure Field (τ : Type) where
  name : String
  type : τ
  excluded : Bool := false
  hasDefault : Bool := false

/-- What is read of a class. `bases` is without `Generic` and `BaseModel`, a property has the
type it returns, and only those that the class itself defines are here. -/
structure ClassShape (τ : Type) where
  bases : List τ := []
  parameters : List String := []
  fields : List (Field τ) := []
  properties : List (String × τ) := []

/-- What a type is to the parser: a type with arguments that is no class, a parametrized model, an
enumeration with the names and values of its members, or another class. -/
inductive Shape (τ : Type) where
  | generic (origin : τ) (args : List τ)
  | parametrized (origin : τ) (args : List τ)
  | enum (members : List (String × String))
  | cls (c : ClassShape τ)

/-- The types of a program, by what the introspection and the mapper say of them. `name` is
`__name__`, `constants` the constants among `dir`, `noted` the enumerations that the mapper adds
to the parse context for a type. -/
structure Program (τ : Type) where
  name : τ → String
  split : τ → Bool := fun _ => false
  primitive : τ → Bool := fun _ => false
  constants : τ → List String := fun _ => []
  shape : τ → Shape τ
  extractAllEnvolvedTypes : τ → List τ
  fieldTypeForTs : τ → String → String
  noted : τ → List τ := fun _ => []

/-- An interface or an enumeration with its text. -/
structure Declaration where
  name : String
  text : String

section Parser

variable {τ : Type} (p : Program τ) (style : EnumStyle) (title : List Char → List Char)

def sorted (l : List String) : List String := sortBy id l

def isConstant (name : String) : Bool :=
  name ≠ "" ∧ (name.toList.all fun c => c.isUpper || c = '_') = true

def enumText (name : String) (members : List (String × String)) : String :=
  let values := sortBy Prod.fst members
  match style with
  | .const => String.join ["export const ", name, " = \x7b\n",
      String.join (values.map fun v => "\t" ++ v.1 ++ ": \"" ++ v.2 ++ "\",\n"), "\x7d as const;\n",
      "export type ", name, " = (typeof ", name, ")[keyof typeof ", name, "];\n"]
  | .enum => String.join ["export enum ", name, " \x7b\n",
      "\n ".intercalate (values.map fun v => "\t" ++ v.1 ++ " = \"" ++ v.2 ++ "\","), "\n\x7d\n"]

/-- A name in the `extends` of a class. -/
def baseName (t : τ) (suffix : String) (inherited : τ) : String :=
  let name := if p.split inherited ∧ suffix ≠ "" then p.name inherited ++ suffix
    else p.fieldTypeForTs inherited suffix
  let conflicts := (p.constants inherited).filter fun c => (p.constants t).contains c
  if conflicts = [] then name
  else "Omit<" ++ name ++ ", " ++ " | ".intercalate
    (sorted (conflicts.map fun c => "\"" ++ c ++ "\"")) ++ ">"

def extendsExpression (t : τ) (suffix : String) (c : ClassShape τ) : String :=
  match c.bases.filter fun b => !p.primitive b with
  | [] => ""
  | valid => " extends " ++ ", ".intercalate (sorted (valid.map (baseName p t suffix)))

def writtenFields (t : τ) (c : ClassShape τ) : List (Field τ) :=
  (sortBy Field.name c.fields).filter fun f => !(p.constants t).contains f.name && !f.excluded

def fieldText (suffix : String) (forceOptionalDefaults : Option Bool) (f : Field τ) : String :=
  "  " ++ (if isConstant f.name then f.name else ClientRoutes.snakeToCamel title f.name) ++
    (if forceOptionalDefaults.getD true && f.hasDefault then "?" else "") ++ ": " ++
      p.fieldTypeForTs f.type suffix ++ ";\n"

def propertyText (suffix : String) (f : String × τ) : String :=
  "  " ++ ClientRoutes.snakeToCamel title f.1 ++ ": " ++ p.fieldTypeForTs f.2 suffix ++ ";\n"

def interfaceText (t : τ) (suffix : String) (forceOptionalDefaults : Option Bool)
    (c : ClassShape τ) : String :=
  String.join ["export interface ", p.name t ++ suffix,
    if c.parameters = [] then "" else "<" ++ ", ".intercalate (sorted c.parameters) ++ ">",
    extendsExpression p t suffix c, " \x7b\n",
    String.join ((writtenFields p t c).map (fieldText p title suffix forceOptionalDefaults)),
    String.join ((sortBy Prod.fst c.properties).map (propertyText p title suffix)), "\x7d\n"]

/-- `parse_single_typescript_interface`: the types it maps, and what it declares. -/
def parseSingle (t : τ) (suffix : String) (forceOptionalDefaults : Option Bool) :
    List τ × List Declaration :=
  match p.shape t with
  | .generic origin args => (args ++ [origin], [])
  | .parametrized origin args => (origin :: args.flatMap p.extractAllEnvolvedTypes, [])
  | .enum members => ([], [⟨p.name t ++ suffix, enumText style (p.name t ++ suffix) members⟩])
  | .cls c =>
    (c.bases ++ ((writtenFields p t c).map Field.type ++ c.properties.map Prod.snd).flatMap fun u =>
      p.extractAllEnvolvedTypes u ++ [u],
      [⟨p.name t ++ suffix, interfaceText p title t suffix forceOptionalDefaults c⟩])

/-- `parse_type_to_typescript_interface`, with `parse_split_input_output_interfaces`. -/
def parseType (t : τ) : List τ × List Declaration :=
  if p.split t then
    let input := parseSingle p style title t "Input" (some true)
    let output := parseSingle p style title t "Output" (some false)
    (input.1 ++ output.1, input.2 ++ output.2)
  else parseSingle p style title t "" none

/-- The enumerations that a type adds to the parse context when it is parsed. -/
def parseNoted (t : τ) : List τ :=
  match p.shape t with
  | .cls c =>
    ((c.bases.filter fun b => !p.primitive b) ++ (writtenFields p t c).map Field.type ++
      c.properties.map Prod.snd).flatMap p.noted
  | .generic _ _ | .parametrized _ _ | .enum _ => []

def declarations (t : τ) : List Declaration := (parseType p style title t).2

def typeText (t : τ) : String := String.join ((declarations p style title t).map Declaration.text)

/-- The loop of `write_type_interfaces`. -/
def workList : WorkList τ where
  skips t := p.primitive t = true
  finds t := (parseType p style title t).1
  notes := parseNoted p

/-- The result of `write_type_interfaces`, from the types in the order they were processed. -/
def orderedText (processed : List τ) : String :=
  String.join ((sortBy p.name processed).map (typeText p style title))

/-- The names that are declared, in the order of the text. -/
def declaredNames (processed : List τ) : List String :=
  (sortBy p.name processed).flatMap fun t => (declarations p style title t).map Declaration.name

end Parser

section Names

variable {τ : Type} (p : Program τ) (style : EnumStyle) (title : List Char → List Char)

/-- A type with an interface of its own. -/
def declares (t : τ) : Bool :=
  match p.shape t with
  | .generic _ _ | .parametrized _ _ => false
  | .enum _ | .cls _ => true

def namesOf (t : τ) : List String :=
  if declares p t then if p.split t then [p.name t ++ "Input", p.name t ++ "Output"]
  else [p.name t] else []

theorem parseSingle_names (t : τ) (suffix : String) (force : Option Bool) :
    (parseSingle p style title t suffix force).2.map Declaration.name =
      if declares p t then [p.name t ++ suffix] else [] := by
  unfold parseSingle declares
  cases p.shape t <;> rfl

theorem declarations_names (t : τ) :
    (declarations p style title t).map Declaration.name = namesOf p t := by
  unfold declarations parseType namesOf
  cases p.split t with
  | false => simp [parseSingle_names]
  | true => cases hdeclares : declares p t <;> simp [parseSingle_names, hdeclares]

theorem append_ne {n a b : String} (h : a ≠ b) : n ++ a ≠ n ++ b :=
  fun he => h ((String.append_right_inj n).mp he)

theorem namesOf_nodup (t : τ) : (namesOf p t).Nodup := by
  have hne : p.name t ++ "Input" ≠ p.name t ++ "Output" := append_ne (by decide)
  unfold namesOf
  split
  · split <;> simp [hne]
  · exact List.nodup_nil

/-- Types of one name that are both split, or both not, declare the same names. -/
theorem shared_name {t u : τ} (ht : declares p t = true) (hu : declares p u = true)
    (hname : p.name t = p.name u)
    (hsplit : p.split t = p.split u) : ∃ n ∈ namesOf p t, n ∈ namesOf p u := by
  unfold namesOf
  rw [ht, hu, hname, hsplit]
  cases p.split u <;> simp

theorem typeText_eq_empty {t : τ} (h : declares p t = false) : typeText p style title t = "" := by
  have hnone : declarations p style title t = [] := by
    have := declarations_names p style title t
    rw [namesOf, h] at this
    exact List.map_eq_nil_iff.mp this
  rw [typeText, hnone]
  rfl

end Names

section Heads

variable {τ : Type} (p : Program τ) (style : EnumStyle) (title : List Char → List Char)

def Keyword (k : String) : Prop :=
  k = "export interface " ∨ k = "export enum " ∨ k = "export const "

/-- A text that does not go on with a capital I. -/
def Stops (rest : String) : Prop := ∃ c r, rest.toList = c :: r ∧ c ≠ 'I'

theorem Stops.append {a : String} (h : Stops a) (b : String) : Stops (a ++ b) := by
  obtain ⟨c, r, hr, hc⟩ := h
  exact ⟨c, r ++ b.toList, by rw [String.toList_append, hr, List.cons_append], hc⟩

/-- A declaration of a name. -/
def Headed (name text : String) : Prop :=
  ∃ k rest, Keyword k ∧ Stops rest ∧ text = k ++ (name ++ rest)

theorem Stops.join {a : String} (h : Stops a) (rest : List String) :
    Stops (String.join (a :: rest)) := by
  rw [String.join_cons]
  exact h.append _

theorem headed_join {k name : String} {rest : List String} (hk : Keyword k)
    (hrest : Stops (String.join rest)) :
    Headed name (String.join (k :: name :: rest)) :=
  ⟨k, String.join rest, hk, hrest, by rw [String.join_cons, String.join_cons]⟩

theorem headed_enumText (name : String) (members : List (String × String)) :
    Headed name (enumText style name members) := by
  cases style with
  | enum =>
    have hopen : Stops " \x7b\n" := ⟨' ', _, rfl, by decide⟩
    exact headed_join (.inr (.inl rfl)) (hopen.join _)
  | const =>
    have hopen : Stops " = \x7b\n" := ⟨' ', _, rfl, by decide⟩
    exact headed_join (.inr (.inr rfl)) (hopen.join _)

/-- Behind the parameters and the bases a brace is opened. -/
theorem stops_extends (t : τ) (suffix : String) (c : ClassShape τ) (rest : List String) :
    Stops (String.join (extendsExpression p t suffix c :: " \x7b\n" :: rest)) := by
  have hopen : Stops " \x7b\n" := ⟨' ', _, rfl, by decide⟩
  unfold extendsExpression
  split
  · rw [String.join_cons, String.empty_append]
    exact hopen.join rest
  · have hword : Stops " extends " := ⟨' ', _, rfl, by decide⟩
    exact (hword.append _).join _

theorem headed_interfaceText (t : τ) (suffix : String) (force : Option Bool) (c : ClassShape τ) :
    Headed (p.name t ++ suffix) (interfaceText p title t suffix force c) := by
  refine headed_join (.inl rfl) ?_
  split
  · rw [String.join_cons, String.empty_append]
    exact stops_extends p t suffix c _
  · have hbracket : Stops "<" := ⟨'<', _, rfl, by decide⟩
    exact ((hbracket.append _).append _).join _

/-- What a type declares by itself begins with its name. -/
theorem parseSingle_head {t : τ} (h : declares p t = true) (suffix : String) (force : Option Bool) :
    ∃ d, (parseSingle p style title t suffix force).2 = [d] ∧
      Headed (p.name t ++ suffix) d.text := by
  unfold declares at h
  unfold parseSingle
  cases hshape : p.shape t with
  | generic origin args => simp [hshape] at h
  | parametrized origin args => simp [hshape] at h
  | enum members => exact ⟨_, rfl, headed_enumText style _ members⟩
  | cls c => exact ⟨_, rfl, headed_interfaceText p title t suffix force c⟩

/-- A capital I follows the name exactly in the text of a split model. -/
theorem typeText_split {t : τ} (h : declares p t = true) (hsplit : p.split t = true) :
    ∃ k rest, Keyword k ∧ (typeText p style title t).toList =
      k.toList ++ ((p.name t).toList ++ 'I' :: rest) := by
  obtain ⟨d, hd, k, rest, hk, -, htext⟩ := parseSingle_head p style title h "Input" (some true)
  obtain ⟨e, he, -⟩ := parseSingle_head p style title h "Output" (some false)
  have hinput : ("Input" : String).toList = 'I' :: ['n', 'p', 'u', 't'] := rfl
  refine ⟨k, ['n', 'p', 'u', 't'] ++ rest.toList ++ e.text.toList, hk, ?_⟩
  simp [typeText, declarations, parseType, hsplit, hd, he, htext, String.toList_append, hinput]

theorem typeText_plain {t : τ} (h : declares p t = true) (hsplit : p.split t = false) :
    ∃ k c rest, Keyword k ∧ c ≠ 'I' ∧
      (typeText p style title t).toList = k.toList ++ ((p.name t).toList ++ c :: rest) := by
  obtain ⟨d, hd, k, rest, hk, ⟨c, r, hr, hc⟩, htext⟩ := parseSingle_head p style title h "" none
  refine ⟨k, c, r, hk, hc, ?_⟩
  simp [typeText, declarations, parseType, hsplit, hd, htext, String.toList_append, hr]

/-- The keyword of a declaration is determined by its text. -/
theorem keyword_eq {k k' : String} (hk : Keyword k) (hk' : Keyword k') {a b : List Char}
    (h : k.toList ++ a = k'.toList ++ b) : k = k' := by
  have hseventh := congrArg (fun l : List Char => l[7]?) h
  rcases hk with rfl | rfl | rfl <;> rcases hk' with rfl | rfl | rfl <;> first
    | rfl
    | exact absurd (Option.some.inj hseventh) (by decide)

/-- The texts of a split model and of another type of its name differ where the name ends, so
that their order is seen. -/
theorem texts_not_commute {t u : τ} (ht : declares p t = true) (hu : declares p u = true)
    (hname : p.name t = p.name u)
    (htsplit : p.split t = true) (husplit : p.split u = false) :
    typeText p style title t ++ typeText p style title u ≠
      typeText p style title u ++ typeText p style title t := by
  intro h
  have hlist := congrArg String.toList h
  obtain ⟨k, r, hk, htext⟩ := typeText_split p style title ht htsplit
  obtain ⟨k', c, r', hk', hc, hutext⟩ := typeText_plain p style title hu husplit
  simp only [String.toList_append, htext, hutext, hname, List.append_assoc,
    List.cons_append] at hlist
  obtain rfl := keyword_eq hk hk' hlist
  rw [List.append_cancel_left_eq, List.append_cancel_left_eq] at hlist
  exact hc (List.cons.inj hlist).1.symm

end Heads

section Orders

/-- A pair stands in a list without duplicates in one order only. -/
theorem not_both_orders {α : Type} {l : List α} (h : l.Nodup) {a b : α} (hab : [a, b].Sublist l) :
    ¬[b, a].Sublist l := by
  intro hba
  induction l with
  | nil => cases hab
  | cons x l ih =>
    obtain ⟨hx, hl⟩ := List.nodup_cons.1 h
    cases hab with
    | cons _ hab =>
      cases hba with
      | cons _ hba => exact ih hl hab hba
      | cons_cons _ _ => exact hx (hab.subset (by simp))
    | cons_cons _ hb =>
      cases hba with
      | cons _ hba => exact hx (hba.subset (by simp))
      | cons_cons _ _ => exact hx (hb.subset (by simp))

variable {n : Nat} (p : Program (Fin n)) (style : EnumStyle) (title : List Char → List Char)
  {roots noted : Set (Fin n)}

/-- A run that has come to its end. -/
def Finished (roots noted : Set (Fin n)) (s : State (Fin n)) : Prop :=
  Runs (workList p style title) (start roots noted) s ∧ s.backlog = ∅

/-- What `write_type_interfaces` returns at the end of a run. -/
def result (s : State (Fin n)) : String := orderedText p style title s.processed.reverse

/-- A type that is reached and not primitive. -/
def Written (roots noted : Set (Fin n)) (t : Fin n) : Prop :=
  Reached (workList p style title) roots noted t ∧ ¬p.primitive t = true

theorem Finished.mem_iff {s : State (Fin n)} (h : Finished p style title roots noted s)
    (t : Fin n) :
    t ∈ s.processed.reverse ↔ Written p style title roots noted t := by
  rw [List.mem_reverse]
  exact (run_sound _ h.1).mem_processed_iff _ h.2 t

/-- A run handles each type once. -/
theorem Finished.nodup {s : State (Fin n)} (h : Finished p style title roots noted s) :
    s.processed.reverse.Nodup :=
  List.nodup_reverse.2 (run_sound _ h.1).once

/-- Some run comes to its end. -/
theorem exists_finished (roots noted : Set (Fin n)) : ∃ s, Finished p style title roots noted s :=
  exists_end _ (Set.toFinite _)

/-- The same text for every order, and every name once. -/
def OrderIndependent (roots noted : Set (Fin n)) : Prop :=
  (∀ s s', Finished p style title roots noted s → Finished p style title roots noted s' →
    result p style title s = result p style title s') ∧
  ∀ s, Finished p style title roots noted s →
    (declaredNames p style title s.processed.reverse).Nodup

/-- No two types declare the same name. -/
def NamesApart (roots noted : Set (Fin n)) : Prop :=
  ∀ t u, Written p style title roots noted t → Written p style title roots noted u → t ≠ u →
    List.Disjoint (namesOf p t) (namesOf p u)

/-- Of two types of one name that both declare something, one is reached only through the other. -/
def OrderFixed (roots noted : Set (Fin n)) : Prop :=
  ∀ t u, Written p style title roots noted t → Written p style title roots noted u → t ≠ u →
    p.name t = p.name u →
    declares p t = true → declares p u = true →
    OnlyThrough (workList p style title) roots noted t u ∨
      OnlyThrough (workList p style title) roots noted u t

/-- No name is declared twice, exactly when the names of the types are apart. -/
theorem Finished.nodup_names_iff {s : State (Fin n)} (h : Finished p style title roots noted s) :
    (declaredNames p style title s.processed.reverse).Nodup ↔
      NamesApart p style title roots noted := by
  have hperm := sortBy_perm p.name s.processed.reverse
  have hmem : ∀ t, t ∈ sortBy p.name s.processed.reverse ↔
      Written p style title roots noted t := fun t =>
    hperm.mem_iff.trans (h.mem_iff p style title t)
  have hnodup : (sortBy p.name s.processed.reverse).Nodup :=
    hperm.nodup_iff.2 (h.nodup p style title)
  simp only [declaredNames, declarations_names, List.nodup_flatMap]
  constructor
  · rintro ⟨-, hpairs⟩ t u ht hu hne
    have : Std.Symm (Function.onFun List.Disjoint fun t => namesOf p t) :=
      ⟨fun _ _ h => List.Disjoint.symm h⟩
    exact hpairs.forall ((hmem t).2 ht) ((hmem u).2 hu) hne
  · intro happart
    exact ⟨fun t _ => namesOf_nodup p t, hnodup.pairwise_of_forall_ne fun t ht u hu hne =>
      happart t u ((hmem t).1 ht) ((hmem u).1 hu) hne⟩

/-- What is reached only through a type is written behind it. -/
theorem Finished.order {s : State (Fin n)} (h : Finished p style title roots noted s) {t u : Fin n}
    (hthrough : OnlyThrough (workList p style title) roots noted t u)
    (hu : Written p style title roots noted u) :
    [t, u].Sublist s.processed.reverse := by
  have hmem : u ∈ s.processed := List.mem_reverse.1 ((h.mem_iff p style title u).2 hu)
  exact List.reverse_sublist.2 (processed_after _ h.1 hthrough hmem)

/-- The order of two types in the text, where it is the same in every run. -/
def Before (roots noted : Set (Fin n)) (t u : Fin n) : Prop :=
  p.name t < p.name u ∨ p.name t = p.name u ∧ OnlyThrough (workList p style title) roots noted t u

def declaring (s : State (Fin n)) : List (Fin n) :=
  (sortBy p.name s.processed.reverse).filter (declares p)

theorem join_declaring (l : List (Fin n)) :
    String.join (l.map (typeText p style title)) =
      String.join ((l.filter (declares p)).map (typeText p style title)) := by
  induction l with
  | nil => rfl
  | cons t l ih =>
    rw [List.map_cons, String.join_cons, ih]
    cases h : declares p t with
    | true => rw [List.filter_cons_of_pos h, List.map_cons, String.join_cons]
    | false =>
      rw [List.filter_cons_of_neg (by simp [h]), typeText_eq_empty p style title h,
        String.empty_append]

theorem Finished.mem_declaring {s : State (Fin n)} (h : Finished p style title roots noted s)
    {t : Fin n} :
    t ∈ declaring p s ↔ Written p style title roots noted t ∧ declares p t = true := by
  rw [declaring, List.mem_filter, (sortBy_perm p.name _).mem_iff, h.mem_iff p style title t]

theorem Finished.declaring_nodup {s : State (Fin n)} (h : Finished p style title roots noted s) :
    (declaring p s).Nodup :=
  ((sortBy_perm p.name _).nodup_iff.2 (h.nodup p style title)).filter _

/-- Where the order is fixed, the types are written in it in every run. -/
theorem Finished.pairwise_before {s : State (Fin n)} (h : Finished p style title roots noted s)
    (hfixed : OrderFixed p style title roots noted) :
    (declaring p s).Pairwise (Before p style title roots noted) := by
  refine List.pairwise_iff_forall_sublist.2 fun {t u} hpair => ?_
  have hsorted : [t, u].Sublist (sortBy p.name s.processed.reverse) :=
    hpair.trans List.filter_sublist
  obtain ⟨ht, htd⟩ := (h.mem_declaring p style title).1 (hpair.subset List.mem_cons_self)
  obtain ⟨hu, hud⟩ :=
    (h.mem_declaring p style title).1 (hpair.subset (List.mem_cons_of_mem _ List.mem_cons_self))
  have hne : t ≠ u := by
    have := (h.declaring_nodup p style title).sublist hpair
    simpa using this
  rcases (List.pairwise_pair.1
    ((pairwise_sortBy p.name _).sublist hsorted)).lt_or_eq with hlt | hname
  · exact .inl hlt
  · have horder := pair_sublist_of_sortBy p.name hsorted hname
    rcases hfixed t u ht hu hne hname htd hud with hthrough | hthrough
    · exact .inr ⟨hname, hthrough⟩
    · exact absurd (h.order p style title hthrough ht)
        (not_both_orders (h.nodup p style title) horder)

/-- Where the order is fixed, the text is the same for every run. -/
theorem result_eq_of_fixed (hfixed : OrderFixed p style title roots noted) {s s' : State (Fin n)}
    (h : Finished p style title roots noted s) (h' : Finished p style title roots noted s') :
    result p style title s = result p style title s' := by
  have hperm : (declaring p s).Perm (declaring p s') :=
    (List.perm_ext_iff_of_nodup (h.declaring_nodup p style title)
      (h'.declaring_nodup p style title)).2 fun t =>
      (h.mem_declaring p style title).trans (h'.mem_declaring p style title).symm
  have heq : declaring p s = declaring p s' := by
    refine List.Perm.eq_of_pairwise ?_ (h.pairwise_before p style title hfixed)
      (h'.pairwise_before p style title hfixed) hperm
    rintro t u ht hu (hlt | ⟨hname, hthrough⟩) (hlt' | ⟨hname', hthrough'⟩)
    · exact absurd hlt' hlt.not_gt
    · exact absurd hname'.symm hlt.ne
    · exact absurd hname.symm hlt'.ne
    · have htu := h.order p style title hthrough ((h'.mem_declaring p style title).1 hu).1
      have hut := h.order p style title hthrough' ((h.mem_declaring p style title).1 ht).1
      exact absurd hut (not_both_orders (h.nodup p style title) htu)
  rw [result, result, orderedText, orderedText, join_declaring,
    join_declaring p style title (sortBy p.name s'.processed.reverse)]
  exact congrArg (fun l => String.join (l.map (typeText p style title))) heq

/-- Where names are apart, only two types of one name declare something: a split model and another
type. -/
theorem Finished.same_name {s : State (Fin n)} (h : Finished p style title roots noted s)
    (happart : NamesApart p style title roots noted) {t u : Fin n}
    (hpair : [t, u].Sublist s.processed.reverse)
    (hne : t ≠ u) (hname : p.name t = p.name u) (htd : declares p t = true)
    (hud : declares p u = true) :
    (declaring p s).filter (fun v => decide (p.name v = p.name u)) = [t, u] := by
  have hgroup : (declaring p s).filter (fun v => decide (p.name v = p.name u)) =
      (s.processed.reverse.filter fun v => decide (p.name v = p.name u)).filter (declares p) := by
    rw [declaring, List.filter_filter, ← filter_sortBy, List.filter_filter]
    exact List.filter_congr fun v _ => Bool.and_comm ..
  have hself : ([t, u].filter fun v => decide (p.name v = p.name u)).filter
      (declares p) = [t, u] := by
    simp [hname, htd, hud]
  have hsub : [t, u].Sublist ((declaring p s).filter fun v => decide (p.name v = p.name u)) := by
    rw [hgroup, ← hself]
    exact (hpair.filter _).filter _
  have hwritten : ∀ {v}, v ∈ s.processed.reverse → Written p style title roots noted v := fun hv =>
    (h.mem_iff p style title _).1 hv
  have ht := hwritten (hpair.subset List.mem_cons_self)
  have hu := hwritten (hpair.subset (List.mem_cons_of_mem _ List.mem_cons_self))
  have hdistinct : ∀ {v w}, Written p style title roots noted v →
      Written p style title roots noted w → p.name v = p.name w →
      declares p v = true → declares p w = true → p.split v = p.split w → v = w := by
    intro v w hv hw hvw hvd hwd hsplit
    by_contra hvne
    obtain ⟨k, hkv, hkw⟩ := shared_name p hvd hwd hvw hsplit
    exact happart v w hv hw hvne hkv hkw
  refine (hsub.eq_of_length_le ?_).symm
  refine List.Nodup.length_le_of_subset ((h.declaring_nodup p style title).filter _) fun v hv => ?_
  obtain ⟨hmem, hvname⟩ := List.mem_filter.1 hv
  obtain ⟨hvw, hvd⟩ := (h.mem_declaring p style title).1 hmem
  have hvname := of_decide_eq_true hvname
  have hsplit : p.split t ≠ p.split u := fun hsplit => hne (hdistinct ht hu hname htd hud hsplit)
  by_cases hvt : p.split v = p.split t
  · rw [hdistinct hvw ht (hvname.trans hname.symm) hvd htd hvt]
    exact List.mem_cons_self
  · have hvu : p.split v = p.split u := by
      cases hv : p.split v <;> cases ht : p.split t <;> cases hu : p.split u <;> simp_all
    rw [hdistinct hvw hu hvname hvd hud hvu]
    exact List.mem_cons_of_mem _ List.mem_cons_self

/-- The text in three parts. -/
theorem result_parts (s : State (Fin n)) (k : String) :
    result p style title s =
      String.join (((declaring p s).filter fun v => decide (p.name v < k)).map
        (typeText p style title)) ++
      String.join (((declaring p s).filter fun v => decide (p.name v = k)).map
        (typeText p style title)) ++
      String.join (((declaring p s).filter fun v => decide (k < p.name v)).map
        (typeText p style title)) := by
  have hsorted : (declaring p s).Pairwise fun a b => p.name a ≤ p.name b :=
    (pairwise_sortBy p.name _).sublist List.filter_sublist
  have hparts :=
    congrArg (fun l => String.join (l.map (typeText p style title)))
    (eq_three_parts p.name hsorted k)
  simp only [List.map_append, String.join_append] at hparts
  rw [result, orderedText, join_declaring]
  exact hparts

theorem length_join_perm {l l' : List (Fin n)} (h : l.Perm l') :
    (String.join (l.map (typeText p style title))).toList.length =
      (String.join (l'.map (typeText p style title))).toList.length := by
  rw [String.toList_join, String.toList_join]
  exact ((h.map _).flatMap_right _).length_eq

/-- Where text and names do not depend on the order, no pair of one name can stand both ways. -/
theorem fixed_of_independent (h : OrderIndependent p style title roots noted)
    (happart : NamesApart p style title roots noted) : OrderFixed p style title roots noted := by
  intro t u ht hu hne hname htd hud
  by_contra hfree
  rw [not_or] at hfree
  obtain ⟨s, hrun, hend, horder⟩ := exists_before _ (Set.toFinite _) ht hfree.1 hu.2 hne.symm
  obtain ⟨s', hrun', hend', horder'⟩ := exists_before _ (Set.toFinite _) hu hfree.2 ht.2 hne
  have hs : Finished p style title roots noted s := ⟨hrun, hend⟩
  have hs' : Finished p style title roots noted s' := ⟨hrun', hend'⟩
  have hgroup :=
    hs.same_name p style title happart (List.reverse_sublist.2 horder) hne.symm hname.symm hud htd
  have hgroup' :=
    hs'.same_name p style title happart (List.reverse_sublist.2 horder') hne hname htd hud
  have hperm : (declaring p s).Perm (declaring p s') :=
    (List.perm_ext_iff_of_nodup (hs.declaring_nodup p style title)
      (hs'.declaring_nodup p style title)).2 fun v =>
      (hs.mem_declaring p style title).trans (hs'.mem_declaring p style title).symm
  have hsame := h.1 s s' hs hs'
  rw [result_parts p style title s (p.name t), result_parts p style title s' (p.name t), hgroup,
    hname, hgroup'] at hsame
  have hlist := congrArg String.toList hsame
  simp only [String.toList_append, List.append_assoc] at hlist
  obtain ⟨-, hlist⟩ := List.append_inj hlist (length_join_perm p style title (hperm.filter _))
  have hswap := (List.append_inj hlist (length_join_perm p style title (List.Perm.swap t u []))).1
  have htexts : typeText p style title u ++ typeText p style title t =
      typeText p style title t ++ typeText p style title u := by
    rw [← String.toList_inj, String.toList_append, String.toList_append]
    simpa using hswap
  have hsplit : p.split t ≠ p.split u := by
    intro hsplit
    obtain ⟨k, hkt, hku⟩ := shared_name p htd hud hname hsplit
    exact happart t u ht hu hne hkt hku
  cases htsplit : p.split t with
  | true =>
    have husplit : p.split u = false := by simpa [htsplit] using hsplit
    exact texts_not_commute p style title htd hud hname htsplit husplit htexts.symm
  | false =>
    have husplit : p.split u = true := by simpa [htsplit] using hsplit
    exact texts_not_commute p style title hud htd hname.symm husplit htsplit htexts

/-- The text is the same for every order and declares every name once, if and only if no two types
that are reached declare the same name and, of two that declare something under one name, one is
reached only through the other. -/
theorem order_independent_iff (roots noted : Set (Fin n)) :
    OrderIndependent p style title roots noted ↔
      NamesApart p style title roots noted ∧ OrderFixed p style title roots noted := by
  constructor
  · intro h
    obtain ⟨s, hs⟩ := exists_finished p style title roots noted
    have happart := (hs.nodup_names_iff p style title).1 (h.2 s hs)
    exact ⟨happart, fixed_of_independent p style title h happart⟩
  · rintro ⟨happart, hfixed⟩
    exact ⟨fun s s' hs hs' => result_eq_of_fixed p style title hfixed hs hs',
      fun s hs => (hs.nodup_names_iff p style title).2 happart⟩

/-- An enumeration `Status` of one module and a model `Status` of another. -/
def statuses : Program (Fin 2) where
  name _ := "Status"
  shape t := if t = 0 then .enum [("ACTIVE", "active")] else .cls {}
  extractAllEnvolvedTypes t := [t]
  fieldTypeForTs _ _ := "Status"

theorem statuses_written (t : Fin 2) : Written statuses .enum id Set.univ ∅ t :=
  ⟨.root (Set.mem_univ t), nofun⟩

theorem statuses_processed {s : State (Fin 2)} (h : Finished statuses .enum id Set.univ ∅ s)
    {t u : Fin 2}
    (hpair : [t, u].Sublist s.processed) : s.processed = [t, u] := by
  have hlength : s.processed.length ≤ [t, u].length := by
    simpa using ((run_sound _ h.1).once).length_le_card
  exact (hpair.eq_of_length_le hlength).symm

theorem statuses_text (t u : Fin 2) : orderedText statuses .enum id [t, u] =
    typeText statuses .enum id t ++ typeText statuses .enum id u := by
  have hsorted : sortBy statuses.name [t, u] = [t, u] :=
    List.mergeSort_of_pairwise (by simp [statuses])
  rw [orderedText, hsorted]
  simp

theorem statuses_free (t u : Fin 2) : ¬OnlyThrough (workList statuses .enum id) Set.univ ∅ t u :=
  not_not.2 (.root (Set.mem_univ u))

theorem statuses_enum : ∃ r, typeText statuses .enum id 0 = "export enum " ++ r := by
  have hparse : declarations statuses .enum id 0 =
      [⟨"Status" ++ "", enumText .enum ("Status" ++ "") [("ACTIVE", "active")]⟩] := rfl
  rw [typeText, hparse, List.map_cons, String.join_cons, enumText, String.join_cons,
    String.append_assoc]
  exact ⟨_, rfl⟩

theorem statuses_interface : ∃ r, typeText statuses .enum id 1 = "export interface " ++ r := by
  have hparse : declarations statuses .enum id 1 =
      [⟨"Status" ++ "", interfaceText statuses id 1 "" none {}⟩] := rfl
  rw [typeText, hparse, List.map_cons, String.join_cons, interfaceText, String.join_cons,
    String.append_assoc]
  exact ⟨_, rfl⟩

/-- Two types of one name: the text depends on the order, and the name is declared twice. -/
theorem status_declared_twice :
    (∃ s s', Finished statuses .enum id Set.univ ∅ s ∧ Finished statuses .enum id Set.univ ∅ s' ∧
      result statuses .enum id s ≠ result statuses .enum id s') ∧
    (∀ s, Finished statuses .enum id Set.univ ∅ s →
      ¬(declaredNames statuses .enum id s.processed.reverse).Nodup) ∧
    ¬OrderIndependent statuses .enum id Set.univ ∅ := by
  have hnames : ∀ s, Finished statuses .enum id Set.univ ∅ s →
      ¬(declaredNames statuses .enum id s.processed.reverse).Nodup := by
    intro s hs hnodup
    have happart := (hs.nodup_names_iff statuses .enum id).1 hnodup
    exact happart 0 1 (statuses_written 0) (statuses_written 1) (by decide) (a := "Status")
      (by decide) (by decide)
  obtain ⟨s, hrun, hend, horder⟩ :=
    exists_before _ (Set.toFinite _) (statuses_written 0) (statuses_free 0 1)
    (statuses_written 1).2 (by decide)
  obtain ⟨s', hrun', hend', horder'⟩ :=
    exists_before _ (Set.toFinite _) (statuses_written 1) (statuses_free 1 0)
    (statuses_written 0).2 (by decide)
  refine ⟨⟨s, s', ⟨hrun, hend⟩, ⟨hrun', hend'⟩, fun hsame => ?_⟩, hnames,
    fun h => hnames s ⟨hrun, hend⟩ (h.2 s ⟨hrun, hend⟩)⟩
  rw [result, result, statuses_processed ⟨hrun, hend⟩ horder,
    statuses_processed ⟨hrun', hend'⟩ horder'] at hsame
  have htext : orderedText statuses .enum id [1, 0] = orderedText statuses .enum id [0, 1] := hsame
  obtain ⟨r, hr⟩ := statuses_enum
  obtain ⟨r', hr'⟩ := statuses_interface
  have hlist := congrArg String.toList htext
  rw [statuses_text, statuses_text, hr, hr', String.append_assoc, String.append_assoc,
    String.toList_append,
    String.toList_append (s := "export enum ")] at hlist
  exact absurd (keyword_eq (.inl rfl) (.inr (.inl rfl)) hlist) (by decide)

end Orders

end InterfaceOrder
