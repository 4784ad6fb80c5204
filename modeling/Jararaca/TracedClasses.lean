import Jararaca.ClassDecorators

/-!
# Traced classes

`TracedClass` of observability/decorators.py over any class hierarchy: what the decoration of a
class puts into its `__dict__`, what a call of a method runs from then on, and the spans it begins.
-/
namespace TracedClasses

open ClassDecorators (Hierarchy)

variable {κ ι α δ : Type}

/-! ## Attributes and their calls -/

/-- What stands in the `__dict__` of a class: a function, a wrapper of `TracedFunc`, or something
that `inspect.isfunction` is false of. A `trace_mapper` may raise. -/
inductive Attribute (ι α δ : Type) where
  | function (body : ι) (coroutine : Bool)
  | wrapper (traceName : String) (traceMapper : α → Option δ) (decorated : Attribute ι α δ)
  | other (value : ι)

namespace Attribute

def isCoroutineFunction : Attribute ι α δ → Bool
  | .function _ coroutine => coroutine
  | .wrapper .. => true
  | .other _ => false

/-- What is behind all the wrappers. -/
def body : Attribute ι α δ → ι
  | .function body _ => body
  | .wrapper _ _ decorated => decorated.body
  | .other value => value

/-- The spans that a call begins, the outer ones first, and the body that it comes to. -/
def call (provider : Bool) (args : α) : Attribute ι α δ → List (String × δ) × Option ι
  | .function body _ => ([], some body)
  | .other value => ([], some value)
  | .wrapper traceName traceMapper decorated =>
    if provider then
      match traceMapper args with
      | some attributes =>
        ((traceName, attributes) :: (decorated.call provider args).1,
          (decorated.call provider args).2)
      | none => ([], none)
    else decorated.call provider args

end Attribute

structure TracedClass (α δ : Type) where
  traceNamePrefix : Option String := none
  traceMapper : α → Option δ
  includePrivate : Bool := false
  excludeMethods : List String := []

def TracedClass.selects (d : TracedClass α δ) (name : String) : Bool :=
  !d.excludeMethods.contains name && (d.includePrivate || name.toList.head? != some '_')

def TracedClass.traceName (d : TracedClass α δ) (className name : String) : String :=
  (match d.traceNamePrefix with
    | some given => if given = "" then className else given
    | none => className) ++ "." ++ name

abbrev Dicts (κ ι α δ : Type) := κ → String → Option (Attribute ι α δ)

variable [DecidableEq κ] (h : Hierarchy κ) (className : κ → String)

/-- The attribute that a class shows: the one of the first class of its order that has it. -/
def lookup (s : Dicts κ ι α δ) (c : κ) (name : String) : Option (Attribute ι α δ) :=
  (h.mro c).findSome? fun b => s b name

/-- `TracedClass.__call__`: the members with their bases' are gone through, and the wrappers are set
on the class itself. -/
def trace (s : Dicts κ ι α δ) (c : κ) (d : TracedClass α δ) : Dicts κ ι α δ := fun b name =>
  if b = c then
    match lookup h s c name with
    | some m =>
      if d.selects name && m.isCoroutineFunction then
        some (.wrapper (d.traceName (className c) name) d.traceMapper m)
      else s c name
    | none => s c name
  else s b name

/-- Decorations, one after the other. -/
def traceAll (log : List (κ × TracedClass α δ)) (own : Dicts κ ι α δ) : Dicts κ ι α δ :=
  log.foldl (fun s e => trace h className s e.1 e.2) own

/-! ## One decoration -/

section One

variable {h className} {s : Dicts κ ι α δ} {c x : κ} {d : TracedClass α δ} {name : String}

theorem trace_ne {b : κ} (hb : b ≠ c) : trace h className s c d b name = s b name := if_neg hb

/-- Where the decoration does not reach, it changes no attribute. -/
theorem trace_untraced (hm : ∀ m, lookup h s c name = some m →
    (d.selects name && m.isCoroutineFunction) = false)
    (b : κ) : trace h className s c d b name = s b name := by
  unfold trace
  split
  · rename_i hb
    subst hb
    cases hlookup : lookup h s b name with
    | none => rfl
    | some m => simp [hm m hlookup]
  · rfl

theorem trace_traced {m : Attribute ι α δ} (hm : lookup h s c name = some m)
    (htraced : (d.selects name && m.isCoroutineFunction) = true) :
    trace h className s c d c name =
      some (.wrapper (d.traceName (className c) name) d.traceMapper m) := by
  simp [trace, hm, htraced]

theorem findSome?_trace {classes : List κ} (hc : c ∉ classes) :
    (classes.findSome? fun b => trace h className s c d b name) = classes.findSome? fun b =>
      s b name := by
  induction classes with
  | nil => rfl
  | cons b classes ih =>
    obtain ⟨hb, hrest⟩ := not_or.mp (List.mem_cons.not.mp hc)
    rw [List.findSome?_cons, List.findSome?_cons, trace_ne (Ne.symm hb), ih hrest]

/-- A class behind which the order of `x` goes on as its own order does. -/
def Straight (h : Hierarchy κ) (c x : κ) : Prop :=
  c ∈ h.mro x → h.mro c <+: (h.mro x).dropWhile (· ≠ c)

theorem dropWhile_split {classes : List κ} {pre post : List κ} (hsplit : classes = pre ++ c :: post)
    (hpre : c ∉ pre) :
    classes.dropWhile (· ≠ c) = c :: post := by
  subst hsplit
  rw [List.dropWhile_append_of_pos, List.dropWhile_cons_of_neg (by simp)]
  intro b hb
  have hne : b ≠ c := fun he => hpre (he ▸ hb)
  simpa using hne

omit [DecidableEq κ] in
/-- A class is once in an order that has it. -/
theorem mro_split (hc : c ∈ h.mro x) :
    ∃ pre post, h.mro x = pre ++ c :: post ∧ c ∉ pre ∧ c ∉ post := by
  obtain ⟨pre, post, hsplit⟩ := List.append_of_mem hc
  have hnodup := h.nodup x
  rw [hsplit, List.nodup_append, List.nodup_cons] at hnodup
  exact ⟨pre, post, hsplit, fun hpre => hnodup.2.2 c hpre c List.mem_cons_self rfl, hnodup.2.1.1⟩

/-- Tracing a class leaves the bodies of its methods alone. -/
theorem trace_keeps_body (hstraight : Straight h c x) :
    (lookup h (trace h className s c d) x name).map Attribute.body =
      (lookup h s x name).map Attribute.body := by
  by_cases hm : ∃ m, lookup h s c name = some m ∧ (d.selects name && m.isCoroutineFunction) = true
  · obtain ⟨m, hm, htraced⟩ := hm
    by_cases hc : c ∈ h.mro x
    · obtain ⟨pre, post, hsplit, hpre, hpost⟩ := mro_split hc
      obtain ⟨rest, hrest⟩ := hstraight hc
      rw [dropWhile_split hsplit hpre] at hrest
      have hfound : ((c :: post).findSome? fun b => s b name) = some m := by
        rw [← hrest, List.findSome?_append,
          show ((h.mro c).findSome? fun b => s b name) = some m from hm]
        rfl
      rw [lookup, lookup, hsplit, List.findSome?_append, List.findSome?_append,
        findSome?_trace hpre, hfound,
        List.findSome?_cons, trace_traced hm htraced]
      cases (pre.findSome? fun b => s b name) <;> rfl
    · rw [lookup, lookup, findSome?_trace hc]
  · have hsame : ∀ b, trace h className s c d b name = s b name := by
      refine trace_untraced fun m hlookup => ?_
      rw [Bool.eq_false_iff]
      exact fun htraced => hm ⟨m, hlookup, htraced⟩
    simp only [lookup, hsame]

/-- Lists of which the first is a part of the second go apart at an element that only the second
has, unless the first is how the second begins. -/
theorem exists_apart : ∀ {bases post : List κ}, bases.Sublist post → post.Nodup → ¬ bases <+: post →
    ∃ p b e r r', bases = p ++ b :: r ∧ post = p ++ e :: r' ∧ e ≠ b ∧ b ∈ r'
  | [], post, _, _, hprefix => absurd (List.nil_prefix) hprefix
  | b :: r, [], hsub, _, _ => by cases hsub
  | b :: r, e :: r', hsub, hnodup, hprefix => by
    obtain ⟨he, hnodup'⟩ := List.nodup_cons.mp hnodup
    by_cases hbe : b = e
    · subst hbe
      have hsub' : r.Sublist r' := by simpa using hsub
      have hprefix' : ¬ r <+: r' := fun hp => hprefix (List.cons_prefix_cons.mpr ⟨rfl, hp⟩)
      obtain ⟨p, b', e', q, q', hbases, hpost, hne, hmem⟩ := exists_apart hsub' hnodup' hprefix'
      exact ⟨b :: p, b', e', q, q', by rw [hbases]; rfl, by rw [hpost]; rfl, hne, hmem⟩
    · refine ⟨[], b, e, r, r', rfl, rfl, Ne.symm hbe, ?_⟩
      cases hsub with
      | cons _ hsub => exact hsub.subset List.mem_cons_self
      | cons_cons => exact absurd rfl hbe

omit [DecidableEq κ] in
/-- Where the order of a class keeps those of its bases, the bases of `c` come behind `c` in their
order. -/
theorem bases_sublist (hmonotone : ∀ x, ∀ c ∈ h.mro x, (h.mro c).Sublist (h.mro x))
    {bases pre post : List κ}
    (hbases : h.mro c = c :: bases) (hsplit : h.mro x = pre ++ c :: post) (hpre : c ∉ pre) :
    bases.Sublist post := by
  have hwhole := hmonotone x c (hsplit ▸ List.mem_append_right pre List.mem_cons_self)
  rw [hbases, hsplit] at hwhole
  obtain ⟨first, rest, hparts, hfirst, hrest⟩ := List.sublist_append_iff.mp hwhole
  cases first with
  | nil =>
    rw [List.nil_append] at hparts
    subst hparts
    exact List.cons_sublist_cons.mp hrest
  | cons y first =>
    obtain rfl : c = y := (List.cons.inj hparts).1
    exact absurd (hfirst.subset List.mem_cons_self) hpre

/-- Classes of which `b` has every method, and `e` another one in its place. -/
def overriding (b e : κ) (inherited override : ι) : Dicts κ ι α δ := fun y _ =>
  if y = b then some (.function inherited true)
  else if y = e then some (.function override true) else none

theorem overriding_none {b e y : κ} {inherited override : ι} (hb : y ≠ b) (he : y ≠ e) :
    (overriding b e inherited override : Dicts κ ι α δ) y name = none := by
  simp [overriding, hb, he]

theorem findSome?_overriding {b e : κ} {inherited override : ι} {classes rest : List κ}
    (hb : b ∉ classes)
    (he : e ∉ classes) :
    ((classes ++ rest).findSome? fun y =>
      (overriding b e inherited override : Dicts κ ι α δ) y name) =
      rest.findSome? fun y => (overriding b e inherited override : Dicts κ ι α δ) y name := by
  rw [List.findSome?_append, List.findSome?_eq_none_iff.mpr, Option.none_or]
  intro y hy
  exact overriding_none (fun h => hb (h ▸ hy)) fun h => he (h ▸ hy)

variable (className) in
/-- Where the order behind `c` goes on with `e` before the base of `c` that has the method, tracing
`c` puts the method of that base before the one of `e`. -/
theorem trace_hides {b e : κ} {p r q pre post : List κ} (hbases : h.mro c = c :: (p ++ b :: r))
    (hsplit : h.mro x = pre ++ c :: post) (hpost : post = p ++ e :: q) (hne : e ≠ b) (hb : b ∈ q)
    (hselects : d.selects name = true) (inherited override : ι) :
    (lookup h (trace h className (overriding b e inherited override) c d) x name).map
      Attribute.body = some inherited ∧
      (lookup h (overriding b e inherited override : Dicts κ ι α δ) x name).map Attribute.body =
        some override := by
  have hbpost : b ∈ post := hpost ▸ List.mem_append_right p (List.mem_cons_of_mem e hb)
  have hepost : e ∈ post := hpost ▸ List.mem_append_right p List.mem_cons_self
  have hnodup := h.nodup x
  rw [hsplit, List.nodup_append, List.nodup_cons] at hnodup
  obtain ⟨-, ⟨hcpost, hnodup⟩, hdisjoint⟩ := hnodup
  rw [hpost, List.nodup_append] at hnodup
  obtain ⟨-, -, hapart⟩ := hnodup
  have hpre : ∀ y ∈ c :: post, y ∉ pre := fun y hy hpre => hdisjoint y hpre y hy rfl
  have hbpre : b ∉ pre := hpre b (List.mem_cons_of_mem c hbpost)
  have hepre : e ∉ pre := hpre e (List.mem_cons_of_mem c hepost)
  have hbp : b ∉ p := fun h => hapart b h b (List.mem_cons_of_mem e hb) rfl
  have hep : e ∉ p := fun h => hapart e h e List.mem_cons_self rfl
  have hown : (overriding b e inherited override : Dicts κ ι α δ) c name = none :=
    overriding_none (fun h => hcpost (h ▸ hbpost)) fun h => hcpost (h ▸ hepost)
  have hfound : lookup h (overriding b e inherited override : Dicts κ ι α δ) c name =
      some (.function inherited true) := by
    rw [lookup, hbases, List.findSome?_cons, hown]
    dsimp only
    rw [findSome?_overriding hbp hep, List.findSome?_cons]
    simp [overriding]
  constructor
  · have htraced : trace h className (overriding b e inherited override) c d c name =
        some (.wrapper (d.traceName (className c) name) d.traceMapper (.function inherited true)) :=
      trace_traced hfound (by simp [hselects, Attribute.isCoroutineFunction])
    rw [lookup, hsplit, List.findSome?_append, findSome?_trace (hpre c List.mem_cons_self),
      ← List.append_nil pre, findSome?_overriding hbpre hepre, List.findSome?_cons, htraced]
    rfl
  · rw [lookup, hsplit, findSome?_overriding hbpre hepre, List.findSome?_cons, hown]
    dsimp only
    rw [hpost, findSome?_overriding hbp hep, List.findSome?_cons]
    simp [overriding, hne, Attribute.body]

variable (className) in
/-- A decorated class keeps what a class below it runs, whatever the classes define, exactly where
the order below it goes on as its own: its wrappers are copies of what the class itself inherits,
and go before an override that comes in from the side. -/
theorem tracing_keeps_method_iff [Nontrivial ι]
    (hmonotone : ∀ x, ∀ c ∈ h.mro x, (h.mro c).Sublist (h.mro x))
    (hselects : d.selects name = true) :
    (∀ s : Dicts κ ι α δ, (lookup h (trace h className s c d) x name).map Attribute.body =
        (lookup h s x name).map Attribute.body) ↔ Straight h c x := by
  refine ⟨fun hkeeps hc => ?_, fun hstraight s => trace_keeps_body hstraight⟩
  obtain ⟨pre, post, hsplit, hpre, hpost⟩ := mro_split hc
  obtain ⟨bases, hbases⟩ := h.mro_eq c
  rw [dropWhile_split hsplit hpre, hbases, List.cons_prefix_cons]
  refine ⟨rfl, ?_⟩
  by_contra hprefix
  have hnodup := h.nodup x
  rw [hsplit, List.nodup_append, List.nodup_cons] at hnodup
  obtain ⟨p, b, e, r, r', hb, he, hne, hmem⟩ :=
    exists_apart (bases_sublist hmonotone hbases hsplit hpre) hnodup.2.1.2 hprefix
  obtain ⟨inherited, override, hbodies⟩ := exists_pair_ne ι
  -- `b` has the method that `c` inherits, and `e` overrides it for `x`
  obtain ⟨hafter, hbefore⟩ :=
    trace_hides className (hb ▸ hbases) hsplit he hne hmem hselects inherited override
  have hsame := hkeeps (overriding b e inherited override)
  rw [hafter, hbefore] at hsame
  exact hbodies (Option.some.inj hsame)

end One

/-- The bottom class has the left one first, and both have one base. -/
inductive Diamond where
  | base
  | left
  | right
  | bottom
  deriving DecidableEq

def Diamond.hierarchy : Hierarchy Diamond where
  mro
    | .base => [.base]
    | .left => [.left, .base]
    | .right => [.right, .base]
    | .bottom => [.bottom, .left, .right, .base]
  head c := by cases c <;> rfl
  nodup c := by cases c <;> decide
  closed c := by cases c <;> decide

theorem Diamond.monotone :
    ∀ x, ∀ c ∈ hierarchy.mro x, (hierarchy.mro c).Sublist (hierarchy.mro x) := by
  intro x
  cases x <;> decide

/-- The arguments of `@TracedClass()`. -/
def plainTraced : TracedClass Unit Unit where
  traceMapper := some

/-- Traced, the left class hides what the right one overrides. -/
theorem traced_left_hides_override : ¬∀ s : Dicts Diamond Bool Unit Unit,
    (lookup Diamond.hierarchy
      (trace Diamond.hierarchy (fun _ => "Left") s .left plainTraced) .bottom "run").map
        Attribute.body =
      (lookup Diamond.hierarchy s .bottom "run").map Attribute.body := by
  rw [tracing_keeps_method_iff (fun _ => "Left") Diamond.monotone (by decide)]
  unfold Straight
  decide

/-! ## The spans of a call -/

section All

/-- The decorations of a class that select a name, the last one first. -/
def tracers (log : List (κ × TracedClass α δ)) (name : String) (c : κ) :
    List (κ × TracedClass α δ) :=
  (log.filter fun e => decide (e.1 = c) && e.2.selects name).reverse

/-- A method in the wrappers of some decorations, the first of them outermost. -/
def wrapAll (className : κ → String) (name : String) (decorations : List (κ × TracedClass α δ))
    (m : Attribute ι α δ) : Attribute ι α δ :=
  if m.isCoroutineFunction then
    decorations.foldr (fun e m => .wrapper (e.2.traceName (className e.1) name) e.2.traceMapper m) m
  else m

/-- What classes show that inherit one from the other: each adds the wrappers of its decorations. -/
def resolved (className : κ → String) (log : List (κ × TracedClass α δ)) (own : Dicts κ ι α δ)
    (name : String) :
    List κ → Option (Attribute ι α δ)
  | [] => none
  | b :: bases => ((own b name).or (resolved className log own name bases)).map
      (wrapAll className name (tracers log name b))

/-- The bases of a class are decorated before it, as the decorator of a class is applied when the
class statement ends. -/
def BasesFirst (h : Hierarchy κ) (log : List (κ × TracedClass α δ)) : Prop :=
  log.Pairwise fun e e' => e'.1 ∈ h.mro e.1 → e'.1 = e.1

/-- Every class of the order inherits as the order goes on behind it. -/
def Single (h : Hierarchy κ) (x : κ) : Prop := ∀ c ∈ h.mro x, h.mro c <:+ h.mro x

variable {h className} {own s : Dicts κ ι α δ} {x : κ} {name : String}
  {log : List (κ × TracedClass α δ)}

omit [DecidableEq κ] in
@[simp] theorem wrapAll_nil (m : Attribute ι α δ) : wrapAll className name [] m = m := by
  simp [wrapAll]

omit [DecidableEq κ] in
@[simp] theorem wrapAll_isCoroutineFunction (decorations : List (κ × TracedClass α δ))
    (m : Attribute ι α δ) :
    (wrapAll className name decorations m).isCoroutineFunction = m.isCoroutineFunction := by
  unfold wrapAll
  split
  · cases decorations with
    | nil => rfl
    | cons e rest => simp_all [Attribute.isCoroutineFunction]
  · rfl

omit [DecidableEq κ] in
theorem wrapAll_plain (decorations : List (κ × TracedClass α δ)) {m : Attribute ι α δ}
    (hm : m.isCoroutineFunction = false) : wrapAll className name decorations m = m := by
  simp [wrapAll, hm]

omit [DecidableEq κ] in
theorem wrapAll_cons (e : κ × TracedClass α δ) (decorations : List (κ × TracedClass α δ))
    {m : Attribute ι α δ}
    (hm : m.isCoroutineFunction = true) : wrapAll className name (e :: decorations) m =
      .wrapper (e.2.traceName (className e.1) name) e.2.traceMapper
        (wrapAll className name decorations m) := by
  simp [wrapAll, hm]

omit [DecidableEq κ] in
theorem wrapAll_append (later earlier : List (κ × TracedClass α δ)) (m : Attribute ι α δ) :
    wrapAll className name (later ++ earlier) m =
      wrapAll className name later (wrapAll className name earlier m) := by
  cases hm : m.isCoroutineFunction with
  | false => rw [wrapAll_plain _ hm, wrapAll_plain _ hm, wrapAll_plain _ hm]
  | true =>
    induction later with
    | nil => simp
    | cons e later ih =>
      have hearlier : (wrapAll className name earlier m).isCoroutineFunction = true := by simp [hm]
      rw [List.cons_append, wrapAll_cons _ _ hm, ih, wrapAll_cons _ _ hearlier]

theorem tracers_append (c b : κ) (d : TracedClass α δ) : tracers (log ++ [(c, d)]) name b =
    (if b = c ∧ d.selects name then [(c, d)] else []) ++ tracers log name b := by
  by_cases hb : c = b
  · subst hb
    cases hd : d.selects name <;> simp [tracers, hd]
  · simp [tracers, hb, Ne.symm hb]

theorem resolved_congr {log' : List (κ × TracedClass α δ)} {classes : List κ}
    (hsame : ∀ b ∈ classes, tracers log' name b = tracers log name b) :
    resolved className log' own name classes = resolved className log own name classes := by
  induction classes with
  | nil => rfl
  | cons b bases ih =>
    obtain ⟨hb, hbases⟩ := List.forall_mem_cons.mp hsame
    rw [resolved, resolved, hb, ih hbases]

/-- What the `__dict__` of a class of the order holds: its own attribute, or what it shows in its
wrappers. -/
def Entry (h : Hierarchy κ) (className : κ → String) (log : List (κ × TracedClass α δ))
    (own s : Dicts κ ι α δ)
    (name : String) (c : κ) : Prop :=
  s c name =
    if tracers log name c ≠ [] ∧
        (resolved className log own name (h.mro c)).any Attribute.isCoroutineFunction = true then
      resolved className log own name (h.mro c)
    else own c name

variable (className log own name) in
theorem resolved_any (b : κ) (bases : List κ) :
    (resolved className log own name (b :: bases)).any Attribute.isCoroutineFunction =
      ((own b name).or (resolved className log own name bases)).any
        Attribute.isCoroutineFunction := by
  rw [resolved]
  cases (own b name).or (resolved className log own name bases) with
  | none => rfl
  | some m => simp

/-- Without decorations that select the name, or of what is no coroutine function, nothing is
wrapped. -/
theorem resolved_plain {b : κ} {bases : List κ}
    (hplain : ¬(tracers log name b ≠ [] ∧
      (resolved className log own name (b :: bases)).any Attribute.isCoroutineFunction = true)) :
    resolved className log own name (b :: bases) =
      (own b name).or (resolved className log own name bases) := by
  rw [resolved] at hplain ⊢
  cases hshown : (own b name).or (resolved className log own name bases) with
  | none => rfl
  | some m =>
    by_cases htracers : tracers log name b = []
    · simp [htracers]
    · have hm : m.isCoroutineFunction = false := by
        rw [Bool.eq_false_iff]
        intro hm
        exact hplain ⟨htracers, by simp [hshown, hm]⟩
      rw [Option.map_some, wrapAll_plain _ hm]

/-- What the lookup finds is the first entry of the order. -/
theorem findSome?_entries {classes : List κ}
    (hentry : ∀ c ∈ classes, Entry h className log own s name c)
    (hmro : ∀ b bases, b :: bases <:+ classes → h.mro b = b :: bases) :
    (classes.findSome? fun c => s c name) = resolved className log own name classes := by
  induction classes with
  | nil => rfl
  | cons b bases ih =>
    obtain ⟨hb, hbases⟩ := List.forall_mem_cons.mp hentry
    have hrest :=
      ih hbases fun b' bases' hsuffix => hmro b' bases' (hsuffix.trans (List.suffix_cons b bases))
    rw [Entry, hmro b bases List.suffix_rfl] at hb
    rw [List.findSome?_cons]
    split at hb
    · rename_i hwrapped
      cases hshown : resolved className log own name (b :: bases) with
      | none => simp [hshown] at hwrapped
      | some m => rw [hb, hshown]
    · rename_i hplain
      rw [hb, hrest, resolved_plain hplain]
      cases own b name <;> rfl

/-- In an order of single inheritance a class of the order has the rest of it for its own order. -/
theorem Single.mro (hsingle : Single h x) {c : κ} {bases : List κ}
    (hsuffix : c :: bases <:+ h.mro x) :
    h.mro c = c :: bases := by
  obtain ⟨pre, hpre⟩ := hsuffix
  obtain ⟨pre', hpre'⟩ := hsingle c (hpre ▸ List.mem_append_right pre List.mem_cons_self)
  obtain ⟨rest, hrest⟩ := h.mro_eq c
  have hfree : ∀ l l' : List κ, l ++ c :: l' = h.mro x → c ∉ l := by
    intro l l' hl hc
    have hnodup := h.nodup x
    rw [← hl, List.nodup_append] at hnodup
    exact hnodup.2.2 c hc c List.mem_cons_self rfl
  rw [hrest] at hpre' ⊢
  rw [← dropWhile_split hpre'.symm (hfree pre' rest hpre'),
    dropWhile_split hpre.symm (hfree pre bases hpre)]

theorem Single.of_mem (hsingle : Single h x) {c : κ} (hc : c ∈ h.mro x) : Single h c := by
  intro b hb
  have hsuffix := hsingle c hc
  obtain ⟨pre, bases, hsplit⟩ := List.append_of_mem hb
  have hbases : b :: bases <:+ h.mro c := ⟨pre, hsplit.symm⟩
  rw [hsingle.mro (hbases.trans hsuffix)]
  exact hbases

/-- What a class of the order shows, once the entries of the order are as they should be. -/
theorem lookup_entries (hsingle : Single h x)
    (hentry : ∀ c ∈ h.mro x, Entry h className log own s name c) {c : κ}
    (hc : c ∈ h.mro x) : lookup h s c name = resolved className log own name (h.mro c) :=
  findSome?_entries (fun b hb => hentry b (h.closed x c hc hb))
    fun _ _ hsuffix => (hsingle.of_mem hc).mro hsuffix

/-- What a class shows in its wrappers is what its bases show where none of them is decorated
anew. -/
theorem resolved_append_ne {c : κ} {d : TracedClass α δ} {classes : List κ} (hc : c ∉ classes) :
    resolved className (log ++ [(c, d)]) own name classes =
      resolved className log own name classes := by
  refine resolved_congr fun b hb => ?_
  have hbc : b ≠ c := fun h => hc (h ▸ hb)
  simp [tracers_append, hbc]

/-- The decorated class itself. -/
theorem entry_trace_self (hsingle : Single h x)
    (hentry : ∀ c ∈ h.mro x, Entry h className log own s name c) {c : κ}
    {d : TracedClass α δ} (hc : c ∈ h.mro x) :
    Entry h className (log ++ [(c, d)]) own (trace h className s c d) name c := by
  have hold := hentry c hc
  obtain ⟨bases, hbases⟩ := h.mro_eq c
  have hnodup := h.nodup c
  rw [hbases, List.nodup_cons] at hnodup
  have hrest : resolved className (log ++ [(c, d)]) own name bases =
      resolved className log own name bases :=
    resolved_append_ne hnodup.1
  have hshows := lookup_entries hsingle hentry hc
  rw [Entry, hbases] at hold ⊢
  rw [hbases] at hshows
  cases hd : d.selects name with
  | false =>
    have hsame : tracers (log ++ [(c, d)]) name c =
        tracers log name c := by simp [tracers_append, hd]
    have hres : resolved className (log ++ [(c, d)]) own name (c :: bases) =
        resolved className log own name (c :: bases) := by
      rw [resolved, resolved, hsame, hrest]
    rw [trace_untraced (by simp [hd]), hold, hres, hsame]
  | true =>
    have hmore : tracers (log ++ [(c, d)]) name c =
        (c, d) :: tracers log name c := by simp [tracers_append, hd]
    have hany := resolved_any className own name log c bases
    have hany' := resolved_any className own name (log ++ [(c, d)]) c bases
    rw [hrest] at hany'
    cases hshown : (own c name).or (resolved className log own name bases) with
    | none =>
      rw [hshown] at hany hany'
      rw [if_neg (by simp [hany])] at hold
      rw [if_neg (by simp [hany']), trace_untraced, hold]
      intro m hm
      rw [hshows, resolved, hshown] at hm
      cases hm
    | some m =>
      rw [hshown] at hany hany'
      have hlookup : lookup h s c name = some (wrapAll className name (tracers log name c) m) := by
        rw [hshows, resolved, hshown]
        rfl
      cases hm : m.isCoroutineFunction with
      | false =>
        rw [if_neg (by simp [hany, hm])] at hold
        rw [if_neg (by simp [hany', hm]), trace_untraced, hold]
        intro m' hm'
        rw [hlookup] at hm'
        cases hm'
        simp [hm]
      | true =>
        rw [if_pos (by simp [hany', hm, hmore]), trace_traced hlookup (by simp [hd, hm]), resolved,
          hrest, hshown,
          Option.map_some, hmore, wrapAll_cons _ _ hm]

/-- A class that was decorated before has none of its bases decorated now. -/
theorem entry_trace_ne {c₀ c : κ} {d : TracedClass α δ} (hold : Entry h className log own s name c)
    (hcc : c ≠ c₀)
    (hfirst : ∀ e ∈ log, c₀ ∈ h.mro e.1 → c₀ = e.1) :
    Entry h className (log ++ [(c₀, d)]) own (trace h className s c₀ d) name c := by
  have htracers :
      tracers (log ++ [(c₀, d)]) name c = tracers log name c := by simp [tracers_append, hcc]
  rw [Entry, trace_ne hcc, hold, htracers]
  by_cases hnone : tracers log name c = []
  · simp [hnone]
  · obtain ⟨e, he⟩ := List.exists_mem_of_ne_nil _ hnone
    simp only [tracers, List.mem_reverse, List.mem_filter, Bool.and_eq_true,
      decide_eq_true_eq] at he
    obtain ⟨hlog, rfl, -⟩ := he
    have haway : c₀ ∉ h.mro e.1 := fun hmro => hcc (hfirst e hlog hmro).symm
    rw [resolved_append_ne haway]

theorem entry_trace (hsingle : Single h x)
    (hentry : ∀ c ∈ h.mro x, Entry h className log own s name c) {c₀ : κ}
    {d : TracedClass α δ} (hfirst : ∀ e ∈ log, c₀ ∈ h.mro e.1 → c₀ = e.1) {c : κ}
    (hc : c ∈ h.mro x) :
    Entry h className (log ++ [(c₀, d)]) own (trace h className s c₀ d) name c := by
  by_cases hcc : c = c₀
  · subst hcc
    exact entry_trace_self hsingle hentry hc
  · exact entry_trace_ne (hentry c hc) hcc hfirst

theorem traceAll_append (log : List (κ × TracedClass α δ)) (c : κ) (d : TracedClass α δ) :
    traceAll h className (log ++ [(c, d)]) own =
      trace h className (traceAll h className log own) c d := by
  simp [traceAll]

/-- Tracing all classes makes each entry what its decorations say. -/
theorem entry_traceAll (hsingle : Single h x) (hordered : BasesFirst h log) :
    ∀ c ∈ h.mro x, Entry h className log own (traceAll h className log own) name c := by
  induction log using List.reverseRecOn with
  | nil =>
    intro c hc
    simp [Entry, tracers, traceAll]
  | append_singleton log e ih =>
    obtain ⟨hlog, -, hlast⟩ := List.pairwise_append.mp hordered
    intro c hc
    rw [show log ++ [e] = log ++ [(e.1, e.2)] from rfl, traceAll_append]
    exact entry_trace hsingle (ih hlog)
      (fun e' he' hmro => hlast e' he' e (List.mem_singleton_self e) hmro) hc

/-- Down to the class that defines the name, each class adds its wrappers. -/
theorem resolved_definer {pre post : List κ} {y : κ} {m : Attribute ι α δ}
    (hown : own y name = some m)
    (hpre : ∀ b ∈ pre, own b name = none) :
    resolved className log own name (pre ++ y :: post) =
      some (wrapAll className name ((pre ++ [y]).flatMap (tracers log name)) m) := by
  induction pre with
  | nil => simp [resolved, hown]
  | cons b pre ih =>
    obtain ⟨hb, hrest⟩ := List.forall_mem_cons.mp hpre
    rw [List.cons_append, resolved, hb, Option.none_or, ih hrest, Option.map_some, ← wrapAll_append]
    rfl

omit [DecidableEq κ] in
/-- A call of a wrapped coroutine begins one span for each decoration. -/
theorem call_wrapAll {args : α} {decorations : List (κ × TracedClass α δ)} {m : Attribute ι α δ}
    (hm : m.isCoroutineFunction = true)
    (hmaps : ∀ e ∈ decorations, (e.2.traceMapper args).isSome = true) :
    ((wrapAll className name decorations m).call true args).1.map Prod.fst =
        decorations.map (fun e => e.2.traceName (className e.1) name) ++
          (m.call true args).1.map Prod.fst ∧
      ((wrapAll className name decorations m).call true args).2 = (m.call true args).2 ∧
      (wrapAll className name decorations m).call false args = m.call false args := by
  induction decorations with
  | nil => simp
  | cons e decorations ih =>
    obtain ⟨he, hrest⟩ := List.forall_mem_cons.mp hmaps
    obtain ⟨attributes, hattributes⟩ := Option.isSome_iff_exists.mp he
    obtain ⟨hspans, hbody, hquiet⟩ := ih hrest
    rw [wrapAll_cons _ _ hm]
    refine ⟨?_, ?_, ?_⟩
    · simp [Attribute.call, hattributes, hspans]
    · simp [Attribute.call, hattributes, hbody]
    · simp [Attribute.call, hquiet]

/-- Under single inheritance and with bases decorated first, a call of a coroutine method begins a
span for each decoration of each class from the one it is called on down to the one that defines it,
the derived classes first, and comes to the same end as without them. -/
theorem inherited_call_begins_spans (className : κ → String) (hsingle : Single h x)
    (hordered : BasesFirst h log)
    {pre post : List κ} {y : κ} (hmro : h.mro x = pre ++ y :: post) {m : Attribute ι α δ}
    (hown : own y name = some m) (hpre : ∀ b ∈ pre, own b name = none)
    (hm : m.isCoroutineFunction = true) (args : α)
    (hmaps : ∀ e ∈ log, (e.2.traceMapper args).isSome = true) :
    ∃ m', lookup h (traceAll h className log own) x name = some m' ∧
      (m'.call true args).1.map Prod.fst =
        ((pre ++ [y]).flatMap (tracers log name)).map
          (fun e => e.2.traceName (className e.1) name) ++
          (m.call true args).1.map Prod.fst ∧
      (m'.call true args).2 = (m.call true args).2 ∧ m'.call false args = m.call false args := by
  have hshown : lookup h (traceAll h className log own) x name =
      resolved className log own name (h.mro x) :=
    lookup_entries hsingle (entry_traceAll hsingle hordered) (h.self_mem x)
  rw [hmro, resolved_definer hown hpre] at hshown
  refine ⟨_, hshown, call_wrapAll hm ?_⟩
  intro e he
  obtain ⟨b, -, hb⟩ := List.mem_flatMap.mp he
  simp only [tracers, List.mem_reverse, List.mem_filter] at hb
  exact hmaps e hb.1

end All

open ClassDecorators (Chain)

/-- The base defines `run`, and it and the class in the middle are traced. -/
def runsInBase : Dicts Chain Bool Unit Unit
  | .base, "run" => some (.function true true)
  | _, _ => none

def chainName : Chain → String
  | .base => "Base"
  | .middle => "Middle"
  | .sub => "Sub"

/-- A method that is inherited and traced twice. -/
theorem sub_begins_two_spans : ∃ m', lookup Chain.hierarchy
      (traceAll Chain.hierarchy chainName [(.base, plainTraced),
        (.middle, plainTraced)] runsInBase) .sub "run" =
        some m' ∧
    (m'.call true ()).1.map Prod.fst = ["Middle.run", "Base.run"] ∧
      (m'.call true ()).2 = some true ∧
      m'.call false () = ([], some true) := by
  have hsingle : Single Chain.hierarchy .sub := by
    intro c hc
    cases c <;> decide
  have hordered : BasesFirst Chain.hierarchy [(.base, plainTraced), (.middle, plainTraced)] := by
    unfold BasesFirst
    decide
  have hmro : Chain.hierarchy.mro .sub = [.sub, .middle] ++ .base :: [] := rfl
  have hown : runsInBase .base "run" = some (.function true true) := rfl
  have hpre : ∀ b ∈ [Chain.sub, Chain.middle], runsInBase b "run" = none := by decide
  exact inherited_call_begins_spans chainName hsingle hordered hmro hown hpre rfl () (by decide)

end TracedClasses
