import Mathlib.Data.List.Basic
import Mathlib.Tactic.Common
import Jararaca.EndpointMethods
import Jararaca.PathTemplates

/-!
# Where the client sends a parameter

`extract_parameters` and `extract_middleware_parameters` choose for every parameter of a
handler or of a middleware the part of the request that it is sent in, from its name and its
annotation. FastAPI chooses where it reads the parameter. Here is when the two agree. The types
that are collected on the way are left out; that the collection can fail is not.
-/
namespace ParameterPlaces

open EndpointMethods (ParameterKind HttpParameterSpec)

/-- The types by name in the list of `is_primitive`, `UploadFile` and `set` apart. -/
inductive Scalar where
  | str | int | float | bool | noneType | uuid | decimal | date | datetime | time
  | object | any | io | enum
  deriving DecidableEq, Repr

/-- A class: a model, a subclass of `UploadFile`, another one that FastAPI calls complex
(a dataclass, a mapping, a sequence), the class `set`, or any other. -/
inductive Class where
  | baseModel
  | uploadFile
  | complex
  | set
  | plain
  deriving DecidableEq, Repr

/-- What a type with arguments is made of; `sequence` and `mapping` are those without a name
here. -/
inductive Origin where
  | list
  | set
  | frozenset
  | tuple
  | dict
  | sequence
  | mapping
  | other
  deriving DecidableEq, Repr

/-- An annotation. `union` says if it is written with bars; the metadata of an annotated type
inside another type are not read. -/
inductive ParamType where
  | scalar (s : Scalar)
  | uploadFile
  | cls (c : Class)
  | typeVar (v : String)
  | literal
  | alias (origin : Origin) (args : List ParamType)
  | union (bars : Bool) (args : List ParamType)
  | annotated (t : ParamType)

/-- The markers of FastAPI. A `File` is a `Form`, and a `Form` is a `Body`. -/
inductive Marker where
  | header
  | cookie
  | form
  | file
  | body
  | query
  | path
  deriving DecidableEq, Repr

namespace Marker

def isForm (m : Marker) : Bool := m = .form ∨ m = .file

def isBody (m : Marker) : Bool := m = .body ∨ m.isForm

end Marker

/-- The annotation of a parameter: a type, a type with metadata, in which `none` is no marker,
or the text of an annotation. -/
inductive Hint where
  | bare (t : ParamType)
  | annotated (t : ParamType) (metadata : List (Option Marker))
  | text (meaning : Hint)

/-- A parameter that is neither a request nor a response nor a dependency. -/
structure Parameter where
  name : String
  hint : Option Hint
  default : Option Marker := none

/-- The paths of a controller and of a method. -/
structure Route where
  controller : List Char
  method : List Char

section Introspection

/-- `is_primitive`, of the types with bars only as unions. -/
def isPrimitive : ParamType → Bool
  | .scalar _ | .uploadFile | .cls .set | .typeVar _ | .literal | .annotated _ => true
  | .alias .list _ | .alias .dict _ | .alias .tuple _ | .alias .set _ => true
  | .union bars _ => bars
  | .cls _ | .alias _ _ => false

def isUploadFileType : ParamType → Bool
  | .uploadFile => true
  | .union _ [t, .scalar .noneType] => isUploadFileType t
  | .alias .list (t :: _) | .alias .frozenset (t :: _) | .alias .set (t :: _) => isUploadFileType t
  | .annotated t => isUploadFileType t
  | _ => false

/-- `issubclass(parameter_type, BaseModel)` of a class. -/
def isBaseModel : ParamType → Bool
  | .cls .baseModel => true
  | _ => false

/-- What follows a word at the beginning of a text. -/
def after : List Char → List Char → Option (List Char)
  | [], text => some text
  | _ :: _, [] => none
  | a :: word, c :: text => if a = c then after word text else none

/-- A brace and a name stand at some place of a text, and what follows closes them: `re.search`. -/
def search (closes : List Char → Bool) (name : List Char) : List Char → Bool
  | [] => false
  | c :: rest => (after ('{' :: name) (c :: rest)).elim false closes || search closes name rest

/-- `(:.*?)?}`; the dot is no line break. -/
def closesParameter : List Char → Bool
  | '}' :: _ => true
  | ':' :: rest => (rest.takeWhile (· ≠ '\n')).contains '}'
  | _ => false

def isPathParameter (name : String) (route : Route) : Bool :=
  search closesParameter name.toList route.controller ||
    search closesParameter name.toList route.method

def isClass : ParamType → Bool
  | .scalar _ | .uploadFile | .cls _ => true
  | _ => false

end Introspection

section Extractors

/-- The arguments of a generic controller. -/
abbrev TypeMapping := String → Option Hint

/-- The collection of the referenced types fails. -/
inductive Failure where
  | recursionError
  | signatureError
  deriving DecidableEq

/-- What the extractors use of the other modules: the type of an argument, the models with an
input side, and whether `extract_all_envolved_types` ends on an annotation and `signature`,
with what is extracted from it, on a class. -/
structure Generator where
  fieldTypeForTs : Hint → String → TypeMapping → String
  isSplitModel : ParamType → Bool
  envolvedTypes : Hint → Bool
  signature : ParamType → Bool

variable (g : Generator) (mapping : TypeMapping) (route : Route)

namespace Hint

def isUploadFileType : Hint → Bool
  | .bare t | .annotated t _ => ParameterPlaces.isUploadFileType t
  | .text _ => false

def isPrimitive : Hint → Bool
  | .bare t => ParameterPlaces.isPrimitive t
  | .annotated _ _ | .text _ => true

end Hint

def inputSuffix : Hint → String
  | .bare t => if isClass t ∧ g.isSplitModel t then "Input" else ""
  | .annotated _ _ | .text _ => ""

def buildParameterSpec (kind : ParameterKind) (name : String) (pythonType : Hint)
    (splitAware : Bool) : HttpParameterSpec where
  type_ := kind
  name := name
  required := true
  argumentTypeStr :=
    g.fieldTypeForTs pythonType (if splitAware then inputSuffix g pythonType else "") mapping

/-- The marker of `resolve_annotated_marker`. Where there is none, the first of the metadata is
no marker either. -/
def resolveAnnotatedMarker (metadata : List (Option Marker)) : Option Marker :=
  (metadata.find? Option.isSome).join

/-- `build_marked_parameter`, with its tests in the order of the source. -/
def buildMarkedParameter (marker : Option Marker) (name : String)
    (parameterType annotatedType : Hint) :
    Except Failure (Option HttpParameterSpec) :=
  match marker with
  | none => .ok none
  | some m =>
    if m = .header then .ok (some
      (buildParameterSpec g mapping .header name (.bare (.scalar .str)) false))
    else if m = .cookie then .ok
      (some (buildParameterSpec g mapping .cookie name (.bare (.scalar .str)) false))
    else if m.isForm then .ok (some (buildParameterSpec g mapping .form name annotatedType false))
    else if m.isBody then
      if g.envolvedTypes parameterType then .ok
        (some (buildParameterSpec g mapping .body name parameterType true))
      else .error .recursionError
    else if m = .query then .ok (some (buildParameterSpec g mapping .query name parameterType true))
    else if m = .path then .ok (some (buildParameterSpec g mapping .path name parameterType true))
    else .ok none

def buildUnmarkedParameter (name : String) (pythonType : Hint) (isPath : Bool) :
    HttpParameterSpec :=
  if isPath then buildParameterSpec g mapping .path name pythonType true
  else if pythonType.isUploadFileType then buildParameterSpec g mapping .form name pythonType false
  else buildParameterSpec g mapping .query name pythonType true

/-- The branch of the annotated types, the same in both extractors. -/
def annotatedParameter (name : String) (t : ParamType) (metadata : List (Option Marker)) :
    Except Failure (Option HttpParameterSpec) :=
  match buildMarkedParameter g mapping (resolveAnnotatedMarker metadata) name
    (.annotated t metadata) (.bare t) with
  | .ok none =>
    .ok (some (buildUnmarkedParameter g mapping name (.bare t) (isPathParameter name route)))
  | built => built

/-- `type_mapping[parameter_type]`. -/
def resolve : Hint → Hint
  | .bare (.typeVar v) => (mapping v).getD (.bare (.typeVar v))
  | h => h

/-- One round of the loop of `extract_parameters`. The signature of a class is read last. -/
def extractParameter (p : Parameter) : Except Failure (Option HttpParameterSpec) :=
  match p.hint.map (resolve mapping) with
  | none => .ok none
  | some (.annotated t metadata) => annotatedParameter g mapping route p.name t metadata
  | some (.bare t) =>
    if isBaseModel t ∧ ¬g.envolvedTypes (.bare t) then .error .recursionError
    else if isClass t ∧ ¬isPrimitive t ∧ ¬g.signature t then .error .signatureError
    else if isBaseModel t then .ok (some (buildParameterSpec g mapping .body p.name (.bare t) true))
    else if isUploadFileType t then .ok
      (some (buildParameterSpec g mapping .form p.name (.bare t) false))
    else .ok (some (buildUnmarkedParameter g mapping p.name (.bare t)
      (isPathParameter p.name route)))
  | some (.text meaning) =>
    .ok (some (buildUnmarkedParameter g mapping p.name (.text meaning)
      (isPathParameter p.name route)))

/-- One round of the loop of `extract_middleware_parameters`. -/
def extractMiddlewareParameter (p : Parameter) : Except Failure (Option HttpParameterSpec) :=
  if p.name = "self" then .ok none
  else
    match p.hint with
    | none => .ok none
    | some (.annotated t metadata) => annotatedParameter g (fun _ => none) route p.name t metadata
    | some h =>
      if isPathParameter p.name route then .ok
        (some (buildParameterSpec g (fun _ => none) .path p.name h true))
      else if h.isPrimitive then .ok
        (some (buildParameterSpec g (fun _ => none) .query p.name h false))
      else .ok none

/-- The loop over the parameters of a function. -/
def extract (round : Parameter → Except Failure (Option HttpParameterSpec)) :
    List Parameter → Except Failure (List HttpParameterSpec)
  | [] => .ok []
  | p :: rest => do
    let spec ← round p
    let specs ← extract round rest
    return spec.toList ++ specs

/-- `extract_parameters` of a handler. -/
def extractParameters (params : List Parameter) : Except Failure (List HttpParameterSpec) :=
  extract (extractParameter g mapping route) params

def extractMiddlewareParameters (params : List Parameter) :
    Except Failure (List HttpParameterSpec) :=
  extract (extractMiddlewareParameter g route) params

end Extractors

section Places

def isWord (c : Char) : Bool := c.isAlphanum || c = '_'

/-- A parameter of a route ends with its name or with the name of a convertor. -/
def closesRouteParameter : List Char → Bool
  | '}' :: _ => true
  | ':' :: rest => !(rest.takeWhile isWord).isEmpty && (rest.dropWhile isWord).head? = some '}'
  | _ => false

/-- The name is a parameter of the path of the route. -/
def inRoute (name : String) (route : Route) : Bool :=
  search closesRouteParameter name.toList (route.controller ++ route.method)

def isUploadClass : ParamType → Bool
  | .uploadFile | .cls .uploadFile => true
  | _ => false

/-- `UploadFile`, which may be optional. -/
def isUpload : ParamType → Bool
  | .union _ args => args.any isUploadClass
  | t => isUploadClass t

def isUploadList : ParamType → Bool
  | .alias .list args | .alias .set args | .alias .frozenset args | .alias .tuple args
  | .alias .sequence args =>
    !args.isEmpty && args.all isUpload
  | _ => false

/-- `UploadFile` or a list of it, which may be optional. -/
def readsForm : ParamType → Bool
  | .annotated t => readsForm t
  | .union _ args => args.any fun t => isUploadClass t || isUploadList t
  | t => isUploadClass t || isUploadList t

mutual

/-- The types that are not scalar: models, dictionaries, lists, and unions with one of them. -/
def isComplex : ParamType → Bool
  | .scalar _ | .typeVar _ | .literal | .cls .plain | .alias .other _ => false
  | .uploadFile | .cls _ | .alias _ _ => true
  | .union _ args => anyComplex args
  | .annotated t => isComplex t

def anyComplex : List ParamType → Bool
  | [] => false
  | t :: rest => isComplex t || anyComplex rest

end

namespace Hint

/-- The type that the annotation means. -/
def type : Hint → ParamType
  | .bare t | .annotated t _ => t
  | .text meaning => meaning.type

def markers : Hint → List Marker
  | .bare _ => []
  | .annotated _ metadata => metadata.filterMap id
  | .text meaning => meaning.markers

end Hint

def Marker.place : Marker → ParameterKind
  | .header => .header
  | .cookie => .cookie
  | .form | .file => .form
  | .body => .body
  | .query => .query
  | .path => .path

/-- The last marker of an annotation decides, or the one that is the default value. -/
def Parameter.marker (p : Parameter) : Option Marker :=
  ((p.hint.elim [] Hint.markers).getLast?).or p.default

def ParamType.place (t : ParamType) : ParameterKind :=
  if readsForm t then .form else if isComplex t then .body else .query

/-- Where FastAPI reads a parameter. -/
def place (route : Route) (p : Parameter) : ParameterKind :=
  match p.marker with
  | some m => m.place
  | none => if inRoute p.name route then .path else p.hint.elim .query fun h => h.type.place

end Places

section Templates

open PathTemplates

variable (closes : List Char → Bool)

/-- A name before a character that is not in it is found, or stops inside another name. -/
theorem after_append {name n : List Char} (rest : List Char) {x : Char} (hx : x ∉ name) :
    name = n ∧ after name (n ++ x :: rest) = some (x :: rest) ∨
    name ≠ n ∧ (after name (n ++ x :: rest) = none ∨ ∃ c ∈ n, ∃ t,
      after name (n ++ x :: rest) = some (c :: t)) := by
  induction n generalizing name with
  | nil =>
    cases name with
    | nil => exact .inl ⟨rfl, rfl⟩
    | cons a name =>
      have ha : a ≠ x := fun h => hx (h ▸ List.mem_cons_self)
      exact .inr ⟨nofun, .inl (if_neg ha)⟩
  | cons c n ih =>
    cases name with
    | nil => exact .inr ⟨nofun, .inr ⟨c, List.mem_cons_self, _, rfl⟩⟩
    | cons a name =>
      by_cases ha : a = c
      · subst a
        rw [List.cons_append, after, if_pos rfl]
        rcases ih fun h => hx (List.mem_cons_of_mem _ h) with ⟨rfl, h⟩ | ⟨hne, h | ⟨d, hd, t, h⟩⟩
        · exact .inl ⟨rfl, h⟩
        · exact .inr ⟨by simp [hne], .inl h⟩
        · exact .inr ⟨by simp [hne], .inr ⟨d, List.mem_cons_of_mem _ hd, t, h⟩⟩
      · exact .inr ⟨by simp [ha], .inl (if_neg ha)⟩

/-- Where no brace stands nothing is found. -/
theorem search_skip (name skipped rest : List Char) (h : '{' ∉ skipped) :
    search closes name (skipped ++ rest) = search closes name rest := by
  induction skipped with
  | nil => rfl
  | cons c skipped ih =>
    rw [List.mem_cons, not_or] at h
    rw [List.cons_append, search, after, if_neg h.1, ih h.2]
    rfl

/-- A parameter is found where it stands. -/
theorem search_token {name n : List Char} {converter : Option (List Char)} (rest : List Char)
    (hend : ∀ t, closes ('}' :: t) = true)
    (hother : ∀ c t, c ≠ ':' → c ≠ '}' → closes (c :: t) = false)
    (hname : ':' ∉ name ∧ '}' ∉ name) (h : (Piece.param n converter).WellFormed)
    (hconverter : ∀ text, converter = some text → '{' ∉ text ∧ ∀ t,
      closes (':' :: text ++ '}' :: t) = true) :
    search closes name (token n converter ++ rest) =
      (decide (name = n) || search closes name rest) := by
  obtain ⟨-, hchars, -⟩ := h
  have hopen : '{' ∉ n := fun hc => (hchars _ hc).2.2.1 rfl
  have hinside : ∀ c ∈ n, ∀ t, closes (c :: t) = false :=
    fun c hc t => hother c t (hchars c hc).1 (hchars c hc).2.1
  -- at the brace the name is compared, and behind it there is no other brace in the token
  have main : ∀ (x : Char) (more : List Char), x ∉ name → closes (x :: more ++ rest) = true →
      '{' ∉ x :: more →
      search closes name ('{' :: n ++ x :: more ++ rest) =
        (decide (name = n) || search closes name rest) := by
    intro x more hx hcloses hmore
    have hskip : search closes name (n ++ x :: (more ++ rest)) = search closes name rest := by
      have := search_skip closes name (n ++ x :: more) rest (by simp_all)
      simpa using this
    have hsplit : '{' :: n ++ x :: more ++ rest = '{' :: (n ++ x :: (more ++ rest)) := by simp
    rw [hsplit, search, hskip, after, if_pos rfl]
    rcases after_append (n := n) (more ++ rest) hx with ⟨rfl, h⟩ | ⟨hne, h | ⟨c, hc, t, h⟩⟩
    · rw [h, decide_eq_true rfl, Option.elim_some]
      exact congrArg (· || _) hcloses
    · rw [h, decide_eq_false hne]
      rfl
    · rw [h, decide_eq_false hne, Option.elim_some, hinside c hc t]
  cases converter with
  | none => simpa [token] using main '}' [] hname.2 (hend _) (by simp)
  | some text =>
    obtain ⟨htext, hcloses⟩ := hconverter text rfl
    have := main ':' (text ++ ['}']) hname.1 (by simpa using hcloses rest) (by simp [htext])
    simpa [token] using this

/-- On a template the parameters are found. -/
theorem search_render {name : List Char} {pieces : List Piece}
    (hend : ∀ t, closes ('}' :: t) = true)
    (hother : ∀ c t, c ≠ ':' → c ≠ '}' → closes (c :: t) = false)
    (hname : ':' ∉ name ∧ '}' ∉ name) (h : WellFormed pieces)
    (hconverter : ∀ n text, .param n (some text) ∈ pieces → '{' ∉ text ∧ ∀ t,
      closes (':' :: text ++ '}' :: t) = true) :
    search closes name (render pieces) = true ↔ ∃ converter, .param name converter ∈ pieces := by
  induction pieces with
  | nil => simp [render, search]
  | cons piece rest ih =>
    have hrest := ih (fun p hp => h p (List.mem_cons_of_mem _ hp))
      fun n text ht => hconverter n text (List.mem_cons_of_mem _ ht)
    have hpiece := h piece List.mem_cons_self
    rw [render, List.flatMap_cons]
    cases piece with
    | char c =>
      have hskip := search_skip closes name [c] (render rest) (by simpa using Ne.symm hpiece)
      rw [Piece.render]
      exact (hskip ▸ hrest).trans (by simp)
    | param n converter =>
      have htoken := search_token closes (render rest) hend hother hname hpiece
        fun text ht => hconverter n text (ht ▸ List.mem_cons_self)
      rw [Piece.render]
      refine (Bool.eq_iff_iff.mp htoken).trans ?_
      rw [Bool.or_eq_true, decide_eq_true_iff, hrest]
      constructor
      · rintro (rfl | ⟨converter', h⟩)
        · exact ⟨converter, List.mem_cons_self⟩
        · exact ⟨converter', List.mem_cons_of_mem _ h⟩
      · rintro ⟨converter', h⟩
        rcases List.mem_cons.mp h with h | h
        · exact .inl (Piece.param.inj h).1
        · exact .inr ⟨converter', h⟩

theorem closesParameter_word {text : List Char} (h : ∀ c ∈ text, isWord c = true) (t : List Char) :
    closesParameter (':' :: text ++ '}' :: t) = true := by
  have hline : ∀ c ∈ text, decide (c ≠ '\n') = true := fun c hc => decide_eq_true fun he => by
    have := h c hc
    rw [he] at this
    exact absurd this (by decide)
  rw [List.cons_append, closesParameter, List.takeWhile_append_of_pos hline]
  simp

theorem closesRouteParameter_word {text : List Char} (hne : text ≠ [])
    (h : ∀ c ∈ text, isWord c = true) (t : List Char) :
    closesRouteParameter (':' :: text ++ '}' :: t) = true := by
  have hend : isWord '}' = false := by decide
  rw [List.cons_append, closesRouteParameter, List.takeWhile_append_of_pos h,
    List.dropWhile_append_of_pos h]
  simp [hend, hne]

/-- Templates whose converters are words. -/
def Words (pieces : List Piece) : Prop :=
  WellFormed pieces ∧ ∀ n text, Piece.param n (some text) ∈ pieces →
    text ≠ [] ∧ ∀ c ∈ text, isWord c = true

theorem not_mem_of_word {text : List Char} (h : ∀ c ∈ text, isWord c = true) : '{' ∉ text :=
  fun hc => absurd (h _ hc) (by decide)

/-- On templates the pattern finds the parameters of the route. -/
theorem isPathParameter_template {name : String} {controller method : List Piece}
    (hname : ':' ∉ name.toList ∧ '}' ∉ name.toList) (hcontroller : Words controller)
    (hmethod : Words method) :
    isPathParameter name ⟨render controller, render method⟩ =
      inRoute name ⟨render controller, render method⟩ := by
  have hfound : ∀ {pieces}, Words pieces →
      (search closesParameter name.toList (render pieces) = true ↔
      ∃ converter, .param name.toList converter ∈ pieces) := fun h =>
    search_render _ (fun _ => rfl) (fun c t h₁ h₂ => by simp [closesParameter, h₁, h₂]) hname h.1
      fun n text ht => ⟨not_mem_of_word (h.2 n text ht).2, closesParameter_word (h.2 n text ht).2⟩
  have hroute : Words (controller ++ method) := by
    refine ⟨wellFormed_append hcontroller.1 hmethod.1, fun n text ht => ?_⟩
    rcases List.mem_append.mp ht with ht | ht
    · exact hcontroller.2 n text ht
    · exact hmethod.2 n text ht
  have hread : search closesRouteParameter name.toList (render (controller ++ method)) = true ↔
      ∃ converter, .param name.toList converter ∈ controller ++ method :=
    search_render _ (fun _ => rfl)
      (fun c t h₁ h₂ => by simp [closesRouteParameter, h₁, h₂]) hname hroute.1
      fun n text ht => ⟨not_mem_of_word (hroute.2 n text ht).2,
        closesRouteParameter_word (hroute.2 n text ht).1 (hroute.2 n text ht).2⟩
  rw [Bool.eq_iff_iff, isPathParameter, inRoute, Bool.or_eq_true, hfound hcontroller,
    hfound hmethod, ← render_append, hread]
  simp only [List.mem_append, exists_or]

end Templates

section Rounds

variable (g : Generator) (mapping : TypeMapping) (route : Route)

/-- The outcome of a round is one parameter in the given place. -/
def Sends (outcome : Except Failure (Option HttpParameterSpec)) (kind : ParameterKind) : Prop :=
  ∃ spec, outcome = .ok (some spec) ∧ spec.type_ = kind

@[simp] theorem sends_ok (spec : HttpParameterSpec) (kind : ParameterKind) :
    Sends (.ok (some spec)) kind ↔ spec.type_ = kind := by simp [Sends]

@[simp] theorem not_sends_none (kind : ParameterKind) : ¬Sends (.ok none) kind := by simp [Sends]

@[simp] theorem not_sends_error (failure : Failure) (kind : ParameterKind) :
    ¬Sends (.error failure) kind := by
  simp [Sends]

@[simp] theorem buildParameterSpec_type (kind : ParameterKind) (name : String) (h : Hint)
    (splitAware : Bool) :
    (buildParameterSpec g mapping kind name h splitAware).type_ = kind := rfl

@[simp] theorem buildParameterSpec_name (kind : ParameterKind) (name : String) (h : Hint)
    (splitAware : Bool) :
    (buildParameterSpec g mapping kind name h splitAware).name = name := rfl

def unmarkedPlace (isPath upload : Bool) : ParameterKind :=
  if isPath then .path else if upload then .form else .query

theorem buildUnmarkedParameter_type (name : String) (h : Hint) (isPath : Bool) :
    (buildUnmarkedParameter g mapping name h isPath).type_ =
      unmarkedPlace isPath h.isUploadFileType := by
  unfold buildUnmarkedParameter unmarkedPlace
  split
  · rfl
  · split <;> rfl

theorem buildUnmarkedParameter_name (name : String) (h : Hint) (isPath : Bool) :
    (buildUnmarkedParameter g mapping name h isPath).name = name := by
  unfold buildUnmarkedParameter
  split
  · rfl
  · split <;> rfl

/-- A marker gives the parameter, or the collection fails. -/
theorem buildMarkedParameter_some (m : Marker) (name : String) (h t : Hint) :
    (m = .body ∧ g.envolvedTypes h = false ∧
      buildMarkedParameter g mapping (some m) name h t = .error .recursionError) ∨
    ((m = .body → g.envolvedTypes h = true) ∧ ∃ spec,
      buildMarkedParameter g mapping (some m) name h t = .ok (some spec) ∧
      spec.type_ = m.place ∧ spec.name = name) := by
  cases m with
  | body =>
    cases hwalk : g.envolvedTypes h with
    | false =>
      exact .inl ⟨rfl, rfl, by simp [buildMarkedParameter, Marker.isForm, Marker.isBody, hwalk]⟩
    | true =>
      have he : buildMarkedParameter g mapping (some .body) name h t =
          .ok (some (buildParameterSpec g mapping .body name h true)) := by
        simp [buildMarkedParameter, Marker.isForm, Marker.isBody, hwalk]
      exact .inr ⟨fun _ => rfl, _, he, rfl, rfl⟩
  | header => exact .inr ⟨nofun, _, rfl, rfl, rfl⟩
  | cookie => exact .inr ⟨nofun, _, rfl, rfl, rfl⟩
  | form => exact .inr ⟨nofun, _, rfl, rfl, rfl⟩
  | file => exact .inr ⟨nofun, _, rfl, rfl, rfl⟩
  | query => exact .inr ⟨nofun, _, rfl, rfl, rfl⟩
  | path => exact .inr ⟨nofun, _, rfl, rfl, rfl⟩

theorem annotatedParameter_sends (name : String) (t : ParamType) (metadata : List (Option Marker))
    (kind : ParameterKind) :
    Sends (annotatedParameter g mapping route name t metadata) kind ↔
      match resolveAnnotatedMarker metadata with
      | some m => m.place = kind ∧ (m = .body → g.envolvedTypes (.annotated t metadata) = true)
      | none => unmarkedPlace (isPathParameter name route) (isUploadFileType t) = kind := by
  unfold annotatedParameter
  cases resolveAnnotatedMarker metadata with
  | none => simp [buildMarkedParameter, buildUnmarkedParameter_type, Hint.isUploadFileType]
  | some m =>
    rcases buildMarkedParameter_some g mapping m name (.annotated t metadata) (.bare t) with
      ⟨rfl, hwalk, he⟩ | ⟨hwalk, spec, he, hplace, -⟩
    · simp [he, hwalk]
    · simp [he, hplace]
      exact fun _ => hwalk

/-- What a round gives has the name of its parameter. -/
theorem annotatedParameter_name {name : String} {t : ParamType} {metadata : List (Option Marker)}
    {spec : HttpParameterSpec}
    (h : annotatedParameter g mapping route name t metadata = .ok (some spec)) :
    spec.name = name := by
  unfold annotatedParameter at h
  cases hm : resolveAnnotatedMarker metadata with
  | none =>
    simp only [hm, buildMarkedParameter, Except.ok.injEq, Option.some.injEq] at h
    exact h ▸ buildUnmarkedParameter_name ..
  | some m =>
    rcases buildMarkedParameter_some g mapping m name (.annotated t metadata) (.bare t) with
      ⟨-, -, he⟩ | ⟨-, spec', he, -, hname⟩
    · simp [hm, he] at h
    · simp only [hm, he, Except.ok.injEq, Option.some.injEq] at h
      exact h ▸ hname

/-- Where `extract_parameters` sends a parameter with a bare hint. -/
theorem extractParameter_bare {p : Parameter} {t : ParamType} (kind : ParameterKind)
    (h : p.hint.map (resolve mapping) = some (.bare t)) :
    Sends (extractParameter g mapping route p) kind ↔
      (isBaseModel t = true → g.envolvedTypes (.bare t) = true) ∧
      (isClass t = true → isPrimitive t = false → g.signature t = true) ∧
      (if isBaseModel t then .body else unmarkedPlace
        (!isUploadFileType t && isPathParameter p.name route) (isUploadFileType t)) = kind := by
  unfold extractParameter
  simp only [h]
  split
  · rename_i hwalk
    simp [hwalk.1, hwalk.2]
  · split
    · rename_i hsignature
      simp [hsignature.1, hsignature.2]
    · rename_i hwalk hsignature
      simp only [not_and, Bool.not_eq_true, Bool.not_eq_false] at hwalk hsignature
      cases hmodel : isBaseModel t with
      | true => simpa [hwalk hmodel] using fun _ => hsignature
      | false =>
        cases hupload : isUploadFileType t with
        | true => simpa [unmarkedPlace] using fun _ => hsignature
        | false =>
          simpa [buildUnmarkedParameter_type, Hint.isUploadFileType, hupload] using fun _ =>
          hsignature

theorem extractParameter_text {p : Parameter} {meaning : Hint} (kind : ParameterKind)
    (h : p.hint.map (resolve mapping) = some (.text meaning)) :
    Sends (extractParameter g mapping route p) kind ↔
      unmarkedPlace (isPathParameter p.name route) false = kind := by
  simp [extractParameter, h, buildUnmarkedParameter_type, Hint.isUploadFileType]

theorem extractMiddlewareParameter_plain {p : Parameter} {h : Hint} (kind : ParameterKind)
    (hself : p.name ≠ "self")
    (hp : p.hint = some h) (hannotated : ∀ t metadata, h ≠ .annotated t metadata) :
    Sends (extractMiddlewareParameter g route p) kind ↔
      (isPathParameter p.name route = true ∨ h.isPrimitive = true) ∧
      unmarkedPlace (isPathParameter p.name route) false = kind := by
  unfold extractMiddlewareParameter
  rw [if_neg hself, hp]
  cases h with
  | annotated t metadata => exact absurd rfl (hannotated t metadata)
  | bare t | text meaning =>
    cases isPathParameter p.name route with
    | true => simp [unmarkedPlace]
    | false => cases hprimitive : Hint.isPrimitive _ <;> simp [hprimitive, unmarkedPlace]

end Rounds

section Agreement

variable (g : Generator) (mapping : TypeMapping) (route : Route)

/-- The place that is chosen without a marker is right: a default value that is a marker names it,
or the name is in the route exactly if the pattern finds it, and the type belongs there. -/
def Suits (p : Parameter) (t : ParamType) (upload : Bool) : Prop :=
  match p.marker with
  | some m =>
    m.place = .path ∧ isPathParameter p.name route = true ∨
    m.place = .form ∧ isPathParameter p.name route = false ∧ upload = true ∨
    m.place = .query ∧ isPathParameter p.name route = false ∧ upload = false
  | none =>
    isPathParameter p.name route = true ∧ inRoute p.name route = true ∨
    isPathParameter p.name route = false ∧ inRoute p.name route = false ∧
      (upload = true ∧ readsForm t = true ∨ upload = false ∧ readsForm t = false ∧
        isComplex t = false)

/-- The handler gives the type of a parameter without metadata no other place than the path
or the query. -/
def Falls (p : Parameter) : Hint → Prop
  | .text _ => True
  | .bare t => isBaseModel t = false ∧ isUploadFileType t = false ∧
      (isClass t = true → isPrimitive t = false → g.signature t = true)
  | .annotated t metadata => match resolveAnnotatedMarker metadata with
      | some m => m.place = .path ∧ isPathParameter p.name route = true ∨
          m.place = .query ∧ isPathParameter p.name route = false
      | none => isPathParameter p.name route = true ∨ isUploadFileType t = false

/-- Both extractors find the place of a parameter. -/
def Placed (p : Parameter) : Prop :=
  p.name ≠ "self" ∧ match p.hint with
    | none => False
    | some (.annotated t metadata) => match resolveAnnotatedMarker metadata with
        | some m =>
          p.marker.map Marker.place = some m.place ∧
          (m = .body → g.envolvedTypes (.annotated t metadata) = true)
        | none => Suits route p t (isUploadFileType t)
    | some (.text meaning) => Suits route p meaning.type false
    | some (.bare t) =>
      Suits route p t false ∧ (isPathParameter p.name route = true ∨ isPrimitive t = true) ∧
        Falls g route p (resolve mapping (.bare t))

theorem suits_iff {p : Parameter} {h : Hint} (hp : p.hint = some h) (upload : Bool) :
    Suits route p h.type upload ↔
      unmarkedPlace (isPathParameter p.name route) upload = place route p := by
  unfold Suits place
  cases p.marker with
  | some m =>
    cases isPathParameter p.name route <;> cases upload <;> simp [unmarkedPlace, eq_comm]
  | none =>
    simp only [hp, Option.elim_some, ParamType.place]
    cases isPathParameter p.name route <;> cases inRoute p.name route <;> cases upload <;>
      cases readsForm h.type <;> cases isComplex h.type <;> simp [unmarkedPlace]

theorem unmarkedPlace_eq {isPath : Bool} {kind : ParameterKind} :
    kind = unmarkedPlace isPath false ↔
      kind = .path ∧ isPath = true ∨ kind = .query ∧ isPath = false := by
  cases isPath <;> simp [unmarkedPlace]

/-- Where the middleware and the handler see a plain type, the handler has to fall through. -/
theorem falls_iff {p : Parameter} {h : Hint} (hp : p.hint.map (resolve mapping) = some h) :
    Sends (extractParameter g mapping route p)
      (unmarkedPlace (isPathParameter p.name route) false) ↔ Falls g route p h := by
  cases h with
  | text meaning => simp [extractParameter_text g mapping route _ hp, Falls]
  | bare t =>
    rw [extractParameter_bare g mapping route _ hp, Falls]
    cases isBaseModel t with
    | true => cases isPathParameter p.name route <;> simp [unmarkedPlace]
    | false =>
      cases isUploadFileType t <;> cases isPathParameter p.name route <;> simp [unmarkedPlace]
  | annotated t metadata =>
    have hround : extractParameter g mapping route p =
        annotatedParameter g mapping route p.name t metadata := by
      simp only [extractParameter, hp]
    rw [hround, annotatedParameter_sends, Falls]
    cases resolveAnnotatedMarker metadata with
    | some m =>
      have hbody : m.place = unmarkedPlace (isPathParameter p.name route) false → m ≠ .body := by
        rintro h rfl
        cases hpath : isPathParameter p.name route <;>
          simp [hpath, unmarkedPlace, Marker.place] at h
      simp only [← unmarkedPlace_eq]
      exact ⟨And.left, fun h => ⟨h, fun hm => absurd hm (hbody h)⟩⟩
    | none =>
      cases isPathParameter p.name route <;> cases isUploadFileType t <;> simp [unmarkedPlace]

theorem extractParameter_annotated {p : Parameter} {t : ParamType} {metadata : List (Option Marker)}
    (hp : p.hint = some (.annotated t metadata)) :
    extractParameter g mapping route p = annotatedParameter g mapping route p.name t metadata := by
  simp [extractParameter, hp, resolve]

theorem extractMiddlewareParameter_annotated {p : Parameter} {t : ParamType}
    {metadata : List (Option Marker)}
    (hself : p.name ≠ "self") (hp : p.hint = some (.annotated t metadata)) :
    extractMiddlewareParameter g route p =
      annotatedParameter g (fun _ => none) route p.name t metadata := by
  simp [extractMiddlewareParameter, hp, hself]

/-- An annotation that decides by its first marker has a last one. -/
theorem marker_of_resolve {p : Parameter} {t : ParamType}
    {metadata : List (Option Marker)} {m : Marker}
    (hp : p.hint = some (.annotated t metadata)) (hm : resolveAnnotatedMarker metadata = some m) :
    ∃ k, p.marker = some k := by
  have hmem : some m ∈ metadata := by
    rw [resolveAnnotatedMarker, Option.join_eq_some_iff] at hm
    exact List.mem_of_find?_eq_some hm
  have hne : metadata.filterMap id ≠ [] :=
    List.ne_nil_of_mem (List.mem_filterMap.mpr ⟨some m, hmem, rfl⟩)
  refine ⟨(metadata.filterMap id).getLast hne, ?_⟩
  rw [Parameter.marker, hp, Option.elim_some, Hint.markers, List.getLast?_eq_some_getLast hne,
    Option.some_or]

/-- Both extractors send an annotated parameter to its place together. -/
theorem annotated_placed (mapping : TypeMapping) {p : Parameter} {t : ParamType}
    {metadata : List (Option Marker)}
    (hp : p.hint = some (.annotated t metadata)) :
    Sends (annotatedParameter g mapping route p.name t metadata) (place route p) ↔
      match resolveAnnotatedMarker metadata with
      | some m =>
        p.marker.map Marker.place = some m.place ∧
        (m = .body → g.envolvedTypes (.annotated t metadata) = true)
      | none => Suits route p t (isUploadFileType t) := by
  rw [annotatedParameter_sends]
  cases hm : resolveAnnotatedMarker metadata with
  | none => exact (suits_iff route hp _).symm
  | some m =>
    obtain ⟨k, hk⟩ := marker_of_resolve hp hm
    have hplace : place route p = k.place := by rw [place, hk]
    simp only [hplace, hk, Option.map_some, Option.some.injEq, eq_comm (a := k.place)]

/-- Both rounds find the place of a parameter if and only if it is placed. -/
theorem placed_iff (p : Parameter) :
    Sends (extractParameter g mapping route p) (place route p) ∧
      Sends (extractMiddlewareParameter g route p) (place route p) ↔ Placed g mapping route p := by
  by_cases hself : p.name = "self"
  · simp [extractMiddlewareParameter, hself, Placed]
  rw [Placed, and_iff_right hself]
  cases hp : p.hint with
  | none => simp [extractMiddlewareParameter, hp]
  | some h =>
    cases h with
    | annotated t metadata =>
      rw [extractParameter_annotated g mapping route hp,
        extractMiddlewareParameter_annotated g route hself hp,
        annotated_placed g route mapping hp, annotated_placed g route _ hp, and_self_iff]
    | text meaning =>
      have hhandler : p.hint.map (resolve mapping) = some (.text meaning) := by rw [hp]; rfl
      rw [extractMiddlewareParameter_plain g route _ hself hp nofun,
        extractParameter_text g mapping route _ hhandler]
      simp [Hint.isPrimitive, ← suits_iff route hp, Hint.type]
    | bare t =>
      have hhandler :
          p.hint.map (resolve mapping) = some (resolve mapping (.bare t)) := by rw [hp]; rfl
      rw [extractMiddlewareParameter_plain g route _ hself hp nofun, ← suits_iff route hp]
      show _ ↔ Suits route p (Hint.bare t).type false ∧ (_ ∨ (Hint.bare t).isPrimitive = true) ∧ _
      constructor
      · rintro ⟨hsends, hprimitive, hsuits⟩
        rw [← (suits_iff route hp false).mp hsuits, falls_iff g mapping route hhandler] at hsends
        exact ⟨hsuits, hprimitive, hsends⟩
      · rintro ⟨hsuits, hprimitive, hfalls⟩
        rw [← falls_iff g mapping route hhandler, (suits_iff route hp false).mp hsuits] at hfalls
        exact ⟨hfalls, hprimitive, hsuits⟩

/-- The parameters of a function are sent to their places, each of them once and in order. -/
def Sent (params : List Parameter) (outcome : Except Failure (List HttpParameterSpec)) : Prop :=
  ∃ specs, outcome = .ok specs ∧
    specs.map (fun spec => (spec.name, spec.type_)) = params.map fun p => (p.name, place route p)

end Agreement

section Loops

variable {round : Parameter → Except Failure (Option HttpParameterSpec)}

theorem extract_cons {p : Parameter} {params : List Parameter} {specs : List HttpParameterSpec}
    (h : extract round (p :: params) = .ok specs) :
    ∃ spec rest, round p = .ok spec ∧ extract round params = .ok rest ∧
      specs = spec.toList ++ rest := by
  rw [extract] at h
  cases hp : round p with
  | error e => simp [hp, bind, Except.bind] at h
  | ok spec =>
    cases hrest : extract round params with
    | error e => simp [hp, hrest, bind, Except.bind] at h
    | ok rest =>
      exact ⟨spec, rest, rfl, rfl,
      by simpa [hp, hrest, bind, Except.bind, pure, Except.pure, eq_comm] using h⟩

theorem length_extract_le {params : List Parameter} {specs : List HttpParameterSpec}
    (h : extract round params = .ok specs) :
    specs.length ≤ params.length := by
  induction params generalizing specs with
  | nil => cases h; exact Nat.le_refl 0
  | cons p params ih =>
    obtain ⟨spec, rest, -, hrest, rfl⟩ := extract_cons h
    have hspec : spec.toList.length ≤ 1 := by cases spec <;> simp
    have := ih hrest
    simp only [List.length_append, List.length_cons]
    omega

/-- The loop sends every parameter to its place if and only if each round does: none is made up for
by another. -/
theorem sent_iff (route : Route) (hname : ∀ p spec, round p = .ok (some spec) → spec.name = p.name)
    (params : List Parameter) :
    Sent route params (extract round params) ↔ ∀ p ∈ params, Sends (round p) (place route p) := by
  induction params with
  | nil => exact ⟨fun _ p hp => absurd hp (List.not_mem_nil), fun _ => ⟨[], rfl, rfl⟩⟩
  | cons p params ih =>
    rw [List.forall_mem_cons, ← ih]
    constructor
    · rintro ⟨specs, hrun, hspecs⟩
      obtain ⟨spec, rest, hp, hrest, rfl⟩ := extract_cons hrun
      cases spec with
      | none =>
        have hlength := congrArg List.length hspecs
        have hle := length_extract_le hrest
        simp only [Option.toList_none, List.nil_append, List.length_map,
          List.length_cons] at hlength
        omega
      | some spec =>
        simp only [Option.toList_some, List.singleton_append, List.map_cons, List.cons.injEq,
          Prod.mk.injEq] at hspecs
        exact ⟨⟨spec, hp, hspecs.1.2⟩, rest, hrest, hspecs.2⟩
    · rintro ⟨⟨spec, hp, hkind⟩, rest, hrest, hspecs⟩
      refine ⟨spec :: rest, by simp [extract, hp, hrest, bind, Except.bind, pure, Except.pure], ?_⟩
      simp [hname p spec hp, hkind, hspecs]

end Loops

section Extraction

variable (g : Generator) (mapping : TypeMapping) (route : Route)

/-- A specification has the name of its parameter. -/
theorem extractParameter_name (p : Parameter) (spec : HttpParameterSpec)
    (h : extractParameter g mapping route p = .ok (some spec)) : spec.name = p.name := by
  unfold extractParameter at h
  split at h
  · cases h
  · exact annotatedParameter_name g mapping route h
  · split_ifs at h
    · cases h; rfl
    · cases h; rfl
    · cases h; exact buildUnmarkedParameter_name ..
  · cases h
    exact buildUnmarkedParameter_name ..

/-- So has that of a middleware. -/
theorem extractMiddlewareParameter_name (p : Parameter) (spec : HttpParameterSpec)
    (h : extractMiddlewareParameter g route p = .ok (some spec)) : spec.name = p.name := by
  unfold extractMiddlewareParameter at h
  split at h
  · cases h
  · split at h
    · cases h
    · exact annotatedParameter_name g _ route h
    · split_ifs at h
      · cases h; rfl
      · cases h; rfl
      · cases h

/-- A model as the body of a request: the handler sends it, the middleware drops it. -/
def payload : Parameter where
  name := "payload"
  hint := some (.bare (.cls .baseModel))

/-- A list of strings, which is read from the body. -/
def tags : Parameter where
  name := "tags"
  hint := some (.bare (.alias .list [.scalar .str]))

def plainGenerator : Generator where
  fieldTypeForTs := fun _ _ _ => "unknown"
  isSplitModel := fun _ => false
  envolvedTypes := fun _ => true
  signature := fun _ => true

end Extraction

end ParameterPlaces
