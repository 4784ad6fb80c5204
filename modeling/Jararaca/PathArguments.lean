import Jararaca.Placeholders
import Mathlib.Data.List.DropRight

/-!
# Path parameters of an RPC method

The loop of `rpc_method` over the attributes of a method, in decorators.py of rpc/http. Every
attribute takes its argument by name; a path parameter replaces its `:name` in the path that was
compiled so far, wherever that text stands, in the path or in an argument. The characters of names
are a parameter.
-/
namespace PathArguments

open Placeholders

inductive AttributeType where
  | query
  | header
  | body
  | param
  | form
  | file
  deriving DecidableEq, Repr

structure RequestAttribute where
  attributeType : AttributeType
  name : List Char

/-- The paths of the rest client and of the mapping, and the parameters of the method behind
`self`. -/
structure Route where
  basePath : List Char
  path : List Char
  callParameters : List (List Char)

/-- The arguments of one call. -/
structure Call (V : Type) where
  args : List V
  kwargs : List (List Char × V)

variable {V : Type}

def Route.compiledPath (route : Route) : List Char :=
  route.basePath.rdropWhile (· = '/') ++ '/' :: route.path.dropWhile (· = '/')

/-- `compiled_kwargs`: an argument that is given by its name hides one that is given by its
place. -/
def compiledKwargs (route : Route) (call : Call V) : List (List Char × V) :=
  call.kwargs ++ route.callParameters.zip call.args

/-- What the loop collects. -/
structure Parts (V : Type) where
  compiledPath : List Char
  headers : List (List Char × V) := []
  queryParams : List Char → Option V := fun _ => none
  body : Option V := none
  formData : List Char → Option V := fun _ => none
  files : List Char → Option V := fun _ => none

/-- One turn of the loop; a name without an argument is a `KeyError`. -/
def addAttribute (str : V → List Char) (kwargs : List (List Char × V)) (parts : Parts V)
    (attr : RequestAttribute) : Except (List Char) (Parts V) :=
  match kwargs.lookup attr.name with
  | none => .error attr.name
  | some value => .ok <|
    match attr.attributeType with
    | .header => { parts with headers := parts.headers ++ [(attr.name, value)] }
    | .query =>
      { parts with queryParams := Function.update parts.queryParams attr.name (some value) }
    | .body => { parts with body := some value }
    | .param =>
      { parts with
        compiledPath :=
          TextReplacement.replaceAll (':' :: attr.name) (str value) parts.compiledPath }
    | .form => { parts with formData := Function.update parts.formData attr.name (some value) }
    | .file => { parts with files := Function.update parts.files attr.name (some value) }

def requestParts (str : V → List Char) (route : Route) (call : Call V)
    (attributes : List RequestAttribute) :
    Except (List Char) (Parts V) :=
  attributes.foldlM (addAttribute str (compiledKwargs route call))
    { compiledPath := route.compiledPath }

/-- The names of the `PathParam` decorators, in the order in which they are applied. -/
def pathParams (attributes : List RequestAttribute) : List (List Char) :=
  (attributes.filter fun attr => attr.attributeType = .param).map RequestAttribute.name

/-- `str(compiled_kwargs[name])`. -/
def text (str : V → List Char) (kwargs : List (List Char × V)) (name : List Char) : List Char :=
  ((kwargs.lookup name).map str).getD []

/-! ## Substitution -/

def IsName (chars : NameChars) (name : List Char) : Prop := name ≠ [] ∧ ∀ c ∈ name, chars.isName c

instance (chars : NameChars) (name : List Char) : Decidable (IsName chars name) :=
  @instDecidableAnd _ _ _ (List.decidableBAll (fun c => chars.isName c = true) name)

/-- The arguments that may be declared as path parameters. -/
def argumentNames (chars : NameChars) (kwargs : List (List Char × V)) : List (List Char) :=
  (kwargs.map Prod.fst).filter fun name => IsName chars name

/-- Attributes that a method can be decorated with for its arguments: a set of path parameters, and
others. -/
structure Declared (chars : NameChars) (kwargs : List (List Char × V))
    (attributes : List RequestAttribute) : Prop where
  given : ∀ attr ∈ attributes, (kwargs.lookup attr.name).isSome
  nodup : (pathParams attributes).Nodup
  names : ∀ name ∈ pathParams attributes, IsName chars name

/-- Whatever arguments are declared as path parameters, in whatever order: the path is the template
with their placeholders filled, all at once. -/
def SubstitutesAtOnce (chars : NameChars) (str : V → List Char) (route : Route)
    (call : Call V) : Prop :=
  ∀ attributes : List RequestAttribute, Declared chars (compiledKwargs route call) attributes →
    (requestParts str route call attributes).map Parts.compiledPath =
      .ok (fill (text str (compiledKwargs route call)) (pathParams attributes)
        (tokens chars route.compiledPath))

/-- Wherever an argument comes to be filled in, no text but its own placeholders holds its
`:name`. -/
def NoOtherOccurrence (chars : NameChars) (str : V → List Char) (route : Route)
    (call : Call V) : Prop :=
  ∀ names : List (List Char), names.Nodup →
    names ⊆ argumentNames chars (compiledKwargs route call) →
    ∀ name ∈ argumentNames chars (compiledKwargs route call), name ∉ names →
      Undisturbed (text str (compiledKwargs route call)) names
        (tokens chars route.compiledPath) name

variable {chars : NameChars} {str : V → List Char} {kwargs : List (List Char × V)}

theorem mem_argumentNames {name : List Char} :
    name ∈ argumentNames chars kwargs ↔ (kwargs.lookup name).isSome ∧ IsName chars name := by
  have hkeys : name ∈ kwargs.map Prod.fst ↔ (kwargs.lookup name).isSome := by simp
  rw [argumentNames, List.mem_filter, hkeys]
  simp

theorem colon_not_mem {name : List Char} (h : IsName chars name) : ':' ∉ name := fun hmem => by
  have hcolon := h.2 ':' hmem
  rw [chars.colon] at hcolon
  exact Bool.false_ne_true hcolon

/-- The loop changes the path as replacing each path parameter does. -/
theorem requestParts_path {attributes : List RequestAttribute} (parts : Parts V)
    (h : ∀ attr ∈ attributes, (kwargs.lookup attr.name).isSome) :
    (attributes.foldlM (addAttribute str kwargs) parts).map Parts.compiledPath =
      .ok (replaceEach (text str kwargs) (pathParams attributes) parts.compiledPath) := by
  induction attributes generalizing parts with
  | nil => rfl
  | cons attr attributes ih =>
    simp only [List.mem_cons, forall_eq_or_imp] at h
    obtain ⟨hgiven, hmore⟩ := h
    obtain ⟨value, hvalue⟩ := Option.isSome_iff_exists.mp hgiven
    obtain ⟨attributeType, name⟩ := attr
    simp only at hvalue
    rw [List.foldlM_cons]
    cases attributeType <;> simp only [addAttribute, hvalue]
    case param =>
      refine (ih _ hmore).trans ?_
      simp [pathParams, replaceEach, text, hvalue]
    all_goals exact ih _ hmore

/-- Replacing one parameter after the other fills them all at once, exactly when no text but its
own placeholders holds the `:name` of one. -/
theorem substitutes_iff (chars : NameChars) (str : V → List Char) (route : Route) (call : Call V) :
    SubstitutesAtOnce chars str route call ↔ NoOtherOccurrence chars str route call := by
  have hcolon : ∀ name ∈ argumentNames chars (compiledKwargs route call), ':' ∉ name :=
    fun name hname => colon_not_mem (mem_argumentNames.mp hname).2
  rw [NoOtherOccurrence, ← fillsAtOnce_iff hcolon]
  constructor
  · intro h names hnodup hnames
    have hparams : pathParams (names.map (RequestAttribute.mk .param)) = names := by
      simp [pathParams, List.filter_map, Function.comp_def]
    have hgiven : ∀ attr ∈ names.map (RequestAttribute.mk .param),
        ((compiledKwargs route call).lookup attr.name).isSome := by
      intro attr hattr
      obtain ⟨name, hname, rfl⟩ := List.mem_map.mp hattr
      exact (mem_argumentNames.mp (hnames hname)).1
    have hfilled := h _ ⟨hgiven, by rwa [hparams], fun name hname =>
      (mem_argumentNames.mp (hnames (hparams ▸ hname))).2⟩
    rw [requestParts, requestParts_path _ hgiven, hparams] at hfilled
    exact Except.ok.inj hfilled
  · intro h attributes hdeclared
    rw [requestParts, requestParts_path _ hdeclared.given, h _ hdeclared.nodup]
    intro name hname
    obtain ⟨attr, hattr, rfl⟩ := List.mem_map.mp hname
    exact mem_argumentNames.mpr ⟨hdeclared.given attr (List.mem_filter.mp hattr).1,
      hdeclared.names _ hname⟩

/-- Letters, digits and the underscore. -/
def asciiNames : NameChars where
  isName c := c.isAlphanum || c == '_'
  colon := by decide

/-- `/x/:id_token` for a call with `id` and `id_token`: `id` is found in the longer name. -/
theorem prefix_name_disturbs :
    ¬SubstitutesAtOnce asciiNames String.toList ⟨"".toList, "/x/:id_token".toList, []⟩
      ⟨[], [("id".toList, "7"), ("id_token".toList, "t")]⟩ := fun h => by
  have hboth :=
    h [⟨.param, "id".toList⟩, ⟨.param, "id_token".toList⟩] ⟨by decide, by decide, by decide⟩
  have hpath := congrArg Except.toOption hboth
  exact absurd hpath (by decide +kernel)

end PathArguments
