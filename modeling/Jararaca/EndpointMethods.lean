import Mathlib.Data.List.Nodup
import Mathlib.Data.List.Basic
import Jararaca.ClientRoutes

/-!
# The methods of the generated client

`merge_duplicate_parameters` of parameters.py and `write_endpoint_method` of
endpoint_writer.py: the parameters of the middlewares and of the handler become the arguments
of one method, which sends them in the path, the headers, the query and the body of its request.
The method is a value of its own here, and the text of the source is that value written out.
-/
namespace EndpointMethods

inductive ParameterKind where
  | query
  | path
  | body
  | header
  | cookie
  | form
  deriving DecidableEq, Repr

def ParameterKind.text : ParameterKind → String
  | .query => "query"
  | .path => "path"
  | .body => "body"
  | .header => "header"
  | .cookie => "cookie"
  | .form => "form"

structure HttpParameterSpec where
  type_ : ParameterKind
  name : String
  required : Bool := true
  argumentTypeStr : String
  deriving DecidableEq

structure ConflictingParametersError where
  message : String
  deriving DecidableEq

/-- The message of the source. -/
def conflict (owner : String) (existing parameter : HttpParameterSpec) :
    ConflictingParametersError where
  message :=
    owner ++ ": parameter '" ++ parameter.name ++
    "' is declared more than once with different definitions (" ++
    existing.type_.text ++ ": " ++ existing.argumentTypeStr ++ " vs " ++
      parameter.type_.text ++ ": " ++
    parameter.argumentTypeStr ++ ")"

/-- The loop of `merge_duplicate_parameters`; a dict keeps the order of its insertions. -/
def mergeInto (owner : String) :
    List HttpParameterSpec → List HttpParameterSpec →
      Except ConflictingParametersError (List HttpParameterSpec)
  | merged, [] => .ok merged
  | merged, parameter :: rest =>
    match merged.find? fun existing => decide (existing.name = parameter.name) with
    | none => mergeInto owner (merged ++ [parameter]) rest
    | some existing =>
      if existing.type_ ≠ parameter.type_ ∨
        existing.argumentTypeStr ≠ parameter.argumentTypeStr then
        .error (conflict owner existing parameter)
      else mergeInto owner merged rest

def mergeDuplicateParameters (parameters : List HttpParameterSpec) (owner : String) :
    Except ConflictingParametersError (List HttpParameterSpec) :=
  mergeInto owner [] parameters

/-- What the request has as its body: form data, with the body parameter spread into it if
there is one, the body parameter alone, or nothing. -/
inductive RequestBody where
  | makeFormData (entries : List String) (spread : Option String)
  | argument (name : String)
  | undefined

/-- An emitted method. Arguments have a name and a type. -/
structure EndpointMethod where
  name : String
  arguments : List (String × String)
  returnValueRepr : String
  responseType : Option String
  method : String
  path : String
  pathParams : List String
  headers : List String
  query : List String
  body : RequestBody

/-- The names that `_write_named_params` writes. -/
def namedParams (parameters : List HttpParameterSpec) (kind : ParameterKind) : List String :=
  ((parameters.filter fun param => decide (param.type_ = kind)).mergeSort fun a b =>
    decide (a.name ≤ b.name)).map
    HttpParameterSpec.name

def formParams (parameters : List HttpParameterSpec) : List HttpParameterSpec :=
  parameters.filter fun param => decide (param.type_ = .form)

/-- `next(...)` takes the first body parameter. -/
def bodyParam (parameters : List HttpParameterSpec) : Option HttpParameterSpec :=
  parameters.find? fun param => decide (param.type_ = .body)

def requestBody (parameters : List HttpParameterSpec) : RequestBody :=
  match formParams parameters, bodyParam parameters with
  | param :: rest, body =>
    .makeFormData ((param :: rest).map HttpParameterSpec.name) (body.map HttpParameterSpec.name)
  | [], some body => .argument body.name
  | [], none => .undefined

/-- The `RestController` and the `HttpMapping` of an endpoint. -/
structure Endpoint where
  controllerPath : String
  path : String
  method : String
  responseType : Option String

/-- What `write_endpoint_method` emits; `title` is `str.title`. -/
def endpointMethod (title : List Char → List Char) (name : String) (endpoint : Endpoint)
    (parameters : List HttpParameterSpec) (returnValueRepr : String) : EndpointMethod where
  name := ClientRoutes.snakeToCamel title name
  arguments := parameters.map fun param => (param.name, param.argumentTypeStr)
  returnValueRepr := returnValueRepr
  responseType := endpoint.responseType
  method := endpoint.method
  path := String.ofList (PathTemplates.buildEndpointPath endpoint.controllerPath.toList
    endpoint.path.toList
    (parameters.map fun param => param.name.toList))
  pathParams := namedParams parameters .path
  headers := namedParams parameters .header
  query := namedParams parameters .query
  body := requestBody parameters

section Text

/-- One line of an object: the key and the argument under the same name. -/
def entryText (name : String) : String := "\t\t\t\t\"" ++ name ++ "\": " ++ name ++ ",\n"

def namedText (key : String) (names : List String) : String :=
  "\t\t\t" ++ key ++ ": \x7b\n" ++ String.join (names.map entryText) ++ "\t\t\t\x7d,\n"

def RequestBody.text : RequestBody → String
  | .makeFormData entries spread =>
    "\t\t\tbody: makeFormData(\x7b\n" ++ String.join (entries.map entryText) ++
      (match spread with
        | some name => "\t\t\t\t..." ++ name ++ ",\n"
        | none => "") ++ "\t\t\t\x7d)\n"
  | .argument name => "\t\t\tbody: " ++ name ++ "\n"
  | .undefined => "\t\t\tbody: undefined\n"

/-- The text of the method in the class buffer. -/
def EndpointMethod.text (m : EndpointMethod) : String :=
  "\tasync " ++ m.name ++ "(" ++ ", ".intercalate
    (m.arguments.map fun a => a.1 ++ ": " ++ a.2) ++ "): Promise<" ++
    m.returnValueRepr ++ "> \x7b\n\t\tconst response = await this.httpBackend.request<" ++
      m.returnValueRepr ++ ">(\x7b \n" ++
    (match m.responseType with
      | some responseType => "\t\t\tresponseType: \"" ++ responseType ++ "\",\n"
      | none => "") ++
    "\t\t\tmethod: \"" ++ m.method ++ "\",\n\t\t\tpath: `" ++ m.path ++ "`,\n" ++
    namedText "pathParams" m.pathParams ++ namedText "headers" m.headers ++
      namedText "query" m.query ++ m.body.text ++
    "\t\t\x7d);\n\t\treturn response;\n\t\x7d\n"

end Text

def RequestBody.count : RequestBody → String → Nat
  | .makeFormData entries spread, name => entries.count name + if spread = some name then 1 else 0
  | .argument body, name => if body = name then 1 else 0
  | .undefined, _ => 0

/-- How often the request transmits an argument. -/
def EndpointMethod.transmits (m : EndpointMethod) (name : String) : Nat :=
  m.pathParams.count name + m.headers.count name + m.query.count name + m.body.count name

/-- Two parameters share a name but differ in kind or in type. -/
def Conflicting (parameters : List HttpParameterSpec) : Prop :=
  ∃ p ∈ parameters, ∃ q ∈ parameters, p.name = q.name ∧
    (p.type_ ≠ q.type_ ∨ p.argumentTypeStr ≠ q.argumentTypeStr)

def firsts : List HttpParameterSpec → List HttpParameterSpec
  | [] => []
  | parameter :: rest => parameter :: (firsts rest).filter fun q => decide (q.name ≠ parameter.name)

/-- The names of a list in the order in which they first occur. -/
def firstNames : List String → List String
  | [] => []
  | name :: rest => name :: (firstNames rest).filter fun other => decide (other ≠ name)

/-- All body parameters are one. -/
def SingleBody (parameters : List HttpParameterSpec) : Prop :=
  ∀ p ∈ parameters, ∀ q ∈ parameters, p.type_ = .body → q.type_ = .body → p.name = q.name

section Merging

variable {owner : String} {merged parameters : List HttpParameterSpec}

theorem mem_firsts {p : HttpParameterSpec} (h : p ∈ firsts parameters) : p ∈ parameters := by
  induction parameters with
  | nil => exact h
  | cons q rest ih =>
    obtain rfl | h := List.mem_cons.mp h
    · exact List.mem_cons_self
    · exact List.mem_cons_of_mem q (ih (List.mem_filter.mp h).1)

/-- The names of the merged parameters are the first occurrences of the names. -/
theorem firsts_names (parameters : List HttpParameterSpec) :
    (firsts parameters).map HttpParameterSpec.name =
      firstNames (parameters.map HttpParameterSpec.name) := by
  induction parameters with
  | nil => rfl
  | cons p rest ih =>
    rw [firsts, List.map_cons, List.map_cons, firstNames, ← ih, List.filter_map]
    rfl

/-- No name is merged in twice. -/
theorem firsts_nodup (parameters : List HttpParameterSpec) :
    ((firsts parameters).map HttpParameterSpec.name).Nodup := by
  induction parameters with
  | nil => exact List.nodup_nil
  | cons p rest ih =>
    rw [firsts, List.map_cons, List.nodup_cons]
    constructor
    · intro hmem
      obtain ⟨q, hq, hname⟩ := List.mem_map.mp hmem
      exact absurd hname (of_decide_eq_true (List.mem_filter.mp hq).2)
    · exact ih.sublist (List.filter_sublist.map _)

/-- Every name is covered. -/
theorem exists_first {p : HttpParameterSpec} (h : p ∈ parameters) :
    ∃ q ∈ firsts parameters, q.name = p.name := by
  induction parameters with
  | nil => cases h
  | cons r rest ih =>
    rw [firsts]
    by_cases hname : p.name = r.name
    · exact ⟨r, List.mem_cons_self, hname.symm⟩
    · obtain rfl | h := List.mem_cons.mp h
      · exact absurd rfl hname
      · obtain ⟨q, hq, hqp⟩ := ih h
        refine ⟨q, List.mem_cons_of_mem r (List.mem_filter.mpr ⟨hq, ?_⟩), hqp⟩
        simpa [hqp] using hname

/-- One parameter more, of a name that is merged already and alike, conflicts with nothing new. -/
theorem conflicting_skip (rest : List HttpParameterSpec) {existing p : HttpParameterSpec}
    (hmem : existing ∈ merged)
    (hname : existing.name = p.name) (htype : existing.type_ = p.type_)
    (hstr : existing.argumentTypeStr = p.argumentTypeStr) :
    Conflicting (merged ++ p :: rest) ↔ Conflicting (merged ++ rest) := by
  have hold : existing ∈ merged ++ rest := List.mem_append_left rest hmem
  -- whoever conflicts with the new one conflicts with the merged one
  have hreplace : ∀ q ∈ merged ++ p :: rest, ∃ q' ∈ merged ++ rest,
      q'.name = q.name ∧ q'.type_ = q.type_ ∧ q'.argumentTypeStr = q.argumentTypeStr := by
    intro q hq
    simp only [List.mem_append, List.mem_cons] at hq
    obtain hq | rfl | hq := hq
    · exact ⟨q, List.mem_append_left rest hq, rfl, rfl, rfl⟩
    · exact ⟨existing, hold, hname, htype, hstr⟩
    · exact ⟨q, List.mem_append_right merged hq, rfl, rfl, rfl⟩
  constructor
  · rintro ⟨q, hq, r, hr, hqr, hdiffer⟩
    obtain ⟨q', hq', hqname, hqtype, hqstr⟩ := hreplace q hq
    obtain ⟨r', hr', hrname, hrtype, hrstr⟩ := hreplace r hr
    exact ⟨q', hq', r', hr', by rw [hqname, hrname, hqr],
      by rw [hqtype, hrtype, hqstr, hrstr]; exact hdiffer⟩
  · rintro ⟨q, hq, r, hr, hqr, hdiffer⟩
    have hsub : merged ++ rest ⊆ merged ++ p :: rest :=
      List.append_subset.mpr ⟨List.subset_append_left _ _, fun x hx =>
        List.mem_append_right merged (List.mem_cons_of_mem p hx)⟩
    exact ⟨q, hsub hq, r, hsub hr, hqr, hdiffer⟩

theorem not_conflicting (hmerged : (merged.map HttpParameterSpec.name).Nodup) :
    ¬Conflicting merged := by
  rintro ⟨p, hp, q, hq, hname, hdiffer⟩
  obtain rfl := List.inj_on_of_nodup_map hmerged hp hq hname
  simp at hdiffer

theorem nodup_append_new {p : HttpParameterSpec}
    (hmerged : (merged.map HttpParameterSpec.name).Nodup)
    (hnew : p.name ∉ merged.map HttpParameterSpec.name) :
    ((merged ++ [p]).map HttpParameterSpec.name).Nodup := by
  rw [List.map_append, List.map_singleton, List.nodup_append]
  refine ⟨hmerged, List.nodup_singleton _, ?_⟩
  rintro name hname _ hother rfl
  rw [List.mem_singleton.mp hother] at hname
  exact hnew hname

/-- A parameter of a new name is the first of what is still to come. -/
theorem firsts_new {p : HttpParameterSpec} (rest : List HttpParameterSpec)
    (hnew : p.name ∉ merged.map HttpParameterSpec.name) :
    (firsts (p :: rest)).filter (fun q => decide (q.name ∉ merged.map HttpParameterSpec.name)) =
      p :: (firsts rest).filter fun q =>
        decide (q.name ∉ (merged ++ [p]).map HttpParameterSpec.name) := by
  rw [firsts, List.filter_cons_of_pos (by simpa using hnew), List.filter_filter]
  congr 1
  apply List.filter_congr
  intro q _
  rw [List.map_append, List.map_singleton, ← Bool.decide_and]
  simp only [List.mem_append, List.mem_singleton, not_or]

/-- A parameter of a name that is merged already is not. -/
theorem firsts_known {p : HttpParameterSpec} (rest : List HttpParameterSpec)
    (hin : p.name ∈ merged.map HttpParameterSpec.name) :
    (firsts (p :: rest)).filter (fun q => decide (q.name ∉ merged.map HttpParameterSpec.name)) =
      (firsts rest).filter fun q => decide (q.name ∉ merged.map HttpParameterSpec.name) := by
  rw [firsts, List.filter_cons_of_neg (by simpa using hin), List.filter_filter]
  apply List.filter_congr
  intro q _
  by_cases hq : q.name ∈ merged.map HttpParameterSpec.name
  · simp [hq]
  · have hne : q.name ≠ p.name := by
      rintro heq
      exact hq (heq ▸ hin)
    simp [hne]

/-- The loop fails exactly on a conflict, and keeps the first parameter of each new name. -/
theorem mergeInto_spec (hmerged : (merged.map HttpParameterSpec.name).Nodup) :
    match mergeInto owner merged parameters with
    | .error _ => Conflicting (merged ++ parameters)
    | .ok result =>
      ¬Conflicting (merged ++ parameters) ∧ result = merged ++ (firsts parameters).filter fun q =>
        decide (q.name ∉ merged.map HttpParameterSpec.name) := by
  induction parameters generalizing merged with
  | nil =>
    rw [mergeInto, List.append_nil]
    exact ⟨not_conflicting hmerged, by simp [firsts]⟩
  | cons p rest ih =>
    rw [mergeInto]
    cases hfind : merged.find? fun existing => decide (existing.name = p.name) with
    | none =>
      have hnew : p.name ∉ merged.map HttpParameterSpec.name := by
        intro hmem
        obtain ⟨q, hq, hname⟩ := List.mem_map.mp hmem
        simpa [hname] using List.find?_eq_none.mp hfind q hq
      have hrest := ih (nodup_append_new hmerged hnew)
      rw [List.append_assoc] at hrest
      cases hresult : mergeInto owner (merged ++ [p]) rest with
      | error e =>
        rw [hresult] at hrest
        exact hrest
      | ok result =>
        rw [hresult] at hrest
        refine ⟨hrest.1, ?_⟩
        rw [hrest.2, firsts_new rest hnew, List.append_assoc, List.singleton_append]
    | some existing =>
      have hmem := List.mem_of_find?_eq_some hfind
      have hname : existing.name = p.name := by simpa using List.find?_some hfind
      by_cases hdiffer : existing.type_ ≠ p.type_ ∨ existing.argumentTypeStr ≠ p.argumentTypeStr
      · simp only [hdiffer, if_true]
        exact ⟨existing, List.mem_append_left _ hmem, p, List.mem_append_right _ List.mem_cons_self,
          hname, hdiffer⟩
      · simp only [hdiffer, if_false]
        rw [not_or, not_not, not_not] at hdiffer
        have hskip := conflicting_skip rest hmem hname hdiffer.1 hdiffer.2
        have hrest := ih hmerged
        cases hresult : mergeInto owner merged rest with
        | error e =>
          rw [hresult] at hrest
          exact hskip.mpr hrest
        | ok result =>
          rw [hresult] at hrest
          have hin : p.name ∈ merged.map HttpParameterSpec.name := hname ▸ List.mem_map_of_mem hmem
          exact ⟨fun h => hrest.1 (hskip.mp h), by rw [hrest.2, firsts_known rest hin]⟩

end Merging

section Transmission

variable {merged parameters : List HttpParameterSpec}

/-- Among distinct names, a parameter's name is once among those of its kind. -/
theorem count_kind (hnodup : (merged.map HttpParameterSpec.name).Nodup) (kind : ParameterKind)
    {p : HttpParameterSpec} (hp : p ∈ merged) :
    ((merged.filter fun param =>
      decide (param.type_ = kind)).map HttpParameterSpec.name).count p.name =
      if p.type_ = kind then 1 else 0 := by
  have hsub : ((merged.filter fun param =>
      decide (param.type_ = kind)).map HttpParameterSpec.name).Nodup :=
    hnodup.sublist (List.filter_sublist.map _)
  split
  · next hkind =>
    apply List.count_eq_one_of_mem hsub
    exact List.mem_map_of_mem (List.mem_filter.mpr ⟨hp, decide_eq_true hkind⟩)
  · next hkind =>
    rw [List.count_eq_zero]
    intro hmem
    obtain ⟨q, hq, hname⟩ := List.mem_map.mp hmem
    obtain ⟨hq, hqkind⟩ := List.mem_filter.mp hq
    obtain rfl := List.inj_on_of_nodup_map hnodup hq hp hname
    exact hkind (of_decide_eq_true hqkind)

theorem count_namedParams (hnodup : (merged.map HttpParameterSpec.name).Nodup)
    (kind : ParameterKind)
    {p : HttpParameterSpec} (hp : p ∈ merged) :
    (namedParams merged kind).count p.name = if p.type_ = kind then 1 else 0 := by
  rw [← count_kind hnodup kind hp]
  unfold namedParams
  exact ((List.mergeSort_perm _ _).map HttpParameterSpec.name).count_eq p.name

/-- The body holds the form parameters and the first body parameter. -/
theorem count_requestBody (parameters : List HttpParameterSpec) (name : String) :
    (requestBody parameters).count name =
      ((formParams parameters).map HttpParameterSpec.name).count name +
      if (bodyParam parameters).map HttpParameterSpec.name = some name then 1 else 0 := by
  unfold requestBody
  cases formParams parameters with
  | cons param rest => rfl
  | nil =>
    cases bodyParam parameters with
    | none => rfl
    | some body => simp [RequestBody.count]

variable (title : List Char → List Char) (name : String) (endpoint : Endpoint)
  (returnValueRepr : String)

/-- How often a merged parameter is sent, kind by kind. -/
theorem transmits_eq (hnodup : (merged.map HttpParameterSpec.name).Nodup) {p : HttpParameterSpec}
    (hp : p ∈ merged) :
    (endpointMethod title name endpoint merged returnValueRepr).transmits p.name =
      match p.type_ with
      | .cookie => if (bodyParam merged).map HttpParameterSpec.name = some p.name then 1 else 0
      | .body => if (bodyParam merged).map HttpParameterSpec.name = some p.name then 1 else 0
      | _ => 1 + if (bodyParam merged).map HttpParameterSpec.name = some p.name then 1 else 0 := by
  have hform : ((formParams merged).map HttpParameterSpec.name).count p.name = if p.type_ =
      .form then 1 else 0 :=
    count_kind hnodup .form hp
  simp only [EndpointMethod.transmits, endpointMethod, count_namedParams hnodup _ hp,
    count_requestBody, hform]
  cases p.type_ <;> simp

/-- The body parameter that is sent is one of the parameters, and no other has its name. -/
theorem bodyParam_name (hnodup : (merged.map HttpParameterSpec.name).Nodup) {p : HttpParameterSpec}
    (hp : p ∈ merged)
    (hname : (bodyParam merged).map HttpParameterSpec.name = some p.name) : p.type_ = .body := by
  obtain ⟨body, hbody, heq⟩ := Option.map_eq_some_iff.mp hname
  have hkind : body.type_ = .body := by simpa using List.find?_some hbody
  rw [← List.inj_on_of_nodup_map hnodup (List.mem_of_find?_eq_some hbody) hp heq, hkind]

/-- All arguments but the cookies are transmitted once exactly when there is one body parameter
at most. -/
theorem transmits_iff (hnodup : (merged.map HttpParameterSpec.name).Nodup) :
    (∀ p ∈ merged, p.type_ ≠ .cookie →
      (endpointMethod title name endpoint merged returnValueRepr).transmits p.name = 1) ↔
        SingleBody merged := by
  constructor
  · intro htransmits p hp q hq hpbody hqbody
    have hsent : ∀ r ∈ merged, r.type_ = .body →
        (bodyParam merged).map HttpParameterSpec.name = some r.name := by
      intro r hr hrbody
      have hone := htransmits r hr (by simp [hrbody])
      rw [transmits_eq title name endpoint returnValueRepr hnodup hr, hrbody] at hone
      by_contra hne
      simp [hne] at hone
    have hboth := (hsent p hp hpbody).symm.trans (hsent q hq hqbody)
    exact Option.some.inj hboth
  · intro hsingle p hp hcookie
    rw [transmits_eq title name endpoint returnValueRepr hnodup hp]
    by_cases hbody : p.type_ = .body
    · -- the first body parameter has the name of this one
      have hsome : (bodyParam merged).isSome := by
        unfold bodyParam
        rw [List.find?_isSome]
        exact ⟨p, hp, decide_eq_true hbody⟩
      obtain ⟨body, hfound⟩ := Option.isSome_iff_exists.mp hsome
      have hkind : body.type_ = .body := by simpa using List.find?_some hfound
      have hname := hsingle body (List.mem_of_find?_eq_some hfound) p hp hkind hbody
      simp [hbody, hfound, hname]
    · have hne : (bodyParam merged).map HttpParameterSpec.name ≠ some p.name :=
        fun h => hbody (bodyParam_name hnodup hp h)
      cases hkind : p.type_ with
      | cookie => exact absurd hkind hcookie
      | body => exact absurd hkind hbody
      | query | path | header | form => simp [hne]

/-- Without conflicts the first parameters have one body exactly when all have. -/
theorem singleBody_firsts (h : ¬Conflicting parameters) :
    SingleBody (firsts parameters) ↔ SingleBody parameters := by
  constructor
  · intro hsingle
    have hfirst : ∀ p ∈ parameters, p.type_ = .body →
        ∃ q ∈ firsts parameters, q.type_ = .body ∧ q.name = p.name := by
      intro p hp hbody
      obtain ⟨q, hq, hname⟩ := exists_first hp
      refine ⟨q, hq, ?_, hname⟩
      by_contra hne
      exact h ⟨q, mem_firsts hq, p, hp, hname, .inl (by rw [hbody]; exact hne)⟩
    intro p hp q hq hpbody hqbody
    obtain ⟨p', hp', hpkind, hpname⟩ := hfirst p hp hpbody
    obtain ⟨q', hq', hqkind, hqname⟩ := hfirst q hq hqbody
    rw [← hpname, ← hqname]
    exact hsingle p' hp' q' hq' hpkind hqkind
  · intro hsingle p hp q hq
    exact hsingle p (mem_firsts hp) q (mem_firsts hq)

/-- What merging and emission are to do: to fail exactly on a conflict, and otherwise to give
a method whose arguments are the parameters with each name once, in the order in which the
names first occur, and which transmits every argument once except the cookies. -/
def EmitsAll (owner : String) (parameters : List HttpParameterSpec) : Prop :=
  match mergeDuplicateParameters parameters owner with
  | .error _ => Conflicting parameters
  | .ok merged => ¬Conflicting parameters ∧
      (merged.map HttpParameterSpec.name).Nodup ∧
      merged.map HttpParameterSpec.name = firstNames (parameters.map HttpParameterSpec.name) ∧
      (endpointMethod title name endpoint merged returnValueRepr).arguments =
        merged.map (fun param => (param.name, param.argumentTypeStr)) ∧
      ∀ p ∈ merged, p.type_ ≠ .cookie →
        (endpointMethod title name endpoint merged returnValueRepr).transmits p.name = 1

/-- Exactly when the parameters conflict or have one body parameter at most. -/
theorem emitsAll_iff (owner : String) (parameters : List HttpParameterSpec) :
    EmitsAll title name endpoint returnValueRepr owner parameters ↔
      Conflicting parameters ∨ SingleBody parameters := by
  have hspec := @mergeInto_spec owner [] parameters List.nodup_nil
  unfold EmitsAll mergeDuplicateParameters
  cases hresult : mergeInto owner [] parameters with
  | error e =>
    rw [hresult] at hspec
    exact iff_of_true hspec (.inl hspec)
  | ok merged =>
    rw [hresult] at hspec
    obtain ⟨hclear, hmerged⟩ := hspec
    have hfirsts : merged = firsts parameters := by simpa using hmerged
    have hnodup : (merged.map HttpParameterSpec.name).Nodup := hfirsts ▸ firsts_nodup parameters
    have hbodies : SingleBody merged ↔ SingleBody parameters := hfirsts ▸ singleBody_firsts hclear
    rw [← hbodies, ← transmits_iff title name endpoint returnValueRepr hnodup]
    constructor
    · rintro ⟨-, -, -, -, htransmits⟩
      exact .inr htransmits
    · intro h
      exact ⟨hclear, hnodup, hfirsts ▸ firsts_names parameters, rfl, h.resolve_left hclear⟩

end Transmission

/-- Two body parameters of a handler. -/
def itemAndMeta : List HttpParameterSpec :=
  [{ type_ := .body, name := "item", argumentTypeStr := "Item" },
    { type_ := .body, name := "meta", argumentTypeStr := "Meta" }]

/-- The method takes both and sends the first alone. -/
theorem second_body_not_sent :
    mergeDuplicateParameters itemAndMeta "Items.create" = .ok itemAndMeta ∧
      ((endpointMethod id "create" ⟨"/items", "", "POST", none⟩ itemAndMeta "Item").arguments =
        [("item", "Item"), ("meta", "Meta")]) ∧
      (endpointMethod id "create" ⟨"/items", "", "POST", none⟩ itemAndMeta "Item").body =
        .argument "item" ∧
      (endpointMethod id "create" ⟨"/items", "", "POST", none⟩ itemAndMeta "Item").transmits
        "meta" = 0 := by
  refine ⟨by decide, rfl, rfl, ?_⟩
  have hnodup : (itemAndMeta.map HttpParameterSpec.name).Nodup := by decide
  exact transmits_eq (p :=
    { type_ := .body, name := "meta", argumentTypeStr := "Meta" }) id "create" _ "Item" hnodup
    (List.mem_cons_of_mem _ List.mem_cons_self)

end EndpointMethods
