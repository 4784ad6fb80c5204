import Jararaca.ScopeStacks
import Jararaca.SeparatedLists

/-!
# The echoed trace header

`TraceResponseHeaderMiddleware.apply` of observability/trace_response.py on one response. The
trace header is replaced under its name in lower case, and its name as configured joins the list
of exposed names. Whether it is there already is asked with the listed names in lower case and
the configured one as it is, so a name with a capital is never found.
-/
namespace TraceEcho

open Messages (Bytes)
open InboundTrace (Header Scope latin1 bytesLower strLower charLower forall_byte strLower_strLower)
open ScopeStacks (Carried TraceResponseHeader hasHeader corsExposeHeaders corsAllowOrigin)
open SeparatedLists (parts Listable parts_intercalate flatMap_parts listable_of_mem_parts)

variable {φ : Type}

/-- A character that `str.strip` takes off. -/
def blank (b : UInt8) : Bool := decide (b ∈ [9, 10, 11, 12, 13, 28, 29, 30, 31, 32, 133, 160])

/-- The names in a header value, between commas. -/
abbrev namesOf (value : Bytes) : List Bytes := parts 44 blank value

theorem exposed_eq (headers : List Header) :
    TraceResponseHeader.exposed headers =
      (headers.filter fun h => decide (bytesLower h.1 = corsExposeHeaders)).flatMap fun h =>
        namesOf h.2 :=
  rfl

def joined (names : List Bytes) : Bytes := (latin1 ", ").intercalate names

theorem namesOf_joined (names : List Bytes) : namesOf (joined names) = names.flatMap namesOf :=
  parts_intercalate (by decide) (by decide) names

/-- A name that a list of names holds as it is. -/
abbrev Holdable (name : Bytes) : Prop := Listable 44 blank name

/-- A letter is no blank in either case, and nothing else changes. -/
theorem blank_charLower (b : UInt8) : blank (charLower b) = blank b := by
  have hcases : ∀ b : UInt8, charLower b = b ∨ blank b = false ∧ blank (charLower b) = false :=
    forall_byte (by decide +kernel)
  obtain hsame | ⟨hletter, hlower⟩ := hcases b
  · rw [hsame]
  · rw [hlower, hletter]

theorem holdable_strLower {name : Bytes} : Holdable (strLower name) ↔ Holdable name :=
  SeparatedLists.listable_map
    (forall_byte (by decide +kernel) : ∀ b : UInt8, charLower b = 44 ↔ b = 44)
    blank_charLower

/-- Names that are equal but for their case are both holdable or neither. -/
theorem holdable_of_same {name other : Bytes} (h : strLower name = strLower other)
    (hname : Holdable name) :
    Holdable other :=
  holdable_strLower.mp (h ▸ holdable_strLower.mpr hname)

theorem holdable_exposed {headers : List Header} {name : Bytes}
    (h : name ∈ TraceResponseHeader.exposed headers) : Holdable name := by
  rw [exposed_eq] at h
  obtain ⟨header, _, hname⟩ := List.mem_flatMap.mp h
  exact listable_of_mem_parts hname

/-- Whether a list of names has `text`, with the listed names in lower case. -/
def found (text : Bytes) (names : List Bytes) : Bool :=
  names.any fun name => decide (strLower name = text)

theorem found_iff {text : Bytes} {names : List Bytes} :
    found text names = true ↔ ∃ name ∈ names, strLower name = text := by
  simp [found]

/-- A scope for which a trace is available, with the span the request came in with. -/
structure Traced (φ : Type) where
  scope : Scope (Carried φ)
  entrySpan : Bytes
  available : TraceResponseHeader.resolveScopeTraceparent scope entrySpan ≠ []

def Traced.traceparent (t : Traced φ) : Bytes :=
  TraceResponseHeader.resolveScopeTraceparent t.scope t.entrySpan

section apply

variable (m : TraceResponseHeader) (t : Traced φ) (headers : List Header)

/-- Whether `apply` adds the header, where a trace is available. -/
def adds : Bool := m.overwrite || !hasHeader headers m.headerNameBytes

/-- The headers with the trace header replaced, before any list of names. -/
def replaced (traceparent : Bytes) : List Header :=
  (headers.filter fun h => decide (bytesLower h.1 ≠ m.headerNameBytes)) ++
    [(m.headerNameBytes, traceparent)]

/-- The listed names, with the trace header's own name where it is not listed. -/
def withName (listed : Bool) (names : List Bytes) : List Bytes :=
  if listed then names else names ++ [m.headerName]

theorem apply_eq : m.apply t.scope t.entrySpan headers =
    if adds m headers then
      if m.exposeViaCors then m.exposeHeader (replaced m headers t.traceparent)
      else replaced m headers t.traceparent
    else headers := by
  have hguard : (!m.overwrite && hasHeader headers m.headerNameBytes) = !adds m headers := by
    unfold adds
    cases m.overwrite <;> cases hasHeader headers m.headerNameBytes <;> rfl
  unfold TraceResponseHeader.apply
  change (if _ then headers else
    if TraceResponseHeader.resolveScopeTraceparent t.scope t.entrySpan = [] then headers else _) = _
  rw [hguard, if_neg t.available]
  cases adds m headers <;> rfl

theorem exposeHeader_eq : m.exposeHeader headers =
    if hasHeader headers corsAllowOrigin then
      (headers.filter fun h => decide (bytesLower h.1 ≠ corsExposeHeaders)) ++
        [(corsExposeHeaders, joined (withName m
          (found m.headerName (TraceResponseHeader.exposed headers))
            (TraceResponseHeader.exposed headers)))]
    else headers := rfl

/-- The headers other than the trace header and the list of exposed names. -/
def others : List Header :=
  headers.filter fun h => decide (bytesLower h.1 ≠ m.headerNameBytes ∧
    bytesLower h.1 ≠ corsExposeHeaders)

/-- What is asked of the echo: the trace header is there, once where it was added; nothing else
but the list of exposed names has changed, that list gained the name where it was added to a CORS
response and was in the list in no letter case, and a second time changes nothing. -/
structure Echoes : Prop where
  present : m.values (m.apply t.scope t.entrySpan headers) ≠ []
  addedOnce : adds m headers = true → (m.values (m.apply t.scope t.entrySpan headers)).length = 1
  others : others m (m.apply t.scope t.entrySpan headers) = others m headers
  exposes : adds m headers = true → m.exposeViaCors = true →
    hasHeader headers corsAllowOrigin = true →
    TraceResponseHeader.exposed (m.apply t.scope t.entrySpan headers) =
      withName m (found (strLower m.headerName) (TraceResponseHeader.exposed headers))
        (TraceResponseHeader.exposed headers)
  again : m.apply t.scope t.entrySpan (m.apply t.scope t.entrySpan headers) =
    m.apply t.scope t.entrySpan headers

/-- Nothing is added, or not to a list of names; or the name is one that the list can hold and is
in lower case, which matters only where it is listed in another case or will be asked for again. A
trace header with the name of the list itself is one whose value makes the same list. -/
def Faithful : Prop :=
  adds m headers = false ∨ m.exposeViaCors = false ∨
    (hasHeader headers corsAllowOrigin = false ∧ m.headerNameBytes ≠ corsAllowOrigin) ∨
    if m.headerNameBytes = corsExposeHeaders then
      withName m (found m.headerName (namesOf t.traceparent)) (namesOf t.traceparent) =
        withName m (found (strLower m.headerName) (TraceResponseHeader.exposed headers))
          (TraceResponseHeader.exposed headers)
    else if m.overwrite then Holdable m.headerName ∧ strLower m.headerName = m.headerName
    else m.headerNameBytes = corsAllowOrigin ∨ Holdable m.headerName ∧
      (found (strLower m.headerName) (TraceResponseHeader.exposed headers) = true →
        strLower m.headerName = m.headerName)

/-! ## The trace header replaced -/

theorem headerNameBytes_lower : bytesLower m.headerNameBytes = m.headerNameBytes :=
  ScopeStacks.bytesLower_twice m.headerName

theorem values_replaced (traceparent : Bytes) :
    m.values (replaced m headers traceparent) = [traceparent] := by
  unfold TraceResponseHeader.values replaced
  rw [List.filter_append, List.filter_filter]
  simp [headerNameBytes_lower]

theorem others_replaced (traceparent : Bytes) :
    others m (replaced m headers traceparent) = others m headers := by
  unfold others replaced
  rw [List.filter_append, List.filter_filter]
  simp only [headerNameBytes_lower, List.filter_singleton, ne_eq, not_true_eq_false, false_and,
    decide_false, cond_false, List.append_nil]
  exact List.filter_congr fun h _ => by simp; tauto

theorem replaced_replaced (traceparent : Bytes) :
    replaced m (replaced m headers traceparent) traceparent = replaced m headers traceparent := by
  rw [replaced, replaced, List.filter_append, List.filter_filter]
  simp [headerNameBytes_lower]

/-- Taking out the headers of one name leaves those of another. -/
theorem hasHeader_filter_ne {removed name : Bytes} (h : name ≠ removed) :
    hasHeader (headers.filter fun h => decide (bytesLower h.1 ≠ removed)) name =
      hasHeader headers name := by
  unfold hasHeader
  rw [List.any_filter]
  congr 1
  funext header
  by_cases hh : bytesLower header.1 = name
  · simp [hh, h]
  · simp [hh]

/-- The headers of a response with its traceparent. -/
theorem hasHeader_replaced (traceparent name : Bytes) :
    hasHeader (replaced m headers traceparent) name =
      (hasHeader headers name || decide (m.headerNameBytes = name)) := by
  rw [replaced, ScopeStacks.hasHeader_append, headerNameBytes_lower]
  by_cases hname : m.headerNameBytes = name
  · simp [hname]
  · rw [hasHeader_filter_ne headers (Ne.symm hname)]

/-- Which names it exposes. -/
theorem exposed_replaced (traceparent : Bytes) :
    TraceResponseHeader.exposed (replaced m headers traceparent) =
      if m.headerNameBytes = corsExposeHeaders then namesOf traceparent
      else TraceResponseHeader.exposed headers := by
  have hsplit : TraceResponseHeader.exposed (replaced m headers traceparent) =
      ((headers.filter fun h => decide (bytesLower h.1 = corsExposeHeaders) &&
        decide (bytesLower h.1 ≠ m.headerNameBytes)).flatMap fun h => namesOf h.2) ++
        if m.headerNameBytes = corsExposeHeaders then namesOf traceparent else [] := by
    rw [exposed_eq, replaced, List.filter_append, List.filter_filter, List.flatMap_append,
      List.filter_singleton, headerNameBytes_lower]
    by_cases hname : m.headerNameBytes = corsExposeHeaders <;> simp [hname]
  rw [hsplit]
  split
  · rename_i hname
    rw [hname, List.filter_eq_nil_iff.mpr (by simp)]
    rfl
  · rename_i hname
    rw [List.append_nil, exposed_eq]
    congr 1
    refine List.filter_congr fun h _ => ?_
    by_cases hh : bytesLower h.1 = corsExposeHeaders
    · simp [hh, Ne.symm hname]
    · simp [hh]

theorem hasHeader_iff_values :
    hasHeader headers m.headerNameBytes = true ↔ m.values headers ≠ [] := by
  simp [hasHeader, TraceResponseHeader.values, List.filter_eq_nil_iff]

/-! ## The list of names written -/

theorem others_exposeHeader : others m (m.exposeHeader headers) = others m headers := by
  rw [exposeHeader_eq]
  split
  · have hlower : bytesLower corsExposeHeaders = corsExposeHeaders := by decide
    unfold others
    rw [List.filter_append, List.filter_filter, List.filter_singleton]
    simp only [hlower, ne_eq, not_true_eq_false, and_false, decide_false, cond_false,
      List.append_nil]
    exact List.filter_congr fun h _ => by
      by_cases hh : bytesLower h.1 = corsExposeHeaders <;> simp [hh]
  · rfl

theorem values_exposeHeader_length (h : m.headerNameBytes = corsExposeHeaders →
    hasHeader headers corsAllowOrigin = true) (hone : (m.values headers).length = 1) :
    (m.values (m.exposeHeader headers)).length = 1 := by
  by_cases hname : m.headerNameBytes = corsExposeHeaders
  · have hlower : bytesLower corsExposeHeaders = corsExposeHeaders := by decide
    rw [exposeHeader_eq, if_pos (h hname), TraceResponseHeader.values, List.filter_append,
      List.filter_filter, hname]
    simp [hlower]
  · rw [ScopeStacks.values_exposeHeader m fun heq => absurd heq hname]
    exact hone

/-- The names of the list that is written. -/
theorem exposed_exposeHeader (hcors : hasHeader headers corsAllowOrigin = true) :
    TraceResponseHeader.exposed (m.exposeHeader headers) =
      (withName m (found m.headerName (TraceResponseHeader.exposed headers))
        (TraceResponseHeader.exposed headers)).flatMap namesOf := by
  have hlower : bytesLower corsExposeHeaders = corsExposeHeaders := by decide
  rw [exposeHeader_eq, if_pos hcors, exposed_eq, List.filter_append, List.filter_filter,
    List.flatMap_append, List.filter_eq_nil_iff.mpr (by simp), List.filter_singleton, hlower]
  simp only [decide_true, cond_true, List.flatMap_nil, List.nil_append, List.flatMap_cons,
    List.append_nil]
  exact namesOf_joined _

theorem flatMap_withName {names : List Bytes} (h : ∀ name ∈ names, Holdable name) (listed : Bool) :
    (withName m listed names).flatMap namesOf = names ++ if listed then []
      else namesOf m.headerName := by
  unfold withName
  cases listed with
  | true => simpa using flatMap_parts h
  | false => simp [List.flatMap_append, flatMap_parts h]

/-! ## A second time -/

/-- Without overwriting, a header that is there is left alone. -/
theorem again_of_not_overwrite (hoverwrite : m.overwrite = false)
    (hpresent : m.values headers ≠ []) :
    m.apply t.scope t.entrySpan headers = headers := by
  have hkept : adds m headers = false := by
    rw [adds, hoverwrite, (hasHeader_iff_values m headers).mpr hpresent]
    rfl
  rw [apply_eq, if_neg (by simp [hkept])]

/-- Where the trace header is the list of names itself, the list is made from the trace again. -/
theorem replaced_exposeHeader_self (hname : m.headerNameBytes = corsExposeHeaders)
    (traceparent : Bytes) :
    replaced m (m.exposeHeader (replaced m headers traceparent)) traceparent =
      replaced m headers traceparent := by
  have hlower : bytesLower corsExposeHeaders = corsExposeHeaders := by decide
  rw [exposeHeader_eq]
  split
  · unfold replaced
    simp [hname, hlower, List.filter_append, List.filter_filter]
  · exact replaced_replaced m headers traceparent

/-- Where it is another header, it changes places with the list, and the list is written anew. -/
theorem exposeHeader_replaced_again (hname : m.headerNameBytes ≠ corsExposeHeaders)
    (traceparent : Bytes)
    (hcors : hasHeader (replaced m headers traceparent) corsAllowOrigin = true) :
    m.exposeHeader (replaced m (m.exposeHeader (replaced m headers traceparent)) traceparent) =
      ((replaced m headers traceparent).filter fun h =>
        decide (bytesLower h.1 ≠ corsExposeHeaders)) ++
        [(corsExposeHeaders, joined (withName m
          (found m.headerName
            (TraceResponseHeader.exposed (m.exposeHeader (replaced m headers traceparent))))
          (TraceResponseHeader.exposed (m.exposeHeader (replaced m headers traceparent)))))] := by
  have hlower : bytesLower corsExposeHeaders = corsExposeHeaders := by decide
  have hcorsAgain :
      hasHeader (replaced m (m.exposeHeader (replaced m headers traceparent)) traceparent)
      corsAllowOrigin = true := by
    rw [hasHeader_replaced, exposeHeader_eq, if_pos hcors, ScopeStacks.hasHeader_append,
      hasHeader_filter_ne _ (by decide), hcors]
    rfl
  rw [exposeHeader_eq, if_pos hcorsAgain, exposed_replaced, if_neg hname]
  congr 1
  rw [replaced, exposeHeader_eq, if_pos hcors]
  simp only [replaced, List.filter_append, List.filter_filter]
  simp [hlower, headerNameBytes_lower, hname]
  refine List.filter_congr fun h _ => ?_
  by_cases hh : bytesLower h.1 = corsExposeHeaders <;> simp [hh]

/-! ## When the echo is faithful -/

/-- A response that has the header is left as it is. -/
theorem echoes_kept (h : adds m headers = false) : Echoes m t headers := by
  have happly : m.apply t.scope t.entrySpan headers = headers := by
    rw [apply_eq, if_neg (by simp [h])]
  have hthere : hasHeader headers m.headerNameBytes = true := by
    unfold adds at h
    cases hh : hasHeader headers m.headerNameBytes with
    | true => rfl
    | false => simp [hh] at h
  constructor
  case present => rw [happly]; exact (hasHeader_iff_values m headers).mp hthere
  case addedOnce => exact fun hadds => absurd hadds (by simp [h])
  case others => rw [happly]
  case exposes => exact fun hadds => absurd hadds (by simp [h])
  case again => rw [happly, happly]

/-- What holds of a header that was added, whatever the list of names. -/
theorem added_once (hadds : adds m headers = true) :
    (m.values (m.apply t.scope t.entrySpan headers)).length = 1 := by
  have hone : (m.values (replaced m headers t.traceparent)).length =
      1 := by rw [values_replaced]; rfl
  rw [apply_eq, if_pos hadds]
  split
  · by_cases hcors : hasHeader (replaced m headers t.traceparent) corsAllowOrigin = true
    · exact values_exposeHeader_length m _ (fun _ => hcors) hone
    · rwa [exposeHeader_eq, if_neg hcors]
  · exact hone

theorem added_others (hadds : adds m headers = true) :
    others m (m.apply t.scope t.entrySpan headers) = others m headers := by
  rw [apply_eq, if_pos hadds]
  split
  · rw [others_exposeHeader, others_replaced]
  · exact others_replaced m headers t.traceparent

/-- An added header echoes where the list of names and the second time are right. -/
theorem echoes_added_iff (hadds : adds m headers = true) :
    Echoes m t headers ↔
      (m.exposeViaCors = true → hasHeader headers corsAllowOrigin = true →
        TraceResponseHeader.exposed (m.apply t.scope t.entrySpan headers) =
          withName m (found (strLower m.headerName) (TraceResponseHeader.exposed headers))
            (TraceResponseHeader.exposed headers)) ∧
      (m.overwrite = true → m.apply t.scope t.entrySpan (m.apply t.scope t.entrySpan headers) =
        m.apply t.scope t.entrySpan headers) := by
  have honce := added_once m t headers hadds
  have hpresent : m.values (m.apply t.scope t.entrySpan headers) ≠ [] := by
    intro hnil
    simp [hnil] at honce
  constructor
  · exact fun h => ⟨h.exposes hadds, fun _ => h.again⟩
  · rintro ⟨hexposes, hagain⟩
    refine ⟨hpresent, fun _ => honce, added_others m t headers hadds, fun _ => hexposes, ?_⟩
    cases hoverwrite : m.overwrite with
    | true => exact hagain hoverwrite
    | false => exact again_of_not_overwrite m t _ hoverwrite hpresent

/-- Without CORS headers the response carries the traceparent once. -/
theorem echoes_plain (hadds : adds m headers = true)
    (hplain : m.exposeViaCors = false ∨
      (hasHeader headers corsAllowOrigin = false ∧ m.headerNameBytes ≠ corsAllowOrigin)) :
    Echoes m t headers := by
  have hexpose : (if m.exposeViaCors then m.exposeHeader (replaced m headers t.traceparent)
      else replaced m headers t.traceparent) = replaced m headers t.traceparent := by
    obtain hexpose | ⟨hcors, hname⟩ := hplain
    · simp [hexpose]
    · have hnone : hasHeader (replaced m headers t.traceparent) corsAllowOrigin = false := by
        simp [hasHeader_replaced, hcors, hname]
      have hsame : m.exposeHeader (replaced m headers t.traceparent) =
          replaced m headers t.traceparent := by
        rw [exposeHeader_eq, if_neg (by simp [hnone])]
      rw [hsame, ite_self]
  have happly : m.apply t.scope t.entrySpan headers = replaced m headers t.traceparent := by
    rw [apply_eq, if_pos hadds, hexpose]
  refine (echoes_added_iff m t headers hadds).mpr ⟨fun hvia hcors => ?_, fun hoverwrite => ?_⟩
  · obtain hexpose | ⟨hnone, -⟩ := hplain
    · simp [hexpose] at hvia
    · simp [hnone] at hcors
  · have haddsAgain : adds m (replaced m headers t.traceparent) = true := by simp [adds, hoverwrite]
    rw [happly, apply_eq, if_pos haddsAgain, replaced_replaced, hexpose]

/-- A name that is one of the two CORS headers can be listed. -/
theorem holdable_of_cors {name : Bytes}
    (h : bytesLower name = corsExposeHeaders ∨ bytesLower name = corsAllowOrigin) :
    Holdable name := by
  have hboth : ∀ other ∈ [corsExposeHeaders, corsAllowOrigin],
      namesOf other = [other] ∧ ∀ b ∈ other, b < 128 := by decide +kernel
  have hname : bytesLower name ∈ [corsExposeHeaders, corsAllowOrigin] := by simpa using h
  obtain ⟨hheld, hascii⟩ := hboth _ hname
  rw [← holdable_strLower, InboundTrace.strLower_of_ascii hascii]
  exact SeparatedLists.listable_iff.mpr hheld

/-- Over names that a list holds: the name is found only where it is in lower case, so the list
gains it as it should exactly when it can hold it and would find it. -/
theorem written_iff {names : List Bytes} (h : ∀ name ∈ names, Holdable name) :
    names ++ (if found m.headerName names then [] else namesOf m.headerName) =
        withName m (found (strLower m.headerName) names) names ↔
      Holdable m.headerName ∧
        (found (strLower m.headerName) names = true → strLower m.headerName = m.headerName) := by
  by_cases hfound : found m.headerName names = true
  · obtain ⟨name, hname, hlower⟩ := found_iff.mp hfound
    have hfixed : strLower m.headerName = m.headerName := by rw [← hlower, strLower_strLower]
    have hheld : Holdable m.headerName := hlower ▸ holdable_strLower.mpr (h name hname)
    simp [hfound, hfixed, hheld, withName]
  · by_cases hother : found (strLower m.headerName) names = true
    · obtain ⟨name, hname, hlower⟩ := found_iff.mp hother
      have hheld : Holdable m.headerName := holdable_of_same hlower (h name hname)
      have hnotFixed : strLower m.headerName ≠ m.headerName :=
        fun hfixed => hfound (hfixed ▸ hother)
      simp [hfound, hother, withName, namesOf, hheld.parts, hnotFixed]
    · simp [hfound, hother, withName, namesOf, SeparatedLists.listable_iff]

/-- Over names that a list holds, as the name itself: it is found the second time exactly when it
is in lower case. -/
theorem found_again_iff (names : List Bytes) :
    found m.headerName (withName m (found m.headerName names) names) = true ↔
      strLower m.headerName = m.headerName := by
  constructor
  · intro h
    obtain ⟨name, _, hlower⟩ := found_iff.mp h
    rw [← hlower, strLower_strLower]
  · intro hfixed
    by_cases hfound : found m.headerName names = true
    · simp [withName, hfound]
    · exact found_iff.mpr ⟨m.headerName, by simp [withName, hfound], hfixed⟩

section listed

variable (hadds : adds m headers = true) (hexpose : m.exposeViaCors = true)
  (hcors : hasHeader (replaced m headers t.traceparent) corsAllowOrigin = true)

include hadds hexpose in
theorem apply_listed : m.apply t.scope t.entrySpan headers =
    m.exposeHeader (replaced m headers t.traceparent) := by
  rw [apply_eq, if_pos hadds, if_pos hexpose]

include hexpose in
theorem apply_again (hoverwrite : m.overwrite = true) (more : List Header) :
    m.apply t.scope t.entrySpan more = m.exposeHeader (replaced m more t.traceparent) :=
  apply_listed m t more (by simp [adds, hoverwrite]) hexpose

include hadds hexpose hcors

/-- Where the trace header is the list of names itself. -/
theorem echoes_self_iff (hname : m.headerNameBytes = corsExposeHeaders) :
    Echoes m t headers ↔
      withName m (found m.headerName (namesOf t.traceparent)) (namesOf t.traceparent) =
        withName m (found (strLower m.headerName) (TraceResponseHeader.exposed headers))
          (TraceResponseHeader.exposed headers) := by
  have hheld : Holdable m.headerName := holdable_of_cors (.inl hname)
  have hcorsBefore : hasHeader headers corsAllowOrigin = true := by
    have hne : corsExposeHeaders ≠ corsAllowOrigin := by decide
    rw [hasHeader_replaced, hname] at hcors
    simpa [hne] using hcors
  have hwritten : TraceResponseHeader.exposed (m.apply t.scope t.entrySpan headers) =
      withName m (found m.headerName (namesOf t.traceparent)) (namesOf t.traceparent) := by
    rw [apply_listed m t headers hadds hexpose, exposed_exposeHeader m _ hcors, exposed_replaced,
      if_pos hname,
      flatMap_withName m fun name hmem => listable_of_mem_parts hmem]
    cases found m.headerName (namesOf t.traceparent) <;> simp [withName, hheld.parts]
  have hagain : m.overwrite = true →
      m.apply t.scope t.entrySpan (m.apply t.scope t.entrySpan headers) =
      m.apply t.scope t.entrySpan headers := by
    intro hoverwrite
    rw [apply_again m t hexpose hoverwrite, apply_listed m t headers hadds hexpose,
      replaced_exposeHeader_self m headers hname]
  rw [echoes_added_iff m t headers hadds, hwritten]
  exact ⟨fun h => h.1 hexpose hcorsBefore, fun h => ⟨fun _ _ => h, hagain⟩⟩

/-- The names that are listed by a header of another name. -/
theorem exposed_apply (hname : m.headerNameBytes ≠ corsExposeHeaders) :
    TraceResponseHeader.exposed (m.apply t.scope t.entrySpan headers) =
      TraceResponseHeader.exposed headers ++
        if found m.headerName (TraceResponseHeader.exposed headers) then []
        else namesOf m.headerName := by
  rw [apply_listed m t headers hadds hexpose, exposed_exposeHeader m _ hcors, exposed_replaced,
    if_neg hname,
    flatMap_withName m fun name hmem => holdable_exposed hmem]

/-- With a name that can be listed, a second time changes nothing exactly when it is in lower
case. -/
theorem again_iff (hname : m.headerNameBytes ≠ corsExposeHeaders) (hoverwrite : m.overwrite = true)
    (hheld : Holdable m.headerName) :
    m.apply t.scope t.entrySpan (m.apply t.scope t.entrySpan headers) =
      m.apply t.scope t.entrySpan headers ↔
      strLower m.headerName = m.headerName := by
  have hwritten : TraceResponseHeader.exposed (m.apply t.scope t.entrySpan headers) =
      withName m (found m.headerName (TraceResponseHeader.exposed headers))
        (TraceResponseHeader.exposed headers) := by
    rw [exposed_apply m t headers hadds hexpose hcors hname]
    cases found m.headerName (TraceResponseHeader.exposed headers) <;> simp [withName, hheld.parts]
  have hagain : m.apply t.scope t.entrySpan (m.apply t.scope t.entrySpan headers) = _ :=
    (apply_again m t hexpose hoverwrite _).trans
      ((congrArg (fun more => m.exposeHeader (replaced m more t.traceparent))
        (apply_listed m t headers hadds hexpose)).trans
          (exposeHeader_replaced_again m headers hname t.traceparent hcors))
  rw [← apply_listed m t headers hadds hexpose, hwritten] at hagain
  have hfirst : m.apply t.scope t.entrySpan headers =
      ((replaced m headers t.traceparent).filter fun h =>
        decide (bytesLower h.1 ≠ corsExposeHeaders)) ++
        [(corsExposeHeaders, joined (withName m
          (found m.headerName (TraceResponseHeader.exposed headers))
            (TraceResponseHeader.exposed headers)))] := by
    rw [apply_listed m t headers hadds hexpose, exposeHeader_eq, if_pos hcors, exposed_replaced,
      if_neg hname]
  have hholds : ∀ name ∈ withName m (found m.headerName (TraceResponseHeader.exposed headers))
      (TraceResponseHeader.exposed headers), Holdable name := hwritten ▸ fun _ => holdable_exposed
  rw [hagain, hfirst, ← found_again_iff m (TraceResponseHeader.exposed headers)]
  generalize withName m (found m.headerName (TraceResponseHeader.exposed headers))
    (TraceResponseHeader.exposed headers) = names at hholds ⊢
  constructor
  · intro h
    have hjoined : joined (withName m (found m.headerName names) names) = joined names := by
      simpa using h
    -- a list that gained the name once more is longer
    have hnames := congrArg namesOf hjoined
    rw [namesOf_joined, namesOf_joined, flatMap_withName m hholds, flatMap_parts hholds] at hnames
    by_contra hfound
    simp [hfound, namesOf, hheld.parts] at hnames
  · intro h
    rw [h]
    rfl

/-- Where the trace header is another one. -/
theorem echoes_other_iff (hname : m.headerNameBytes ≠ corsExposeHeaders) :
    Echoes m t headers ↔
      if m.overwrite then Holdable m.headerName ∧ strLower m.headerName = m.headerName
      else m.headerNameBytes = corsAllowOrigin ∨ Holdable m.headerName ∧
        (found (strLower m.headerName) (TraceResponseHeader.exposed headers) = true →
          strLower m.headerName = m.headerName) := by
  have hholds : ∀ name ∈ TraceResponseHeader.exposed headers, Holdable name :=
    fun _ => holdable_exposed
  have hwritten := written_iff m hholds
  have hcorsBefore :
      hasHeader headers corsAllowOrigin = true ∨ m.headerNameBytes = corsAllowOrigin := by
    rw [hasHeader_replaced] at hcors
    simpa using hcors
  rw [echoes_added_iff m t headers hadds,
    exposed_apply m t headers hadds hexpose hcors hname, hwritten]
  cases hoverwrite : m.overwrite with
  | true =>
    simp only [if_true, forall_true_left]
    constructor
    · rintro ⟨hexposes, hagain⟩
      have hheld : Holdable m.headerName := by
        obtain hbefore | hself := hcorsBefore
        · exact (hexposes hexpose hbefore).1
        · exact holdable_of_cors (.inr hself)
      exact ⟨hheld, (again_iff m t headers hadds hexpose hcors hname hoverwrite hheld).mp hagain⟩
    · rintro ⟨hheld, hlower⟩
      exact ⟨fun _ _ => ⟨hheld, fun _ => hlower⟩,
        (again_iff m t headers hadds hexpose hcors hname hoverwrite hheld).mpr hlower⟩
  | false =>
    simp only [Bool.false_eq_true, if_false, false_implies, and_true]
    constructor
    · intro hexposes
      obtain hbefore | hself := hcorsBefore
      · exact .inr (hexposes hexpose hbefore)
      · exact .inl hself
    · rintro (hself | hlisted) _ hbefore
      · -- a trace header that is already there would not have been added
        rw [adds, hoverwrite, hself, hbefore] at hadds
        cases hadds
      · exact hlisted

end listed

/-- The trace header is echoed as it should be exactly under that condition. -/
theorem echoes_iff : Echoes m t headers ↔ Faithful m t headers := by
  unfold Faithful
  by_cases hadds : adds m headers = true
  · by_cases hplain : m.exposeViaCors = false ∨
        (hasHeader headers corsAllowOrigin = false ∧ m.headerNameBytes ≠ corsAllowOrigin)
    · exact iff_of_true (echoes_plain m t headers hadds hplain) (.inr (or_assoc.mp (.inl hplain)))
    · have hexpose : m.exposeViaCors = true := by
        cases h : m.exposeViaCors with
        | true => rfl
        | false => exact absurd (.inl h) hplain
      have hcors : hasHeader (replaced m headers t.traceparent) corsAllowOrigin = true := by
        rw [hasHeader_replaced]
        by_contra hnone
        exact hplain (.inr (by simpa using hnone))
      rw [or_iff_right (by simp [hadds]), ← or_assoc, or_iff_right hplain]
      by_cases hname : m.headerNameBytes = corsExposeHeaders
      · rw [if_pos hname]
        exact echoes_self_iff m t headers hadds hexpose hcors hname
      · rw [if_neg hname]
        exact echoes_other_iff m t headers hadds hexpose hcors hname
  · have hkept : adds m headers = false := by simpa using hadds
    exact iff_of_true (echoes_kept m t headers hkept) (.inl hkept)

end apply

/-! ## A capital in the name -/

def capitalName : TraceResponseHeader := ⟨latin1 "X-Trace", false, true⟩

def tracedRequest : Traced Unit where
  scope := { type := "http", headers := some [], rest := ⟨none, none, ()⟩ }
  entrySpan := latin1 "00-1-2-01"
  available := by decide +kernel

/-- A CORS response that exposes the header already. -/
def exposingResponse : List Header :=
  [(latin1 "access-control-allow-origin", latin1 "*"),
    (latin1 "access-control-expose-headers", latin1 "X-Trace")]

/-- A configured name in another case is listed twice. -/
theorem name_listed_twice : ¬ Echoes capitalName tracedRequest exposingResponse := by
  intro h
  have hexposes := h.exposes (by decide +kernel) rfl (by decide +kernel)
  exact absurd hexposes (by decide +kernel)

end TraceEcho
