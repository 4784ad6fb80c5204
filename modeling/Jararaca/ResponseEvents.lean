import Jararaca.InboundTrace

/-!
# The response event of a span

`HttpResponseEventMiddleware` of observability/http_response_event.py. The record of a response
keeps the size of its body and the first bytes of it, within a budget, whatever pieces the body
comes in. What reaches the span is a function of that record, in which the values of sensitive
headers are replaced before anything is done with them.
-/
namespace ResponseEvents

open Messages (Bytes)
open InboundTrace (Header latin1 bytesLower strLower strLower_of_ascii)

variable {φ : Type}

/-- `bytes.decode("latin-1")`. -/
def decodeLatin1 (b : Bytes) : String := String.ofList (b.map fun x => Char.ofNat x.toNat)

/-- The characters of `bytes.decode(errors="ignore")`, at most one for each byte. -/
def utf8Chars : Nat → Bytes → List Char
  | 0, _ => []
  | _ + 1, [] => []
  | n + 1, b :: rest =>
    match ByteArray.utf8DecodeChar? ⟨(b :: rest).toArray⟩ 0 with
    | some c => c :: utf8Chars n ((b :: rest).drop c.utf8Size)
    | none => utf8Chars n rest

def decodeIgnore (b : Bytes) : String := String.ofList (utf8Chars b.length b)

/-- A character that was cut off is dropped. -/
example : decodeIgnore [99, 195, 167, 195] = "cç" := by decide

/-- An ASGI message with the keys that are read of it. -/
inductive Message where
  | start (status : Option Int) (headers : Option (List Header))
  | body (body : Option Bytes) (moreBody : Option Bool)
  | other (type : String)

inductive Key where
  | bodySize
  | statusCode
  | header (name : String)
  | body
  | bodyTruncated
  deriving DecidableEq, Repr

def Key.text : Key → String
  | .bodySize => "http.response.body.size"
  | .statusCode => "http.response.status_code"
  | .header name => "http.response.header." ++ name
  | .body => "http.response.body"
  | .bodyTruncated => "http.response.body.truncated"

inductive AttributeValue where
  | int (n : Int)
  | flag (b : Bool)
  | text (s : String)
  | texts (ss : List String)
  deriving DecidableEq, Repr

abbrev Attributes := List (Key × AttributeValue)

structure ResponseRecord where
  bodyBudget : Int
  statusCode : Option Int := none
  headers : List Header := []
  body : Bytes := []
  bodySize : Nat := 0

def appendTo (grouped : List (String × List String)) (name value : String) :
    List (String × List String) :=
  match grouped with
  | [] => [(name, [value])]
  | (key, values) :: rest =>
    if key = name then (key, values ++ [value]) :: rest
    else (key, values) :: appendTo rest name value

/-- The name a header is grouped under. -/
def groupName (h : Header) : String := decodeLatin1 (strLower h.1)

namespace ResponseRecord

variable (r : ResponseRecord)

def recordStart (status : Option Int) (headers : Option (List Header)) : ResponseRecord :=
  { r with statusCode := status, headers := headers.getD [] }

def recordBody (body : Option Bytes) : ResponseRecord :=
  let chunk := body.getD []
  let remaining := r.bodyBudget - r.body.length
  { r with
    bodySize := r.bodySize + chunk.length
    body := if 0 < remaining then r.body ++ chunk.take remaining.toNat else r.body }

def truncated : Bool := decide (r.body.length < r.bodySize)

def groupedHeaders : List (String × List String) :=
  r.headers.foldl (fun grouped h => appendTo grouped (groupName h) (decodeLatin1 h.2)) []

def header (name : String) : Option String :=
  (r.headers.find? fun h => decide (bytesLower h.1 = bytesLower (latin1 name))).map fun h =>
    decodeLatin1 h.2

end ResponseRecord

/-- `HttpResponseEventMiddleware` after its `__init__`: the two sets of names are in lower case. A
redactor raises where it has no value. -/
structure HttpResponseEventMiddleware (φ : Type) where
  eventName : String := "http.response"
  captureBody : Bool := false
  maxBodySize : Int
  captureHeaders : List String := []
  sensitiveHeaders : List String := ["set-cookie", "authorization", "proxy-authorization"]
  capturableContentTypes : List String := ["application/json", "text/"]
  redact : Option (φ → Bytes → Option Bytes) := none

/-- What reaches the outside: an event on the span, a message that is sent, or an exception out of
`send_wrapper`. -/
inductive Emission where
  | event (name : String) (attributes : Attributes)
  | sent (message : Message)
  | raised

def redactedHeaderValue : String := "[redacted]"

namespace HttpResponseEventMiddleware

variable (m : HttpResponseEventMiddleware φ)

def headerValue (name : String) (values : List String) : AttributeValue :=
  let values :=
    if name ∈ m.sensitiveHeaders then values.map fun _ => redactedHeaderValue else values
  match values with
  | [value] => .text value
  | values => .texts values

def isCapturable (r : ResponseRecord) : Bool :=
  let contentType := (r.header "content-type").getD ""
  m.capturableContentTypes.any fun candidate => candidate.toList.isPrefixOf contentType.toList

def headerAttributes (r : ResponseRecord) : Attributes :=
  (r.groupedHeaders.filter fun g => m.captureHeaders.isEmpty || decide (g.1 ∈ m.captureHeaders)).map
    fun g => (.header g.1, m.headerValue g.1 g.2)

/-- What is left of a captured body. -/
def redacted (scope : φ) (body : Bytes) : Option Bytes :=
  match m.redact with
  | some redact => redact scope body
  | none => some body

def bodyAttributes (scope : φ) (r : ResponseRecord) : Option Attributes :=
  if m.captureBody && m.isCapturable r then
    (m.redacted scope r.body).map fun body =>
      (.body, .text (decodeIgnore body)) :: if r.truncated then [(.bodyTruncated, .flag true)]
        else []
  else some []

/-- `build_attributes`, which raises where the redactor does. -/
def buildAttributes (scope : φ) (r : ResponseRecord) : Option Attributes :=
  (m.bodyAttributes scope r).map fun bodyAttributes =>
    (.bodySize, .int r.bodySize) ::
      ((match r.statusCode with
        | some status => [(.statusCode, .int status)]
        | none => []) ++ m.headerAttributes r ++ bodyAttributes)

/-- `send_wrapper`, on the record and on whether the event has been added. -/
def sendWrapper (scope : φ) (state : ResponseRecord × Bool) (message : Message) :
    (ResponseRecord × Bool) × List Emission :=
  match message with
  | .start status headers => ((state.1.recordStart status headers, state.2), [.sent message])
  | .body body moreBody =>
    let record := state.1.recordBody body
    if !(moreBody.getD false) && !state.2 then
      -- the attributes are built before the message is sent, and nothing catches what they raise
      ((record, true),
        match m.buildAttributes scope record with
        | some attributes => [.event m.eventName attributes, .sent message]
        | none => [.raised])
    else ((record, state.2), [.sent message])
  | .other _ => (state, [.sent message])

def sendAll (scope : φ) (state : ResponseRecord × Bool) : List Message → List Emission
  | [] => []
  | message :: messages =>
    (m.sendWrapper scope state message).2 ++ sendAll scope
      (m.sendWrapper scope state message).1 messages

def record : ResponseRecord := { bodyBudget := if m.captureBody then m.maxBodySize else 0 }

/-- `__call__`, for a scope of some type and a span that is recording or not. -/
def call (scopeType : String) (scope : φ) (recording : Bool) (messages : List Message) :
    List Emission :=
  if scopeType ≠ "http" then messages.map .sent
  else if !recording then messages.map .sent
  else m.sendAll scope (m.record, false) messages

end HttpResponseEventMiddleware

/-! ## The record of a response -/

/-- A message of a response between its start and the last piece of its body. -/
inductive Piece where
  | chunk (body : Option Bytes)
  | other (type : String)

/-- A response as it is sent: the body comes in pieces, the last one says that it is. -/
structure Response where
  status : Option Int
  headers : Option (List Header)
  pieces : List Piece
  last : Option Bytes
  lastMore : Option Bool
  trailing : List String
  isLast : lastMore.getD false = false

def Piece.message : Piece → Message
  | .chunk body => .body body (some true)
  | .other type => .other type

def Piece.bytes : Piece → Bytes
  | .chunk body => body.getD []
  | .other _ => []

namespace Response

variable (r : Response)

def opening : List Message := .start r.status r.headers :: r.pieces.map Piece.message

def final : Message := .body r.last r.lastMore

def messages : List Message := r.opening ++ r.final :: r.trailing.map .other

def body : Bytes := r.pieces.flatMap Piece.bytes ++ r.last.getD []

end Response

def recordOf (budget : Int) (status : Option Int) (headers : List Header) (body : Bytes) :
    ResponseRecord where
  bodyBudget := budget
  statusCode := status
  headers := headers
  body := body.take budget.toNat
  bodySize := body.length

/-- The budget cuts the body at the same byte, in whatever pieces it comes. -/
theorem recordBody_recordOf (budget : Int) (status : Option Int) (headers : List Header)
    (body : Bytes)
    (chunk : Option Bytes) :
    (recordOf budget status headers body).recordBody chunk =
      recordOf budget status headers (body ++ chunk.getD []) := by
  have hlength : (body.take budget.toNat).length = min budget.toNat body.length := List.length_take
  have hbody : (if 0 < budget - (body.take budget.toNat).length
      then body.take budget.toNat ++ (chunk.getD []).take
        (budget - (body.take budget.toNat).length).toNat
      else body.take budget.toNat) = (body ++ chunk.getD []).take budget.toNat := by
    rw [List.take_append]
    split
    · -- the whole body so far is within the budget
      rename_i hroom
      have hremaining :
          (budget - (body.take budget.toNat).length).toNat = budget.toNat - body.length := by
        omega
      rw [hremaining]
    · rename_i hfull
      have hnone : budget.toNat - body.length = 0 := by omega
      rw [hnone, List.take_zero, List.append_nil]
  simp only [ResponseRecord.recordBody, recordOf, List.length_append]
  congr 1

namespace HttpResponseEventMiddleware

variable (m : HttpResponseEventMiddleware φ) (scope : φ)

def budget : Int := if m.captureBody then m.maxBodySize else 0

/-- The pieces before the last one add to the record and are sent on. -/
theorem sendAll_pieces (pieces : List Piece) (status : Option Int) (headers : List Header)
    (body : Bytes)
    (rest : List Message) :
    m.sendAll scope (recordOf m.budget status headers body, false)
      (pieces.map Piece.message ++ rest) =
      (pieces.map fun piece => Emission.sent piece.message) ++
        m.sendAll scope
          (recordOf m.budget status headers (body ++ pieces.flatMap Piece.bytes), false) rest := by
  induction pieces generalizing body with
  | nil => simp
  | cons piece pieces ih =>
    cases piece with
    | chunk chunk =>
      simp only [List.map_cons, List.cons_append, sendAll, Piece.message, sendWrapper,
        Option.getD_some,
        Bool.not_true, Bool.false_and, Bool.false_eq_true, if_false, recordBody_recordOf, ih,
        List.flatMap_cons, Piece.bytes, List.append_assoc, List.nil_append]
    | other type =>
      simp only [List.map_cons, List.cons_append, sendAll, Piece.message, sendWrapper, ih,
        List.flatMap_cons, Piece.bytes, List.nil_append]

theorem sendAll_others (state : ResponseRecord × Bool) (types : List String) :
    m.sendAll scope state (types.map .other) = types.map fun type => .sent (.other type) := by
  induction types with
  | nil => rfl
  | cons type types ih =>
    simp only [List.map_cons, sendAll, sendWrapper, ih, List.cons_append, List.nil_append]

/-- What the span is given for a status, headers and a body. -/
def attributesOf (status : Option Int) (headers : List Header) (body : Bytes) : Option Attributes :=
  m.buildAttributes scope (recordOf m.budget status headers body)

/-- What the last piece of a body brings out. -/
def closing (r : Response) : List Emission :=
  match m.attributesOf scope r.status (r.headers.getD []) r.body with
  | some attributes => [.event m.eventName attributes, .sent r.final]
  | none => [.raised]

/-- A whole response: its messages, with the event, or the exception, at the last piece of the
body. -/
theorem call_response (r : Response) :
    m.call "http" scope true r.messages =
      r.opening.map .sent ++
        (m.closing scope r ++ r.trailing.map fun type => .sent (.other type)) := by
  have hstart : m.record.recordStart r.status r.headers =
      recordOf m.budget r.status (r.headers.getD []) [] := by
    simp [record, budget, ResponseRecord.recordStart, recordOf]
  simp only [call, ne_eq, not_true_eq_false, if_false, Bool.not_true, Bool.false_eq_true,
    Response.messages, Response.opening, List.cons_append, sendAll, sendWrapper, hstart,
    sendAll_pieces, List.nil_append, Response.final, recordBody_recordOf, r.isLast, Bool.not_false,
    Bool.and_true, if_true, sendAll_others, List.map_cons, List.map_map]
  rfl

def sentMessages (emissions : List Emission) : List Message := emissions.filterMap fun
  | .sent message => some message
  | .event _ _ | .raised => none

theorem sentMessages_sent {α : Type} (f : α → Message) (xs : List α) :
    sentMessages (xs.map fun x => .sent (f x)) = xs.map f := by
  simp [sentMessages, List.filterMap_map]

/-- Without a span that is recording, and in other scopes, every message is forwarded as it is. -/
theorem sentMessages_unrecorded {scopeType : String} {recording : Bool}
    (h : scopeType ≠ "http" ∨ recording = false) (messages : List Message) :
    sentMessages (m.call scopeType scope recording messages) = messages := by
  have hall : sentMessages (messages.map Emission.sent) = messages := by
    simpa using sentMessages_sent id messages
  obtain h | rfl := h
  · rw [call, if_pos h]
    exact hall
  · rw [call]
    split
    · exact hall
    · exact hall

theorem sentMessages_call (r : Response) : sentMessages (m.call "http" scope true r.messages) =
    r.opening ++ (sentMessages (m.closing scope r) ++ r.trailing.map .other) := by
  have happend :
      ∀ first second, sentMessages (first ++ second) = sentMessages first ++ sentMessages second :=
    fun first second => List.filterMap_append
  have hopening : sentMessages (r.opening.map Emission.sent) = r.opening := by
    simpa using sentMessages_sent id r.opening
  rw [call_response, happend, happend, hopening, sentMessages_sent]

end HttpResponseEventMiddleware

/-! ## Attributes -/

theorem Key.header_text_ne (name : String) {text : String}
    (h : text.toList.take 15 ≠ "http.response.h".toList) : (Key.header name).text ≠ text := by
  intro heq
  have htake : ("http.response.header.".toList ++ name.toList).take 15 = text.toList.take 15 := by
    rw [← String.toList_append]
    exact congrArg (fun t : String => t.toList.take 15) heq
  rw [List.take_append_of_le_length (by decide)] at htake
  exact h (htake.symm.trans (by decide))

/-- No two attributes have one key. -/
theorem Key.text_injective : Function.Injective Key.text := by
  intro k l h
  cases k with
  | header name =>
    cases l with
    | header other =>
      have hchars : "http.response.header.".toList ++ name.toList =
          "http.response.header.".toList ++ other.toList := by
        rw [← String.toList_append, ← String.toList_append]
        exact congrArg String.toList h
      rw [String.toList_injective (List.append_cancel_left hchars)]
    | _ => exact absurd h (Key.header_text_ne name (by decide))
  | _ =>
    cases l with
    | header other => exact absurd h.symm (Key.header_text_ne other (by decide))
    | _ => first | rfl | exact absurd h (by decide)

/-- Two header lists that differ in values of sensitive headers only. -/
def Alike (sensitive : List String) : List Header → List Header → Prop :=
  List.Forall₂ fun h k => h.1 = k.1 ∧ (groupName h ∉ sensitive → h.2 = k.2)

/-- Two groups of one name, with as many values, the same ones unless the name is sensitive. -/
def AlikeGroups (sensitive : List String) :
    List (String × List String) → List (String × List String) → Prop :=
  List.Forall₂ fun g k =>
    g.1 = k.1 ∧ g.2.length = k.2.length ∧ (g.1 ∉ sensitive → g.2 = k.2)

/-- Appending values that differ under a sensitive name only keeps groups alike. -/
theorem AlikeGroups.appendTo {sensitive : List String} {first second : List (String × List String)}
    (h : AlikeGroups sensitive first second) {name : String} {v w : String}
    (hv : name ∉ sensitive → v = w) :
    AlikeGroups sensitive (ResponseEvents.appendTo first name v)
      (ResponseEvents.appendTo second name w) := by
  induction h with
  | nil =>
    refine .cons ⟨rfl, rfl, fun hname => ?_⟩ .nil
    rw [hv hname]
  | cons hhead htail ih =>
    rename_i g k _ _
    obtain ⟨gname, gvalues⟩ := g
    obtain ⟨kname, kvalues⟩ := k
    obtain ⟨rfl, hlength, hvalues⟩ := hhead
    simp only [ResponseEvents.appendTo]
    split
    · rename_i hname
      subst hname
      refine .cons ⟨rfl, by simpa using hlength, fun hsensitive => ?_⟩ htail
      exact congrArg₂ (fun values value => values ++ [value]) (hvalues hsensitive) (hv hsensitive)
    · exact .cons ⟨rfl, hlength, hvalues⟩ ih

/-- Headers alike give groups alike. -/
theorem Alike.foldl {sensitive : List String} {first second : List Header}
    (h : Alike sensitive first second) {groups groups' : List (String × List String)}
    (hgroups : AlikeGroups sensitive groups groups') :
    AlikeGroups sensitive
      (first.foldl (fun grouped h => appendTo grouped (groupName h) (decodeLatin1 h.2)) groups)
      (second.foldl
        (fun grouped h => appendTo grouped (groupName h) (decodeLatin1 h.2)) groups') := by
  induction h generalizing groups groups' with
  | nil => exact hgroups
  | cons hhead htail ih =>
    rename_i x y _ _
    have hname : groupName y = groupName x := congrArg (decodeLatin1 ∘ strLower) hhead.1.symm
    rw [List.foldl_cons, List.foldl_cons, hname]
    exact ih (hgroups.appendTo fun hsensitive => congrArg decodeLatin1 (hhead.2 hsensitive))

theorem Alike.groupedHeaders {sensitive : List String} {r s : ResponseRecord}
    (h : Alike sensitive r.headers s.headers) :
    AlikeGroups sensitive r.groupedHeaders s.groupedHeaders := h.foldl .nil

/-- A header that is found as the content type is grouped as it. -/
theorem groupName_contentType {h : Header}
    (hname : bytesLower h.1 = bytesLower (latin1 "content-type")) :
    groupName h = "content-type" := by
  have hascii : ∀ b ∈ bytesLower h.1, b < 128 := by
    rw [hname]
    decide +kernel
  rw [groupName, strLower_of_ascii hascii, hname]
  decide

/-- Where the content type is not sensitive it is the same in both. -/
theorem Alike.find_contentType {sensitive : List String} {first second : List Header}
    (h : Alike sensitive first second) (hsensitive : "content-type" ∉ sensitive) :
    first.find? (fun h => decide (bytesLower h.1 = bytesLower (latin1 "content-type"))) =
      second.find? fun h => decide (bytesLower h.1 = bytesLower (latin1 "content-type")) := by
  induction h with
  | nil => rfl
  | cons hhead htail ih =>
    rename_i x y _ _
    obtain ⟨hname, hvalue⟩ := hhead
    by_cases hx : bytesLower x.1 = bytesLower (latin1 "content-type")
    · have hxy : x = y := Prod.ext hname (hvalue (by rwa [groupName_contentType hx]))
      rw [hxy] at hx ⊢
      rw [List.find?_cons_of_pos (by simpa using hx), List.find?_cons_of_pos (by simpa using hx)]
    · have hy : ¬bytesLower y.1 = bytesLower (latin1 "content-type") := hname ▸ hx
      rw [List.find?_cons_of_neg (by simpa using hx),
        List.find?_cons_of_neg (by simpa using hy), ih]

namespace HttpResponseEventMiddleware

variable (m : HttpResponseEventMiddleware φ) (scope : φ)

theorem headerValue_alike {name : String} {values others : List String}
    (hlength : values.length = others.length)
    (hvalues : name ∉ m.sensitiveHeaders → values = others) :
    m.headerValue name values = m.headerValue name others := by
  unfold headerValue
  by_cases hname : name ∈ m.sensitiveHeaders
  · have hredacted : (values.map fun _ => redactedHeaderValue) = others.map fun _ =>
        redactedHeaderValue := by
      simp [List.map_const', hlength]
    simp only [if_pos hname, hredacted]
  · rw [hvalues hname]

theorem headerAttributes_alike {r s : ResponseRecord}
    (h : AlikeGroups m.sensitiveHeaders r.groupedHeaders s.groupedHeaders) :
    m.headerAttributes r = m.headerAttributes s := by
  unfold headerAttributes
  generalize r.groupedHeaders = groups at h
  generalize s.groupedHeaders = groups' at h
  induction h with
  | nil => rfl
  | cons hhead htail ih =>
    rename_i g k _ _
    obtain ⟨hname, hlength, hvalues⟩ := hhead
    simp only [List.filter_cons, ← hname]
    split
    · rw [List.map_cons, List.map_cons, ih, ← hname, m.headerValue_alike hlength hvalues]
    · exact ih

/-- Whether a response with these headers is textual. -/
def textual (headers : List Header) : Bool := m.isCapturable { bodyBudget := 0, headers := headers }

/-- The attributes of a captured body, after the redactor. -/
def capturedBody (headers : List Header) (body : Bytes) : Option Attributes :=
  if m.captureBody && m.textual headers then
    (m.redacted scope (body.take m.maxBodySize.toNat)).map fun redacted =>
      (.body, .text (decodeIgnore redacted)) ::
        if m.maxBodySize.toNat < body.length then [(.bodyTruncated, .flag true)] else []
  else some []

/-- The attributes are the size, the captured body and what the status and the headers say. -/
theorem attributesOf_eq (status : Option Int) (headers : List Header) (body : Bytes) :
    m.attributesOf scope status headers body =
      (m.capturedBody scope headers body).map fun captured =>
        (.bodySize, .int body.length) ::
          ((match status with
            | some status => [(.statusCode, .int status)]
            | none => []) ++ m.headerAttributes { bodyBudget := 0, headers :=
                headers } ++ captured) := by
  have hbody : m.bodyAttributes scope (recordOf m.budget status headers body) =
      m.capturedBody scope headers body := by
    have htextual :
        m.isCapturable (recordOf m.budget status headers body) = m.textual headers := rfl
    cases hcapture : m.captureBody with
    | false => simp [bodyAttributes, capturedBody, hcapture]
    | true =>
      have hbudget : m.budget = m.maxBodySize := by simp [budget, hcapture]
      have htruncated : (recordOf m.budget status headers body).truncated =
          decide (m.maxBodySize.toNat < body.length) := by
        simp [ResponseRecord.truncated, recordOf, hbudget]
      simp only [bodyAttributes, capturedBody, hcapture, htextual, htruncated, decide_eq_true_eq]
      rw [hbudget]
      rfl
  rw [attributesOf, buildAttributes, hbody]
  rfl

theorem lookup_headerAttributes {k : Key} (hk : ∀ name, k ≠ .header name) (r : ResponseRecord) :
    (m.headerAttributes r).lookup k = none := by
  rw [List.lookup_eq_none_iff]
  intro p hp
  obtain ⟨g, _, rfl⟩ := List.mem_map.mp hp
  simpa using hk g.1

/-- What an attribute list says of the body: its whole size, and where it is captured what the
redactor leaves of its first bytes, and whether there are more. -/
structure CapturesBody (headers : List Header) (body : Bytes) (attributes : Attributes) : Prop where
  size : attributes.lookup .bodySize = some (.int body.length)
  captured : attributes.lookup .body =
    if m.captureBody && m.textual headers then
      (m.redacted scope (body.take m.maxBodySize.toNat)).map fun redacted =>
        .text (decodeIgnore redacted)
    else none
  truncated : attributes.lookup .bodyTruncated =
    if m.captureBody && m.textual headers && decide (m.maxBodySize.toNat < body.length) then
      some (.flag true)
    else none

/-- The attributes say of the body what the settings ask for. -/
theorem attributesOf_captures {status : Option Int} {headers : List Header} {body : Bytes}
    {attributes : Attributes}
    (h : m.attributesOf scope status headers body = some attributes) :
    m.CapturesBody scope headers body attributes := by
  have hheaders := fun (k : Key) (hk : ∀ name, k ≠ .header name) =>
    m.lookup_headerAttributes hk { bodyBudget := 0, headers := headers }
  rw [attributesOf_eq, Option.map_eq_some_iff] at h
  obtain ⟨captured, hcaptured, rfl⟩ := h
  constructor
  case size => rfl
  case captured =>
    have hsize : (Key.body == Key.bodySize) = false := rfl
    have hstatus : (Key.body == Key.statusCode) = false := rfl
    have hlookup : captured.lookup .body =
        if m.captureBody && m.textual headers then
          (m.redacted scope (body.take m.maxBodySize.toNat)).map fun redacted =>
            .text (decodeIgnore redacted)
        else none := by
      unfold capturedBody at hcaptured
      split at hcaptured
      · next hcapture =>
        obtain ⟨redacted, hredacted, rfl⟩ := Option.map_eq_some_iff.mp hcaptured
        rw [if_pos hcapture, hredacted]
        rfl
      · next hcapture =>
        cases hcaptured
        rw [if_neg hcapture]
        rfl
    cases status <;> simp [List.lookup_append, List.lookup_cons, hheaders .body (by simp), hsize,
      hstatus, hlookup]
  case truncated =>
    have hsize : (Key.bodyTruncated == Key.bodySize) = false := rfl
    have hstatus : (Key.bodyTruncated == Key.statusCode) = false := rfl
    have hbody : (Key.bodyTruncated == Key.body) = false := rfl
    have hlookup : captured.lookup .bodyTruncated =
        if m.captureBody && m.textual headers && decide
          (m.maxBodySize.toNat < body.length) then some (.flag true)
        else none := by
      unfold capturedBody at hcaptured
      split at hcaptured
      · next hcapture =>
        obtain ⟨redacted, hredacted, rfl⟩ := Option.map_eq_some_iff.mp hcaptured
        by_cases hlong :
          m.maxBodySize.toNat < body.length <;> simp [List.lookup_cons, hcapture, hbody, hlong]
      · next hcapture =>
        cases hcaptured
        simp [hcapture]
    cases status <;>
      simp [List.lookup_append, List.lookup_cons, hheaders .bodyTruncated (by simp), hsize,
        hstatus, hlookup]

/-- Values of sensitive headers do not reach the attributes. -/
theorem attributesOf_alike {first second : List Header} (h : Alike m.sensitiveHeaders first second)
    (hcontentType : "content-type" ∉ m.sensitiveHeaders) (status : Option Int) (body : Bytes) :
    m.attributesOf scope status first body = m.attributesOf scope status second body := by
  have htextual : m.textual first = m.textual second := by
    simp only [textual, isCapturable, ResponseRecord.header, h.find_contentType hcontentType]
  have hheaders : m.headerAttributes { bodyBudget := 0, headers := first } =
      m.headerAttributes { bodyBudget := 0, headers := second } :=
    m.headerAttributes_alike (Alike.groupedHeaders h)
  rw [attributesOf_eq, attributesOf_eq, capturedBody, capturedBody, htextual, hheaders]

/-- Two header lists with their proof that only values of sensitive headers differ, for a
middleware to which the content type is not sensitive. -/
structure Redactable where
  first : List Header
  second : List Header
  alike : Alike m.sensitiveHeaders first second
  contentType : "content-type" ∉ m.sensitiveHeaders

example : Redactable (φ := Unit) { maxBodySize := 3 } where
  first := [(latin1 "Set-Cookie", latin1 "a")]
  second := [(latin1 "Set-Cookie", latin1 "b")]
  alike := .cons ⟨rfl, fun h => absurd (by decide) h⟩ .nil
  contentType := by decide

/-- A response is forwarded as it is, and one event comes with the last piece of its body: it
depends on the status, the headers and the whole body alone, and not on the values of sensitive
headers. -/
structure CapturesResponse (r : Response) : Prop where
  forwarded : sentMessages (m.call "http" scope true r.messages) = r.messages
  event : ∃ attributes, m.attributesOf scope r.status (r.headers.getD []) r.body = some attributes ∧
    m.call "http" scope true r.messages =
      r.opening.map .sent ++
        .event m.eventName attributes :: .sent r.final ::
          (r.trailing.map fun type => .sent (.other type)) ∧
    m.CapturesBody scope (r.headers.getD []) r.body attributes
  secrets : ∀ h : m.Redactable, h.first = r.headers.getD [] →
    m.attributesOf scope r.status h.second r.body =
      m.attributesOf scope r.status (r.headers.getD []) r.body

/-- The redactor, where there is one and the body is captured, returns on the first bytes of the
body. -/
def Redacts (r : Response) : Prop :=
  m.captureBody = true → m.textual (r.headers.getD []) = true →
    (m.redacted scope (r.body.take m.maxBodySize.toNat)).isSome = true

theorem attributesOf_isSome (r : Response) :
    (m.attributesOf scope r.status (r.headers.getD []) r.body).isSome = true ↔
      m.Redacts scope r := by
  rw [attributesOf_eq, Option.isSome_map, capturedBody, Redacts]
  cases hcapture : m.captureBody && m.textual (r.headers.getD []) with
  | true => simp_all
  | false =>
    refine iff_of_true rfl fun hbody htextual => ?_
    rw [hbody, htextual] at hcapture
    cases hcapture

/-- A redactor that raises keeps the last piece of the body from being sent. -/
theorem closing_raised {r : Response} (h : ¬m.Redacts scope r) : m.closing scope r = [.raised] := by
  rw [← attributesOf_isSome, Option.not_isSome_iff_eq_none] at h
  rw [closing, h]

/-- A response is forwarded with its one event, exactly when the redactor returns on its body. -/
theorem captures_iff (r : Response) : m.CapturesResponse scope r ↔ m.Redacts scope r := by
  constructor
  · intro h
    obtain ⟨attributes, hattributes, -⟩ := h.event
    exact (m.attributesOf_isSome scope r).mp (by rw [hattributes]; rfl)
  · intro h
    obtain ⟨attributes, hattributes⟩ :=
      Option.isSome_iff_exists.mp ((m.attributesOf_isSome scope r).mpr h)
    have hclosing : m.closing scope r = [.event m.eventName attributes, .sent r.final] := by
      rw [closing, hattributes]
    refine ⟨?_, ⟨attributes, hattributes, ?_, m.attributesOf_captures scope hattributes⟩, ?_⟩
    · rw [sentMessages_call, hclosing]
      rfl
    · rw [call_response, hclosing]
      rfl
    · rintro ⟨first, second, halike, hcontentType⟩ rfl
      exact (m.attributesOf_alike scope halike hcontentType r.status r.body).symm

/-- Every response is captured and forwarded exactly where the redactor does not raise on what is
captured of its body. Where nothing is recorded, every message is forwarded. -/
theorem capture_of_responses_iff :
    (∀ r : Response, m.CapturesResponse scope r ↔ m.Redacts scope r) ∧
      ∀ (scopeType : String) (recording : Bool), scopeType ≠ "http" ∨ recording = false →
        ∀ messages, sentMessages (m.call scopeType scope recording messages) = messages :=
  ⟨m.captures_iff scope, fun _ _ h => m.sentMessages_unrecorded scope h⟩

end HttpResponseEventMiddleware

open HttpResponseEventMiddleware (sentMessages)

/-- A redactor that parses the body, as JSON that is cut off does not. -/
def parsingRedactor : Unit → Bytes → Option Bytes := fun _ body =>
  if body.getLast? = some 125 then some (latin1 "\x7b\x7d") else none

def redacting : HttpResponseEventMiddleware Unit where
  captureBody := true
  maxBodySize := 4
  redact := some parsingRedactor

def tokenResponse : Response where
  status := some 200
  headers := some [(latin1 "content-type", latin1 "application/json")]
  pieces := []
  last := some (latin1 "\x7b\"token\": 1\x7d")
  lastMore := none
  trailing := []
  isLast := rfl

/-- The body is longer than what is captured: it is not sent, and there is no event. -/
theorem cut_body_not_sent : ¬redacting.CapturesResponse () tokenResponse ∧
    redacting.call "http" () true tokenResponse.messages =
      [.sent (.start tokenResponse.status tokenResponse.headers), .raised] := by
  have hraises : ¬redacting.Redacts () tokenResponse := by
    unfold HttpResponseEventMiddleware.Redacts
    decide +kernel
  refine ⟨fun h => hraises ((redacting.captures_iff () tokenResponse).mp h), ?_⟩
  rw [HttpResponseEventMiddleware.call_response, redacting.closing_raised () hraises]
  rfl

end ResponseEvents
