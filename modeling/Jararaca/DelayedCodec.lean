import Mathlib.Tactic.Common
import Jararaca.DelayedStore

/-!
# The JSON form of a delayed message

`enqueue_delayed_message` stores `model_dump_json().encode()` and
`dequeue_next_delayed_messages` reads it back with `model_validate_json`, after the claim
took the entry out of the store. Here the two are written out field by field by the rules
of pydantic: bytes as UTF-8 text, infinite and NaN floats as null, the header values as a
union in smart mode. The text between them is a parameter.
-/
namespace DelayedCodec

open Programs Messages SortedSets DelayedStore Doubles

/-- A JSON value. A number with a point or an exponent keeps the `repr` of its float. -/
inductive Json where
  | null
  | bool (b : Bool)
  | int (n : Int)
  | float (repr : String)
  | str (s : String)
  | obj (fields : List (String × Json))

/-- Printing a value as JSON text and parsing a text. -/
structure JsonText where
  print : Json → String
  parse : String → Option Json

def encodeUtf8 (s : String) : Bytes := s.toUTF8.data.toList

/-- `bytes.decode()`, or none where it raises. -/
def decodeUtf8 (b : Bytes) : Option String := String.fromUTF8? ⟨b.toArray⟩

theorem decodeUtf8_encodeUtf8 (s : String) : decodeUtf8 (encodeUtf8 s) = some s := by
  unfold decodeUtf8 encodeUtf8 String.fromUTF8?
  rw [Array.toArray_toList, String.toUTF8_eq_toByteArray, dif_pos s.isValidUTF8]
  rfl

theorem encodeUtf8_of_decodeUtf8 {b : Bytes} {s : String} (h : decodeUtf8 b = some s) :
    encodeUtf8 s = b := by
  unfold decodeUtf8 String.fromUTF8? at h
  split at h
  · rw [Option.some.injEq] at h
    subst h
    rfl
  · contradiction

section Write

/-- The floats without a JSON form. -/
def nonFinite : List String := ["inf", "-inf", "nan"]

/-- A header value in JSON. Values of other types are ruled out by the field's type. -/
def headerJson : HeaderValue → Json
  | .str s => .str s
  | .int n => .int n
  | .float r => if r ∈ nonFinite then .null else .float r
  | .bool b => .bool b
  | .other text => .str text

def optionJson : Option String → Json
  | none => .null
  | some s => .str s

def payloadPolicyJson : PayloadPolicy → Json
  | .ignore => .str "ignore"
  | .replace => .str "replace"

def timePolicyJson : TimePolicy → Json
  | .replace => .str "replace"
  | .greater => .str "greater"
  | .lesser => .str "lesser"

variable (keys : Headers → List String)

/-- `headers.items()`, in the order in which the dictionary lists its keys. -/
def items (h : Headers) : List (String × HeaderValue) :=
  (keys h).filterMap fun k => (h k).map fun v => (k, v)

def headersJson : Option Headers → Json
  | none => .null
  | some h => .obj ((items keys h).map fun kv => (kv.1, headerJson kv.2))

/-- The fields of `DelayedMessageData` in the order of the class. -/
def messageJson (m : DelayedMessageData) (payload : String) : List (String × Json) :=
  [("message_topic", .str m.messageTopic),
    ("idempotency_key", optionJson m.idempotencyKey),
    ("dispatch_time", .int m.dispatchTime),
    ("payload", .str payload),
    ("headers", headersJson keys m.headers),
    ("target_queue", optionJson m.targetQueue),
    ("message_id", optionJson m.messageId),
    ("content_type", optionJson m.contentType),
    ("payload_policy", payloadPolicyJson m.payloadPolicy),
    ("time_policy", timePolicyJson m.timePolicy),
    ("content_encoding", optionJson m.contentEncoding)]

/-- `model_dump_json`: a payload that is not UTF-8 has no JSON form. -/
def modelDumpJson (text : JsonText) (m : DelayedMessageData) : Except PyExc String :=
  match decodeUtf8 m.payload with
  | none =>
    .error (.error "PydanticSerializationError" "Error serializing to JSON: invalid utf-8 sequence")
  | some payload => .ok (text.print (.obj (messageJson keys m payload)))

end Write

section Read

/-- `str | int | float | bool` in smart mode. Each JSON scalar is an exact match for one
member of the union, and null or an object for none of them. -/
def smartUnion : Json → Option HeaderValue
  | .str s => some (.str s)
  | .int n => some (.int n)
  | .float r => some (.float r)
  | .bool b => some (.bool b)
  | .null => none
  | .obj _ => none

def readItems : List (String × Json) → Option (List (String × HeaderValue))
  | [] => some []
  | (k, j) :: rest => do
    let v ← smartUnion j
    let vs ← readItems rest
    some ((k, v) :: vs)

/-- The dictionary of a list of items: of two items with one key the later one stays. -/
def ofItems (items : List (String × HeaderValue)) : Headers := fun k => items.reverse.lookup k

def field (fields : List (String × Json)) (name : String) : Option Json :=
  fields.reverse.lookup name

-- The outer none of these readers is a `ValidationError`. They take the forms that
-- `model_dump_json` writes: nothing else is ever stored under a metadata key.

def readText (fields : List (String × Json)) (name : String) : Option String :=
  match field fields name with
  | some (.str s) => some s
  | _ => none

def readInt (fields : List (String × Json)) (name : String) : Option Int :=
  match field fields name with
  | some (.int n) => some n
  | _ => none

def readOption (fields : List (String × Json)) (name : String) : Option (Option String) :=
  match field fields name with
  | none => some none
  | some .null => some none
  | some (.str s) => some (some s)
  | some _ => none

def readHeaders (fields : List (String × Json)) : Option (Option Headers) :=
  match field fields "headers" with
  | none => some none
  | some .null => some none
  | some (.obj items) => (readItems items).map fun vs => some (ofItems vs)
  | some _ => none

def readPayloadPolicy (fields : List (String × Json)) : Option PayloadPolicy :=
  match field fields "payload_policy" with
  | none => some .ignore
  | some (.str "ignore") => some .ignore
  | some (.str "replace") => some .replace
  | some _ => none

def readTimePolicy (fields : List (String × Json)) : Option TimePolicy :=
  match field fields "time_policy" with
  | none => some .replace
  | some (.str "replace") => some .replace
  | some (.str "greater") => some .greater
  | some (.str "lesser") => some .lesser
  | some _ => none

/-- The fields of the model, read from those of an object. -/
def readMessage (fields : List (String × Json)) : Option DelayedMessageData := do
  let messageTopic ← readText fields "message_topic"
  let idempotencyKey ← readOption fields "idempotency_key"
  let dispatchTime ← readInt fields "dispatch_time"
  let payload ← readText fields "payload"
  let headers ← readHeaders fields
  let targetQueue ← readOption fields "target_queue"
  let messageId ← readOption fields "message_id"
  let contentType ← readOption fields "content_type"
  let payloadPolicy ← readPayloadPolicy fields
  let timePolicy ← readTimePolicy fields
  let contentEncoding ← readOption fields "content_encoding"
  some {
    messageTopic, idempotencyKey, dispatchTime, payload := encodeUtf8 payload, headers, targetQueue,
    messageId, contentType, payloadPolicy, timePolicy, contentEncoding }

def modelValidateJson (text : JsonText) (raw : String) : Option DelayedMessageData :=
  match text.parse raw with
  | some (.obj fields) => readMessage fields
  | _ => none

end Read

/-- The codec of the Redis backend. -/
def pydanticCodec (keys : Headers → List String) (text : JsonText) : Codec where
  dump m := (modelDumpJson keys text m).map encodeUtf8
  load b := (decodeUtf8 b).bind (modelValidateJson text)

/-- What the type of the `headers` field says: finitely many keys, which the dictionary
lists, and a str, int, float or bool under each of them. -/
structure WellTyped (keys : Headers → List String) (m : DelayedMessageData) : Prop where
  listed : ∀ h, m.headers = some h → ∀ k, (h k).isSome = true → k ∈ keys h
  scalar : ∀ h, m.headers = some h → ∀ k v, h k = some v → v.isScalar = true

/-- No header is an infinite or NaN float. -/
def FiniteHeaders (m : DelayedMessageData) : Prop :=
  ∀ h, m.headers = some h → ∀ k r, h k = some (.float r) → r ∉ nonFinite

section RoundTrip

variable (keys : Headers → List String)

theorem smartUnion_headerJson {v : HeaderValue} (hs : v.isScalar = true)
    (hf : ∀ r, v = .float r → r ∉ nonFinite) : smartUnion (headerJson v) = some v := by
  cases v with
  | str s => rfl
  | int n => rfl
  | float r => simp [headerJson, hf r rfl, smartUnion]
  | bool b => rfl
  | other text => simp [HeaderValue.isScalar] at hs

theorem readItems_all {vs : List (String × HeaderValue)}
    (h : ∀ kv ∈ vs, smartUnion (headerJson kv.2) = some kv.2) :
    readItems (vs.map fun kv => (kv.1, headerJson kv.2)) = some vs := by
  induction vs with
  | nil => rfl
  | cons kv vs ih =>
    have hrest := ih fun kv' hkv' => h kv' (by simp [hkv'])
    simp [readItems, h kv (by simp), hrest]

/-- One null among the values and the dictionary does not validate. -/
theorem readItems_null {fields : List (String × Json)} {k : String} (h : (k, .null) ∈ fields) :
    readItems fields = none := by
  induction fields with
  | nil => simp at h
  | cons kj fields ih =>
    obtain rfl | hrest := List.mem_cons.mp h
    · rfl
    · cases hv : smartUnion kj.2 with
      | none => simp [readItems, hv]
      | some v => simp [readItems, hv, ih hrest]

theorem mem_items {h : Headers} {k : String} {v : HeaderValue}
    (hlisted : (h k).isSome = true → k ∈ keys h) :
    (k, v) ∈ items keys h ↔ h k = some v := by
  simp only [items, List.mem_filterMap, Option.map_eq_some_iff, Prod.mk.injEq]
  constructor
  · rintro ⟨k', -, v', hv, rfl, rfl⟩
    exact hv
  · intro hv
    exact ⟨k, hlisted (by simp [hv]), v, hv, rfl, rfl⟩

/-- The items of a dictionary give the dictionary back. -/
theorem ofItems_items {h : Headers} (hlisted : ∀ k, (h k).isSome = true → k ∈ keys h) :
    ofItems (items keys h) = h := by
  funext k
  have hmem : ∀ v, (k, v) ∈ (items keys h).reverse ↔ h k = some v := by
    intro v
    rw [List.mem_reverse, mem_items keys (hlisted k)]
  unfold ofItems
  cases hl : (items keys h).reverse.lookup k with
  | none =>
    cases hk : h k with
    | none => rfl
    | some v =>
      have hne := List.lookup_eq_none_iff.mp hl (k, v) ((hmem v).mpr hk)
      simp at hne
  | some v =>
    obtain ⟨before, after, hsplit, -⟩ := List.lookup_eq_some_iff.mp hl
    have hin : (k, v) ∈ (items keys h).reverse := by simp [hsplit]
    exact ((hmem v).mp hin).symm

theorem readHeaders_messageJson (m : DelayedMessageData) (payload : String) :
    readHeaders (messageJson keys m payload) = match m.headers with
      | none => some none
      | some h => (readItems ((items keys h).map fun kv => (kv.1, headerJson kv.2))).map
          fun vs => some (ofItems vs) := by
  have hfield : field (messageJson keys m payload) "headers" =
      some (headersJson keys m.headers) := by
    simp [field, messageJson, List.lookup_cons]
  rw [readHeaders, hfield]
  cases m.headers with
  | none => rfl
  | some h => rfl

variable {keys}

/-- Finite headers are read back as they were written. -/
theorem readHeaders_finite {m : DelayedMessageData} (ht : WellTyped keys m) (hf : FiniteHeaders m)
    (payload : String) : readHeaders (messageJson keys m payload) = some m.headers := by
  rw [readHeaders_messageJson]
  cases hm : m.headers with
  | none => rfl
  | some h =>
    have hread : readItems ((items keys h).map fun kv => (kv.1, headerJson kv.2)) =
        some (items keys h) := by
      apply readItems_all
      rintro ⟨k, v⟩ hkv
      have hv := (mem_items keys (ht.listed h hm k)).mp hkv
      apply smartUnion_headerJson (ht.scalar h hm k v hv)
      rintro r rfl
      exact hf h hm k r hv
    simp [hread, ofItems_items keys (ht.listed h hm)]

theorem readHeaders_nonFinite {m : DelayedMessageData} (ht : WellTyped keys m)
    (hf : ¬FiniteHeaders m)
    (payload : String) : readHeaders (messageJson keys m payload) = none := by
  simp only [FiniteHeaders, not_forall, not_not] at hf
  obtain ⟨h, hm, k, r, hk, hr⟩ := hf
  have hnull : (k, .null) ∈ (items keys h).map fun kv => (kv.1, headerJson kv.2) := by
    refine List.mem_map.mpr ⟨(k, .float r), ?_, by simp [headerJson, hr]⟩
    exact (mem_items keys (ht.listed h hm k)).mpr hk
  simp [readHeaders_messageJson, hm, readItems_null hnull]

theorem readOption_json {fields : List (String × Json)} {name : String} {x : Option String}
    (h : field fields name = some (optionJson x)) : readOption fields name = some x := by
  cases x with
  | none => simp [readOption, h, optionJson]
  | some s => simp [readOption, h, optionJson]

/-- Every field but the headers reads back as it was written. -/
theorem readMessage_messageJson (m : DelayedMessageData) {payload : String}
    (hp : decodeUtf8 m.payload = some payload) :
    readMessage (messageJson keys m payload) =
      (readHeaders (messageJson keys m payload)).map fun headers => { m with headers } := by
  have htopic : readText (messageJson keys m payload) "message_topic" = some m.messageTopic := by
    simp [readText, field, messageJson, List.lookup_cons]
  have htime : readInt (messageJson keys m payload) "dispatch_time" = some m.dispatchTime := by
    simp [readInt, field, messageJson, List.lookup_cons]
  have hpayload : readText (messageJson keys m payload) "payload" = some payload := by
    simp [readText, field, messageJson, List.lookup_cons]
  have hoption : ∀ name x, (name, x) ∈ [("idempotency_key", m.idempotencyKey),
      ("target_queue", m.targetQueue), ("message_id", m.messageId), ("content_type", m.contentType),
      ("content_encoding", m.contentEncoding)] →
      readOption (messageJson keys m payload) name = some x := by
    intro name x hx
    apply readOption_json
    simp only [List.mem_cons, Prod.mk.injEq, List.not_mem_nil, or_false] at hx
    obtain ⟨rfl, rfl⟩ | ⟨rfl, rfl⟩ | ⟨rfl, rfl⟩ | ⟨rfl, rfl⟩ | ⟨rfl, rfl⟩ := hx <;>
      simp [field, messageJson, List.lookup_cons]
  have hpolicy : readPayloadPolicy (messageJson keys m payload) = some m.payloadPolicy := by
    have hfield : field (messageJson keys m payload) "payload_policy" =
        some (payloadPolicyJson m.payloadPolicy) := by simp [field, messageJson, List.lookup_cons]
    rw [readPayloadPolicy, hfield]
    cases m.payloadPolicy <;> rfl
  have hwhen : readTimePolicy (messageJson keys m payload) = some m.timePolicy := by
    have hfield : field (messageJson keys m payload) "time_policy" =
        some (timePolicyJson m.timePolicy) := by simp [field, messageJson, List.lookup_cons]
    rw [readTimePolicy, hfield]
    cases m.timePolicy <;> rfl
  cases hh : readHeaders (messageJson keys m payload) with
  | none => simp [readMessage, htopic, htime, hpayload, hh, hoption]
  | some headers =>
    simp [readMessage, htopic, htime, hpayload, hh, hpolicy, hwhen, hoption,
      encodeUtf8_of_decodeUtf8 hp]

/-- The JSON text printed for a message parses to the value it was printed from. -/
def ParsesBack (keys : Headers → List String) (text : JsonText) (m : DelayedMessageData) : Prop :=
  ∀ payload, decodeUtf8 m.payload = some payload →
    text.parse (text.print (.obj (messageJson keys m payload))) =
      some (.obj (messageJson keys m payload))

/-- What the codec makes of its own text: the message, or nothing where a header has no
JSON form. -/
theorem load_dump {text : JsonText} {m : DelayedMessageData} {serialized : Bytes}
    (ht : WellTyped keys m) (htext : ParsesBack keys text m)
    (hd : (pydanticCodec keys text).dump m = .ok serialized) :
    (FiniteHeaders m → (pydanticCodec keys text).load serialized = some m) ∧
      (¬FiniteHeaders m → (pydanticCodec keys text).load serialized = none) := by
  cases hp : decodeUtf8 m.payload with
  | none => simp [pydanticCodec, modelDumpJson, hp, Except.map] at hd
  | some payload =>
    have hbytes : encodeUtf8 (text.print (.obj (messageJson keys m payload))) = serialized := by
      simpa [pydanticCodec, modelDumpJson, hp, Except.map] using hd
    have hload : (pydanticCodec keys text).load serialized =
        readMessage (messageJson keys m payload) := by
      simp [pydanticCodec, ← hbytes, decodeUtf8_encodeUtf8, modelValidateJson, htext payload hp]
    rw [hload, readMessage_messageJson m hp]
    constructor
    · intro hf
      simp [readHeaders_finite ht hf]
    · intro hf
      simp [readHeaders_nonFinite ht hf]

end RoundTrip

section Claims

variable (codec : Codec)

/-- What a dequeue makes of the entry of one task id it claims. -/
def claimed (s : Store) (id : String) : Option DelayedMessageData :=
  (s.metadata (metadataKey id)).bind codec.load

/-- A dequeue returns what it makes of each task id it selects. -/
theorem dequeue_claimed (startTimestamp : Int) (batchSize : Nat) (s : Store) :
    (dequeueNextDelayedMessages codec startTimestamp batchSize s).1 =
      ((selected s startTimestamp batchSize).map member).filterMap (claimed codec s) := by
  rw [dequeueNextDelayedMessages, dequeueScript,
    claimLoop_run _ (selected_nodup s startTimestamp batchSize), List.filterMap_filterMap]
  rfl

/-- The text of an enqueue stays out where the entry keeps its first payload. -/
def Stored (s : Store) (m : DelayedMessageData) (uuid : String) : Prop :=
  ¬(isIdempotent m && m.payloadPolicy == .ignore &&
    (s.metadata (metadataKey (taskId m uuid))).isSome) = true

/-- The task id is gone, or it is there with its text. -/
def Held (s : Store) (id : String) (serialized : Bytes) : Prop :=
  id ∈ s.delayedMessages.members → s.metadata (metadataKey id) = some serialized

/-- `enqueue_delayed_message` returns. -/
def Accepted (m : DelayedMessageData) : Prop :=
  ∃ (uuid : String) (s : Store), (enqueueDelayedMessage codec m uuid s).1 = .ok ()

/-- What is accepted has a JSON form, and its dispatch time a double. -/
theorem accepted_iff {m : DelayedMessageData} :
    Accepted codec m ↔ (∃ serialized, codec.dump m = .ok serialized) ∧ Storable m.dispatchTime := by
  constructor
  · rintro ⟨uuid, s, hok⟩
    constructor
    · cases hd : codec.dump m with
      | error e =>
        rw [enqueue_raises codec m uuid s hd] at hok
        contradiction
      | ok serialized => exact ⟨serialized, rfl⟩
    · by_contra hfits
      obtain ⟨e, he⟩ := (enqueue_refused codec m uuid s hfits).1
      rw [hok] at he
      contradiction
  · rintro ⟨⟨serialized, hd⟩, hfits⟩
    exact ⟨"", Store.empty, by rw [enqueue_run codec m "" Store.empty hd hfits]⟩

theorem enqueue_held {s : Store} {m : DelayedMessageData} {uuid : String} {serialized : Bytes}
    (hd : codec.dump m = .ok serialized) (hfits : Storable m.dispatchTime) (hs : Stored s m uuid) :
    Held (enqueueDelayedMessage codec m uuid s).2 (taskId m uuid) serialized := by
  intro _
  rw [enqueue_run codec m uuid s hd hfits]
  simp only [setMetadata]
  rw [if_neg hs]
  simp

/-- A step that does not write the task id leaves its text alone or claims it. -/
theorem step_held {op : Op} {id : String} {serialized : Bytes} {s : Store}
    (hop : op.taskId? ≠ some id) (h : Held s id serialized) :
    Held (step codec op s).2 id serialized := by
  intro hafter
  have hbefore : id ∈ s.delayedMessages.members := by
    by_contra hnot
    exact (step_absent codec hop hnot).1 hafter
  cases op with
  | enqueue m uuid =>
    have hne : id ≠ taskId m uuid := fun heq => hop (congrArg some heq.symm)
    rw [step, enqueue_metadata_other codec hne]
    exact h hbefore
  | dequeue startTimestamp batchSize =>
    rw [step] at hafter ⊢
    obtain ⟨d, hin⟩ := ZSet.mem_members.mp hafter
    obtain ⟨hold, hnot⟩ := (script_entries s startTimestamp batchSize _).mp hin
    rw [script_untouched s startTimestamp batchSize ?_]
    · exact h hbefore
    · intro e he heq
      have hsame := s.delayedMessages.unique e (selected_due s startTimestamp batchSize he).1 _ hold
        (metadataKey_injective heq).symm
      exact hnot (hsame ▸ he)

theorem run_held {ops : List Op} {id : String} {serialized : Bytes} {s : Store}
    (hops : ∀ op ∈ ops, op.taskId? ≠ some id) (h : Held s id serialized) :
    Held (run codec ops s).2 id serialized := by
  induction ops generalizing s with
  | nil => exact h
  | cons op ops ih =>
    exact ih (fun op' hop' => hops op' (by simp [hop'])) (step_held codec (hops op (by simp)) h)

/-- A message enqueued and later claimed comes back as it was: from any store, after any
steps of other producers and beat workers that do not write its task id. -/
def RoundTrips (m : DelayedMessageData) : Prop :=
  ∀ (s : Store) (uuid : String), Corresponds s → Stored s m uuid →
    ∀ ops : List Op, (∀ op ∈ ops, op.taskId? ≠ some (taskId m uuid)) →
      ∀ (later : Store), later = (run codec ops (enqueueDelayedMessage codec m uuid s).2).2 →
        ∀ (startTimestamp : Int) (batchSize : Nat),
          taskId m uuid ∈ (selected later startTimestamp batchSize).map member →
            claimed codec later (taskId m uuid) = some m ∧
              m ∈ (dequeueNextDelayedMessages codec startTimestamp batchSize later).1

variable {codec}

/-- The claim hands over what the codec makes of the text of the enqueue. -/
theorem claimed_eq_load {m : DelayedMessageData} {serialized : Bytes} {s : Store} {uuid : String}
    {ops : List Op} {startTimestamp : Int} {batchSize : Nat}
    (hd : codec.dump m = .ok serialized) (hfits : Storable m.dispatchTime)
    (hstored : Stored s m uuid)
    (hops : ∀ op ∈ ops, op.taskId? ≠ some (taskId m uuid))
    (hsel : taskId m uuid ∈ (selected (run codec ops (enqueueDelayedMessage codec m uuid s).2).2
      startTimestamp batchSize).map member) :
    claimed codec (run codec ops (enqueueDelayedMessage codec m uuid s).2).2 (taskId m uuid) =
      codec.load serialized := by
  have hheld := run_held codec hops (enqueue_held codec hd hfits hstored)
  obtain ⟨e, he, heq⟩ := List.mem_map.mp hsel
  have hin : taskId m uuid ∈
      (run codec ops (enqueueDelayedMessage codec m uuid s).2).2.delayedMessages.members := by
    rw [← heq]
    exact List.mem_map_of_mem (ZSet.mem_rangeByScore he).1
  rw [claimed, hheld hin]
  rfl

/-- What is stored comes back exactly when the codec reads its own text back. -/
theorem roundTrips_iff_load {m : DelayedMessageData} {serialized : Bytes}
    (hd : codec.dump m = .ok serialized) (hfits : Storable m.dispatchTime) :
    RoundTrips codec m ↔ codec.load serialized = some m := by
  constructor
  · intro h
    -- one producer, and one dequeue at the dispatch time
    have hstored : Stored Store.empty m "" := by simp [Stored, Store.empty]
    have hentries : (enqueueDelayedMessage codec m "" Store.empty).2.delayedMessages.entries =
        [toLex (nearestInt m.dispatchTime, taskId m "")] := by
      rw [enqueue_run codec m "" _ hd hfits]
      have hnew : taskId m "" ∉ Store.empty.delayedMessages.members := by
        simp [Store.empty, ZSet.empty, ZSet.members]
      rw [ZSet.upsert_new hnew]
      exact ZSet.add_only (by simp [Store.empty, ZSet.empty])
    have hsel : taskId m "" ∈
        (selected (run codec [] (enqueueDelayedMessage codec m "" Store.empty).2).2
        m.dispatchTime 1).map member := by
      rw [run, selected_single hentries]
      simp [score, member]
    have hclaim := (h Store.empty "" empty_corresponds hstored [] (by simp) _ rfl _ _ hsel).1
    rwa [claimed_eq_load hd hfits hstored (by simp) hsel] at hclaim
  · intro hload s uuid _ hstored ops hops later hlater startTimestamp batchSize hsel
    subst hlater
    have hclaim := claimed_eq_load hd hfits hstored hops hsel
    rw [hload] at hclaim
    refine ⟨hclaim, ?_⟩
    rw [dequeue_claimed]
    exact List.mem_filterMap.mpr ⟨_, hsel, hclaim⟩

end Claims

/-- A message the backend accepts comes back as it was exactly where no header is an
infinite or NaN float: the null written for one does not validate after the claim. -/
theorem roundTrips_iff_finite {keys : Headers → List String} {text : JsonText}
    {m : DelayedMessageData}
    (ht : WellTyped keys m) (htext : ParsesBack keys text m)
    (haccepted : Accepted (pydanticCodec keys text) m) :
    RoundTrips (pydanticCodec keys text) m ↔ FiniteHeaders m := by
  obtain ⟨⟨serialized, hd⟩, hfits⟩ := (accepted_iff _).mp haccepted
  obtain ⟨hfinite, hnonFinite⟩ := load_dump ht htext hd
  rw [roundTrips_iff_load hd hfits]
  constructor
  · intro hload
    by_contra hnot
    rw [hnonFinite hnot] at hload
    contradiction
  · exact hfinite

mutual

/-- JSON text without spaces, for texts with nothing to escape. -/
def compact : Json → String
  | .null => "null"
  | .bool b => if b then "true" else "false"
  | .int n => toString n
  | .float r => r
  | .str s => "\"" ++ s ++ "\""
  | .obj fields => "\x7b" ++ ",".intercalate (compactFields fields) ++ "\x7d"

def compactFields : List (String × Json) → List String
  | [] => []
  | kj :: rest => compactField kj :: compactFields rest

def compactField : String × Json → String
  | (k, j) => "\"" ++ k ++ "\":" ++ compact j

end

/-- A message with one header, the limit of a rate. -/
def limited (limit : String) : DelayedMessageData where
  messageTopic := "user.welcome"
  dispatchTime := 60
  payload := []
  headers := some (Headers.empty.set "limit" (.float limit))

def limitedKeys : Headers → List String := fun _ => ["limit"]

/-- The JSON text of one of them, and its value. -/
def limitedText (limit : String) : JsonText where
  print := compact
  parse t := if t = compact (.obj (messageJson limitedKeys (limited limit) "")) then
    some (.obj (messageJson limitedKeys (limited limit) "")) else none

/-- The message has the one header `limit`. -/
theorem limited_headers {limit k : String} {h : Headers} {v : HeaderValue}
    (hh : (limited limit).headers = some h) (hk : h k = some v) :
    k = "limit" ∧ v = .float limit := by
  obtain rfl : Headers.empty.set "limit" (.float limit) = h := by simpa [limited] using hh
  by_cases hkey : k = "limit"
  · subst hkey
    rw [Headers.set_same, Option.some.injEq] at hk
    exact ⟨rfl, hk.symm⟩
  · simp [Headers.set_other _ _ hkey, Headers.empty] at hk

theorem limited_wellTyped (limit : String) : WellTyped limitedKeys (limited limit) where
  listed := by
    intro h hh k hk
    obtain ⟨v, hv⟩ := Option.isSome_iff_exists.mp hk
    simp [limitedKeys, (limited_headers hh hv).1]
  scalar := by
    intro h hh k v hv
    rw [(limited_headers hh hv).2]
    rfl

theorem decodeUtf8_nil : decodeUtf8 [] = some "" := decodeUtf8_encodeUtf8 ""

theorem limited_parsesBack (limit : String) :
    ParsesBack limitedKeys (limitedText limit) (limited limit) := by
  intro payload hp
  obtain rfl : "" = payload := by simpa [limited, decodeUtf8_nil] using hp
  simp only [limitedText, ↓reduceIte]

theorem limited_storable (limit : String) : Storable (limited limit).dispatchTime :=
  storable_small (by decide : |(60 : Int)| ≤ 2 ^ 53)

theorem limited_accepted (limit : String) :
    Accepted (pydanticCodec limitedKeys (limitedText limit)) (limited limit) := by
  have hp : decodeUtf8 (limited limit).payload = some "" := decodeUtf8_nil
  exact (accepted_iff _).mpr ⟨by simp [pydanticCodec, modelDumpJson, hp, Except.map],
    limited_storable limit⟩

/-- A header of a finite number comes back. -/
theorem limited_roundTrips :
    RoundTrips (pydanticCodec limitedKeys (limitedText "0.5")) (limited "0.5") := by
  apply (roundTrips_iff_finite (limited_wellTyped "0.5") (limited_parsesBack "0.5")
    (limited_accepted "0.5")).mpr
  intro h hh k r hk
  obtain ⟨-, hr⟩ := limited_headers hh hk
  rw [HeaderValue.float.injEq] at hr
  subst hr
  decide

/-- A header without a limit: the message is accepted and claimed, and it does not come
back from the claim. -/
theorem unlimited_dropped :
    Accepted (pydanticCodec limitedKeys (limitedText "inf")) (limited "inf") ∧
      ¬RoundTrips (pydanticCodec limitedKeys (limitedText "inf")) (limited "inf") := by
  have haccepted := limited_accepted "inf"
  obtain ⟨serialized, hd⟩ := ((accepted_iff _).mp haccepted).1
  refine ⟨haccepted, ?_⟩
  have hnot : ¬FiniteHeaders (limited "inf") := by
    intro hf
    exact hf _ rfl "limit" "inf" (by simp) (by decide)
  rw [roundTrips_iff_load hd (limited_storable "inf"),
    (load_dump (limited_wellTyped "inf") (limited_parsesBack "inf") hd).2 hnot]
  simp

end DelayedCodec
