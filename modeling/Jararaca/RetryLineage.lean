import Jararaca.RetryAttempts

/-!
# The copies of one message

What a retry copy says, what the beat worker makes of it, and what follows for a whole
line of copies, each made from the delivery of the one before.
-/
namespace RetryLineage

open Messages Interceptors Worker WorkerRules

/-- `if value:` on an optional text. -/
def truthy (x : Option String) : Option String := x.filter fun s => decide (s ≠ "")

/-- What the broker delivers when `dispatch_delayed_message` published a delayed message. -/
def dispatched (m : DelayedMessageData) : Delivery where
  body := m.payload
  headers := m.headers.getD Headers.empty
  messageId := truthy m.messageId
  contentType := truthy m.contentType
  contentEncoding := truthy m.contentEncoding

theorem truthy_of_ne {x : Option String} (h : x ≠ some "") : truthy x = x := by
  cases x with
  | none => rfl
  | some s =>
    have hs : s ≠ "" := fun heq => h (by rw [heq])
    simp [truthy, hs]

/-- A value with a JSON form that reads back: no infinity and no NaN. -/
def isFinite : HeaderValue → Bool
  | .float repr => ! (["nan", "inf", "-inf"].contains repr)
  | _ => true

/-- Headers of a type that `DelayedMessageData` accepts, with values that read back. -/
def Writable (h : Headers) : Prop := ∀ k v, h k = some v → v.isScalar = true ∧ isFinite v = true

/-- Implicit headers: such values, or None. -/
def Fields (h : Headers) : Prop :=
  ∀ k v, h k = some v → v = .other "None" ∨ (v.isScalar = true ∧ isFinite v = true)

theorem Writable.fields {h : Headers} (hw : Writable h) : Fields h := fun k v hv => .inr (hw k v hv)

theorem forall_merge {a b : Headers} {p : HeaderValue → Prop} (ha : ∀ k v, a k = some v → p v)
    (hb : ∀ k v, b k = some v → p v) : ∀ k v, a.merge b k = some v → p v := by
  intro k v hv
  rw [Headers.merge_apply] at hv
  cases hbk : b k with
  | none => exact ha k v (by simpa [hbk] using hv)
  | some w => exact hb k v (by simpa [hbk] using hv)

theorem Fields.merge {a b : Headers} (ha : Fields a) (hb : Fields b) : Fields (a.merge b) :=
  forall_merge ha hb

theorem Writable.merge {a b : Headers} (ha : Writable a) (hb : Writable b) : Writable (a.merge b) :=
  forall_merge ha hb

/-- A scalar and finite header keeps the headers writable. -/
theorem Writable.set {h : Headers} (hw : Writable h) (k : String) {v : HeaderValue}
    (hs : v.isScalar = true) (hf : isFinite v = true) : Writable (h.set k v) := by
  intro k' v' hv'
  by_cases hk : k' = k
  · rw [hk, Headers.set_same, Option.some.injEq] at hv'
    rw [← hv']
    exact ⟨hs, hf⟩
  · rw [Headers.set_other h v hk] at hv'
    exact hw k' v' hv'

/-- Dropping None leaves what can be written. -/
theorem Fields.present {h : Headers} (hf : Fields h) :
    Writable fun k => (h k).filter (· != .other "None") := by
  intro k v hv
  obtain ⟨hk, hne⟩ := Option.filter_eq_some_iff.mp hv
  obtain rfl | hw := hf k v hk
  · simp at hne
  · exact hw

theorem Writable.scalars {h : Headers} (hw : Writable h) : Writable h.scalars := by
  intro k v hv
  obtain ⟨hk, -⟩ := Option.filter_eq_some_iff.mp hv
  exact hw k v hk

theorem retryHeaders_writable {msg : Delivery} {implicit : Headers}
    (hm : Writable msg.headers.scalars)
    (hi : Fields implicit) (n : Int) (text : Option String) :
    Writable (retryHeaders msg implicit n text) := by
  have hcount : Writable ((msg.headers.scalars.merge
      (fun k => (implicit k).filter (· != .other "None"))).set xRetryCount (.int (n + 1))) :=
    (hm.merge hi.present).set xRetryCount rfl rfl
  unfold retryHeaders
  cases text with
  | none => exact hcount
  | some t => exact hcount.set xLastError rfl rfl

theorem retryHeaders_count (msg : Delivery) (implicit : Headers) (n : Int) (text : Option String) :
    retryHeaders msg implicit n text xRetryCount = some (.int (n + 1)) := by
  unfold retryHeaders
  cases text with
  | none => exact Headers.set_same _ _ _
  | some e =>
    have hne : xRetryCount ≠ xLastError := by decide
    exact (Headers.set_other _ _ hne).trans (Headers.set_same _ _ _)

/-- The copies of a message in the order they were made, with the latest delivery. `U` is
what is known of the implicit headers and the environment each copy was made in. -/
inductive Lineage (spec : HandlerSpec) (msg : Delivery) (U : Headers → SettleEnv → Prop) :
    List DelayedMessageData → Delivery → Prop where
  | start : Lineage spec msg U [] msg
  | retry {cs : List DelayedMessageData} {d : Delivery} (h : Lineage spec msg U cs d) {n : Int}
      (hn : getRetryCount d.headers = some n) (implicit : Headers) (time : Int)
      (text : Option String) (env : SettleEnv) (hu : U implicit env) :
      Lineage spec msg U (cs ++ [retryCopy spec d implicit n time text env])
        (dispatched (retryCopy spec d implicit n time text env))

namespace Lineage

variable {spec : HandlerSpec} {msg : Delivery} {U : Headers → SettleEnv → Prop}
  {cs : List DelayedMessageData} {d : Delivery}

/-- Each copy counts one more than the one before. -/
theorem counts (hl : Lineage spec msg U cs d) {n₀ : Int}
    (hmsg : getRetryCount msg.headers = some n₀) :
    getRetryCount d.headers = some (n₀ + cs.length) ∧
      ∀ (i : Nat) (c : DelayedMessageData), cs[i]? = some c →
        ∃ h, c.headers = some h ∧ h xRetryCount = some (.int (n₀ + i + 1)) := by
  induction hl with
  | start => exact ⟨by simpa using hmsg, by simp⟩
  | @retry cs d hl n hn implicit time text env hu ih =>
    obtain ⟨hcount, hall⟩ := ih
    have heq : n = n₀ + cs.length := by
      rw [hn] at hcount
      exact Option.some.inj hcount
    constructor
    · have hread : getRetryCount (dispatched (retryCopy spec d implicit n time text env)).headers =
          some (n + 1) := by
        simp [dispatched, retryCopy, getRetryCount, retryHeaders_count, HeaderValue.toInt?]
      rw [hread, heq, List.length_append, List.length_singleton]
      push_cast
      ring_nf
    · intro i c hc
      rw [List.getElem?_append] at hc
      split at hc
      · exact hall i c hc
      · next hi =>
        have hi' : i = cs.length := by
          obtain ⟨hlt, -⟩ := List.getElem?_eq_some_iff.mp hc
          simp at hlt
          omega
        subst hi'
        simp only [Nat.sub_self, List.getElem?_cons_zero, Option.some.injEq] at hc
        subst hc
        exact ⟨_, rfl, by rw [retryHeaders_count, heq]⟩

theorem reads (hl : Lineage spec msg U cs d) {n : Int} (hn : getRetryCount d.headers = some n) :
    ∃ n₀, getRetryCount msg.headers = some n₀ := by
  induction hl generalizing n with
  | start => exact ⟨n, hn⟩
  | retry hl hn' implicit time text env hu ih => exact ih hn'

/-- The latest delivery is the message or its latest copy. -/
theorem tip (hl : Lineage spec msg U cs d) : (msg :: cs.map dispatched).getLast? = some d := by
  cases hl with
  | start => rfl
  | retry hl hn implicit time text env hu => simp [List.getLast?_cons]

theorem tip_of_last (hl : Lineage spec msg U cs d) {c : DelayedMessageData}
    (hc : cs.getLast? = some c) : d = dispatched c := by
  cases hl with
  | start => simp at hc
  | retry hl hn implicit time text env hu =>
    rw [List.getLast?_append, List.getLast?_singleton, Option.some_or, Option.some.injEq] at hc
    rw [hc]

/-- What every copy and every delivery of the line shares with the message. -/
theorem content (hl : Lineage spec msg U cs d) (ht : msg.contentType ≠ some "")
    (he : msg.contentEncoding ≠ some "") :
    (d.body = msg.body ∧ d.contentType = msg.contentType ∧
      d.contentEncoding = msg.contentEncoding) ∧
      ∀ c ∈ cs, c.targetQueue = some spec.queueName ∧ c.payload = msg.body ∧
        c.contentType = msg.contentType ∧ c.contentEncoding = msg.contentEncoding := by
  induction hl with
  | start => exact ⟨⟨rfl, rfl, rfl⟩, by simp⟩
  | @retry cs d hl n hn implicit time text env hu ih =>
    obtain ⟨⟨hbody, htype, henc⟩, hall⟩ := ih
    refine ⟨⟨hbody, ?_, ?_⟩, ?_⟩
    · change truthy d.contentType = msg.contentType
      rw [htype, truthy_of_ne ht]
    · change truthy d.contentEncoding = msg.contentEncoding
      rw [henc, truthy_of_ne he]
    · intro c hc
      obtain hc | hc := List.mem_append.mp hc
      · exact hall c hc
      · rw [List.mem_singleton.mp hc]
        exact ⟨rfl, hbody, htype, henc⟩

/-- Every copy goes to the queue of the handler. -/
theorem target (hl : Lineage spec msg U cs d) : ∀ c ∈ cs, c.targetQueue = some spec.queueName := by
  induction hl with
  | start => simp
  | retry hl hn implicit time text env hu ih =>
    intro c hc
    obtain hc | hc := List.mem_append.mp hc
    · exact ih c hc
    · rw [List.mem_singleton.mp hc]
      rfl

/-- Once a message id is assigned it stays. -/
theorem ids (hl : Lineage spec msg U cs d) (hu : ∀ h env, U h env → env.uuid ≠ "") :
    (∀ m, msg.messageId = some m → m ≠ "" → d.messageId = some m) ∧
      ∀ c ∈ cs, c.messageId = d.messageId ∧ ∃ id, id ≠ "" ∧ d.messageId = some id := by
  induction hl with
  | start => exact ⟨fun m hm _ => hm, by simp⟩
  | @retry cs d hl n hn implicit time text env hue ih =>
    obtain ⟨hfirst, hall⟩ := ih
    have hne : orElse d.messageId env.uuid ≠ "" := by
      unfold orElse
      split
      · exact hu _ _ hue
      · split
        · exact hu _ _ hue
        · assumption
    have htip : (dispatched (retryCopy spec d implicit n time text env)).messageId =
        some (orElse d.messageId env.uuid) := by
      have hsome : some (orElse d.messageId env.uuid) ≠ some "" := by simpa using hne
      exact truthy_of_ne hsome
    rw [htip]
    constructor
    · intro m hm hmne
      simp [hfirst m hm hmne, orElse, hmne]
    · intro c hc
      refine ⟨?_, _, hne, rfl⟩
      obtain hc | hc := List.mem_append.mp hc
      · obtain ⟨heq, id, hid, hd⟩ := hall c hc
        rw [heq, hd]
        simp [orElse, hid]
      · rw [List.mem_singleton.mp hc]
        rfl

/-- Where the implicit headers are of their declared type, every copy can be written and
read back. -/
theorem writable (hl : Lineage spec msg U cs d) (hm : Writable msg.headers.scalars)
    (hu : ∀ h env, U h env → Fields (h.merge env.extra)) :
    Writable d.headers.scalars ∧ ∀ c ∈ cs, ∃ h, c.headers = some h ∧ Writable h := by
  induction hl with
  | start => exact ⟨hm, by simp⟩
  | @retry cs d hl n hn implicit time text env hue ih =>
    obtain ⟨hd, hall⟩ := ih
    have hw := retryHeaders_writable hd (hu _ _ hue) n text
    refine ⟨hw.scalars, ?_⟩
    intro c hc
    obtain hc | hc := List.mem_append.mp hc
    · exact hall c hc
    · rw [List.mem_singleton.mp hc]
      exact ⟨_, rfl, hw⟩

end Lineage

/-- The implicit headers around an attempt are of their declared type. -/
theorem workHeaders_fields {interceptors : List Interceptor} {msg : Delivery} {x : Execution}
    (ha : Fields x.ambient) (hm : Writable msg.headers.scalars)
    (hp : ∀ i ∈ interceptors, Fields i.provides) : Fields (workHeaders interceptors msg x) := by
  have hinside : ∀ (is : List Interceptor) (h : Headers), Fields h → (∀ i ∈ is, Fields i.provides) →
      Fields (implicitInside h is) := by
    intro is
    induction is with
    | nil => exact fun h hh _ => hh
    | cons i is ih =>
      intro h hh his
      exact ih (h.merge i.provides) (hh.merge (his i (by simp))) fun j hj => his j (by simp [hj])
  exact hinside interceptors _ (ha.merge hm.fields) hp

end RetryLineage
