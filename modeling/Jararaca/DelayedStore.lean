import Mathlib.Data.String.Basic
import Jararaca.Doubles
import Jararaca.Programs
import Jararaca.Messages
import Jararaca.SortedSets

/-!
# The store of delayed messages

The delayed messages of `RedisMessageBrokerBackend`: a sorted set of task ids scored by
dispatch time, and one metadata key for each task id with the serialised message. An
enqueue is one MULTI/EXEC pipeline and a dequeue is one Lua script, so both are atomic
steps, and a run of any number of producers and beat workers is a list of them. Scores are
doubles: a time is stored as the nearest one, and one that has none is refused after the
metadata is written, which EXEC does not take back.
-/
namespace DelayedStore

open Programs Messages SortedSets Doubles

/-- How pydantic writes a delayed message to JSON and reads it back; writing raises
where the message has no JSON form, and what does not validate reads as none. -/
structure Codec where
  dump : DelayedMessageData → Except PyExc Bytes
  load : Bytes → Option DelayedMessageData

structure Store where
  delayedMessages : ZSet Int String
  metadata : String → Option Bytes

def Store.empty : Store := ⟨ZSet.empty, fun _ => none⟩

def delayedMessagesMetadataPrefix : String := "delayed_messages_metadata:"

def metadataKey (taskId : String) : String := delayedMessagesMetadataPrefix ++ taskId

/-- `delayed_message.idempotency_key or str(uuid4())`. -/
def taskId (m : DelayedMessageData) (uuid : String) : String := orElse m.idempotencyKey uuid

def isIdempotent (m : DelayedMessageData) : Bool := m.idempotencyKey.isSome

/-- The options of `ZADD`. -/
def zaddOption (m : DelayedMessageData) : Update :=
  if isIdempotent m then
    match m.timePolicy with
    | .greater => .greater
    | .lesser => .lesser
    | .replace => .always
  else .always

/-- `SET`, with `NX` where the first payload is to stay. -/
def setMetadata (m : DelayedMessageData) (key : String) (serialized : Bytes) (s : Store) : Store :=
  if isIdempotent m && m.payloadPolicy == .ignore && (s.metadata key).isSome then s
  else { s with metadata := Function.update s.metadata key (some serialized) }

/-- The time has a decimal text: `str` of an int of more than 4300 digits raises. -/
def Writable (time : Int) : Prop := |time| < 10 ^ 4300

instance (time : Int) : Decidable (Writable time) := inferInstanceAs (Decidable (_ < _))

/-- The time has a double. -/
def Storable (time : Int) : Prop := |nearestInt time| < 2 ^ 1024

instance (time : Int) : Decidable (Storable time) := inferInstanceAs (Decidable (_ < _))

/-- `ZADD`, which refuses what is no double. -/
def zadd (m : DelayedMessageData) (id : String) : Prog Store PyExc Unit :=
  if Storable m.dispatchTime then
    Prog.modify fun s => { s with
      delayedMessages := s.delayedMessages.upsert (zaddOption m) (nearestInt m.dispatchTime) id }
  else Prog.raise (.error "ResponseError" "value is not a valid float")

/-- `enqueue_delayed_message`. The commands are written out before the first of them is sent.
Its bounds are numbers of many digits, which no unification is to compute. -/
@[irreducible] def enqueueDelayedMessage (codec : Codec) (m : DelayedMessageData) (uuid : String) :
    Prog Store PyExc Unit := do
  let serialized ← Prog.ofExcept (codec.dump m)
  if Writable m.dispatchTime then
    Prog.modify (setMetadata m (metadataKey (taskId m uuid)) serialized)
    zadd m (taskId m uuid)
  else Prog.raise (.error "ValueError" "Exceeds the limit for integer string conversion")

/-- The loop of the dequeue script: get, remove and delete, one task id after the other. -/
def claimLoop : List String → Store → List Bytes × Store
  | [], s => ([], s)
  | id :: ids, s =>
    let rest := claimLoop ids ⟨s.delayedMessages.remove id,
      Function.update s.metadata (metadataKey id) none⟩
    ((s.metadata (metadataKey id)).toList ++ rest.1, rest.2)

/-- The entries the dequeue script selects: the bound is a double, too. -/
def selected (s : Store) (startTimestamp : Int) (batchSize : Nat) : List (Int ×ₗ String) :=
  s.delayedMessages.rangeByScore (nearestInt startTimestamp) batchSize

def dequeueScript (startTimestamp : Int) (batchSize : Nat) (s : Store) : List Bytes × Store :=
  claimLoop ((selected s startTimestamp batchSize).map member) s

/-- `dequeue_next_delayed_messages`: what does not validate is logged and dropped. -/
def dequeueNextDelayedMessages (codec : Codec) (startTimestamp : Int) (batchSize : Nat)
    (s : Store) :
    List DelayedMessageData × Store :=
  let claimed := dequeueScript startTimestamp batchSize s
  (claimed.1.filterMap codec.load, claimed.2)

/-- The task ids of the sorted set and the metadata keys correspond one to one. -/
def Corresponds (s : Store) : Prop :=
  ∀ key, (s.metadata key).isSome = true ↔ ∃ id ∈ s.delayedMessages.members, key = metadataKey id

theorem metadataKey_injective : Function.Injective metadataKey := by
  intro a b h
  have hlist := congrArg String.toList h
  simp only [metadataKey, String.toList_append] at hlist
  exact String.toList_injective (List.append_cancel_left hlist)

/-- They do at one task id. -/
def CorrespondsAt (s : Store) (id : String) : Prop :=
  (s.metadata (metadataKey id)).isSome = true ↔ id ∈ s.delayedMessages.members

/-- The correspondence at one task id. -/
theorem Corresponds.at {s : Store} (h : Corresponds s) (id : String) : CorrespondsAt s id := by
  rw [CorrespondsAt, h]
  constructor
  · rintro ⟨id', hid', heq⟩
    rw [metadataKey_injective heq]
    exact hid'
  · intro hid
    exact ⟨id, hid, rfl⟩

section Enqueue

variable (codec : Codec) (m : DelayedMessageData) (uuid : String) (s : Store)

/-- What has a double is far from the limit of texts. -/
theorem Storable.writable {time : Int} (h : Storable time) : Writable time := by
  have hpow : (2 : Int) ^ 1024 ≤ 10 ^ 4300 :=
    (pow_le_pow_right₀ (by norm_num) (show 1024 ≤ 4300 by norm_num)).trans
      (pow_le_pow_left₀ (by norm_num) (by norm_num) _)
  have hfixed : nearestInt (2 ^ 1024) = 2 ^ 1024 := by
    have hcast : ((nearestInt (2 ^ 1024) : Int) : ℚ) = ((2 ^ 1024 : Int) : ℚ) := by
      rw [nearestInt_cast]
      rw [Int.cast_pow, Int.cast_ofNat]
      have hbits := nearest_bits (m := 1) (e := 1024) (by norm_num) (by norm_num)
      rwa [Int.cast_one, one_mul,
        show (2 : ℚ) ^ (1024 : Int) = 2 ^ 1024 from zpow_natCast 2 1024] at hbits
    exact Int.cast_injective hcast
  obtain ⟨hlow, hhigh⟩ := abs_lt.mp h
  refine (abs_lt.mpr ⟨?_, ?_⟩).trans_le hpow
  · by_contra hle
    have hmono := nearestInt_mono (not_lt.mp hle)
    rw [nearestInt_neg, hfixed] at hmono
    exact absurd hlow (not_lt.mpr hmono)
  · by_contra hle
    have hmono := nearestInt_mono (not_lt.mp hle)
    rw [hfixed] at hmono
    exact absurd hhigh (not_lt.mpr hmono)

/-- A time of a clock is stored as it is. -/
theorem storable_small {time : Int} (h : |time| ≤ 2 ^ 53) : Storable time := by
  rw [Storable, nearestInt_eq h]
  exact h.trans_lt (pow_lt_pow_right₀ (by norm_num) (by norm_num))

/-- The whole part of a finite float is stored. -/
theorem storable_truncate {q : ℚ} (h : |q| < floatLimit) : Storable (truncate q) := by
  have hsmall : |((truncate q : Int) : ℚ)| < 2 ^ (53 + 971 : Int) - 2 ^ (971 - 1 : Int) := by
    have htop : (2 : ℚ) ^ (53 + 971 : Int) = 2 ^ (1024 : Nat) := zpow_natCast 2 1024
    have hmiddle : (2 : ℚ) ^ (971 - 1 : Int) = 2 ^ (970 : Nat) := zpow_natCast 2 970
    rw [htop, hmiddle]
    exact (abs_truncate_le q).trans_lt h
  have hnear := abs_nearest_lt_zpow (by norm_num) hsmall
  rw [← nearestInt_cast, show (2 : ℚ) ^ (53 + 971 : Int) =
    2 ^ (1024 : Nat) from zpow_natCast 2 1024]
    at hnear
  have hcast : ((|nearestInt (truncate q)| : Int) : ℚ) < ((2 ^ 1024 : Int) : ℚ) := by
    rw [Int.cast_abs, Int.cast_pow, Int.cast_ofNat]
    exact hnear
  exact Int.cast_lt.mp hcast

theorem enqueue_raises {e : PyExc} (h : codec.dump m = .error e) :
    enqueueDelayedMessage codec m uuid s = (.error e, s) := by
  simp [enqueueDelayedMessage, Prog.bind_run, h]

theorem setMetadata_zset (key : String) (serialized : Bytes) :
    (setMetadata m key serialized s).delayedMessages = s.delayedMessages := by
  unfold setMetadata
  split <;> rfl

theorem enqueue_run {serialized : Bytes} (h : codec.dump m = .ok serialized)
    (hfits : Storable m.dispatchTime) :
    enqueueDelayedMessage codec m uuid s = (.ok (),
      { (setMetadata m (metadataKey (taskId m uuid)) serialized s) with
        delayedMessages :=
          s.delayedMessages.upsert (zaddOption m) (nearestInt m.dispatchTime)
            (taskId m uuid) }) := by
  simp [enqueueDelayedMessage, zadd, Prog.bind_run, h, setMetadata_zset, hfits, hfits.writable]

/-- The metadata is written before the sorted set refuses the time. -/
theorem enqueue_halfway {serialized : Bytes} (h : codec.dump m = .ok serialized)
    (hwritable : Writable m.dispatchTime)
    (hfits : ¬Storable m.dispatchTime) :
    (enqueueDelayedMessage codec m uuid s).2 =
      setMetadata m (metadataKey (taskId m uuid)) serialized s := by
  simp [enqueueDelayedMessage, zadd, Prog.bind_run, h, hfits, hwritable]

theorem enqueue_unwritable {serialized : Bytes} (h : codec.dump m = .ok serialized)
    (hwritable : ¬Writable m.dispatchTime) : (enqueueDelayedMessage codec m uuid s).2 = s := by
  simp [enqueueDelayedMessage, Prog.bind_run, h, hwritable]

/-- A time without a double raises, and does not reach the sorted set. -/
theorem enqueue_refused (hfits : ¬Storable m.dispatchTime) :
    (∃ e, (enqueueDelayedMessage codec m uuid s).1 = .error e) ∧
      (enqueueDelayedMessage codec m uuid s).2.delayedMessages = s.delayedMessages := by
  cases hdump : codec.dump m with
  | error e =>
    rw [enqueue_raises codec m uuid s hdump]
    exact ⟨⟨e, rfl⟩, rfl⟩
  | ok serialized =>
    by_cases hwritable : Writable m.dispatchTime
    · simp [enqueueDelayedMessage, zadd, Prog.bind_run, hdump, setMetadata_zset, hfits, hwritable]
    · simp [enqueueDelayedMessage, Prog.bind_run, hdump, hwritable]

/-- Setting a key adds that key and no other. -/
theorem setMetadata_isSome (key key' : String) (serialized : Bytes) :
    ((setMetadata m key serialized s).metadata key').isSome = true ↔
      key' = key ∨ (s.metadata key').isSome = true := by
  unfold setMetadata
  split
  · next h =>
    have hsome : (s.metadata key).isSome = true := (Bool.and_eq_true_iff.mp h).2
    constructor
    · exact .inr
    · rintro (rfl | h')
      · exact hsome
      · exact h'
  · by_cases hk : key' = key
    · simp [hk]
    · simp [hk]

/-- An enqueue keeps both sides in step, whatever its policies. -/
theorem enqueue_corresponds (hfits : Storable m.dispatchTime) (h : Corresponds s) :
    Corresponds (enqueueDelayedMessage codec m uuid s).2 := by
  cases hd : codec.dump m with
  | error e =>
    rw [enqueue_raises codec m uuid s hd]
    exact h
  | ok serialized =>
    rw [enqueue_run codec m uuid s hd hfits]
    intro key
    simp only [setMetadata_isSome, h key, ZSet.members_upsert]
    constructor
    · rintro (rfl | ⟨id, hid, rfl⟩)
      · exact ⟨_, .inl rfl, rfl⟩
      · exact ⟨id, .inr hid, rfl⟩
    · rintro ⟨id, rfl | hid, rfl⟩
      · exact .inl rfl
      · exact .inr ⟨id, hid, rfl⟩

end Enqueue

section Dequeue

theorem filterMap_map_some {f : String → Option Bytes} {ids : List String}
    (h : ∀ id ∈ ids, (f id).isSome = true) : (ids.filterMap f).map some = ids.map f := by
  induction ids with
  | nil => rfl
  | cons id ids ih =>
    obtain ⟨payload, hp⟩ := Option.isSome_iff_exists.mp (h id (by simp))
    have hrest := ih fun id' hid' => h id' (by simp [hid'])
    simp [hp, hrest]

/-- The loop of the script in closed form, over distinct task ids. -/
theorem claimLoop_run (ids : List String) (hnodup : ids.Nodup) (s : Store) :
    claimLoop ids s = (ids.filterMap fun id => s.metadata (metadataKey id),
      ⟨s.delayedMessages.removeAll ids,
        fun key => if ∃ id ∈ ids, key = metadataKey id then none else s.metadata key⟩) := by
  induction ids generalizing s with
  | nil => simp [claimLoop, ZSet.removeAll]
  | cons id ids ih =>
    obtain ⟨hnot, hids⟩ := List.nodup_cons.mp hnodup
    rw [claimLoop, ih hids]
    -- the later task ids still find their metadata
    have hlater : ∀ id' ∈ ids, Function.update s.metadata (metadataKey id) none (metadataKey id') =
        s.metadata (metadataKey id') := by
      intro id' hid'
      apply Function.update_of_ne
      intro heq
      exact hnot (metadataKey_injective heq ▸ hid')
    have hpayloads : (ids.filterMap fun id' =>
        Function.update s.metadata (metadataKey id) none (metadataKey id')) =
          ids.filterMap fun id' => s.metadata (metadataKey id') :=
      List.filterMap_congr hlater
    have hmetadata : (fun key => if ∃ id' ∈ ids, key = metadataKey id' then none
          else Function.update s.metadata (metadataKey id) none key) =
        fun key => if ∃ id' ∈ id :: ids, key = metadataKey id' then none else s.metadata key := by
      funext key
      by_cases hk : key = metadataKey id
      · simp [hk]
      · by_cases hrest : ∃ id' ∈ ids, key = metadataKey id'
        · simp [hrest, hk]
        · simp [hrest, hk]
    rw [hpayloads, hmetadata]
    cases hs : s.metadata (metadataKey id) with
    | none => simp [hs, ZSet.removeAll]
    | some payload => simp [hs, ZSet.removeAll]

variable (s : Store) (startTimestamp : Int) (batchSize : Nat)

theorem selected_nodup : ((selected s startTimestamp batchSize).map member).Nodup := by
  have hsub : ((selected s startTimestamp batchSize).map member).Sublist
      s.delayedMessages.members := by
    apply List.Sublist.map
    exact (List.take_sublist _ _).trans List.filter_sublist
  exact (ZSet.members_nodup s.delayedMessages).sublist hsub

/-- A store with one entry. -/
theorem selected_single {s : Store} {e : Int ×ₗ String} (hs : s.delayedMessages.entries = [e])
    (now : Int) (batchSize : Nat) :
    selected s now batchSize = if score e ≤ nearestInt now ∧ 1 ≤ batchSize then [e] else [] := by
  by_cases he : score e ≤ nearestInt now
  · cases batchSize with
    | zero => simp [selected, ZSet.rangeByScore]
    | succ k => simp [selected, ZSet.rangeByScore, ZSet.upTo, hs, he]
  · simp [selected, ZSet.rangeByScore, ZSet.upTo, hs, he]

/-- What one dequeue takes and what it leaves. -/
structure DequeueExact : Prop where
  /-- as many entries as are due, up to the batch size -/
  count : (selected s startTimestamp batchSize).length =
    min batchSize (s.delayedMessages.upTo (nearestInt startTimestamp)).length
  due : ∀ e ∈ selected s startTimestamp batchSize,
    e ∈ s.delayedMessages.entries ∧ score e ≤ nearestInt startTimestamp
  /-- the first of the due ones by score and then task id -/
  first : ∀ e ∈ selected s startTimestamp batchSize, ∀ e' ∈ s.delayedMessages.entries,
    score e' ≤ nearestInt startTimestamp → e' ∉ selected s startTimestamp batchSize → e < e'
  payloads : (dequeueScript startTimestamp batchSize s).1.map some =
    (selected s startTimestamp batchSize).map fun e => s.metadata (metadataKey (member e))
  entries : ∀ e, e ∈ (dequeueScript startTimestamp batchSize s).2.delayedMessages.entries ↔
    e ∈ s.delayedMessages.entries ∧ e ∉ selected s startTimestamp batchSize
  taken : ∀ e ∈ selected s startTimestamp batchSize,
    (dequeueScript startTimestamp batchSize s).2.metadata (metadataKey (member e)) = none
  untouched : ∀ key, (∀ e ∈ selected s startTimestamp batchSize, key ≠ metadataKey (member e)) →
    (dequeueScript startTimestamp batchSize s).2.metadata key = s.metadata key

theorem mem_selected_iff {e : Int ×ₗ String} (he : e ∈ s.delayedMessages.entries) :
    member e ∈ (selected s startTimestamp batchSize).map member ↔
      e ∈ selected s startTimestamp batchSize := by
  constructor
  · intro h
    obtain ⟨e', he', heq⟩ := List.mem_map.mp h
    rwa [← s.delayedMessages.unique e' (ZSet.mem_rangeByScore he').1 e he heq]
  · exact List.mem_map_of_mem

/-- One dequeue takes the entries it selects, -/
theorem script_entries (e : Int ×ₗ String) :
    e ∈ (dequeueScript startTimestamp batchSize s).2.delayedMessages.entries ↔
      e ∈ s.delayedMessages.entries ∧ e ∉ selected s startTimestamp batchSize := by
  rw [dequeueScript, claimLoop_run _ (selected_nodup s startTimestamp batchSize),
    ZSet.mem_removeAll]
  constructor
  · rintro ⟨he, hnot⟩
    exact ⟨he, fun hsel => hnot (List.mem_map_of_mem hsel)⟩
  · rintro ⟨he, hnot⟩
    exact ⟨he, fun hsel => hnot ((mem_selected_iff s _ _ he).mp hsel)⟩

/-- with their metadata, -/
theorem script_taken {e : Int ×ₗ String} (he : e ∈ selected s startTimestamp batchSize) :
    (dequeueScript startTimestamp batchSize s).2.metadata (metadataKey (member e)) = none := by
  rw [dequeueScript, claimLoop_run _ (selected_nodup s startTimestamp batchSize)]
  exact if_pos ⟨member e, List.mem_map_of_mem he, rfl⟩

/-- and leaves the metadata of the others. -/
theorem script_untouched {key : String}
    (hkey : ∀ e ∈ selected s startTimestamp batchSize, key ≠ metadataKey (member e)) :
    (dequeueScript startTimestamp batchSize s).2.metadata key = s.metadata key := by
  rw [dequeueScript, claimLoop_run _ (selected_nodup s startTimestamp batchSize)]
  refine if_neg ?_
  rintro ⟨id, hid, rfl⟩
  obtain ⟨e, he, rfl⟩ := List.mem_map.mp hid
  exact hkey e he rfl

theorem selected_due {e : Int ×ₗ String} (he : e ∈ selected s startTimestamp batchSize) :
    e ∈ s.delayedMessages.entries ∧ score e ≤ nearestInt startTimestamp :=
  ZSet.mem_rangeByScore he

/-- A dequeue returns and removes the due entries, lowest score first, up to the batch size. -/
theorem dequeue_exact (h : Corresponds s) : DequeueExact s startTimestamp batchSize := by
  refine ⟨ZSet.rangeByScore_length, fun _ => selected_due s startTimestamp batchSize, ?_, ?_,
    script_entries s startTimestamp batchSize, fun _ => script_taken s startTimestamp batchSize,
    fun _ => script_untouched s startTimestamp batchSize⟩
  · intro e he e' he' hdue hnot
    exact ZSet.rangeByScore_first he (ZSet.mem_upTo.mpr ⟨he', hdue⟩) hnot
  · have hids : ∀ id ∈ (selected s startTimestamp batchSize).map member,
        (s.metadata (metadataKey id)).isSome = true := by
      intro id hid
      obtain ⟨e, he, rfl⟩ := List.mem_map.mp hid
      exact (h.at _).mpr (List.mem_map_of_mem (selected_due s startTimestamp batchSize he).1)
    rw [dequeueScript, claimLoop_run _ (selected_nodup s startTimestamp batchSize),
      filterMap_map_some hids,
      List.map_map]
    rfl

/-- A dequeue keeps both sides in step. -/
theorem dequeue_corresponds (h : Corresponds s) :
    Corresponds (dequeueScript startTimestamp batchSize s).2 := by
  have hx := dequeue_exact s startTimestamp batchSize h
  have hmembers : ∀ id, id ∈ (dequeueScript startTimestamp batchSize s).2.delayedMessages.members ↔
      id ∈ s.delayedMessages.members ∧ id ∉ (selected s startTimestamp batchSize).map member := by
    intro id
    simp only [ZSet.mem_members, hx.entries]
    constructor
    · rintro ⟨d, he, hnot⟩
      refine ⟨⟨d, he⟩, ?_⟩
      intro hsel
      exact hnot ((mem_selected_iff s _ _ he).mp hsel)
    · rintro ⟨⟨d, he⟩, hnot⟩
      exact ⟨d, he, fun hsel => hnot (List.mem_map_of_mem hsel)⟩
  intro key
  by_cases hkey : ∃ e ∈ selected s startTimestamp batchSize, key = metadataKey (member e)
  · obtain ⟨e, he, rfl⟩ := hkey
    rw [hx.taken e he]
    refine iff_of_false (by simp) ?_
    rintro ⟨id, hid, heq⟩
    rw [← metadataKey_injective heq] at hid
    exact ((hmembers _).mp hid).2 (List.mem_map_of_mem he)
  · have hnot : ∀ e ∈ selected s startTimestamp batchSize, key ≠ metadataKey (member e) :=
      fun e he heq => hkey ⟨e, he, heq⟩
    rw [hx.untouched key hnot, h key]
    constructor
    · rintro ⟨id, hid, rfl⟩
      refine ⟨id, (hmembers id).mpr ⟨hid, ?_⟩, rfl⟩
      intro hsel
      obtain ⟨e, he, heq⟩ := List.mem_map.mp hsel
      exact hnot e he (by rw [heq])
    · rintro ⟨id, hid, rfl⟩
      exact ⟨id, ((hmembers id).mp hid).1, rfl⟩

end Dequeue

inductive Op where
  | enqueue (m : DelayedMessageData) (uuid : String)
  | dequeue (startTimestamp : Int) (batchSize : Nat)

/-- What one dequeue claimed. -/
structure Claim where
  startTimestamp : Int
  taskIds : List String
  payloads : List Bytes

def step (codec : Codec) : Op → Store → List Claim × Store
  | .enqueue m uuid, s => ([], (enqueueDelayedMessage codec m uuid s).2)
  | .dequeue startTimestamp batchSize, s =>
    ([⟨startTimestamp, (selected s startTimestamp batchSize).map member,
      (dequeueScript startTimestamp batchSize s).1⟩], (dequeueScript startTimestamp batchSize s).2)

def run (codec : Codec) : List Op → Store → List Claim × Store
  | [], s => ([], s)
  | op :: ops, s =>
    let first := step codec op s
    let rest := run codec ops first.2
    (first.1 ++ rest.1, rest.2)

/-- The start timestamps of the dequeues that claimed a task id. -/
def claimsOf (id : String) (claims : List Claim) : List Int :=
  (claims.filter fun c => decide (id ∈ c.taskIds)).map Claim.startTimestamp

/-- The task id a step may write. -/
def Op.taskId? : Op → Option String
  | .enqueue m uuid => some (taskId m uuid)
  | .dequeue _ _ => none

/-- The uuid a step generates: only where there is no idempotency key, or an empty one. -/
def Op.generated? : Op → Option String
  | .enqueue m uuid =>
    if m.idempotencyKey = none ∨ m.idempotencyKey = some "" then some uuid else none
  | .dequeue _ _ => none

/-- The dispatch time of a step has a double. -/
def Op.Fits : Op → Prop
  | .enqueue m _ => Storable m.dispatchTime
  | .dequeue _ _ => True

/-- Generated uuids are fresh: no other step of the run writes that task id. -/
def FreshUuids (ops : List Op) : Prop :=
  ops.Pairwise fun a b => (∀ id, a.generated? = some id → b.taskId? ≠ some id) ∧
    (∀ id, b.generated? = some id → a.taskId? ≠ some id)

section Runs

variable (codec : Codec)

theorem step_corresponds {op : Op} (hfits : op.Fits) {s : Store} (h : Corresponds s) :
    Corresponds (step codec op s).2 := by
  cases op with
  | enqueue m uuid => exact enqueue_corresponds codec m uuid s hfits h
  | dequeue startTimestamp batchSize => exact dequeue_corresponds s startTimestamp batchSize h

/-- Every run of operations with readable times keeps queue and metadata one-to-one. -/
theorem run_corresponds {ops : List Op} (hfits : ∀ op ∈ ops, op.Fits) {s : Store}
    (h : Corresponds s) :
    Corresponds (run codec ops s).2 := by
  induction ops generalizing s with
  | nil => exact h
  | cons op ops ih =>
    obtain ⟨hfirst, hrest⟩ := List.forall_mem_cons.mp hfits
    exact ih hrest (step_corresponds codec hfirst h)

/-- They are one-to-one in the empty store. -/
theorem empty_corresponds : Corresponds Store.empty := by
  intro key
  simp [Store.empty, ZSet.empty, ZSet.members]

/-- Running two lists of operations is running one and then the other. -/
theorem run_append (first second : List Op) (s : Store) :
    run codec (first ++ second) s =
      ((run codec first s).1 ++ (run codec second (run codec first s).2).1,
        (run codec second (run codec first s).2).2) := by
  induction first generalizing s with
  | nil => simp [run]
  | cons op ops ih => simp [run, ih]

theorem claimsOf_append (id : String) (first second : List Claim) :
    claimsOf id (first ++ second) = claimsOf id first ++ claimsOf id second := by
  simp [claimsOf]

/-- An enqueue leaves the entries of the other task ids, also where it raises, -/
theorem enqueue_entry {m : DelayedMessageData} {uuid : String} {e : Int ×ₗ String} {s : Store}
    (hne : member e ≠ taskId m uuid) :
    e ∈ (enqueueDelayedMessage codec m uuid s).2.delayedMessages.entries ↔
      e ∈ s.delayedMessages.entries := by
  by_cases hfits : Storable m.dispatchTime
  · cases hd : codec.dump m with
    | error err => rw [enqueue_raises codec m uuid s hd]
    | ok serialized =>
      rw [enqueue_run codec m uuid s hd hfits]
      exact ZSet.mem_upsert_other hne
  · rw [(enqueue_refused codec m uuid s hfits).2]

/-- and their metadata. -/
theorem enqueue_metadata_other {m : DelayedMessageData} {uuid id : String} {s : Store}
    (hne : id ≠ taskId m uuid) :
    (enqueueDelayedMessage codec m uuid s).2.metadata (metadataKey id) =
      s.metadata (metadataKey id) := by
  have hkey : metadataKey id ≠ metadataKey (taskId m uuid) :=
    fun heq => hne (metadataKey_injective heq)
  have hset : ∀ serialized,
      (setMetadata m (metadataKey (taskId m uuid)) serialized s).metadata (metadataKey id) =
      s.metadata (metadataKey id) := by
    intro serialized
    unfold setMetadata
    split
    · rfl
    · exact Function.update_of_ne hkey _ _
  cases hd : codec.dump m with
  | error e => rw [enqueue_raises codec m uuid s hd]
  | ok serialized =>
    by_cases hfits : Storable m.dispatchTime
    · rw [enqueue_run codec m uuid s hd hfits]
      exact hset serialized
    · by_cases hwritable : Writable m.dispatchTime
      · rw [enqueue_halfway codec m uuid s hd hwritable hfits, hset serialized]
      · rw [enqueue_unwritable codec m uuid s hd hwritable]

/-- A task id that is not there is not claimed, and only a step that writes it brings it. -/
theorem step_absent {op : Op} {id : String} (hop : op.taskId? ≠ some id) {s : Store}
    (hid : id ∉ s.delayedMessages.members) :
    id ∉ (step codec op s).2.delayedMessages.members ∧ claimsOf id (step codec op s).1 = [] := by
  cases op with
  | enqueue m uuid =>
    refine ⟨?_, rfl⟩
    intro hmem
    obtain ⟨d, hd⟩ := ZSet.mem_members.mp hmem
    have hne : member (toLex (d, id)) ≠ taskId m uuid := fun heq => hop (congrArg some heq.symm)
    exact hid (ZSet.mem_members.mpr ⟨d, (enqueue_entry codec hne).mp hd⟩)
  | dequeue startTimestamp batchSize =>
    constructor
    · intro hmem
      obtain ⟨d, hd⟩ := ZSet.mem_members.mp hmem
      exact hid (ZSet.mem_members.mpr ⟨d, ((script_entries s startTimestamp batchSize _).mp hd).1⟩)
    · have hnot : id ∉ (selected s startTimestamp batchSize).map member := by
        intro hsel
        obtain ⟨e, he, rfl⟩ := List.mem_map.mp hsel
        exact hid (List.mem_map_of_mem (selected_due s startTimestamp batchSize he).1)
      simp [claimsOf, step, hnot]

/-- An entry stays until it is claimed, and it is not claimed before its score. -/
theorem step_present {op : Op} {id : String} (hop : op.taskId? ≠ some id) {s : Store} {d : Int}
    (hid : toLex (d, id) ∈ s.delayedMessages.entries) :
    (toLex (d, id) ∈ (step codec op s).2.delayedMessages.entries ∧
      claimsOf id (step codec op s).1 = []) ∨
    (id ∉ (step codec op s).2.delayedMessages.members ∧
      ∃ t, claimsOf id (step codec op s).1 = [t] ∧ d ≤ nearestInt t) := by
  cases op with
  | enqueue m uuid =>
    have hne : member (toLex (d, id)) ≠ taskId m uuid := fun heq => hop (congrArg some heq.symm)
    exact .inl ⟨(enqueue_entry codec hne).mpr hid, rfl⟩
  | dequeue startTimestamp batchSize =>
    have hsel := mem_selected_iff s startTimestamp batchSize hid
    rw [member_toLex] at hsel
    by_cases hin : toLex (d, id) ∈ selected s startTimestamp batchSize
    · refine .inr ⟨?_, startTimestamp, ?_, (selected_due s startTimestamp batchSize hin).2⟩
      · intro hmem
        obtain ⟨d', hd'⟩ := ZSet.mem_members.mp hmem
        obtain ⟨hold, hnot⟩ := (script_entries s startTimestamp batchSize _).mp hd'
        have hsame := s.delayedMessages.unique _ hold _ hid rfl
        exact hnot (hsame ▸ hin)
      · simp [claimsOf, step, hsel.mpr hin]
    · refine .inl ⟨(script_entries s startTimestamp batchSize _).mpr ⟨hid, hin⟩, ?_⟩
      have hnot : id ∉ (selected s startTimestamp batchSize).map member := fun h => hin (hsel.mp h)
      simp [claimsOf, step, hnot]

/-- A task that no operation enqueues is never stored nor claimed. -/
theorem run_absent {ops : List Op} {id : String}
    (hops : ∀ op ∈ ops, op.taskId? ≠ some id) {s : Store}
    (hid : id ∉ s.delayedMessages.members) :
    id ∉ (run codec ops s).2.delayedMessages.members ∧ claimsOf id (run codec ops s).1 = [] := by
  induction ops generalizing s with
  | nil => exact ⟨hid, rfl⟩
  | cons op ops ih =>
    obtain ⟨habsent, hnone⟩ := step_absent codec (hops op (by simp)) hid
    obtain ⟨hend, hrest⟩ := ih (fun op' hop' => hops op' (by simp [hop'])) habsent
    refine ⟨hend, ?_⟩
    rw [run, claimsOf_append, hnone, hrest]
    rfl

/-- An entry no later step writes is claimed at most once, and never before its score. -/
theorem run_present {ops : List Op} {id : String} (hops : ∀ op ∈ ops, op.taskId? ≠ some id)
    {s : Store} {d : Int}
    (hid : toLex (d, id) ∈ s.delayedMessages.entries) :
    (claimsOf id (run codec ops s).1).length ≤ 1 ∧
      ∀ t ∈ claimsOf id (run codec ops s).1, d ≤ nearestInt t := by
  induction ops generalizing s with
  | nil => simp [run, claimsOf]
  | cons op ops ih =>
    have hlater : ∀ op' ∈ ops, op'.taskId? ≠ some id := fun op' hop' => hops op' (by simp [hop'])
    rw [run, claimsOf_append]
    obtain ⟨hstays, hnone⟩ | ⟨hgone, t, hclaim, hle⟩ := step_present codec (hops op (by simp)) hid
    · rw [hnone]
      exact ih hlater hstays
    · obtain ⟨-, hrest⟩ := run_absent codec hlater hgone
      rw [hclaim, hrest]
      simpa using hle

/-- In a run with fresh uuids, a message without an idempotency key is claimed at most
once, and never at a time with a smaller double than its dispatch time. -/
theorem run_claims_once {ops : List Op} (hfresh : FreshUuids ops) {m : DelayedMessageData}
    {uuid : String}
    (hmem : .enqueue m uuid ∈ ops) (hkey : m.idempotencyKey = none ∨ m.idempotencyKey = some "") :
    (claimsOf uuid (run codec ops Store.empty).1).length ≤ 1 ∧
      ∀ t ∈ claimsOf uuid (run codec ops Store.empty).1,
        nearestInt m.dispatchTime ≤ nearestInt t := by
  obtain ⟨before, after, rfl⟩ := List.append_of_mem hmem
  obtain ⟨-, hrest, hbefore⟩ := List.pairwise_append.mp hfresh
  obtain ⟨hafter, -⟩ := List.pairwise_cons.mp hrest
  have hgen : (Op.enqueue m uuid).generated? = some uuid := by simp [Op.generated?, hkey]
  have hid : taskId m uuid = uuid := by
    unfold taskId orElse
    obtain h | h := hkey <;> simp [h]
  have hfirst : ∀ op ∈ before, op.taskId? ≠ some uuid :=
    fun op hop => (hbefore op hop _ (by simp)).2 uuid hgen
  have hlast : ∀ op ∈ after, op.taskId? ≠ some uuid := fun op hop => (hafter op hop).1 uuid hgen
  have hempty : uuid ∉ Store.empty.delayedMessages.members := by
    simp [Store.empty, ZSet.empty, ZSet.members]
  obtain ⟨habsent, hnone⟩ := run_absent codec hfirst hempty
  rw [run_append, claimsOf_append, hnone, List.nil_append, run, claimsOf_append]
  have hstep : claimsOf uuid
      (step codec (.enqueue m uuid) (run codec before Store.empty).2).1 = [] :=
    rfl
  rw [hstep, List.nil_append]
  have hkept : (step codec (.enqueue m uuid) (run codec before Store.empty).2).2.delayedMessages =
      (run codec before Store.empty).2.delayedMessages →
      claimsOf uuid (run codec after
        (step codec (.enqueue m uuid) (run codec before Store.empty).2).2).1 = [] :=
    fun hsame => (run_absent codec hlast (by rwa [hsame])).2
  by_cases hfits : Storable m.dispatchTime
  · cases hd : codec.dump m with
    | error e =>
      rw [hkept (by rw [step, enqueue_raises codec m uuid _ hd])]
      simp
    | ok serialized =>
      apply run_present codec hlast
      rw [step, enqueue_run codec m uuid _ hd hfits, hid]
      simp [ZSet.upsert_new habsent]
  · rw [hkept (enqueue_refused codec m uuid _ hfits).2]
    simp

/-- Dequeues at late enough times, by workers with any batch sizes. -/
def lateDequeues (late : List (Int × Nat)) : List Op := late.map fun p => .dequeue p.1 p.2

/-- Repeated late dequeues claim every entry exactly once, in order. -/
theorem run_drains {late : List (Int × Nat)} {s : Store}
    (hlate : ∀ p ∈ late, 1 ≤ p.2 ∧ ∀ e ∈ s.delayedMessages.entries, score e ≤ nearestInt p.1)
    (hlen : s.delayedMessages.entries.length ≤ late.length) :
    (run codec (lateDequeues late) s).1.flatMap Claim.taskIds = s.delayedMessages.members ∧
      (run codec (lateDequeues late) s).2.delayedMessages.entries = [] := by
  induction late generalizing s with
  | nil =>
    have hnil : s.delayedMessages.entries = [] := by simpa using hlen
    simp [lateDequeues, run, ZSet.members, hnil]
  | cons p late ih =>
    obtain ⟨t, b⟩ := p
    obtain ⟨hb, hdue⟩ := hlate (t, b) (by simp)
    have hall : s.delayedMessages.upTo (nearestInt t) = s.delayedMessages.entries := by
      rw [ZSet.upTo, List.filter_eq_self]
      intro e he
      simpa using hdue e he
    have hsel : selected s t b = s.delayedMessages.entries.take b := by
      rw [selected, ZSet.rangeByScore, hall]
    have hleft : (dequeueScript t b s).2.delayedMessages.entries =
        s.delayedMessages.entries.drop b := by
      rw [dequeueScript, claimLoop_run _ (selected_nodup s t b)]
      exact ZSet.removeAll_range_late hdue
    obtain ⟨hclaims, hend⟩ := ih (s := (dequeueScript t b s).2)
      (by
        intro p hp
        refine ⟨(hlate p (by simp [hp])).1, ?_⟩
        intro e he
        rw [hleft] at he
        exact (hlate p (by simp [hp])).2 e (List.mem_of_mem_drop he))
      (by
        rw [hleft, List.length_drop]
        simp only [List.length_cons] at hlen
        omega)
    have hrun : run codec (lateDequeues ((t, b) :: late)) s =
        (⟨t, (selected s t b).map member, (dequeueScript t b s).1⟩ ::
          (run codec (lateDequeues late) (dequeueScript t b s).2).1,
          (run codec (lateDequeues late) (dequeueScript t b s).2).2) := rfl
    rw [hrun]
    refine ⟨?_, hend⟩
    rw [List.flatMap_cons, hclaims, hsel, ZSet.members, ZSet.members, hleft, ← List.map_append,
      List.take_append_drop]

end Runs

/-- The store over any run of producers and beat workers whose dispatch times have doubles: sorted
set and metadata correspond one to one; every dequeue takes exactly the first due entries and leaves
the rest; a message without idempotency key is claimed at most once, and not at a time with a
smaller double than its dispatch time; and late dequeues claim every entry exactly once. -/
theorem delayed_store_sound (codec : Codec) (ops : List Op) (hfits : ∀ op ∈ ops, op.Fits)
    (hfresh : FreshUuids ops) :
    Corresponds (run codec ops Store.empty).2 ∧
    (∀ startTimestamp batchSize, 1 ≤ batchSize →
      DequeueExact (run codec ops Store.empty).2 startTimestamp batchSize) ∧
    (∀ m uuid, .enqueue m uuid ∈ ops → (m.idempotencyKey = none ∨ m.idempotencyKey = some "") →
      (claimsOf uuid (run codec ops Store.empty).1).length ≤ 1 ∧
        ∀ t ∈ claimsOf uuid (run codec ops Store.empty).1,
          nearestInt m.dispatchTime ≤ nearestInt t ∧
          (|m.dispatchTime| ≤ 2 ^ 53 → |t| ≤ 2 ^ 53 → m.dispatchTime ≤ t)) ∧
    (∀ late : List (Int × Nat),
      (∀ p ∈ late, 1 ≤ p.2 ∧
        ∀ e ∈ (run codec ops Store.empty).2.delayedMessages.entries, score e ≤ nearestInt p.1) →
      (run codec ops Store.empty).2.delayedMessages.entries.length ≤ late.length →
      (run codec (lateDequeues late) (run codec ops Store.empty).2).1.flatMap Claim.taskIds =
          (run codec ops Store.empty).2.delayedMessages.members ∧
        (run codec ops Store.empty).2.delayedMessages.members.Nodup ∧
        (run codec (lateDequeues late) (run codec ops Store.empty).2).2.delayedMessages.entries =
          []) := by
  have hinv := run_corresponds codec hfits empty_corresponds
  refine ⟨hinv, ?_, ?_, ?_⟩
  · intro startTimestamp batchSize _
    exact dequeue_exact _ startTimestamp batchSize hinv
  · intro m uuid hmem hkey
    obtain ⟨honce, hnever⟩ := run_claims_once codec hfresh hmem hkey
    refine ⟨honce, fun t ht => ⟨hnever t ht, fun hm hsmall => ?_⟩⟩
    have hle := hnever t ht
    rwa [nearestInt_eq hm, nearestInt_eq hsmall] at hle
  · intro late hlate hlen
    obtain ⟨hclaims, hend⟩ := run_drains codec hlate hlen
    exact ⟨hclaims, ZSet.members_nodup _, hend⟩

theorem toList_loop (bytes : ByteArray) (i : Nat) (r : List UInt8) :
    ByteArray.toList.loop bytes i r = r.reverse ++ bytes.data.toList.drop i := by
  fun_induction ByteArray.toList.loop bytes i r with
  | case1 i r hi ih =>
    have hlt : i < bytes.data.toList.length := hi
    have hget : bytes.get! i = bytes.data.toList[i] := getElem!_pos bytes.data i hi
    rw [ih, List.drop_eq_getElem_cons hlt, hget, List.reverse_cons, List.append_assoc,
      List.singleton_append]
  | case2 i r hi =>
    have hle : bytes.data.toList.length ≤ i := Nat.le_of_not_lt hi
    rw [List.drop_eq_nil_of_le hle, List.append_nil]

/-- Texts with the same bytes are the same. -/
theorem utf8_injective : Function.Injective fun s : String => s.toUTF8.toList := by
  intro s t h
  have hlist : s.toUTF8.data.toList = t.toUTF8.data.toList := by
    simpa [ByteArray.toList, toList_loop] using h
  exact String.toByteArray_inj.1 (ByteArray.ext (Array.toList_inj.1 hlist))

/-- Two messages delayed to the same second. -/
def welcome : DelayedMessageData :=
  { messageTopic := "user.welcome", dispatchTime := 60, payload := [] }
def reminder : DelayedMessageData :=
  { messageTopic := "user.reminder", dispatchTime := 60, payload := [] }

/-- The JSON text of a delayed message with an empty payload and no options. -/
def plainJson (m : DelayedMessageData) : String :=
  "\x7b\"message_topic\":\"" ++ m.messageTopic ++
    "\",\"idempotency_key\":null,\"dispatch_time\":" ++
    toString m.dispatchTime ++ ",\"payload\":\"\",\"headers\":null,\"target_queue\":null," ++
    "\"message_id\":null,\"content_type\":null,\"payload_policy\":\"ignore\"," ++
    "\"time_policy\":\"replace\",\"content_encoding\":null\x7d"

def plainCodec : Codec where
  dump m := .ok (plainJson m).toUTF8.toList
  load b := [welcome, reminder].find? fun m => decide ((plainJson m).toUTF8.toList = b)

/-- Two beat workers take turns on a store with two due messages. -/
def twoWorkers : List Op :=
  [.enqueue welcome "a", .enqueue reminder "b", .dequeue 60 1, .dequeue 61 1]

/-- Two workers dequeue, and one of them claims. -/
theorem twoWorkers_claim_once : FreshUuids twoWorkers ∧
    (claimsOf "b" (run plainCodec twoWorkers Store.empty).1).length ≤ 1 := by
  have hfresh : FreshUuids twoWorkers := by
    simp [FreshUuids, twoWorkers, Op.generated?, Op.taskId?, welcome, reminder, taskId, orElse]
  have hfits : ∀ op ∈ twoWorkers, op.Fits := by
    simp only [twoWorkers, List.forall_mem_cons, Op.Fits, List.not_mem_nil, false_imp_iff,
      implies_true, and_true]
    exact ⟨storable_small (by decide), storable_small (by decide)⟩
  exact ⟨hfresh, ((delayed_store_sound plainCodec twoWorkers hfits hfresh).2.2.1 reminder "b"
    (by simp [twoWorkers]) (.inl rfl)).1⟩

/-- Messages for a second that is no double, and for one that has none. -/
def distant : DelayedMessageData := { welcome with dispatchTime := 2 ^ 53 + 1 }
def endless : DelayedMessageData := { welcome with dispatchTime := 10 ^ 309 }

/-- The first is claimed a second early; the second leaves metadata without an entry. -/
theorem distant_claimed_early :
    claimsOf "a" (run plainCodec [.enqueue distant "a", .dequeue (2 ^ 53) 1] Store.empty).1 =
      [2 ^ 53] ∧
      ¬distant.dispatchTime ≤ 2 ^ 53 ∧
    ¬Corresponds (run plainCodec [.enqueue endless "a"] Store.empty).2 := by
  have hrefused :
      ¬Storable endless.dispatchTime ∧ Writable endless.dispatchTime := by decide +kernel
  refine ⟨by decide +kernel, by decide, fun h => ?_⟩
  have hmembers :
      "a" ∉ (run plainCodec [.enqueue endless "a"] Store.empty).2.delayedMessages.members := by
    rw [run, step, run, (enqueue_refused plainCodec endless "a" Store.empty hrefused.1).2]
    simp [Store.empty, ZSet.empty, ZSet.members]
  refine hmembers ((h.at "a").mp ?_)
  rw [run, step, run, enqueue_halfway plainCodec endless "a" Store.empty rfl hrefused.2 hrefused.1,
    setMetadata_isSome]
  exact .inl rfl

end DelayedStore
