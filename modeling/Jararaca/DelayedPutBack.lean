import Jararaca.DelayedDispatch

/-!
# Putting back under an idempotency key

A failed dispatch is put back by an ordinary enqueue: under an idempotency key it is
merged into whatever producers have enqueued since the claim, by the policies of the older
message. What the producers' enqueues determine is a fold over them; the record of who
touched a task id since a claim says what has to be folded.
-/
namespace DelayedPutBack

open Messages SortedSets DelayedStore DelayedDispatch Doubles

/-- The payload and the dispatch time under a task id. -/
def pendingData (s : Store) (id : String) : Option (Bytes × Int) := do
  let payload ← s.metadata (metadataKey id)
  let dispatchTime ← s.delayedMessages.score? id
  return (payload, dispatchTime)

/-- The payload an enqueue leaves where there is one. -/
def mergedPayload (m : DelayedMessageData) (first payload : Bytes) : Bytes :=
  if isIdempotent m && m.payloadPolicy == .ignore then first else payload

/-- What one enqueue makes of the payload and the dispatch time under its task id. The time
is a score, and so the nearest double. -/
def merged (codec : Codec) (old : Option (Bytes × Int)) (m : DelayedMessageData) :
    Option (Bytes × Int) :=
  match codec.dump m, old with
  | .error _, old => old
  | .ok payload, none => some (payload, nearestInt m.dispatchTime)
  | .ok payload, some (first, time) =>
    some (mergedPayload m first payload,
      (zaddOption m).leaves (some time) (nearestInt m.dispatchTime))

/-- Merging with a stored message: the payload and the time by the policies of the new one. -/
theorem merged_some {codec : Codec} {m : DelayedMessageData} {payload : Bytes}
    (hdump : codec.dump m = .ok payload) (first : Bytes) (time : Int) :
    merged codec (some (first, time)) m =
      some (mergedPayload m first payload,
        (zaddOption m).leaves (some time) (nearestInt m.dispatchTime)) := by
  simp [merged, hdump]

/-- What enqueues in a row determine, where nothing was pending before them. -/
def determined (codec : Codec) (ms : List DelayedMessageData) : Option (Bytes × Int) :=
  ms.foldl (merged codec) none

theorem determined_snoc (codec : Codec) (ms : List DelayedMessageData) (m : DelayedMessageData) :
    determined codec (ms ++ [m]) = merged codec (determined codec ms) m := by
  simp [determined]

def message? : Touch → Option DelayedMessageData
  | .produced m => some m
  | .claimed | .putBack => none

section Stores

variable {codec : Codec} {m : DelayedMessageData} {payload : Bytes} {uuid : String} {s : Store}

theorem pendingData_none {id : String} (hs : CorrespondsAt s id)
    (h : id ∉ s.delayedMessages.members) :
    s.metadata (metadataKey id) = none ∧ s.delayedMessages.score? id = none := by
  constructor
  · rw [← Option.not_isSome_iff_eq_none]
    exact fun hsome => h (hs.mp hsome)
  · cases hscore : s.delayedMessages.score? id with
    | none => rfl
    | some d => exact absurd (ZSet.mem_members.mpr ⟨d, ZSet.score?_eq_some.mp hscore⟩) h

theorem pendingData_some {id : String} (hs : CorrespondsAt s id)
    (h : id ∈ s.delayedMessages.members) :
    ∃ first time, s.metadata (metadataKey id) = some first ∧
      s.delayedMessages.score? id = some time := by
  obtain ⟨first, hfirst⟩ := Option.isSome_iff_exists.mp (hs.mpr h)
  obtain ⟨time, htime⟩ := ZSet.mem_members.mp h
  exact ⟨first, time, hfirst, ZSet.score?_eq_some.mpr htime⟩

/-- An enqueue merges into what is pending under its task id. -/
theorem pendingData_enqueue (hs : CorrespondsAt s (taskId m uuid))
    (hdump : codec.dump m = .ok payload)
    (hfits : Storable m.dispatchTime) :
    pendingData (enqueueDelayedMessage codec m uuid s).2 (taskId m uuid) =
      merged codec (pendingData s (taskId m uuid)) m := by
  have hmeta := enqueue_metadata_same codec uuid s hdump hfits
  have hscore : (enqueueDelayedMessage codec m uuid s).2.delayedMessages.score? (taskId m uuid) =
      some ((zaddOption m).leaves (s.delayedMessages.score? (taskId m uuid))
        (nearestInt m.dispatchTime)) := by
    rw [enqueue_zset codec uuid s hdump hfits, ZSet.score?_upsert]
  by_cases hin : taskId m uuid ∈ s.delayedMessages.members
  · obtain ⟨first, time, hfirst, htime⟩ := pendingData_some hs hin
    rw [keepsPayload, hfirst, Option.isSome_some, Bool.and_true] at hmeta
    rw [htime] at hscore
    simp only [pendingData, hmeta, hscore, hfirst, htime, merged, hdump, mergedPayload]
    split <;> rfl
  · obtain ⟨hfirst, htime⟩ := pendingData_none hs hin
    rw [keepsPayload, hfirst, Option.isSome_none, Bool.and_false] at hmeta
    rw [htime] at hscore
    simp [pendingData, hmeta, hscore, hfirst, htime, merged, hdump, Update.leaves]

variable (codec) in
theorem score?_enqueue_other {id : String} (hne : id ≠ taskId m uuid) :
    (enqueueDelayedMessage codec m uuid s).2.delayedMessages.score? id =
      s.delayedMessages.score? id := by
  ext d
  rw [ZSet.score?_eq_some, ZSet.score?_eq_some]
  exact enqueue_entry codec (e := toLex (d, id)) hne

variable (codec) in
theorem pendingData_enqueue_other {id : String} (hne : id ≠ taskId m uuid) :
    pendingData (enqueueDelayedMessage codec m uuid s).2 id = pendingData s id := by
  unfold pendingData
  rw [enqueue_metadata_other codec hne, score?_enqueue_other codec hne]

variable (codec) in
theorem pendingData_claimed {now : Int} {batchSize : Nat} {id : String}
    (h : id ∈ (selected s now batchSize).map member) :
    pendingData (dequeueNextDelayedMessages codec now batchSize s).2 id = none := by
  obtain ⟨e, he, rfl⟩ := List.mem_map.mp h
  have hmeta : (dequeueNextDelayedMessages codec now batchSize s).2.metadata
      (metadataKey (member e)) = none :=
    script_taken s now batchSize he
  unfold pendingData
  rw [hmeta]
  rfl

variable (codec) in
theorem pendingData_unclaimed {now : Int} {batchSize : Nat} {id : String}
    (h : id ∉ (selected s now batchSize).map member) :
    pendingData (dequeueNextDelayedMessages codec now batchSize s).2 id = pendingData s id := by
  have hscore : (dequeueNextDelayedMessages codec now batchSize s).2.delayedMessages.score? id =
      s.delayedMessages.score? id := by
    ext d
    simp only [ZSet.score?_eq_some, dequeue_entries codec, member_toLex]
    exact and_iff_left h
  unfold pendingData
  rw [dequeue_metadata codec h, hscore]

end Stores

variable {ω : Type}

/-- What was done under the task id of a claimed message since its claim. -/
def since (s : System ω) (c : Claimed) : List Touch := (s.touches c.taskId).drop c.seen

/-- The producers' messages among it. -/
def newer (s : System ω) (c : Claimed) : List DelayedMessageData := (since s c).filterMap message?

/-- Since the claim only producers have touched the task id: no other claim, no other put-back. -/
def OnlyProducers (s : System ω) (c : Claimed) : Prop := ∀ x ∈ since s c, (message? x).isSome = true

/-- The stored payload, if it parses at all, is the message that was enqueued. -/
def ReadsBack (codec : Codec) : Act ω → Prop
  | .produces m _ => Reads m
  | .putsBack _ c time _ => Reads (requeued c.message time)
  | _ => True
where
  Reads (m : DelayedMessageData) : Prop :=
    ∀ payload m', codec.dump m = .ok payload → codec.load payload = some m' → m' = m

/-- The runs in which payloads read back as they were written. -/
def FaithfulRuns [DecidableEq ω] (codec : Codec) : System ω → System ω → Prop :=
  Runs codec fun _ a => ReadsBack codec a

/-- Payloads belong to their task ids, and what is pending under a claimed task id that
only producers have touched since is what they determine. -/
structure Tracked (codec : Codec) (s : System ω) : Prop where
  corresponds : Corresponds s.store
  written : ∀ id, ∀ x ∈ s.touches id, ∀ m, message? x = some m →
    ∃ payload, codec.dump m = .ok payload
  filed : ∀ id payload m, s.store.metadata (metadataKey id) = some payload →
    codec.load payload = some m → ∃ uuid, taskId m uuid = id
  seen : ∀ w, ∀ c ∈ (s.workers w).pc.hand,
    (∃ uuid, taskId c.message uuid = c.taskId) ∧ c.seen ≤ (s.touches c.taskId).length
  pending : ∀ w, ∀ c ∈ (s.workers w).pc.hand, OnlyProducers s c →
    pendingData s.store c.taskId = determined codec (newer s c)

section Steps

variable {codec : Codec} {s s' : System ω}

theorem since_touched {c : Claimed} (hseen : c.seen ≤ (s.touches c.taskId).length) {x : Touch}
    (htouches : s'.touches c.taskId = s.touches c.taskId ++ [x]) :
    since s' c = since s c ++ [x] := by
  rw [since, since, htouches, List.drop_append_of_le_length hseen]

theorem since_untouched {c : Claimed} (htouches : s'.touches c.taskId = s.touches c.taskId) :
    since s' c = since s c := by
  rw [since, since, htouches]

section Enqueue

variable {m : DelayedMessageData} {uuid : String} {payload : Bytes} {x : Touch}

/-- The payloads among the touches could be written, also after an enqueue. -/
theorem Tracked.enqueue_written (ht : Tracked codec s) (hdump : codec.dump m = .ok payload)
    (hx : message? x = some m ∨ message? x = none) {id : String} {y : Touch}
    (hy : y ∈ Function.update s.touches (taskId m uuid) (s.touches (taskId m uuid) ++ [x]) id)
    {m' : DelayedMessageData} (hm' : message? y = some m') :
    ∃ payload, codec.dump m' = .ok payload := by
  by_cases hid : id = taskId m uuid
  · subst hid
    rw [Function.update_self] at hy
    obtain hy | hy := List.mem_append.mp hy
    · exact ht.written _ y hy m' hm'
    · rw [List.mem_singleton.mp hy] at hm'
      obtain h | h := hx
      · rw [h] at hm'
        cases hm'
        exact ⟨payload, hdump⟩
      · rw [h] at hm'
        cases hm'
  · rw [Function.update_of_ne hid] at hy
    exact ht.written id y hy m' hm'

theorem Tracked.enqueue_filed (ht : Tracked codec s) (hdump : codec.dump m = .ok payload)
    (hfits : Storable m.dispatchTime) (hreads : ReadsBack.Reads codec m) {id : String}
    {payload' : Bytes} {m' : DelayedMessageData}
    (hmeta : (enqueueDelayedMessage codec m uuid s.store).2.metadata (metadataKey id) =
      some payload')
    (hload : codec.load payload' = some m') : ∃ uuid, taskId m' uuid = id := by
  by_cases hid : id = taskId m uuid
  · subst hid
    rw [enqueue_metadata_same codec uuid s.store hdump hfits] at hmeta
    split at hmeta
    · exact ht.filed _ payload' m' hmeta hload
    · cases hmeta
      exact ⟨uuid, by rw [hreads payload m' hdump hload]⟩
  · rw [enqueue_metadata_other codec hid] at hmeta
    exact ht.filed id payload' m' hmeta hload

/-- What is pending under the task id of an enqueue that only producers touched. -/
theorem Tracked.enqueue_pending (ht : Tracked codec s) (hdump : codec.dump m = .ok payload)
    (hfits : Storable m.dispatchTime) (hx : message? x = some m ∨ message? x = none) {w : ω}
    {c : Claimed}
    (hc : c ∈ (s.workers w).pc.hand) (hid : c.taskId = taskId m uuid)
    (hsince : since s' c = since s c ++ [x])
    (honly : OnlyProducers s' c) :
    pendingData (enqueueDelayedMessage codec m uuid s.store).2 c.taskId =
      determined codec (newer s' c) := by
  rw [OnlyProducers, hsince] at honly
  have honly' : OnlyProducers s c := fun y hy => honly y (List.mem_append_left _ hy)
  have hmessage : message? x = some m := by
    obtain h | h := hx
    · exact h
    · have hsome := honly x (List.mem_append_right _ (List.mem_singleton_self x))
      simp [h] at hsome
  have hnewer : newer s' c = newer s c ++ [m] := by
    rw [newer, newer, hsince, List.filterMap_append]
    simp [hmessage]
  rw [hid, pendingData_enqueue (ht.corresponds.at _) hdump hfits, ← hid,
    ht.pending w c hc honly', hnewer,
    determined_snoc]

/-- An enqueue under some task id, by a producer or by a put-back; the workers may let go
of messages meanwhile. -/
theorem Tracked.enqueue (ht : Tracked codec s) (hdump : codec.dump m = .ok payload)
    (hfits : Storable m.dispatchTime) (hreads : ReadsBack.Reads codec m)
    (hx : message? x = some m ∨ message? x = none)
    (hstore : s'.store = (enqueueDelayedMessage codec m uuid s.store).2)
    (htouches : s'.touches = Function.update s.touches (taskId m uuid)
      (s.touches (taskId m uuid) ++ [x]))
    (hhand : ∀ w, ∀ c ∈ (s'.workers w).pc.hand, c ∈ (s.workers w).pc.hand) : Tracked codec s' := by
  have hown : ∀ c : Claimed, c.taskId = taskId m uuid →
      s'.touches c.taskId = s.touches c.taskId ++ [x] := by
    intro c hc
    rw [htouches, hc, Function.update_self]
  have hother : ∀ c : Claimed, c.taskId ≠ taskId m uuid →
      s'.touches c.taskId = s.touches c.taskId := by
    intro c hc
    rw [htouches, Function.update_of_ne hc]
  refine ⟨?_, ?_, ?_, ?_, ?_⟩
  · rw [hstore]
    exact enqueue_corresponds codec m uuid s.store hfits ht.corresponds
  · intro id y hy m' hm'
    rw [htouches] at hy
    exact ht.enqueue_written hdump hx hy hm'
  · intro id payload' m' hmeta hload
    rw [hstore] at hmeta
    exact ht.enqueue_filed hdump hfits hreads hmeta hload
  · intro w c hc
    obtain ⟨hid, hseen⟩ := ht.seen w c (hhand w c hc)
    refine ⟨hid, ?_⟩
    by_cases hc' : c.taskId = taskId m uuid
    · rw [hown c hc', List.length_append]
      omega
    · rwa [hother c hc']
  · intro w c hc honly
    have hc₀ := hhand w c hc
    rw [hstore]
    by_cases hc' : c.taskId = taskId m uuid
    · exact ht.enqueue_pending hdump hfits hx hc₀ hc'
        (since_touched (ht.seen w c hc₀).2 (hown c hc')) honly
    · have hsince : since s' c = since s c := since_untouched (hother c hc')
      rw [OnlyProducers, hsince] at honly
      rw [pendingData_enqueue_other codec hc', ht.pending w c hc₀ honly, newer, newer, hsince]

end Enqueue

/-- A step that leaves the backend alone; the workers may let go of messages. -/
theorem Tracked.frame (ht : Tracked codec s) (hstore : s'.store = s.store)
    (htouches : s'.touches = s.touches)
    (hhand : ∀ w, ∀ c ∈ (s'.workers w).pc.hand, c ∈ (s.workers w).pc.hand) : Tracked codec s' := by
  have hsince : ∀ c, since s' c = since s c := fun c => since_untouched (by rw [htouches])
  refine ⟨?_, ?_, ?_, ?_, ?_⟩
  · rw [hstore]
    exact ht.corresponds
  · rw [htouches]
    exact ht.written
  · rw [hstore]
    exact ht.filed
  · intro w c hc
    rw [htouches]
    exact ht.seen w c (hhand w c hc)
  · intro w c hc honly
    rw [OnlyProducers, hsince] at honly
    rw [hstore, newer, hsince]
    exact ht.pending w c (hhand w c hc) honly

/-- What a batch takes is stored under the id of its message, and its claim is the next touch. -/
theorem Tracked.batch (ht : Tracked codec s) {now : Int} {batchSize : Nat} {c : Claimed}
    (hc : c ∈ s.batch codec now batchSize) :
    c.taskId ∈ (selected s.store now batchSize).map member ∧
      (∃ uuid, taskId c.message uuid = c.taskId) ∧ c.seen = (s.touches c.taskId).length + 1 := by
  obtain ⟨id, hid, hitem⟩ := List.mem_filterMap.mp hc
  obtain ⟨rfl, -, hseen, payload, hmeta, hload⟩ := item_eq_some hitem
  exact ⟨hid, ht.filed _ payload _ hmeta hload, hseen⟩

/-- A claimed payload was filed under the id of its own message. -/
theorem Tracked.claim_filed (ht : Tracked codec s) {now : Int} {batchSize : Nat} {id : String}
    {payload : Bytes} {m : DelayedMessageData}
    (hmeta : (dequeueNextDelayedMessages codec now batchSize s.store).2.metadata (metadataKey id) =
      some payload)
    (hload : codec.load payload = some m) : ∃ uuid, taskId m uuid = id := by
  by_cases hid : id ∈ (selected s.store now batchSize).map member
  · have hnone := pendingData_none (s := (dequeueNextDelayedMessages codec now batchSize s.store).2)
      ((dequeue_corresponds s.store now batchSize ht.corresponds).at id)
      (fun hin => ((dequeue_members codec).mp hin).2 hid)
    rw [hnone.1] at hmeta
    cases hmeta
  · exact ht.filed id payload m ((dequeue_metadata codec hid).symm.trans hmeta) hload

variable [DecidableEq ω]

section Claim

variable (codec) (w : ω) (now : Int) (batchSize : Nat)

theorem claim_hand {v : ω} {c : Claimed}
    (hc : c ∈ ((s.claim codec w now batchSize).workers v).pc.hand) :
    c ∈ s.batch codec now batchSize ∨ c ∈ (s.workers v).pc.hand := by
  by_cases hv : v = w
  · subst hv
    rw [claim_pc] at hc
    exact .inl hc
  · simp only [System.claim, Function.update_of_ne hv] at hc
    exact .inr hc

theorem claim_touches (id : String) : (s.claim codec w now batchSize).touches id =
    if id ∈ (selected s.store now batchSize).map member then s.touches id ++ [.claimed]
    else s.touches id := rfl

variable {codec}

/-- A claim: the new batch has seen everything, and whoever held the same task id sees that
it was claimed. -/
theorem Tracked.claim (ht : Tracked codec s) : Tracked codec (s.claim codec w now batchSize) := by
  refine ⟨dequeue_corresponds s.store now batchSize ht.corresponds, ?_, ?_, ?_, ?_⟩
  · intro id x hx m hm
    rw [claim_touches] at hx
    split at hx
    · obtain hx | hx := List.mem_append.mp hx
      · exact ht.written id x hx m hm
      · rw [List.mem_singleton.mp hx] at hm
        cases hm
    · exact ht.written id x hx m hm
  · intro id payload m hmeta hload
    exact ht.claim_filed hmeta hload
  · intro v c hc
    obtain hnew | hold := claim_hand codec w now batchSize hc
    · obtain ⟨hsel, hid, hseen⟩ := ht.batch hnew
      refine ⟨hid, ?_⟩
      rw [claim_touches, if_pos hsel, List.length_append, hseen]
      exact le_refl _
    · obtain ⟨hid, hseen⟩ := ht.seen v c hold
      refine ⟨hid, ?_⟩
      rw [claim_touches]
      split
      · rw [List.length_append]
        omega
      · exact hseen
  · intro v c hc honly
    obtain hnew | hold := claim_hand codec w now batchSize hc
    · obtain ⟨hsel, -, hseen⟩ := ht.batch hnew
      have hsince : since (s.claim codec w now batchSize) c = [] := by
        rw [since, claim_touches, if_pos hsel, List.drop_eq_nil_iff, List.length_append, hseen]
        exact le_refl _
      rw [newer, hsince]
      exact pendingData_claimed codec hsel
    · by_cases hsel : c.taskId ∈ (selected s.store now batchSize).map member
      · have hsince : since (s.claim codec w now batchSize) c = since s c ++ [.claimed] :=
          since_touched (ht.seen v c hold).2 (by rw [claim_touches, if_pos hsel])
        have hclaimed := honly .claimed (by rw [hsince]; simp)
        cases hclaimed
      · have hsince : since (s.claim codec w now batchSize) c = since s c :=
          since_untouched (by rw [claim_touches, if_neg hsel])
        rw [OnlyProducers, hsince] at honly
        rw [newer, hsince]
        exact (pendingData_unclaimed codec hsel).trans (ht.pending v c hold honly)

end Claim

/-- The hands after a worker went on to `pc`. -/
theorem hand_goto {w v : ω} {pc : Pc} (hsub : ∀ c ∈ pc.hand, c ∈ (s.workers w).pc.hand)
    {c : Claimed}
    (hc : c ∈ ((s.goto w pc).workers v).pc.hand) : c ∈ (s.workers v).pc.hand := by
  rw [goto_pc] at hc
  split at hc
  · rename_i hv
    rw [hv]
    exact hsub c hc
  · exact hc

/-- Shutting a worker down leaves the touches alone. -/
theorem Tracked.shutdown (ht : Tracked codec s) (w : ω) : Tracked codec (s.shutdown w) :=
  ht.frame rfl rfl fun v c hc => by rwa [shutdown_pc] at hc

/-- Every step keeps what is pending determined by the producers. -/
theorem step_tracked {a : Act ω} (hstep : Step codec a s s') (hreads : ReadsBack codec a)
    (ht : Tracked codec s) : Tracked codec s' := by
  cases hstep with
  | produces hdump hfits hfresh =>
    exact ht.enqueue hdump hfits hreads (.inl rfl) rfl rfl fun _ _ hc => hc
  | refused m => exact ht
  | begins time hreading h hopen =>
    exact ht.frame rfl rfl fun _ _ hc => hand_goto (by simp [Pc.hand]) hc
  | claims batchSize h => exact ht.claim _ _ batchSize
  | misses h => exact ht.frame rfl rfl fun _ _ hc => hand_goto (by simp) hc
  | publishes h =>
    refine ht.frame rfl rfl fun v c hc => ?_
    change c ∈ ((s.goto _ (.dispatching _)).workers v).pc.hand at hc
    exact hand_goto (by rw [h]; exact fun c hc => List.mem_cons_of_mem _ hc) hc
  | fails time stops h =>
    have hfailed : Tracked codec (s.goto _ (.failed _ time _)) :=
      ht.frame rfl rfl fun _ _ hc => hand_goto (by rw [h]; exact fun c hc => hc) hc
    cases stops with
    | false => exact hfailed
    | true => exact hfailed.shutdown _
  | putsBack time uuid h hreading hclock hdump hfresh =>
    refine ht.enqueue hdump (hreading.storable _) hreads (.inr rfl) rfl rfl fun v c hc => ?_
    exact hand_goto (by rw [h]; exact fun c hc => List.mem_cons_of_mem _ hc) hc
  | loses h =>
    refine ht.frame rfl rfl fun v c hc => ?_
    exact hand_goto (by rw [h]; exact fun c hc => List.mem_cons_of_mem _ hc) hc
  | ends h => exact ht.frame rfl rfl fun _ _ hc => hand_goto (by simp [Pc.hand]) hc
  | shutsDown w => exact ht.shutdown w

/-- So it is in every faithful run. -/
theorem run_tracked (hrun : FaithfulRuns codec System.start s) : Tracked codec s := by
  induction hrun with
  | refl =>
    refine ⟨empty_corresponds, ?_, ?_, ?_, ?_⟩ <;>
      simp [System.start, Pc.hand, Store.empty]
  | tail _ hstep ih =>
    obtain ⟨a, hstep, hreads⟩ := hstep
    exact step_tracked hstep hreads ih

end Steps

/-- The time policy leaves the pending time as it is. -/
def LeavesTime (policy : TimePolicy) (time new : Int) : Prop :=
  match policy with
  | .replace => new = time
  | .greater => new ≤ time
  | .lesser => time ≤ new

/-- The policies of an older message leave what is pending under its key: the first
payload stays or is the same, and the time does not move. -/
def LeavesPending (codec : Codec) (m : DelayedMessageData)
    (pending : Option (Bytes × Int)) : Prop :=
  ∀ payload time, pending = some (payload, time) →
    (m.payloadPolicy = .ignore ∨ codec.dump m = .ok payload) ∧
      LeavesTime m.timePolicy time (nearestInt m.dispatchTime)

/-- A put-back with nothing newer to overwrite, or one that overwrites nothing. -/
def Harmless (codec : Codec) (s : System ω) (c : Claimed) (time : ℚ) : Prop :=
  newer s c = [] ∨
    (OnlyProducers s c ∧ LeavesPending codec (requeued c.message time)
      (pendingData s.store c.taskId))

/-- What producers enqueued for the key since the claim is what is pending. -/
def KeepsNewer (codec : Codec) (s : System ω) (c : Claimed) (s' : System ω) : Prop :=
  newer s c ≠ [] → pendingData s'.store c.taskId = determined codec (newer s c)

section PutBack

variable {codec : Codec} {m : DelayedMessageData}

theorem idempotent_of_keyed (hkey : ¬Unkeyed m) : isIdempotent m = true := by
  cases hk : m.idempotencyKey with
  | none => exact absurd (.inl hk) hkey
  | some key => simp [isIdempotent, hk]

theorem leaves_eq_iff (hkey : ¬Unkeyed m) {time : Int} :
    (zaddOption m).leaves (some time) (nearestInt m.dispatchTime) = time ↔
      LeavesTime m.timePolicy time (nearestInt m.dispatchTime) := by
  rw [zaddOption, if_pos (idempotent_of_keyed hkey)]
  cases m.timePolicy with
  | replace => rfl
  | greater => exact max_eq_left_iff
  | lesser => exact min_eq_left_iff

/-- A merge changes nothing exactly when the policies leave the pending message as it is. -/
theorem merged_eq_iff (hkey : ¬Unkeyed m) {payload : Bytes} (hdump : codec.dump m = .ok payload)
    {first : Bytes} {time : Int} : merged codec (some (first, time)) m = some (first, time) ↔
      LeavesPending codec m (some (first, time)) := by
  have hidempotent := idempotent_of_keyed hkey
  have hpayload : mergedPayload m first payload = first ↔
      m.payloadPolicy = .ignore ∨ codec.dump m = .ok first := by
    rw [mergedPayload, hidempotent, Bool.true_and, hdump]
    cases m.payloadPolicy with
    | ignore => simp
    | replace => simp
  rw [merged_some hdump, Option.some.injEq, Prod.mk.injEq, hpayload, leaves_eq_iff hkey]
  constructor
  · intro h first' time' heq
    cases heq
    exact h
  · intro h
    exact h first time rfl

/-- The id of a message with a key does not depend on the random part. -/
theorem taskId_keyed (hkey : ¬Unkeyed m) (uuid uuid' : String) :
    taskId m uuid = taskId m uuid' := by
  unfold taskId orElse
  cases hk : m.idempotencyKey with
  | none => exact absurd (.inl hk) hkey
  | some key =>
    have hne : key ≠ "" := by
      rintro rfl
      exact hkey (.inr hk)
    simp [hne]

/-- Something is pending once a producer has enqueued. -/
theorem determined_some {ms : List DelayedMessageData} (hms : ms ≠ [])
    (hwritten : ∀ m ∈ ms, ∃ payload, codec.dump m = .ok payload) :
    ∃ first time, determined codec ms = some (first, time) := by
  obtain ⟨before, last, rfl⟩ := (List.eq_nil_or_concat' ms).resolve_left hms
  obtain ⟨payload, hdump⟩ := hwritten last (by simp)
  rw [determined_snoc]
  cases determined codec before with
  | none => exact ⟨payload, nearestInt last.dispatchTime, by simp [merged, hdump]⟩
  | some old =>
    exact ⟨mergedPayload last old.1 payload,
      (zaddOption last).leaves (some old.2) (nearestInt last.dispatchTime),
      merged_some hdump _ _⟩

end PutBack

variable [DecidableEq ω]

/-- The put-back of a message with a key, in any run of beat workers and producers: it keeps
what the producers' enqueues since the claim determine wherever there are none, or only
producers have touched the key since and the policies of the older message leave what is
pending. Where only producers have touched the key, this is exactly when it keeps it. -/
theorem put_back_keeps_newer {codec : Codec} {s s' : System ω}
    (hrun : FaithfulRuns codec System.start s)
    {w : ω} {c : Claimed} {time : ℚ} {uuid : String}
    (hstep : Step codec (.putsBack w c time uuid) s s')
    (hkey : ¬Unkeyed c.message) :
    (Harmless codec s c time → KeepsNewer codec s c s') ∧
      (OnlyProducers s c → (KeepsNewer codec s c s' ↔ Harmless codec s c time)) := by
  have ht := run_tracked hrun
  cases hstep with
  | putsBack _ _ h hreading hclock hdump hfresh =>
    rename_i failure rest payload
    have hc : c ∈ (s.workers w).pc.hand := by
      rw [h]
      exact List.mem_cons_self
    obtain ⟨uuid', hid⟩ := (ht.seen w c hc).1
    have hown : taskId (requeued c.message time) uuid = c.taskId :=
      (taskId_keyed hkey uuid uuid').trans hid
    have hafter : pendingData (s.putBack codec w c failure time rest uuid).store c.taskId =
        merged codec (pendingData s.store c.taskId) (requeued c.message time) := by
      rw [← hown]
      exact pendingData_enqueue (ht.corresponds.at _) hdump (hreading.storable c.message)
    -- where only producers have touched the key, it keeps what is pending exactly if the policies
    -- leave it
    have hexact : OnlyProducers s c → newer s c ≠ [] →
        (pendingData (s.putBack codec w c failure time rest uuid).store c.taskId =
            determined codec (newer s c) ↔
          LeavesPending codec (requeued c.message time) (pendingData s.store c.taskId)) := by
      intro honly hnewer
      have hwritten : ∀ m ∈ newer s c, ∃ payload, codec.dump m = .ok payload := by
        intro m hm
        obtain ⟨x, hx, hxm⟩ := List.mem_filterMap.mp hm
        exact ht.written c.taskId x (List.mem_of_mem_drop hx) m hxm
      obtain ⟨first, d, hdetermined⟩ := determined_some hnewer hwritten
      have hpending := ht.pending w c hc honly
      rw [hafter, hpending, hdetermined]
      exact merged_eq_iff (m := requeued c.message time) hkey hdump
    constructor
    · rintro (hnone | ⟨honly, hleaves⟩) hnewer
      · exact absurd hnone hnewer
      · exact (hexact honly hnewer).mpr hleaves
    · intro honly
      by_cases hnewer : newer s c = []
      · exact iff_of_true (fun hne => absurd hnewer hne) (.inl hnewer)
      · rw [KeepsNewer, Harmless, hexact honly hnewer]
        simp [hnewer, honly]

/-- A worker has claimed `old` and failed to dispatch it; meanwhile a producer has enqueued
`new` for the same key. -/
def overtaken (codec : Codec) (old new : DelayedMessageData) (uuid : String) (w : ω) : System ω :=
  ((firstClaim codec old uuid w).goto w
    (.failed (firstClaimed old uuid) old.dispatchTime [])).produce
    codec new uuid

section Overtaken

variable {codec : Codec} {old new : DelayedMessageData} {payload payload' : Bytes}
  {uuid : String} (w : ω)

theorem overtaken_pc : ((overtaken codec old new uuid w).workers w).pc =
    .failed (firstClaimed old uuid) old.dispatchTime [] := by
  change (((firstClaim codec old uuid w).goto w _).workers w).pc = _
  rw [goto_pc, if_pos rfl]

variable (hold : codec.dump old = .ok payload) (hreading : Reading (old.dispatchTime : ℚ))
  (hsame : taskId new uuid = taskId old uuid)
include hold hreading hsame

theorem overtaken_since :
    since (overtaken codec old new uuid w) (firstClaimed old uuid) = [.produced new] := by
  have htouches : (overtaken codec old new uuid w).touches (taskId old uuid) =
      (firstClaim codec old uuid w).touches (taskId old uuid) ++ [.produced new] := by
    simp [overtaken, System.produce, System.enqueue, System.goto, hsame]
  rw [firstClaim_touches hold hreading] at htouches
  change ((overtaken codec old new uuid w).touches (taskId old uuid)).drop 2 = _
  rw [htouches]
  rfl

variable (hkey' : ¬Unkeyed new)
include hkey'

/-- The key stands for no message without key. -/
theorem overtaken_fresh {m : DelayedMessageData} (hm : ¬Unkeyed m)
    (hid : taskId m uuid = taskId old uuid) :
    Fresh (overtaken codec old new uuid w) m uuid := by
  rw [Fresh, if_neg hm]
  intro t ht
  have hout : taskId new uuid ∉ (firstClaim codec old uuid w).store.delayedMessages.members := by
    simp [ZSet.members, (firstClaim_store hold hreading uuid w).1]
  have hticket : (overtaken codec old new uuid w).tickets (taskId new uuid) =
      some ((firstClaim codec old uuid w).newTicket new) := by
    simp only [overtaken, System.produce, System.enqueue, System.goto, Function.update_self]
    exact congrArg some (if_neg hout)
  rw [hid, ← hsame, hticket] at ht
  cases ht
  simp [System.newTicket, hkey']

variable (hnew : codec.dump new = .ok payload') (hsmall : |new.dispatchTime| ≤ 2 ^ 53)
include hnew hsmall

/-- Claiming a message, enqueueing a newer one under its key and failing the dispatch is a run. -/
theorem overtaken_run (hload : codec.load payload = some old) (hkey : ¬Unkeyed old)
    (hreads : ReadsBack.Reads codec old) (hreads' : ReadsBack.Reads codec new) :
    FaithfulRuns codec System.start (overtaken codec old new uuid w) := by
  have hclaimed : FaithfulRuns codec System.start (firstClaim codec old uuid w) :=
    firstClaim_run hold hreading uuid w (fun _ => hreads) (fun _ => trivial) (fun _ => trivial)
  have hfails : Step codec (.fails w) (firstClaim codec old uuid w)
      ((firstClaim codec old uuid w).goto w
        (.failed (firstClaimed old uuid) old.dispatchTime [])) :=
    .fails old.dispatchTime false (firstClaim_pc hold hload hreading uuid w)
  refine (hclaimed.tail ⟨_, hfails, trivial⟩).tail ⟨_,
    .produces hnew (storable_small hsmall) ?_, hreads'⟩
  rw [Fresh, if_neg hkey', hsame]
  intro t ht
  have hticket : (firstClaim codec old uuid w).tickets (taskId old uuid) = some t := ht
  rw [firstClaim_tickets] at hticket
  cases hticket
  simp [firstClaimed, hkey]

/-- What is pending once it was overtaken, and what a put-back makes of it. -/
theorem overtaken_putBack (hkey : ¬Unkeyed old) {back : Bytes}
    (hback : codec.dump (requeued old old.dispatchTime) = .ok back)
    (hrun : FaithfulRuns codec System.start (overtaken codec old new uuid w)) :
    newer (overtaken codec old new uuid w) (firstClaimed old uuid) = [new] ∧
    OnlyProducers (overtaken codec old new uuid w) (firstClaimed old uuid) ∧
    pendingData (overtaken codec old new uuid w).store (taskId old uuid) =
      some (payload', new.dispatchTime) ∧
    ∃ s', Step codec (.putsBack w (firstClaimed old uuid) old.dispatchTime uuid)
        (overtaken codec old new uuid w) s' ∧
      pendingData s'.store (taskId old uuid) =
        merged codec (some (payload', new.dispatchTime)) (requeued old old.dispatchTime) := by
  have hsince : since (overtaken codec old new uuid w) (firstClaimed old uuid) = [.produced new] :=
    overtaken_since w hold hreading hsame
  have hnewer : newer (overtaken codec old new uuid w) (firstClaimed old uuid) = [new] := by
    rw [newer, hsince]
    rfl
  have honly : OnlyProducers (overtaken codec old new uuid w) (firstClaimed old uuid) := by
    rw [OnlyProducers, hsince]
    simp [message?]
  have ht := run_tracked hrun
  have hpending : pendingData (overtaken codec old new uuid w).store (taskId old uuid) =
      some (payload', new.dispatchTime) := by
    have hdetermined := ht.pending w (firstClaimed old uuid)
      (by rw [overtaken_pc]; exact List.mem_cons_self) honly
    have hfirst : determined codec [new] = some (payload', new.dispatchTime) := by
      simp [determined, merged, hnew, nearestInt_eq hsmall]
    rw [hnewer, hfirst] at hdetermined
    exact hdetermined
  refine ⟨hnewer, honly, hpending, _,
    .putsBack old.dispatchTime uuid (overtaken_pc w) hreading (le_refl _) hback
    (overtaken_fresh w hold hreading hsame hkey' hkey rfl), ?_⟩
  rw [← hpending]
  exact pendingData_enqueue (m := requeued old old.dispatchTime)
    (ht.corresponds.at _) hback (hreading.storable old)

end Overtaken

/-- A message that parses back reads back as itself. -/
theorem reads_of_load {codec : Codec} {m : DelayedMessageData} {payload : Bytes}
    (hdump : codec.dump m = .ok payload) (hload : codec.load payload = some m) :
    ReadsBack.Reads codec m := by
  intro payload' m' hdump' hload'
  rw [hdump] at hdump'
  cases hdump'
  rw [hload] at hload'
  cases hload'
  rfl

theorem digest_keyed (dispatchTime : Int) (body : String) (payloadPolicy : PayloadPolicy)
    (timePolicy : TimePolicy) : ¬Unkeyed (digest dispatchTime body payloadPolicy timePolicy) := by
  simp [Unkeyed, digest]

/-- One digest overtakes another. -/
theorem digest_overtaken {known : List DelayedMessageData} (hnodup : (known.map json).Nodup)
    {d d' : Int} {x x' : String} {p p' : PayloadPolicy} {q q' : TimePolicy}
    (hold : digest d x p q ∈ known)
    (hnew : digest d' x' p' q' ∈ known) (hd : |d| ≤ 2 ^ 33) (hd' : |d'| ≤ 2 ^ 53) (w : ω) :
    FaithfulRuns (jsonCodec known) System.start
      (overtaken (jsonCodec known) (digest d x p q) (digest d' x' p' q') "u" w) := by
  have hdump : ∀ m, (jsonCodec known).dump m = .ok (json m) := fun m => rfl
  have hload := jsonCodec_load hnodup hold
  have hsame : taskId (digest d' x' p' q') "u" = taskId (digest d x p q) "u" := rfl
  exact overtaken_run w (hdump _) (reading_small hd) hsame (digest_keyed _ _ _ _)
    (hdump _) hd' hload (digest_keyed _ _ _ _)
    (reads_of_load (hdump _) hload) (reads_of_load (hdump _) (jsonCodec_load hnodup hnew))

/-- A digest that replaces payload and time, the newer one that overtakes it, and the copy
that is put back. -/
def staleDigest : DelayedMessageData := digest 0 "old" .replace .replace
def freshDigest : DelayedMessageData := digest 100 "new" .ignore .replace
def staleRequeued : DelayedMessageData := digest 10 "old" .replace .replace

def staleCodec : Codec := jsonCodec [staleDigest, freshDigest, staleRequeued]

theorem staleDigest_requeued : requeued staleDigest staleDigest.dispatchTime = staleRequeued := by
  rw [requeued, truncate_intCast]
  rfl

theorem stale_overtaken : FaithfulRuns staleCodec System.start
    (overtaken staleCodec staleDigest freshDigest "u" false) :=
  digest_overtaken (json_nodup "user.digest" (some "daily") (by decide) (by decide))
    List.mem_cons_self
    (List.mem_cons_of_mem _ List.mem_cons_self) (by decide) (by decide) false

/-- The put-back overwrites the newer payload and its dispatch time. -/
theorem put_back_overwrites : ∃ s s' : System Bool,
    FaithfulRuns staleCodec System.start s ∧
    Step staleCodec (.putsBack false
      (firstClaimed staleDigest "u") staleDigest.dispatchTime "u") s s' ∧
    newer s (firstClaimed staleDigest "u") = [freshDigest] ∧
    pendingData s.store "daily" = some (json freshDigest, 100) ∧
    pendingData s'.store "daily" = some (json staleRequeued, 10) ∧
    ¬KeepsNewer staleCodec s (firstClaimed staleDigest "u") s' := by
  have hdump : ∀ m, staleCodec.dump m = .ok (json m) := fun m => rfl
  have hsame : taskId freshDigest "u" = taskId staleDigest "u" := rfl
  obtain ⟨hnewer, -, hpending, s', hstep, hafter⟩ := overtaken_putBack false (hdump staleDigest)
    (reading_small (by decide)) hsame (digest_keyed _ _ _ _) (hdump freshDigest) (by decide)
      (digest_keyed _ _ _ _)
    (hdump _) stale_overtaken
  have hmerged :
      merged staleCodec (some (json freshDigest, freshDigest.dispatchTime)) staleRequeued =
      some (json staleRequeued, 10) := by
    have hpayload :
        mergedPayload staleRequeued (json freshDigest) (json staleRequeued) = json staleRequeued :=
      if_neg (by decide)
    rw [merged_some (hdump _), hpayload]
    exact congrArg (fun time : Int => some (json staleRequeued, time)) rfl
  rw [staleDigest_requeued, hmerged] at hafter
  refine ⟨_, s', stale_overtaken, hstep, hnewer, hpending, hafter, ?_⟩
  intro hkeeps
  have hdetermined := hkeeps (by rw [hnewer]; simp)
  rw [hnewer] at hdetermined
  have htimes := congrArg (Option.map Prod.snd) (hafter.symm.trans hdetermined)
  exact absurd (Option.some.inj htimes) (by decide)

/-- A digest that keeps the first payload and the earlier time, the newer one that
overtakes it, and the copy that is put back. -/
def mildDigest : DelayedMessageData := digest 0 "old" .ignore .lesser
def soonDigest : DelayedMessageData := digest 5 "new" .ignore .replace
def mildRequeued : DelayedMessageData := digest 10 "old" .ignore .lesser

def mildCodec : Codec := jsonCodec [mildDigest, soonDigest, mildRequeued]

theorem mildDigest_requeued : requeued mildDigest mildDigest.dispatchTime = mildRequeued := by
  rw [requeued, truncate_intCast]
  rfl

theorem mild_overtaken : FaithfulRuns mildCodec System.start
    (overtaken mildCodec mildDigest soonDigest "u" false) :=
  digest_overtaken (json_nodup "user.digest" (some "daily") (by decide) (by decide))
    List.mem_cons_self
    (List.mem_cons_of_mem _ List.mem_cons_self) (by decide) (by decide) false

/-- Here the put-back leaves the newer payload and its dispatch time. -/
theorem mild_put_back_keeps : ∃ s s' : System Bool,
    FaithfulRuns mildCodec System.start s ∧
    Step mildCodec (.putsBack false
      (firstClaimed mildDigest "u") mildDigest.dispatchTime "u") s s' ∧
    newer s (firstClaimed mildDigest "u") = [soonDigest] ∧
    Harmless mildCodec s (firstClaimed mildDigest "u") mildDigest.dispatchTime ∧
    KeepsNewer mildCodec s (firstClaimed mildDigest "u") s' := by
  have hdump : ∀ m, mildCodec.dump m = .ok (json m) := fun m => rfl
  have hsame : taskId soonDigest "u" = taskId mildDigest "u" := rfl
  obtain ⟨hnewer, honly, hpending, s', hstep, -⟩ := overtaken_putBack false (hdump mildDigest)
    (reading_small (by decide)) hsame (digest_keyed _ _ _ _) (hdump soonDigest) (by decide)
      (digest_keyed _ _ _ _)
    (hdump _) mild_overtaken
  have hharmless : Harmless mildCodec (overtaken mildCodec mildDigest soonDigest "u" false)
      (firstClaimed mildDigest "u") mildDigest.dispatchTime := by
    refine .inr ⟨honly, ?_⟩
    intro payload time heq
    have htime := congrArg (Option.map Prod.snd) (hpending.symm.trans heq)
    obtain rfl : 5 = time := Option.some.inj htime
    refine ⟨.inl rfl, ?_⟩
    change 5 ≤ (requeued mildDigest mildDigest.dispatchTime).dispatchTime
    rw [mildDigest_requeued]
    decide
  exact ⟨_, s', mild_overtaken, hstep, hnewer, hharmless,
    (put_back_keeps_newer mild_overtaken hstep (digest_keyed _ _ _ _)).1 hharmless⟩

end DelayedPutBack
