import Mathlib.Data.List.Induction
import Jararaca.DelayedPutBack

/-!
# The merge of idempotent enqueues

What is pending under an idempotency key after any number of enqueues with that key, in any
run of the store in which the key is not claimed meanwhile: the first enqueue sets payload and
dispatch time, and every later one changes each of them by its own policies. A pending time is
a double; rounding keeps the order, so it is that of the folded times.
-/
namespace IdempotentMerge

open Messages SortedSets DelayedStore DelayedDispatch DelayedPutBack Doubles

/-- The dispatch time a later enqueue leaves. -/
def mergedTime (time : Int) (m : DelayedMessageData) : Int :=
  match m.timePolicy with
  | .replace => m.dispatchTime
  | .greater => max time m.dispatchTime
  | .lesser => min time m.dispatchTime

/-- The message whose payload stays: the last later one that replaces, else the first. -/
def keptMessage (first : DelayedMessageData) (later : List DelayedMessageData) :
    DelayedMessageData :=
  ((later.filter fun m => decide (m.payloadPolicy = .replace)).getLast?).getD first

/-- The messages that the steps enqueue under a key, without those that have no JSON form. -/
def enqueued (codec : Codec) (key : String) (ops : List Op) : List DelayedMessageData :=
  ops.filterMap fun
    | .enqueue m _ => if m.idempotencyKey = some key ∧ (codec.dump m).isOk then some m else none
    | .dequeue _ _ => none

/-- The steps so far end with a claim of the key, or there are none. -/
def JustClaimed (codec : Codec) (key : String) (ops : List Op) : Prop :=
  ops = [] ∨ ∃ earlier startTimestamp batchSize,
    ops = earlier ++ [.dequeue startTimestamp batchSize] ∧
    key ∈ (selected (run codec earlier Store.empty).2 startTimestamp batchSize).map member

section Runs

variable {codec : Codec} {key : String}

theorem taskId_key {m : DelayedMessageData} (hm : m.idempotencyKey = some key) (hkey : key ≠ "")
    (uuid : String) :
    taskId m uuid = key := by
  simp [taskId, orElse, hm, hkey]

/-- Only an enqueue with the key, or one that generates it, writes under it. -/
theorem taskId_ne {m : DelayedMessageData} {uuid : String} (hm : m.idempotencyKey ≠ some key)
    (hfresh : (Op.enqueue m uuid).generated? ≠ some key) : key ≠ taskId m uuid := by
  intro heq
  unfold taskId orElse at heq
  unfold Op.generated? at hfresh
  split at heq
  · next hnone =>
    subst heq
    exact hfresh (if_pos (.inl hnone))
  · next given hgiven =>
    by_cases hempty : given = ""
    · rw [if_pos (by simp [hempty])] at heq
      subst heq
      exact hfresh (if_pos (.inr (by rw [hgiven, hempty])))
    · rw [if_neg (by simpa using hempty)] at heq
      exact hm (heq ▸ hgiven)

/-- After an enqueue both sides know its task id. -/
theorem enqueue_correspondsAt {m : DelayedMessageData} {uuid : String} {payload : Bytes} {s : Store}
    (hdump : codec.dump m = .ok payload) (hfits : Storable m.dispatchTime) :
    CorrespondsAt (enqueueDelayedMessage codec m uuid s).2 (taskId m uuid) := by
  rw [CorrespondsAt, enqueue_run codec m uuid s hdump hfits, setMetadata_isSome,
    ZSet.members_upsert]
  exact iff_of_true (.inl rfl) (.inl rfl)

/-- The other steps that do not claim the key leave what is pending under it. -/
theorem step_other {op : Op} {s : Store} (hop : op.taskId? ≠ some key)
    (hclaim : claimsOf key (step codec op s).1 = []) :
    pendingData (step codec op s).2 key = pendingData s key ∧
      (CorrespondsAt s key → CorrespondsAt (step codec op s).2 key) := by
  cases op with
  | enqueue m uuid =>
    have hne : key ≠ taskId m uuid := fun heq => hop (congrArg some heq.symm)
    refine ⟨pendingData_enqueue_other codec hne, fun hs => ?_⟩
    have hmem : key ∈ (enqueueDelayedMessage codec m uuid s).2.delayedMessages.members ↔
        key ∈ s.delayedMessages.members := by
      simp only [ZSet.mem_members]
      exact exists_congr fun d => enqueue_entry codec (e := toLex (d, key)) hne
    rw [CorrespondsAt, step, enqueue_metadata_other codec hne, hmem]
    exact hs
  | dequeue startTimestamp batchSize =>
    have hnot : key ∉ (selected s startTimestamp batchSize).map member := by
      intro hin
      simp [claimsOf, step, hin] at hclaim
    refine ⟨pendingData_unclaimed codec hnot, fun hs => ?_⟩
    have hmeta : (dequeueScript startTimestamp batchSize s).2.metadata (metadataKey key) =
        s.metadata (metadataKey key) := dequeue_metadata codec hnot
    have hmem : key ∈ (dequeueScript startTimestamp batchSize s).2.delayedMessages.members ↔
        key ∈ s.delayedMessages.members := (dequeue_members codec).trans (and_iff_left hnot)
    rw [CorrespondsAt, step, hmeta, hmem]
    exact hs

/-- One step that does not claim the key merges what it enqueues under it. -/
theorem step_pendingData {op : Op} {s : Store} (hkey : key ≠ "") (hs : CorrespondsAt s key)
    (hfits : ∀ m ∈ enqueued codec key [op], Storable m.dispatchTime)
    (hfresh : op.generated? ≠ some key) (hclaim : claimsOf key (step codec op s).1 = []) :
    pendingData (step codec op s).2 key = (enqueued codec key [op]).foldl (merged codec)
      (pendingData s key) ∧
      CorrespondsAt (step codec op s).2 key := by
  cases op with
  | enqueue m uuid =>
    cases hdump : codec.dump m with
    | error e =>
      have hnone : enqueued codec key [.enqueue m uuid] = [] := by simp [enqueued, hdump,
        Except.isOk, Except.toBool]
      rw [hnone, step, enqueue_raises codec m uuid s hdump]
      exact ⟨rfl, hs⟩
    | ok payload =>
      by_cases hm : m.idempotencyKey = some key
      · have hone : enqueued codec key [.enqueue m uuid] = [m] := by
          simp [enqueued, hdump, hm, Except.isOk, Except.toBool]
        have hid := taskId_key hm hkey uuid
        have hfit : Storable m.dispatchTime :=
          hfits m (by rw [hone]; exact List.mem_singleton_self m)
        rw [hone, step, ← hid, pendingData_enqueue (by rwa [hid]) hdump hfit]
        exact ⟨rfl, enqueue_correspondsAt hdump hfit⟩
      · have hnone : enqueued codec key [.enqueue m uuid] = [] := by simp [enqueued, hm]
        have hop : (Op.enqueue m uuid).taskId? ≠ some key := fun heq =>
          taskId_ne hm hfresh (Option.some.inj heq).symm
        obtain ⟨hpending, hcorresponds⟩ := step_other hop hclaim
        rw [hnone, hpending]
        exact ⟨rfl, hcorresponds hs⟩
  | dequeue startTimestamp batchSize =>
    have hop : (Op.dequeue startTimestamp batchSize).taskId? ≠ some key := by simp [Op.taskId?]
    obtain ⟨hpending, hcorresponds⟩ := step_other hop hclaim
    rw [hpending]
    exact ⟨rfl, hcorresponds hs⟩

theorem enqueued_cons (op : Op) (ops : List Op) :
    enqueued codec key (op :: ops) = enqueued codec key [op] ++ enqueued codec key ops := by
  unfold enqueued
  rw [← List.filterMap_append]
  rfl

/-- A run that does not claim the key folds what it enqueues under it. -/
theorem run_pendingData {ops : List Op} {s : Store} (hkey : key ≠ "") (hs : CorrespondsAt s key)
    (hfits : ∀ m ∈ enqueued codec key ops, Storable m.dispatchTime)
    (hfresh : ∀ op ∈ ops, op.generated? ≠ some key)
    (hclaim : claimsOf key (run codec ops s).1 = []) :
    pendingData (run codec ops s).2 key = (enqueued codec key ops).foldl (merged codec)
      (pendingData s key) := by
  induction ops generalizing s with
  | nil => rfl
  | cons op ops ih =>
    rw [run, claimsOf_append, List.append_eq_nil_iff] at hclaim
    rw [enqueued_cons, List.forall_mem_append] at hfits
    obtain ⟨hfirst, hnext⟩ :=
      step_pendingData hkey hs hfits.1 (hfresh op List.mem_cons_self) hclaim.1
    have hrest :=
      ih hnext hfits.2 (fun op' hop' => hfresh op' (List.mem_cons_of_mem op hop')) hclaim.2
    rw [run, hrest, hfirst, enqueued_cons op ops, List.foldl_append]

/-- Neither side knows a key that was just claimed. -/
theorem justClaimed_absent {ops : List Op} (h : JustClaimed codec key ops) :
    pendingData (run codec ops Store.empty).2 key = none ∧
      CorrespondsAt (run codec ops Store.empty).2 key := by
  obtain rfl | ⟨earlier, startTimestamp, batchSize, rfl, hin⟩ := h
  · exact ⟨rfl, empty_corresponds.at key⟩
  · rw [run_append]
    refine ⟨pendingData_claimed codec hin, ?_⟩
    have hnot : key ∉ (dequeueScript startTimestamp batchSize
        (run codec earlier Store.empty).2).2.delayedMessages.members :=
      fun hmem => ((dequeue_members codec).mp hmem).2 hin
    obtain ⟨e, he, rfl⟩ := List.mem_map.mp hin
    have hmeta := script_taken (run codec earlier Store.empty).2 startTimestamp batchSize he
    simp only [CorrespondsAt, run, step, hmeta, Option.isSome_none, Bool.false_eq_true, false_iff]
    exact hnot

end Runs

section Folds

variable {codec : Codec} {key : String}

theorem keptMessage_snoc (first : DelayedMessageData) (later : List DelayedMessageData)
    (m : DelayedMessageData) :
    keptMessage first (later ++ [m]) = if m.payloadPolicy = .replace then m
      else keptMessage first later := by
  unfold keptMessage
  rw [List.filter_append]
  by_cases hm : m.payloadPolicy = .replace
  · simp [hm]
  · simp [hm]

/-- Merging and rounding commute. -/
theorem leaves_zaddOption {m : DelayedMessageData} (hm : m.idempotencyKey = some key) (time : Int) :
    (zaddOption m).leaves (some (nearestInt time)) (nearestInt m.dispatchTime) =
      nearestInt (mergedTime time m) := by
  unfold zaddOption mergedTime isIdempotent
  rw [hm, Option.isSome_some, if_pos rfl]
  have hmono : Monotone nearestInt := fun _ _ h => nearestInt_mono h
  cases m.timePolicy with
  | replace => rfl
  | greater => exact hmono.map_max.symm
  | lesser => exact hmono.map_min.symm

/-- The fold over the messages of one key in closed form. -/
theorem determined_eq {first : DelayedMessageData} {later : List DelayedMessageData}
    (hkeys : ∀ m ∈ first :: later, m.idempotencyKey = some key)
    (hdumps : ∀ m ∈ first :: later, (codec.dump m).isOk) :
    ∃ payload, codec.dump (keptMessage first later) = .ok payload ∧
      determined codec (first :: later) =
        some (payload, nearestInt (later.foldl mergedTime first.dispatchTime)) := by
  have hok : ∀ m ∈ first :: later, ∃ payload, codec.dump m = .ok payload := by
    intro m hm
    have hdump := hdumps m hm
    cases h : codec.dump m with
    | ok payload => exact ⟨payload, rfl⟩
    | error e => simp [h, Except.isOk, Except.toBool] at hdump
  induction later using List.reverseRecOn with
  | nil =>
    obtain ⟨payload, hpayload⟩ := hok first List.mem_cons_self
    refine ⟨payload, hpayload, ?_⟩
    simp [determined, merged, hpayload]
  | append_singleton later m ih =>
    have hsub : ∀ m' ∈ first :: later, m' ∈ first :: (later ++ [m]) := by
      intro m' hm'
      rw [← List.cons_append]
      exact List.mem_append_left [m] hm'
    have hin : m ∈ first :: (later ++ [m]) := by simp
    obtain ⟨payload, hpayload, hdet⟩ := ih (fun m' hm' => hkeys m' (hsub m' hm'))
      (fun m' hm' => hdumps m' (hsub m' hm')) (fun m' hm' => hok m' (hsub m' hm'))
    obtain ⟨own, hown⟩ := hok m hin
    refine ⟨mergedPayload m payload own, ?_, ?_⟩
    · rw [keptMessage_snoc]
      unfold mergedPayload isIdempotent
      rw [hkeys m hin]
      cases hpolicy : m.payloadPolicy with
      | ignore => simpa using hpayload
      | replace => simpa using hown
    · rw [← List.cons_append, determined_snoc, hdet, merged_some hown,
        leaves_zaddOption (hkeys m hin),
        List.foldl_append]
      rfl

end Folds

/-- What counts as enqueued under a key has this key and could be written. -/
theorem mem_enqueued {codec : Codec} {key : String} {ops : List Op} {m : DelayedMessageData}
    (hm : m ∈ enqueued codec key ops) : m.idempotencyKey = some key ∧ (codec.dump m).isOk := by
  obtain ⟨op, -, hop⟩ := List.mem_filterMap.mp hm
  cases op with
  | enqueue m' uuid =>
    dsimp only at hop
    split at hop
    · next h =>
      cases hop
      exact h
    · cases hop
  | dequeue startTimestamp batchSize => cases hop

/-- The merge law: from the last claim of a key on, or from the empty store, the enqueues with
that key whose times have doubles leave one entry, at the double nearest to the fold of their
dispatch times, which is the fold itself up to 2 ^ 53, and with the payload of the last one that
replaces. -/
theorem idempotent_merge (codec : Codec) (key : String) (hkey : key ≠ "") (before ops : List Op)
    (hbefore : JustClaimed codec key before)
    (hfresh : ∀ op ∈ ops, op.generated? ≠ some key)
    (hclaim : claimsOf key (run codec ops (run codec before Store.empty).2).1 = [])
    (first : DelayedMessageData) (later : List DelayedMessageData)
    (hms : enqueued codec key ops = first :: later)
    (hfits : ∀ m ∈ first :: later, Storable m.dispatchTime) :
    let s := (run codec (before ++ ops) Store.empty).2
    let time := later.foldl mergedTime first.dispatchTime
    s.delayedMessages.entries.filter (fun e => decide (member e = key)) =
      [toLex (nearestInt time, key)] ∧
      (|time| ≤ 2 ^ 53 → nearestInt time = time) ∧
      ∃ payload, codec.dump (keptMessage first later) = .ok payload ∧
        s.metadata (metadataKey key) = some payload := by
  intro s time
  have hs : s = (run codec ops (run codec before Store.empty).2).2 := by
    change (run codec (before ++ ops) Store.empty).2 = _
    rw [run_append]
  obtain ⟨habsent, hcorresponds⟩ := justClaimed_absent hbefore
  have hpending := run_pendingData hkey hcorresponds (by rwa [hms]) hfresh hclaim
  rw [habsent, hms] at hpending
  have hall : ∀ m ∈ first :: later, m.idempotencyKey = some key ∧ (codec.dump m).isOk := by
    intro m hm
    rw [← hms] at hm
    exact mem_enqueued hm
  obtain ⟨payload, hpayload, hdet⟩ :=
    determined_eq (fun m hm => (hall m hm).1) (fun m hm => (hall m hm).2)
  have hdata : pendingData s key = some (payload, nearestInt time) := by
    rw [hs, hpending]
    exact hdet
  unfold pendingData at hdata
  simp only [Option.bind_eq_bind, Option.bind_eq_some_iff, Option.pure_def, Option.some.injEq,
    Prod.mk.injEq] at hdata
  obtain ⟨stored, hstored, score, hscore, rfl, rfl⟩ := hdata
  exact ⟨ZSet.filter_member hscore, nearestInt_eq, stored, hpayload, hstored⟩

/-- A digest is claimed; then one is enqueued anew, a dequeue comes too early for it, a second
one replaces the payload and may only postpone, a third one may only advance. -/
def claimedDigest : List Op := [.enqueue (digest 0 "old" .ignore .replace) "u", .dequeue 5 1]

def threeDigests : List Op :=
  [.enqueue (digest 10 "a" .ignore .replace) "u", .dequeue 5 1,
    .enqueue (digest 30 "b" .replace .greater) "u",
    .enqueue (digest 20 "c" .ignore .lesser) "u"]

def digestsCodec : Codec :=
  jsonCodec [digest 0 "old" .ignore .replace, digest 10 "a" .ignore .replace,
  digest 30 "b" .replace .greater, digest 20 "c" .ignore .lesser]

theorem claimedDigest_claimed : JustClaimed digestsCodec "daily" claimedDigest := by
  refine .inr ⟨[.enqueue (digest 0 "old" .ignore .replace) "u"], 5, 1, rfl, ?_⟩
  decide +kernel

/-- Three digests under one key, after one was claimed. -/
theorem three_digests_merge :
    (run digestsCodec (claimedDigest ++ threeDigests) Store.empty).2.delayedMessages.entries.filter
        (fun e => decide (member e = "daily")) = [toLex (20, "daily")] ∧
      (run digestsCodec (claimedDigest ++ threeDigests) Store.empty).2.metadata
        (metadataKey "daily") =
        some (json (digest 30 "b" .replace .greater)) := by
  obtain ⟨hentry, -, payload, hpayload, hstored⟩ :=
    idempotent_merge digestsCodec "daily" (by decide) claimedDigest
    threeDigests claimedDigest_claimed (by simp [threeDigests, Op.generated?, digest])
      (by decide +kernel)
    (digest 10 "a" .ignore .replace)
      [digest 30 "b" .replace .greater, digest 20 "c" .ignore .lesser] rfl
    (by
      simp only [List.forall_mem_cons, List.not_mem_nil, false_imp_iff, implies_true, and_true]
      exact ⟨storable_small (by decide), storable_small (by decide), storable_small (by decide)⟩)
  have htime : nearestInt ([digest 30 "b" .replace .greater,
      digest 20 "c" .ignore .lesser].foldl mergedTime
      (digest 10 "a" .ignore .replace).dispatchTime) = 20 := nearestInt_eq (n := 20) (by decide)
  rw [htime] at hentry
  refine ⟨hentry, ?_⟩
  rw [hstored]
  exact congrArg some (Except.ok.inj hpayload).symm

/-- A digest postponed by one second, from the last second that every earlier one has a double. -/
def postponed : List Op :=
  [.enqueue (digest (2 ^ 53) "a" .ignore .replace) "u",
    .enqueue (digest (2 ^ 53 + 1) "b" .ignore .greater) "u"]

/-- Two times in one double: under `greater` the first stays. -/
theorem postponed_stays :
    (run digestsCodec postponed Store.empty).2.delayedMessages.entries.filter
      (fun e => decide (member e = "daily")) =
        [toLex (2 ^ 53, "daily")] ∧
      [digest (2 ^ 53 + 1) "b" .ignore .greater].foldl mergedTime
        (digest (2 ^ 53) "a" .ignore .replace).dispatchTime =
        2 ^ 53 + 1 := by
  decide +kernel

end IdempotentMerge
