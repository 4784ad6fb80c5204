import Jararaca.DelayedDispatch
import Jararaca.Placements

/-!
# No delayed message is lost or doubled

A claim removes a message before it is published, so between the two only the worker has
it. Every message enqueued without an idempotency key is counted at its place: in the
backend, in a worker's hand, or at the broker. Each step moves messages from one place to
another or brings a new one, and none drops one.
-/
namespace DelayedConservation

open Messages SortedSets DelayedStore DelayedDispatch Placements Doubles

variable {ω : Type}

/-- A stored or claimed message is the enqueued one with that number, up to its dispatch
time, or it has a key. -/
def Describes (enqueued : List DelayedMessageData) (origin : Option Nat)
    (m : DelayedMessageData) : Prop :=
  match origin with
  | some n =>
    Unkeyed m ∧ ∃ first, enqueued[n]? = some first ∧
      m = { first with dispatchTime := m.dispatchTime }
  | none => ¬Unkeyed m

theorem Describes.grows {enqueued : List DelayedMessageData} {origin : Option Nat}
    {m : DelayedMessageData} (h : Describes enqueued origin m) (more : List DelayedMessageData) :
    Describes (enqueued ++ more) origin m := by
  cases origin with
  | none => exact h
  | some n =>
    obtain ⟨hkey, first, hfirst, hm⟩ := h
    refine ⟨hkey, first, ?_, hm⟩
    obtain ⟨hlt, -⟩ := List.getElem?_eq_some_iff.mp hfirst
    rw [List.getElem?_append_left hlt, hfirst]

/-- A message that is put back is the enqueued one still, up to its dispatch time. -/
theorem Describes.requeued {enqueued : List DelayedMessageData} {origin : Option Nat}
    {m : DelayedMessageData} (h : Describes enqueued origin m) (time : ℚ) :
    Describes enqueued origin (requeued m time) := by
  cases origin with
  | none => exact h
  | some n =>
    obtain ⟨hkey, first, hfirst, hm⟩ := h
    refine ⟨hkey, first, hfirst, ?_⟩
    conv_lhs => rw [hm]
    rfl

/-- Exactly the messages without a key have a number. -/
theorem Describes.unkeyed_iff {enqueued : List DelayedMessageData} {origin : Option Nat}
    {m : DelayedMessageData} (h : Describes enqueued origin m) :
    Unkeyed m ↔ origin.isSome = true := by
  cases origin with
  | none => exact iff_of_false h (by simp)
  | some n => exact iff_of_true h.1 rfl

/-- A message with a key has no number. -/
theorem Describes.keyed {enqueued : List DelayedMessageData} {origin : Option Nat}
    {m : DelayedMessageData} (h : Describes enqueued origin m) (hkey : ¬Unkeyed m) :
    origin = none := by
  cases origin with
  | none => rfl
  | some n => exact absurd h.1 hkey

/-- Every payload is there, parses, and is the message its ticket says. -/
structure Described (codec : Codec) (s : System ω) : Prop where
  corresponds : Corresponds s.store
  stored : ∀ id ∈ s.store.delayedMessages.members, ∃ t payload m, s.tickets id = some t ∧
    s.store.metadata (metadataKey id) = some payload ∧ codec.load payload = some m ∧
    Describes s.enqueued t.origin m
  held : ∀ w, ∀ c ∈ (s.workers w).pc.hand, Describes s.enqueued c.origin c.message
  published : ∀ c ∈ s.published, Describes s.enqueued c.origin c.message
  claimed : ∀ p ∈ s.claims, Describes s.enqueued p.1.origin p.1.message

/-- A message that was put back waits for its delay, unless another enqueue met it. -/
structure Delayed (s : System ω) : Prop where
  waits : ∀ e ∈ s.store.delayedMessages.entries, ∀ t f, s.tickets (member e) = some t →
    t.failedAt = some f → t.contested = false → f + failedDispatchRequeueDelaySeconds ≤ score e
  alone : ∀ id t, s.tickets id = some t → t.origin.isSome = true → t.contested = false
  claimed : ∀ p ∈ s.claims, ∀ f, p.1.ticket.failedAt = some f →
    (p.1.ticket.contested = false ∨ p.1.origin.isSome = true) →
    f + failedDispatchRequeueDelaySeconds ≤ p.2
  /-- a cycle was begun at a time of the clock -/
  clocks : ∀ w now, (s.workers w).pc = .cycle now → |now| ≤ 2 ^ 53

/-- The same messages at the same places. -/
structure Alike (s s' : System ω) : Prop where
  store : s'.store = s.store
  tickets : s'.tickets = s.tickets
  enqueued : s'.enqueued = s.enqueued
  published : s'.published = s.published
  claims : s'.claims = s.claims
  hand : ∀ w, (s'.workers w).pc.hand = (s.workers w).pc.hand
  cycle : ∀ w now, (s'.workers w).pc = .cycle now → (s.workers w).pc = .cycle now ∨ |now| ≤ 2 ^ 53

section Frame

variable {codec : Codec} {s s' : System ω}

/-- Being alike is transitive. -/
theorem Alike.trans {s'' : System ω} (h : Alike s s') (h' : Alike s' s'') : Alike s s'' where
  store := h'.store.trans h.store
  tickets := h'.tickets.trans h.tickets
  enqueued := h'.enqueued.trans h.enqueued
  published := h'.published.trans h.published
  claims := h'.claims.trans h.claims
  hand w := (h'.hand w).trans (h.hand w)
  cycle w now hpc := by
    obtain hpc' | hsmall := h'.cycle w now hpc
    · exact h.cycle w now hpc'
    · exact .inr hsmall

theorem Alike.contents (h : Alike s s') : s'.contents = s.contents := by
  have horigin : s'.origin = s.origin := by
    funext id
    unfold System.origin
    rw [h.tickets]
  funext spot
  cases spot with
  | backend => simp only [System.contents, h.store, horigin]
  | hand w => simp only [System.contents, h.hand]
  | broker => simp only [System.contents, h.published]

/-- A system alike to a described one is described. -/
theorem Alike.described (h : Alike s s') (hd : Described codec s) : Described codec s' where
  corresponds := by
    rw [h.store]
    exact hd.corresponds
  stored := by
    rw [h.store, h.tickets, h.enqueued]
    exact hd.stored
  held w := by
    rw [h.hand, h.enqueued]
    exact hd.held w
  published := by
    rw [h.published, h.enqueued]
    exact hd.published
  claimed := by
    rw [h.claims, h.enqueued]
    exact hd.claimed

theorem Alike.delayed (h : Alike s s') (hd : Delayed s) : Delayed s' where
  waits := by
    rw [h.store, h.tickets]
    exact hd.waits
  alone := by
    rw [h.tickets]
    exact hd.alone
  claimed := by
    rw [h.claims]
    exact hd.claimed
  clocks w now hpc := (h.cycle w now hpc).elim (hd.clocks w now) id

variable [DecidableEq ω]

/-- A worker goes on with what it has. -/
theorem alike_goto {w : ω} {pc : Pc} (hhand : pc.hand = (s.workers w).pc.hand)
    (hclock : ∀ now, pc = .cycle now → |now| ≤ 2 ^ 53) : Alike s (s.goto w pc) where
  store := rfl
  tickets := rfl
  enqueued := rfl
  published := rfl
  claims := rfl
  hand v := by
    rw [goto_pc]
    split
    · rename_i hv
      rw [hv, hhand]
    · rfl
  cycle v now hpc := by
    rw [goto_pc] at hpc
    split at hpc
    · exact .inr (hclock now hpc)
    · exact .inl hpc

/-- Shutting a worker down leaves the store and the tickets alone. -/
theorem alike_shutdown (w : ω) : Alike s (s.shutdown w) where
  store := rfl
  tickets := rfl
  enqueued := rfl
  published := rfl
  claims := rfl
  hand v := by rw [shutdown_pc]
  cycle v now hpc := by
    rw [shutdown_pc] at hpc
    exact .inl hpc

end Frame

section Enqueue

variable {codec : Codec} {s : System ω} {m : DelayedMessageData} {uuid : String} {payload : Bytes}
  {t : Ticket} (touch : Touch)

/-- A uuid that no one has used is not in the backend. -/
theorem Described.absent (hd : Described codec s) {id : String} (hid : s.tickets id = none) :
    id ∉ s.store.delayedMessages.members := by
  intro hmem
  obtain ⟨t, -, -, ht, -⟩ := hd.stored id hmem
  rw [hid] at ht
  cases ht

theorem stamp_absent (h : taskId m uuid ∉ s.store.delayedMessages.members) : s.stamp m uuid t = t :=
  if_neg h

theorem stamp_contested (h : taskId m uuid ∈ s.store.delayedMessages.members) :
    (s.stamp m uuid t).contested = true := by
  unfold System.stamp
  rw [if_pos h]

theorem stamp_kept (hin : taskId m uuid ∈ s.store.delayedMessages.members)
    (hkeeps : keepsPayload m (taskId m uuid) s.store = true) {old : Ticket}
    (hold : s.tickets (taskId m uuid) = some old) :
    s.stamp m uuid t = { old with contested := true } := by
  simp [System.stamp, hin, hkeeps, hold]

theorem enqueue_ticket :
    (s.enqueue codec m uuid t touch).tickets (taskId m uuid) = some (s.stamp m uuid t) := by
  simp [System.enqueue]

/-- An enqueue for a task id never changes which message it stands for. -/
theorem stamp_origin (hd : Described codec s) (hfresh : Fresh s m uuid)
    (ht : Describes enqueued t.origin m) : (s.stamp m uuid t).origin = t.origin := by
  by_cases hkey : Unkeyed m
  · rw [stamp_absent (hd.absent (hfresh.unused hkey))]
  · have hnone := ht.keyed hkey
    have hold : ((s.tickets (taskId m uuid)).getD t).origin = none := by
      cases htick : s.tickets (taskId m uuid) with
      | none => exact hnone
      | some old => exact hfresh.keyed hkey htick
    unfold System.stamp
    split
    · split
      · rw [hold, hnone]
      · rfl
    · rfl

theorem enqueue_origin (id : String) :
    (s.enqueue codec m uuid t touch).origin id =
      if id = taskId m uuid then (s.stamp m uuid t).origin else s.origin id := by
  by_cases hid : id = taskId m uuid
  · subst hid
    simp [System.origin, System.enqueue]
  · simp [System.origin, System.enqueue, hid]

/-- An enqueue brings its message to the backend. -/
theorem enqueue_added (hdump : codec.dump m = .ok payload) (hfits : Storable m.dispatchTime)
    (hd : Described codec s)
    (hfresh : Fresh s m uuid) (ht : Describes enqueued t.origin m) :
    Added .backend (t.origin.toList : Multiset Nat) s.contents
      (s.enqueue codec m uuid t touch).contents where
  given := by
    have hperm := (members_enqueue_perm codec uuid s.store hdump hfits).filterMap
      (s.enqueue codec m uuid t touch).origin
    -- the other task ids stand for what they stood for
    have hrest : taskId m uuid ∉ s.store.delayedMessages.members →
        s.store.delayedMessages.members.filterMap (s.enqueue codec m uuid t touch).origin =
          s.store.delayedMessages.members.filterMap s.origin := by
      intro hout
      apply List.filterMap_congr
      intro id hid
      rw [enqueue_origin touch, if_neg]
      rintro rfl
      exact hout hid
    have hown : (s.enqueue codec m uuid t touch).origin (taskId m uuid) = t.origin := by
      rw [enqueue_origin touch, if_pos rfl, stamp_origin hd hfresh ht]
    have hlist : ((s.enqueue codec m uuid t touch).store.delayedMessages.members.filterMap
        (s.enqueue codec m uuid t touch).origin).Perm
        (t.origin.toList ++ s.store.delayedMessages.members.filterMap s.origin) := by
      refine hperm.trans ?_
      split
      · rename_i hin
        have hkey : ¬Unkeyed m := fun hkey => hd.absent (hfresh.unused hkey) hin
        have hnone := ht.keyed hkey
        have hsame : (s.enqueue codec m uuid t touch).origin = s.origin := by
          funext id
          rw [enqueue_origin touch]
          split
          · rename_i hid
            subst hid
            obtain ⟨old, -, -, hold, -⟩ := hd.stored _ hin
            rw [stamp_origin hd hfresh ht, hnone, System.origin, hold]
            exact (hfresh.keyed hkey hold).symm
          · rfl
        rw [hsame, hnone]
        exact List.Perm.refl _
      · rename_i hout
        rw [List.filterMap_cons, hown, hrest hout]
        cases t.origin with
        | none => exact List.Perm.refl _
        | some n => exact List.Perm.refl _
    exact Multiset.coe_eq_coe.mpr hlist
  others spot hspot := by
    cases spot with
    | backend => exact absurd rfl hspot
    | hand w => rfl
    | broker => rfl

/-- After an enqueue the ticket of the stored message describes it. -/
theorem Described.enqueue (hd : Described codec s) (hdump : codec.dump m = .ok payload)
    (hfits : Storable m.dispatchTime) (hload : codec.load payload = some m)
    (hfresh : Fresh s m uuid)
    (ht : Describes s.enqueued t.origin m) : Described codec (s.enqueue codec m uuid t touch) where
  corresponds := enqueue_corresponds codec m uuid s.store hfits hd.corresponds
  stored := by
    intro id hid
    by_cases hown : id = taskId m uuid
    · subst hown
      refine ⟨s.stamp m uuid t, ?_⟩
      have hticket :
          (s.enqueue codec m uuid t touch).tickets (taskId m uuid) = some (s.stamp m uuid t) :=
        enqueue_ticket touch
      have hmeta : (s.enqueue codec m uuid t touch).store.metadata (metadataKey (taskId m uuid)) =
          if keepsPayload m (taskId m uuid) s.store then s.store.metadata
            (metadataKey (taskId m uuid))
          else some payload := enqueue_metadata_same codec uuid s.store hdump hfits
      have horigin : Describes s.enqueued (s.stamp m uuid t).origin m := by
        rwa [stamp_origin hd hfresh ht]
      cases hkeep : keepsPayload m (taskId m uuid) s.store with
      | false =>
        rw [hkeep] at hmeta
        exact ⟨payload, m, hticket, hmeta, hload, horigin⟩
      | true =>
        -- the payload that was there is that of a message with the same key
        rw [hkeep] at hmeta
        have hsome : (s.store.metadata (metadataKey (taskId m uuid))).isSome = true :=
          (Bool.and_eq_true_iff.mp hkeep).2
        have hin := (hd.corresponds.at _).mp hsome
        obtain ⟨old, payload', m', hold, hpayload', hload', hm'⟩ := hd.stored _ hin
        have hkey : ¬Unkeyed m := fun hkey => hd.absent (hfresh.unused hkey) hin
        have hnone := ht.keyed hkey
        refine ⟨payload', m', hticket, hmeta.trans hpayload', hload', ?_⟩
        rwa [stamp_origin hd hfresh ht, hnone, ← hfresh.keyed hkey hold]
    · have hmem : id ∈ s.store.delayedMessages.members := by
        have hmem' : id ∈ (enqueueDelayedMessage codec m uuid s.store).2.delayedMessages.members :=
          hid
        rw [enqueue_zset codec uuid s.store hdump hfits, ZSet.members_upsert] at hmem'
        exact hmem'.resolve_left hown
      obtain ⟨t', payload', m', ht', hpayload', hload', hm'⟩ := hd.stored id hmem
      refine ⟨t', payload', m', ?_, ?_, hload', hm'⟩
      · simpa [System.enqueue, hown] using ht'
      · exact (enqueue_metadata_other codec hown).trans hpayload'
  held := hd.held
  published := hd.published
  claimed := hd.claimed

theorem Delayed.enqueue (hl : Delayed s) (hd : Described codec s)
    (hdump : codec.dump m = .ok payload)
    (hfits : Storable m.dispatchTime) (hfresh : Fresh s m uuid) (ht : Describes enqueued t.origin m)
    (hnew : t.contested = false)
    (hlate : ∀ f, t.failedAt = some f →
      f + failedDispatchRequeueDelaySeconds ≤ nearestInt m.dispatchTime) :
    Delayed (s.enqueue codec m uuid t touch) where
  waits := by
    intro e he t' f htick hfail hcalm
    have hentry : e ∈ (s.store.delayedMessages.upsert (zaddOption m) (nearestInt m.dispatchTime)
        (taskId m uuid)).entries := by
      rw [← enqueue_zset codec uuid s.store hdump hfits]
      exact he
    by_cases hown : member e = taskId m uuid
    · have hstamp : s.stamp m uuid t = t' := by
        simpa [System.enqueue, hown] using htick
      have hout : taskId m uuid ∉ s.store.delayedMessages.members := by
        intro hin
        have hcontested := stamp_contested (t := t) hin
        rw [hstamp, hcalm] at hcontested
        cases hcontested
      rw [stamp_absent hout] at hstamp
      subst hstamp
      rw [ZSet.upsert_new hout, ZSet.mem_add] at hentry
      obtain rfl | ⟨-, hne⟩ := hentry
      · exact hlate f hfail
      · exact absurd hown hne
    · rw [ZSet.mem_upsert_other hown] at hentry
      refine hl.waits e hentry t' f ?_ hfail hcalm
      simpa [System.enqueue, hown] using htick
  alone := by
    intro id t' htick hsome
    by_cases hown : id = taskId m uuid
    · have hstamp : s.stamp m uuid t = t' := by
        simpa [System.enqueue, hown] using htick
      rw [← hstamp, stamp_origin hd hfresh ht] at hsome
      have hkey : Unkeyed m := ht.unkeyed_iff.mpr hsome
      rw [← hstamp, stamp_absent (hd.absent (hfresh.unused hkey)), hnew]
    · refine hl.alone id t' ?_ hsome
      simpa [System.enqueue, hown] using htick
  claimed := hl.claimed
  clocks := hl.clocks

end Enqueue

section Steps

variable {codec : Codec} {s : System ω}

/-- A claimed message is one that was in the backend, due, with the ticket of its task id. -/
theorem mem_batch (hd : Described codec s) {now : Int} {batchSize : Nat} {c : Claimed}
    (h : c ∈ s.batch codec now batchSize) :
    s.tickets c.taskId = some c.ticket ∧ Describes s.enqueued c.origin c.message ∧
      ∃ e ∈ s.store.delayedMessages.entries, member e = c.taskId ∧ score e ≤ nearestInt now := by
  obtain ⟨id, hid, hitem⟩ := List.mem_filterMap.mp h
  obtain ⟨e, he, rfl⟩ := List.mem_map.mp hid
  obtain ⟨hentry, hdue⟩ := ZSet.mem_rangeByScore he
  obtain ⟨hcid, hticket, -, payload, hmeta, hload⟩ := item_eq_some hitem
  obtain ⟨t, payload', m, ht, hmeta', hload', hm⟩ :=
    hd.stored (member e) (List.mem_map_of_mem hentry)
  rw [hmeta] at hmeta'
  cases hmeta'
  rw [hload] at hload'
  cases hload'
  rw [ht, Option.getD_some] at hticket
  refine ⟨?_, ?_, e, hentry, hcid.symm, hdue⟩
  · rw [hcid, hticket, ht]
  · rwa [Claimed.origin, hticket]

/-- Nothing of what is claimed is dropped. -/
theorem batch_origins (hd : Described codec s) (now : Int) (batchSize : Nat) :
    (s.batch codec now batchSize).filterMap Claimed.origin =
      ((selected s.store now batchSize).map member).filterMap s.origin := by
  rw [System.batch, List.filterMap_filterMap]
  apply List.filterMap_congr
  intro id hid
  obtain ⟨t, payload, m, ht, hmeta, hload, -⟩ := hd.stored id (selected_members hid)
  simp [System.item, hmeta, hload, ht, System.origin, Claimed.origin]

variable [DecidableEq ω]

@[simp] theorem claim_hand (w v : ω) (now : Int) (batchSize : Nat) :
    ((s.claim codec w now batchSize).workers v).pc.hand =
      if v = w then s.batch codec now batchSize else (s.workers v).pc.hand := by
  by_cases hv : v = w
  · subst hv
    simp [System.claim]
  · simp [System.claim, hv]

@[simp] theorem publish_hand (w v : ω) (c : Claimed) (rest : List Claimed) :
    ((s.publish w c rest).workers v).pc.hand = if v = w then rest else (s.workers v).pc.hand := by
  by_cases hv : v = w
  · subst hv
    simp [System.publish]
  · simp [System.publish, hv]

/-- A dequeue hands its batch from the backend to the worker. -/
theorem claim_moved (hd : Described codec s) {w : ω}
    (hhand : (s.workers w).pc.hand = []) (now : Int)
    (batchSize : Nat) :
    Moved .backend (.hand w) ((s.batch codec now batchSize).filterMap Claimed.origin : Multiset Nat)
      s.contents (s.claim codec w now batchSize).contents where
  taken := by
    have hsplit : s.store.delayedMessages.members.Perm (_ ++
        (dequeueNextDelayedMessages codec now batchSize s.store).2.delayedMessages.members) :=
      members_dequeue_perm codec
    have hperm := hsplit.filterMap s.origin
    rw [List.filterMap_append] at hperm
    rw [batch_origins hd, System.contents]
    exact Multiset.coe_eq_coe.mpr hperm
  given := by
    simp [System.contents, hhand]
  others spot hback hw := by
    cases spot with
    | backend => exact absurd rfl hback
    | broker => rfl
    | hand v =>
      have hv : v ≠ w := fun heq => hw (by rw [heq])
      simp [System.contents, hv]

theorem Described.claim (hd : Described codec s) (w : ω) (now : Int) (batchSize : Nat) :
    Described codec (s.claim codec w now batchSize) where
  corresponds := dequeue_corresponds s.store now batchSize hd.corresponds
  stored := by
    intro id hid
    obtain ⟨hmem, hleft⟩ := (dequeue_members codec).mp hid
    obtain ⟨t, payload, m, ht, hmeta, hrest⟩ := hd.stored id hmem
    exact ⟨t, payload, m, ht, (dequeue_metadata codec hleft).trans hmeta, hrest⟩
  held := by
    intro v c hc
    rw [claim_hand] at hc
    split at hc
    · exact (mem_batch hd hc).2.1
    · exact hd.held v c hc
  published := hd.published
  claimed := by
    intro p hp
    obtain hold | hnew := List.mem_append.mp hp
    · exact hd.claimed p hold
    · obtain ⟨c, hc, rfl⟩ := List.mem_map.mp hnew
      exact (mem_batch hd hc).2.1

theorem Delayed.claim (hl : Delayed s) (hd : Described codec s) {w : ω} {now : Int}
    (hpc : (s.workers w).pc = .cycle now) (batchSize : Nat) :
    Delayed (s.claim codec w now batchSize) where
  waits := by
    intro e he
    exact hl.waits e ((dequeue_entries codec).mp he).1
  alone := hl.alone
  claimed := by
    intro p hp f hfail hcalm
    obtain hold | hnew := List.mem_append.mp hp
    · exact hl.claimed p hold f hfail hcalm
    · obtain ⟨c, hc, rfl⟩ := List.mem_map.mp hnew
      obtain ⟨hticket, -, e, he, hid, hdue⟩ := mem_batch hd hc
      have huncontested : c.ticket.contested = false := by
        obtain h | h := hcalm
        · exact h
        · exact hl.alone _ _ hticket h
      rw [← hid] at hticket
      rw [nearestInt_eq (hl.clocks w now hpc)] at hdue
      exact (hl.waits e he c.ticket f hticket hfail huncontested).trans hdue
  clocks v now' hcycle := by
    by_cases hv : v = w
    · subst hv
      rw [claim_pc] at hcycle
      cases hcycle
    · simp only [System.claim, Function.update_of_ne hv] at hcycle
      exact hl.clocks v now' hcycle

/-- A dispatch hands its message from the worker to the broker. -/
theorem publish_moved {w : ω} {c : Claimed} {rest : List Claimed}
    (hhand : (s.workers w).pc.hand = c :: rest) :
    Moved (.hand w) .broker (c.origin.toList : Multiset Nat) s.contents
      (s.publish w c rest).contents where
  taken := by
    simp only [System.contents, hhand, publish_hand, if_pos, Multiset.coe_add]
    cases horigin : c.origin <;> simp [horigin]
  given := by
    simp only [System.contents, System.publish, List.filterMap_append, Multiset.coe_add]
    cases horigin : c.origin <;> simp [horigin]
  others spot hw hbroker := by
    cases spot with
    | backend => rfl
    | broker => exact absurd rfl hbroker
    | hand v =>
      have hv : v ≠ w := fun heq => hw (by rw [heq])
      simp [System.contents, hv]

theorem Described.publish (hd : Described codec s) {w : ω} {c : Claimed} {rest : List Claimed}
    (hhand : (s.workers w).pc.hand = c :: rest) : Described codec (s.publish w c rest) where
  corresponds := hd.corresponds
  stored := hd.stored
  held := by
    intro v c' hc'
    rw [publish_hand] at hc'
    split at hc'
    · exact hd.held w c' (by rw [hhand]; exact List.mem_cons_of_mem c hc')
    · exact hd.held v c' hc'
  published := by
    intro c' hc'
    obtain hold | hnew := List.mem_append.mp hc'
    · exact hd.published c' hold
    · rw [List.mem_singleton] at hnew
      rw [hnew]
      exact hd.held w c (by rw [hhand]; exact List.mem_cons_self)
  claimed := hd.claimed

/-- A worker that goes on with its batch begins no cycle. -/
theorem Delayed.dispatching (hl : Delayed s) {w v : ω} {rest : List Claimed} {now : Int}
    (hcycle : ((s.goto w (.dispatching rest)).workers v).pc = .cycle now) : |now| ≤ 2 ^ 53 := by
  rw [goto_pc] at hcycle
  split at hcycle
  · cases hcycle
  · exact hl.clocks v now hcycle

/-- What a put-back hands from the worker to the backend. -/
theorem putBack_moved (hd : Described codec s) {w : ω} {c : Claimed} {rest : List Claimed}
    (hhand : (s.workers w).pc.hand = c :: rest) {failure time : ℚ} {uuid : String} {payload : Bytes}
    (hdump : codec.dump (requeued c.message time) = .ok payload) (hreading : Reading time)
    (hfresh : Fresh s (requeued c.message time) uuid) :
    Moved (.hand w) .backend (c.origin.toList : Multiset Nat) s.contents
      (s.putBack codec w c failure time rest uuid).contents := by
  have hc : Describes s.enqueued c.origin c.message :=
    hd.held w c (by rw [hhand]; exact List.mem_cons_self)
  have hadded :=
    enqueue_added (t := c.failedTicket failure) .putBack hdump
      (hreading.storable c.message) hd hfresh
    (hc.requeued time)
  refine ⟨?_, hadded.given, ?_⟩
  · simp only [System.contents, hhand, System.putBack, goto_pc, if_pos, hand_dispatching]
    cases horigin : c.origin <;> simp [horigin]
  · intro spot hw hback
    cases spot with
    | backend => exact absurd rfl hback
    | broker => rfl
    | hand v =>
      have hv : v ≠ w := fun heq => hw (by rw [heq])
      simp only [System.contents, System.putBack, goto_pc, if_neg hv]
      rfl

/-- A worker that lets go of some of what it has. -/
theorem Described.goto (hd : Described codec s) {w : ω} {pc : Pc}
    (hsub : ∀ c ∈ pc.hand, c ∈ (s.workers w).pc.hand) : Described codec (s.goto w pc) where
  corresponds := hd.corresponds
  stored := hd.stored
  held := by
    intro v c hc
    rw [goto_pc] at hc
    split at hc
    · exact hd.held w c (hsub c hc)
    · exact hd.held v c hc
  published := hd.published
  claimed := hd.claimed

end Steps

variable [DecidableEq ω]

/-- Every message without key is in exactly one place, with its own content, and what was
put back waits. -/
structure Sound (codec : Codec) (s : System ω) : Prop where
  described : Described codec s
  conserved : Conserved s.contents {n | n < s.enqueued.length}
  delayed : Delayed s

section Runs

variable {codec : Codec} {s s' : System ω}

theorem Alike.sound (h : Alike s s') (hs : Sound codec s) : Sound codec s' where
  described := h.described hs.described
  conserved := by
    rw [h.contents, h.enqueued]
    exact hs.conserved
  delayed := h.delayed hs.delayed

theorem start_sound : Sound codec (System.start : System ω) where
  described := ⟨empty_corresponds, by simp [System.start, Store.empty, ZSet.empty, ZSet.members],
    by simp [System.start, Pc.hand], by simp [System.start], by simp [System.start]⟩
  conserved := by
    refine ⟨by simp [System.start], ?_⟩
    intro n _ spot
    cases spot <;> simp [System.contents, System.start, Store.empty, ZSet.empty,
      ZSet.members, Pc.hand]
  delayed :=
    ⟨by simp [System.start, Store.empty, ZSet.empty], by simp [System.start],
    by simp [System.start],
    by simp [System.start]⟩

/-- A producer's message is put on record before it is enqueued. -/
def recorded (s : System ω) (m : DelayedMessageData) : System ω :=
  { s with enqueued := if Unkeyed m then s.enqueued ++ [m] else s.enqueued }

omit [DecidableEq ω] in
theorem recorded_unkeyed {m : DelayedMessageData} (hkey : Unkeyed m) :
    (recorded s m).enqueued = s.enqueued ++ [m] := if_pos hkey

omit [DecidableEq ω] in
theorem recorded_keyed {m : DelayedMessageData} (hkey : ¬Unkeyed m) :
    (recorded s m).enqueued = s.enqueued :=
  if_neg hkey

omit [DecidableEq ω] in
theorem Describes.recorded {origin : Option Nat} {m' : DelayedMessageData}
    (h : Describes s.enqueued origin m') (m : DelayedMessageData) :
    Describes (recorded s m).enqueued origin m' := by
  by_cases hkey : Unkeyed m
  · rw [recorded_unkeyed hkey]
    exact h.grows [m]
  · rw [recorded_keyed hkey]
    exact h

omit [DecidableEq ω] in
theorem Described.recorded (hd : Described codec s) (m : DelayedMessageData) :
    Described codec (recorded s m) where
  corresponds := hd.corresponds
  stored := by
    intro id hid
    obtain ⟨t, payload, m', ht, hmeta, hload, hm'⟩ := hd.stored id hid
    exact ⟨t, payload, m', ht, hmeta, hload, hm'.recorded m⟩
  held w c hc := (hd.held w c hc).recorded m
  published c hc := (hd.published c hc).recorded m
  claimed p hp := (hd.claimed p hp).recorded m

omit [DecidableEq ω] in
theorem newTicket_describes (s : System ω) (m : DelayedMessageData) :
    Describes (recorded s m).enqueued (s.newTicket m).origin m := by
  by_cases hkey : Unkeyed m
  · simp [recorded, System.newTicket, hkey, Describes]
  · simp [System.newTicket, hkey, Describes]

/-- The message counts as one more where it has no key, and not at all where it has one. -/
theorem produce_conserved (hs : Sound codec s) {m : DelayedMessageData} {uuid : String}
    {payload : Bytes}
    (hdump : codec.dump m = .ok payload) (hfits : Storable m.dispatchTime)
    (hfresh : Fresh s m uuid) :
    Conserved ((recorded s m).enqueue codec m uuid (s.newTicket m) (.produced m)).contents
      {n | n < (recorded s m).enqueued.length} := by
  have hadded :=
    enqueue_added (s := recorded s m) (.produced m) hdump hfits (hs.described.recorded m) hfresh
    (newTicket_describes s m)
  by_cases hkey : Unkeyed m
  · have hset : {n | n < (recorded s m).enqueued.length} =
        insert s.enqueued.length {n | n < s.enqueued.length} := by
      rw [recorded_unkeyed hkey, List.length_append, List.length_singleton]
      ext n
      change n < s.enqueued.length + 1 ↔ n = s.enqueued.length ∨ n < s.enqueued.length
      omega
    rw [System.newTicket, if_pos hkey] at hadded ⊢
    rw [hset]
    exact hs.conserved.added (by simp) hadded
  · have hnone : (s.newTicket m).origin = none := by simp [System.newTicket, hkey]
    rw [hnone] at hadded
    have hcontents : ((recorded s m).enqueue codec m uuid (s.newTicket m) (.produced m)).contents =
        s.contents := by
      funext spot
      by_cases hspot : spot = .backend
      · rw [hspot, hadded.given]
        exact Multiset.zero_add _
      · exact hadded.others spot hspot
    rw [hcontents, recorded_keyed hkey]
    exact hs.conserved

/-- A producer's message is new and goes to the backend. -/
theorem Sound.produce (hs : Sound codec s) {m : DelayedMessageData} {uuid : String}
    (hparses : Parses codec m) (hfits : Storable m.dispatchTime) (hfresh : Fresh s m uuid) :
    Sound codec (s.produce codec m uuid) := by
  obtain ⟨payload, hdump, hload⟩ := hparses
  have hknown := hs.described.recorded m
  have hdelayed : Delayed (recorded s m) := ⟨hs.delayed.waits, hs.delayed.alone, hs.delayed.claimed,
    hs.delayed.clocks⟩
  have halike : Alike ((recorded s m).enqueue codec m uuid (s.newTicket m) (.produced m))
      (s.produce codec m uuid) := ⟨rfl, rfl, rfl, rfl, rfl, fun _ => rfl, fun _ _ => .inl⟩
  apply halike.sound
  exact ⟨hknown.enqueue _ hdump hfits hload hfresh (newTicket_describes s m),
    produce_conserved hs hdump hfits hfresh,
    hdelayed.enqueue _ hknown hdump hfits hfresh (newTicket_describes s m) rfl
      (by simp [System.newTicket])⟩

theorem Sound.claim (hs : Sound codec s) {w : ω} {now : Int} (hpc : (s.workers w).pc = .cycle now)
    (batchSize : Nat) : Sound codec (s.claim codec w now batchSize) where
  described := hs.described.claim w now batchSize
  conserved := by
    have hhand : (s.workers w).pc.hand = [] := by rw [hpc, Pc.hand]
    exact hs.conserved.moved (claim_moved hs.described hhand now batchSize) (by simp)
  delayed := hs.delayed.claim hs.described hpc batchSize

theorem Sound.publish (hs : Sound codec s) {w : ω} {c : Claimed} {rest : List Claimed}
    (hhand : (s.workers w).pc.hand = c :: rest) : Sound codec (s.publish w c rest) where
  described := hs.described.publish hhand
  conserved := hs.conserved.moved (publish_moved hhand) (by simp)
  delayed := by
    refine ⟨hs.delayed.waits, hs.delayed.alone, hs.delayed.claimed, ?_⟩
    intro v now hcycle
    change ((s.goto w (.dispatching rest)).workers v).pc = .cycle now at hcycle
    exact hs.delayed.dispatching hcycle

theorem Sound.putBack (hs : Sound codec s) {w : ω} {c : Claimed} {rest : List Claimed}
    (hhand : (s.workers w).pc.hand = c :: rest) {failure time : ℚ} (hreading : Reading time)
    (hclock : failure ≤ time) {uuid : String} (hparses : Parses codec (requeued c.message time))
    (hfresh : Fresh s (requeued c.message time) uuid) :
    Sound codec (s.putBack codec w c failure time rest uuid) := by
  obtain ⟨payload, hdump, hload⟩ := hparses
  have hc : Describes s.enqueued c.origin c.message :=
    hs.described.held w c (by rw [hhand]; exact List.mem_cons_self)
  have hlate : ∀ f, (c.failedTicket failure).failedAt = some f →
      f + failedDispatchRequeueDelaySeconds ≤
        nearestInt (requeued c.message time).dispatchTime := by
    intro f hf
    cases hf
    rw [requeued, nearestInt_eq hreading.small.2]
    exact Int.add_le_add_right (truncate_mono hclock) _
  have hfits := hreading.storable c.message
  have hdescribed :=
    hs.described.enqueue (t := c.failedTicket failure) .putBack hdump hfits hload hfresh
    (hc.requeued time)
  refine ⟨hdescribed.goto ?_,
    hs.conserved.moved (putBack_moved hs.described hhand hdump hreading hfresh) (by simp), ?_⟩
  · intro c' hc'
    change c' ∈ (s.workers w).pc.hand
    rw [hhand]
    exact List.mem_cons_of_mem c hc'
  · have hdelayed :=
      hs.delayed.enqueue (t := c.failedTicket failure) .putBack hs.described hdump hfits
      hfresh (hc.requeued time) rfl hlate
    exact ⟨hdelayed.waits, hdelayed.alone, hdelayed.claimed, fun v now => hdelayed.dispatching⟩

/-- One step, whoever takes it. -/
theorem step_sound {a : Act ω} (hstep : Step codec a s s') (hok : Succeeds codec a)
    (hs : Sound codec s) :
    Sound codec s' := by
  cases hstep with
  | produces hdump hfits hfresh => exact hs.produce hok hfits hfresh
  | refused m => cases hok
  | begins time hreading h hopen =>
    refine (alike_goto (by rw [h]; rfl) ?_).sound hs
    rintro now heq
    cases heq
    exact hreading.small.1
  | claims batchSize h => exact hs.claim h batchSize
  | misses h => cases hok
  | publishes h => exact hs.publish (by rw [h]; rfl)
  | fails time stops h =>
    have hfailed : Alike s (s.goto _ (.failed _ time _)) := alike_goto (by rw [h]; rfl) (by simp)
    cases stops with
    | false => exact hfailed.sound hs
    | true => exact (hfailed.trans (alike_shutdown _)).sound hs
  | putsBack time uuid h hreading hclock hdump hfresh =>
    exact hs.putBack (by rw [h]; rfl) hreading hclock hok hfresh
  | loses h => cases hok
  | ends h => exact (alike_goto (by rw [h]; rfl) (by simp)).sound hs
  | shutsDown w => exact (alike_shutdown w).sound hs

theorem run_sound (hrun : Runs codec (fun _ a => Succeeds codec a) System.start s) :
    Sound codec s := by
  induction hrun with
  | refl => exact start_sound
  | tail _ hstep ih =>
    obtain ⟨a, hstep, hok⟩ := hstep
    exact step_sound hstep hok ih

end Runs

/-- For any beat workers and producers, in every run without crashes in which the backend
operations succeed and the payloads parse: at the end of each cycle every message without
key is published once, or pending once, or in the batch of another worker, and nowhere
else; what is stored, claimed or published for it is that message, up to its dispatch
time; and a message that was put back is claimed again only after the delay, unless it has
a key and another enqueue for that key met it. -/
theorem no_message_lost (codec : Codec) (s : System ω)
    (hrun : Runs codec (fun _ a => Succeeds codec a) System.start s) :
    (∀ w s', Step codec (.ends w) s s' → ∀ n, n < s'.enqueued.length →
      OnceAt s'.contents n .broker ∨ OnceAt s'.contents n .backend ∨
        ∃ w', w' ≠ w ∧ OnceAt s'.contents n (.hand w')) ∧
    Described codec s ∧
    (∀ p ∈ s.claims, ∀ f, p.1.ticket.failedAt = some f →
      (p.1.ticket.contested = false ∨ Unkeyed p.1.message) →
      f + failedDispatchRequeueDelaySeconds ≤ p.2) := by
  have hs := run_sound hrun
  refine ⟨?_, hs.described, ?_⟩
  · intro w s' hstep n hn
    have hs' := step_sound hstep trivial hs
    have hidle : (s'.workers w).pc.hand = [] := by
      cases hstep with
      | ends h => simp [Pc.hand]
    obtain ⟨spot, hspot⟩ := hs'.conserved.once n hn
    cases spot with
    | backend => exact .inr (.inl hspot)
    | broker => exact .inl hspot
    | hand w' =>
      refine .inr (.inr ⟨w', ?_, hspot⟩)
      rintro rfl
      have hone := hspot.count_self
      simp [System.contents, hidle] at hone
  · intro p hp f hfail hcalm
    refine hs.delayed.claimed p hp f hfail ?_
    rwa [← (hs.described.claimed p hp).unkeyed_iff]

/-- One worker fails to dispatch a message it claimed, and puts it back. -/
def afterFailure (codec : Codec) (m : DelayedMessageData) (uuid uuid' : String) : System Bool :=
  (((firstClaim codec m uuid false).goto false
    (.failed (firstClaimed m uuid) m.dispatchTime [])).shutdown
    false).putBack codec false (firstClaimed m uuid) m.dispatchTime m.dispatchTime [] uuid'

section Failure

variable {codec : Codec} {m : DelayedMessageData} (hreading : Reading (m.dispatchTime : ℚ))
  (uuid uuid' : String)
include hreading

theorem afterFailure_run (hm : Parses codec m) (hback : Parses codec (requeued m m.dispatchTime))
    (hfresh : Fresh (firstClaim codec m uuid false) (requeued m m.dispatchTime) uuid') :
    Runs codec (fun _ a => Succeeds codec a) System.start (afterFailure codec m uuid uuid') := by
  obtain ⟨payload, hdump, hload⟩ := hm
  have hclaimed :
      Runs codec (fun _ a => Succeeds codec a) System.start (firstClaim codec m uuid false) :=
    firstClaim_run hdump hreading uuid false (fun _ => ⟨payload, hdump, hload⟩) (fun _ => trivial)
      (fun _ => trivial)
  have hpc := firstClaim_pc hdump hload hreading uuid false
  obtain ⟨payload', hdump', hload'⟩ := hback
  refine (hclaimed.tail ⟨_, .fails m.dispatchTime true hpc, trivial⟩).tail
    ⟨_, .putsBack m.dispatchTime uuid' ?_ hreading (le_refl _) hdump' hfresh, payload',
      hdump', hload'⟩
  simp [System.shutdown, System.goto]

theorem afterFailure_entries {payload payload' : Bytes} (hdump : codec.dump m = .ok payload)
    (hdump' : codec.dump (requeued m m.dispatchTime) = .ok payload') :
    (afterFailure codec m uuid uuid').store.delayedMessages.entries =
      [toLex (m.dispatchTime + failedDispatchRequeueDelaySeconds, taskId m uuid')] := by
  have hempty := (firstClaim_store hdump hreading uuid false).1
  have hentries := enqueue_empty hdump' hreading.small.2 uuid' hempty
  have htime : (requeued m m.dispatchTime).dispatchTime =
      m.dispatchTime + failedDispatchRequeueDelaySeconds := by simp [requeued, truncate_intCast]
  rw [htime] at hentries
  exact hentries

theorem afterFailure_metadata {payload payload' : Bytes} (hdump : codec.dump m = .ok payload)
    (hdump' : codec.dump (requeued m m.dispatchTime) = .ok payload') :
    (afterFailure codec m uuid uuid').store.metadata (metadataKey (taskId m uuid')) =
      some payload' := by
  have hempty := (firstClaim_store hdump hreading uuid false).1
  have hcorresponds : Corresponds (firstClaim codec m uuid false).store :=
    dequeue_corresponds _ _ _
      (enqueue_corresponds codec m uuid _ (storable_small hreading.whole) empty_corresponds)
  have hnone : ((firstClaim codec m uuid false).store.metadata
      (metadataKey (taskId m uuid'))).isSome = false := by
    rw [Bool.eq_false_iff]
    intro hsome
    have hin := (hcorresponds.at _).mp hsome
    simp [ZSet.members, hempty] at hin
  have hsame := enqueue_metadata_same codec uuid' (firstClaim codec m uuid false).store hdump'
    (hreading.storable m)
  have hkeeps : keepsPayload (requeued m m.dispatchTime) (taskId (requeued m m.dispatchTime) uuid')
      (firstClaim codec m uuid false).store = false := by
    unfold keepsPayload
    change (_ && ((firstClaim codec m uuid false).store.metadata
      (metadataKey (taskId m uuid'))).isSome) = false
    rw [hnone, Bool.and_false]
  rw [hkeeps] at hsame
  exact hsame

theorem afterFailure_tickets {payload : Bytes} (hdump : codec.dump m = .ok payload) :
    (afterFailure codec m uuid uuid').tickets (taskId m uuid') =
      some ((firstClaimed m uuid).failedTicket m.dispatchTime) := by
  have hempty := (firstClaim_store hdump hreading uuid false).1
  have hout : taskId (requeued m m.dispatchTime) uuid' ∉
      (firstClaim codec m uuid false).store.delayedMessages.members := by
    simp [ZSet.members, hempty]
  change (afterFailure codec m uuid uuid').tickets (taskId (requeued m m.dispatchTime) uuid') = _
  simp only [afterFailure, System.putBack, System.goto, System.enqueue, firstClaimed,
    Function.update_self]
  exact congrArg some (if_neg hout)

omit hreading in
theorem afterFailure_idle : (afterFailure codec m uuid uuid').workers true = {} := by
  have hother : (firstClaim codec m uuid false).workers true = {} :=
    firstClaim_other uuid false (by decide)
  simp [afterFailure, System.putBack, System.goto, System.enqueue, System.shutdown, hother]

end Failure

/-- A digest, the copy that is put back, and a newer digest for the same key. -/
def oldDigest : DelayedMessageData := digest 0 "old" .ignore .replace
def requeuedDigest : DelayedMessageData := digest 10 "old" .ignore .replace
def newDigest : DelayedMessageData := digest 1 "new" .ignore .replace

def digestCodec : Codec := jsonCodec [oldDigest, requeuedDigest, newDigest]

theorem digestCodec_parses {m : DelayedMessageData}
    (hm : m ∈ [oldDigest, requeuedDigest, newDigest]) :
    Parses digestCodec m :=
  ⟨json m, rfl, jsonCodec_load (json_nodup "user.digest" (some "daily") (by decide) (by decide)) hm⟩

theorem oldDigest_reading : Reading (oldDigest.dispatchTime : ℚ) := reading_small (by decide)

theorem oldDigest_requeued : requeued oldDigest oldDigest.dispatchTime = requeuedDigest := by
  rw [requeued, truncate_intCast]
  rfl

/-- The old digest fails at second 0 and is put back; then a producer enqueues the new one. -/
def digestBumped : System Bool :=
  (afterFailure digestCodec oldDigest "u" "u").produce digestCodec newDigest "u"

theorem digestBumped_run :
    Runs digestCodec (fun _ a => Succeeds digestCodec a) System.start digestBumped := by
  have hfailure : Runs digestCodec (fun _ a => Succeeds digestCodec a) System.start
      (afterFailure digestCodec oldDigest "u" "u") := by
    apply afterFailure_run oldDigest_reading
    · exact digestCodec_parses (by simp)
    · rw [oldDigest_requeued]
      exact digestCodec_parses (by simp)
    · intro t ht
      rw [show taskId (requeued oldDigest oldDigest.dispatchTime) "u" =
        taskId oldDigest "u" from rfl,
        firstClaim_tickets] at ht
      cases ht
      rfl
  refine hfailure.tail ⟨_, .produces rfl (storable_small (by decide)) ?_,
    digestCodec_parses (by simp)⟩
  intro t ht
  rw [show taskId newDigest "u" = taskId oldDigest "u" from rfl,
    afterFailure_tickets oldDigest_reading "u" "u" rfl] at ht
  cases ht
  rfl

theorem digestBumped_entries :
    digestBumped.store.delayedMessages.entries = [toLex (1, "daily")] := by
  have hbefore : (afterFailure digestCodec oldDigest "u" "u").store.delayedMessages.entries = _ :=
    afterFailure_entries oldDigest_reading "u" "u" rfl rfl
  have honly : ∀ e ∈ (afterFailure digestCodec oldDigest "u" "u").store.delayedMessages.entries,
      member e = taskId newDigest "u" := by
    rw [hbefore]
    simp [taskId, orElse, oldDigest, newDigest, digest]
  have hafter := enqueue_zset digestCodec (m := newDigest) "u"
    (afterFailure digestCodec oldDigest "u" "u").store rfl (storable_small (by decide))
  have hentries := ZSet.add_only (s := nearestInt newDigest.dispatchTime) honly
  rw [← ZSet.upsert_always] at hentries
  have hwhole : nearestInt newDigest.dispatchTime = 1 := nearestInt_eq (n := 1) (by decide)
  rw [hwhole] at hafter hentries
  exact (congrArg ZSet.entries hafter).trans hentries

theorem digestBumped_keeps : keepsPayload newDigest (taskId newDigest "u")
    (afterFailure digestCodec oldDigest "u" "u").store = true := by
  have hbefore : (afterFailure digestCodec oldDigest "u" "u").store.metadata
      (metadataKey (taskId newDigest "u")) = _ :=
        afterFailure_metadata oldDigest_reading "u" "u" rfl rfl
  rw [keepsPayload, hbefore]
  rfl

theorem digestBumped_metadata :
    digestBumped.store.metadata (metadataKey "daily") = some (json requeuedDigest) := by
  have hbefore : (afterFailure digestCodec oldDigest "u" "u").store.metadata (metadataKey _) = _ :=
    afterFailure_metadata oldDigest_reading "u" "u" rfl rfl
  have hsame := enqueue_metadata_same digestCodec (m := newDigest) "u"
    (afterFailure digestCodec oldDigest "u" "u").store rfl (storable_small (by decide))
  rw [oldDigest_requeued] at hbefore
  rw [digestBumped_keeps] at hsame
  exact hsame.trans hbefore

theorem digestBumped_ticket : digestBumped.tickets "daily" =
    some { (firstClaimed oldDigest "u").failedTicket oldDigest.dispatchTime with
      contested := true } := by
  have hbefore : (afterFailure digestCodec oldDigest "u" "u").store.delayedMessages.entries = _ :=
    afterFailure_entries oldDigest_reading "u" "u" rfl rfl
  have hin : taskId newDigest "u" ∈
      (afterFailure digestCodec oldDigest "u" "u").store.delayedMessages.members := by
    rw [ZSet.members, hbefore]
    exact List.mem_singleton_self _
  have hstamp :=
    stamp_kept (t := (afterFailure digestCodec oldDigest "u" "u").newTicket newDigest) hin
    digestBumped_keeps (afterFailure_tickets oldDigest_reading "u" "u" rfl)
  exact (enqueue_ticket (.produced newDigest)).trans (congrArg some hstamp)

/-- A message that was put back may be claimed again before its delay is over: here the
producer's enqueue keeps its payload and moves its dispatch time, as the policies of the
producer's message say. -/
theorem requeued_claimed_early : ∃ s : System Bool, ∃ p ∈ s.claims, ∃ f : Int,
    Runs digestCodec (fun _ a => Succeeds digestCodec a) System.start s ∧
    p.1.message = requeued oldDigest f ∧ p.1.ticket.failedAt = some f ∧
    ¬f + failedDispatchRequeueDelaySeconds ≤ p.2 := by
  have hbegins :
      Step digestCodec (.begins true) digestBumped (digestBumped.goto true (.cycle 1)) := by
    have hidle : (afterFailure digestCodec oldDigest "u" "u").workers true = {} :=
      afterFailure_idle "u" "u"
    have hstep : Step digestCodec (.begins true) digestBumped _ :=
      .begins ((1 : Int) : ℚ) (reading_small (by decide)) (congrArg Worker.pc hidle)
        (congrArg Worker.shutdownEvent hidle)
    rwa [truncate_intCast] at hstep
  have hclaims : Step digestCodec (.claims true) (digestBumped.goto true (.cycle 1))
      ((digestBumped.goto true (.cycle 1)).claim digestCodec true 1 1) := .claims 1 (by simp)
  obtain ⟨_, hdump, hload⟩ := digestCodec_parses (m := requeuedDigest) (by simp)
  cases hdump
  have hbatch : (digestBumped.goto true (.cycle 1)).batch digestCodec 1 1 = _ :=
    batch_only digestBumped_entries (nearestInt_eq (by decide)).ge digestBumped_metadata hload
  obtain ⟨c, hc, hmessage, hfailed⟩ :
    ∃ c ∈ (digestBumped.goto true (.cycle 1)).batch digestCodec 1 1,
      c.message = requeuedDigest ∧ c.ticket.failedAt = some 0 := by
    rw [hbatch]
    refine ⟨_, List.mem_singleton_self _, rfl, ?_⟩
    change ((digestBumped.tickets "daily").getD { origin := none }).failedAt = some 0
    rw [digestBumped_ticket, Option.getD_some]
    exact congrArg some (truncate_intCast 0)
  refine ⟨_, (c, 1), List.mem_append_right _ (List.mem_map_of_mem hc), 0,
    (digestBumped_run.tail ⟨_, hbegins, trivial⟩).tail ⟨_, hclaims, trivial⟩, ?_, hfailed,
    by simp [failedDispatchRequeueDelaySeconds]⟩
  rw [hmessage]
  exact oldDigest_requeued.symm

/-- A message without key, and the copy that is put back. -/
def greeting : DelayedMessageData :=
  { messageTopic := "user.welcome", dispatchTime := 60, payload := [] }
def requeuedGreeting : DelayedMessageData := { greeting with dispatchTime := 70 }

def greetingCodec : Codec := jsonCodec [greeting, requeuedGreeting]

theorem greetingCodec_parses {m : DelayedMessageData} (hm : m ∈ [greeting, requeuedGreeting]) :
    Parses greetingCodec m :=
  ⟨json m, rfl, jsonCodec_load (json_nodup "user.welcome" none (by decide) (by decide)) hm⟩

theorem greeting_reading : Reading (greeting.dispatchTime : ℚ) := reading_small (by decide)

theorem greeting_requeued : requeued greeting greeting.dispatchTime = requeuedGreeting := by
  rw [requeued, truncate_intCast]
  rfl

/-- One worker fails to dispatch the greeting; another one claims and publishes it. -/
theorem greeting_published_once : ∃ s : System Bool,
    Runs greetingCodec (fun _ a => Succeeds greetingCodec a) System.start s ∧
      s.enqueued = [greeting] ∧
    s.published.map Claimed.message = [requeuedGreeting] ∧
    (∀ w s', Step greetingCodec (.ends w) s s' → ∀ n, n < s'.enqueued.length →
      OnceAt s'.contents n .broker ∨ OnceAt s'.contents n .backend ∨
        ∃ w', w' ≠ w ∧ OnceAt s'.contents n (.hand w')) := by
  let failed : System Bool := afterFailure greetingCodec greeting "a" "b"
  have hfailed : Runs greetingCodec (fun _ a => Succeeds greetingCodec a) System.start failed := by
    apply afterFailure_run greeting_reading
    · exact greetingCodec_parses (by simp)
    · rw [greeting_requeued]
      exact greetingCodec_parses (by simp)
    · exact firstClaim_unused "a" false (by decide)
  have hidle : failed.workers true = {} := afterFailure_idle "a" "b"
  have hbegins : Step greetingCodec (.begins true) failed (failed.goto true (.cycle 70)) := by
    have hstep : Step greetingCodec (.begins true) failed _ :=
      .begins ((70 : Int) : ℚ) (reading_small (by decide)) (congrArg Worker.pc hidle)
        (congrArg Worker.shutdownEvent hidle)
    rwa [truncate_intCast] at hstep
  have hclaims : Step greetingCodec (.claims true) (failed.goto true (.cycle 70))
      ((failed.goto true (.cycle 70)).claim greetingCodec true 70 1) := .claims 1 (by simp)
  obtain ⟨_, hdump, hload⟩ := greetingCodec_parses (m := requeuedGreeting) (by simp)
  cases hdump
  have hmeta : failed.store.metadata (metadataKey "b") = some (json requeuedGreeting) := by
    rw [← greeting_requeued]
    exact afterFailure_metadata greeting_reading "a" "b" rfl rfl
  have hentries : failed.store.delayedMessages.entries = [toLex (70, "b")] :=
    afterFailure_entries greeting_reading "a" "b" rfl rfl
  have hbatch : (failed.goto true (.cycle 70)).batch greetingCodec 70 1 = _ :=
    batch_only hentries (nearestInt_eq (by decide)).ge hmeta hload
  have hpublishes : Step greetingCodec (.publishes true)
      ((failed.goto true (.cycle 70)).claim greetingCodec true 70 1) _ :=
    .publishes ((claim_pc _ _ _ _ _).trans (congrArg Pc.dispatching hbatch))
  have hrun :=
    ((hfailed.tail ⟨_, hbegins, trivial⟩).tail ⟨_, hclaims, trivial⟩).tail ⟨_, hpublishes, trivial⟩
  exact ⟨_, hrun, rfl, rfl, (no_message_lost greetingCodec _ hrun).1⟩

end DelayedConservation
