import Jararaca.Controllers

/-!
# The handlers a worker starts

`MessageBusWorker.start_async` goes over the controllers and over the handlers of each,
leaves out what the name and group filters do not let through, and skips a task handler
whose topic is already in the map of registered topics. The map is made anew for each
controller.
-/
namespace HandlerSelection

open Controllers

/-- `handler_names` and `handler_groups`. -/
structure Filters where
  handlerNames : Option (List String) := none
  handlerGroups : Option (List String) := none

/-- The two filters of the loops: without a name nothing passes a filter by names. -/
def Filters.passes (filters : Filters) (name : Option String) (group : String) : Bool :=
  (match filters.handlerNames, name with
    | none, _ => true
    | some names, some n => names.contains n
    | some _, none => false) &&
  match filters.handlerGroups with
    | none => true
    | some groups => groups.contains group

/-- What `start_async` reads: the controllers in the order of the app, by their class, and
the handlers and actions of each in the order in which its sets are iterated. -/
structure Listing where
  controllers : List Nat
  handlers : Nat → List (MessageHandler × Option PyFunction)
  schedulers : Nat → List (ScheduledAction × Option PyFunction) := fun _ => []

namespace Listing

def handlerData (l : Listing) (c : Nat) : List MessageHandlerData :=
  (l.handlers c).map fun h => ⟨c, h.1, h.2⟩

def schedulerData (l : Listing) (c : Nat) : List ScheduledActionData :=
  (l.schedulers c).map fun s => ⟨c, s.1, s.2⟩

end Listing

def topicOf (d : MessageHandlerData) : String := d.spec.messageType.topic

def isTask (d : MessageHandlerData) : Bool := d.spec.messageType.isTask

section Loops

variable (filters : Filters)

def passing (d : MessageHandlerData) : Bool := filters.passes d.spec.name d.spec.group

/-- The loop over the handlers of one controller: `seen` is `message_handler_data_map`. -/
def registerHandlers : List MessageHandlerData → (String → Option MessageHandlerData) →
    List MessageHandlerData → List MessageHandlerData
  | [], _, all => all
  | d :: rest, seen, all =>
    if !passing filters d then registerHandlers rest seen all
    else if (seen (topicOf d)).isSome && isTask d then registerHandlers rest seen all
    else registerHandlers rest (Function.update seen (topicOf d) (some d)) (all.insert d)

/-- The loop over the scheduled actions of one controller. -/
def registerSchedulers :
    List ScheduledActionData → List ScheduledActionData → List ScheduledActionData
  | [], all => all
  | d :: rest, all =>
    if filters.passes d.spec.name d.spec.group then registerSchedulers rest (all.insert d)
    else registerSchedulers rest all

variable (l : Listing)

/-- The loop over the controllers: the sets handed to the consumer. -/
def registerControllers : List Nat → List MessageHandlerData × List ScheduledActionData →
    List MessageHandlerData × List ScheduledActionData
  | [], all => all
  | c :: rest, all =>
    let schedulers := registerSchedulers filters (l.schedulerData c) all.2
    let handlers := registerHandlers filters (l.handlerData c) (fun _ => none) all.1
    registerControllers rest (handlers, schedulers)

/-- `start_async`, up to the call of the consumer. -/
def startAsync : List MessageHandlerData × List ScheduledActionData :=
  registerControllers filters l l.controllers ([], [])

end Loops

section Registered

variable {filters : Filters}

/-- The first handler of a topic that passes the filters. -/
def firstOf (filters : Filters) (handlers : List MessageHandlerData) (topic : String) :
    Option MessageHandlerData :=
  handlers.find? fun d => passing filters d && topicOf d == topic

theorem firstOf_other {e : MessageHandlerData} {topic : String}
    (h : passing filters e = false ∨ topicOf e ≠ topic) (rest : List MessageHandlerData) :
    firstOf filters (e :: rest) topic = firstOf filters rest topic := by
  unfold firstOf
  apply List.find?_cons_of_neg
  obtain h | h := h <;> simp [h]

theorem firstOf_same {e : MessageHandlerData} (h : passing filters e = true)
    (rest : List MessageHandlerData) : firstOf filters (e :: rest) (topicOf e) = some e := by
  unfold firstOf
  apply List.find?_cons_of_pos
  simp [h]

/-- A handler the loop registers when it starts with the topics `seen`: one that passes,
and a task handler only as the first of a new topic. -/
def Registers (filters : Filters) (handlers : List MessageHandlerData)
    (seen : String → Option MessageHandlerData) (d : MessageHandlerData) : Prop :=
  d ∈ handlers ∧ passing filters d = true ∧ (isTask d = true →
    seen (topicOf d) = none ∧ firstOf filters handlers (topicOf d) = some d)

section Turns

variable {e d : MessageHandlerData} {rest : List MessageHandlerData}
  {seen : String → Option MessageHandlerData}

theorem registers_filtered (hp : passing filters e = false) :
    Registers filters (e :: rest) seen d ↔ Registers filters rest seen d := by
  unfold Registers
  rw [firstOf_other (.inl hp)]
  constructor
  · rintro ⟨hmem, hpass, htask⟩
    obtain rfl | hrest := List.mem_cons.mp hmem
    · simp [hp] at hpass
    · exact ⟨hrest, hpass, htask⟩
  · rintro ⟨hrest, hpass, htask⟩
    exact ⟨List.mem_cons_of_mem _ hrest, hpass, htask⟩

/-- A task handler of a topic that was seen is skipped. -/
theorem registers_skipped (hseen : (seen (topicOf e)).isSome = true) (htask : isTask e = true) :
    Registers filters (e :: rest) seen d ↔ Registers filters rest seen d := by
  -- a task handler of a new topic is not of the topic of `e`
  have hother : seen (topicOf d) = none → topicOf e ≠ topicOf d := by
    intro hnone heq
    simp [heq, hnone] at hseen
  unfold Registers
  constructor
  · rintro ⟨hmem, hpass, hfirst⟩
    obtain rfl | hrest := List.mem_cons.mp hmem
    · exact absurd rfl (hother (hfirst htask).1)
    · refine ⟨hrest, hpass, ?_⟩
      intro hd
      obtain ⟨hnone, hhead⟩ := hfirst hd
      rw [firstOf_other (.inr (hother hnone))] at hhead
      exact ⟨hnone, hhead⟩
  · rintro ⟨hrest, hpass, hfirst⟩
    refine ⟨List.mem_cons_of_mem _ hrest, hpass, ?_⟩
    intro hd
    obtain ⟨hnone, hhead⟩ := hfirst hd
    exact ⟨hnone, by rw [firstOf_other (.inr (hother hnone)), hhead]⟩

/-- A handler that passes and is not skipped is registered, and takes its topic. -/
theorem registers_kept (hp : passing filters e = true)
    (hkeep : isTask e = true → seen (topicOf e) = none) :
    Registers filters (e :: rest) seen d ↔
      d = e ∨ Registers filters rest (Function.update seen (topicOf e) (some e)) d := by
  unfold Registers
  constructor
  · rintro ⟨hmem, hpass, hfirst⟩
    by_cases hde : d = e
    · exact .inl hde
    · have hrest : d ∈ rest := (List.mem_cons.mp hmem).resolve_left hde
      refine .inr ⟨hrest, hpass, ?_⟩
      intro hd
      obtain ⟨hnone, hhead⟩ := hfirst hd
      have hne : topicOf e ≠ topicOf d := by
        intro heq
        rw [← heq, firstOf_same hp, Option.some.injEq] at hhead
        exact hde hhead.symm
      rw [firstOf_other (.inr hne)] at hhead
      exact ⟨by rw [Function.update_of_ne hne.symm, hnone], hhead⟩
  · rintro (rfl | ⟨hrest, hpass, hfirst⟩)
    · exact ⟨by simp, hp, fun hd => ⟨hkeep hd, firstOf_same hp rest⟩⟩
    · refine ⟨List.mem_cons_of_mem _ hrest, hpass, ?_⟩
      intro hd
      obtain ⟨hnone, hhead⟩ := hfirst hd
      have hne : topicOf e ≠ topicOf d := by
        intro heq
        rw [heq, Function.update_self] at hnone
        contradiction
      rw [Function.update_of_ne hne.symm] at hnone
      exact ⟨hnone, by rw [firstOf_other (.inr hne), hhead]⟩

end Turns

/-- What the loop over the handlers of one controller adds. -/
theorem mem_registerHandlers {handlers : List MessageHandlerData} {d : MessageHandlerData}
    {seen : String → Option MessageHandlerData} {all : List MessageHandlerData} :
    d ∈ registerHandlers filters handlers seen all ↔
      d ∈ all ∨ Registers filters handlers seen d := by
  induction handlers generalizing seen all with
  | nil => simp [registerHandlers, Registers]
  | cons e rest ih =>
    rw [registerHandlers]
    by_cases hp : passing filters e = true
    · rw [if_neg (by simp [hp])]
      split
      · next hskip =>
        obtain ⟨hseen, htask⟩ := Bool.and_eq_true_iff.mp hskip
        rw [ih, registers_skipped hseen htask]
      · next hkeep =>
        have hnew : isTask e = true → seen (topicOf e) = none := by
          intro htask
          simpa [htask] using hkeep
        rw [ih, registers_kept hp hnew, List.mem_insert_iff, or_assoc, or_left_comm]
    · have hfalse : passing filters e = false := by simpa using hp
      rw [if_pos (by simp [hfalse]), ih, registers_filtered hfalse]

/-- The set handed to the consumer: every handler that passes, of the task handlers of a
controller only the first of its topic. -/
theorem mem_startAsync {l : Listing} {d : MessageHandlerData} :
    d ∈ (startAsync filters l).1 ↔
      ∃ c ∈ l.controllers, Registers filters (l.handlerData c) (fun _ => none) d := by
  have hloop : ∀ (cs : List Nat) (all : List MessageHandlerData × List ScheduledActionData),
      d ∈ (registerControllers filters l cs all).1 ↔
        d ∈ all.1 ∨ ∃ c ∈ cs, Registers filters (l.handlerData c) (fun _ => none) d := by
    intro cs
    induction cs with
    | nil => simp [registerControllers]
    | cons c cs ih =>
      intro all
      rw [registerControllers, ih, mem_registerHandlers, or_assoc]
      simp
  rw [startAsync, hloop]
  simp

theorem firstOf_exists {handlers : List MessageHandlerData} {d : MessageHandlerData}
    {topic : String}
    (hmem : d ∈ handlers) (hpass : passing filters d = true) (htopic : topicOf d = topic) :
    ∃ f, firstOf filters handlers topic = some f := by
  apply Option.isSome_iff_exists.mp
  rw [firstOf, List.find?_isSome]
  exact ⟨d, hmem, by simp [hpass, htopic]⟩

/-- The first handler of a topic is registered, whatever its message type. -/
theorem firstOf_registers {handlers : List MessageHandlerData} {f : MessageHandlerData}
    {topic : String}
    (h : firstOf filters handlers topic = some f) :
    topicOf f = topic ∧ Registers filters handlers (fun _ => none) f := by
  have hfound := List.find?_some h
  obtain ⟨hpass, htopic⟩ := Bool.and_eq_true_iff.mp hfound
  have htopic : topicOf f = topic := by simpa using htopic
  refine ⟨htopic, List.mem_of_find?_eq_some h, hpass, ?_⟩
  intro _
  exact ⟨rfl, by rw [htopic, h]⟩

theorem controller_of_mem {l : Listing} {c : Nat} {d : MessageHandlerData}
    (h : d ∈ l.handlerData c) :
    d.controller = c := by
  obtain ⟨_, _, rfl⟩ := List.mem_map.mp h
  rfl

end Registered

/-- A topic with a handler whose message type is a task. -/
def TaskTopic (l : Listing) (topic : String) : Prop :=
  ∃ c ∈ l.controllers, ∃ d ∈ l.handlerData c, topicOf d = topic ∧ isTask d = true

/-- A handler of a topic in a controller of the app that passes the filters. -/
structure Candidate (filters : Filters) (l : Listing) (topic : String) (c : Nat)
    (d : MessageHandlerData) : Prop where
  listed : c ∈ l.controllers
  mem : d ∈ l.handlerData c
  passes : passing filters d = true
  topic_eq : topicOf d = topic

/-- At most one handler for a task topic, all that pass for any other topic, and at least
one for a task topic where some pass. -/
structure OneHandlerPerTask (filters : Filters) (l : Listing) : Prop where
  unique : ∀ topic, TaskTopic l topic → ∀ d ∈ (startAsync filters l).1,
    ∀ d' ∈ (startAsync filters l).1, topicOf d = topic → topicOf d' = topic → d = d'
  others : ∀ topic, ¬TaskTopic l topic → ∀ c d, Candidate filters l topic c d →
    d ∈ (startAsync filters l).1
  served : ∀ topic, TaskTopic l topic → (∃ c d, Candidate filters l topic c d) →
    ∃ d ∈ (startAsync filters l).1, topicOf d = topic

/-- The handlers that pass for a task topic are in one controller, and one of them that
is an event handler is the first of them. -/
structure TasksApart (filters : Filters) (l : Listing) : Prop where
  controller : ∀ topic, TaskTopic l topic → ∀ c d c' d', Candidate filters l topic c d →
    Candidate filters l topic c' d' → c = c'
  first : ∀ topic, TaskTopic l topic → ∀ c d, Candidate filters l topic c d → isTask d = false →
    firstOf filters (l.handlerData c) topic = some d

section Selection

variable {filters : Filters} {l : Listing}

theorem registered_candidate {d : MessageHandlerData} (h : d ∈ (startAsync filters l).1) :
    ∃ c, Candidate filters l (topicOf d) c d ∧
      (isTask d = true → firstOf filters (l.handlerData c) (topicOf d) = some d) := by
  obtain ⟨c, hc, hmem, hpass, hfirst⟩ := mem_startAsync.mp h
  exact ⟨c, ⟨hc, hmem, hpass, rfl⟩, fun htask => (hfirst htask).2⟩

/-- An event handler that passes is registered. -/
theorem Candidate.event_registered {topic : String} {c : Nat} {d : MessageHandlerData}
    (h : Candidate filters l topic c d) (hevent : isTask d = false) :
    d ∈ (startAsync filters l).1 := by
  refine mem_startAsync.mpr ⟨c, h.listed, h.mem, h.passes, ?_⟩
  intro htask
  simp [hevent] at htask

/-- Of the candidates of a topic in a controller the first is registered. -/
theorem Candidate.first_registered {topic : String} {c : Nat} {d : MessageHandlerData}
    (h : Candidate filters l topic c d) : ∃ f ∈ (startAsync filters l).1,
      firstOf filters (l.handlerData c) topic = some f ∧ topicOf f = topic ∧ f.controller = c := by
  obtain ⟨f, hf⟩ := firstOf_exists h.mem h.passes h.topic_eq
  obtain ⟨htopic, hreg⟩ := firstOf_registers hf
  exact ⟨f, mem_startAsync.mpr ⟨c, h.listed, hreg⟩, hf, htopic, controller_of_mem hreg.1⟩

/-- If the handlers of task topics are apart, at most one is registered for each. -/
theorem unique_of_apart (h : TasksApart filters l) {topic : String} (ht : TaskTopic l topic)
    {d d' : MessageHandlerData} (hd : d ∈ (startAsync filters l).1)
    (hd' : d' ∈ (startAsync filters l).1) (htopic : topicOf d = topic)
    (htopic' : topicOf d' = topic) :
    d = d' := by
  have hleads : ∀ e ∈ (startAsync filters l).1, topicOf e = topic →
      ∃ c, Candidate filters l topic c e ∧ firstOf filters (l.handlerData c) topic = some e := by
    intro e he heq
    obtain ⟨c, hc, hfirst⟩ := registered_candidate he
    rw [heq] at hc hfirst
    refine ⟨c, hc, ?_⟩
    cases htask : isTask e with
    | true => exact hfirst htask
    | false => exact h.first topic ht c e hc htask
  obtain ⟨c, hc, hfirst⟩ := hleads d hd htopic
  obtain ⟨c', hc', hfirst'⟩ := hleads d' hd' htopic'
  rw [h.controller topic ht c d c' d' hc hc', hfirst'] at hfirst
  exact (Option.some.inj hfirst).symm

/-- If one handler is registered for each task topic, they are apart. -/
theorem apart_of_unique (h : OneHandlerPerTask filters l) : TasksApart filters l where
  controller := by
    intro topic ht c d c' d' hc hc'
    obtain ⟨f, hf, -, htopic, hctl⟩ := hc.first_registered
    obtain ⟨f', hf', -, htopic', hctl'⟩ := hc'.first_registered
    rw [← hctl, ← hctl', h.unique topic ht f hf f' hf' htopic htopic']
  first := by
    intro topic ht c d hc hevent
    obtain ⟨f, hf, hfirst, htopic, -⟩ := hc.first_registered
    rw [hfirst, h.unique topic ht f hf d (hc.event_registered hevent) htopic hc.topic_eq]

end Selection

/-- The worker starts one handler for each task exactly where the handlers that pass for a
task topic are all in one controller, and none of them behind the first is an event
handler. The other two demands are always met. -/
theorem one_handler_per_task_iff (filters : Filters) (l : Listing) :
    OneHandlerPerTask filters l ↔ TasksApart filters l := by
  constructor
  · exact apart_of_unique
  · intro h
    constructor
    · intro topic ht d hd d' hd' htopic htopic'
      exact unique_of_apart h ht hd hd' htopic htopic'
    · intro topic hnot c d hc
      apply hc.event_registered
      rw [← Bool.not_eq_true]
      intro htask
      exact hnot ⟨c, hc.listed, d, hc.mem, hc.topic_eq, htask⟩
    · rintro topic - ⟨c, d, hc⟩
      obtain ⟨f, hf, -, htopic, -⟩ := hc.first_registered
      exact ⟨f, hf, htopic⟩

/-- A task handler in each of two controllers. -/
def charge : MessageHandler where
  messageType := ⟨"order.charge", true⟩

def chargeIn (c : Nat) : PyFunction where
  ref := c
  module := "app"
  qualname := if c = 0 then "Orders.charge" else "Billing.charge"
  messageHandlers := [charge]

def twoChargers : Listing where
  controllers := [0, 1]
  handlers c := [(charge, some (chargeIn c))]

/-- Both are started for the one task. -/
theorem task_handled_twice : ¬OneHandlerPerTask {} twoChargers := by
  intro h
  have htask : TaskTopic twoChargers "order.charge" :=
    ⟨0, by decide, ⟨0, charge, some (chargeIn 0)⟩, by decide, rfl, rfl⟩
  have heq := h.unique "order.charge" htask ⟨0, charge, some (chargeIn 0)⟩ (by decide)
    ⟨1, charge, some (chargeIn 1)⟩ (by decide) rfl rfl
  exact absurd heq (by decide)

end HandlerSelection
