import Jararaca.Controllers

/-!
# Queue names

A queue name is a dotted concatenation: topic, module and qualified name for a message
handler, module and qualified name for a scheduled action. It is computed from the member
function when the queue is declared and by the beat worker, and from the callable of the
controller's instance by the worker. Two consumers share a queue where these
concatenations coincide.
-/
namespace QueueIdentity

open Controllers

/-- A registered consumer: the class of its controller, the function of its callable, and
the message type of a handler. -/
structure Consumer where
  controller : Nat
  callable : PyFunction
  messageType : Option MessageType
  deriving DecidableEq, Repr

namespace Consumer

/-- The queue the worker consumes, and the one its retry copies are addressed to. -/
def queueName (x : Consumer) : String :=
  match x.messageType with
  | some messageType => genQueueName messageType x.callable
  | none => x.callable.functionId

/-- What a queue name begins with: the topic of a handler, the module of an action. -/
def front (x : Consumer) : String :=
  match x.messageType with
  | some messageType => messageType.topic
  | none => x.callable.module

/-- What follows: the function id of a handler, the qualified name of an action. -/
def back (x : Consumer) : String :=
  match x.messageType with
  | some _ => x.callable.functionId
  | none => x.callable.qualname

theorem queueName_eq (x : Consumer) : x.queueName = x.front ++ "." ++ x.back := by
  unfold queueName front back
  cases x.messageType with
  | none => rfl
  | some messageType => simp [genQueueName, PyFunction.functionId, String.append_assoc]

end Consumer

/-- None where the instance has no function under the name. -/
def handlerConsumer (d : MessageHandlerData) : Option Consumer :=
  d.callable.map fun f => ⟨d.controller, f, some d.spec.messageType⟩

def actionConsumer (d : ScheduledActionData) : Option Consumer :=
  d.callable.map fun f => ⟨d.controller, f, none⟩

def consumersOf (c : PyClass) : List Consumer :=
  match c.busController with
  | none => []
  | some subject =>
    let data := messagebusFactory subject c
    data.1.filterMap handlerConsumer ++ data.2.filterMap actionConsumer

def consumers (app : List PyClass) : List Consumer := app.flatMap consumersOf

/-- The same two texts, or the same concatenation with the dot elsewhere. -/
def Coincide (a b a' b' : String) : Prop :=
  (a = a' ∧ b = b') ∨
    (∃ rest, a = a' ++ "." ++ rest ∧ b' = rest ++ "." ++ b) ∨
    (∃ rest, a' = a ++ "." ++ rest ∧ b = rest ++ "." ++ b')

/-- The ways in which two dotted texts can be equal. -/
theorem dotted_lists {a b a' b' : List Char} : a ++ '.' :: b = a' ++ '.' :: b' ↔
    (a = a' ∧ b = b') ∨ (∃ rest, a = a' ++ '.' :: rest ∧ b' = rest ++ '.' :: b) ∨
      (∃ rest, a' = a ++ '.' :: rest ∧ b = rest ++ '.' :: b') := by
  constructor
  · intro h
    obtain ⟨cut, rfl, hcut⟩ | ⟨cut, rfl, hcut⟩ := List.append_eq_append_iff.mp h
    · cases cut with
      | nil => exact .inl ⟨by simp, by simpa using hcut⟩
      | cons c rest =>
        obtain ⟨rfl, rfl⟩ := List.cons.inj hcut
        exact .inr (.inr ⟨rest, rfl, rfl⟩)
    · cases cut with
      | nil => exact .inl ⟨by simp, by simpa using hcut.symm⟩
      | cons c rest =>
        obtain ⟨rfl, rfl⟩ := List.cons.inj hcut
        exact .inr (.inl ⟨rest, rfl, rfl⟩)
  · rintro (⟨rfl, rfl⟩ | ⟨rest, rfl, rfl⟩ | ⟨rest, rfl, rfl⟩)
    · rfl
    · simp
    · simp

theorem toList_dotted (a b : String) : (a ++ "." ++ b).toList = a.toList ++ '.' :: b.toList := by
  simp

theorem eq_dotted_iff {a b c : String} :
    a = b ++ "." ++ c ↔ a.toList = b.toList ++ '.' :: c.toList := by
  rw [← toList_dotted, String.toList_inj]

theorem coincide_iff {a b a' b' : String} :
    a ++ "." ++ b = a' ++ "." ++ b' ↔ Coincide a b a' b' := by
  rw [eq_dotted_iff, toList_dotted, dotted_lists, String.toList_inj, String.toList_inj]
  unfold Coincide
  simp only [eq_dotted_iff]
  constructor
  · rintro (h | ⟨rest, h, h'⟩ | ⟨rest, h, h'⟩)
    · exact .inl h
    · exact .inr (.inl ⟨String.ofList rest, by simpa using h, by simpa using h'⟩)
    · exact .inr (.inr ⟨String.ofList rest, by simpa using h, by simpa using h'⟩)
  · rintro (h | ⟨rest, h, h'⟩ | ⟨rest, h, h'⟩)
    · exact .inl h
    · exact .inr (.inl ⟨rest.toList, h, h'⟩)
    · exact .inr (.inr ⟨rest.toList, h, h'⟩)

/-- Two consumers have one queue name exactly when the parts of their names coincide. -/
theorem queueName_eq_iff (x y : Consumer) :
    x.queueName = y.queueName ↔ Coincide x.front x.back y.front y.back := by
  rw [x.queueName_eq, y.queueName_eq, coincide_iff]

section Agreement

variable (c : PyClass) (name : String)

/-- The queue declared for a member that is a message handler. -/
def declaredHandlerQueue : Option String :=
  ((c.getattr name).bind declareMessageHandlerQueue).map Binding.queue

/-- The queue declared for a member that is a scheduled action. -/
def declaredActionQueue : Option String :=
  ((c.getattr name).bind declareScheduledActionQueue).map Binding.queue

/-- The function id under which the beat worker dispatches a member: it reads the
decorations of the instance's own class. -/
def beatFunctionId : Option String :=
  (c.getattr name).bind fun f => f.scheduledAction.map fun _ => f.functionId

/-- Each consumer of a controller has the queue name that was declared for its member,
and that the beat worker uses for it. -/
def NamesAgree (subject : PyClass) : Prop :=
  ∀ member ∈ subject.members,
    (∀ d, handlerOf c member = some d → ∃ x, handlerConsumer d = some x ∧
      declaredHandlerQueue c member.1 = some x.queueName) ∧
    (∀ d, actionOf c member = some d → ∃ x, actionConsumer d = some x ∧
      declaredActionQueue c member.1 = some x.queueName ∧
        beatFunctionId c member.1 = some x.queueName)

/-- A member of the decorated class that is a handler or an action is, in the class of
the instance, a handler of the same topic or an action. -/
def MembersKept (subject : PyClass) : Prop :=
  ∀ member ∈ subject.members,
    (∀ h, member.2.messageHandler = some h → ∃ g h', c.getattr member.1 = some g ∧
      g.messageHandler = some h' ∧ h'.messageType.topic = h.messageType.topic) ∧
    (member.2.messageHandler = none → member.2.scheduledAction.isSome = true →
      ∃ g, c.getattr member.1 = some g ∧ g.scheduledAction.isSome = true)

/-- The topic can be read off the name, once the function is known. -/
theorem genQueueName_topic {f : PyFunction} {a b : MessageType} :
    genQueueName a f = genQueueName b f ↔ a.topic = b.topic := by
  simp only [genQueueName, String.append_assoc]
  constructor
  · intro h
    have hlist := congrArg String.toList h
    simp only [String.toList_append] at hlist
    exact String.toList_injective (List.append_cancel_right hlist)
  · intro h
    rw [h]

variable {c}

/-- For a handler the names agree when the instance's class has a handler of this topic under the
name. -/
theorem handler_agrees {member : String × PyFunction} :
    (∀ d, handlerOf c member = some d → ∃ x, handlerConsumer d = some x ∧
      declaredHandlerQueue c member.1 = some x.queueName) ↔
    ∀ h, member.2.messageHandler = some h → ∃ g h', c.getattr member.1 = some g ∧
      g.messageHandler = some h' ∧ h'.messageType.topic = h.messageType.topic := by
  constructor
  · intro hall h hh
    obtain ⟨x, hx, hdeclared⟩ := hall ⟨c.ref, h, c.getattr member.1⟩ (by simp [handlerOf, hh])
    cases hg : c.getattr member.1 with
    | none => simp [handlerConsumer, hg] at hx
    | some g =>
      simp only [handlerConsumer, hg, Option.map_some, Option.some.injEq] at hx
      subst hx
      cases hh' : g.messageHandler with
      | none => simp [declaredHandlerQueue, declareMessageHandlerQueue, hg, hh'] at hdeclared
      | some h' =>
        refine ⟨g, h', rfl, hh', ?_⟩
        simpa [declaredHandlerQueue, declareMessageHandlerQueue, hg, hh', Consumer.queueName,
          genQueueName_topic] using hdeclared
  · intro hall d hd
    obtain ⟨h, hh, rfl⟩ := Option.map_eq_some_iff.mp hd
    obtain ⟨g, h', hg, hh', htopic⟩ := hall h hh
    refine ⟨⟨c.ref, g, some h.messageType⟩, by simp [handlerConsumer, hg], ?_⟩
    simp [declaredHandlerQueue, declareMessageHandlerQueue, hg, hh', Consumer.queueName,
      genQueueName_topic, htopic]

/-- For an action when it has an action there. -/
theorem action_agrees {member : String × PyFunction} :
    (∀ d, actionOf c member = some d → ∃ x, actionConsumer d = some x ∧
      declaredActionQueue c member.1 = some x.queueName ∧
        beatFunctionId c member.1 = some x.queueName) ↔
    (member.2.messageHandler = none → member.2.scheduledAction.isSome = true →
      ∃ g, c.getattr member.1 = some g ∧ g.scheduledAction.isSome = true) := by
  constructor
  · intro hall hh ha
    obtain ⟨a, ha⟩ := Option.isSome_iff_exists.mp ha
    obtain ⟨x, hx, -, hbeat⟩ := hall ⟨c.ref, a, c.getattr member.1⟩ (by simp [actionOf, hh, ha])
    cases hg : c.getattr member.1 with
    | none => simp [actionConsumer, hg] at hx
    | some g =>
      refine ⟨g, rfl, ?_⟩
      cases hb : g.scheduledAction with
      | none => simp [beatFunctionId, hg, hb] at hbeat
      | some b => rfl
  · intro hall d hd
    cases hh : member.2.messageHandler with
    | some h => simp [actionOf, hh] at hd
    | none =>
      obtain ⟨a, ha, rfl⟩ : ∃ a, member.2.scheduledAction = some a ∧
          ⟨c.ref, a, c.getattr member.1⟩ = d := by simpa [actionOf, hh] using hd
      obtain ⟨g, hg, hb⟩ := hall hh (by simp [ha])
      obtain ⟨b, hb⟩ := Option.isSome_iff_exists.mp hb
      refine ⟨⟨c.ref, g, none⟩, by simp [actionConsumer, hg], ?_, ?_⟩
      · simp [declaredActionQueue, declareScheduledActionQueue, hg, hb, Consumer.queueName]
      · simp [beatFunctionId, hg, hb, Consumer.queueName]

/-- All names agree exactly when the members are kept. -/
theorem namesAgree_iff (subject : PyClass) : NamesAgree c subject ↔ MembersKept c subject := by
  unfold NamesAgree MembersKept
  apply forall₂_congr
  intro member _
  rw [handler_agrees, action_agrees]

end Agreement

/-- Different consumers have different queues, and the names of declaration, worker and
beat worker agree. -/
def QueuesIdentify (app : List PyClass) : Prop :=
  (∀ x ∈ consumers app, ∀ y ∈ consumers app, x ≠ y → x.queueName ≠ y.queueName) ∧
    ∀ c ∈ app, ∀ subject, c.busController = some subject → NamesAgree c subject

/-- Queue names identify consumers exactly where no two consumers have the same front and
back or ones that coincide with the dot elsewhere, and no class with an inherited
decoration replaces a registered member by something else. -/
theorem queues_identify_iff (app : List PyClass) :
    QueuesIdentify app ↔
      (∀ x ∈ consumers app, ∀ y ∈ consumers app, x ≠ y → ¬Coincide x.front x.back y.front y.back) ∧
        ∀ c ∈ app, ∀ subject, c.busController = some subject → MembersKept c subject := by
  unfold QueuesIdentify
  simp only [ne_eq, queueName_eq_iff, namesAgree_iff]

/-- A handler method of a base class. -/
def onCreated : PyFunction where
  ref := 0
  module := "app"
  qualname := "Base.on_created"
  messageHandlers := [{ messageType := ⟨"user.created", false⟩ }]

def base : PyClass := .mk 1 [("on_created", some onCreated)] none []

/-- Two controllers that inherit it, each decorated. -/
def mailing : PyClass := .mk 2 [] (some true) [base]

def auditing : PyClass := .mk 3 [] (some true) [base]

/-- The handlers of the two controllers consume one queue. -/
theorem inherited_handler_shared : ¬QueuesIdentify [mailing, auditing] := by
  rintro ⟨hdistinct, -⟩
  exact hdistinct ⟨2, onCreated, some ⟨"user.created", false⟩⟩ (by decide)
    ⟨3, onCreated, some ⟨"user.created", false⟩⟩ (by decide) (by decide) rfl

end QueueIdentity
