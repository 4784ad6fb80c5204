import Mathlib.Data.List.Dedup
import Jararaca.Interceptors

/-!
# Controllers and their consumers

What the decorators leave on functions and classes, and the consumers the worker reads
off them. A class is its own attributes and the rest of its method resolution order; a
member function keeps the module and the qualified name of the place it was defined at,
in whatever class it is found. The queues are declared by cli.py from the member
functions of each controller, and consumed by the worker under the names of the callables
of its instance.
-/
namespace Controllers

open Interceptors

/-- A message class: `MESSAGE_TOPIC`, and whether `MESSAGE_TYPE` is "task". -/
structure MessageType where
  topic : String
  isTask : Bool
  deriving DecidableEq, Repr

/-- A `MessageHandler` decoration, as far as it is told apart from others. -/
structure MessageHandler where
  messageType : MessageType
  name : Option String := none
  group : String := "DEFAULT"
  deriving DecidableEq, Repr

structure ScheduledAction where
  name : Option String := none
  group : String := "DEFAULT"
  deriving DecidableEq, Repr

/-- A coroutine function, `ref` being its identity, with the decorations on it in the
order they were applied. -/
structure PyFunction where
  ref : Nat
  module : String
  qualname : String
  messageHandlers : List MessageHandler := []
  scheduledActions : List ScheduledAction := []
  deriving DecidableEq, Repr

/-- A class: its identity, its own attributes (none for what is not a function), the
classes after it in its method resolution order, and its own decorator metadata: none
without any, else whether a `MessageBusController` is among them. -/
inductive PyClass where
  | mk (ref : Nat) (attributes : List (String × Option PyFunction)) (decorated : Option Bool)
      (parents : List PyClass)

namespace PyClass

def ref : PyClass → Nat
  | mk ref _ _ _ => ref

def attributes : PyClass → List (String × Option PyFunction)
  | mk _ attributes _ _ => attributes

def decorated : PyClass → Option Bool
  | mk _ _ decorated _ => decorated

def mro (c : PyClass) : List PyClass :=
  match c with
  | mk _ _ _ parents => c :: parents

/-- The function found under a name: the first class of the order that has the attribute
decides. On an instance it is the bound method's function. -/
def getattr (c : PyClass) (name : String) : Option PyFunction :=
  (c.mro.findSome? fun b => b.attributes.lookup name).join

/-- `inspect_controller`: the member functions of a class, inherited ones included. -/
def members (c : PyClass) : List (String × PyFunction) :=
  (c.mro.flatMap fun b => b.attributes.map Prod.fst).dedup.filterMap fun name =>
    (c.getattr name).map fun f => (name, f)

/-- `MessageBusController.get_last`: the class that the decoration found on `c` decorates.
The metadata is an attribute, so that a class without its own has that of a base. -/
def busController (c : PyClass) : Option PyClass :=
  (c.mro.find? fun b => b.decorated.isSome).filter fun b => b.decorated == some true

/-- The members listed are the attributes that the class answers with. -/
theorem mem_members {c : PyClass} {name : String} {f : PyFunction} :
    (name, f) ∈ c.members ↔ c.getattr name = some f := by
  simp only [members, List.mem_filterMap, List.mem_dedup, Option.map_eq_some_iff, Prod.mk.injEq]
  constructor
  · rintro ⟨name', -, f', hf, rfl, rfl⟩
    exact hf
  · intro hf
    refine ⟨name, ?_, f, hf, rfl, rfl⟩
    have hjoin : c.mro.findSome? (fun b => b.attributes.lookup name) = some (some f) :=
      Option.join_eq_some_iff.mp hf
    obtain ⟨b, hb, hlookup⟩ := List.exists_of_findSome?_eq_some hjoin
    obtain ⟨before, after, hsplit, -⟩ := List.lookup_eq_some_iff.mp hlookup
    refine List.mem_flatMap.mpr ⟨b, hb, ?_⟩
    simp [hsplit]

end PyClass

namespace PyFunction

def messageHandler (f : PyFunction) : Option MessageHandler := f.messageHandlers.getLast?

def scheduledAction (f : PyFunction) : Option ScheduledAction := f.scheduledActions.getLast?

def functionId (f : PyFunction) : String := f.module ++ "." ++ f.qualname

end PyFunction

def genQueueName (messageType : MessageType) (f : PyFunction) : String :=
  messageType.topic ++ "." ++ f.module ++ "." ++ f.qualname

/-- `MessageHandlerData`: the spec is the decoration's, the callable is the function bound
to the instance of the controller. -/
structure MessageHandlerData where
  controller : Nat
  spec : MessageHandler
  callable : Option PyFunction
  deriving DecidableEq, Repr

structure ScheduledActionData where
  controller : Nat
  spec : ScheduledAction
  callable : Option PyFunction
  deriving DecidableEq, Repr

section Factory

variable (subject cls : PyClass)

def handlerOf (member : String × PyFunction) : Option MessageHandlerData :=
  member.2.messageHandler.map fun spec => ⟨cls.ref, spec, cls.getattr member.1⟩

/-- A member with both decorations is a message handler only. -/
def actionOf (member : String × PyFunction) : Option ScheduledActionData :=
  match member.2.messageHandler with
  | some _ => none
  | none => member.2.scheduledAction.map fun spec => ⟨cls.ref, spec, cls.getattr member.1⟩

/-- `messagebus_factory`, a closure over the decorated class, on an instance of `cls`. -/
def messagebusFactory : List MessageHandlerData × List ScheduledActionData :=
  (subject.members.filterMap (handlerOf cls), subject.members.filterMap (actionOf cls))

end Factory

structure Binding where
  queue : String
  routingKey : String
  deriving DecidableEq, Repr

/-- `declare_message_handler_queue` on a member function. -/
def declareMessageHandlerQueue (f : PyFunction) : Option Binding :=
  f.messageHandler.map fun h => ⟨genQueueName h.messageType f, genRoutingKey h.messageType.topic⟩

/-- `declare_scheduled_action_queue` on a member function. -/
def declareScheduledActionQueue (f : PyFunction) : Option Binding :=
  f.scheduledAction.map fun _ => ⟨f.functionId, f.functionId⟩

end Controllers
