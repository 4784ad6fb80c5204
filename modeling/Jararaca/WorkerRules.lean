import Jararaca.Worker

/-!
# What one execution can do

The settlement of a delivery in closed form, and the rule that carries a fact
through a whole execution: whatever the primitive steps of the worker respect, every
run of `handle_message` respects, in every branch and however it ends.
-/
namespace WorkerRules

open Programs Messages UnitOfWork Interceptors Worker

/-- A settled delivery refuses: the attempt is all that happens. -/
theorem settle_refused {s : Exec} (h : s.processed = true) (op : Settlement) (r : Reply) :
    settle op r s = (.error .messageProcessError, s.logged (.attempt op)) := by
  simp [settle, Prog.bind_run, Exec.logged, h]

theorem settle_applied {s : Exec} (h : s.processed = false) (op : Settlement) :
    settle op (.ok ()) s =
      (.ok (), { (s.logged (.attempt op)).logged (.settled op) with processed := true }) := by
  simp [settle, Prog.bind_run, Exec.logged, h]

theorem settle_failed {s : Exec} (h : s.processed = false) (op : Settlement) (e : PyExc) :
    settle op (.error e) s = (.error e, s.logged (.attempt op)) := by
  simp [settle, Prog.bind_run, Exec.logged, h]

theorem logging_ok {m : Run Unit} {s t : Exec} (h : m s = (.ok (), t)) :
    logging m s = (.ok (), t) := Prog.catching_ok h _

theorem logging_exception {m : Run Unit} {s t : Exec} {e : PyExc} (h : m s = (.error e, t))
    (he : e.isException = true) : logging m s = (.ok (), t) := Prog.catching_caught h he _

theorem logging_cut {m : Run Unit} {s t : Exec} {e : PyExc} (h : m s = (.error e, t))
    (he : e.isException = false) : logging m s = (.error e, t) := Prog.catching_passed h he _

/-- What gets past a clause that logs an exception by an f-string: what is no `Exception`,
and what is raised in the place of the text. -/
def escapes (e : PyExc) : Option PyExc := if e.isException then e.strFailure else some e

/-- What such a clause lets through of an ending. -/
def escaping : Reply → Option PyExc
  | .ok _ => none
  | .error e => escapes e

def replyOf : Option PyExc → Reply
  | none => .ok ()
  | some e => .error e

/-- What the critical section makes of the outcome of its body. -/
theorem critical_run (msg : Delivery) {m : Run Unit} {s t : Exec} {r : Reply} (h : m s = (r, t)) :
    critical msg m s = (replyOf (escaping r), t) := by
  cases r with
  | ok u => exact Prog.catching_ok h _
  | error e =>
    cases he : e.isException with
    | false =>
      rw [critical, Prog.catching_passed h he]
      simp [escaping, escapes, he, replyOf]
    | true =>
      rw [critical, Prog.catching_caught h he]
      simp only [escaping, escapes, he, if_true]
      cases hf : e.strFailure with
      | none =>
        obtain ⟨text, ht⟩ := (PyExc.str_ok_iff msg.repr).mpr hf
        simp [shown, ht, Prog.bind_run, replyOf]
      | some f =>
        have ht := (PyExc.str_error_iff msg.repr).mpr hf
        simp [shown, ht, Prog.bind_run, replyOf]

/-- What the primitive steps of the body of an execution respect. -/
structure Respected (F : Prog.Frame Exec) : Prop where
  settle : ∀ op r, Prog.Keeps F (settle op r)
  enqueue : ∀ m r, Prog.Keeps F (enqueueDelayedMessage m r)
  disposition : ∀ d, Prog.Keeps F (setDisposition d)

section Frames

variable {F : Prog.Frame Exec} (h : Respected F) (spec : HandlerSpec) (msg : Delivery)
  (implicit : Headers) (x : Execution)

theorem logging_keeps {m : Run Unit} (hm : Prog.Keeps F m) : Prog.Keeps F (logging m) :=
  hm.catching fun _ => Prog.Keeps.pure ()

include h

theorem scheduleRetry_keeps (n : Int) (delay : Option Seconds) (exc : Option PyExc)
    (env : SettleEnv) : Prog.Keeps F (scheduleRetry spec msg implicit n delay exc env) := by
  apply Prog.Keeps.ite
  · apply (Prog.Keeps.ofExcept _).bind
    intro _
    exact (logging_keeps (h.settle _ _)).bind fun _ => Prog.Keeps.pure _
  · apply (Prog.Keeps.ofExcept _).bind
    intro copy
    apply Prog.Keeps.bind
    · exact ((h.enqueue _ _).bind fun _ => Prog.Keeps.pure _).catching fun _ =>
        (logging_keeps (h.settle _ _)).bind fun _ => Prog.Keeps.pure _
    · intro handedOff
      exact (logging_keeps (h.settle _ _)).when.bind fun _ => Prog.Keeps.pure _

theorem controllerScheduleRetry_keeps (delay : Seconds) (onStack : Bool) (env : SettleEnv) :
    Prog.Keeps F (controllerScheduleRetry spec msg implicit delay onStack env) := by
  have hoff : Prog.Keeps F (handOff spec msg implicit delay onStack env) := by
    apply (Prog.Keeps.raise _).when.bind
    intro _
    apply (Prog.Keeps.ofExcept _).bind
    intro n
    exact (scheduleRetry_keeps h spec msg implicit n _ _ env).bind fun _ => Prog.Keeps.pure _
  exact hoff.catching fun _ => (h.settle _ _).catching fun _ => Prog.Keeps.pure _

theorem dispose_keeps (d : Disposition) : Prog.Keeps F (dispose d) :=
  (h.disposition d).bind fun _ => Prog.Keeps.raise _

theorem controllerCall_keeps (c : HandlerCall) :
    Prog.Keeps F (controllerCall spec msg implicit c) := by
  unfold controllerCall
  cases c.call with
  | ack => exact (h.settle _ _).bind fun _ => h.disposition _
  | nack => exact (h.settle _ _).bind fun _ => dispose_keeps h _
  | reject => exact (h.settle _ _).bind fun _ => dispose_keeps h _
  | retry delay =>
    exact (controllerScheduleRetry_keeps h spec msg implicit _ _ _).bind fun _ => dispose_keeps h _
  | retryLater delay =>
    apply (Prog.Keeps.ofExcept _).bind
    intro d
    exact (controllerScheduleRetry_keeps h spec msg implicit d _ _).bind fun _ => dispose_keeps h _

theorem controllerCalls_keeps (calls : List HandlerCall) :
    Prog.Keeps F (controllerCalls spec msg implicit calls) := by
  induction calls with
  | nil => exact Prog.Keeps.pure _
  | cons c cs ih => exact (controllerCall_keeps h spec msg implicit c).attempt.bind fun _ => ih

theorem runHandler_keeps : Prog.Keeps F (runHandler spec msg implicit x) := by
  apply (controllerCalls_keeps h spec msg implicit x.calls).bind
  intro _
  cases x.ending with
  | returned => exact Prog.Keeps.pure _
  | raised e => exact Prog.Keeps.raise e

theorem handleRejectMessage_keeps (requeue : Bool) (n : Int) (exc : Option PyExc) :
    Prog.Keeps F (handleRejectMessage spec msg implicit requeue n exc x) := by
  apply logging_keeps
  apply Prog.Keeps.ite
  · exact (scheduleRetry_keeps h spec msg implicit n _ _ _).bind fun _ => Prog.Keeps.pure _
  · exact logging_keeps ((Prog.Keeps.ofExcept _).bind fun _ => h.settle _ _)

theorem acknowledge_keeps : Prog.Keeps F (acknowledge x) :=
  Prog.Keeps.get.bind fun _ => (logging_keeps (h.settle _ _)).when

theorem rejectUnparseable_keeps : Prog.Keeps F (rejectUnparseable x) := by
  apply (Prog.Keeps.ofExcept _).bind
  intro _
  exact Prog.Keeps.get.bind fun _ => (logging_keeps (h.settle _ _)).when

omit h in
theorem noteException_keeps (e : PyExc) : Prog.Keeps F (noteException spec msg x e) := by
  apply (Prog.Keeps.ofExcept _).bind
  intro _
  exact Prog.Keeps.ite (logging_keeps (Prog.Keeps.ofExcept _))
    ((Prog.Keeps.ofExcept _).bind fun _ => Prog.Keeps.pure _)

theorem handleException_keeps (n : Int) (e : PyExc) :
    Prog.Keeps F (handleException spec msg implicit n x e) := by
  apply (noteException_keeps spec msg x e).bind
  intro _
  exact Prog.Keeps.ite (handleRejectMessage_keeps h spec msg implicit x _ _ _)
    (handleRejectMessage_keeps h spec msg implicit x _ _ _)

theorem exceptLadder_keeps (n : Int) (e : PyExc) :
    Prog.Keeps F (exceptLadder spec msg implicit n x e) := by
  unfold exceptLadder
  split
  · exact Prog.Keeps.pure _
  · exact rejectUnparseable_keeps h x
  · exact Prog.Keeps.ite (handleException_keeps h spec msg implicit x n _) (Prog.Keeps.raise _)

theorem transactionBody_keeps (n : Int) : Prog.Keeps F (transactionBody spec msg implicit n x) := by
  apply Prog.Keeps.tryExcept
  · have hladder : Prog.Keeps F (handlerWithLadder spec msg implicit n x) := by
      apply Prog.Keeps.tryExcept
      · exact (runHandler_keeps h spec msg implicit x).bind fun _ => acknowledge_keeps h x
      · exact exceptLadder_keeps h spec msg implicit x n
    exact hladder.catching fun _ => (Prog.Keeps.ofExcept _).bind fun _ => Prog.Keeps.pure ()
  · exact fun _ => Prog.Keeps.ite (Prog.Keeps.raise _) (Prog.Keeps.raise _)

/-- Every run of `handle_message` respects what its primitive steps and the events of its
unit of work respect. -/
theorem handleMessage_keeps (hr : ∀ events s, F.rel s (Traced.record events s))
    (interceptors : List Interceptor) : Prog.Keeps F (handleMessage spec interceptors msg x) := by
  apply (Prog.Keeps.ofExcept _).bind
  intro n
  exact unitOfWork_keeps hr _ (transactionBody_keeps h spec msg _ x n)

end Frames

section Message

variable {spec : HandlerSpec} {interceptors : List Interceptor} {msg : Delivery} {x : Execution}

/-- The contexts of the unit of work of one execution. -/
def workContexts (interceptors : List Interceptor) (msg : Delivery) (x : Execution) :
    List (Context Effect) := contextsOf (providedHeaders msg x) x.staged interceptors

/-- The implicit headers the handler runs under. -/
def workHeaders (interceptors : List Interceptor) (msg : Delivery) (x : Execution) : Headers :=
  implicitInside (providedHeaders msg x) interceptors

/-- The state in which the body of the unit of work starts. -/
def entered (interceptors : List Interceptor) (msg : Delivery) (x : Execution) : Exec :=
  Traced.record (enterTrace 0 (workContexts interceptors msg x)) {}

variable (spec interceptors x) in
/-- A retry count that is no number ends the execution before anything else. -/
theorem handleMessage_unread (hn : getRetryCount msg.headers = none) (s : Exec) :
    ∃ e, handleMessage spec interceptors msg x s = (.error e, s) := by
  refine ⟨.error "ValueError" "invalid literal for int() with base 10", ?_⟩
  have hread : (Prog.ofExcept (readRetryCount msg) : Run Int) s =
      (.error (.error "ValueError" "invalid literal for int() with base 10"), s) := by
    rw [Prog.ofExcept_run, readRetryCount, hn]
  exact Prog.bind_error hread _

variable (spec) in
/-- A context that does not enter ends the execution before the handler runs. -/
theorem handleMessage_unentered (h : ¬AllEnter (workContexts interceptors msg x)) (s : Exec) :
    ∃ e events, handleMessage spec interceptors msg x s = (.error e, Traced.record events s) := by
  cases hn : getRetryCount msg.headers with
  | none =>
    obtain ⟨e, he⟩ := handleMessage_unread spec interceptors x hn s
    exact ⟨e, [], by rw [he, Traced.record_nil]⟩
  | some n =>
    have hread : (Prog.ofExcept (readRetryCount msg) : Run Int) s = (.ok n, s) := by
      rw [Prog.ofExcept_run, readRetryCount, hn]
    obtain ⟨e, events, he⟩ := enterAll_fails (workContexts interceptors msg x) 0 s h
    refine ⟨letOut none e, events, ?_⟩
    rw [handleMessage, Prog.bind_ok hread]
    exact unitOfWork_unentered he _

/-- The execution of a delivery whose retry count is read and whose contexts enter. -/
theorem handleMessage_run {n : Int} (hn : getRetryCount msg.headers = some n)
    (h : AllEnter (workContexts interceptors msg x)) {r : Reply} {t : Exec}
    (hb : transactionBody spec msg (workHeaders interceptors msg x) n x
      (entered interceptors msg x) = (r, t)) :
    handleMessage spec interceptors msg x {} =
      (leaves (exitPending (exitOrder (workContexts interceptors msg x)) (raisedBy r)) r,
        Traced.record (exitTrace (exitOrder (workContexts interceptors msg x))
          (raisedBy r)) t) := by
  have hread : (Prog.ofExcept (readRetryCount msg) : Run Int) {} = (.ok n, {}) := by
    rw [Prog.ofExcept_run, readRetryCount, hn]
  rw [handleMessage, Prog.bind_ok hread]
  exact unitOfWork_run (workContexts interceptors msg x) _ ({} : Exec) h hb

end Message

end WorkerRules
