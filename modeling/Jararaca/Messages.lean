import Mathlib.Data.Rat.Floor
import Mathlib.Algebra.Order.Group.Unbundled.Abs

/-!
# Messages, headers and exceptions

The values that cross the worker: the exceptions it tells apart, the headers of
a delivery, the delivery itself and the delayed copy handed to the broker
backend. A header dictionary is the partial function it denotes. A float is
the rational it denotes; what Python raises on stays an error.
-/
namespace Messages

abbrev Bytes := List UInt8

/-- `MessageDisposition` of bus_message_controller.py. -/
inductive Disposition where
  | ack | nack | reject | retry
  deriving DecidableEq, Repr

/-- What `__str__` of an exception gives: a text, or another `Exception` with a text of
its own. -/
inductive ExcText where
  | of (text : String)
  | raises (kind : String) (text : ExcText)
  deriving DecidableEq, Repr

instance : Coe String ExcText := ⟨.of⟩

/-- The exceptions the worker's except clauses tell apart. `error` is any other
subclass of `Exception`, with its class and its text; `baseException` is any other
`BaseException`. -/
inductive PyExc where
  | error (kind : String) (text : ExcText)
  | messageProcessError
  | payloadValidationError (text : String)
  | timeoutError
  | messageDisposed (disposition : Disposition)
  | cancelledError
  | baseException (kind : String)
  deriving DecidableEq, Repr

namespace PyExc

/-- What `except Exception` catches. `MessageDisposed` derives from
`BaseException` on purpose, and so does `asyncio.CancelledError`. -/
def isException : PyExc → Bool
  | .messageDisposed _ | .cancelledError | .baseException _ => false
  | _ => true

/-- `str(e)`. aio-pika's own shows the `repr` of the message. -/
def str (message : String) : PyExc → Except PyExc String
  | .error _ (.of t) => .ok t
  | .error _ (.raises kind t) => .error (.error kind t)
  | .messageProcessError => .ok ("('Message already processed', " ++ message ++ ")")
  | .payloadValidationError t => .ok t
  | .timeoutError => .ok ""
  | .messageDisposed .ack => .ok "Message disposed by the handler (ack)"
  | .messageDisposed .nack => .ok "Message disposed by the handler (nack)"
  | .messageDisposed .reject => .ok "Message disposed by the handler (reject)"
  | .messageDisposed .retry => .ok "Message disposed by the handler (retry)"
  | .cancelledError => .ok ""
  | .baseException _ => .ok ""

/-- What `str(e)` raises. -/
def strFailure : PyExc → Option PyExc
  | .error _ (.raises kind t) => some (.error kind t)
  | _ => none

theorem str_error_iff (message : String) {e failure : PyExc} :
    e.str message = .error failure ↔ e.strFailure = some failure := by
  unfold str strFailure
  split <;> simp

theorem str_ok_iff (message : String) {e : PyExc} :
    (∃ text, e.str message = .ok text) ↔ e.strFailure = none := by
  unfold str strFailure
  split <;> simp

/-- Only an `Exception` is raised in the place of a text. -/
theorem strFailure_exception {e failure : PyExc} (h : e.strFailure = some failure) :
    failure.isException = true := by
  unfold strFailure at h
  split at h
  · cases h
    rfl
  · cases h

end PyExc

/-- How a call into the outside ended. -/
abbrev Reply := Except PyExc Unit

/-- A call that was cut: it ended by something `except Exception` does not catch. -/
def Cut : Reply → Prop
  | .ok _ => False
  | .error e => e.isException = false

instance : DecidablePred Cut
  | .ok _ => inferInstanceAs (Decidable False)
  | .error e => inferInstanceAs (Decidable (e.isException = false))

/-- A header value as aio-pika hands it over. `float` keeps the `repr` of the
float, `other` the `str` of any value that is not a str, int, float or bool
(None, bytes, Decimal, a nested table). -/
inductive HeaderValue where
  | str (s : String)
  | int (n : Int)
  | float (repr : String)
  | bool (b : Bool)
  | other (text : String)
  deriving DecidableEq, Repr

def HeaderValue.isScalar : HeaderValue → Bool
  | .other _ => false
  | _ => true

abbrev Headers := String → Option HeaderValue

namespace Headers

def empty : Headers := fun _ => none

/-- `a | b`, and `{**a, **b}`: the right operand wins. -/
def merge (a b : Headers) : Headers := fun k => (b k).or (a k)

def set (h : Headers) (k : String) (v : HeaderValue) : Headers := Function.update h k (some v)

/-- `{k: v for k, v in h.items() if isinstance(v, (str, int, float, bool))}`. -/
def scalars (h : Headers) : Headers := fun k => (h k).filter HeaderValue.isScalar

@[simp] theorem merge_apply (a b : Headers) (k : String) : merge a b k = (b k).or (a k) := rfl

@[simp] theorem set_same (h : Headers) (k : String) (v : HeaderValue) : h.set k v k = some v := by
  simp [set]

theorem set_other (h : Headers) {k k' : String} (v : HeaderValue) (hne : k' ≠ k) :
    h.set k v k' = h k' := by simp [set, hne]

end Headers

def xRetryCount : String := "x-retry-count"

def xLastError : String := "x-last-error"

/-- Where the decimal digits of each script start (Unicode category Nd). -/
def decimalZeros : List Nat :=
  [0x30, 0x660, 0x6f0, 0x7c0, 0x966, 0x9e6, 0xa66, 0xae6, 0xb66, 0xbe6, 0xc66, 0xce6, 0xd66,
    0xde6, 0xe50, 0xed0, 0xf20, 0x1040, 0x1090, 0x17e0, 0x1810, 0x1946, 0x19d0, 0x1a80, 0x1a90,
    0x1b50, 0x1bb0, 0x1c40, 0x1c50, 0xa620, 0xa8d0, 0xa900, 0xa9d0, 0xa9f0, 0xaa50, 0xabf0,
    0xff10, 0x104a0, 0x10d30, 0x11066, 0x110f0, 0x11136, 0x111d0, 0x112f0, 0x11450, 0x114d0,
    0x11650, 0x116c0, 0x11730, 0x118e0, 0x11950, 0x11c50, 0x11d50, 0x11da0, 0x16a60, 0x16ac0,
    0x16b50, 0x1d7ce, 0x1d7d8, 0x1d7e2, 0x1d7ec, 0x1d7f6, 0x1e140, 0x1e2f0, 0x1e950, 0x1fbf0]

def decimalValue (c : Char) : Option Nat :=
  (decimalZeros.find? fun z => z ≤ c.toNat && c.toNat < z + 10).map (c.toNat - ·)

/-- `str.isspace` of one character. -/
def isSpace (c : Char) : Bool :=
  [0x9, 0xa, 0xb, 0xc, 0xd, 0x1c, 0x1d, 0x1e, 0x1f, 0x20, 0x85, 0xa0, 0x1680, 0x2000, 0x2001,
    0x2002, 0x2003, 0x2004, 0x2005, 0x2006, 0x2007, 0x2008, 0x2009, 0x200a, 0x2028, 0x2029,
    0x202f, 0x205f, 0x3000].contains c.toNat

/-- What `int` strips: the separators are no spaces of C, and ASCII is not looked up. -/
def isIntSpace (c : Char) : Bool := isSpace c && !([0x1c, 0x1d, 0x1e, 0x1f].contains c.toNat)

/-- Digits, with at most one underscore between two of them. -/
def digitsTail : List Char → Option (List Nat)
  | [] => some []
  | '_' :: c :: cs => do
    let d ← decimalValue c
    let ds ← digitsTail cs
    some (d :: ds)
  | c :: cs => do
    let d ← decimalValue c
    let ds ← digitsTail cs
    some (d :: ds)

/-- A non-empty run of digits; Python refuses more than 4300 of them. -/
def natOfDigits : List Char → Option Nat
  | [] => none
  | c :: cs => do
    let d ← decimalValue c
    let ds ← digitsTail cs
    if ds.length < 4300 then some ((d :: ds).foldl (fun n d => 10 * n + d) 0) else none

/-- Python's `int` on a text in base ten. -/
def pyInt (s : String) : Option Int :=
  match ((s.toList.dropWhile isIntSpace).reverse.dropWhile isIntSpace).reverse with
  | '+' :: cs => (natOfDigits cs).map Int.ofNat
  | '-' :: cs => (natOfDigits cs).map fun n => -(n : Int)
  | cs => (natOfDigits cs).map Int.ofNat

/-- `int(str(v))`. The text of an int reads back as that int; the text of a
float has a point, an exponent or a letter, the text of a bool has letters. -/
def HeaderValue.toInt? : HeaderValue → Option Int
  | .int n => some n
  | .str s => pyInt s
  | .float _ => none
  | .bool _ => none
  | .other t => pyInt t

/-- `get_retry_count`: `int(str(headers.get("x-retry-count", 0)))`, or none where
`int` raises `ValueError`. -/
def getRetryCount (headers : Headers) : Option Int :=
  match headers xRetryCount with
  | none => some 0
  | some v => v.toInt?

/-- The parts of aio-pika's incoming message that the worker reads, and its `repr`. -/
structure Delivery where
  body : Bytes
  headers : Headers
  messageId : Option String
  contentType : Option String
  contentEncoding : Option String
  repr : String := "IncomingMessage"

inductive PayloadPolicy where
  | ignore | replace
  deriving DecidableEq, Repr

inductive TimePolicy where
  | replace | greater | lesser
  deriving DecidableEq, Repr

/-- `DelayedMessageData` of scheduler/types.py. -/
structure DelayedMessageData where
  messageTopic : String
  idempotencyKey : Option String := none
  dispatchTime : Int
  payload : Bytes
  headers : Option Headers := none
  targetQueue : Option String := none
  messageId : Option String := none
  contentType : Option String := none
  payloadPolicy : PayloadPolicy := .ignore
  timePolicy : TimePolicy := .replace
  contentEncoding : Option String := none

/-- `x or default` on an optional text: an empty text counts as absent. -/
def orElse (x : Option String) (default : String) : String :=
  match x with
  | none => default
  | some s => if s = "" then default else s

/-- Python's `int` on a float: towards zero. -/
def truncate (q : ℚ) : Int := if q < 0 then ⌈q⌉ else ⌊q⌋

theorem truncate_intCast (n : Int) : truncate (n : ℚ) = n := by simp [truncate]

theorem truncate_mono {p q : ℚ} (h : p ≤ q) : truncate p ≤ truncate q := by
  unfold truncate
  split
  · rename_i hp
    split
    · exact Int.ceil_mono h
    · rename_i hq
      have hneg : ⌈p⌉ ≤ 0 := Int.ceil_le.mpr (by simpa using hp.le)
      have hpos : 0 ≤ ⌊q⌋ := Int.floor_nonneg.mpr (not_lt.mp hq)
      exact hneg.trans hpos
  · rename_i hp
    rw [if_neg (not_lt.mpr ((not_lt.mp hp).trans h))]
    exact Int.floor_mono h

theorem abs_truncate_le (q : ℚ) : |(truncate q : ℚ)| ≤ |q| := by
  unfold truncate
  split
  · next hq =>
    have hceil : (⌈q⌉ : ℚ) ≤ 0 := by exact_mod_cast Int.ceil_le.mpr (by simpa using hq.le)
    rw [abs_of_nonpos hceil, abs_of_neg hq]
    exact neg_le_neg (Int.le_ceil q)
  · next hq =>
    have hfloor : (0 : ℚ) ≤ ⌊q⌋ := by exact_mod_cast Int.floor_nonneg.mpr (not_lt.mp hq)
    rw [abs_of_nonneg hfloor, abs_of_nonneg (not_lt.mp hq)]
    exact Int.floor_le q

/-- `RetryPolicy` of utils/retry.py. -/
structure RetryPolicy where
  maxRetries : Int := 5
  initialDelay : ℚ := 1
  maxDelay : ℚ := 60
  backoffFactor : ℚ := 2
  jitter : Bool := true

/-- The least magnitude that rounds to no finite float. -/
def floatLimit : ℚ := 2 ^ 1024 - 2 ^ 970

/-- `x ** n` on floats. -/
def floatPow (x : ℚ) (n : Int) : Except PyExc ℚ :=
  if x = 0 ∧ n < 0 then .error (.error "ZeroDivisionError" "zero to a negative power")
  else if floatLimit ≤ |x ^ n| then .error (.error "OverflowError" "Numerical result out of range")
  else .ok (x ^ n)

/-- A number of seconds as a caller gives it: an int or a finite float, or a float that is none. -/
inductive Seconds where
  | finite (q : ℚ)
  | infinite
  | nan

/-- `compute_retry_delay`; `draw` is what `random.uniform` returned. A product out of
the float range is an infinity: jitter makes it no number, and without jitter the cap
replaces the positive one. -/
def computeRetryDelay (policy : RetryPolicy) (retryCount : Int) (draw : ℚ) :
    Except PyExc Seconds := do
  let power ← floatPow policy.backoffFactor retryCount
  let delay := policy.initialDelay * power
  if floatLimit ≤ |delay| then
    if policy.jitter then return .nan
    else if 0 < delay then return .finite policy.maxDelay
    else return .infinite
  else if policy.jitter then
    return .finite (min (max (delay + draw) (1 / 10)) policy.maxDelay)
  else
    return .finite (min delay policy.maxDelay)

def toFloat (n : Int) : Except PyExc Seconds :=
  if floatLimit ≤ |(n : ℚ)| then .error (.error "OverflowError" "int too large to convert to float")
  else .ok (.finite n)

/-- `int(time.time() + delay)`, where an int is converted first. -/
def dispatchTime (now : ℚ) : Seconds → Except PyExc Int
  | .nan => .error (.error "ValueError" "cannot convert float NaN to integer")
  | .infinite => .error (.error "OverflowError" "cannot convert float infinity to integer")
  | .finite delay =>
    if floatLimit ≤ |delay| then .error (.error "OverflowError" "int too large to convert to float")
    else if floatLimit ≤ |now + delay| then
      .error (.error "OverflowError" "cannot convert float infinity to integer")
    else .ok (truncate (now + delay))

/-- What `int(time.time() + delay)` raises is an `Exception`. -/
theorem dispatchTime_exception {now : ℚ} {delay : Seconds} {e : PyExc}
    (h : dispatchTime now delay = .error e) : e.isException = true := by
  unfold dispatchTime at h
  split at h
  · cases h
    rfl
  · cases h
    rfl
  · split at h
    · cases h
      rfl
    · split at h
      · cases h
        rfl
      · cases h

/-- A dispatch time is the whole part of a finite float. -/
theorem dispatchTime_bounded {now : ℚ} {delay : Seconds} {time : Int}
    (h : dispatchTime now delay = .ok time) : ∃ q : ℚ, |q| < floatLimit ∧ time = truncate q := by
  unfold dispatchTime at h
  split at h
  · cases h
  · cases h
  · next d =>
    split at h
    · cases h
    · split at h
      · cases h
      · next hsum =>
        cases h
        exact ⟨now + d, not_le.mp hsum, rfl⟩

theorem dispatchTime_finite {now delay : ℚ} (hdelay : |delay| < floatLimit)
    (hsum : |now + delay| < floatLimit) :
    dispatchTime now (.finite delay) = .ok (truncate (now + delay)) := by
  rw [dispatchTime, if_neg (not_le.mpr hdelay), if_neg (not_le.mpr hsum)]

end Messages
