import Jararaca.RetryOutcomes
import Jararaca.RpcCache

/-!
# Retried requests

`HttpRpcClientBuilder._execute_with_retry` of rpc/http/decorators.py. A request is made again
after a response with one of the listed statuses and after an `Exception`. The wait before it is
`backoff_factor * (2**attempt)`, which is not a float for every attempt.
-/
namespace RpcRetries

open DecisiveCalls
open Messages (RetryPolicy floatLimit)
open RetryBackoff (Env)
open RetryOutcomes
open RpcCache (Response)

variable {α δ ε ε' : Type}

/-- An `int`, or a `float` with its value; one that is `floatLimit` or more is infinite. -/
inductive Number where
  | int (value : Int)
  | float (value : ℚ)

/-- `retry_on_status_codes or [500, 502, 503, 504]`. -/
def statusCodes : Option (List Nat) → List Nat
  | none | some [] => [500, 502, 503, 504]
  | some codes => codes

/-- `RPCRetryPolicy`, with a `backoff_factor` that is finite. -/
structure RPCRetryPolicy where
  maxAttempts : Int := 3
  backoffFactor : Number := .float 1
  retryOnStatusCodes : List Nat := statusCodes none

/-- What the backend does at each request, and `isinstance(e, Exception)`. -/
structure Backend (δ ε : Type) where
  request : Nat → Except ε (Response δ)
  isException : ε → Bool

/-- How a wait fails: its time is no float, or it is infinite. -/
inductive Stuck where
  | overflowError
  | asleep

inductive Raised (ε : Type) where
  | backend (e : ε)
  | overflowError
  | exception (message : String)
  deriving DecidableEq

inductive Ending (δ ε : Type) where
  | returned (response : Response δ)
  | raised (e : Raised ε)
  | asleep

/-- What is left of a run whose wait fails. -/
def Stuck.ending : Stuck → Ending δ ε
  | overflowError => .raised .overflowError
  | asleep => .asleep

structure Run (δ ε : Type) where
  requests : Nat
  waits : List Number
  ending : Ending δ ε

namespace Run

def ended (ending : Ending δ ε) : Run δ ε := ⟨1, [], ending⟩

/-- A request with the wait behind it, before the rest of the run. -/
def after (rest : Run δ ε) (waitTime : Number) : Run δ ε :=
  ⟨rest.requests + 1, waitTime :: rest.waits, rest.ending⟩

@[simp] theorem requests_ended (ending : Ending δ ε) : (ended ending).requests = 1 := rfl

@[simp] theorem requests_after (rest : Run δ ε) (waitTime : Number) :
    (rest.after waitTime).requests = rest.requests + 1 := rfl

@[simp] theorem ending_after (rest : Run δ ε) (waitTime : Number) :
    (rest.after waitTime).ending = rest.ending := rfl

end Run

/-- `factor * (2**attempt)`. The power of a float factor becomes a float first. -/
def waitTime : Number → Nat → Except Stuck Number
  | .int value, attempt => .ok (.int (value * 2 ^ attempt))
  | .float value, attempt =>
    if floatLimit ≤ ((2 ^ attempt : Nat) : ℚ) then .error .overflowError
    else .ok (.float (value * (2 ^ attempt : Nat)))

/-- `asyncio.sleep(delay)`: a delay above zero is added to the time of the loop, which is a
float. -/
def sleep : Number → Except Stuck Unit
  | .int value => if 0 < value ∧ floatLimit ≤ value then .error .overflowError else .ok ()
  | .float value => if floatLimit ≤ value then .error .asleep else .ok ()

def pause (policy : RPCRetryPolicy) (attempt : Nat) : Except Stuck Number := do
  let waitTime ← waitTime policy.backoffFactor attempt
  sleep waitTime
  return waitTime

/-- `except Exception as e`; `rest` is the next attempt. -/
def handleException (policy : RPCRetryPolicy) (attempt : Nat) (rest : Option (Raised ε) → Run δ ε)
    (e : Raised ε) : Run δ ε :=
  if (attempt : Int) < policy.maxAttempts - 1 then
    match pause policy attempt with
    | .ok waitTime => (rest (some e)).after waitTime
    | .error stuck => .ended stuck.ending
  else .ended (.raised e)

/-- `for attempt in range(retry_config.max_attempts)`, with the attempts that are left, before an
end of the function. The wait after a response is inside the `try`. -/
def attemptsThen (fallback : Option (Raised ε) → Run δ ε) (policy : RPCRetryPolicy)
    (backend : Backend δ ε) :
    Nat → Nat → Option (Raised ε) → Run δ ε
  | 0, _, lastException => fallback lastException
  | left + 1, attempt, lastException =>
    let rest := fun last => attemptsThen fallback policy backend left (attempt + 1) last
    match backend.request attempt with
    | .ok response =>
      if response.statusCode ∈ policy.retryOnStatusCodes ∧
        (attempt : Int) < policy.maxAttempts - 1 then
        match pause policy attempt with
        | .ok waitTime => (rest lastException).after waitTime
        | .error .overflowError => handleException policy attempt rest .overflowError
        | .error .asleep => .ended .asleep
      else .ended (.returned response)
    | .error e =>
      if backend.isException e then handleException policy attempt rest (.backend e)
      else .ended (.raised (.backend e))

/-- `raise last_exception or Exception("Retry failed")`. -/
def afterLoop : Option (Raised ε) → Run δ ε
  | some lastException => ⟨0, [], .raised lastException⟩
  | none => ⟨0, [], .raised (.exception "Retry failed")⟩

/-- What the caller gets where an attempt is the last one. -/
def verdict (backend : Backend δ ε) (attempt : Nat) : Ending δ ε :=
  match backend.request attempt with
  | .ok response => .returned response
  | .error e => .raised (.backend e)

def executeWithRetry (policy : Option RPCRetryPolicy) (backend : Backend δ ε) : Run δ ε :=
  match policy with
  | none => .ended (verdict backend 0)
  | some policy => attemptsThen afterLoop policy backend policy.maxAttempts.toNat 0 none

/-- An attempt that is not made again: a response with another status, or an exception that is no
`Exception`. -/
def Decisive (policy : RPCRetryPolicy) (backend : Backend δ ε) (attempt : Nat) : Prop :=
  match backend.request attempt with
  | .ok response => response.statusCode ∉ policy.retryOnStatusCodes
  | .error e => backend.isException e = false

/-! ## Waits -/

/-- The wait after an attempt can be computed, and ends. -/
def InRange : Number → Nat → Prop
  | .int value, attempt => value ≤ 0 ∨ (value * 2 ^ attempt : ℚ) < floatLimit
  | .float value, attempt => attempt < 1024 ∧ value * 2 ^ attempt < floatLimit

/-- The powers of two that are floats. -/
theorem floatLimit_le_pow_iff (n : Nat) : floatLimit ≤ ((2 ^ n : Nat) : ℚ) ↔ 1024 ≤ n := by
  have htwo : (1 : ℚ) ≤ 2 := by norm_num
  rw [floatLimit]
  push_cast
  constructor
  · intro hle
    by_contra hlt
    have hpow : (2 : ℚ) ^ n ≤ 2 ^ 1023 := pow_le_pow_right₀ htwo (by omega)
    have hsmall : (2 : ℚ) ^ 970 < 2 ^ 1023 := pow_lt_pow_right₀ (by norm_num) (by omega)
    have hdouble : (2 : ℚ) ^ 1024 - 2 ^ 1023 = 2 ^ 1023 :=
      sub_eq_of_eq_add ((pow_succ 2 1023).trans (mul_two _))
    have hgap : (2 : ℚ) ^ 1024 - 2 ^ 1023 < 2 ^ 1024 - 2 ^ 970 := sub_lt_sub_left hsmall _
    exact absurd hle (not_le.mpr (hpow.trans_lt (hdouble.symm.trans_lt hgap)))
  · intro hle
    have hpow : (2 : ℚ) ^ 1024 ≤ 2 ^ n := pow_le_pow_right₀ htwo hle
    exact (sub_le_self _ (pow_nonneg (by norm_num) 970)).trans hpow

/-- In the range of floats the pause is a time. -/
theorem pause_inRange {policy : RPCRetryPolicy} {attempt : Nat}
    (h : InRange policy.backoffFactor attempt) :
    ∃ waitTime, pause policy attempt = .ok waitTime := by
  unfold pause
  cases hfactor : policy.backoffFactor with
  | int value =>
    rw [hfactor] at h
    refine ⟨.int (value * 2 ^ attempt), ?_⟩
    have hsleep : ¬(0 < value * 2 ^ attempt ∧ floatLimit ≤ ((value * 2 ^ attempt : Int) : ℚ)) := by
      rintro ⟨hpos, hle⟩
      obtain hvalue | hvalue := h
      · exact absurd (mul_nonpos_of_nonpos_of_nonneg hvalue (by positivity)) (not_le.mpr hpos)
      · push_cast at hle
        exact absurd hle (not_le.mpr hvalue)
    change (sleep (.int (value * 2 ^ attempt)) >>= fun _ => _) = _
    rw [sleep, if_neg hsleep]
    rfl
  | float value =>
    rw [hfactor] at h
    obtain ⟨hattempt, hvalue⟩ := h
    refine ⟨.float (value * (2 ^ attempt : Nat)), ?_⟩
    rw [waitTime, if_neg (by rw [floatLimit_le_pow_iff]; omega)]
    change (sleep (.float (value * (2 ^ attempt : Nat))) >>= fun _ => _) = _
    rw [sleep, if_neg (by push_cast; exact not_le.mpr hvalue)]
    rfl

/-- Beyond it computing the pause raises. -/
theorem pause_out_of_range {policy : RPCRetryPolicy} {attempt : Nat}
    (h : ¬InRange policy.backoffFactor attempt) :
    ∃ stuck, pause policy attempt = .error stuck := by
  unfold pause
  cases hfactor : policy.backoffFactor with
  | int value =>
    rw [hfactor] at h
    simp only [InRange, not_or, not_le, not_lt] at h
    have hsleep : 0 < value * 2 ^ attempt ∧ floatLimit ≤ ((value * 2 ^ attempt : Int) : ℚ) := by
      refine ⟨mul_pos h.1 (by positivity), ?_⟩
      push_cast
      exact h.2
    refine ⟨.overflowError, ?_⟩
    change (sleep (.int (value * 2 ^ attempt)) >>= fun _ => _) = _
    rw [sleep, if_pos hsleep]
    rfl
  | float value =>
    rw [hfactor] at h
    rw [waitTime]
    by_cases hattempt : attempt < 1024
    · simp only [InRange, hattempt, true_and, not_lt] at h
      refine ⟨.asleep, ?_⟩
      rw [if_neg (by rw [floatLimit_le_pow_iff]; omega)]
      change (sleep (.float (value * (2 ^ attempt : Nat))) >>= fun _ => _) = _
      rw [sleep, if_pos (by push_cast; exact h)]
      rfl
    · refine ⟨.overflowError, ?_⟩
      rw [if_pos (by rw [floatLimit_le_pow_iff]; omega)]
      rfl

/-! ## One attempt -/

section Attempts

variable (fallback : Option (Raised ε) → Run δ ε) {policy : RPCRetryPolicy}
  {backend : Backend δ ε} {n : Nat}

/-- A decisive attempt, and the one that uses up the attempts, is the last. -/
theorem attempt_ends (h : Decisive policy backend n ∨ policy.maxAttempts ≤ n + 1) (left : Nat)
    (last : Option (Raised ε)) :
    attemptsThen fallback policy backend (left + 1) n last = .ended (verdict backend n) := by
  rw [attemptsThen]
  unfold Decisive at h
  unfold verdict
  cases hrequest : backend.request n with
  | ok response =>
    simp only [hrequest] at h
    have hlast : ¬(response.statusCode ∈ policy.retryOnStatusCodes ∧
        (n : Int) < policy.maxAttempts - 1) := by
      rintro ⟨hmem, hlt⟩
      obtain h | h := h
      · exact h hmem
      · omega
    simp only [hlast, if_false]
  | error e =>
    simp only [hrequest] at h
    cases hexception : backend.isException e with
    | false => simp only [hexception, Bool.false_eq_true, if_false]
    | true =>
      have hlast : ¬(n : Int) < policy.maxAttempts - 1 := by
        obtain h | h := h
        · simp [hexception] at h
        · omega
      simp only [hexception, if_true, handleException, hlast, if_false]

/-- After an attempt that decides nothing it waits, and makes the next one. -/
theorem attempt_goes_on (hundecided : ¬Decisive policy backend n)
    (hnext : (n : Int) < policy.maxAttempts - 1)
    {waitTime : Number} (hpause : pause policy n = .ok waitTime) (left : Nat)
    (last : Option (Raised ε)) :
    ∃ last', attemptsThen fallback policy backend (left + 1) n last =
      (attemptsThen fallback policy backend left (n + 1) last').after waitTime := by
  rw [attemptsThen]
  unfold Decisive at hundecided
  cases hrequest : backend.request n with
  | ok response =>
    simp only [hrequest, not_not] at hundecided
    exact ⟨last, by simp only [hundecided, hnext, and_self, if_true, hpause]⟩
  | error e =>
    simp only [hrequest, Bool.not_eq_false] at hundecided
    exact ⟨some (.backend e), by simp only [hundecided, if_true, handleException, hnext, hpause]⟩

/-- A wait that is out of range is the end. -/
theorem attempt_stuck (hundecided : ¬Decisive policy backend n)
    (hnext : (n : Int) < policy.maxAttempts - 1)
    {stuck : Stuck} (hpause : pause policy n = .error stuck) (left : Nat)
    (last : Option (Raised ε)) :
    attemptsThen fallback policy backend (left + 1) n last = .ended stuck.ending := by
  rw [attemptsThen]
  unfold Decisive at hundecided
  cases hrequest : backend.request n with
  | ok response =>
    simp only [hrequest, not_not] at hundecided
    cases stuck <;> simp only [hundecided, hnext, and_self, if_true, hpause, handleException,
      Stuck.ending]
  | error e =>
    simp only [hrequest, Bool.not_eq_false] at hundecided
    simp only [hundecided, if_true, handleException, hnext, hpause]

/-- As long as the attempts last, nothing behind the loop is reached. -/
theorem attemptsThen_fallback (other : Option (Raised ε) → Run δ ε) (left : Nat)
    (last : Option (Raised ε))
    (h : (n : Int) + left = policy.maxAttempts - 1) :
    attemptsThen fallback policy backend (left + 1) n last =
      attemptsThen other policy backend (left + 1) n last := by
  induction left generalizing n last with
  | zero =>
    have hends : Decisive policy backend n ∨ policy.maxAttempts ≤ n + 1 := .inr (by omega)
    rw [attempt_ends fallback hends, attempt_ends other hends]
  | succ left ih =>
    have hrest := fun last => ih (n := n + 1) last (by push_cast at h ⊢; omega)
    rw [attemptsThen, attemptsThen]
    simp only [hrest]

end Attempts

/-! ## Runs -/

section Runs

variable (policy : RPCRetryPolicy) (backend : Backend δ ε)

/-- The attempts end with the first decisive one, or with the last. -/
theorem execute_run {k : Nat} (h : Last (Decisive policy backend) policy.maxAttempts.toNat k)
    (hrange : ∀ attempt < k, InRange policy.backoffFactor attempt) :
    (executeWithRetry (some policy) backend).requests = k + 1 ∧
      (executeWithRetry (some policy) backend).ending = verdict backend k := by
  have hlimit := h.lt
  refine h.descend (motive := fun n => ∀ last,
    let run := attemptsThen afterLoop policy backend (policy.maxAttempts.toNat - n) n last
    run.requests + n = k + 1 ∧ run.ending = verdict backend k) ?_ ?_ none
  · intro last
    have hleft : policy.maxAttempts.toNat - k = policy.maxAttempts.toNat - (k + 1) + 1 := by omega
    have hends : Decisive policy backend k ∨ policy.maxAttempts ≤ k + 1 :=
      h.ends.imp_right fun hend => by omega
    rw [hleft, attempt_ends afterLoop hends]
    exact ⟨Nat.add_comm 1 k, rfl⟩
  · intro n hn hundecided hnext ih last
    have hleft : policy.maxAttempts.toNat - n = policy.maxAttempts.toNat - (n + 1) + 1 := by omega
    obtain ⟨waitTime, hpause⟩ := pause_inRange (hrange n hn)
    obtain ⟨last', hrun⟩ :=
      attempt_goes_on afterLoop hundecided (by omega) hpause
        (policy.maxAttempts.toNat - (n + 1)) last
    obtain ⟨hrequests, hending⟩ := ih last'
    rw [hleft, hrun]
    refine ⟨?_, hending⟩
    rw [Run.requests_after]
    omega

/-- The first wait that is out of range is the end. -/
theorem execute_stuck {k : Nat} (h : Last (Decisive policy backend) policy.maxAttempts.toNat k)
    {attempt : Nat}
    (hattempt : attempt < k) (hrange : ∀ m < attempt, InRange policy.backoffFactor m)
    {stuck : Stuck}
    (hpause : pause policy attempt = .error stuck) :
    (executeWithRetry (some policy) backend).requests = attempt + 1 ∧
      (executeWithRetry (some policy) backend).ending = stuck.ending := by
  have hlimit := h.lt
  refine h.descend (motive := fun n => n ≤ attempt → ∀ last,
    let run := attemptsThen afterLoop policy backend (policy.maxAttempts.toNat - n) n last
    run.requests + n = attempt + 1 ∧ run.ending = stuck.ending) ?_ ?_ (Nat.zero_le attempt) none
  · intro hle
    omega
  · intro n hn hundecided hnext ih hle last
    have hleft : policy.maxAttempts.toNat - n = policy.maxAttempts.toNat - (n + 1) + 1 := by omega
    have hagain : (n : Int) < policy.maxAttempts - 1 := by omega
    rw [hleft]
    obtain rfl | hlt := hle.eq_or_lt
    · rw [attempt_stuck afterLoop hundecided hagain hpause]
      exact ⟨Nat.add_comm 1 n, rfl⟩
    · obtain ⟨waitTime, hwait⟩ := pause_inRange (hrange n hlt)
      obtain ⟨last', hrun⟩ :=
        attempt_goes_on afterLoop hundecided hagain hwait (policy.maxAttempts.toNat - (n + 1)) last
      obtain ⟨hrequests, hending⟩ := ih hlt last'
      rw [hrun]
      refine ⟨?_, hending⟩
      rw [Run.requests_after]
      omega

/-- The requests are as many as the first decisive attempt takes, and at most `max_attempts`; the
last of them decides what the caller gets, and nothing behind the loop is reached. -/
structure RightResponse (policy : RPCRetryPolicy) (backend : Backend δ ε) : Prop where
  requests : ((executeWithRetry (some policy) backend).requests : ℕ∞) =
    min (first (Decisive policy backend)) policy.maxAttempts.toNat
  ending : (executeWithRetry (some policy) backend).ending =
    verdict backend ((executeWithRetry (some policy) backend).requests - 1)
  unreached : ∀ fallback, executeWithRetry (some policy) backend =
    attemptsThen fallback policy backend policy.maxAttempts.toNat 0 none

/-- Every attempt that is followed by another one has a wait within range. -/
def WaitsInRange (policy : RPCRetryPolicy) (backend : Backend δ ε) : Prop :=
  ∀ attempt : Nat, (attempt + 1 : Int) < policy.maxAttempts →
    (∀ m ≤ attempt, ¬Decisive policy backend m) →
    InRange policy.backoffFactor attempt

/-- The caller gets the right outcome exactly when the pauses on the way are in range. -/
theorem rightResponse_iff (hattempts : 1 ≤ policy.maxAttempts) :
    RightResponse policy backend ↔ WaitsInRange policy backend := by
  have hpos : 0 < policy.maxAttempts.toNat := by omega
  obtain ⟨k, hlast⟩ := exists_last (Decisive policy backend) hpos
  constructor
  · intro h attempt hnext hundecided
    have hattempt : attempt < k := (hlast.lt_iff attempt).mpr ⟨by omega, hundecided⟩
    by_contra hrange
    classical
    have hex : ∃ m, ¬InRange policy.backoffFactor m := ⟨attempt, hrange⟩
    have hfirst : Nat.find hex ≤ attempt := Nat.find_min' hex hrange
    obtain ⟨stuck, hpause⟩ := pause_out_of_range (Nat.find_spec hex)
    obtain ⟨hfew, -⟩ := execute_stuck policy backend hlast (by omega)
      (fun m hm => not_not.mp (Nat.find_min hex hm)) hpause
    have hcount := h.requests.trans hlast.count.symm
    have hrequests :
        (executeWithRetry (some policy) backend).requests = k + 1 := by exact_mod_cast hcount
    omega
  · intro h
    have hrange : ∀ attempt < k, InRange policy.backoffFactor attempt := by
      intro attempt hattempt
      obtain ⟨hnext, hundecided⟩ := (hlast.lt_iff attempt).mp hattempt
      exact h attempt (by omega) hundecided
    obtain ⟨hrequests, hending⟩ := execute_run policy backend hlast hrange
    refine ⟨?_, ?_, ?_⟩
    · rw [hrequests, hlast.count]
    · rw [hending, hrequests]
      rfl
    · intro fallback
      have hleft : policy.maxAttempts.toNat = policy.maxAttempts.toNat - 1 + 1 := by omega
      rw [executeWithRetry, hleft]
      exact attemptsThen_fallback afterLoop fallback _ none (by omega)

end Runs

/-- Both loops end as the outcomes say, whatever they are, as long as no wait between two requests
is beyond the floats. -/
theorem right_outcomes_iff (env : Env α ε) (policy : RetryPolicy) (hretries : 0 ≤ policy.maxRetries)
    (backend : Backend δ ε') (config : RPCRetryPolicy) (hattempts : 1 ≤ config.maxAttempts) :
    RightOutcome env policy ∧ RightResponse config backend ↔ WaitsInRange config backend := by
  rw [rightResponse_iff config backend hattempts]
  exact and_iff_right (retryWithBackoff_right env policy hretries)

def unavailable : Backend Unit Unit where
  request _ := .ok ⟨503, ()⟩
  isException _ := true

/-- Under the default policies both loops end as the outcomes say. -/
theorem right_outcomes_default :
    RightOutcome (RetryBackoff.failing fun _ => .highest) {} ∧ RightResponse {} unavailable := by
  refine (right_outcomes_iff _ {} (by decide) unavailable {} (by decide)).mpr ?_
  intro attempt hnext _
  have hattempt : attempt < 2 := by
    change (attempt + 1 : Int) < 3 at hnext
    omega
  have hpow := not_le.mp (mt (floatLimit_le_pow_iff attempt).mp (by omega))
  refine ⟨by omega, ?_⟩
  rw [one_mul]
  exact_mod_cast hpow

def noDelay : RPCRetryPolicy where
  maxAttempts := 1026
  backoffFactor := .float 0

theorem unavailable_last : Last (Decisive noDelay unavailable) noDelay.maxAttempts.toNat 1025 := by
  refine ⟨by decide, ?_, .inr (by decide)⟩
  intro m _ hdecisive
  exact hdecisive (by decide)

/-- The power of two of attempt 1024 is no float, so the last attempt is not made. -/
theorem last_attempt_missed :
    (executeWithRetry (some noDelay) unavailable).requests = 1025 ∧
      (executeWithRetry (some noDelay) unavailable).ending = .raised .overflowError ∧
      ¬RightResponse noDelay unavailable := by
  have hrange : ∀ m < 1024, InRange noDelay.backoffFactor m := by
    intro m hm
    refine ⟨hm, ?_⟩
    rw [zero_mul]
    exact sub_pos.mpr (pow_lt_pow_right₀ (by norm_num) (by omega))
  have hpause : pause noDelay 1024 = .error .overflowError := by
    have hlimit := (floatLimit_le_pow_iff 1024).mpr le_rfl
    rw [pause, noDelay, waitTime, if_pos hlimit]
    rfl
  obtain ⟨hrequests, hending⟩ :=
    execute_stuck noDelay unavailable unavailable_last (by omega) hrange hpause
  refine ⟨hrequests, hending, ?_⟩
  intro h
  have hcount := h.requests.trans unavailable_last.count.symm
  rw [hrequests] at hcount
  exact absurd hcount (by decide)

end RpcRetries
