import Jararaca.Messages
import Mathlib.Algebra.Order.Field.Basic
import Mathlib.Data.List.Range
import Mathlib.Tactic.Linarith
import Mathlib.Tactic.Positivity
import Mathlib.Tactic.Ring

/-!
# Retry with backoff

`retry_with_backoff` of utils/retry.py, and `compute_retry_delay` of the worker beside it, on
exact numbers. The delay is a running value: each failure takes the one slept before, grows it,
caps it and then moves it by the jitter. So what is slept after the n-th failure is a function
of the draws alone, greatest when every draw is.
-/
namespace RetryBackoff

open Messages (RetryPolicy)

variable {α ε : Type}

/-- What `random.random()` returned. -/
structure Draw where
  value : ℚ
  nonneg : 0 ≤ value
  le_one : value ≤ 1

namespace Draw

def uniform (r : Draw) (a b : ℚ) : ℚ := a + (b - a) * r.value

def highest : Draw := ⟨1, by decide, by decide⟩

theorem uniform_upper (r : Draw) {a : ℚ} (h : 0 ≤ a) : r.uniform (-a) a ≤ a := by
  have hr : (a - -a) * r.value ≤ (a - -a) * 1 := mul_le_mul_of_nonneg_left r.le_one (by linarith)
  unfold uniform
  linarith

@[simp] theorem uniform_highest (a b : ℚ) : highest.uniform a b = b := by
  simp [uniform, highest]

end Draw

/-- What `fn` does at each call, whether `isinstance(e, retry_exceptions)`, whether there is a
`cancel_event` that is set at a failure, whether there is a callback, and the jitter. -/
structure Env (α ε : Type) where
  fn : Nat → Except ε α
  retryExceptions : ε → Bool
  cancelled : Nat → Bool
  onRetryCallback : Bool
  draw : Nat → Draw

inductive Ending (α ε : Type) where
  | returned (value : α)
  | raised (e : ε)
  | cancelledError (cause : ε)
  | runtimeError (message : String)
  deriving DecidableEq, Repr

/-- The calls of `fn`, the arguments of the callback, the delays slept, and how it ends. -/
structure Run (α ε : Type) where
  calls : Nat
  callbacks : List (Nat × ε × ℚ)
  slept : List ℚ
  ending : Ending α ε

namespace Run

def ended (ending : Ending α ε) : Run α ε := ⟨1, [], [], ending⟩

/-- A failed call with its callback and its sleep, before the rest of the run. -/
def after (rest : Run α ε) (callback : Bool) (retryCount : Nat) (e : ε) (delay : ℚ) : Run α ε :=
  ⟨rest.calls + 1, (if callback then [(retryCount, e, delay)] else []) ++ rest.callbacks,
    delay :: rest.slept, rest.ending⟩

end Run

/-- The jitter of both functions: a quarter of the delay either way, and at least a tenth. -/
def applyJitter (r : Draw) (delay : ℚ) : ℚ :=
  max (delay + r.uniform (-(delay * (1 / 4))) (delay * (1 / 4))) (1 / 10)

/-- The delay after a failure, from the one before it. -/
def nextDelay (policy : RetryPolicy) (retryCount : Nat) (r : Draw) (delay : ℚ) : ℚ :=
  let delay := if 0 < retryCount then min (delay * policy.backoffFactor) policy.maxDelay else delay
  if policy.jitter then applyJitter r delay else delay

/-- `for retry_count in range(policy.max_retries + 1)`, with the counts that are left. -/
def retryLoop (env : Env α ε) (policy : RetryPolicy) : Nat → Nat → ℚ → Option ε → Run α ε
  | 0, _, _, some lastException => ⟨0, [], [], .raised lastException⟩
  | 0, _, _, none => ⟨0, [], [], .runtimeError "Unexpected error in retry logic"⟩
  | left + 1, retryCount, delay, _ =>
    match env.fn retryCount with
    | .ok value => .ended (.returned value)
    | .error e =>
      if env.retryExceptions e = false then .ended (.raised e)
      else if env.cancelled retryCount then .ended (.cancelledError e)
      else if policy.maxRetries ≤ retryCount then .ended (.raised e)
      else
        let delay := nextDelay policy retryCount (env.draw retryCount) delay
        (retryLoop env policy left (retryCount + 1) delay (some e)).after
          env.onRetryCallback retryCount e delay

def retryWithBackoff (env : Env α ε) (policy : RetryPolicy) : Run α ε :=
  retryLoop env policy (policy.maxRetries + 1).toNat 0 policy.initialDelay none

def computeRetryDelay (policy : RetryPolicy) (retryCount : Nat) (r : Draw) : ℚ :=
  let delay := policy.initialDelay * policy.backoffFactor ^ retryCount
  min (if policy.jitter then applyJitter r delay else delay) policy.maxDelay

/-- Within the float range, the worker's function. -/
theorem computeRetryDelay_float (policy : RetryPolicy) (retryCount : Nat) (r : Draw)
    (hpower : |policy.backoffFactor ^ retryCount| < Messages.floatLimit)
    (hproduct : |policy.initialDelay * policy.backoffFactor ^ retryCount| < Messages.floatLimit) :
    Messages.computeRetryDelay policy retryCount
        (r.uniform (-(policy.initialDelay * policy.backoffFactor ^ retryCount * (1 / 4)))
          (policy.initialDelay * policy.backoffFactor ^ retryCount * (1 / 4))) =
      .ok (.finite (computeRetryDelay policy retryCount r)) := by
  have hfloat : Messages.floatPow policy.backoffFactor retryCount =
      .ok (policy.backoffFactor ^ retryCount) := by
    rw [Messages.floatPow, if_neg (by omega), zpow_natCast, if_neg (not_le.mpr hpower)]
  rw [Messages.computeRetryDelay, hfloat]
  change (if Messages.floatLimit ≤ |policy.initialDelay * policy.backoffFactor ^ retryCount| then _
    else _) = _
  rw [if_neg (not_le.mpr hproduct)]
  cases hj : policy.jitter <;> simp [computeRetryDelay, applyJitter, hj] <;> rfl

/-! ## The delays of a run -/

/-- The delay slept after the n-th failure. -/
def delays (policy : RetryPolicy) (draw : Nat → Draw) : Nat → ℚ
  | 0 => nextDelay policy 0 (draw 0) policy.initialDelay
  | n + 1 => nextDelay policy (n + 1) (draw (n + 1)) (delays policy draw n)

/-- The running value before the n-th failure. -/
def delayBefore (policy : RetryPolicy) (draw : Nat → Draw) : Nat → ℚ
  | 0 => policy.initialDelay
  | n + 1 => delays policy draw n

theorem nextDelay_delayBefore (policy : RetryPolicy) (draw : Nat → Draw) (n : Nat) :
    nextDelay policy n (draw n) (delayBefore policy draw n) = delays policy draw n := by
  cases n <;> rfl

/-- A run sleeps an initial piece of the delays, one for each failure that is retried. -/
theorem retryLoop_slept (env : Env α ε) (policy : RetryPolicy) (left n : Nat) (last : Option ε)
    (h : (n : Int) + left = policy.maxRetries + 1) :
    ∃ k : Nat, (k = 0 ∨ (n : Int) + k ≤ policy.maxRetries) ∧
      (retryLoop env policy left n (delayBefore policy env.draw n) last).slept =
        (List.range' n k).map (delays policy env.draw) := by
  induction left generalizing n last with
  | zero => cases last <;> exact ⟨0, .inl rfl, rfl⟩
  | succ left ih =>
    rw [retryLoop]
    cases hfn : env.fn n with
    | ok value => exact ⟨0, .inl rfl, rfl⟩
    | error e =>
      dsimp only
      split
      · exact ⟨0, .inl rfl, rfl⟩
      · split
        · exact ⟨0, .inl rfl, rfl⟩
        · split
          · exact ⟨0, .inl rfl, rfl⟩
          · rename_i hmax
            obtain ⟨k, hk, hslept⟩ := ih (n + 1) (some e) (by push_cast at h ⊢; omega)
            refine ⟨k + 1, .inr (by push_cast at hk ⊢; omega), ?_⟩
            rw [nextDelay_delayBefore, List.range'_succ, List.map_cons, ← hslept]
            rfl

theorem retryWithBackoff_slept (env : Env α ε) (policy : RetryPolicy) :
    ∃ k ≤ policy.maxRetries.toNat,
      (retryWithBackoff env policy).slept = (List.range k).map (delays policy env.draw) := by
  by_cases hneg : policy.maxRetries + 1 ≤ 0
  · refine ⟨0, Nat.zero_le _, ?_⟩
    rw [retryWithBackoff, Int.toNat_of_nonpos hneg]
    rfl
  · obtain ⟨k, hk, hslept⟩ :=
      retryLoop_slept env policy (policy.maxRetries + 1).toNat 0 none (by omega)
    exact ⟨k, by omega, by rwa [List.range_eq_range']⟩

/-- `fn` fails whenever it is called, and nothing sets the event. -/
def failing (draw : Nat → Draw) : Env Unit Unit where
  fn _ := .error ()
  retryExceptions _ := true
  cancelled _ := false
  onRetryCallback := false
  draw := draw

theorem retryLoop_failing_succ (draw : Nat → Draw) (policy : RetryPolicy) (left n : Nat) (delay : ℚ)
    (last : Option Unit) :
    retryLoop (failing draw) policy (left + 1) n delay last =
      if policy.maxRetries ≤ n then .ended (.raised ())
      else
        (retryLoop (failing draw) policy left (n + 1)
          (nextDelay policy n (draw n) delay) (some ())).after
          false n () (nextDelay policy n (draw n) delay) := rfl

theorem retryLoop_failing (draw : Nat → Draw) (policy : RetryPolicy) (left n : Nat)
    (last : Option Unit)
    (h : (n : Int) + left = policy.maxRetries) :
    (retryLoop (failing draw) policy (left + 1) n (delayBefore policy draw n) last).slept =
      (List.range' n left).map (delays policy draw) := by
  induction left generalizing n last with
  | zero =>
    rw [retryLoop_failing_succ, if_pos (by omega)]
    rfl
  | succ left ih =>
    rw [retryLoop_failing_succ, if_neg (by push_cast at h; omega), nextDelay_delayBefore,
      List.range'_succ, List.map_cons, ← ih (n + 1) (some ()) (by push_cast at h ⊢; omega)]
    rfl

/-- Where every call fails, every delay up to the last is slept. -/
theorem retryWithBackoff_failing (draw : Nat → Draw) (policy : RetryPolicy)
    (h : 0 ≤ policy.maxRetries) :
    (retryWithBackoff (failing draw) policy).slept =
      (List.range policy.maxRetries.toNat).map (delays policy draw) := by
  rw [retryWithBackoff, show (policy.maxRetries + 1).toNat = policy.maxRetries.toNat + 1 by omega,
    List.range_eq_range']
  exact retryLoop_failing draw policy _ 0 none (by simpa using h)

/-! ## The range of the delays -/

/-- A policy of the kind the bounds are stated for. -/
structure BackoffPolicy extends RetryPolicy where
  maxRetries_nonneg : 0 ≤ maxRetries
  initialDelay_pos : 0 < initialDelay
  one_le_backoffFactor : 1 ≤ backoffFactor
  tenth_le_maxDelay : 1 / 10 ≤ maxDelay

theorem applyJitter_pos (r : Draw) (delay : ℚ) : 0 < applyJitter r delay :=
  lt_of_lt_of_le (by norm_num) (le_max_right _ _)

theorem applyJitter_mono (r : Draw) {d d' : ℚ} (hd : 0 ≤ d) (h : d ≤ d') :
    applyJitter r d ≤ applyJitter .highest d' := by
  have hr := r.uniform_upper (show 0 ≤ d * (1 / 4) by positivity)
  refine max_le_max ?_ le_rfl
  rw [Draw.uniform_highest]
  linarith

theorem applyJitter_highest (delay : ℚ) :
    applyJitter .highest delay = max (5 / 4 * delay) (1 / 10) := by
  rw [applyJitter, Draw.uniform_highest]
  congr 1
  ring

namespace BackoffPolicy

variable (policy : BackoffPolicy)

theorem maxDelay_pos : 0 < policy.maxDelay := lt_of_lt_of_le (by norm_num) policy.tenth_le_maxDelay

theorem backoffFactor_pos : 0 < policy.backoffFactor :=
  zero_lt_one.trans_le policy.one_le_backoffFactor

theorem nextDelay_pos (n : Nat) (r : Draw) {delay : ℚ} (h : 0 < delay) :
    0 < nextDelay policy.toRetryPolicy n r delay := by
  unfold nextDelay
  cases policy.jitter with
  | true => exact applyJitter_pos r _
  | false =>
    simp only [Bool.false_eq_true, if_false]
    split
    · exact lt_min (mul_pos h policy.backoffFactor_pos) policy.maxDelay_pos
    · exact h

theorem delays_pos (draw : Nat → Draw) (n : Nat) : 0 < delays policy.toRetryPolicy draw n := by
  induction n with
  | zero => exact policy.nextDelay_pos 0 _ policy.initialDelay_pos
  | succ n ih => exact policy.nextDelay_pos (n + 1) _ ih

/-- A greater delay before and the highest draw give a greater delay after. -/
theorem nextDelay_mono (n : Nat) (r : Draw) {d d' : ℚ} (hd : 0 < d) (h : d ≤ d') :
    nextDelay policy.toRetryPolicy n r d ≤ nextDelay policy.toRetryPolicy n .highest d' := by
  have hgrown : d * policy.backoffFactor ≤ d' * policy.backoffFactor :=
    mul_le_mul_of_nonneg_right h policy.backoffFactor_pos.le
  have hpos : 0 < min (d * policy.backoffFactor) policy.maxDelay :=
    lt_min (mul_pos hd policy.backoffFactor_pos) policy.maxDelay_pos
  have hmin := min_le_min_right policy.maxDelay hgrown
  unfold nextDelay
  cases policy.jitter with
  | true =>
    simp only [if_true]
    split
    · exact applyJitter_mono r hpos.le hmin
    · exact applyJitter_mono r hd.le h
  | false =>
    simp only [Bool.false_eq_true, if_false]
    split
    · exact hmin
    · exact h

/-- The delays with the highest draw each time. -/
def top (n : Nat) : ℚ := delays policy.toRetryPolicy (fun _ => .highest) n

theorem delays_le_top (draw : Nat → Draw) (n : Nat) :
    delays policy.toRetryPolicy draw n ≤ policy.top n := by
  induction n with
  | zero => exact policy.nextDelay_mono 0 _ policy.initialDelay_pos le_rfl
  | succ n ih => exact policy.nextDelay_mono (n + 1) _ (policy.delays_pos draw n) ih

/-- A run keeps below the cap exactly when the highest delays up to the last retry do. -/
theorem slept_le_iff :
    (∀ (α ε : Type) (env : Env α ε), ∀ d ∈ (retryWithBackoff env policy.toRetryPolicy).slept,
        d ≤ policy.maxDelay) ↔
      ∀ n < policy.maxRetries.toNat, policy.top n ≤ policy.maxDelay := by
  constructor
  · intro h n hn
    refine h Unit Unit (failing fun _ => .highest) _ ?_
    rw [retryWithBackoff_failing _ _ policy.maxRetries_nonneg]
    exact List.mem_map_of_mem (List.mem_range.mpr hn)
  · intro h α ε env d hd
    obtain ⟨k, hk, hslept⟩ := retryWithBackoff_slept env policy.toRetryPolicy
    rw [hslept, List.mem_map] at hd
    obtain ⟨n, hn, rfl⟩ := hd
    exact (policy.delays_le_top env.draw n).trans (h n ((List.mem_range.mp hn).trans_le hk))

theorem top_of_not_jitter_zero (h : policy.jitter = false) :
    policy.top 0 = policy.initialDelay := by
  simp [top, delays, nextDelay, h]

theorem top_of_not_jitter_succ (h : policy.jitter = false) (n : Nat) :
    policy.top (n + 1) = min (policy.top n * policy.backoffFactor) policy.maxDelay := by
  simp [top, delays, nextDelay, h]

theorem top_of_jitter_zero (h : policy.jitter = true) :
    policy.top 0 = max (5 / 4 * policy.initialDelay) (1 / 10) := by
  simp [top, delays, nextDelay, h, applyJitter_highest]

theorem top_of_jitter_succ (h : policy.jitter = true) (n : Nat) :
    policy.top (n + 1) =
      max (5 / 4 * min (policy.top n * policy.backoffFactor) policy.maxDelay) (1 / 10) := by
  simp [top, delays, nextDelay, h, applyJitter_highest]

/-- What a delay is multiplied by from one failure to the next when the jitter is highest. -/
def growth : ℚ := 5 / 4 * policy.backoffFactor

theorem one_le_growth : 1 ≤ policy.growth := by
  have := policy.one_le_backoffFactor
  unfold growth
  linarith

/-- The highest delay after the n-th failure, were there no cap. -/
def uncapped (n : Nat) : ℚ := policy.growth ^ n * policy.top 0

theorem uncapped_zero : policy.uncapped 0 = policy.top 0 := by simp [uncapped]

theorem uncapped_succ (n : Nat) : policy.uncapped (n + 1) = policy.growth * policy.uncapped n := by
  simp only [uncapped, pow_succ]
  ring

theorem tenth_le_top (h : policy.jitter = true) (n : Nat) : 1 / 10 ≤ policy.top n := by
  cases n with
  | zero => exact (policy.top_of_jitter_zero h).symm ▸ le_max_right _ _
  | succ n => exact (policy.top_of_jitter_succ h n).symm ▸ le_max_right _ _

theorem uncapped_mono (h : policy.jitter = true) {m n : Nat} (hmn : m ≤ n) :
    policy.uncapped m ≤ policy.uncapped n :=
  mul_le_mul_of_nonneg_right (pow_le_pow_right₀ policy.one_le_growth hmn)
    ((by norm_num : (0 : ℚ) ≤ 1 / 10).trans (policy.tenth_le_top h 0))

/-- Jitter does not go above the uncapped delay. -/
theorem top_le_uncapped (h : policy.jitter = true) (n : Nat) :
    policy.top n ≤ policy.uncapped n := by
  induction n with
  | zero => exact policy.uncapped_zero.ge
  | succ n ih =>
    have hfloor : 1 / 10 ≤ policy.uncapped (n + 1) :=
      (policy.tenth_le_top h 0).trans
        (policy.uncapped_zero ▸ policy.uncapped_mono h (Nat.zero_le _))
    rw [policy.top_of_jitter_succ h]
    refine max_le ?_ hfloor
    calc 5 / 4 * min (policy.top n * policy.backoffFactor) policy.maxDelay
        ≤ 5 / 4 * (policy.top n * policy.backoffFactor) :=
          mul_le_mul_of_nonneg_left (min_le_left _ _) (by norm_num)
      _ = policy.growth * policy.top n := by
          unfold growth
          ring
      _ ≤ policy.growth * policy.uncapped n :=
          mul_le_mul_of_nonneg_left ih (zero_le_one.trans policy.one_le_growth)
      _ = policy.uncapped (n + 1) := (policy.uncapped_succ n).symm

/-- While the highest delays stay below the cap, the cap has not been at work. -/
theorem top_eq_uncapped (h : policy.jitter = true) (n : Nat)
    (hcap : ∀ m ≤ n, policy.top m ≤ policy.maxDelay) : policy.top n = policy.uncapped n := by
  induction n with
  | zero => exact policy.uncapped_zero.symm
  | succ n ih =>
    have hprevious := ih fun m hm => hcap m (hm.trans n.le_succ)
    have hlast := hcap (n + 1) le_rfl
    have hgrowth : policy.growth * policy.top n =
        5 / 4 * (policy.top n * policy.backoffFactor) := by
      unfold growth
      ring
    have hfloor : 1 / 10 ≤ policy.growth * policy.top n := by
      have := policy.tenth_le_top h n
      nlinarith [policy.one_le_growth]
    rw [policy.top_of_jitter_succ h] at hlast ⊢
    -- Had the cap been taken, the jitter would have gone above it.
    have huntouched : policy.top n * policy.backoffFactor ≤ policy.maxDelay := by
      by_contra habove
      rw [min_eq_right (not_le.mp habove).le] at hlast
      have := (le_max_left _ _).trans hlast
      linarith [policy.maxDelay_pos]
    rw [min_eq_left huntouched, ← hgrowth, max_eq_left hfloor, hprevious, policy.uncapped_succ]

end BackoffPolicy

/-! ## Above the cap -/

/-- Every delay slept or scheduled is positive and at most the maximum. -/
structure Bounded (policy : BackoffPolicy) : Prop where
  slept : ∀ (α ε : Type) (env : Env α ε), ∀ d ∈ (retryWithBackoff env policy.toRetryPolicy).slept,
    0 < d ∧ d ≤ policy.maxDelay
  computed : ∀ retryCount r, 0 < computeRetryDelay policy.toRetryPolicy retryCount r ∧
    computeRetryDelay policy.toRetryPolicy retryCount r ≤ policy.maxDelay

/-- Nothing is retried, or the greatest delay that the last retry can come to without the cap is
within it. Without jitter only the first delay is not capped. -/
def WithinCap (policy : BackoffPolicy) : Prop :=
  policy.maxRetries = 0 ∨
    (policy.jitter = false ∧ policy.initialDelay ≤ policy.maxDelay) ∨
    (policy.jitter = true ∧
      (5 / 4 * policy.backoffFactor) ^ (policy.maxRetries.toNat - 1) *
        max (5 / 4 * policy.initialDelay) (1 / 10) ≤ policy.maxDelay)

/-- The worker's function keeps to the range under every policy. -/
theorem computeRetryDelay_bounded (policy : BackoffPolicy) (retryCount : Nat) (r : Draw) :
    0 < computeRetryDelay policy.toRetryPolicy retryCount r ∧
      computeRetryDelay policy.toRetryPolicy retryCount r ≤ policy.maxDelay := by
  refine ⟨lt_min ?_ policy.maxDelay_pos, min_le_right _ _⟩
  split
  · exact applyJitter_pos r _
  · exact mul_pos policy.initialDelay_pos (pow_pos policy.backoffFactor_pos _)

/-- No sleep is of zero seconds. -/
theorem slept_pos (policy : BackoffPolicy) (env : Env α ε) {d : ℚ}
    (hd : d ∈ (retryWithBackoff env policy.toRetryPolicy).slept) : 0 < d := by
  obtain ⟨k, _, hslept⟩ := retryWithBackoff_slept env policy.toRetryPolicy
  rw [hslept, List.mem_map] at hd
  obtain ⟨n, _, rfl⟩ := hd
  exact policy.delays_pos env.draw n

/-- The sleeps are within the cap exactly when their upper ends are. -/
theorem withinCap_iff (policy : BackoffPolicy) :
    WithinCap policy ↔ ∀ n < policy.maxRetries.toNat, policy.top n ≤ policy.maxDelay := by
  have hnonneg := policy.maxRetries_nonneg
  have hretries : policy.maxRetries = 0 ↔ policy.maxRetries.toNat = 0 := by omega
  unfold WithinCap
  rw [hretries]
  obtain hzero | hpos := Nat.eq_zero_or_pos policy.maxRetries.toNat
  · simp [hzero]
  cases hj : policy.jitter with
  | false =>
    simp only [hpos.ne', true_and, Bool.false_eq_true, false_and, or_false, false_or]
    constructor
    · intro h n _
      cases n with
      | zero => rwa [policy.top_of_not_jitter_zero hj]
      | succ n => exact policy.top_of_not_jitter_succ hj n ▸ min_le_right _ _
    · intro h
      exact policy.top_of_not_jitter_zero hj ▸ h 0 hpos
  | true =>
    simp only [hpos.ne', Bool.true_eq_false, false_and, true_and, false_or]
    rw [← policy.top_of_jitter_zero hj]
    change policy.uncapped _ ≤ _ ↔ _
    constructor
    · intro h n hn
      calc policy.top n ≤ policy.uncapped n := policy.top_le_uncapped hj n
        _ ≤ policy.uncapped (policy.maxRetries.toNat - 1) := policy.uncapped_mono hj (by omega)
        _ ≤ policy.maxDelay := h
    · intro h
      rw [← policy.top_eq_uncapped hj _ fun m hm => h m (by omega)]
      exact h _ (by omega)

/-- Every delay is positive and at most the maximum, exactly when the greatest delay without the
cap is within it. -/
theorem bounded_iff (policy : BackoffPolicy) : Bounded policy ↔ WithinCap policy := by
  rw [withinCap_iff, ← policy.slept_le_iff]
  constructor
  · intro h α ε env d hd
    exact (h.slept α ε env d hd).2
  · intro h
    exact ⟨fun α ε env d hd => ⟨slept_pos policy env hd, h α ε env d hd⟩,
      computeRetryDelay_bounded policy⟩

def defaultPolicy : BackoffPolicy where
  maxRetries_nonneg := by decide
  initialDelay_pos := by norm_num
  one_le_backoffFactor := by norm_num
  tenth_le_maxDelay := by norm_num

example : WithinCap defaultPolicy := .inr (.inr ⟨rfl, by decide +kernel⟩)

/-- A first delay of a hundred seconds under the default cap of sixty, without jitter. -/
def slowStart : BackoffPolicy where
  initialDelay := 100
  jitter := false
  maxRetries_nonneg := by decide
  initialDelay_pos := by norm_num
  one_le_backoffFactor := by norm_num
  tenth_le_maxDelay := by norm_num

/-- The default policy with jitter and ten retries: the delay reaches the cap and the jitter
goes a quarter above it. -/
def tenRetries : BackoffPolicy where
  maxRetries := 10
  maxRetries_nonneg := by decide
  initialDelay_pos := by norm_num
  one_le_backoffFactor := by norm_num
  tenth_le_maxDelay := by norm_num

/-- A first delay above the maximum, and ten retries whose jitter comes behind the cap. -/
theorem slept_above_cap : ¬ Bounded slowStart ∧ ¬ Bounded tenRetries := by
  constructor
  · intro h
    have := (h.slept Unit Unit (failing fun _ => .highest) 100 (by decide +kernel)).2
    exact absurd this (by decide +kernel)
  · intro h
    have := (h.slept Unit Unit (failing fun _ => .highest) 75 (by decide +kernel)).2
    exact absurd this (by decide +kernel)

end RetryBackoff
