import Jararaca.DecisiveCalls
import Jararaca.RetryBackoff

/-!
# The outcome of a call with retries

Which call of `fn` is the last one of `retry_with_backoff`, and what its caller gets. The delays
have no part in it.
-/
namespace RetryOutcomes

open DecisiveCalls
open Messages (RetryPolicy)
open RetryBackoff

variable {α ε : Type}

/-- The outcome of a call that ends the loop: a value, an exception that is not retried, or one
that is while the event is set. -/
def Decisive (env : Env α ε) (n : Nat) : Prop :=
  match env.fn n with
  | .ok _ => True
  | .error e => env.retryExceptions e = false ∨ env.cancelled n = true

/-- What the caller gets where a call is the last one. -/
def verdict (env : Env α ε) (n : Nat) : Ending α ε :=
  match env.fn n with
  | .ok value => .returned value
  | .error e => if env.retryExceptions e ∧ env.cancelled n then .cancelledError e else .raised e

/-- The loop of `retry_with_backoff` before any other end of the function. -/
def retryLoopThen (fallback : Option ε → Run α ε) (env : Env α ε) (policy : RetryPolicy) :
    Nat → Nat → ℚ → Option ε → Run α ε
  | 0, _, _, lastException => fallback lastException
  | left + 1, retryCount, delay, _ =>
    match env.fn retryCount with
    | .ok value => .ended (.returned value)
    | .error e =>
      if env.retryExceptions e = false then .ended (.raised e)
      else if env.cancelled retryCount then .ended (.cancelledError e)
      else if policy.maxRetries ≤ retryCount then .ended (.raised e)
      else
        let delay := nextDelay policy retryCount (env.draw retryCount) delay
        (retryLoopThen fallback env policy left (retryCount + 1) delay (some e)).after
          env.onRetryCallback retryCount e delay

/-- The end of `retry_with_backoff`, behind the loop. -/
def afterLoop : Option ε → Run α ε
  | some lastException => ⟨0, [], [], .raised lastException⟩
  | none => ⟨0, [], [], .runtimeError "Unexpected error in retry logic"⟩

variable (env : Env α ε) (policy : RetryPolicy)

theorem retryLoop_eq (left n : Nat) (delay : ℚ) (last : Option ε) :
    retryLoop env policy left n delay last =
      retryLoopThen afterLoop env policy left n delay last := by
  induction left generalizing n delay last with
  | zero => cases last <;> rfl
  | succ left ih =>
    rw [retryLoop, retryLoopThen]
    cases env.fn n with
    | ok value => rfl
    | error e => simp only [ih]

/-- As long as the counts last, nothing behind the loop is reached. -/
theorem retryLoopThen_fallback (fallback other : Option ε → Run α ε) (left n : Nat) (delay : ℚ)
    (last : Option ε) (h : (n : Int) + left = policy.maxRetries) :
    retryLoopThen fallback env policy (left + 1) n delay last =
      retryLoopThen other env policy (left + 1) n delay last := by
  induction left generalizing n delay last with
  | zero =>
    have hmax : policy.maxRetries ≤ n := by omega
    rw [retryLoopThen, retryLoopThen]
    cases env.fn n with
    | ok value => rfl
    | error e => simp only [hmax, if_true]
  | succ left ih =>
    rw [retryLoopThen, retryLoopThen]
    cases env.fn n with
    | ok value => rfl
    | error e => simp only [ih (n + 1) _ _ (by push_cast at h ⊢; omega)]

/-- A call that decides nothing is followed by the rest of the run. -/
theorem retryLoop_undecided {n : Nat} (hundecided : ¬Decisive env n)
    (hmax : (n : Int) < policy.maxRetries)
    (left : Nat) (delay : ℚ) (last : Option ε) :
    ∃ e, retryLoop env policy (left + 1) n delay last =
      (retryLoop env policy left (n + 1) (nextDelay policy n (env.draw n) delay) (some e)).after
        env.onRetryCallback n e (nextDelay policy n (env.draw n) delay) := by
  rw [retryLoop]
  unfold Decisive at hundecided
  cases hfn : env.fn n with
  | ok value => simp [hfn] at hundecided
  | error e =>
    simp only [hfn, not_or, Bool.not_eq_false, Bool.not_eq_true] at hundecided
    refine ⟨e, ?_⟩
    simp only [hundecided, Bool.true_eq_false, Bool.false_eq_true, if_false, not_le.mpr hmax]

/-- A decisive call, and the one that uses up the counts, is the last. -/
theorem retryLoop_ends {n : Nat} (h : Decisive env n ∨ policy.maxRetries ≤ n)
    (left : Nat) (delay : ℚ)
    (last : Option ε) : retryLoop env policy (left + 1) n delay last = .ended (verdict env n) := by
  rw [retryLoop]
  unfold Decisive at h
  unfold verdict
  cases hfn : env.fn n with
  | ok value => rfl
  | error e =>
    simp only [hfn] at h
    cases hretry : env.retryExceptions e with
    | false => simp [hretry]
    | true =>
      cases hcancelled : env.cancelled n with
      | true => simp [hretry]
      | false =>
        have hmax : policy.maxRetries ≤ n := by simpa [hretry, hcancelled] using h
        simp [hretry, hmax]

/-- The calls and the end of a run, from the last call back to the first. -/
theorem retryLoop_run {k : Nat}
    (h : Last (Decisive env) (policy.maxRetries + 1).toNat k) (delay : ℚ)
    (last : Option ε) :
    let run := retryLoop env policy (policy.maxRetries + 1).toNat 0 delay last
    run.calls = k + 1 ∧ run.ending = verdict env k := by
  have hlimit := h.lt
  refine h.descend (motive := fun n => ∀ delay last,
    let run := retryLoop env policy ((policy.maxRetries + 1).toNat - n) n delay last
    run.calls + n = k + 1 ∧ run.ending = verdict env k) ?_ ?_ delay last
  · intro delay last
    have hleft : (policy.maxRetries + 1).toNat - k =
        (policy.maxRetries + 1).toNat - (k + 1) + 1 := by omega
    have hends : Decisive env k ∨ policy.maxRetries ≤ k := h.ends.imp_right fun hend => by omega
    rw [hleft, retryLoop_ends env policy hends]
    exact ⟨Nat.add_comm 1 k, rfl⟩
  · intro n hn hundecided hnext ih delay last
    have hleft : (policy.maxRetries + 1).toNat - n =
        (policy.maxRetries + 1).toNat - (n + 1) + 1 := by omega
    obtain ⟨e, hrun⟩ := retryLoop_undecided env policy hundecided (by omega) _ delay last
    obtain ⟨hcalls, hending⟩ := ih (nextDelay policy n (env.draw n) delay) (some e)
    rw [hleft, hrun]
    refine ⟨?_, hending⟩
    rw [← hcalls]
    exact Nat.add_right_comm _ 1 n

/-- The calls of `fn` are as many as the first decisive outcome takes, at most one more than the
retries; the last of them decides what the caller gets, and nothing behind the loop is reached. -/
structure RightOutcome (env : Env α ε) (policy : RetryPolicy) : Prop where
  calls : ((retryWithBackoff env policy).calls : ℕ∞) = min (first (Decisive env))
    (policy.maxRetries.toNat + 1)
  ending : (retryWithBackoff env policy).ending =
    verdict env ((retryWithBackoff env policy).calls - 1)
  unreached : ∀ fallback, retryWithBackoff env policy =
    retryLoopThen fallback env policy (policy.maxRetries + 1).toNat 0 policy.initialDelay none

/-- `retry_with_backoff` calls until the first decisive outcome, and ends with it or with the last
one. -/
theorem retryWithBackoff_right (h : 0 ≤ policy.maxRetries) : RightOutcome env policy := by
  have hlimit : (policy.maxRetries + 1).toNat = policy.maxRetries.toNat + 1 := by omega
  have hpos : 0 < (policy.maxRetries + 1).toNat := by omega
  obtain ⟨k, hlast⟩ := exists_last (Decisive env) hpos
  obtain ⟨hcalls, hending⟩ := retryLoop_run env policy hlast policy.initialDelay none
  refine ⟨?_, ?_, ?_⟩
  · rw [retryWithBackoff, hcalls, hlast.count, hlimit]
    rfl
  · rw [retryWithBackoff, hcalls, hending]
    rfl
  · intro fallback
    rw [retryWithBackoff, retryLoop_eq, hlimit]
    exact retryLoopThen_fallback env policy _ _ _ 0 _ _ (by omega)

end RetryOutcomes
