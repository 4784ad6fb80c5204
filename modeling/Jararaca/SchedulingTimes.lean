import Mathlib.Tactic.LinearCombination
import Jararaca.Doubles
import Jararaca.PublisherModes

/-!
# The dispatch times of delayed messages

From a datetime, or a number of seconds, to the `dispatch_time` that is stored, through
`AIOPikaMessagePublisher` and through `MessagePublisherCollector` replayed into it. Neither
`schedule` looks at its timezone: `when.timestamp()` reads a naive datetime on the clock of
the host. A timestamp is a double: far from the epoch it may lie in the next second.
-/
namespace SchedulingTimes

open Messages Interceptors PublisherModes Doubles

/-! ## Datetimes -/

/-- A `tzinfo`: the microseconds of the offset from UTC it gives to a wall clock and its `fold`. -/
structure TzInfo where
  utcoffset : Int → Bool → Int
  bounded : ∀ wall fold, |utcoffset wall fold| < 86400000000

def utc : TzInfo := ⟨fun _ _ => 0, fun _ _ => by norm_num⟩

/-- The microseconds from the epoch to `datetime.min` and to `datetime.max`. -/
def minWall : Int := -62135596800000000

def maxWall : Int := 253402300799999999

def InRange (wall : Int) : Prop := minWall ≤ wall ∧ wall ≤ maxWall

instance (wall : Int) : Decidable (InRange wall) := inferInstanceAs (Decidable (_ ∧ _))

/-- A `datetime`: the microseconds its fields count, its `fold`, and its timezone unless it is
naive. -/
structure DateTime where
  wall : Int
  fold : Bool := false
  tzinfo : Option TzInfo := none
  inRange : InRange wall

def DateTime.second (w : DateTime) : Int := w.wall / 1000000

def DateTime.microsecond (w : DateTime) : Int := w.wall % 1000000

/-- A datetime with these microseconds; there is none out of range. -/
def ofWall (wall : Int) (tzinfo : Option TzInfo) : Option DateTime :=
  if h : InRange wall then some ⟨wall, false, tzinfo, h⟩ else none

/-- The wall clock of the host at a second; its year may be out of range. -/
def hostLocal (z : LocalZone) (u : Int) : Option Int :=
  if InRange (z.localSeconds u * 1000000) then some (z.localSeconds u) else none

/-- The second that the host reads a naive wall clock as: `datetime.timestamp` tries the
offsets in force around it, and takes the side of a gap or of a repetition that `fold` says. -/
def localReading (z : LocalZone) (fold : Bool) (t : Int) : Option Int :=
  (hostLocal z t).bind fun lt =>
    let a := lt - t
    let u₁ := t - a
    (hostLocal z u₁).bind fun t₁ =>
      let u := if fold then u₁ + 86400 else u₁ - 86400
      (if t₁ = t then (hostLocal z u).map (· - u) else some (t₁ - u₁)).bind fun b =>
        if t₁ = t ∧ a = b then some u₁
        else (hostLocal z (t - b)).map fun t₂ =>
          if t₂ = t then t - b
          else if t₁ = t then u₁
          else if fold then min u₁ (t - b) else max u₁ (t - b)

/-- The double of a number of microseconds, as `timedelta.total_seconds` divides it. -/
def totalSeconds (microseconds : Int) : ℚ := nearest (microseconds / 1000000)

/-- The timestamp of a naive datetime: the microseconds are added as a double. -/
def naiveTimestamp (second microsecond : Int) : ℚ :=
  nearest (second + nearest (microsecond / 1000000))

def timestamp (z : LocalZone) (w : DateTime) : Option ℚ :=
  match w.tzinfo with
  | some tz => some (totalSeconds (w.wall - tz.utcoffset w.wall w.fold))
  | none => (localReading z w.fold w.second).map fun u => naiveTimestamp u w.microsecond

/-- `datetime.now(tz=None)`, and `datetime.now(UTC)`, at a number of microseconds. -/
def now (z : LocalZone) (instant : Int) : Option DateTime :=
  ofWall (z.localSeconds (instant / 1000000) * 1000000 + instant % 1000000) none

def nowUtc (instant : Int) : Option DateTime := ofWall instant (some utc)

/-- `+ timedelta(seconds=seconds)`, which clears `fold` and overflows out of range. -/
def DateTime.plus (w : DateTime) (seconds : Int) : Option DateTime :=
  ofWall (w.wall + seconds * 1000000) w.tzinfo

/-! ## The publishers -/

/-- A call on either publisher; `instant` is when a `delay` is called. -/
inductive SchedulingCall where
  | delay (message : BusMessage) (seconds : Int) (instant : Int) (options : DelayOptions)
  | schedule (message : BusMessage) (when : DateTime) (timezone : TzInfo) (options : DelayOptions)

/-- What `schedule` of `AIOPikaMessagePublisher` stages. -/
def scheduleDirect (z : LocalZone) (message : BusMessage) (when : DateTime) (_timezone : TzInfo)
    (options : DelayOptions) : Option DelayedMessageData :=
  (timestamp z when).map fun t => delayedData message t options

/-- What `delay` and `schedule` of `AIOPikaMessagePublisher` stage; nothing where they raise. -/
def direct (z : LocalZone) : SchedulingCall → Option DelayedMessageData
  | .delay message seconds instant options => do
    let when ← (← now z instant).plus seconds
    return delayedData message (← timestamp z when) options
  | .schedule message when timezone options => scheduleDirect z message when timezone options

structure CollectorData where
  message : BusMessage
  when : DateTime
  timezone : TzInfo
  options : DelayOptions

/-- What `delay` and `schedule` of `MessagePublisherCollector` stage. -/
def collect : SchedulingCall → Option CollectorData
  | .delay message seconds instant options => do
    let when ← (← nowUtc instant).plus seconds
    return ⟨message, when, utc, options⟩
  | .schedule message when timezone options => some ⟨message, when, timezone, options⟩

/-- One round of `fill`. -/
def fill (z : LocalZone) (data : CollectorData) : Option DelayedMessageData :=
  scheduleDirect z data.message data.when data.timezone data.options

def replayed (z : LocalZone) (call : SchedulingCall) : Option DelayedMessageData :=
  (collect call).bind (fill z)

/-! ## What is asked for -/

/-- The microseconds of the instant that a call asks for: a naive `when` is wall-clock time in the
timezone. -/
def SchedulingCall.denotes : SchedulingCall → Int
  | .delay _ seconds instant _ => instant + seconds * 1000000
  | .schedule _ when timezone _ =>
    when.wall - (when.tzinfo.getD timezone).utcoffset when.wall when.fold

def wholeSeconds (microseconds : Int) : Int := truncate (microseconds / 1000000)

/-- Both publishers store the integer part of that instant. -/
def StoresInstant (z : LocalZone) (call : SchedulingCall) : Prop :=
  (direct z call).map DelayedMessageData.dispatchTime = some (wholeSeconds call.denotes) ∧
    (replayed z call).map DelayedMessageData.dispatchTime = some (wholeSeconds call.denotes)

/-- The double of an instant lies in its second. -/
def KeepsSecond (microseconds : Int) : Prop :=
  truncate (totalSeconds microseconds) = wholeSeconds microseconds

/-- The host can read a naive wall clock, and the double of its reading lies in a given second. -/
def ReadsInto (z : LocalZone) (fold : Bool) (wall second : Int) : Prop :=
  ∃ u, localReading z fold (wall / 1000000) = some u ∧
    truncate (naiveTimestamp u (wall % 1000000)) = second

/-- The wall clock of the host at an instant, some seconds later. -/
def hostWall (z : LocalZone) (instant seconds : Int) : Int :=
  z.localSeconds (instant / 1000000) * 1000000 + instant % 1000000 + seconds * 1000000

/-- An aware `when`: its double lies in its second. A naive one: the host reads it into the second
that the timezone gives. A delay: no datetime on the way is out of range, the double of the instant
lies in its second, and the host reads its own wall clock into that second. -/
def TimesAgree (z : LocalZone) : SchedulingCall → Prop
  | .delay _ seconds instant _ =>
    (InRange instant ∧ InRange (instant + seconds * 1000000) ∧
      KeepsSecond (instant + seconds * 1000000)) ∧
      InRange (hostWall z instant 0) ∧ InRange (hostWall z instant seconds) ∧
        ReadsInto z false (hostWall z instant seconds) (wholeSeconds (instant + seconds * 1000000))
  | .schedule _ when timezone _ =>
    match when.tzinfo with
    | some tz => KeepsSecond (when.wall - tz.utcoffset when.wall when.fold)
    | none =>
      ReadsInto z when.fold when.wall
      (wholeSeconds (when.wall - timezone.utcoffset when.wall when.fold))

theorem ofWall_eq {wall : Int} (tzinfo : Option TzInfo) (h : InRange wall) :
    ofWall wall tzinfo = some ⟨wall, false, tzinfo, h⟩ := dif_pos h

theorem ofWall_none {wall : Int} (tzinfo : Option TzInfo) (h : ¬InRange wall) :
    ofWall wall tzinfo = none := dif_neg h

theorem scheduled_naive (z : LocalZone) (message : BusMessage) (w : DateTime) (timezone : TzInfo)
    (options : DelayOptions) (hnaive : w.tzinfo = none) (second : Int) :
    (scheduleDirect z message w timezone options).map DelayedMessageData.dispatchTime =
      some second ↔
      ReadsInto z w.fold w.wall second := by
  rw [scheduleDirect, timestamp, hnaive]
  simp only [Option.map_map, Option.map_eq_some_iff, ReadsInto]
  rfl

theorem scheduled_aware (z : LocalZone) (message : BusMessage) (w : DateTime) (timezone : TzInfo)
    (options : DelayOptions) {tz : TzInfo} (haware : w.tzinfo = some tz) :
    (scheduleDirect z message w timezone options).map DelayedMessageData.dispatchTime =
      some (truncate (totalSeconds (w.wall - tz.utcoffset w.wall w.fold))) := by
  rw [scheduleDirect, timestamp, haware]
  rfl

/-- The data of a delay is that of a schedule for the datetime it comes to. -/
theorem direct_delay (z : LocalZone) (message : BusMessage) (seconds instant : Int)
    (options : DelayOptions) :
    direct z (.delay message seconds instant options) =
      ((now z instant).bind fun w => w.plus seconds).bind fun w =>
        scheduleDirect z message w utc options := by
  simp only [direct, scheduleDirect, bind, pure, Option.bind_assoc]
  congr 1
  funext w
  congr 1
  funext w'
  cases timestamp z w' <;> rfl

theorem now_plus (z : LocalZone) (instant seconds : Int) :
    ((now z instant).bind fun w => w.plus seconds) =
      if InRange (hostWall z instant 0) then ofWall (hostWall z instant seconds) none
      else none := by
  have hzero : z.localSeconds (instant / 1000000) * 1000000 + instant % 1000000 =
      hostWall z instant 0 := by
    simp [hostWall]
  rw [now, hzero]
  split
  · next h =>
    rw [ofWall_eq none h, Option.bind_some, DateTime.plus]
    simp [hostWall]
  · next h => rw [ofWall_none none h, Option.bind_none]

theorem nowUtc_plus (instant seconds : Int) :
    ((nowUtc instant).bind fun w => w.plus seconds) =
      if InRange instant then ofWall (instant + seconds * 1000000) (some utc) else none := by
  rw [nowUtc]
  split
  · next h => rw [ofWall_eq _ h, Option.bind_some, DateTime.plus]
  · next h => rw [ofWall_none _ h, Option.bind_none]

theorem direct_delay_iff (z : LocalZone) (message : BusMessage) (seconds instant : Int)
    (options : DelayOptions)
    (second : Int) :
    (direct z (.delay message seconds instant options)).map DelayedMessageData.dispatchTime =
      some second ↔
      InRange (hostWall z instant 0) ∧ InRange (hostWall z instant seconds) ∧
        ReadsInto z false (hostWall z instant seconds) second := by
  rw [direct_delay, now_plus]
  by_cases hnow : InRange (hostWall z instant 0)
  · rw [if_pos hnow]
    by_cases hlater : InRange (hostWall z instant seconds)
    · rw [ofWall_eq none hlater, Option.bind_some, scheduled_naive z message _ utc options rfl]
      simp [hnow, hlater]
    · rw [ofWall_none none hlater, Option.bind_none]
      simp [hlater]
  · simp [hnow]

/-- A replayed delay is in time exactly when the clock did not move to another second. -/
theorem replayed_delay_iff (z : LocalZone) (message : BusMessage) (seconds instant : Int)
    (options : DelayOptions) :
    (replayed z (.delay message seconds instant options)).map DelayedMessageData.dispatchTime =
        some (wholeSeconds (instant + seconds * 1000000)) ↔
      InRange instant ∧ InRange (instant + seconds * 1000000) ∧
        KeepsSecond (instant + seconds * 1000000) := by
  have hreplayed : replayed z (.delay message seconds instant options) =
      ((nowUtc instant).bind fun w => w.plus seconds).bind fun w =>
        scheduleDirect z message w utc options := by
    simp only [replayed, collect, bind, pure, Option.bind_assoc]
    rfl
  rw [hreplayed, nowUtc_plus]
  by_cases hnow : InRange instant
  · rw [if_pos hnow]
    by_cases hlater : InRange (instant + seconds * 1000000)
    · rw [ofWall_eq _ hlater, Option.bind_some, scheduled_aware z message _ utc options rfl]
      simp [hnow, hlater, KeepsSecond, utc]
    · rw [ofWall_none _ hlater, Option.bind_none]
      simp [hlater]
  · simp [hnow]

/-- The stored time is the instant asked for exactly when the times agree. -/
theorem storesInstant_iff (z : LocalZone) (call : SchedulingCall) :
    StoresInstant z call ↔ TimesAgree z call := by
  cases call with
  | delay message seconds instant options =>
    rw [StoresInstant, SchedulingCall.denotes, direct_delay_iff, replayed_delay_iff, and_comm]
    rfl
  | schedule message when timezone options =>
    have hsame : replayed z (.schedule message when timezone options) =
        direct z (.schedule message when timezone options) := rfl
    rw [StoresInstant, hsame, and_self, direct, SchedulingCall.denotes, TimesAgree]
    cases htz : when.tzinfo with
    | none => exact scheduled_naive z message when timezone options htz _
    | some tz =>
      rw [scheduled_aware z message when timezone options htz, Option.some_inj]
      rfl

/-- The publisher that a body calls directly stages just this, for an instant that is read back. -/
theorem call_direct (z : LocalZone) (objects : Objects) (p : DirectPublisher) (object : Nat)
    (when : DateTime)
    (timezone : TzInfo) (options : DelayOptions) {t : ℚ} (ht : timestamp z when = some t) :
    ∃ d, direct z (.schedule (objects object) when timezone options) = some d ∧
      p.call z true objects (.schedule object t options) =
        .ok { p with stagedDelayedMessages := p.stagedDelayedMessages ++ [d] } := by
  refine ⟨delayedData (objects object) t options, ?_, rfl⟩
  rw [direct, scheduleDirect, ht]
  rfl

/-! ## Seconds of doubles -/

theorem truncate_bounds (q : ℚ) : q - 1 < truncate q ∧ (truncate q : ℚ) < q + 1 := by
  unfold truncate
  split
  · exact ⟨by linarith [Int.le_ceil q], Int.ceil_lt_add_one q⟩
  · exact ⟨Int.sub_one_lt_floor q, by linarith [Int.floor_le q]⟩

/-- What is at least a bit of twenty away from the integers around it has the integer part they
say. -/
theorem truncate_inside {n : Int} {q : ℚ} (hlow : n + 2 ^ (-20 : Int) ≤ q)
    (hhigh : q ≤ n + 1 - 2 ^ (-20 : Int)) :
    truncate q = if 0 ≤ n then n else n + 1 := by
  have hbit := two_zpow_pos (-20)
  unfold truncate
  by_cases hn : 0 ≤ n
  · have hnq : (0 : ℚ) ≤ n := by exact_mod_cast hn
    rw [if_neg (by linarith), if_pos hn, Int.floor_eq_iff]
    exact ⟨by linarith, by linarith⟩
  · have hnq : (n : ℚ) + 1 ≤ 0 := by exact_mod_cast Int.add_one_le_iff.mpr (not_le.mp hn)
    rw [if_pos (by linarith), if_neg hn, Int.ceil_eq_iff]
    push_cast
    exact ⟨by linarith, by linarith⟩

/-- Up to 2 ^ 33 doubles have twenty bits behind the point. -/
theorem nearest_inside {n : Int} (hn : |n| < 2 ^ 33) {q : ℚ} (hlow : n + 2 ^ (-20 : Int) ≤ q)
    (hhigh : q ≤ n + 1 - 2 ^ (-20 : Int)) :
    n + 2 ^ (-20 : Int) ≤ nearest q ∧ nearest q ≤ n + 1 - 2 ^ (-20 : Int) := by
  have hunit : (2 : ℚ) ^ (20 : Nat) * 2 ^ (-20 : Int) = 1 := by norm_num
  have hbounds := abs_lt.mp hn
  have hbelow : (n : ℚ) + 2 ^ (-20 : Int) = ((n * 2 ^ 20 + 1 : Int) : ℚ) * 2 ^ (-20 : Int) := by
    push_cast
    linear_combination -(n : ℚ) * hunit
  have habove : (n : ℚ) + 1 - 2 ^ (-20 : Int) =
      (((n + 1) * 2 ^ 20 - 1 : Int) : ℚ) * 2 ^ (-20 : Int) := by
    push_cast
    linear_combination -((n : ℚ) + 1) * hunit
  have hfixed : nearest (n + 2 ^ (-20 : Int)) = n + 2 ^ (-20 : Int) := by
    rw [hbelow]
    exact nearest_bits (abs_le.mpr ⟨by omega, by omega⟩) (by norm_num)
  have hfixed' : nearest (n + 1 - 2 ^ (-20 : Int)) = n + 1 - 2 ^ (-20 : Int) := by
    rw [habove]
    exact nearest_bits (abs_le.mpr ⟨by omega, by omega⟩) (by norm_num)
  exact ⟨hfixed ▸ nearest_mono hlow, hfixed' ▸ nearest_mono hhigh⟩

/-- A number of microseconds is an integer or a bit of twenty away from the integers around it. -/
theorem microsecond_inside {μ : Int} (hμ : 0 < μ ∧ μ < 1000000) :
    (2 : ℚ) ^ (-20 : Int) ≤ μ / 1000000 ∧ (μ / 1000000 : ℚ) ≤ 1 - 2 ^ (-20 : Int) := by
  have hlow : (1 : ℚ) ≤ μ := by exact_mod_cast hμ.1
  have hhigh : (μ : ℚ) ≤ 999999 := by exact_mod_cast Int.le_of_lt_add_one hμ.2
  have hbit : (2 : ℚ) ^ (-20 : Int) = 1 / 1048576 := by norm_num
  rw [hbit, le_div_iff₀ (by norm_num), div_le_iff₀ (by norm_num)]
  exact ⟨by linarith, by linarith⟩

/-- Until 2 ^ 33 seconds from the epoch, in the year 2242, the host's doubles lie in their
seconds. -/
theorem naiveTimestamp_second {u μ : Int} (hu : |u| < 2 ^ 33) (hμ : 0 ≤ μ ∧ μ < 1000000) :
    truncate (naiveTimestamp u μ) = wholeSeconds (u * 1000000 + μ) := by
  have hexact : (((u * 1000000 + μ : Int) : ℚ) / 1000000) = u + μ / 1000000 := by
    push_cast
    ring
  rw [naiveTimestamp, wholeSeconds, hexact]
  obtain hzero | hpos := eq_or_lt_of_le hμ.1
  · have hwhole : nearest ((μ : ℚ) / 1000000) = μ / 1000000 := by
      rw [← hzero, Int.cast_zero, zero_div]
      simpa using nearest_intCast (n := 0) (by norm_num)
    rw [hwhole, ← hzero, Int.cast_zero, zero_div, add_zero, nearest_intCast]
    exact hu.le.trans (by norm_num)
  · obtain ⟨hlow, hhigh⟩ := microsecond_inside ⟨hpos, hμ.2⟩
    have hfraction := nearest_inside (n := 0) (by norm_num) (q := (μ : ℚ) / 1000000)
      (by simpa using hlow) (by simpa using hhigh)
    rw [Int.cast_zero, zero_add, zero_add] at hfraction
    have hsum := nearest_inside hu (q := u + nearest (μ / 1000000)) (by linarith [hfraction.1])
      (by linarith [hfraction.2])
    rw [truncate_inside hsum.1 hsum.2, truncate_inside (n := u) (by linarith) (by linarith)]

/-- Up to the year 2242 no fraction of a second rounds to the next. -/
theorem keepsSecond_near {microseconds : Int} (h : |microseconds / 1000000| < 2 ^ 33) :
    KeepsSecond microseconds := by
  have hsplit : (microseconds : ℚ) / 1000000 =
      (microseconds / 1000000 : Int) + ((microseconds % 1000000 : Int) : ℚ) / 1000000 := by
    have hdiv : (microseconds : ℚ) =
        1000000 * (microseconds / 1000000 : Int) + (microseconds % 1000000 : Int) := by
      exact_mod_cast (Int.mul_ediv_add_emod microseconds 1000000).symm
    rw [div_eq_iff (by norm_num)]
    linarith
  have hμ : 0 ≤ microseconds % 1000000 ∧ microseconds % 1000000 < 1000000 := by omega
  rw [KeepsSecond, totalSeconds, wholeSeconds, hsplit]
  obtain hzero | hpos := eq_or_lt_of_le hμ.1
  · rw [← hzero, Int.cast_zero, zero_div, add_zero, nearest_intCast]
    exact h.le.trans (by norm_num)
  · obtain ⟨hlow, hhigh⟩ := microsecond_inside ⟨hpos, hμ.2⟩
    have hsum :=
      nearest_inside h (q :=
      (microseconds / 1000000 : Int) + ((microseconds % 1000000 : Int) : ℚ) / 1000000)
      (by linarith) (by linarith)
    rw [truncate_inside hsum.1 hsum.2,
      truncate_inside (n := microseconds / 1000000) (by linarith) (by linarith)]

/-! ## Hosts -/

section Hosts

/-- At a fixed offset the local time determines the instant. -/
theorem localReading_fixed (offset : Int) (fold : Bool) {t u : Int}
    (h : localReading ⟨fun _ => offset⟩ fold t = some u) : u = t - offset := by
  have hlocal : ∀ {v w : Int}, hostLocal ⟨fun _ => offset⟩ v = some w → w = v + offset := by
    intro v w hvw
    unfold hostLocal at hvw
    split at hvw
    · cases hvw
      rfl
    · cases hvw
  simp only [localReading, Option.bind_eq_some_iff] at h
  obtain ⟨lt, hlt, t₁, ht₁, b, hb, h⟩ := h
  have hfirst := hlocal hlt
  have hsecond := hlocal ht₁
  have hagain : t₁ = t := by omega
  rw [if_pos hagain, Option.map_eq_some_iff] at hb
  obtain ⟨lt', hlt', hb⟩ := hb
  have hthird := hlocal hlt'
  rw [if_pos ⟨hagain, by omega⟩, Option.some_inj] at h
  omega

/-- The host's double lies in the second it reads or in the next one. -/
theorem naiveTimestamp_bounds {u μ : Int} (hu : |u| < 2 ^ 52) (hμ : 0 ≤ μ ∧ μ < 1000000) :
    (u : ℚ) ≤ naiveTimestamp u μ ∧ naiveTimestamp u μ ≤ u + 1 := by
  have hbounds := abs_lt.mp hu
  have hlow : (0 : ℚ) ≤ μ / 1000000 := div_nonneg (by exact_mod_cast hμ.1) (by norm_num)
  have hhigh : (μ : ℚ) / 1000000 ≤ 1 := by
    rw [div_le_one (by norm_num)]
    exact_mod_cast hμ.2.le
  have hone : nearest 1 = 1 := by simpa using nearest_intCast (n := 1) (by norm_num)
  have hfraction : nearest ((μ : ℚ) / 1000000) ≤ 1 := hone ▸ nearest_mono hhigh
  have hnext : nearest ((u : ℚ) + 1) = u + 1 := by
    have hcast := nearest_intCast (n := u + 1) (abs_le.mpr ⟨by omega, by omega⟩)
    push_cast at hcast
    exact hcast
  constructor
  · calc (u : ℚ) = nearest u := (nearest_intCast (abs_le.mpr ⟨by omega, by omega⟩)).symm
      _ ≤ naiveTimestamp u μ := nearest_mono (by linarith [nearest_nonneg hlow])
  · exact (nearest_mono (by linarith)).trans_eq hnext

/-- Two hosts an hour apart do not read one wall clock into one second. -/
theorem readsInto_hosts {fold : Bool} {wall second : Int} (hwall : InRange wall)
    (hzero : ReadsInto ⟨fun _ => 0⟩ fold wall second) :
    ¬ReadsInto ⟨fun _ => 3600⟩ fold wall second := by
  rintro ⟨u', hu', hsecond'⟩
  obtain ⟨u, hu, hsecond⟩ := hzero
  have hread := localReading_fixed 0 fold hu
  have hread' := localReading_fixed 3600 fold hu'
  have hμ : 0 ≤ wall % 1000000 ∧ wall % 1000000 < 1000000 := by omega
  unfold InRange minWall maxWall at hwall
  have hlate := (naiveTimestamp_bounds (u := u) (abs_lt.mpr ⟨by omega, by omega⟩) hμ).1
  have hearly := (naiveTimestamp_bounds (u := u') (abs_lt.mpr ⟨by omega, by omega⟩) hμ).2
  have hlow := (truncate_bounds (naiveTimestamp u (wall % 1000000))).1
  have hhigh := (truncate_bounds (naiveTimestamp u' (wall % 1000000))).2
  rw [hsecond] at hlow
  rw [hsecond'] at hhigh
  have hapart : (u' : ℚ) = u - 3600 := by
    have hint : u' = u - 3600 := by omega
    rw [hint]
    push_cast
    ring
  linarith

/-- Every host stores the instant just where `when` is aware and its double lies in its second. -/
theorem every_host_iff (message : BusMessage) (when : DateTime) (timezone : TzInfo)
    (options : DelayOptions) :
    (∀ z, StoresInstant z (.schedule message when timezone options)) ↔
      ∃ tz, when.tzinfo = some tz ∧ KeepsSecond (when.wall - tz.utcoffset when.wall when.fold) := by
  simp only [storesInstant_iff, TimesAgree]
  cases htz : when.tzinfo with
  | none =>
    refine iff_of_false (fun hall => ?_) (by simp)
    exact readsInto_hosts when.inRange (hall ⟨fun _ => 0⟩) (hall ⟨fun _ => 3600⟩)
  | some tz =>
    exact ⟨fun hall => ⟨tz, rfl, hall ⟨fun _ => 0⟩⟩,
    fun ⟨_, htz', hkeeps⟩ _ => Option.some.inj htz' ▸ hkeeps⟩

end Hosts

/-- Exactly when the integer part of the instant is stored: on one host, and for a `schedule` on
every host. Until the year 2242 no double lies outside of its second. -/
theorem scheduling_times_iff (z : LocalZone) (call : SchedulingCall) (message : BusMessage)
    (when : DateTime)
    (timezone : TzInfo) (options : DelayOptions) :
    (StoresInstant z call ↔ TimesAgree z call) ∧
      ((∀ host, StoresInstant host (.schedule message when timezone options)) ↔
        ∃ tz, when.tzinfo = some tz ∧ KeepsSecond (when.wall - tz.utcoffset when.wall when.fold)) ∧
      (∀ microseconds : Int, |microseconds / 1000000| < 2 ^ 33 → KeepsSecond microseconds) ∧
      ∀ u μ : Int, |u| < 2 ^ 33 → 0 ≤ μ ∧ μ < 1000000 →
        truncate (naiveTimestamp u μ) = wholeSeconds (u * 1000000 + μ) :=
  ⟨storesInstant_iff z call, every_host_iff message when timezone options,
    fun _ => keepsSecond_near,
    fun _ _ => naiveTimestamp_second⟩

/-- Noon of the first of January 2025 in a zone three hours behind UTC. -/
def noon : DateTime := ⟨1735732800000000, false, none, by decide⟩

def behind : TzInfo := ⟨fun _ _ => -10800000000, fun _ _ => by norm_num⟩

def reminder : SchedulingCall := .schedule ⟨"user.reminder", [], true⟩ noon behind {}

/-- A host on UTC, and one that puts its clock forward by an hour. -/
def utcHost : LocalZone := ⟨fun _ => 0⟩

def springHost : LocalZone := ⟨fun u => if u < 1000000 then 0 else 3600⟩

/-- On a UTC host the reminder is stored for noon UTC and not for three in the afternoon; a delay of
two hours from just before the change is stored for an hour too early; and the last microsecond of
the calendar for the second after it. -/
theorem naive_when_on_host_clock :
    ¬StoresInstant utcHost reminder ∧
      (direct utcHost reminder).map DelayedMessageData.dispatchTime = some 1735732800 ∧
      wholeSeconds reminder.denotes = 1735743600 ∧
    (direct springHost (.delay ⟨"user.reminder", [], true⟩ 7200 999990000000 {})).map
        DelayedMessageData.dispatchTime = some 1003590 ∧
      wholeSeconds (999990000000 + 7200 * 1000000) = 1007190 ∧
    ¬KeepsSecond maxWall := by
  have hdirect :
      (direct utcHost reminder).map DelayedMessageData.dispatchTime = some 1735732800 := by
    decide +kernel
  have hdenotes : wholeSeconds reminder.denotes = 1735743600 := by decide +kernel
  refine ⟨fun h => ?_, hdirect, hdenotes, by decide +kernel, by decide +kernel,
    by unfold KeepsSecond; decide +kernel⟩
  have hstored := h.1
  rw [hdirect, hdenotes] at hstored
  exact absurd hstored (by decide)

end SchedulingTimes
