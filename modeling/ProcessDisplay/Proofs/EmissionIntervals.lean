import ProcessDisplay.Generator.Schedule
import ProcessDisplay.Proofs.ExactQuotients

/-!
# The time between two emissions

A schedule remembers the clock position of its last emission and waits until
its interval has passed since then. Polls may repeat a position or go back;
they are idle as long as the interval is positive, because the time that has
passed is cut off at zero. A positive number of seconds may still round to an
interval of zero nanoseconds, and then every poll emits.
-/

namespace ProcessDisplay.Generator

/-- Whether something is emitted. -/
def Tick.emits : Tick → Bool
  | .idle => false
  | _ => true

namespace Schedule

/-- The schedule after polls at some clock positions. -/
def polled (s : Schedule) (clocks : List Time.Clock) : Schedule :=
  clocks.foldl (fun s clock => (s.poll clock).2) s

/-- The clock positions of the polls that emit. -/
def emissions (s : Schedule) : List Time.Clock → List Time.Clock
  | [] => []
  | clock :: rest =>
    if (s.poll clock).1.emits then clock :: (s.poll clock).2.emissions rest
    else (s.poll clock).2.emissions rest

/-- The second of two emissions is later, by an interval at least. -/
def Spaced (interval first second : Nat) : Prop :=
  first < second ∧ interval ≤ second - first

/-- What an interval promises of a schedule before its first poll. -/
structure Gated (s : Schedule) : Prop where
  /-- Consecutive emissions are an interval apart. -/
  spaced : ∀ interval, s.interval = some interval → ∀ clocks,
    (s.emissions clocks).IsChain (Spaced interval)
  /-- A poll emits once the interval has passed since the last emission. -/
  prompt : ∀ interval, s.interval = some interval → ∀ clocks (last clock : Nat),
    (s.emissions clocks).getLast? = some last → last + interval ≤ clock →
      ((s.polled clocks).poll clock).1.emits = true
  /-- Without an interval at most the first poll emits. -/
  single : s.interval = none → ∀ clocks, s.emissions clocks <+: clocks.take 1

variable {s : Schedule} {interval last : Nat}

/-- Polls keep the interval. -/
theorem interval_poll (s : Schedule) (clock : Time.Clock) :
    (s.poll clock).2.interval = s.interval := by
  unfold poll
  split
  · split <;> rfl
  · split
    · split <;> rfl
    · rfl

/-- Polls keep the interval. -/
theorem interval_polled (s : Schedule) (clocks : List Time.Clock) :
    (s.polled clocks).interval = s.interval := by
  induction clocks generalizing s with
  | nil => rfl
  | cons clock rest ih => exact (ih _).trans (s.interval_poll clock)

/-- A poll after the interval emits. -/
theorem poll_due (hlast : s.lastEmission = some last) (hinterval : s.interval = some interval)
    {clock : Nat} (hdue : interval ≤ clock - last) :
    s.poll clock = (.generate, { s with lastEmission := some clock }) := by
  simp only [poll, hlast, hinterval]
  rw [if_pos hdue]

/-- A poll before the interval has passed is idle. -/
theorem poll_early (hlast : s.lastEmission = some last) (hinterval : s.interval = some interval)
    {clock : Nat} (hearly : ¬interval ≤ clock - last) : s.poll clock = (.idle, s) := by
  simp only [poll, hlast, hinterval]
  rw [if_neg hearly]

/-- Without an interval a poll after the first one is idle. -/
theorem poll_over (hlast : s.lastEmission = some last) (hnone : s.interval = none)
    (clock : Time.Clock) : s.poll clock = (.idle, s) := by
  simp only [poll, hlast, hnone]

/-- The first poll emits if there is an interval, and is remembered. -/
theorem poll_first (hfirst : s.lastEmission = none) (clock : Time.Clock) :
    (s.poll clock).2.lastEmission = some clock ∧
      (s.interval ≠ none → (s.poll clock).1.emits = true) := by
  simp only [poll, hfirst]
  cases s.initial with
  | some value => exact ⟨rfl, fun _ => rfl⟩
  | none =>
    refine ⟨rfl, fun hinterval => ?_⟩
    dsimp only
    rw [if_pos (Option.isSome_iff_ne_none.mpr hinterval)]
    rfl

/-- After the first poll of a schedule with a positive interval all emissions
are an interval apart. -/
theorem isChain_emissions (hlast : s.lastEmission = some last)
    (hinterval : s.interval = some interval) (hpos : interval ≠ 0) (clocks : List Time.Clock) :
    (last :: s.emissions clocks).IsChain (Spaced interval) := by
  induction clocks generalizing s last with
  | nil => exact .singleton last
  | cons clock rest ih =>
    unfold emissions
    by_cases hdue : interval ≤ clock - last
    · rw [poll_due hlast hinterval hdue]
      have hspaced : Spaced interval last clock := ⟨by omega, hdue⟩
      exact .cons_cons hspaced (ih (s := { s with lastEmission := some clock }) rfl hinterval)
    · rw [poll_early hlast hinterval hdue]
      exact ih hlast hinterval

/-- After its first poll a schedule with an interval remembers its last emission. -/
theorem lastEmission_polled (hlast : s.lastEmission = some last)
    (hinterval : s.interval = some interval) (clocks : List Time.Clock) :
    (s.polled clocks).lastEmission = (last :: s.emissions clocks).getLast? := by
  induction clocks generalizing s last with
  | nil => exact hlast
  | cons clock rest ih =>
    unfold emissions
    rw [polled, List.foldl_cons, ← polled]
    by_cases hdue : interval ≤ clock - last
    · rw [poll_due hlast hinterval hdue]
      rw [ih (s := { s with lastEmission := some clock }) rfl hinterval]
      exact List.getLast?_cons_cons.symm
    · rw [poll_early hlast hinterval hdue]
      exact ih hlast hinterval

/-- Without an interval nothing is emitted after the first poll. -/
theorem emissions_over (hlast : s.lastEmission = some last) (hnone : s.interval = none)
    (clocks : List Time.Clock) : s.emissions clocks = [] := by
  induction clocks with
  | nil => rfl
  | cons clock rest ih =>
    unfold emissions
    rw [poll_over hlast hnone]
    exact ih

/-- With an interval of zero every poll emits. -/
theorem emissions_of_zero (hzero : s.interval = some 0) (clocks : List Time.Clock) :
    s.emissions clocks = clocks := by
  induction clocks generalizing s with
  | nil => rfl
  | cons clock rest ih =>
    have hemits : (s.poll clock).1.emits = true := by
      cases hlast : s.lastEmission with
      | none => exact (poll_first hlast clock).2 (by rw [hzero]; exact Option.some_ne_none 0)
      | some last =>
        rw [poll_due hlast hzero (Nat.zero_le _)]
        rfl
    unfold emissions
    rw [if_pos hemits, ih ((s.interval_poll clock).trans hzero)]

/-- The emissions of a schedule with an interval begin with its first poll. -/
theorem emissions_cons (hfirst : s.lastEmission = none) (hinterval : s.interval = some interval)
    (clock : Time.Clock) (rest : List Time.Clock) :
    s.emissions (clock :: rest) = clock :: (s.poll clock).2.emissions rest := by
  have hsome : s.interval ≠ none := by
    rw [hinterval]
    exact Option.some_ne_none interval
  rw [emissions, if_pos ((poll_first hfirst clock).2 hsome)]

/-- A schedule with a positive interval keeps what it promises. -/
theorem gated_of_pos (hfirst : s.lastEmission = none) (hinterval : s.interval = some interval)
    (hpos : interval ≠ 0) : s.Gated := by
  have hsame : ∀ {other}, s.interval = some other → interval = other := fun h =>
    Option.some.inj (hinterval.symm.trans h)
  refine ⟨fun other hother clocks => ?_, fun other hother clocks last clock hlast hclock => ?_,
    fun hnone => ?_⟩
  · obtain rfl := hsame hother
    cases clocks with
    | nil => exact .nil
    | cons clock rest =>
      rw [emissions_cons hfirst hinterval]
      exact isChain_emissions (poll_first hfirst clock).1
        ((s.interval_poll clock).trans hinterval) hpos rest
  · obtain rfl := hsame hother
    cases clocks with
    | nil => cases hlast
    | cons start rest =>
      rw [emissions_cons hfirst hinterval] at hlast
      have hremembered := lastEmission_polled (poll_first hfirst start).1
        ((s.interval_poll start).trans hinterval) rest
      rw [hlast] at hremembered
      have hkept := (s.interval_polled (start :: rest)).trans hinterval
      have hdue : interval ≤ clock - last := by omega
      have hpoll : (s.polled (start :: rest)).poll clock = _ := poll_due hremembered hkept hdue
      rw [hpoll]
      rfl
  · rw [hinterval] at hnone
    cases hnone

/-- A schedule without an interval keeps what it promises. -/
theorem gated_of_none (hfirst : s.lastEmission = none) (hnone : s.interval = none) : s.Gated := by
  refine ⟨fun interval hinterval => ?_, fun interval hinterval => ?_, fun _ clocks => ?_⟩
  · rw [hnone] at hinterval
    cases hinterval
  · rw [hnone] at hinterval
    cases hinterval
  · cases clocks with
    | nil => exact List.nil_prefix
    | cons clock rest =>
      have hover := emissions_over (poll_first hfirst clock).1
        ((s.interval_poll clock).trans hnone) rest
      rw [emissions, hover]
      split
      · exact List.prefix_rfl
      · exact List.nil_prefix

/-- A schedule with an interval of zero emits twice at one clock position. -/
theorem not_gated_of_zero (hzero : s.interval = some 0) : ¬s.Gated := by
  intro h
  have hchain := h.spaced 0 hzero [0, 0]
  rw [emissions_of_zero hzero] at hchain
  have hspaced : Spaced 0 0 0 := (List.isChain_cons_cons.mp hchain).1
  exact Nat.lt_irrefl 0 hspaced.1

end Schedule

/-- A number of seconds is an interval of zero exactly if it is positive and at
most half a nanosecond. -/
theorem intervalOfSeconds_eq_zero_iff (seconds : Float) :
    intervalOfSeconds seconds = some 0 ↔ seconds.isFinite = true ∧ seconds > 0.0 ∧
      2 * ((Decimal.Binary.ofFloat seconds).value * 10 ^ 9) ≤ 1 := by
  have hpos := Decimal.Quotient.den_perTen_pos (Decimal.Quotient.den_ofScaled_pos
    (Decimal.Binary.ofFloat seconds).mantissa (Decimal.Binary.ofFloat seconds).exponent) (-9)
  have hvalue : ((Decimal.Quotient.ofScaled (Decimal.Binary.ofFloat seconds).mantissa
      (Decimal.Binary.ofFloat seconds).exponent).perTen (-9)).value =
      (Decimal.Binary.ofFloat seconds).value * 10 ^ 9 := by
    rw [Decimal.Quotient.value_perTen, Decimal.Quotient.value_ofScaled, Decimal.Binary.value,
      zpow_neg, div_inv_eq_mul]
    rfl
  have hfits : ∀ nanos : Nat, nanos = 0 → nanos < intervalBound * Time.nanosPerSecond := by
    rintro nanos rfl
    decide
  rw [← hvalue, ← Decimal.Quotient.nearest_eq_zero_iff hpos]
  unfold intervalOfSeconds
  dsimp only
  simp only [Bool.and_eq_true, decide_eq_true_eq, Option.ite_none_right_eq_some, Option.some.injEq]
  constructor
  · rintro ⟨⟨hfinite, hpositive⟩, -, hzero⟩
    exact ⟨hfinite, hpositive, hzero⟩
  · rintro ⟨hfinite, hpositive, hzero⟩
    exact ⟨⟨hfinite, hpositive⟩, hfits _ hzero, hzero⟩

/-- A periodic schedule, with or without an initial value, keeps what its
interval promises, unless its number of seconds is positive and at most half a
nanosecond. -/
theorem every_gated_iff (seconds : Float) (initial : Option Value) :
    { Schedule.every seconds with initial }.Gated ↔
      ¬(seconds.isFinite = true ∧ seconds > 0.0 ∧
        2 * ((Decimal.Binary.ofFloat seconds).value * 10 ^ 9) ≤ 1) := by
  rw [← intervalOfSeconds_eq_zero_iff]
  cases hinterval : intervalOfSeconds seconds with
  | none =>
    have hgated : { Schedule.every seconds with initial }.Gated :=
      Schedule.gated_of_none rfl hinterval
    exact iff_of_true hgated (by simp)
  | some interval =>
    by_cases hzero : interval = 0
    · subst hzero
      exact iff_of_false (Schedule.not_gated_of_zero hinterval) (by simp)
    · have hgated : { Schedule.every seconds with initial }.Gated :=
        Schedule.gated_of_pos rfl hinterval hzero
      exact iff_of_true hgated (by simpa using hzero)

/-- A tenth of a nanosecond is a positive interval, and every poll emits, also
at the same clock position and at an earlier one. -/
theorem every_gated_fails : (1e-10 : Float) > 0.0 ∧
    (Schedule.every 1e-10).interval = some 0 ∧
    (Schedule.every 1e-10).emissions [5, 5, 3] = [5, 5, 3] := by
  decide +kernel

end ProcessDisplay.Generator
