import Mathlib.Data.List.Chain
import Mathlib.Data.Nat.Basic
import Mathlib.Tactic.Linarith

/-!
# Waiting for a Service to Become Ready

`Endpoint::connect_ready` tries to connect again and again until it succeeds or its budget is
spent. Each attempt is cut off at a limit; after an attempt that failed on its own the loop sleeps,
twice as long each time, and after one that was cut off it tries again at once. Timers are exact
here: an attempt that is cut off takes its limit, and a sleep takes its duration. Times are counted
in nanoseconds from the call; that `Duration` ends at `2^64` seconds is left out.

## Main definitions

* `Attempt`, `timeout`: how one call of `connect` turns out, and what the loop sees of it.
* `round`, `loop`, `connectReady`: the body of the loop, the loop and the function.
* `WithinBudget`: what a run may do with its budget.
* `Tries`: what a run makes of its attempts.
* `schedule`, `PausePastDeadline`: when the attempts start, and the attempts after which the pause
  would cross the deadline.

## Main results

* `connectReady_within_budget`: **every run ends within its budget**, after finitely many attempts,
  and comes to what the last of them came to.
* `gives_up_on_time_iff`: an error comes before the budget is spent exactly when a pause would have
  crossed the deadline.
* `ready_service_reached`: a service that becomes ready in time is reached.
-/

namespace Ogurpchik

namespace ConnectReady

/-- `CONNECT_ATTEMPT_LIMIT`: longest a single attempt may take, one second, in nanoseconds. -/
def CONNECT_ATTEMPT_LIMIT : ℕ := 1000000000

/-- The first pause behind an attempt that fails on its own: 50 milliseconds. -/
def INITIAL_DELAY : ℕ := 50000000

/-- The longest pause, up to which the pauses double: one second. -/
def MAX_DELAY : ℕ := 1000000000

/-! ### Durations as text -/

/-- The digits after the point, up to the last that is not zero; no digits at all for a whole
number. -/
def fractionDigits : ℕ → ℕ → ℕ → List Char
  | 0, _, _ => []
  | n + 1, part, divisor =>
      if part = 0 then []
      else Nat.digitChar (part / divisor) :: fractionDigits n (part % divisor) (divisor / 10)

/-- A number with its fraction and unit, as the standard library prints a duration without a
precision. -/
def fmtDecimal (integer part divisor : ℕ) (suffix : String) : String :=
  let digits := fractionDigits 9 part divisor
  toString integer ++ (if digits.isEmpty then "" else "." ++ String.ofList digits) ++ suffix

/-- A duration under `{:?}`, as it is printed in the text of an attempt that was cut off: in the
largest unit of which there is one. -/
def debugDuration (nanos : ℕ) : String :=
  if 0 < nanos / 1000000000 then
    fmtDecimal (nanos / 1000000000) (nanos % 1000000000) 100000000 "s"
  else if 1000000 ≤ nanos then fmtDecimal (nanos / 1000000) (nanos % 1000000) 100000 "ms"
  else if 1000 ≤ nanos then fmtDecimal (nanos / 1000) (nanos % 1000) 100 "µs"
  else fmtDecimal nanos 0 1 "ns"

example : debugDuration 1000000000 = "1s" ∧ debugDuration 12340000 = "12.34ms" := by decide

/-! ### The loop -/

/-- The error of `connect`: a report over `TransportError::Connect`, with what was attached to it,
the oldest first. -/
structure ConnectReport where
  attached : List String
  deriving DecidableEq

namespace ConnectReport

/-- `attach`: what is attached last stands last, behind what the transport had to tell. -/
def attach (r : ConnectReport) (text : String) : ConnectReport := ⟨r.attached ++ [text]⟩

end ConnectReport

/-- How one call of `connect` turns out: it returns after some time, or it never does. -/
inductive Attempt (Conn : Type)
  | returns (after : ℕ) (result : Except ConnectReport Conn)
  | hangs

variable {Conn : Type}

/-- `compio::time::timeout`: what the attempt returned, if it did so within the limit, and how long
that took. -/
def timeout (limit : ℕ) : Attempt Conn → Option (Except ConnectReport Conn) × ℕ
  | .returns after result => if after ≤ limit then (some result, after) else (none, limit)
  | .hangs => (none, limit)

/-- The loop's variables at the start of a round: `start.elapsed()` and `delay`. -/
structure Progress where
  elapsed : ℕ
  delay : ℕ

namespace Progress

variable (giveUpAfter : ℕ) (p : Progress)

/-- The variables before the first attempt: no time has passed, and the first pause is the
shortest. -/
def start : Progress := ⟨0, INITIAL_DELAY⟩

/-- The limit of the attempt that starts now: what is left of the budget, and no more than the limit
of an attempt. -/
def limit : ℕ := min (giveUpAfter - p.elapsed) CONNECT_ATTEMPT_LIMIT

/-- The variables after an attempt that failed on its own, and the sleep that follows. -/
def paused (took : ℕ) : Progress := ⟨p.elapsed + took + p.delay, min (p.delay * 2) MAX_DELAY⟩

/-- The variables after an attempt that was cut off: time has passed, and the pause is neither slept
nor doubled. -/
def resumed (took : ℕ) : Progress := ⟨p.elapsed + took, p.delay⟩

end Progress

/-- How an attempt ended: with a connection, with an error of its own, or at its limit. -/
inductive Ended
  | succeeded
  | failed
  | cutOff
  deriving DecidableEq

/-- A round of the loop, as a clock beside it would log it: the source keeps no such log, and the
theorems are about it. -/
structure Round where
  startedAt : ℕ
  limit : ℕ
  took : ℕ
  ended : Ended
  slept : Option ℕ
  deriving DecidableEq

namespace Round

/-- When the attempt was over, with a result or without. -/
def endedAt (r : Round) : ℕ := r.startedAt + r.took

/-- When the round was over, with its sleep, if it slept. -/
def doneAt (r : Round) : ℕ := r.endedAt + r.slept.getD 0

end Round

/-- How the loop goes on after a round: it returns, or starts another round with the variables it
has then. -/
inductive Flow (Conn : Type)
  | returned (result : Except ConnectReport Conn)
  | again (next : Progress)

section Loop

variable (giveUpAfter : ℕ) (endpoint : String)

/-- The report `connect_ready` returns when it gives up: that of the last attempt, with the endpoint
and a text of its own. -/
def gaveUp (report : ConnectReport) : ConnectReport :=
  (report.attach ("endpoint " ++ endpoint)).attach "gave up waiting for the service to become ready"

/-- The report made for an attempt that was cut off, which has none of its own. -/
def cutOffReport (limit : ℕ) : ConnectReport :=
  ⟨["connect attempt cut off after " ++ debugDuration limit]⟩

/-- How an attempt ended, by what `timeout` says of it: nothing if it was cut off. -/
def endedBy : Option (Except ConnectReport Conn) → Ended
  | some (.ok _) => .succeeded
  | some (.error _) => .failed
  | none => .cutOff

/-- What a run returns that ends with an attempt of this limit, by what `timeout` says of it. -/
def resultBy (limit : ℕ) : Option (Except ConnectReport Conn) → Except ConnectReport Conn
  | some (.ok conn) => .ok conn
  | some (.error report) => .error (gaveUp endpoint report)
  | none => .error (gaveUp endpoint (cutOffReport limit))

/-- The body of the loop: an attempt under its limit, and then what the source does with its result.
An error is returned when the pause behind it would reach the deadline. -/
def round (p : Progress) (attempt : Attempt Conn) : Round × Flow Conn :=
  let limit := p.limit giveUpAfter
  match timeout limit attempt with
  | (some (.ok conn), took) => (⟨p.elapsed, limit, took, .succeeded, none⟩, .returned (.ok conn))
  | (some (.error report), took) =>
      if giveUpAfter ≤ p.elapsed + took + p.delay then
        (⟨p.elapsed, limit, took, .failed, none⟩, .returned (.error (gaveUp endpoint report)))
      else (⟨p.elapsed, limit, took, .failed, some p.delay⟩, .again (p.paused took))
  | (none, took) =>
      -- the pause after an attempt that was cut off is zero
      if giveUpAfter ≤ p.elapsed + took + 0 then
        (⟨p.elapsed, limit, took, .cutOff, none⟩,
          .returned (.error (gaveUp endpoint (cutOffReport limit))))
      else (⟨p.elapsed, limit, took, .cutOff, none⟩, .again (p.resumed took))

/-- What a run comes to: its result, when it returned, and its rounds in order. -/
structure Outcome (Conn : Type) where
  result : Except ConnectReport Conn
  returnedAt : ℕ
  rounds : List Round

variable (attempts : ℕ → Attempt Conn)

/-- The loop from its `k`-th attempt on, for at most so many rounds. The bound on rounds is no part
of the source: that enough of them exist is a theorem. -/
def loop : ℕ → ℕ → Progress → Option (Outcome Conn)
  | 0, _, _ => none
  | fuel + 1, k, p =>
      match round giveUpAfter endpoint p (attempts k) with
      | (r, .returned result) => some ⟨result, r.endedAt, [r]⟩
      | (r, .again next) =>
          (loop fuel (k + 1) next).map fun o => { o with rounds := r :: o.rounds }

/-- `Endpoint::connect_ready`: the loop from the first attempt on. -/
def connectReady (fuel : ℕ) : Option (Outcome Conn) :=
  loop giveUpAfter endpoint attempts fuel 0 Progress.start

/-! ### One round -/

/-- Under a timeout an attempt takes no longer than the limit, also one that hangs. -/
theorem timeout_took_le (limit : ℕ) (attempt : Attempt Conn) :
    (timeout limit attempt).2 ≤ limit := by
  cases attempt with
  | returns after result => by_cases h : after ≤ limit <;> simp [timeout, h]
  | hangs => exact le_rfl

/-- An attempt that is cut off has taken all of the limit. -/
theorem timeout_took_of_cutOff {limit : ℕ} {attempt : Attempt Conn}
    (h : (timeout limit attempt).1 = none) : (timeout limit attempt).2 = limit := by
  cases attempt with
  | returns after result =>
    by_cases hle : after ≤ limit
    · simp [timeout, hle] at h
    · simp [timeout, hle]
  | hangs => rfl

/-- The pause after the `j`-th attempt that failed on its own, counted from zero. -/
def backoff (j : ℕ) : ℕ := min (INITIAL_DELAY * 2 ^ j) MAX_DELAY

/-- The pauses double up to the longest, as the loop computes them. -/
theorem backoff_succ (j : ℕ) : backoff (j + 1) = min (backoff j * 2) MAX_DELAY := by
  rw [backoff, backoff, pow_succ, ← mul_assoc]
  omega

/-- No pause is shorter than the first, so rounds that pause are finitely many within a budget. -/
theorem initial_delay_le_backoff (j : ℕ) : INITIAL_DELAY ≤ backoff j := by
  have h : 1 ≤ 2 ^ j := Nat.one_le_two_pow
  exact le_min (Nat.le_mul_of_pos_right _ h) (by decide)

/-- What holds at the start of a round, after `j` attempts that failed on their own. -/
structure Ready (j : ℕ) (p : Progress) : Prop where
  delay : p.delay = backoff j
  elapsed_le : p.elapsed ≤ giveUpAfter

/-- The first round starts with the first pause and all of the budget. -/
theorem ready_start : Ready giveUpAfter 0 Progress.start :=
  ⟨rfl, Nat.zero_le _⟩

/-- What a round can do with an attempt: it succeeds; it fails on its own, and the pause that would
follow crosses the deadline or is slept; or it is cut off, at the deadline or before. In each case
`timeout` has said so of the attempt. -/
inductive RoundSpec (p : Progress) (attempt : Attempt Conn) : Round × Flow Conn → Prop
  | succeeded {took conn} (answer : timeout (p.limit giveUpAfter) attempt = (some (.ok conn), took))
      (le : took ≤ p.limit giveUpAfter) :
      RoundSpec p attempt
        (⟨p.elapsed, p.limit giveUpAfter, took, .succeeded, none⟩, .returned (.ok conn))
  | failed {took report}
      (answer : timeout (p.limit giveUpAfter) attempt = (some (.error report), took))
      (le : took ≤ p.limit giveUpAfter) (late : giveUpAfter ≤ p.elapsed + took + p.delay) :
      RoundSpec p attempt
        (⟨p.elapsed, p.limit giveUpAfter, took, .failed, none⟩,
          .returned (.error (gaveUp endpoint report)))
  | paused {took report}
      (answer : timeout (p.limit giveUpAfter) attempt = (some (.error report), took))
      (le : took ≤ p.limit giveUpAfter) (early : p.elapsed + took + p.delay < giveUpAfter) :
      RoundSpec p attempt
        (⟨p.elapsed, p.limit giveUpAfter, took, .failed, some p.delay⟩, .again (p.paused took))
  | spent (answer : timeout (p.limit giveUpAfter) attempt = (none, p.limit giveUpAfter))
      (late : giveUpAfter ≤ p.elapsed + p.limit giveUpAfter) :
      RoundSpec p attempt
        (⟨p.elapsed, p.limit giveUpAfter, p.limit giveUpAfter, .cutOff, none⟩,
          .returned (.error (gaveUp endpoint (cutOffReport (p.limit giveUpAfter)))))
  | resumed (answer : timeout (p.limit giveUpAfter) attempt = (none, p.limit giveUpAfter))
      (early : p.elapsed + p.limit giveUpAfter < giveUpAfter) :
      RoundSpec p attempt
        (⟨p.elapsed, p.limit giveUpAfter, p.limit giveUpAfter, .cutOff, none⟩,
          .again (p.resumed (p.limit giveUpAfter)))

/-- **One round**: the body of the loop does one of these things. Everything about whole runs is
derived from this. -/
theorem roundSpec_round (p : Progress) (attempt : Attempt Conn) :
    RoundSpec giveUpAfter endpoint p attempt (round giveUpAfter endpoint p attempt) := by
  have hle := timeout_took_le (p.limit giveUpAfter) attempt
  have hcut := @timeout_took_of_cutOff _ (p.limit giveUpAfter) attempt
  rw [round]
  rcases hanswer : timeout (p.limit giveUpAfter) attempt with ⟨_ | report | conn, took⟩
  · rw [hanswer] at hcut
    obtain rfl : took = p.limit giveUpAfter := hcut rfl
    dsimp only
    split
    · exact .spent hanswer ‹_›
    · exact .resumed hanswer (not_le.mp ‹_›)
  · rw [hanswer] at hle
    dsimp only
    split
    · exact .failed hanswer hle ‹_›
    · exact .paused hanswer hle (not_le.mp ‹_›)
  · rw [hanswer] at hle
    exact .succeeded hanswer hle

/-- No attempt outlives the budget: its limit is at most what is left. -/
theorem Progress.elapsed_add_limit_le {p : Progress} (h : p.elapsed ≤ giveUpAfter) :
    p.elapsed + p.limit giveUpAfter ≤ giveUpAfter := by
  have : p.limit giveUpAfter ≤ giveUpAfter - p.elapsed := min_le_left _ _
  omega

/-- An attempt cut off before the deadline was given the whole limit. -/
theorem Progress.limit_eq_of_early {p : Progress}
    (h : p.elapsed + p.limit giveUpAfter < giveUpAfter) :
    p.limit giveUpAfter = CONNECT_ATTEMPT_LIMIT := by
  rw [Progress.limit] at h ⊢
  omega

section RoundSpec

variable {giveUpAfter endpoint} {j : ℕ} {p next : Progress} {attempt : Attempt Conn} {r : Round}
  {flow : Flow Conn}

/-- A round after which the loop goes on leaves less of the budget, by the first pause at least,
and something of it. -/
theorem RoundSpec.again (h : RoundSpec giveUpAfter endpoint p attempt (r, .again next))
    (hp : Ready giveUpAfter j p) :
    Ready giveUpAfter (if r.ended = .failed then j + 1 else j) next ∧
      p.elapsed + INITIAL_DELAY ≤ next.elapsed ∧ next.elapsed < giveUpAfter := by
  have hpause : INITIAL_DELAY ≤ p.delay := hp.delay ▸ initial_delay_le_backoff j
  cases h with
  | @paused took _ _ le early =>
    have hdelay : min (p.delay * 2) MAX_DELAY = backoff (j + 1) := by
      rw [hp.delay, backoff_succ]
    refine ⟨⟨hdelay, early.le⟩, ?_, early⟩
    simp only [Progress.paused]
    omega
  | resumed _ early =>
    refine ⟨⟨hp.delay, early.le⟩, ?_, early⟩
    simp only [Progress.resumed, Progress.limit_eq_of_early giveUpAfter early]
    exact Nat.add_le_add_left (by decide) _

/-- A round starts at once, with a limit that fits into the budget. -/
theorem RoundSpec.limits (h : RoundSpec giveUpAfter endpoint p attempt (r, flow))
    (hp : Ready giveUpAfter j p) :
    r.startedAt = p.elapsed ∧ r.limit ≤ CONNECT_ATTEMPT_LIMIT ∧
      r.startedAt + r.limit ≤ giveUpAfter ∧ r.took ≤ r.limit := by
  have hend := Progress.elapsed_add_limit_le giveUpAfter hp.elapsed_le
  have hlimit : p.limit giveUpAfter ≤ CONNECT_ATTEMPT_LIMIT := min_le_right _ _
  cases h <;> exact ⟨rfl, hlimit, hend, by first | assumption | exact le_rfl⟩

/-- The next round starts when this one is over, with its sleep. -/
theorem RoundSpec.slept (h : RoundSpec giveUpAfter endpoint p attempt (r, .again next)) :
    next.elapsed = r.doneAt ∧ r.slept = if r.ended = .failed then some p.delay else none := by
  cases h <;> exact ⟨rfl, rfl⟩

/-- A round gives its attempt what is left of the budget, up to a second, and logs what `timeout`
then says of it. -/
theorem RoundSpec.logs (h : RoundSpec giveUpAfter endpoint p attempt (r, flow)) :
    r.limit = min (giveUpAfter - r.startedAt) CONNECT_ATTEMPT_LIMIT ∧
      r.took = (timeout r.limit attempt).2 ∧ r.ended = endedBy (timeout r.limit attempt).1 := by
  cases h with
  | succeeded answer | failed answer | paused answer | spent answer | resumed answer =>
    dsimp only
    rw [answer]
    exact ⟨rfl, rfl, rfl⟩

/-- The result of the round a run returns in is that of its attempt. An attempt that failed was the
last because its pause would have crossed the deadline, and one that was cut off because the
deadline was there. -/
theorem RoundSpec.returns {result : Except ConnectReport Conn}
    (h : RoundSpec giveUpAfter endpoint p attempt (r, .returned result)) :
    result = resultBy endpoint r.limit (timeout r.limit attempt).1 ∧
      (r.ended = .failed → giveUpAfter ≤ r.endedAt + p.delay) ∧
      (r.ended = .cutOff → giveUpAfter ≤ r.endedAt) := by
  cases h with
  | succeeded answer =>
    dsimp only
    rw [answer]
    exact ⟨rfl, by rintro ⟨⟩, by rintro ⟨⟩⟩
  | failed answer _ late =>
    dsimp only
    rw [answer]
    exact ⟨rfl, fun _ => late, by rintro ⟨⟩⟩
  | spent answer late =>
    dsimp only
    rw [answer]
    exact ⟨rfl, by rintro ⟨⟩, fun _ => late⟩

/-- A run does not go on behind an attempt that succeeded. -/
theorem RoundSpec.not_succeeded (h : RoundSpec giveUpAfter endpoint p attempt (r, .again next)) :
    r.ended ≠ .succeeded := by
  cases h with
  | paused | resumed => rintro ⟨⟩

end RoundSpec

/-! ### The run -/

variable {giveUpAfter endpoint attempts} in
/-- A round that returns ends the loop. -/
theorem loop_of_returned {fuel k : ℕ} {p : Progress} {r : Round} {result}
    (h : round giveUpAfter endpoint p (attempts k) = (r, .returned result)) :
    loop giveUpAfter endpoint attempts (fuel + 1) k p = some ⟨result, r.endedAt, [r]⟩ := by
  rw [loop, h]

variable {giveUpAfter endpoint attempts} in
/-- A round that does not return is recorded in front of the rounds that follow. -/
theorem loop_of_again {fuel k : ℕ} {p next : Progress} {r : Round}
    (h : round giveUpAfter endpoint p (attempts k) = (r, .again next)) :
    loop giveUpAfter endpoint attempts (fuel + 1) k p =
      (loop giveUpAfter endpoint attempts fuel (k + 1) next).map
        fun o => { o with rounds := r :: o.rounds } := by
  rw [loop, h]

/-- Induction along a run, from attempt `k` on with `j` failures behind it: over the round it
returns in, and over a round before the rest. -/
theorem loop_induction {motive : ℕ → ℕ → Progress → Outcome Conn → Prop}
    (last : ∀ k j p r result, Ready giveUpAfter j p →
      RoundSpec giveUpAfter endpoint p (attempts k) (r, .returned result) →
      motive k j p ⟨result, r.endedAt, [r]⟩)
    (cons : ∀ k j p r next o, Ready giveUpAfter j p →
      RoundSpec giveUpAfter endpoint p (attempts k) (r, .again next) →
      motive (k + 1) (if r.ended = .failed then j + 1 else j) next o →
      motive k j p { o with rounds := r :: o.rounds })
    {fuel k j : ℕ} {p : Progress} {o : Outcome Conn} (hp : Ready giveUpAfter j p)
    (h : loop giveUpAfter endpoint attempts fuel k p = some o) : motive k j p o := by
  induction fuel generalizing k j p o with
  | zero => cases h
  | succ fuel ih =>
    have hspec := roundSpec_round giveUpAfter endpoint p (attempts k)
    rcases hround : round giveUpAfter endpoint p (attempts k) with ⟨r, result | next⟩ <;>
      rw [hround] at hspec
    · rw [loop_of_returned hround] at h
      obtain rfl := Option.some.inj h
      exact last k j p r result hp hspec
    · rw [loop_of_again hround] at h
      obtain ⟨rest, hrest, rfl⟩ := Option.map_eq_some_iff.mp h
      exact cons k j p r next rest hp hspec (ih (hspec.again hp).1 hrest)

/-- A run ends, with a result, once it may take a round for each first pause that fits into what
is left of the budget. -/
theorem loop_ends {fuel k j : ℕ} {p : Progress} (hp : Ready giveUpAfter j p)
    (hfuel : giveUpAfter < p.elapsed + INITIAL_DELAY * fuel) :
    ∃ o, loop giveUpAfter endpoint attempts fuel k p = some o := by
  induction fuel generalizing k j p with
  | zero => exact absurd hp.elapsed_le (by omega)
  | succ fuel ih =>
    have hspec := roundSpec_round giveUpAfter endpoint p (attempts k)
    rcases hround : round giveUpAfter endpoint p (attempts k) with ⟨r, result | next⟩ <;>
      rw [hround] at hspec
    · exact ⟨_, loop_of_returned hround⟩
    · obtain ⟨hnext, hused, -⟩ := hspec.again hp
      obtain ⟨o, ho⟩ := @ih (k + 1) _ next hnext (by rw [Nat.mul_succ] at hfuel; omega)
      exact ⟨_, by rw [loop_of_again hround, ho, Option.map_some]⟩

/-- A run that has returned does not depend on how many more rounds it might have taken. -/
theorem loop_mono {fuel more k : ℕ} {p : Progress} {o : Outcome Conn} (hle : fuel ≤ more)
    (h : loop giveUpAfter endpoint attempts fuel k p = some o) :
    loop giveUpAfter endpoint attempts more k p = some o := by
  induction fuel generalizing more k p o with
  | zero => cases h
  | succ fuel ih =>
    obtain ⟨more, rfl⟩ := Nat.exists_eq_add_of_lt hle
    rcases hround : round giveUpAfter endpoint p (attempts k) with ⟨r, result | next⟩
    · rw [loop_of_returned hround] at h ⊢
      exact h
    · rw [loop_of_again hround] at h ⊢
      obtain ⟨rest, hrest, rfl⟩ := Option.map_eq_some_iff.mp h
      rw [ih (by omega) hrest, Option.map_some]

/-- What a run does with its budget, from a time on at which `j` attempts have failed on their
own. -/
structure WithinBudget (j startedAt : ℕ) (o : Outcome Conn) : Prop where
  /-- It makes an attempt at once. -/
  starts : o.rounds.head?.map Round.startedAt = some startedAt
  /-- Every round but the last takes the first pause at least. -/
  count : startedAt + INITIAL_DELAY * (o.rounds.length - 1) ≤ giveUpAfter
  /-- It returns when its last attempt is over, and not after the deadline. -/
  returns : o.rounds.getLast?.map Round.endedAt = some o.returnedAt ∧ o.returnedAt ≤ giveUpAfter
  /-- An attempt has a limit, within the budget, and keeps it. -/
  limits : ∀ r ∈ o.rounds, r.limit ≤ CONNECT_ATTEMPT_LIMIT ∧ r.startedAt + r.limit ≤ giveUpAfter ∧
    r.took ≤ r.limit
  /-- Attempts after the first start before the deadline. -/
  before : ∀ r ∈ o.rounds.tail, r.startedAt < giveUpAfter
  /-- A round starts when the one before it is over, with its sleep. -/
  chain : o.rounds.IsChain fun r r' => r'.startedAt = r.doneAt
  /-- The sleeps after the attempts that failed on their own double, up to a second. -/
  sleeps : ∀ i r, (o.rounds.dropLast.filter (·.ended = .failed))[i]? = some r →
    r.slept = some (backoff (j + i))
  /-- There is no sleep after the other attempts, nor after the last. -/
  rests : (∀ r ∈ o.rounds, r.ended ≠ .failed → r.slept = none) ∧
    ∀ r, o.rounds.getLast? = some r → r.slept = none

/-- What a run makes of the attempts from `k` on, when `j` attempts have failed on their own before.
Here the log is tied to the attempts and to the result: the rounds are made with the attempts one
after the other, none is left out, and what the run comes to is what the last of them came to. -/
structure Tries (k j : ℕ) (o : Outcome Conn) : Prop where
  /-- Every round gives its attempt what is left of the budget, up to a second, and lasts and ends
  as `timeout` has it with that limit. -/
  logged : ∀ i r, o.rounds[i]? = some r →
    r.limit = min (giveUpAfter - r.startedAt) CONNECT_ATTEMPT_LIMIT ∧
      r.took = (timeout r.limit (attempts (k + i))).2 ∧
      r.ended = endedBy (timeout r.limit (attempts (k + i))).1
  /-- No attempt but the last has succeeded. -/
  failed : ∀ r ∈ o.rounds.dropLast, r.ended ≠ .succeeded
  /-- The run returns the connection of its last attempt, or gives up with its report. -/
  result : ∀ i r, o.rounds.length = i + 1 → o.rounds[i]? = some r →
    o.result = resultBy endpoint r.limit (timeout r.limit (attempts (k + i))).1
  /-- It gives up behind an attempt that failed on its own only if the pause would have crossed the
  deadline, and behind one that was cut off only at the deadline. -/
  late : ∀ r, o.rounds.getLast? = some r →
    (r.ended = .failed → giveUpAfter ≤ r.endedAt +
      backoff (j + (o.rounds.dropLast.filter (·.ended = .failed)).length)) ∧
    (r.ended = .cutOff → giveUpAfter ≤ r.endedAt)

section Run

variable {giveUpAfter endpoint attempts} {k j : ℕ} {p next : Progress} {r : Round}
  {result : Except ConnectReport Conn} {o : Outcome Conn}

/-- A run that returns in its first round keeps within its budget, since an attempt starts before
the deadline and is cut off at it. -/
theorem WithinBudget.last (hp : Ready giveUpAfter j p)
    (h : RoundSpec giveUpAfter endpoint p (attempts k) (r, .returned result)) :
    WithinBudget giveUpAfter j p.elapsed ⟨result, r.endedAt, [r]⟩ := by
  obtain ⟨hstart, hlimit, hbudget, htook⟩ := h.limits hp
  have hslept : r.slept = none := by cases h <;> rfl
  exact {
    starts := by simp [hstart]
    count := by simpa using hp.elapsed_le
    returns := ⟨rfl, (Nat.add_le_add_left htook _).trans hbudget⟩
    limits := by simpa using ⟨hlimit, hbudget, htook⟩
    before := by simp
    chain := .singleton r
    sleeps := by simp
    rests := by simp [hslept] }

/-- A round in front of a run: its pause ends before the next attempt starts, and the backoff counts
its failure. -/
theorem WithinBudget.cons (hp : Ready giveUpAfter j p)
    (h : RoundSpec giveUpAfter endpoint p (attempts k) (r, .again next))
    (ho : WithinBudget giveUpAfter (if r.ended = .failed then j + 1 else j) next.elapsed o) :
    WithinBudget giveUpAfter j p.elapsed { o with rounds := r :: o.rounds } := by
  obtain ⟨hstart, hlimit⟩ := h.limits hp
  obtain ⟨-, hused, hbefore⟩ := h.again hp
  obtain ⟨hdone, hslept⟩ := h.slept
  obtain ⟨result, returnedAt, rounds⟩ := o
  obtain ⟨hhead, hcount, hreturns, hlimits, htail, hchain, hsleeps, hrests⟩ := ho
  -- the run behind the round is not empty, so its last round is the last of the whole
  obtain ⟨r', rest, rfl⟩ := List.exists_cons_of_ne_nil (l := rounds) (by rintro rfl; simp at hhead)
  have hnext : r'.startedAt = next.elapsed := by simpa using hhead
  exact {
    starts := by simp [hstart]
    count := by
      simp only [List.length_cons, Nat.add_sub_cancel, Nat.mul_succ] at hcount ⊢
      omega
    returns := by simpa using hreturns
    limits := by simpa using ⟨hlimit, by simpa using hlimits⟩
    before := by simpa [hnext] using ⟨hbefore, by simpa using htail⟩
    chain := .cons_cons (hnext.trans hdone) hchain
    sleeps := by
      intro i q hq
      rw [List.dropLast_cons_of_ne_nil (List.cons_ne_nil _ _), List.filter_cons] at hq
      by_cases hfailed : r.ended = .failed
      · simp only [hfailed, if_true] at hq hsleeps hslept
        cases i with
        | zero =>
          obtain rfl : r = q := by simpa using hq
          rw [hslept, hp.delay, Nat.add_zero]
        | succ i =>
          rw [hsleeps i q (by simpa using hq)]
          congr 2
          omega
      · simp only [hfailed, if_false] at hq hsleeps
        exact hsleeps i q (by simpa using hq)
    rests := by
      refine ⟨fun q hq hq' => ?_, by simpa using hrests.2⟩
      rcases List.mem_cons.mp hq with rfl | hq
      · rw [hslept, if_neg hq']
      · exact hrests.1 q hq hq' }

/-- A run that returns in its first round has made one attempt, and reports what that came to. -/
theorem Tries.last (hp : Ready giveUpAfter j p)
    (h : RoundSpec giveUpAfter endpoint p (attempts k) (r, .returned result)) :
    Tries giveUpAfter endpoint attempts k j ⟨result, r.endedAt, [r]⟩ := by
  obtain ⟨hresult, hfailed, hcutOff⟩ := h.returns
  rw [hp.delay] at hfailed
  have hone : ∀ i q, [r][i]? = some q → i = 0 ∧ q = r := by
    intro i q hq
    cases i with
    | zero => exact ⟨rfl, (Option.some.inj hq).symm⟩
    | succ i => cases hq
  exact {
    logged := by
      intro i q hq
      obtain ⟨rfl, rfl⟩ := hone i q hq
      exact h.logs
    failed := by simp
    result := by
      intro i q _ hq
      obtain ⟨rfl, rfl⟩ := hone i q hq
      exact hresult
    late := by
      intro q hq
      obtain rfl : r = q := by simpa using hq
      exact ⟨hfailed, hcutOff⟩ }

/-- A round with attempt `k` in front of a run from the next attempt on. -/
theorem Tries.cons (hne : o.rounds ≠ [])
    (h : RoundSpec giveUpAfter endpoint p (attempts k) (r, .again next))
    (ho : Tries giveUpAfter endpoint attempts (k + 1) (if r.ended = .failed then j + 1 else j) o) :
    Tries giveUpAfter endpoint attempts k j { o with rounds := r :: o.rounds } where
  logged i q hq := by
    cases i with
    | zero =>
      obtain rfl : r = q := by simpa using hq
      exact h.logs
    | succ i =>
      have hlogged := ho.logged i q (by simpa using hq)
      rwa [Nat.add_right_comm] at hlogged
  failed q hq := by
    rw [List.dropLast_cons_of_ne_nil hne] at hq
    rcases List.mem_cons.mp hq with rfl | hq
    · exact h.not_succeeded
    · exact ho.failed q hq
  result i q hlen hq := by
    cases i with
    | zero => exact absurd (List.length_eq_zero_iff.mp (Nat.succ.inj hlen)) hne
    | succ i =>
      have hresult := ho.result i q (Nat.succ.inj hlen) (by simpa using hq)
      rwa [Nat.add_right_comm] at hresult
  late q hq := by
    rw [List.getLast?_cons_of_ne_nil hne] at hq
    obtain ⟨hfailed, hcutOff⟩ := ho.late q hq
    refine ⟨fun hended => (hfailed hended).trans_eq ?_, hcutOff⟩
    rw [List.dropLast_cons_of_ne_nil hne, List.filter_cons]
    by_cases hr : r.ended = .failed
    · simp only [hr, if_true, decide_true, List.length_cons]
      congr 2
      omega
    · simp only [hr, if_false, decide_false, Bool.false_eq_true]

/-- A run is within its budget. -/
theorem withinBudget_of_loop {fuel : ℕ} (hp : Ready giveUpAfter j p)
    (h : loop giveUpAfter endpoint attempts fuel k p = some o) :
    WithinBudget giveUpAfter j p.elapsed o :=
  @loop_induction _ giveUpAfter endpoint attempts
    (fun _ j p o => WithinBudget giveUpAfter j p.elapsed o)
    (fun _ _ _ _ _ hp h => .last hp h) (fun _ _ _ _ _ _ hp h ho => .cons hp h ho)
    fuel k j p o hp h

/-- A run makes of its attempts what they come to. Induction along the run, as for the budget. -/
theorem tries_of_loop {fuel : ℕ} (hp : Ready giveUpAfter j p)
    (h : loop giveUpAfter endpoint attempts fuel k p = some o) :
    Tries giveUpAfter endpoint attempts k j o := by
  have hrun := @loop_induction _ giveUpAfter endpoint attempts
    (fun k j _ o => o.rounds ≠ [] ∧ Tries giveUpAfter endpoint attempts k j o)
    (fun _ _ _ _ _ hp h => ⟨List.cons_ne_nil _ _, .last hp h⟩)
    (fun _ _ _ _ _ _ _ h ho => ⟨List.cons_ne_nil _ _, .cons ho.1 h ho.2⟩)
    fuel k j p o hp h
  exact hrun.2

end Run

/-- **`connect_ready` ends within its budget.** Whatever the attempts do, it returns after at most
one attempt for each 50 milliseconds of the budget and one more. It has made at least one attempt,
it returns no later than the deadline, an attempt has a limit of at most a second and of at most
what is left, those after the first start before the deadline, and the sleeps after the attempts
that failed on their own are 50 milliseconds, doubled each time, up to a second. The attempts it
has made are the first ones in order, each for as long and with the end that `timeout` gives it;
only the last can have succeeded, and the run returns its connection, or gives up with its report
because the deadline is there or the next pause would cross it. -/
theorem connectReady_within_budget :
    ∃ o : Outcome Conn,
      (∀ fuel, giveUpAfter / INITIAL_DELAY + 1 ≤ fuel →
        connectReady giveUpAfter endpoint attempts fuel = some o) ∧
      1 ≤ o.rounds.length ∧ o.rounds.length ≤ giveUpAfter / INITIAL_DELAY + 1 ∧
      WithinBudget giveUpAfter 0 0 o ∧ Tries giveUpAfter endpoint attempts 0 0 o := by
  have hready := ready_start giveUpAfter
  have hdelay : 0 < INITIAL_DELAY := by decide
  have hfuel : giveUpAfter < Progress.start.elapsed +
      INITIAL_DELAY * (giveUpAfter / INITIAL_DELAY + 1) := by
    simpa [Progress.start] using Nat.lt_mul_div_succ giveUpAfter hdelay
  obtain ⟨o, ho⟩ := loop_ends giveUpAfter endpoint attempts hready hfuel
  have hbudget := withinBudget_of_loop hready ho
  refine ⟨o, fun fuel hle => loop_mono giveUpAfter endpoint attempts hle ho, ?_, ?_, hbudget,
    tries_of_loop hready ho⟩
  · by_contra hzero
    have hstarts := hbudget.starts
    simp [List.length_eq_zero_iff.mp (by omega : o.rounds.length = 0)] at hstarts
  · have hcount : INITIAL_DELAY * (o.rounds.length - 1) ≤ giveUpAfter := by
      simpa [Progress.start] using hbudget.count
    rw [Nat.mul_comm, ← Nat.le_div_iff_mul_le hdelay] at hcount
    omega

/-! ### Giving up early -/

/-- When attempt `k` starts, and the pause after it should it fail on its own, in a loop over these
attempts that never gives up. -/
def schedule : ℕ → Progress
  | 0 => Progress.start
  | k + 1 =>
      let p := schedule k
      match timeout (p.limit giveUpAfter) (attempts k) with
      | (some _, took) => p.paused took
      | (none, took) => p.resumed took

/-- An attempt succeeds within its limit, at the time at which the loop comes to it. -/
def Succeeds (k : ℕ) : Prop :=
  ∃ conn took, timeout ((schedule giveUpAfter attempts k).limit giveUpAfter) (attempts k) =
    (some (.ok conn), took)

/-- Before any attempt succeeds, one fails on its own when there is still something left of the
budget, but no more than the pause that would follow. -/
def PausePastDeadline : Prop :=
  ∃ k, (∀ j < k, ¬ Succeeds giveUpAfter attempts j) ∧
    ∃ report took, timeout ((schedule giveUpAfter attempts k).limit giveUpAfter) (attempts k) =
        (some (.error report), took) ∧
      (schedule giveUpAfter attempts k).elapsed + took < giveUpAfter ∧
      giveUpAfter ≤ (schedule giveUpAfter attempts k).elapsed + took +
        (schedule giveUpAfter attempts k).delay

/-- A run returns an error only once its budget is spent, and not earlier. -/
def GivesUpOnTime : Prop :=
  ∀ fuel o report, connectReady giveUpAfter endpoint attempts fuel = some o →
    o.result = .error report → giveUpAfter ≤ o.returnedAt

/-- Time does not run backwards over the rounds. -/
theorem schedule_elapsed_mono : Monotone fun k => (schedule giveUpAfter attempts k).elapsed := by
  refine monotone_nat_of_le_succ fun k => ?_
  simp only [schedule]
  split <;> simp only [Progress.paused, Progress.resumed] <;> omega

/-- The loop goes on after an attempt that does not succeed, if the next one would start before the
deadline. -/
theorem round_schedule {k : ℕ} (hfail : ¬ Succeeds giveUpAfter attempts k)
    (hearly : (schedule giveUpAfter attempts (k + 1)).elapsed < giveUpAfter) :
    ∃ r, round giveUpAfter endpoint (schedule giveUpAfter attempts k) (attempts k) =
      (r, .again (schedule giveUpAfter attempts (k + 1))) := by
  rw [Succeeds] at hfail
  rw [schedule] at hearly ⊢
  rw [round]
  generalize timeout _ (attempts k) = answer at hfail hearly ⊢
  rcases answer with ⟨_ | _ | conn, took⟩
  · exact ⟨_, if_neg (not_le.mpr hearly)⟩
  · exact ⟨_, if_neg (not_le.mpr hearly)⟩
  · exact absurd ⟨conn, took, rfl⟩ hfail

/-- The loop goes through the attempts before the one whose pause would cross the deadline. -/
theorem loop_schedule {k d : ℕ} {o : Outcome Conn}
    (hfail : ∀ j < k + d, ¬ Succeeds giveUpAfter attempts j)
    (hearly : (schedule giveUpAfter attempts (k + d)).elapsed < giveUpAfter)
    (h : loop giveUpAfter endpoint attempts 1 (k + d) (schedule giveUpAfter attempts (k + d)) =
      some o) :
    ∃ rounds, loop giveUpAfter endpoint attempts (d + 1) k (schedule giveUpAfter attempts k) =
      some { o with rounds := rounds } := by
  induction d generalizing k with
  | zero => exact ⟨o.rounds, h⟩
  | succ d ih =>
    rw [show k + (d + 1) = k + 1 + d by omega] at hfail hearly h
    have hmono := schedule_elapsed_mono giveUpAfter attempts (Nat.le_add_right (k + 1) d)
    obtain ⟨r, hr⟩ := round_schedule giveUpAfter endpoint attempts (hfail k (by omega))
      (hmono.trans_lt hearly)
    obtain ⟨rounds, hrest⟩ := ih hfail hearly h
    exact ⟨r :: rounds, by rw [loop_of_again hr, hrest, Option.map_some]⟩

/-- If the next attempt would not start before the deadline, the run returns as soon as this one is
over, which is before the deadline only if it failed on its own. -/
theorem loop_returns {fuel k : ℕ} {o : Outcome Conn} {report : ConnectReport}
    (hlate : giveUpAfter ≤ (schedule giveUpAfter attempts (k + 1)).elapsed)
    (h : loop giveUpAfter endpoint attempts (fuel + 1) k (schedule giveUpAfter attempts k) = some o)
    (herr : o.result = .error report) (hearly : o.returnedAt < giveUpAfter) :
    ∃ failure took, timeout ((schedule giveUpAfter attempts k).limit giveUpAfter) (attempts k) =
        (some (.error failure), took) ∧
      (schedule giveUpAfter attempts k).elapsed + took < giveUpAfter ∧
      giveUpAfter ≤ (schedule giveUpAfter attempts k).elapsed + took +
        (schedule giveUpAfter attempts k).delay := by
  rw [schedule] at hlate
  rw [loop, round] at h
  generalize timeout _ (attempts k) = answer at hlate h ⊢
  rcases answer with ⟨_ | failure | conn, took⟩
  · -- cut off: the run returns at the deadline
    dsimp only [Progress.resumed] at hlate h
    rw [Nat.add_zero, if_pos hlate] at h
    obtain rfl := Option.some.inj h
    exact absurd hearly (not_lt.mpr hlate)
  · dsimp only [Progress.paused] at hlate h
    rw [if_pos hlate] at h
    obtain rfl := Option.some.inj h
    exact ⟨failure, took, rfl, hearly, hlate⟩
  · obtain rfl := Option.some.inj h
    cases herr

/-- A run that gives up early has met an attempt whose pause would cross the deadline. -/
theorem pausePastDeadline_of_loop {fuel k : ℕ} {o : Outcome Conn} {report : ConnectReport}
    (hfail : ∀ j < k, ¬ Succeeds giveUpAfter attempts j)
    (h : loop giveUpAfter endpoint attempts fuel k (schedule giveUpAfter attempts k) = some o)
    (herr : o.result = .error report) (hearly : o.returnedAt < giveUpAfter) :
    PausePastDeadline giveUpAfter attempts := by
  induction fuel generalizing k o with
  | zero => cases h
  | succ fuel ih =>
    rcases Nat.lt_or_ge (schedule giveUpAfter attempts (k + 1)).elapsed giveUpAfter with hon | hlate
    · have hk : ¬ Succeeds giveUpAfter attempts k := by
        rintro ⟨conn, took, hok⟩
        rw [loop, round, hok] at h
        obtain rfl := Option.some.inj h
        cases herr
      obtain ⟨r, hr⟩ := round_schedule giveUpAfter endpoint attempts hk hon
      rw [loop_of_again hr] at h
      obtain ⟨rest, hrest, rfl⟩ := Option.map_eq_some_iff.mp h
      refine ih (fun j hj => ?_) hrest herr hearly
      rcases Nat.lt_succ_iff_lt_or_eq.mp hj with hj | rfl
      · exact hfail j hj
      · exact hk
    · exact ⟨k, hfail, loop_returns giveUpAfter endpoint attempts hlate h herr hearly⟩

/-- **`connect_ready` gives up early exactly when a pause would cross the deadline**: the runs that
return an error only once the budget is spent are those in which, before any attempt succeeds, no
attempt fails on its own with some of the budget left but no more than the pause that would
follow. -/
theorem gives_up_on_time_iff :
    GivesUpOnTime giveUpAfter endpoint attempts ↔ ¬ PausePastDeadline giveUpAfter attempts := by
  constructor
  · rintro hon ⟨k, hfail, failure, took, hfailed, hleft, hpause⟩
    set p := schedule giveUpAfter attempts k with hp
    have hround : round giveUpAfter endpoint p (attempts k) =
        (⟨p.elapsed, p.limit giveUpAfter, took, .failed, none⟩,
          .returned (.error (gaveUp endpoint failure))) := by
      rw [round, hfailed]
      exact if_pos hpause
    have hlast := @loop_of_returned _ _ _ _ 0 _ _ _ _ hround
    obtain ⟨rounds, hrun⟩ := @loop_schedule Conn giveUpAfter endpoint attempts 0 k _
      (by simpa using hfail) (by simpa using (Nat.le_add_right _ _).trans_lt hleft)
      (by simpa using hlast)
    exact absurd (hon _ _ _ hrun rfl) (not_le.mpr hleft)
  · intro hnone fuel o report h herr
    by_contra hearly
    exact hnone (pausePastDeadline_of_loop giveUpAfter endpoint attempts (by simp) h herr
      (not_le.mp hearly))

/-- An endpoint that refuses at once, with a budget of 40 milliseconds: the run gives up before any
of it is spent. -/
theorem gives_up_at_once :
    ¬ GivesUpOnTime 40000000 "uds /run/app/echo.sock"
      (fun _ => (.returns 0 (.error ⟨["uds /run/app/echo.sock"]⟩) : Attempt Unit)) := by
  intro hon
  have hrun := hon 1 _ _ rfl rfl
  exact absurd hrun (by decide)

/-! ### A service that becomes ready -/

/-- From a time on the service is there: every attempt that starts then succeeds, after a delay. -/
def ReadyFrom (time lag : ℕ) : Prop :=
  ∀ k, time ≤ (schedule giveUpAfter attempts k).elapsed →
    ∃ after conn, after ≤ lag ∧ attempts k = .returns after (.ok conn)

/-- A pause is never longer than the longest one: doubling stops there. -/
theorem schedule_delay_le (k : ℕ) : (schedule giveUpAfter attempts k).delay ≤ MAX_DELAY := by
  induction k with
  | zero =>
    change INITIAL_DELAY ≤ MAX_DELAY
    decide
  | succ k ih =>
    rw [schedule]
    split
    · exact min_le_right _ _
    · exact ih

/-- The next attempt starts at most an attempt and a pause later, each at its longest. -/
theorem schedule_elapsed_succ_le (k : ℕ) :
    (schedule giveUpAfter attempts (k + 1)).elapsed ≤
      (schedule giveUpAfter attempts k).elapsed + CONNECT_ATTEMPT_LIMIT + MAX_DELAY := by
  have hdelay := schedule_delay_le giveUpAfter attempts k
  have htook := timeout_took_le ((schedule giveUpAfter attempts k).limit giveUpAfter) (attempts k)
  have hlimit : (schedule giveUpAfter attempts k).limit giveUpAfter ≤ CONNECT_ATTEMPT_LIMIT :=
    min_le_right _ _
  rw [schedule]
  generalize timeout _ (attempts k) = answer at htook ⊢
  obtain ⟨_ | result, took⟩ := answer
  · dsimp only [Progress.resumed] at htook ⊢
    omega
  · dsimp only [Progress.paused] at htook ⊢
    omega

/-- An attempt that succeeds within its limit ends the run. -/
theorem loop_of_succeeds {fuel k : ℕ} {p : Progress} {o : Outcome Conn} {conn : Conn} {took : ℕ}
    (hok : timeout (p.limit giveUpAfter) (attempts k) = (some (.ok conn), took))
    (h : loop giveUpAfter endpoint attempts (fuel + 1) k p = some o) :
    o.result = .ok conn ∧ o.returnedAt = p.elapsed + took := by
  rw [loop, round, hok] at h
  obtain rfl := Option.some.inj h
  exact ⟨rfl, rfl⟩

/-- A run that is not late when the service is there gets a connection. -/
theorem loop_reaches {time lag fuel k : ℕ} {o : Outcome Conn}
    (hready : ReadyFrom giveUpAfter attempts time lag) (hlag : lag ≤ CONNECT_ATTEMPT_LIMIT)
    (hbudget : time + CONNECT_ATTEMPT_LIMIT + MAX_DELAY + lag ≤ giveUpAfter)
    (hk : (schedule giveUpAfter attempts k).elapsed ≤ time + CONNECT_ATTEMPT_LIMIT + MAX_DELAY)
    (h : loop giveUpAfter endpoint attempts fuel k (schedule giveUpAfter attempts k) = some o) :
    ∃ conn, o.result = .ok conn ∧
      o.returnedAt ≤ time + CONNECT_ATTEMPT_LIMIT + MAX_DELAY + lag := by
  induction fuel generalizing k o with
  | zero => cases h
  | succ fuel ih =>
    by_cases hthere : time ≤ (schedule giveUpAfter attempts k).elapsed
    · -- the attempt is made with the service there, and is given the time it needs
      obtain ⟨after, conn, hafter, hattempt⟩ := hready k hthere
      have hlimit : after ≤ (schedule giveUpAfter attempts k).limit giveUpAfter := by
        rw [Progress.limit]
        omega
      obtain ⟨hresult, hat⟩ := loop_of_succeeds giveUpAfter endpoint attempts
        (show timeout _ (attempts k) = (some (.ok conn), after) by
          rw [hattempt, timeout, if_pos hlimit]) h
      exact ⟨conn, hresult, by omega⟩
    · by_cases hsucceeds : Succeeds giveUpAfter attempts k
      · obtain ⟨conn, took, hok⟩ := hsucceeds
        have htook := timeout_took_le ((schedule giveUpAfter attempts k).limit giveUpAfter)
          (attempts k)
        have hlimit : (schedule giveUpAfter attempts k).limit giveUpAfter ≤ CONNECT_ATTEMPT_LIMIT :=
          min_le_right _ _
        rw [hok] at htook
        obtain ⟨hresult, hat⟩ := loop_of_succeeds giveUpAfter endpoint attempts hok h
        exact ⟨conn, hresult, by omega⟩
      · have hnext := schedule_elapsed_succ_le giveUpAfter attempts k
        obtain ⟨r, hr⟩ := round_schedule giveUpAfter endpoint attempts hsucceeds (by omega)
        rw [loop_of_again hr] at h
        obtain ⟨rest, hrest, rfl⟩ := Option.map_eq_some_iff.mp h
        obtain ⟨conn, hresult, hat⟩ := @ih (k + 1) rest (by omega) hrest
        exact ⟨conn, hresult, hat⟩

/-- **A service that becomes ready is reached.** Whatever the attempts before that come to, if from
some time on every attempt succeeds within a delay of at most a second, and the budget goes two
seconds and that delay beyond that time, then `connect_ready` returns a connection, at most two
seconds and the delay after the service is there. -/
theorem ready_service_reached {time lag : ℕ} (hready : ReadyFrom giveUpAfter attempts time lag)
    (hlag : lag ≤ CONNECT_ATTEMPT_LIMIT)
    (hbudget : time + CONNECT_ATTEMPT_LIMIT + MAX_DELAY + lag ≤ giveUpAfter) :
    ∃ (o : Outcome Conn) (conn : Conn),
      (∀ fuel, giveUpAfter / INITIAL_DELAY + 1 ≤ fuel →
        connectReady giveUpAfter endpoint attempts fuel = some o) ∧
      o.result = .ok conn ∧
      o.returnedAt ≤ time + CONNECT_ATTEMPT_LIMIT + MAX_DELAY + lag := by
  have hfuel : giveUpAfter < Progress.start.elapsed +
      INITIAL_DELAY * (giveUpAfter / INITIAL_DELAY + 1) := by
    simpa [Progress.start] using Nat.lt_mul_div_succ giveUpAfter (show 0 < INITIAL_DELAY by decide)
  obtain ⟨o, ho⟩ := @loop_ends Conn giveUpAfter endpoint attempts _ 0 0 _ (ready_start giveUpAfter)
    hfuel
  obtain ⟨conn, hresult, hat⟩ := loop_reaches giveUpAfter endpoint attempts hready hlag hbudget
    (k := 0) (Nat.zero_le _) ho
  exact ⟨o, conn, fun fuel hle => loop_mono giveUpAfter endpoint attempts hle ho, hresult, hat⟩

/-- A socket that refuses connections four times, and then answers at once. -/
def refusedAtFirst (k : ℕ) : Attempt Unit :=
  if k < 4 then .returns 0 (.error ⟨["uds /run/app/echo.sock"]⟩) else .returns 0 (.ok ())

/-- Four refusals take three quarters of a second, with their pauses. -/
theorem ready_service_reached_refusedAtFirst :
    ∃ o : Outcome Unit,
      connectReady 3000000000 "uds /run/app/echo.sock" refusedAtFirst 61 = some o ∧
      o.result = .ok () := by
  have hready : ReadyFrom 3000000000 refusedAtFirst 750000000 0 := by
    intro k hk
    have hearly : ∀ k : Fin 4, (schedule 3000000000 refusedAtFirst k).elapsed < 750000000 := by
      decide
    by_cases hlt : k < 4
    · exact absurd hk (not_le.mpr (hearly ⟨k, hlt⟩))
    · exact ⟨0, (), Nat.le_refl 0, if_neg hlt⟩
  obtain ⟨o, conn, hrun, hresult, -⟩ := ready_service_reached 3000000000 "uds /run/app/echo.sock"
    refusedAtFirst hready (by decide) (by decide)
  exact ⟨o, hrun 61 (by decide), hresult⟩

end Loop

end ConnectReady

end Ogurpchik
