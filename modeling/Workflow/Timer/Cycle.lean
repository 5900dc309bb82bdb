/-
Repeating intervals: how often a timer fires, and at which period.

An interval is written `R/` and a duration, or `Rn/` and a duration for `n` firings.  The count
is an unsigned number of 32 bits and must not be zero; neither may the period.
-/
import Workflow.Time.IsoDuration

namespace Workflow

/-- How many more times a timer fires. -/
inductive Repetition where
  /-- It fires once. -/
  | once
  /-- It fires so many times, the pending firing counted. -/
  | finite (remaining : Nat)
  /-- It fires until it is canceled. -/
  | infinite
deriving DecidableEq, Inhabited

/-- The repetition of the timer that follows the pending firing, if one follows. -/
def Repetition.next? : Repetition → Option Repetition
  | .once => none
  | .finite n => if n ≤ 1 then none else some (.finite (n - 1))
  | .infinite => some .infinite

/-- A repeating interval. -/
structure TimerCycle where
  /-- How often it fires. -/
  repetition : Repetition
  /-- The time between two firings. -/
  period : Duration
deriving DecidableEq, Inhabited

/-- Why a text is not a duration or a repeating interval; a cause keeps the text it is about. -/
inductive CycleError where
  /-- The text is not a duration. -/
  | invalidDuration (text : String)
  /-- The duration has years or months. -/
  | calendarDuration (text : String)
  /-- The text is not a repeating interval. -/
  | invalidCycle (text : String)
  /-- The interval repeats zero times. -/
  | zeroRepetitions (text : String)
  /-- The period of the interval is zero. -/
  | zeroPeriod (text : String)
deriving DecidableEq, Inhabited

namespace CycleError

/-- The name of the cause. -/
def name : CycleError → String
  | .invalidDuration _ => "InvalidDuration"
  | .calendarDuration _ => "CalendarDuration"
  | .invalidCycle _ => "InvalidCycle"
  | .zeroRepetitions _ => "ZeroRepetitions"
  | .zeroPeriod _ => "ZeroPeriod"

/-- The wording of the cause. -/
def message : CycleError → String
  | .invalidDuration text => s!"invalid ISO-8601 duration '{text}'"
  | .calendarDuration text =>
      s!"calendar durations with years or months are not supported: '{text}'"
  | .invalidCycle text => s!"invalid ISO-8601 repeating interval '{text}'"
  | .zeroRepetitions text => s!"repetition count must be at least 1: '{text}'"
  | .zeroPeriod text => s!"cycle period must be greater than zero: '{text}'"

/-- The cause for a text that is not a duration. -/
def ofDuration (text : String) : DurationTextError → CycleError
  | .invalid => .invalidDuration text
  | .calendar => .calendarDuration text

end CycleError

/-- Reads a duration; the cause of a failure keeps the text. -/
def parseDuration (text : String) : Except CycleError Duration :=
  (IsoDuration.parse text).mapError (CycleError.ofDuration text)

namespace TimerCycle

/-- Reads what stands between `R` and the slash. -/
def parseCount (text : String) (count : List Char) : Except CycleError Repetition :=
  if count = [] then .ok .infinite
  else
    match Decimal.unsigned? maxWord32 count with
    | none => .error (.invalidCycle text)
    | some 0 => .error (.zeroRepetitions text)
    | some n => .ok (.finite n)

/-- Reads a repeating interval. -/
def parse (text : String) : Except CycleError TimerCycle := do
  let cs := text.toList
  let front := cs.takeWhile (· ≠ '/')
  match front, cs.dropWhile (· ≠ '/') with
  | 'R' :: count, '/' :: rest =>
      let repetition ← parseCount text count
      let period ← parseDuration (String.ofList rest)
      if period.isZero then .error (.zeroPeriod text) else .ok ⟨repetition, period⟩
  | _, _ => .error (.invalidCycle text)

/-- The interval in writing; one firing is written as a count of 1. -/
def text (cycle : TimerCycle) : String :=
  let front := match cycle.repetition with
    | .once => "R1/"
    | .finite n => "R" ++ Decimal.text n ++ "/"
    | .infinite => "R/"
  front ++ IsoDuration.text cycle.period

end TimerCycle

end Workflow
