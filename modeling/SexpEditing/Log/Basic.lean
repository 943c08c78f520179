import SexpEditing.Text.Lowercase

/-!
# Logging

## Main definitions

* `LogLevel`, `LogLevel.ofName?`: the levels of a log, and how they are named
* `Severity`, `LogEntry`: what is written to a log
* `Logger.write`: what a console shows of a message
-/

namespace SexpEditing

open CodeUnit

/-- The least severity that a log keeps; `stop` keeps nothing. -/
inductive LogLevel
  | verbose
  | log
  | warn
  | error
  | stop
deriving DecidableEq, Repr

namespace LogLevel

/-- Every level, in increasing order. -/
def all : List LogLevel := [.verbose, .log, .warn, .error, .stop]

/-- The place of a level in that order. -/
def number (level : LogLevel) : Nat := all.idxOf level

/-- The level at a place in that order. Places before all levels stand for the first one, and places
after them for the last one. -/
def ofNumber (n : Int) : LogLevel := all[n.toNat]?.getD .stop

@[simp] theorem ofNumber_number (level : LogLevel) : ofNumber level.number = level := by
  cases level <;> rfl

/-- The name of a level. -/
def name : LogLevel → String
  | .verbose => "verbose"
  | .log => "log"
  | .warn => "warn"
  | .error => "error"
  | .stop => "stop"

/-- The level with a name; upper and lower case are the same. -/
def ofName? (name : Text) : Option LogLevel :=
  all.find? fun level => Text.ofString level.name == name.lowercase

end LogLevel

/-- How much a message matters. -/
inductive Severity
  | verbose
  | log
  | warn
  | error
deriving DecidableEq, Repr

namespace Severity

/-- The level of a message. -/
def level : Severity → LogLevel
  | .verbose => .verbose
  | .log => .log
  | .warn => .warn
  | .error => .error

/-- The name of a severity. -/
def name (severity : Severity) : String := severity.level.name

/-- Every severity, in increasing order. -/
def all : List Severity := [.verbose, .log, .warn, .error]

/-- The severity with a name. -/
def ofName? (name : String) : Option Severity := all.find? fun severity => severity.name == name

end Severity

/-- What is written to a log. -/
inductive LogEntry
  /-- From here on, only messages of this level or above are kept. -/
  | setup (level : LogLevel)
  | message (severity : Severity) (text : Text)
deriving DecidableEq, Repr

namespace LogEntry

/-- A message for those who want to see everything. -/
def verbose (text : Text) : LogEntry := .message .verbose text

/-- A message on what is going on. -/
def log (text : Text) : LogEntry := .message .log text

/-- A message on something that is ignored or skipped. -/
def warn (text : Text) : LogEntry := .message .warn text

/-- A message on something that failed. -/
def error (text : Text) : LogEntry := .message .error text

end LogEntry

/-- The two streams of a console. -/
inductive ConsoleStream
  | output
  | errors
deriving DecidableEq, Repr

/-- A log that is shown on a console. -/
structure Logger where
  level : LogLevel
deriving DecidableEq, Repr

namespace Logger

/-- The log of a console before it is set up otherwise. -/
def console : Logger := ⟨.log⟩

/-- The number of units of a line that a console shows. -/
def lineLimit : Nat := 1500

/-- The line that shows a message. A long one is cut, and says so. -/
def line (message : Text) : Text :=
  let line := message ++ [lineFeed]
  if line.length ≤ lineLimit then line
  else line.take lineLimit ++ Text.ofString "[...]" ++ [lineFeed]

/-- The level that holds after an entry, and what the entry writes. -/
def write (logger : Logger) : LogEntry → Logger × List (ConsoleStream × Text)
  | .setup level => (⟨level⟩, [])
  | .message severity text =>
    let stream := if severity = .error then ConsoleStream.errors else .output
    if logger.level ≠ .stop ∧ logger.level.number ≤ severity.level.number then
      (logger, [(stream, line text)])
    else
      (logger, [])

/-- What several entries write. -/
def writeAll (logger : Logger) : List LogEntry → Logger × List (ConsoleStream × Text)
  | [] => (logger, [])
  | entry :: rest =>
    let (logger, first) := logger.write entry
    let (logger, more) := writeAll logger rest
    (logger, first ++ more)

end Logger

end SexpEditing
