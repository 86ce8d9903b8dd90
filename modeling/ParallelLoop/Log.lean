/-
# Log lines

Planning and buffering report what they do in lines of three levels. A log is the
list of its lines in order; a reader chooses a level and sees that and the more
urgent ones.
-/

namespace ParallelLoop

/-- How urgent a log line is. -/
inductive LogLevel
  | warn | debug | trace
  deriving DecidableEq, Repr

namespace LogLevel

/-- The name written before a line. -/
def name : LogLevel → String
  | warn => "WARN"
  | debug => "DEBUG"
  | trace => "TRACE"

/-- Verbosity: a higher rank is less urgent. -/
def rank : LogLevel → Nat
  | warn => 0
  | debug => 1
  | trace => 2

end LogLevel

/-- A line of the log. -/
structure LogLine where
  level : LogLevel
  text : String
  deriving DecidableEq, Repr

namespace LogLine

/-- The line as it is written. -/
def render (line : LogLine) : String := line.level.name ++ " " ++ line.text

end LogLine

/-- Log lines, oldest first. -/
abbrev Log := List LogLine

/-- The lines that a reader of the given level sees. -/
def Log.upTo (level : LogLevel) (log : Log) : Log :=
  log.filter fun line => line.level.rank ≤ level.rank

end ParallelLoop
