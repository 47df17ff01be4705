import Conformance.Time.Stamp

/-!
The log of a check: one entry per message, each written with its level, time and the check's id.
-/
namespace Conformance

inductive LogLevel where
  | debug
  | info
  | warn
  | error
  deriving DecidableEq, Repr

/-- Five columns wide. -/
def LogLevel.column : LogLevel → String
  | debug => "DEBUG"
  | info => "INFO "
  | warn => "WARN "
  | error => "ERROR"

structure LogEntry where
  level : LogLevel
  time : Time.Instant
  message : String
  deriving DecidableEq, Repr

def LogEntry.line (id : String) (e : LogEntry) : String :=
  e.level.column ++ " [" ++ e.time.logStamp ++ "] [" ++ id ++ "] " ++ e.message ++ "\n"

def logText (id : String) (log : List LogEntry) : String := String.join (log.map (·.line id))

end Conformance
