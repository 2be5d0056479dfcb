/-
  Swimlane — what the command tells its user.

  A failure is told as a chain: what was being done, outermost first, then the cause,
  then what caused that.  Whoever is told the failure hears the first link, and the
  line that is printed has all of them.

  The errors of others are passed on in their words.  `Wording` holds these words; they
  are not fixed here.
-/
import Swimlane.CommandLine.Session

namespace Swimlane.CommandLine

/-- The words of those whose errors are passed on. -/
structure Wording where
  /-- Of the reader of JSON, about a candidate that it does not read. -/
  candidate : String → String
  /-- Of the reader of JSON, about settings that it does not read, or not as settings. -/
  settings : String → String
  /-- Of the reader of the arguments. -/
  arguments : UsageError → String
  /-- Of the system, about what cannot be read or written. -/
  file : String

/-- A cause in words, and then what it was caused by. -/
def Cause.chain (w : Wording) : Cause → List String
  | .usage e => [w.arguments e]
  | .fault f => f.chain w.candidate
  | .malformedConfig text => [w.settings text]
  | .unknownTheme name => ["unknown theme '" ++ name ++ "'"]
  | .file => [w.file]

def Failure.chain (w : Wording) (f : Failure) : List String := f.context ++ f.cause.chain w

/-- A failure in words: the first link of its chain. -/
def Failure.message (w : Wording) (f : Failure) : String := (f.chain w).headD ""

/-- The line that is printed for a failure: all links of its chain. -/
def Failure.report (w : Wording) (f : Failure) : String := ": ".intercalate (f.chain w)

end Swimlane.CommandLine
