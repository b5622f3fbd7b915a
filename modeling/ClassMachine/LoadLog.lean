/-!
Issues found while classes are loaded and linked. They are recorded in order and matter only when
the offending code runs.
-/
namespace ClassMachine

inductive Severity where
  | info
  | warning
  | error
  deriving DecidableEq, Repr, Inhabited

namespace Severity

def name : Severity → String
  | info => "info"
  | warning => "warning"
  | error => "error"

def rank : Severity → Nat
  | info => 0
  | warning => 1
  | error => 2

end Severity

structure LoadIssue where
  severity : Severity
  subject : String
  message : String
  deriving DecidableEq, Repr

def LoadIssue.text (i : LoadIssue) : String := s!"[{i.severity.name}] {i.subject}: {i.message}"

/-- Recorded issues, newest first; `entries` gives them in order. -/
structure LoadLog where
  newestFirst : List LoadIssue := []
  deriving DecidableEq, Repr, Inhabited

/-- Whether `needle` occurs in `text` at some place. -/
def containsText (needle : List Char) : List Char → Bool
  | [] => needle.isEmpty
  | c :: rest => needle.isPrefixOf (c :: rest) || containsText needle rest

namespace LoadLog

def record (log : LoadLog) (severity : Severity) (subject message : String) : LoadLog :=
  ⟨⟨severity, subject, message⟩ :: log.newestFirst⟩

def entries (log : LoadLog) : List LoadIssue := log.newestFirst.reverse

@[simp] theorem entries_record (log : LoadLog) (severity : Severity) (subject message : String) :
    (log.record severity subject message).entries = log.entries ++ [⟨severity, subject, message⟩] := by
  simp [entries, record]

def count (log : LoadLog) (severity : Severity) : Nat :=
  log.newestFirst.countP (·.severity == severity)

def mentions (log : LoadLog) (needle : String) : Bool :=
  log.entries.any fun i =>
    containsText needle.toList i.subject.toList || containsText needle.toList i.message.toList

def isEmpty (log : LoadLog) : Bool := log.newestFirst.isEmpty

/-- Issues of at least the given severity. -/
def atLeast (log : LoadLog) (least : Severity) : List LoadIssue :=
  log.entries.filter fun i => least.rank ≤ i.severity.rank

end LoadLog

end ClassMachine
