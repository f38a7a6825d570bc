/-
Why a task ends without a value, and what a panic carries.

An `Error` is a cause, not a text.  `Error.message` gives the sentence shown to a
user and `Error.describe` the form shown to a developer.  A failure may wrap any
cause, another error included; wrapping hides the inner kind, so that a wrapped
cancellation no longer counts as one (`Error.isCancelled`).
-/
import TaskDispatch.Value
import TaskDispatch.Text.Quoted

namespace TaskDispatch

open Text (quoted)

/-- The kinds of failed input or output that carry no text of their own. -/
inductive IoKind where
  | notFound
  | timedOut
  | unexpectedEof
  | permissionDenied
  deriving DecidableEq

namespace IoKind

/-- The sentence shown to a user. -/
def message : IoKind → String
  | notFound => "entity not found"
  | timedOut => "timed out"
  | unexpectedEof => "unexpected end of file"
  | permissionDenied => "permission denied"

/-- The name shown to a developer. -/
def describe : IoKind → String
  | notFound => "NotFound"
  | timedOut => "TimedOut"
  | unexpectedEof => "UnexpectedEof"
  | permissionDenied => "PermissionDenied"

end IoKind

/-- Failed input or output that says why in its own words. -/
def describeIoText (text : String) : String :=
  "Custom \x7b kind: Other, error: " ++ quoted text ++ " \x7d"

mutual

/-- Why a task has no value to give. -/
inductive Error where
  /-- The task was moved out of its owner, or never had anything to run. -/
  | brokenTask
  /-- The task's own code failed. -/
  | failure (cause : Cause)
  /-- The task's code panicked; the text is what the panic said. -/
  | panicked (text : String)
  /-- The operation was cancelled before it finished. -/
  | operationCancelled
  /-- The timer thread could not be started. -/
  | timerThread (text : String)

/-- What a failure wraps. -/
inductive Cause where
  | text (s : String)
  | io (text : String)
  | ioKind (kind : IoKind)
  | error (e : Error)

end

namespace Error

/-- A failure with a message. -/
def msg (text : String) : Error := .failure (.text text)

/-- Cancellation is recognised only where it is not wrapped. -/
def isCancelled : Error → Bool
  | operationCancelled => true
  | _ => false

/-- The name of the kind of error. -/
def kind : Error → String
  | brokenTask => "BrokenTask"
  | failure _ => "Failure"
  | panicked _ => "Panicked"
  | operationCancelled => "OperationCancelled"
  | timerThread _ => "TimerThread"

mutual

/-- The sentence shown to a user. -/
def message : Error → String
  | brokenTask => "broken task: the task has no continuation record"
  | failure cause => "unhandled failure: " ++ causeMessage cause
  | panicked text => "task panicked: " ++ text
  | operationCancelled => "operation cancelled"
  | timerThread text => "failed to start the timer thread: " ++ text

/-- The sentence of what a failure wraps. -/
def causeMessage : Cause → String
  | .text s => s
  | .io text => text
  | .ioKind kind => kind.message
  | .error e => message e

end

mutual

/-- The form shown to a developer. -/
def describe : Error → String
  | brokenTask => "BrokenTask"
  | failure cause => "Failure(" ++ describeCause cause ++ ")"
  | panicked text => "Panicked(" ++ quoted text ++ ")"
  | operationCancelled => "OperationCancelled"
  | timerThread text => "TimerThread(" ++ describeIoText text ++ ")"

/-- The developer's form of what a failure wraps. -/
def describeCause : Cause → String
  | .text s => quoted s
  | .io text => describeIoText text
  | .ioKind kind => "Kind(" ++ kind.describe ++ ")"
  | .error e => describe e

end

/-- An error as a value: kind, message, and whether it is a cancellation. -/
def toValue (e : Error) : Value :=
  .record [("cancelled", .bool e.isCancelled), ("kind", .text e.kind), ("msg", .text e.message)]

end Error

/-- What a panic carries: a text, or something that is none. -/
inductive Panic where
  | text (s : String)
  | other
  deriving DecidableEq

namespace Panic

/-- A panic that leaves a step, as a value. -/
def toValue : Panic → Value
  | text s => .single "panic" (.text s)
  | other => .single "panic" (.text "<other>")

/-- The error of a task whose code panicked. -/
def toError : Panic → Error
  | text s => .panicked s
  | other => .panicked "non-string panic payload"

/-- A result cell was given a second outcome. -/
def writtenTwice : Panic := .text "result cell written twice"

/-- A result cell was read while it was empty. -/
def readTooEarly : Panic := .text "result read before it was written"

/-- A result cell was read after its value had moved out. -/
def alreadyTaken : Panic := .text "result already taken"

end Panic

/-- How a task ended: with a value or with an error. -/
abbrev Outcome (α : Type) := Except Error α

/-- An outcome as a value. -/
def outcomeValue : Outcome Value → Value
  | .ok v => .single "ok" v
  | .error e => .single "err" e.toValue

end TaskDispatch
