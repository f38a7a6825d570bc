/-
Steps on tasks and frames.

A step on a name that holds nothing answers `missing`, and a step that empties a
name may find it empty.  While a step polls a task its name holds nothing, and
afterwards the task is put back in place of whatever got the name meanwhile, also
when the poll ends in a panic.  Frames are shared and stay under their names.
-/
import TaskDispatch.Machine.Bodies
import TaskDispatch.Machine.Frames

namespace TaskDispatch.Machine.World

open Scenario

/-- The answer about a name that holds nothing. -/
def missing : Value := .text "missing"

/-- The same, where a name may be emptied again. -/
def absent (dropping : Bool) : Value := if dropping then .null else missing

/-- Answers with an outcome, or panics. -/
def answersRead (w : World) : Except Panic (Outcome Value) → Move
  | .ok o => w.answers (outcomeValue o)
  | .error p => w.fails p

/-- Answers when some things have been let go of. -/
def answersLosing (w : World) (ls : List Loss) (v : Value) : Move := w.losing ls (.give (.answer v))

/-! ### Tasks -/

/-- A step on a named task. -/
def onTask (w : World) (name : String) (act : TaskAct) : Move :=
  match w.taskNames.get? name with
  | none => w.answers (absent (act matches .drop))
  | some t =>
    let without := { w with taskNames := w.taskNames.erase name }
    match act with
    | .isReady => w.answers (.bool t.isReady)
    | .isEmpty => w.answers (.bool t.isEmpty)
    | .describe => w.answers (.text t.describe)
    | .result => w.answersRead t.result
    | .intoResult => without.ending t [] fun o => .give (.answer (outcomeValue o))
    | .take dest =>
      let (lost, w) := { w with taskNames := w.taskNames.put name .empty }.putTask dest t
      w.answersLosing lost .null
    | .poll waker => without.runs (.pollTask t (.counting waker)) [.polledTask name false]
    | .pollReady waker => without.runs (.pollTask t (.counting waker)) [.polledTask name true]
    | .drop => without.answersLosing [.task t] .null

/-- Puts a polled task back and answers what the poll came to. -/
def polledTask (w : World) (name : String) (whenReady ready : Bool) (t : BodyTask) : Move :=
  let (answer, t) : Except Panic Value × BodyTask :=
    if ready then
      if whenReady then (.ok (.single "ready" .null), t)
      else
        match t.takeOutcome with
        | (.ok o, t) => (.ok (.single "ready" (outcomeValue o)), t)
        | (.error p, t) => (.error p, t)
    else (.ok (.text "pending"), t)
  let (lost, w) := w.putTask name t
  match answer with
  | .ok v => w.answersLosing lost v
  | .error p => w.losing lost (.fail p)

/-! ### Frames -/

/-- A step on a named frame. -/
def onFrame (w : World) (name : String) (act : FrameAct) : Move :=
  match w.frameNames.get? name with
  | none => w.answers (absent (act matches .drop))
  | some id =>
    match act with
    | .start => (w.holdFrame id).runs (.frame id .load) [.losing [.frame id], .answering .null]
    | .wake => (w.holdFrame id).runs (.wake (.frame id)) [.answering .null]
    | .wakeRef =>
      (w.holdFrame id).runs (.wakeRef (.frame id)) [.losing [.frame id], .answering .null]
    | .completed => w.answers (.bool ((w.frames.get? id).any (·.word.isCompleted)))
    | .notified => w.answers (.nat ((w.frames.get? id).elim 0 (·.notified)))
    | .takeTask dest =>
      match w.takeTask id with
      | none => w.answers (.bool false)
      | some (t, w) =>
        let (lost, w) := w.putTask dest t
        w.answersLosing lost (.bool true)
    | .drop => { w with frameNames := w.frameNames.erase name }.answersLosing [.frame id] .null

end TaskDispatch.Machine.World
