/-
Steps on fan-ins and their outputs.

A poll that ends with the outputs reads all their outcomes in place and puts the
outputs under the fan-in's name.  Moving an output out leaves its place vacant.
-/
import TaskDispatch.Machine.Steps.Tasks

namespace TaskDispatch.Machine.World

open Scenario

/-- A step on a named fan-in. -/
def onFanIn (w : World) (name : String) (act : FanInAct) : Move :=
  match w.fanInNames.get? name with
  | none => w.answers (absent (act matches .drop))
  | some id =>
    let w := { w with fanInNames := w.fanInNames.erase name }
    match act with
    | .poll waker => w.runs (.pollFanIn id (.counting waker)) [.polledFanIn name id]
    | .drop => w.answersLosing [.fanIn id] .null

/-- Puts a fan-in back under its name; what got the name meanwhile is lost. -/
def putFanIn (w : World) (name : String) (id : Nat) : List Loss × World :=
  ((w.fanInNames.get? name).toList.map .fanIn, { w with fanInNames := w.fanInNames.put name id })

/-- The outcomes of outputs, read in place. -/
def outcomesIn : List BodyTask → Except Panic (List Value)
  | [] => .ok []
  | t :: rest => do
    let o ← t.result
    return outcomeValue o :: (← outcomesIn rest)

/-- Puts a polled fan-in back and answers what the poll came to; its outputs go under its name. -/
def polledFanIn (w : World) (name : String) (id : Nat) : Option (List BodyTask) → Move
  | none =>
    let (lost, w) := w.putFanIn name id
    w.answersLosing lost (.text "pending")
  | some ts =>
    match outcomesIn ts with
    | .error p =>
      let (lost, w) := w.putFanIn name id
      w.losing (ts.map .task ++ lost) (.fail p)
    | .ok vs =>
      let old := ((w.outputNames.get? name).getD []).flatMap (·.toList.map .task)
      let (lost, w) := { w with outputNames := w.outputNames.put name (ts.map some) }.putFanIn name id
      w.answersLosing (old ++ lost) (.single "ready" (.list vs))

/-- A step on one output of a fan-in. -/
def onOutput (w : World) (name : String) (i : Nat) (act : OutputAct) : Move :=
  match w.outputNames.get? name with
  | none => w.answers missing
  | some outputs =>
    match (outputs[i]?).join with
    | none => w.answers missing
    | some t =>
      let without := { w with outputNames := w.outputNames.put name (outputs.set i none) }
      match act with
      | .isReady => w.answers (.bool t.isReady)
      | .result => w.answersRead t.result
      | .describe => w.answers (.text ("WhenAllTask \x7b task: " ++ t.describe ++ " \x7d"))
      | .intoTask dest =>
        let (lost, w) := without.putTask dest t
        w.answersLosing lost .null
      | .intoResult => without.ending t [] fun o => .give (.answer (outcomeValue o))

end TaskDispatch.Machine.World
