/-
Steps on cancellation sources, tokens and registrations.

Sources are made on first use; a token that has not been made cannot be cancelled.
A callback takes the registrations it is to own out of their names before it is
registered, and where it cannot be registered it is lost, or run, at once.
-/
import TaskDispatch.Machine.Services
import TaskDispatch.Machine.Steps.Tasks

namespace TaskDispatch.Machine.World

open Scenario

/-- A step on a named source. -/
def onSource (w : World) (name : String) (act : SourceAct) : Move :=
  match act with
  | .make =>
    let (_, old, w) := w.makeSource name
    w.answersLosing (tokenLosses old) .null
  | .drop =>
    { w with sourceNames := w.sourceNames.erase name }.answersLosing
      (tokenLosses (w.sourceNames.get? name)) .null
  | .clone dest =>
    let (id, w) := w.sourceOf name
    let old := w.sourceNames.get? dest
    { w.holdSource (some id) with sourceNames := w.sourceNames.put dest id }.answersLosing
      (tokenLosses old) .null
  | .request =>
    let (id, w) := w.sourceOf name
    (w.holdSource (some id)).runs (.request id .raise) [.losing [.source id], .answering .null]
  | .requested =>
    let (id, w) := w.sourceOf name
    w.answers (.bool (w.isRequested (some id)))
  | .describe =>
    let (id, w) := w.sourceOf name
    w.answers (.text ((w.sources.get? id).elim "" Source.describe))

/-- Puts a token under a name. -/
def putToken (w : World) (name : String) (token : Option Nat) : Move :=
  let old := w.tokenOf name
  { w.holdSource token with tokenNames := w.tokenNames.put name token }.answersLosing
    (tokenLosses old) .null

/-- What can be seen of a token. -/
def tokenState (w : World) (token : Option Nat) : Value :=
  let requested := w.isRequested token
  let thrown : Outcome Value := if requested then .error .operationCancelled else .ok .null
  let can := token.isSome
  .record [
    ("can", .bool can),
    ("debug",
      .text s!"CancellationToken \x7b can_be_cancelled: {can}, requested: {requested} \x7d"),
    ("requested", .bool requested),
    ("throw", outcomeValue thrown)]

/-- A step on a named token. -/
def onToken (w : World) (name : String) (act : TokenAct) : Move :=
  match act with
  | .make none => w.putToken name none
  | .make (some source) =>
    let (id, w) := w.sourceOf source
    w.putToken name (some id)
  | .clone dest => w.putToken dest (w.tokenOf name)
  | .drop =>
    { w with tokenNames := w.tokenNames.erase name }.answersLosing (tokenLosses (w.tokenOf name)) .null
  | .state => w.answers (w.tokenState (w.tokenOf name))

/-- Takes registrations out of their names. -/
def takeRegistrations (w : World) : List String → List Registration × World
  | [] => ([], w)
  | name :: rest =>
    let r := w.registrationNames.get? name
    let (rs, w) := { w with registrationNames := w.registrationNames.erase name }.takeRegistrations rest
    (r.toList ++ rs, w)

/-- Puts a registration under a name and answers its description. -/
def putRegistration (w : World) (name : String) (r : Registration) : World × List Loss × Value :=
  ({ w with registrationNames := w.registrationNames.put name r },
    (w.registrationNames.get? name).toList.map .registration, .text r.describe)

/-- Registers a callback on a token. -/
def register (w : World) (name token : String) (steps : List Step) (owned : List String)
    (guards : List Value) : Move :=
  let (owned, w) := w.takeRegistrations owned
  let callback := .script steps owned guards.reverse
  match w.tokenOf token with
  | none => w.runs (.discard [.callback callback]) [.registered name .inert]
  | some id =>
    match w.sources.get? id with
    | none => w.runs (.discard [.callback callback]) [.registered name .inert]
    | some s =>
      match s.enrol callback with
      | (none, _) =>
        (w.holdSource (some id)).runs (.callback callback) [.losing [.source id], .registered name .inert]
      | (some key, s) =>
        let w := { w with sources := (w.sources.put id s).hold id }
        w.begins [.registered name ⟨some (id, key)⟩]

end TaskDispatch.Machine.World
