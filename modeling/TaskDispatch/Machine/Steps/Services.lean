/-
Steps on services and work scopes.

Services are made on first use.  A step that runs events, stops the service or ends
a unit of work holds the service until it is done, whoever drops it meanwhile.
-/
import TaskDispatch.Machine.Services
import TaskDispatch.Machine.Steps.Tasks

namespace TaskDispatch.Machine.World

open Scenario

/-- Puts a service under a name. -/
def putService (w : World) (name : String) (id : Nat) (v : Value) : Move :=
  let old := (w.serviceNames.get? name).toList.map .service
  { w with serviceNames := w.serviceNames.put name id }.answersLosing old v

/-- A step on a named service. -/
def onService (w : World) (name : String) (act : ServiceAct) : Move :=
  let made (f : Nat → World → Move) : Move :=
    let (id, w) := w.serviceOf name
    f id w
  let used (f : Nat → World → Move) : Move := made fun id w => f id (w.holdService id)
  match act with
  | .build threadName capacity =>
    let setup : Setup := {}
    let setup := { setup with
      timerThreadName := threadName.getD setup.timerThreadName
      timerCapacity := capacity.getD setup.timerCapacity }
    let (id, w) := w.addService setup
    w.putService name id (.text setup.describe)
  | .make =>
    let (id, w) := w.addService {}
    w.putService name id .null
  | .clone dest => used fun id w => w.putService dest id .null
  | .drop =>
    { w with serviceNames := w.serviceNames.erase name }.answersLosing
      ((w.serviceNames.get? name).toList.map .service) .null
  | .describe => made fun id w => w.answers (.text ((w.services.get? id).elim "" Service.describe))
  | .isStop => made fun id w =>
    w.answers (.bool ((w.services.get? id).any (·.roster.stopRequested)))
  | .stop => used fun id w => w.runs (.stop id .raise) [.losing [.service id], .answering .null]
  | .reset => made fun id w =>
    match w.services.get? id with
    | none => w.answers .null
    | some s =>
      let (answer, roster) := s.roster.reset
      let w := { w with services := w.services.put id { s with roster } }
      match answer with
      | .ok () => w.answers .null
      | .error p => w.fails p
  | .workStart => made fun id w => (w.startWork id).answers .null
  | .workFinish => used fun id w => w.runs (.finishWork id) [.losing [.service id], .answering .null]
  | .process mode => used fun id w => w.runs (.events id mode .enter) [.losing [.service id], .counted]

/-- Puts a work scope under a name. -/
def putScope (w : World) (name : String) (id : Nat) : Move :=
  let old := (w.scopeNames.get? name).toList.map .scope
  { w with scopeNames := w.scopeNames.put name id }.answersLosing old .null

/-- A step on a named work scope. -/
def onScope (w : World) (name : String) (act : ScopeAct) : Move :=
  match act with
  | .make service =>
    let (id, w) := w.serviceOf service
    ((w.holdService id).startWork id).putScope name id
  | .clone dest =>
    match w.scopeNames.get? name with
    | none => w.answers missing
    | some id => ((w.holdService id).startWork id).putScope dest id
  | .describe =>
    match w.scopeNames.get? name with
    | none => w.answers missing
    | some id =>
      w.answers (.list
        [.text "WorkScope \x7b .. \x7d", .text ((w.services.get? id).elim "" Service.describe)])
  | .drop =>
    match w.scopeNames.get? name with
    | none => w.answers (absent true)
    | some id => { w with scopeNames := w.scopeNames.erase name }.answersLosing [.scope id] .null

/-- The event mode of a thread that runs events until the service stops. -/
def forEver : EventMode := ⟨true, none⟩

/-- Starts a thread that runs the events of a service, which it holds. -/
def startWorker (w : World) (service : Nat) : Nat × World :=
  (w.holdService service).spawn "worker" (.events service forEver .enter) [.losing [.service service]]

/-- Starts `n` such threads. -/
def startWorkers (w : World) (service : Nat) : (n : Nat) → List Nat × World
  | 0 => ([], w)
  | n + 1 =>
    let (thread, w) := w.startWorker service
    let (threads, w) := w.startWorkers service n
    (thread :: threads, w)

end TaskDispatch.Machine.World
