/-
What each step of a scenario does.

Threads that a step starts are joined before it answers, and the steps that run
beside them answer their panics instead of passing them on.
-/
import TaskDispatch.Machine.Steps.Cancellation
import TaskDispatch.Machine.Steps.FanIns
import TaskDispatch.Machine.Steps.Gates
import TaskDispatch.Machine.Steps.Services

namespace TaskDispatch.Machine.World

open Scenario

/-- Does a step of a scenario. -/
def perform (w : World) (who : Who) : Step → Move
  | .log v => (w.note v).answers .null
  | .panic text => w.fails (.text text)
  | .seq steps => w.begins [.steps steps []]
  | .on thread step =>
    let (helper, w) := w.helper thread
    { w.runs (.step step) [.restore who] with who := some helper }
  | .makeTask name spec =>
    let (t, w) := w.build spec
    let (lost, w) := w.putTask name t
    w.answersLosing lost .null
  | .onTask name act => w.onTask name act
  | .syncWait spec =>
    let (t, w) := w.build spec
    w.runs (.syncWait t) [.outcomeAnswered]
  | .woken name => w.answers (.nat ((w.wakes.get? name).getD 0))
  | .makeFrame name spec =>
    let (t, w) := w.build spec
    let (id, w) := w.addFrame t .counting
    { w with frameNames := w.frameNames.put name id }.answersLosing
      ((w.frameNames.get? name).toList.map .frame) .null
  | .onFrame name act => w.onFrame name act
  | .makeFanIn name specs =>
    let (ts, w) := w.buildAll specs
    let (id, w) := w.addFanIn ts
    let (lost, w) := w.putFanIn name id
    w.answersLosing lost .null
  | .onFanIn name act => w.onFanIn name act
  | .onOutput name i act => w.onOutput name i act
  | .onGate name act => w.onGate name act
  | .onSource name act => w.onSource name act
  | .onToken name act => w.onToken name act
  | .register name token steps owned guards => w.register name token steps owned guards
  | .unregister name =>
    { w with registrationNames := w.registrationNames.erase name }.answersLosing
      ((w.registrationNames.get? name).toList.map .registration) .null
  | .onService name act => w.onService name act
  | .onScope name act => w.onScope name act
  | .withWorkers service n steps =>
    let (id, w) := w.serviceOf service
    let (threads, w) := (w.holdService id).startWorkers id n
    w.begins [.caughtSteps steps [], .stopWorkers id threads, .losing [.service id]]
  | .blockedWorker service steps =>
    let (id, w) := w.serviceOf service
    let (thread, w) := (w.holdService id).startWorker id
    w.runs (.awaitActive id 1) [.caughtSteps steps [], .joinBlocked thread, .losing [.service id]]
  | .background spec steps =>
    let (t, w) := w.build spec
    let (thread, w) := w.spawn "background" (.syncWait t) []
    w.begins [.caughtSteps steps [], .joinBackground thread]
  | .skip => w.answers .null

end TaskDispatch.Machine.World
