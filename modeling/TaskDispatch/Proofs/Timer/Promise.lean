/-
A timed wait resolves as promised.

What is promised is put together here: what has happened in every state of the run
(`Kept`), that a registration comes to its end (`Kept.registers`), and that nothing stands
in the way of the timer thread, of the hop once it was posted, and of the poll that finds
it on its own thread.
-/
import TaskDispatch.Proofs.Timer.Errands
import TaskDispatch.Proofs.Timer.Headway

namespace TaskDispatch.Timer

variable {ω : Type} {i : Nat} {first : ω}

open TimedRun

/-- **A timed wait resolves as promised.**  For every wait of a service, with any number of others on any
sources, in every order of the steps of all registrations, of requests to cancel, of the timer thread, of
polls and of workers:

* a first look that finds the token asked to cancel resolves the wait with `operationCancelled` in that
  step and changes nothing else; a refused wait never has a hop, a timer or a callback anywhere; and the
  timer thread is not started unless some wait has passed its first look;
* each of the two parties arrives at most once, the registration only after its timer was published and
  the timer thread only when the clock has shown that it is due or the token was asked to cancel; and
  whoever arrives second, and nobody else, has posted the first hop or can post it, and the hop is in the
  port or with a worker once it was posted;
* the wait resolves at that first look, or in a poll on the thread of the worker that ran its latest hop;
  it resolves with `operationCancelled` if its token was asked to cancel by then, else with success, and
  no callback of its own is registered;
* a registration that was not refused comes to its end with its own steps and has arrived then, and the
  timer thread arrives as soon as it has come to fire the timer;
* a poll of a pending wait on the thread that ran its latest hop resolves the wait, and once the first hop was
  posted the polls and the workers alone can bring it that far; and whatever others do after such a poll has
  found itself on that thread, it can withdraw the callback and then resolve, with what the flag says then. -/
theorem timed_wait_resolves_as_promised {s : TimedRun ω} (h : Leads (step? i first) {} s) :
    (∀ w, s.service.waits[i]? = some w →
      (w.place = .checking → w.isRequested s.service.desk.sources = true →
        ∀ spurious, s.step? i first (.service (.register i spurious)) = some { s with
          service := { s.service with waits := s.service.waits.set i { w with place := .refused } }
          outcome := some (.error .operationCancelled) }) ∧
      (w.place = .refused →
        s.outcome = some (.error .operationCancelled) ∧ s.meeting.arrivals = [] ∧
        s.meeting.posted = [] ∧ s.meeting.journey.hops = [] ∧ s.meeting.journey.port.ownHops = 0 ∧
        s.service.desk.shared.inbox.copies (· == i) = 0 ∧
        s.service.keeper.pc.copies (· == i) s.service.keeper.queue = 0 ∧
        ∀ k key, (s.service.desk.sources k).callbacks.get? key ≠ some i)) ∧
    (s.started = true → ∃ w ∈ s.service.waits, w.hasPassed = true) ∧
    s.meeting.arrivals.Nodup ∧
    (.registrant ∈ s.meeting.arrivals → s.meeting.published = true) ∧
    (.keeper ∈ s.meeting.arrivals → s.service.Ripe s.shown i) ∧
    s.meeting.posted ++ s.meeting.owing = s.meeting.arrivals.drop 1 ∧
    (s.meeting.owing ≠ [] → ∃ s', s.step? i first .deliver = some s') ∧
    s.meeting.journey.port.copies 0 + s.meeting.journey.carriers.countP (·.hop == 0)
      = s.meeting.posted.length ∧
    (∀ a s', s.step? i first a = some s' → s.outcome = none → ∀ o, s'.outcome = some o →
      ∃ w, s'.service.waits[i]? = some w ∧
        o = (if w.isRequested s.service.desk.sources then .error .operationCancelled else .ok ()) ∧
        (∀ k key, (s'.service.desk.sources k).callbacks.get? key ≠ some i) ∧
        (w.place = .refused ∨ ∃ thread hop, s.meeting.journey.stage = .ready thread ∧
          s.meeting.journey.hops.getLast? = some hop ∧ hop.ranOn = some thread ∧
          ∃ c ∈ s.meeting.journey.carriers, c.hop + 1 = s.meeting.journey.hops.length ∧
            c.thread = thread ∧ c.place ≠ .taken)) ∧
    (∀ w, s.service.waits[i]? = some w → w.isSettled = false → w.isRefused s.service.desk.sources = false →
      ∃ acts t, (∀ a ∈ acts, a.Registers i) ∧ after? (step? i first) s acts = some t ∧
        .registrant ∈ t.meeting.arrivals ∧ ∃ v, t.service.waits[i]? = some v ∧ v.place = .pending) ∧
    (∀ now room, s.service.fires i (.keep now room) = true →
      ∃ t, s.step? i first (.service (.keep now room)) = some t ∧
        t.meeting.arrivals = s.meeting.arrivals ++ [.keeper]) ∧
    (∀ w, s.service.waits[i]? = some w → w.place = .pending →
      (∀ thread waker, s.meeting.journey.stage = .idle → s.meeting.journey.latest thread = some .here →
        ∃ t, after? (step? i first) s
            [.hop (.poll thread waker), .hop .advance, .unregister, .conclude] = some t ∧
          t.HasResolved i (w.isRequested s.service.desk.sources)) ∧
      (s.meeting.posted ≠ [] → s.Resolves i first (w.isRequested s.service.desk.sources))) ∧
    ∀ thread, s.meeting.journey.stage = .ready thread → ∀ t, Leads (step? i first) s t → t.outcome = none →
      ∃ w, t.service.waits[i]? = some w ∧
        ((w.place = .pending ∧ ∃ u, t.step? i first .unregister = some u ∧
            u.service.waits[i]? = some { w with key := none, place := .left }) ∨
          (w.place = .left ∧ ∃ u, t.step? i first .conclude = some u ∧
            u.HasResolved i (w.isRequested t.service.desk.sources))) := by
  have hkept : Kept i first s := .of_leads h
  obtain ⟨hposted, hport⟩ := hkept.posted
  refine ⟨fun w hw => ⟨hkept.refuses_at_once hw, hkept.refused hw⟩, hkept.started, hkept.nodup, ?_,
    hkept.ripe, hposted, hkept.delivers, hport, ?_, fun w hw => hkept.registers hw,
    fun now room => hkept.exists_fired, fun w hw hp => ⟨?_, hkept.resolves_of_posted hw hp⟩, ?_⟩
  · intro harrived
    rcases hkept.begun_or_untouched with huntouched | ⟨w, -, -, hpublished⟩
    · simp [huntouched.arrivals] at harrived
    · exact hpublished harrived
  · intro a s' hstep hnone o ho
    obtain ⟨w, hw, rfl, hcallbacks, hplace⟩ := hkept.resolves hstep hnone ho
    refine ⟨w, hw, rfl, hcallbacks, hplace.imp_right ?_⟩
    rintro ⟨thread, hready⟩
    rcases hkept.begun_or_untouched with huntouched | ⟨v, -, hbegun, -⟩
    · rw [huntouched.idle] at hready
      cases hready
    · obtain ⟨hop, hlast, hran, hcarrier⟩ := hbegun.tracked.exists_ran hready
      exact ⟨thread, hop, hready, hlast, hran, hcarrier⟩
  · exact fun thread waker hidle hhere => hkept.resolves_of_here hw hp hidle hhere waker
  · intro thread hready t hst hnone
    exact (Kept.of_leads (h.trans hst)).goes_on_of_ready (ready_of_leads hready hst) hnone

/-- The registration arrives first, the timer thread arrives second and posts the hop, and thread 5 runs it. -/
def landed : List (TimedRun.Act Nat) :=
  [.service (.wait (some 0) 100), .service (.register 0 false), .start 0] ++
    List.replicate 9 (.service (.register 0 false)) ++
    List.replicate 6 (.service (.keep 150 true)) ++ [.deliver, .hop (.take 5), .hop (.carry 0)]

/-- Thread 5 polls then.  With nobody in between the wait resolves with success; where the token is asked to
cancel after the poll has found itself on its thread, it resolves with `operationCancelled`. -/
theorem timed_wait_resolves_as_promised_in_time_and_late :
    ∃ s t r u v : TimedRun Nat,
      after? (step? 0 7) {} landed = some s ∧ s.meeting.arrivals = [.registrant, .keeper] ∧
      s.meeting.posted = [.keeper] ∧
      after? (step? 0 7) s [.hop (.poll 5 9), .hop .advance, .unregister, .conclude] = some t ∧
      t.outcome = some (.ok ()) ∧
      after? (step? 0 7) s [.hop (.poll 5 9), .hop .advance] = some r ∧
      after? (step? 0 7) r [.service (.request 0), .service (.cancel 0 false), .unregister] = some u ∧
      u.step? 0 7 .conclude = some v ∧ v.outcome = some (.error .operationCancelled) ∧
      ∀ k key, (v.service.desk.sources k).callbacks.get? key ≠ some 0 := by
  have hrun : ((after? (step? 0 7) {} landed).any fun s =>
      s.meeting.arrivals = [.registrant, .keeper] && s.meeting.posted = [.keeper] &&
      s.meeting.journey.stage = .idle && s.meeting.journey.latest 5 = some .here &&
      (s.service.waits[0]?).any (fun w => w.isPending && !w.isRequested s.service.desk.sources) &&
      (after? (step? 0 7) s [.hop (.poll 5 9), .hop .advance]).any fun r =>
        r.meeting.journey.stage = .ready 5 &&
        (after? (step? 0 7) r [.service (.request 0), .service (.cancel 0 false), .unregister]).any fun u =>
          u.outcome.isNone &&
          (u.service.waits[0]?).any fun w => w.hasLeft && w.isRequested u.service.desk.sources) = true := by
    decide +kernel
  simp only [Option.any_eq_true, Bool.and_eq_true, Bool.not_eq_true', decide_eq_true_eq,
    Option.isNone_iff_eq_none] at hrun
  obtain ⟨s, hs, ⟨⟨⟨⟨harrivals, hposted⟩, hidle⟩, hhere⟩, w, hw, hpending, hopen⟩, r, hr, hready, u, hu, hnone,
    v, hv, hleft, hrequested⟩ := hrun
  have h : Leads (step? 0 7) {} s := .of_after? landed hs
  have hp : w.place = .pending := by cases hp : w.place <;> simp [Wait.isPending, hp] at hpending ⊢
  obtain ⟨-, -, -, -, -, -, -, -, -, -, -, hpolled, -⟩ := timed_wait_resolves_as_promised h
  obtain ⟨t, ht, houtcome, -⟩ := (hpolled w hw hp).1 5 9 hidle hhere
  obtain ⟨-, -, -, -, -, -, -, -, -, -, -, -, hends⟩ :=
    timed_wait_resolves_as_promised (h.trans (.of_after? _ hr))
  obtain ⟨v', hv', hplace⟩ := hends 5 hready u (.of_after? _ hu) hnone
  obtain rfl := Option.some.inj (hv.symm.trans hv')
  rcases hplace with ⟨hp', -⟩ | ⟨-, z, hz, hresolved, hcallbacks⟩
  · simp [Wait.hasLeft, hp'] at hleft
  · rw [hopen] at houtcome
    rw [hrequested] at hresolved
    exact ⟨s, t, r, u, z, hs, harrivals, hposted, ht, houtcome, hr, hu, hz, hresolved, hcallbacks⟩

end TaskDispatch.Timer
