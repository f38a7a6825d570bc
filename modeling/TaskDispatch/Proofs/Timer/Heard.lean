/-
A cancellation is heard until a sweep has come.

If the thread holds the timer of a wait that was asked to cancel, a sweep is still to
come (`Heard`): the sweep flag is up, somebody is about to raise it, or a request has
still to reach the callback of this wait (`Coming`).

A request that falls between two steps of a registration is heard because the wait
enrols before it arms its timer: either the request finds its callback, or the wait
finds the flag.  One that falls behind the push is heard because the thread asks again
when it takes the timer from the inbox.
-/
import TaskDispatch.Proofs.Timer.Registration

namespace TaskDispatch.Timer

/-- Whether the request will raise the sweep flag, or run the callback of the wait with number `i`. -/
def Requester.Owes (r : Requester) (d : Desk) (i : Nat) : Prop :=
  r.caller?.any Caller.sweeps = true ∨ i ∈ r.waiting ∨
    r.place = .at .detach ∧ ∃ key, (d.sources r.source).callbacks.get? key = some i

/-- Something will have the queue swept, for the sake of the wait with number `i`. -/
def Coming (s : TimedWaits) (i : Nat) : Prop :=
  s.desk.shared.sweepRequested = true ∨
    (∃ w ∈ s.waits, w.caller?.any Caller.sweeps = true) ∨ ∃ r ∈ s.requests, r.Owes s.desk i

/-- The timer of a wait that was asked to cancel is held only while a sweep is to come. -/
def Heard (s : TimedWaits) : Prop :=
  ∀ e ∈ s.keeper.pc.held s.keeper.queue, ∀ w, s.waits[e.item]? = some w →
    w.isEnrolled = true → w.isRequested s.desk.sources = true → Coming s e.item

namespace Wait

variable {w w' : Wait} {i : Nat} {d d' : Desk} {sources : Nat → Source Nat}

theorem isRequested_iff : w.isRequested sources = true ↔
    ∃ k, w.source = some k ∧ (sources k).requested = true := by
  rw [isRequested, Option.any_eq_true]

/-- No step of a wait asks a source to cancel, and each leaves the callbacks of all others in place. -/
theorem Moves.callbacks (h : Moves i w d d' w') (hsound : ∀ k, (d.sources k).callbacks.Sound) (k : Nat) :
    (d'.sources k).requested = (d.sources k).requested ∧
      ∀ key j, (d.sources k).callbacks.get? key = some j →
        (d'.sources k).callbacks.get? key = some j := by
  cases h with
  | enrol hp k' hk' hopen =>
      rw [Desk.sources_putSource]
      split
      · next heq =>
          subst heq
          exact ⟨rfl, fun key j hget => Slab.get?_insert_of_get? (hsound k) hget i⟩
      · exact ⟨rfl, fun _ _ => id⟩
  | _ => exact ⟨rfl, fun _ _ => id⟩

/-- A wait that has become one which was asked to cancel was one before, or sees to the sweep itself. -/
theorem Moves.asked (h : Moves i w d d' w') (henrolled : w'.isEnrolled = true)
    (hrequested : w'.isRequested d'.sources = true) :
    w'.caller?.any Caller.sweeps = true ∨ w.isEnrolled = true ∧ w.isRequested d.sources = true := by
  cases h with
  | refuse hp h => cases henrolled
  | check hp h => cases henrolled
  | free hp hnone =>
      obtain ⟨k, hk, -⟩ := isRequested_iff.mp hrequested
      rw [show w.source = some k from hk] at hnone
      cases hnone
  | late hp k hk h => exact Or.inl rfl
  | enrol hp k hk hopen =>
      obtain ⟨k', hk', hrequested'⟩ := isRequested_iff.mp hrequested
      rw [show w.source = some k' from hk'] at hk
      cases hk
      rw [Desk.sources_putSource, if_pos rfl] at hrequested'
      rw [show (d.sources k).requested = true from hrequested'] at hopen
      cases hopen
  | call c rest spurious hp => exact Or.inr ⟨by rw [isEnrolled, hp], hrequested⟩
  | called rest hp => exact Or.inr ⟨by rw [isEnrolled, hp], hrequested⟩
  | arrive rest hp => exact Or.inr ⟨by rw [isEnrolled, hp], hrequested⟩
  | settle hp => exact Or.inr ⟨by rw [isEnrolled, hp], hrequested⟩

/-- Nobody lowers the sweep flag but the timer thread, and who is about to raise it raises it. -/
theorem Moves.sweeps (h : Moves i w d d' w')
    (hsweeps : d.shared.sweepRequested = true ∨ w.caller?.any Caller.sweeps = true) :
    d'.shared.sweepRequested = true := by
  cases h with
  | call c rest spurious hp =>
      rw [caller?, hp] at hsweeps
      exact Caller.sweepRequested_step hsweeps
  | refuse hp h | check hp h | free hp h | late hp k h hk | enrol hp k h hk | called rest hp
  | arrive rest hp | settle hp =>
      rw [caller?, hp] at hsweeps
      rcases hsweeps with hup | hsweeps
      · exact hup
      · cases hsweeps

/-- A wait that leaves asks no source to cancel and takes away its own callback only. -/
theorem withdraw_callbacks
    (hkeyed : ∀ k key, w.source = some k → w.key = some key → Keyed (d.sources k) key i) (k : Nat) :
    ((w.withdraw d).sources k).requested = (d.sources k).requested ∧
      ∀ key j, j ≠ i → (d.sources k).callbacks.get? key = some j →
        ((w.withdraw d).sources k).callbacks.get? key = some j := by
  obtain ⟨source, due, key, place, rendezvous, posts⟩ := w
  cases source with
  | none => exact ⟨rfl, fun _ _ _ => id⟩
  | some k' =>
      cases key with
      | none => exact ⟨rfl, fun _ _ _ => id⟩
      | some key' =>
          rw [withdraw, Desk.sources_putSource]
          split
          · next heq =>
              subst heq
              exact ⟨rfl, fun key j hj hget => (hkeyed k key' rfl rfl).get?_withdraw hget hj⟩
          · exact ⟨rfl, fun _ _ _ => id⟩

end Wait

namespace Requester

variable {r r' : Requester} {d d' : Desk}

/-- A request does what it owes: it raises the sweep flag, or it owes it still. -/
theorem Moves.owes (h : Moves r d d' r') {i : Nat} (howes : r.Owes d i) :
    d'.shared.sweepRequested = true ∨ r'.Owes d' i := by
  rw [Owes, caller?, waiting] at howes
  cases h with
  | again hp h | raise hp h | finish hp =>
      rw [hp] at howes
      rcases howes with hsweeps | hmem | ⟨hdetach, -⟩
      · cases hsweeps
      · cases hmem
      · cases hdetach
  | detach hp =>
      rw [hp] at howes
      rcases howes with hsweeps | hmem | ⟨-, key, hget⟩
      · cases hsweeps
      · cases hmem
      · exact Or.inr (Or.inr (Or.inl (Slab.mem_drain hget)))
  | run j rest hp => exact Or.inr (Or.inl rfl)
  | call c rest spurious hp =>
      rw [hp] at howes
      rcases howes with hsweeps | hmem | ⟨hdetach, -⟩
      · exact Or.inl (Caller.sweepRequested_step (Or.inr hsweeps))
      · exact Or.inr (Or.inr (Or.inl hmem))
      · cases hdetach
  | ran rest hp =>
      rw [hp] at howes
      rcases howes with hsweeps | hmem | ⟨hdetach, -⟩
      · cases hsweeps
      · exact Or.inr (Or.inr (Or.inl hmem))
      · cases hdetach

/-- A request takes no callback away but those it detaches, which it then owes. -/
theorem Moves.callbacks (h : Moves r d d' r') (k key j : Nat)
    (hget : (d.sources k).callbacks.get? key = some j) :
    (d'.sources k).callbacks.get? key = some j ∨ j ∈ r'.waiting := by
  cases h with
  | raise hp hopen =>
      left
      rw [Desk.sources_putSource]
      split
      · next heq =>
          subst heq
          exact hget
      · exact hget
  | detach hp =>
      rw [Desk.sources_putSource]
      split
      · next heq =>
          subst heq
          exact Or.inr (Slab.mem_drain hget)
      · exact Or.inl hget
  | _ => exact Or.inl hget

/-- What another request owes it owes still, unless this one has taken it over. -/
theorem Moves.owes_of_other (h : Moves r d d' r') {q : Requester} {i : Nat} (howes : q.Owes d i) :
    q.Owes d' i ∨ r'.Owes d' i := by
  rcases howes with hsweeps | hmem | ⟨hdetach, key, hget⟩
  · exact Or.inl (Or.inl hsweeps)
  · exact Or.inl (Or.inr (Or.inl hmem))
  · rcases h.callbacks q.source key i hget with hkept | htaken
    · exact Or.inl (Or.inr (Or.inr ⟨hdetach, key, hkept⟩))
    · exact Or.inr (Or.inr (Or.inl htaken))

theorem Moves.sweeps (h : Moves r d d' r') (hflag : d.shared.sweepRequested = true) :
    d'.shared.sweepRequested = true := by
  cases h with
  | call c rest spurious hp => exact Caller.sweepRequested_step (Or.inl hflag)
  | _ => exact hflag

/-- What a request owes it owes as long as the callback stays where it is. -/
theorem Owes.mono {i : Nat} (howes : r.Owes d i)
    (hcallbacks : ∀ key, (d.sources r.source).callbacks.get? key = some i →
      (d'.sources r.source).callbacks.get? key = some i) : r.Owes d' i := by
  refine howes.imp_right (Or.imp_right ?_)
  rintro ⟨hdetach, key, hget⟩
  exact ⟨hdetach, key, hcallbacks key hget⟩

/-- The request that first asks a source to cancel goes on to detach its callbacks. -/
theorem Moves.requests (h : Moves r d d' r') (k : Nat)
    (hrequested : (d'.sources k).requested = true) :
    (d.sources k).requested = true ∨
      (d.sources k).requested = false ∧ k = r'.source ∧ r'.place = .at .detach ∧
        (d'.sources k).callbacks = (d.sources k).callbacks := by
  cases h with
  | raise hp hopen =>
      rw [Desk.sources_putSource] at hrequested ⊢
      split at hrequested
      · next heq =>
          subst heq
          right
          rw [if_pos rfl]
          exact ⟨hopen, rfl, rfl, rfl⟩
      · exact Or.inl hrequested
  | detach hp =>
      rw [Desk.sources_putSource] at hrequested
      left
      split at hrequested
      · next heq =>
          subst heq
          exact hrequested
      · exact hrequested
  | _ => exact Or.inl hrequested

end Requester

namespace Coming

variable {s : TimedWaits} {i j : Nat}

theorem register {w w' : Wait} {d : Desk} (h : Coming s j) (reg : Registered s)
    (hw : s.waits[i]? = some w) (hmove : Wait.Moves i w s.desk d w') :
    Coming { s with desk := d, waits := s.waits.set i w' } j := by
  rcases h with hflag | hsweeping | ⟨r, hr, howes⟩
  · exact Or.inl (hmove.sweeps (Or.inl hflag))
  · by_cases hmover : w.caller?.any Caller.sweeps = true
    · exact Or.inl (hmove.sweeps (Or.inr hmover))
    · exact Or.inr (Or.inl (exists_mem_set hw hsweeping fun h => absurd h hmover))
  · refine Or.inr (Or.inr ⟨r, hr, howes.mono ?_⟩)
    intro key hget
    exact (hmove.callbacks reg.sound r.source).2 key j hget

theorem leave {w : Wait} (h : Coming s j) (reg : Registered s) (hw : s.waits[i]? = some w)
    (hp : w.place = .pending) (hj : j ≠ i) :
    Coming { s with
      desk := w.withdraw s.desk
      waits := s.waits.set i { w with key := none, place := .left } } j := by
  rcases h with hflag | hsweeping | ⟨r, hr, howes⟩
  · left
    show (w.withdraw s.desk).shared.sweepRequested = true
    rw [Wait.withdraw_shared]
    exact hflag
  · refine Or.inr (Or.inl (exists_mem_set hw hsweeping fun hsweeps => ?_))
    rw [Wait.caller?, hp] at hsweeps
    cases hsweeps
  · refine Or.inr (Or.inr ⟨r, hr, howes.mono ?_⟩)
    intro key hget
    exact (Wait.withdraw_callbacks (reg.keyed_of_get? hw) r.source).2 key j hj hget

theorem cancel {r r' : Requester} {d : Desk} (h : Coming s i) (hr : s.requests[j]? = some r)
    (hmove : Requester.Moves r s.desk d r') :
    Coming { s with desk := d, requests := s.requests.set j r' } i := by
  rcases h with hflag | hsweeping | ⟨q, hq, howes⟩
  · exact Or.inl (hmove.sweeps hflag)
  · exact Or.inr (Or.inl hsweeping)
  · by_cases hmover : q = r
    · subst hmover
      rcases hmove.owes howes with hflag | hstill
      · exact Or.inl hflag
      · exact Or.inr (Or.inr ⟨r', mem_set_self hr, hstill⟩)
    · rcases hmove.owes_of_other howes with hstill | htaken
      · exact Or.inr (Or.inr ⟨q, mem_set_of_ne hq hr hmover, hstill⟩)
      · exact Or.inr (Or.inr ⟨r', mem_set_self hr, htaken⟩)

/-- Newcomers take nothing away, nor do those who shut down. -/
theorem of_le {s' : TimedWaits} (h : Coming s j) (hsources : s'.desk.sources = s.desk.sources)
    (hflag : s.desk.shared.sweepRequested = true → s'.desk.shared.sweepRequested = true)
    (hwaits : (∃ w ∈ s.waits, w.caller?.any Caller.sweeps = true) →
      ∃ w ∈ s'.waits, w.caller?.any Caller.sweeps = true)
    (hrequests : ∀ r ∈ s.requests, r ∈ s'.requests) : Coming s' j := by
  rcases h with hup | hsweeping | ⟨r, hr, howes⟩
  · exact Or.inl (hflag hup)
  · exact Or.inr (Or.inl (hwaits hsweeping))
  · refine Or.inr (Or.inr ⟨r, hrequests r hr, howes.mono ?_⟩)
    intro key hget
    rw [hsources]
    exact hget

end Coming

namespace Heard

variable {s s' : TimedWaits}

theorem wait (h : Heard s) (source : Option Nat) (due : Nat) :
    Heard { s with waits := s.waits ++ [{ source, due }] } := by
  intro e he w hw henrolled hrequested
  rcases getElem?_of_join hw with rfl | hold
  · cases henrolled
  · refine (h e he w hold henrolled hrequested).of_le rfl id ?_ fun _ hr => hr
    rintro ⟨v, hv, hp⟩
    exact ⟨v, List.mem_append_left _ hv, hp⟩

theorem register {i : Nat} {w w' : Wait} {d : Desk} (h : Heard s) (reg : Registered s)
    (hw : s.waits[i]? = some w) (hmove : Wait.Moves i w s.desk d w') :
    Heard { s with desk := d, waits := s.waits.set i w' } := by
  intro e he v hv henrolled hrequested
  rcases getElem?_of_set hv with ⟨rfl, rfl⟩ | ⟨-, hold⟩
  · rcases hmove.asked henrolled hrequested with hsweeping | ⟨henrolled', hrequested'⟩
    · exact Or.inr (Or.inl ⟨v, mem_set_self hw, hsweeping⟩)
    · have hcoming : Coming s e.item := h e he w hw henrolled' hrequested'
      exact hcoming.register reg hw hmove
  · obtain ⟨k, hk, hrequested'⟩ := Wait.isRequested_iff.mp hrequested
    rw [(hmove.callbacks reg.sound k).1] at hrequested'
    have hcoming : Coming s e.item :=
      h e he v hold henrolled (Wait.isRequested_iff.mpr ⟨k, hk, hrequested'⟩)
    exact hcoming.register reg hw hmove

theorem leave {i : Nat} {w : Wait} (h : Heard s) (reg : Registered s) (hw : s.waits[i]? = some w)
    (hp : w.place = .pending) :
    Heard { s with
      desk := w.withdraw s.desk
      waits := s.waits.set i { w with key := none, place := .left } } := by
  intro e he v hv henrolled hrequested
  rcases getElem?_of_set hv with ⟨-, rfl⟩ | ⟨hitem, hold⟩
  · cases henrolled
  · obtain ⟨k, hk, hrequested'⟩ := Wait.isRequested_iff.mp hrequested
    rw [(Wait.withdraw_callbacks (reg.keyed_of_get? hw) k).1] at hrequested'
    have hcoming : Coming s e.item :=
      h e he v hold henrolled (Wait.isRequested_iff.mpr ⟨k, hk, hrequested'⟩)
    exact hcoming.leave reg hw hp hitem

theorem cancel {j : Nat} {r r' : Requester} {d : Desk} (h : Heard s) (reg : Registered s)
    (hr : s.requests[j]? = some r) (hmove : Requester.Moves r s.desk d r') :
    Heard { s with desk := d, requests := s.requests.set j r' } := by
  intro e he w hw henrolled hrequested
  obtain ⟨k, hk, hrequested'⟩ := Wait.isRequested_iff.mp hrequested
  rcases hmove.requests k hrequested' with hbefore | ⟨hopen, hsource, hdetach, hcallbacks⟩
  · have hcoming : Coming s e.item :=
      h e he w hw henrolled (Wait.isRequested_iff.mpr ⟨k, hk, hbefore⟩)
    exact hcoming.cancel hr hmove
  · -- The source is asked to cancel just now, and the callback of this wait is still enrolled.
    have hkey : w.key ≠ none := by
      refine (reg.enrolled w (List.mem_of_getElem? hw) henrolled k hk).resolve_right ?_
      rw [hopen]
      nofun
    obtain ⟨key, hkey⟩ := Option.ne_none_iff_exists'.mp hkey
    have hget := (reg.keyed_of_get? hw k key hk hkey).get?_of_not_requested hopen
    rw [← hcallbacks, hsource] at hget
    exact Or.inr (Or.inr ⟨r', mem_set_self hr, Or.inr (Or.inr ⟨hdetach, key, hget⟩)⟩)

theorem serve {i : Nat} {k : Keeper Nat} {waits : List Wait} (h : Heard s)
    (hserved : s.keeper.served? = some (i, k))
    (hw : ∀ j : Nat, waits[j]? = s.waits[j]? ∨ waits[j]? = (s.waits[j]?).map Wait.arrive) :
    Heard { s with keeper := k, waits } := by
  intro e he v hv henrolled hrequested
  obtain ⟨-, hheld, -⟩ := Keeper.served_keeps hserved
  change e ∈ k.pc.held k.queue at he
  rw [hheld] at he
  have hcoming : Coming s e.item := by
    obtain ⟨w, hget, rfl | rfl⟩ := Wait.of_served hw hv
    · exact h e he _ hget henrolled hrequested
    · exact h e he w hget henrolled hrequested
  exact hcoming.of_le rfl id (Wait.exists_of_served hw fun _ h => h) fun _ hr => hr

theorem keep {now : Nat} {room : Bool} {shared : Shared Nat} {k : Keeper Nat} (h : Heard s)
    (hmove : Keeper.Moves s.isCancelled now room s.keeper.queue s.desk.shared s.keeper.pc shared k) :
    Heard { s with desk := { s.desk with shared }, keeper := k } := by
  intro e he w hw henrolled hrequested
  rcases hmove.held he with hno | ⟨hheld, hflag⟩
  · -- It has just been asked, and this is what it said.
    have hyes : s.isCancelled e.item = true := by
      change s.waits[e.item]? = some w at hw
      rw [TimedWaits.isCancelled, hw]
      exact hrequested
    rw [hno] at hyes
    cases hyes
  · exact (h e hheld w hw henrolled hrequested).of_le rfl hflag.trans id fun _ hr => hr

/-- Every act keeps all cancellations heard. -/
theorem step (h : Heard s) (reg : Registered s) (hturn : TimedWaits.Turns s s') : Heard s' := by
  cases hturn with
  | wait source due => exact h.wait source due
  | request source =>
      intro e he w hw henrolled hrequested
      exact (h e he w hw henrolled hrequested).of_le rfl id id
        fun _ hr => List.mem_append_left _ hr
  | close => exact h
  | register i w w' d hw hmove => exact h.register reg hw hmove
  | leave i w hw hp => exact h.leave reg hw hp
  | cancel j r r' d hr hmove => exact h.cancel reg hr hmove
  | shut j c spurious hc =>
      intro e he w hw henrolled hrequested
      exact (h e he w hw henrolled hrequested).of_le rfl
        (fun hup => Caller.sweepRequested_step (Or.inl hup)) id fun _ hr => hr
  | serve i keeper hserved waits hw => exact h.serve hserved hw
  | keep now room shared keeper hmove => exact h.keep hmove

end Heard

end TaskDispatch.Timer
