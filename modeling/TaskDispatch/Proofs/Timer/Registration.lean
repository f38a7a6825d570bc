/-
Which callback belongs to which wait.

A wait that has enrolled holds the key of its callback, and until a request detaches
the callbacks of the source, what stands under that key is the number of this wait
(`Keyed`): keys are reused only after they have been withdrawn, and once the callbacks
have been detached the source takes no more.  A wait with a source that has enrolled
without a key found the source requested (`Registered`).

So at the moment a source is first asked to cancel, the callback of every wait that
has enrolled with it is still there for the request to detach.
-/
import TaskDispatch.Proofs.Slab
import TaskDispatch.Proofs.Timer.Waits

namespace TaskDispatch.Timer

/-! ### Keys -/

/-- What stands under the key of the wait with number `i`: its callback, until all have been detached. -/
def Keyed (source : Source Nat) (key i : Nat) : Prop :=
  source.callbacks.get? key = some i ∨
    source.requested = true ∧ ∀ j, source.callbacks.get? j = none

namespace Keyed

variable {source : Source Nat} {key i : Nat}

/-- An insertion leaves the callbacks of all others where they are. -/
theorem insert (h : Keyed source key i) (hsound : source.callbacks.Sound)
    (hopen : source.requested = false) (j : Nat) :
    Keyed { source with callbacks := (source.callbacks.insert j).2 } key i := by
  rcases h with hget | ⟨hrequested, -⟩
  · exact Or.inl (Slab.get?_insert_of_get? hsound hget j)
  · rw [hopen] at hrequested
    cases hrequested

/-- A withdrawal takes away the callback of the wait it is made for, and no other. -/
theorem get?_withdraw {j key' : Nat} (h : Keyed source key' j)
    (hget : source.callbacks.get? key = some i) (hne : i ≠ j) :
    (source.withdraw key').2.callbacks.get? key = some i := by
  show (source.callbacks.remove? key').2.get? key = some i
  rw [Slab.get?_remove?, if_neg, hget]
  intro heq
  rw [heq] at hget
  rcases h with hj | ⟨-, hnone⟩
  · rw [hget] at hj
    exact hne (Option.some.inj hj)
  · rw [hnone] at hget
    cases hget

/-- The withdrawal of the callback of another wait leaves this one alone. -/
theorem withdraw {j key' : Nat} (h : Keyed source key i) (h' : Keyed source key' j) (hne : i ≠ j) :
    Keyed (source.withdraw key').2 key i := by
  rcases h with hi | ⟨hrequested, hnone⟩
  · exact Or.inl (h'.get?_withdraw hi hne)
  · right
    refine ⟨hrequested, fun n => ?_⟩
    show (source.callbacks.remove? key').2.get? n = none
    rw [Slab.get?_remove?, hnone, ite_self]

theorem raise (h : Keyed source key i) : Keyed { source with requested := true } key i :=
  h.imp_right fun ⟨_, hnone⟩ => ⟨rfl, hnone⟩

/-- A source that has not been asked to cancel still has the callback. -/
theorem get?_of_not_requested (h : Keyed source key i) (hopen : source.requested = false) :
    source.callbacks.get? key = some i := by
  rcases h with hget | ⟨hrequested, -⟩
  · exact hget
  · rw [hopen] at hrequested
    cases hrequested

end Keyed

/-! ### Desks -/

namespace Desk

variable {d : Desk} {k : Nat} {source : Source Nat}

theorem sources_putSource (d : Desk) (k : Nat) (source : Source Nat) (n : Nat) :
    (d.putSource k source).sources n = if n = k then source else d.sources n :=
  Function.update_apply d.sources k source n

/-- What holds of the source that is put back, and of the others, holds of all. -/
theorem forall_putSource {P : Nat → Source Nat → Prop} (hk : P k source)
    (h : ∀ n, P n (d.sources n)) : ∀ n, P n ((d.putSource k source).sources n) := by
  intro n
  rw [sources_putSource]
  split
  · next heq =>
      rw [heq]
      exact hk
  · exact h n

end Desk

/-! ### What one step changes for the waits that do not take it -/

/-- What a step leaves to the waits other than `i`. -/
structure Desk.Keeps (d d' : Desk) (i : Option Nat) : Prop where
  sound : (∀ k, (d.sources k).callbacks.Sound) → ∀ k, (d'.sources k).callbacks.Sound
  requested : ∀ k, (d.sources k).requested = true → (d'.sources k).requested = true
  keyed : ∀ k key j, some j ≠ i → Keyed (d.sources k) key j → Keyed (d'.sources k) key j

namespace Desk.Keeps

variable {d : Desk} {i : Option Nat}

/-- A step that does not touch the sources keeps everything. -/
theorem of_sources_eq {d' : Desk} (h : d'.sources = d.sources) : Keeps d d' i := by
  refine ⟨?_, ?_, ?_⟩
  · rw [h]
    exact id
  · intro k hk
    rw [h]
    exact hk
  · intro k key j _ hkeyed
    rw [h]
    exact hkeyed

/-- A step that puts one source back keeps what it keeps of that source. -/
theorem of_putSource {k : Nat} {source : Source Nat}
    (hsound : (d.sources k).callbacks.Sound → source.callbacks.Sound)
    (hrequested : (d.sources k).requested = true → source.requested = true)
    (hkeyed : ∀ key j, some j ≠ i → Keyed (d.sources k) key j → Keyed source key j) :
    Keeps d (d.putSource k source) i := by
  refine ⟨?_, ?_, ?_⟩
  · intro h
    exact forall_putSource (P := fun _ s => s.callbacks.Sound) (hsound (h k)) h
  · exact forall_putSource (P := fun n s => (d.sources n).requested = true → s.requested = true)
      hrequested fun _ => id
  · exact forall_putSource
      (P := fun n s => ∀ key j, some j ≠ i → Keyed (d.sources n) key j → Keyed s key j)
      hkeyed fun _ _ _ _ => id

end Desk.Keeps

theorem Wait.Moves.keeps {i : Nat} {w w' : Wait} {d d' : Desk} (h : Wait.Moves i w d d' w')
    (hsound : ∀ k, (d.sources k).callbacks.Sound) : d.Keeps d' none := by
  cases h with
  | enrol hp k hk hopen =>
      refine .of_putSource (fun h => h.insert i) id ?_
      intro key j _ hkeyed
      exact hkeyed.insert (hsound k) hopen i
  | _ => exact .of_sources_eq rfl

theorem Requester.Moves.keeps {r r' : Requester} {d d' : Desk} (h : Requester.Moves r d d' r')
    (hraised : r.place = .at .detach → (d.sources r.source).requested = true) : d.Keeps d' none := by
  cases h with
  | raise hp hopen => exact .of_putSource id (fun _ => rfl) fun _ _ _ hkeyed => hkeyed.raise
  | detach hp =>
      refine .of_putSource (fun _ => Slab.sound_empty) id ?_
      intro _ _ _ _
      exact Or.inr ⟨hraised hp, fun _ => rfl⟩
  | _ => exact .of_sources_eq rfl

/-- A wait that leaves takes away its own callback only. -/
theorem Wait.withdraw_keeps {i : Nat} {w : Wait} {d : Desk}
    (hkeyed : ∀ k key, w.source = some k → w.key = some key → Keyed (d.sources k) key i) :
    d.Keeps (w.withdraw d) (some i) := by
  obtain ⟨source, due, key, place, rendezvous, posts⟩ := w
  cases source with
  | none => exact .of_sources_eq rfl
  | some k =>
      cases key with
      | none => exact .of_sources_eq rfl
      | some key =>
          refine .of_putSource (fun h => h.remove? key) id ?_
          intro key' j hj hkeyed'
          refine hkeyed'.withdraw (hkeyed k key rfl rfl) ?_
          intro heq
          exact hj (congrArg some heq)

/-- Only enrolling gives a wait a key, under which its own number stands. -/
theorem Wait.Moves.key {i : Nat} {w w' : Wait} {d d' : Desk} (h : Wait.Moves i w d d' w')
    (hsound : ∀ k, (d.sources k).callbacks.Sound) :
    w'.source = w.source ∧ (w'.key = w.key ∨ ∃ k key, w.source = some k ∧ w'.key = some key ∧
      (d'.sources k).callbacks.get? key = some i) := by
  cases h with
  | enrol hp k hk hopen =>
      refine ⟨rfl, Or.inr ⟨k, _, hk, rfl, ?_⟩⟩
      rw [Desk.sources_putSource, if_pos rfl]
      show ((d.sources k).callbacks.insert i).2.get? _ = some i
      rw [Slab.get?_insert (hsound k), if_pos rfl]
  | _ => exact ⟨rfl, Or.inl rfl⟩

/-- Whoever enrols has a key, unless the source has been asked to cancel. -/
theorem Wait.Moves.enrolled {i : Nat} {w w' : Wait} {d d' : Desk} (h : Wait.Moves i w d d' w')
    (hold : w.isEnrolled = true → ∀ k, w.source = some k →
      w.key ≠ none ∨ (d.sources k).requested = true)
    (henrolled : w'.isEnrolled = true) (k : Nat) (hk : w'.source = some k) :
    w'.key ≠ none ∨ (d'.sources k).requested = true := by
  cases h with
  | refuse hp hrequested => cases henrolled
  | check hp hrequested => cases henrolled
  | free hp hnone =>
      rw [show w.source = some k from hk] at hnone
      cases hnone
  | late hp k' hk' hrequested =>
      rw [show w.source = some k from hk] at hk'
      cases hk'
      exact Or.inr hrequested
  | enrol hp k' hk' hopen => exact Or.inl nofun
  | call c rest spurious hp => exact hold (by rw [isEnrolled, hp]) k hk
  | called rest hp => exact hold (by rw [isEnrolled, hp]) k hk
  | arrive rest hp => exact hold (by rw [isEnrolled, hp]) k hk
  | settle hp => exact hold (by rw [isEnrolled, hp]) k hk

/-- A request that is about to detach has raised the flag. -/
theorem Requester.Moves.raised {r r' : Requester} {d d' : Desk} (h : Requester.Moves r d d' r')
    (hp' : r'.place = .at .detach) : (d'.sources r'.source).requested = true := by
  cases h with
  | raise hp hopen =>
      rw [Desk.sources_putSource, if_pos rfl]
  | _ => cases hp'

/-- A wait after a timer has fired, as it was before. -/
theorem Wait.of_served {waits waits' : List Wait} {i : Nat} {w : Wait}
    (hw : ∀ j : Nat, waits'[j]? = waits[j]? ∨ waits'[j]? = (waits[j]?).map Wait.arrive)
    (hget : waits'[i]? = some w) : ∃ v, waits[i]? = some v ∧ (w = v ∨ w = v.arrive) := by
  rcases hw i with hsame | harrived
  · exact ⟨w, hsame ▸ hget, Or.inl rfl⟩
  · rw [harrived] at hget
    obtain ⟨v, hv, rfl⟩ := Option.map_eq_some_iff.mp hget
    exact ⟨v, hv, Or.inr rfl⟩

theorem Wait.withdraw_shared (w : Wait) (d : Desk) : (w.withdraw d).shared = d.shared := by
  rw [Wait.withdraw]
  split <;> rfl

/-- A wait that withdraws its callback asks nobody to cancel. -/
theorem Wait.withdraw_requested (w : Wait) (d : Desk) (k : Nat) :
    ((w.withdraw d).sources k).requested = (d.sources k).requested := by
  rw [Wait.withdraw]
  split
  · rw [Desk.sources_putSource]
    split
    · next hk =>
        rw [hk]
        rfl
    · rfl
  · rfl

/-- What holds of some wait, and of each once it has arrived, holds of some wait after a timer has fired. -/
theorem Wait.exists_of_served {waits waits' : List Wait} {P : Wait → Prop}
    (hw : ∀ j : Nat, waits'[j]? = waits[j]? ∨ waits'[j]? = (waits[j]?).map Wait.arrive)
    (harrive : ∀ v, P v → P v.arrive) (hex : ∃ v ∈ waits, P v) : ∃ v ∈ waits', P v := by
  obtain ⟨v, hv, hPv⟩ := hex
  obtain ⟨j, hj⟩ := List.getElem?_of_mem hv
  rcases hw j with hsame | harrived
  · rw [hj] at hsame
    exact ⟨v, List.mem_of_getElem? hsame, hPv⟩
  · rw [hj] at harrived
    exact ⟨v.arrive, List.mem_of_getElem? harrived, harrive v hPv⟩

/-! ### The invariant -/

/-- How the keys of the waits and the callbacks of the sources hang together. -/
structure Registered (s : TimedWaits) : Prop where
  sound : ∀ k, (s.desk.sources k).callbacks.Sound
  raised : ∀ r ∈ s.requests, r.place = .at .detach → (s.desk.sources r.source).requested = true
  keyed : ∀ i w key, s.waits[i]? = some w → w.key = some key →
    ∃ k, w.source = some k ∧ Keyed (s.desk.sources k) key i
  enrolled : ∀ w ∈ s.waits, w.isEnrolled = true → ∀ k, w.source = some k →
    w.key ≠ none ∨ (s.desk.sources k).requested = true

namespace Registered

variable {s s' : TimedWaits}

theorem keyed_of_get? (h : Registered s) {i : Nat} {w : Wait} (hw : s.waits[i]? = some w)
    (k key : Nat) (hk : w.source = some k) (hkey : w.key = some key) :
    Keyed (s.desk.sources k) key i := by
  obtain ⟨k', hk', hkeyed⟩ := h.keyed i w key hw hkey
  rw [hk] at hk'
  rwa [Option.some.inj hk']

/-- Registrations that stay as they are while the sources are kept for them. -/
theorem of_keeps {d : Desk} {k : Keeper Nat} {closers : List (Caller Nat)} (h : Registered s)
    (hkeeps : s.desk.Keeps d none) :
    Registered { s with desk := d, keeper := k, closers } where
  sound := hkeeps.sound h.sound
  raised r hr hp := hkeeps.requested _ (h.raised r hr hp)
  keyed i w key hw hkey := by
    obtain ⟨k, hk, hkeyed⟩ := h.keyed i w key hw hkey
    exact ⟨k, hk, hkeeps.keyed k key i nofun hkeyed⟩
  enrolled w hw henrolled k hk := (h.enrolled w hw henrolled k hk).imp_right (hkeeps.requested k)

theorem wait (h : Registered s) (source : Option Nat) (due : Nat) :
    Registered { s with waits := s.waits ++ [{ source, due }] } where
  sound := h.sound
  raised := h.raised
  keyed i w key hw hkey := by
    rcases getElem?_of_join hw with rfl | hold
    · cases hkey
    · exact h.keyed i w key hold hkey
  enrolled w hw henrolled k hk := by
    rcases List.mem_append.mp hw with hold | hnew
    · exact h.enrolled w hold henrolled k hk
    · rw [List.mem_singleton.mp hnew] at henrolled
      cases henrolled

theorem request (h : Registered s) (source : Nat) :
    Registered { s with requests := s.requests ++ [{ source }] } where
  sound := h.sound
  raised r hr hp := by
    rcases List.mem_append.mp hr with hold | hnew
    · exact h.raised r hold hp
    · rw [List.mem_singleton.mp hnew] at hp
      cases hp
  keyed := h.keyed
  enrolled := h.enrolled

theorem register {i : Nat} {w w' : Wait} {d : Desk} (h : Registered s) (hw : s.waits[i]? = some w)
    (hmove : Wait.Moves i w s.desk d w') :
    Registered { s with desk := d, waits := s.waits.set i w' } := by
  have hkeeps : s.desk.Keeps d none := hmove.keeps h.sound
  refine ⟨hkeeps.sound h.sound, fun r hr hp => hkeeps.requested _ (h.raised r hr hp), ?_, ?_⟩
  · intro j v key hv hkey
    rcases getElem?_of_set hv with ⟨rfl, rfl⟩ | ⟨-, hold⟩
    · rcases hmove.key h.sound with ⟨hsource, hsame | ⟨k, key', hk, hkey', hget⟩⟩
      · rw [hsame] at hkey
        obtain ⟨k, hk, hkeyed⟩ := h.keyed j w key hw hkey
        exact ⟨k, hsource.trans hk, hkeeps.keyed k key j nofun hkeyed⟩
      · rw [hkey'] at hkey
        cases hkey
        exact ⟨k, hsource.trans hk, Or.inl hget⟩
    · obtain ⟨k, hk, hkeyed⟩ := h.keyed j v key hold hkey
      exact ⟨k, hk, hkeeps.keyed k key j nofun hkeyed⟩
  · intro v hv henrolled k hk
    rcases mem_of_mem_set hv with rfl | hold
    · exact hmove.enrolled (h.enrolled w (List.mem_of_getElem? hw)) henrolled k hk
    · exact (h.enrolled v hold henrolled k hk).imp_right (hkeeps.requested k)

theorem leave {i : Nat} {w : Wait} (h : Registered s) (hw : s.waits[i]? = some w) :
    Registered { s with
      desk := w.withdraw s.desk
      waits := s.waits.set i { w with key := none, place := .left } } := by
  have hkeeps : s.desk.Keeps (w.withdraw s.desk) (some i) :=
    Wait.withdraw_keeps (h.keyed_of_get? hw)
  refine ⟨hkeeps.sound h.sound, fun r hr hp => hkeeps.requested _ (h.raised r hr hp), ?_, ?_⟩
  · intro j v key hv hkey
    rcases getElem?_of_set hv with ⟨-, rfl⟩ | ⟨hj, hold⟩
    · cases hkey
    · obtain ⟨k, hk, hkeyed⟩ := h.keyed j v key hold hkey
      exact ⟨k, hk, hkeeps.keyed k key j (fun heq => hj (Option.some.inj heq)) hkeyed⟩
  · intro v hv henrolled k hk
    rcases mem_of_mem_set hv with rfl | hold
    · cases henrolled
    · exact (h.enrolled v hold henrolled k hk).imp_right (hkeeps.requested k)

theorem cancel {j : Nat} {r r' : Requester} {d : Desk} (h : Registered s)
    (hr : s.requests[j]? = some r) (hmove : Requester.Moves r s.desk d r') :
    Registered { s with desk := d, requests := s.requests.set j r' } := by
  have hkeeps : s.desk.Keeps d none := hmove.keeps (h.raised r (List.mem_of_getElem? hr))
  have hkept : Registered { s with desk := d } := h.of_keeps hkeeps
  refine ⟨hkept.sound, ?_, hkept.keyed, hkept.enrolled⟩
  intro q hq hp
  rcases mem_of_mem_set hq with rfl | hold
  · exact hmove.raised hp
  · exact hkept.raised q hold hp

/-- A timer that fires changes neither the source, nor the key, nor the place of its wait. -/
theorem serve {k : Keeper Nat} {waits : List Wait} (h : Registered s)
    (hw : ∀ j : Nat, waits[j]? = s.waits[j]? ∨ waits[j]? = (s.waits[j]?).map Wait.arrive) :
    Registered { s with keeper := k, waits } := by
  refine ⟨h.sound, h.raised, ?_, ?_⟩
  · intro i w key hget hkey
    obtain ⟨v, hv, rfl | rfl⟩ := Wait.of_served hw hget
    · exact h.keyed i _ key hv hkey
    · exact h.keyed i v key hv hkey
  · intro w hmem henrolled k hk
    obtain ⟨i, hget⟩ := List.getElem?_of_mem hmem
    obtain ⟨v, hv, rfl | rfl⟩ := Wait.of_served hw hget
    · exact h.enrolled _ (List.mem_of_getElem? hv) henrolled k hk
    · exact h.enrolled v (List.mem_of_getElem? hv) henrolled k hk

/-- Every act keeps the registrations. -/
theorem step (h : Registered s) (hturn : TimedWaits.Turns s s') : Registered s' := by
  cases hturn with
  | wait source due => exact h.wait source due
  | request source => exact h.request source
  | close => exact h.of_keeps (.of_sources_eq rfl)
  | register i w w' d hw hmove => exact h.register hw hmove
  | leave i w hw hp => exact h.leave hw
  | cancel j r r' d hr hmove => exact h.cancel hr hmove
  | shut j c spurious hc => exact h.of_keeps (.of_sources_eq rfl)
  | serve i keeper hserved waits hw => exact h.serve hw
  | keep now room shared keeper hmove => exact h.of_keeps (.of_sources_eq rfl)

end Registered

end TaskDispatch.Timer
