/-
A callback is registered only while its wait is.

What stands in the slab of a source is the callback of a wait that has enrolled there
and holds the key it stands under (`Owning`).  A wait has one key at most and gives it
up when it leaves, so a wait that has not enrolled, or has left, has no callback.
-/
import TaskDispatch.Proofs.Timer.Registration

namespace TaskDispatch.Timer

/-- Whether the wait holds a key: it may have one only while it is enrolled. -/
def Wait.mayHoldKey (w : Wait) : Bool :=
  match w.place with
  | .busy _ | .pending => true
  | .checking | .refused | .enrolling | .left => false

/-- A request puts no callback into a slab. -/
theorem Requester.Moves.get? {r r' : Requester} {d d' : Desk} (h : Requester.Moves r d d' r') (k key i : Nat)
    (hget : (d'.sources k).callbacks.get? key = some i) :
    (d.sources k).callbacks.get? key = some i := by
  cases h with
  | raise hp hopen =>
      rw [Desk.sources_putSource] at hget
      split at hget
      · next hk =>
          rw [hk]
          exact hget
      · exact hget
  | detach hp =>
      rw [Desk.sources_putSource] at hget
      split at hget
      · cases hget
      · exact hget
  | _ => exact hget

/-- What stands in a slab is the callback of a wait that holds its key. -/
structure Owning (s : TimedWaits) : Prop where
  owner : ∀ k key i, (s.desk.sources k).callbacks.get? key = some i →
    ∃ w, s.waits[i]? = some w ∧ w.source = some k ∧ w.key = some key
  keyless : ∀ w ∈ s.waits, w.mayHoldKey = false → w.key = none

namespace Owning

variable {s s' : TimedWaits}

theorem wait (h : Owning s) (source : Option Nat) (due : Nat) :
    Owning { s with waits := s.waits ++ [{ source, due }] } where
  owner k key i hget := by
    obtain ⟨w, hw, hk, hkey⟩ := h.owner k key i hget
    exact ⟨w, by rw [List.getElem?_append_left (List.getElem?_eq_some_iff.mp hw).1, hw], hk, hkey⟩
  keyless w hw hplace := by
    rcases List.mem_append.mp hw with hold | hnew
    · exact h.keyless w hold hplace
    · rw [List.mem_singleton.mp hnew]

/-- The owner of a callback may move, as long as it keeps its source and its key. -/
theorem of_set {j : Nat} {w w' : Wait} {d : Desk} (h : Owning s) (hw : s.waits[j]? = some w)
    (hsource : w'.source = w.source) (hkey : w'.key = w.key)
    (hplace : w'.mayHoldKey = false → w.mayHoldKey = false)
    (hd : ∀ k key i, (d.sources k).callbacks.get? key = some i →
      (s.desk.sources k).callbacks.get? key = some i) :
    Owning { s with desk := d, waits := s.waits.set j w' } where
  owner k key i hget := by
    obtain ⟨v, hv, hk, hvkey⟩ := h.owner k key i (hd k key i hget)
    by_cases hi : i = j
    · rw [hi, hw] at hv
      obtain rfl := Option.some.inj hv
      refine ⟨w', ?_, hsource.trans hk, hkey.trans hvkey⟩
      rw [hi, List.getElem?_set_self (List.getElem?_eq_some_iff.mp hw).1]
    · exact ⟨v, by rw [List.getElem?_set_ne (Ne.symm hi), hv], hk, hvkey⟩
  keyless v hv hnot := by
    rcases mem_of_mem_set hv with rfl | hold
    · rw [hkey]
      exact h.keyless w (List.mem_of_getElem? hw) (hplace hnot)
    · exact h.keyless v hold hnot

/-- Enrolling puts a callback under a key that the wait holds from then on. -/
theorem enrol {j k : Nat} {w : Wait} (h : Owning s) (hw : s.waits[j]? = some w)
    (hp : w.place = .enrolling) (hk : w.source = some k) (left : List (Errand Nat))
    (hsound : (s.desk.sources k).callbacks.Sound) :
    Owning { s with
      desk := s.desk.putSource k
        { s.desk.sources k with callbacks := ((s.desk.sources k).callbacks.insert j).2 }
      waits := s.waits.set j { w with
        key := some ((s.desk.sources k).callbacks.insert j).1
        place := .busy left } } := by
  have hlt := (List.getElem?_eq_some_iff.mp hw).1
  have hnone : w.key = none := h.keyless w (List.mem_of_getElem? hw) (by rw [Wait.mayHoldKey, hp])
  -- a callback that was there has another owner, since this wait had no key
  have hold : ∀ n key i, (s.desk.sources n).callbacks.get? key = some i →
      ∃ v, (s.waits.set j { w with
        key := some ((s.desk.sources k).callbacks.insert j).1, place := .busy left })[i]? = some v ∧
        v.source = some n ∧ v.key = some key := by
    intro n key i hget
    obtain ⟨v, hv, hn, hvkey⟩ := h.owner n key i hget
    have hi : i ≠ j := by
      rintro rfl
      rw [hw] at hv
      obtain rfl := Option.some.inj hv
      rw [hnone] at hvkey
      cases hvkey
    exact ⟨v, by rw [List.getElem?_set_ne (Ne.symm hi), hv], hn, hvkey⟩
  refine ⟨?_, ?_⟩
  · intro n key i hget
    rw [Desk.sources_putSource] at hget
    split at hget
    · next hn =>
        rw [Slab.get?_insert hsound] at hget
        split at hget
        · next hkey =>
            obtain rfl := Option.some.inj hget
            refine ⟨_, List.getElem?_set_self hlt, ?_, ?_⟩
            · rw [hn]
              exact hk
            · rw [hkey]
        · rw [hn]
          exact hold k key i hget
    · exact hold n key i hget
  · intro v hv hnot
    rcases mem_of_mem_set hv with rfl | hmem
    · cases hnot
    · exact h.keyless v hmem hnot

theorem register {j : Nat} {w w' : Wait} {d : Desk} (h : Owning s) (hreg : Registered s)
    (hw : s.waits[j]? = some w) (hmove : Wait.Moves j w s.desk d w') :
    Owning { s with desk := d, waits := s.waits.set j w' } := by
  cases hmove with
  | refuse hp hrequested =>
      exact h.of_set hw rfl rfl (fun _ => by rw [Wait.mayHoldKey, hp]) fun _ _ _ => id
  | check hp hrequested =>
      exact h.of_set hw rfl rfl (fun _ => by rw [Wait.mayHoldKey, hp]) fun _ _ _ => id
  | free hp hnone => exact h.of_set hw rfl rfl nofun fun _ _ _ => id
  | late hp k hk hrequested => exact h.of_set hw rfl rfl nofun fun _ _ _ => id
  | enrol hp k hk hopen => exact h.enrol hw hp hk _ (hreg.sound k)
  | call c rest spurious hp => exact h.of_set hw rfl rfl nofun fun _ _ _ => id
  | called rest hp => exact h.of_set hw rfl rfl nofun fun _ _ _ => id
  | arrive rest hp => exact h.of_set hw rfl rfl nofun fun _ _ _ => id
  | settle hp => exact h.of_set hw rfl rfl nofun fun _ _ _ => id

/-- What a withdrawal leaves in the slabs was there, and is not the callback of the wait itself. -/
theorem get?_of_withdraw {j : Nat} {w : Wait} (h : Owning s) (hw : s.waits[j]? = some w)
    {k key i : Nat} (hget : ((w.withdraw s.desk).sources k).callbacks.get? key = some i) :
    (s.desk.sources k).callbacks.get? key = some i ∧ i ≠ j := by
  have howner : ∀ k key, (s.desk.sources k).callbacks.get? key = some j →
      w.source = some k ∧ w.key = some key := by
    intro k key hget
    obtain ⟨v, hv, hk, hkey⟩ := h.owner k key j hget
    rw [hw] at hv
    obtain rfl := Option.some.inj hv
    exact ⟨hk, hkey⟩
  unfold Wait.withdraw at hget
  split at hget
  · next n own hsource hown =>
      rw [Desk.sources_putSource] at hget
      split at hget
      · next hn =>
          change ((s.desk.sources n).callbacks.remove? own).2.get? key = some i at hget
          rw [Slab.get?_remove?] at hget
          split at hget
          · cases hget
          · next hkey =>
              rw [hn]
              refine ⟨hget, ?_⟩
              rintro rfl
              obtain ⟨-, hheld⟩ := howner n key hget
              rw [hown] at hheld
              exact hkey (Option.some.inj hheld).symm
      · next hn =>
          refine ⟨hget, ?_⟩
          rintro rfl
          obtain ⟨hheld, -⟩ := howner k key hget
          rw [hsource] at hheld
          exact hn (Option.some.inj hheld).symm
  · next hnot =>
      refine ⟨hget, ?_⟩
      rintro rfl
      obtain ⟨hsource, hkey⟩ := howner k key hget
      exact hnot k key hsource hkey

theorem leave {j : Nat} {w : Wait} (h : Owning s) (hw : s.waits[j]? = some w) :
    Owning { s with
      desk := w.withdraw s.desk
      waits := s.waits.set j { w with key := none, place := .left } } where
  owner k key i hget := by
    obtain ⟨hold, hi⟩ := h.get?_of_withdraw hw hget
    obtain ⟨v, hv, hk, hkey⟩ := h.owner k key i hold
    exact ⟨v, by rw [List.getElem?_set_ne (Ne.symm hi), hv], hk, hkey⟩
  keyless v hv hnot := by
    rcases mem_of_mem_set hv with rfl | hold
    · rfl
    · exact h.keyless v hold hnot

/-- Callbacks that are detached or stay where they are keep their owners. -/
theorem of_desk {d : Desk} {keeper : Keeper Nat} {requests : List Requester}
    {closers : List (Caller Nat)} (h : Owning s)
    (hd : ∀ k key i, (d.sources k).callbacks.get? key = some i →
      (s.desk.sources k).callbacks.get? key = some i) :
    Owning { s with desk := d, keeper, requests, closers } where
  owner k key i hget := h.owner k key i (hd k key i hget)
  keyless := h.keyless

/-- A timer that fires changes neither the source, nor the key, nor the place of its wait. -/
theorem serve {k : Keeper Nat} {waits : List Wait} (h : Owning s)
    (hw : ∀ j : Nat, waits[j]? = s.waits[j]? ∨ waits[j]? = (s.waits[j]?).map Wait.arrive) :
    Owning { s with keeper := k, waits } where
  owner k key i hget := by
    obtain ⟨w, hi, hk, hkey⟩ := h.owner k key i hget
    rcases hw i with hsame | harrived
    · exact ⟨w, by rw [hsame, hi], hk, hkey⟩
    · exact ⟨w.arrive, by rw [harrived, hi]; rfl, hk, hkey⟩
  keyless w hmem hnot := by
    obtain ⟨i, hi⟩ := List.getElem?_of_mem hmem
    obtain ⟨v, hv, rfl | rfl⟩ := Wait.of_served hw hi
    · exact h.keyless _ (List.mem_of_getElem? hv) hnot
    · exact h.keyless v (List.mem_of_getElem? hv) hnot

/-- Every act leaves the callbacks to waits that hold their keys. -/
theorem step (h : Owning s) (hreg : Registered s) (hturn : TimedWaits.Turns s s') : Owning s' := by
  cases hturn with
  | wait source due => exact h.wait source due
  | request source => exact h.of_desk fun _ _ _ => id
  | close => exact h.of_desk fun _ _ _ => id
  | register j w w' d hw hmove => exact h.register hreg hw hmove
  | leave j w hw hp => exact h.leave hw
  | cancel j r r' d hr hmove => exact h.of_desk hmove.get?
  | shut j c spurious hc => exact h.of_desk fun _ _ _ => id
  | serve j keeper hserved waits hw => exact h.serve hw
  | keep now room shared keeper hmove => exact h.of_desk fun _ _ _ => id

/-- **A wait that has not enrolled or has left has no callback.** -/
theorem get?_ne {i : Nat} {w : Wait} (h : Owning s) (hw : s.waits[i]? = some w)
    (hplace : w.mayHoldKey = false) (k key : Nat) :
    (s.desk.sources k).callbacks.get? key ≠ some i := by
  intro hget
  obtain ⟨v, hv, -, hkey⟩ := h.owner k key i hget
  rw [hw] at hv
  obtain rfl := Option.some.inj hv
  rw [h.keyless w (List.mem_of_getElem? hw) hplace] at hkey
  cases hkey

end Owning

/-- Every state that acts lead to leaves the callbacks to waits that hold their keys. -/
theorem owning_of_leads {s : TimedWaits} (h : Leads TimedWaits.step? {} s) : Owning s := by
  refine (h.keeps (P := fun u => Registered u ∧ Owning u) ?_ ⟨?_, ?_⟩).2
  · intro u a v ⟨hreg, howning⟩ hstep
    have hturn := TimedWaits.turns_of_step? hstep
    exact ⟨hreg.step hturn, howning.step hreg hturn⟩
  · exact ⟨fun _ => Slab.sound_empty, nofun, nofun, nofun⟩
  · refine ⟨fun k key i hget => ?_, nofun⟩
    cases hget

end TaskDispatch.Timer
