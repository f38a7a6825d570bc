/-
A hop is neither lost nor duplicated, and it lands on a worker.

`Tracked` is the invariant of a journey.  Every hop that has been posted is in the port
or with exactly one worker, and every hop but the latest has come down.  A poll posts a
new hop only where it has seen the latest one come down on another thread.  So there is
never a second hop in the port, and while there is none, a worker has the latest.

A worker that has recorded its thread has still to wake.  A poll that comes in between
may find the hop elsewhere and post another; the worker then wakes the waker of its own
hop, which is no longer the latest, and nothing of the above depends on it.
-/
import TaskDispatch.Proofs.Hop.Journey

namespace TaskDispatch

variable {ω : Type}

/-- A worker and its hop are in step: one that is done with its record has left it on the hop, and it
wakes nobody but the one the hop is for. -/
def Carrier.agrees (c : Carrier ω) (hop : Hop ω) : Prop :=
  match c.place with
  | .taken => True
  | .landed => hop.ranOn = some c.thread
  | .woke w => hop.ranOn = some c.thread ∧ w = hop.waker

namespace Journey

/-- Of so many hops, whether the one of this number has been posted: all have but the first, as long as
the timer has still to post it. -/
def isPosted (count : Nat) (unfired : Bool) (k : Nat) : Bool := decide (k < count) && !(unfired && k == 0)

/-- With a new hop, what is posted is what was and the new one. -/
theorem isPosted_succ {count : Nat} {unfired : Bool} (hmade : unfired = true → 0 < count) (k : Nat) :
    isPosted (count + 1) unfired k = (isPosted count unfired k || k == count) := by
  cases unfired with
  | false => grind [isPosted]
  | true =>
      have := hmade rfl
      grind [isPosted]

/-- When the timer fires, the first hop is posted as well. -/
theorem isPosted_fired {count : Nat} (hmade : 0 < count) (k : Nat) :
    isPosted count false k = (isPosted count true k || k == 0) := by
  grind [isPosted]

theorem lt_of_isPosted {count : Nat} {unfired : Bool} {k : Nat} (h : isPosted count unfired k = true) :
    k < count := by
  simp only [isPosted, Bool.and_eq_true, decide_eq_true_eq] at h
  exact h.1

/-- A hop keeps its waker when it comes down. -/
theorem map_waker_land (hops : List (Hop ω)) (i thread : Nat) :
    (hops.modify i (·.land thread)).map (·.waker) = hops.map (·.waker) := by
  refine List.ext_getElem? fun k => ?_
  rw [List.getElem?_map, List.getElem?_map, List.getElem?_modify]
  cases hops[k]? <;> by_cases hk : i = k <;> simp [hk, Hop.land]

theorem carry_of_taken {s : Journey ω} {i : Nat} {c : Carrier ω} {hop : Hop ω}
    (hc : s.carriers[i]? = some c) (hplace : c.place = .taken) (hhop : s.hops[c.hop]? = some hop) :
    ∃ t, s.step? (.carry i) = some t ∧ t.carriers[i]? = some { c with place := .landed } ∧
      t.hops[c.hop]? = some (hop.land c.thread) := by
  have hi := (List.getElem?_eq_some_iff.mp hc).1
  refine ⟨{ s with
    hops := s.hops.modify c.hop (·.land c.thread)
    carriers := s.carriers.set i { c with place := .landed } }, ?_, ?_, ?_⟩
  · simp [step?, hc, carry?, hplace]
  · simp [hi]
  · simp [hhop]

theorem carry_of_landed {s : Journey ω} {i : Nat} {c : Carrier ω} {hop : Hop ω}
    (hc : s.carriers[i]? = some c) (hplace : c.place = .landed) (hhop : s.hops[c.hop]? = some hop) :
    ∃ t, s.step? (.carry i) = some t ∧ t.carriers[i]? = some { c with place := .woke hop.waker } := by
  have hi := (List.getElem?_eq_some_iff.mp hc).1
  refine ⟨{ s with carriers := s.carriers.set i { c with place := .woke hop.waker } }, ?_, ?_⟩
  · simp [step?, hc, carry?, hplace, hhop]
  · simp [hi]

/-- What the stage of the polls says of the latest hop. -/
def Stage.fits (s : Journey ω) : Stage ω → Prop
  | .idle | .looking .. => True
  | .posting _ _ found =>
    HopMove.of found = .post ∧ ∀ hop, s.hops.getLast? = some hop → hop.ranOn ≠ none
  | .ready thread => ∃ hop, s.hops.getLast? = some hop ∧ hop.ranOn = some thread

theorem Stage.fits.of_hops {s t : Journey ω} {stage : Stage ω} (h : stage.fits s)
    (hhops : t.hops = s.hops) : stage.fits t := by
  cases stage with
  | idle => trivial
  | looking thread waker => trivial
  | posting thread waker found => exact ⟨h.1, by rw [hhops]; exact h.2⟩
  | ready thread =>
      obtain ⟨hop, hlast, hran⟩ := h
      exact ⟨hop, by rw [hhops]; exact hlast, hran⟩

/-- The latest hop after one has come down: that one, or the one it was. -/
theorem getLast?_land {hops : List (Hop ω)} {i thread : Nat} {hop : Hop ω}
    (h : (hops.modify i (·.land thread)).getLast? = some hop) :
    hop.ranOn = some thread ∨ hops.getLast? = some hop := by
  rw [List.getLast?_eq_getElem?, List.length_modify, List.getElem?_modify] at h
  obtain ⟨old, hold, rfl⟩ := Option.map_eq_some_iff.mp h
  split
  · exact Or.inl rfl
  · exact Or.inr (by rw [List.getLast?_eq_getElem?, hold])

/-- A hop that comes down for the first time leaves what the stage of the polls says: if the latest one
has come down already, it is another. -/
theorem Stage.fits.land {s t : Journey ω} {stage : Stage ω} {i thread : Nat} {hop : Hop ω}
    (h : stage.fits s) (hhop : s.hops[i]? = some hop) (hunrun : hop.ranOn = none)
    (hhops : t.hops = s.hops.modify i (·.land thread)) : stage.fits t := by
  cases stage with
  | idle => trivial
  | looking thread waker => trivial
  | posting thread waker found =>
      refine ⟨h.1, ?_⟩
      intro hop' hlast
      rw [hhops] at hlast
      rcases getLast?_land hlast with hran | hold
      · simp [hran]
      · exact h.2 hop' hold
  | ready thread =>
      obtain ⟨last, hlast, hran⟩ := h
      refine ⟨last, ?_, hran⟩
      rw [List.getLast?_eq_getElem?] at hlast ⊢
      have hother : i ≠ s.hops.length - 1 := by
        rintro rfl
        obtain rfl := Option.some.inj (hhop.symm.trans hlast)
        rw [hunrun] at hran
        cases hran
      rw [hhops, List.length_modify, List.getElem?_modify_ne _ _ hother]
      exact hlast

/-- How the port, the hops, the polls and the workers hang together, for a future that `start first`
began with. -/
structure Tracked (first : Option ω) (s : Journey ω) : Prop where
  /-- What is posted is in the port or with a worker, once over. -/
  conserved : ∀ k, s.port.copies k + s.carriers.countP (·.hop == k) = (isPosted s.hops.length s.unfired k).toNat
  /-- A hop the timer has still to post has been made. -/
  made : s.unfired = true → s.hops ≠ []
  agreed : ∀ c ∈ s.carriers, ∃ hop, s.hops[c.hop]? = some hop ∧ c.agrees hop
  marked : ∀ (k : Nat) (hop : Hop ω) (t : Nat), s.hops[k]? = some hop → hop.ranOn = some t →
    ∃ c ∈ s.carriers, c.hop = k ∧ c.thread = t ∧ c.place ≠ .taken
  /-- Every hop but the latest has come down. -/
  settled : ∀ (k : Nat) (hop : Hop ω), s.hops[k]? = some hop → k + 1 < s.hops.length → hop.ranOn ≠ none
  fitting : s.stage.fits s
  /-- The hops are those of the polls that had to post one. -/
  wakers : s.hops.map (·.waker) = first.toList ++ (s.past.filter Poll.posted).map (·.waker)
  begun : first ≠ none ∨ s.past ≠ [] → s.hops ≠ []

theorem tracked_start (first : Option ω) : Tracked first (start first) := by
  cases first with
  | none =>
      refine ⟨?_, ?_, ?_, ?_, ?_, trivial, rfl, ?_⟩
      · intro k
        simp [start, Port.copies, isPosted]
      all_goals simp [start]
  | some w =>
      refine ⟨?_, ?_, ?_, ?_, ?_, trivial, rfl, ?_⟩
      · intro k
        by_cases hk : k = 0 <;> simp [start, Port.copies, isPosted, hk]
      · simp [start]
      · simp [start]
      · intro k hop t hhop hran
        obtain rfl := List.mem_singleton.mp (List.mem_of_getElem? hhop)
        simp [Hop.new] at hran
      · simp [start]
      · simp [start]

namespace Tracked

variable {first : Option ω} {s s' : Journey ω}

/-- A hop is with one worker at most. -/
theorem one_carrier (h : Tracked first s) {c d : Carrier ω} (hc : c ∈ s.carriers) (hd : d ∈ s.carriers)
    (hhop : c.hop = d.hop) : c = d := by
  have hle : s.carriers.countP (·.hop == d.hop) ≤ 1 := by
    have hconserved := h.conserved d.hop
    have := Bool.toNat_le (isPosted s.hops.length s.unfired d.hop)
    omega
  exact eq_of_countP_le_one hle hc hd (by simp [hhop]) (by simp)

/-- A worker that has yet to make its record has a hop without one. -/
theorem unrun_of_taken (h : Tracked first s) {c : Carrier ω} (hc : c ∈ s.carriers)
    (hplace : c.place = .taken) {hop : Hop ω} (hhop : s.hops[c.hop]? = some hop) : hop.ranOn = none := by
  cases hran : hop.ranOn with
  | none => rfl
  | some t =>
      obtain ⟨d, hd, hdhop, -, hnot⟩ := h.marked c.hop hop t hhop hran
      rw [h.one_carrier hd hc hdhop] at hnot
      exact absurd hplace hnot

/-- A hop in the port has been posted and has not come down. -/
theorem of_copies (h : Tracked first s) {k : Nat} (hport : 0 < s.port.copies k) :
    isPosted s.hops.length s.unfired k = true ∧ ∀ hop, s.hops[k]? = some hop → hop.ranOn = none := by
  have hconserved := h.conserved k
  have hle := Bool.toNat_le (isPosted s.hops.length s.unfired k)
  refine ⟨Bool.toNat_eq_one.mp (by omega), ?_⟩
  intro hop hhop
  cases hran : hop.ranOn with
  | none => rfl
  | some t =>
      obtain ⟨c, hc, hchop, -, -⟩ := h.marked k hop t hhop hran
      have hpos : 0 < s.carriers.countP (·.hop == k) :=
        List.countP_pos_iff.mpr ⟨c, hc, by simp [hchop]⟩
      omega

/-! ### What each act keeps -/

/-- An act that moves the polls alone keeps the port, the hops and the workers in step. -/
theorem of_stage (h : Tracked first s) {stage : Stage ω} {past : List (Poll ω)}
    (hfits : stage.fits s)
    (hpast : past = s.past ∨ ∃ p, past = s.past ++ [p] ∧ p.posted = false ∧ s.hops ≠ []) :
    Tracked first { s with stage, past } := by
  refine ⟨h.conserved, h.made, h.agreed, h.marked, h.settled, ?_, ?_, ?_⟩
  · cases stage <;> exact hfits
  · rcases hpast with rfl | ⟨p, rfl, hposted, -⟩
    · exact h.wakers
    · simp [h.wakers, hposted]
  · rcases hpast with rfl | ⟨p, rfl, -, hne⟩
    · exact h.begun
    · exact fun _ => hne

theorem look (h : Tracked first s) (thread : Nat) (waker : ω) :
    Tracked first (s.sees thread waker (s.latest thread)) := by
  unfold sees
  cases hmove : HopMove.of (s.latest thread) with
  | arrive =>
      refine h.of_stage ?_ (.inl rfl)
      have hhere := (HopMove.of_eq_arrive_iff _).mp hmove
      simp only [latest, Option.map_eq_some_iff] at hhere
      obtain ⟨hop, hlast, hlanding⟩ := hhere
      refine ⟨hop, hlast, ?_⟩
      unfold Hop.landing at hlanding
      split at hlanding
      · simp at hlanding
      · next t hran =>
          by_cases ht : t = thread
          · rw [hran, ht]
          · simp [ht] at hlanding
  | wait =>
      refine h.of_stage trivial (.inr ⟨_, rfl, ?_, ?_⟩)
      · simp [Poll.posted, hmove]
      · intro hnil
        have hpending := (HopMove.of_eq_wait_iff _).mp hmove
        simp [latest, hnil] at hpending
  | post =>
      refine h.of_stage ⟨hmove, ?_⟩ (.inl rfl)
      intro hop hlast hran
      simp [latest, hlast, Hop.landing, hran, HopMove.of] at hmove

theorem post (h : Tracked first s) {thread : Nat} {waker : ω} {found : Option Landing}
    (hstage : s.stage = .posting thread waker found) :
    Tracked first { s with
      port := s.port.post (.resume (.own s.hops.length))
      hops := s.hops ++ [.new waker]
      stage := .idle
      past := s.past ++ [{ thread, waker, found }] } := by
  have hfits := h.fitting
  rw [hstage] at hfits
  obtain ⟨hmove, hlanded⟩ := hfits
  refine ⟨?_, ?_, ?_, ?_, ?_, trivial, ?_, ?_⟩
  · intro k
    have hconserved := h.conserved k
    have hmade : s.unfired = true → 0 < s.hops.length := fun hu => List.length_pos_iff.mpr (h.made hu)
    have hfresh : isPosted s.hops.length s.unfired s.hops.length = false := by simp [isPosted]
    rw [Port.copies_post, List.length_append, List.length_singleton, isPosted_succ hmade]
    by_cases hk : k = s.hops.length
    · rw [hk, hfresh] at hconserved
      simp only [hk, hfresh, Event.carries, beq_self_eq_true, Bool.toNat_true, Bool.toNat_false,
        Bool.or_true] at hconserved ⊢
      omega
    · simp only [Event.carries, beq_eq_false_iff_ne.mpr hk, beq_eq_false_iff_ne.mpr (Ne.symm hk),
        Bool.toNat_false, Bool.or_false]
      omega
  · intro _
    simp
  · intro c hc
    obtain ⟨hop, hhop, hagrees⟩ := h.agreed c hc
    exact ⟨hop, List.getElem?_append_left (List.getElem?_eq_some_iff.mp hhop).1 ▸ hhop, hagrees⟩
  · intro k hop t hhop hran
    rcases getElem?_of_join hhop with rfl | hold
    · simp [Hop.new] at hran
    · exact h.marked k hop t hold hran
  · intro k hop hhop hlt
    simp only [List.length_append, List.length_singleton] at hlt
    have hk : k < s.hops.length := by omega
    rw [List.getElem?_append_left hk] at hhop
    by_cases hlast : k + 1 = s.hops.length
    · exact hlanded hop (by rw [List.getLast?_eq_getElem?, ← hlast]; exact hhop)
    · exact h.settled k hop hhop (by omega)
  · have : ({ thread, waker, found : Poll ω }).posted = true := by simp [Poll.posted, hmove]
    simp [h.wakers, this, Hop.new]
  · intro _
    simp

/-- An act that moves events alone keeps the hops and the workers in step. -/
theorem of_port (h : Tracked first s) {port : Port Ticket}
    (hport : ∀ k, port.copies k = s.port.copies k) : Tracked first { s with port } := by
  refine ⟨?_, h.made, h.agreed, h.marked, h.settled, ?_, h.wakers, h.begun⟩
  · intro k
    rw [hport k]
    exact h.conserved k
  · exact h.fitting.of_hops rfl

theorem fire (h : Tracked first s) (hunfired : s.unfired = true) :
    Tracked first { s with unfired := false, port := s.port.post (.resume (.own 0)) } := by
  refine ⟨?_, nofun, h.agreed, h.marked, h.settled, ?_, h.wakers, h.begun⟩
  · intro k
    have hconserved := h.conserved k
    have hpos : 0 < s.hops.length := List.length_pos_iff.mpr (h.made hunfired)
    have hfresh : isPosted s.hops.length true 0 = false := by simp [isPosted]
    rw [hunfired] at hconserved
    rw [Port.copies_post, isPosted_fired hpos]
    by_cases hk : k = 0
    · rw [hk, hfresh] at hconserved
      simp only [hk, hfresh, Event.carries, beq_self_eq_true, Bool.toNat_true, Bool.toNat_false,
        Bool.or_true] at hconserved ⊢
      omega
    · simp only [Event.carries, beq_eq_false_iff_ne.mpr hk, beq_eq_false_iff_ne.mpr (Ne.symm hk),
        Bool.toNat_false, Bool.or_false]
      omega
  · exact h.fitting.of_hops rfl

theorem take (h : Tracked first s) {thread hop : Nat} {port : Port Ticket}
    (hnext : s.port.next? = some (.resume (.own hop), port)) :
    Tracked first { s with port, carriers := s.carriers ++ [{ thread, hop }] } := by
  have hcopies : 0 < s.port.copies hop := by
    have hthis : Event.carries hop (.resume (.own hop)) = true := by simp [Event.carries]
    rw [Port.copies_of_next? hnext hop, hthis]
    simp only [Bool.toNat_true]
    omega
  obtain ⟨hposted, -⟩ := h.of_copies hcopies
  refine ⟨?_, h.made, ?_, ?_, h.settled, ?_, h.wakers, h.begun⟩
  · intro k
    have hconserved := h.conserved k
    rw [Port.copies_of_next? hnext k] at hconserved
    have hmoved : (Event.carries k (.resume (.own hop))) = (hop == k) := rfl
    rw [hmoved] at hconserved
    rw [List.countP_append, List.countP_singleton]
    cases hk : hop == k <;>
    · simp only [hk, Bool.toNat_true, Bool.toNat_false, if_true, Bool.false_eq_true, if_false]
        at hconserved ⊢
      omega
  · intro c hc
    rcases List.mem_append.mp hc with hold | hnew
    · exact h.agreed c hold
    · obtain rfl := List.mem_singleton.mp hnew
      exact ⟨_, List.getElem?_eq_getElem (lt_of_isPosted hposted), trivial⟩
  · intro k hop' t hhop hran
    obtain ⟨c, hc, hrest⟩ := h.marked k hop' t hhop hran
    exact ⟨c, List.mem_append_left _ hc, hrest⟩
  · exact h.fitting.of_hops rfl

theorem land {i : Nat} {c : Carrier ω} (h : Tracked first s) (hc : s.carriers[i]? = some c)
    (hplace : c.place = .taken) :
    Tracked first { s with
      hops := s.hops.modify c.hop (·.land c.thread)
      carriers := s.carriers.set i { c with place := .landed } } := by
  have hmem := List.mem_of_getElem? hc
  obtain ⟨hop, hhop, -⟩ := h.agreed c hmem
  have hunrun := h.unrun_of_taken hmem hplace hhop
  -- every other hop is as it was, and this one keeps its waker
  have hsame : ∀ k, k ≠ c.hop → (s.hops.modify c.hop (·.land c.thread))[k]? = s.hops[k]? := by
    intro k hk
    simp [Ne.symm hk]
  have hthis : (s.hops.modify c.hop (·.land c.thread))[c.hop]? = some (hop.land c.thread) := by
    simp [hhop]
  refine ⟨?_, ?_, ?_, ?_, ?_, ?_, ?_, ?_⟩
  · intro k
    have hset := countP_set_add (·.hop == k) ({ c with place := .landed } : Carrier ω) hc
    have hconserved := h.conserved k
    rw [List.length_modify]
    simp only at hset ⊢
    omega
  · intro hunfired hnil
    exact h.made hunfired (by simpa using congrArg List.length hnil)
  · intro d hd
    rcases mem_of_mem_set hd with rfl | hold
    · exact ⟨_, hthis, rfl⟩
    · by_cases hhopd : d.hop = c.hop
      · rw [h.one_carrier hold hmem hhopd]
        exact ⟨_, hthis, by simp [Carrier.agrees, hplace]⟩
      · rw [hsame d.hop hhopd]
        exact h.agreed d hold
  · intro k hop' t hhop' hran
    by_cases hk : k = c.hop
    · rw [hk, hthis] at hhop'
      obtain rfl := Option.some.inj hhop'
      exact ⟨_, mem_set_self hc, hk.symm, by simpa [Hop.land] using hran, nofun⟩
    · rw [hsame k hk] at hhop'
      obtain ⟨d, hd, hdhop, hthread, hnot⟩ := h.marked k hop' t hhop' hran
      have hne : d ≠ c := by
        rintro rfl
        exact hnot hplace
      exact ⟨d, mem_set_of_ne hd hc hne, hdhop, hthread, hnot⟩
  · intro k hop' hhop' hlt
    rw [List.length_modify] at hlt
    by_cases hk : k = c.hop
    · rw [hk, hthis] at hhop'
      obtain rfl := Option.some.inj hhop'
      simp [Hop.land]
    · rw [hsame k hk] at hhop'
      exact h.settled k hop' hhop' hlt
  · exact h.fitting.land hhop hunrun rfl
  · rw [map_waker_land]
    exact h.wakers
  · intro hbegun hnil
    exact h.begun hbegun (by simpa using congrArg List.length hnil)

theorem wake {i : Nat} {c : Carrier ω} {hop : Hop ω} (h : Tracked first s)
    (hc : s.carriers[i]? = some c) (hplace : c.place = .landed) (hhop : s.hops[c.hop]? = some hop) :
    Tracked first { s with carriers := s.carriers.set i { c with place := .woke hop.waker } } := by
  refine ⟨?_, h.made, ?_, ?_, h.settled, h.fitting.of_hops rfl, h.wakers, h.begun⟩
  · intro k
    have hset := countP_set_add (·.hop == k) ({ c with place := .woke hop.waker } : Carrier ω) hc
    have hconserved := h.conserved k
    simp only at hset ⊢
    omega
  · intro d hd
    rcases mem_of_mem_set hd with rfl | hold
    · obtain ⟨hop', hhop', hagrees⟩ := h.agreed c (List.mem_of_getElem? hc)
      rw [hhop] at hhop'
      obtain rfl := Option.some.inj hhop'
      simp only [Carrier.agrees, hplace] at hagrees
      exact ⟨hop, hhop, hagrees, rfl⟩
    · exact h.agreed d hold
  · intro k hop' t hhop' hran
    refine exists_mem_set hc (h.marked k hop' t hhop' hran) ?_
    rintro ⟨hchop, hthread, -⟩
    exact ⟨hchop, hthread, nofun⟩

theorem step {a : Act ω} (h : Tracked first s) (hstep : s.step? a = some s') : Tracked first s' := by
  cases turns_of_step? hstep with
  | poll thread waker hidle => exact h.of_stage trivial (.inl rfl)
  | look thread waker hstage => exact h.look thread waker
  | post thread waker found hstage => exact h.post hstage
  | fire hunfired => exact h.fire hunfired
  | others e he =>
      refine h.of_port fun k => ?_
      rw [Port.copies_post, Event.not_carries he, Bool.toNat_false, Nat.add_zero]
  | take thread hop port hnext => exact h.take hnext
  | skip e port hnext he =>
      refine h.of_port fun k => ?_
      rw [Port.copies_of_next? hnext, Event.not_carries he, Bool.toNat_false, Nat.zero_add]
  | land i c hc hplace => exact h.land hc hplace
  | wake i c hop hc hplace hhop => exact h.wake hc hplace hhop

theorem of_leads (h : Leads step? (start first) s) : Tracked first s :=
  h.keeps (fun _ _ _ hu hstep => hu.step hstep) (tracked_start first)

/-- Arming the timer of a future that has no hop makes the first one. -/
theorem arm {waker : ω} (h : Tracked none s) (hhops : s.hops = []) (hidle : s.stage = .idle)
    (hpast : s.past = []) : Tracked (some waker) { s with hops := [.new waker], unfired := true } := by
  refine ⟨?_, ?_, ?_, ?_, ?_, ?_, ?_, ?_⟩
  · intro k
    have hconserved := h.conserved k
    have hold : isPosted s.hops.length s.unfired k = false := by simp [isPosted, hhops]
    have hnew : isPosted [Hop.new waker].length true k = false := by
      by_cases hk : k = 0 <;> simp [isPosted, hk]
    rw [hold] at hconserved
    rw [hnew]
    exact hconserved
  · simp
  · intro c hc
    obtain ⟨hop, hhop, -⟩ := h.agreed c hc
    simp [hhops] at hhop
  · intro k hop t hhop hran
    obtain rfl := List.mem_singleton.mp (List.mem_of_getElem? hhop)
    simp [Hop.new] at hran
  · intro k hop hhop hlt
    simp at hlt
  · rw [hidle]
    trivial
  · simp [hpast, Hop.new]
  · simp

/-! ### What is promised -/

/-- Only the latest hop can be in the port. -/
theorem copies_eq_zero (h : Tracked first s) {k : Nat} (hk : k ≠ s.hops.length - 1) :
    s.port.copies k = 0 := by
  refine Nat.eq_zero_of_not_pos fun hpos => ?_
  obtain ⟨hposted, hunrun⟩ := h.of_copies hpos
  have hlt := lt_of_isPosted hposted
  have hhop := List.getElem?_eq_getElem hlt
  exact h.settled k _ hhop (by omega) (hunrun _ hhop)

theorem ownHops_eq (h : Tracked first s) : s.port.ownHops = s.port.copies (s.hops.length - 1) :=
  Port.ownHops_eq_copies fun _ hk => h.copies_eq_zero hk

theorem ownHops_le_one (h : Tracked first s) : s.port.ownHops ≤ 1 := by
  have hconserved := h.conserved (s.hops.length - 1)
  have := Bool.toNat_le (isPosted s.hops.length s.unfired (s.hops.length - 1))
  rw [h.ownHops_eq]
  omega

/-- Without a hop nothing is in the port. -/
theorem ownHops_of_nil (h : Tracked first s) (hhops : s.hops = []) : s.port.ownHops = 0 := by
  have hconserved := h.conserved 0
  have hnothing : isPosted s.hops.length s.unfired 0 = false := by
    rw [hhops]
    rfl
  rw [hnothing, Bool.toNat_false] at hconserved
  rw [h.ownHops_eq, hhops]
  exact Nat.eq_zero_of_add_eq_zero_right hconserved

/-- A hop that has come down is no longer in the port. -/
theorem ownHops_eq_zero (h : Tracked first s) {hop : Hop ω} (hlast : s.hops.getLast? = some hop)
    (hran : hop.ranOn ≠ none) : s.port.ownHops = 0 := by
  rw [h.ownHops_eq]
  rw [List.getLast?_eq_getElem?] at hlast
  exact Nat.eq_zero_of_not_pos fun hpos => hran ((h.of_copies hpos).2 hop hlast)

/-- A posted hop that is not in the port is with a worker. -/
theorem exists_carrier (h : Tracked first s) (hfired : s.unfired = false) (hne : s.hops ≠ [])
    (hport : s.port.ownHops = 0) : ∃ c ∈ s.carriers, c.hop + 1 = s.hops.length := by
  have hconserved := h.conserved (s.hops.length - 1)
  have hpos : 0 < s.hops.length := List.length_pos_iff.mpr hne
  have hposted : isPosted s.hops.length s.unfired (s.hops.length - 1) = true := by
    simp only [isPosted, hfired, Bool.false_and, Bool.not_false, Bool.and_true, decide_eq_true_eq]
    omega
  rw [h.ownHops_eq] at hport
  rw [hposted, hport, Nat.zero_add, Bool.toNat_true] at hconserved
  have hcount : 0 < s.carriers.countP (·.hop == s.hops.length - 1) := by omega
  obtain ⟨c, hc, hchop⟩ := List.countP_pos_iff.mp hcount
  have : c.hop = s.hops.length - 1 := by simpa using hchop
  exact ⟨c, hc, by omega⟩

/-- A worker that has a hop has woken the waker of the hop, or wakes it with its own next steps. -/
theorem wakes (h : Tracked first s) {i : Nat} {c : Carrier ω} (hc : s.carriers[i]? = some c)
    {hop : Hop ω} (hhop : s.hops[c.hop]? = some hop) :
    ∃ n t, after? step? s (List.replicate n (.carry i)) = some t ∧
      t.carriers[i]? = some { c with place := .woke hop.waker } := by
  cases hplace : c.place with
  | taken =>
      obtain ⟨u, hland, hcu, hhopu⟩ := carry_of_taken hc hplace hhop
      obtain ⟨t, hwake, hct⟩ := carry_of_landed hcu rfl hhopu
      exact ⟨2, t, by simp [List.replicate, after?, hland, hwake], hct⟩
  | landed =>
      obtain ⟨t, hwake, hct⟩ := carry_of_landed hc hplace hhop
      exact ⟨1, t, by simp [List.replicate, after?, hwake], hct⟩
  | woke w =>
      obtain ⟨hop', hhop', hagrees⟩ := h.agreed c (List.mem_of_getElem? hc)
      rw [hhop] at hhop'
      obtain rfl := Option.some.inj hhop'
      simp only [Carrier.agrees, hplace] at hagrees
      refine ⟨0, s, rfl, ?_⟩
      rw [hc, ← hagrees.2, ← hplace]

/-- Where a future is ready, its latest hop was run on the thread that made it so. -/
theorem exists_ran (h : Tracked first s) {thread : Nat} (hready : s.stage = .ready thread) :
    ∃ hop, s.hops.getLast? = some hop ∧ hop.ranOn = some thread ∧
      ∃ c ∈ s.carriers, c.hop + 1 = s.hops.length ∧ c.thread = thread ∧ c.place ≠ .taken := by
  have hfits := h.fitting
  rw [hready] at hfits
  obtain ⟨hop, hlast, hran⟩ := hfits
  refine ⟨hop, hlast, hran, ?_⟩
  have hne : 0 < s.hops.length := by
    refine List.length_pos_iff.mpr fun hnil => ?_
    simp [hnil] at hlast
  rw [List.getLast?_eq_getElem?] at hlast
  obtain ⟨c, hc, hchop, hthread, hnot⟩ := h.marked _ hop thread hlast hran
  exact ⟨c, hc, by omega, hthread, hnot⟩

end Tracked

variable {first : Option ω} {s : Journey ω}

/-- **A hop is neither lost nor duplicated, and it lands on a worker.**  In every state that polls and
workers can bring a future to, in any order, whether it began unpolled or as a timed wait whose timer was
armed:

* at most one of its resumptions is in the port;
* once it has been polled, or once its timer has fired, and while none of its resumptions is in the port,
  a worker has taken its latest hop, and that worker has woken the waker of this hop or wakes it with its
  own next steps;
* if it is ready, then by a poll on the thread of the worker that ran its latest hop, and none of its
  resumptions is in the port;
* its hops are, in order, the one the timer had to post and one for each poll that found the latest hop
  on another thread, or found none, each with the waker of that poll; and each of them has been posted
  once over, unless the timer has still to. -/
theorem hop_is_neither_lost_nor_duplicated (h : Leads step? (start first) s) :
    s.port.ownHops ≤ 1 ∧
    (s.unfired = false → first ≠ none ∨ s.past ≠ [] → s.port.ownHops = 0 →
      ∃ hop, s.hops.getLast? = some hop ∧ ∃ i c, s.carriers[i]? = some c ∧ c.hop + 1 = s.hops.length ∧
        ∃ n t, after? step? s (List.replicate n (.carry i)) = some t ∧
          t.carriers[i]? = some { c with place := .woke hop.waker }) ∧
    (∀ thread, s.stage = .ready thread → s.port.ownHops = 0 ∧
      ∃ hop, s.hops.getLast? = some hop ∧ hop.ranOn = some thread ∧
        ∃ c ∈ s.carriers, c.hop + 1 = s.hops.length ∧ c.thread = thread ∧ c.place ≠ .taken) ∧
    s.hops.map (·.waker) = first.toList ++ (s.past.filter Poll.posted).map (·.waker) ∧
    ∀ k < s.hops.length, s.unfired = false ∨ k ≠ 0 →
      s.port.copies k + s.carriers.countP (·.hop == k) = 1 := by
  have htracked := Tracked.of_leads h
  refine ⟨htracked.ownHops_le_one, ?_, ?_, htracked.wakers, ?_⟩
  · intro hfired hbegun hport
    have hne := htracked.begun hbegun
    obtain ⟨c, hc, hlatest⟩ := htracked.exists_carrier hfired hne hport
    obtain ⟨i, hi⟩ := List.getElem?_of_mem hc
    obtain ⟨hop, hhop, -⟩ := htracked.agreed c hc
    have hlast : s.hops.getLast? = some hop := by
      rw [List.getLast?_eq_getElem?, ← hlatest]
      exact hhop
    exact ⟨hop, hlast, i, c, hi, hlatest, htracked.wakes hi hhop⟩
  · intro thread hready
    obtain ⟨hop, hlast, hran, hcarrier⟩ := htracked.exists_ran hready
    exact ⟨htracked.ownHops_eq_zero hlast (by simp [hran]), hop, hlast, hran, hcarrier⟩
  · intro k hk hfired
    rw [htracked.conserved k]
    refine Bool.toNat_eq_one.mpr ?_
    simp only [isPosted, hk, decide_true, Bool.true_and, Bool.not_eq_true', Bool.and_eq_false_iff,
      beq_eq_false_iff_ne]
    exact hfired

/-- A hop comes down on thread 2 while the future is polled on thread 1: the poll posts another, which
thread 1 runs before the first worker has woken anybody. -/
theorem hop_is_neither_lost_nor_duplicated_reposted :
    let s : Journey Nat :=
      { hops := [⟨some 2, 10⟩, ⟨some 1, 11⟩]
        stage := .ready 1
        past := [⟨1, 10, none⟩, ⟨1, 11, some .elsewhere⟩]
        carriers := [⟨2, 0, .landed⟩, ⟨1, 1, .landed⟩] }
    Leads step? (start none) s ∧ s.port.ownHops = 0 ∧
      ∃ hop, s.hops.getLast? = some hop ∧ ∃ i c, s.carriers[i]? = some c ∧ c.hop + 1 = s.hops.length ∧
        ∃ n t, after? step? s (List.replicate n (.carry i)) = some t ∧
          t.carriers[i]? = some { c with place := .woke hop.waker } := by
  intro s
  have h : Leads step? (start none) s :=
    .of_after? [.poll 1 10, .advance, .advance, .take 2, .carry 0, .poll 1 11, .advance, .advance,
      .take 1, .carry 1, .poll 1 12, .advance] rfl
  obtain ⟨-, hcarried, hready, -⟩ := hop_is_neither_lost_nor_duplicated h
  obtain ⟨hport, -⟩ := hready 1 rfl
  exact ⟨h, hport, hcarried rfl (Or.inr (by simp [s])) hport⟩

end Journey

end TaskDispatch
