/-
Who comes last on a countdown.

`n + 1` counts are taken from a countdown for `n`, and the count that is taken last
decides.  Up to it (`Open`) nothing is announced and nobody is woken.  From it on
(`Decided`) everybody else is done, so that whoever came last has the countdown to
itself: the awaiter goes on by itself and nobody is woken, or a completion finds the
waker and wakes it, once.  `Tallied` is both with the arithmetic of the count, which
is a machine word; so there may be any number of inputs that a machine can hold.
-/
import TaskDispatch.Proofs.FanIn.Roll

namespace TaskDispatch

open Countdown (Party)

namespace Roll

variable {ω : Type} {n : Nat} {s t : Roll ω}

/-- Whether a completion has come and has counted. -/
def counted? (p : Option (Party ω)) : Bool := p.any Party.hasCounted

@[simp] theorem counted?_none : counted? (none : Option (Party ω)) = false := rfl

@[simp] theorem counted?_some (p : Party ω) : counted? (some p) = p.hasCounted := rfl

/-- Nobody has come last yet. -/
structure Open (s : Roll ω) : Prop where
  incomplete : s.countdown.complete = false
  quiet : s.wakes = []
  parties : ∀ p ∈ s.parties, p = none ∨ p = some .arrive ∨ p = some .left
  awaiter : (s.awaiter = none ∧ s.asked = none) ∨
    (∃ w, s.awaiter = some (.register w) ∧ s.asked = some w) ∨
    (∃ w, (s.awaiter = some .enlist ∨ s.awaiter = some .suspended) ∧ s.asked = some w ∧
      s.countdown.waker = some w)

/-- The awaiter has come last: it goes on. -/
structure Passing (s : Roll ω) : Prop where
  last : s.counted.getLast? = some none
  left : ∀ p ∈ s.parties, p = some .left
  quiet : s.wakes = []
  place : s.awaiter = some .claim ∧ s.countdown.complete = false ∨
    s.awaiter = some .proceeds ∧ s.countdown.complete = true

/-- The completion with number `k`, which is at `p`, has come last: it wakes the awaiter with `w`. -/
structure Ringing (s : Roll ω) (k : Nat) (w : ω) (p : Party ω) : Prop where
  last : s.counted.getLast? = some (some k)
  party : s.parties[k]? = some (some p)
  others : ∀ j q, j ≠ k → s.parties[j]? = some q → q = some .left
  awaiter : s.awaiter = some .suspended
  asked : s.asked = some w
  place :
    p = .announce ∧ s.countdown.complete = false ∧ s.countdown.waker = some w ∧ s.wakes = [] ∨
    p = .collect ∧ s.countdown.complete = true ∧ s.countdown.waker = some w ∧ s.wakes = [] ∨
    p = .wake w ∧ s.countdown.complete = true ∧ s.wakes = [] ∨
    p = .left ∧ s.countdown.complete = true ∧ s.wakes = [(k, w)]

/-- Somebody has come last. -/
def Decided (s : Roll ω) : Prop := s.Passing ∨ ∃ k w p, s.Ringing k w p

/-- How the count and the places of all parties hang together, with `n` inputs. -/
structure Tallied (n : Nat) (s : Roll ω) : Prop where
  length : s.parties.length = n
  count : s.countdown.count = UInt64.ofNat n - UInt64.ofNat s.counted.length
  tally : s.counted.length = s.parties.countP counted? + (counted? s.awaiter).toNat
  phase : s.counted.length ≤ n ∧ s.Open ∨ s.counted.length = n + 1 ∧ s.Decided

theorem Open.party (h : s.Open) {k : Nat} {p : Party ω} (hk : s.parties[k]? = some (some p)) :
    p = .arrive ∨ p = .left := by
  rcases h.parties _ (List.mem_of_getElem? hk) with hp | hp | hp
  · cases hp
  · exact Or.inl (Option.some.inj hp)
  · exact Or.inr (Option.some.inj hp)

/-- Once somebody has come last every completion has counted. -/
theorem Decided.counted (h : s.Decided) {k : Nat} {p : Option (Party ω)} (hk : s.parties[k]? = some p) :
    counted? p = true := by
  rcases h with hpassing | ⟨j, w, q, hringing⟩
  · rw [hpassing.left p (List.mem_of_getElem? hk)]
    rfl
  · by_cases hj : k = j
    · rw [hj, hringing.party] at hk
      rw [← Option.some.inj hk]
      rcases hringing.place with ⟨rfl, -⟩ | ⟨rfl, -⟩ | ⟨rfl, -⟩ | ⟨rfl, -⟩ <;> rfl
    · rw [hringing.others k p hj hk]
      rfl

/-- A completion that has not left is the one that came last. -/
theorem Decided.ringing (h : s.Decided) {k : Nat} {p : Party ω} (hk : s.parties[k]? = some (some p))
    (hp : p ≠ .left) : ∃ w, s.Ringing k w p := by
  rcases h with hpassing | ⟨j, w, q, hringing⟩
  · exact absurd (Option.some.inj (hpassing.left _ (List.mem_of_getElem? hk))) hp
  · by_cases hj : k = j
    · subst hj
      have hq : some p = some q := Option.some.inj (hk.symm.trans hringing.party)
      rw [Option.some.inj hq]
      exact ⟨w, hringing⟩
    · exact absurd (Option.some.inj (hringing.others k _ hj hk)) hp

/-- The awaiter of a decided countdown has counted. -/
theorem Decided.awaiter (h : s.Decided) :
    s.Passing ∨ s.awaiter = some .suspended := by
  rcases h with hpassing | ⟨j, w, q, hringing⟩
  · exact Or.inl hpassing
  · exact Or.inr hringing.awaiter

/-- The completion that came last stays it while it moves. -/
theorem Ringing.set {k : Nat} {w : ω} {p p' : Party ω} (h : s.Ringing k w p) {c : Countdown ω}
    {wakes : List (Nat × ω)}
    (hplace :
      p' = .announce ∧ c.complete = false ∧ c.waker = some w ∧ wakes = [] ∨
      p' = .collect ∧ c.complete = true ∧ c.waker = some w ∧ wakes = [] ∨
      p' = .wake w ∧ c.complete = true ∧ wakes = [] ∨
      p' = .left ∧ c.complete = true ∧ wakes = [(k, w)]) :
    Ringing { s with countdown := c, parties := s.parties.set k (some p'), wakes } k w p' where
  last := h.last
  party := List.getElem?_set_self (List.getElem?_eq_some_iff.mp h.party).1
  others j q hj hq := by
    rw [List.getElem?_set_ne (Ne.symm hj)] at hq
    exact h.others j q hj hq
  awaiter := h.awaiter
  asked := h.asked
  place := hplace

/-! ### The count -/

/-- One more count, one less to go. -/
theorem sub_count_succ (n m : Nat) :
    UInt64.ofNat n - UInt64.ofNat m - 1 = UInt64.ofNat n - UInt64.ofNat (m + 1) := by
  rw [UInt64.ofNat_add]
  grind

/-- The count is zero when all but one have counted. -/
theorem sub_count_eq_zero {n m : Nat} (hn : n < 2 ^ 64) (hm : m ≤ n) :
    UInt64.ofNat n - UInt64.ofNat m = 0 ↔ m = n := by
  rw [UInt64.sub_eq_iff_eq_add, UInt64.zero_add, ← UInt64.toNat_inj, UInt64.toNat_ofNat_of_lt' hn,
    UInt64.toNat_ofNat_of_lt' (Nat.lt_of_le_of_lt hm hn)]
  exact eq_comm

namespace Tallied

theorem start (n : Nat) : Tallied n (Roll.start n : Roll ω) where
  length := List.length_replicate
  count := by simp [Roll.start, Countdown.new]
  tally := by simp [Roll.start, counted?, List.countP_replicate]
  phase := by
    refine Or.inl ⟨Nat.zero_le n, rfl, rfl, ?_, Or.inl ⟨rfl, rfl⟩⟩
    intro p hp
    exact Or.inl (List.eq_of_mem_replicate hp)

/-- A party whose next step counts has not counted: nobody has come last. -/
theorem of_arrive (h : Tallied n s) {k : Nat} (hk : s.parties[k]? = some (some .arrive)) :
    s.counted.length ≤ n ∧ s.Open := by
  refine h.phase.resolve_right ?_
  rintro ⟨-, hdecided⟩
  cases hdecided.counted hk

theorem of_enlist (h : Tallied n s) (ha : s.awaiter = some .enlist) : s.counted.length ≤ n ∧ s.Open := by
  refine h.phase.resolve_right ?_
  rintro ⟨-, hdecided⟩
  rcases hdecided.awaiter with hpassing | hsuspended
  · rcases hpassing.place with ⟨hplace, -⟩ | ⟨hplace, -⟩ <;> simp [ha] at hplace
  · simp [ha] at hsuspended

/-- While the count is not zero, more than one has still to count. -/
theorem lt_of_count_ne_zero (h : Tallied n s) (hn : n < 2 ^ 64) (hle : s.counted.length ≤ n)
    (hmore : s.countdown.count ≠ 0) : s.counted.length < n := by
  refine Nat.lt_of_le_of_ne hle fun heq => hmore ?_
  rw [h.count, sub_count_eq_zero hn hle]
  exact heq

theorem eq_of_count_eq_zero (h : Tallied n s) (hn : n < 2 ^ 64) (hle : s.counted.length ≤ n)
    (hlast : s.countdown.count = 0) : s.counted.length = n := by
  rw [h.count, sub_count_eq_zero hn hle] at hlast
  exact hlast

/-- If the count is zero when a completion comes, all the others have counted and the awaiter too. -/
theorem others_of_last (h : Tallied n s) (hopen : s.Open) (hall : s.counted.length = n) {k : Nat}
    (hk : s.parties[k]? = some (some .arrive)) :
    counted? s.awaiter = true ∧ ∀ j q, j ≠ k → s.parties[j]? = some q → q = some .left := by
  have hset := countP_set_add counted? (some .left : Option (Party ω)) hk
  have hle := List.countP_le_length (p := counted?) (l := s.parties.set k (some .left))
  have htally := h.tally
  have hb := Bool.toNat_le (counted? s.awaiter)
  rw [List.length_set, h.length] at hle
  simp only [counted?_some, Party.hasCounted, Bool.toNat_true, Bool.toNat_false] at hset
  refine ⟨Bool.toNat_eq_one.mp (by omega), ?_⟩
  intro j q hj hq
  have hfull : (s.parties.set k (some .left)).countP counted? = (s.parties.set k (some .left)).length := by
    rw [List.length_set, h.length]
    omega
  have hmem : q ∈ s.parties.set k (some .left) :=
    List.mem_of_getElem? (by rw [List.getElem?_set_ne (Ne.symm hj)]; exact hq)
  have hq' := List.countP_eq_length.mp hfull q hmem
  rcases hopen.parties q (List.mem_of_getElem? hq) with rfl | rfl | rfl
  · cases hq'
  · cases hq'
  · rfl

/-- If the count is zero when the awaiter comes, all completions have counted. -/
theorem left_of_last (h : Tallied n s) (hopen : s.Open) (hall : s.counted.length = n)
    (ha : s.awaiter = some .enlist) : ∀ p ∈ s.parties, p = some .left := by
  have htally := h.tally
  rw [ha, hall] at htally
  have hfull : s.parties.countP counted? = s.parties.length := by
    rw [h.length]
    exact htally.symm
  intro p hp
  have hcounted := List.countP_eq_length.mp hfull p hp
  rcases hopen.parties p hp with rfl | rfl | rfl
  · cases hcounted
  · cases hcounted
  · rfl

/-! ### What every act keeps -/

/-- A completion comes: nothing has been counted yet. -/
theorem enter (h : Tallied n s) {k : Nat} (hk : s.parties[k]? = some none) :
    Tallied n { s with parties := s.parties.set k (some .arrive) } := by
  have hset := countP_set_add counted? (some .arrive : Option (Party ω)) hk
  have hopen : s.counted.length ≤ n ∧ s.Open := by
    refine h.phase.resolve_right ?_
    rintro ⟨-, hdecided⟩
    cases hdecided.counted hk
  refine ⟨(List.length_set ..).trans h.length, h.count, ?_, Or.inl ⟨hopen.1, ?_⟩⟩
  · simp only [counted?_some, counted?_none, Party.hasCounted, Bool.toNat_false] at hset
    have := h.tally
    show s.counted.length = (s.parties.set k (some .arrive)).countP counted? + (counted? s.awaiter).toNat
    omega
  · refine ⟨hopen.2.incomplete, hopen.2.quiet, ?_, hopen.2.awaiter⟩
    intro p hp
    rcases mem_of_mem_set hp with rfl | hold
    · exact Or.inr (Or.inl rfl)
    · exact hopen.2.parties p hold

/-- What one more count does to the arithmetic: the party that counts had not counted before. -/
theorem tally_tick (h : Tallied n s) {k : Nat} {p : Party ω} (hk : s.parties[k]? = some (some .arrive))
    (hp : p.hasCounted = true) (who : Option Nat) :
    (s.counted ++ [who]).length = (s.parties.set k (some p)).countP counted? + (counted? s.awaiter).toNat := by
  have hset := countP_set_add counted? (some p) hk
  have htally := h.tally
  rw [counted?_some, counted?_some, hp] at hset
  simp only [Party.hasCounted, Bool.toNat_false, Bool.toNat_true] at hset
  rw [List.length_append, List.length_singleton]
  omega

theorem count_tick (h : Tallied n s) (who : Option Nat) :
    (s.tick who).countdown.count = UInt64.ofNat n - UInt64.ofNat (s.counted ++ [who]).length := by
  show s.countdown.count - 1 = _
  rw [h.count, sub_count_succ, List.length_append, List.length_singleton]

/-- A completion counts, and others have still to count. -/
theorem pass (h : Tallied n s) (hn : n < 2 ^ 64) {k : Nat} (hk : s.parties[k]? = some (some .arrive))
    (hmore : s.countdown.count ≠ 0) :
    Tallied n { s.tick (some k) with parties := s.parties.set k (some .left) } := by
  obtain ⟨hle, hopen⟩ := h.of_arrive hk
  have hlt := h.lt_of_count_ne_zero hn hle hmore
  refine ⟨(List.length_set ..).trans h.length, h.count_tick _, h.tally_tick hk rfl _, Or.inl ⟨?_, ?_⟩⟩
  · show (s.counted ++ [some k]).length ≤ n
    rw [List.length_append, List.length_singleton]
    exact hlt
  · refine ⟨hopen.incomplete, hopen.quiet, ?_, hopen.awaiter⟩
    intro p hp
    rcases mem_of_mem_set hp with rfl | hold
    · exact Or.inr (Or.inr rfl)
    · exact hopen.parties p hold

/-- A completion counts last: the awaiter is suspended and has left its waker. -/
theorem last (h : Tallied n s) (hn : n < 2 ^ 64) {k : Nat} (hk : s.parties[k]? = some (some .arrive))
    (hlast : s.countdown.count = 0) :
    Tallied n { s.tick (some k) with parties := s.parties.set k (some .announce) } := by
  obtain ⟨hle, hopen⟩ := h.of_arrive hk
  have hall := h.eq_of_count_eq_zero hn hle hlast
  obtain ⟨hcounted, hothers⟩ := h.others_of_last hopen hall hk
  obtain ⟨w, hsuspended, hasked, hwaker⟩ : ∃ w, s.awaiter = some .suspended ∧ s.asked = some w ∧
      s.countdown.waker = some w := by
    rcases hopen.awaiter with ⟨ha, -⟩ | ⟨w, ha, -⟩ | ⟨w, ha | ha, hasked, hwaker⟩
    · simp [ha] at hcounted
    · simp [ha, Party.hasCounted] at hcounted
    · simp [ha, Party.hasCounted] at hcounted
    · exact ⟨w, ha, hasked, hwaker⟩
  refine ⟨(List.length_set ..).trans h.length, h.count_tick _, h.tally_tick hk rfl _, Or.inr ⟨?_, Or.inr ?_⟩⟩
  · show (s.counted ++ [some k]).length = n + 1
    rw [List.length_append, List.length_singleton, hall]
  · refine ⟨k, w, .announce, List.getLast?_concat, ?_, ?_, hsuspended, hasked,
      Or.inl ⟨rfl, hopen.incomplete, hwaker, hopen.quiet⟩⟩
    · exact List.getElem?_set_self (List.getElem?_eq_some_iff.mp hk).1
    · intro j q hj hq
      rw [List.getElem?_set_ne (Ne.symm hj)] at hq
      exact hothers j q hj hq

/-- The completion that came last takes its further steps alone: nobody counts, and nobody else moves. -/
theorem ring (h : Tallied n s) {k : Nat} {p : Party ω} (p' : Party ω) (hk : s.parties[k]? = some (some p))
    (hp : p ≠ .left) (hcounted : p.hasCounted = true) (hcounted' : p'.hasCounted = true)
    (c : Countdown ω) (hc : c.count = s.countdown.count) {wakes : List (Nat × ω)}
    (hring : ∀ w, s.Ringing k w p →
      Ringing { s with countdown := c, parties := s.parties.set k (some p'), wakes } k w p') :
    Tallied n { s with countdown := c, parties := s.parties.set k (some p'), wakes } := by
  have hset := countP_set_add counted? (some p') hk
  have hdecided : s.counted.length = n + 1 ∧ s.Decided := by
    refine h.phase.resolve_left ?_
    rintro ⟨-, hopen⟩
    rcases hopen.party hk with rfl | rfl
    · cases hcounted
    · exact hp rfl
  obtain ⟨w, hringing⟩ := hdecided.2.ringing hk hp
  refine ⟨(List.length_set ..).trans h.length, hc.trans h.count, ?_,
    Or.inr ⟨hdecided.1, Or.inr ⟨k, w, p', hring w hringing⟩⟩⟩
  have htally := h.tally
  rw [counted?_some, counted?_some, hcounted, hcounted'] at hset
  show s.counted.length = (s.parties.set k (some p')).countP counted? + (counted? s.awaiter).toNat
  omega

theorem announce (h : Tallied n s) {k : Nat} (hk : s.parties[k]? = some (some .announce)) :
    Tallied n { s with
      countdown := { s.countdown with complete := true }
      parties := s.parties.set k (some .collect) } := by
  refine h.ring .collect hk nofun rfl rfl { s.countdown with complete := true } rfl fun w hringing => hringing.set ?_
  rcases hringing.place with ⟨-, -, hwaker, hquiet⟩ | ⟨hp, -⟩ | ⟨hp, -⟩ | ⟨hp, -⟩
  · exact Or.inr (Or.inl ⟨rfl, rfl, hwaker, hquiet⟩)
  all_goals cases hp

theorem collect (h : Tallied n s) {k : Nat} {w : ω} (hk : s.parties[k]? = some (some .collect))
    (hw : s.countdown.waker = some w) :
    Tallied n { s with
      countdown := { s.countdown with waker := none }
      parties := s.parties.set k (some (.wake w)) } := by
  refine h.ring (.wake w) hk nofun rfl rfl { s.countdown with waker := none } rfl fun v hringing => hringing.set ?_
  rcases hringing.place with ⟨hp, -⟩ | ⟨-, hcomplete, hwaker, hquiet⟩ | ⟨hp, -⟩ | ⟨hp, -⟩
  · cases hp
  · rw [hw] at hwaker
    rw [Option.some.inj hwaker]
    exact Or.inr (Or.inr (Or.inl ⟨rfl, hcomplete, hquiet⟩))
  all_goals cases hp

/-- The completion that came last finds the waker of the awaiter. -/
theorem waker_of_collect (h : Tallied n s) {k : Nat} (hk : s.parties[k]? = some (some .collect)) :
    s.countdown.waker = s.asked := by
  rcases h.phase with ⟨-, hopen⟩ | ⟨-, hdecided⟩
  · rcases hopen.party hk with hp | hp <;> cases hp
  · obtain ⟨w, hringing⟩ := hdecided.ringing hk nofun
    rw [hringing.asked]
    rcases hringing.place with ⟨hp, -⟩ | ⟨-, -, hwaker, -⟩ | ⟨hp, -⟩ | ⟨hp, -⟩
    · cases hp
    · exact hwaker
    all_goals cases hp

theorem wake (h : Tallied n s) {k : Nat} {w : ω} (hk : s.parties[k]? = some (some (.wake w))) :
    Tallied n { s with parties := s.parties.set k (some .left), wakes := s.wakes ++ [(k, w)] } := by
  refine h.ring .left hk nofun rfl rfl s.countdown rfl fun v hringing => hringing.set ?_
  rcases hringing.place with ⟨hp, -⟩ | ⟨hp, -⟩ | ⟨hp, hcomplete, hquiet⟩ | ⟨hp, -⟩
  · cases hp
  · cases hp
  · cases hp
    exact Or.inr (Or.inr (Or.inr ⟨rfl, hcomplete, by rw [hquiet]; rfl⟩))
  · cases hp

/-- The awaiter moves without counting, while nobody has come last. -/
theorem of_open (h : Tallied n s) {c : Countdown ω} {p : Party ω} {asked : Option ω}
    (hc : c.count = s.countdown.count) (hp : p.hasCounted = false) (ha : counted? s.awaiter = false)
    (hopen : s.Open → Open { s with countdown := c, awaiter := some p, asked }) :
    Tallied n { s with countdown := c, awaiter := some p, asked } := by
  refine ⟨h.length, hc.trans h.count, ?_, Or.inl ?_⟩
  · have htally := h.tally
    rw [ha] at htally
    show s.counted.length = s.parties.countP counted? + p.hasCounted.toNat
    rw [hp]
    exact htally
  · have hphase : s.counted.length ≤ n ∧ s.Open := by
      refine h.phase.resolve_right ?_
      rintro ⟨-, hdecided⟩
      rcases hdecided.awaiter with hpassing | hsuspended
      · rcases hpassing.place with ⟨hplace, -⟩ | ⟨hplace, -⟩ <;> (rw [hplace] at ha; cases ha)
      · rw [hsuspended] at ha
        cases ha
    exact ⟨hphase.1, hopen hphase.2⟩

theorem await (h : Tallied n s) (w : ω) (ha : s.awaiter = none) :
    Tallied n { s with awaiter := some (.register w), asked := some w } := by
  refine h.of_open rfl rfl (by rw [ha]; rfl) fun hopen => ?_
  exact ⟨hopen.incomplete, hopen.quiet, hopen.parties, Or.inr (Or.inl ⟨w, rfl, rfl⟩)⟩

theorem register (h : Tallied n s) {w : ω} (ha : s.awaiter = some (.register w)) :
    Tallied n { s with
      countdown := { s.countdown with waker := some w }
      awaiter := some .enlist } := by
  refine h.of_open rfl rfl (by rw [ha]; rfl) fun hopen => ?_
  refine ⟨hopen.incomplete, hopen.quiet, hopen.parties, Or.inr (Or.inr ⟨w, Or.inl rfl, ?_, rfl⟩)⟩
  rcases hopen.awaiter with ⟨hplace, -⟩ | ⟨v, hplace, hasked⟩ | ⟨v, hplace | hplace, -⟩
  all_goals rw [ha] at hplace
  · cases hplace
  · cases hplace
    exact hasked
  · cases hplace
  · cases hplace

theorem tally_awaiter (h : Tallied n s) {p : Party ω} (ha : s.awaiter = some .enlist)
    (hp : p.hasCounted = true) :
    (s.counted ++ [none]).length = s.parties.countP counted? + (counted? (some p)).toNat := by
  have htally := h.tally
  rw [ha, counted?_some] at htally
  rw [List.length_append, List.length_singleton, counted?_some, hp, htally]
  rfl

/-- The awaiter counts, and completions have still to count: it suspends. -/
theorem suspend (h : Tallied n s) (hn : n < 2 ^ 64) (ha : s.awaiter = some .enlist)
    (hmore : s.countdown.count ≠ 0) :
    Tallied n { s.tick none with awaiter := some .suspended } := by
  obtain ⟨hle, hopen⟩ := h.of_enlist ha
  have hlt := h.lt_of_count_ne_zero hn hle hmore
  refine ⟨h.length, h.count_tick _, h.tally_awaiter ha rfl, Or.inl ⟨?_, ?_⟩⟩
  · show (s.counted ++ [none]).length ≤ n
    rw [List.length_append, List.length_singleton]
    exact hlt
  · refine ⟨hopen.incomplete, hopen.quiet, hopen.parties, Or.inr (Or.inr ?_)⟩
    rcases hopen.awaiter with ⟨hplace, -⟩ | ⟨v, hplace, -⟩ | ⟨v, -, hasked, hwaker⟩
    · rw [ha] at hplace
      cases hplace
    · rw [ha] at hplace
      cases hplace
    · exact ⟨v, Or.inr rfl, hasked, hwaker⟩

/-- The awaiter counts last: all completions are done. -/
theorem win (h : Tallied n s) (hn : n < 2 ^ 64) (ha : s.awaiter = some .enlist)
    (hlast : s.countdown.count = 0) :
    Tallied n { s.tick none with awaiter := some .claim } := by
  obtain ⟨hle, hopen⟩ := h.of_enlist ha
  have hall := h.eq_of_count_eq_zero hn hle hlast
  refine ⟨h.length, h.count_tick _, h.tally_awaiter ha rfl, Or.inr ⟨?_, Or.inl ?_⟩⟩
  · show (s.counted ++ [none]).length = n + 1
    rw [List.length_append, List.length_singleton, hall]
  · exact ⟨List.getLast?_concat, h.left_of_last hopen hall ha, hopen.quiet,
      Or.inl ⟨rfl, hopen.incomplete⟩⟩

theorem claim (h : Tallied n s) (ha : s.awaiter = some .claim) :
    Tallied n { s with
      countdown := { s.countdown with complete := true }
      awaiter := some .proceeds } := by
  have htally := h.tally
  rw [ha] at htally
  refine ⟨h.length, h.count, htally, Or.inr ?_⟩
  rcases h.phase with ⟨-, hopen⟩ | ⟨hall, hdecided⟩
  · rcases hopen.awaiter with ⟨hplace, -⟩ | ⟨v, hplace, -⟩ | ⟨v, hplace | hplace, -⟩
    all_goals (rw [ha] at hplace; cases hplace)
  · rcases hdecided.awaiter with hpassing | hsuspended
    · exact ⟨hall, Or.inl ⟨hpassing.last, hpassing.left, hpassing.quiet, Or.inr ⟨rfl, rfl⟩⟩⟩
    · rw [ha] at hsuspended
      cases hsuspended

/-- Every act keeps the roll tallied. -/
theorem step (h : Tallied n s) (hn : n < 2 ^ 64) (hturn : Turns s t) : Tallied n t := by
  cases hturn with
  | enter k hk => exact h.enter hk
  | pass k hk hmore => exact h.pass hn hk hmore
  | last k hk hlast => exact h.last hn hk hlast
  | announce k hk => exact h.announce hk
  | collect k w hk hw => exact h.collect hk hw
  | leave k hk hw =>
      -- The one that came last finds a waker.
      rw [h.waker_of_collect hk] at hw
      rcases h.phase with ⟨-, hopen⟩ | ⟨-, hdecided⟩
      · rcases hopen.party hk with hp | hp <;> cases hp
      · obtain ⟨w, hringing⟩ := hdecided.ringing hk nofun
        rw [hringing.asked] at hw
        cases hw
  | wake k w hk => exact h.wake hk
  | await w ha => exact h.await w ha
  | register w ha => exact h.register ha
  | suspend ha hmore => exact h.suspend hn ha hmore
  | win ha hlast => exact h.win hn ha hlast
  | claim ha => exact h.claim ha

/-- **Every roll that acts lead to is tallied**, in whatever order the parties come. -/
theorem of_leads (hn : n < 2 ^ 64) (h : Leads Roll.step? (Roll.start n) s) : Tallied n s :=
  h.keeps (fun _ _ _ hs hstep => hs.step hn (turns_of_step? hstep)) (.start n)

/-! ### What the tally says -/

/-- An awaiter that suspends leaves a completion behind that has not counted. -/
theorem exists_uncounted (h : Tallied n s) (hn : n < 2 ^ 64) (ha : s.awaiter = some .enlist)
    (hmore : s.countdown.count ≠ 0) : ∃ (k : Nat) (p : Option (Party ω)), s.parties[k]? = some p ∧ p ≠ some .left := by
  have hlt := h.lt_of_count_ne_zero hn (h.of_enlist ha).1 hmore
  have htally := h.tally
  refine Classical.byContradiction fun hnone => ?_
  have hfull : s.parties.countP counted? = s.parties.length := by
    refine List.countP_eq_length.mpr fun p hp => ?_
    obtain ⟨k, hk⟩ := List.getElem?_of_mem hp
    have hleft : p = some .left := Classical.byContradiction fun hne => hnone ⟨k, p, hk, hne⟩
    rw [hleft]
    rfl
  rw [h.length] at hfull
  omega

/-- Complete is announced only after every completion has come. -/
theorem came_of_complete (h : Tallied n s) (hcomplete : s.countdown.complete = true) :
    ∀ p ∈ s.parties, counted? p = true := by
  rcases h.phase with ⟨-, hopen⟩ | ⟨-, hdecided⟩
  · rw [hopen.incomplete] at hcomplete
    cases hcomplete
  · intro p hp
    obtain ⟨k, hk⟩ := List.getElem?_of_mem hp
    exact hdecided.counted hk

/-- The awaiter goes on by itself only after all completions are done, and nobody wakes it. -/
theorem of_proceeds (h : Tallied n s) (ha : s.awaiter = some .proceeds) :
    s.countdown.complete = true ∧ s.wakes = [] ∧ ∀ p ∈ s.parties, p = some .left := by
  rcases h.phase with ⟨-, hopen⟩ | ⟨-, hdecided⟩
  · rcases hopen.awaiter with ⟨hplace, -⟩ | ⟨v, hplace, -⟩ | ⟨v, hplace | hplace, -⟩
    all_goals (rw [ha] at hplace; cases hplace)
  · rcases hdecided.awaiter with hpassing | hsuspended
    · rcases hpassing.place with ⟨hplace, -⟩ | ⟨-, hcomplete⟩
      · rw [ha] at hplace
        cases hplace
      · exact ⟨hcomplete, hpassing.quiet, hpassing.left⟩
    · rw [ha] at hsuspended
      cases hsuspended

/-- Whoever has woken somebody is the completion that came last, and it has woken the awaiter, once. -/
theorem of_wake (h : Tallied n s) {k : Nat} {w : ω} (hwake : (k, w) ∈ s.wakes) :
    s.wakes = [(k, w)] ∧ s.asked = some w ∧ s.awaiter = some .suspended ∧
      s.counted.getLast? = some (some k) ∧ s.countdown.complete = true ∧
      ∀ p ∈ s.parties, p = some .left := by
  rcases h.phase with ⟨-, hopen⟩ | ⟨-, hpassing | ⟨j, v, p, hringing⟩⟩
  · rw [hopen.quiet] at hwake
    cases hwake
  · rw [hpassing.quiet] at hwake
    cases hwake
  · rcases hringing.place with ⟨-, -, -, hquiet⟩ | ⟨-, -, -, hquiet⟩ | ⟨-, -, hquiet⟩ |
      ⟨rfl, hcomplete, hwakes⟩
    · rw [hquiet] at hwake
      cases hwake
    · rw [hquiet] at hwake
      cases hwake
    · rw [hquiet] at hwake
      cases hwake
    · rw [hwakes] at hwake
      obtain ⟨rfl, rfl⟩ := Prod.mk.inj (List.mem_singleton.mp hwake)
      refine ⟨hwakes, hringing.asked, hringing.awaiter, hringing.last, hcomplete, ?_⟩
      intro q hq
      obtain ⟨i, hi⟩ := List.getElem?_of_mem hq
      by_cases hik : i = k
      · rw [hik, hringing.party] at hi
        exact (Option.some.inj hi).symm
      · exact hringing.others i q hik hi

/-- A suspended awaiter has left its waker. -/
theorem asked_of_suspended (h : Tallied n s) (ha : s.awaiter = some .suspended) :
    ∃ w, s.asked = some w := by
  rcases h.phase with ⟨-, hopen⟩ | ⟨-, hpassing | ⟨k, w, p, hringing⟩⟩
  · rcases hopen.awaiter with ⟨hplace, -⟩ | ⟨w, hplace, -⟩ | ⟨w, -, hasked, -⟩
    · rw [ha] at hplace
      cases hplace
    · rw [ha] at hplace
      cases hplace
    · exact ⟨w, hasked⟩
  · rcases hpassing.place with ⟨hplace, -⟩ | ⟨hplace, -⟩
    all_goals (rw [ha] at hplace; cases hplace)
  · exact ⟨w, hringing.asked⟩

/-- Once all completions are done and the awaiter is suspended, it has been woken. -/
theorem woken_of_left (h : Tallied n s) (ha : s.awaiter = some .suspended)
    (hleft : ∀ p ∈ s.parties, p = some .left) : ∃ k w, s.wakes = [(k, w)] := by
  rcases h.phase with ⟨hle, -⟩ | ⟨-, hdecided⟩
  · have htally := h.tally
    have hfull : s.parties.countP counted? = s.parties.length :=
      List.countP_eq_length.mpr fun p hp => by rw [hleft p hp]; rfl
    rw [hfull, h.length, ha] at htally
    have hone : (counted? (some (.suspended : Party ω))).toNat = 1 := rfl
    omega
  · rcases hdecided with hpassing | ⟨k, w, p, hringing⟩
    · rcases hpassing.place with ⟨hplace, -⟩ | ⟨hplace, -⟩
      all_goals (rw [ha] at hplace; cases hplace)
    · have hp : p = .left := Option.some.inj (hleft _ (List.mem_of_getElem? hringing.party))
      subst hp
      rcases hringing.place with ⟨hp, -⟩ | ⟨hp, -⟩ | ⟨hp, -⟩ | ⟨-, -, hwakes⟩
      · cases hp
      · cases hp
      · cases hp
      · exact ⟨k, w, hwakes⟩

end Tallied

end Roll

end TaskDispatch
