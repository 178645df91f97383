import EtherCore.Proofs.Bus.LowestOrigin

/-!
The course of a search for an origin: the candidates that it passes by, the region that blocks each
of them, and how it ends.  No later candidate lies before the end of a region that was passed by
(`Course.stop_le`), so a region blocks one candidate at most.  A search ends after no more
candidates than there are regions, and never because the next candidate is not greater than the one
before it (`search_passes_once`).
-/

namespace EtherCore.AddressMap

/-! ### Courses -/

/-- A candidate that is passed by, and the region that blocks it. -/
structure Skip where
  candidate : Nat
  blocker : PlacedRegion

/-- How a search ends. -/
inductive Exit where
  /-- Nothing blocks the candidate. -/
  | found (origin : Nat)
  /-- The window of the candidate does not end on the bus. -/
  | offBus
  /-- The next candidate is not greater than the one that is blocked. -/
  | stalled

/-- The origin that a search ends with. -/
def Exit.origin? : Exit → Option Nat
  | .found origin => some origin
  | .offBus | .stalled => none

/-- The course that a search takes from a candidate on. -/
inductive Course (regions : List PlacedRegion) (space size : Nat) :
    Nat → List Skip → Exit → Prop where
  | found {c : Nat} (held : addHeld c size ≤ space) (free : blocker? regions c size = none) :
      Course regions space size c [] (.found c)
  | offBus {c : Nat} (off : space < addHeld c size) : Course regions space size c [] .offBus
  | stalled {c : Nat} {r : PlacedRegion} (held : addHeld c size ≤ space)
      (blocked : blocker? regions c size = some r) (stuck : alignUp r.stop size ≤ c) :
      Course regions space size c [] .stalled
  | skip {c : Nat} {r : PlacedRegion} {passed : List Skip} {exit : Exit}
      (held : addHeld c size ≤ space) (blocked : blocker? regions c size = some r)
      (onward : c < alignUp r.stop size)
      (rest : Course regions space size (alignUp r.stop size) passed exit) :
      Course regions space size c (⟨c, r⟩ :: passed) exit

variable {regions : List PlacedRegion} {space size c : Nat} {passed : List Skip} {exit : Exit}

/-- Every search has a course: it ends. -/
theorem exists_course (regions : List PlacedRegion) (space size c : Nat) :
    ∃ passed exit, Course regions space size c passed exit := by
  induction c using search?.induct regions space size with
  | case1 c held free => exact ⟨[], _, .found held free⟩
  | case2 c held r blocked next stuck => exact ⟨[], _, .stalled held blocked stuck⟩
  | case3 c held r blocked next onward ih =>
    obtain ⟨passed, exit, rest⟩ := ih
    exact ⟨⟨c, r⟩ :: passed, exit, .skip held blocked (Nat.lt_of_not_le onward) rest⟩
  | case4 c off => exact ⟨[], _, .offBus (Nat.lt_of_not_le off)⟩

/-- What a search gives is what its course ends with. -/
theorem Course.search?_eq (h : Course regions space size c passed exit) :
    search? regions space size c = exit.origin? := by
  induction h with
  | found held free =>
    rw [search?, if_pos held, free]
    rfl
  | offBus off =>
    rw [search?, if_neg (Nat.not_le.2 off)]
    rfl
  | stalled held blocked stuck =>
    rw [search?, if_pos held, blocked]
    exact if_pos stuck
  | skip held blocked onward rest ih =>
    rw [search?, if_pos held, blocked]
    dsimp only
    rw [if_neg (Nat.not_le.2 onward), ih]

/-! ### Regions that are passed by -/

/-- Behind a region there is always a greater candidate. -/
theorem Course.not_stalled (hsize : 0 < size) (h : Course regions space size c passed exit) :
    exit ≠ .stalled := by
  induction h with
  | found | offBus => exact Exit.noConfusion
  | stalled held blocked stuck => exact absurd (lt_next hsize blocked) (Nat.not_lt.2 stuck)
  | skip held blocked onward rest ih => exact ih

theorem Course.blocked (h : Course regions space size c passed exit) {s : Skip} (hs : s ∈ passed) :
    blocker? regions s.candidate size = some s.blocker := by
  induction h with
  | found | offBus | stalled => cases hs
  | skip held blocked onward rest ih =>
    rcases List.mem_cons.1 hs with rfl | hs
    · exact blocked
    · exact ih hs

theorem Course.le_candidate (h : Course regions space size c passed exit) {s : Skip}
    (hs : s ∈ passed) : c ≤ s.candidate := by
  induction h with
  | found | offBus | stalled => cases hs
  | skip held blocked onward rest ih =>
    rcases List.mem_cons.1 hs with rfl | hs
    · exact Nat.le_refl _
    · exact Nat.le_trans (Nat.le_of_lt onward) (ih hs)

/-- A region that was passed by stops at every later candidate or before it. -/
theorem Course.stop_le (hsize : 0 < size) (h : Course regions space size c passed exit) :
    passed.Pairwise fun s t => s.blocker.stop ≤ t.candidate := by
  induction h with
  | found | offBus | stalled => exact List.Pairwise.nil
  | @skip c r passed exit held blocked onward rest ih =>
    refine List.pairwise_cons.2 ⟨fun t ht => ?_, ih⟩
    have hnext : r.stop ≤ alignUp r.stop size := le_alignUp hsize (addHeld_le_maxWord ..)
    exact Nat.le_trans hnext (rest.le_candidate ht)

/-- No region blocks two candidates. -/
theorem Course.nodup_blockers (hsize : 0 < size) (h : Course regions space size c passed exit) :
    (passed.map (·.blocker)).Nodup := by
  rw [List.Nodup, List.pairwise_map]
  refine (h.stop_le hsize).imp_of_mem fun {s t} _ ht hstop heq => ?_
  -- a region stops behind each candidate that it blocks
  have hblocks : t.candidate < t.blocker.stop := (lt_stop_of_blocker? (h.blocked ht)).1
  rw [← heq] at hblocks
  exact Nat.not_lt.2 hstop hblocks

theorem Course.length_le (hsize : 0 < size) (h : Course regions space size c passed exit) :
    passed.length ≤ regions.length := by
  have hsubset : passed.map (·.blocker) ⊆ regions := by
    intro r hr
    obtain ⟨s, hs, rfl⟩ := List.mem_map.1 hr
    exact List.mem_of_find?_eq_some (h.blocked hs)
  have hle := (h.nodup_blockers hsize).length_le_of_subset hsubset
  rwa [List.length_map] at hle

/-- On a bus of any width and among any regions, the search for an origin ends, with an origin that
it finds or with a window that does not end on the bus.  It passes by no more candidates than there
are regions, and no region blocks two of them. -/
theorem search_passes_once (m : AddressMap) {size : Nat} (hsize : 0 < size) :
    (∃ passed exit, Course m.regions m.space size 0 passed exit) ∧
      ∀ passed exit, Course m.regions m.space size 0 passed exit →
        search? m.regions m.space size 0 = exit.origin? ∧ exit ≠ .stalled ∧
          passed.length ≤ m.regions.length ∧ (passed.map (·.blocker)).Nodup := by
  refine ⟨exists_course .., fun passed exit h => ⟨h.search?_eq, ?_, ?_, ?_⟩⟩
  · exact h.not_stalled hsize
  · exact h.length_le hsize
  · exact h.nodup_blockers hsize

/-- On a bus of more than 64 bits, among regions that meet, a search that passes two of three
regions by: behind the second one both its end and the next multiple are held to a word. -/
theorem search_passes_once_last_word :
    let high : PlacedRegion := ⟨"high", 0x8000000000000000, 0x4000000000000001, false⟩
    let low : PlacedRegion := ⟨"low", 0, 0x8000000000000000, true⟩
    let inner : PlacedRegion := ⟨"inner", 0x1000, 1, false⟩
    let m : AddressMap := ⟨70, [high, low, inner]⟩
    0 < 0x8000000000000000 ∧
      Course m.regions m.space 0x8000000000000000 0 [⟨0, low⟩, ⟨0x8000000000000000, high⟩]
        (.found maxWord) ∧
      search? m.regions m.space 0x8000000000000000 0 = some maxWord ∧ [low, high].Nodup := by
  intro high low inner m
  have hlow : blocker? m.regions 0 0x8000000000000000 = some low := by decide +kernel
  have hhigh : blocker? m.regions 0x8000000000000000 0x8000000000000000 = some high := by
    decide +kernel
  have hfree : blocker? m.regions maxWord 0x8000000000000000 = none := by decide +kernel
  have hcourse : Course m.regions m.space 0x8000000000000000 0
      [⟨0, low⟩, ⟨0x8000000000000000, high⟩] (.found maxWord) := by
    have hbehindLow : alignUp low.stop 0x8000000000000000 = 0x8000000000000000 := by
      decide +kernel
    have hbehindHigh : alignUp high.stop 0x8000000000000000 = maxWord := by decide +kernel
    refine .skip (by decide +kernel) hlow (by decide +kernel) ?_
    rw [hbehindLow]
    refine .skip (by decide +kernel) hhigh (by decide +kernel) ?_
    rw [hbehindHigh]
    exact .found (by decide +kernel) hfree
  obtain ⟨hfound, -, -, hnodup⟩ := (search_passes_once m (by decide)).2 _ _ hcourse
  exact ⟨by decide, hcourse, hfound, hnodup⟩

end EtherCore.AddressMap
