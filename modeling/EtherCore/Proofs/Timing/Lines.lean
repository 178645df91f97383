import EtherCore.Proofs.Text.Split
import EtherCore.Timing.Format

/-!
The lines of constraint files.  Numbers hold no line feeds, so a file has exactly the lines that it
is put together from if the nets of its clocks hold none (`lines_render`).  These are the lines that
the toolchain reads, if no period is zero (`written_lines`).
-/

namespace EtherCore

/-! ### Numbers -/

namespace Binary64

theorem lineFeed_notMem_digits (n : Nat) : '\n' ∉ Nat.toDigits 10 n := by
  intro h
  have hdigit := Nat.isDigit_of_mem_toDigits (by decide) (by decide) h
  revert hdigit
  decide

theorem oneLine_positional (d : Nat) (p : Int) : Text.OneLine (positional d p) := by
  have hdigits := lineFeed_notMem_digits d
  have hpadded (width : Nat) : '\n' ∉ Text.padLeft width '0' (Nat.toDigits 10 d) := by
    unfold Text.padLeft
    simp [hdigits]
  unfold Text.OneLine positional
  by_cases hp : 0 ≤ p
  · simp [hp, hdigits]
  · simp only [if_neg hp, String.toList_ofList, List.mem_append, List.mem_cons]
    rintro (h | h | h)
    · exact hpadded _ (List.mem_of_mem_take h)
    · revert h
      decide
    · exact hpadded _ (List.mem_of_mem_drop h)

theorem oneLine_fixed (places : Nat) (x : Binary64) :
    Text.OneLine (x.fixed Frequency.style places) := by
  have hsign (s : Bool) : Text.OneLine (signText s) := by
    cases s <;> decide
  cases x with
  | finite s m e h => exact (hsign s).append (oneLine_positional _ _)
  | infinite s => exact (hsign s).append (by decide)
  | nan => exact (by decide : Text.OneLine "NaN")

end Binary64

/-! ### Files -/

/-- The nets of the clocks in a set of constraints hold no line feeds. -/
structure ConstraintSet.OneLine (s : ConstraintSet) : Prop where
  periods : ∀ p ∈ s.periods, Text.OneLine p.clock
  paths : ∀ p ∈ s.falsePaths, Text.OneLine p.source ∧ Text.OneLine p.target

namespace ConstraintFormat

variable (f : ConstraintFormat)

theorem oneLine_periodLine {p : Period} (h : Text.OneLine p.clock) :
    Text.OneLine (f.periodLine p) := by
  have hns := Binary64.oneLine_fixed 3 p.nanoseconds
  have hmhz := Binary64.oneLine_fixed 6 p.megahertz
  cases f with
  | xdc | sdc =>
    exact ((((Text.OneLine.append (by decide) h).append (by decide)).append hns).append
      (by decide)).append h |>.append (by decide)
  | lpf =>
    exact (((Text.OneLine.append (by decide) h).append (by decide)).append hmhz).append (by decide)

theorem oneLine_pathLine {source target : String} (hs : Text.OneLine source)
    (ht : Text.OneLine target) : Text.OneLine (f.pathLine source target) := by
  cases f <;>
    exact (((Text.OneLine.append (by decide) hs).append (by decide)).append ht).append (by decide)

theorem oneLine_of_mem_lines {s : ConstraintSet} (h : s.OneLine) :
    ∀ l ∈ f.lines s, Text.OneLine l := by
  unfold lines
  split
  · simp
  · simp only [List.cons_append, List.forall_mem_cons, List.forall_mem_append, List.forall_mem_map,
      List.forall_mem_flatMap, List.not_mem_nil, false_implies, implies_true, and_true]
    refine ⟨by decide, fun p hp => f.oneLine_periodLine (h.periods p hp), fun p hp => ?_⟩
    obtain ⟨hs, ht⟩ := h.paths p hp
    exact ⟨f.oneLine_pathLine hs ht, f.oneLine_pathLine ht hs⟩

/-- The lines of a file are those that it is put together from. -/
theorem lines_render {s : ConstraintSet} (h : s.OneLine) : Text.lines (f.render s) = f.lines s :=
  Text.lines_join (f.oneLine_of_mem_lines h)

theorem render_eq_empty_iff (s : ConstraintSet) : f.render s = "" ↔ s.isEmpty = true := by
  unfold render lines
  constructor
  · intro h
    by_contra hs
    rw [if_neg hs, List.cons_append, List.map_cons, String.join_cons] at h
    exact absurd (congrArg String.toList h) (by simp)
  · intro hs
    rw [if_pos hs]
    rfl

end ConstraintFormat

/-! ### What toolchains read -/

namespace ConstraintSet

variable {s : ConstraintSet}

/-- A header, a line for each period, and for each false path a line in either direction. -/
def fileLines (s : ConstraintSet) (clock : Period → String) (path : String → String → String) :
    List String :=
  "# Ethernet core timing constraints" :: s.periods.map clock ++
    s.falsePaths.flatMap fun p => [path p.source p.target, path p.target p.source]

/-- The lines are the constraints as a toolchain reads them: in XDC for Vivado and Symbiflow, in LPF
for Diamond, in SDC for Trellis and Radiant.  A clock has its period in nanoseconds in XDC and SDC,
and its frequency in megahertz in LPF; the false paths of XDC alone are quiet. -/
structure Written (s : ConstraintSet) (t : Toolchain) (lines : List String) : Prop where
  xdc : t = .vivado ∨ t = .symbiflow → lines = s.fileLines
    (fun p => "create_clock -name " ++ p.clock ++ " -period "
      ++ p.nanoseconds.fixed Frequency.style 3 ++ " [get_nets " ++ p.clock ++ "]")
    fun source target =>
      "set_false_path -quiet -from [get_clocks " ++ source ++ "] -to [get_clocks " ++ target ++ "]"
  lpf : t = .diamond → lines = s.fileLines
    (fun p => "FREQUENCY NET \"" ++ p.clock ++ "\" "
      ++ ((Binary64.ofNat 1000).div p.nanoseconds).fixed Frequency.style 6 ++ " MHz;")
    fun source target =>
      "BLOCK PATH FROM CLKNET \"" ++ source ++ "\" TO CLKNET \"" ++ target ++ "\";"
  sdc : t = .trellis ∨ t = .radiant → lines = s.fileLines
    (fun p => "create_clock -name " ++ p.clock ++ " -period "
      ++ p.nanoseconds.fixed Frequency.style 3 ++ " [get_nets " ++ p.clock ++ "]")
    fun source target =>
      "set_false_path -from [get_clocks " ++ source ++ "] -to [get_clocks " ++ target ++ "]"

theorem fileLines_congr {clock clock' : Period → String} {path : String → String → String}
    (h : ∀ p ∈ s.periods, clock p = clock' p) : s.fileLines clock path = s.fileLines clock' path := by
  rw [fileLines, fileLines, List.map_congr_left h]

theorem lines_eq_fileLines (f : ConstraintFormat) (hs : ¬ s.isEmpty = true) :
    f.lines s = s.fileLines f.periodLine f.pathLine := by
  rw [ConstraintFormat.lines, if_neg hs, fileLines]

/-- In the dialect of a toolchain the constraints are what it reads.  LPF would write a period of
zero as a frequency of zero. -/
theorem written_lines (t : Toolchain) (hs : ¬ s.isEmpty = true)
    (hpos : ∀ p ∈ s.periods, (Binary64.ofNat 0).lt p.nanoseconds = true) :
    s.Written t ((ConstraintFormat.ofToolchain t).lines s) := by
  refine ⟨?_, ?_, ?_⟩
  · rintro (rfl | rfl) <;> exact lines_eq_fileLines .xdc hs
  · rintro rfl
    rw [ConstraintFormat.ofToolchain, lines_eq_fileLines .lpf hs]
    refine fileLines_congr fun p hp => ?_
    have hmegahertz : p.megahertz = (Binary64.ofNat 1000).div p.nanoseconds := if_pos (hpos p hp)
    rw [← hmegahertz]
    rfl
  · rintro (rfl | rfl) <;> exact lines_eq_fileLines .sdc hs

end ConstraintSet

end EtherCore
