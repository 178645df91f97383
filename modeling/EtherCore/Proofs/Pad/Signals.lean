import EtherCore.Pad.Basic
import Mathlib.Data.List.Nodup

/-!
Signals of a bundle under their names.  The signal that is found is the first one of the name
(`Bundle.signal?_eq_some_iff`), so that it stays the same when more signals follow
(`Bundle.First.append`), and where all names are distinct also in any other order
(`Bundle.first_withSignals_iff`).
-/

namespace EtherCore.Bundle

/-- A signal of a bundle has a name, and none in front of it has this name. -/
def First (b : Bundle) (name : String) (s : Signal) : Prop :=
  ∃ before after, b.signals = before ++ s :: after ∧ s.name = name ∧ ∀ t ∈ before, t.name ≠ name

/-- The bundle with other signals. -/
def withSignals (b : Bundle) (signals : List Signal) : Bundle := { b with signals := signals }

variable {b : Bundle} {name : String} {s : Signal}

theorem signal?_eq_some_iff : b.signal? name = some s ↔ b.First name s := by
  unfold signal? First
  rw [List.find?_eq_some_iff_append]
  simp only [decide_eq_true_eq, Bool.not_eq_eq_eq_not, Bool.not_true, decide_eq_false_iff_not]
  constructor
  · rintro ⟨hname, before, after, hsignals, hbefore⟩
    exact ⟨before, after, hsignals, hname, hbefore⟩
  · rintro ⟨before, after, hsignals, hname, hbefore⟩
    exact ⟨hname, before, after, hsignals, hbefore⟩

theorem width?_eq_some_iff {w : UInt32} :
    b.width? name = some w ↔ ∃ s, b.First name s ∧ s.width = w := by
  rw [width?, Option.map_eq_some_iff]
  constructor
  · rintro ⟨s, hs, hw⟩
    exact ⟨s, signal?_eq_some_iff.1 hs, hw⟩
  · rintro ⟨s, hs, hw⟩
    exact ⟨s, signal?_eq_some_iff.2 hs, hw⟩

theorem isSome_width? (b : Bundle) (name : String) : (b.width? name).isSome = b.has name := by
  rw [width?, Option.isSome_map, has]

theorem First.append (h : b.First name s) (more : List Signal) :
    (b.withSignals (b.signals ++ more)).First name s := by
  obtain ⟨before, after, hsignals, hname, hbefore⟩ := h
  refine ⟨before, after ++ more, ?_, hname, hbefore⟩
  show b.signals ++ more = _
  rw [hsignals, List.append_assoc, List.cons_append]

/-- Among distinct names the only signal of a name is the first one. -/
theorem first_iff_mem (hb : (b.signals.map (·.name)).Nodup) :
    b.First name s ↔ s ∈ b.signals ∧ s.name = name := by
  constructor
  · rintro ⟨before, after, hsignals, hname, -⟩
    rw [hsignals]
    exact ⟨by simp, hname⟩
  · rintro ⟨hs, hname⟩
    obtain ⟨before, after, hsignals⟩ := List.append_of_mem hs
    refine ⟨before, after, hsignals, hname, fun t ht heq => ?_⟩
    rw [hsignals, List.map_append, List.nodup_append] at hb
    have hmem : s.name ∈ (s :: after).map (·.name) := by simp
    exact hb.2.2 t.name (List.mem_map_of_mem ht) s.name hmem (heq.trans hname.symm)

theorem width?_of_mem (hb : (b.signals.map (·.name)).Nodup) (hs : s ∈ b.signals) :
    b.width? s.name = some s.width :=
  width?_eq_some_iff.2 ⟨s, (first_iff_mem hb).2 ⟨hs, rfl⟩, rfl⟩

theorem first_withSignals_iff (hb : (b.signals.map (·.name)).Nodup) {signals : List Signal}
    (h : signals.Perm b.signals) : (b.withSignals signals).First name s ↔ b.First name s := by
  have hnodup : ((b.withSignals signals).signals.map (·.name)).Nodup := (h.map _).nodup_iff.2 hb
  rw [first_iff_mem hnodup, first_iff_mem hb]
  exact and_congr_left fun _ => h.mem_iff

end EtherCore.Bundle
