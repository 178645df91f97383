import EtherCore.Proofs.Netlist.Declared
import EtherCore.Proofs.Netlist.Parts

/-!
The ports of a component after any additions.  A port that is added takes the place of the port of
its name, and the last place if there is none.  So the names of the ports are distinct and in the
order in which they were first added, and each port is the last one that was added under its name
(`Kept.putPort`, `kept_addPorts`); nothing else of the component changes (`addPorts_bare`).
-/

namespace EtherCore.Component

/-! ### One addition -/

variable {port p : Signal} {ps added : List Signal}

/-- A port of a name that is there takes the place of a port of this name. -/
theorem putPort_of_mem (h : port.name ∈ ps.map (·.name)) :
    ∃ before p after, ps = before ++ p :: after ∧ p.name = port.name ∧
      putPort port ps = before ++ port :: after := by
  induction ps with
  | nil => cases h
  | cons p ps ih =>
    rw [putPort]
    by_cases hp : p.name = port.name
    · exact ⟨[], p, ps, rfl, hp, if_pos hp⟩
    · rw [List.map_cons, List.mem_cons] at h
      obtain ⟨before, q, after, hps, hq, hput⟩ := ih (h.resolve_left (Ne.symm hp))
      refine ⟨p :: before, q, after, ?_, hq, ?_⟩
      · rw [hps, List.cons_append]
      · rw [if_neg hp, hput, List.cons_append]

theorem names_putPort_of_mem (h : port.name ∈ ps.map (·.name)) :
    (putPort port ps).map (·.name) = ps.map (·.name) := by
  obtain ⟨before, p, after, rfl, hp, hput⟩ := putPort_of_mem h
  rw [hput, List.map_append, List.map_append, List.map_cons, List.map_cons, hp]

theorem mem_putPort_iff (hps : (ps.map (·.name)).Nodup) :
    p ∈ putPort port ps ↔ p = port ∨ p ∈ ps ∧ p.name ≠ port.name := by
  by_cases h : port.name ∈ ps.map (·.name)
  · obtain ⟨before, q, after, rfl, hq, hput⟩ := putPort_of_mem h
    -- no port but the one that is replaced has the name
    have hothers : ∀ x, x ∈ before ∨ x ∈ after → x.name ≠ port.name := by
      rw [List.map_append, List.map_cons, List.nodup_middle, List.nodup_cons, ← List.map_append,
        hq] at hps
      exact fun x hx hname => hps.1 (hname ▸ List.mem_map_of_mem (List.mem_append.2 hx))
    rw [hput, List.mem_append, List.mem_cons, List.mem_append, List.mem_cons]
    constructor
    · rintro (hp | rfl | hp)
      · exact Or.inr ⟨Or.inl hp, hothers p (Or.inl hp)⟩
      · exact Or.inl rfl
      · exact Or.inr ⟨Or.inr (Or.inr hp), hothers p (Or.inr hp)⟩
    · rintro (rfl | ⟨hp | rfl | hp, hne⟩)
      · exact Or.inr (Or.inl rfl)
      · exact Or.inl hp
      · exact absurd hq hne
      · exact Or.inr (Or.inr hp)
  · have hothers : ∀ x ∈ ps, x.name ≠ port.name := fun x hx hname =>
      h (hname ▸ List.mem_map_of_mem hx)
    rw [putPort_of_notMem h, List.mem_append, List.mem_singleton, or_comm]
    exact or_congr_right ⟨fun hp => ⟨hp, hothers p hp⟩, And.left⟩

/-! ### Several additions -/

/-- A port is the last one of its name among those that were added. -/
def Last (added : List Signal) (p : Signal) : Prop :=
  ∃ before after, added = before ++ p :: after ∧ ∀ q ∈ after, q.name ≠ p.name

theorem not_last_nil : ¬ Last [] p := by
  rintro ⟨before, after, h, -⟩
  simp at h

theorem last_concat_iff :
    Last (added ++ [port]) p ↔ p = port ∨ Last added p ∧ p.name ≠ port.name := by
  constructor
  · rintro ⟨before, after, hadded, hafter⟩
    rcases List.eq_nil_or_concat' after with rfl | ⟨after, q, rfl⟩
    · exact Or.inl (List.singleton_inj.1 (List.append_inj_right' hadded rfl)).symm
    · rw [← List.cons_append, ← List.append_assoc] at hadded
      obtain ⟨rfl, hq⟩ := List.append_inj' hadded rfl
      obtain rfl : port = q := List.singleton_inj.1 hq
      refine Or.inr ⟨⟨before, after, rfl, fun x hx => hafter x (List.mem_append_left _ hx)⟩, ?_⟩
      exact (hafter port (by simp)).symm
  · rintro (rfl | ⟨⟨before, after, rfl, hafter⟩, hne⟩)
    · exact ⟨added, [], rfl, by simp⟩
    · exact ⟨before, after ++ [port], by simp, forall_mem_concat hafter hne.symm⟩

/-- What additions leave where there was no port: one port of each name, in the order in which the
names were first added, and it is the last one of its name. -/
structure Kept (added ports : List Signal) : Prop where
  nodup : (ports.map (·.name)).Nodup
  names : ports.map (·.name) = (added.map (·.name)).eraseDups
  last : ∀ p, p ∈ ports ↔ Last added p

theorem kept_nil : Kept [] [] where
  nodup := List.nodup_nil
  names := rfl
  last := fun _ => iff_of_false List.not_mem_nil not_last_nil

theorem Kept.putPort (h : Kept added ps) (port : Signal) :
    Kept (added ++ [port]) (putPort port ps) := by
  have hlast : ∀ p, p ∈ Component.putPort port ps ↔ Last (added ++ [port]) p := fun p => by
    rw [mem_putPort_iff h.nodup, last_concat_iff, h.last]
  have hadded : port.name ∈ ps.map (·.name) ↔ port.name ∈ added.map (·.name) := by
    rw [h.names, List.mem_eraseDups]
  by_cases hmem : port.name ∈ ps.map (·.name)
  · -- the name was used before, so neither the names nor their order change
    refine ⟨?_, ?_, hlast⟩
    · rw [names_putPort_of_mem hmem]
      exact h.nodup
    · rw [names_putPort_of_mem hmem, h.names, List.map_append, List.map_singleton,
        eraseDups_concat_of_mem (hadded.1 hmem)]
  · have hnew : port.name ∉ added.map (·.name) := mt hadded.2 hmem
    have hput : Component.putPort port ps = ps ++ [port] := putPort_of_notMem hmem
    refine ⟨?_, ?_, hlast⟩
    · rw [hput]
      exact nodup_map_concat h.nodup hmem
    · rw [hput, List.map_append, h.names, List.map_append, List.map_singleton,
        eraseDups_concat_of_notMem hnew]

theorem kept_addPorts {c : Component} (hc : c.ports = []) (added : List Signal) :
    Kept added (c.addPorts added).ports := by
  induction added using List.reverseRecOn with
  | nil =>
    show Kept [] c.ports
    rw [hc]
    exact kept_nil
  | append_singleton added port ih =>
    rw [addPorts, List.foldl_append]
    exact ih.putPort port

/-- A component that is made without ports and is given any ports, one after the other, keeps one
port of each name, in the order in which the names were first given, and it is the last one that
was given under its name.  Nothing but the ports is changed. -/
theorem addPorts_bare (name : String) (kind : ComponentKind) (added : List Signal) :
    let c := (bare name kind).addPorts added
    Kept added c.ports ∧ c = { bare name kind with ports := c.ports } := by
  intro c
  have hpart : c.part = (bare name kind).part := part_addPorts ..
  exact ⟨kept_addPorts rfl added, congrArg (fun d : Component => { d with ports := c.ports }) hpart⟩

/-- A port that is given for the second time, with another width and direction, keeps its place. -/
example : ((bare "udp_port" .udpPort).addPorts [⟨"sink_data", 8, .input⟩, ⟨"sink_valid", 1, .input⟩,
    ⟨"sink_data", 32, .output⟩]).ports = [⟨"sink_data", 32, .output⟩, ⟨"sink_valid", 1, .input⟩] := by
  decide

end EtherCore.Component
