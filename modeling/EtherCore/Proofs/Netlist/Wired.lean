import EtherCore.Proofs.Netlist.Joints
import EtherCore.Proofs.Netlist.Names
import EtherCore.Proofs.Outcome

/-!
Netlists whose connections and loose joints together meet what every node asks for.  A component is
added with its joints loose (`Wired.addComponent`), and connections take joints from the loose ones:
a single connection (`Wired.connect`), the connections to a pad that is added
(`Wired.connectBundle`), and those of a stream (`Wired.wireStream`).
-/

namespace EtherCore.Netlist

/-! ### Nodes -/

theorem padAt?_eq_some_iff {n : Netlist} {i : Nat} {b : Bundle} :
    n.padAt? i = some b ↔ n.nodes[i]? = some (.pad b) := by
  unfold padAt?
  rcases n.nodes[i]? with - | (c | b') <;> simp [Node.pad?]

theorem componentAt?_eq_some_iff {n : Netlist} {i : Nat} {c : Component} :
    n.componentAt? i = some c ↔ n.nodes[i]? = some (.component c) := by
  unfold componentAt?
  rcases n.nodes[i]? with - | (c' | b) <;> simp [Node.component?]

/-- A number is that of a component. -/
def IsComponent (n : Netlist) (i : Nat) : Prop := ∃ c, n.nodes[i]? = some (.component c)

theorem IsComponent.append {n : Netlist} {i : Nat} (h : n.IsComponent i) (nodes : List Node)
    (edges : List Edge) : IsComponent ⟨n.nodes ++ nodes, edges⟩ i := by
  obtain ⟨c, hc⟩ := h
  obtain ⟨hi, -⟩ := List.getElem?_eq_some_iff.1 hc
  exact ⟨c, by rw [List.getElem?_append_left hi, hc]⟩

theorem IsComponent.updateComponent {n : Netlist} {i : Nat} (h : n.IsComponent i) (k : Nat)
    (f : Component → Component) : (n.updateComponent k f).IsComponent i := by
  obtain ⟨c, hc⟩ := h
  by_cases hk : k = i
  · exact ⟨f c, by simp [Netlist.updateComponent, hc, hk]⟩
  · exact ⟨c, by simp [Netlist.updateComponent, hc, hk]⟩

/-- A stream is wired exactly between a component and a pad that has the signals of its fields. -/
theorem wireStream_eq_ok_iff {n n' : Netlist} {component pad k : Nat} {endpoint : String}
    {d : StreamDirection} {fields : List StreamField} :
    n.wireStream component endpoint pad d fields = .ok (k, n') ↔
      ∃ b c wired, n.padAt? pad = some b ∧ n.componentAt? component = some c ∧
        WiredField.ofFields b d fields = .ok wired ∧ k = wired.length ∧
        n' = { n.updateComponent component fun c =>
            c.addPorts (wired.map (WiredField.port endpoint)) with
          edges := n.edges ++ wired.map (WiredField.edge component pad b endpoint) } := by
  constructor
  · intro h
    unfold wireStream at h
    split at h
    · cases h
    · next b hb =>
      split at h
      · cases h
      · next wired hw =>
        split at h
        · cases h
        · next c hc =>
          cases h
          exact ⟨b, c, wired, hb, hc, hw, rfl, rfl⟩
  · rintro ⟨b, c, wired, hb, hc, hw, rfl, rfl⟩
    simp only [wireStream, hb, hw, hc]
    rfl

/-! ### The pads of a netlist -/

theorem pads_append_component (n : Netlist) (c : Component) (edges : List Edge) :
    pads ⟨n.nodes ++ [.component c], edges⟩ = n.pads := by
  simp [pads, Node.pad?]

theorem pads_append_pad (n : Netlist) (b : Bundle) (edges : List Edge) :
    pads ⟨n.nodes ++ [.pad b], edges⟩ = n.pads ++ [b] := by
  simp [pads, Node.pad?]

theorem pads_updateComponent (n : Netlist) (i : Nat) (f : Component → Component) :
    (n.updateComponent i f).pads = n.pads := by
  unfold updateComponent pads
  induction n.nodes generalizing i with
  | nil => simp
  | cons x xs ih =>
    cases i with
    | zero => cases x <;> rfl
    | succ i => simp only [List.modify_succ_cons, List.filterMap_cons, ih]

theorem pads_connectBundle {n n' : Netlist} {c p k : Nat} {lead : String}
    (h : n.connectBundle c p lead = .ok (k, n')) : n'.pads = n.pads := by
  unfold Netlist.connectBundle at h
  split at h
  · cases h
  · cases h
    rfl

theorem pads_wireStream {n n' : Netlist} {c p k : Nat} {endpoint : String} {d : StreamDirection}
    {fields : List StreamField} (h : n.wireStream c endpoint p d fields = .ok (k, n')) :
    n'.pads = n.pads := by
  obtain ⟨b, x, wired, -, -, -, -, rfl⟩ := wireStream_eq_ok_iff.1 h
  exact pads_updateComponent n c _

/-! ### Wired netlists -/

/-- The connections and the loose joints meet what the nodes ask for.  Only components have loose
joints, and every connection has a component at one of its ends. -/
structure Wired (n : Netlist) (loose : Multiset (Nat × Joint)) : Prop where
  covers : Covers n.nodes (n.joints + loose)
  ofComponent : ∀ x ∈ loose, n.IsComponent x.1
  bridges : ∀ e ∈ n.edges, n.IsComponent e.driver ∨ n.IsComponent e.receiver

theorem wired_empty : empty.Wired 0 :=
  ⟨⟨List.nodup_nil, fun _ h => absurd h (Multiset.notMem_zero _), List.nodup_nil,
    fun _ _ h => by cases h⟩, fun _ h => absurd h (Multiset.notMem_zero _), fun _ h => by cases h⟩

theorem Wired.addComponent {n n' : Netlist} {loose : Multiset (Nat × Joint)} (h : n.Wired loose)
    {c : Component} {i : Nat} (hadd : n.addComponent c = .ok (i, n')) {js : List Joint}
    (hjs : c.joints ⊆ js) (hports : (js.map Joint.port).Nodup) :
    n'.Wired (loose + atNode i js) := by
  obtain ⟨rfl, rfl, hname⟩ := add_eq_ok hadd
  refine ⟨?_, fun x hx => ?_, fun e he => ?_⟩
  · have := h.covers.concat (x := .component c) (node?_eq_none_iff.1 hname) hjs hports
    rwa [add_assoc] at this
  · rcases Multiset.mem_add.1 hx with hx | hx
    · exact (h.ofComponent x hx).append _ _
    · exact ⟨c, by rw [(mem_atNode.1 hx).1, List.getElem?_concat_length]⟩
  · exact (h.bridges e he).imp (fun h => h.append _ _) fun h => h.append _ _

theorem Wired.connect {n : Netlist} {rest : Multiset (Nat × Joint)} {driver receiver : Nat}
    {c : Connection}
    (h : n.Wired ((Edge.joints ⟨driver, receiver, c⟩ : List (Nat × Joint)) + rest)) :
    (n.connect driver receiver c).Wired rest := by
  refine ⟨?_, fun x hx => h.ofComponent x (Multiset.mem_add.2 (Or.inr hx)), fun e he => ?_⟩
  · have := h.covers
    rw [← add_assoc] at this
    rw [Netlist.connect, joints_append]
    simpa using this
  · rcases List.mem_append.1 he with he | he
    · exact h.bridges e he
    · obtain rfl := List.mem_singleton.1 he
      exact Or.inl (h.ofComponent (driver, ⟨c.source, c.width, true⟩)
        (Multiset.mem_add.2 (Or.inl (by simp [Edge.joints]))))

/-! ### Pads -/

section Attach

variable {α : Type} {xs : List α} {edge : α → Edge} {inner outer : α → Joint} {c p : Nat}

theorem joints_edges
    (hedge : ∀ x, (edge x).joints.Perm [(c, inner x), (p, outer x)]) :
    ((xs.map edge).flatMap Edge.joints : Multiset (Nat × Joint))
      = atNode c (xs.map inner) + atNode p (xs.map outer) := by
  induction xs with
  | nil => rfl
  | cons x xs ih =>
    have hx : ((edge x).joints : Multiset (Nat × Joint)) = {(c, inner x)} + {(p, outer x)} :=
      Multiset.coe_eq_coe.2 (hedge x)
    rw [List.map_cons, List.flatMap_cons, ← Multiset.coe_add, ih, hx, List.map_cons, List.map_cons,
      atNode_cons c, atNode_cons p]
    show atNode c [inner x] + atNode p [outer x] + _ = _
    abel

/-- A pad is added together with connections that take its joints and loose joints of one
component. -/
theorem Wired.attach {n : Netlist} {rest : Multiset (Nat × Joint)} {b : Bundle}
    (h : n.Wired (atNode c (xs.map inner) + rest)) (hname : n.node? b.stem = none)
    (hports : (b.joints.map Joint.port).Nodup)
    (hedge : ∀ x, (edge x).joints.Perm [(c, inner x), (n.nodes.length, outer x)])
    (houter : (xs.map outer).Perm b.joints) :
    Wired ⟨n.nodes ++ [.pad b], n.edges ++ xs.map edge⟩ rest := by
  refine ⟨?_, fun x hx => ?_, fun e he => ?_⟩
  · have := h.covers.concat (x := .pad b) (node?_eq_none_iff.1 hname) (List.Subset.refl _) hports
    rw [joints_append, joints_edges hedge, atNode_perm houter]
    convert this using 1
    show _ = _ + atNode _ b.joints
    abel
  · exact (h.ofComponent x (Multiset.mem_add.2 (Or.inr hx))).append _ _
  · rcases List.mem_append.1 he with he | he
    · exact (h.bridges e he).imp (fun h => h.append _ _) fun h => h.append _ _
    · obtain ⟨x, hx, rfl⟩ := List.mem_map.1 he
      have hc : n.IsComponent c := h.ofComponent (c, inner x)
        (Multiset.mem_add.2 (Or.inl (mem_atNode.2 ⟨rfl, List.mem_map_of_mem hx⟩)))
      have hmem : (c, inner x) ∈ (edge x).joints := (hedge x).mem_iff.2 List.mem_cons_self
      rcases List.mem_cons.1 hmem with hd | hr
      · exact Or.inl ((Prod.mk.inj hd).1 ▸ hc.append _ _)
      · exact Or.inr ((Prod.mk.inj (List.mem_singleton.1 hr)).1 ▸ hc.append _ _)

end Attach

theorem joints_bundleEdge (c p : Nat) (b : Bundle) (lead : String) (s : Signal) :
    (bundleEdge c p b lead s).joints.Perm [(c, b.innerJoint lead s), (p, b.joint s)] := by
  unfold bundleEdge Bundle.innerJoint Bundle.joint
  cases s.direction
  · exact List.Perm.swap _ _ _
  · exact List.Perm.refl _
  · exact List.Perm.refl _

theorem Wired.connectBundle {n n₁ n₂ : Netlist} {rest : Multiset (Nat × Joint)} {b : Bundle}
    {c p k : Nat} {lead : String} (h : n.Wired (atNode c (b.innerJoints lead) + rest))
    (hports : (b.joints.map Joint.port).Nodup) (hadd : n.addPad b = .ok (p, n₁))
    (hconnect : n₁.connectBundle c p lead = .ok (k, n₂)) : n₂.Wired rest := by
  obtain ⟨rfl, rfl, hname⟩ := add_eq_ok hadd
  have hpad : padAt? ⟨n.nodes ++ [.pad b], n.edges⟩ n.nodes.length = some b :=
    padAt?_eq_some_iff.2 List.getElem?_concat_length
  rw [Netlist.connectBundle, hpad] at hconnect
  obtain ⟨-, rfl⟩ := Prod.mk.inj (Except.ok.inj hconnect)
  exact h.attach hname hports (fun s => joints_bundleEdge c _ b lead s) (List.Perm.refl _)

/-! ### Streams -/

theorem joints_streamEdge (c p : Nat) (b : Bundle) (endpoint : String) (f : WiredField) :
    (f.edge c p b endpoint).joints.Perm [(c, f.innerJoint endpoint), (p, f.joint b)] := by
  unfold WiredField.edge WiredField.innerJoint WiredField.joint
  cases f.padDrives
  · exact List.Perm.refl _
  · exact List.Perm.swap _ _ _

theorem joint?_streamPort (endpoint : String) (f : WiredField) :
    (f.port endpoint).joint? = some (f.innerJoint endpoint) := by
  unfold WiredField.port WiredField.innerJoint Signal.joint?
  cases f.padDrives <;> rfl

/-- A component gets ports whose joints are there already. -/
theorem Wired.addPorts {n : Netlist} {loose : Multiset (Nat × Joint)} (h : n.Wired loose) {c : Nat}
    {ps : List Signal} (hps : ∀ p ∈ ps, ∀ j, p.joint? = some j → (c, j) ∈ n.joints + loose) :
    (n.updateComponent c fun x => x.addPorts ps).Wired loose := by
  refine ⟨h.covers.modify (fun x => ?_) fun x hx j hj => ?_,
    fun x hx => (h.ofComponent x hx).updateComponent _ _,
    fun e he => (h.bridges e he).imp (fun h => h.updateComponent _ _)
      fun h => h.updateComponent _ _⟩
  · cases x with
    | component x => exact Component.name_addPorts x ps
    | pad b => rfl
  · cases x with
    | component x =>
      obtain ⟨p, hp, hj'⟩ := List.mem_filterMap.1 hj
      rcases Component.mem_addPorts hp with hp | hp
      · exact h.covers.mem c _ hx j (List.mem_filterMap.2 ⟨p, hp, hj'⟩)
      · exact hps p hp j hj'
    | pad b => exact h.covers.mem c _ hx j hj

theorem Wired.wireStream {n n₁ n₂ : Netlist} {rest : Multiset (Nat × Joint)} {b : Bundle}
    {c p k : Nat} {endpoint : String} {d : StreamDirection} {fields : List StreamField}
    {wired : List WiredField}
    (h : n.Wired (atNode c (wired.map (WiredField.innerJoint endpoint)) + rest))
    (hfields : WiredField.ofFields b d fields = .ok wired)
    (houter : (wired.map (WiredField.joint b)).Perm b.joints)
    (hports : (b.joints.map Joint.port).Nodup) (hadd : n.addPad b = .ok (p, n₁))
    (hwire : n₁.wireStream c endpoint p d fields = .ok (k, n₂)) : n₂.Wired rest := by
  obtain ⟨rfl, rfl, hname⟩ := add_eq_ok hadd
  have hpad : padAt? ⟨n.nodes ++ [.pad b], n.edges⟩ n.nodes.length = some b :=
    padAt?_eq_some_iff.2 List.getElem?_concat_length
  simp only [Netlist.wireStream, hpad, hfields] at hwire
  split at hwire
  · cases hwire
  · obtain ⟨-, rfl⟩ := Prod.mk.inj (Except.ok.inj hwire)
    -- the ports that the component gets are met by the connections that are added
    have hattach := h.attach hname hports
      (fun f => joints_streamEdge c _ b endpoint f) houter
    refine hattach.addPorts fun q hq j hj => ?_
    obtain ⟨f, hf, rfl⟩ := List.mem_map.1 hq
    obtain rfl := Option.some.inj ((joint?_streamPort endpoint f).symm.trans hj)
    rw [joints_append, joints_edges fun f => joints_streamEdge c n.nodes.length b endpoint f]
    have hmem : (c, f.innerJoint endpoint)
        ∈ atNode c (wired.map (WiredField.innerJoint endpoint)) :=
      mem_atNode.2 ⟨rfl, List.mem_map_of_mem hf⟩
    simp [hmem]

end EtherCore.Netlist
