import EtherCore.Proofs.Artifact.Follows
import EtherCore.Proofs.Netlist.Grown
import EtherCore.Proofs.Netlist.Indexed

/-!
Pads that are asked for while a core is put together.  A pad is handed out and then added to the
netlist, and the second can fail after the first: exactly where a node has the name of a pad that is
left (`Blocked`), a call that fails leaves the pad handed out.  Every other call that fails leaves
everything as it was (`run_intact_iff`).
-/

namespace EtherCore

theorem Netlist.add_of_mem {n : Netlist} {x : Netlist.Node} (hx : x.name ∈ n.names) :
    n.add x = .error (.conflict x.name 0) := by
  have hnode : ¬ n.node? x.name = none := fun h => Netlist.node?_eq_none_iff.1 h hx
  rw [add, if_pos (Option.isSome_iff_ne_none.2 hnode)]

/-- A call to a netlist leaves all names and pads in it. -/
theorem Netlist.subset_of_call {n n' : Netlist} {c : Netlist.Call} {i : Nat}
    (h : n.call c = .ok (i, n')) : n.names ⊆ n'.names ∧ n.pads ⊆ n'.pads := by
  have hadd {x : Node} (hx : n.add x = .ok (i, n')) : n.names ⊆ n'.names ∧ n.pads ⊆ n'.pads := by
    obtain ⟨-, -, rfl⟩ := add_eq_ok_iff.1 hx
    rw [names_concat, pads, pads, List.filterMap_append]
    exact ⟨List.subset_append_left _ _, List.subset_append_left _ _⟩
  cases c with
  | addComponent c => exact hadd h
  | addPad b => exact hadd h
  | connect driver receiver c =>
    cases h
    exact ⟨List.Subset.refl _, List.Subset.refl _⟩
  | connectBundle component pad lead =>
    have hpads : n'.pads = n.pads := pads_connectBundle h
    have hgrows : n.Grows 0 [] n' := .connectBundle h
    rw [hpads, hgrows.names]
    exact ⟨List.subset_append_left _ _, List.Subset.refl _⟩
  | wireStream component endpoint pad direction fields =>
    have hpads : n'.pads = n.pads := pads_wireStream h
    have hgrows : n.Grows 0 [] n' := .wireStream (Nat.zero_le _) h
    rw [hpads, hgrows.names]
    exact ⟨List.subset_append_left _ _, List.Subset.refl _⟩

namespace Assembly

open Step

/-! ### Calls -/

/-- A call to a core that is being put together. -/
inductive Call where
  | netlist (c : Netlist.Call)
  | addPort (component : Nat) (p : Signal)
  | requestPad (name : String)
  | attachPad (component : Nat) (name lead : String)

/-- The step of a call. -/
def Call.step : Call → Step Nat
  | .netlist c => onNetlist fun n => n.call c
  | .addPort component p =>
    onNetlist fun n => .ok (component, n.updateComponent component fun c => c.addPort p)
  | .requestPad name => Step.requestPad name
  | .attachPad component name lead => Step.attachPad component name lead

/-- The pad that a call asks for. -/
def Call.pad? : Call → Option String
  | .requestPad name | .attachPad _ name _ => some name
  | .netlist _ | .addPort .. => none

/-- What a call gives, and what is there after it. -/
def call (a : Assembly) (c : Call) : Outcome Nat × Assembly := c.step.run a

/-- What is there after a call, whether it succeeds or fails. -/
def after (a : Assembly) (c : Call) : Assembly := (a.call c).2

/-- What is there after several calls. -/
def run (a : Assembly) (calls : List Call) : Assembly := calls.foldl after a

/-- A pad is left, and a node has its name. -/
def Blocked (a : Assembly) (name : String) : Prop :=
  ∃ d, PadDecl.standard? name = some d ∧ d.key ∉ a.pads.granted ∧ name ∈ a.netlist.names

/-- The core with one more pad handed out. -/
def grant (a : Assembly) (d : PadDecl) : Assembly :=
  { a with pads := { a.pads with granted := a.pads.granted ++ [d.key] } }

/-- The core with one more node. -/
def withNode (a : Assembly) (x : Netlist.Node) : Assembly :=
  { a with netlist := { a.netlist with nodes := a.netlist.nodes ++ [x] } }

/-- The core with more connections. -/
def withEdges (a : Assembly) (es : List Netlist.Edge) : Assembly :=
  { a with netlist := { a.netlist with edges := a.netlist.edges ++ es } }

/-! ### Pads that are asked for -/

/-- The standard pads are declared, and pads that were handed out are some of them. -/
structure Standard (a : Assembly) : Prop where
  decls : a.pads.decls = PadDecl.catalog
  granted : ∀ x ∈ a.pads.granted, ∃ d ∈ PadDecl.catalog, d.key = x

variable {a : Assembly} {c : Call} {name : String} {d : PadDecl}

theorem standard_start (soc : Soc) : (start soc).Standard :=
  ⟨rfl, fun _ hx => absurd hx List.not_mem_nil⟩

/-- No other pad of the name of one that is left was handed out. -/
theorem Standard.name_ne (h : a.Standard) (hd : PadDecl.standard? name = some d)
    (hfree : d.key ∉ a.pads.granted) : ∀ x ∈ a.pads.granted, x.1 ≠ name := by
  rintro x hx rfl
  obtain ⟨e, he, rfl⟩ := h.granted x hx
  have hsame : e = d := Option.some.inj ((PadDecl.standard?_of_mem e he).symm.trans hd)
  exact hfree (hsame ▸ hx)

/-- A call for a pad finds none that is left, or hands it out; then it adds the pad, unless its name
is taken. -/
theorem run_requestPad (h : a.Standard) (name : String) :
    ((∃ e, (requestPad name).run a = (.error e, a)) ∧ ¬ a.Blocked name) ∨
      ∃ d, PadDecl.standard? name = some d ∧ d.key ∉ a.pads.granted ∧
        (name ∈ a.netlist.names ∧ (requestPad name).run a = (.error (.conflict name 0), a.grant d) ∨
          name ∉ a.netlist.names ∧ (requestPad name).run a
            = (.ok a.netlist.nodes.length, (a.grant d).withNode (.pad d.bundle))) := by
  cases hrequest : a.pads.request name none with
  | error e =>
    have htake : (takePad name none).run a = (.error e, a) := by
      simp only [takePad, ExceptT.run, hrequest]
    refine Or.inl ⟨⟨e, by rw [requestPad, run_bind, htake]⟩, ?_⟩
    rintro ⟨d, hd, hfree, -⟩
    cases hrequest.symm.trans (PadRegistry.request_of_free h.decls hd (h.name_ne hd hfree))
  | ok v =>
    obtain ⟨b, pads⟩ := v
    obtain ⟨d, hmem, rfl, -⟩ := PadRegistry.request_eq_ok hrequest
    have hd := PadDecl.standard?_of_mem d (h.decls ▸ hmem)
    obtain ⟨rfl, hfree, rfl⟩ := PadRegistry.request_standard h.decls hrequest hd
    have htake : (takePad d.name none).run a = (.ok d.bundle, a.grant d) := by
      simp only [takePad, ExceptT.run, hrequest]
      rfl
    refine Or.inr ⟨d, hd, hfree, ?_⟩
    rw [requestPad, run_bind, htake]
    by_cases hname : d.name ∈ a.netlist.names
    · have hadd : (a.grant d).netlist.addPad d.bundle = .error (.conflict d.name 0) :=
        Netlist.add_of_mem (x := .pad d.bundle) hname
      refine Or.inl ⟨hname, ?_⟩
      simp only [addPad, onNetlist, ExceptT.run, hadd]
    · have hadd : (a.grant d).netlist.addPad d.bundle = .ok (a.netlist.nodes.length,
          { a.netlist with nodes := a.netlist.nodes ++ [.pad d.bundle] }) :=
        Netlist.add_eq_ok_iff.2 ⟨hname, rfl, rfl⟩
      refine Or.inr ⟨hname, ?_⟩
      simp only [addPad, onNetlist, ExceptT.run, hadd]
      rfl

/-- A call for a pad comes to what it comes to without connections, which are added in the end. -/
theorem exists_call_eq (a : Assembly) (hc : c.pad? = some name) :
    ∃ es : List Netlist.Edge, a.call c = match (requestPad name).run a with
      | (.ok p, a₁) => (.ok p, a₁.withEdges es)
      | (.error e, a₁) => (.error e, a₁) := by
  cases c with
  | netlist c => cases hc
  | addPort component p => cases hc
  | requestPad name =>
    cases hc
    refine ⟨[], ?_⟩
    show (requestPad name).run a = _
    rcases (requestPad name).run a with ⟨e | p, a₁⟩
    · rfl
    · simp [withEdges]
  | attachPad component name lead =>
    cases hc
    show ∃ es, (attachPad component name lead).run a = _
    rw [attachPad, run_bind]
    rcases hrun : (requestPad name).run a with ⟨e | p, a₁⟩
    · exact ⟨[], rfl⟩
    · -- the pad is there, so that it can be connected
      obtain ⟨b, a₀, -, hadd⟩ := yields_bind_iff.1 (hrun : (requestPad name).Yields a p a₁)
      obtain ⟨n, hn, rfl⟩ := yields_onNetlist_iff.1 hadd
      obtain ⟨-, rfl, rfl⟩ := Netlist.add_eq_ok_iff.1 hn
      have hpad : Netlist.padAt? { a₀.netlist with nodes := a₀.netlist.nodes ++ [.pad b] }
          a₀.netlist.nodes.length = some b := by
        simp [Netlist.padAt?, Netlist.Node.pad?]
      refine ⟨b.signals.map (Netlist.bundleEdge component a₀.netlist.nodes.length b lead), ?_⟩
      dsimp only
      rw [run_bind]
      simp only [connectBundle, onNetlist, ExceptT.run, Netlist.connectBundle, hpad]
      rfl

/-- A call for a pad fails and changes nothing, or fails halfway, or succeeds. -/
theorem call_cases (h : a.Standard) (hc : c.pad? = some name) :
    ((∃ e, a.call c = (.error e, a)) ∧ ¬ a.Blocked name) ∨
      ∃ d, PadDecl.standard? name = some d ∧ d.key ∉ a.pads.granted ∧
        (name ∈ a.netlist.names ∧ a.call c = (.error (.conflict name 0), a.grant d) ∨
          name ∉ a.netlist.names ∧ ∃ es, a.call c
            = (.ok a.netlist.nodes.length,
              ((a.grant d).withNode (.pad d.bundle)).withEdges es)) := by
  obtain ⟨es, hcall⟩ := exists_call_eq a hc
  obtain ⟨⟨e, hrun⟩, hfree⟩ | ⟨d, hd, hfree, ⟨hname, hrun⟩ | ⟨hname, hrun⟩⟩ := run_requestPad h name
  · exact Or.inl ⟨⟨e, by rw [hcall, hrun]⟩, hfree⟩
  · exact Or.inr ⟨d, hd, hfree, Or.inl ⟨hname, by rw [hcall, hrun]⟩⟩
  · exact Or.inr ⟨d, hd, hfree, Or.inr ⟨hname, es, by rw [hcall, hrun]⟩⟩

theorem grant_ne (a : Assembly) (d : PadDecl) : a.grant d ≠ a := by
  intro h
  have hgranted : a.pads.granted ++ [d.key] = a.pads.granted := congrArg (·.pads.granted) h
  exact absurd (congrArg List.length hgranted) (by simp)

/-- A call for a pad that fails leaves the netlist as it was, and the pads too unless it asks for
one that is left and has the name of a node. -/
theorem after_of_error (h : a.Standard) (hc : c.pad? = some name) {e : Error}
    (he : (a.call c).1 = .error e) :
    ¬ a.Blocked name ∧ a.after c = a ∨
      a.Blocked name ∧ ∃ d, PadDecl.standard? name = some d ∧ a.after c = a.grant d := by
  unfold after
  obtain ⟨⟨e', hcall⟩, hfree⟩ | ⟨d, hd, hfree, ⟨hname, hcall⟩ | ⟨-, es, hcall⟩⟩ := call_cases h hc
  · exact Or.inl ⟨hfree, by rw [hcall]⟩
  · exact Or.inr ⟨⟨d, hd, hfree, hname⟩, d, hd, by rw [hcall]⟩
  · rw [hcall] at he
    cases he

/-- A call for a pad that is left and has the name of a node fails. -/
theorem call_of_blocked (h : a.Standard) (hc : c.pad? = some name) (hname : a.Blocked name) :
    (a.call c).1 = .error (.conflict name 0) := by
  obtain ⟨-, hfree⟩ | ⟨d, -, -, ⟨-, hcall⟩ | ⟨hnew, -⟩⟩ := call_cases h hc
  · exact absurd hname hfree
  · rw [hcall]
  · obtain ⟨-, -, -, htaken⟩ := hname
    exact absurd htaken hnew

/-! ### Other calls -/

/-- A call for no pad leaves the pads as they are, and all names and pads in the netlist. -/
theorem after_of_pad?_eq_none (a : Assembly) (hc : c.pad? = none) :
    ∃ n : Netlist, a.after c = { a with netlist := n } ∧ a.netlist.names ⊆ n.names ∧
      a.netlist.pads ⊆ n.pads := by
  have hstep {f : Netlist → Outcome (Nat × Netlist)} (hf : ∀ i n, f a.netlist = .ok (i, n) →
      a.netlist.names ⊆ n.names ∧ a.netlist.pads ⊆ n.pads) :
      ∃ n : Netlist, ((onNetlist f).run a).2 = { a with netlist := n } ∧
        a.netlist.names ⊆ n.names ∧ a.netlist.pads ⊆ n.pads := by
    simp only [onNetlist, ExceptT.run]
    cases hn : f a.netlist with
    | error e => exact ⟨a.netlist, rfl, List.Subset.refl _, List.Subset.refl _⟩
    | ok v => exact ⟨v.2, rfl, hf v.1 v.2 hn⟩
  cases c with
  | netlist c => exact hstep fun i n hn => Netlist.subset_of_call hn
  | addPort component p =>
    refine hstep fun i n hn => ?_
    cases hn
    have hnames : (a.netlist.updateComponent component fun c => c.addPort p).names
        = a.netlist.names := Netlist.names_updateComponent _ _ fun _ => rfl
    rw [hnames, Netlist.pads_updateComponent]
    exact ⟨List.Subset.refl _, List.Subset.refl _⟩
  | requestPad name => cases hc
  | attachPad component name lead => cases hc

/-! ### Runs -/

/-- The standard pads are declared, and a pad that was handed out has its name on a node. -/
structure Named (a : Assembly) : Prop extends a.Standard where
  names : ∀ x ∈ a.pads.granted, x.1 ∈ a.netlist.names

/-- A pad that was handed out is in the netlist. -/
def Held (a : Assembly) : Prop :=
  ∀ x ∈ a.pads.granted, ∃ d ∈ PadDecl.catalog, d.key = x ∧ d.bundle ∈ a.netlist.pads

theorem named_start (soc : Soc) : (start soc).Named :=
  ⟨standard_start soc, fun _ hx => absurd hx List.not_mem_nil⟩

theorem Standard.grant (h : a.Standard) (hd : PadDecl.standard? name = some d) :
    (a.grant d).Standard :=
  ⟨h.decls, forall_mem_concat h.granted ⟨d, List.mem_of_find?_eq_some hd, rfl⟩⟩

theorem name_of_standard? (hd : PadDecl.standard? name = some d) : d.name = name := by
  simpa using List.find?_some hd

theorem Named.after (h : a.Named) (c : Call) : (a.after c).Named := by
  cases hc : c.pad? with
  | none =>
    obtain ⟨n, hn, hnames, -⟩ := after_of_pad?_eq_none a hc
    rw [hn]
    exact ⟨⟨h.decls, h.granted⟩, fun x hx => hnames (h.names x hx)⟩
  | some name =>
    unfold Assembly.after
    obtain ⟨⟨e, hcall⟩, -⟩ | ⟨d, hd, -, ⟨hname, hcall⟩ | ⟨-, es, hcall⟩⟩ :=
      call_cases h.toStandard hc
    · rw [hcall]
      exact h
    · rw [hcall]
      refine ⟨h.toStandard.grant hd, forall_mem_concat h.names ?_⟩
      exact (name_of_standard? hd).symm ▸ hname
    · rw [hcall]
      have hnames : (((a.grant d).withNode (.pad d.bundle)).withEdges es).netlist.names
          = a.netlist.names ++ [d.name] := Netlist.names_concat _ _ _
      refine ⟨⟨(h.toStandard.grant hd).decls, (h.toStandard.grant hd).granted⟩,
        forall_mem_concat (fun x hx => ?_) ?_⟩
      · rw [hnames]
        exact List.mem_append_left _ (h.names x hx)
      · rw [hnames]
        exact List.mem_append_right _ (List.mem_singleton_self _)

theorem named_run (soc : Soc) (calls : List Call) : ((start soc).run calls).Named := by
  unfold run
  have h := named_start soc
  generalize start soc = a at h
  induction calls generalizing a with
  | nil => exact h
  | cons c calls ih => exact ih (a.after c) (h.after c)

theorem Held.after (hheld : a.Held) (h : a.Standard)
    (hc : ∀ name, c.pad? = some name → ¬ a.Blocked name) : (a.after c).Held := by
  cases hpad : c.pad? with
  | none =>
    obtain ⟨n, hn, -, hpads⟩ := after_of_pad?_eq_none a hpad
    rw [hn]
    intro x hx
    obtain ⟨d, hd, hkey, hmem⟩ := hheld x hx
    exact ⟨d, hd, hkey, hpads hmem⟩
  | some name =>
    unfold Assembly.after
    obtain ⟨⟨e, hcall⟩, -⟩ | ⟨d, hd, hfree, ⟨hname, hcall⟩ | ⟨-, es, hcall⟩⟩ := call_cases h hpad
    · rw [hcall]
      exact hheld
    · exact absurd ⟨d, hd, hfree, hname⟩ (hc name hpad)
    · rw [hcall]
      have hpads : (((a.grant d).withNode (.pad d.bundle)).withEdges es).netlist.pads
          = a.netlist.pads ++ [d.bundle] := Netlist.pads_append_pad _ _ _
      refine forall_mem_concat (fun x hx => ?_) ?_
      · obtain ⟨d', hd', hkey, hmem⟩ := hheld x hx
        exact ⟨d', hd', hkey, hpads ▸ List.mem_append_left _ hmem⟩
      · exact ⟨d, List.mem_of_find?_eq_some hd, rfl,
          hpads ▸ List.mem_append_right _ (List.mem_singleton_self _)⟩

/-- No call of a run asks for a pad that is left and has the name of a node. -/
def Unblocked (soc : Soc) (calls : List Call) : Prop :=
  ∀ before c behind name, calls = before ++ c :: behind → c.pad? = some name →
    ¬ ((start soc).run before).Blocked name

theorem held_run {soc : Soc} {calls : List Call} (h : Unblocked soc calls) :
    ((start soc).run calls).Held := by
  induction calls using List.reverseRecOn with
  | nil => exact fun _ hx => absurd hx List.not_mem_nil
  | append_singleton calls c ih =>
    have hbefore : Unblocked soc calls := by
      rintro before c' behind name rfl
      exact h before c' (behind ++ [c]) name (by simp)
    have hrun : (start soc).run (calls ++ [c]) = ((start soc).run calls).after c := by
      simp [run]
    rw [hrun]
    exact (ih hbefore).after (named_run soc calls).toStandard fun name hc =>
      h calls c [] name rfl hc

/-- What calls for a pad do that fail after a run.  All of them leave everything as it was exactly
if no pad that is left has the name of a node; the netlist stays as it was in any case, and a pad
that is left and has the name of a node is handed out. -/
theorem run_intact_iff (soc : Soc) (calls : List Call) :
    let a := (start soc).run calls
    ((∀ c name e, c.pad? = some name → (a.call c).1 = .error e → a.after c = a) ↔
        ∀ name, ¬ a.Blocked name) ∧
      (∀ c name e, c.pad? = some name → (a.call c).1 = .error e →
        ¬ a.Blocked name ∧ a.after c = a ∨ a.Blocked name ∧ e = .conflict name 0 ∧
          ∃ d, PadDecl.standard? name = some d ∧ a.after c = a.grant d) ∧
      (∀ x ∈ a.pads.granted, x.1 ∈ a.netlist.names) ∧ (Unblocked soc calls → a.Held) := by
  intro a
  have hnamed : a.Named := named_run soc calls
  have h := hnamed.toStandard
  refine ⟨⟨fun hall name hblocked => ?_, fun hfree c name e hc he => ?_⟩,
    fun c name e hc he => ?_, hnamed.names, held_run⟩
  · have hfail := call_of_blocked (c := .requestPad name) h rfl hblocked
    obtain ⟨hfree, -⟩ | ⟨-, d, -, hgrant⟩ := after_of_error (c := .requestPad name) h rfl hfail
    · exact hfree hblocked
    · exact a.grant_ne d (hgrant.symm.trans (hall _ name _ rfl hfail))
  · obtain ⟨-, hsame⟩ | ⟨hblocked, -⟩ := after_of_error h hc he
    · exact hsame
    · exact absurd hblocked (hfree name)
  · obtain hsame | ⟨hblocked, hgrant⟩ := after_of_error h hc he
    · exact Or.inl hsame
    · have hconflict := call_of_blocked h hc hblocked
      exact Or.inr ⟨hblocked, Except.error.inj (he.symm.trans hconflict), hgrant⟩

/-- A component has the name of a pad, which stays handed out when it cannot be added. -/
theorem not_intact_interrupt :
    let soc : Soc := ⟨⟨.xilinx, "", .vivado⟩, ⟨100000000⟩, .empty, .empty, .empty 32,
      ⟨0xf0000000, 0x800, 32, .empty, []⟩⟩
    let a := (start soc).run [.netlist (.addComponent (.bare "interrupt" .mac))]
    ¬ ∀ c name e, c.pad? = some name → (a.call c).1 = .error e → a.after c = a := by
  intro soc a h
  have hfail : (a.call (.requestPad "interrupt")).1 = .error (.conflict "interrupt" 0) := by
    decide +kernel
  have hsame : (a.after (.requestPad "interrupt")).pads.granted = a.pads.granted :=
    congrArg (·.pads.granted) (h _ "interrupt" _ rfl hfail)
  exact absurd hsame (by decide +kernel)

end Assembly

end EtherCore
