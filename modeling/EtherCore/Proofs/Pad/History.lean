import EtherCore.Proofs.List
import EtherCore.Proofs.Outcome
import EtherCore.Proofs.Pad.Grants

/-!
Registries over whole runs of calls.  A call declares pads or asks for one, and a call that fails
changes nothing.  Every run hands out a declared pad at most once, with the signals of its
declaration (`run_atMostOnce`).
-/

namespace EtherCore.PadRegistry

/-! ### Declarations -/

theorem firstRepeated?_eq_none_iff {seen : List (String × UInt32)} {ds : List PadDecl} :
    firstRepeated? seen ds = none ↔
      (ds.map PadDecl.key).Nodup ∧ ∀ d ∈ ds, d.key ∉ seen := by
  induction ds generalizing seen with
  | nil => simp [firstRepeated?]
  | cons d ds ih =>
    rw [firstRepeated?]
    by_cases hd : d.key ∈ seen
    · rw [if_pos hd]
      simp [hd]
    · rw [if_neg hd, ih, List.map_cons, List.nodup_cons, List.forall_mem_cons]
      constructor
      · rintro ⟨hds, hseen⟩
        refine ⟨⟨fun hmem => ?_, hds⟩, hd, fun e he hes => ?_⟩
        · obtain ⟨e, he, hkey⟩ := List.mem_map.1 hmem
          exact hseen e he (hkey ▸ List.mem_cons_self)
        · exact hseen e he (List.mem_cons_of_mem _ hes)
      · rintro ⟨⟨hfresh, hds⟩, -, hseen⟩
        refine ⟨hds, fun e he hes => ?_⟩
        rcases List.mem_cons.1 hes with hkey | hes
        · exact hfresh (hkey ▸ List.mem_map_of_mem he)
        · exact hseen e he hes

/-- Pads are declared exactly if their names and indices are distinct and new. -/
theorem declare_eq_ok_iff {r r' : PadRegistry} {ds : List PadDecl} :
    r.declare ds = .ok r' ↔
      ((ds.map PadDecl.key).Nodup ∧ ∀ d ∈ ds, d.key ∉ r.decls.map PadDecl.key) ∧
        r' = { r with decls := r.decls ++ ds } := by
  rw [← firstRepeated?_eq_none_iff, declare]
  cases firstRepeated? (r.decls.map PadDecl.key) ds with
  | some d => simp
  | none => simp [eq_comm]

/-- Where names and indices are declared once, a declaration is found under its own. -/
theorem lookup?_of_mem {r : PadRegistry} (hr : (r.decls.map PadDecl.key).Nodup) {d : PadDecl}
    (hd : d ∈ r.decls) : r.lookup? d.name d.index = some d := by
  cases he : r.lookup? d.name d.index with
  | none => simpa using List.find?_eq_none.1 he d hd
  | some e =>
    have hkey : e.name = d.name ∧ e.index = d.index := by simpa using List.find?_some he
    have heq : e.key = d.key := Prod.ext hkey.1 hkey.2
    rw [List.inj_on_of_nodup_map hr (List.mem_of_find?_eq_some he) hd heq]

theorem mem_of_lookup? {r : PadRegistry} {name : String} {index : UInt32} {d : PadDecl}
    (h : r.lookup? name index = some d) : d ∈ r.decls ∧ d.key = (name, index) := by
  have hkey : d.name = name ∧ d.index = index := by simpa using List.find?_some h
  exact ⟨List.mem_of_find?_eq_some h, Prod.ext hkey.1 hkey.2⟩

/-! ### Runs of calls -/

/-- A call to a registry. -/
inductive Call where
  /-- Declares more pads. -/
  | declare (ds : List PadDecl)
  /-- Asks for a pad. -/
  | request (name : String) (index : Option UInt32)

/-- A registry with the bundles that it has handed out, in order. -/
structure History where
  registry : PadRegistry
  bundles : List Bundle

namespace History

/-- A call, which keeps the bundle that it is given. -/
def call (h : History) : Call → Outcome History
  | .declare ds => (h.registry.declare ds).map fun r => { h with registry := r }
  | .request name index =>
    (h.registry.request name index).map fun (b, r) => ⟨r, h.bundles ++ [b]⟩

/-- The history after a call: one that fails leaves it as it is. -/
def after (h : History) (c : Call) : History :=
  match h.call c with
  | .ok h' => h'
  | .error _ => h

end History

/-- The history of a registry after several calls. -/
def run (r : PadRegistry) (calls : List Call) : History := calls.foldl History.after ⟨r, []⟩

/-- What holds of a history is kept by a run if every call that succeeds keeps it. -/
theorem run_induction {P : History → Prop} {r : PadRegistry} (start : P ⟨r, []⟩)
    (step : ∀ h c h', P h → h.call c = .ok h' → P h') (calls : List Call) : P (r.run calls) := by
  unfold run
  generalize (⟨r, []⟩ : History) = h at start
  induction calls generalizing h with
  | nil => exact start
  | cons c calls ih =>
    refine ih (h.after c) ?_
    rw [History.after]
    split
    · next h' hc => exact step h c h' start hc
    · exact start

/-! ### What every run keeps -/

namespace History

/-- Names and indices are declared once, and those handed out are of declared pads, each once.
The bundles have the signals of their declarations. -/
structure AtMostOnce (h : History) : Prop where
  declared : (h.registry.decls.map PadDecl.key).Nodup
  granted : h.registry.granted = h.bundles.map fun b => b.key
  granted_subset : h.registry.granted ⊆ h.registry.decls.map PadDecl.key
  once : (h.bundles.map fun b => b.key).Nodup
  shapes : ∀ b ∈ h.bundles, h.registry.lookup? b.name b.index = some b.toPadDecl

theorem atMostOnce_start {r : PadRegistry} (hr : r = .empty ∨ r = .standard) :
    AtMostOnce ⟨r, []⟩ := by
  rcases hr with rfl | rfl
  · exact ⟨List.nodup_nil, rfl, List.nil_subset _, List.nodup_nil, fun _ h => by cases h⟩
  · exact ⟨PadDecl.catalog_keys_nodup, rfl, List.nil_subset _, List.nodup_nil,
      fun _ h => by cases h⟩

theorem AtMostOnce.declare {h : History} (hh : h.AtMostOnce) {ds : List PadDecl} {r : PadRegistry}
    (hr : h.registry.declare ds = .ok r) : AtMostOnce { h with registry := r } := by
  obtain ⟨⟨hds, hnew⟩, rfl⟩ := declare_eq_ok_iff.1 hr
  refine ⟨?_, hh.granted, fun k hk => ?_, hh.once, fun b hb => ?_⟩
  · show ((h.registry.decls ++ ds).map PadDecl.key).Nodup
    rw [List.map_append, List.nodup_append']
    refine ⟨hh.declared, hds, List.disjoint_right.2 fun k hk => ?_⟩
    obtain ⟨d, hd, rfl⟩ := List.mem_map.1 hk
    exact hnew d hd
  · show k ∈ (h.registry.decls ++ ds).map PadDecl.key
    rw [List.map_append]
    exact List.mem_append_left _ (hh.granted_subset hk)
  · have hb' := hh.shapes b hb
    unfold lookup? at *
    rw [List.find?_append, hb', Option.some_or]

theorem AtMostOnce.request {h : History} (hh : h.AtMostOnce) {name : String}
    {index : Option UInt32} {b : Bundle} {r : PadRegistry}
    (hr : h.registry.request name index = .ok (b, r)) : AtMostOnce ⟨r, h.bundles ++ [b]⟩ := by
  obtain ⟨d, hd, -, hfree, rfl, rfl⟩ := request_eq_ok hr
  refine ⟨hh.declared, ?_, ?_, ?_, forall_mem_concat hh.shapes (lookup?_of_mem hh.declared hd)⟩
  · show h.registry.granted ++ [d.key] = _
    rw [hh.granted, List.map_append]
    rfl
  · exact forall_mem_concat hh.granted_subset (List.mem_map_of_mem hd)
  · exact nodup_map_concat hh.once (hh.granted ▸ hfree)

theorem AtMostOnce.call {h h' : History} (hh : h.AtMostOnce) {c : Call}
    (hc : h.call c = .ok h') : h'.AtMostOnce := by
  cases c with
  | declare ds =>
    obtain ⟨r, hr, rfl⟩ := Outcome.map_eq_ok_iff.1 hc
    exact hh.declare hr
  | request name index =>
    obtain ⟨⟨b, r⟩, hr, rfl⟩ := Outcome.map_eq_ok_iff.1 hc
    exact hh.request hr

end History

theorem atMostOnce_run {r : PadRegistry} (hr : r = .empty ∨ r = .standard) (calls : List Call) :
    (r.run calls).AtMostOnce :=
  run_induction (History.atMostOnce_start hr) (fun _ _ _ hh hc => hh.call hc) calls

/-- From the registry without pads or the one that every core starts from, every run of calls hands
out each declared pad at most once.  Pads can be declared exactly if their names and indices are
distinct and new, and a call that fails changes nothing. -/
theorem run_atMostOnce {r : PadRegistry} (hr : r = .empty ∨ r = .standard) (calls : List Call) :
    let h := r.run calls
    h.AtMostOnce ∧
      (∀ ds, (∃ h', h.call (.declare ds) = .ok h') ↔
        (ds.map PadDecl.key).Nodup ∧ ∀ d ∈ ds, d.key ∉ h.registry.decls.map PadDecl.key) ∧
      ∀ c e, h.call c = .error e → h.after c = h := by
  intro h
  refine ⟨atMostOnce_run hr calls, fun ds => ?_, fun c e he => ?_⟩
  · simp only [History.call, Outcome.map_eq_ok_iff, declare_eq_ok_iff]
    exact ⟨fun ⟨_, _, ⟨hds, _⟩, _⟩ => hds, fun hds => ⟨_, _, ⟨hds, rfl⟩, rfl⟩⟩
  · rw [History.after, he]

/-- A pad is declared again with another index between two requests, and four calls fail: a batch
that repeats itself, one that repeats a declared pad, a request with no pad left and one for a pad
that was never declared. -/
theorem run_atMostOnce_interrupts :
    let h := standard.run [.request "interrupt" none,
      .declare [.pins "led" 0 1 .output, .pins "led" 0 4 .output],
      .declare [.pins "interrupt" 3 1 .output], .declare [.pins "interrupt" 3 8 .input],
      .request "interrupt" none, .request "interrupt" none, .request "led" (some 0)]
    (standard = .empty ∨ standard = .standard) ∧
      h.registry.granted = [("interrupt", 0), ("interrupt", 3)] ∧ h.AtMostOnce :=
  ⟨Or.inr rfl, by decide +kernel, (run_atMostOnce (Or.inr rfl) _).1⟩

end EtherCore.PadRegistry
