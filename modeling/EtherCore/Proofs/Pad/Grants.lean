import EtherCore.Pad.Registry
import Mathlib.Data.List.Nodup

/-!
What a registry hands out: a request is met by a declaration of its name that was not handed out
before (`request_eq_ok`).  In the registry that every core starts from the names are distinct, so
that the name alone gives the pad (`request_standard`).
-/

namespace EtherCore

namespace PadRegistry

/-! ### Requests -/

theorem mem_of_lowest? {ds : List PadDecl} {d : PadDecl} (h : lowest? ds = some d) : d ∈ ds := by
  induction ds generalizing d with
  | nil => cases h
  | cons e es ih =>
    rw [lowest?] at h
    split at h
    · obtain rfl := Option.some.inj h
      exact List.mem_cons_self
    · next m hm =>
      obtain rfl := Option.some.inj h
      split
      · exact List.mem_cons_of_mem _ (ih hm)
      · exact List.mem_cons_self

theorem choose_eq_ok {r : PadRegistry} {name : String} {index : Option UInt32} {d : PadDecl}
    (h : r.choose name index = .ok d) : d ∈ r.decls ∧ d.name = name ∧ d.key ∉ r.granted := by
  unfold choose at h
  simp only at h
  split at h
  · cases h
  · cases index with
    | some i =>
      simp only at h
      split at h
      · cases h
      · next e he =>
        split at h
        · cases h
        · next hfree =>
          cases h
          obtain ⟨hd, hname⟩ := mem_declsOf.1 (List.mem_of_find?_eq_some he)
          have hindex : d.index = i := by simpa using List.find?_some he
          refine ⟨hd, hname, ?_⟩
          simpa [isGranted, PadDecl.key, hname, hindex] using hfree
    | none =>
      simp only at h
      split at h
      · cases h
      · next e he =>
        cases h
        obtain ⟨hmem, hfree⟩ := List.mem_filter.1 (mem_of_lowest? he)
        obtain ⟨hd, hname⟩ := mem_declsOf.1 hmem
        refine ⟨hd, hname, ?_⟩
        simpa [isGranted, PadDecl.key, hname] using hfree

theorem request_eq_ok {r r' : PadRegistry} {name : String} {index : Option UInt32} {b : Bundle}
    (h : r.request name index = .ok (b, r')) :
    ∃ d ∈ r.decls, d.name = name ∧ d.key ∉ r.granted ∧ b = Bundle.ofDecl d (r.stemOf d) ∧
      r' = { r with granted := r.granted ++ [d.key] } := by
  unfold request at h
  split at h
  · cases h
  · next d hd =>
    cases h
    obtain ⟨hmem, hname, hfree⟩ := choose_eq_ok hd
    exact ⟨d, hmem, hname, hfree, rfl, rfl⟩

end PadRegistry

/-! ### The pads of the standard registry -/

namespace PadDecl

/-- The declaration of a name among the pads that every core starts from. -/
def standard? (name : String) : Option PadDecl := catalog.find? fun d => d.name = name

/-- The bundle of a declaration, with its own name as the stem of its ports. -/
def bundle (d : PadDecl) : Bundle := .ofDecl d d.name

theorem standard?_of_mem : ∀ d ∈ catalog, standard? d.name = some d := by decide

theorem length_filter_catalog :
    ∀ d ∈ catalog, (catalog.filter fun e => e.name = d.name).length = 1 := by decide

/-- The ports of a pad are told apart by their names. -/
theorem nodup_ports_bundle :
    ∀ d ∈ catalog, (d.bundle.signals.map fun s => d.bundle.portName s.name).Nodup := by decide

end PadDecl

namespace PadRegistry

theorem request_standard {r r' : PadRegistry} (hr : r.decls = PadDecl.catalog) {name : String}
    {index : Option UInt32} {b : Bundle} (h : r.request name index = .ok (b, r')) {d : PadDecl}
    (hd : PadDecl.standard? name = some d) :
    b = d.bundle ∧ b.key ∉ r.granted ∧ r' = { r with granted := r.granted ++ [b.key] } := by
  obtain ⟨e, hmem, rfl, hfree, rfl, rfl⟩ := request_eq_ok h
  rw [hr] at hmem
  obtain rfl := Option.some.inj ((PadDecl.standard?_of_mem e hmem).symm.trans hd)
  have hstem : r.stemOf e = e.name := by
    rw [stemOf, declsOf, hr, PadDecl.length_filter_catalog e hmem, if_neg (Nat.lt_irrefl 1)]
  rw [hstem]
  exact ⟨rfl, hfree, rfl⟩

end PadRegistry

end EtherCore
