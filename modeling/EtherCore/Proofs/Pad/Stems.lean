import EtherCore.Proofs.Netlist.Names
import EtherCore.Proofs.Pad.History
import Mathlib

/-!
The stems of the ports of pads that are handed out.  A stem is the name of the pad, and its index
after it where the name is declared more than once.  Pads of one name never share a stem; two pads
share one exactly if their names and indices clash (`run_stems_nodup_iff`), which no pads do whose
names do not end in a digit (`run_stems_nodup_of_names`).
-/

namespace EtherCore

/-- Two texts of two parts are equal exactly if the longer first part is the shorter one with what
the other second part begins with. -/
theorem Text.append_eq_append_iff {s t u v : String} :
    s ++ t = u ++ v ↔
      (∃ w, u = s ++ w ∧ t = w ++ v) ∨ ∃ w, s = u ++ w ∧ v = w ++ t := by
  simp only [← String.toList_inj, String.toList_append, List.append_eq_append_iff]
  constructor
  · rintro (⟨w, hu, ht⟩ | ⟨w, hs, hv⟩)
    · exact Or.inl ⟨String.ofList w, by simpa using hu, by simpa using ht⟩
    · exact Or.inr ⟨String.ofList w, by simpa using hs, by simpa using hv⟩
  · rintro (⟨w, hu, ht⟩ | ⟨w, hs, hv⟩)
    · exact Or.inl ⟨w.toList, hu, ht⟩
    · exact Or.inr ⟨w.toList, hs, hv⟩

/-! ### Stems and their parts -/

namespace Bundle

/-- What the stem of a bundle has after its name: its index, unless it is the name alone. -/
def suffix (b : Bundle) : String := if b.stem = b.name then "" else toString b.index

/-- The name of the second bundle is that of the first with more at its end, the index in the stem
of the first begins with this, and the stem of the second goes on with what is left of it. -/
def Clashes (b c : Bundle) : Prop :=
  ∃ more, more ≠ "" ∧ c.name = b.name ++ more ∧ b.suffix = more ++ c.suffix

/-- The stem of a bundle is its name, or its name and its index. -/
def Stemmed (b : Bundle) : Prop := b.stem = b.name ∨ b.stem = b.name ++ toString b.index

theorem toList_toString_index (i : UInt32) : (toString i).toList = Nat.toDigits 10 i.toNat :=
  Nat.toList_repr

theorem toString_index_ne_empty (i : UInt32) : toString i ≠ "" := by
  intro h
  rw [← String.toList_eq_nil_iff, toList_toString_index] at h
  exact Nat.toDigits_ne_nil h

theorem toString_index_injective {i j : UInt32} (h : toString i = toString j) : i = j :=
  UInt32.toNat_inj.1 (Nat.repr_inj.1 h)

theorem Stemmed.stem_eq {b : Bundle} (hb : b.Stemmed) : b.stem = b.name ++ b.suffix := by
  unfold suffix
  split
  · next h => rw [h, String.append_empty]
  · next h => exact hb.resolve_left h

/-- Bundles of different names have one stem exactly if they clash. -/
theorem stem_eq_stem_iff {b c : Bundle} (hb : b.Stemmed) (hc : c.Stemmed)
    (hname : b.name ≠ c.name) : b.stem = c.stem ↔ b.Clashes c ∨ c.Clashes b := by
  have hne {s u w : String} (hsu : s ≠ u) (h : u = s ++ w) : w ≠ "" := by
    rintro rfl
    rw [String.append_empty] at h
    exact hsu h.symm
  rw [hb.stem_eq, hc.stem_eq, Text.append_eq_append_iff]
  constructor
  · rintro (⟨w, hw, h⟩ | ⟨w, hw, h⟩)
    · exact Or.inl ⟨w, hne hname hw, hw, h⟩
    · exact Or.inr ⟨w, hne hname.symm hw, hw, h⟩
  · rintro (⟨w, -, hw, h⟩ | ⟨w, -, hw, h⟩)
    · exact Or.inl ⟨w, hw, h⟩
    · exact Or.inr ⟨w, hw, h⟩

/-- Of two pads of one name, the one with its index in its stem has a stem of its own. -/
theorem Stemmed.stem_ne {b c : Bundle} (hb : b.Stemmed) (hname : b.name = c.name)
    (hkey : b.key ≠ c.key) (hc : c.stem = c.name ++ toString c.index) : b.stem ≠ c.stem := by
  intro hstem
  rw [hc, ← hname] at hstem
  rcases hb with hb | hb
  · rw [hb, eq_comm, String.append_eq_left_iff] at hstem
    exact toString_index_ne_empty _ hstem
  · rw [hb, String.append_right_inj] at hstem
    exact hkey (Prod.ext hname (toString_index_injective hstem))

theorem Clashes.name_ne {b c : Bundle} (h : b.Clashes c) : b.name ≠ c.name := by
  obtain ⟨more, hmore, hname, -⟩ := h
  rw [hname, Ne, eq_comm, String.append_eq_left_iff]
  exact hmore

/-- The name of the second of two bundles that clash ends in a digit. -/
theorem Clashes.digit {b c : Bundle} (h : b.Clashes c) :
    ∃ ch ∈ c.name.toList.getLast?, ch.isDigit := by
  obtain ⟨more, hmore, hname, hsuffix⟩ := h
  have hne : more.toList ≠ [] := mt String.toList_eq_nil_iff.1 hmore
  have hindex : b.suffix = toString b.index := by
    unfold suffix at hsuffix ⊢
    split at hsuffix
    · exact absurd (String.append_eq_empty_iff.1 hsuffix.symm).1 hmore
    · next h => exact if_neg h
  refine ⟨more.toList.getLast hne, ?_, ?_⟩
  · rw [hname, String.toList_append, List.getLast?_append_of_ne_nil _ hne,
      List.getLast?_eq_getLast_of_ne_nil hne]
    exact Option.mem_some_self _
  · have hmem : more.toList.getLast hne ∈ (toString b.index).toList := by
      rw [← hindex, hsuffix, String.toList_append]
      exact List.mem_append_left _ (List.getLast_mem hne)
    rw [toList_toString_index] at hmem
    exact Nat.isDigit_of_mem_toDigits (by decide) (by decide) hmem

end Bundle

/-! ### Stems over runs -/

namespace PadRegistry

theorem stemmed_ofDecl (r : PadRegistry) (d : PadDecl) :
    (Bundle.ofDecl d (r.stemOf d)).Stemmed := by
  show r.stemOf d = d.name ∨ r.stemOf d = d.name ++ toString d.index
  unfold stemOf
  split
  · exact Or.inr rfl
  · exact Or.inl rfl

/-- A pad has its index in its stem if another one has its name. -/
theorem stemOf_of_shared {r : PadRegistry} {d e : PadDecl} (hd : d ∈ r.decls) (he : e ∈ r.decls)
    (hname : e.name = d.name) (hne : e ≠ d) : r.stemOf d = d.name ++ toString d.index := by
  have hd' : d ∈ r.declsOf d.name := mem_declsOf.2 ⟨hd, rfl⟩
  have he' : e ∈ r.declsOf d.name := mem_declsOf.2 ⟨he, hname⟩
  refine if_pos (not_le.1 fun hle => hne ?_)
  rcases hds : r.declsOf d.name with - | ⟨x, - | ⟨y, xs⟩⟩
  · rw [hds] at hd'
    cases hd'
  · rw [hds, List.mem_singleton] at hd' he'
    rw [hd', he']
  · rw [hds, List.length_cons, List.length_cons] at hle
    omega

namespace History

/-- Stems are made of names and indices, and of two pads of one name the later has its index in
its stem. -/
structure Stemmed (h : History) : Prop extends h.AtMostOnce where
  stemmed : ∀ b ∈ h.bundles, b.Stemmed
  later : h.bundles.Pairwise fun b c => b.name = c.name → c.stem = c.name ++ toString c.index

theorem stemmed_start : Stemmed ⟨.standard, []⟩ :=
  ⟨atMostOnce_start (Or.inr rfl), fun _ h => (by cases h), List.Pairwise.nil⟩

theorem Stemmed.request {h : History} (hh : h.Stemmed) {name : String} {index : Option UInt32}
    {b : Bundle} {r : PadRegistry} (hr : h.registry.request name index = .ok (b, r)) :
    Stemmed ⟨r, h.bundles ++ [b]⟩ := by
  have honce := hh.toAtMostOnce.request hr
  obtain ⟨d, hd, -, hfree, rfl, rfl⟩ := request_eq_ok hr
  refine ⟨honce, forall_mem_concat hh.stemmed (stemmed_ofDecl _ _),
    List.pairwise_append.2 ⟨hh.later, List.pairwise_singleton _ _, fun b hb c hc hname => ?_⟩⟩
  obtain rfl := List.mem_singleton.1 hc
  -- the earlier pad of the name is declared too, and it is another one since it was handed out
  have hdecl : b.toPadDecl ∈ h.registry.decls := (mem_of_lookup? (hh.shapes b hb)).1
  have hkey : b.key ∈ h.registry.granted := by
    rw [hh.granted]
    exact List.mem_map_of_mem hb
  exact stemOf_of_shared hd hdecl hname fun heq => hfree (heq ▸ hkey)

theorem Stemmed.call {h h' : History} (hh : h.Stemmed) {c : Call} (hc : h.call c = .ok h') :
    h'.Stemmed := by
  cases c with
  | declare ds =>
    obtain ⟨r, hr, rfl⟩ := Outcome.map_eq_ok_iff.1 hc
    exact ⟨hh.toAtMostOnce.declare hr, hh.stemmed, hh.later⟩
  | request name index =>
    obtain ⟨⟨b, r⟩, hr, rfl⟩ := Outcome.map_eq_ok_iff.1 hc
    exact hh.request hr

/-- The stems of the bundles are distinct exactly if no two of the bundles clash. -/
theorem Stemmed.stems_nodup_iff {h : History} (hh : h.Stemmed) :
    (h.bundles.map (·.stem)).Nodup ↔ ∀ b ∈ h.bundles, ∀ c ∈ h.bundles, ¬ b.Clashes c := by
  constructor
  · intro hnodup b hb c hc hclash
    have hstem := (Bundle.stem_eq_stem_iff (hh.stemmed b hb) (hh.stemmed c hc)
      hclash.name_ne).2 (Or.inl hclash)
    obtain rfl := List.inj_on_of_nodup_map hnodup hb hc hstem
    exact hclash.name_ne rfl
  · intro hfree
    have honce := List.pairwise_map.1 hh.once
    refine List.pairwise_map.2 ((hh.later.and honce).imp_of_mem ?_)
    rintro b c hb hc ⟨hlater, hkey⟩
    by_cases hname : b.name = c.name
    · exact (hh.stemmed b hb).stem_ne hname hkey (hlater hname)
    · rw [Ne, Bundle.stem_eq_stem_iff (hh.stemmed b hb) (hh.stemmed c hc) hname]
      exact not_or.2 ⟨hfree b hb c hc, hfree c hc b hb⟩

end History

theorem stemmed_run (calls : List Call) : (standard.run calls).Stemmed :=
  run_induction History.stemmed_start (fun _ _ _ hh hc => hh.call hc) calls

/-- Bundles handed out in any run from the pads that every core starts from have distinct stems
exactly if no two of them clash, and exactly then they can all be added to a netlist. -/
theorem run_stems_nodup_iff (calls : List Call) :
    let bundles := (standard.run calls).bundles
    ((bundles.map (·.stem)).Nodup ↔ ∀ b ∈ bundles, ∀ c ∈ bundles, ¬ b.Clashes c) ∧
      ((∃ n, Netlist.empty.addPads bundles = .ok n) ↔ (bundles.map (·.stem)).Nodup) :=
  ⟨(stemmed_run calls).stems_nodup_iff, Netlist.exists_addPads_iff (n := .empty) List.nodup_nil⟩

/-- The second of two pads named `led` and the pad named `led1` have one stem. -/
theorem not_stems_nodup_led :
    ¬ ((standard.run [.declare [.pins "led" 0 1 .output, .pins "led" 1 1 .output,
      .pins "led1" 0 1 .output], .request "led" (some 1), .request "led1" none]).bundles.map
        (·.stem)).Nodup := by
  decide +kernel

/-- The stems are distinct where no name that is declared ends in a digit. -/
theorem run_stems_nodup_of_names {calls : List Call}
    (hnames : ∀ d ∈ (standard.run calls).registry.decls, ∀ ch ∈ d.name.toList.getLast?,
      ¬ ch.isDigit) :
    ((standard.run calls).bundles.map (·.stem)).Nodup := by
  have hrun := stemmed_run calls
  refine hrun.stems_nodup_iff.2 fun b _ c hc hclash => ?_
  obtain ⟨ch, hch, hdigit⟩ := hclash.digit
  exact hnames c.toPadDecl (mem_of_lookup? (hrun.shapes c hc)).1 ch hch hdigit

end PadRegistry

end EtherCore
