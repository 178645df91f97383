import EtherCore.Config.Load
import EtherCore.Proofs.Document.Normal
import EtherCore.Proofs.Table

/-!
Tables in normal form.  No string that names a boolean or nothing is left in the normal form of a
table, at any depth; everything that is something is kept in its place; and the normal form is the
same configuration as the table (`normalize_settles`).
-/

namespace EtherCore.Config

variable {t : Table Value}

/-! ### Settled tables -/

/-- No string in a table names a boolean or nothing, at any depth. -/
def Settled (t : Table Value) : Prop :=
  ∀ e ∈ t.entries, ∀ s, (Value.string s).Within e.2 → s ∉ Value.literals

theorem settled_iff : Settled t ↔ ∀ e ∈ t.entries, e.2.IsNormal :=
  forall₂_congr fun _ _ => Value.isNormal_iff.symm

theorem get?_normalize (t : Table Value) (key : String) :
    (normalize t).get? key = (t.get? key).bind Value.normalize? :=
  Table.get?_filterMap _ _ _

theorem entries_normalize (t : Table Value) : (normalize t).entries =
    (t.entries.filter fun e => !e.2.isNothing).map fun e => (e.1, e.2.normal) :=
  (Value.normalizeEntries_eq t.entries).symm.trans (Value.normalizeEntries_eq_map t.entries)

theorem settled_normalize (t : Table Value) : Settled (normalize t) := by
  rw [settled_iff, entries_normalize]
  simp only [List.forall_mem_map, List.mem_filter, Bool.not_eq_true', and_imp]
  intro e _ hsome
  exact Value.isNormal_normal fun heq => by simp [Value.isNothing_iff.2 heq] at hsome

theorem normalize_of_settled (h : Settled t) : normalize t = t := by
  refine Table.ext_get? fun key => ?_
  rw [get?_normalize]
  cases hv : t.get? key with
  | none => rfl
  | some v => exact Value.normalize?_of_isNormal (settled_iff.1 h _ (Table.get?_eq_some_iff.1 hv))

/-! ### Loading -/

theorem rejectMoved_eq_ok_iff : rejectMoved t = .ok () ↔ ∀ key ∈ movedKeys, t.get? key = none := by
  unfold rejectMoved
  split
  · next h => simpa [Table.contains] using h
  · next k h =>
    have hk := List.find?_some h
    simp only [reduceCtorEq, false_iff, not_forall]
    refine ⟨k, List.mem_of_find?_eq_some h, ?_⟩
    simpa [Table.contains, Option.isSome_iff_ne_none] using hk

theorem ofTable_eq_ofNormal (h : ∀ key ∈ movedKeys, t.get? key = none) :
    ofTable t = ofNormal (normalize t) := by
  rw [ofTable, rejectMoved_eq_ok_iff.2 h]

/-- Normal forms are settled, settled tables are their own normal forms, and what is something is
kept in its place at every depth, where the names of booleans become booleans.  If no key has moved,
a table and its normal form are one configuration, with one log. -/
theorem normalize_settles (t : Table Value) :
    Settled (normalize t) ∧ normalize (normalize t) = normalize t ∧
      (Settled t → normalize t = t) ∧
      ((normalize t).entries =
          (t.entries.filter fun e => !e.2.isNothing).map fun e => (e.1, e.2.normal)) ∧
      ((Value.string "True").normal = .boolean true ∧
        (Value.string "False").normal = .boolean false) ∧
      (∀ xs, (Value.array xs).normal =
          .array ((xs.filter fun x => !x.isNothing).map Value.normal)) ∧
      (∀ es, (Value.table es).normal =
          .table ((es.filter fun e => !e.2.isNothing).map fun e => (e.1, e.2.normal))) ∧
      (t.get? "csr_map" = none → t.get? "mem_map" = none → ofTable (normalize t) = ofTable t) := by
  have hsettled := settled_normalize t
  have hfix := normalize_of_settled hsettled
  refine ⟨hsettled, hfix, normalize_of_settled, entries_normalize t, ⟨rfl, rfl⟩,
    Value.normal_array, Value.normal_table, fun hcsr hmem => ?_⟩
  have hmoved : ∀ key ∈ movedKeys, t.get? key = none := by
    simp [movedKeys, hcsr, hmem]
  have hmoved' : ∀ key ∈ movedKeys, (normalize t).get? key = none := by
    intro key hkey
    rw [get?_normalize, hmoved key hkey, Option.bind_none]
  rw [ofTable_eq_ofNormal hmoved', ofTable_eq_ofNormal hmoved, hfix]

/-- A table with literals in an array and in a table below `soc`. -/
theorem normalize_settles_nested :
    let t := Table.ofList [("clk_freq", .integer 100000000), ("vendor", .string "xilinx"),
      ("phy", .string "mii"), ("core", .string "mac"), ("device", .string "None"),
      ("soc", .table [("flags", .array [.string "True", .string "None", .string "fast"]),
        ("timer", .table [("enabled", .string "False"), ("width", .string "None")])])]
    let u := Table.ofList [("clk_freq", .integer 100000000), ("vendor", .string "xilinx"),
      ("phy", .string "mii"), ("core", .string "mac"),
      ("soc", .table [("flags", .array [.boolean true, .string "fast"]),
        ("timer", .table [("enabled", .boolean false)])])]
    normalize t = u ∧ Settled u ∧ normalize u = u ∧ t.get? "csr_map" = none ∧
      t.get? "mem_map" = none ∧ ofTable u = ofTable t := by
  intro t u
  have htu : normalize t = u := rfl
  obtain ⟨hsettled, -, -, -, -, -, -, hload⟩ := normalize_settles t
  rw [htu] at hsettled hload
  exact ⟨htu, hsettled, (normalize_settles u).2.2.1 hsettled, rfl, rfl, hload rfl rfl⟩

end EtherCore.Config
