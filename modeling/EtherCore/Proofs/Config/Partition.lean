import EtherCore.Proofs.Config.Forwarded
import Mathlib.Algebra.Group.Int.Defs

/-!
The table of options as arguments and maps.  It is taken apart exactly if its maps are maps of
numbers that may stand there; the parts make up the table again, but for maps without entries, and
parts that were put together are found again (`partition`).
-/

namespace EtherCore

/-! ### Maps of numbers that are read -/

theorem exists_readUnsigned_iff {bits : Nat} {v : Value} :
    (∃ n, readUnsigned bits v = .ok n) ↔ ∃ i, v.number? = some i ∧ 0 ≤ i ∧ i < 2 ^ bits := by
  constructor
  · rintro ⟨n, hn⟩
    obtain ⟨hnumber, hlt⟩ := readUnsigned_eq_ok hn
    exact ⟨n, hnumber, Int.natCast_nonneg n, by exact_mod_cast hlt⟩
  · rintro ⟨i, hnumber, hpos, hlt⟩
    cases v with
    | integer j =>
      obtain rfl := Option.some.inj hnumber
      have hj : 0 ≤ j ∧ j.toInt.toNat < Nat.pow 2 bits := by
        refine ⟨Int64.le_iff_toInt_le.2 hpos, ?_⟩
        rw [Nat.pow_eq, Int.toNat_lt hpos]
        exact_mod_cast hlt
      exact ⟨_, if_pos hj⟩
    | _ => cases hnumber

/-- A number of enough bits is read from its own integer. -/
theorem readUnsigned_ofNat {bits n : Nat} (hbits : n < 2 ^ bits) (hword : n < 2 ^ 63) :
    readUnsigned bits (.integer (.ofNat n)) = .ok n := by
  have htoInt : (Int64.ofNat n).toInt = n := Int64.toInt_ofNat_of_lt hword
  have hn : 0 ≤ Int64.ofNat n ∧ (Int64.ofNat n).toInt.toNat < Nat.pow 2 bits := by
    rw [Int64.le_iff_toInt_le, htoInt, Int.toNat_natCast]
    exact ⟨Int.natCast_nonneg n, hbits⟩
  rw [readUnsigned, if_pos hn, htoInt, Int.toNat_natCast]

section

variable {α : Type} {read : Value → Except String α}

theorem exists_readEntries_iff {es : List (String × Value)} :
    (∃ rs, readEntries read es = .ok rs) ↔ ∀ e ∈ es, ∃ a, read e.2 = .ok a := by
  induction es with
  | nil => exact ⟨fun _ e he => absurd he List.not_mem_nil, fun _ => ⟨[], rfl⟩⟩
  | cons e es ih =>
    rw [List.forall_mem_cons, ← ih, readEntries]
    cases read e.2 with
    | error problem => simp
    | ok a => cases readEntries read es <;> simp [Except.map]

theorem exists_readMap_iff {v : Value} : (∃ m, readMap read v = .ok m) ↔
    ∃ t, v.table? = some t ∧ ∀ k w, t.get? k = some w → ∃ a, read w = .ok a := by
  cases v with
  | table es =>
    have hentries : (∃ m, readMap read (.table es) = .ok m) ↔
        ∃ rs, readEntries read (Table.ofList es).entries = .ok rs := by
      rw [readMap]
      cases readEntries read (Table.ofList es).entries <;> simp [Except.map]
    rw [hentries, exists_readEntries_iff]
    simp only [Value.table?, Option.some.injEq, exists_eq_left', Table.get?_eq_some_iff,
      Prod.forall]
  | _ => simp [readMap, Value.table?]

/-- A map is read from a table exactly if the entries of the table are read as what it holds. -/
theorem readMap_eq_ok_iff {v : Value} {m : Table α} : readMap read v = .ok m ↔
    ∃ t, v.table? = some t ∧ ∀ k, (t.get? k).map read = (m.get? k).map .ok := by
  refine ⟨readMap_eq_ok, ?_⟩
  rintro ⟨t, ht, hread⟩
  obtain ⟨m', hm'⟩ : ∃ m', readMap read v = .ok m' := by
    refine exists_readMap_iff.2 ⟨t, ht, fun k w hw => ?_⟩
    have hk := hread k
    rw [hw, Option.map_some, eq_comm, Option.map_eq_some_iff] at hk
    obtain ⟨a, -, ha⟩ := hk
    exact ⟨a, ha.symm⟩
  obtain ⟨t', ht', hread'⟩ := readMap_eq_ok hm'
  obtain rfl := Option.some.inj (ht'.symm.trans ht)
  have hmm : m' = m := Table.ext_get? fun k =>
    Option.map_injective (fun _ _ => Except.ok.inj) ((hread' k).symm.trans (hread k))
  rw [hm', hmm]

end

/-! ### The table of a map -/

/-- A map as a table of numbers. -/
def Table.numbered {α : Type} (number : α → Nat) (m : Table α) : Table Value :=
  m.filterMap fun a => some (.integer (.ofNat (number a)))

theorem Table.eq_empty_of_numbered {α : Type} {number : α → Nat} {m : Table α}
    (h : Value.ofTable (m.numbered number) = .ofTable .empty) : m = .empty := by
  have hentries : (m.numbered number).entries = [] := Value.table.inj h
  refine Table.ext_get? fun k => Option.eq_none_iff_forall_ne_some.2 fun a ha => ?_
  have hk : (m.numbered number).get? k = some (.integer (.ofNat (number a))) := by
    rw [numbered, get?_filterMap, ha]
    rfl
  rw [get?, hentries] at hk
  cases hk

namespace SocOptions

/-- The numbers that may stand in a map.  Locations and interrupts are below `2 ^ 32`, and an origin
is any number that is not negative. -/
def Admits (map : String) (i : Int) : Prop := 0 ≤ i ∧ (map = "mem_map" ∨ i < 2 ^ 32)

/-- Under the name of a map a table holds a table of numbers that may stand there, or nothing. -/
def Numbered (t : Table Value) (map : String) : Prop :=
  ∀ v, t.get? map = some v → ∃ m, v.table? = some m ∧
    ∀ name w, m.get? name = some w → ∃ i, w.number? = some i ∧ Admits map i

/-- The options as one table: the arguments, and under the name of each map its table of numbers. -/
def toTable (o : SocOptions) : Table Value :=
  ((o.args.insert "csr_map" (.ofTable (o.maps.csr.numbered UInt32.toNat))).insert "interrupt_map"
    (.ofTable (o.maps.interrupt.numbered UInt32.toNat))).insert "mem_map"
    (.ofTable (o.maps.memory.numbered UInt64.toNat))

/-- A table is another one, but for maps without entries that it may lack. -/
def Trims (t u : Table Value) : Prop := ∀ k, u.get? k = t.get? k ∨
  k ∈ mapNames ∧ t.get? k = none ∧ u.get? k = some (.ofTable .empty)

variable {t : Table Value} {o : SocOptions} {map : String}

theorem get?_toTable (o : SocOptions) (k : String) : o.toTable.get? k =
    if k = "mem_map" then some (.ofTable (o.maps.memory.numbered UInt64.toNat))
    else if k = "interrupt_map" then some (.ofTable (o.maps.interrupt.numbered UInt32.toNat))
    else if k = "csr_map" then some (.ofTable (o.maps.csr.numbered UInt32.toNat))
    else o.args.get? k := by
  rw [toTable, Table.get?_insert, Table.get?_insert, Table.get?_insert]

/-! ### One map -/

/-- An error of a map is about the map. -/
theorem readSocMap_eq_error {α : Type} {read : Value → Except String α} {e : Error}
    (h : readSocMap t map read = .error e) :
    ∃ problem, e = .configuration ("soc." ++ map) problem := by
  unfold readSocMap at h
  split at h
  · cases h
  · next v hv =>
    cases hread : readMap read v with
    | error problem =>
      rw [hread] at h
      cases h
      exact ⟨problem, rfl⟩
    | ok m =>
      rw [hread] at h
      cases h

section

variable {α : Type} {bits : Nat} {f : Nat → α} {g : α → Nat}

/-- A map is read exactly if it is a map of numbers, where these have just enough bits. -/
theorem exists_readSocMap_iff
    (hbits : ∀ i : Int64, 0 ≤ i.toInt ∧ i.toInt < 2 ^ bits ↔ Admits map i.toInt) :
    (∃ m, readSocMap t map (fun v => (readUnsigned bits v).map f) = .ok m) ↔ Numbered t map := by
  have hread (w : Value) : (∃ a, (readUnsigned bits w).map f = .ok a) ↔
      ∃ i, w.number? = some i ∧ Admits map i := by
    have hmap : (∃ a, (readUnsigned bits w).map f = .ok a) ↔ ∃ n, readUnsigned bits w = .ok n := by
      cases readUnsigned bits w <;> simp [Except.map]
    rw [hmap, exists_readUnsigned_iff]
    cases w with
    | integer i => simpa [Value.number?] using hbits i
    | _ => simp [Value.number?]
  unfold readSocMap Numbered
  cases t.get? map with
  | none => simp
  | some v =>
    simp only [Option.some.injEq, forall_eq']
    have herror : (∃ m, (readMap (fun v => (readUnsigned bits v).map f) v).mapError
        (fun problem => Error.configuration ("soc." ++ map) problem) = .ok m) ↔
          ∃ m, readMap (fun v => (readUnsigned bits v).map f) v = .ok m := by
      cases readMap (fun v => (readUnsigned bits v).map f) v <;> simp [Except.mapError]
    rw [herror, exists_readMap_iff]
    simp only [hread]

/-- A map is read from the table of its numbers, and from nothing if it has no entries. -/
theorem readSocMap_numbered (hf : ∀ a, f (g a) = a) {m : Table α}
    (hm : ∀ name a, m.get? name = some a → g a < 2 ^ bits ∧ g a < 2 ^ 63)
    (hmap : t.get? map = some (.ofTable (m.numbered g)) ∨ t.get? map = none ∧ m = .empty) :
    readSocMap t map (fun v => (readUnsigned bits v).map f) = .ok m := by
  obtain hmap | ⟨hnone, rfl⟩ := hmap
  case inr => rw [readSocMap, hnone]
  have hread : readMap (fun v => (readUnsigned bits v).map f) (.ofTable (m.numbered g))
      = .ok m := by
    refine readMap_eq_ok_iff.2 ⟨_, congrArg some (Table.ofList_entries _), fun name => ?_⟩
    rw [Table.numbered, Table.get?_filterMap]
    cases hname : m.get? name with
    | none => rfl
    | some a =>
      obtain ⟨hbits, hword⟩ := hm name a hname
      show some ((readUnsigned bits (.integer (.ofNat (g a)))).map f) = some (.ok a)
      rw [readUnsigned_ofNat hbits hword, Except.map, hf]
  rw [readSocMap, hmap]
  simp only [hread]
  rfl

/-- A map that was read is the map of the table that it was read from. -/
theorem eq_numbered_of_readSocMap (hfg : ∀ n, n < 2 ^ bits → g (f n) = n) {m : Table α} {v : Value}
    (hv : v.WellFormed) (hmap : t.get? map = some v)
    (h : readSocMap t map (fun v => (readUnsigned bits v).map f) = .ok m) :
    v = .ofTable (m.numbered g) := by
  have hread : readMap (fun v => (readUnsigned bits v).map f) v = .ok m := by
    rw [readSocMap, hmap] at h
    revert h
    dsimp only
    cases readMap (fun v => (readUnsigned bits v).map f) v <;> simp [Except.mapError]
  obtain ⟨s, hs, hget⟩ := readMap_eq_ok hread
  cases v with
  | table es =>
    -- the keys of the entries ascend, so that the table has these entries
    rw [Value.WellFormed] at hv
    have hsame : s = ⟨es, hv.1⟩ := (Option.some.inj hs).symm.trans (Table.ofList_entries ⟨es, hv.1⟩)
    have hnumbered : s = m.numbered g := by
      refine Table.ext_get? fun name => ?_
      have hname := hget name
      rw [Table.numbered, Table.get?_filterMap]
      cases hw : s.get? name with
      | none =>
        rw [hw, Option.map_none, eq_comm, Option.map_eq_none_iff] at hname
        rw [hname]
        rfl
      | some w =>
        rw [hw, Option.map_some, eq_comm, Option.map_eq_some_iff] at hname
        obtain ⟨a, ha, hok⟩ := hname
        have hnumber := readNumber_eq_ok hfg hok.symm
        rw [ha, Option.bind_some]
        cases w with
        | integer i =>
          have hi : i.toInt = (g a : Int) := Option.some.inj hnumber
          have hlt : (g a : Int) < 2 ^ 63 := hi ▸ i.toInt_lt
          have hword : g a < 2 ^ 63 := by exact_mod_cast hlt
          rw [← Int64.toInt_inj.1 (hi.trans (Int64.toInt_ofNat_of_lt hword).symm)]
        | _ => cases hnumber
    rw [Value.ofTable, ← hnumbered, hsame]
  | _ => cases hs

/-- The table has under the name of a map what was read there, or nothing was. -/
theorem get?_eq_of_readSocMap (hfg : ∀ n, n < 2 ^ bits → g (f n) = n) {m : Table α}
    (ht : (Value.ofTable t).WellFormed)
    (h : readSocMap t map (fun v => (readUnsigned bits v).map f) = .ok m) :
    t.get? map = some (.ofTable (m.numbered g)) ∨ t.get? map = none ∧ m = .empty := by
  cases hmap : t.get? map with
  | none =>
    rw [readSocMap, hmap] at h
    cases h
    exact Or.inr ⟨rfl, rfl⟩
  | some v =>
    have hv : v.WellFormed :=
      Value.wellFormedEntries_iff.1 ht.2 (map, v) (Table.get?_eq_some_iff.1 hmap)
    exact Or.inl (congrArg some (eq_numbered_of_readSocMap hfg hv hmap h))

end

/-! ### All maps -/

theorem admits_iff_of_ne (hmap : map ≠ "mem_map") (i : Int64) :
    0 ≤ i.toInt ∧ i.toInt < 2 ^ 32 ↔ Admits map i.toInt := by
  simp [Admits, hmap]

theorem admits_memory_iff (i : Int64) :
    0 ≤ i.toInt ∧ i.toInt < 2 ^ 64 ↔ Admits "mem_map" i.toInt := by
  have hlt : i.toInt < 2 ^ 63 := i.toInt_lt
  simp only [Admits, true_or, and_true, and_iff_left_iff_imp]
  omega

theorem exists_csr_iff (t : Table Value) :
    (∃ m, readSocMap t "csr_map" read32 = .ok m) ↔ Numbered t "csr_map" :=
  exists_readSocMap_iff (admits_iff_of_ne (by decide))

theorem exists_interrupt_iff (t : Table Value) :
    (∃ m, readSocMap t "interrupt_map" read32 = .ok m) ↔ Numbered t "interrupt_map" :=
  exists_readSocMap_iff (admits_iff_of_ne (by decide))

theorem exists_memory_iff (t : Table Value) :
    (∃ m, readSocMap t "mem_map" read64 = .ok m) ↔ Numbered t "mem_map" :=
  exists_readSocMap_iff admits_memory_iff

theorem exists_ofTable_iff : (∃ o, ofTable t = .ok o) ↔ ∀ map ∈ mapNames, Numbered t map := by
  simp only [mapNames, List.forall_mem_cons, ← exists_csr_iff, ← exists_interrupt_iff,
    ← exists_memory_iff, ofTable_eq_ok_iff]
  constructor
  · rintro ⟨o, hcsr, hinterrupt, hmemory, -⟩
    exact ⟨⟨_, hcsr⟩, ⟨_, hinterrupt⟩, ⟨_, hmemory⟩, fun _ h => absurd h List.not_mem_nil⟩
  · rintro ⟨⟨csr, hcsr⟩, ⟨interrupt, hinterrupt⟩, ⟨memory, hmemory⟩, -⟩
    exact ⟨⟨rest t, csr, interrupt, memory⟩, hcsr, hinterrupt, hmemory, rfl⟩

/-- The first of the maps that is no map of numbers is reported. -/
theorem ofTable_eq_error {e : Error} (h : ofTable t = .error e) :
    ∃ map ∈ mapNames, ¬ Numbered t map ∧ (∀ map' ∈ mapNames, map' < map → Numbered t map') ∧
      ∃ problem, e = .configuration ("soc." ++ map) problem := by
  have hnone {α : Type} {x : Outcome α} (hx : x = .error e) : ¬ ∃ m, x = .ok m := by
    rintro ⟨m, hm⟩
    cases hx.symm.trans hm
  have hfirst : ∀ map' ∈ mapNames, ¬ map' < "csr_map" := by decide
  have hsecond : ∀ map' ∈ mapNames, map' < "interrupt_map" → map' = "csr_map" := by decide
  have hthird : ∀ map' ∈ mapNames, map' < "mem_map" →
      map' = "csr_map" ∨ map' = "interrupt_map" := by
    decide
  simp only [ofTable, Outcome.bind_eq_error_iff] at h
  obtain hcsr | ⟨csr, hcsr, hinterrupt | ⟨interrupt, hinterrupt, hmemory | ⟨_, _, hpure⟩⟩⟩ := h
  · exact ⟨"csr_map", by decide, mt (exists_csr_iff t).2 (hnone hcsr),
      fun map' hmap' hlt => absurd hlt (hfirst map' hmap'), readSocMap_eq_error hcsr⟩
  · have hread : Numbered t "csr_map" := (exists_csr_iff t).1 ⟨csr, hcsr⟩
    exact ⟨"interrupt_map", by decide, mt (exists_interrupt_iff t).2 (hnone hinterrupt),
      fun map' hmap' hlt => hsecond map' hmap' hlt ▸ hread, readSocMap_eq_error hinterrupt⟩
  · refine ⟨"mem_map", by decide, mt (exists_memory_iff t).2 (hnone hmemory),
      fun map' hmap' hlt => ?_, readSocMap_eq_error hmemory⟩
    obtain rfl | rfl := hthird map' hmap' hlt
    · exact (exists_csr_iff t).1 ⟨csr, hcsr⟩
    · exact (exists_interrupt_iff t).1 ⟨interrupt, hinterrupt⟩
  · cases hpure

/-- Options are read from every table that is theirs but for maps without entries. -/
theorem ofTable_of_trims (hargs : ∀ map ∈ mapNames, o.args.get? map = none)
    (hmemory : ∀ name a, o.maps.memory.get? name = some a → a.toNat < 2 ^ 63)
    (h : Trims t o.toTable) : ofTable t = .ok o := by
  have h32 (m : Table UInt32) (name : String) (a : UInt32) (_ : m.get? name = some a) :
      a.toNat < 2 ^ 32 ∧ a.toNat < 2 ^ 63 := ⟨a.toNat_lt, a.toNat_lt.trans (by decide)⟩
  have h64 (name : String) (a : UInt64) (ha : o.maps.memory.get? name = some a) :
      a.toNat < 2 ^ 64 ∧ a.toNat < 2 ^ 63 := ⟨a.toNat_lt, hmemory name a ha⟩
  have hmap {map : String} {α : Type} {m : Table α} {g : α → Nat}
      (hm : o.toTable.get? map = some (.ofTable (m.numbered g))) :
      t.get? map = some (.ofTable (m.numbered g)) ∨ t.get? map = none ∧ m = .empty := by
    obtain hsame | ⟨-, hnone, hempty⟩ := h map
    · exact Or.inl (hsame ▸ hm)
    · exact Or.inr ⟨hnone, Table.eq_empty_of_numbered (Option.some.inj (hm.symm.trans hempty))⟩
  refine ofTable_eq_ok_iff.2 ⟨?_, ?_, ?_, Table.ext_get? fun k => ?_⟩
  · exact readSocMap_numbered (fun _ => UInt32.ofNat_toNat) (h32 _) (hmap (get?_toTable o _))
  · exact readSocMap_numbered (fun _ => UInt32.ofNat_toNat) (h32 _) (hmap (get?_toTable o _))
  · exact readSocMap_numbered (fun _ => UInt64.ofNat_toNat) h64 (hmap (get?_toTable o _))
  · rw [get?_rest]
    split_ifs with hk
    · exact hargs k hk
    · obtain hsame | ⟨hmem, -⟩ := h k
      · rw [← hsame, get?_toTable]
        simp only [mapNames, List.mem_cons, List.not_mem_nil, or_false, not_or] at hk
        rw [if_neg hk.2.2, if_neg hk.2.1, if_neg hk.1]
      · exact absurd hmem hk

/-! ### The parts of a table -/

/-- A table of options is taken apart into arguments and maps, or the first map in the order of the
names that is none is reported. -/
structure Partition (t : Table Value) : Prop where
  accepted : (∃ o, ofValue? (some (.ofTable t)) = .ok o) ↔ ∀ map ∈ mapNames, Numbered t map
  parts : ∀ o, ofValue? (some (.ofTable t)) = .ok o → o.args = rest t ∧ o.maps.Reads t
  /-- The parts make up the table again, but for maps without entries. -/
  rebuilt : ∀ o, ofValue? (some (.ofTable t)) = .ok o → (Value.ofTable t).WellFormed →
    Trims t o.toTable
  refused : ∀ e, ofValue? (some (.ofTable t)) = .error e →
    ∃ map ∈ mapNames, ¬ Numbered t map ∧ (∀ map' ∈ mapNames, map' < map → Numbered t map') ∧
      ∃ problem, e = .configuration ("soc." ++ map) problem

theorem trims_toTable (ht : (Value.ofTable t).WellFormed) (h : ofTable t = .ok o) :
    Trims t o.toTable := by
  intro k
  obtain ⟨hcsr, hinterrupt, hmemory, hargs⟩ := ofTable_eq_ok_iff.1 h
  rw [get?_toTable]
  split_ifs with hmem hint hcs
  · obtain hk | ⟨hnone, hempty⟩ :=
      get?_eq_of_readSocMap (fun _ hn => UInt64.toNat_ofNat_of_lt' hn) ht hmemory
    · exact Or.inl (hmem ▸ hk.symm)
    · exact Or.inr ⟨hmem ▸ by decide, hmem ▸ hnone, hempty ▸ rfl⟩
  · obtain hk | ⟨hnone, hempty⟩ :=
      get?_eq_of_readSocMap (fun _ hn => UInt32.toNat_ofNat_of_lt' hn) ht hinterrupt
    · exact Or.inl (hint ▸ hk.symm)
    · exact Or.inr ⟨hint ▸ by decide, hint ▸ hnone, hempty ▸ rfl⟩
  · obtain hk | ⟨hnone, hempty⟩ :=
      get?_eq_of_readSocMap (fun _ hn => UInt32.toNat_ofNat_of_lt' hn) ht hcsr
    · exact Or.inl (hcs ▸ hk.symm)
    · exact Or.inr ⟨hcs ▸ by decide, hcs ▸ hnone, hempty ▸ rfl⟩
  · have hk : k ∉ mapNames := by simp [mapNames, hmem, hint, hcs]
    rw [hargs, get?_rest, if_neg hk]
    exact Or.inl rfl

/-- Every table of options is taken apart into its parts, and parts that are put together into a
table, with or without the maps that have no entries, are found again. -/
theorem partition (t : Table Value) : Partition t ∧
    ∀ o : SocOptions, (∀ map ∈ mapNames, o.args.get? map = none) →
      (∀ name a, o.maps.memory.get? name = some a → a.toNat < 2 ^ 63) →
      Trims t o.toTable → ofValue? (some (.ofTable t)) = .ok o := by
  have hvalue : ofValue? (some (.ofTable t)) = ofTable t := Config.ofValue?_ofTable t
  rw [hvalue]
  refine ⟨⟨?_, fun o ho => ?_, fun o ho ht => ?_, fun e he => ?_⟩, fun o hargs hmemory h => ?_⟩
  · rw [hvalue]
    exact exists_ofTable_iff
  · rw [hvalue] at ho
    exact ⟨(ofTable_eq_ok_iff.1 ho).2.2.2, reads_of_ofTable ho⟩
  · exact trims_toTable ht (hvalue ▸ ho)
  · exact ofTable_eq_error (hvalue ▸ he)
  · exact ofTable_of_trims hargs hmemory h

/-- The map of register pages has no entries and is left out. -/
theorem partition_ethmac :
    let o : SocOptions := ⟨Table.empty.insert "ident" (.string "standalone"),
      ⟨.empty, Table.empty.insert "ethmac" 2, Table.empty.insert "ethmac" 0x50000000⟩⟩
    let t := o.toTable.erase "csr_map"
    t.names = ["ident", "interrupt_map", "mem_map"] ∧ Trims t o.toTable ∧
      ofValue? (some (.ofTable t)) = .ok o := by
  intro o t
  have hargs : ∀ map ∈ mapNames, o.args.get? map = none := by
    simp only [mapNames, List.forall_mem_cons]
    exact ⟨rfl, rfl, rfl, fun _ h => absurd h List.not_mem_nil⟩
  have hmemory (name : String) (a : UInt64) (ha : o.maps.memory.get? name = some a) :
      a.toNat < 2 ^ 63 := by
    rw [Table.get?_insert] at ha
    split_ifs at ha
    · cases ha
      decide
    · cases ha
  have htrims : Trims t o.toTable := by
    intro k
    rw [Table.get?_erase]
    split_ifs with hk
    · subst hk
      exact Or.inr ⟨by decide, rfl, get?_toTable o "csr_map"⟩
    · exact Or.inl rfl
  exact ⟨by decide +kernel, htrims, (partition t).2 o hargs hmemory htrims⟩

end SocOptions

end EtherCore
