import EtherCore.Config.SocOptions
import EtherCore.Proofs.Outcome
import EtherCore.Proofs.Table
import Mathlib.Algebra.Ring.Nat
import Mathlib.Data.List.Forall2

/-!
What the options of a system on chip hold.  The three maps hold the numbers that stand in the tables
of their names, and the arguments are all other entries (`ofTable_eq_ok_iff`); which maps are read
depends on nothing but the entries of these three names (`ofTable_congr`).
-/

namespace EtherCore

/-! ### Values by their kind -/

namespace Value

/-- The table that a value is. -/
def table? : Value → Option (Table Value)
  | .table es => some (.ofList es)
  | _ => none

/-- The number that a value is. -/
def number? : Value → Option Int
  | .integer n => some n.toInt
  | _ => none

end Value

/-! ### Maps of numbers -/

section

variable {α : Type} {read : Value → Except String α}

theorem readUnsigned_eq_ok {bits n : Nat} {v : Value} (h : readUnsigned bits v = .ok n) :
    v.number? = some (n : Int) ∧ n < 2 ^ bits := by
  cases v with
  | integer i =>
    rw [readUnsigned] at h
    split at h
    · next hi =>
      cases h
      refine ⟨?_, hi.2⟩
      rw [Value.number?, Int.toNat_of_nonneg (Int64.le_iff_toInt_le.1 hi.1)]
    · cases h
  | _ => cases h

theorem readEntries_eq_ok {es : List (String × Value)} {rs : List (String × α)}
    (h : readEntries read es = .ok rs) :
    List.Forall₂ (fun e r => e.1 = r.1 ∧ read e.2 = .ok r.2) es rs := by
  induction es generalizing rs with
  | nil =>
    cases h
    exact .nil
  | cons e es ih =>
    obtain ⟨k, v⟩ := e
    rw [readEntries] at h
    split at h
    · cases h
    · next a ha =>
      cases hrest : readEntries read es with
      | error problem =>
        rw [hrest] at h
        cases h
      | ok rs' =>
        rw [hrest] at h
        cases h
        exact .cons ⟨rfl, ha⟩ (ih hrest)

theorem lookup?_of_forall₂ {es : List (String × Value)} {rs : List (String × α)}
    (h : List.Forall₂ (fun e r => e.1 = r.1 ∧ read e.2 = .ok r.2) es rs) (k : String) :
    (Table.lookup? k es).map read = (Table.lookup? k rs).map .ok := by
  induction h with
  | nil => rfl
  | @cons e r es rs he _ ih =>
    obtain ⟨hkey, hread⟩ := he
    rw [Table.lookup?, Table.lookup?, hkey]
    split
    · exact congrArg some hread
    · exact ih

/-- A map holds what the entries of a table are read as. -/
theorem readMap_eq_ok {v : Value} {m : Table α} (h : readMap read v = .ok m) :
    ∃ t, v.table? = some t ∧ ∀ k, (t.get? k).map read = (m.get? k).map .ok := by
  cases v with
  | table es =>
    rw [readMap] at h
    cases hrs : readEntries read (Table.ofList es).entries with
    | error problem =>
      rw [hrs] at h
      cases h
    | ok rs =>
      rw [hrs] at h
      cases h
      have hread := readEntries_eq_ok hrs
      have hkeys : (Table.ofList es).entries.map (·.1) = rs.map (·.1) :=
        List.forall₂_eq_eq_eq ▸ (List.forall₂_map_left_iff.2 (List.forall₂_map_right_iff.2
          (hread.imp fun _ _ he => he.1)))
      have hascending : rs.Pairwise fun x y => x.1 < y.1 := by
        rw [← List.pairwise_map (f := Prod.fst) (R := (· < ·)), ← hkeys, List.pairwise_map]
        exact (Table.ofList es).ascending
      refine ⟨_, rfl, fun k => ?_⟩
      rw [Table.get?_ofList hascending]
      exact lookup?_of_forall₂ hread k
  | _ => cases h

end

/-! ### Options -/

namespace SocOptions

variable {t u : Table Value} {o : SocOptions}

/-- The names of the maps. -/
def mapNames : List String := ["csr_map", "interrupt_map", "mem_map"]

/-- The entries that are no maps. -/
def rest (t : Table Value) : Table Value :=
  ⟨t.entries.filter fun e => e.1 ∉ mapNames, t.ascending.filter _⟩

/-- The number under a name in one of the maps. -/
def mapped? (t : Table Value) (map name : String) : Option Int :=
  (((t.get? map).bind Value.table?).bind (·.get? name)).bind Value.number?

theorem get?_rest (t : Table Value) (k : String) :
    (rest t).get? k = if k ∈ mapNames then none else t.get? k := by
  simpa [rest] using Table.get?_filter (fun k => decide (k ∉ mapNames)) t k

theorem rest_eq_erase (t : Table Value) :
    ((t.erase "csr_map").erase "interrupt_map").erase "mem_map" = rest t := by
  refine Table.ext_get? fun k => ?_
  rw [get?_rest, Table.get?_erase, Table.get?_erase, Table.get?_erase]
  simp only [mapNames, List.mem_cons, List.not_mem_nil, or_false]
  split_ifs <;> simp_all

theorem readNumber_eq_ok {α : Type} {bits : Nat} {f : Nat → α} {g : α → Nat}
    (hfg : ∀ n, n < 2 ^ bits → g (f n) = n) {v : Value} {a : α}
    (h : (readUnsigned bits v).map f = .ok a) : v.number? = some (g a : Int) := by
  cases hn : readUnsigned bits v with
  | error problem =>
    rw [hn] at h
    cases h
  | ok n =>
    rw [hn] at h
    cases h
    obtain ⟨hnumber, hlt⟩ := readUnsigned_eq_ok hn
    rw [hnumber, hfg n hlt]

/-- A map that is read from numbers holds them, as what they become. -/
theorem readSocMap_eq_ok {α : Type} {bits : Nat} {f : Nat → α} {g : α → Nat}
    (hfg : ∀ n, n < 2 ^ bits → g (f n) = n) {map : String} {m : Table α}
    (h : readSocMap t map (fun v => (readUnsigned bits v).map f) = .ok m) (name : String) :
    (m.get? name).map (fun a => (g a : Int)) = mapped? t map name := by
  unfold readSocMap at h
  unfold mapped?
  split at h
  · next hnone =>
    cases h
    rw [hnone]
    rfl
  · next v hv =>
    cases hread : readMap (fun v => (readUnsigned bits v).map f) v with
    | error problem =>
      rw [hread] at h
      cases h
    | ok m' =>
      rw [hread] at h
      cases h
      obtain ⟨s, hs, hall⟩ := readMap_eq_ok hread
      have hname := hall name
      rw [hv, Option.bind_some, hs, Option.bind_some]
      cases hw : s.get? name with
      | none =>
        rw [hw, Option.map_none, eq_comm, Option.map_eq_none_iff] at hname
        rw [hname]
        rfl
      | some w =>
        rw [hw, Option.map_some, eq_comm, Option.map_eq_some_iff] at hname
        obtain ⟨a, ha, hok⟩ := hname
        rw [ha, Option.bind_some, readNumber_eq_ok hfg hok.symm, Option.map_some]

end SocOptions

/-- The maps hold the numbers of the maps in a table, and nothing else. -/
structure SocMaps.Reads (m : SocMaps) (t : Table Value) : Prop where
  csr : ∀ name, (m.csr.get? name).map (fun n => (n.toNat : Int))
    = SocOptions.mapped? t "csr_map" name
  interrupt : ∀ name, (m.interrupt.get? name).map (fun n => (n.toNat : Int))
    = SocOptions.mapped? t "interrupt_map" name
  memory : ∀ name, (m.memory.get? name).map (fun n => (n.toNat : Int))
    = SocOptions.mapped? t "mem_map" name

namespace SocOptions

variable {t u : Table Value} {o : SocOptions}

theorem ofTable_eq_ok_iff : ofTable t = .ok o ↔
    readSocMap t "csr_map" read32 = .ok o.maps.csr ∧
      readSocMap t "interrupt_map" read32 = .ok o.maps.interrupt ∧
      readSocMap t "mem_map" read64 = .ok o.maps.memory ∧ o.args = rest t := by
  obtain ⟨args, csr, interrupt, memory⟩ := o
  simp only [ofTable, Outcome.bind_eq_ok_iff, Outcome.pure_eq_ok_iff, rest_eq_erase, mk.injEq,
    SocMaps.mk.injEq]
  constructor
  · rintro ⟨csr', hcsr, interrupt', hinterrupt, memory', hmemory, rfl, rfl, rfl, rfl⟩
    exact ⟨hcsr, hinterrupt, hmemory, rfl⟩
  · rintro ⟨hcsr, hinterrupt, hmemory, rfl⟩
    exact ⟨csr, hcsr, interrupt, hinterrupt, memory, hmemory, rfl, rfl, rfl, rfl⟩

theorem reads_of_ofTable (h : ofTable t = .ok o) : o.maps.Reads t := by
  obtain ⟨hcsr, hinterrupt, hmemory, -⟩ := ofTable_eq_ok_iff.1 h
  have h32 (n : Nat) (hn : n < 2 ^ 32) : (UInt32.ofNat n).toNat = n := UInt32.toNat_ofNat_of_lt' hn
  have h64 (n : Nat) (hn : n < 2 ^ 64) : (UInt64.ofNat n).toNat = n := UInt64.toNat_ofNat_of_lt' hn
  exact ⟨readSocMap_eq_ok h32 hcsr, readSocMap_eq_ok h32 hinterrupt, readSocMap_eq_ok h64 hmemory⟩

/-- Tables with the same maps have the same options but for the arguments. -/
theorem ofTable_congr (hmaps : ∀ name ∈ mapNames, u.get? name = t.get? name)
    (h : ofTable t = .ok o) : ofTable u = .ok { o with args := rest u } := by
  obtain ⟨hcsr, hinterrupt, hmemory, -⟩ := ofTable_eq_ok_iff.1 h
  refine ofTable_eq_ok_iff.2 ⟨?_, ?_, ?_, rfl⟩
  · rwa [readSocMap, hmaps "csr_map" (by decide)]
  · rwa [readSocMap, hmaps "interrupt_map" (by decide)]
  · rwa [readSocMap, hmaps "mem_map" (by decide)]

end SocOptions

end EtherCore
