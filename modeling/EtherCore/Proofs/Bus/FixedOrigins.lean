import EtherCore.Proofs.Bus.Placement
import EtherCore.Proofs.Outcome

/-!
Slaves that name their origins.  Whether one is placed depends on the bus and, for each region that
stands on it, on a relation of the two regions that is symmetric.  So a list of such slaves is
placed exactly if each lies well on the bus and any two of them get along (`accepts_iff`), which no
order of the list can change (`accepts_perm`).
-/

namespace EtherCore

namespace PlacedRegion

variable {r s : PlacedRegion}

/-! ### Regions that get along -/

/-- Two regions get along: they have different names, and the bus finds no overlap. -/
def Compatible (r s : PlacedRegion) : Prop :=
  r.name ≠ s.name ∧ r.overlaps s.origin.toNat s.decoded = false

/-- The overlap test gives the same for two regions in either order, also where their windows are
held to the greatest word. -/
theorem overlaps_comm (r s : PlacedRegion) :
    r.overlaps s.origin.toNat s.decoded = s.overlaps r.origin.toNat r.decoded :=
  Bool.and_comm ..

theorem Compatible.symm (h : r.Compatible s) : s.Compatible r :=
  ⟨h.1.symm, overlaps_comm s r ▸ h.2⟩

/-- A region lies well on a bus with a number of addresses, whatever else stands there: it is not
empty, its origin is a multiple of its decoded size, and its window stops on the bus. -/
structure Fits (space : Nat) (r : PlacedRegion) : Prop where
  size_ne_zero : r.size ≠ 0
  aligned : r.decoded ∣ r.origin.toNat
  held : r.stop ≤ space

end PlacedRegion

namespace AddressMap

variable {m m' : AddressMap} {p : PlacedRegion}

/-! ### One slave -/

theorem blocker?_eq_none_iff_overlaps {regions : List PlacedRegion} {origin size : Nat} :
    blocker? regions origin size = none ↔ ∀ r ∈ regions, r.overlaps origin size = false := by
  simp [blocker?]

/-- The region that a slave asks for, at the origin that it names. -/
def requested (request : String × Region) : PlacedRegion :=
  ⟨request.1, request.2.origin.getD 0, request.2.size, request.2.cached⟩

/-- A slave that names its origin is placed there, if and only if the region fits on the bus and
gets along with each that stands there. -/
theorem addSlave_requested_iff {request : String × Region} (hfixed : request.2.origin.isSome) :
    m.addSlave request.1 request.2 = .ok (p, m') ↔
      (requested request).Fits m.space ∧ (∀ r ∈ m.regions, r.Compatible (requested request)) ∧
        p = requested request ∧ m' = { m with regions := m.regions ++ [p] } := by
  obtain ⟨name, ⟨origin, size, cached⟩⟩ := request
  obtain ⟨o, rfl⟩ := Option.isSome_iff_exists.1 hfixed
  have horigin : m.originFor name ⟨some o, size, cached⟩ = .ok p.origin ↔
      m.checkOrigin name o.toNat (decodeSize size) = .ok () ∧ o = p.origin := by
    simp only [originFor]
    cases m.checkOrigin name o.toNat (decodeSize size) <;> simp [Except.map]
  rw [addSlave_eq_ok_iff, horigin, checkOrigin_eq_ok_iff, blocker?_eq_none_iff_overlaps,
    get?_eq_none_iff]
  constructor
  · rintro ⟨hname, hzero, ⟨⟨haligned, hheld, hclear⟩, horigin⟩, hp, hm⟩
    refine ⟨⟨hzero, haligned, hheld⟩, ?_, ?_, hm⟩
    · intro r hr
      refine ⟨?_, hclear r hr⟩
      intro hsame
      exact hname (List.mem_map.2 ⟨r, hr, hsame⟩)
    · rw [hp, ← horigin]
      rfl
  · rintro ⟨⟨hzero, haligned, hheld⟩, hcompatible, rfl, hm⟩
    refine ⟨?_, hzero, ⟨⟨haligned, hheld, ?_⟩, rfl⟩, rfl, hm⟩
    · intro hmem
      obtain ⟨r, hr, hname⟩ := List.mem_map.1 hmem
      exact (hcompatible r hr).1 hname
    · intro r hr
      exact (hcompatible r hr).2

theorem isOk_addSlave_iff {request : String × Region} (hfixed : request.2.origin.isSome) :
    (m.addSlave request.1 request.2).isOk ↔
      (requested request).Fits m.space ∧ ∀ r ∈ m.regions, r.Compatible (requested request) := by
  constructor
  · intro h
    obtain ⟨⟨p, m'⟩, hp⟩ := Outcome.exists_of_isOk h
    obtain ⟨hfits, hcompatible, -⟩ := (addSlave_requested_iff hfixed).1 hp
    exact ⟨hfits, hcompatible⟩
  · rintro ⟨hfits, hcompatible⟩
    rw [(addSlave_requested_iff hfixed).2 ⟨hfits, hcompatible, rfl, rfl⟩]
    rfl

theorem after_of_isOk {request : String × Region} (hfixed : request.2.origin.isSome)
    (h : (m.addSlave request.1 request.2).isOk) :
    m.after request = { m with regions := m.regions ++ [requested request] } := by
  obtain ⟨⟨p, m'⟩, hp⟩ := Outcome.exists_of_isOk h
  obtain ⟨-, -, rfl, rfl⟩ := (addSlave_requested_iff hfixed).1 hp
  exact after_of_ok hp

/-! ### Lists of slaves -/

/-- The slaves of a list are all placed, one after the other. -/
def Accepts (m : AddressMap) : List (String × Region) → Prop
  | [] => True
  | request :: rest => (m.addSlave request.1 request.2).isOk ∧ (m.after request).Accepts rest

/-- It is decided by placing the slaves. -/
instance decidableAccepts (m : AddressMap) : (requests : List (String × Region)) →
    Decidable (m.Accepts requests)
  | [] => inferInstanceAs (Decidable True)
  | request :: rest =>
    have := decidableAccepts (m.after request) rest
    inferInstanceAs (Decidable (_ ∧ _))

section

variable {requests requests' : List (String × Region)}
  (hfixed : ∀ request ∈ requests, request.2.origin.isSome)
include hfixed

/-- Slaves that name their origins are all placed if and only if their regions fit on the bus, get
along with the regions that stand there, and get along with each other. -/
theorem accepts_iff : m.Accepts requests ↔ (∀ p ∈ requests.map requested, p.Fits m.space) ∧
    (∀ p ∈ requests.map requested, ∀ r ∈ m.regions, r.Compatible p) ∧
      (requests.map requested).Pairwise PlacedRegion.Compatible := by
  induction requests generalizing m with
  | nil => simp [Accepts]
  | cons request rest ih =>
    obtain ⟨hrequest, hrest⟩ := List.forall_mem_cons.1 hfixed
    rw [Accepts, List.map_cons, List.forall_mem_cons, List.forall_mem_cons, List.pairwise_cons]
    constructor
    · rintro ⟨hok, hafter⟩
      obtain ⟨hfits, hcompatible⟩ := (isOk_addSlave_iff hrequest).1 hok
      rw [ih hrest, after_of_isOk hrequest hok] at hafter
      obtain ⟨hfits', hcompatible', hpairwise⟩ := hafter
      refine ⟨⟨hfits, hfits'⟩, ⟨hcompatible, ?_⟩, ?_, hpairwise⟩
      · intro p hp r hr
        exact hcompatible' p hp r (List.mem_append_left _ hr)
      · intro p hp
        exact hcompatible' p hp _ (List.mem_append_right _ List.mem_cons_self)
    · rintro ⟨⟨hfits, hfits'⟩, ⟨hcompatible, hcompatible'⟩, hfirst, hpairwise⟩
      have hok := (isOk_addSlave_iff hrequest).2 ⟨hfits, hcompatible⟩
      rw [ih hrest, after_of_isOk hrequest hok]
      refine ⟨hok, hfits', ?_, hpairwise⟩
      intro p hp
      exact forall_mem_concat (hcompatible' p hp) (hfirst p hp)

/-- They stand behind the regions that were there. -/
theorem regions_run_of_accepts (h : m.Accepts requests) :
    (m.run requests).regions = m.regions ++ requests.map requested := by
  induction requests generalizing m with
  | nil => simp [run]
  | cons request rest ih =>
    obtain ⟨hrequest, hrest⟩ := List.forall_mem_cons.1 hfixed
    obtain ⟨hok, hafter⟩ := h
    calc (m.run (request :: rest)).regions
        = ((m.after request).run rest).regions := rfl
      _ = (m.after request).regions ++ rest.map requested := ih hrest hafter
      _ = m.regions ++ (request :: rest).map requested := by
        rw [after_of_isOk hrequest hok, List.map_cons, List.append_assoc, List.singleton_append]

/-- If slaves that name their origins are all placed in one order, they are all placed in every
order, and the same regions stand on the bus then. -/
theorem accepts_perm (hperm : requests'.Perm requests) (h : m.Accepts requests) :
    m.Accepts requests' ∧ (m.run requests').regions.Perm (m.run requests).regions := by
  have hfixed' : ∀ request ∈ requests', request.2.origin.isSome := by
    intro request hrequest
    exact hfixed request (hperm.mem_iff.1 hrequest)
  have hregions := hperm.map requested
  have haccepts : m.Accepts requests' := by
    obtain ⟨hfits, hcompatible, hpairwise⟩ := (accepts_iff hfixed).1 h
    refine (accepts_iff hfixed').2 ⟨?_, ?_, ?_⟩
    · intro p hp
      exact hfits p (hregions.mem_iff.1 hp)
    · intro p hp
      exact hcompatible p (hregions.mem_iff.1 hp)
    · exact (hregions.pairwise_iff PlacedRegion.Compatible.symm).2 hpairwise
  refine ⟨haccepts, ?_⟩
  rw [regions_run_of_accepts hfixed h, regions_run_of_accepts hfixed' haccepts]
  exact hregions.append_left _

end

/-- Three slaves on a bus of 64 bits, one of them at the last address, where sums are held. -/
theorem accepts_perm_last_address :
    let m := (empty 64).run [("csr", ⟨some 0xf0000000, 0x10000, false⟩)]
    let requests : List (String × Region) := [("sram", ⟨some 0, 0x2000, true⟩),
      ("top", ⟨some 0xffffffffffffffff, 1, false⟩), ("rom", ⟨some 0x8000, 3000, true⟩)]
    (∀ request ∈ requests, request.2.origin.isSome) ∧ m.Accepts requests ∧
      m.Accepts requests.reverse ∧
      (m.run requests.reverse).regions.Perm (m.run requests).regions := by
  intro m requests
  have hfixed : ∀ request ∈ requests, request.2.origin.isSome := by decide
  have haccepts : m.Accepts requests := by decide +kernel
  obtain ⟨hreverse, hregions⟩ := accepts_perm hfixed (List.reverse_perm requests) haccepts
  exact ⟨hfixed, haccepts, hreverse, hregions⟩

end AddressMap

end EtherCore
