import EtherCore.Proofs.Bus.Pages
import EtherCore.Proofs.Bus.Placement
import EtherCore.Proofs.Outcome
import EtherCore.Soc.Context

/-!
The window of register pages on the bus.  Building a system places the window before any slave;
from there every interleaving of requests for regions and for pages keeps the pages inside the
window and away from every other region (`run_pagesApart`).
-/

namespace EtherCore

namespace Soc

/-! ### Building -/

theorem build_eq_ok_iff {platform : Platform} {clock : Frequency} {args : Table Value}
    {overrides : SocMaps} {s : Soc} :
    build platform clock args overrides = .ok s ↔
      let maps := SocMaps.defaults.update overrides
      let base := (maps.memory.get? "csr").getD CsrWindow.defaultBase
      ∃ width paging count csr p bus, busWidth args = .ok width ∧ csrPaging args = .ok paging ∧
        csrCount args paging = .ok count ∧
        CsrWindow.create base paging count maps.csr = .ok csr ∧
        (AddressMap.empty width).addSlave "csr" ⟨some base, csr.size, false⟩ = .ok (p, bus) ∧
        s = ⟨platform, clock, args, maps, bus, csr⟩ := by
  simp only [build, Outcome.bind_eq_ok_iff, Outcome.pure_eq_ok_iff]
  constructor
  · rintro ⟨width, hwidth, paging, hpaging, count, hcount, csr, hcsr, ⟨p, bus⟩, hbus, rfl⟩
    exact ⟨width, paging, count, csr, p, bus, hwidth, hpaging, hcount, hcsr, hbus, rfl⟩
  · rintro ⟨width, paging, count, csr, p, bus, hwidth, hpaging, hcount, hcsr, hbus, rfl⟩
    exact ⟨width, hwidth, paging, hpaging, count, hcount, csr, hcsr, (p, bus), hbus, rfl⟩

/-! ### Requests -/

/-- A request of a component to the system. -/
inductive Request where
  /-- A region on the bus. -/
  | slave (name : String) (region : Region)
  /-- A page of registers. -/
  | page (name : String)

/-- The system after a request: one that fails leaves it as it is. -/
def after (s : Soc) : Request → Soc
  | .slave name region => { s with bus := s.bus.after (name, region) }
  | .page name => { s with csr := s.csr.after name }

/-- The system after several requests. -/
def run (s : Soc) (requests : List Request) : Soc := requests.foldl after s

/-! ### What every run keeps -/

/-- The window of register pages has a region of its own on the bus. -/
structure Reserved (s : Soc) : Prop where
  placed : s.bus.Placed
  sound : s.csr.Sound
  paged : s.csr.Paged
  region : ∃ r, s.bus.get? "csr" = some r ∧ r.origin = s.csr.base ∧ r.size = s.csr.size

theorem reserved_of_build {platform : Platform} {clock : Frequency} {args : Table Value}
    {overrides : SocMaps} {s : Soc} (h : build platform clock args overrides = .ok s) :
    s.Reserved := by
  obtain ⟨width, paging, count, csr, p, bus, -, -, -, hcsr, hbus, rfl⟩ := build_eq_ok_iff.1 h
  obtain ⟨hcsr', hsound⟩ := CsrWindow.create_eq_ok hcsr
  obtain ⟨-, -, horigin, hp, hbus'⟩ := AddressMap.addSlave_eq_ok_iff.1 hbus
  refine ⟨(AddressMap.placed_empty width).addSlave hbus, hsound,
    CsrWindow.paged_of_pages_nil (by rw [hcsr']), p, ?_, ?_, ?_⟩
  · rw [hbus', hp]
    simp [AddressMap.get?, AddressMap.empty]
  · rw [(AddressMap.originFor_granted horigin).2 _ rfl, hcsr']
  · rw [hp]

theorem get?_after {m : AddressMap} {name : String} {r : PlacedRegion} (h : m.get? name = some r)
    (request : String × Region) : (m.after request).get? name = some r := by
  refine AddressMap.after_of_addSlave (P := fun m' => m'.get? name = some r) h request
    fun p m' hadd => ?_
  obtain ⟨-, -, -, -, rfl⟩ := AddressMap.addSlave_eq_ok_iff.1 hadd
  unfold AddressMap.get? at *
  rw [List.find?_append, h, Option.some_or]

theorem Reserved.after {s : Soc} (hs : s.Reserved) (request : Request) :
    (s.after request).Reserved := by
  cases request with
  | slave name region =>
    obtain ⟨r, hr, horigin, hsize⟩ := hs.region
    exact ⟨hs.placed.after _, hs.sound, hs.paged, r, get?_after hr _, horigin, hsize⟩
  | page name =>
    -- the pages are all that changes in the window
    refine CsrWindow.after_of_alloc (P := fun w => Reserved { s with csr := w }) hs name
      fun p w h => ?_
    have hpaged := hs.paged.alloc hs.sound h
    obtain ⟨-, -, -, -, rfl⟩ := CsrWindow.alloc_eq_ok_iff.1 h
    exact ⟨hs.placed, ⟨hs.sound.fixed_lt, hs.sound.fixed_inj, hs.sound.fits⟩, hpaged, hs.region⟩

theorem Reserved.run {s : Soc} (hs : s.Reserved) (requests : List Request) :
    (s.run requests).Reserved := by
  induction requests generalizing s with
  | nil => exact hs
  | cons request rest ih => exact ih (hs.after request)

/-! ### Pages and regions -/

/-- The pages of registers lie in the region of the window, apart from each other and from the
decoded windows of all other regions. -/
structure PagesApart (s : Soc) : Prop where
  inside : ∃ r, s.bus.get? "csr" = some r ∧ r.origin = s.csr.base ∧ r.size = s.csr.size ∧
    ∀ p ∈ s.csr.pages,
      s.csr.pageWindow p ⊆ Set.Ico r.origin.toNat (r.origin.toNat + r.size.toNat)
  disjoint : s.csr.pages.Pairwise fun p q => Disjoint (s.csr.pageWindow p) (s.csr.pageWindow q)
  others : ∀ p ∈ s.csr.pages, ∀ r ∈ s.bus.regions, r.name ≠ "csr" →
    Disjoint (s.csr.pageWindow p) r.window

theorem Reserved.pagesApart {s : Soc} (hs : s.Reserved) : s.PagesApart := by
  obtain ⟨r, hr, horigin, hsize⟩ := hs.region
  have hinside : ∀ p ∈ s.csr.pages,
      s.csr.pageWindow p ⊆ Set.Ico r.origin.toNat (r.origin.toNat + r.size.toNat) := fun p hp => by
    rw [horigin, hsize]
    exact hs.paged.page_subset hs.sound hp
  refine ⟨⟨r, hr, horigin, hsize, hinside⟩, hs.paged.pages_disjoint, fun p hp t ht hname => ?_⟩
  have hmem : r ∈ s.bus.regions := List.mem_of_find?_eq_some hr
  have hrname : r.name = "csr" := by simpa using List.find?_some hr
  have hne : r ≠ t := fun h => hname (h ▸ hrname)
  have hapart : r.Apart t := hs.placed.apart.forall hmem ht hne
  refine Set.disjoint_left.2 fun a hap hat => ?_
  obtain ⟨h1, h2⟩ := hinside p hp hap
  have hfits := hs.sound.fits
  rw [← hs.sound.toNat_size, ← horigin, ← hsize] at hfits
  have hwindow : a ∈ r.window := ⟨h1, Nat.lt_of_lt_of_le h2 (by have := r.size_le_decoded; omega)⟩
  exact hapart a (Nat.lt_of_lt_of_le h2 hfits) hwindow hat

/-- For every system that is built, whatever the arguments and the width of the bus, and after
every interleaving of requests for regions and for pages, the pages of registers lie in the region
of their window, apart from each other and from every other region. -/
theorem run_pagesApart {platform : Platform} {clock : Frequency} {args : Table Value}
    {overrides : SocMaps} {s : Soc} (h : build platform clock args overrides = .ok s)
    (requests : List Request) : (s.run requests).PagesApart :=
  ((reserved_of_build h).run requests).pagesApart

/-- A window next to the end of a bus of 64 bits, with regions asked for on both sides of it. -/
theorem run_pagesApart_full_width :
    let args := Table.empty.insert "bus_address_width" (Value.integer 64)
    let maps : SocMaps := ⟨Table.empty.insert "ethmac" 3, .empty,
      Table.empty.insert "csr" 0xfffffffffffe0000⟩
    ∃ s, build ⟨.xilinx, "", .vivado⟩ ⟨100000000⟩ args maps = .ok s ∧
      (s.run [.page "ethphy", .slave "ethmac" ⟨some 0xffffffffffff0000, 0x10000, false⟩,
        .page "ethmac", .slave "sram" ⟨none, 0x8000, true⟩]).PagesApart := by
  intro args maps
  obtain ⟨s, hs⟩ : ∃ s, build ⟨.xilinx, "", .vivado⟩ ⟨100000000⟩ args maps = .ok s :=
    Outcome.exists_of_isOk (by decide +kernel)
  exact ⟨s, hs, run_pagesApart hs _⟩

end Soc

end EtherCore
