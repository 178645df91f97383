import EtherCore.Proofs.Bus.Window
import EtherCore.Proofs.List

/-!
Placement of regions over whole runs of requests.  What both ways to an origin grant is `Granted`;
from it every run keeps `Placed`, on a bus of any width.  On a bus of at most 63 bits no sum of an
address and a size leaves the words, and the regions are `WellPlaced` in exact numbers
(`run_wellPlaced`).
-/

namespace EtherCore

namespace AddressMap

/-! ### Requests -/

/-- The map after the request of a slave: a request that fails leaves it as it is. -/
def after (m : AddressMap) (request : String × Region) : AddressMap :=
  match m.addSlave request.1 request.2 with
  | .ok (_, m') => m'
  | .error _ => m

/-- The map after several requests. -/
def run (m : AddressMap) (requests : List (String × Region)) : AddressMap :=
  requests.foldl after m

/-- What holds of a map and is kept by every request holds after a run. -/
theorem run_induction {P : AddressMap → Prop} {m : AddressMap} (start : P m)
    (step : ∀ m request, P m → P (m.after request)) (requests : List (String × Region)) :
    P (m.run requests) := by
  induction requests generalizing m with
  | nil => exact start
  | cons request rest ih => exact ih (step m request start)

theorem addSlave_eq_ok_iff {m m' : AddressMap} {name : String} {region : Region}
    {p : PlacedRegion} :
    m.addSlave name region = .ok (p, m') ↔
      m.get? name = none ∧ region.size ≠ 0 ∧ m.originFor name region = .ok p.origin ∧
        p = ⟨name, p.origin, region.size, region.cached⟩ ∧
        m' = { m with regions := m.regions ++ [p] } := by
  unfold addSlave
  split
  · next h => simp [Option.isSome_iff_ne_none.1 h]
  · next h =>
    split
    · next hz => simp [hz]
    · next hz =>
      cases m.originFor name region with
      | error e => simp
      | ok o =>
        simp only [Except.ok.injEq, Prod.mk.injEq, Option.not_isSome_iff_eq_none.1 h, hz, ne_eq,
          not_false_eq_true, true_and]
        constructor
        · rintro ⟨rfl, rfl⟩
          exact ⟨rfl, rfl, rfl⟩
        · rintro ⟨rfl, hp, rfl⟩
          exact ⟨hp.symm, by rw [← hp]⟩

theorem after_of_ok {m m' : AddressMap} {request : String × Region} {p : PlacedRegion}
    (h : m.addSlave request.1 request.2 = .ok (p, m')) : m.after request = m' := by
  unfold after
  rw [h]

theorem after_of_error {m : AddressMap} {request : String × Region} {e : Error}
    (h : m.addSlave request.1 request.2 = .error e) : m.after request = m := by
  unfold after
  rw [h]

/-- What holds of a map and is kept where a region is placed is kept by every request. -/
theorem after_of_addSlave {P : AddressMap → Prop} {m : AddressMap} (start : P m)
    (request : String × Region)
    (step : ∀ p m', m.addSlave request.1 request.2 = .ok (p, m') → P m') :
    P (m.after request) := by
  cases h : m.addSlave request.1 request.2 with
  | error e => exact (after_of_error h).symm ▸ start
  | ok r => exact (after_of_ok h).symm ▸ step r.1 r.2 h

theorem width_run (m : AddressMap) (requests : List (String × Region)) :
    (m.run requests).width = m.width := by
  refine run_induction (P := fun m' => m'.width = m.width) rfl (fun n request hn => ?_) requests
  refine after_of_addSlave (P := fun n' => n'.width = m.width) hn request fun p n' h => ?_
  obtain ⟨-, -, -, -, rfl⟩ := addSlave_eq_ok_iff.1 h
  exact hn

theorem get?_eq_none_iff {m : AddressMap} {name : String} :
    m.get? name = none ↔ name ∉ m.regions.map (·.name) := by
  simp [get?]

/-! ### What an origin is granted for -/

/-- What holds of an origin for a window of a size, asked for or found: it is a multiple of the
size, unless it is the greatest word; the window ends on the bus as far as sums held to a word
tell; and it shares no address below the greatest word with a region. -/
structure Granted (m : AddressMap) (size origin : Nat) : Prop where
  aligned : size ∣ origin ∨ origin = maxWord
  held : addHeld origin size ≤ m.space
  free : ∀ r ∈ m.regions, ∀ a < maxWord, a ∈ r.window → a ∉ Set.Ico origin (origin + size)

theorem dvd_alignUp (address size : Nat) :
    size ∣ alignUp address size ∨ alignUp address size = maxWord := by
  unfold alignUp mulHeld
  rcases Nat.le_total ((address + size - 1) / size * size) maxWord with h | h
  · rw [Nat.min_eq_left h]
    exact Or.inl (Nat.dvd_mul_left ..)
  · exact Or.inr (Nat.min_eq_right h)

theorem search?_granted {m : AddressMap} {size candidate origin : Nat} (hsize : 0 < size)
    (haligned : size ∣ candidate ∨ candidate = maxWord) (hword : candidate ≤ maxWord)
    (h : search? m.regions m.space size candidate = some origin) :
    m.Granted size origin ∧ origin ≤ maxWord := by
  induction candidate using search?.induct m.regions m.space size with
  | case1 c hc hfree =>
    rw [search?, if_pos hc, hfree] at h
    obtain rfl : c = origin := by simpa using h
    exact ⟨⟨haligned, hc, (blocker?_eq_none_iff hsize).1 hfree⟩, hword⟩
  | case2 c hc r hr c' hle =>
    rw [search?, if_pos hc, hr] at h
    simp [c', hle] at h
  | case3 c hc r hr c' hgt ih =>
    rw [search?, if_pos hc, hr] at h
    dsimp only at h
    rw [if_neg hgt] at h
    exact ih (dvd_alignUp _ _) (mulHeld_le_maxWord ..) h
  | case4 c hc =>
    rw [search?, if_neg hc] at h
    cases h

theorem checkOrigin_eq_ok_iff {m : AddressMap} {name : String} {origin size : Nat} :
    m.checkOrigin name origin size = .ok () ↔
      size ∣ origin ∧ addHeld origin size ≤ m.space ∧ blocker? m.regions origin size = none := by
  rw [Nat.dvd_iff_mod_eq_zero]
  unfold checkOrigin
  dsimp only
  split
  · next h => simp [h]
  · next haligned =>
    split
    · next h => simp [Nat.not_le.2 h]
    · next hheld =>
      split
      · next hr => simp [hr]
      · next hfree => simp [not_not.1 haligned, Nat.not_lt.1 hheld, hfree]

theorem checkOrigin_eq_ok {m : AddressMap} {name : String} {origin size : Nat} (hsize : 0 < size)
    (h : m.checkOrigin name origin size = .ok ()) : m.Granted size origin := by
  obtain ⟨haligned, hheld, hfree⟩ := checkOrigin_eq_ok_iff.1 h
  exact ⟨Or.inl haligned, hheld, (blocker?_eq_none_iff hsize).1 hfree⟩

theorem originFor_granted {m : AddressMap} {name : String} {region : Region} {origin : UInt64}
    (h : m.originFor name region = .ok origin) :
    m.Granted (decodeSize region.size) origin.toNat ∧
      ∀ o, region.origin = some o → origin = o := by
  have hsize := decodeSize_pos region.size
  unfold originFor at h
  cases ho : region.origin with
  | some o =>
    simp only [ho] at h
    cases hcheck : m.checkOrigin name o.toNat (decodeSize region.size) with
    | error e => rw [hcheck] at h; cases h
    | ok u =>
      rw [hcheck] at h
      cases h
      exact ⟨checkOrigin_eq_ok hsize hcheck, fun _ h => by cases h; rfl⟩
  | none =>
    simp only [ho] at h
    split at h
    · next n hn =>
      cases h
      obtain ⟨hgranted, hword⟩ := search?_granted hsize (Or.inl (Nat.dvd_zero _)) (Nat.zero_le _) hn
      rw [toNat_ofNat_of_le hword]
      exact ⟨hgranted, fun _ h => by cases h⟩
    · cases h

/-! ### What every run keeps -/

/-- What holds of the regions of a bus of any width. -/
structure Placed (m : AddressMap) : Prop where
  names : (m.regions.map (·.name)).Nodup
  size_ne_zero : ∀ r ∈ m.regions, r.size ≠ 0
  aligned : ∀ r ∈ m.regions, r.decoded ∣ r.origin.toNat ∨ r.origin.toNat = maxWord
  held : ∀ r ∈ m.regions, addHeld r.origin.toNat r.decoded ≤ m.space
  apart : m.regions.Pairwise PlacedRegion.Apart

theorem placed_empty (width : UInt32) : (empty width).Placed := by
  constructor <;> simp [empty]

theorem Placed.addSlave {m m' : AddressMap} {name : String} {region : Region} {p : PlacedRegion}
    (hm : m.Placed) (h : m.addSlave name region = .ok (p, m')) : m'.Placed := by
  obtain ⟨hname, hzero, horigin, hp, rfl⟩ := addSlave_eq_ok_iff.1 h
  obtain ⟨hgranted, -⟩ := originFor_granted horigin
  have hpname : p.name = name := by rw [hp]
  have hpsize : p.size = region.size := by rw [hp]
  rw [← hpsize] at hgranted
  refine ⟨?_, forall_mem_concat hm.size_ne_zero (hpsize ▸ hzero),
    forall_mem_concat hm.aligned hgranted.aligned, forall_mem_concat hm.held hgranted.held, ?_⟩
  · rw [← hpname] at hname
    exact nodup_map_concat hm.names (get?_eq_none_iff.1 hname)
  · refine List.pairwise_append.2 ⟨hm.apart, List.pairwise_singleton _ _, ?_⟩
    intro r hr s hs
    rw [List.mem_singleton.1 hs]
    exact hgranted.free r hr

theorem Placed.after {m : AddressMap} (hm : m.Placed) (request : String × Region) :
    (m.after request).Placed :=
  after_of_addSlave hm request fun _ _ h => hm.addSlave h

/-- On a bus of any width every run of requests leaves its regions placed. -/
theorem placed_run (width : UInt32) (requests : List (String × Region)) :
    ((empty width).run requests).Placed :=
  run_induction (placed_empty width) (fun _ request hm => hm.after request) requests

/-! ### Exact placement -/

/-- The regions of a bus are placed in exact numbers: names are distinct, sizes are positive, the
decoded sizes are powers of two that hold them, origins are multiples of these, the decoded windows
end on the bus, and no two of them meet. -/
structure WellPlaced (m : AddressMap) : Prop where
  names : (m.regions.map (·.name)).Nodup
  sizes : ∀ r ∈ m.regions, 0 < r.size.toNat ∧ r.size.toNat ≤ r.decoded ∧ ∃ k, r.decoded = 2 ^ k
  aligned : ∀ r ∈ m.regions, r.decoded ∣ r.origin.toNat
  inside : ∀ r ∈ m.regions, r.origin.toNat + r.decoded ≤ 2 ^ m.width.toNat
  disjoint : m.regions.Pairwise fun r s => Disjoint r.window s.window

theorem space_eq_pow {m : AddressMap} (h : m.width.toNat ≤ 63) : m.space = 2 ^ m.width.toNat := by
  unfold space
  rw [if_pos (by omega)]
  rfl

theorem space_lt_maxWord {m : AddressMap} (h : m.width.toNat ≤ 63) : m.space < maxWord := by
  have hle : (2 : Nat) ^ m.width.toNat ≤ 2 ^ 63 := Nat.pow_le_pow_right (by omega) h
  rw [space_eq_pow h, maxWord_eq]
  omega

/-- On a bus of at most 63 bits no sum that was checked reaches the greatest word. -/
theorem Placed.inside {m : AddressMap} (hm : m.Placed) (hwidth : m.width.toNat ≤ 63)
    {r : PlacedRegion} (hr : r ∈ m.regions) : r.origin.toNat + r.decoded ≤ 2 ^ m.width.toNat := by
  have hheld := hm.held r hr
  rw [addHeld_eq_of_lt (Nat.lt_of_le_of_lt hheld (space_lt_maxWord hwidth)),
    space_eq_pow hwidth] at hheld
  exact hheld

theorem Placed.wellPlaced {m : AddressMap} (hm : m.Placed) (hwidth : m.width.toNat ≤ 63) :
    m.WellPlaced := by
  have hspace := space_lt_maxWord hwidth
  rw [space_eq_pow hwidth] at hspace
  have hinside : ∀ r ∈ m.regions, r.origin.toNat + r.decoded < maxWord := fun r hr =>
    Nat.lt_of_le_of_lt (hm.inside hwidth hr) hspace
  refine ⟨hm.names, fun r hr => ?_, fun r hr => ?_, fun r hr => hm.inside hwidth hr, ?_⟩
  · have hd : r.decoded = powerAbove r.size.toNat :=
      decodeSize_eq_of_lt (Nat.lt_of_le_of_lt (Nat.le_add_left ..) (hinside r hr))
    rw [hd]
    exact ⟨Nat.pos_of_ne_zero fun h => hm.size_ne_zero r hr (UInt64.toNat_inj.1 h),
      le_powerAbove _, powerAbove_eq_pow _⟩
  · rcases hm.aligned r hr with h | h
    · exact h
    · have := hinside r hr
      omega
  · refine hm.apart.imp_of_mem fun {r s} hr _ h => Set.disjoint_left.2 fun a har => h a ?_ har
    have := hinside r hr
    exact Nat.lt_trans har.2 this

/-- On a bus of at most 63 bits, the regions are well placed after every run of requests, a
request that fails leaves them as they are, and one that succeeds adds one region with the name,
the size and the caching that it asks for, at the origin that it asks for if it names one. -/
theorem run_wellPlaced {width : UInt32} (hwidth : width.toNat ≤ 63)
    (requests : List (String × Region)) :
    ((empty width).run requests).width = width ∧ ((empty width).run requests).WellPlaced ∧
      ∀ request : String × Region,
        let m := (empty width).run requests
        (∃ e, m.addSlave request.1 request.2 = .error e ∧ (m.after request).regions = m.regions) ∨
          ∃ p, m.addSlave request.1 request.2 = .ok (p, m.after request) ∧
            (m.after request).regions = m.regions ++ [p] ∧ p.name = request.1 ∧
            p.size = request.2.size ∧ p.cached = request.2.cached ∧
            ∀ o, request.2.origin = some o → p.origin = o := by
  have hw := width_run (empty width) requests
  refine ⟨hw, (placed_run width requests).wellPlaced (hw ▸ hwidth), fun request => ?_⟩
  intro m
  cases h : m.addSlave request.1 request.2 with
  | error e => exact Or.inl ⟨e, rfl, by rw [after_of_error h]⟩
  | ok r =>
    obtain ⟨p, m'⟩ := r
    rw [after_of_ok h]
    obtain ⟨-, -, horigin, hp, rfl⟩ := addSlave_eq_ok_iff.1 h
    refine Or.inr ⟨p, rfl, rfl, ?_, ?_, ?_, (originFor_granted horigin).2⟩ <;> rw [hp]

/-- A region at an origin that it asks for, one that is found a place before it, and two requests
that fail. -/
theorem run_wellPlaced_sixteen :
    let m := (empty 16).run [("sram", ⟨some 0x1000, 0x800, true⟩), ("ethmac", ⟨none, 3000, false⟩),
      ("ethmac", ⟨some 0, 1, false⟩), ("rom", ⟨some 2, 4, false⟩)]
    (16 : UInt32).toNat ≤ 63 ∧
      m.regions = [⟨"sram", 0x1000, 0x800, true⟩, ⟨"ethmac", 0, 3000, false⟩] ∧ m.WellPlaced :=
  ⟨by decide, by decide +kernel, (run_wellPlaced (by decide) _).2.1⟩

end AddressMap

end EtherCore
