import EtherCore.Proofs.Bus.Pages

/-!
Windows in which no page is left for a name.  The search for a free location looks no further than
one location more than are excluded, and still it misses none (`freeLocation?_eq_none_iff`).  So in
a window that was opened a name without a page gets one unless the window is exhausted for it
(`alloc_eq_error_iff`).
-/

namespace EtherCore.CsrWindow

/-- No page is left for a name: the name is assigned no location, and every location is assigned to
a name or that of a page. -/
structure Exhausted (w : CsrWindow) (name : String) : Prop where
  unassigned : w.fixed.get? name = none
  full : ∀ l < w.count, l ∈ w.fixed.values ∨ ∃ p ∈ w.pages, p.location = l

/-- The error for a name without a page. -/
def noPage (name : String) : Error :=
  .configuration "soc.csr_map" ("no free CSR page left for '" ++ name ++ "'")

theorem mem_taken_iff {w : CsrWindow} {l : UInt32} :
    l ∈ w.taken ↔ l ∈ w.fixed.values ∨ ∃ p ∈ w.pages, p.location = l := by
  simp [taken]

theorem freeLocation?_eq_none_iff {w : CsrWindow} :
    w.freeLocation? = none ↔ ∀ l < w.count, l ∈ w.taken := by
  constructor
  · intro h l hl
    have hsearched : ∀ n < min w.count.toNat (w.taken.length + 1), UInt32.ofNat n ∈ w.taken := by
      intro n hn
      have := List.find?_eq_none.1 h (UInt32.ofNat n) (List.mem_map_of_mem (List.mem_range.2 hn))
      simpa using this
    by_cases hcount : w.count.toNat ≤ w.taken.length + 1
    · have hlt := UInt32.lt_iff_toNat_lt.1 hl
      have := hsearched l.toNat (Nat.lt_min.2 ⟨hlt, Nat.lt_of_lt_of_le hlt hcount⟩)
      rwa [UInt32.ofNat_toNat] at this
    · -- more locations were searched than are excluded, so one of them was free
      exfalso
      have hlt : w.taken.length + 1 < UInt32.size :=
        Nat.lt_trans (Nat.lt_of_not_le hcount) w.count.toNat_lt
      have hnodup : ((List.range (w.taken.length + 1)).map UInt32.ofNat).Nodup := by
        refine List.nodup_range.map_on fun x hx y hy hxy => ?_
        have hx' := Nat.lt_trans (List.mem_range.1 hx) hlt
        have hy' := Nat.lt_trans (List.mem_range.1 hy) hlt
        have := congrArg UInt32.toNat hxy
        rwa [UInt32.toNat_ofNat_of_lt' hx', UInt32.toNat_ofNat_of_lt' hy'] at this
      have hsubset : (List.range (w.taken.length + 1)).map UInt32.ofNat ⊆ w.taken := by
        intro x hx
        obtain ⟨n, hn, rfl⟩ := List.mem_map.1 hx
        have := List.mem_range.1 hn
        exact hsearched n (by omega)
      have := hnodup.length_le_of_subset hsubset
      rw [List.length_map, List.length_range] at this
      exact Nat.not_succ_le_self _ this
  · intro h
    cases hfree : w.freeLocation? with
    | none => rfl
    | some l =>
      obtain ⟨hlt, hnew⟩ := freeLocation?_eq_some hfree
      exact absurd (h l hlt) hnew

theorem locationFor_eq_error_iff {w : CsrWindow} {name : String} {e : Error} :
    w.locationFor name = .error e ↔ w.Exhausted name ∧ e = noPage name := by
  unfold locationFor
  split
  · next l hl =>
    constructor
    · intro h
      cases h
    · rintro ⟨hexhausted, -⟩
      rw [hexhausted.unassigned] at hl
      cases hl
  · next hnone =>
    split
    · next l hl =>
      obtain ⟨hlt, hnew⟩ := freeLocation?_eq_some hl
      constructor
      · intro h
        cases h
      · rintro ⟨hexhausted, -⟩
        exact absurd (mem_taken_iff.2 (hexhausted.full l hlt)) hnew
    · next hfull =>
      have hexhausted : w.Exhausted name :=
        ⟨hnone, fun l hl => mem_taken_iff.1 (freeLocation?_eq_none_iff.1 hfull l hl)⟩
      rw [Except.error.injEq]
      exact ⟨fun h => ⟨hexhausted, h.symm⟩, fun h => h.2.symm⟩

/-- A name without a page gets none exactly if the window is exhausted for it. -/
theorem alloc_eq_error_iff {w : CsrWindow} (hs : w.Sound) (hw : w.Paged) {name : String}
    (hnew : ∀ q ∈ w.pages, q.name ≠ name) {e : Error} :
    w.alloc name = .error e ↔ w.Exhausted name ∧ e = noPage name := by
  have hany : ¬ (w.pages.any fun p => p.name = name) = true := by simpa using hnew
  unfold alloc
  rw [if_neg hany, ← locationFor_eq_error_iff]
  cases hl : w.locationFor name with
  | error e' => rw [Except.error.injEq, Except.error.injEq]
  | ok l =>
    -- the location lies in the window, which ends at the greatest word at most
    obtain ⟨hlt, -⟩ := hw.location_new hs hnew hl
    have hstop : l.toNat * w.paging.toNat ≤ w.paging.toNat * w.count.toNat := by
      rw [Nat.mul_comm]
      exact Nat.mul_le_mul_left _ (Nat.le_of_lt (UInt32.lt_iff_toNat_lt.1 hlt))
    have hfits := hs.fits
    have hle : w.base.toNat + l.toNat * w.paging.toNat ≤ maxWord := by omega
    simp [hle]

/-- A window stays sound when a page is handed out. -/
theorem Sound.alloc {w w' : CsrWindow} (hs : w.Sound) {name : String} {p : CsrPage}
    (h : w.alloc name = .ok (p, w')) : w'.Sound := by
  obtain ⟨-, -, -, -, rfl⟩ := alloc_eq_ok_iff.1 h
  exact ⟨hs.fixed_lt, hs.fixed_inj, hs.fits⟩

end EtherCore.CsrWindow
