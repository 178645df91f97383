import EtherCore.Proofs.Soc.Errors

/-!
The width of register addresses.  A width that is given counts words of four bytes, and the window
of registers is to have exactly the bytes that addresses of this width tell apart (`SpansWidth`).
It has them unless they make more pages than a 32-bit number counts, and is smaller then
(`build_spansWidth_iff`).
-/

namespace EtherCore.Soc

variable {args : Table Value}

/-! ### Pages for a width -/

theorem exists_paging_eq_pow {paging : UInt64} (h : csrPaging args = .ok paging) :
    ∃ k, paging.toNat = 2 ^ k := by
  obtain ⟨-, hpow⟩ := csrPaging_eq_ok h
  exact ⟨paging.toNat.log2, of_decide_eq_true hpow⟩

/-- A page divides the bytes of a width that holds it. -/
theorem paging_dvd {paging : UInt64} (h : csrPaging args = .ok paging) {width : Nat}
    (hle : paging.toNat ≤ 4 * 2 ^ width) : paging.toNat ∣ 4 * 2 ^ width := by
  obtain ⟨k, hk⟩ := exists_paging_eq_pow h
  have hbytes : 4 * 2 ^ width = 2 ^ (width + 2) := by
    rw [Nat.pow_add]
    omega
  rw [hk, hbytes] at hle ⊢
  exact Nat.pow_dvd_pow 2 ((Nat.pow_le_pow_iff_right (by decide)).1 hle)

/-- For a width that is given there are as many pages as hold its bytes, held to 32 bits. -/
theorem toNat_csrCount {paging : UInt64} {count : UInt32} (h : csrCount args paging = .ok count)
    {width : Int64} (hwidth : args.get? "csr_address_width" = some (.integer width)) :
    count.toNat = min (4 * 2 ^ width.toInt.toNat / paging.toNat) (2 ^ 32 - 1) := by
  simp only [csrCount, Outcome.bind_eq_ok_iff] at h
  obtain ⟨n, hn, h⟩ := h
  have harg : n = some width.toInt.toNat := by
    rw [natArg, hwidth] at hn
    dsimp only at hn
    split at hn
    · cases hn
      rfl
    · cases hn
  subst harg
  dsimp only at h
  split at h
  · obtain rfl := Outcome.pure_eq_ok_iff.1 h
    rw [toNat_ofNat_held, Nat.pow_eq, Nat.mul_comm]
    rfl
  · cases h

/-! ### Windows for a width -/

/-- The window of registers spans the addresses of a width.  It has their words of four bytes and no
more, in pages of the size that is given, and so has its region on the bus, in which the words
lie. -/
structure SpansWidth (s : Soc) (width : Nat) : Prop where
  size : s.csr.size.toNat = 4 * 2 ^ width
  pages : csrPaging s.args = .ok s.csr.paging ∧
    s.csr.count.toNat = 4 * 2 ^ width / s.csr.paging.toNat
  region : ∃ r, s.bus.get? "csr" = some r ∧ r.origin = s.csr.base ∧ r.size.toNat = 4 * 2 ^ width ∧
    ∀ word < 2 ^ width, ∀ byte < 4, s.csr.base.toNat + 4 * word + byte ∈
      Set.Ico r.origin.toNat (r.origin.toNat + r.size.toNat)

variable {platform : Platform} {clock : Frequency} {overrides : SocMaps} {s : Soc}

/-- A window that was built has pages of the size that is given, and as many as its arguments say,
but never none. -/
theorem csr_of_build (h : build platform clock args overrides = .ok s) :
    s.args = args ∧ csrPaging args = .ok s.csr.paging ∧
      csrCount args s.csr.paging = .ok s.csr.count ∧ s.csr.count.toNat ≠ 0 := by
  have hsound := (reserved_of_build h).sound
  obtain ⟨width, paging, count, csr, p, bus, -, hpaging, hcount, hcsr, hbus, rfl⟩ :=
    build_eq_ok_iff.1 h
  obtain ⟨rfl, -⟩ := CsrWindow.create_eq_ok hcsr
  obtain ⟨-, hsize, -⟩ := AddressMap.addSlave_eq_ok_iff.1 hbus
  refine ⟨rfl, hpaging, hcount, fun hzero => hsize ?_⟩
  rw [← UInt64.toNat_inj, hsound.toNat_size]
  show paging.toNat * count.toNat = 0
  have hzero' : count.toNat = 0 := hzero
  rw [hzero', Nat.mul_zero]

theorem paging_of_build (h : build platform clock args overrides = .ok s) {paging : UInt64}
    (hpaging : csrPaging args = .ok paging) : s.csr.paging = paging := by
  obtain ⟨-, hbuilt, -⟩ := csr_of_build h
  exact Except.ok.inj (hbuilt.symm.trans hpaging)

/-- A window whose pages are counted in full has all bytes of the width. -/
theorem spansWidth_of_count (h : build platform clock args overrides = .ok s) {width : Nat}
    (hcount : s.csr.count.toNat = 4 * 2 ^ width / s.csr.paging.toNat) : s.SpansWidth width := by
  obtain ⟨hargs, hpaging, -, hpos⟩ := csr_of_build h
  have hreserved := reserved_of_build h
  have hle : s.csr.paging.toNat ≤ 4 * 2 ^ width := by
    by_contra hlt
    rw [hcount, Nat.div_eq_of_lt (not_le.1 hlt)] at hpos
    exact hpos rfl
  have hsize : s.csr.size.toNat = 4 * 2 ^ width := by
    rw [hreserved.sound.toNat_size, hcount]
    exact Nat.mul_div_cancel' (paging_dvd hpaging hle)
  obtain ⟨r, hr, horigin, hregion⟩ := hreserved.region
  refine ⟨hsize, ⟨hargs ▸ hpaging, hcount⟩, r, hr, horigin, hregion ▸ hsize,
    fun word hword byte hbyte => ?_⟩
  rw [hregion, hsize, horigin]
  constructor
  · omega
  · omega

/-- In a system that is built with a width of register addresses, the window of registers spans the
addresses of this width if and only if a 32-bit number counts their pages. -/
theorem build_spansWidth_iff (h : build platform clock args overrides = .ok s) {width : Int64}
    (hwidth : args.get? "csr_address_width" = some (.integer width)) :
    s.SpansWidth width.toInt.toNat ↔
      4 * 2 ^ width.toInt.toNat / s.csr.paging.toNat < 2 ^ 32 := by
  obtain ⟨-, -, hcount, -⟩ := csr_of_build h
  have hheld := toNat_csrCount hcount hwidth
  constructor
  · intro hspans
    rw [← hspans.pages.2]
    exact s.csr.count.toNat_lt
  · intro hlt
    refine spansWidth_of_count h ?_
    omega

/-- A width of 15 bits at pages of 2048 bytes. -/
theorem build_spansWidth_fifteen :
    let args := Table.empty.insert "csr_address_width" (Value.integer 15)
    ∃ s, build ⟨.xilinx, "", .vivado⟩ ⟨100000000⟩ args .empty = .ok s ∧
      args.get? "csr_address_width" = some (.integer 15) ∧ s.csr.paging = 0x800 ∧
      s.SpansWidth 15 := by
  intro args
  obtain ⟨s, hs⟩ : ∃ s, build ⟨.xilinx, "", .vivado⟩ ⟨100000000⟩ args .empty = .ok s :=
    Outcome.exists_of_isOk (by decide +kernel)
  have hwidth : args.get? "csr_address_width" = some (.integer 15) := rfl
  have hpage : s.csr.paging = 0x800 := paging_of_build hs (by decide)
  refine ⟨s, hs, hwidth, hpage, (build_spansWidth_iff hs hwidth).2 ?_⟩
  rw [hpage]
  decide

/-- A width of 42 bits at pages of 2048 bytes makes `2 ^ 33` pages. -/
theorem not_spansWidth_held :
    let args := (Table.empty.insert "bus_address_width" (Value.integer 64)).insert
      "csr_address_width" (.integer 42)
    let maps : SocMaps := ⟨.empty, .empty, Table.empty.insert "csr" 0⟩
    ∃ s, build ⟨.xilinx, "", .vivado⟩ ⟨100000000⟩ args maps = .ok s ∧
      args.get? "csr_address_width" = some (.integer 42) ∧ ¬ s.SpansWidth 42 := by
  intro args maps
  obtain ⟨s, hs⟩ : ∃ s, build ⟨.xilinx, "", .vivado⟩ ⟨100000000⟩ args maps = .ok s :=
    Outcome.exists_of_isOk (by decide +kernel)
  have hpage : s.csr.paging = 0x800 := paging_of_build hs (by decide)
  have hwidth : args.get? "csr_address_width" = some (.integer 42) :=
    (Table.get?_insert ..).trans (if_pos rfl)
  refine ⟨s, hs, hwidth, fun hspans => ?_⟩
  have hcount := hspans.pages.2
  rw [hpage] at hcount
  have hlt := s.csr.count.toNat_lt
  rw [hcount] at hlt
  exact absurd hlt (by decide)

end EtherCore.Soc
