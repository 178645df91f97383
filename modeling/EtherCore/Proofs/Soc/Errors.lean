import EtherCore.Proofs.Soc.Reserved

/-!
The errors of building a system.  Every check on the way names the configuration key that it is
about, so that a system that cannot be built is told by an error of a key (`build_configured`).  The
key is one below `soc`, but where the window of registers has no page (`build_about`).
-/

namespace EtherCore

open Outcome (FailsOnly)

/-! ### Errors of configuration keys -/

/-- An error is about a configuration key. -/
def Error.IsConfiguration (e : Error) : Prop := ∃ key problem, e = .configuration key problem

/-- An outcome that fails with errors of configuration keys only. -/
def Configured {α : Type} (x : Outcome α) : Prop := ∀ e, x = .error e → e.IsConfiguration

/-- An error is about a configuration key of a kind. -/
def Error.About (P : String → Prop) (e : Error) : Prop :=
  ∃ key problem, e = .configuration key problem ∧ P key

/-- A key below `soc`. -/
def SocKey (key : String) : Prop := ∃ rest, key = "soc." ++ rest

section

variable {α : Type} {P Q : String → Prop} {x : Outcome α}

theorem Error.About.imp {e : Error} (he : e.About P) (h : ∀ key, P key → Q key) : e.About Q := by
  obtain ⟨key, problem, rfl, hkey⟩ := he
  exact ⟨key, problem, rfl, h key hkey⟩

theorem configured_of_about (h : FailsOnly (Error.About P) x) : Configured x := by
  intro e he
  obtain ⟨key, problem, rfl, -⟩ := h e he
  exact ⟨key, problem, rfl⟩

theorem SocKey.refuses {key : String} (h : SocKey key) (problem : String) :
    FailsOnly (Error.About SocKey) (.error (.configuration key problem) : Outcome α) :=
  .fail ⟨key, problem, rfl, h⟩

theorem socKey_append {front name : String} (h : front = "soc." ++ name) (rest : String) :
    SocKey (front ++ rest) :=
  ⟨name ++ rest, by rw [h, String.append_assoc]⟩

end

/-! ### Regions -/

namespace AddressMap

theorem socKey_originKey (name : String) : SocKey (originKey name) :=
  socKey_append (show "soc.mem_map." = "soc." ++ "mem_map." from rfl) name

theorem checkOrigin_about (m : AddressMap) (name : String) (origin size : Nat) :
    FailsOnly (Error.About SocKey) (m.checkOrigin name origin size) := by
  have hkey := socKey_originKey name
  unfold checkOrigin
  dsimp only
  split
  · exact hkey.refuses _
  · split
    · exact hkey.refuses _
    · split
      · exact hkey.refuses _
      · exact .ok _

theorem originFor_about (m : AddressMap) (name : String) (region : Region) :
    FailsOnly (Error.About SocKey) (m.originFor name region) := by
  unfold originFor
  dsimp only
  split
  · exact (checkOrigin_about _ _ _ _).map _
  · split
    · exact .ok _
    · exact (socKey_originKey name).refuses _

/-- The one error about a region with a new name that is not about its origin is that it is empty. -/
theorem addSlave_about {m : AddressMap} {name : String} (hname : m.get? name = none)
    (region : Region) :
    FailsOnly (Error.About fun key => SocKey key ∨ key = name ∧ region.size = 0)
      (m.addSlave name region) := by
  unfold addSlave
  rw [hname]
  split
  · next h => cases h
  · split
    · next hsize => exact .fail ⟨name, _, rfl, Or.inr ⟨rfl, hsize⟩⟩
    · split
      · next e he =>
        have habout := originFor_about m name region e he
        exact .fail (habout.imp fun key => Or.inl)
      · exact .ok _

/-- A region with a new name is refused with an error of a key only. -/
theorem addSlave_configured {m : AddressMap} {name : String} (hname : m.get? name = none)
    (region : Region) : Configured (m.addSlave name region) :=
  configured_of_about (addSlave_about hname region)

end AddressMap

/-! ### Pages -/

namespace CsrWindow

theorem checkFixed_about (count : UInt32) (seen entries : List (String × UInt32)) :
    FailsOnly (Error.About SocKey) (checkFixed count seen entries) := by
  induction entries generalizing seen with
  | nil => exact .ok _
  | cons e entries ih =>
    have hkey : SocKey ("soc.csr_map." ++ e.1) :=
      socKey_append (show "soc.csr_map." = "soc." ++ "csr_map." from rfl) e.1
    rw [checkFixed]
    dsimp only
    split
    · exact hkey.refuses _
    · split
      · exact hkey.refuses _
      · exact ih _

theorem create_about (base paging : UInt64) (count : UInt32) (fixed : Table UInt32) :
    FailsOnly (Error.About SocKey) (create base paging count fixed) := by
  have hkey : SocKey "soc.csr_paging" := ⟨"csr_paging", rfl⟩
  unfold create
  split
  · next e he => exact (checkFixed_about _ _ _).error he
  · split
    · exact .ok _
    · exact hkey.refuses _

end CsrWindow

/-! ### Arguments -/

namespace Soc

theorem natArg_about (args : Table Value) (name : String) :
    FailsOnly (Error.About SocKey) (natArg args name) := by
  have hkey : SocKey ("soc." ++ name) := ⟨name, rfl⟩
  unfold natArg
  split
  · exact .ok _
  · dsimp only
    split
    · split
      · exact .ok _
      · exact hkey.refuses _
    · exact hkey.refuses _

theorem busWidth_about (args : Table Value) : FailsOnly (Error.About SocKey) (busWidth args) := by
  have hkey : SocKey "soc.bus_address_width" := ⟨"bus_address_width", rfl⟩
  refine (natArg_about args _).bind fun n _ => ?_
  dsimp only
  split
  · exact .ok _
  · exact hkey.refuses _

theorem csrPaging_about (args : Table Value) : FailsOnly (Error.About SocKey) (csrPaging args) := by
  have hkey : SocKey "soc.csr_paging" := ⟨"csr_paging", rfl⟩
  refine (natArg_about args _).bind fun n _ => ?_
  dsimp only
  split
  · exact .ok _
  · exact hkey.refuses _

theorem csrCount_about (args : Table Value) (paging : UInt64) :
    FailsOnly (Error.About SocKey) (csrCount args paging) := by
  have hkey : SocKey "soc.csr_address_width" := ⟨"csr_address_width", rfl⟩
  refine (natArg_about args _).bind fun n _ => ?_
  cases n with
  | none => exact .ok _
  | some width =>
    dsimp only
    split
    · exact .ok _
    · exact hkey.refuses _

theorem natArg_lt {args : Table Value} {name : String} {n : Nat}
    (h : natArg args name = .ok (some n)) : n < 2 ^ 63 := by
  unfold natArg at h
  split at h
  · cases h
  · dsimp only at h
    split at h
    · next k _ =>
      split at h
      · cases h
        have := k.toInt_lt
        omega
      · cases h
    · cases h

/-- The size of a page is a power of two. -/
theorem csrPaging_eq_ok {args : Table Value} {paging : UInt64} (h : csrPaging args = .ok paging) :
    paging.toNat ≠ 0 ∧ isPowerOfTwo paging.toNat := by
  simp only [csrPaging, Outcome.bind_eq_ok_iff] at h
  obtain ⟨n, hn, h⟩ := h
  split at h
  · next hpaging =>
    cases h
    have hlt : n.getD CsrWindow.defaultPaging.toNat < 2 ^ 64 := by
      cases n with
      | none => decide
      | some n =>
        have := natArg_lt hn
        rw [Option.getD_some]
        omega
    rw [UInt64.toNat_ofNat_of_lt' hlt]
    exact hpaging
  · cases h

theorem paging_pos {args : Table Value} {paging : UInt64} (h : csrPaging args = .ok paging) :
    0 < paging.toNat :=
  Nat.pos_of_ne_zero (csrPaging_eq_ok h).1

/-! ### Windows without pages -/

/-- The arguments are as they should be, but the address width that they give to the window of
registers holds less than a page, and no name is assigned one. -/
structure Pageless (args : Table Value) (maps : SocMaps) : Prop where
  busWidth : ∃ width, busWidth args = .ok width
  csrWidth : ∃ paging width, csrPaging args = .ok paging ∧
    natArg args "csr_address_width" = .ok (some width) ∧ width < 48 ∧ 2 ^ width * 4 < paging.toNat
  unassigned : maps.csr = .empty

theorem toNat_ofNat_held (n : Nat) :
    (UInt32.ofNat (min n (UInt32.size - 1))).toNat = min n (UInt32.size - 1) := by
  refine UInt32.toNat_ofNat_of_lt' ?_
  unfold UInt32.size
  omega

theorem ofNat_held_eq_zero_iff {n : Nat} : UInt32.ofNat (min n (UInt32.size - 1)) = 0 ↔ n = 0 := by
  rw [← UInt32.toNat_inj, toNat_ofNat_held, UInt32.toNat_zero]
  unfold UInt32.size
  omega

/-- A window has no page exactly if the address width that is given holds less than one. -/
theorem csrCount_eq_zero_iff {args : Table Value} {paging : UInt64} (h : 0 < paging.toNat) :
    csrCount args paging = .ok 0 ↔ ∃ width,
      natArg args "csr_address_width" = .ok (some width) ∧ width < 48 ∧
        2 ^ width * 4 < paging.toNat := by
  have hcount (width : Nat) :
      UInt32.ofNat (min (Nat.pow 2 width * 4 / paging.toNat) (UInt32.size - 1)) = 0 ↔
        2 ^ width * 4 < paging.toNat := by
    rw [ofNat_held_eq_zero_iff, Nat.div_eq_zero_iff_lt h]
    rfl
  simp only [csrCount, Outcome.bind_eq_ok_iff]
  constructor
  · rintro ⟨n, hn, hok⟩
    cases n with
    | none => cases hok
    | some width =>
      dsimp only at hok
      split at hok
      · next hwidth => exact ⟨width, hn, hwidth, (hcount width).1 (Outcome.pure_eq_ok_iff.1 hok)⟩
      · cases hok
  · rintro ⟨width, hn, hwidth, hlt⟩
    refine ⟨some width, hn, ?_⟩
    dsimp only
    rw [if_pos hwidth, Outcome.pure_eq_ok_iff]
    exact (hcount width).2 hlt

/-- The error about a window without pages is about the name of its region. -/
theorem Pageless.build_eq {args : Table Value} {maps : SocMaps} (h : Pageless args maps)
    (platform : Platform) (clock : Frequency) :
    build platform clock args maps = .error (.configuration "csr" "region size is zero") := by
  obtain ⟨width, hwidth⟩ := h.busWidth
  obtain ⟨paging, n, hpaging, hn⟩ := h.csrWidth
  have hcount := (csrCount_eq_zero_iff (paging_pos hpaging)).2 ⟨n, hn⟩
  have hmap : (SocMaps.defaults.update maps).csr = .empty := by
    rw [← h.unassigned]
    exact Table.empty_merge _
  have hcreate (base : UInt64) :
      CsrWindow.create base paging 0 .empty = .ok ⟨base, paging, 0, .empty, []⟩ :=
    if_pos (toNat_le_maxWord base)
  have hsize (base : UInt64) : CsrWindow.size ⟨base, paging, 0, .empty, []⟩ = 0 := rfl
  unfold build
  dsimp only
  rw [Outcome.bind_of_eq_ok hwidth, Outcome.bind_of_eq_ok hpaging, Outcome.bind_of_eq_ok hcount,
    hmap, Outcome.bind_of_eq_ok (hcreate _), hsize]
  rfl

theorem pageless_of_size_eq_zero {args : Table Value} {maps : SocMaps} {width : UInt32}
    {base paging : UInt64} {count : UInt32} {csr : CsrWindow} (hwidth : busWidth args = .ok width)
    (hpaging : csrPaging args = .ok paging) (hcount : csrCount args paging = .ok count)
    (hcsr : CsrWindow.create base paging count maps.csr = .ok csr) (hsize : csr.size = 0) :
    Pageless args maps := by
  obtain ⟨rfl, hsound⟩ := CsrWindow.create_eq_ok hcsr
  have hpos := paging_pos hpaging
  -- pages are not empty, so it is their number that is zero
  have hzero : count = 0 := by
    have hproduct := hsound.toNat_size
    rw [hsize, UInt64.toNat_zero, eq_comm, Nat.mul_eq_zero] at hproduct
    exact UInt32.toNat_inj.1 (hproduct.resolve_left (Nat.ne_of_gt hpos))
  subst hzero
  obtain ⟨n, hn⟩ := (csrCount_eq_zero_iff hpos).1 hcount
  refine ⟨⟨width, hwidth⟩, ⟨paging, n, hpaging, hn⟩, Table.ext_get? fun name => ?_⟩
  cases hl : maps.csr.get? name with
  | none => rfl
  | some l => exact absurd (hsound.fixed_lt name l hl) UInt32.not_lt_zero

/-! ### Systems -/

/-- The errors of a system are about keys below `soc`, unless its window has no page. -/
theorem build_about (platform : Platform) (clock : Frequency) (args : Table Value)
    (overrides : SocMaps) :
    FailsOnly (Error.About fun key => SocKey key ∨ key = "csr" ∧ Pageless args overrides)
      (build platform clock args overrides) := by
  have hmap : (SocMaps.defaults.update overrides).csr = overrides.csr := Table.empty_merge _
  have hsoc (e : Error) (he : e.About SocKey) :
      e.About fun key => SocKey key ∨ key = "csr" ∧ Pageless args overrides :=
    he.imp fun key => Or.inl
  unfold build
  refine ((busWidth_about args).mono hsoc).bind fun width hwidth => ?_
  refine ((csrPaging_about args).mono hsoc).bind fun paging hpaging => ?_
  refine ((csrCount_about args paging).mono hsoc).bind fun count hcount => ?_
  refine ((CsrWindow.create_about _ _ _ _).mono hsoc).bind fun csr hcsr => ?_
  refine FailsOnly.bind ((AddressMap.addSlave_about rfl _).mono fun e he => he.imp ?_)
    fun r _ => .ok _
  rw [hmap] at hcsr
  intro key hkey
  refine hkey.imp_right fun hempty => ⟨hempty.1, ?_⟩
  exact pageless_of_size_eq_zero hwidth hpaging hcount hcsr hempty.2

/-- A system that cannot be built is told by an error of a configuration key. -/
theorem build_configured (platform : Platform) (clock : Frequency) (args : Table Value)
    (overrides : SocMaps) : Configured (build platform clock args overrides) :=
  configured_of_about (build_about platform clock args overrides)

/-- In a system that was built no page is handed out, and `csr` is the only region. -/
theorem fresh_of_build {platform : Platform} {clock : Frequency} {args : Table Value}
    {overrides : SocMaps} {s : Soc} (h : build platform clock args overrides = .ok s) :
    s.csr.pages = [] ∧ ∀ name, name ≠ "csr" → s.bus.get? name = none := by
  obtain ⟨width, paging, count, csr, p, bus, -, -, -, hcsr, hbus, rfl⟩ := build_eq_ok_iff.1 h
  obtain ⟨rfl, -⟩ := CsrWindow.create_eq_ok hcsr
  obtain ⟨-, -, -, hp, rfl⟩ := AddressMap.addSlave_eq_ok_iff.1 hbus
  refine ⟨rfl, fun name hname => ?_⟩
  have hregion : p.name = "csr" := by rw [hp]
  simp [AddressMap.get?, AddressMap.empty, hregion, Ne.symm hname]

end Soc

end EtherCore
