import EtherCore.Proofs.Bus.Pages

/-!
Opening a window of register pages.  The contract is in exact numbers: the assigned locations lie in
the window, no two names share one, and the window ends among `2 ^ 64` addresses (`OpensExactly`).
The check of the end is one address short, so that the contract fails for the windows that end with
the last address, and for no others (`opensExactly_iff`).
-/

namespace EtherCore.CsrWindow

/-! ### Names that keep a window from opening -/

/-- A name is assigned a location at which there is no page, or the location of a name before it. -/
def Offends (count : UInt32) (fixed : Table UInt32) (name : String) : Prop :=
  ∃ l, fixed.get? name = some l ∧ (count ≤ l ∨ ∃ other < name, fixed.get? other = some l)

/-- An error of the check is about an entry whose predecessors all pass. -/
theorem checkFixed_eq_error {count : UInt32} {seen entries : List (String × UInt32)} {e : Error}
    (h : checkFixed count seen entries = .error e) :
    ∃ before name l after, entries = before ++ (name, l) :: after ∧
      checkFixed count seen before = .ok () ∧ e.key? = some ("soc.csr_map." ++ name) ∧
      (count ≤ l ∨ ∃ s, (s ∈ before ∨ s ∈ seen) ∧ s.2 = l) := by
  induction entries generalizing seen with
  | nil => cases h
  | cons entry entries ih =>
    obtain ⟨name, l⟩ := entry
    rw [checkFixed] at h
    by_cases hcount : count ≤ l
    · rw [if_pos hcount] at h
      cases h
      exact ⟨[], name, l, entries, rfl, rfl, rfl, Or.inl hcount⟩
    · rw [if_neg hcount] at h
      cases hseen : seen.find? fun s => s.2 = l with
      | some s =>
        rw [hseen] at h
        cases h
        have hl : s.2 = l := by simpa using List.find?_some hseen
        exact ⟨[], name, l, entries, rfl, rfl, rfl,
          Or.inr ⟨s, Or.inr (List.mem_of_find?_eq_some hseen), hl⟩⟩
      | none =>
        rw [hseen] at h
        obtain ⟨before, name', l', after, rfl, hbefore, hkey, hcause⟩ := ih h
        refine ⟨(name, l) :: before, name', l', after, rfl, ?_, hkey, ?_⟩
        · rw [checkFixed, if_neg hcount, hseen]
          exact hbefore
        · refine hcause.imp_right ?_
          rintro ⟨s, hs, hl⟩
          refine ⟨s, ?_, hl⟩
          rcases hs with hs | hs
          · exact Or.inl (List.mem_cons_of_mem _ hs)
          · rcases List.mem_cons.1 hs with rfl | hs
            · exact Or.inl List.mem_cons_self
            · exact Or.inr hs

variable {count : UInt32} {fixed : Table UInt32}

/-- The error of the check is about the first name that keeps the window from opening. -/
theorem isLeast_of_checkFixed {e : Error} (h : checkFixed count [] fixed.entries = .error e) :
    ∃ name, IsLeast {name | Offends count fixed name} name ∧
      e.key? = some ("soc.csr_map." ++ name) := by
  obtain ⟨before, name, l, after, hentries, hbefore, hkey, hcause⟩ := checkFixed_eq_error h
  obtain ⟨hlt, hnodup, -⟩ := checkFixed_eq_ok_iff.1 hbefore
  have hget {k : String} {v : UInt32} :
      fixed.get? k = some v ↔ (k, v) ∈ before ++ (name, l) :: after := by
    rw [Table.get?_eq_some_iff, hentries]
  have hascending := fixed.ascending
  rw [hentries, List.pairwise_append, List.pairwise_cons] at hascending
  obtain ⟨-, ⟨hafter, -⟩, hfront⟩ := hascending
  -- the names in front of this one are those of the entries before it
  have hmem {k : String} {v : UInt32} (hk : k < name) (hv : fixed.get? k = some v) :
      (k, v) ∈ before := by
    rcases List.mem_append.1 (hget.1 hv) with hin | hin
    · exact hin
    · rcases List.mem_cons.1 hin with heq | hin
      · obtain ⟨rfl, -⟩ := Prod.mk.inj heq
        exact absurd hk (lt_irrefl _)
      · exact absurd (hafter _ hin) (lt_asymm hk)
  refine ⟨name, ⟨⟨l, hget.2 (by simp), ?_⟩, fun other hother => ?_⟩, hkey⟩
  · refine hcause.imp_right ?_
    rintro ⟨⟨k, v⟩, hs, hl⟩
    obtain rfl : v = l := hl
    have hs' : (k, v) ∈ before := by simpa using hs
    exact ⟨k, hfront _ hs' _ List.mem_cons_self, hget.2 (List.mem_append_left _ hs')⟩
  · by_contra hle
    have hbelow : other < name := not_le.1 hle
    obtain ⟨v, hv, hrange | ⟨third, hthird, hv'⟩⟩ := hother
    · have hin := hlt _ (hmem hbelow hv)
      exact absurd hin (UInt32.not_lt.2 hrange)
    · have hin := hmem hbelow hv
      have hin' := hmem (lt_trans hthird hbelow) hv'
      have heq := List.inj_on_of_nodup_map hnodup hin hin' rfl
      exact absurd hthird (by rw [(Prod.mk.inj heq).1]; exact lt_irrefl _)

/-- No name keeps a window from opening exactly if the locations are in range and distinct. -/
theorem forall_not_offends_iff :
    (∀ name, ¬ Offends count fixed name) ↔
      (∀ name l, fixed.get? name = some l → l < count) ∧
        ∀ name name' l, fixed.get? name = some l → fixed.get? name' = some l → name = name' := by
  constructor
  · intro h
    refine ⟨fun name l hl => ?_, fun name name' l hl hl' => ?_⟩
    · by_contra hlt
      exact h name ⟨l, hl, Or.inl (UInt32.not_lt.1 hlt)⟩
    · rcases lt_trichotomy name name' with hlt | heq | hgt
      · exact absurd ⟨l, hl', Or.inr ⟨name, hlt, hl⟩⟩ (h name')
      · exact heq
      · exact absurd ⟨l, hl, Or.inr ⟨name', hgt, hl'⟩⟩ (h name)
  · rintro ⟨hrange, hinj⟩ name ⟨l, hl, hcount | ⟨other, hother, hl'⟩⟩
    · exact absurd (hrange name l hl) (UInt32.not_lt.2 hcount)
    · rw [hinj other name l hl' hl] at hother
      exact lt_irrefl _ hother

/-- The check passes exactly if no name keeps the window from opening. -/
theorem checkFixed_eq_ok_iff_forall :
    checkFixed count [] fixed.entries = .ok () ↔ ∀ name, ¬ Offends count fixed name := by
  constructor
  · intro h
    obtain ⟨hlt, hnodup, -⟩ := checkFixed_eq_ok_iff.1 h
    refine forall_not_offends_iff.2 ⟨fun name l hl => hlt _ (Table.get?_eq_some_iff.1 hl),
      fun name name' l hl hl' => ?_⟩
    have heq := List.inj_on_of_nodup_map hnodup (Table.get?_eq_some_iff.1 hl)
      (Table.get?_eq_some_iff.1 hl') rfl
    exact (Prod.mk.inj heq).1
  · intro h
    cases hfixed : checkFixed count [] fixed.entries with
    | error e =>
      obtain ⟨name, hname, -⟩ := isLeast_of_checkFixed hfixed
      exact absurd hname.1 (h name)
    | ok u => rfl

/-! ### Windows that are opened -/

section Open

variable {base paging : UInt64}

/-- A window is refused for the first of the names that keep it from opening. -/
theorem create_of_offends (h : ∃ name, Offends count fixed name) :
    ∃ name e, IsLeast {name | Offends count fixed name} name ∧
      create base paging count fixed = .error e ∧ e.key? = some ("soc.csr_map." ++ name) := by
  unfold create
  cases hfixed : checkFixed count [] fixed.entries with
  | error e =>
    obtain ⟨name, hname, hkey⟩ := isLeast_of_checkFixed hfixed
    exact ⟨name, e, hname, rfl, hkey⟩
  | ok u =>
    obtain ⟨name, hname⟩ := h
    exact absurd hname (checkFixed_eq_ok_iff_forall.1 hfixed name)

/-- Where no name keeps a window from opening, it is opened if it ends at the greatest word at
most. -/
theorem create_of_fits (h : ∀ name, ¬ Offends count fixed name)
    (hfits : base.toNat + paging.toNat * count.toNat ≤ maxWord) :
    create base paging count fixed = .ok ⟨base, paging, count, fixed, []⟩ := by
  rw [create, checkFixed_eq_ok_iff_forall.2 h]
  exact if_pos hfits

/-- Where no name keeps a window from opening, it is refused for its size if it ends beyond the
greatest word. -/
theorem create_of_overflows (h : ∀ name, ¬ Offends count fixed name)
    (hover : maxWord < base.toNat + paging.toNat * count.toNat) :
    ∃ e, create base paging count fixed = .error e ∧ e.key? = some "soc.csr_paging" := by
  rw [create, checkFixed_eq_ok_iff_forall.2 h]
  exact ⟨_, if_neg (not_le.2 hover), rfl⟩

/-- The contract of opening a window, in exact numbers.  It is opened exactly if the assigned
locations are in range, no two names share one, and it ends among `2 ^ 64` addresses.  Otherwise the
error is about the first name that is in its way, and about the size of the pages if none is. -/
structure OpensExactly (base paging : UInt64) (count : UInt32) (fixed : Table UInt32) : Prop where
  opens_iff : (∃ w, create base paging count fixed = .ok w) ↔
    (∀ name l, fixed.get? name = some l → l < count) ∧
      (∀ name name' l, fixed.get? name = some l → fixed.get? name' = some l → name = name') ∧
      base.toNat + paging.toNat * count.toNat ≤ 2 ^ 64
  offending : (∃ name, Offends count fixed name) →
    ∃ name e, IsLeast {name | Offends count fixed name} name ∧
      create base paging count fixed = .error e ∧ e.key? = some ("soc.csr_map." ++ name)
  overflowing : (∀ name, ¬ Offends count fixed name) →
    2 ^ 64 < base.toNat + paging.toNat * count.toNat →
      ∃ e, create base paging count fixed = .error e ∧ e.key? = some "soc.csr_paging"

/-- The contract is kept but for a window that ends with the last address and whose assigned
locations are in order. -/
theorem opensExactly_iff (base paging : UInt64) (count : UInt32) (fixed : Table UInt32) :
    OpensExactly base paging count fixed ↔
      ¬ ((∀ name, ¬ Offends count fixed name) ∧
        base.toNat + paging.toNat * count.toNat = 2 ^ 64) := by
  constructor
  · rintro h ⟨horder, hend⟩
    obtain ⟨hrange, hinj⟩ := forall_not_offends_iff.1 horder
    obtain ⟨w, hw⟩ := h.opens_iff.2 ⟨hrange, hinj, Nat.le_of_eq hend⟩
    obtain ⟨rfl, hsound⟩ := create_eq_ok hw
    have hfits : base.toNat + paging.toNat * count.toNat ≤ maxWord := hsound.fits
    rw [maxWord_eq] at hfits
    omega
  · intro h
    refine ⟨⟨fun ⟨w, hw⟩ => ?_, fun ⟨hrange, hinj, hend⟩ => ?_⟩, create_of_offends,
      fun horder hend => create_of_overflows horder ?_⟩
    · obtain ⟨rfl, hsound⟩ := create_eq_ok hw
      have hfits : base.toNat + paging.toNat * count.toNat ≤ maxWord := hsound.fits
      rw [maxWord_eq] at hfits
      exact ⟨hsound.fixed_lt, hsound.fixed_inj, by omega⟩
    · have horder := forall_not_offends_iff.2 ⟨hrange, hinj⟩
      have hne : base.toNat + paging.toNat * count.toNat ≠ 2 ^ 64 := fun heq => h ⟨horder, heq⟩
      have hle : base.toNat + paging.toNat * count.toNat ≤ maxWord := by
        rw [maxWord_eq]
        omega
      exact ⟨_, create_of_fits horder hle⟩
    · rw [maxWord_eq]
      omega

/-- One page that holds the last address is refused. -/
theorem not_opensExactly_last_page :
    ¬ OpensExactly 0xfffffffffffff800 0x800 1 Table.empty := by
  intro h
  have hfits : (0xfffffffffffff800 : UInt64).toNat + (0x800 : UInt64).toNat * (1 : UInt32).toNat
      ≤ 2 ^ 64 := by decide
  have hempty (name : String) (l : UInt32) : Table.empty.get? name ≠ some l := by
    rw [Table.get?_empty]
    simp
  obtain ⟨w, hw⟩ := h.opens_iff.2 ⟨fun name l hl => absurd hl (hempty name l),
    fun name _ l hl => absurd hl (hempty name l), hfits⟩
  obtain ⟨rfl, hsound⟩ := create_eq_ok hw
  exact absurd hsound.fits (by decide)

end Open

end EtherCore.CsrWindow
