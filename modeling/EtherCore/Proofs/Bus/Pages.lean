import EtherCore.Bus.CsrWindow
import EtherCore.Proofs.Bus.Window
import EtherCore.Proofs.List
import EtherCore.Proofs.Table

/-!
Pages of registers over whole runs of requests.  A window that was opened is `Sound`: its assigned
locations are distinct and in range, and it ends at the greatest word at most.  Every run of
requests keeps `Paged`, from which pages lie in the window (`page_subset`) and no two of them meet
(`pages_disjoint`).
-/

namespace EtherCore

namespace CsrWindow

/-! ### Opening a window -/

theorem checkFixed_eq_ok_iff {count : UInt32} {seen entries : List (String × UInt32)} :
    checkFixed count seen entries = .ok () ↔
      (∀ e ∈ entries, e.2 < count) ∧ (entries.map (·.2)).Nodup ∧
        ∀ e ∈ entries, ∀ s ∈ seen, s.2 ≠ e.2 := by
  induction entries generalizing seen with
  | nil => simp [checkFixed]
  | cons e entries ih =>
    obtain ⟨name, location⟩ := e
    rw [checkFixed]
    dsimp only
    split
    · next hcount =>
      have : ¬ location < count := UInt32.not_lt.2 hcount
      simp [this]
    · next hcount =>
      split
      · next s hs =>
        have hmem := List.mem_of_find?_eq_some hs
        have hloc : s.2 = location := by simpa using List.find?_some hs
        simp only [reduceCtorEq, false_iff, not_and]
        exact fun _ _ h => h (name, location) List.mem_cons_self s hmem hloc
      · next hs =>
        have hnew : ∀ s ∈ seen, s.2 ≠ location := by simpa using hs
        rw [ih]
        simp only [List.forall_mem_cons, List.map_cons, List.nodup_cons, List.mem_map, not_exists,
          not_and]
        constructor
        · rintro ⟨hlt, hnodup, hseen⟩
          exact ⟨⟨UInt32.not_le.1 hcount, hlt⟩,
            ⟨fun x hx hxl => (hseen x hx).1 hxl.symm, hnodup⟩, hnew, fun x hx => (hseen x hx).2⟩
        · rintro ⟨⟨-, hlt⟩, ⟨hfresh, hnodup⟩, -, hseen⟩
          exact ⟨hlt, hnodup, fun x hx => ⟨fun hxl => hfresh x hx hxl.symm, hseen x hx⟩⟩

/-- What opening a window checks. -/
structure Sound (w : CsrWindow) : Prop where
  fixed_lt : ∀ name l, w.fixed.get? name = some l → l < w.count
  fixed_inj : ∀ name name' l, w.fixed.get? name = some l → w.fixed.get? name' = some l →
    name = name'
  fits : w.base.toNat + w.paging.toNat * w.count.toNat ≤ maxWord

theorem create_eq_ok {base paging : UInt64} {count : UInt32} {fixed : Table UInt32} {w : CsrWindow}
    (h : create base paging count fixed = .ok w) :
    w = ⟨base, paging, count, fixed, []⟩ ∧ w.Sound := by
  unfold create at h
  split at h
  · cases h
  · next hfixed =>
    split at h
    · next hfits =>
      cases h
      obtain ⟨hlt, hnodup, -⟩ := checkFixed_eq_ok_iff.1 hfixed
      refine ⟨rfl, fun name l hl => ?_, fun name name' l hl hl' => ?_, hfits⟩
      · exact hlt (name, l) (Table.get?_eq_some_iff.1 hl)
      · have := List.inj_on_of_nodup_map hnodup (Table.get?_eq_some_iff.1 hl)
          (Table.get?_eq_some_iff.1 hl') rfl
        exact congrArg Prod.fst this
    · cases h

theorem Sound.toNat_size {w : CsrWindow} (hw : w.Sound) :
    w.size.toNat = w.paging.toNat * w.count.toNat := by
  have hle : w.paging.toNat * w.count.toNat ≤ maxWord := Nat.le_trans (Nat.le_add_left ..) hw.fits
  unfold size mulHeld
  rw [Nat.min_eq_left hle, toNat_ofNat_of_le hle]

/-! ### Requests -/

/-- The window after the request of a page: a request that fails leaves it as it is. -/
def after (w : CsrWindow) (name : String) : CsrWindow :=
  match w.alloc name with
  | .ok (_, w') => w'
  | .error _ => w

theorem freeLocation?_eq_some {w : CsrWindow} {l : UInt32} (h : w.freeLocation? = some l) :
    l < w.count ∧ l ∉ w.taken := by
  unfold freeLocation? at h
  have hmem := List.mem_of_find?_eq_some h
  have hfree := List.find?_some h
  obtain ⟨n, hn, rfl⟩ := List.mem_map.1 hmem
  have hlt : n < w.count.toNat := Nat.lt_of_lt_of_le (List.mem_range.1 hn) (Nat.min_le_left ..)
  refine ⟨?_, by simpa using hfree⟩
  rw [UInt32.lt_iff_toNat_lt, UInt32.toNat_ofNat_of_lt' (Nat.lt_trans hlt w.count.toNat_lt)]
  exact hlt

theorem locationFor_eq_ok {w : CsrWindow} {name : String} {l : UInt32}
    (h : w.locationFor name = .ok l) :
    w.fixed.get? name = some l ∨
      w.fixed.get? name = none ∧ l < w.count ∧ l ∉ w.taken := by
  unfold locationFor at h
  split at h
  · next hl => cases h; exact Or.inl hl
  · next hnone =>
    split at h
    · next hl => cases h; exact Or.inr ⟨hnone, freeLocation?_eq_some hl⟩
    · cases h

theorem alloc_eq_ok_iff {w w' : CsrWindow} {name : String} {p : CsrPage} :
    w.alloc name = .ok (p, w') ↔
      (∀ q ∈ w.pages, q.name ≠ name) ∧ w.locationFor name = .ok p.location ∧
        w.base.toNat + p.location.toNat * w.paging.toNat ≤ maxWord ∧
        p = ⟨name, p.location,
          UInt64.ofNat (w.base.toNat + p.location.toNat * w.paging.toNat)⟩ ∧
        w' = { w with pages := w.pages ++ [p] } := by
  unfold alloc
  split
  · next h =>
    obtain ⟨q, hq, hname⟩ := List.any_eq_true.1 h
    simp only [reduceCtorEq, false_iff, not_and]
    exact fun hnew => absurd (by simpa using hname) (hnew q hq)
  · next h =>
    have hnew : ∀ q ∈ w.pages, q.name ≠ name := by simpa using h
    cases w.locationFor name with
    | error e => simp
    | ok l =>
      dsimp only
      split
      · next hle =>
        simp only [Except.ok.injEq, Prod.mk.injEq]
        constructor
        · rintro ⟨rfl, rfl⟩
          exact ⟨hnew, rfl, hle, rfl, rfl⟩
        · rintro ⟨-, rfl, -, hp, rfl⟩
          exact ⟨hp.symm, by rw [← hp]⟩
      · next hle =>
        simp only [reduceCtorEq, Except.ok.injEq, false_iff, not_and]
        rintro - rfl hle'
        exact absurd hle' hle

/-- A page has the name that it is handed out to, and is all that is new in the window. -/
theorem alloc_eq_ok {w w' : CsrWindow} {name : String} {p : CsrPage}
    (h : w.alloc name = .ok (p, w')) :
    p.name = name ∧ w' = { w with pages := w.pages ++ [p] } := by
  obtain ⟨-, -, -, hp, hw'⟩ := alloc_eq_ok_iff.1 h
  exact ⟨by rw [hp], hw'⟩

/-- What holds of a window is kept by a request if it is kept where a page is handed out. -/
theorem after_of_alloc {P : CsrWindow → Prop} {w : CsrWindow} (start : P w) (name : String)
    (step : ∀ p w', w.alloc name = .ok (p, w') → P w') : P (w.after name) := by
  unfold after
  cases h : w.alloc name with
  | error e => exact start
  | ok r => exact step r.1 r.2 h

/-! ### What every run keeps -/

/-- What holds of the pages of a window: names and locations are distinct, locations are in range
and give the origins, and a page is at the location assigned to its name, or its name has none and
its location is assigned to no name. -/
structure Paged (w : CsrWindow) : Prop where
  names : (w.pages.map (·.name)).Nodup
  locations : (w.pages.map (·.location)).Nodup
  location_lt : ∀ p ∈ w.pages, p.location < w.count
  origin : ∀ p ∈ w.pages, p.origin.toNat = w.base.toNat + p.location.toNat * w.paging.toNat
  assigned : ∀ p ∈ w.pages, w.fixed.get? p.name = some p.location ∨
    w.fixed.get? p.name = none ∧ p.location ∉ w.fixed.values

theorem paged_of_pages_nil {w : CsrWindow} (h : w.pages = []) : w.Paged := by
  constructor <;> simp [h]

theorem Paged.location_eq {w : CsrWindow} (hw : w.Paged) {p : CsrPage} (hp : p ∈ w.pages)
    {l : UInt32} (hl : w.fixed.get? p.name = some l) : p.location = l := by
  rcases hw.assigned p hp with h | ⟨h, -⟩
  · exact Option.some.inj (h.symm.trans hl)
  · rw [hl] at h
    cases h

theorem Paged.location_ne {w : CsrWindow} (hw : w.Paged) {p : CsrPage} (hp : p ∈ w.pages)
    (hnone : w.fixed.get? p.name = none) (name : String) : w.fixed.get? name ≠ some p.location := by
  intro hname
  rcases hw.assigned p hp with h | ⟨-, h⟩
  · rw [hnone] at h
    cases h
  · exact h (Table.mem_values_iff.2 ⟨name, hname⟩)

/-- A location for a new name is in range, no page has it, and it is the one assigned to the name
or assigned to none. -/
theorem Paged.location_new {w : CsrWindow} (hw : w.Paged) (hs : w.Sound) {name : String}
    {l : UInt32} (hnew : ∀ q ∈ w.pages, q.name ≠ name) (h : w.locationFor name = .ok l) :
    l < w.count ∧ (∀ q ∈ w.pages, q.location ≠ l) ∧
      (w.fixed.get? name = some l ∨ w.fixed.get? name = none ∧ l ∉ w.fixed.values) := by
  rcases locationFor_eq_ok h with hl | ⟨hnone, hlt, htaken⟩
  · refine ⟨hs.fixed_lt _ _ hl, fun q hq hql => ?_, Or.inl hl⟩
    rcases hw.assigned q hq with hq' | ⟨-, hq'⟩
    · exact hnew q hq (hs.fixed_inj _ _ _ (hql ▸ hq') hl)
    · exact hq' (Table.mem_values_iff.2 ⟨name, hql ▸ hl⟩)
  · simp only [taken, List.mem_append, List.mem_map, not_or, not_exists, not_and] at htaken
    exact ⟨hlt, htaken.2, Or.inr ⟨hnone, htaken.1⟩⟩

theorem Paged.alloc {w w' : CsrWindow} (hw : w.Paged) (hs : w.Sound) {name : String} {p : CsrPage}
    (h : w.alloc name = .ok (p, w')) : w'.Paged := by
  obtain ⟨hnew, hlocation, hle, hp, rfl⟩ := alloc_eq_ok_iff.1 h
  obtain ⟨hlt, hfree, hassigned⟩ := hw.location_new hs hnew hlocation
  have hname : p.name = name := by rw [hp]
  have horigin : p.origin.toNat = w.base.toNat + p.location.toNat * w.paging.toNat := by
    rw [hp]
    exact toNat_ofNat_of_le hle
  rw [← hname] at hassigned
  refine ⟨nodup_map_concat hw.names ?_, nodup_map_concat hw.locations ?_,
    forall_mem_concat hw.location_lt hlt, forall_mem_concat hw.origin horigin,
    forall_mem_concat hw.assigned hassigned⟩
  · rintro h
    obtain ⟨q, hq, hqn⟩ := List.mem_map.1 h
    exact hnew q hq (hqn.trans hname)
  · rintro h
    obtain ⟨q, hq, hql⟩ := List.mem_map.1 h
    exact hfree q hq hql

/-! ### Addresses of pages -/

/-- The addresses of a page. -/
def pageWindow (w : CsrWindow) (p : CsrPage) : Set Nat :=
  Set.Ico p.origin.toNat (p.origin.toNat + w.paging.toNat)

/-- A page ends where the window ends at the latest. -/
theorem Paged.page_stop_le {w : CsrWindow} (hw : w.Paged) {p : CsrPage} (hp : p ∈ w.pages) :
    p.origin.toNat + w.paging.toNat ≤ w.base.toNat + w.paging.toNat * w.count.toNat := by
  have hlt : p.location.toNat + 1 ≤ w.count.toNat := UInt32.lt_iff_toNat_lt.1 (hw.location_lt p hp)
  calc p.origin.toNat + w.paging.toNat
      = w.base.toNat + w.paging.toNat * (p.location.toNat + 1) := by
        rw [hw.origin p hp, Nat.mul_succ, Nat.mul_comm, Nat.add_assoc]
    _ ≤ w.base.toNat + w.paging.toNat * w.count.toNat :=
        Nat.add_le_add_left (Nat.mul_le_mul_left _ hlt) _

theorem Paged.page_subset {w : CsrWindow} (hw : w.Paged) (hs : w.Sound) {p : CsrPage}
    (hp : p ∈ w.pages) :
    w.pageWindow p ⊆ Set.Ico w.base.toNat (w.base.toNat + w.size.toNat) := by
  have hstop := hw.page_stop_le hp
  have hstart : w.base.toNat ≤ p.origin.toNat := by
    rw [hw.origin p hp]
    exact Nat.le_add_right ..
  rw [hs.toNat_size]
  rintro a ⟨h1, h2⟩
  exact ⟨Nat.le_trans hstart h1, Nat.lt_of_lt_of_le h2 hstop⟩

theorem Paged.pages_disjoint {w : CsrWindow} (hw : w.Paged) :
    w.pages.Pairwise fun p q => Disjoint (w.pageWindow p) (w.pageWindow q) := by
  have hne : w.pages.Pairwise fun p q => p.location ≠ q.location := List.pairwise_map.1 hw.locations
  have before : ∀ p ∈ w.pages, ∀ q ∈ w.pages, p.location.toNat < q.location.toNat →
      p.origin.toNat + w.paging.toNat ≤ q.origin.toNat := fun p hp q hq hlt => by
    rw [hw.origin p hp, hw.origin q hq, Nat.add_assoc, ← Nat.succ_mul]
    exact Nat.add_le_add_left (Nat.mul_le_mul_right _ hlt) _
  refine hne.imp_of_mem fun {p q} hp hq hpq => Set.disjoint_left.2 fun a hap haq => ?_
  obtain ⟨hp1, hp2⟩ := hap
  obtain ⟨hq1, hq2⟩ := haq
  rcases Nat.lt_or_gt_of_ne fun h => hpq (UInt32.toNat_inj.1 h) with h | h
  · have := before p hp q hq h
    omega
  · have := before q hq p hp h
    omega

end CsrWindow

end EtherCore
