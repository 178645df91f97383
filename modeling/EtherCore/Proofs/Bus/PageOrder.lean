import EtherCore.Proofs.Bus.Exhausted
import EtherCore.Proofs.Outcome

/-!
The order in which a window hands out its pages.  A name with an assigned location gets that one.
The other names get the locations that are assigned to no name, one after the other in ascending
order, whatever requests come in between (`run_orderly`).
-/

namespace EtherCore.CsrWindow

/-! ### Locations -/

/-- The locations of a window, in ascending order. -/
def locations (w : CsrWindow) : List UInt32 := (List.range w.count.toNat).map UInt32.ofNat

/-- The locations that are assigned to no name, in ascending order. -/
def unassigned (w : CsrWindow) : List UInt32 := w.locations.filter fun l => l ∉ w.fixed.values

/-- The pages of names that are assigned no location, in the order in which they were handed out. -/
def floating (w : CsrWindow) : List CsrPage :=
  w.pages.filter fun p => w.fixed.get? p.name = none

theorem mem_locations_iff {w : CsrWindow} {l : UInt32} : l ∈ w.locations ↔ l < w.count := by
  simp only [locations, List.mem_map, List.mem_range, UInt32.lt_iff_toNat_lt]
  constructor
  · rintro ⟨n, hn, rfl⟩
    rwa [UInt32.toNat_ofNat_of_lt' (Nat.lt_trans hn w.count.toNat_lt)]
  · intro hl
    exact ⟨l.toNat, hl, UInt32.ofNat_toNat⟩

theorem pairwise_locations (w : CsrWindow) : w.locations.Pairwise (· < ·) := by
  rw [locations, List.pairwise_map]
  refine List.pairwise_lt_range.imp_of_mem fun {m n} hm hn hlt => ?_
  have hm' := Nat.lt_trans (List.mem_range.1 hm) w.count.toNat_lt
  have hn' := Nat.lt_trans (List.mem_range.1 hn) w.count.toNat_lt
  rw [UInt32.lt_iff_toNat_lt, UInt32.toNat_ofNat_of_lt' hm', UInt32.toNat_ofNat_of_lt' hn']
  exact hlt

theorem mem_unassigned_iff {w : CsrWindow} {l : UInt32} :
    l ∈ w.unassigned ↔ l < w.count ∧ ∀ name, w.fixed.get? name ≠ some l := by
  simp [unassigned, mem_locations_iff, Table.mem_values_iff]

theorem pairwise_unassigned (w : CsrWindow) : w.unassigned.Pairwise (· < ·) :=
  w.pairwise_locations.filter _

theorem nodup_unassigned (w : CsrWindow) : w.unassigned.Nodup :=
  w.pairwise_unassigned.imp fun h => UInt32.ne_of_lt h

/-- The search for a free location misses none, so it is a search of all locations. -/
theorem freeLocation?_eq_find? (w : CsrWindow) :
    w.freeLocation? = w.locations.find? fun l => !w.taken.contains l := by
  have hrange : List.range (min w.count.toNat (w.taken.length + 1))
      = (List.range w.count.toNat).take (w.taken.length + 1) := by
    rw [List.take_range, Nat.min_comm]
  cases hfree : w.freeLocation? with
  | none =>
    have hfull := freeLocation?_eq_none_iff.1 hfree
    refine (List.find?_eq_none.2 fun l hl => ?_).symm
    simpa using hfull l (mem_locations_iff.1 hl)
  | some l =>
    -- what is found in front is found first
    rw [freeLocation?, hrange, List.map_take] at hfree
    have hsplit := List.take_append_drop (w.taken.length + 1) w.locations
    rw [← hsplit, List.find?_append, show (w.locations.take _).find? _ = some l from hfree]
    rfl

/-! ### Pages in order -/

/-- The pages of names without an assigned location have the first of the locations that are
assigned to no name, in their order. -/
def InOrder (w : CsrWindow) : Prop :=
  w.floating.map (·.location) = w.unassigned.take w.floating.length

variable {w : CsrWindow}

/-- A free location is assigned to no name and not that of a floating page. -/
theorem Paged.notMem_taken_iff (hw : w.Paged) {l : UInt32} :
    l ∉ w.taken ↔ l ∉ w.floating.map (·.location) ∧ l ∉ w.fixed.values := by
  constructor
  · intro hl
    refine ⟨fun hmem => hl ?_, fun hmem => hl (List.mem_append_left _ hmem)⟩
    obtain ⟨p, hp, rfl⟩ := List.mem_map.1 hmem
    exact List.mem_append_right _ (List.mem_map_of_mem (List.mem_of_mem_filter hp))
  · rintro ⟨hfloating, hfixed⟩ hmem
    refine (List.mem_append.1 hmem).elim hfixed fun hpage => ?_
    obtain ⟨p, hp, rfl⟩ := List.mem_map.1 hpage
    rcases hw.assigned p hp with hassigned | ⟨hnone, -⟩
    · exact hfixed (Table.mem_values_iff.2 ⟨_, hassigned⟩)
    · exact hfloating (List.mem_map_of_mem (List.mem_filter.2 ⟨hp, by simpa using hnone⟩))

/-- The locations that are left are the unassigned ones after those of the floating pages. -/
theorem InOrder.filter_locations (h : w.InOrder) (hw : w.Paged) :
    (w.locations.filter fun l => !w.taken.contains l) = w.unassigned.drop w.floating.length := by
  have hfree : (w.locations.filter fun l => !w.taken.contains l)
      = w.unassigned.filter fun l => l ∉ w.floating.map (·.location) := by
    rw [unassigned, List.filter_filter]
    refine List.filter_congr fun l _ => ?_
    rw [Bool.eq_iff_iff, Bool.and_eq_true, decide_eq_true_eq, decide_eq_true_eq,
      ← hw.notMem_taken_iff]
    simp
  rw [hfree, h]
  exact filter_notMem_take w.nodup_unassigned _

theorem InOrder.freeLocation?_eq (h : w.InOrder) (hw : w.Paged) :
    w.freeLocation? = w.unassigned[w.floating.length]? := by
  rw [freeLocation?_eq_find?, ← List.head?_filter, h.filter_locations hw, List.head?_drop]

/-- A name without an assigned location is to get the next of the unassigned ones. -/
theorem InOrder.locationFor_eq (h : w.InOrder) (hw : w.Paged) {name : String}
    (hnone : w.fixed.get? name = none) :
    w.locationFor name = match w.unassigned[w.floating.length]? with
      | some l => .ok l
      | none => .error (noPage name) := by
  rw [locationFor, hnone, h.freeLocation?_eq hw]
  rfl

theorem InOrder.alloc {w' : CsrWindow} (h : w.InOrder) (hw : w.Paged) {name : String}
    {p : CsrPage} (halloc : w.alloc name = .ok (p, w')) : w'.InOrder := by
  have hlocation := (alloc_eq_ok_iff.1 halloc).2.1
  obtain ⟨hname, rfl⟩ := alloc_eq_ok halloc
  cases hfixed : w.fixed.get? name with
  | some l =>
    have hsame : floating { w with pages := w.pages ++ [p] } = w.floating := by
      simp [floating, hname, hfixed]
    unfold InOrder
    rw [hsame]
    exact h
  | none =>
    have hmore : floating { w with pages := w.pages ++ [p] } = w.floating ++ [p] := by
      simp [floating, hname, hfixed]
    have hnext : w.unassigned[w.floating.length]? = some p.location := by
      rw [h.locationFor_eq hw hfixed] at hlocation
      split at hlocation
      · next l hl =>
        cases hlocation
        exact hl
      · cases hlocation
    unfold InOrder
    rw [hmore, List.map_append, h, List.length_append, List.length_singleton, List.take_add_one]
    exact congrArg (w.unassigned.take w.floating.length ++ ·)
      (congrArg Option.toList hnext).symm

/-! ### Runs -/

/-- The window after several requests. -/
def run (w : CsrWindow) (names : List String) : CsrWindow := names.foldl after w

/-- What each of several requests gives. -/
def outcomes (w : CsrWindow) : List String → List (Outcome CsrPage)
  | [] => []
  | name :: rest => (w.alloc name).map Prod.fst :: (w.after name).outcomes rest

theorem after_of_error {name : String} {e : Error} (h : w.alloc name = .error e) :
    w.after name = w := by
  unfold after
  rw [h]

theorem after_of_ok {w' : CsrWindow} {name : String} {p : CsrPage}
    (h : w.alloc name = .ok (p, w')) : w.after name = w' := by
  unfold after
  rw [h]

/-- A run adds the pages that its requests give, in their order, and changes nothing else. -/
theorem run_eq (w : CsrWindow) (names : List String) :
    w.run names = { w with pages := w.pages ++ (w.outcomes names).filterMap Except.toOption } := by
  induction names generalizing w with
  | nil => simp [run, outcomes]
  | cons name rest ih =>
    have hrun : w.run (name :: rest) = (w.after name).run rest := rfl
    rw [hrun, ih, outcomes]
    cases halloc : w.alloc name with
    | error e => rw [after_of_error halloc]; rfl
    | ok r =>
      obtain ⟨p, w'⟩ := r
      rw [after_of_ok halloc, (alloc_eq_ok halloc).2]
      simp [Except.map, Except.toOption]

/-- What every run of a window that was opened keeps. -/
structure Regular (w : CsrWindow) : Prop where
  sound : w.Sound
  paged : w.Paged
  inOrder : w.InOrder

theorem Regular.after (h : w.Regular) (name : String) : (w.after name).Regular :=
  after_of_alloc h name fun _ _ halloc =>
    ⟨h.sound.alloc halloc, h.paged.alloc h.sound halloc, h.inOrder.alloc h.paged halloc⟩

theorem Regular.run (h : w.Regular) (names : List String) : (w.run names).Regular := by
  induction names generalizing w with
  | nil => exact h
  | cons name rest ih => exact ih (h.after name)

theorem regular_of_create {base paging : UInt64} {count : UInt32} {fixed : Table UInt32}
    (h : create base paging count fixed = .ok w) : w.Regular := by
  obtain ⟨rfl, hsound⟩ := create_eq_ok h
  exact ⟨hsound, paged_of_pages_nil rfl, rfl⟩

/-! ### The rule of the pages -/

/-- The pages of a window follow the assigned locations and the order of the others, and so does
the next one. -/
structure Orderly (w : CsrWindow) : Prop where
  names : (w.pages.map (·.name)).Nodup
  locations : (w.pages.map (·.location)).Nodup
  inside : ∀ p ∈ w.pages, p.location < w.count ∧
    p.origin.toNat = w.base.toNat + p.location.toNat * w.paging.toNat
  assigned : ∀ p ∈ w.pages, ∀ l, w.fixed.get? p.name = some l → p.location = l
  ascending : ∀ (k : Nat) (p : CsrPage), w.floating[k]? = some p →
    w.unassigned[k]? = some p.location
  gives : ∀ name p w', w.alloc name = .ok (p, w') →
    p.name = name ∧ w' = { w with pages := w.pages ++ [p] }
  grants : ∀ name l, name ∉ w.pages.map (·.name) → w.fixed.get? name = some l →
    ∃ p w', w.alloc name = .ok (p, w') ∧ p.location = l
  refuses : ∀ name, name ∉ w.pages.map (·.name) → w.fixed.get? name = none →
    ((∃ e, w.alloc name = .error e) ↔ ∀ l ∈ w.unassigned, l ∈ w.pages.map (·.location))

theorem InOrder.getElem?_unassigned (h : w.InOrder) {k : Nat} {p : CsrPage}
    (hp : w.floating[k]? = some p) : w.unassigned[k]? = some p.location := by
  have hlt : k < w.floating.length := (List.getElem?_eq_some_iff.1 hp).1
  have hmap : (w.floating.map (·.location))[k]? = some p.location := by
    rw [List.getElem?_map, hp, Option.map_some]
  rwa [h, List.getElem?_take_of_lt hlt] at hmap

/-- A name without an assigned location has no page left exactly where all unassigned locations are
those of pages. -/
theorem exhausted_iff {name : String} (hnone : w.fixed.get? name = none) :
    w.Exhausted name ↔ ∀ l ∈ w.unassigned, l ∈ w.pages.map (·.location) := by
  have hpage (l : UInt32) : l ∈ w.pages.map (·.location) ↔ ∃ p ∈ w.pages, p.location = l := by
    simp
  constructor
  · intro h l hl
    obtain ⟨hlt, hfree⟩ := mem_unassigned_iff.1 hl
    rcases h.full l hlt with hfixed | hmem
    · obtain ⟨name', hname'⟩ := Table.mem_values_iff.1 hfixed
      exact absurd hname' (hfree name')
    · exact (hpage l).2 hmem
  · intro h
    refine ⟨hnone, fun l hlt => ?_⟩
    by_cases hfixed : l ∈ w.fixed.values
    · exact Or.inl hfixed
    · have hfree : l ∈ w.unassigned := mem_unassigned_iff.2
        ⟨hlt, fun name' hname' => hfixed (Table.mem_values_iff.2 ⟨name', hname'⟩)⟩
      exact Or.inr ((hpage l).1 (h l hfree))

/-- A new name is refused exactly where no page is left for it. -/
theorem Regular.exists_error_iff (h : w.Regular) {name : String}
    (hnew : name ∉ w.pages.map (·.name)) :
    (∃ e, w.alloc name = .error e) ↔ w.Exhausted name := by
  have hnew' : ∀ q ∈ w.pages, q.name ≠ name := by
    intro q hq hname
    exact hnew (List.mem_map.2 ⟨q, hq, hname⟩)
  simp [alloc_eq_error_iff h.sound h.paged hnew']

theorem Regular.exists_alloc (h : w.Regular) {name : String} {l : UInt32}
    (hnew : name ∉ w.pages.map (·.name)) (hl : w.fixed.get? name = some l) :
    ∃ p w', w.alloc name = .ok (p, w') ∧ p.location = l := by
  cases halloc : w.alloc name with
  | error e =>
    have hnone := ((h.exists_error_iff hnew).1 ⟨e, halloc⟩).unassigned
    rw [hl] at hnone
    cases hnone
  | ok r =>
    obtain ⟨-, hlocation, -⟩ := alloc_eq_ok_iff.1 halloc
    rw [locationFor, hl] at hlocation
    exact ⟨r.1, r.2, rfl, (Except.ok.inj hlocation).symm⟩

theorem Regular.orderly (h : w.Regular) : w.Orderly where
  names := h.paged.names
  locations := h.paged.locations
  inside p hp := ⟨h.paged.location_lt p hp, h.paged.origin p hp⟩
  assigned _ hp _ hl := h.paged.location_eq hp hl
  ascending _ _ := h.inOrder.getElem?_unassigned
  gives _ _ _ := alloc_eq_ok
  grants _ _ := h.exists_alloc
  refuses _ hnew hnone := (h.exists_error_iff hnew).trans (exhausted_iff hnone)

/-- After every run of requests to a window that was opened, the pages are those that the requests
gave, in their order.  They follow the assigned locations and the order of the others: the page of
number `k` among those without an assigned location is at the `k`-th of the locations that are
assigned to no name.  A request that fails leaves the window as it is. -/
theorem run_orderly {base paging : UInt64} {count : UInt32} {fixed : Table UInt32}
    (h : create base paging count fixed = .ok w) (names : List String) :
    w.run names = ⟨base, paging, count, fixed, (w.outcomes names).filterMap Except.toOption⟩ ∧
      (w.run names).Orderly ∧ ∀ name e, (w.run names).alloc name = .error e →
        (w.run names).after name = w.run names := by
  refine ⟨?_, ((regular_of_create h).run names).orderly, fun name e => after_of_error⟩
  obtain ⟨hw, -⟩ := create_eq_ok h
  rw [run_eq]
  simp [hw]

/-- Five pages, two of them assigned: three names get the others, one asks twice, and for the last
no page is left. -/
theorem run_orderly_five :
    let fixed := (Table.empty.insert "ethmac" 1).insert "uart" 3
    ∃ w, create 0xf0000000 0x800 5 fixed = .ok w ∧
      (w.run ["ethphy", "ethmac", "ethphy", "timer", "spi", "i2c"]).pages.map
          (fun p => (p.name, p.location))
        = [("ethphy", 0), ("ethmac", 1), ("timer", 2), ("spi", 4)] ∧
      (w.run ["ethphy", "ethmac", "ethphy", "timer", "spi", "i2c"]).Orderly := by
  intro fixed
  have hok : (create 0xf0000000 0x800 5 fixed).isOk = true := by decide +kernel
  obtain ⟨w, hw⟩ := Outcome.exists_of_isOk hok
  refine ⟨w, hw, ?_, (run_orderly hw _).2.1⟩
  obtain ⟨rfl, -⟩ := create_eq_ok hw
  decide +kernel

end EtherCore.CsrWindow
