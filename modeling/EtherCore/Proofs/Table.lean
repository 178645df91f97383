import EtherCore.Table
import Mathlib.Data.List.Nodup

/-!
What a table holds against its entries: a value is held under a name exactly if the pair is an
entry.  So a table that is merged from two, or made from another value by value, is known by what
it holds under each name, and the laws of merging are those of the choice between two values.
-/

namespace EtherCore.Table

variable {α : Type}

theorem mem_of_lookup? {k : String} {v : α} {es : List (String × α)} (h : lookup? k es = some v) :
    (k, v) ∈ es := by
  induction es with
  | nil => cases h
  | cons e es ih =>
    rw [lookup?] at h
    split at h
    · next hk =>
      cases h
      exact hk ▸ List.mem_cons_self
    · exact List.mem_cons_of_mem _ (ih h)

theorem lookup?_of_mem {k : String} {v : α} {es : List (String × α)}
    (hes : es.Pairwise fun x y => x.1 < y.1) (h : (k, v) ∈ es) : lookup? k es = some v := by
  induction es with
  | nil => cases h
  | cons e es ih =>
    obtain ⟨he, hes'⟩ := List.pairwise_cons.1 hes
    rw [lookup?]
    rcases List.mem_cons.1 h with rfl | h
    · rw [if_pos rfl]
    · have hne : e.1 ≠ k := fun hk => String.lt_irrefl k (hk ▸ he (k, v) h)
      rw [if_neg hne]
      exact ih hes' h

theorem get?_eq_some_iff {t : Table α} {k : String} {v : α} :
    t.get? k = some v ↔ (k, v) ∈ t.entries :=
  ⟨mem_of_lookup?, lookup?_of_mem t.ascending⟩

theorem isSome_get?_iff {t : Table α} {k : String} : (t.get? k).isSome ↔ k ∈ t.names := by
  rw [Option.isSome_iff_exists, names, List.mem_map]
  constructor
  · rintro ⟨v, hv⟩
    exact ⟨(k, v), get?_eq_some_iff.1 hv, rfl⟩
  · rintro ⟨e, he, rfl⟩
    exact ⟨e.2, get?_eq_some_iff.2 he⟩

theorem mem_values_iff {t : Table α} {v : α} : v ∈ t.values ↔ ∃ k, t.get? k = some v := by
  simp only [values, List.mem_map, Prod.exists, exists_eq_right, get?_eq_some_iff]

theorem get?_filterMap {β : Type} (f : α → Option β) (t : Table α) (k : String) :
    (t.filterMap f).get? k = (t.get? k).bind f := by
  refine Option.ext fun v => ?_
  rw [get?_eq_some_iff, Option.bind_eq_some_iff]
  simp only [filterMap, List.mem_filterMap, Option.map_eq_some_iff, Prod.mk.injEq, get?_eq_some_iff]
  constructor
  · rintro ⟨⟨k', w⟩, hmem, v', hv, rfl, rfl⟩
    exact ⟨w, hmem, hv⟩
  · rintro ⟨w, hmem, hv⟩
    exact ⟨(k, w), hmem, v, hv, rfl, rfl⟩

/-! ### Entries of some names -/

theorem get?_filter (p : String → Bool) (t : Table α) (k : String) :
    get? ⟨t.entries.filter fun e => p e.1, t.ascending.filter _⟩ k
      = if p k then t.get? k else none := by
  refine Option.ext fun v => ?_
  rw [get?_eq_some_iff]
  by_cases hk : p k <;> simp [hk, get?_eq_some_iff]

theorem filter_entries_congr {p : String → Bool} {t u : Table α}
    (h : ∀ k, p k → t.get? k = u.get? k) :
    (t.entries.filter fun e => p e.1) = u.entries.filter fun e => p e.1 := by
  refine congrArg entries (ext_get? (t := ⟨_, t.ascending.filter _⟩)
    (u := ⟨_, u.ascending.filter _⟩) fun k => ?_)
  rw [get?_filter, get?_filter]
  split
  · next hk => exact h k hk
  · rfl

/-! ### Merged tables -/

theorem get?_foldl_insert {es : List (String × α)} (hes : es.Pairwise fun x y => x.1 < y.1)
    (t : Table α) (k : String) :
    (es.foldl (fun t e => t.insert e.1 e.2) t).get? k = (lookup? k es).or (t.get? k) := by
  induction es generalizing t with
  | nil => rfl
  | cons e es ih =>
    obtain ⟨he, hes'⟩ := List.pairwise_cons.1 hes
    rw [List.foldl_cons, ih hes', get?_insert, lookup?]
    by_cases hk : k = e.1
    · -- no later entry has the name
      have hnone : lookup? k es = none := lookup?_eq_none_of_forall (hk ▸ he)
      rw [if_pos hk, if_pos hk.symm, hnone, Option.none_or, Option.some_or]
    · rw [if_neg hk, if_neg (Ne.symm hk)]

theorem get?_ofList {es : List (String × α)} (hes : es.Pairwise fun x y => x.1 < y.1)
    (k : String) : (ofList es).get? k = lookup? k es :=
  (get?_foldl_insert hes empty k).trans Option.or_none

theorem ofList_entries (t : Table α) : ofList t.entries = t :=
  ext_get? (get?_ofList t.ascending)

theorem get?_merge (t u : Table α) (k : String) :
    (t.merge u).get? k = (u.get? k).or (t.get? k) :=
  get?_foldl_insert u.ascending t k

theorem empty_merge (u : Table α) : empty.merge u = u :=
  ext_get? fun k => by rw [get?_merge, get?_empty, Option.or_none]

theorem merge_assoc (t u w : Table α) : (t.merge u).merge w = t.merge (u.merge w) :=
  ext_get? fun k => by rw [get?_merge, get?_merge, get?_merge, get?_merge, Option.or_assoc]

theorem merge_self (u : Table α) : u.merge u = u :=
  ext_get? fun k => by rw [get?_merge, Option.or_self]

/-- Without a common name it does not matter which table comes second. -/
theorem merge_comm {u w : Table α} (h : u.names.Disjoint w.names) : u.merge w = w.merge u := by
  refine ext_get? fun k => ?_
  rw [get?_merge, get?_merge]
  cases hu : u.get? k with
  | none => rw [Option.or_none, Option.none_or]
  | some v =>
    have hmem : k ∈ u.names := isSome_get?_iff.1 (by rw [hu, Option.isSome_some])
    have hw : w.get? k = none := by
      rw [← Option.not_isSome_iff_eq_none, isSome_get?_iff]
      exact h hmem
    rw [hw, Option.none_or, Option.or_none]

end EtherCore.Table
