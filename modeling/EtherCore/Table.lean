/-!
Tables: values under distinct names, in ascending order of the names.  What a table holds under a
name after an insertion or a removal is said by `get?_insert` and `get?_erase`, and two tables
that hold the same under every name are equal (`Table.ext_get?`).
-/

namespace EtherCore

/-- Values under distinct names, in ascending order of the names. -/
structure Table (α : Type) where
  entries : List (String × α)
  ascending : entries.Pairwise fun x y => x.1 < y.1

namespace Table

variable {α : Type}

/-! ### Lists of entries -/

/-- The value of the first entry of a name. -/
def lookup? (k : String) : List (String × α) → Option α
  | [] => none
  | e :: es => if e.1 = k then some e.2 else lookup? k es

/-- Ascending entries with one more, which replaces an entry of its name. -/
def insertEntry (k : String) (v : α) : List (String × α) → List (String × α)
  | [] => [(k, v)]
  | e :: es =>
    if k < e.1 then (k, v) :: e :: es
    else if k = e.1 then (k, v) :: es
    else e :: insertEntry k v es

theorem mem_insertEntry {k : String} {v : α} {es : List (String × α)} {x : String × α}
    (h : x ∈ insertEntry k v es) : x = (k, v) ∨ x ∈ es := by
  induction es with
  | nil => simpa [insertEntry] using h
  | cons e es ih =>
    rw [insertEntry] at h
    split at h
    · simpa using h
    · split at h
      · rcases List.mem_cons.1 h with h | h
        · exact Or.inl h
        · exact Or.inr (List.mem_cons_of_mem _ h)
      · rcases List.mem_cons.1 h with h | h
        · exact Or.inr (h ▸ List.mem_cons_self)
        · exact (ih h).imp id (List.mem_cons_of_mem _)

theorem ascending_insertEntry (k : String) (v : α) {es : List (String × α)}
    (h : es.Pairwise fun x y => x.1 < y.1) :
    (insertEntry k v es).Pairwise fun x y => x.1 < y.1 := by
  induction es with
  | nil => simp [insertEntry]
  | cons e es ih =>
    obtain ⟨he, hes⟩ := List.pairwise_cons.1 h
    rw [insertEntry]
    split
    · next hk =>
      refine List.pairwise_cons.2 ⟨fun x hx => ?_, h⟩
      rcases List.mem_cons.1 hx with rfl | hx
      · exact hk
      · exact String.lt_trans hk (he x hx)
    · split
      · next hk => exact List.pairwise_cons.2 ⟨fun x hx => hk ▸ he x hx, hes⟩
      · next hlt hne =>
        refine List.pairwise_cons.2 ⟨fun x hx => ?_, ih hes⟩
        rcases mem_insertEntry hx with rfl | hx
        · grind
        · exact he x hx

/-! ### Tables -/

/-- The table without entries. -/
def empty : Table α := ⟨[], List.Pairwise.nil⟩

/-- The value under a name. -/
def get? (t : Table α) (k : String) : Option α := lookup? k t.entries

/-- Tells whether a table has a name. -/
def contains (t : Table α) (k : String) : Bool := (t.get? k).isSome

/-- The table with a value under a name, in place of the one that was there. -/
def insert (t : Table α) (k : String) (v : α) : Table α :=
  ⟨insertEntry k v t.entries, ascending_insertEntry k v t.ascending⟩

/-- The table without a name. -/
def erase (t : Table α) (k : String) : Table α :=
  ⟨t.entries.filter fun e => e.1 ≠ k, t.ascending.filter _⟩

/-- The table of a list of entries; the last entry of a name counts. -/
def ofList (es : List (String × α)) : Table α := es.foldl (fun t e => t.insert e.1 e.2) empty

/-- The entries of both tables; under a common name the value of the second. -/
def merge (t u : Table α) : Table α := u.entries.foldl (fun t e => t.insert e.1 e.2) t

/-- The table of the values that a function keeps. -/
def filterMap {β : Type} (f : α → Option β) (t : Table α) : Table β :=
  ⟨t.entries.filterMap fun e => (f e.2).map fun v => (e.1, v),
    t.ascending.filterMap _ fun x y h x' hx y' hy => by
      obtain ⟨v, _, rfl⟩ := Option.map_eq_some_iff.1 hx
      obtain ⟨w, _, rfl⟩ := Option.map_eq_some_iff.1 hy
      exact h⟩

/-- The names, in ascending order. -/
def names (t : Table α) : List String := t.entries.map (·.1)

/-- The values, in the order of their names. -/
def values (t : Table α) : List α := t.entries.map (·.2)

/-- The number of entries. -/
def size (t : Table α) : Nat := t.entries.length

/-! ### What a table holds -/

theorem lookup?_insertEntry (k k' : String) (v : α) (es : List (String × α)) :
    lookup? k' (insertEntry k v es) = if k' = k then some v else lookup? k' es := by
  induction es with
  | nil => simp [insertEntry, lookup?, eq_comm]
  | cons e es ih =>
    rw [insertEntry]
    split
    · simp [lookup?, eq_comm]
    · split
      · next hk => by_cases h : k' = k <;> grind [lookup?]
      · next hne => by_cases h : k' = k <;> grind [lookup?]

theorem get?_empty (k : String) : (empty : Table α).get? k = none := rfl

theorem get?_insert (t : Table α) (k k' : String) (v : α) :
    (t.insert k v).get? k' = if k' = k then some v else t.get? k' :=
  lookup?_insertEntry k k' v t.entries

theorem get?_erase (t : Table α) (k k' : String) :
    (t.erase k).get? k' = if k' = k then none else t.get? k' := by
  unfold erase get?
  simp only
  generalize t.entries = es
  induction es with
  | nil => simp [lookup?]
  | cons e es ih =>
    by_cases he : e.1 = k
    · by_cases hk : k' = k
      · simp_all
      · have : e.1 ≠ k' := fun h => hk (h ▸ he)
        simp_all [lookup?]
    · by_cases hk : e.1 = k'
      · simp_all [lookup?]
      · simp_all [lookup?]

theorem lookup?_eq_none_of_forall {k : String} {es : List (String × α)}
    (h : ∀ e ∈ es, k < e.1) : lookup? k es = none := by
  induction es with
  | nil => rfl
  | cons e es ih =>
    have he := h e List.mem_cons_self
    rw [lookup?, if_neg (by grind), ih fun x hx => h x (List.mem_cons_of_mem _ hx)]

theorem entries_eq_of_lookup? {es fs : List (String × α)}
    (hes : es.Pairwise fun x y => x.1 < y.1) (hfs : fs.Pairwise fun x y => x.1 < y.1)
    (h : ∀ k, lookup? k es = lookup? k fs) : es = fs := by
  induction es generalizing fs with
  | nil =>
    cases fs with
    | nil => rfl
    | cons f fs => simpa [lookup?] using h f.1
  | cons e es ih =>
    cases fs with
    | nil => simpa [lookup?] using h e.1
    | cons f fs =>
      obtain ⟨he, hes'⟩ := List.pairwise_cons.1 hes
      obtain ⟨hf, hfs'⟩ := List.pairwise_cons.1 hfs
      have key : e.1 = f.1 := by
        rcases Classical.em (e.1 = f.1) with hk | hk
        · exact hk
        · have h1 := h e.1
          have h2 := h f.1
          simp only [lookup?, if_true, if_neg hk, if_neg (Ne.symm hk)] at h1 h2
          rcases Classical.em (e.1 < f.1) with hlt | hlt
          · rw [lookup?_eq_none_of_forall fun x hx => String.lt_trans hlt (hf x hx)] at h1
            simp at h1
          · have hlt : f.1 < e.1 := by grind
            rw [lookup?_eq_none_of_forall fun x hx => String.lt_trans hlt (he x hx)] at h2
            simp at h2
      have hv : e.2 = f.2 := by
        have h1 := h e.1
        simpa [lookup?, key] using h1
      have hef : e = f := Prod.ext key hv
      subst hef
      have rest : es = fs := ih hes' hfs' fun k => by
        have hk := h k
        by_cases hek : e.1 = k
        · rw [lookup?_eq_none_of_forall fun x hx => hek ▸ he x hx,
            lookup?_eq_none_of_forall fun x hx => hek ▸ hf x hx]
        · simpa [lookup?, hek] using hk
      rw [rest]

/-- Two tables that hold the same under every name are equal. -/
theorem ext_get? {t u : Table α} (h : ∀ k, t.get? k = u.get? k) : t = u := by
  cases t with
  | mk es hes =>
    cases u with
    | mk fs hfs =>
      obtain rfl : es = fs := entries_eq_of_lookup? hes hfs h
      rfl

end Table

instance {α : Type} [DecidableEq α] : DecidableEq (Table α) := fun t u =>
  if h : t.entries = u.entries then
    isTrue (by cases t; cases u; simp_all)
  else isFalse fun e => h (by rw [e])

end EtherCore
