import EtherCore.Document.Normal
import Mathlib.Data.List.Basic

/-!
Normal forms of values.  A value is normal if no string that names a boolean or nothing stands in
it, at any depth (`isNormal_iff`).  The normal form of a value is normal, what is normal is its own
normal form, and of an array or a table every item and entry that is something is kept in its place
(`normal_array`, `normal_table`).
-/

namespace EtherCore.Value

/-! ### Induction over values -/

/-- What holds of an array if it holds of its items, and of a table if it holds of the values of its
entries, holds of every value. -/
@[elab_as_elim]
theorem induct {P : Value → Prop} (string : ∀ s, P (.string s)) (integer : ∀ n, P (.integer n))
    (float : ∀ x, P (.float x)) (boolean : ∀ b, P (.boolean b)) (datetime : ∀ d, P (.datetime d))
    (array : ∀ xs, (∀ x ∈ xs, P x) → P (.array xs))
    (table : ∀ es, (∀ e ∈ es, P e.2) → P (.table es)) (v : Value) : P v :=
  @Value.rec P (fun xs => ∀ x ∈ xs, P x) (fun es => ∀ e ∈ es, P e.2) (fun e => P e.2)
    string integer float boolean datetime array table
    (fun _ hx => absurd hx List.not_mem_nil) (fun _ _ hx hxs => List.forall_mem_cons.2 ⟨hx, hxs⟩)
    (fun _ he => absurd he List.not_mem_nil) (fun _ _ he hes => List.forall_mem_cons.2 ⟨he, hes⟩)
    (fun _ _ hv => hv) v

/-! ### Values in values -/

/-- A value stands in another: it is that value, or it stands in an item or an entry of it. -/
inductive Within (w : Value) : Value → Prop
  | self : Within w w
  | item {xs : List Value} {x : Value} (hx : x ∈ xs) (h : Within w x) : Within w (.array xs)
  | entry {es : List (String × Value)} {e : String × Value} (he : e ∈ es) (h : Within w e.2) :
    Within w (.table es)

/-- The strings that name a boolean or nothing. -/
def literals : List String := ["True", "False", "None"]

theorem isNormalItems_iff {vs : List Value} : IsNormalItems vs ↔ ∀ v ∈ vs, v.IsNormal := by
  induction vs with
  | nil => simp [IsNormalItems]
  | cons v vs ih => simp [IsNormalItems, ih]

theorem isNormalEntries_iff {es : List (String × Value)} :
    IsNormalEntries es ↔ ∀ e ∈ es, e.2.IsNormal := by
  induction es with
  | nil => simp [IsNormalEntries]
  | cons e es ih => cases e; simp [IsNormalEntries, ih]

theorem string_within_string {s s' : String} : (string s).Within (.string s') ↔ s = s' := by
  constructor
  · intro h
    cases h
    rfl
  · rintro rfl
    exact .self

theorem string_within_array {s : String} {xs : List Value} :
    (string s).Within (.array xs) ↔ ∃ x ∈ xs, (string s).Within x := by
  constructor
  · intro h
    cases h with
    | item hx h => exact ⟨_, hx, h⟩
  · rintro ⟨x, hx, h⟩
    exact .item hx h

theorem string_within_table {s : String} {es : List (String × Value)} :
    (string s).Within (.table es) ↔ ∃ e ∈ es, (string s).Within e.2 := by
  constructor
  · intro h
    cases h with
    | entry he h => exact ⟨_, he, h⟩
  · rintro ⟨e, he, h⟩
    exact .entry he h

/-- A value is normal if and only if no string in it names a boolean or nothing. -/
theorem isNormal_iff {v : Value} : v.IsNormal ↔ ∀ s, (string s).Within v → s ∉ literals := by
  induction v using induct with
  | string s => simp [IsNormal, string_within_string, literals]
  | array xs ih =>
    rw [IsNormal, isNormalItems_iff]
    simp only [string_within_array, forall_exists_index, and_imp]
    exact ⟨fun h s x hx => (ih x hx).1 (h x hx) s, fun h x hx => (ih x hx).2 fun s => h s x hx⟩
  | table es ih =>
    rw [IsNormal, isNormalEntries_iff]
    simp only [string_within_table, forall_exists_index, and_imp]
    exact ⟨fun h s e he => (ih e he).1 (h e he) s, fun h e he => (ih e he).2 fun s => h s e he⟩
  | _ => exact ⟨fun _ s h => (nomatch h), fun _ => trivial⟩

/-! ### Normal forms -/

/-- Whether a value is the string that names nothing. -/
def isNothing : Value → Bool
  | .string s => s = "None"
  | _ => false

/-- The normal form of a value that is something. -/
def normal (v : Value) : Value := v.normalize?.getD v

theorem isNothing_iff {v : Value} : v.isNothing = true ↔ v = .string "None" := by
  cases v <;> simp [isNothing]

theorem normalize?_eq_none_iff {v : Value} : v.normalize? = none ↔ v = .string "None" := by
  cases v with
  | string s =>
    rw [normalize?]
    split_ifs <;> simp_all
  | _ => simp [normalize?]

theorem normalize?_eq_integer_iff {v : Value} {n : Int64} :
    v.normalize? = some (.integer n) ↔ v = .integer n := by
  cases v with
  | string s =>
    rw [normalize?]
    split_ifs <;> simp_all
  | _ => simp [normalize?]

theorem normalize?_string {s : String} (h : s ∉ literals) :
    (string s).normalize? = some (.string s) := by
  simp only [literals, List.mem_cons, List.not_mem_nil, or_false, not_or] at h
  rw [normalize?, if_neg h.1, if_neg h.2.1, if_neg h.2.2]

theorem eq_string_of_normalize? {v : Value} {s : String} (h : v.normalize? = some (.string s)) :
    v = .string s := by
  cases v with
  | string s' =>
    rw [normalize?] at h
    split_ifs at h <;> simp_all
  | _ => simp [normalize?] at h

theorem normalize?_eq (v : Value) : v.normalize? = if v.isNothing then none else some v.normal := by
  split
  · next h => exact normalize?_eq_none_iff.2 (isNothing_iff.1 h)
  · next h =>
    have hsome : v.normalize? ≠ none := mt normalize?_eq_none_iff.1 (mt isNothing_iff.2 h)
    obtain ⟨w, hw⟩ := Option.ne_none_iff_exists'.1 hsome
    rw [normal, hw, Option.getD_some]

theorem normalizeItems_eq_map (xs : List Value) :
    normalizeItems xs = (xs.filter fun x => !x.isNothing).map normal := by
  induction xs with
  | nil => rfl
  | cons x xs ih =>
    rw [normalizeItems, normalize?_eq, List.filter_cons]
    split <;> simp_all

theorem normalizeEntries_eq_map (es : List (String × Value)) :
    normalizeEntries es = (es.filter fun e => !e.2.isNothing).map fun e => (e.1, e.2.normal) := by
  induction es with
  | nil => rfl
  | cons e es ih =>
    obtain ⟨k, v⟩ := e
    rw [normalizeEntries, normalize?_eq, List.filter_cons]
    split <;> simp_all

/-- The items of an array that are something are kept in their order, in normal form. -/
theorem normal_array (xs : List Value) :
    (array xs).normal = .array ((xs.filter fun x => !x.isNothing).map normal) := by
  rw [← normalizeItems_eq_map]
  rfl

/-- The entries of a table that are something are kept under their keys, in normal form. -/
theorem normal_table (es : List (String × Value)) :
    (table es).normal
      = .table ((es.filter fun e => !e.2.isNothing).map fun e => (e.1, e.2.normal)) := by
  rw [← normalizeEntries_eq_map]
  rfl

theorem isNormal_normal {v : Value} (h : v ≠ .string "None") : v.normal.IsNormal := by
  induction v using induct with
  | string s =>
    have hnone : s ≠ "None" := fun hs => h (congrArg string hs)
    unfold normal normalize?
    split_ifs with htrue hfalse <;> simp_all [IsNormal]
  | array xs ih =>
    rw [normal_array, IsNormal, isNormalItems_iff]
    simp only [List.forall_mem_map, List.mem_filter, Bool.not_eq_true', and_imp]
    intro x hx hsome
    exact ih x hx fun heq => absurd (isNothing_iff.2 heq) (by simp [hsome])
  | table es ih =>
    rw [normal_table, IsNormal, isNormalEntries_iff]
    simp only [List.forall_mem_map, List.mem_filter, Bool.not_eq_true', and_imp]
    intro e he hsome
    exact ih e he fun heq => absurd (isNothing_iff.2 heq) (by simp [hsome])
  | _ => trivial

/-- A normal value is something, and its own normal form. -/
theorem normalize?_of_isNormal {v : Value} (h : v.IsNormal) : v.normalize? = some v := by
  induction v using induct with
  | string s =>
    obtain ⟨htrue, hfalse, hnone⟩ := h
    rw [normalize?, if_neg htrue, if_neg hfalse, if_neg hnone]
  | array xs ih =>
    rw [IsNormal, isNormalItems_iff] at h
    have hitems : xs.filterMap normalize? = xs :=
      (List.filterMap_congr fun x hx => ih x hx (h x hx)).trans List.filterMap_some
    rw [normalize?, normalizeItems_eq, hitems]
  | table es ih =>
    rw [IsNormal, isNormalEntries_iff] at h
    have hentries : (es.filterMap fun e => e.2.normalize?.map fun v => (e.1, v)) = es := by
      refine (List.filterMap_congr fun e he => ?_).trans List.filterMap_some
      rw [ih e he (h e he), Option.map_some]
    rw [normalize?, normalizeEntries_eq, hentries]
  | _ => rfl

end EtherCore.Value
