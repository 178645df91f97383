import EtherCore.Proofs.Text.Split
import Mathlib.Algebra.Order.BigOperators.Group.List
import Mathlib.Tactic.Ring

/-!
Texts of rows and columns.  Rows that are put together are as many lines as rows, of as many columns
as they have fields, if and only if no field holds one of the characters that separate: a comma or
a line feed (`grid_join_iff`, `row_iff`).
-/

namespace EtherCore.Text

variable {s t : String}

/-! ### Texts that nothing separates -/

/-- A text without commas and line feeds. -/
def Plain (s : String) : Prop := ',' ∉ s.toList ∧ '\n' ∉ s.toList

instance (s : String) : Decidable (Plain s) :=
  inferInstanceAs (Decidable (',' ∉ s.toList ∧ '\n' ∉ s.toList))

theorem plain_iff : Plain s ↔ ∀ x ∈ s.toList, x ≠ ',' ∧ x ≠ '\n' := by
  simp only [forall_and, Plain, List.forall_mem_ne']

theorem plain_append_iff : Plain (s ++ t) ↔ Plain s ∧ Plain t := by
  simp only [plain_iff, String.toList_append, List.forall_mem_append]

theorem exists_digitChar_of_mem {base n : Nat} {x : Char} (hbase : 1 < base)
    (h : x ∈ Nat.toDigits base n) : ∃ d < base, x = Nat.digitChar d := by
  induction n using Nat.strong_induction_on with
  | _ n ih =>
    rw [Nat.toDigits_eq_if hbase] at h
    split at h
    · next hn => exact ⟨n, hn, List.mem_singleton.1 h⟩
    · next hn =>
      rcases List.mem_append.1 h with h | h
      · exact ih _ (Nat.div_lt_self (by omega) hbase) h
      · exact ⟨n % base, Nat.mod_lt _ (by omega), List.mem_singleton.1 h⟩

theorem plain_of_digits {base n : Nat} (hbase : 1 < base) (hlimit : base ≤ 16)
    (h : s.toList = Nat.toDigits base n) : Plain s := by
  have hdigit : ∀ d < 16, Nat.digitChar d ≠ ',' ∧ Nat.digitChar d ≠ '\n' := by decide
  refine plain_iff.2 fun x hx => ?_
  obtain ⟨d, hd, rfl⟩ := exists_digitChar_of_mem hbase (h ▸ hx)
  exact hdigit d (by omega)

theorem plain_hexWord (n : Nat) : Plain (hexWord n) := by
  have hdigits : Plain (String.ofList (Nat.toDigits 16 n)) :=
    plain_of_digits (by decide) le_rfl String.toList_ofList
  refine plain_append_iff.2 ⟨by decide, plain_iff.2 fun x hx => ?_⟩
  rw [hex, String.toList_ofList, padLeft] at hx
  rcases List.mem_append.1 hx with hx | hx
  · rw [List.eq_of_mem_replicate hx]
    decide
  · exact plain_iff.1 hdigits x (by rwa [String.toList_ofList])

/-! ### Characters that separate -/

theorem length_splitOn (separates : Char → Bool) (cs : List Char) :
    (splitOn separates cs).length = cs.countP separates + 1 := by
  induction cs with
  | nil => rfl
  | cons c cs ih =>
    rw [splitOn]
    split
    · next hc => rw [List.length_cons, ih, List.countP_cons_of_pos hc]
    · next hc =>
      rw [List.countP_cons_of_neg hc, ← ih]
      split
      · next hnil => exact absurd hnil (splitOn_ne_nil _ _)
      · next hcons => rw [hcons, List.length_cons, List.length_cons]

/-- How often a character occurs in texts with a separator between them. -/
theorem count_intercalate (x : Char) (separator s : String) (ss : List String) :
    (separator.intercalate (s :: ss)).toList.count x =
      ((s :: ss).map fun t => t.toList.count x).sum + ss.length * separator.toList.count x := by
  induction ss generalizing s with
  | nil => simp
  | cons t ss ih =>
    rw [String.intercalate_cons_cons, String.toList_append, String.toList_append,
      List.count_append, List.count_append, ih, List.map_cons (l := t :: ss), List.sum_cons,
      List.length_cons]
    ring

theorem count_join_lines (ls : List String) :
    (String.join (ls.map (· ++ "\n"))).toList.count '\n' =
      ls.length + (ls.map fun l => l.toList.count '\n').sum := by
  induction ls with
  | nil => rfl
  | cons l ls ih =>
    have hfeed : "\n".toList.count '\n' = 1 := by decide
    rw [List.map_cons, String.join_cons, String.toList_append, String.toList_append,
      List.count_append, List.count_append, ih, hfeed, List.map_cons, List.sum_cons,
      List.length_cons]
    omega

theorem sum_count_eq_zero_iff {x : Char} {ss : List String} :
    (ss.map fun t => t.toList.count x).sum = 0 ↔ ∀ t ∈ ss, x ∉ t.toList := by
  simp [List.sum_eq_zero_iff, List.count_eq_zero]

/-- Lines between line feeds, and one line feed more. -/
theorem intercalate_append_feed {ls : List String} (h : ls ≠ []) :
    "\n".intercalate ls ++ "\n" = String.join (ls.map (· ++ "\n")) := by
  induction ls with
  | nil => exact absurd rfl h
  | cons l ls ih =>
    cases ls with
    | nil => simp
    | cons l' ls =>
      rw [String.intercalate_cons_cons, String.append_assoc, ih (List.cons_ne_nil _ _),
        List.map_cons (l := l' :: ls), String.join_cons]

/-! ### Rows and columns -/

/-- The number of columns of a line, between which there are commas. -/
def columns (l : String) : Nat := (splitOn (· = ',') l.toList).length

/-- A text of so many lines, each ended by a line feed, and of so many columns each. -/
def Grid (s : String) (rows width : Nat) : Prop :=
  ∃ ls : List String, ls.length = rows ∧ s = String.join (ls.map (· ++ "\n")) ∧
    ∀ l ∈ ls, OneLine l ∧ columns l = width

theorem columns_eq_count (l : String) : columns l = l.toList.count ',' + 1 := by
  unfold columns
  rw [length_splitOn, List.count]
  congr 2

/-- Fields with commas between them are a line of as many columns, if and only if they are plain. -/
theorem row_iff (f : String) (fs : List String) :
    (OneLine (",".intercalate (f :: fs)) ∧ columns (",".intercalate (f :: fs)) = fs.length + 1) ↔
      ∀ g ∈ f :: fs, Plain g := by
  have hfeed : ",".toList.count '\n' = 0 := by decide
  have hcomma : ",".toList.count ',' = 1 := by decide
  have honeLine : OneLine (",".intercalate (f :: fs)) ↔ ∀ g ∈ f :: fs, '\n' ∉ g.toList := by
    rw [← sum_count_eq_zero_iff, OneLine, ← List.count_eq_zero, count_intercalate, hfeed,
      Nat.mul_zero, Nat.add_zero]
  have hcolumns : columns (",".intercalate (f :: fs)) = fs.length + 1 ↔
      ∀ g ∈ f :: fs, ',' ∉ g.toList := by
    rw [← sum_count_eq_zero_iff, columns_eq_count, count_intercalate, hcomma]
    omega
  rw [honeLine, hcolumns]
  simp only [Plain, forall_and, and_comm]

/-- Rows that are put together have the form of rows and columns, if and only if each of them is one
line of these columns. -/
theorem grid_join_iff {rows : List String} {width : Nat} :
    Grid (String.join (rows.map (· ++ "\n"))) rows.length width ↔
      ∀ l ∈ rows, OneLine l ∧ columns l = width := by
  constructor
  · rintro ⟨ls, hlength, htext, hls⟩
    have hlines : ∀ l ∈ ls, OneLine l := fun l hl => (hls l hl).1
    -- both sides have as many line feeds as lines, and so the rows hold none
    have hfeeds := congrArg (fun s => s.toList.count '\n') htext
    simp only [count_join_lines, hlength, sum_count_eq_zero_iff.2 hlines] at hfeeds
    have hrows : ∀ l ∈ rows, OneLine l := sum_count_eq_zero_iff.1 (by omega)
    have hsame : rows = ls := by rw [← lines_join hrows, htext, lines_join hlines]
    exact hsame ▸ hls
  · exact fun h => ⟨rows, rfl, rfl, h⟩

theorem Grid.columns_eq {rows width : Nat} (h : Grid s rows width) :
    ∀ l ∈ lines s, columns l = width := by
  obtain ⟨ls, -, rfl, hls⟩ := h
  rw [lines_join fun l hl => (hls l hl).1]
  exact fun l hl => (hls l hl).2

end EtherCore.Text
