import EtherCore.Text.Ascii
import Mathlib.Data.List.Basic

/-!
Texts that are split.  A text is split at the first separator into what is in front of it and the
parts of the rest, and the lines that a text was put together from are its lines (`lines_join`).
-/

namespace EtherCore.Text

variable {separates : Char → Bool} {cs rest : List Char} {c : Char}

/-! ### Parts -/

theorem splitOn_of_forall (h : ∀ x ∈ cs, separates x = false) : splitOn separates cs = [cs] := by
  induction cs with
  | nil => rfl
  | cons x cs ih =>
    obtain ⟨hx, hcs⟩ := List.forall_mem_cons.1 h
    rw [splitOn, hx, ih hcs]
    rfl

theorem splitOn_append_cons (h : ∀ x ∈ cs, separates x = false) (hc : separates c = true) :
    splitOn separates (cs ++ c :: rest) = cs :: splitOn separates rest := by
  induction cs with
  | nil => rw [List.nil_append, splitOn, hc, if_pos rfl]
  | cons x cs ih =>
    obtain ⟨hx, hcs⟩ := List.forall_mem_cons.1 h
    rw [List.cons_append, splitOn, hx, ih hcs]
    rfl

/-- The parts of a text with the separator between them are the text. -/
theorem intercalate_splitOn (x : Char) (cs : List Char) :
    [x].intercalate (splitOn (fun c => c = x) cs) = cs := by
  induction cs with
  | nil => rfl
  | cons c cs ih =>
    rw [splitOn]
    split
    · next hc =>
      obtain rfl := of_decide_eq_true hc
      obtain ⟨p, ps, hps⟩ := List.exists_cons_of_ne_nil (splitOn_ne_nil (fun d => d = c) cs)
      rw [hps] at ih ⊢
      simpa [List.intercalate] using ih
    · split
      · next hnil => exact absurd hnil (splitOn_ne_nil _ cs)
      · next p ps hps =>
        rw [hps] at ih
        cases ps <;> simpa [List.intercalate] using ih

/-- A text has no separator, or it is split at its first one. -/
theorem splitOn_cases (separates : Char → Bool) (cs : List Char) :
    (∀ x ∈ cs, separates x = false) ∨
      ∃ front c rest, cs = front ++ c :: rest ∧ separates c = true ∧
        ∀ x ∈ front, separates x = false := by
  induction cs with
  | nil => exact Or.inl fun _ hx => absurd hx List.not_mem_nil
  | cons x cs ih =>
    cases hx : separates x with
    | true => exact Or.inr ⟨[], x, cs, rfl, hx, fun _ hy => absurd hy List.not_mem_nil⟩
    | false =>
      obtain h | ⟨front, c, rest, rfl, hc, hfront⟩ := ih
      · exact Or.inl (List.forall_mem_cons.2 ⟨hx, h⟩)
      · exact Or.inr ⟨x :: front, c, rest, rfl, hc, List.forall_mem_cons.2 ⟨hx, hfront⟩⟩

/-! ### Lines -/

/-- A text without line feeds. -/
def OneLine (s : String) : Prop := '\n' ∉ s.toList

instance (s : String) : Decidable (OneLine s) := inferInstanceAs (Decidable ('\n' ∉ s.toList))

theorem OneLine.append {s t : String} (hs : OneLine s) (ht : OneLine t) : OneLine (s ++ t) := by
  unfold OneLine
  rw [String.toList_append, List.mem_append]
  exact not_or.2 ⟨hs, ht⟩

/-- The lines of a text, each ended by a line feed; what stands behind the last line feed is a
line if it is not empty. -/
def lines (s : String) : List String :=
  let parts := splitOn (· = '\n') s.toList
  (if parts.getLast? = some [] then parts.dropLast else parts).map String.ofList

theorem splitOn_flatMap_lines {ls : List String} (h : ∀ l ∈ ls, OneLine l) :
    splitOn (· = '\n') (ls.flatMap fun l => l.toList ++ ['\n']) = ls.map String.toList ++ [[]] := by
  induction ls with
  | nil => rfl
  | cons l ls ih =>
    obtain ⟨hl, hls⟩ := List.forall_mem_cons.1 h
    have hnone : ∀ x ∈ l.toList, decide (x = '\n') = false :=
      fun x hx => decide_eq_false fun heq => hl (heq ▸ hx)
    rw [List.flatMap_cons, List.append_assoc, List.singleton_append,
      splitOn_append_cons hnone (decide_eq_true rfl), ih hls]
    rfl

/-- Lines that are put together are the lines of the whole. -/
theorem lines_join {ls : List String} (h : ∀ l ∈ ls, OneLine l) :
    lines (String.join (ls.map fun l => l ++ "\n")) = ls := by
  have htext : (String.join (ls.map fun l => l ++ "\n")).toList
      = ls.flatMap fun l => l.toList ++ ['\n'] := by
    rw [String.toList_join, List.flatMap_map]
    simp only [String.toList_append]
    rfl
  unfold lines
  simp only [htext, splitOn_flatMap_lines h, List.getLast?_concat, if_true, List.dropLast_concat]
  simp [Function.comp_def]

end EtherCore.Text
