import Mathlib.Data.List.Nodup

/-!
Lists that grow at their ends, and lists with at most one element of a kind.
-/

namespace EtherCore

variable {α β : Type}

theorem forall_mem_concat {P : α → Prop} {l : List α} {x : α} (hl : ∀ y ∈ l, P y) (hx : P x) :
    ∀ y ∈ l ++ [x], P y :=
  List.forall_mem_append.2 ⟨hl, List.forall_mem_singleton.2 hx⟩

theorem nodup_map_concat {f : α → β} {l : List α} {x : α} (hl : (l.map f).Nodup)
    (hx : f x ∉ l.map f) : ((l ++ [x]).map f).Nodup := by
  rw [List.map_append, List.map_singleton, ← List.concat_eq_append]
  exact hl.concat hx

theorem eraseDups_concat_of_mem [BEq α] [LawfulBEq α] {l : List α} {x : α} (h : x ∈ l) :
    (l ++ [x]).eraseDups = l.eraseDups := by
  have hnone : [x].removeAll l = [] := by simp [List.removeAll, h]
  rw [List.eraseDups_append, hnone, List.eraseDups_nil, List.append_nil]

theorem eraseDups_concat_of_notMem [BEq α] [LawfulBEq α] {l : List α} {x : α} (h : x ∉ l) :
    (l ++ [x]).eraseDups = l.eraseDups ++ [x] := by
  have hall : [x].removeAll l = [x] := by simp [List.removeAll, h]
  rw [List.eraseDups_append, hall]
  rfl

/-- A change of one element that a function does not see. -/
theorem map_modify_of_eq {f : α → α} {g : α → β} (h : ∀ x, g (f x) = g x) (i : Nat) (l : List α) :
    (l.modify i f).map g = l.map g := by
  refine List.ext_getElem? fun k => ?_
  simp only [List.getElem?_map, List.getElem?_modify]
  by_cases hik : i = k <;> cases l[k]? <;> simp [hik, h]

/-- A list has at most one element of a kind exactly if no two of its places hold one. -/
theorem length_filter_le_one_iff {p : α → Bool} {l : List α} :
    (l.filter p).length ≤ 1 ↔ l.Pairwise fun x y => p x → ¬ p y := by
  induction l with
  | nil => simp
  | cons x l ih =>
    by_cases hx : p x
    · rw [List.filter_cons_of_pos hx, List.length_cons, List.pairwise_cons, ← ih]
      constructor
      · intro h
        have hnil : l.filter p = [] := List.length_eq_zero_iff.1 (by omega)
        exact ⟨fun y hy _ => List.filter_eq_nil_iff.1 hnil y hy, by simp [hnil]⟩
      · rintro ⟨h, -⟩
        have hnil : l.filter p = [] := List.filter_eq_nil_iff.2 fun y hy => h y hy hx
        simp [hnil]
    · rw [List.filter_cons_of_neg hx, List.pairwise_cons, ← ih]
      exact ⟨fun h => ⟨fun _ _ h' => absurd h' hx, h⟩, fun h => h.2⟩

/-- The one element of a kind. -/
theorem filter_eq_singleton {p : α → Bool} {l : List α} (hl : l.Pairwise fun x y => p x → ¬ p y)
    {x : α} (hx : x ∈ l) (hp : p x) : l.filter p = [x] := by
  have hmem : x ∈ l.filter p := List.mem_filter.2 ⟨hx, hp⟩
  obtain ⟨y, hy⟩ := List.length_eq_one_iff.1
    (Nat.le_antisymm (length_filter_le_one_iff.2 hl) (List.length_pos_of_mem hmem))
  rw [hy] at hmem ⊢
  rw [List.mem_singleton.1 hmem]

/-- Without those in front, what is left of a list of distinct elements is the rest behind them. -/
theorem filter_notMem_take [DecidableEq α] {l : List α} (hl : l.Nodup) (k : Nat) :
    (l.filter fun x => x ∉ l.take k) = l.drop k := by
  have hsplit := List.take_append_drop k l
  have hdisjoint : ∀ x ∈ l.drop k, x ∉ l.take k := by
    intro x hx hx'
    rw [← hsplit] at hl
    exact (List.nodup_append.1 hl).2.2 x hx' x hx rfl
  have hfront : (l.take k).filter (fun x => x ∉ l.take k) = [] := by
    simp [List.filter_eq_nil_iff]
  have hback : (l.drop k).filter (fun x => x ∉ l.take k) = l.drop k := by
    simpa [List.filter_eq_self] using hdisjoint
  conv_lhs => rw [← hsplit, List.filter_append]
  rw [hsplit, hfront, hback, List.nil_append]

end EtherCore
