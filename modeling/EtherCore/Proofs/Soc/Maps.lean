import EtherCore.Proofs.Table
import EtherCore.Soc.Maps
import Mathlib.Data.List.Induction

/-!
Maps that are updated several times.  Under every name each of the three maps holds what the last
update of this map gave under the name, and without such an update what it held before
(`get?_updateAll`).  So updates can be put together, a last update that comes again changes nothing,
and updates without a common name in maps of one kind change places (`updateAll_lastWriter`).
-/

namespace EtherCore.SocMaps

/-- The maps after several updates, one after the other. -/
def updateAll (m : SocMaps) (updates : List SocMaps) : SocMaps := updates.foldl update m

/-- No maps of one kind have a common name. -/
structure Apart (a b : SocMaps) : Prop where
  csr : a.csr.names.Disjoint b.csr.names
  interrupt : a.interrupt.names.Disjoint b.interrupt.names
  memory : a.memory.names.Disjoint b.memory.names

theorem updateAll_concat (m : SocMaps) (updates : List SocMaps) (u : SocMaps) :
    m.updateAll (updates ++ [u]) = (m.updateAll updates).update u := by
  rw [updateAll, List.foldl_append]
  rfl

/-- A map that is merged with the same map of every update holds what the last update gave that has
the name. -/
theorem get?_updateAll {α : Type} {f : SocMaps → Table α}
    (hf : ∀ m u, f (m.update u) = (f m).merge (f u)) (m : SocMaps) (updates : List SocMaps)
    (name : String) :
    (f (m.updateAll updates)).get? name
      = (updates.reverse.findSome? fun u => (f u).get? name).or ((f m).get? name) := by
  induction updates using List.reverseRecOn with
  | nil => rfl
  | append_singleton updates u ih =>
    rw [updateAll_concat, hf, Table.get?_merge, ih, List.reverse_concat, List.findSome?_cons]
    cases (f u).get? name with
    | none => rw [Option.none_or]
    | some v => rfl

theorem update_assoc (m a b : SocMaps) : (m.update a).update b = m.update (a.update b) := by
  simp only [update, Table.merge_assoc]

theorem update_self (u : SocMaps) : u.update u = u := by
  simp only [update, Table.merge_self]

theorem Apart.update_comm {a b : SocMaps} (h : a.Apart b) : a.update b = b.update a := by
  unfold update
  rw [Table.merge_comm h.csr, Table.merge_comm h.interrupt, Table.merge_comm h.memory]

/-- After any updates each map holds, under every name, what the last update that has the name in
this map gave, else what it held at first, else nothing.  Two updates are the update by the second
over the first; the last update may come again; and two updates without a common name in maps of
one kind may come in either order. -/
theorem updateAll_lastWriter (m : SocMaps) (updates : List SocMaps) :
    (∀ name,
      (m.updateAll updates).csr.get? name
          = (updates.reverse.findSome? fun u => u.csr.get? name).or (m.csr.get? name) ∧
        (m.updateAll updates).interrupt.get? name
          = (updates.reverse.findSome? fun u => u.interrupt.get? name).or (m.interrupt.get? name) ∧
        (m.updateAll updates).memory.get? name
          = (updates.reverse.findSome? fun u => u.memory.get? name).or (m.memory.get? name)) ∧
      (∀ a b, (m.update a).update b = m.update (a.update b)) ∧
      (∀ u, updates.getLast? = some u → (m.updateAll updates).update u = m.updateAll updates) ∧
      ∀ a b, a.Apart b → (m.update a).update b = (m.update b).update a := by
  refine ⟨fun name => ⟨?_, ?_, ?_⟩, update_assoc m, fun u hu => ?_, fun a b h => ?_⟩
  · exact get?_updateAll (f := csr) (fun _ _ => rfl) m updates name
  · exact get?_updateAll (f := interrupt) (fun _ _ => rfl) m updates name
  · exact get?_updateAll (f := memory) (fun _ _ => rfl) m updates name
  · obtain ⟨before, rfl⟩ := List.getLast?_eq_some_iff.1 hu
    rw [updateAll_concat, update_assoc, update_self]
  · rw [update_assoc, h.update_comm, update_assoc]

/-- An update that sets an interrupt and moves the window, one that moves a page for the second
time, and one that shares no name with it. -/
theorem updateAll_lastWriter_moved :
    let window : SocMaps := ⟨.ofList [("ethmac", 3)], .ofList [("ethmac", 1)],
      .ofList [("csr", 0x1000)]⟩
    let page : SocMaps := ⟨.ofList [("ethmac", 5)], .empty, .empty⟩
    let region : SocMaps := ⟨.ofList [("ethphy", 5)], .empty, .ofList [("ethmac", 0x2000)]⟩
    let m := defaults.updateAll [window, page]
    [window, page].getLast? = some page ∧ page.Apart region ∧ m.csr.get? "ethmac" = some 5 ∧
      m.interrupt.get? "ethmac" = some 1 ∧ m.memory.get? "csr" = some 0x1000 ∧
      m.update page = m ∧ (m.update page).update region = (m.update region).update page := by
  intro window page region m
  have hlast : [window, page].getLast? = some page := rfl
  have hapart : page.Apart region := by
    constructor <;> rw [List.disjoint_left] <;> decide +kernel
  have htwice := (updateAll_lastWriter defaults [window, page]).2.2.1 page hlast
  have hswap := (updateAll_lastWriter m []).2.2.2 page region hapart
  exact ⟨hlast, hapart, by decide +kernel, by decide +kernel, by decide +kernel, htwice, hswap⟩

end EtherCore.SocMaps
