import EtherCore.Document.Value

/-!
Values in which some strings stand for what they name: `True` and `False` for the booleans, and
`None` for nothing at all.  A value is normal when no such string is left in it.
-/

namespace EtherCore.Value

mutual

/-- The value with the naming strings replaced, at every depth; nothing for `None`. -/
def normalize? : Value → Option Value
  | .string s =>
    if s = "True" then some (.boolean true)
    else if s = "False" then some (.boolean false)
    else if s = "None" then none
    else some (.string s)
  | .integer n => some (.integer n)
  | .float x => some (.float x)
  | .boolean b => some (.boolean b)
  | .datetime d => some (.datetime d)
  | .array xs => some (.array (normalizeItems xs))
  | .table es => some (.table (normalizeEntries es))

/-- The items that are something, in normal form. -/
def normalizeItems : List Value → List Value
  | [] => []
  | v :: vs =>
    match v.normalize? with
    | some w => w :: normalizeItems vs
    | none => normalizeItems vs

/-- The entries that are something, with their values in normal form. -/
def normalizeEntries : List (String × Value) → List (String × Value)
  | [] => []
  | (k, v) :: es =>
    match v.normalize? with
    | some w => (k, w) :: normalizeEntries es
    | none => normalizeEntries es

end

mutual

/-- No naming string stands in the value, at any depth. -/
def IsNormal : Value → Prop
  | .string s => s ≠ "True" ∧ s ≠ "False" ∧ s ≠ "None"
  | .array xs => IsNormalItems xs
  | .table es => IsNormalEntries es
  | _ => True

/-- Every item is normal. -/
def IsNormalItems : List Value → Prop
  | [] => True
  | v :: vs => v.IsNormal ∧ IsNormalItems vs

/-- Every entry has a normal value. -/
def IsNormalEntries : List (String × Value) → Prop
  | [] => True
  | (_, v) :: es => v.IsNormal ∧ IsNormalEntries es

end

theorem normalizeItems_eq (vs : List Value) : normalizeItems vs = vs.filterMap normalize? := by
  induction vs with
  | nil => rfl
  | cons v vs ih =>
    rw [normalizeItems, List.filterMap_cons]
    split <;> simp_all

theorem normalizeEntries_eq (es : List (String × Value)) :
    normalizeEntries es = es.filterMap fun e => e.2.normalize?.map fun v => (e.1, v) := by
  induction es with
  | nil => rfl
  | cons e es ih =>
    cases e
    rw [normalizeEntries, List.filterMap_cons]
    split <;> simp_all

end EtherCore.Value
