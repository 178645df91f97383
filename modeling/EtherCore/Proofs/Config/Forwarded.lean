import EtherCore.Proofs.Config.Consistent
import EtherCore.Proofs.Config.Readers
import EtherCore.Proofs.Config.SocOptions

/-!
Options that are passed on.  The arguments of a configuration are the entries below `soc` that are
no maps, and the entries without a meaning that none of them shadows; the log tells of each entry
without a meaning once (`ofTable_forwarded`).  Such an entry may as well be written below `soc`,
unless it has the name of the map of interrupts (`ofTable_moveBelow_iff`).
-/

namespace EtherCore.Config

variable {t : Table Value} {c : Config} {log : Log}

/-! ### What stands below `soc` -/

/-- The table below `soc`, which has no entries where there is none. -/
def belowSoc (t : Table Value) : Table Value := ((t.get? "soc").bind Value.table?).getD .empty

/-- The entries below `soc` that are arguments. -/
def socArgs (t : Table Value) : Table Value := SocOptions.rest (belowSoc t)

theorem ofValue?_eq_ok {o : SocOptions} (h : SocOptions.ofValue? (t.get? "soc") = .ok o) :
    (∀ v, t.get? "soc" = some v → v.table?.isSome) ∧ o.maps.Reads (belowSoc t) ∧
      o.args = socArgs t := by
  unfold socArgs belowSoc
  cases hv : t.get? "soc" with
  | none =>
    rw [hv] at h
    cases h
    refine ⟨fun v hv => (nomatch hv), ⟨fun _ => rfl, fun _ => rfl, fun _ => rfl⟩, rfl⟩
  | some v =>
    rw [hv] at h
    cases v with
    | table es =>
      obtain ⟨-, -, -, hargs⟩ := SocOptions.ofTable_eq_ok_iff.1 h
      refine ⟨fun v hv => ?_, SocOptions.reads_of_ofTable h, hargs⟩
      cases hv
      rfl
    | _ => cases h

/-! ### Entries that are passed on -/

/-- An argument is kept, and an unrecognized entry is added where there is none of its name. -/
theorem get?_forward (t args : Table Value) (k : String) :
    (forward t args).get? k
      = (args.get? k).or (if k ∈ recognizedKeys then none else t.get? k) := by
  have hunrecognized : (unrecognized t).Pairwise fun x y => x.1 < y.1 := t.ascending.filter _
  have hkept : Table.lookup? k ((unrecognized t).filter fun e => !args.contains e.1)
      = if !args.contains k then Table.lookup? k (unrecognized t) else none :=
    Table.get?_filter (fun k => !args.contains k) ⟨unrecognized t, hunrecognized⟩ k
  have hown : Table.lookup? k (unrecognized t)
      = if !recognizedKeys.contains k then t.get? k else none :=
    Table.get?_filter (fun k => !recognizedKeys.contains k) t k
  rw [forward, Table.get?_foldl_insert (hunrecognized.filter _), hkept, hown, Table.contains]
  by_cases hk : k ∈ recognizedKeys <;> cases args.get? k <;> simp [hk]

/-! ### Findings -/

/-- The options of a configuration are those below `soc` with the entries that are passed on, and
the log is that of the delays and then that of these entries. -/
theorem exists_options_of_ofTable (h : ofTable t = (.ok c, log)) :
    ∃ given o, readDelays (normalize t) = .ok given ∧
      SocOptions.ofValue? ((normalize t).get? "soc") = .ok o ∧
      c.soc = ⟨forward (normalize t) o.args, o.maps⟩ ∧
      log = delayLog c.phy given ++ forwardingLog (normalize t) o.args := by
  obtain ⟨head, core, soc, hhead, htail, rfl, rfl⟩ :=
    ofNormal_eq_ok_iff.1 (ofTable_eq_ok_iff.1 h).2
  simp only [readHead, readTail, Outcome.bind_eq_ok_iff, Outcome.pure_eq_ok_iff] at hhead htail
  obtain ⟨clock, -, platform, -, phy, -, given, hgiven, rfl⟩ := hhead
  obtain ⟨core', -, soc', hsoc, hsame⟩ := htail
  obtain ⟨rfl, rfl⟩ := Prod.mk.inj hsame
  exact ⟨given, soc', hgiven, hsoc, rfl, rfl⟩

theorem reads_of_ofTable (h : ofTable t = (.ok c, log)) :
    c.soc.maps.Reads (belowSoc (normalize t)) := by
  obtain ⟨given, o, -, ho, hsoc, -⟩ := exists_options_of_ofTable h
  rw [hsoc]
  exact (ofValue?_eq_ok ho).2.1

/-- A table with an entry moved below `soc`, where another table stands. -/
def moveBelow (t s : Table Value) (key : String) (v : Value) : Table Value :=
  (t.erase key).insert "soc" (.ofTable (s.insert key v))

theorem normalize?_ofTable (t : Table Value) :
    (Value.ofTable t).normalize? = some (.ofTable (normalize t)) := by
  rw [Value.ofTable, Value.normalize?, Value.normalizeEntries_eq]
  rfl

theorem ofValue?_ofTable (t : Table Value) :
    SocOptions.ofValue? (some (.ofTable t)) = SocOptions.ofTable t :=
  congrArg SocOptions.ofTable (Table.ofList_entries t)

/-- Where there is no table below `soc`, the options are those of a table without entries. -/
theorem ofValue?_normalize {s : Option (Table Value)} (h : t.get? "soc" = s.map Value.ofTable) :
    SocOptions.ofValue? ((normalize t).get? "soc")
      = SocOptions.ofTable (normalize (s.getD .empty)) := by
  rw [get?_normalize, h]
  cases s with
  | none => rfl
  | some s =>
    rw [Option.map_some, Option.bind_some, normalize?_ofTable, ofValue?_ofTable]
    rfl

/-- A table that is a configuration, by its parts: the head, the core, and the options of the table
below `soc`, whose arguments are joined by the entries that are passed on. -/
theorem exists_ofTable_iff {s : Option (Table Value)} (h : t.get? "soc" = s.map Value.ofTable) :
    (∃ log, ofTable t = (.ok c, log)) ↔ (∀ key ∈ movedKeys, t.get? key = none) ∧
      ∃ head core o, readHead (normalize t) = .ok head ∧ readCore (normalize t) = .ok core ∧
        SocOptions.ofTable (normalize (s.getD .empty)) = .ok o ∧
        c = ⟨head.clock, head.platform, head.phy, delaysOf head.phy head.given, core,
          ⟨forward (normalize t) (SocOptions.rest (normalize (s.getD .empty))), o.maps⟩⟩ := by
  simp only [ofTable_eq_ok_iff, exists_and_left, and_congr_right_iff]
  intro _
  constructor
  · rintro ⟨log, hnormal⟩
    obtain ⟨head, core, o, hhead, htail, rfl, -⟩ := ofNormal_eq_ok_iff.1 hnormal
    simp only [readTail, Outcome.bind_eq_ok_iff, Outcome.pure_eq_ok_iff] at htail
    obtain ⟨core', hcore, o', ho, hsame⟩ := htail
    obtain ⟨rfl, rfl⟩ := Prod.mk.inj hsame
    rw [ofValue?_normalize h] at ho
    have hargs := (SocOptions.ofTable_eq_ok_iff.1 ho).2.2.2
    exact ⟨head, hhead, core', hcore, o', ho, by rw [← hargs]⟩
  · rintro ⟨head, hhead, core, hcore, o, ho, rfl⟩
    have hargs := (SocOptions.ofTable_eq_ok_iff.1 ho).2.2.2
    rw [← ofValue?_normalize h] at ho
    have htail : readTail (normalize t) = .ok (core, o) := by
      rw [readTail, Outcome.bind_of_eq_ok hcore, Outcome.bind_of_eq_ok ho]
      rfl
    exact ⟨_, ofNormal_eq_ok_iff.2 ⟨head, core, o, hhead, htail, by rw [← hargs], rfl⟩⟩

theorem eq_of_mem_mapNames {key : String} (h : key ∈ SocOptions.mapNames) (h' : key ∉ movedKeys) :
    key = "interrupt_map" := by
  simp only [SocOptions.mapNames, movedKeys, List.mem_cons, List.not_mem_nil, or_false] at h h'
  tauto

section

variable {s : Table Value} {key : String} {v : Value}

theorem get?_moveBelow (k : String) : (moveBelow t s key v).get? k =
    if k = "soc" then some (.ofTable (s.insert key v)) else if k = key then none else t.get? k := by
  rw [moveBelow, Table.get?_insert, Table.get?_erase]

theorem get?_normalize_insert (k : String) : (normalize (s.insert key v)).get? k =
    if k = key then v.normalize? else (normalize s).get? k := by
  rw [get?_normalize, get?_normalize, Table.get?_insert]
  split <;> rfl

/-- An entry without a meaning is an argument under its key. -/
theorem get?_args_self (hkey : key ∉ recognizedKeys) (hv : t.get? key = some v)
    (hnew : s.get? key = none) :
    (forward (normalize t) (SocOptions.rest (normalize s))).get? key = v.normalize? := by
  rw [get?_forward, SocOptions.get?_rest, get?_normalize, get?_normalize, hv, hnew, if_neg hkey]
  simp

theorem get?_map_insert (hnew : s.get? key = none)
    (hmap : key ∈ SocOptions.mapNames → v.normalize? = none) :
    ∀ name ∈ SocOptions.mapNames,
      (normalize (s.insert key v)).get? name = (normalize s).get? name := by
  intro name hname
  rw [get?_normalize_insert]
  split
  · next heq => rw [heq, hmap (heq ▸ hname), get?_normalize, hnew, Option.bind_none]
  · rfl

/-- Below `soc` it is one too, if it has not the name of a map, and the other arguments stay. -/
theorem get?_args_moveBelow (hkey : key ∉ recognizedKeys) (k : String) :
    (forward (normalize (moveBelow t s key v))
        (SocOptions.rest (normalize (s.insert key v)))).get? k =
      if k = key then if key ∈ SocOptions.mapNames then none else v.normalize?
      else (forward (normalize t) (SocOptions.rest (normalize s))).get? k := by
  have hsoc : key ≠ "soc" := fun h => hkey (h ▸ by decide)
  rw [get?_forward, get?_forward, SocOptions.get?_rest, SocOptions.get?_rest,
    get?_normalize_insert, get?_normalize (moveBelow t s key v), get?_moveBelow]
  by_cases hk : k = key
  · subst hk
    simp [hsoc]
  · by_cases hks : k = "soc"
    · have hrecognized : k ∈ recognizedKeys := hks ▸ by decide
      simp [hk, hrecognized]
    · simp [hk, hks, get?_normalize]

theorem forward_moveBelow (hkey : key ∉ recognizedKeys) (hv : t.get? key = some v)
    (hnew : s.get? key = none) (hmap : key ∈ SocOptions.mapNames → v.normalize? = none) :
    forward (normalize (moveBelow t s key v)) (SocOptions.rest (normalize (s.insert key v)))
      = forward (normalize t) (SocOptions.rest (normalize s)) := by
  refine Table.ext_get? fun k => ?_
  rw [get?_args_moveBelow hkey]
  split
  · next heq =>
    rw [heq, get?_args_self hkey hv hnew]
    split
    · next hmem => exact (hmap hmem).symm
    · rfl
  · rfl

/-- What has a meaning outside of `soc` is read as before. -/
theorem read_moveBelow (hkey : key ∉ recognizedKeys) :
    readHead (normalize (moveBelow t s key v)) = readHead (normalize t) ∧
      readCore (normalize (moveBelow t s key v)) = readCore (normalize t) := by
  have hget (k : String) (hk : k ∈ recognizedKeys ∧ k ≠ "soc") :
      (normalize (moveBelow t s key v)).get? k = (normalize t).get? k := by
    have hne : k ≠ key := fun heq => hkey (heq ▸ hk.1)
    rw [get?_normalize, get?_normalize, get?_moveBelow, if_neg hk.2, if_neg hne]
  have hhead : ∀ k ∈ headKeys, k ∈ recognizedKeys ∧ k ≠ "soc" := by decide
  have hmac : ∀ k ∈ macKeys, k ∈ recognizedKeys ∧ k ≠ "soc" := by decide
  have hudp : ∀ k ∈ udpKeys, k ∈ recognizedKeys ∧ k ≠ "soc" := by decide
  exact ⟨readHead_congr fun k hk => hget k (hhead k hk),
    readCore_congr (hget "core" (by decide)) (readMac_congr fun k hk => hget k (hmac k hk))
      (readUdp_congr fun k hk => hget k (hudp k hk))⟩

end

/-- Of every table that is a configuration, an entry without a meaning may be moved below `soc`, if
nothing of its name stands there: this gives the same configuration, if and only if the entry is no
map of interrupts or names nothing. -/
theorem ofTable_moveBelow_iff {s : Option (Table Value)} {key : String} {v : Value}
    (hload : ofTable t = (.ok c, log)) (hsoc : t.get? "soc" = s.map Value.ofTable)
    (hv : t.get? key = some v) (hkey : key ∉ recognizedKeys)
    (hnew : (s.getD .empty).get? key = none) :
    (∃ log', ofTable (moveBelow t (s.getD .empty) key v) = (.ok c, log')) ↔
      (key = "interrupt_map" → v = .string "None") := by
  obtain ⟨hmoved, head, core, o, hhead, hcore, ho, rfl⟩ := (exists_ofTable_iff hsoc).1 ⟨log, hload⟩
  generalize s.getD .empty = s at ho hnew ⊢
  have hself := get?_args_self hkey hv hnew
  have hbelow := get?_args_moveBelow (t := t) (s := s) (v := v) hkey
  obtain ⟨hheadSame, hcoreSame⟩ := read_moveBelow (t := t) (s := s) (v := v) hkey
  rw [exists_ofTable_iff (s := some (s.insert key v)) (get?_moveBelow "soc"), hheadSame, hcoreSame,
    Option.getD_some]
  constructor
  · rintro ⟨-, head', core', o', -, -, -, hsame⟩ rfl
    -- the arguments of the two configurations differ under the name of the map
    have hargs := congrArg (fun c => c.soc.args.get? "interrupt_map") hsame
    dsimp only at hargs
    rw [hself, hbelow, if_pos rfl, if_pos (by decide)] at hargs
    exact Value.normalize?_eq_none_iff.1 hargs
  · intro hnothing
    have hmap : key ∈ SocOptions.mapNames → v.normalize? = none := by
      intro hmem
      have hmovedKey : key ∉ movedKeys := fun hmem' => by simp [hmoved key hmem'] at hv
      rw [hnothing (eq_of_mem_mapNames hmem hmovedKey)]
      rfl
    have ho' := SocOptions.ofTable_congr (get?_map_insert hnew hmap) ho
    refine ⟨fun k hk => ?_, head, core, _, hhead, hcore, ho', ?_⟩
    · have hsocKey : k ≠ "soc" := fun heq => absurd (heq ▸ hk) (by decide)
      rw [get?_moveBelow, if_neg hsocKey, hmoved k hk, ite_self]
    · rw [forward_moveBelow hkey hv hnew hmap]

/-- A name that is passed on, next to an argument that is there already. -/
theorem ofTable_moveBelow_ident :
    let s := Table.ofList [("rom_size", .integer 4096)]
    let t := Table.ofList [("clk_freq", .integer 100000000), ("core", .string "mac"),
      ("ident", .string "top"), ("phy", .string "mii"), ("soc", .ofTable s),
      ("vendor", .string "xilinx")]
    ∃ c log log', ofTable t = (.ok c, log) ∧ c.soc.args.names = ["ident", "rom_size"] ∧
      ofTable (moveBelow t s "ident" (.string "top")) = (.ok c, log') := by
  intro s t
  have hargs : ((ofTable t).1.toOption.any fun c =>
      c.soc.args.names = ["ident", "rom_size"]) = true := by decide +kernel
  have hsoc : t.get? "soc" = (some s).map Value.ofTable :=
    Table.get?_ofList (by decide +kernel) "soc"
  have hident : t.get? "ident" = some (.string "top") :=
    Table.get?_ofList (by decide +kernel) "ident"
  have hnew : ((some s).getD .empty).get? "ident" = none := by decide +kernel
  obtain ⟨c, log, hload, hnames⟩ := Outcome.exists_of_any hargs
  have hsame := ofTable_moveBelow_iff hload hsoc hident (by decide) hnew
  obtain ⟨log', hload'⟩ := hsame.2 fun h => absurd h (by decide)
  exact ⟨c, log, log', hload, of_decide_eq_true hnames, hload'⟩

/-- A map of interrupts on the top level is an argument, and below `soc` it is none. -/
theorem not_moveBelow_interrupt_map :
    let v := Value.table [("ethmac", .integer 3)]
    let t := Table.ofList [("clk_freq", .integer 100000000), ("core", .string "mac"),
      ("interrupt_map", v), ("phy", .string "mii"), ("vendor", .string "xilinx")]
    ∃ c log, ofTable t = (.ok c, log) ∧ t.get? "soc" = none ∧ t.get? "interrupt_map" = some v ∧
      "interrupt_map" ∉ recognizedKeys ∧ "interrupt_map" ∉ movedKeys ∧
      ¬ ∃ log', ofTable (moveBelow t .empty "interrupt_map" v) = (.ok c, log') := by
  intro v t
  have hargument : ((ofTable t).1.toOption.any fun c =>
      c.soc.args.contains "interrupt_map") = true := by decide +kernel
  have hmap : ((ofTable (moveBelow t .empty "interrupt_map" v)).1.toOption.any fun c =>
      c.soc.args.contains "interrupt_map") = false := by decide +kernel
  have hsoc : t.get? "soc" = none := by decide +kernel
  have hv : t.get? "interrupt_map" = some v :=
    Table.get?_ofList (by decide +kernel) "interrupt_map"
  obtain ⟨c, log, hload, hargument⟩ := Outcome.exists_of_any hargument
  refine ⟨c, log, hload, hsoc, hv, by decide, by decide, ?_⟩
  rintro ⟨log', hload'⟩
  rw [hload'] at hmap
  exact absurd (hargument.symm.trans hmap) (by decide)

end EtherCore.Config
