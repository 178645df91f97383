import EtherCore.Proofs.Pad.History
import Mathlib

/-!
Requests without an index.  Such a request stands for the least index of its name that is declared
and not handed out (`request_none_of_isLeast`), and fails only where there is none.  So a run of
them hands out the indices that are left in ascending order, whatever else is declared or asked for
in between under other names (`run_enumerates`).
-/

namespace EtherCore

namespace PadRegistry

/-- The indices that a name is declared with. -/
def declared (r : PadRegistry) (name : String) : Set UInt32 :=
  {i | (name, i) ∈ r.decls.map PadDecl.key}

/-- The indices of a name that have been handed out. -/
def requested (r : PadRegistry) (name : String) : Set UInt32 := {i | (name, i) ∈ r.granted}

/-- The declarations of a name that have not been handed out. -/
def declsLeft (r : PadRegistry) (name : String) : List PadDecl :=
  (r.declsOf name).filter fun d => !r.isGranted name d.index

/-- The indices of a name that are left, in ascending order. -/
def remaining (r : PadRegistry) (name : String) : List UInt32 :=
  ((r.declsLeft name).map (·.index)).mergeSort fun i j => i ≤ j

section

variable {r : PadRegistry} {name : String} {i : UInt32} {d : PadDecl} {ds : List PadDecl}

theorem mem_declared_iff : i ∈ r.declared name ↔ ∃ d ∈ r.declsOf name, d.index = i := by
  change (name, i) ∈ r.decls.map PadDecl.key ↔ _
  simp only [List.mem_map, PadDecl.key, Prod.mk.injEq, mem_declsOf, and_assoc]

theorem mem_requested_iff : i ∈ r.requested name ↔ r.isGranted name i = true := by
  change (name, i) ∈ r.granted ↔ _
  rw [isGranted, List.contains_iff_mem]

theorem declared_eq_empty_iff : r.declared name = ∅ ↔ r.declsOf name = [] := by
  rw [Set.eq_empty_iff_forall_notMem, List.eq_nil_iff_forall_not_mem]
  simp only [mem_declared_iff, not_exists, not_and]
  exact ⟨fun h d hd => h d.index d hd rfl, fun h _ d hd _ => h d hd⟩

/-! ### The least and the greatest index -/

theorem lowest?_eq_none_iff : lowest? ds = none ↔ ds = [] := by
  cases ds with
  | nil => simp [lowest?]
  | cons d ds =>
    rw [lowest?]
    split <;> simp

theorem index_le_of_lowest? (h : lowest? ds = some d) : ∀ e ∈ ds, d.index ≤ e.index := by
  induction ds generalizing d with
  | nil => cases h
  | cons c cs ih =>
    rw [lowest?] at h
    split at h
    · next hnone =>
      obtain rfl := Option.some.inj h
      rw [lowest?_eq_none_iff.1 hnone]
      simp
    · next m hm =>
      obtain rfl := Option.some.inj h
      refine List.forall_mem_cons.2 ⟨?_, fun e he => ?_⟩
      · split
        · next hlt => exact UInt32.le_of_lt hlt
        · exact UInt32.le_refl _
      · split
        · exact ih hm e he
        · next hlt => exact UInt32.le_trans (UInt32.not_lt.1 hlt) (ih hm e he)

/-- A fold of maxima is the greatest of its start and of the indices that it goes over. -/
theorem foldl_max_index (ds : List PadDecl) (start : UInt32) :
    let top := ds.foldl (fun i d => max i d.index) start
    (start ≤ top ∧ ∀ d ∈ ds, d.index ≤ top) ∧ (top = start ∨ ∃ d ∈ ds, d.index = top) := by
  induction ds generalizing start with
  | nil => simp
  | cons d ds ih =>
    have hmax : max start d.index = if start ≤ d.index then d.index else start := rfl
    obtain ⟨⟨hstart, hall⟩, htop⟩ := ih (max start d.index)
    have hboth : start ≤ max start d.index ∧ d.index ≤ max start d.index := by
      rw [hmax]
      split
      · next hle => exact ⟨hle, UInt32.le_refl _⟩
      · next hle => exact ⟨UInt32.le_refl _, UInt32.le_of_lt (UInt32.not_le.1 hle)⟩
    refine ⟨⟨UInt32.le_trans hboth.1 hstart, List.forall_mem_cons.2
      ⟨UInt32.le_trans hboth.2 hstart, hall⟩⟩, ?_⟩
    rcases htop with htop | ⟨e, he, htop⟩
    · rw [List.foldl_cons, htop, hmax]
      split
      · exact Or.inr ⟨d, List.mem_cons_self, rfl⟩
      · exact Or.inl rfl
    · exact Or.inr ⟨e, List.mem_cons_of_mem _ he, htop⟩

theorem isGreatest_greatestIndex (h : r.declsOf name ≠ []) :
    IsGreatest (r.declared name) (greatestIndex (r.declsOf name)) := by
  obtain ⟨⟨-, hall⟩, htop⟩ := foldl_max_index (r.declsOf name) 0
  constructor
  · rcases htop with htop | htop
    · -- no index is below the start of the fold, so a greatest one of zero is the first's
      obtain ⟨d, hd⟩ := List.exists_mem_of_ne_nil _ h
      have hle : d.index ≤ greatestIndex (r.declsOf name) := hall d hd
      have hzero : greatestIndex (r.declsOf name) = 0 := htop
      rw [hzero] at hle ⊢
      exact mem_declared_iff.2 ⟨d, hd, UInt32.le_zero_iff.1 hle⟩
    · exact mem_declared_iff.2 htop
  · intro i hi
    obtain ⟨d, hd, rfl⟩ := mem_declared_iff.1 hi
    exact hall d hd

/-! ### What is left of a name -/

theorem mem_declsLeft_iff :
    d ∈ r.declsLeft name ↔ d ∈ r.declsOf name ∧ d.index ∉ r.requested name := by
  rw [declsLeft, List.mem_filter, mem_requested_iff, Bool.not_eq_true', Bool.not_eq_true]

/-- The indices that are left are those of the declarations that are left. -/
theorem exists_mem_declsLeft_iff :
    (∃ d ∈ r.declsLeft name, d.index = i) ↔ i ∈ r.declared name \ r.requested name := by
  constructor
  · rintro ⟨d, hd, rfl⟩
    obtain ⟨hdecl, hfree⟩ := mem_declsLeft_iff.1 hd
    exact ⟨mem_declared_iff.2 ⟨d, hdecl, rfl⟩, hfree⟩
  · rintro ⟨hdecl, hfree⟩
    obtain ⟨d, hd, rfl⟩ := mem_declared_iff.1 hdecl
    exact ⟨d, mem_declsLeft_iff.2 ⟨hd, hfree⟩, rfl⟩

theorem mem_remaining_iff : i ∈ r.remaining name ↔ i ∈ r.declared name \ r.requested name := by
  rw [remaining, (List.mergeSort_perm _ _).mem_iff, List.mem_map, exists_mem_declsLeft_iff]

theorem nodup_index_declsOf (hr : (r.decls.map PadDecl.key).Nodup) (name : String) :
    ((r.declsOf name).map (·.index)).Nodup := by
  have hkeys : ((r.declsOf name).map PadDecl.key).Nodup := (List.filter_sublist.map _).nodup hr
  have hpairs : (r.declsOf name).map PadDecl.key =
      ((r.declsOf name).map (·.index)).map (Prod.mk name) := by
    rw [List.map_map]
    exact List.map_congr_left fun d hd => Prod.ext (mem_declsOf.1 hd).2 rfl
  rw [hpairs] at hkeys
  exact hkeys.of_map

theorem pairwise_remaining (hr : (r.decls.map PadDecl.key).Nodup) (name : String) :
    (r.remaining name).Pairwise (· < ·) := by
  have hle : (r.remaining name).Pairwise fun i j => decide (i ≤ j) = true := by
    refine List.pairwise_mergeSort (fun i j k hij hjk => ?_) (fun i j => ?_) _
    · rw [decide_eq_true_eq] at *
      exact UInt32.le_trans hij hjk
    · rw [Bool.or_eq_true, decide_eq_true_eq, decide_eq_true_eq]
      exact UInt32.le_total i j
  have hnodup : (r.remaining name).Nodup :=
    (List.mergeSort_perm _ _).nodup_iff.2
      ((List.filter_sublist.map _).nodup (nodup_index_declsOf hr name))
  exact (hle.and hnodup).imp fun h => UInt32.lt_of_le_of_ne (of_decide_eq_true h.1) h.2

/-- What is left of a name is known by its elements. -/
theorem remaining_eq_of_mem_iff (hr : (r.decls.map PadDecl.key).Nodup) {l : List UInt32}
    (hl : l.Pairwise (· < ·)) (h : ∀ i, i ∈ l ↔ i ∈ r.declared name \ r.requested name) :
    r.remaining name = l :=
  (pairwise_remaining hr name).eq_of_mem_iff hl fun i => mem_remaining_iff.trans (h i).symm

theorem isLeast_of_remaining_eq_cons (hr : (r.decls.map PadDecl.key).Nodup) {rest : List UInt32}
    (h : r.remaining name = i :: rest) : IsLeast (r.declared name \ r.requested name) i := by
  have hpairwise := pairwise_remaining hr name
  rw [h] at hpairwise
  refine ⟨mem_remaining_iff.1 (h ▸ List.mem_cons_self), fun j hj => ?_⟩
  have hmem : j ∈ i :: rest := h ▸ mem_remaining_iff.2 hj
  rcases List.mem_cons.1 hmem with rfl | hrest
  · exact UInt32.le_refl _
  · exact UInt32.le_of_lt (List.rel_of_pairwise_cons hpairwise hrest)

theorem remaining_eq_nil_iff :
    r.remaining name = [] ↔ r.declared name \ r.requested name = ∅ := by
  rw [List.eq_nil_iff_forall_not_mem, Set.eq_empty_iff_forall_notMem]
  simp only [mem_remaining_iff]

theorem exists_isLeast (hr : (r.decls.map PadDecl.key).Nodup)
    (hne : (r.declared name \ r.requested name).Nonempty) :
    ∃ i, IsLeast (r.declared name \ r.requested name) i := by
  cases hrem : r.remaining name with
  | nil => exact absurd (remaining_eq_nil_iff.1 hrem) hne.ne_empty
  | cons i rest => exact ⟨i, isLeast_of_remaining_eq_cons hr hrem⟩

/-- What is left behind the first index once this one has been handed out. -/
theorem remaining_grant (hr : (r.decls.map PadDecl.key).Nodup) {rest : List UInt32}
    (h : r.remaining name = i :: rest) :
    remaining { r with granted := r.granted ++ [(name, i)] } name = rest := by
  have hpairwise := pairwise_remaining hr name
  rw [h] at hpairwise
  have hkeys : (({ r with granted := r.granted ++ [(name, i)] } : PadRegistry).decls.map
      PadDecl.key).Nodup := hr
  refine remaining_eq_of_mem_iff hkeys hpairwise.of_cons fun j => ?_
  have hmem : j ∈ i :: rest ↔ j ∈ r.declared name \ r.requested name := h ▸ mem_remaining_iff
  have hgranted : j ∈ requested { r with granted := r.granted ++ [(name, i)] } name ↔
      j ∈ r.requested name ∨ j = i := by
    change (name, j) ∈ r.granted ++ [(name, i)] ↔ (name, j) ∈ r.granted ∨ j = i
    rw [List.mem_append, List.mem_singleton, Prod.mk.injEq, and_iff_right rfl]
  have hfront : j ∈ rest ↔ j ∈ i :: rest ∧ j ≠ i := by
    rw [List.mem_cons]
    constructor
    · exact fun hj => ⟨Or.inr hj, (UInt32.ne_of_lt (List.rel_of_pairwise_cons hpairwise hj)).symm⟩
    · exact fun hj => hj.1.resolve_left hj.2
  rw [hfront, hmem, Set.mem_sdiff, Set.mem_sdiff, hgranted, not_or, and_assoc]
  exact Iff.rfl

/-! ### One request -/

theorem request_of_choose {index : Option UInt32} (h : r.choose name index = .ok d) :
    r.request name index = .ok (.ofDecl d (r.stemOf d),
      { r with granted := r.granted ++ [d.key] }) := by
  rw [request, h]

theorem request_of_choose_error {index : Option UInt32} {e : Error}
    (h : r.choose name index = .error e) : r.request name index = .error e := by
  rw [request, h]

theorem choose_some_of_lookup? (hd : r.lookup? name i = some d) (hfree : i ∉ r.requested name) :
    r.choose name (some i) = .ok d := by
  have hfind : (r.declsOf name).find? (fun d => d.index = i) = some d := by
    rw [declsOf, List.find?_filter, ← hd, lookup?]
    simp
  have hne : r.declsOf name ≠ [] := List.ne_nil_of_mem (List.mem_of_find?_eq_some hfind)
  rw [choose, if_neg hne]
  simp only [hfind]
  rw [if_neg (mt mem_requested_iff.2 hfree)]

theorem choose_none_of_isLeast (hr : (r.decls.map PadDecl.key).Nodup)
    (hi : IsLeast (r.declared name \ r.requested name) i) :
    ∃ d, r.lookup? name i = some d ∧ r.choose name none = .ok d := by
  obtain ⟨e, he, rfl⟩ := exists_mem_declsLeft_iff.2 hi.1
  cases hd : lowest? (r.declsLeft name) with
  | none => exact absurd (lowest?_eq_none_iff.1 hd) (List.ne_nil_of_mem he)
  | some d =>
    have hleft : d ∈ r.declsLeft name := mem_of_lowest? hd
    have hindex : d.index = e.index :=
      UInt32.le_antisymm (index_le_of_lowest? hd e he)
        (hi.2 (exists_mem_declsLeft_iff.1 ⟨d, hleft, rfl⟩))
    have hof : d ∈ r.declsOf name := (mem_declsLeft_iff.1 hleft).1
    obtain ⟨hdecl, hname⟩ := mem_declsOf.1 hof
    refine ⟨d, ?_, ?_⟩
    · rw [← hindex, ← hname]
      exact lookup?_of_mem hr hdecl
    · rw [declsLeft] at hd
      rw [choose, if_neg (List.ne_nil_of_mem hof)]
      simp only [hd]

/-- A request without an index is one for the least index that is left. -/
theorem request_none_of_isLeast (hr : (r.decls.map PadDecl.key).Nodup)
    (hi : IsLeast (r.declared name \ r.requested name) i) :
    r.request name none = r.request name (some i) ∧
      ∃ d, r.lookup? name i = some d ∧
        r.request name none = .ok (.ofDecl d (r.stemOf d),
          { r with granted := r.granted ++ [(name, i)] }) := by
  obtain ⟨d, hd, hchoose⟩ := choose_none_of_isLeast hr hi
  have hkey : d.key = (name, i) := (mem_of_lookup? hd).2
  rw [request_of_choose hchoose, request_of_choose (choose_some_of_lookup? hd hi.1.2), hkey]
  exact ⟨rfl, d, hd, rfl⟩

theorem request_of_declared_eq_empty (h : r.declared name = ∅) (index : Option UInt32) :
    r.request name index = .error (.notFound .pad name) := by
  apply request_of_choose_error
  unfold choose
  exact if_pos (declared_eq_empty_iff.1 h)

/-- Where no index is left, the error names the greatest one. -/
theorem request_none_of_exhausted (hne : (r.declared name).Nonempty)
    (hnone : r.declared name \ r.requested name = ∅) :
    ∃ i, IsGreatest (r.declared name) i ∧ r.request name none = .error (.conflict name i) := by
  have hdecls : r.declsOf name ≠ [] := mt declared_eq_empty_iff.2 hne.ne_empty
  have hleft : r.declsLeft name = [] := by
    refine List.eq_nil_iff_forall_not_mem.2 fun d hd => ?_
    have hmem := exists_mem_declsLeft_iff.1 ⟨d, hd, rfl⟩
    rw [hnone] at hmem
    exact hmem
  refine ⟨_, isGreatest_greatestIndex hdecls, request_of_choose_error ?_⟩
  rw [declsLeft] at hleft
  rw [choose, if_neg hdecls]
  simp only [hleft, lowest?]

/-- What a request without an index does: it fails for a name that is not declared or of which none
is left, and else is one for the least index that is left. -/
theorem request_none_cases (hr : (r.decls.map PadDecl.key).Nodup) (name : String) :
    (r.declared name = ∅ ∧ r.request name none = .error (.notFound .pad name)) ∨
    ((r.declared name).Nonempty ∧ r.declared name \ r.requested name = ∅ ∧
      ∃ i, IsGreatest (r.declared name) i ∧ r.request name none = .error (.conflict name i)) ∨
    ∃ i, IsLeast (r.declared name \ r.requested name) i ∧
      r.request name none = r.request name (some i) ∧
      ∃ d, r.lookup? name i = some d ∧
        r.request name none = .ok (.ofDecl d (r.stemOf d),
          { r with granted := r.granted ++ [(name, i)] }) := by
  rcases (r.declared name).eq_empty_or_nonempty with hempty | hne
  · exact Or.inl ⟨hempty, request_of_declared_eq_empty hempty none⟩
  rcases (r.declared name \ r.requested name).eq_empty_or_nonempty with hnone | hleft
  · exact Or.inr (Or.inl ⟨hne, hnone, request_none_of_exhausted hne hnone⟩)
  · obtain ⟨i, hi⟩ := exists_isLeast hr hleft
    exact Or.inr (Or.inr ⟨i, hi, request_none_of_isLeast hr hi⟩)

end

/-! ### Runs of requests -/

/-- A call that is about other names. -/
def Call.Spares (name : String) : Call → Prop
  | .declare ds => ∀ d ∈ ds, d.name ≠ name
  | .request other _ => other ≠ name

namespace History

variable {h : History} {name : String} {c : Call}

/-- What a call replies, if it asks for a pad of a name. -/
def reply? (h : History) (name : String) : Call → Option (Outcome Bundle)
  | .declare _ => none
  | .request other index =>
    if other = name then some ((h.registry.request name index).map Prod.fst) else none

/-- What the calls that ask for a pad of a name reply, in order. -/
def replies (name : String) : History → List Call → List (Outcome Bundle)
  | _, [] => []
  | h, c :: calls => (h.reply? name c).toList ++ replies name (h.after c) calls

theorem AtMostOnce.after (hh : h.AtMostOnce) (c : Call) : (h.after c).AtMostOnce := by
  rw [History.after]
  split
  · next h' hc => exact hh.call hc
  · exact hh

/-- A call about other names adds declarations and hands out pads of other names only. -/
theorem registry_after_of_spares (h : History) (hc : c.Spares name) :
    ∃ ds keys, (h.after c).registry = ⟨h.registry.decls ++ ds, h.registry.granted ++ keys⟩ ∧
      (∀ d ∈ ds, d.name ≠ name) ∧ ∀ k ∈ keys, k.1 ≠ name := by
  rw [History.after]
  split
  · next h' hok =>
    cases c with
    | declare ds =>
      obtain ⟨r, hr, rfl⟩ := Outcome.map_eq_ok_iff.1 hok
      obtain ⟨-, rfl⟩ := declare_eq_ok_iff.1 hr
      exact ⟨ds, [], by rw [List.append_nil], hc, by simp⟩
    | request other index =>
      obtain ⟨⟨b, r⟩, hr, rfl⟩ := Outcome.map_eq_ok_iff.1 hok
      obtain ⟨d, -, rfl, -, -, rfl⟩ := request_eq_ok hr
      exact ⟨[], [d.key], by rw [List.append_nil], by simp, List.forall_mem_singleton.2 hc⟩
  · exact ⟨[], [], by rw [List.append_nil, List.append_nil], by simp, by simp⟩

/-- A call about other names leaves what is left of a name as it is. -/
theorem remaining_after_of_spares (hh : h.AtMostOnce) (hc : c.Spares name) :
    (h.after c).registry.remaining name = h.registry.remaining name := by
  refine remaining_eq_of_mem_iff (hh.after c).declared (pairwise_remaining hh.declared name) ?_
  intro i
  obtain ⟨ds, keys, hafter, hds, hkeys⟩ := registry_after_of_spares h hc
  have hdecl : (name, i) ∉ ds.map PadDecl.key := by
    intro hmem
    obtain ⟨d, hd, hkey⟩ := List.mem_map.1 hmem
    exact hds d hd (congrArg Prod.fst hkey)
  have hkey : (name, i) ∉ keys := fun hmem => hkeys _ hmem rfl
  rw [mem_remaining_iff, hafter]
  change (name, i) ∈ h.registry.decls.map PadDecl.key ∧ (name, i) ∉ h.registry.granted ↔
    (name, i) ∈ (h.registry.decls ++ ds).map PadDecl.key ∧ (name, i) ∉ h.registry.granted ++ keys
  rw [List.map_append, List.mem_append, List.mem_append, or_iff_left hdecl, or_iff_left hkey]

/-- A request without an index takes the first of the indices that are left, if there is one. -/
theorem after_request_none (hh : h.AtMostOnce) (name : String) :
    (h.registry.request name none).toOption.map (·.1.key) =
        (h.registry.remaining name).head?.map (Prod.mk name) ∧
      (h.after (.request name none)).registry.remaining name =
        (h.registry.remaining name).tail := by
  cases hrem : h.registry.remaining name with
  | nil =>
    have hnone := remaining_eq_nil_iff.1 hrem
    obtain ⟨e, he⟩ : ∃ e, h.registry.request name none = .error e := by
      rcases request_none_cases hh.declared name with ⟨-, he⟩ | ⟨-, -, i, -, he⟩ | ⟨i, hi, -⟩
      · exact ⟨_, he⟩
      · exact ⟨_, he⟩
      · exact absurd hi.1 (Set.eq_empty_iff_forall_notMem.1 hnone i)
    rw [History.after, History.call, he]
    exact ⟨rfl, hrem⟩
  | cons i rest =>
    have hleast := isLeast_of_remaining_eq_cons hh.declared hrem
    obtain ⟨-, d, hd, hreq⟩ := request_none_of_isLeast hh.declared hleast
    rw [History.after, History.call, hreq]
    exact ⟨congrArg some (mem_of_lookup? hd).2, remaining_grant hh.declared hrem⟩

/-- Requests for a name without an index hand out what is left of it in order, and then fail,
whatever calls about other names stand between them. -/
theorem AtMostOnce.replies_eq (hh : h.AtMostOnce) {calls : List Call}
    (hcalls : ∀ c ∈ calls, c = .request name none ∨ c.Spares name) {k : Nat}
    {reply : Outcome Bundle} (hk : (h.replies name calls)[k]? = some reply) :
    reply.toOption.map (·.key) = ((h.registry.remaining name)[k]?).map (Prod.mk name) := by
  induction calls generalizing h k with
  | nil => cases hk
  | cons c calls ih =>
    obtain ⟨hc, hothers⟩ := List.forall_mem_cons.1 hcalls
    rw [replies] at hk
    rcases hc with rfl | hc
    · obtain ⟨hkey, htail⟩ := after_request_none hh name
      rw [reply?, if_pos rfl] at hk
      cases k with
      | zero =>
        obtain rfl := Option.some.inj hk
        rw [← List.head?_eq_getElem?, ← hkey]
        cases h.registry.request name none <;> rfl
      | succ k =>
        rw [← List.getElem?_tail, ← htail]
        exact ih (hh.after _) hothers hk
    · have hsilent : h.reply? name c = none := by
        cases c with
        | declare ds => rfl
        | request other index => exact if_neg hc
      rw [hsilent, Option.toList_none, List.nil_append] at hk
      rw [← remaining_after_of_spares hh hc]
      exact ih (hh.after c) hothers hk

/-- Requests without an index enumerate what is left of a name. -/
structure Enumerates (h : History) (name : String) : Prop where
  /-- What is left is declared and has not been handed out. -/
  mem_iff : ∀ i, i ∈ h.registry.remaining name ↔
    i ∈ h.registry.declared name \ h.registry.requested name
  ascending : (h.registry.remaining name).Pairwise (· < ·)
  /-- A request without an index is one for the least index that is left, and hands out the pad
  that is declared with it. -/
  least : (h.registry.declared name \ h.registry.requested name).Nonempty →
    ∃ i, IsLeast (h.registry.declared name \ h.registry.requested name) i ∧
      h.registry.request name none = h.registry.request name (some i) ∧
      ∃ d, h.registry.lookup? name i = some d ∧
        h.registry.request name none = .ok (.ofDecl d (h.registry.stemOf d),
          { h.registry with granted := h.registry.granted ++ [(name, i)] })
  missing_iff : h.registry.request name none = .error (.notFound .pad name) ↔
    h.registry.declared name = ∅
  /-- Where all are handed out, the error names the greatest. -/
  exhausted_iff :
    (∃ i, IsGreatest (h.registry.declared name) i ∧
        h.registry.request name none = .error (.conflict name i)) ↔
      (h.registry.declared name).Nonempty ∧
        h.registry.declared name \ h.registry.requested name = ∅
  /-- The replies hand out what is left in order, and fail from then on. -/
  replies : ∀ calls, (∀ c ∈ calls, c = .request name none ∨ c.Spares name) →
    ∀ (k : Nat) (reply : Outcome Bundle), (h.replies name calls)[k]? = some reply →
      reply.toOption.map (·.key) = ((h.registry.remaining name)[k]?).map (Prod.mk name)

theorem AtMostOnce.enumerates (hh : h.AtMostOnce) (name : String) : h.Enumerates name := by
  refine ⟨fun _ => mem_remaining_iff, pairwise_remaining hh.declared name, fun hne => ?_,
    ⟨fun hmissing => ?_, fun hempty => request_of_declared_eq_empty hempty none⟩,
    ⟨?_, fun h => request_none_of_exhausted h.1 h.2⟩, fun _ hcalls _ _ => hh.replies_eq hcalls⟩
  · obtain ⟨i, hi⟩ := exists_isLeast hh.declared hne
    exact ⟨i, hi, request_none_of_isLeast hh.declared hi⟩
  · rcases request_none_cases hh.declared name with
      ⟨hempty, -⟩ | ⟨-, -, i, -, he⟩ | ⟨i, -, -, d, -, hok⟩
    · exact hempty
    · cases hmissing.symm.trans he
    · cases hmissing.symm.trans hok
  · rintro ⟨top, -, hconflict⟩
    rcases request_none_cases hh.declared name with
      ⟨-, he⟩ | ⟨hne, hnone, -⟩ | ⟨i, -, -, d, -, hok⟩
    · cases hconflict.symm.trans he
    · exact ⟨hne, hnone⟩
    · cases hconflict.symm.trans hok

end History

/-- In every run from the registry without pads or the one that every core starts from, requests
without an index enumerate what is left of a name. -/
theorem run_enumerates {r : PadRegistry} (hr : r = .empty ∨ r = .standard) (calls : List Call)
    (name : String) : (r.run calls).Enumerates name :=
  (atMostOnce_run hr calls).enumerates name

/-- Pads are declared in two batches and out of order, and the one with the index 1 is asked for by
its index.  Then the others are handed out from the lowest on, with calls about other names in
between, and the fourth request fails. -/
theorem run_enumerates_led :
    let h := standard.run [.declare [.pins "led" 3 1 .output, .pins "led" 1 1 .output],
      .request "led" (some 1), .declare [.pins "led" 7 1 .output, .pins "led" 0 1 .output]]
    (standard = .empty ∨ standard = .standard) ∧ h.Enumerates "led" ∧
      (h.replies "led" [.request "led" none, .request "interrupt" none, .request "led" none,
        .declare [.pins "button" 2 1 .input], .request "led" none, .request "button" none,
        .request "led" none]).map (fun reply => reply.toOption.map (·.key)) =
          [some ("led", 0), some ("led", 3), some ("led", 7), none] :=
  ⟨Or.inr rfl, run_enumerates (Or.inr rfl) _ _, by decide +kernel⟩

end PadRegistry

end EtherCore
