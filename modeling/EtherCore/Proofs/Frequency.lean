import EtherCore.Frequency
import EtherCore.Proofs.Binary64.Arithmetic
import EtherCore.Proofs.Binary64.Text
import EtherCore.Proofs.Text.Case

/-!
Frequencies read back from their texts.  A text names a number of units; the number is the double
nearest to the quotient, and reading multiplies it by the unit and cuts the product.  Up to `2 ^ 53`
Hertz that comes back within one Hertz, and to the same frequency iff the two roundings together
lose little enough (`parse_text_iff`).
-/

namespace EtherCore.Frequency

open Text Binary64

variable {cs : List Char} {ds fs : List ℕ} {m n : ℕ} {e : ℤ}

/-! ### Numbers with a unit -/

/-- The unit in which a number of Hertz is written, and how many Hertz it is. -/
def unit (n : ℕ) : String × ℕ :=
  if 1000000000 ≤ n then ("GHz", 1000000000)
  else if 1000000 ≤ n then ("MHz", 1000000)
  else if 1000 ≤ n then ("KHz", 1000)
  else ("Hz", 1)

/-- A unit that is written is one of those that are read, in the other case. -/
theorem exists_unit (n : ℕ) : ∃ u ∈ units, (unit n).1.toList.map Char.toLower = u.1.toList ∧
    (unit n).2 = u.2 ∧ ∀ c ∈ (unit n).1.toList, isBlank c = false := by
  unfold unit
  split_ifs
  · exact ⟨("ghz", 1000000000), by simp [units], rfl, rfl, by simp; decide⟩
  · exact ⟨("mhz", 1000000), by simp [units], rfl, rfl, by simp; decide⟩
  · exact ⟨("khz", 1000), by simp [units], rfl, rfl, by simp; decide⟩
  · exact ⟨("hz", 1), by simp [units], rfl, rfl, by simp; decide⟩

/-- Digits and points are no blanks, have no case and begin no unit. -/
theorem plain_char (h : Plain cs ds fs) {c : Char} (hc : c ∈ cs) :
    isBlank c = false ∧ c.toLower = c ∧ c ≠ 'g' ∧ c ≠ 'm' ∧ c ≠ 'k' := by
  have hdigit : ∀ x < 10, isBlank (Nat.digitChar x) = false ∧
      (Nat.digitChar x).toLower = Nat.digitChar x ∧ Nat.digitChar x ≠ 'g' ∧
      Nat.digitChar x ≠ 'm' ∧ Nat.digitChar x ≠ 'k' := by decide
  obtain rfl | ⟨x, hx, rfl⟩ := h.forall_mem hc
  · decide
  · exact hdigit x hx

theorem beforeEnd?_eq_some_iff {ending cs rest : List Char} :
    beforeEnd? ending cs = some rest ↔ cs = rest ++ ending := by
  rw [beforeEnd?, Option.map_eq_some_iff]
  simp only [afterStart?_eq_some]
  constructor
  · rintro ⟨r, hr, rfl⟩
    rw [← List.reverse_reverse cs, hr]
    simp
  · rintro rfl
    exact ⟨rest.reverse, by simp, List.reverse_reverse rest⟩

/-- Endings that differ in their first character are told from each other. -/
theorem beforeEnd?_of_ne {a b : Char} (hne : b ≠ a) (ending cs : List Char) :
    beforeEnd? (a :: ending) (cs ++ b :: ending) = none := by
  refine Option.eq_none_iff_forall_not_mem.2 fun rest hrest => hne ?_
  have happend := beforeEnd?_eq_some_iff.1 hrest
  have hlength : cs.length = rest.length := by
    simpa using congrArg List.length happend
  exact (List.cons.inj (List.append_inj_right happend hlength)).1

/-- A longer ending is told from a shorter one by the character in front. -/
theorem beforeEnd?_of_notMem {a : Char} (hcs : a ∉ cs) (ending : List Char) :
    beforeEnd? (a :: ending) (cs ++ ending) = none := by
  refine Option.eq_none_iff_forall_not_mem.2 fun rest hrest => hcs ?_
  have happend := beforeEnd?_eq_some_iff.1 hrest
  rw [← List.singleton_append, ← List.append_assoc] at happend
  rw [List.append_cancel_right happend]
  simp

/-- The unit behind a number is told from the other units. -/
theorem splitUnit_append (h : Plain cs ds fs) {u : String × ℕ} (hu : u ∈ units) :
    splitUnit (cs ++ u.1.toList) = (cs, u.2) := by
  have hg : 'g' ∉ cs := fun hc => (plain_char h hc).2.2.1 rfl
  have hm : 'm' ∉ cs := fun hc => (plain_char h hc).2.2.2.1 rfl
  have hk : 'k' ∉ cs := fun hc => (plain_char h hc).2.2.2.2 rfl
  have hfound (ending : List Char) : beforeEnd? ending (cs ++ ending) = some cs :=
    beforeEnd?_eq_some_iff.2 rfl
  have hghz : "ghz".toList = ['g', 'h', 'z'] := rfl
  have hmhz : "mhz".toList = ['m', 'h', 'z'] := rfl
  have hkhz : "khz".toList = ['k', 'h', 'z'] := rfl
  have hhz : "hz".toList = ['h', 'z'] := rfl
  simp only [units, List.mem_cons, List.not_mem_nil, or_false] at hu
  obtain rfl | rfl | rfl | rfl := hu <;>
    simp only [splitUnit, units, hghz, hmhz, hkhz, hhz, List.findSome?_cons, hfound,
      beforeEnd?_of_ne (by decide : 'm' ≠ 'g'), beforeEnd?_of_ne (by decide : 'k' ≠ 'g'),
      beforeEnd?_of_ne (by decide : 'k' ≠ 'm'), beforeEnd?_of_notMem hg,
      beforeEnd?_of_notMem hm, beforeEnd?_of_notMem hk, Option.map_some, Option.map_none,
      Option.getD_some]

/-- A number with a unit is read as their product. -/
theorem parse_of_plain (h : Plain cs ds fs) {x : Binary64} (hread : read? cs = some x) {n : ℕ}
    {f : Frequency} (hf : ofBinary64? (x.mul (.ofNat (unit n).2)) = some f) :
    parse (String.ofList cs ++ (unit n).1) = .ok f := by
  obtain ⟨u, hu, hlower, hscale, hblank⟩ := exists_unit n
  have htrim : trim (String.ofList cs ++ (unit n).1) = String.ofList cs ++ (unit n).1 := by
    have hall : ∀ c ∈ cs ++ (unit n).1.toList, isBlank c = false := by
      intro c hc
      obtain hc | hc := List.mem_append.1 hc
      · exact (plain_char h hc).1
      · exact hblank c hc
    rw [trim, String.toList_append, String.toList_ofList, trimChars_of_forall hall]
    simp
  have hsplit : splitUnit (lower (String.ofList cs ++ (unit n).1)).toList = (cs, (unit n).2) := by
    have hcase : cs.map Char.toLower = cs :=
      (List.map_congr_left fun c hc => (plain_char h hc).2.1).trans (List.map_id' cs)
    rw [lower, String.toList_ofList, String.toList_append, String.toList_ofList, List.map_append,
      hcase, hlower, splitUnit_append h hu, hscale]
  have hnumber : trimChars cs = cs := trimChars_of_forall fun c hc => (plain_char h hc).1
  unfold parse
  rw [htrim]
  simp only [hsplit, hnumber, hread, Option.map_some, Option.bind_some, hf]

/-! ### The result of reading -/

/-- A positive double that is at least one and fits a word is cut to its whole part. -/
theorem exists_ofBinary64? (h : Canonical m e) (hone : 1 ≤ (m : ℚ) * 2 ^ e)
    (hlt : (m : ℚ) * 2 ^ e < 2 ^ 64) :
    ∃ f, ofBinary64? (.finite false m e h) = some f ∧
      ∀ k : ℕ, k ≤ f.hertz.toNat ↔ (k : ℚ) ≤ m * 2 ^ e := by
  have hle1 : ofNat 1 = .finite false (2 ^ 52) (-52) (by decide) :=
    ofNat_eq _ (by norm_num) (by norm_num)
  have hle64 : ofNat UInt64.size = .finite false (2 ^ 52) 12 (by decide) :=
    ofNat_eq _ (by norm_num) (by norm_num [UInt64.size])
  refine ⟨_, ?_, le_toWord_iff h hlt⟩
  have hlow : lt (.finite false m e h) (ofNat 1) = false := by
    rw [hle1, Bool.eq_false_iff, Ne, lt_iff]
    norm_num
    linarith
  have hhigh : lt (ofNat UInt64.size) (.finite false m e h) = false := by
    rw [hle64, Bool.eq_false_iff, Ne, lt_iff]
    norm_num
    norm_num at hlt
    linarith
  rw [ofBinary64?, hlow, hhigh]
  rfl

/-- A number of units that is at least one Hertz and at most `2 ^ 54` is read, as the whole part of
the rounded product. -/
theorem exists_parse (hplain : Plain cs ds fs) (h : Canonical m e) (hm : 0 < m)
    (hread : read? cs = some (.finite false m e h)) (n : ℕ)
    (hone : 1 ≤ (m : ℚ) * 2 ^ e * (unit n).2) (hle : (m : ℚ) * 2 ^ e * (unit n).2 ≤ 2 ^ 54) :
    ∃ k f, Canonical k f ∧ Rounds (m * 2 ^ e * (unit n).2) k f ∧
      ∃ g, parse (String.ofList cs ++ (unit n).1) = .ok g ∧
        ∀ j : ℕ, j ≤ g.hertz.toNat ↔ (j : ℚ) ≤ k * 2 ^ f := by
  have hu0 : 0 < (unit n).2 ∧ (unit n).2 ≤ 2 ^ 53 := by
    unfold unit
    split_ifs <;> norm_num
  obtain ⟨m', e', h', hm', hvalue, -, -⟩ := exists_pair hu0.1 hu0.2
  obtain ⟨k, f, hc, hmul, hr⟩ := mul_spec hm hm' h h'
    (lt_limit_of_le (by rw [hvalue]; linarith))
  rw [hvalue] at hr
  rw [← ofNat_eq h' hm' hvalue] at hmul
  have hlower : ((1 : ℕ) : ℚ) ≤ k * 2 ^ f :=
    hr.natCast_le hc Nat.one_pos (by norm_num) (by rwa [Nat.cast_one])
  have hupper : (k : ℚ) * 2 ^ f ≤ ((2 ^ 52 : ℕ) : ℚ) * 2 ^ (2 : ℤ) := by
    refine (hr.le_value_iff (by decide) hc).2 ⟨?_, fun hodd => absurd hodd (by decide)⟩
    refine le_trans ?_ (value_lt_high _ _).le
    norm_num
    linarith
  obtain ⟨g, hg, hwhole⟩ := exists_ofBinary64? hc (by rwa [Nat.cast_one] at hlower)
    (hupper.trans_lt (by norm_num))
  exact ⟨k, f, hc, hr, g, parse_of_plain hplain hread (hmul ▸ hg), hwhole⟩

/-! ### Writing and reading -/

variable {f : Frequency}

/-- The double that is written for a frequency, times its unit: what the text says in Hertz. -/
def written (f : Frequency) : ℚ :=
  (f.per (unit f.hertz.toNat).2).magnitude * (unit f.hertz.toNat).2

theorem unit_pos (n : ℕ) : 0 < (unit n).2 := by
  unfold unit
  split_ifs <;> norm_num

theorem unit_le (hn : 0 < n) : (unit n).2 ≤ n := by
  unfold unit
  split_ifs <;> omega

/-- A frequency is at least one of its units. -/
theorem one_le_quotient (hn : 0 < n) : (1 : ℚ) ≤ n / (unit n).2 := by
  rw [one_le_div (by exact_mod_cast unit_pos n)]
  exact_mod_cast unit_le hn

/-- The number in front of the unit is the double nearest to the quotient. -/
theorem exists_per (hn : 0 < f.hertz.toNat) (hle : f.hertz.toNat ≤ 2 ^ 53) :
    ∃ m e, ∃ h : Canonical m e, f.per (unit f.hertz.toNat).2 = .finite false m e h ∧
      Rounds (f.hertz.toNat / (unit f.hertz.toNat).2) m e := by
  have hunit := unit_pos f.hertz.toNat
  obtain ⟨m, e, h, hm, hvalue, -, -⟩ := exists_pair hn hle
  obtain ⟨m', e', h', hm', hvalue', -, -⟩ := exists_pair hunit ((unit_le hn).trans hle)
  have hlimit : (f.hertz.toNat : ℚ) / (unit f.hertz.toNat).2 < limit := by
    refine lt_limit_of_le ((div_le_self (by positivity) (by exact_mod_cast hunit)).trans ?_)
    exact_mod_cast hle.trans (by norm_num)
  rw [← hvalue, ← hvalue'] at hlimit ⊢
  have hdiv := div_spec hm hm' h h' hlimit
  rwa [← ofNat_eq h hm hvalue, ← ofNat_eq h' hm' hvalue'] at hdiv

/-- The text of a frequency is a plain number, which reads as the double that was written, and the
unit. -/
theorem exists_text (hn : 0 < f.hertz.toNat) (h : Canonical m e)
    (hper : f.per (unit f.hertz.toNat).2 = .finite false m e h)
    (hr : Rounds (f.hertz.toNat / (unit f.hertz.toNat).2) m e) :
    ∃ cs ds fs, Plain cs ds fs ∧ read? cs = some (.finite false m e h) ∧
      f.text = String.ofList cs ++ (unit f.hertz.toNat).1 := by
  by_cases hlarge : 1000 ≤ f.hertz.toNat
  · have htext : f.text = (f.per (unit f.hertz.toNat).2).text style ++ (unit f.hertz.toNat).1 := by
      unfold Frequency.text unit
      dsimp only
      split_ifs <;> rfl
    obtain ⟨ds, fs, hplain⟩ := exists_plain_text style h
    refine ⟨_, ds, fs, hplain, read?_text style false h, ?_⟩
    rw [htext, hper, String.ofList_toList]
  · -- Below the first unit the number of Hertz is written itself.
    have hunit : unit f.hertz.toNat = ("Hz", 1) := by
      unfold unit
      rw [if_neg (by omega), if_neg (by omega), if_neg hlarge]
    have htext : f.text = toString f.hertz.toNat ++ "Hz" := by
      unfold Frequency.text
      dsimp only
      rw [if_neg (by omega), if_neg (by omega), if_neg hlarge]
    obtain ⟨ds, hne, hds, hchars, hvalue⟩ := exists_digits f.hertz.toNat
    have hm : 0 < m := lt_of_lt_of_le (by norm_num) (hr.normal h (one_le_quotient hn)).1
    rw [hunit, Nat.cast_one, div_one] at hr
    refine ⟨_, ds, [], .whole hne hds, ?_, ?_⟩
    · have hread := read?_of_plain false (.whole hne hds)
      have hdecimal : ofDecimal false f.hertz.toNat 0 = .finite false m e h :=
        ofDecimal_eq false le_rfl hm h (by simpa using hr)
      rw [readMagnitude?_of_plain false (.whole hne hds)] at hread
      simpa [hvalue, hdecimal, signText] using hread
    · rw [htext, hunit, ← hchars, Nat.toString_eq_ofList_toDigits]

/-- The two roundings come within `2 ^ -53` of the frequency. -/
theorem written_near (hn : 0 < f.hertz.toNat) (hle : f.hertz.toNat ≤ 2 ^ 53) :
    |f.written - f.hertz.toNat| ≤ f.hertz.toNat / 2 ^ 53 := by
  obtain ⟨m, e, h, hper, hr⟩ := exists_per hn hle
  obtain ⟨hm, he⟩ := hr.normal h (one_le_quotient hn)
  have hunit : (0 : ℚ) < (unit f.hertz.toNat).2 := by exact_mod_cast unit_pos _
  have hscaled : (m * 2 ^ e * (unit f.hertz.toNat).2 - f.hertz.toNat : ℚ)
      = (m * 2 ^ e - f.hertz.toNat / (unit f.hertz.toNat).2) * (unit f.hertz.toNat).2 := by
    rw [sub_mul, div_mul_cancel₀ _ hunit.ne']
  rw [written, hper, magnitude, hscaled, abs_mul, abs_of_pos hunit]
  calc |(m * 2 ^ e - f.hertz.toNat / (unit f.hertz.toNat).2 : ℚ)| * (unit f.hertz.toNat).2
      ≤ f.hertz.toNat / (unit f.hertz.toNat).2 / 2 ^ 53 * (unit f.hertz.toNat).2 :=
        mul_le_mul_of_nonneg_right (hr.error_le hm he) hunit.le
    _ = f.hertz.toNat / 2 ^ 53 := by rw [div_right_comm, div_mul_cancel₀ _ hunit.ne']

/-- The text of a frequency is read, as the whole part of the rounded product. -/
theorem exists_parse_text (hn : 0 < f.hertz.toNat) (hle : f.hertz.toNat ≤ 2 ^ 53) :
    ∃ m e, Canonical m e ∧ Rounds f.written m e ∧ ∃ g, parse f.text = .ok g ∧
      ∀ k : ℕ, k ≤ g.hertz.toNat ↔ (k : ℚ) ≤ m * 2 ^ e := by
  obtain ⟨m, e, h, hper, hr⟩ := exists_per hn hle
  have hm : 0 < m := lt_of_lt_of_le (by norm_num) (hr.normal h (one_le_quotient hn)).1
  obtain ⟨cs, ds, fs, hplain, hread, htext⟩ := exists_text hn h hper hr
  have hwritten : f.written = m * 2 ^ e * (unit f.hertz.toNat).2 := by
    rw [written, hper, magnitude]
  have hone : (1 : ℚ) ≤ m * 2 ^ e * (unit f.hertz.toNat).2 := by
    have hx : ((1 : ℕ) : ℚ) ≤ m * 2 ^ e :=
      hr.natCast_le h Nat.one_pos (by norm_num) (by simpa using one_le_quotient hn)
    have hu : ((1 : ℕ) : ℚ) ≤ (unit f.hertz.toNat).2 := by exact_mod_cast unit_pos _
    rw [Nat.cast_one] at hx hu
    exact one_le_mul_of_one_le_of_one_le hx hu
  have htop : (m : ℚ) * 2 ^ e * (unit f.hertz.toNat).2 ≤ 2 ^ 54 := by
    have hnear := (abs_le.1 (written_near hn hle)).2
    have hleQ : (f.hertz.toNat : ℚ) ≤ 2 ^ 53 := by exact_mod_cast hle
    rw [← hwritten]
    linarith
  rw [htext, hwritten]
  exact exists_parse hplain h hm hread f.hertz.toNat hone htop

/-- The text of a frequency is read within one Hertz of it. -/
theorem exists_parse_text_near (hn : 0 < f.hertz.toNat) (hle : f.hertz.toNat ≤ 2 ^ 53) :
    ∃ g, parse f.text = .ok g ∧ g.hertz.toNat ≤ f.hertz.toNat + 1 ∧
      f.hertz.toNat ≤ g.hertz.toNat + 1 := by
  obtain ⟨m, e, h, hr, g, hg, hwhole⟩ := exists_parse_text hn hle
  obtain ⟨hlower, hupper⟩ := hr.within_one h hn hle (written_near hn hle)
  refine ⟨g, hg, ?_, ?_⟩
  · by_contra hgt
    have hge := (hwhole (f.hertz.toNat + 2)).1 (by omega)
    push_cast at hge
    linarith
  · have hge := (hwhole (f.hertz.toNat - 1)).2 hlower
    omega

/-- The text of a frequency is read as the same frequency iff the whole part of what was written
comes back. -/
theorem parse_text_eq_ok_iff (hn : 0 < f.hertz.toNat) (hle : f.hertz.toNat ≤ 2 ^ 53) :
    parse f.text = .ok f ↔ RoundsBack f.written f.hertz.toNat := by
  obtain ⟨m, e, h, hr, g, hg, hwhole⟩ := exists_parse_text hn hle
  have hsame : parse f.text = .ok f ↔ g.hertz.toNat = f.hertz.toNat := by
    rw [hg, Except.ok.injEq]
    exact ⟨fun heq => heq ▸ rfl, fun heq => congrArg mk (UInt64.toNat_inj.1 heq)⟩
  have hsucc := hwhole (f.hertz.toNat + 1)
  push_cast at hsucc
  rw [hsame, hr.roundsBack_iff h hn hle (written_near hn hle), ← hwhole, ← not_le, ← hsucc]
  omega

/-- A whole number of units comes back. -/
theorem parse_text_of_dvd (hn : 0 < f.hertz.toNat) (hle : f.hertz.toNat ≤ 2 ^ 53)
    (hdvd : (unit f.hertz.toNat).2 ∣ f.hertz.toNat) : parse f.text = .ok f := by
  obtain ⟨j, hj⟩ := hdvd
  obtain ⟨m, e, h, hper, hr⟩ := exists_per hn hle
  have hunit : ((unit f.hertz.toNat).2 : ℚ) ≠ 0 := by exact_mod_cast (unit_pos _).ne'
  have hprod : (f.hertz.toNat : ℚ) = (unit f.hertz.toNat).2 * j := by exact_mod_cast hj
  have hquot : (f.hertz.toNat : ℚ) / (unit f.hertz.toNat).2 = j := by
    rw [div_eq_iff hunit, hprod, mul_comm]
  have hj0 : 0 < j := Nat.pos_of_ne_zero fun hzero => by
    rw [hzero, Nat.mul_zero] at hj
    omega
  have hj53 : j ≤ 2 ^ 53 := (Nat.le_of_dvd hn ⟨_, hj.trans (Nat.mul_comm _ _)⟩).trans hle
  rw [hquot] at hr
  have hexact : (m : ℚ) * 2 ^ e = j :=
    le_antisymm (hr.le_natCast h hj0 hj53 le_rfl) (hr.natCast_le h hj0 hj53 le_rfl)
  have hwritten : f.written = f.hertz.toNat := by
    rw [written, hper, magnitude, hexact, hprod, mul_comm]
  rw [parse_text_eq_ok_iff hn hle, hwritten]
  exact roundsBack_self _

/-- Up to `2 ^ 53` Hertz the text of a frequency is read within one Hertz of it, and as the same
frequency iff what was written is near enough for its whole part to come back. -/
theorem parse_text_iff (f : Frequency) (hpos : 1 ≤ f.hertz.toNat) (hle : f.hertz.toNat ≤ 2 ^ 53) :
    (∃ g, parse f.text = .ok g ∧ g.hertz.toNat ≤ f.hertz.toNat + 1 ∧
        f.hertz.toNat ≤ g.hertz.toNat + 1) ∧
      (parse f.text = .ok f ↔ RoundsBack f.written f.hertz.toNat) :=
  ⟨exists_parse_text_near hpos hle, parse_text_eq_ok_iff hpos hle⟩

theorem parse_text_top :
    let f : Frequency := ⟨9007199254740992⟩
    1 ≤ f.hertz.toNat ∧ f.hertz.toNat ≤ 2 ^ 53 ∧
      (∃ g, parse f.text = .ok g ∧ g.hertz.toNat ≤ f.hertz.toNat + 1 ∧
        f.hertz.toNat ≤ g.hertz.toNat + 1) ∧
      (parse f.text = .ok f ↔ RoundsBack f.written f.hertz.toNat) :=
  ⟨by decide, by decide, parse_text_iff ⟨9007199254740992⟩ (by decide) (by decide)⟩

/-- 1001 Hertz are written as `1.001KHz`, which is read as 1000 Hertz. -/
theorem not_restored_1001 : ¬ ∀ f : Frequency, 1 ≤ f.hertz.toNat → f.hertz.toNat ≤ 2 ^ 53 →
    parse f.text = .ok f := by
  intro h
  have hread : (parse (mk 1001).text).toOption = some (mk 1000) := by decide +kernel
  rw [h (mk 1001) (by decide) (by decide)] at hread
  exact absurd hread (by decide)

end EtherCore.Frequency
