import EtherCore.Proofs.Artifact.Failures

/-!
The exact set of failures of a composition.  `Config.Fails` lists them with their errors, and a
composition fails with an error exactly if it is in the list (`compose_eq_error_iff`).
-/

namespace EtherCore

open Component

/-! ### The choice of the PHY -/

namespace PhyChoice

theorem resolve_eq_error_iff {choice : PhyChoice} {e : Error} :
    choice.resolve = .error e ↔
      choice = .inferred .rmii ∧ e = .ambiguous
        "pads `rmii_eth_clocks`/`rmii_eth` match no known PHY shape; set `phy` explicitly" ∨
      choice = .inferred .rgmii ∧ e = .unsupported
        ("RGMII pads need a vendor-specific PHY; set `phy` to one of "
          ++ "s6rgmii, s7rgmii, usrgmii, ecp5rgmii") := by
  rcases choice with k | f
  · simp [resolve]
  · cases f <;> simp [resolve, eq_comm]

end PhyChoice

/-! ### Pages -/

/-- A window of pages in which no page was handed out to a name. -/
structure CsrWindow.Spares (w : CsrWindow) (name : String) : Prop where
  sound : w.Sound
  paged : w.Paged
  new : ∀ q ∈ w.pages, q.name ≠ name

/-- The window of pages that a PHY leaves. -/
def PhyKind.window (k : PhyKind) (w : CsrWindow) : CsrWindow :=
  if k = .model then w else w.after phyName

namespace PhyKind

theorem claim_eq_error_iff {k : PhyKind} {soc : Soc} (h : soc.csr.Spares phyName) {e : Error} :
    k.claim soc = .error e ↔
      k ≠ .model ∧ soc.csr.Exhausted phyName ∧ e = CsrWindow.noPage phyName := by
  rw [← CsrWindow.alloc_eq_error_iff h.sound h.paged h.new, claim]
  by_cases hk : k = .model
  · subst hk
    simp [hasRegisters, isModel]
  · have hregisters : k.hasRegisters = true := by simp [hasRegisters, isModel, hk]
    rw [if_pos hregisters, Outcome.bind_eq_error_iff]
    simp [hk, pure, Except.pure]

theorem claim_eq_ok_iff {k : PhyKind} {soc soc' : Soc} (h : soc.csr.Spares phyName) :
    k.claim soc = .ok soc' ↔
      (k = .model ∨ ¬ soc.csr.Exhausted phyName) ∧
        soc' = { soc with csr := k.window soc.csr } := by
  rw [claim]
  by_cases hk : k = .model
  · subst hk
    rw [window, if_pos rfl]
    simp [hasRegisters, isModel, eq_comm (a := soc)]
  · have hregisters : k.hasRegisters = true := by simp [hasRegisters, isModel, hk]
    have hiff := fun e => CsrWindow.alloc_eq_error_iff h.sound h.paged h.new (e := e)
    rw [if_pos hregisters, window, if_neg hk, CsrWindow.after]
    cases halloc : soc.csr.alloc phyName with
    | error e =>
      have hfull := ((hiff e).1 halloc).1
      simp [hk, hfull, bind, Except.bind]
    | ok r =>
      have hleft : ¬ soc.csr.Exhausted phyName := by
        intro hfull
        have := (hiff _).2 ⟨hfull, rfl⟩
        rw [halloc] at this
        cases this
      simp [hleft, bind, Except.bind, pure, Except.pure, eq_comm]

/-- The window that a PHY leaves has no page of the MAC. -/
theorem spares_window {w : CsrWindow} (hs : w.Sound) (hpages : w.pages = []) (k : PhyKind) :
    (k.window w).Spares macName := by
  have hw := CsrWindow.paged_of_pages_nil hpages
  have hempty : w.Spares macName := ⟨hs, hw, by simp [hpages]⟩
  unfold window
  split
  · exact hempty
  · refine CsrWindow.after_of_alloc (P := (·.Spares macName)) hempty phyName fun p w' h => ?_
    refine ⟨hs.alloc h, hw.alloc hs h, fun q hq => ?_⟩
    obtain ⟨-, -, -, hp, rfl⟩ := CsrWindow.alloc_eq_ok_iff.1 h
    rw [hpages, List.nil_append, List.mem_singleton] at hq
    rw [hq, hp]
    show phyName ≠ macName
    decide

end PhyKind

/-! ### Failures -/

namespace Config

/-- The system of a configuration. -/
def system (c : Config) : Outcome Soc := Soc.build c.platform c.clock c.soc.args c.soc.maps

/-- In the system of a configuration its PHY is chosen and has its page, if it has registers. -/
structure Settles (c : Config) (soc : Soc) (k : PhyKind) : Prop where
  system : c.system = .ok soc
  choice : c.phy.resolve = .ok k
  page : k = .model ∨ ¬ soc.csr.Exhausted phyName

/-- A configuration cannot be composed, for the reason that an error tells. -/
inductive Fails (c : Config) : Error → Prop
  /-- The system cannot be built. -/
  | system {e : Error} (h : c.system = .error e) : c.Fails e
  /-- RMII pads stand for no PHY. -/
  | rmii {soc : Soc} (hsoc : c.system = .ok soc) (hphy : c.phy = .inferred .rmii) :
    c.Fails (.ambiguous
      "pads `rmii_eth_clocks`/`rmii_eth` match no known PHY shape; set `phy` explicitly")
  /-- RGMII pads stand for several PHYs. -/
  | rgmii {soc : Soc} (hsoc : c.system = .ok soc) (hphy : c.phy = .inferred .rgmii) :
    c.Fails (.unsupported ("RGMII pads need a vendor-specific PHY; set `phy` to one of "
      ++ "s6rgmii, s7rgmii, usrgmii, ecp5rgmii"))
  /-- No page is left for the PHY. -/
  | phyPage {soc : Soc} {k : PhyKind} (hsoc : c.system = .ok soc) (hphy : c.phy.resolve = .ok k)
    (hmodel : k ≠ .model) (hfull : soc.csr.Exhausted phyName) : c.Fails (CsrWindow.noPage phyName)
  /-- The buffers of the MAC have no place on the bus. -/
  | macRegion {soc : Soc} {k : PhyKind} {m : MacSettings} {e : Error} (hphy : c.Settles soc k)
    (hcore : c.core = .mac m) (h : soc.bus.addSlave macName (m.region soc) = .error e) : c.Fails e
  /-- No page is left for the MAC, beside that of the PHY. -/
  | macPage {soc : Soc} {k : PhyKind} {m : MacSettings} {r : PlacedRegion × AddressMap}
    (hphy : c.Settles soc k) (hcore : c.core = .mac m)
    (hregion : soc.bus.addSlave macName (m.region soc) = .ok r)
    (hfull : (k.window soc.csr).Exhausted macName) : c.Fails (CsrWindow.noPage macName)

variable {c : Config} {soc : Soc} {k : PhyKind} {e : Error} {log : Log}

theorem spares_phy (h : c.system = .ok soc) : soc.csr.Spares phyName := by
  have hsoc := Soc.reserved_of_build h
  have hpages := (Soc.fresh_of_build h).1
  exact ⟨hsoc.sound, hsoc.paged, by simp [hpages]⟩

theorem spares_mac (h : c.system = .ok soc) (k : PhyKind) : (k.window soc.csr).Spares macName :=
  PhyKind.spares_window (Soc.reserved_of_build h).sound (Soc.fresh_of_build h).1 k

theorem plan_phy_eq_ok_iff (h : c.system = .ok soc) {soc' : Soc} :
    c.phy.plan soc = .ok (k, soc') ↔
      c.Settles soc k ∧ soc' = { soc with csr := k.window soc.csr } := by
  have hspares := spares_phy h
  simp only [PhyChoice.plan, Outcome.bind_eq_ok_iff, Outcome.pure_eq_ok_iff, Prod.mk.injEq]
  constructor
  · rintro ⟨k', hchoice, soc'', hclaim, rfl, rfl⟩
    obtain ⟨hpage, rfl⟩ := (PhyKind.claim_eq_ok_iff hspares).1 hclaim
    exact ⟨⟨h, hchoice, hpage⟩, rfl⟩
  · rintro ⟨⟨-, hchoice, hpage⟩, rfl⟩
    exact ⟨k, hchoice, _, (PhyKind.claim_eq_ok_iff hspares).2 ⟨hpage, rfl⟩, rfl, rfl⟩

theorem plan_phy_eq_error_iff :
    c.phy.plan soc = .error e ↔ c.phy.resolve = .error e ∨
      ∃ k, c.phy.resolve = .ok k ∧ k.claim soc = .error e := by
  simp only [PhyChoice.plan, Outcome.bind_eq_error_iff]
  simp [pure, Except.pure]

theorem plan_core_eq_error_iff {core : CoreSettings} :
    core.plan soc = .error e ↔ ∃ m, core = .mac m ∧
      (soc.bus.addSlave macName (m.region soc) = .error e ∨
        ∃ r, soc.bus.addSlave macName (m.region soc) = .ok r ∧
          soc.csr.alloc macName = .error e) := by
  cases core with
  | mac m =>
    simp only [CoreSettings.plan, Outcome.bind_eq_error_iff]
    simp [pure, Except.pure]
  | udp u => simp [CoreSettings.plan]

/-- The plan of a configuration in its system fails exactly as is listed. -/
theorem plan_eq_error_iff (h : c.system = .ok soc) : c.plan soc = .error e ↔ c.Fails e := by
  have hplan : c.plan soc = .error e ↔ c.phy.plan soc = .error e ∨
      ∃ r, c.phy.plan soc = .ok r ∧ c.core.plan r.2 = .error e := by
    simp only [plan, Outcome.bind_eq_error_iff]
    simp [pure, Except.pure]
  rw [hplan, plan_phy_eq_error_iff]
  constructor
  · rintro ((hchoice | ⟨k, hchoice, hclaim⟩) | ⟨⟨k, soc'⟩, hphy, hcore⟩)
    · rcases PhyChoice.resolve_eq_error_iff.1 hchoice with ⟨hphy, rfl⟩ | ⟨hphy, rfl⟩
      · exact .rmii h hphy
      · exact .rgmii h hphy
    · obtain ⟨hmodel, hfull, rfl⟩ := (PhyKind.claim_eq_error_iff (spares_phy h)).1 hclaim
      exact .phyPage h hchoice hmodel hfull
    · obtain ⟨hsettles, rfl⟩ := (plan_phy_eq_ok_iff h).1 hphy
      obtain ⟨m, hm, hregion | ⟨r, hregion, hpage⟩⟩ := plan_core_eq_error_iff.1 hcore
      · exact .macRegion hsettles hm hregion
      · have hspares := spares_mac h k
        obtain ⟨hfull, rfl⟩ := (CsrWindow.alloc_eq_error_iff hspares.sound hspares.paged
          hspares.new).1 hpage
        exact .macPage hsettles hm hregion hfull
  · have hsame {soc' : Soc} (hsoc : c.system = .ok soc') : soc' = soc :=
      Except.ok.inj (hsoc.symm.trans h)
    intro hfails
    cases hfails with
    | system h' =>
      rw [h] at h'
      cases h'
    | rmii _ hphy =>
      exact Or.inl (Or.inl (PhyChoice.resolve_eq_error_iff.2 (Or.inl ⟨hphy, rfl⟩)))
    | rgmii _ hphy =>
      exact Or.inl (Or.inl (PhyChoice.resolve_eq_error_iff.2 (Or.inr ⟨hphy, rfl⟩)))
    | phyPage hsoc hchoice hmodel hfull =>
      obtain rfl := hsame hsoc
      exact Or.inl (Or.inr ⟨_, hchoice,
        (PhyKind.claim_eq_error_iff (spares_phy h)).2 ⟨hmodel, hfull, rfl⟩⟩)
    | macRegion hsettles hcore hregion =>
      obtain rfl := hsame hsettles.system
      exact Or.inr ⟨_, (plan_phy_eq_ok_iff h).2 ⟨hsettles, rfl⟩,
        plan_core_eq_error_iff.2 ⟨_, hcore, Or.inl hregion⟩⟩
    | @macPage soc' k m r hsettles hcore hregion hfull =>
      obtain rfl := hsame hsettles.system
      have hspares := spares_mac h k
      have hpage := (CsrWindow.alloc_eq_error_iff hspares.sound hspares.paged hspares.new).2
        ⟨hfull, rfl⟩
      exact Or.inr ⟨_, (plan_phy_eq_ok_iff h).2 ⟨hsettles, rfl⟩,
        plan_core_eq_error_iff.2 ⟨_, hcore, Or.inr ⟨_, hregion, hpage⟩⟩⟩

/-! ### Compositions -/

theorem compose_of_plan_error (h : c.system = .ok soc) (hplan : c.plan soc = .error e) :
    c.compose = (.error e, []) := by
  have hrun := (Assembly.Stock.start soc).build c
  rw [hplan] at hrun
  unfold compose
  rw [show Soc.build _ _ _ _ = .ok soc from h]
  rcases hrun' : (Assembly.Step.build c).run (.start soc) with ⟨o, a⟩
  obtain rfl : o = .error e := by
    have herror : ((Assembly.Step.build c).run (.start soc)).1 = .error e := hrun
    rwa [hrun'] at herror
  simp only [hrun']

theorem compose_of_plan_ok (h : c.system = .ok soc) (hplan : c.plan soc = .ok k) :
    ∃ art, c.compose = (.ok art, constraintLog k) ∧ art.phy = k := by
  have hrun := (Assembly.Stock.start soc).build c
  rw [hplan] at hrun
  obtain ⟨k', a, hyields, rfl⟩ := hrun
  exact ⟨_, compose_eq_ok_iff.2 ⟨k', a, ⟨soc, h, hyields⟩, rfl, rfl⟩, rfl⟩

theorem fails_of_system_error {e' : Error} (h : c.system = .error e') :
    c.Fails e ↔ e' = e := by
  have hnot {soc : Soc} (hsoc : c.system = .ok soc) : False := by
    rw [h] at hsoc
    cases hsoc
  constructor
  · intro hfails
    cases hfails with
    | system h' => exact Except.error.inj (h.symm.trans h')
    | rmii hsoc _ => exact (hnot hsoc).elim
    | rgmii hsoc _ => exact (hnot hsoc).elim
    | phyPage hsoc _ _ _ => exact (hnot hsoc).elim
    | macRegion hphy _ _ => exact (hnot hphy.system).elim
    | macPage hphy _ _ _ => exact (hnot hphy.system).elim
  · rintro rfl
    exact .system h

/-- A composition fails with an error exactly if it is listed, and finds nothing then. -/
theorem compose_eq_error_iff : c.compose = (.error e, log) ↔ c.Fails e ∧ log = [] := by
  cases hsoc : c.system with
  | error e' =>
    have hcompose : c.compose = (.error e', []) := by
      unfold compose
      rw [show Soc.build _ _ _ _ = .error e' from hsoc]
    rw [hcompose, Prod.mk.injEq, Except.error.injEq, fails_of_system_error hsoc, @eq_comm _ log]
  | ok soc =>
    rw [← plan_eq_error_iff hsoc]
    cases hplan : c.plan soc with
    | error e' =>
      rw [compose_of_plan_error hsoc hplan, Prod.mk.injEq, Except.error.injEq, Except.error.injEq,
        @eq_comm _ log]
    | ok k =>
      obtain ⟨art, hart, -⟩ := compose_of_plan_ok hsoc hplan
      simp [hart]

/-- No node and no pad is ever in the way of another, and nothing that is looked up is missing. -/
theorem Fails.about (h : c.Fails e) :
    e.IsConfiguration ∨ (c.phy = .inferred .rmii ∧ ∃ problem, e = .ambiguous problem) ∨
      (c.phy = .inferred .rgmii ∧ ∃ problem, e = .unsupported problem) := by
  cases h with
  | system h => exact Or.inl (Soc.build_configured _ _ _ _ _ h)
  | rmii _ hphy => exact Or.inr (Or.inl ⟨hphy, _, rfl⟩)
  | rgmii _ hphy => exact Or.inr (Or.inr ⟨hphy, _, rfl⟩)
  | phyPage => exact Or.inl ⟨_, _, rfl⟩
  | macRegion hphy _ h =>
    have hname := (Soc.fresh_of_build hphy.system).2 macName (by decide)
    exact Or.inl (AddressMap.addSlave_configured hname _ _ h)
  | macPage => exact Or.inl ⟨_, _, rfl⟩

/-- No error is about a name that is taken or missing. -/
theorem Fails.not_conflict (h : c.Fails e) :
    (∀ name index, e ≠ .conflict name index) ∧ ∀ sought name, e ≠ .notFound sought name := by
  rcases h.about with ⟨key, problem, rfl⟩ | ⟨-, problem, rfl⟩ | ⟨-, problem, rfl⟩ <;> simp

/-- The one finding of a composition is about the model of a PHY. -/
theorem constraintLog_eq (k : PhyKind) :
    if k = .model then ∃ d, constraintLog k = [d] ∧ d.code.text = "T001"
    else constraintLog k = [] := by
  cases k
  case model => exact ⟨_, rfl, rfl⟩
  all_goals rfl

/-- A composition fails exactly with the errors that are listed, and finds nothing then: errors of
configuration keys, or of RMII or RGMII pads for which a PHY is to be inferred.  Where none is
listed there is an artifact, and one finding if its PHY is the model. -/
theorem compose_outcome (c : Config) :
    (∀ e log, c.compose = (.error e, log) ↔ c.Fails e ∧ log = []) ∧
      ((∃ art log, c.compose = (.ok art, log)) ↔ ∀ e, ¬ c.Fails e) ∧
      (∀ e, c.Fails e → e.IsConfiguration ∨
        (c.phy = .inferred .rmii ∧ ∃ problem, e = .ambiguous problem) ∨
          (c.phy = .inferred .rgmii ∧ ∃ problem, e = .unsupported problem)) ∧
      (∀ e, c.Fails e →
        (∀ name index, e ≠ .conflict name index) ∧ ∀ sought name, e ≠ .notFound sought name) ∧
      ∀ art log, c.compose = (.ok art, log) →
        if art.phy = .model then ∃ d, log = [d] ∧ d.code.text = "T001" else log = [] := by
  refine ⟨fun e log => compose_eq_error_iff, ⟨?_, fun h => ?_⟩, fun e => Fails.about,
    fun e => Fails.not_conflict, fun art log h => ?_⟩
  · rintro ⟨art, log, h⟩ e hfails
    have := compose_eq_error_iff.2 ⟨hfails, rfl⟩
    rw [h] at this
    cases this
  · obtain ⟨⟨o, log⟩, hcompose⟩ : ∃ x, c.compose = x := ⟨_, rfl⟩
    cases o with
    | error e => exact absurd (compose_eq_error_iff.1 hcompose).1 (h e)
    | ok art => exact ⟨art, log, hcompose⟩
  · obtain ⟨k, a, -, rfl, rfl⟩ := compose_eq_ok_iff.1 h
    exact constraintLog_eq k

end Config

end EtherCore
