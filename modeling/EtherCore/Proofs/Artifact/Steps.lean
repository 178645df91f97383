import EtherCore.Artifact.Compose
import EtherCore.Proofs.Outcome

/-!
Steps that succeed: what each step of the composition gives and leaves, read backwards from its
success.  A sequence succeeds exactly if its parts do (`yields_bind_iff`), and `compose_eq_ok_iff`
says the same of a whole composition.
-/

namespace EtherCore

namespace Assembly.Step

variable {α β : Type} {a a' : Assembly}

/-- A step succeeds with a value and leaves an assembly. -/
def Yields (x : Step α) (a : Assembly) (v : α) (a' : Assembly) : Prop := x.run a = (.ok v, a')

/-! ### Sequences -/

theorem yields_pure_iff {v w : α} : (pure v : Step α).Yields a w a' ↔ v = w ∧ a = a' := by
  show ((Except.ok v, a) : Except Error α × Assembly) = (.ok w, a') ↔ _
  rw [Prod.mk.injEq, Except.ok.injEq]

theorem run_bind (x : Step α) (f : α → Step β) : (x >>= f).run a = match x.run a with
    | (.ok u, a₁) => (f u).run a₁
    | (.error e, a₁) => (.error e, a₁) := by
  show (ExceptT.bindCont f (x.run a).1).run (x.run a).2 = _
  rcases x.run a with ⟨e | u, a₁⟩ <;> rfl

theorem yields_bind_iff {x : Step α} {f : α → Step β} {v : β} :
    (x >>= f).Yields a v a' ↔ ∃ u a₁, x.Yields a u a₁ ∧ (f u).Yields a₁ v a' := by
  unfold Yields
  rw [run_bind]
  constructor
  · intro h
    rcases hx : x.run a with ⟨e | u, a₁⟩
    · rw [hx] at h
      cases h
    · rw [hx] at h
      exact ⟨u, a₁, rfl, h⟩
  · rintro ⟨u, a₁, hx, hf⟩
    rw [hx]
    exact hf

theorem yields_get_iff {v : Assembly} : (get : Step Assembly).Yields a v a' ↔ a = v ∧ a = a' := by
  show ((Except.ok a, a) : Except Error Assembly × Assembly) = (.ok v, a') ↔ _
  rw [Prod.mk.injEq, Except.ok.injEq]

theorem yields_lift_iff {x : Outcome α} {v : α} :
    (liftM x : Step α).Yields a v a' ↔ x = .ok v ∧ a = a' := by
  show ((x, a) : Except Error α × Assembly) = (.ok v, a') ↔ _
  rw [Prod.mk.injEq]

/-! ### Single steps -/

/-- A step that runs an operation on a part of the assembly and puts back what it leaves. -/
theorem yields_iff_of_run {σ : Type} {x : Step α} {part : Outcome (α × σ)} {put : σ → Assembly}
    (hok : ∀ u s, part = .ok (u, s) → x.run a = (.ok u, put s))
    (herror : ∀ e, part = .error e → x.run a = (.error e, a)) {v : α} :
    x.Yields a v a' ↔ ∃ s, part = .ok (v, s) ∧ a' = put s := by
  constructor
  · intro h
    rcases part with e | ⟨u, s⟩
    · cases (herror e rfl).symm.trans h
    · cases (hok u s rfl).symm.trans h
      exact ⟨s, rfl, rfl⟩
  · rintro ⟨s, hs, rfl⟩
    exact hok v s hs

theorem yields_onNetlist_iff {f : Netlist → Outcome (α × Netlist)} {v : α} :
    (onNetlist f).Yields a v a' ↔ ∃ n, f a.netlist = .ok (v, n) ∧ a' = { a with netlist := n } :=
  yields_iff_of_run (fun _ _ h => by simp only [onNetlist, ExceptT.run, h])
    fun _ h => by simp only [onNetlist, ExceptT.run, h]

theorem yields_takePad_iff {name : String} {index : Option UInt32} {b : Bundle} :
    (takePad name index).Yields a b a' ↔
      ∃ pads, a.pads.request name index = .ok (b, pads) ∧ a' = { a with pads := pads } :=
  yields_iff_of_run (fun _ _ h => by simp only [takePad, ExceptT.run, h])
    fun _ h => by simp only [takePad, ExceptT.run, h]

theorem yields_place_iff {name : String} {region : Region} {p : PlacedRegion} :
    (place name region).Yields a p a' ↔
      ∃ bus, a.soc.bus.addSlave name region = .ok (p, bus) ∧
        a' = { a with soc := { a.soc with bus := bus } } :=
  yields_iff_of_run (fun _ _ h => by simp only [place, ExceptT.run, h])
    fun _ h => by simp only [place, ExceptT.run, h]

theorem yields_takePage_iff {name : String} {p : CsrPage} :
    (takePage name).Yields a p a' ↔
      ∃ csr, a.soc.csr.alloc name = .ok (p, csr) ∧
        a' = { a with soc := { a.soc with csr := csr } } :=
  yields_iff_of_run (fun _ _ h => by simp only [takePage, ExceptT.run, h])
    fun _ h => by simp only [takePage, ExceptT.run, h]

theorem yields_connect_iff {driver receiver : Nat} {c : Connection} {u : Unit} :
    (connect driver receiver c).Yields a u a' ↔
      a' = { a with netlist := a.netlist.connect driver receiver c } := by
  rw [connect, yields_onNetlist_iff]
  constructor
  · rintro ⟨n, hn, rfl⟩
    cases hn
    rfl
  · rintro rfl
    exact ⟨_, rfl, rfl⟩

/-- A pad that is attached is handed out, added and connected. -/
theorem yields_attachPad_iff {component : Nat} {name lead : String} {p : Nat} :
    (attachPad component name lead).Yields a p a' ↔
      ∃ b a₁ a₂ k, (takePad name none).Yields a b a₁ ∧ (addPad b).Yields a₁ p a₂ ∧
        (connectBundle component p lead).Yields a₂ k a' := by
  simp only [attachPad, requestPad, yields_bind_iff, yields_pure_iff]
  constructor
  · rintro ⟨p', a₂, ⟨b, a₁, hb, hp⟩, k, _, hk, rfl, rfl⟩
    exact ⟨b, a₁, a₂, k, hb, hp, hk⟩
  · rintro ⟨b, a₁, a₂, k, hb, hp, hk⟩
    exact ⟨p, a₂, ⟨b, a₁, hb, hp⟩, k, a', hk, rfl, rfl⟩

end Assembly.Step

/-! ### Compositions -/

/-- A configuration is composed to an assembly with a kind of PHY: its system is built, and from
there every step of the composition succeeds. -/
def Config.Assembles (c : Config) (k : PhyKind) (a : Assembly) : Prop :=
  ∃ soc, Soc.build c.platform c.clock c.soc.args c.soc.maps = .ok soc ∧
    (Assembly.Step.build c).Yields (.start soc) k a

theorem Config.compose_eq_ok_iff {c : Config} {art : Artifact} {log : Log} :
    c.compose = (.ok art, log) ↔
      ∃ k a, c.Assembles k a ∧ art = a.artifact k c.core.kind ∧ log = constraintLog k := by
  unfold compose Assembles Assembly.Step.Yields
  constructor
  · intro h
    split at h
    · cases h
    · next soc hsoc =>
      split at h
      · cases h
      · next k a ha =>
        cases h
        exact ⟨k, a, ⟨soc, hsoc, ha⟩, rfl, rfl⟩
  · rintro ⟨k, a, ⟨soc, hsoc, ha⟩, rfl, rfl⟩
    rw [hsoc]
    simp only [ha]

end EtherCore
