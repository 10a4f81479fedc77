import Fudge.Relay.Steps

/-!
# What an enactment does to `Heads`

The closure of `force_enact_collations` writes the commitments of a collation and a candidate, and
the runtime then makes the head of the commitments the head of the parachain. A committed mutation
carries that over to the best state of the relay chain, whether or not the chain was settled before.
-/

namespace Fudge

open Call

namespace RelayStorage

open RelaychainBuilder (Error)

variable {ε : Type} {P : RelayPrimitives} {H : RelayHost}

theorem insertCandidate_eq_ok {parent : Hash} {n : ℕ} {pvd : PersistedValidationData} {id : Id}
    {c : Collation} {hd : Header} {s t : RelayStorage} {u : Unit}
    (h : insertCandidate (ε := ε) P H parent n pvd id c hd s = (.ok u, t)) :
    (∃ cpa, t.pendingAvailability id = some cpa) ∧
      t.pendingAvailabilityCommitments id = some (commitmentsOf c) ∧ t.heads = s.heads := by
  rw [insertCandidate] at h
  obtain ⟨_, s₁, h₁, k₁⟩ := bind_eq_ok.mp h
  obtain rfl := (Prod.mk.inj h₁).2
  obtain ⟨codeHash, s₂, h₂, k₂⟩ := bind_eq_ok.mp k₁
  have hread₂ : Keeps (fun s ↦ s) (validationCodeHash (ε := ε) H parent id) :=
    Keeps.bind (Keeps.query _ _) fun o ↦ Keeps.require _ o
  obtain rfl := hread₂.eq_of_ok h₂
  obtain ⟨core, s₃, h₃, k₃⟩ := bind_eq_ok.mp k₂
  have hread₃ : Keeps (fun s ↦ s) (coreIndex (ε := ε) id) :=
    Keeps.bind (Keeps.read _) fun _ ↦ Keeps.bind (Keeps.require _ _) fun _ ↦ Keeps.require _ _
  obtain rfl := hread₃.eq_of_ok h₃
  obtain ⟨cpa, s₄, h₄, k₄⟩ := bind_eq_ok.mp k₃
  obtain ⟨-, rfl⟩ := query_eq_ok.mp h₄
  obtain rfl := (Prod.mk.inj k₄).2
  exact ⟨⟨cpa, Function.update_self _ _ _⟩, Function.update_self _ _ _, rfl⟩

theorem forceEnact_snd (id : Id) (s : RelayStorage) :
    (forceEnact (ε := ε) P id s).2 = (P.includedValidationData id s).2 := by
  rw [forceEnact]
  rcases P.includedValidationData id s with ⟨_ | _, _⟩ <;> rfl

/-- A closure that reached the force-enactment made the head of the collation the head of the
parachain, and changed no other head. -/
theorem recordedEnact_heads (hP : P.EnactsHeads) {parent : Hash} {n : ℕ}
    {pvd : PersistedValidationData} {id : Id} {c : Collation} {hd : Header} {s : RelayStorage}
    (h : (recordedEnact (ε := ε) P H parent n pvd id c hd s).1.1 = true) :
    (recordedEnact (ε := ε) P H parent n pvd id c hd s).2.heads =
      Function.update s.heads id (some c.headData) := by
  obtain ⟨u, hu⟩ := Outcome.isOk_iff.mp h
  obtain ⟨⟨cpa, hcpa⟩, hcommit, hheads⟩ := insertCandidate_eq_ok (Prod.ext hu rfl)
  have henact : (enact (ε := ε) P H parent n pvd id c hd s).2 =
      (forceEnact (ε := ε) P id (insertCandidate (ε := ε) P H parent n pvd id c hd s).2).2 :=
    congrArg Prod.snd (bind_of_ok (Prod.ext hu rfl))
  change (enact (ε := ε) P H parent n pvd id c hd s).2.heads = _
  rw [henact, forceEnact_snd, hP hcpa hcommit, hheads]
  rfl

end RelayStorage

namespace World

variable {κ W ε : Type} {P : RelayPrimitives} {H : RelayHost}

/-- **An enactment sets the head**: after it is committed, the head of the parachain in the best
state is the head of the collation, and the other heads are as they were. -/
theorem EnactedBy.heads (hP : P.EnactsHeads) (hL : H.toHost.Lawful P.toPrimitives) {parent : Hash}
    {n : ℕ} {e : CollationEntry} {b₀ b : Builder RelayStorage}
    (h : EnactedBy ε P H parent n e b₀ b) :
    ∃ s s', b₀.chain.states b₀.chain.bestHash = some s ∧
      b.chain.states b.chain.bestHash = some s' ∧
      s'.heads = Function.update s.heads e.id (some e.collation.headData) := by
  obtain ⟨pvd, result, hc⟩ := h
  obtain ⟨s, hs, hr, hs'⟩ := Builder.commit_bestState hL hc
  refine ⟨s, _, hs, hs', RelayStorage.recordedEnact_heads hP ?_⟩
  rw [← hr]

theorem EnactedBy.head (hP : P.EnactsHeads) (hL : H.toHost.Lawful P.toPrimitives) {parent : Hash}
    {n : ℕ} {e : CollationEntry} {w : World κ W} {b : Builder RelayStorage}
    (h : EnactedBy ε P H parent n e w.relay.builder b) :
    (w.withBuilder b).head e.id = some e.collation.headData := by
  obtain ⟨s, s', -, hs', hheads⟩ := h.heads hP hL
  rw [World.head, show (w.withBuilder b).relay.builder = b from rfl, hs']
  change s'.heads e.id = _
  rw [hheads, Function.update_self]

end World

end Fudge
