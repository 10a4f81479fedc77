import Fudge.Companion.Resolution
import Fudge.Companion.Script

/-!
# Which heads `evolve` writes

`evolve` writes to `Heads` in two ways: it tells the relay chain the head of a field before the
block of the field is built, and the imports of the relay chain enact what the collators offered. In
a companion whose names fit together (`Consistent`), both write the head of a field under the id of
that field, so the three ways to resolve an id agree.

Nothing is assumed of the calls made before: they may have failed anywhere, and blocks may be
pending in any slot. What a failing `evolve` leaves may be an older best state, so what it writes is
followed in all states the relay chain stores (`Writing`); what an `evolve` that returns `Ok` leaves
is followed in the best state too (`Traced`).
-/

namespace Fudge

namespace Companion

open Call
open RelaychainBuilder (Pending)
open ParachainBuilder (CollatorError)
open World (Later)

variable {κ : Type} [DecidableEq κ] {T : κ → Type} {A α : Type} (Rl : RelayPrimitives)
  (P : ∀ k, Primitives (T k)) (d : CompanionDef κ)

/-- The field `k` had this head as its best one in `u`, or has offered it to the relay chain by
`w`. -/
def IsHead (u w : Companion T) (k : κ) (head : HeadData) : Prop :=
  (u.collators k).bestHead (P k) = some head ∨ head ∈ w.offeredHeads P k

/-- A field that carries the id has this head. -/
def FieldHead (u w : Companion T) (id : Id) (head : HeadData) : Prop :=
  ∃ k, d.Carries id k ∧ IsHead P u w k head

/-- Some state that the relay chain stores has this head under the id. -/
def Stored (u : Companion T) (id : Id) (head : HeadData) : Prop :=
  ∃ h s, u.relay.builder.chain.states h = some s ∧ s.heads id = some head

/-- **The three ways to resolve an id agree** when `evolve` is called in `u`: calls and verdicts for
the id of a field go to this field. If `evolve` returns `Ok`, the head of this field is in `Heads`
under its id, and other ids have the heads they had. Whatever it returns, a head that was not stored
before is that of the field that carries the id. -/
structure Agree (hosts : κ → RoundHosts T) (u : Companion T) : Prop where
  dispatched : ∀ k ∈ d.fields, d.fieldFor (d.ids k) = some k
  judged : ∀ k ∈ d.fields, Judges u (d.ids k) k
  written : (evolve Rl P d hosts u).1.isOk = true → ∀ k ∈ d.fields, ∃ head,
    (evolve Rl P d hosts u).2.head (d.ids k) = some head ∧
      IsHead P u (evolve Rl P d hosts u).2 k head
  kept : (evolve Rl P d hosts u).1.isOk = true → ∀ id, (∀ k ∈ d.fields, d.ids k ≠ id) →
    (evolve Rl P d hosts u).2.head id = u.head id
  sources : ∀ id head, (evolve Rl P d hosts u).2.head id = some head →
    Stored u id head ∨ FieldHead P d u (evolve Rl P d hosts u).2 id head

/-! ## What holds all along -/

/-- An `evolve` called in `u` has come to `w`: whatever happened, the heads in the states of the
relay chain were there before or are those of the fields. -/
structure Writing (u w : Companion T) : Prop where
  tidy : Tidy P d u w
  pending : Pending Rl w.relay
  heads : World.HeadsIn (fun id head ↦ Stored u id head ∨ FieldHead P d u w id head) w

/-- And where it went without a failure, every head in the best state is what it was or that of a
field, and the latter for the given ids. -/
def Traced (ids : List Id) (u w : Companion T) : Prop :=
  ∀ id, (id ∉ ids ∧ w.head id = u.head id) ∨
    ∃ head, w.head id = some head ∧ FieldHead P d u w id head

/-- A call that an `evolve` called in `u` may make. -/
def Tracks (u : Companion T) (c : Call (Companion T) BuilderError α) : Prop :=
  ∀ ids, Triple (fun w ↦ Writing Rl P d u w ∧ Traced P d ids u w) c
    (fun _ w ↦ Writing Rl P d u w ∧ Traced P d ids u w) (Writing Rl P d u)

variable {Rl P d} {u v w : Companion T} {ids : List Id}

theorem IsHead.later (h : Later v w) {k : κ} {head : HeadData} (hhead : IsHead P u v k head) :
    IsHead P u w k head :=
  hhead.imp_right h.offeredHeads

theorem FieldHead.later (h : Later v w) {id : Id} {head : HeadData}
    (hhead : FieldHead P d u v id head) : FieldHead P d u w id head := by
  obtain ⟨k, hk, hhead⟩ := hhead
  exact ⟨k, hk, hhead.later h⟩

theorem FieldHead.exists_later (h : Later v w) {id : Id} {o : Option HeadData}
    (hhead : ∃ head, o = some head ∧ FieldHead P d u v id head) :
    ∃ head, o = some head ∧ FieldHead P d u w id head := by
  obtain ⟨head, ho, hf⟩ := hhead
  exact ⟨head, ho, hf.later h⟩

theorem Tidy.table_heads (h : Tidy P d u w) :
    World.TableIn (fun id head ↦ Stored u id head ∨ FieldHead P d u w id head) w := by
  intro e he
  obtain ⟨k, hk, hoffered⟩ := h.table e he
  exact Or.inr ⟨k, hk, Or.inr hoffered⟩

theorem Tracks.bind {β : Type} {c : Call (Companion T) BuilderError α}
    {f : α → Call (Companion T) BuilderError β} (hc : Tracks Rl P d u c)
    (hf : ∀ a, Tracks Rl P d u (f a)) : Tracks Rl P d u (c >>= f) :=
  fun ids ↦ Triple.bind (hc ids) fun a ↦ hf a ids

theorem Writing.heads_later (h : World.HeadsIn
    (fun id head ↦ Stored u id head ∨ FieldHead P d u v id head) w) (hlater : Later v w) :
    World.HeadsIn (fun id head ↦ Stored u id head ∨ FieldHead P d u w id head) w :=
  h.mono fun _ hs id head hhead ↦ (hs id head hhead).imp_right fun hf ↦ hf.later hlater

theorem Traced.of_head (h : Traced P d ids u v) (hlater : Later v w)
    (hhead : ∀ id, w.head id = v.head id) : Traced P d ids u w := by
  intro id
  rw [hhead id]
  exact (h id).imp_right (FieldHead.exists_later hlater)

theorem Tracks.of_keeps {c : Call (Companion T) BuilderError α}
    (htidy : Preserves (Tidy P d u) c) (hpending : Preserves (fun w ↦ Pending Rl w.relay) c)
    (hkeep : Keeps (fun w ↦ (w.relay.builder.chain, w.relay.parachains, w.log)) c) :
    Tracks Rl P d u c := by
  have hwriting : ∀ w, Writing Rl P d u w → Writing Rl P d u (c w).2 ∧ Later w (c w).2 ∧
      ∀ id, (c w).2.head id = w.head id := by
    intro w hw
    obtain ⟨hchain, hrest⟩ := Prod.mk.inj (hkeep w)
    obtain ⟨hregs, hlog⟩ := Prod.mk.inj hrest
    have hlater : Later w (c w).2 := ⟨hregs, hlog ▸ List.prefix_rfl⟩
    refine ⟨⟨htidy w hw.tidy, hpending w hw.pending, Writing.heads_later ?_ hlater⟩, hlater, ?_⟩
    · rw [World.HeadsIn, hchain]
      exact hw.heads
    · intro id
      rw [World.head, hchain]
      rfl
  rintro ids w ⟨hw, htraced⟩
  obtain ⟨hw', hlater, hhead⟩ := hwriting w hw
  refine ⟨fun a w' hok ↦ ?_, fun _ ↦ hw'⟩
  rw [hok] at hw' hlater hhead
  exact ⟨hw', htraced.of_head hlater hhead⟩

theorem onPara_tracks {k : κ} (hk : k ∈ d.fields)
    {c : Call (ParachainBuilder (T k)) ParachainBuilder.Error α} (hc : Keeps (fun p ↦ p.id) c) :
    Tracks Rl P d u (onPara k c) := by
  have hrelay : ∀ {γ : Type} {f : Companion T → γ}, (∀ v w, f { w with collators := v } = f w) →
      Keeps f (onPara k c) := fun hf ↦ Keeps.mapErr (Keeps.zoom fun v w ↦ hf v w)
  refine Tracks.of_keeps (onPara_tidy hk hc) ?_ (hrelay fun _ _ ↦ rfl)
  exact (hrelay (f := World.relay) fun _ _ ↦ rfl).preserves fun v w hvw hv ↦ by
    rwa [show w.relay = v.relay from hvw]

theorem buildRelay_tracks {hosts : Hosts T} (hL : hosts.Lawful Rl P) :
    Tracks Rl P d u (buildRelay Rl hosts) := by
  refine Tracks.of_keeps (buildRelay_tidy hosts) ?_ ?_
  · refine Preserves.bind (fun w hw ↦ ?_) fun _ ↦ Preserves.of_read (Keeps.pure _)
    rw [onRelay, mapErr_snd]
    exact RelaychainBuilder.buildBlock_pending hL.relay w.relay hw
  · refine Keeps.bind (Keeps.mapErr fun w ↦ ?_) fun _ ↦ Keeps.pure _
    exact Prod.ext (congrArg Builder.chain (RelaychainBuilder.buildBlock_builder w.relay))
      (Prod.ext (RelaychainBuilder.buildBlock_keeps (f := fun r ↦ r.parachains)
        (fun _ _ ↦ rfl) w.relay) rfl)

theorem importRelay_tracks (laws : Rl.EnactsHeads ∧ Rl.KeepsHeads) {hosts : Hosts T}
    (hL : hosts.Lawful Rl P) : Tracks Rl P d u (importRelay Rl P hosts) := by
  rintro ids w ⟨hw, htraced⟩
  have htidy : Tidy P d u (importRelay Rl P hosts w).2 := importRelay_tidy hL.paras w hw.tidy
  have hlater : Later w (importRelay Rl P hosts w).2 :=
    (importRelay_tidy hL.paras w hw.tidy.refl).toLater
  have hpending : Pending Rl (importRelay Rl P hosts w).2.relay := by
    rw [importRelay, mapErr_snd]
    exact World.importBlock_preserves (RelaychainBuilder.pending_slotInvariant _ _ Rl) hL.relay w
      hw.pending
  have hheads := Writing.heads_later (w := (importRelay Rl P hosts w).2) (by
    rw [importRelay, mapErr_snd]
    exact World.importBlock_headsIn laws.1 laws.2 hL.relay hw.heads hw.tidy.table_heads) hlater
  refine ⟨fun _ w' hok ↦ ?_, fun _ ↦ ⟨htidy, hpending, hheads⟩⟩
  rw [hok] at htidy hpending hheads hlater
  refine ⟨⟨htidy, hpending, hheads⟩, fun id ↦ ?_⟩
  rcases World.importBlock_head laws.1 laws.2 hL.relay hw.pending (mapErr_eq_ok.mp hok) id with
    hsame | ⟨e, he, rfl, hhead⟩
  · rw [hsame]
    exact (htraced id).imp_right (FieldHead.exists_later hlater)
  · obtain ⟨k, hk, hoffered⟩ := hw.tidy.table e he
    exact Or.inr ⟨_, hhead, k, hk, Or.inr (hlater.offeredHeads hoffered)⟩

/-! ## One round -/

theorem updateParaHead_tracks {hosts : Hosts T} (hL : hosts.Lawful Rl P) {id : Id}
    {head : HeadData} (hf : ∀ w, FieldHead P d u w id head) (ids : List Id) :
    Triple (fun w ↦ Writing Rl P d u w ∧ Traced P d ids u w)
      (onRelay (RelaychainBuilder.updateParaHead Rl hosts.relay id head))
      (fun _ w ↦ Writing Rl P d u w ∧ Traced P d (ids ++ [id]) u w) (Writing Rl P d u) := by
  rintro w ⟨hw, htraced⟩
  have htells : Preserves (Tidy P d w)
      (onRelay (RelaychainBuilder.updateParaHead Rl hosts.relay id head)) :=
    onRelay_tidy (RelaychainBuilder.updateParaHead_keeps (fun _ _ ↦ rfl) id head)
  have hlater := (htells w hw.tidy.refl).toLater
  have hwriting : Writing Rl P d u
      (onRelay (RelaychainBuilder.updateParaHead Rl hosts.relay id head) w).2 := by
    refine ⟨onRelay_tidy (RelaychainBuilder.updateParaHead_keeps (fun _ _ ↦ rfl) id head) w hw.tidy,
      ?_, Writing.heads_later ?_ hlater⟩
    · rw [onRelay, mapErr_snd]
      exact RelaychainBuilder.withMutState_pending hL.relay _ w.relay hw.pending
    · rw [onRelay, mapErr_snd]
      exact RelaychainBuilder.withMutState_allStates hL.relay
        (fun s hs ↦ hs.of_update rfl (Or.inr (hf w))) w.relay hw.heads
  refine ⟨fun _ w' hok ↦ ?_, fun _ ↦ hwriting⟩
  rw [hok] at hwriting hlater
  refine ⟨hwriting, fun id' ↦ ?_⟩
  obtain ⟨r, hr, rfl⟩ := onRelay_eq_ok.mp hok
  obtain ⟨-, b, hb, rfl⟩ := RelaychainBuilder.withMutState_eq_ok hr
  obtain ⟨s, hs, -, hs'⟩ := Builder.commit_bestState hL.relay hb
  have hbefore : w.head id' = s.heads id' := World.head_of_bestState hs id'
  have hafter : (w.withBuilder b).head id' = Function.update s.heads id (some head) id' :=
    World.head_of_bestState (w := w.withBuilder b) hs' id'
  change (_ ∧ (w.withBuilder b).head id' = _) ∨ ∃ head', (w.withBuilder b).head id' = _ ∧ _
  rw [hafter]
  by_cases hid : id' = id
  · subst hid
    exact Or.inr ⟨head, Function.update_self _ _ _, hf _⟩
  · rw [Function.update_of_ne hid, ← hbefore]
    refine (htraced id').imp (And.imp_left fun hnot ↦ ?_) (FieldHead.exists_later hlater)
    rw [List.mem_append, List.mem_singleton, not_or]
    exact ⟨hnot, hid⟩

/-- The calls before the block of the field is built, from a state in which the field still has the
head it had in `u`. -/
theorem prepareField_tracks {hosts : RoundHosts T}
    (hL : hosts.All (Hosts.Lawful Rl P)) {k : κ}
    (hk : k ∈ d.fields) (hid : (u.collators k).id = d.ids k) (ids : List Id) :
    Triple (fun w ↦ (Writing Rl P d u w ∧ Traced P d ids u w) ∧
        (w.collators k).builder = (u.collators k).builder)
      (prepareField Rl P hosts k)
      (fun _ w ↦ Writing Rl P d u w ∧ Traced P d (ids ++ [d.ids k]) u w) (Writing Rl P d u) := by
  have hread : Tracks Rl P d u (onPara k (ParachainBuilder.head (P k) (hosts.head.paras k))) :=
    onPara_tracks hk ParachainBuilder.head_keeps
  refine Triple.bind (M := fun head w ↦ (Writing Rl P d u w ∧ Traced P d ids u w) ∧
    (u.collators k).bestHead (P k) = some head) ?_ fun head ↦ ?_
  · rintro w ⟨hw, hbuilder⟩
    refine ⟨fun head w' hok ↦ ⟨(hread ids).ok hw hok, ?_⟩, (hread ids).stopped hw⟩
    obtain ⟨p, hp, -⟩ := onPara_eq_ok hok
    have hbest := ParachainBuilder.head_eq_ok (hL.head.paras k) hp
    rwa [ParachainBuilder.bestHead, hbuilder] at hbest
  · refine Triple.bind (M := fun id w ↦ ((Writing Rl P d u w ∧ Traced P d ids u w) ∧
      (u.collators k).bestHead (P k) = some head) ∧ id = d.ids k) ?_ fun id ↦ ?_
    · rintro w ⟨hw, hbest⟩
      exact Triple.of_returned (c := Call.read _) rfl
        ⟨⟨hw, hbest⟩, (hw.1.tidy.ids k).trans hid⟩
    · rintro w ⟨⟨hw, hbest⟩, rfl⟩
      exact Triple.bind (updateParaHead_tracks hL.updateParaHead
        (fun _ ↦ ⟨k, ⟨hk, rfl⟩, Or.inl hbest⟩) ids)
        (fun _ ↦ buildRelay_tracks hL.buildRelay (ids ++ [d.ids k])) w hw

/-- **One round.** -/
theorem evolveField_tracks (laws : Rl.EnactsHeads ∧ Rl.KeepsHeads) {hosts : RoundHosts T}
    (hL : hosts.All (Hosts.Lawful Rl P)) {k : κ} (hk : k ∈ d.fields)
    (hid : (u.collators k).id = d.ids k) (ids : List Id) :
    Triple (fun w ↦ (Writing Rl P d u w ∧ Traced P d ids u w) ∧
        (w.collators k).builder = (u.collators k).builder)
      (evolveField Rl P hosts k)
      (fun _ w ↦ Writing Rl P d u w ∧ Traced P d (ids ++ [d.ids k]) u w) (Writing Rl P d u) :=
  Triple.bind (prepareField_tracks hL hk hid ids) fun _ ↦
    ((onPara_tracks hk ParachainBuilder.buildBlock_keeps_id).bind fun _ ↦
      (importRelay_tracks laws hL.importCollecting).bind fun _ ↦
        (buildRelay_tracks hL.buildEnacting).bind fun _ ↦
          (importRelay_tracks laws hL.importEnacting).bind fun _ ↦
            onPara_tracks hk ParachainBuilder.importBlock_keeps_id) (ids ++ [d.ids k])

theorem evolveField_keeps_builder (hosts : RoundHosts T) {k j : κ} (hj : j ≠ k) :
    Keeps (fun w ↦ (w.collators j).builder) (evolveField Rl P hosts k) := by
  have hpara : ∀ {α : Type} (c : Call (ParachainBuilder (T k)) ParachainBuilder.Error α),
      Keeps (fun w : Companion T ↦ (w.collators j).builder) (onPara k c) := by
    intro α c
    refine Keeps.mapErr fun w ↦ ?_
    rw [World.builderCall_snd]
    change (Function.update w.collators k _ j).builder = _
    rw [Function.update_of_ne hj]
  have hrelay : ∀ {α : Type} (c : Call (RelaychainBuilder κ)
      (RelaychainBuilder.Error CollatorError) α),
      Keeps (fun w : Companion T ↦ (w.collators j).builder) (onRelay c) :=
    fun c ↦ Keeps.mapErr (World.relayCall_frame fun _ _ ↦ rfl)
  have hbuild : ∀ hosts : Hosts T, Keeps (fun w : Companion T ↦ (w.collators j).builder)
      (buildRelay Rl hosts) := fun hosts ↦ Keeps.bind (hrelay _) fun _ ↦ Keeps.pure _
  have himport : ∀ hosts : Hosts T, Keeps (fun w : Companion T ↦ (w.collators j).builder)
      (importRelay Rl P hosts) := fun hosts ↦ Keeps.mapErr (World.importBlock_frame fun _ _ ↦ rfl)
  exact Keeps.bind (Keeps.bind (hpara _) fun _ ↦ Keeps.bind (Keeps.read _) fun _ ↦
    Keeps.bind (hrelay _) fun _ ↦ hbuild _) fun _ ↦ Keeps.bind (hpara _) fun _ ↦
      Keeps.bind (himport _) fun _ ↦ Keeps.bind (hbuild _) fun _ ↦
        Keeps.bind (himport _) fun _ ↦ hpara _

/-- **All rounds.** -/
theorem evolve_tracks (laws : Rl.EnactsHeads ∧ Rl.KeepsHeads) {hosts : κ → RoundHosts T}
    (hL : ∀ k, (hosts k).All (Hosts.Lawful Rl P))
    (hids : ∀ k ∈ d.fields, (u.collators k).id = d.ids k) :
    Triple (· = u ∧ Writing Rl P d u u) (evolve Rl P d hosts)
      (fun _ w ↦ Writing Rl P d u w ∧ Traced P d (d.fields.map d.ids) u w)
      (Writing Rl P d u) := by
  have hloop := Triple.forEach (f := fun k ↦ evolveField Rl P (hosts k) k)
    (I := fun done rest w ↦ done ++ rest = d.fields ∧
      (Writing Rl P d u w ∧ Traced P d (done.map d.ids) u w) ∧
      ∀ j ∈ rest, (w.collators j).builder = (u.collators j).builder)
    (E := Writing Rl P d u) ?_ d.fields []
  · rintro w ⟨rfl, hw⟩
    obtain ⟨hok, hstop⟩ := hloop w ⟨rfl, ⟨hw, fun _ ↦ Or.inl ⟨List.not_mem_nil, rfl⟩⟩,
      fun _ _ ↦ rfl⟩
    exact ⟨fun a w' h ↦ (hok a w' h).2.1, hstop⟩
  · rintro done k rest w ⟨hsplit, hw, hbuilders⟩
    have hk : k ∈ d.fields := by
      rw [← hsplit]
      simp
    have hnodup := d.nodup
    rw [← hsplit, List.nodup_append, List.nodup_cons] at hnodup
    have hround := evolveField_tracks laws (hL k) hk (hids k hk) (done.map d.ids) w
      ⟨hw, hbuilders k List.mem_cons_self⟩
    refine ⟨fun a w' hok ↦ ⟨by simpa using hsplit, ?_, fun j hj ↦ ?_⟩, hround.2⟩
    · rw [List.map_append]
      exact hround.1 a w' hok
    · have hne : j ≠ k := fun heq ↦ hnodup.2.1.1 (heq ▸ hj)
      exact ((evolveField_keeps_builder (hosts k) hne).eq_of_ok hok).trans
        (hbuilders j (List.mem_cons_of_mem k hj))

/-! ## The three ways -/

theorem Tidy.agree (laws : Rl.EnactsHeads ∧ Rl.KeepsHeads) {hosts : κ → RoundHosts T}
    (hL : ∀ k, (hosts k).All (Hosts.Lawful Rl P)) {w₀ : Companion T} (hw₀ : Consistent d w₀)
    (h : Tidy P d u u) (hpending : Pending Rl u.relay)
    (hids : ∀ k ∈ d.fields, (u.collators k).id = d.ids k)
    (hregs : ∀ k ∈ d.fields, (d.ids k, k) ∈ u.relay.parachains) : Agree Rl P d hosts u := by
  have hstart : Writing Rl P d u u :=
    ⟨h, hpending, fun k s hs id head hhead ↦ Or.inl ⟨k, s, hs, hhead⟩⟩
  have htracks := evolve_tracks laws hL hids u ⟨rfl, hstart⟩
  have hend : Writing Rl P d u (evolve Rl P d hosts u).2 := by
    rcases Triple.final (evolve_tracks laws hL hids) ⟨rfl, hstart⟩ with ⟨-, hw, -⟩ | hw
    · exact hw
    · exact hw
  constructor
  case dispatched => exact fun k hk ↦ hw₀.fieldFor hk
  case judged => exact fun k hk ↦ h.judges hk (hregs k hk)
  case sources => exact fun id head hhead ↦ hend.heads.head hhead
  case written =>
    intro hok k hk
    obtain ⟨⟨⟩, hok⟩ := Outcome.isOk_iff.mp hok
    obtain ⟨-, htraced⟩ := htracks.1 () _ (Prod.ext hok rfl)
    obtain ⟨head, hhead, j, ⟨hj, hid⟩, hf⟩ := (htraced (d.ids k)).resolve_left fun hnot ↦
      hnot.1 (List.mem_map_of_mem hk)
    obtain rfl := hw₀.distinct j hj k hk hid
    exact ⟨head, hhead, hf⟩
  case kept =>
    intro hok id hid
    obtain ⟨⟨⟩, hok⟩ := Outcome.isOk_iff.mp hok
    obtain ⟨-, htraced⟩ := htracks.1 () _ (Prod.ext hok rfl)
    rcases htraced id with ⟨-, hsame⟩ | ⟨_, _, j, ⟨hj, hid'⟩, _⟩
    · exact hsame
    · exact absurd hid' (hid j hj)

/-- **When the three ways agree.** If `new` is called with names that fit together, then whatever is
done with the companion afterwards and wherever it fails, the next `evolve` finds them in
agreement. -/
theorem ids_agree (henacts : Rl.EnactsHeads) (hkeeps : Rl.KeepsHeads)
    {onboarding : κ → OnboardHosts T} {build importing : Hosts T}
    (hL : ∀ k, (onboarding k).All (Hosts.Lawful Rl P)) (hbuild : build.Lawful Rl P)
    (himporting : importing.Lawful Rl P) {w₀ w : Companion T} (hw₀ : Consistent d w₀)
    (hpending : Pending Rl w₀.relay)
    (hnew : new Rl P d onboarding build importing w₀ = (.ok (), w)) (ops : List (CompanionOp T A))
    (hops : ∀ op ∈ ops, op.All (Hosts.Lawful Rl P)) {hosts : κ → RoundHosts T}
    (hround : ∀ k, (hosts k).All (Hosts.Lawful Rl P)) :
    Agree Rl P d hosts (run (companionStep Rl P d) ops w) := by
  obtain ⟨htidy, hregs, hids⟩ := new_tidy himporting.paras hw₀ hnew
  have hpending' : Pending Rl w.relay := by
    have hend := (new_follows (A := A) (d := d) hL hbuild himporting).pending w₀ hpending
    rwa [hnew] at hend
  have hrun : Tidy P d w (run (companionStep Rl P d) ops w) ∧
      Pending Rl (run (companionStep Rl P d) ops w).relay :=
    run_invariant (I := fun v ↦ Tidy P d w v ∧ Pending Rl v.relay)
      (fun op v hop hv ↦
        ⟨companionStep_tidy op hop v hv.1, (companionStep_follows op hop).pending v hv.2⟩)
      ops (along_of_forall fun op hop _ ↦ hops op hop) ⟨htidy, hpending'⟩
  refine hrun.1.refl.agree ⟨henacts, hkeeps⟩ hround hw₀ hrun.2 (fun k hk ↦ ?_) fun k hk ↦ ?_
  · rw [hrun.1.ids k, hids k, hw₀.builders k hk]
  · rw [hrun.1.parachains, hregs]
    exact List.mem_append_right _ (List.mem_map_of_mem hk)

def mutateFirst : List (CompanionOp (fun _ : Fin 2 ↦ ℕ) Unit) :=
  [.withMutState (.reference (Fin 2)) (.para 1) ⟨fun s ↦ ((), s), fun _ s ↦ ((), s + 10)⟩]

/-- Two fields with the ids 1 and 2, whose builders were both made with the id 1. After the first
parachain was mutated, `evolve` leaves the head of the second one under the id 1. -/
theorem ids_disagree :
    newReference twoFields (fields fun _ ↦ 1) = (.ok (), reference twoFields fun _ ↦ 1) ∧
      ¬ Agree .reference (fun _ ↦ counter) twoFields (fun _ ↦ .reference (Fin 2))
        (run (companionStep .reference (fun _ ↦ counter) twoFields) mutateFirst
          (reference twoFields fun _ ↦ 1)) := by
  refine ⟨new_reference (by decide +kernel), fun hagree ↦ ?_⟩
  obtain ⟨head, hhead, hfirst⟩ := hagree.written (by decide +kernel) 0 (by decide)
  have hsecond : some head = ((reference twoFields fun _ ↦ 1).collators 1).bestHead counter :=
    hhead.symm.trans (by decide +kernel)
  obtain rfl : head = [0, 0, 0, 0, 0] := Option.some.inj (hsecond.trans (by decide +kernel))
  rcases hfirst with hbest | hoffered
  · exact absurd hbest (by decide +kernel)
  · exact absurd hoffered (by decide +kernel)

theorem ids_agree_mutateSecond :
    Agree .reference (fun _ ↦ counter) twoFields (fun _ ↦ .reference (Fin 2))
      (run (companionStep .reference (fun _ ↦ counter) twoFields) mutateSecond
        (reference twoFields fun k ↦ k + 1)) := by
  have hL : (Hosts.reference (Fin 2)).Lawful RelayPrimitives.reference fun _ ↦ counter :=
    Hosts.reference_reporting.toLawful
  have hconsistent : Consistent twoFields (fields fun k : Fin 2 ↦ (k : ℕ) + 1) :=
    ⟨by decide, fun _ _ ↦ rfl, fun _ hq ↦ absurd hq List.not_mem_nil,
      fun _ hq ↦ absurd hq List.not_mem_nil⟩
  refine ids_agree RelayPrimitives.reference_enactsHeads RelayPrimitives.reference_keepsHeads
    (fun _ ↦ ⟨hL, hL, hL⟩) hL hL hconsistent ?_ (new_reference (by decide +kernel)) mutateSecond ?_
    fun _ ↦ RoundHosts.reference_all hL
  · exact ⟨Chain.hashed_genesis _ _, fun _ hb ↦ by cases hb⟩
  · intro op hop
    simp only [mutateSecond, List.mem_cons, List.not_mem_nil, or_false] at hop
    rcases hop with rfl | rfl
    · exact hL
    · exact fun _ ↦ RoundHosts.reference_all hL

end Companion

end Fudge
