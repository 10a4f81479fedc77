import Fudge.Call.Run

/-!
# Calls that keep a journal

A journal has an entry for everything that was recorded, the newest one first. A call that succeeds
may put entries on top of it and replace the newest one; a call that fails may have lost that one
instead. Calls of this kind can be made one after the other, and can be parts of other calls. A run
of which `k` calls fail then keeps all but the `k + 1` newest entries, and keeps them where they
are.
-/

namespace Fudge

namespace Call

variable {σ τ ε δ α β ω η : Type}

/-! ## Entries that survive -/

theorem suffix_drop {l l' : List η} (h : l <:+ l') (n : ℕ) : l.drop n <:+ l'.drop n := by
  obtain ⟨p, rfl⟩ := h
  rw [List.drop_append]
  exact List.suffix_append_of_suffix (List.drop_suffix_drop_left l (Nat.sub_le n p.length))

/-- `l'` came from the journal `l` by a call that succeeded, or by one that did not. -/
def Survives (ok : Bool) (l l' : List η) : Prop :=
  if ok then l.tail <:+ l'.tail else l.tail <:+ l'

theorem Survives.refl (ok : Bool) (l : List η) : Survives ok l l := by
  cases ok with
  | true => exact List.suffix_rfl
  | false => exact List.tail_suffix l

theorem Survives.of_ok {ok : Bool} {l l' : List η} (h : Survives true l l') :
    Survives ok l l' := by
  have h : l.tail <:+ l'.tail := h
  cases ok with
  | true => exact h
  | false => exact h.trans (List.tail_suffix l')

theorem Survives.trans {ok : Bool} {l m l' : List η} (h : Survives true l m)
    (h' : Survives ok m l') : Survives ok l l' := by
  have h : l.tail <:+ m.tail := h
  cases ok with
  | true => exact h.trans h'
  | false => exact h.trans h'

/-! ## The judgement -/

/-- Made in `s`, the call keeps every journal of `s`. -/
def Journals (J : σ → List η → Prop) (c : Call σ ε α) (s : σ) : Prop :=
  ∀ l, J s l → ∃ l', J (c s).2 l' ∧ Survives (c s).1.isOk l l'

namespace Journals

variable {J : σ → List η → Prop} {c : Call σ ε α} {s : σ}

theorem of_same (h : ∀ l, J s l → J (c s).2 l) : Journals J c s :=
  fun l hl ↦ ⟨l, h l hl, Survives.refl _ l⟩

theorem of_keeps {γ : Type} {f : σ → γ} (hf : ∀ s t l, f t = f s → J s l → J t l)
    (h : Keeps f c) : Journals J c s :=
  of_same fun l hl ↦ hf s _ l (h s) hl

protected theorem bind {g : α → Call σ ε β} (hc : Journals J c s)
    (hg : ∀ a t, c s = (.ok a, t) → Journals J (g a) t) : Journals J (c >>= g) s := by
  intro l hl
  obtain ⟨m, hm, hlm⟩ := hc l hl
  rcases bind_cases c g s with ⟨a, ha, h⟩ | ⟨hno, hstop, h⟩
  · rw [ha] at hlm
    obtain ⟨l', hl', hml⟩ := hg a _ ha m hm
    rw [h]
    exact ⟨l', hl', hlm.trans hml⟩
  · rw [h, hstop]
    rw [hno] at hlm
    exact ⟨m, hm, hlm⟩

protected theorem mapErr {g : ε → δ} (h : Journals J c s) : Journals J (mapErr g c) s := by
  intro l hl
  rw [mapErr_snd, mapErr_isOk]
  exact h l hl

protected theorem map {g : α → β} (h : Journals J c s) : Journals J (map g c) s := by
  intro l hl
  rw [map_isOk]
  exact h l hl

protected theorem zoom {get : τ → σ} {set : σ → τ → τ} {J' : τ → List η → Prop} {t : τ}
    (h : Journals J c (get t)) (hget : ∀ l, J' t l → J (get t) l)
    (hset : ∀ a l, J a l → J' (set a t) l) : Journals J' (zoom get set c) t := by
  intro l hl
  obtain ⟨l', hl', hs⟩ := h l (hget l hl)
  exact ⟨l', hset _ l' hl', hs⟩

protected theorem forEach {g : β → Call σ ε α} (h : ∀ b s, Journals J (g b) s) :
    ∀ (bs : List β) (s : σ), Journals J (forEach g bs) s := by
  intro bs
  induction bs with
  | nil => exact fun _ ↦ of_same fun _ hl ↦ hl
  | cons b bs ih => exact fun s ↦ Journals.bind (h b s) fun _ t _ ↦ ih t

end Journals

/-! ## Runs -/

variable {step : ω → Call σ ε α}

def failures (step : ω → Call σ ε α) : List ω → σ → ℕ
  | [], _ => 0
  | op :: ops, s =>
    (if (step op s).1.isOk then 0 else 1) +
      if (step op s).1.isPanic then 0 else failures step ops (step op s).2

/-- **A run keeps all but the newest entries of a journal**: one, and one more for every call that
does not succeed. -/
theorem run_journals {ok : ω → σ → Prop} {J : σ → List η → Prop}
    (h : ∀ op s, ok op s → Journals J (step op) s) : ∀ (ops : List ω) {s : σ} {l : List η},
      Along step ok ops s → J s l →
        ∃ l', J (run step ops s) l' ∧ l.drop (failures step ops s + 1) <:+ l'.tail := by
  intro ops
  induction ops with
  | nil =>
    intro s l _ hl
    have htail : l.drop (failures step [] s + 1) = l.tail := by
      rw [failures, Nat.zero_add, List.drop_one]
    exact ⟨l, hl, htail ▸ List.suffix_rfl⟩
  | cons op ops ih =>
    intro s l hal hl
    obtain ⟨m, hm, hlm⟩ := h op s hal.1 l hl
    -- what is left below the newest entry, and one more below it if the call fails
    have hleft : l.drop ((if (step op s).1.isOk then 0 else 1) + 1) <:+ m.tail := by
      cases hok : (step op s).1.isOk with
      | true =>
        rw [hok] at hlm
        rw [if_pos rfl, Nat.zero_add, List.drop_one]
        exact hlm
      | false =>
        rw [hok] at hlm
        have hone : l.tail.drop 1 <:+ m.drop 1 := suffix_drop hlm 1
        rw [← List.drop_one, List.drop_drop, List.drop_one (l := m)] at hone
        rw [if_neg Bool.false_ne_true]
        exact hone
    rw [run, failures]
    by_cases hp : (step op s).1.isPanic = true
    · rw [if_pos hp, if_pos hp, Nat.add_zero]
      exact ⟨m, hm, hleft⟩
    · rw [if_neg hp, if_neg hp]
      obtain ⟨l', hl', hml⟩ := ih (hal.2 (by simpa using hp)) hm
      refine ⟨l', hl', List.IsSuffix.trans ?_ hml⟩
      have hdeep := suffix_drop hleft (failures step ops (step op s).2)
      rw [List.drop_drop] at hdeep
      rw [← List.drop_one, List.drop_drop] at hdeep
      rw [Nat.add_right_comm, Nat.add_comm (failures step ops (step op s).2) 1]
      exact hdeep

end Call

end Fudge
