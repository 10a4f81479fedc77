import Mathlib.Data.List.Forall2

/-!
# Computations that may fail

What `Call` is to objects, `Except` and `Option` are to computations without a state. As there, the
lemmas say what a computation that returned is made of, and a proof never unfolds the monad. A list
is mapped by such a computation if each of its elements is.
-/

namespace Fudge

namespace Fallible

variable {ε α β : Type}

/-! ## Sequences -/

section Sequence

variable {x : Except ε α} {f : α → Except ε β}

theorem bind_eq_ok {b : β} : (x >>= f) = .ok b ↔ ∃ a, x = .ok a ∧ f a = .ok b := by
  rcases x with e | a
  · constructor
    · intro h
      cases h
    · rintro ⟨a, ha, -⟩
      cases ha
  · constructor
    · exact fun h ↦ ⟨a, rfl, h⟩
    · rintro ⟨a', ha, h⟩
      cases ha
      exact h

theorem bind_eq_error {e : ε} :
    (x >>= f) = .error e ↔ x = .error e ∨ ∃ a, x = .ok a ∧ f a = .error e := by
  rcases x with e' | a
  · constructor
    · intro h
      cases h
      exact Or.inl rfl
    · rintro (h | ⟨a, ha, -⟩)
      · cases h
        rfl
      · cases ha
  · constructor
    · exact fun h ↦ Or.inr ⟨a, rfl, h⟩
    · rintro (h | ⟨a', ha, h⟩)
      · cases h
      · cases ha
        exact h

end Sequence

/-! ## Lists -/

theorem exists_forall₂ {R : α → β → Prop} {l : List α} :
    (∃ m, List.Forall₂ R l m) ↔ ∀ a ∈ l, ∃ b, R a b := by
  induction l with
  | nil => simp
  | cons a l ih => simp [List.forall₂_cons_left_iff, ← ih]

theorem mapM_eq_some {f : α → Option β} {l : List α} {m : List β} :
    l.mapM f = some m ↔ l.map f = m.map some := by
  induction l generalizing m with
  | nil =>
    rw [List.mapM_nil, List.map_nil]
    constructor
    · intro h
      cases h
      rfl
    · intro h
      rw [List.map_eq_nil_iff.mp h.symm]
      rfl
  | cons a l ih =>
    rw [List.mapM_cons, Option.bind_eq_bind, Option.bind_eq_some_iff]
    constructor
    · rintro ⟨b, hb, h⟩
      obtain ⟨m', hm', h⟩ := Option.bind_eq_some_iff.mp h
      cases h
      rw [List.map_cons, List.map_cons, hb, ih.mp hm']
    · intro h
      rcases m with _ | ⟨b, m⟩
      · cases h
      · obtain ⟨hb, hm⟩ := List.cons.inj h
        exact ⟨b, hb, Option.bind_eq_some_iff.mpr ⟨m, ih.mpr hm, rfl⟩⟩

theorem exists_mapM {f : α → Option β} {l : List α} (h : ∀ a ∈ l, (f a).isSome) :
    ∃ m, l.mapM f = some m := by
  induction l with
  | nil => exact ⟨[], rfl⟩
  | cons a l ih =>
    obtain ⟨ha, hl⟩ := List.forall_mem_cons.mp h
    obtain ⟨b, hb⟩ := Option.isSome_iff_exists.mp ha
    obtain ⟨m, hm⟩ := ih hl
    refine ⟨b :: m, mapM_eq_some.mpr ?_⟩
    rw [List.map_cons, List.map_cons, hb, mapM_eq_some.mp hm]

/-- Where every element is taken or left as a property says, the taken ones are those with the
property, in their order. -/
theorem map_filterMap {γ : Type} {R : α → β → Prop} {g : β → Option γ} {p : α → Bool}
    {f : α → Option γ}
    (h : ∀ a b, R a b → if p a then ∃ c, g b = some c ∧ f a = some c else g b = none)
    {l : List α} {m : List β} (hlm : List.Forall₂ R l m) :
    (m.filterMap g).map some = (l.filter p).map f := by
  induction hlm with
  | nil => rfl
  | @cons a b l m hab _ ih =>
    have ha := h a b hab
    split_ifs at ha with hp
    · obtain ⟨c, hg, hf⟩ := ha
      rw [List.filterMap_cons_some hg, List.filter_cons_of_pos hp, List.map_cons, List.map_cons, ih,
        hf]
    · rw [List.filterMap_cons_none ha, List.filter_cons_of_neg hp, ih]

theorem forM_eq_ok {f : α → Except ε Unit} {l : List α} :
    l.forM f = .ok () ↔ ∀ a ∈ l, f a = .ok () := by
  induction l with
  | nil => exact ⟨fun _ a ha ↦ absurd ha List.not_mem_nil, fun _ ↦ rfl⟩
  | cons a l ih =>
    have hcons : (a :: l).forM f = (f a >>= fun _ ↦ l.forM f) := rfl
    rw [hcons, bind_eq_ok, List.forall_mem_cons]
    constructor
    · rintro ⟨⟨⟩, ha, hl⟩
      exact ⟨ha, ih.mp hl⟩
    · rintro ⟨ha, hl⟩
      exact ⟨(), ha, ih.mpr hl⟩

theorem forM_eq_error {f : α → Except ε Unit} {l : List α} {e : ε} :
    l.forM f = .error e ↔ ∃ before a after, l = before ++ a :: after ∧
      (∀ b ∈ before, f b = .ok ()) ∧ f a = .error e := by
  induction l with
  | nil =>
    constructor
    · intro h
      cases h
    · rintro ⟨before, a, after, h, -⟩
      cases before <;> cases h
  | cons a l ih =>
    have hcons : (a :: l).forM f = (f a >>= fun _ ↦ l.forM f) := rfl
    rw [hcons, bind_eq_error]
    constructor
    · rintro (ha | ⟨⟨⟩, ha, hl⟩)
      · exact ⟨[], a, l, rfl, fun b hb ↦ absurd hb List.not_mem_nil, ha⟩
      · obtain ⟨before, b, after, rfl, hbefore, hb⟩ := ih.mp hl
        exact ⟨a :: before, b, after, rfl, List.forall_mem_cons.mpr ⟨ha, hbefore⟩, hb⟩
    · rintro ⟨before, b, after, hsplit, hbefore, hb⟩
      cases before with
      | nil =>
        cases hsplit
        exact Or.inl hb
      | cons b' before =>
        cases hsplit
        obtain ⟨ha, hl⟩ := List.forall_mem_cons.mp hbefore
        exact Or.inr ⟨(), ha, ih.mpr ⟨before, b, after, rfl, hl, hb⟩⟩

end Fallible

end Fudge
