import Fudge.Call.Views

/-!
# Components that nobody reads

`put g s` is the state `s` with `g` as one of its components. A call is blind to the component if it
neither reads nor writes it: made with another value in it, the call returns the same and leaves the
same, but for that value. Seen with the component fixed, a blind call depends on nothing else.

If all calls of an object depend on a view alone, except for some that return and do not change the
view, then these may be left out of every run, or put into it anywhere.
-/

namespace Fudge

namespace Call

variable {σ τ ε δ ω α β γ : Type} {put : γ → σ → σ}

/-- The call neither reads the component nor writes it. -/
def Blind (put : γ → σ → σ) (c : Call σ ε α) : Prop :=
  ∀ g s, c (put g s) = ((c s).1, put g (c s).2)

namespace Blind

variable {c : Call σ ε α}

protected theorem pure (a : α) : Blind put (pure a : Call σ ε α) := fun _ _ ↦ rfl

protected theorem fail (e : ε) : Blind put (fail e : Call σ ε α) := fun _ _ ↦ rfl

protected theorem returned (o : Outcome ε α) : Blind put (returned o : Call σ ε α) :=
  fun _ _ ↦ rfl

protected theorem read {f : σ → β} (h : ∀ g s, f (put g s) = f s) :
    Blind put (read f : Call σ ε β) := fun g s ↦ by rw [read_apply, read_apply, h]

protected theorem modify {f : σ → σ} (h : ∀ g s, f (put g s) = put g (f s)) :
    Blind put (modify f : Call σ ε Unit) := fun g s ↦ by rw [modify_apply, modify_apply, h]

protected theorem assert {p : σ → Bool} (h : ∀ g s, p (put g s) = p s) :
    Blind put (assert p : Call σ ε Unit) := by
  intro g s
  rw [assert, assert, h]
  cases p s with
  | true => rfl
  | false => rfl

protected theorem query {q : σ → Except δ α} (mk : δ → ε) (h : ∀ g s, q (put g s) = q s) :
    Blind put (query q mk) := by
  intro g s
  rw [query, query, h]
  cases q s with
  | ok a => rfl
  | error e => rfl

protected theorem require (e : ε) (o : Option α) : Blind put (require e o : Call σ ε α) := by
  cases o with
  | none => exact Blind.fail e
  | some a => exact Blind.pure a

protected theorem mapErr {f : ε → δ} (h : Blind put c) : Blind put (mapErr f c) := by
  intro g s
  rw [mapErr, mapErr, h]
  rcases c s with ⟨_ | _ | _, t⟩ <;> rfl

protected theorem bind {f : α → Call σ ε β} (hc : Blind put c) (hf : ∀ a, Blind put (f a)) :
    Blind put (c >>= f) := by
  intro g s
  rcases hs : c s with ⟨a | e | _, t⟩
  · have hput : c (put g s) = (.ok a, put g t) := by rw [hc, hs]
    rw [bind_of_ok hs, bind_of_ok hput, hf]
  · have hput : c (put g s) = (.err e, put g t) := by rw [hc, hs]
    rw [bind_of_err hs, bind_of_err hput]
  · have hput : c (put g s) = (.panic, put g t) := by rw [hc, hs]
    rw [bind_of_panic hs, bind_of_panic hput]

protected theorem map {f : α → β} (h : Blind put c) : Blind put (map f c) := by
  intro g s
  rw [map, map, h]

protected theorem forEach {f : β → Call σ ε α} (h : ∀ b, Blind put (f b)) (l : List β) :
    Blind put (forEach f l) := by
  induction l with
  | nil => exact Blind.pure ()
  | cons b l ih => exact Blind.bind (h b) fun _ ↦ ih

protected theorem zoom {get : τ → σ} {set : σ → τ → τ} {put' : γ → τ → τ} (hc : Blind put c)
    (hget : ∀ g t, get (put' g t) = put g (get t))
    (hset : ∀ g s t, set (put g s) (put' g t) = put' g (set s t)) :
    Blind put' (zoom get set c) := by
  intro g t
  rw [zoom, zoom, hget, hc, hset]

protected theorem reads (h : Blind put c) (g : γ) : Reads (put g) c := by
  intro s t hst
  have hcalls : c (put g s) = c (put g t) := congrArg c hst
  rw [h, h] at hcalls
  exact Prod.mk.inj hcalls

end Blind

/-! ## Runs -/

section Unseen

variable {step : ω → Call σ ε α} {seen : ω → Bool} {J : ω → Prop} {f : σ → γ}

/-- Seen through `f`, the two runs leave the same, and the calls that are seen return the same. -/
def SameSeen (f : σ → γ) (step : ω → Call σ ε α) (seen : ω → Bool) (ops : List ω) (s : σ)
    (ops' : List ω) (s' : σ) : Prop :=
  f (run step ops s) = f (run step ops' s') ∧
    (trace step ops s).filter (seen ·.1) = (trace step ops' s').filter (seen ·.1)

def Unseen (f : σ → γ) (c : Call σ ε α) : Prop :=
  ∀ s, (c s).1.isOk = true ∧ f (c s).2 = f s

/-- **Where and how often an unseen call is made makes no difference.** -/
theorem sameSeen_of_filter (hread : ∀ op, J op → seen op = true → Reads f (step op))
    (hunseen : ∀ op, seen op = false → Unseen f (step op)) {ops ops' : List ω}
    (hok : ∀ op ∈ ops, J op) (hok' : ∀ op ∈ ops', J op)
    (hops : ops.filter seen = ops'.filter seen) {s s' : σ} (hs : f s = f s') :
    SameSeen f step seen ops s ops' s' := by
  have hleft : ∀ op, J op → seen op = false →
      ∀ s, True → (step op s).1.isPanic = false ∧ f (step op s).2 = f s := by
    intro op _ hop s _
    obtain ⟨hreturns, hsame⟩ := hunseen op hop s
    exact ⟨Outcome.isPanic_of_isOk hreturns, hsame⟩
  obtain ⟨hrun, htrace⟩ := run_seen (I := fun _ ↦ True) (fun _ _ _ _ ↦ trivial) hread hleft ops hok
    trivial trivial hs
  obtain ⟨hrun', htrace'⟩ := run_seen (I := fun _ ↦ True) (fun _ _ _ _ ↦ trivial) hread hleft ops'
    hok' trivial trivial (rfl : f s' = f s')
  rw [SameSeen, hrun, hrun', htrace, htrace', hops]
  exact ⟨rfl, rfl⟩

end Unseen

end Call

end Fudge
