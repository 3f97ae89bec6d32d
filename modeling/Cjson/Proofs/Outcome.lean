import Cjson.Action

namespace Cjson.Action

variable {ε τ α β γ χ : Type}

/-- The computation succeeds, and what it gives and where it ends are as `Q` says. -/
def Ends (x : Action ε τ α) (t : τ) (Q : α → τ → Prop) : Prop :=
  ∃ a t', x t = (.ok a, t') ∧ Q a t'

theorem bind_ok {x : Action ε τ α} {f : α → Action ε τ β} {t t' : τ} {a : α}
    (h : x t = (.ok a, t')) : (x >>= f) t = f a t' := by
  rw [bind_apply, h]

theorem bind_error {x : Action ε τ α} {f : α → Action ε τ β} {t t' : τ} {e : ε}
    (h : x t = (.error e, t')) : (x >>= f) t = (.error e, t') := by
  rw [bind_apply, h]

theorem bind_eq_ok {x : Action ε τ α} {f : α → Action ε τ β} {t t' : τ} {b : β} :
    (x >>= f) t = (.ok b, t') ↔ ∃ a t₁, x t = (.ok a, t₁) ∧ f a t₁ = (.ok b, t') := by
  rw [bind_apply]
  constructor
  · intro h
    rcases hx : x t with ⟨e | a, t₁⟩
    · rw [hx] at h
      cases h
    · exact ⟨a, t₁, rfl, by simpa only [hx] using h⟩
  · intro h
    obtain ⟨a, t₁, hx, hf⟩ := h
    rw [hx]
    exact hf

theorem pure_eq_ok {a b : α} {t t' : τ} :
    (pure a : Action ε τ α) t = (.ok b, t') ↔ a = b ∧ t = t' := by
  rw [pure_apply, Prod.mk.injEq, Except.ok.injEq]

theorem throw_ne_ok {e : ε} {t t' : τ} {a : α} :
    (throw e : Action ε τ α) t ≠ (.ok a, t') := by
  rw [throw_apply]
  intro h
  cases h

theorem map_eq_ok {f : α → β} {x : Action ε τ α} {t t' : τ} {b : β} :
    (f <$> x) t = (.ok b, t') ↔ ∃ a, x t = (.ok a, t') ∧ f a = b := by
  rw [map_apply]
  rcases x t with ⟨e | a, t₁⟩
  · constructor
    · intro h
      cases h
    · intro h
      obtain ⟨a, h, -⟩ := h
      cases h
  · constructor
    · intro h
      cases h
      exact ⟨a, rfl, rfl⟩
    · intro h
      obtain ⟨b, h, rfl⟩ := h
      cases h
      rfl

theorem of_map_error {f : α → β} {x : Action ε τ α} {t t' : τ} {e : ε}
    (h : (f <$> x) t = (.error e, t')) : x t = (.error e, t') := by
  rw [map_apply] at h
  rcases hx : x t with ⟨e' | a, t₁⟩
  · rw [hx] at h
    cases h
    rfl
  · rw [hx] at h
    cases h

theorem map_congr {x y : Action ε τ α} {t t' : τ} (f : α → β) (h : x t = y t') :
    (f <$> x) t = (f <$> y) t' := by
  rw [map_apply, map_apply, h]

theorem discard_ok {x : Action ε τ α} {t t' : τ} {a : α} (h : x t = (.ok a, t')) :
    (discard x : Action ε τ PUnit) t = (.ok ⟨⟩, t') := by
  change (Function.const α PUnit.unit <$> x) t = _
  rw [map_apply, h]

theorem Ends.mono {x : Action ε τ α} {t : τ} {Q R : α → τ → Prop} (h : Ends x t Q)
    (hQ : ∀ a t', Q a t' → R a t') : Ends x t R := by
  obtain ⟨a, t', hx, ha⟩ := h
  exact ⟨a, t', hx, hQ a t' ha⟩

theorem Ends.bind {x : Action ε τ α} {f : α → Action ε τ β} {t : τ} {Q : α → τ → Prop}
    {R : β → τ → Prop} (h : Ends x t Q) (hf : ∀ a t', Q a t' → Ends (f a) t' R) :
    Ends (x >>= f) t R := by
  obtain ⟨a, t', hx, ha⟩ := h
  obtain ⟨b, t'', hb, hR⟩ := hf a t' ha
  exact ⟨b, t'', by rw [bind_ok hx, hb], hR⟩

theorem Ends.of_ok {x : Action ε τ α} {t t' : τ} {a : α} {Q : α → τ → Prop}
    (hx : x t = (.ok a, t')) (ha : Q a t') : Ends x t Q :=
  ⟨a, t', hx, ha⟩

section Loops

variable {stuck : ε} {step : β → Action ε τ (Turn β γ)} {b : β} {t t' : τ}

theorem loop_of_done {c : γ} (h : step b t = (.ok (.done c), t')) (room : List χ) :
    loop stuck step room b t = (.ok c, t') := by
  cases room with
  | nil => rw [loop_nil, h]
  | cons x room => rw [loop_cons, h]

theorem loop_of_error {e : ε} (h : step b t = (.error e, t')) (room : List χ) :
    loop stuck step room b t = (.error e, t') := by
  cases room with
  | nil => rw [loop_nil, h]
  | cons x room => rw [loop_cons, h]

theorem loop_of_again {b' : β} (h : step b t = (.ok (.again b'), t')) (x : χ)
    (room : List χ) : loop stuck step (x :: room) b t = loop stuck step room b' t' := by
  rw [loop_cons, h]

end Loops

/-- The steps of a loop up to its result, each of which but the last makes the content
shorter. -/
inductive Finishes (content : τ → List χ) (step : β → Action ε τ (Turn β γ)) :
    β → τ → γ → τ → Prop
  | done {b : β} {t t' : τ} {c : γ} (last : step b t = (.ok (.done c), t')) :
      Finishes content step b t c t'
  | again {b b' : β} {t t₁ t' : τ} {c : γ} (first : step b t = (.ok (.again b'), t₁))
      (shorter : (content t₁).length < (content t).length)
      (rest : Finishes content step b' t₁ c t') : Finishes content step b t c t'

/-- Room for the content is room enough. -/
theorem Finishes.loop {content : τ → List χ} {stuck : ε}
    {step : β → Action ε τ (Turn β γ)} {b : β} {t t' : τ} {c : γ}
    (h : Finishes content step b t c t') (room : List χ)
    (hroom : (content t).length ≤ room.length) :
    Action.loop stuck step room b t = (.ok c, t') := by
  induction h generalizing room with
  | done last =>
    cases room with
    | nil => rw [loop_nil, last]
    | cons x room => rw [loop_cons, last]
  | again first shorter rest ih =>
    cases room with
    | nil =>
      simp only [List.length_nil] at hroom
      omega
    | cons x room =>
      simp only [List.length_cons] at hroom
      rw [loop_cons, first]
      exact ih room (by omega)

theorem Finishes.untilDone {content : τ → List χ} {stuck : ε}
    {step : β → Action ε τ (Turn β γ)} {b : β} {t t' : τ} {c : γ}
    (h : Finishes content step b t c t') :
    Action.untilDone content stuck step b t = (.ok c, t') :=
  h.loop (content t) (Nat.le_refl _)

/-- What the last step gives, and the other steps keep, holds of a loop that succeeds. -/
theorem untilDone_induction {content : τ → List χ} {stuck : ε}
    {step : β → Action ε τ (Turn β γ)} {motive : β → τ → γ → τ → Prop}
    (done : ∀ b t c t', step b t = (.ok (.done c), t') → motive b t c t')
    (again : ∀ b t b' t₁ c t', step b t = (.ok (.again b'), t₁) → motive b' t₁ c t' →
      motive b t c t') {b : β} {t t' : τ} {c : γ}
    (h : untilDone content stuck step b t = (.ok c, t')) : motive b t c t' := by
  have loops : ∀ (room : List χ) (b : β) (t : τ),
      loop stuck step room b t = (.ok c, t') → motive b t c t' := by
    intro room
    induction room with
    | nil =>
      intro b t h
      rw [loop_nil] at h
      rcases hs : step b t with ⟨e | (b' | c'), t₁⟩
      · rw [hs] at h
        cases h
      · rw [hs] at h
        cases h
      · rw [hs] at h
        cases h
        exact done _ _ _ _ hs
    | cons x room ih =>
      intro b t h
      rw [loop_cons] at h
      rcases hs : step b t with ⟨e | (b' | c'), t₁⟩
      · rw [hs] at h
        cases h
      · rw [hs] at h
        exact again _ _ _ _ _ _ hs (ih _ _ h)
      · rw [hs] at h
        cases h
        exact done _ _ _ _ hs
  exact loops (content t) b t h

end Cjson.Action
