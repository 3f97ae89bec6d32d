namespace Cjson

/-- A computation that can fail, on a state that a failure leaves as it was when it struck. -/
abbrev Action (ε τ : Type) := ExceptT ε (StateM τ)

namespace Action

variable {ε τ α β : Type}

@[simp] theorem pure_apply (a : α) (t : τ) : (pure a : Action ε τ α) t = (.ok a, t) := rfl

@[simp] theorem throw_apply (e : ε) (t : τ) : (throw e : Action ε τ α) t = (.error e, t) := rfl

@[simp] theorem get_apply (t : τ) : (get : Action ε τ τ) t = (.ok t, t) := rfl

@[simp] theorem set_apply (t t' : τ) : (set t' : Action ε τ PUnit) t = (.ok ⟨⟩, t') := rfl

/-- A failure ends the computation in the state where it struck. -/
theorem bind_apply (x : Action ε τ α) (f : α → Action ε τ β) (t : τ) :
    (x >>= f) t =
      match x t with
      | (.ok a, t') => f a t'
      | (.error e, t') => (.error e, t') := by
  simp only [bind, ExceptT.bind, ExceptT.mk, StateT.bind]
  rcases x t with ⟨e | a, t'⟩ <;> rfl

theorem map_apply (f : α → β) (x : Action ε τ α) (t : τ) :
    (f <$> x) t =
      match x t with
      | (.ok a, t') => (.ok (f a), t')
      | (.error e, t') => (.error e, t') := by
  simp only [Functor.map, ExceptT.map, ExceptT.mk, bind, StateT.bind]
  rcases x t with ⟨e | a, t'⟩ <;> rfl

end Action

/-- What follows a step of a loop: another one, or the result. -/
inductive Turn (β γ : Type) where
  | again (b : β)
  | done (c : γ)

namespace Action

variable {ε τ β γ χ : Type}

/-- Takes steps until one is the last. There is room for one step, and for another one for
each element of `room`. -/
def loop (stuck : ε) (step : β → Action ε τ (Turn β γ)) : (room : List χ) → β → Action ε τ γ
  | [], b => do
    match ← step b with
    | .again _ => throw stuck
    | .done c => pure c
  | _ :: room, b => do
    match ← step b with
    | .again next => loop stuck step room next
    | .done c => pure c

/-- Takes steps until one is the last. Every step but the last makes `content` shorter, so
there is always room for another one; were there none, the loop would fail with `stuck`. -/
def untilDone (content : τ → List χ) (stuck : ε) (step : β → Action ε τ (Turn β γ)) (b : β) :
    Action ε τ γ :=
  fun t => loop stuck step (content t) b t

theorem loop_nil (stuck : ε) (step : β → Action ε τ (Turn β γ)) (b : β) (t : τ) :
    loop stuck step ([] : List χ) b t =
      match step b t with
      | (.ok (.again _), t') => (.error stuck, t')
      | (.ok (.done c), t') => (.ok c, t')
      | (.error e, t') => (.error e, t') := by
  rw [loop, bind_apply]
  rcases step b t with ⟨e | (next | c), t'⟩ <;> rfl

theorem loop_cons (stuck : ε) (step : β → Action ε τ (Turn β γ)) (x : χ) (room : List χ)
    (b : β) (t : τ) :
    loop stuck step (x :: room) b t =
      match step b t with
      | (.ok (.again next), t') => loop stuck step room next t'
      | (.ok (.done c), t') => (.ok c, t')
      | (.error e, t') => (.error e, t') := by
  rw [loop, bind_apply]
  rcases step b t with ⟨e | (next | c), t'⟩ <;> rfl

/-- A step that asks for another one has made the content shorter. -/
def Shortens (content : τ → List χ) (step : β → Action ε τ (Turn β γ)) : Prop :=
  ∀ b t next t', step b t = (.ok (.again next), t') →
    (content t').length < (content t).length

/-- Room beyond the length of the content changes nothing. -/
theorem loop_eq_of_le {content : τ → List χ} {stuck : ε} {step : β → Action ε τ (Turn β γ)}
    (shortens : Shortens content step) {room room' : List χ} {b : β} {t : τ}
    (h : (content t).length ≤ room.length) (h' : (content t).length ≤ room'.length) :
    loop stuck step room b t = loop stuck step room' b t := by
  induction room generalizing room' b t with
  | nil =>
    cases room' with
    | nil => rfl
    | cons y ys =>
      rw [loop_nil, loop_cons]
      rcases hs : step b t with ⟨e | (next | c), t'⟩
      · rfl
      · have := shortens b t next t' hs
        simp only [List.length_nil] at h
        omega
      · rfl
  | cons x xs ih =>
    rw [loop_cons]
    cases room' with
    | nil =>
      rw [loop_nil]
      rcases hs : step b t with ⟨e | (next | c), t'⟩
      · rfl
      · have := shortens b t next t' hs
        simp only [List.length_nil] at h'
        omega
      · rfl
    | cons y ys =>
      rw [loop_cons]
      rcases hs : step b t with ⟨e | (next | c), t'⟩
      · rfl
      · have := shortens b t next t' hs
        simp only [List.length_cons] at h h'
        exact ih (by omega) (by omega)
      · rfl

/-- The loop unfolds by one step. -/
theorem untilDone_eq {content : τ → List χ} {stuck : ε} {step : β → Action ε τ (Turn β γ)}
    (shortens : Shortens content step) (b : β) (t : τ) :
    untilDone content stuck step b t =
      match step b t with
      | (.ok (.again next), t') => untilDone content stuck step next t'
      | (.ok (.done c), t') => (.ok c, t')
      | (.error e, t') => (.error e, t') := by
  unfold untilDone
  cases hc : content t with
  | nil =>
    rw [loop_nil]
    rcases hs : step b t with ⟨e | (next | c), t'⟩
    · rfl
    · have := shortens b t next t' hs
      simp [hc] at this
    · rfl
  | cons x xs =>
    rw [loop_cons]
    rcases hs : step b t with ⟨e | (next | c), t'⟩
    · rfl
    · have := shortens b t next t' hs
      simp only [hc, List.length_cons] at this
      exact loop_eq_of_le shortens (by omega) (Nat.le_refl _)
    · rfl

end Action
end Cjson
