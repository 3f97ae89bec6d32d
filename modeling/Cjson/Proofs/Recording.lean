import Cjson.Proofs.Callback
import Cjson.Proofs.Evaluation

namespace Cjson

namespace Action

variable {ε τ τ' α β ρ : Type}

/-- From the image of `t`, `y` does what `x` does from `t`, and adds to the record on its
way. What they give, where they end and what is added are as `P` says. -/
def Records (image : τ → List ρ → τ') (x : Action ε τ α) (y : Action ε τ' α) (t : τ)
    (P : Except ε α → τ → List ρ → Prop) : Prop :=
  ∀ record, ∃ r t' l, x t = (r, t') ∧ y (image t record) = (r, image t' (record ++ l)) ∧
    P r t' l

section Records

variable {image : τ → List ρ → τ'} {x : Action ε τ α} {y : Action ε τ' α} {t : τ}
  {P : Except ε α → τ → List ρ → Prop}

theorem Records.mono {Q : Except ε α → τ → List ρ → Prop} (h : Records image x y t P)
    (hPQ : ∀ r t' l, x t = (r, t') → P r t' l → Q r t' l) : Records image x y t Q := by
  intro record
  obtain ⟨r, t', l, hx, hy, hP⟩ := h record
  exact ⟨r, t', l, hx, hy, hPQ r t' l hx hP⟩

theorem records_pure {a : α} (h : P (.ok a) t []) :
    Records image (pure a : Action ε τ α) (pure a) t P := by
  intro record
  refine ⟨.ok a, t, [], rfl, ?_, h⟩
  rw [List.append_nil]
  rfl

theorem records_throw {e : ε} (h : P (.error e) t []) :
    Records image (throw e : Action ε τ α) (throw e) t P := by
  intro record
  refine ⟨.error e, t, [], rfl, ?_, h⟩
  rw [List.append_nil]
  rfl

theorem Records.bind {f : α → Action ε τ β} {g : α → Action ε τ' β}
    {Q : Except ε β → τ → List ρ → Prop} (hx : Records image x y t P)
    (herror : ∀ e t' l, P (.error e) t' l → Q (.error e) t' l)
    (hf : ∀ a t₁ l₁, x t = (.ok a, t₁) → P (.ok a) t₁ l₁ →
      Records image (f a) (g a) t₁ fun r t' l => Q r t' (l₁ ++ l)) :
    Records image (x >>= f) (y >>= g) t Q := by
  intro record
  obtain ⟨r, t₁, l₁, hx, hy, hP⟩ := hx record
  cases r with
  | error e =>
    refine ⟨.error e, t₁, l₁, ?_, ?_, herror e t₁ l₁ hP⟩
    · rw [bind_apply, hx]
    · rw [bind_apply, hy]
  | ok a =>
    obtain ⟨r, t', l, hfa, hga, hQ⟩ := hf a t₁ l₁ hx hP (record ++ l₁)
    refine ⟨r, t', l₁ ++ l, ?_, ?_, hQ⟩
    · rw [bind_ok hx, hfa]
    · rw [bind_ok hy, hga, List.append_assoc]

theorem Records.map (h : Records image x y t P) (f : α → β) :
    Records image (f <$> x) (f <$> y) t fun r' t' l => ∃ r, P r t' l ∧ r' = r.map f := by
  intro record
  obtain ⟨r, t', l, hx, hy, hP⟩ := h record
  refine ⟨r.map f, t', l, ?_, ?_, r, hP, rfl⟩
  · rw [map_apply, hx]
    cases r <;> rfl
  · rw [map_apply, hy]
    cases r <;> rfl

/-- Two computations that are recorded alike are alike. -/
theorem Records.unique {x' : Action ε τ α} {P' : Except ε α → τ → List ρ → Prop}
    (himage : ∀ t t' record record', image t record = image t' record' → t = t')
    (h : Records image x y t P) (h' : Records image x' y t P') : x t = x' t := by
  obtain ⟨r, s, l, hx, hy, -⟩ := h []
  obtain ⟨r', s', l', hx', hy', -⟩ := h' []
  rw [hy, Prod.mk.injEq] at hy'
  obtain ⟨rfl, hs⟩ := hy'
  rw [hx, hx', himage _ _ _ _ hs]

end Records
end Action

/-- The session with a record of the environment's callbacks. -/
def Session.recorded {σ : Type} (s : Session σ) (record : List Callback) :
    Session (σ × List Callback) :=
  ⟨s.cursor, s.state, record⟩

namespace Eval

open Cjson.Action Cursor

variable {σ α β : Type}

/-- The evaluation is recorded. -/
abbrev Recorded (x : Eval σ α) (y : Eval (σ × List Callback) α) (s : Session σ)
    (P : Except EvaluationError α → Session σ → List Callback → Prop) : Prop :=
  Records Session.recorded x y s P

/-- What is built is recorded, but for the container under construction. -/
abbrev BuildRecorded (x : Build β σ α) (y : Build β (σ × List Callback) α)
    (t : β × Session σ) (P : Except EvaluationError α → β × Session σ → List Callback → Prop) :
    Prop :=
  Records (fun t record => (t.1, t.2.recorded record)) x y t P

theorem recorded_injective (s s' : Session σ) (record record' : List Callback)
    (h : s.recorded record = s'.recorded record') : s = s' := by
  obtain ⟨k, st⟩ := s
  obtain ⟨k', st'⟩ := s'
  simp only [Session.recorded, Session.mk.injEq, Prod.mk.injEq] at h
  obtain ⟨rfl, rfl, -⟩ := h
  rfl

variable {env : Environment σ} {source : Source} {s : Session σ}

theorem inside_recorded {x : Eval σ α} {y : Eval (σ × List Callback) α}
    {P : Except EvaluationError α → Session σ → List Callback → Prop}
    (h : Recorded x y s P) (b : β) :
    BuildRecorded (inside x) (inside y) (b, s) fun r t' l => t'.1 = b ∧ P r t'.2 l := by
  intro record
  obtain ⟨r, s', l, hx, hy, hP⟩ := h record
  refine ⟨r, (b, s'), l, ?_, ?_, rfl, hP⟩
  · simp only [inside, hx]
  · simp only [inside, hy]

theorem building_recorded {x : Build β σ α} {y : Build β (σ × List Callback) α} {b : β}
    {P : Except EvaluationError α → β × Session σ → List Callback → Prop}
    (h : BuildRecorded x y (b, s) P) :
    Recorded (building b x) (building b y) s fun r s' l =>
      ∃ r₁ b', P r₁ (b', s') l ∧ r = r₁.map fun a => (a, b') := by
  intro record
  obtain ⟨r, ⟨b', s'⟩, l, hx, hy, hP⟩ := h record
  refine ⟨r.map fun a => (a, b'), s', l, ?_, ?_, r, b', hP, rfl⟩
  · cases r with
    | error e => simp only [building, hx]; rfl
    | ok a => simp only [building, hx]; rfl
  · dsimp only at hy
    cases r with
    | error e => simp only [building, hy]; rfl
    | ok a => simp only [building, hy]; rfl

theorem edit_recorded (f : β → β) (b : β) :
    BuildRecorded (edit f) (edit f) (b, s) fun r t' l => r = .ok () ∧ t' = (f b, s) ∧ l = [] := by
  intro record
  refine ⟨.ok (), (f b, s), [], rfl, ?_, rfl, rfl, rfl⟩
  rw [List.append_nil]
  rfl

/-- An evaluation without callbacks changes the cursor alone, and where it succeeds it goes
forward. -/
structure Silent (s : Session σ) (r : Except EvaluationError α) (s' : Session σ)
    (l : List Callback) : Prop where
  state : s'.state = s.state
  silent : l = []
  forward : ∀ a, r = .ok a → s.cursor.Reaches s'.cursor

theorem Silent.refl (s : Session σ) (r : Except EvaluationError α) : Silent s r s [] :=
  ⟨rfl, rfl, fun _ _ => .refl _⟩

theorem scan_recorded {x : Scan α} (hx : ∀ a k, x s.cursor = (.ok a, k) → s.cursor.Reaches k) :
    Recorded (scan source x) (scan source x) s (Silent s) := by
  intro record
  rcases hr : x s.cursor with ⟨(⟨p, offset⟩ | message) | a, k⟩
  · refine ⟨.error (.located p ⟨source, offset⟩), ⟨k, s.state⟩, [], ?_, ?_, rfl, rfl, ?_⟩
    · simp only [scan, hr]
    · simp only [scan, Session.recorded, hr, List.append_nil]
    · intro a h
      cases h
  · refine ⟨.error (.internal message), ⟨k, s.state⟩, [], ?_, ?_, rfl, rfl, ?_⟩
    · simp only [scan, hr]
    · simp only [scan, Session.recorded, hr, List.append_nil]
    · intro a h
      cases h
  · refine ⟨.ok a, ⟨k, s.state⟩, [], ?_, ?_, rfl, rfl, ?_⟩
    · simp only [scan, hr]
    · simp only [scan, Session.recorded, hr, List.append_nil]
    · intro _ _
      exact hx a k hr

/-- Going behind the next character never fails. -/
theorem advance_bind_recorded {f : Unit → Eval σ α} {g : Unit → Eval (σ × List Callback) α}
    {P : Except EvaluationError α → Session σ → List Callback → Prop}
    (h : Recorded (f ()) (g ()) ⟨s.cursor.next, s.state⟩ P) :
    Recorded (scan source Scan.advance >>= f) (scan source Scan.advance >>= g) s P := by
  intro record
  obtain ⟨r, s', l, hf, hg, hP⟩ := h record
  refine ⟨r, s', l, ?_, ?_, hP⟩
  · rw [bind_ok (scan_ok (Scan.advance_apply s.cursor) s.state)]
    exact hf
  · rw [Session.recorded, bind_ok (scan_ok (Scan.advance_apply s.cursor) _)]
    exact hg

theorem position_recorded : Recorded position position s (Silent s) := by
  intro record
  refine ⟨.ok s.cursor.position, s, [], rfl, ?_, .refl s _⟩
  rw [List.append_nil]
  rfl

theorem silent_bind {x : Eval σ α} {y : Eval (σ × List Callback) α} {f : α → Eval σ β}
    {g : α → Eval (σ × List Callback) β} (hx : Recorded x y s (Silent s))
    (hf : ∀ a s₁, Recorded (f a) (g a) s₁ (Silent s₁)) :
    Recorded (x >>= f) (y >>= g) s (Silent s) := by
  apply hx.bind
  · intro e s' l h
    exact ⟨h.state, h.silent, fun _ hb => nomatch hb⟩
  · intro a s₁ l₁ _ h₁
    apply (hf a s₁).mono
    intro r s' l _ h
    refine ⟨h.state.trans h₁.state, ?_, ?_⟩
    · rw [h₁.silent, h.silent, List.append_nil]
    · intro b hb
      exact (h₁.forward a rfl).trans (h.forward b hb)

section Contract

variable (env source) (start : Cursor) (site : Site)

/-- The callbacks of an evaluation are nested, and where it succeeds it went forward. -/
structure Kept (s : Session σ) (r : Except EvaluationError α) (s' : Session σ)
    (l : List Callback) : Prop where
  nested : Nested env source start site s.state l s'.state
  forward : ∀ a, r = .ok a → s.cursor.Reaches s'.cursor

abbrev Logged (x : Eval σ α) (y : Eval (σ × List Callback) α) (s : Session σ) : Prop :=
  Recorded x y s (Kept env source start site s)

abbrev BuildLogged (x : Build β σ α) (y : Build β (σ × List Callback) α) (b : β)
    (s : Session σ) : Prop :=
  BuildRecorded x y (b, s) fun r t' l => Kept env source start site s r t'.2 l

end Contract

section Steps

variable {start : Cursor} {site : Site}

theorem Kept.refl (s : Session σ) (r : Except EvaluationError α) :
    Kept env source start site s r s [] :=
  ⟨.nil, fun _ _ => .refl _⟩

theorem Kept.trans {s₁ s' : Session σ} {a : α} {r : Except EvaluationError β}
    {l₁ l : List Callback} (h₁ : Kept env source start site s (.ok a) s₁ l₁)
    (h : Kept env source start site s₁ r s' l) :
    Kept env source start site s r s' (l₁ ++ l) :=
  ⟨.append h₁.nested h.nested, fun b hb => (h₁.forward a rfl).trans (h.forward b hb)⟩

/-- Nothing is asked of how far an evaluation came that failed. -/
theorem Kept.error {s' : Session σ} {r : Except EvaluationError α} {e : EvaluationError}
    {l : List Callback} (h : Kept env source start site s r s' l) :
    Kept env source start site s (.error e : Except EvaluationError β) s' l :=
  ⟨h.nested, fun _ hb => nomatch hb⟩

theorem Kept.map {s' : Session σ} {r : Except EvaluationError α} {l : List Callback}
    (h : Kept env source start site s r s' l) (f : α → β) :
    Kept env source start site s (r.map f) s' l := by
  cases r with
  | error e => exact h.error
  | ok a => exact ⟨h.nested, fun _ _ => h.forward a rfl⟩

theorem logged_bind {x : Eval σ α} {y : Eval (σ × List Callback) α} {f : α → Eval σ β}
    {g : α → Eval (σ × List Callback) β} (hx : Logged env source start site x y s)
    (hf : ∀ a s₁, x s = (.ok a, s₁) → s.cursor.Reaches s₁.cursor →
      Logged env source start site (f a) (g a) s₁) :
    Logged env source start site (x >>= f) (y >>= g) s := by
  apply hx.bind
  · intro e s' l h
    exact h.error
  · intro a s₁ l₁ ha h₁
    exact (hf a s₁ ha (h₁.forward a rfl)).mono fun r s' l _ h => h₁.trans h

theorem buildLogged_bind {γ : Type} {x : Build β σ α} {y : Build β (σ × List Callback) α}
    {f : α → Build β σ γ} {g : α → Build β (σ × List Callback) γ} {b : β}
    (hx : BuildLogged env source start site x y b s)
    (hf : ∀ a b₁ s₁, x (b, s) = (.ok a, (b₁, s₁)) → s.cursor.Reaches s₁.cursor →
      BuildLogged env source start site (f a) (g a) b₁ s₁) :
    BuildLogged env source start site (x >>= f) (y >>= g) b s := by
  apply hx.bind
  · intro e t' l h
    exact h.error
  · intro a t₁ l₁ ha h₁
    exact (hf a t₁.1 t₁.2 ha (h₁.forward a rfl)).mono fun r t' l _ h => h₁.trans h

theorem inside_bind_logged {γ : Type} {x : Eval σ α} {y : Eval (σ × List Callback) α}
    {f : α → Build β σ γ} {g : α → Build β (σ × List Callback) γ} {b : β}
    (hx : Logged env source start site x y s)
    (hf : ∀ a s₁, x s = (.ok a, s₁) → s.cursor.Reaches s₁.cursor →
      BuildLogged env source start site (f a) (g a) b s₁) :
    BuildLogged env source start site (inside x >>= f) (inside y >>= g) b s := by
  apply (inside_recorded hx b).bind
  · intro e t' l h
    exact h.2.error
  · intro a t₁ l₁ ha h₁
    obtain ⟨b', s₁⟩ := t₁
    obtain ⟨rfl, h₁⟩ := h₁
    exact (hf a s₁ (of_inside ha).1 (h₁.forward a rfl)).mono fun r t' l _ h => h₁.trans h

theorem inside_logged {x : Eval σ α} {y : Eval (σ × List Callback) α}
    (hx : Logged env source start site x y s) (b : β) :
    BuildLogged env source start site (inside x) (inside y) b s :=
  (inside_recorded hx b).mono fun _ _ _ _ h => h.2

theorem logged_pure (a : α) : Logged env source start site (pure a) (pure a) s :=
  records_pure (.refl s _)

theorem buildLogged_pure (a : α) (b : β) :
    BuildLogged env source start site (pure a) (pure a) b s :=
  records_pure (.refl s _)

theorem Silent.kept {s' : Session σ} {r : Except EvaluationError α} {l : List Callback}
    (h : Silent s r s' l) : Kept env source start site s r s' l := by
  refine ⟨?_, h.forward⟩
  rw [h.state, h.silent]
  exact .nil

theorem position_logged : Logged env source start site position position s :=
  position_recorded.mono fun _ _ _ _ h => h.kept

theorem fail_logged (p : Problem) (offset : Nat) :
    Logged env source start site (fail source p offset : Eval σ α) (fail source p offset) s :=
  records_throw (.refl s _)

theorem edit_logged (f : β → β) (b : β) :
    BuildLogged env source start site (edit f) (edit f) b s := by
  apply (edit_recorded f b).mono
  intro r t' l _ h
  obtain ⟨rfl, rfl, rfl⟩ := h
  exact .refl s _

theorem scan_logged {x : Scan α} (hx : ∀ a k, x s.cursor = (.ok a, k) → s.cursor.Reaches k) :
    Logged env source start site (scan source x) (scan source x) s :=
  (scan_recorded hx).mono fun _ _ _ _ h => h.kept

theorem forward_logged {x : Scan α} (hx : Scan.Forward x) :
    Logged env source start site (scan source x) (scan source x) s :=
  scan_logged fun a k h => hx s.cursor a k h

end Steps

end Eval
end Cjson
