import Mathlib.Data.List.Forall2
import Cjson.Proofs.Conduct

namespace Cjson

open Cjson.Action Eval

/-- The step leaves the scope, whatever the environment answers. -/
def Step.Leaves (scope : Scope) (step : Step) : Prop :=
  ∃ context answer blamed, step = .called (.notified (.leave scope) context answer) blamed

/-- How a result comes about by some steps. Either no step fails, and no scope is left open.
Or the result is the failure of one step, with none that fails before it, and behind it the
scopes that it leaves open are left, the innermost first. -/
inductive Halts (source : Source) {α : Type} : Except EvaluationError α → List Step → Prop
  | finished {a : α} {l : List Step} (smooth : ∀ step ∈ l, step.failure? source = none)
      (closed : ∀ outer, (callbacks l).foldlM Callback.track outer = some outer) :
      Halts source (.ok a) l
  | failed {before after : List Step} {first : Step} {e : EvaluationError}
      {opened : List Scope} (smooth : ∀ step ∈ before, step.failure? source = none)
      (fails : first.failure? source = some e)
      (opens : ∀ outer, (callbacks (before ++ [first])).foldlM Callback.track outer =
        some (opened ++ outer))
      (unwinds : List.Forall₂ Step.Leaves opened after) :
      Halts source (.error e) (before ++ first :: after)

section Halts

variable {source : Source} {α β : Type}

/-- A failure is the same whatever the result would have been. -/
theorem Halts.error {e : EvaluationError} {l : List Step}
    (h : Halts source (.error e : Except EvaluationError α) l) :
    Halts source (.error e : Except EvaluationError β) l := by
  cases h with
  | failed smooth fails opens unwinds => exact .failed smooth fails opens unwinds

theorem Halts.append {a : α} {r : Except EvaluationError β} {l l' : List Step}
    (h : Halts source (.ok a : Except EvaluationError α) l) (h' : Halts source r l') :
    Halts source r (l ++ l') := by
  cases h with
  | finished smooth closed =>
    cases h' with
    | finished smooth' closed' =>
      refine .finished ?_ ?_
      · intro step hstep
        rcases List.mem_append.mp hstep with hstep | hstep
        · exact smooth step hstep
        · exact smooth' step hstep
      · intro outer
        rw [callbacks_append, List.foldlM_append, closed]
        exact closed' outer
    | @failed before after first e opened smooth' fails opens unwinds =>
      rw [← List.append_assoc]
      refine .failed ?_ fails ?_ unwinds
      · intro step hstep
        rcases List.mem_append.mp hstep with hstep | hstep
        · exact smooth step hstep
        · exact smooth' step hstep
      · intro outer
        rw [List.append_assoc, callbacks_append, List.foldlM_append, closed]
        exact opens outer

theorem halts_nil (a : α) : Halts source (.ok a) [] :=
  .finished (by simp) fun _ => rfl

/-- The last step fails, when no scope is open. -/
theorem halts_last {before : List Step} {first : Step} {e : EvaluationError}
    (smooth : ∀ step ∈ before, step.failure? source = none)
    (fails : first.failure? source = some e)
    (closed : ∀ outer, (callbacks (before ++ [first])).foldlM Callback.track outer =
      some outer) :
    Halts source (.error e : Except EvaluationError α) (before ++ [first]) := by
  have opens : ∀ outer, (callbacks (before ++ [first])).foldlM Callback.track outer =
      some ([] ++ outer) := closed
  exact .failed smooth fails opens .nil

theorem halts_single {step : Step} {e : EvaluationError} (fails : step.failure? source = some e)
    (kept : ∀ outer, (callbacks [step]).foldlM Callback.track outer = some outer) :
    Halts source (.error e : Except EvaluationError α) [step] :=
  @halts_last source α [] step e (by simp) fails kept

theorem halts_found (e : EvaluationError) :
    Halts source (.error e : Except EvaluationError α) [.found e] :=
  halts_single rfl fun _ => rfl

theorem failure?_notified (event : Event) (context : Context) (e : EnvironmentError)
    (blamed : Nat) :
    (Step.called (.notified event context (.error e)) blamed).failure? source =
      some (notificationError source blamed e) := by
  cases e <;> rfl

theorem failure?_resolved (function : String) (vs : List Value) (context : Context)
    (e : EnvironmentError) (blamed : Nat) :
    (Step.called (.resolved function vs context (.error e)) blamed).failure? source =
      some (callError source function blamed e) := by
  cases e <;> rfl

/-- A scope that is entered and left again ends with the failure of its body, if that
fails, and with its own otherwise. -/
theorem Halts.scope {scope : Scope} {opening blamed : Nat} {context context' : Context}
    {signal : Signal} {answer : Except EnvironmentError Signal} {r : Except EvaluationError α}
    {r' : Except EvaluationError β} {l : List Step} (h : Halts source r l)
    (failed : ∀ e, r = .error e → r' = .error e)
    (refused : ∀ a e, r = .ok a → answer = .error e →
      r' = .error (notificationError source blamed e))
    (finished : ∀ a signal', r = .ok a → answer = .ok signal' → ∃ b, r' = .ok b) :
    Halts source r' (.called (.notified (.enter scope) context (.ok signal)) opening ::
      l ++ [.called (.notified (.leave scope) context' answer) blamed]) := by
  have smooth_enter : ∀ {l : List Step}, (∀ step ∈ l, step.failure? source = none) →
      ∀ step ∈ .called (.notified (.enter scope) context (.ok signal)) opening :: l,
        step.failure? source = none := by
    intro l smooth step hstep
    rcases List.mem_cons.mp hstep with rfl | hstep
    · rfl
    · exact smooth step hstep
  cases h with
  | @failed before after first e opened smooth fails opens unwinds =>
    rw [failed e rfl]
    have unwinds' : List.Forall₂ Step.Leaves (opened ++ [scope])
        (after ++ [.called (.notified (.leave scope) context' answer) blamed]) :=
      List.rel_append unwinds (.cons ⟨context', answer, blamed, rfl⟩ .nil)
    rw [List.cons_append, List.append_assoc, List.cons_append, ← List.cons_append]
    refine .failed (smooth_enter smooth) fails ?_ unwinds'
    intro outer
    rw [List.append_assoc]
    exact opens (scope :: outer)
  | @finished a l smooth closed =>
    have closed' : ∀ outer, (callbacks (.called (.notified (.enter scope) context (.ok signal))
        opening :: l ++ [.called (.notified (.leave scope) context' answer) blamed])).foldlM
          Callback.track outer = some outer := by
      intro outer
      rw [callbacks_append]
      exact Callback.track_scope (closed (scope :: outer))
    cases answer with
    | error e =>
      rw [refused a e rfl rfl]
      exact halts_last (smooth_enter smooth) (failure?_notified _ context' e blamed) closed'
    | ok signal' =>
      obtain ⟨b, rfl⟩ := finished a signal' rfl rfl
      refine .finished ?_ closed'
      intro step hstep
      rcases List.mem_append.mp hstep with hstep | hstep
      · exact smooth_enter smooth step hstep
      · rw [List.mem_singleton] at hstep
        rw [hstep]
        rfl

end Halts

section Course

variable {σ τ α : Type} {env : Environment σ} {source : Source} {start : Cursor}
  {view : τ → Session σ}

/-- Every computation with a course ends with its first failure. -/
theorem Course.halts {x : Action EvaluationError τ α} {t : τ} {l : List Step}
    (h : Course env source start view x t l) : Halts source (x t).1 l := by
  induction h with
  | pure a t => exact halts_nil a
  | get t => exact halts_nil t
  | edit f t => exact halts_nil ()
  | @scan look s r k' reached ready run =>
    have hlook : Halts source (.ok () : Except EvaluationError Unit)
        [.scanned look s.cursor] := .finished (by simp [Step.failure?]) fun _ => rfl
    rcases r with (⟨p, offset⟩ | message) | a
    · rw [show (Eval.scan source look.scan s).1 = .error (.located p ⟨source, offset⟩) by
        simp only [Eval.scan, run]]
      exact hlook.append (halts_found _)
    · rw [show (Eval.scan source look.scan s).1 = .error (.internal message) by
        simp only [Eval.scan, run]]
      exact hlook.append (halts_found _)
    · rw [show (Eval.scan source look.scan s).1 = .ok a by simp only [Eval.scan, run]]
      exact hlook.append (halts_nil a)
  | @fail _ p offset s holds => exact halts_found (.located p ⟨source, offset⟩)
  | bindOk first run rest ih ih' =>
    rw [bind_ok run]
    rw [run] at ih
    exact ih.append ih'
  | bindError first run ih =>
    rw [bind_apply, run]
    rw [run] at ih
    exact ih.error
  | untilDone steps ih => exact ih
  | anyExpression steps ih => exact ih
  | inside b steps ih => exact ih
  | @building _ _ x b s l steps ih =>
    rcases hx : x (b, s) with ⟨e | a, b', s'⟩
    · rw [hx] at ih
      simp only [Eval.building, hx]
      exact ih.error
    · rw [hx] at ih
      simp only [Eval.building, hx]
      have := ih.append (halts_nil (a, b'))
      rwa [List.append_nil] at this
  | @resolve function vs opening s answer st supplied answers =>
    simp only [Eval.resolve, answers]
    cases answer with
    | error e => exact halts_single (failure?_resolved function vs _ e opening) fun _ => rfl
    | ok v => exact .finished (by simp [Step.failure?]) fun _ => rfl
  | @refused _ scope opening body s e target st blames reached enter =>
    simp only [within, enter]
    exact halts_single (failure?_notified (.enter scope) _ e opening) fun _ => rfl
  | @entered _ scope opening body s s₁ signal t t₁ t' st st' r answer l blames reached enter steps
      run leave ih =>
    rw [run] at ih
    refine ih.scope ?_ ?_ ?_
    · rintro e rfl
      simp only [within, enter, run, leave]
    · rintro a e rfl rfl
      simp only [within, enter, run, leave]
    · rintro a signal' rfl rfl
      simp only [within, enter, run, leave]
      exact ⟨_, rfl⟩

variable (env source start) in
/-- Where a callback is made, and on which byte its failure is blamed. -/
def Step.Placed : Step → Prop
  | called (.notified (.enter scope) context _) blamed =>
    ∃ s : Session σ, context = ⟨source, s.cursor.position⟩ ∧
      Blames env source start scope blamed s
  | called (.notified (.leave _) context _) blamed =>
    context = ⟨source, blamed⟩
  | called (.resolved function vs context _) blamed =>
    ∃ s : Session σ, context = ⟨source, s.cursor.position⟩ ∧
      Supplied env source start blamed function vs s
  | scanned _ _ | found _ => True

theorem Course.placed {x : Action EvaluationError τ α} {t : τ} {l : List Step}
    (h : Course env source start view x t l) :
    ∀ step ∈ l, step.Placed env source start := by
  induction h with
  | pure a t | get t | edit f t => simp
  | @scan look s r k' reached ready run =>
    intro step hstep
    rcases List.mem_cons.mp hstep with rfl | hstep
    · trivial
    · rcases r with (⟨p, offset⟩ | message) | a
      · rw [List.mem_singleton.mp hstep]
        trivial
      · rw [List.mem_singleton.mp hstep]
        trivial
      · cases hstep
  | fail s holds =>
    intro step hstep
    rw [List.mem_singleton.mp hstep]
    trivial
  | bindOk first run rest ih ih' =>
    intro step hstep
    rcases List.mem_append.mp hstep with hstep | hstep
    · exact ih step hstep
    · exact ih' step hstep
  | bindError first run ih => exact ih
  | untilDone steps ih => exact ih
  | anyExpression steps ih => exact ih
  | inside b steps ih => exact ih
  | building steps ih => exact ih
  | @resolve function vs opening s answer st supplied answers =>
    intro step hstep
    rw [List.mem_singleton.mp hstep]
    exact ⟨s, rfl, supplied⟩
  | @refused _ scope opening body s e target st blames reached enter =>
    intro step hstep
    rw [List.mem_singleton.mp hstep]
    exact ⟨s, rfl, blames⟩
  | @entered _ scope opening body s s₁ signal t t₁ t' st st' r answer l blames reached enter steps
      run leave ih =>
    intro step hstep
    rcases List.mem_append.mp hstep with hstep | hstep
    · rcases List.mem_cons.mp hstep with rfl | hstep
      · exact ⟨s, rfl, blames⟩
      · exact ih step hstep
    · rw [List.mem_singleton.mp hstep]
      rfl

theorem Environment.recording_notify {e : Event} {context : Context} {target t' : e.scope.Target}
    {t u : σ × List Callback} {answer : Except EnvironmentError Signal}
    (h : env.recording.notify e context target t = (answer, t', u)) :
    u.2 = t.2 ++ [.notified e context answer] := by
  cases h
  rfl

theorem Environment.recording_resolve {function : String} {vs : List Value} {context : Context}
    {t u : σ × List Callback} {answer : Except EnvironmentError Value}
    (h : env.recording.resolve function vs context t = (answer, u)) :
    u.2 = t.2 ++ [.resolved function vs context answer] := by
  cases h
  rfl

/-- What is recorded on the way is the callbacks of the course. -/
theorem Course.recorded {view : τ → Session (σ × List Callback)}
    {x : Action EvaluationError τ α} {t : τ} {l : List Step}
    (h : Course env.recording source start view x t l) :
    (view (x t).2).state.2 = (view t).state.2 ++ callbacks l := by
  induction h with
  | pure a t | get t | edit f t => exact (List.append_nil _).symm
  | @scan look s r k' reached ready run =>
    dsimp only [id_eq]
    rw [Eval.scan_state run]
    rcases r with (⟨p, offset⟩ | message) | a
    · exact (List.append_nil _).symm
    · exact (List.append_nil _).symm
    · exact (List.append_nil _).symm
  | fail s holds => exact (List.append_nil _).symm
  | bindOk first run rest ih ih' =>
    rw [run] at ih
    rw [bind_ok run, ih', ih, callbacks_append, List.append_assoc]
  | bindError first run ih =>
    rw [run] at ih
    rw [bind_apply, run]
    exact ih
  | untilDone steps ih => exact ih
  | anyExpression steps ih => exact ih
  | inside b steps ih => exact ih
  | building steps ih =>
    dsimp only [id_eq]
    rw [Eval.building_state]
    exact ih
  | resolve supplied answers =>
    simp only [Eval.resolve, answers]
    exact Environment.recording_resolve answers
  | refused blames reached enter =>
    simp only [within, enter]
    exact Environment.recording_notify enter
  | entered blames reached enter steps run leave ih =>
    rw [run] at ih
    have hrecord := Environment.recording_notify leave
    dsimp only [id_eq] at ih ⊢
    rw [ih, Environment.recording_notify enter] at hrecord
    rw [Eval.within_state enter run leave, hrecord]
    simp [callbacks, Step.callback?]

end Course

section Sessions

variable {σ α : Type}

/-- A session is made of steps: what the environment is told on the way is recorded, and the
result is the first failure if there is one. -/
def Conducted (env : Environment σ) (source : Source) (start : Cursor)
    (x : Eval (σ × List Callback) α) (st : σ) (plain : Except EvaluationError α × σ) : Prop :=
  ∃ l, Course env.recording source start id x ⟨start, (st, [])⟩ l ∧
    x.run start (st, []) = (plain.1, plain.2, callbacks l) ∧
    (∀ step ∈ l, step.Placed env.recording source start) ∧ Halts source plain.1 l

theorem conducted_run {env : Environment σ} {source : Source} {k : Cursor} {st : σ}
    {x : Eval σ α} {y : Eval (σ × List Callback) α}
    {P : Except EvaluationError α → Session σ → List Callback → Prop}
    (h : Recorded x y ⟨k, st⟩ P)
    (hy : Conducts env.recording source k y ⟨k, (st, [])⟩) :
    Conducted env source k y st (x.run k st) := by
  obtain ⟨r, s', record, hx, hrun, -⟩ := h []
  obtain ⟨l, hl⟩ := hy
  have hrecord := hl.recorded
  have hhalts := hl.halts
  simp only [Session.recorded, List.nil_append] at hrun
  rw [hrun] at hrecord hhalts
  dsimp only [id_eq, List.nil_append] at hrecord
  refine ⟨l, hl, ?_, hl.placed, ?_⟩
  · simp only [run, hx, hrun, hrecord]
  · simpa only [run, hx] using hhalts

variable (env : Environment σ) (source : Source) (force : Bool) (k : Cursor) (st : σ)

theorem single_conducted : Conducted env source k (single env.recording source force) st
    ((single env source force).run k st) :=
  conducted_run (single_logged force k st) (single_conducts force k _)

theorem openList_conducted : Conducted env source k (openList env.recording source force) st
    ((openList env source force).run k st) :=
  conducted_run (openList_logged force k st) (openList_conducts force k _)

theorem openMap_conducted : Conducted env source k (openMap env.recording source force) st
    ((openMap env source force).run k st) :=
  conducted_run (openMap_recorded force k st) (openMap_conducts force k _)

end Sessions

end Cjson
