import Cjson.Proofs.Recording

namespace Cjson

/-- A byte of the session that begins at `start`, at which a character begins or the
session ends. -/
def Cursor.Holds (start : Cursor) (offset : Nat) : Prop :=
  ∃ k, start.Reaches k ∧ k.position = offset

/-- The scans of which evaluations are made. -/
inductive Look where
  | gap
  | peek
  | advance
  | separator (terminator : Option Char) (noColon : Option ColonFault)
  | quoted (q : Char)
  | raw (q : Char)
  | wordOrCall
  | skimExpression
  | skimListing (terminator : Char)

namespace Look

abbrev Result : Look → Type
  | gap => Bool
  | peek => Option Char
  | advance | skimExpression | skimListing _ => Unit
  | separator _ _ => Scan.Separator
  | quoted _ | raw _ => String
  | wordOrCall => List Char × Bool

def scan : (look : Look) → Scan look.Result
  | gap => Scan.gap
  | peek => Scan.peek
  | advance => Scan.advance
  | separator terminator noColon => Scan.separator terminator noColon
  | quoted q => Scan.quoted q
  | raw q => Scan.raw q
  | wordOrCall => Scan.wordOrCall
  | skimExpression => Scan.skimExpression
  | skimListing terminator => Scan.skimListing Scan.skimExpression terminator

/-- What the scan relies on at a cursor. -/
def Ready (start : Cursor) : Look → Cursor → Prop
  | advance, k => ∃ c t, k.rest = c :: t ∧ c.utf8Size = 1
  | quoted q, k => (q = '"' ∨ q = '\'') ∧ ∃ t, k.rest = q :: t
  | raw q, k => (q = '"' ∨ q = '\'') ∧ ∃ t, k.rest = 'r' :: q :: t
  | skimExpression, k => k.rest ≠ []
  | skimListing terminator, k => ∃ k₀ c t, start.Reaches k₀ ∧ k₀.rest = c :: t ∧
    Scan.closing? c = some terminator ∧ k = k₀.next
  | gap, _ | peek, _ | separator _ _, _ | wordOrCall, _ => True

theorem forward {start : Cursor} {look : Look} {k k' : Cursor} {a : look.Result}
    (ready : look.Ready start k) (h : look.scan k = (.ok a, k')) : k.Reaches k' := by
  cases look with
  | gap => exact Scan.forward_gap k a k' h
  | peek => exact Scan.forward_peek k a k' h
  | advance => exact Scan.forward_advance k a k' h
  | separator terminator noColon => exact Scan.forward_separator _ _ k a k' h
  | quoted q =>
    obtain ⟨hq, t, hr⟩ := ready
    exact Scan.forward_quoted hq hr h
  | raw q =>
    obtain ⟨-, t, hr⟩ := ready
    exact Scan.forward_raw hr h
  | wordOrCall => exact Scan.forward_wordOrCall k a k' h
  | skimExpression => exact Scan.forward_skimExpression k a k' h
  | skimListing terminator =>
    exact Scan.forward_skimListing Scan.forward_skimExpression _ k a k' h

end Look

/-- A step of a session. A callback comes with the byte on which a failure of it is
blamed. -/
inductive Step where
  | scanned (look : Look) (k : Cursor)
  | found (e : EvaluationError)
  | called (c : Callback) (blamed : Nat)

namespace Step

def callback? : Step → Option Callback
  | called c _ => some c
  | scanned _ _ | found _ => none

/-- The error that comes of a step which fails. An evaluation error of the environment is
passed on as it is. -/
def failure? (source : Source) : Step → Option EvaluationError
  | found e => some e
  | called (.notified _ _ (.error (.evaluation e))) _
  | called (.resolved _ _ _ (.error (.evaluation e))) _ => some e
  | called (.notified _ _ (.error (.message text))) blamed =>
    some (.located (.notificationFailed text) ⟨source, blamed⟩)
  | called (.resolved function _ _ (.error (.message text))) blamed =>
    some (.located (.callFailed function text) ⟨source, blamed⟩)
  | scanned _ _ | called (.notified _ _ (.ok _)) _ | called (.resolved _ _ _ (.ok _)) _ => none

/-- What comes of a fault in a scan. -/
def faults {α : Type} (source : Source) : Except Fault α → List Step
  | .ok _ => []
  | .error (.problem p offset) => [found (.located p ⟨source, offset⟩)]
  | .error (.internal message) => [found (.internal message)]

end Step

def callbacks (l : List Step) : List Callback :=
  l.filterMap Step.callback?

theorem callbacks_append (l l' : List Step) :
    callbacks (l ++ l') = callbacks l ++ callbacks l' :=
  List.filterMap_append

section Course

open Eval

variable {σ : Type} (env : Environment σ) (source : Source) (start : Cursor)

/-- The name of a function was read from byte `opening` on, with the parenthesis behind it,
up to `k`. -/
def Named (opening : Nat) (function : String) (k : Cursor) : Prop :=
  ∃ k₀ w, start.Reaches k₀ ∧ k₀.position = opening ∧
    Scan.wordOrCall k₀ = (.ok (w, true), k) ∧ function = .ofList w

/-- The arguments of a call whose name begins at byte `opening` were read, up to where the
session stands. -/
def Supplied (opening : Nat) (function : String) (vs : List Value) (s : Session σ) : Prop :=
  ∃ k st room force, Named start opening function k ∧
    Eval.arguments env source function opening (expression env source room (.value force))
      ⟨k, st⟩ = (.ok vs, s)

/-- A key was read from byte `opening` on, and a separator behind it, up to where the
session stands. -/
def Keyed (opening : Nat) (key : String) (s : Session σ) : Prop :=
  ∃ s₀ s₁ room called terminator d, start.Reaches s₀.cursor ∧ s₀.cursor.position = opening ∧
    keyOrCall env source (expression env source room .key) s₀ =
      (.ok (.string key, called), s₁) ∧
    Eval.scan source (Scan.separator terminator none) s₁ = (.ok d, s)

/-- The byte on which a failure to enter the scope is blamed: the key, the call, or else
where the session stands. -/
def Blames : Scope → Nat → Session σ → Prop
  | .entry key, opening, s => Keyed env source start opening key s
  | .arguments function, opening, s => Named start opening function s.cursor
  | .list, opening, s | .map, opening, s => opening = s.cursor.position

/-- The steps of a computation in a session, which `view` shows, that begins at `start`.
What is scanned or blamed is in the session. -/
inductive Course : {τ α : Type} → (view : τ → Session σ) → Action EvaluationError τ α → τ →
    List Step → Prop
  | pure {τ α : Type} {view : τ → Session σ} (a : α) (t : τ) : Course view (pure a) t []
  | get {τ : Type} {view : τ → Session σ} (t : τ) : Course view get t []
  | edit {β : Type} (f : β → β) (t : β × Session σ) : Course Prod.snd (edit f) t []
  | scan {look : Look} {s : Session σ} {r : Except Fault look.Result} {k' : Cursor}
      (reached : start.Reaches s.cursor) (ready : look.Ready start s.cursor)
      (run : look.scan s.cursor = (r, k')) :
      Course id (Eval.scan source look.scan) s (.scanned look s.cursor :: Step.faults source r)
  | fail {α : Type} {p : Problem} {offset : Nat} (s : Session σ) (holds : start.Holds offset) :
      Course id (fail source p offset : Eval σ α) s [.found (.located p ⟨source, offset⟩)]
  | bindOk {τ α β : Type} {view : τ → Session σ} {x : Action EvaluationError τ α}
      {f : α → Action EvaluationError τ β} {t t' : τ} {a : α} {l l' : List Step}
      (first : Course view x t l) (run : x t = (.ok a, t')) (rest : Course view (f a) t' l') :
      Course view (x >>= f) t (l ++ l')
  | bindError {τ α β : Type} {view : τ → Session σ} {x : Action EvaluationError τ α}
      {f : α → Action EvaluationError τ β} {t t' : τ} {e : EvaluationError} {l : List Step}
      (first : Course view x t l) (run : x t = (.error e, t')) : Course view (x >>= f) t l
  | untilDone {τ β γ χ : Type} {view : τ → Session σ} {content : τ → List χ}
      {stuck : EvaluationError} {step : β → Action EvaluationError τ (Turn β γ)} {b : β} {t : τ}
      {l : List Step} (steps : Course view (Action.loop stuck step (content t) b) t l) :
      Course view (Action.untilDone content stuck step b) t l
  | anyExpression {role : Role} {s : Session σ} {l : List Step}
      (steps : Course id (expression env source s.cursor.rest role) s l) :
      Course id (anyExpression env source role) s l
  | inside {α β : Type} {x : Eval σ α} {s : Session σ} {l : List Step} (b : β)
      (steps : Course id x s l) : Course Prod.snd (inside x) (b, s) l
  | building {α β : Type} {x : Build β σ α} {b : β} {s : Session σ} {l : List Step}
      (steps : Course Prod.snd x (b, s) l) : Course id (building b x) s l
  | resolve {function : String} {vs : List Value} {opening : Nat} {s : Session σ}
      {answer : Except EnvironmentError Value} {st : σ}
      (supplied : Supplied env source start opening function vs s)
      (answers : env.resolve function vs ⟨source, s.cursor.position⟩ s.state = (answer, st)) :
      Course id (resolve env source function vs opening) s
        [.called (.resolved function vs ⟨source, s.cursor.position⟩ answer) opening]
  | refused {α : Type} {scope : Scope} {opening : Nat}
      {body : Signal → Build scope.Target σ α} {s : Session σ} {e : EnvironmentError}
      {target : scope.Target} {st : σ} (blames : Blames env source start scope opening s)
      (reached : start.Reaches s.cursor)
      (enter : env.notify (.enter scope) ⟨source, s.cursor.position⟩ scope.empty s.state =
        (.error e, target, st)) :
      Course id (within env source scope opening body) s
        [.called (.notified (.enter scope) ⟨source, s.cursor.position⟩ (.error e)) opening]
  | entered {α : Type} {scope : Scope} {opening : Nat}
      {body : Signal → Build scope.Target σ α} {s s₁ : Session σ} {signal : Signal}
      {t t₁ t' : scope.Target} {st st' : σ} {r : Except EvaluationError α}
      {answer : Except EnvironmentError Signal} {l : List Step}
      (blames : Blames env source start scope opening s) (reached : start.Reaches s.cursor)
      (enter : env.notify (.enter scope) ⟨source, s.cursor.position⟩ scope.empty s.state =
        (.ok signal, t, st))
      (steps : Course Prod.snd (body signal) (t, ⟨s.cursor, st⟩) l)
      (run : body signal (t, ⟨s.cursor, st⟩) = (r, (t₁, s₁)))
      (leave : env.notify (.leave scope) ⟨source, s₁.cursor.position⟩ t₁ s₁.state =
        (answer, t', st')) :
      Course id (within env source scope opening body) s
        (.called (.notified (.enter scope) ⟨source, s.cursor.position⟩ (.ok signal)) opening ::
          l ++ [.called (.notified (.leave scope) ⟨source, s₁.cursor.position⟩ answer)
            s₁.cursor.position])

end Course

section Steps

open Eval Cjson.Action

variable {σ τ α β : Type} {env : Environment σ} {source : Source} {start : Cursor}
  {view : τ → Session σ}

theorem Eval.within_eq_ok {scope : Scope} {opening : Nat} {body : Signal → Build scope.Target σ α}
    {s s' : Session σ} {r : α × scope.Target}
    (h : within env source scope opening body s = (.ok r, s')) :
    ∃ signal t st t₁ s₁,
      env.notify (.enter scope) ⟨source, s.cursor.position⟩ scope.empty s.state =
        (.ok signal, t, st) ∧
      body signal (t, ⟨s.cursor, st⟩) = (.ok r.1, (t₁, s₁)) ∧ s'.cursor = s₁.cursor := by
  rcases henter : env.notify (.enter scope) ⟨source, s.cursor.position⟩ scope.empty s.state with
    ⟨e | signal, t, st⟩
  · simp only [within, henter] at h
    cases h
  · rcases hbody : body signal (t, ⟨s.cursor, st⟩) with ⟨e | a, t₁, s₁⟩
    · simp only [within, henter, hbody] at h
      cases h
    · rcases hleave : env.notify (.leave scope) ⟨source, s₁.cursor.position⟩ t₁ s₁.state with
        ⟨e | signal', t', st'⟩
      · simp only [within, henter, hbody, hleave] at h
        cases h
      · simp only [within, henter, hbody, hleave] at h
        cases h
        exact ⟨signal, t, st, t₁, s₁, rfl, hbody, rfl⟩

/-- A scope that was entered ends in the state in which the environment left it. -/
theorem Eval.within_state {scope : Scope} {opening : Nat}
    {body : Signal → Build scope.Target σ α} {s s₁ : Session σ} {signal : Signal}
    {t t₁ t' : scope.Target} {st st' : σ} {r : Except EvaluationError α}
    {answer : Except EnvironmentError Signal}
    (enter : env.notify (.enter scope) ⟨source, s.cursor.position⟩ scope.empty s.state =
      (.ok signal, t, st))
    (run : body signal (t, ⟨s.cursor, st⟩) = (r, (t₁, s₁)))
    (leave : env.notify (.leave scope) ⟨source, s₁.cursor.position⟩ t₁ s₁.state =
      (answer, t', st')) :
    (within env source scope opening body s).2 = ⟨s₁.cursor, st'⟩ := by
  cases r with
  | error e => simp only [within, enter, run, leave]
  | ok a =>
    cases answer with
    | error e => simp only [within, enter, run, leave]
    | ok signal' => simp only [within, enter, run, leave]

/-- A scan moves the cursor, whatever comes of it, and leaves the environment alone. -/
theorem Eval.scan_state {x : Scan α} {s : Session σ} {r : Except Fault α} {k' : Cursor}
    (h : x s.cursor = (r, k')) : (Eval.scan source x s).2 = ⟨k', s.state⟩ := by
  rcases r with (⟨p, offset⟩ | message) | a
  · simp only [Eval.scan, h]
  · simp only [Eval.scan, h]
  · simp only [Eval.scan, h]

theorem Eval.building_state {x : Build β σ α} {b : β} {s : Session σ} :
    (building b x s).2 = (x (b, s)).2.2 := by
  rcases hx : x (b, s) with ⟨e | a, b', s'⟩
  · simp only [building, hx]
  · simp only [building, hx]

/-- A computation that succeeds does not go back in the text. -/
theorem Course.forward {x : Action EvaluationError τ α} {t t' : τ} {a : α} {l : List Step}
    (h : Course env source start view x t l) (hx : x t = (.ok a, t')) :
    (view t).cursor.Reaches (view t').cursor := by
  induction h with
  | pure b t =>
    obtain ⟨-, rfl⟩ := pure_eq_ok.mp hx
    exact .refl _
  | get t =>
    cases hx
    exact .refl _
  | edit f t =>
    cases hx
    exact .refl _
  | @scan look s r k' reached ready run =>
    obtain ⟨hk, -⟩ := of_scan hx
    exact look.forward ready hk
  | fail s holds => exact absurd hx fail_ne_ok
  | bindOk first run rest ih ih' =>
    rw [bind_ok run] at hx
    exact (ih run).trans (ih' hx)
  | bindError first run ih =>
    rw [bind_apply, run] at hx
    cases hx
  | untilDone steps ih => exact ih hx
  | anyExpression steps ih => exact ih hx
  | inside b steps ih => exact ih (of_inside hx).1
  | building steps ih => exact ih (of_building hx)
  | resolve supplied answers =>
    have hs := congrArg (fun r => r.2.cursor) hx
    simp only [Eval.resolve, answers] at hs
    exact hs ▸ .refl _
  | refused blames reached enter =>
    simp only [within, enter] at hx
    cases hx
  | entered blames reached enter steps run leave ih =>
    obtain ⟨signal, t, st, t₁, s₁, henter, hbody, hcursor⟩ := within_eq_ok hx
    rw [enter] at henter
    cases henter
    have hreach := ih hbody
    dsimp only [id_eq] at hreach ⊢
    rwa [hcursor]

variable (env source start view) in
/-- The computation has a course. -/
def Runs (x : Action EvaluationError τ α) (t : τ) : Prop :=
  ∃ l, Course env source start view x t l

theorem Runs.bind {x : Action EvaluationError τ α} {f : α → Action EvaluationError τ β} {t : τ}
    (hx : Runs env source start view x t)
    (hf : ∀ a t', x t = (.ok a, t') → (view t).cursor.Reaches (view t').cursor →
      Runs env source start view (f a) t') :
    Runs env source start view (x >>= f) t := by
  obtain ⟨l, hl⟩ := hx
  rcases hrun : x t with ⟨e | a, t'⟩
  · exact ⟨l, .bindError hl hrun⟩
  · obtain ⟨l', hl'⟩ := hf a t' hrun (hl.forward hrun)
    exact ⟨l ++ l', .bindOk hl hrun hl'⟩

theorem Runs.pure (a : α) (t : τ) : Runs env source start view (Pure.pure a) t :=
  ⟨[], .pure a t⟩

theorem Runs.map {x : Action EvaluationError τ α} {t : τ} (hx : Runs env source start view x t)
    (f : α → β) : Runs env source start view (f <$> x) t := by
  rw [map_eq_pure_bind]
  exact hx.bind fun a t' _ _ => .pure (f a) t'

end Steps
end Cjson
