import Cjson.Evaluate
import Cjson.Proofs.Forward

namespace Cjson

/-- A call of the environment, and what it answered. -/
inductive Callback where
  | notified (e : Event) (context : Context) (answer : Except EnvironmentError Signal)
  | resolved (function : String) (arguments : List Value) (context : Context)
      (answer : Except EnvironmentError Value)

/-- The environment with a record of its callbacks, the first of them at the front. -/
def Environment.recording {σ : Type} (env : Environment σ) :
    Environment (σ × List Callback) where
  resolve function arguments context t :=
    let answer := env.resolve function arguments context t.1
    (answer.1, answer.2, t.2 ++ [.resolved function arguments context answer.1])
  notify e context target t :=
    let answer := env.notify e context target t.1
    (answer.1, answer.2.1, answer.2.2, t.2 ++ [.notified e context answer.1])

/-- Keeps track of the scopes that are open, the innermost at the front. Only the innermost
may be left, and a scope that could not be entered is not open. -/
def Callback.track (opened : List Scope) : Callback → Option (List Scope)
  | .notified (.enter scope) _ (.ok _) => some (scope :: opened)
  | .notified (.enter _) _ (.error _) => some opened
  | .notified (.leave scope) _ _ =>
    if opened.head? = some scope then some opened.tail else none
  | .resolved .. => some opened

/-- Where callbacks come from: an expression, or the entries of a map. -/
inductive Site where
  | item (force : Bool)
  | entries (force : Bool)

namespace Site

/-- Whether the words in values are forced to be strings. -/
def force : Site → Bool
  | item force | entries force => force

/-- Whether those in an expression are that stands there itself. Among entries that is a
key, or a map to merge. -/
def words : Site → Bool
  | item force => force
  | entries _ => false

/-- What a scope has in it. -/
def inside (site : Site) : Scope → Site
  | .entry _ => item site.force
  | .arguments _ | .list => item site.words
  | .map => entries site.words

end Site

section Nested

variable {σ : Type} (env : Environment σ) (source : Source) (start : Cursor)

/-- The parameter list behind the parenthesis at `k` evaluates as `r` says, and its
evaluation ends at `k'`. -/
structure Parameters (force : Bool) (k : Cursor) (st : σ)
    (r : Except EvaluationError (List Value)) (k' : Cursor) (st' : σ) : Prop where
  reached : start.Reaches k
  evaluated : Eval.building [] (Eval.listBody source
      (Eval.anyExpression env source (.value force)) (some ')')) ⟨k, st⟩ =
    (r.map fun vs => ((), vs), ⟨k', st'⟩)

mutual

/-- Callbacks as they come in a session that begins at `start`, with the environment's
state before and after them. -/
inductive Nested : Site → σ → List Callback → σ → Prop
  | nil {site : Site} {st : σ} : Nested site st [] st
  | append {site : Site} {st st₁ st' : σ} {l l' : List Callback} (first : Nested site st l st₁)
      (others : Nested site st₁ l' st') : Nested site st (l ++ l') st'
  /-- A scope that could not be entered is not left. -/
  | refused {site : Site} {scope : Scope} {context : Context} {e : EnvironmentError}
      {target : scope.Target} {st st' : σ}
      (enter : env.notify (.enter scope) context scope.empty st = (.error e, target, st')) :
      Nested site st [.notified (.enter scope) context (.error e)] st'
  /-- A scope that was entered is left. Nothing is evaluated in between where the answer
  about the value of a key or a map was not to proceed. -/
  | scope {site : Site} {scope : Scope} {context context' : Context} {signal : Signal}
      {answer : Except EnvironmentError Signal} {t t₁ t' : scope.Target} {st st₁ st₂ st' : σ}
      {l : List Callback} (noCall : ∀ function, scope ≠ .arguments function)
      (enter : env.notify (.enter scope) context scope.empty st = (.ok signal, t, st₁))
      (inner : Nested (site.inside scope) st₁ l st₂)
      (quiet : signal ≠ .proceed → scope ≠ .list → l = [])
      (leave : env.notify (.leave scope) context' t₁ st₂ = (answer, t', st')) :
      Nested site st (.notified (.enter scope) context (.ok signal) ::
        l ++ [.notified (.leave scope) context' answer]) st'
  /-- A call is resolved directly behind its parameter list. -/
  | call {site : Site} {function : String} {vs : List Value} {k : Cursor}
      {answer : Except EnvironmentError Value} {st st₁ st' : σ} {l : List Callback}
      (called : Called site function vs st l k st₁)
      (resolve : env.resolve function vs ⟨source, k.next.position⟩ st₁ = (answer, st')) :
      Nested site st (l ++ [.resolved function vs ⟨source, k.next.position⟩ answer]) st'
  /-- A call with a parameter list that failed is not resolved. -/
  | unresolved {site : Site} {function : String} {r : Except EvaluationError (List Value)}
      {k k' : Cursor} {signal : Signal} {answer : Except EnvironmentError Signal} {t t' : Unit}
      {st st₁ st₂ st' : σ} {l : List Callback}
      (enter : env.notify (.enter (.arguments function)) ⟨source, k.position⟩ () st =
        (.ok signal, t, st₁))
      (parameters : Parameters env source start site.words k st₁ r k' st₂)
      (inner : Nested (site.inside (.arguments function)) st₁ l st₂)
      (leave : env.notify (.leave (.arguments function)) ⟨source, k'.position⟩ () st₂ =
        (answer, t', st'))
      (failed : (∃ e, r = .error e) ∨ ∃ e, answer = .error e) :
      Nested site st (.notified (.enter (.arguments function)) ⟨source, k.position⟩ (.ok signal) ::
        l ++ [.notified (.leave (.arguments function)) ⟨source, k'.position⟩ answer]) st'

/-- The callbacks of a parameter list that evaluates to `vs`, with the closing parenthesis
at `k'`. -/
inductive Called : Site → String → List Value → σ → List Callback → Cursor → σ → Prop
  | intro {site : Site} {function : String} {vs : List Value} {k k' : Cursor}
      {signal signal' : Signal} {t t' : Unit} {st st₁ st₂ st' : σ} {l : List Callback}
      (enter : env.notify (.enter (.arguments function)) ⟨source, k.position⟩ () st =
        (.ok signal, t, st₁))
      (parameters : Parameters env source start site.words k st₁ (.ok vs) k' st₂)
      (inner : Nested (site.inside (.arguments function)) st₁ l st₂)
      (leave : env.notify (.leave (.arguments function)) ⟨source, k'.position⟩ () st₂ =
        (.ok signal', t', st')) :
      Called site function vs st
        (.notified (.enter (.arguments function)) ⟨source, k.position⟩ (.ok signal) ::
          l ++ [.notified (.leave (.arguments function)) ⟨source, k'.position⟩ (.ok signal')])
        k' st'

end

/-- The callbacks about a map without brackets, which is evaluated whatever the answer
about it is. -/
inductive Unbracketed (force : Bool) : σ → List Callback → σ → Prop
  | refused {context : Context} {e : EnvironmentError} {m : Entries Value} {st st' : σ}
      (enter : env.notify (.enter .map) context [] st = (.error e, m, st')) :
      Unbracketed force st [.notified (.enter .map) context (.error e)] st'
  | entered {context context' : Context} {signal : Signal}
      {answer : Except EnvironmentError Signal} {m m₁ m' : Entries Value}
      {st st₁ st₂ st' : σ} {l : List Callback}
      (enter : env.notify (.enter .map) context [] st = (.ok signal, m, st₁))
      (inner : Nested env source start (.entries force) st₁ l st₂)
      (leave : env.notify (.leave .map) context' m₁ st₂ = (answer, m', st')) :
      Unbracketed force st (.notified (.enter .map) context (.ok signal) ::
        l ++ [.notified (.leave .map) context' answer]) st'

end Nested

namespace Callback

/-- Entering a scope and leaving it again comes to nothing. -/
theorem track_scope {opened : List Scope} {scope : Scope} {context context' : Context}
    {signal : Signal} {answer : Except EnvironmentError Signal} {l : List Callback}
    (h : l.foldlM track (scope :: opened) = some (scope :: opened)) :
    (notified (.enter scope) context (.ok signal) ::
      l ++ [notified (.leave scope) context' answer]).foldlM track opened = some opened := by
  rw [List.cons_append, List.foldlM_cons, track, Option.bind_eq_bind, Option.bind_some,
    List.foldlM_append, h]
  simp [track]

end Callback

mutual

/-- Nested callbacks leave no scope open, and close none that they did not open. -/
theorem Nested.balanced {σ : Type} {env : Environment σ} {source : Source} {start : Cursor}
    {site : Site} {st st' : σ} {l : List Callback}
    (h : Nested env source start site st l st') :
    ∀ opened : List Scope, l.foldlM Callback.track opened = some opened := by
  intro opened
  match h with
  | .nil => rfl
  | .append first others =>
    rw [List.foldlM_append, first.balanced opened]
    exact others.balanced opened
  | .refused enter => simp [Callback.track]
  | .scope _ _ inner _ _ => exact Callback.track_scope (inner.balanced (_ :: opened))
  | .call called _ =>
    rw [List.foldlM_append, called.balanced opened]
    simp [Callback.track]
  | .unresolved _ _ inner _ _ => exact Callback.track_scope (inner.balanced (_ :: opened))

theorem Called.balanced {σ : Type} {env : Environment σ} {source : Source} {start : Cursor}
    {site : Site} {function : String} {vs : List Value} {st st' : σ} {l : List Callback}
    {k : Cursor} (h : Called env source start site function vs st l k st') :
    ∀ opened : List Scope, l.foldlM Callback.track opened = some opened := by
  intro opened
  match h with
  | .intro _ _ inner _ => exact Callback.track_scope (inner.balanced (_ :: opened))

end

theorem Unbracketed.balanced {σ : Type} {env : Environment σ} {source : Source}
    {start : Cursor} {force : Bool} {st st' : σ} {l : List Callback}
    (h : Unbracketed env source start force st l st') (opened : List Scope) :
    l.foldlM Callback.track opened = some opened := by
  cases h with
  | refused _ => simp [Callback.track]
  | entered _ inner _ => exact Callback.track_scope (inner.balanced (.map :: opened))

end Cjson
