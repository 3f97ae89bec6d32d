import Cjson.Proofs.Listing
import Cjson.Proofs.Tree
import Cjson.Environment

namespace Cjson

/-- The answers that an environment may give. -/
structure Policy where
  entry : (key : String) → Signal → Prop
  /-- About maps that do not stand in place of a key. -/
  map : Signal → Prop
  call : (function : String) → (arguments : List Value) → Value → Prop

/-- The answers about a scope that count, within the scopes that are open already, the
innermost first. A map directly in a map stands in place of a key, and nothing but its
entries could join the others. -/
def Policy.Answers (π : Policy) : (opened : List Scope) → Scope → Signal → Prop
  | _, .entry key, signal => π.entry key signal
  | .map :: _, .map, signal => signal = .proceed
  | _, .map, signal => π.map signal
  | _, .list, _ | _, .arguments _, _ => True

theorem Policy.map_of_answers {π : Policy} {opened : List Scope} {signal : Signal}
    (h : π.Answers opened .map signal) (hopened : opened.head? ≠ some .map) :
    π.map signal := by
  cases opened with
  | nil => exact h
  | cons scope _ =>
    cases scope with
    | map => exact absurd rfl hopened
    | entry _ | arguments _ | list => exact h

/-- The environment always answers, and as the policy says. `At` is what holds of its
state while the scopes are open. -/
structure Environment.Follows {σ : Type} (env : Environment σ) (π : Policy)
    (At : List Scope → σ → Prop) : Prop where
  enter {opened : List Scope} {st : σ} (scope : Scope) (context : Context)
    (target : scope.Target) (h : At opened st) :
    ∃ signal st', env.notify (.enter scope) context target st = (.ok signal, target, st') ∧
      π.Answers opened scope signal ∧ At (scope :: opened) st'
  leave {opened : List Scope} {scope : Scope} {st : σ} (context : Context)
    (target : scope.Target) (h : At (scope :: opened) st) :
    ∃ signal st', env.notify (.leave scope) context target st = (.ok signal, target, st') ∧
      At opened st'
  resolve {opened : List Scope} {st : σ} (function : String) (arguments : List Value)
    (context : Context) (h : At opened st) :
    ∃ v st', env.resolve function arguments context st = (.ok v, st') ∧
      π.call function arguments v ∧ At opened st'

/-- The fragment is a span of its source whose text is one of the expression's. -/
def Fragment.Spells (f : Fragment) (t : Tree) : Prop :=
  t.Spelled Word f.text ∧ (Cursor.ofFragment f).In f.source

mutual

/-- The values of an expression under a policy. -/
inductive Reading (π : Policy) : (force : Bool) → Tree → Value → Prop
  | word {force : Bool} {w : List Char} :
      Reading π force (.word w) (if force then .string (.ofList w) else .ofWord w)
  | literal {force : Bool} {s : String} : Reading π force (.literal s) (.string s)
  | list {force : Bool} {ts : List Tree} {vs : List Value} (items : Readings π force ts vs) :
      Reading π force (.list ts) (.list vs)
  | map {force : Bool} {es : List Entry} {m : Entries Value} (answer : π.map .proceed)
      (entries : AddingAll π force es [] m) : Reading π force (.map es) (.map m)
  /-- The whole map is deferred. -/
  | fragment {force : Bool} {es : List Entry} {f : Fragment} {signal : Signal}
      (answer : π.map signal) (deferred : signal ≠ .proceed)
      (text : f.Spells (.map es)) : Reading π force (.map es) (.fragment f)
  | call {force : Bool} {f : List Char} {ts : List Tree} {vs : List Value} {v : Value}
      (arguments : Readings π force ts vs) (answer : π.call (.ofList f) vs v) :
      Reading π force (.call f ts) v

inductive Readings (π : Policy) : (force : Bool) → List Tree → List Value → Prop
  | nil {force : Bool} : Readings π force [] []
  | cons {force : Bool} {t : Tree} {ts : List Tree} {v : Value} {vs : List Value}
      (first : Reading π force t v) (others : Readings π force ts vs) :
      Readings π force (t :: ts) (v :: vs)

/-- What an entry makes of a map under a policy. -/
inductive Adding (π : Policy) : (force : Bool) → Entry → Entries Value → Entries Value → Prop
  | pair {force : Bool} {key : String} {t : Tree} {v : Value} {m : Entries Value}
      (answer : π.entry key .proceed) (value : Reading π force t v) :
      Adding π force (.pair key t) m (m.put key v)
  | deferred {force : Bool} {key : String} {t : Tree} {f : Fragment} {m : Entries Value}
      (answer : π.entry key .fragment) (text : f.Spells t) :
      Adding π force (.pair key t) m (m.put key (.fragment f))
  | skippedPair {force : Bool} {key : String} {t : Tree} {m : Entries Value}
      (answer : π.entry key .skip) : Adding π force (.pair key t) m m
  | bare {force : Bool} {key : String} {m : Entries Value} {signal : Signal}
      (answer : π.entry key signal) (kept : signal ≠ .skip) :
      Adding π force (.bare key) m (m.put key (.boolean true))
  | skippedBare {force : Bool} {key : String} {m : Entries Value}
      (answer : π.entry key .skip) : Adding π force (.bare key) m m
  | merged {force : Bool} {es : List Entry} {new m : Entries Value}
      (entries : AddingAll π false es [] new) :
      Adding π force (.merged es) m (Entries.putAll new m)

inductive AddingAll (π : Policy) :
    (force : Bool) → List Entry → Entries Value → Entries Value → Prop
  | nil {force : Bool} {m : Entries Value} : AddingAll π force [] m m
  | cons {force : Bool} {e : Entry} {es : List Entry} {m m₁ m' : Entries Value}
      (first : Adding π force e m m₁) (others : AddingAll π force es m₁ m') :
      AddingAll π force (e :: es) m m'

end

theorem readings_of_chain {π : Policy} {force : Bool} {ts : List Tree} {vs vs' : List Value}
    (h : Chain (fun t vs vs' => ∃ v, Reading π force t v ∧ vs' = vs ++ [v]) ts vs vs') :
    ∃ new, Readings π force ts new ∧ vs' = vs ++ new := by
  induction h with
  | nil => exact ⟨[], .nil, by simp⟩
  | cons first _ ih =>
    obtain ⟨v, hv, rfl⟩ := first
    obtain ⟨new, hnew, rfl⟩ := ih
    exact ⟨v :: new, .cons hv hnew, by simp⟩

theorem addingAll_of_chain {π : Policy} {force : Bool} {es : List Entry}
    {m m' : Entries Value} (h : Chain (Adding π force) es m m') : AddingAll π force es m m' := by
  induction h with
  | nil => exact .nil
  | cons first _ ih => exact .cons first ih

/-- The answers of an environment that leaves everything to the evaluation. -/
def Policy.eager : Policy where
  entry _ signal := signal = .proceed
  map signal := signal = .proceed
  call function arguments v := v = .call function arguments

theorem Environment.simple_follows {σ : Type} (st : σ) :
    (Environment.simple : Environment σ).Follows .eager (fun _ st' => st' = st) where
  enter {opened _} scope context target h := by
    refine ⟨.proceed, st, by rw [h]; rfl, ?_, rfl⟩
    cases scope with
    | entry _ => rfl
    | map => rcases opened with - | ⟨⟨_ | _ | _ | _⟩, _⟩ <;> rfl
    | list | arguments _ => trivial
  leave context target h := ⟨.proceed, st, by rw [h]; rfl, rfl⟩
  resolve function arguments context h := ⟨_, st, by rw [h]; rfl, rfl, rfl⟩

mutual

/-- Read eagerly, a tree has no value but its own. -/
theorem Reading.eager {force : Bool} {t : Tree} {v : Value} (h : Reading .eager force t v) :
    v = t.value force := by
  cases h with
  | word => rw [Tree.value]
  | literal => rw [Tree.value]
  | list items => rw [Tree.value, items.eager]
  | map _ entries => rw [Tree.value, entries.eager]
  | fragment answer deferred _ => exact absurd answer deferred
  | call arguments answer => rw [Tree.value, answer, arguments.eager]

theorem Readings.eager {force : Bool} {ts : List Tree} {vs : List Value}
    (h : Readings .eager force ts vs) : vs = Tree.values force ts := by
  cases h with
  | nil => rw [Tree.values]
  | cons first others => rw [Tree.values, first.eager, others.eager]

theorem Adding.eager {force : Bool} {e : Entry} {m m' : Entries Value}
    (h : Adding .eager force e m m') : m' = e.into force m := by
  cases h with
  | pair _ value => rw [Entry.into, value.eager]
  | deferred answer _ | skippedPair answer | skippedBare answer => cases answer
  | bare _ _ => rw [Entry.into]
  | merged entries => rw [Entry.into, entries.eager]

theorem AddingAll.eager {force : Bool} {es : List Entry} {m m' : Entries Value}
    (h : AddingAll .eager force es m m') : m' = Entry.allInto force es m := by
  cases h with
  | nil => rw [Entry.allInto]
  | cons first others => rw [Entry.allInto, ← first.eager, others.eager]

end

end Cjson
