import Cjson.Proofs.Exactness
import Cjson.Proofs.Numeral

namespace Cjson

/-- Whether the value of a key or a map may be kept as a fragment. A map directly in a map
stands in place of a key, and its entries are needed at once. -/
def Scope.deferrable : (opened : List Scope) → Scope → Bool
  | _, .entry _ => true
  | .map :: _, .map => false
  | _, .map => true
  | _, .list | _, .arguments _ => false

/-- The answer about a scope where `fragment` is not passed on unless that is possible. -/
def Scope.defer (opened : List Scope) (scope : Scope) :
    Except EnvironmentError Signal → Signal
  | .ok .fragment => if scope.deferrable opened then .fragment else .proceed
  | _ => .proceed

/-- Keeps as a fragment what `env` would keep, where that is possible. Otherwise it never
interferes, and calls are left as they are. What `env` would keep may depend on all that
it was told. -/
def Environment.deferring {σ : Type} (env : Environment σ) : Environment (List Scope × σ) where
  resolve function arguments context := fun (opened, st) =>
    (.ok (.call function arguments), opened, (env.resolve function arguments context st).2)
  notify
    | .enter scope, context, target => fun (opened, st) =>
      let (answer, _, st) := env.notify (.enter scope) context target st
      (.ok (scope.defer opened answer), target, scope :: opened, st)
    | .leave scope, context, target => fun (opened, st) =>
      let (_, _, st) := env.notify (.leave scope) context target st
      (.ok .proceed, target, opened.tail, st)

namespace Value

mutual

/-- Evaluates the fragments that were kept, and fails where one of them does. -/
def fill : Value → Except EvaluationError Value
  | fragment f => (evaluateFragment .simple false f ()).1
  | list items => list <$> fillItems items
  | map entries => map <$> fillEntries entries
  | call f arguments => call f <$> fillItems arguments
  | v => .ok v

def fillItems : List Value → Except EvaluationError (List Value)
  | [] => .ok []
  | v :: vs => do return (← fill v) :: (← fillItems vs)

def fillEntries : Entries Value → Except EvaluationError (Entries Value)
  | [] => .ok []
  | (key, v) :: rest => do return (key, ← fill v) :: (← fillEntries rest)

end

end Value

/-- The answers of an environment that defers some of the evaluation. -/
def Policy.deferring : Policy where
  entry _ signal := signal ≠ .skip
  map signal := signal ≠ .skip
  call function arguments v := v = .call function arguments

theorem Scope.defer_ne_skip (opened : List Scope) (scope : Scope)
    (answer : Except EnvironmentError Signal) : scope.defer opened answer ≠ .skip := by
  unfold defer
  split
  · split <;> simp
  · simp

theorem Scope.defer_of_not_deferrable {opened : List Scope} {scope : Scope}
    (h : scope.deferrable opened = false) (answer : Except EnvironmentError Signal) :
    scope.defer opened answer = .proceed := by
  unfold defer
  split
  · simp [h]
  · rfl

theorem Policy.deferring_answers (opened : List Scope) (scope : Scope)
    (answer : Except EnvironmentError Signal) :
    Policy.deferring.Answers opened scope (scope.defer opened answer) := by
  cases scope with
  | list | arguments _ => trivial
  | entry _ => exact Scope.defer_ne_skip _ _ _
  | map =>
    cases opened with
    | nil => exact Scope.defer_ne_skip _ _ _
    | cons scope opened =>
      cases scope with
      | map => exact Scope.defer_of_not_deferrable rfl answer
      | entry _ | arguments _ | list => exact Scope.defer_ne_skip _ _ _

theorem Environment.deferring_follows {σ : Type} (env : Environment σ) :
    env.deferring.Follows .deferring fun opened st => st.1 = opened where
  enter {opened st} scope context target h := by
    subst h
    exact ⟨_, _, rfl, Policy.deferring_answers _ _ _, rfl⟩
  leave {opened scope st} context target h := by
    refine ⟨_, _, rfl, ?_⟩
    simp [h]
  resolve {opened st} function arguments context h := ⟨_, _, rfl, rfl, h⟩

namespace Value

theorem Scalar.fill {v : Value} (h : v.Scalar) : v.fill = .ok v := by
  cases h <;> rw [Value.fill] <;> simp

theorem fill_fragment {f : Fragment} {t : Tree} (h : f.Spells t) :
    (fragment f).fill = .ok (t.value false) := by
  obtain ⟨v, st, hrun, hv⟩ := evaluateFragment_ends (Environment.simple_follows ()) h rfl
  rw [fill, hrun, hv.eager]

theorem fillItems_cons {v v' : Value} {vs vs' : List Value} (hv : v.fill = .ok v')
    (hvs : fillItems vs = .ok vs') : fillItems (v :: vs) = .ok (v' :: vs') := by
  rw [fillItems, hv, hvs]
  rfl

theorem fillEntries_cons {key : String} {v v' : Value} {m m' : Entries Value}
    (hv : v.fill = .ok v') (hm : fillEntries m = .ok m') :
    fillEntries ((key, v) :: m) = .ok ((key, v') :: m') := by
  rw [fillEntries, hv, hm]
  rfl

theorem of_fillEntries_cons {key : String} {v : Value} {m filled : Entries Value}
    (h : fillEntries ((key, v) :: m) = .ok filled) :
    ∃ v' m', v.fill = .ok v' ∧ fillEntries m = .ok m' ∧ filled = (key, v') :: m' := by
  rw [fillEntries] at h
  cases hv : v.fill with
  | error e =>
    rw [hv] at h
    cases h
  | ok v' =>
    cases hm : fillEntries m with
    | error e =>
      rw [hv, hm] at h
      cases h
    | ok m' =>
      rw [hv, hm] at h
      cases h
      exact ⟨v', m', rfl, rfl, rfl⟩

/-- Filling and putting commute, so keys keep their places. -/
theorem fillEntries_put {key : String} {v v' : Value} {m m' : Entries Value}
    (hv : v.fill = .ok v') (hm : fillEntries m = .ok m') :
    fillEntries (m.put key v) = .ok (m'.put key v') := by
  induction m generalizing m' with
  | nil =>
    rw [fillEntries] at hm
    cases hm
    exact fillEntries_cons hv (by rw [fillEntries])
  | cons e m ih =>
    obtain ⟨k, w⟩ := e
    obtain ⟨w', n, hw, hn, rfl⟩ := of_fillEntries_cons hm
    by_cases hk : k = key
    · simp only [Entries.put, hk, if_true]
      exact fillEntries_cons hv hn
    · simp only [Entries.put, hk, if_false]
      exact fillEntries_cons hw (ih hn)

theorem fillEntries_putAll {new new' m m' : Entries Value} (hnew : fillEntries new = .ok new')
    (hm : fillEntries m = .ok m') :
    fillEntries (Entries.putAll new m) = .ok (Entries.putAll new' m') := by
  induction new generalizing m m' new' with
  | nil =>
    rw [fillEntries] at hnew
    cases hnew
    exact hm
  | cons e new ih =>
    obtain ⟨k, w⟩ := e
    obtain ⟨w', n, hw, hn, rfl⟩ := of_fillEntries_cons hnew
    change fillEntries (Entries.putAll new (m.put k w)) =
      .ok (Entries.putAll n (m'.put k w'))
    exact ih hn (fillEntries_put hw hm)

end Value

mutual

/-- Whatever was deferred, filling it in later gives the tree's value. -/
theorem Reading.fill {t : Tree} {v : Value} (h : Reading .deferring false t v) :
    v.fill = .ok (t.value false) := by
  cases h with
  | word =>
    rw [Tree.value]
    exact (Value.scalar_ofWord _).fill
  | literal => rw [Tree.value, Value.fill] <;> simp
  | list items => rw [Tree.value, Value.fill, items.fill]; rfl
  | map _ entries =>
    rw [Tree.value, Value.fill, entries.fill (by rw [Value.fillEntries])]
    rfl
  | fragment _ _ text => exact Value.fill_fragment text
  | call arguments answer =>
    cases answer
    rw [Tree.value, Value.fill, arguments.fill]
    rfl

theorem Readings.fill {ts : List Tree} {vs : List Value}
    (h : Readings .deferring false ts vs) :
    Value.fillItems vs = .ok (Tree.values false ts) := by
  cases h with
  | nil => rw [Tree.values, Value.fillItems]
  | cons first others =>
    rw [Tree.values]
    exact Value.fillItems_cons first.fill others.fill

theorem Adding.fill {e : Entry} {m m' n : Entries Value} (h : Adding .deferring false e m m')
    (hm : Value.fillEntries m = .ok n) : Value.fillEntries m' = .ok (e.into false n) := by
  cases h with
  | pair _ value =>
    rw [Entry.into]
    exact Value.fillEntries_put value.fill hm
  | deferred _ text =>
    rw [Entry.into]
    exact Value.fillEntries_put (Value.fill_fragment text) hm
  | skippedPair answer | skippedBare answer => exact absurd rfl answer
  | bare _ _ =>
    rw [Entry.into]
    exact Value.fillEntries_put (by rw [Value.fill] <;> simp) hm
  | merged entries =>
    rw [Entry.into]
    exact Value.fillEntries_putAll (entries.fill (by rw [Value.fillEntries])) hm

theorem AddingAll.fill {es : List Entry} {m m' n : Entries Value}
    (h : AddingAll .deferring false es m m') (hm : Value.fillEntries m = .ok n) :
    Value.fillEntries m' = .ok (Entry.allInto false es n) := by
  cases h with
  | nil => rwa [Entry.allInto]
  | cons first others =>
    rw [Entry.allInto]
    exact others.fill (first.fill hm)

end

/-- What is evaluated at once can be evaluated in parts, and then filled in to the same
value: whatever is kept as a fragment on the way, the evaluation succeeds and so do those
of the fragments. -/
theorem deferred_evaluation_fills {σ τ : Type} (env : Environment σ) (m : Mode)
    (source : Source) (st : σ) (st₀ : τ) {v : Value}
    (h : (m.evaluate .simple false source st₀).1 = .ok v) :
    ∃ w, (m.evaluate env.deferring false source ([], st)).1 = .ok w ∧ w.fill = .ok v := by
  have hf := env.deferring_follows
  cases m with
  | single =>
    obtain ⟨t, ht, rfl⟩ := evaluate_simple_iff.mp h
    obtain ⟨w, st', hrun, hw⟩ : ∃ w st', evaluate env.deferring false source ([], st) =
        (.ok w, st') ∧ Reading .deferring false t w := evaluate_ends hf ht rfl
    refine ⟨w, ?_, hw.fill⟩
    rw [Mode.evaluate, hrun]
  | list =>
    have hlist : (evaluateList .simple false source st₀).1.map .list = .ok v := h
    obtain ⟨vs, hvs, rfl⟩ := of_map_eq_ok hlist
    obtain ⟨ts, hts, rfl⟩ := evaluateList_simple_iff.mp hvs
    obtain ⟨ws, st', hrun, hws⟩ : ∃ ws st', evaluateList env.deferring false source ([], st) =
        (.ok ws, st') ∧ Readings .deferring false ts ws := evaluateList_ends hf hts rfl
    refine ⟨.list ws, ?_, ?_⟩
    · rw [Mode.evaluate, hrun]
      rfl
    · rw [Value.fill, hws.fill]
      rfl
  | map =>
    have hmap : (evaluateMap .simple false source st₀).1.map .map = .ok v := h
    obtain ⟨entries, hentries, rfl⟩ := of_map_eq_ok hmap
    obtain ⟨es, hes, rfl⟩ := evaluateMap_simple_iff.mp hentries
    obtain ⟨n, st', hrun, hn⟩ : ∃ n st', evaluateMap env.deferring false source ([], st) =
        (.ok n, st') ∧ AddingAll .deferring false es [] n := evaluateMap_ends hf hes rfl
    refine ⟨.map n, ?_, ?_⟩
    · rw [Mode.evaluate, hrun]
      rfl
    · rw [Value.fill, hn.fill (by rw [Value.fillEntries])]
      rfl

/-- Keeps whatever it can as a fragment. -/
def Environment.lazy : Environment Unit where
  resolve function arguments _ st := (.ok (.call function arguments), st)
  notify _ _ target st := (.ok .fragment, target, st)

theorem deferred_evaluation_fills_map :
    (Mode.single.evaluate .simple false ⟨"\x7bb\x7d".toList, none⟩ ()).1 =
      .ok (.map [("b", .boolean true)]) ∧
    ∃ w, (Mode.single.evaluate Environment.lazy.deferring false ⟨"\x7bb\x7d".toList, none⟩
        ([], ())).1 = .ok w ∧
      w.fill = .ok (.map [("b", .boolean true)]) := by
  have hword : Word ['b'] := ⟨by simp, [], ['b'], rfl, .inl rfl, by simp [Character.isWordChar]⟩
  have hmap : Tree.Spelled Word (.map [.bare "b"]) "\x7bb\x7d".toList :=
    .map .nil (.last (.bare (.word hword)) .nil)
  have h : (Mode.single.evaluate .simple false ⟨"\x7bb\x7d".toList, none⟩ ()).1 =
      .ok (.map [("b", .boolean true)]) :=
    evaluate_simple_iff.mpr
      ⟨_, ⟨false, [], _, false, [], .nil, hmap, Gap.nil.before .nil, by simp⟩, rfl⟩
  exact ⟨h, deferred_evaluation_fills .lazy .single _ () () h⟩

end Cjson
