import Cjson.Proofs.Exactness
import Cjson.Proofs.Numeral
import Cjson.Proofs.Slice

namespace Cjson

/-- Resolves each call by a function of its name and its arguments, and never interferes
otherwise. Its state may keep account of what it is told. -/
structure Environment.Resolves {σ : Type} (env : Environment σ)
    (resolution : String → List Value → Value) : Prop where
  resolve (function : String) (arguments : List Value) (context : Context) (st : σ) :
    (env.resolve function arguments context st).1 = .ok (resolution function arguments)
  notify (e : Event) (context : Context) (target : e.scope.Target) (st : σ) :
    ∃ st', env.notify e context target st = (.ok .proceed, target, st')

namespace Value

mutual

/-- The value with its calls resolved, those among the arguments of another call first. What
a call is resolved to may have calls in it again, which are left as they are. -/
def resolved (resolution : String → List Value → Value) : Value → Value
  | list items => list (resolvedItems resolution items)
  | map entries => map (resolvedEntries resolution entries)
  | call f arguments => resolution f (resolvedItems resolution arguments)
  | v => v

def resolvedItems (resolution : String → List Value → Value) : List Value → List Value
  | [] => []
  | v :: vs => v.resolved resolution :: resolvedItems resolution vs

def resolvedEntries (resolution : String → List Value → Value) : Entries Value → Entries Value
  | [] => []
  | (key, v) :: rest => (key, v.resolved resolution) :: resolvedEntries resolution rest

end

variable {resolution : String → List Value → Value}

/-- A value that is overwritten later may or may not be resolved before. -/
theorem resolvedEntries_put (key : String) (v : Value) (m : Entries Value) :
    resolvedEntries resolution (m.put key v) =
      (resolvedEntries resolution m).put key (v.resolved resolution) := by
  induction m with
  | nil => simp [Entries.put, resolvedEntries]
  | cons e m ih =>
    obtain ⟨k, w⟩ := e
    by_cases hk : k = key
    · simp [Entries.put, resolvedEntries, hk]
    · simp [Entries.put, resolvedEntries, hk, ih]

theorem resolvedEntries_putAll (new m : Entries Value) :
    resolvedEntries resolution (Entries.putAll new m) =
      Entries.putAll (resolvedEntries resolution new) (resolvedEntries resolution m) := by
  induction new generalizing m with
  | nil => simp [Entries.putAll, resolvedEntries]
  | cons e new ih =>
    obtain ⟨key, v⟩ := e
    change resolvedEntries resolution (Entries.putAll new (m.put key v)) = _
    rw [ih, resolvedEntries_put, resolvedEntries]
    rfl

theorem Scalar.resolved {v : Value} (h : v.Scalar)
    (resolution : String → List Value → Value) : v.resolved resolution = v := by
  cases h <;> rw [Value.resolved] <;> simp

end Value

/-- The answers of an environment that resolves calls. -/
def Policy.resolving (resolution : String → List Value → Value) : Policy where
  entry _ signal := signal = .proceed
  map signal := signal = .proceed
  call function arguments v := v = resolution function arguments

theorem Environment.Resolves.follows {σ : Type} {env : Environment σ}
    {resolution : String → List Value → Value} (h : env.Resolves resolution) :
    env.Follows (.resolving resolution) fun _ _ => True where
  enter {opened st} scope context target _ := by
    obtain ⟨st', hnotify⟩ := h.notify (.enter scope) context target st
    refine ⟨_, st', hnotify, ?_, trivial⟩
    cases scope with
    | entry _ => rfl
    | list | arguments _ => trivial
    | map => rcases opened with - | ⟨⟨_ | _ | _ | _⟩, _⟩ <;> rfl
  leave {opened scope st} context target _ := by
    obtain ⟨st', hnotify⟩ := h.notify (.leave scope) context target st
    exact ⟨_, st', hnotify, trivial⟩
  resolve {opened st} function arguments context _ :=
    ⟨_, _, Prod.ext (h.resolve function arguments context st) rfl, rfl, trivial⟩

section Readings

variable {resolution : String → List Value → Value}

mutual

/-- Read with its calls resolved, a tree has its own value with the calls in it resolved. -/
theorem Reading.resolving {force : Bool} {t : Tree} {v : Value}
    (h : Reading (.resolving resolution) force t v) :
    v = (t.value force).resolved resolution := by
  cases h with
  | word =>
    rw [Tree.value]
    split
    · exact ((Value.Scalar.string _).resolved resolution).symm
    · exact ((Value.scalar_ofWord _).resolved resolution).symm
  | literal =>
    rw [Tree.value]
    exact ((Value.Scalar.string _).resolved resolution).symm
  | list items => rw [Tree.value, Value.resolved, items.resolving]
  | map _ entries =>
    rw [Tree.value, Value.resolved,
      entries.resolving (n := []) (by rw [Value.resolvedEntries])]
  | fragment answer deferred _ => exact absurd answer deferred
  | call arguments answer => rw [Tree.value, Value.resolved, answer, arguments.resolving]

theorem Readings.resolving {force : Bool} {ts : List Tree} {vs : List Value}
    (h : Readings (.resolving resolution) force ts vs) :
    vs = Value.resolvedItems resolution (Tree.values force ts) := by
  cases h with
  | nil => rw [Tree.values, Value.resolvedItems]
  | cons first others =>
    rw [Tree.values, Value.resolvedItems, first.resolving, others.resolving]

theorem Adding.resolving {force : Bool} {e : Entry} {m m' n : Entries Value}
    (h : Adding (.resolving resolution) force e m m')
    (hm : m = Value.resolvedEntries resolution n) :
    m' = Value.resolvedEntries resolution (e.into force n) := by
  cases h with
  | pair _ value => rw [Entry.into, Value.resolvedEntries_put, ← hm, value.resolving]
  | deferred answer _ | skippedPair answer | skippedBare answer => cases answer
  | bare _ _ =>
    rw [Entry.into, Value.resolvedEntries_put, ← hm, (Value.Scalar.boolean _).resolved]
  | merged entries =>
    rw [Entry.into, Value.resolvedEntries_putAll, ← hm,
      ← entries.resolving (n := []) (by rw [Value.resolvedEntries])]

theorem AddingAll.resolving {force : Bool} {es : List Entry} {m m' n : Entries Value}
    (h : AddingAll (.resolving resolution) force es m m')
    (hm : m = Value.resolvedEntries resolution n) :
    m' = Value.resolvedEntries resolution (Entry.allInto force es n) := by
  cases h with
  | nil => rwa [Entry.allInto]
  | cons first others =>
    rw [Entry.allInto]
    exact others.resolving (first.resolving hm)

end

end Readings

/-- Where calls are resolved at once, what is evaluated is what it would have been with calls
left as they are, and these resolved afterwards, from the inside out. Whatever is evaluated
with its calls left is evaluated then too. -/
theorem resolved_evaluation_agrees {σ τ : Type} {env : Environment σ}
    {resolution : String → List Value → Value} (henv : env.Resolves resolution) (force : Bool)
    (source : Source) (st : σ) (st₀ : τ) :
    (∀ (m : Mode) (v : Value), (m.evaluate .simple force source st₀).1 = .ok v →
      (m.evaluate env force source st).1 = .ok (v.resolved resolution)) ∧
    (∀ (first last : Nat) (v : Value),
      (evaluateFragment .simple force (.ofOffsets source first last) st₀).1 = .ok v →
      (evaluateFragment env force (.ofOffsets source first last) st).1 =
        .ok (v.resolved resolution)) := by
  constructor
  · intro m v h
    obtain ⟨t, w, rfl, hrun, hw⟩ := Mode.evaluate_reading henv.follows rfl h trivial
    rw [hrun, hw.resolving]
  · intro first last v h
    obtain ⟨t, w, rfl, hrun, hw⟩ :=
      evaluateFragment_reading henv.follows (.ofFragment source first last) h trivial
    rw [hrun, hw.resolving]

/-- Resolves calls and keeps no account of anything. -/
def Environment.resolving (resolution : String → List Value → Value) : Environment Unit where
  resolve function arguments _ st := (.ok (resolution function arguments), st)
  notify _ _ target st := (.ok .proceed, target, st)

theorem Environment.resolving_resolves (resolution : String → List Value → Value) :
    (Environment.resolving resolution).Resolves resolution where
  resolve _ _ _ _ := rfl
  notify _ _ _ st := ⟨st, rfl⟩

/-- Where a call of `f` is `null` and any other call a list of its arguments, the call of `f`
within one of `g` is resolved first. -/
theorem resolved_evaluation_agrees_call :
    (evaluate .simple false ⟨"g(f())".toList, none⟩ ()).1 =
      .ok (.call "g" [.call "f" []]) ∧
    (evaluate (.resolving fun f vs => if f = "f" then .null else .list vs) false
      ⟨"g(f())".toList, none⟩ ()).1 = .ok (.list [.null]) := by
  have hf : Word ['f'] := .of_all rfl
  have hg : Word ['g'] := .of_all rfl
  have hcall : Tree.Spelled Word (.call ['g'] [.call ['f'] []]) "g(f())".toList :=
    .call hg .nil .nil (.last (.call hf .nil .nil .nil) .nil)
  have h : (evaluate .simple false ⟨"g(f())".toList, none⟩ ()).1 =
      .ok (.call "g" [.call "f" []]) :=
    evaluate_simple_iff.mpr
      ⟨_, ⟨false, [], _, false, [], .nil, hcall, Gap.nil.before .nil, by simp⟩, rfl⟩
  refine ⟨h, ?_⟩
  have hresolved := (resolved_evaluation_agrees (Environment.resolving_resolves
    fun f vs => if f = "f" then .null else .list vs) false ⟨"g(f())".toList, none⟩ () ()).1
    .single _ h
  rw [← show Value.resolved (fun f vs => if f = "f" then .null else .list vs)
    (.call "g" [.call "f" []]) = .list [.null] by simp [Value.resolved, Value.resolvedItems]]
  exact hresolved

end Cjson
