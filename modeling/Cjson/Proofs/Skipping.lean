import Cjson.Proofs.Exactness
import Cjson.Proofs.Numeral
import Cjson.Proofs.Slice

namespace Cjson

/-- What a host answers that wants to skip the keys with `skipped` and no others. -/
def Event.skipAnswer (skipped : String → Bool) : Event → Signal
  | .enter (.entry key) => if skipped key then .skip else .proceed
  | .enter _ | .leave _ => .proceed

/-- Skips the keys with `skipped`, and never interferes otherwise. Its state may keep
account of what it is told. -/
structure Environment.Skips {σ : Type} (env : Environment σ) (skipped : String → Bool) :
    Prop where
  resolve (function : String) (arguments : List Value) (context : Context) (st : σ) :
    (env.resolve function arguments context st).1 = .ok (.call function arguments)
  notify (e : Event) (context : Context) (target : e.scope.Target) (st : σ) :
    ∃ st', env.notify e context target st = (.ok (e.skipAnswer skipped), target, st')

namespace Value

mutual

/-- The value with every entry left out whose key has `skipped`. -/
def without (skipped : String → Bool) : Value → Value
  | list items => list (withoutItems skipped items)
  | map entries => map (withoutEntries skipped entries)
  | call f arguments => call f (withoutItems skipped arguments)
  | v => v

def withoutItems (skipped : String → Bool) : List Value → List Value
  | [] => []
  | v :: vs => v.without skipped :: withoutItems skipped vs

def withoutEntries (skipped : String → Bool) : Entries Value → Entries Value
  | [] => []
  | (key, v) :: rest =>
    if skipped key then withoutEntries skipped rest
    else (key, v.without skipped) :: withoutEntries skipped rest

end

variable {skipped : String → Bool}

/-- A skipped key leaves no trace, wherever it is put. -/
theorem withoutEntries_put_skipped {key : String} (hkey : skipped key = true) (v : Value)
    (m : Entries Value) : withoutEntries skipped (m.put key v) = withoutEntries skipped m := by
  induction m with
  | nil => simp [Entries.put, withoutEntries, hkey]
  | cons e m ih =>
    obtain ⟨k, w⟩ := e
    by_cases hk : k = key
    · simp [Entries.put, withoutEntries, hk, hkey]
    · simp [Entries.put, withoutEntries, hk, ih]

/-- Where a key is put does not depend on the skipped keys before it. -/
theorem withoutEntries_put {key : String} (hkey : skipped key = false) (v : Value)
    (m : Entries Value) :
    withoutEntries skipped (m.put key v) =
      (withoutEntries skipped m).put key (v.without skipped) := by
  induction m with
  | nil => simp [Entries.put, withoutEntries, hkey]
  | cons e m ih =>
    obtain ⟨k, w⟩ := e
    by_cases hk : k = key
    · simp [Entries.put, withoutEntries, hk, hkey]
    · cases hskipped : skipped k with
      | true => simp [Entries.put, withoutEntries, hk, hskipped, ih]
      | false => simp [Entries.put, withoutEntries, hk, hskipped, ih]

theorem withoutEntries_putAll (new m : Entries Value) :
    withoutEntries skipped (Entries.putAll new m) =
      Entries.putAll (withoutEntries skipped new) (withoutEntries skipped m) := by
  induction new generalizing m with
  | nil => simp [Entries.putAll, withoutEntries]
  | cons e new ih =>
    obtain ⟨key, v⟩ := e
    change withoutEntries skipped (Entries.putAll new (m.put key v)) = _
    rw [ih]
    cases hkey : skipped key with
    | true => simp [withoutEntries, hkey, withoutEntries_put_skipped hkey]
    | false =>
      rw [withoutEntries_put hkey]
      simp [withoutEntries, hkey, Entries.putAll]

end Value

/-- The answers of a host that skips keys. -/
def Policy.skipping (skipped : String → Bool) : Policy where
  entry key
    | .proceed => skipped key = false
    | .skip => skipped key = true
    | .fragment => False
  map signal := signal = .proceed
  call function arguments v := v = .call function arguments

theorem Policy.skipping_answers (skipped : String → Bool) (key : String) :
    (Policy.skipping skipped).entry key ((Event.enter (.entry key)).skipAnswer skipped) := by
  cases h : skipped key with
  | true =>
    rw [Event.skipAnswer, if_pos h]
    exact h
  | false =>
    rw [Event.skipAnswer, if_neg (by simp [h])]
    exact h

theorem Environment.Skips.follows {σ : Type} {env : Environment σ} {skipped : String → Bool}
    (h : env.Skips skipped) : env.Follows (.skipping skipped) fun _ _ => True where
  enter {opened st} scope context target _ := by
    obtain ⟨st', hnotify⟩ := h.notify (.enter scope) context target st
    refine ⟨_, st', hnotify, ?_, trivial⟩
    cases scope with
    | entry key => exact Policy.skipping_answers skipped key
    | list | arguments _ => trivial
    | map => rcases opened with - | ⟨⟨_ | _ | _ | _⟩, _⟩ <;> rfl
  leave {opened scope st} context target _ := by
    obtain ⟨st', hnotify⟩ := h.notify (.leave scope) context target st
    exact ⟨_, st', hnotify, trivial⟩
  resolve {opened st} function arguments context _ :=
    ⟨_, _, Prod.ext (h.resolve function arguments context st) rfl, rfl, trivial⟩

namespace Value

theorem Scalar.without {v : Value} (h : v.Scalar) (skipped : String → Bool) :
    v.without skipped = v := by
  cases h <;> rw [Value.without] <;> simp

end Value

section Readings

variable {skipped : String → Bool}

mutual

/-- Read with keys skipped, a tree has its own value without those keys. -/
theorem Reading.skipping {force : Bool} {t : Tree} {v : Value}
    (h : Reading (.skipping skipped) force t v) : v = (t.value force).without skipped := by
  cases h with
  | word =>
    rw [Tree.value]
    split
    · simp [Value.without]
    · rw [(Value.scalar_ofWord _).without]
  | literal => simp [Tree.value, Value.without]
  | list items => rw [Tree.value, Value.without, items.skipping]
  | map _ entries =>
    rw [Tree.value, Value.without, entries.skipping (n := []) (by rw [Value.withoutEntries])]
  | fragment answer deferred _ => exact absurd answer deferred
  | call arguments answer => rw [Tree.value, Value.without, answer, arguments.skipping]

theorem Readings.skipping {force : Bool} {ts : List Tree} {vs : List Value}
    (h : Readings (.skipping skipped) force ts vs) :
    vs = Value.withoutItems skipped (Tree.values force ts) := by
  cases h with
  | nil => rw [Tree.values, Value.withoutItems]
  | cons first others =>
    rw [Tree.values, Value.withoutItems, first.skipping, others.skipping]

theorem Adding.skipping {force : Bool} {e : Entry} {m m' n : Entries Value}
    (h : Adding (.skipping skipped) force e m m') (hm : m = Value.withoutEntries skipped n) :
    m' = Value.withoutEntries skipped (e.into force n) := by
  cases h with
  | pair answer value => rw [Entry.into, Value.withoutEntries_put answer, ← hm, value.skipping]
  | deferred answer _ => exact answer.elim
  | skippedPair answer => rw [Entry.into, Value.withoutEntries_put_skipped answer, hm]
  | @bare _ key _ signal answer kept =>
    have hkey : skipped key = false := by
      cases signal with
      | proceed => exact answer
      | skip => exact absurd rfl kept
      | fragment => exact answer.elim
    rw [Entry.into, Value.withoutEntries_put hkey, ← hm, Value.without]
    all_goals simp
  | skippedBare answer => rw [Entry.into, Value.withoutEntries_put_skipped answer, hm]
  | merged entries =>
    rw [Entry.into, Value.withoutEntries_putAll, ← hm,
      ← entries.skipping (n := []) (by rw [Value.withoutEntries])]

theorem AddingAll.skipping {force : Bool} {es : List Entry} {m m' n : Entries Value}
    (h : AddingAll (.skipping skipped) force es m m')
    (hm : m = Value.withoutEntries skipped n) :
    m' = Value.withoutEntries skipped (Entry.allInto force es n) := by
  cases h with
  | nil => rwa [Entry.allInto]
  | cons first others =>
    rw [Entry.allInto]
    exact others.skipping (first.skipping hm)

end

end Readings

/-- Where a host skips keys, what is evaluated is what it would have been, but without the
entries of those keys, at every depth. Whatever is evaluated without skipping is evaluated
then too. -/
theorem skipped_evaluation_filters {σ τ : Type} {env : Environment σ}
    {skipped : String → Bool} (henv : env.Skips skipped) (force : Bool) (source : Source)
    (st : σ) (st₀ : τ) :
    (∀ (m : Mode) (v : Value), (m.evaluate .simple force source st₀).1 = .ok v →
      (m.evaluate env force source st).1 = .ok (v.without skipped)) ∧
    (∀ (first last : Nat) (v : Value),
      (evaluateFragment .simple force (.ofOffsets source first last) st₀).1 = .ok v →
      (evaluateFragment env force (.ofOffsets source first last) st).1 =
        .ok (v.without skipped)) := by
  constructor
  · intro m v h
    obtain ⟨t, w, rfl, hrun, hw⟩ := Mode.evaluate_reading henv.follows rfl h trivial
    rw [hrun, hw.skipping]
  · intro first last v h
    obtain ⟨t, w, rfl, hrun, hw⟩ :=
      evaluateFragment_reading henv.follows (.ofFragment source first last) h trivial
    rw [hrun, hw.skipping]

/-- Skips keys and keeps no account of anything. -/
def Environment.skipping (skipped : String → Bool) : Environment Unit where
  resolve function arguments _ st := (.ok (.call function arguments), st)
  notify e _ target st := (.ok (e.skipAnswer skipped), target, st)

theorem Environment.skipping_skips (skipped : String → Bool) :
    (Environment.skipping skipped).Skips skipped where
  resolve _ _ _ _ := rfl
  notify _ _ _ st := ⟨st, rfl⟩

/-- In `{a,b}` the key `a` is skipped and `b` stays. -/
theorem skipped_evaluation_filters_map :
    (evaluate .simple false ⟨"\x7ba,b\x7d".toList, none⟩ ()).1 =
      .ok (.map [("a", .boolean true), ("b", .boolean true)]) ∧
    (evaluate (.skipping (· = "a")) false ⟨"\x7ba,b\x7d".toList, none⟩ ()).1 =
      .ok (.map [("b", .boolean true)]) := by
  have ha : Word ['a'] := .of_all rfl
  have hb : Word ['b'] := .of_all rfl
  have hmap : Tree.Spelled Word (.map [.bare "a", .bare "b"]) "\x7ba,b\x7d".toList :=
    .map .nil (.comma (.bare (.word ha)) .nil .nil (.last (.bare (.word hb)) .nil))
  have h : (evaluate .simple false ⟨"\x7ba,b\x7d".toList, none⟩ ()).1 =
      .ok (.map [("a", .boolean true), ("b", .boolean true)]) :=
    evaluate_simple_iff.mpr
      ⟨_, ⟨false, [], _, false, [], .nil, hmap, Gap.nil.before .nil, by simp⟩, by
        simp [Tree.value, Entry.allInto, Entry.into, Entries.put]⟩
  refine ⟨h, ?_⟩
  have hfilter := (skipped_evaluation_filters (Environment.skipping_skips (· = "a")) false
    ⟨"\x7ba,b\x7d".toList, none⟩ () ()).1 .single _ h
  rw [← show Value.without (· = "a") (.map [("a", .boolean true), ("b", .boolean true)]) =
    .map [("b", .boolean true)] by simp [Value.without, Value.withoutEntries]]
  exact hfilter

end Cjson
