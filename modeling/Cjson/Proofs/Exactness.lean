import Cjson.Proofs.Recognition

namespace Cjson

open Eval

variable {σ : Type}

theorem evaluate_simple_iff {force : Bool} {source : Source} {st : σ} {v : Value} :
    (evaluate .simple force source st).1 = .ok v ↔
      ∃ t : Tree, Sole (t.Spelled Word) source.text ∧ t.value force = v := by
  constructor
  · intro h
    obtain ⟨k', hrun⟩ := of_run (Prod.ext h rfl)
    obtain ⟨t, ht, rfl⟩ := of_single hrun
    exact ⟨t, ht, rfl⟩
  · intro h
    obtain ⟨t, ht, rfl⟩ := h
    obtain ⟨v, st', hrun, hv⟩ := evaluate_ends (Environment.simple_follows st) ht rfl
    rw [hrun, hv.eager]

theorem evaluateList_simple_iff {force : Bool} {source : Source} {st : σ}
    {vs : List Value} :
    (evaluateList .simple force source st).1 = .ok vs ↔
      ∃ ts, Layout (Tree.Spelled Word) ts source.text ∧ Tree.values force ts = vs := by
  constructor
  · intro h
    obtain ⟨k', hrun⟩ := of_run (Prod.ext h rfl)
    obtain ⟨ts, hts, rfl⟩ := of_openList hrun
    exact ⟨ts, hts, rfl⟩
  · intro h
    obtain ⟨ts, hts, rfl⟩ := h
    obtain ⟨vs, st', hrun, hvs⟩ := evaluateList_ends (Environment.simple_follows st) hts rfl
    rw [hrun, hvs.eager]

theorem evaluateMap_simple_iff {force : Bool} {source : Source} {st : σ}
    {m : Entries Value} :
    (evaluateMap .simple force source st).1 = .ok m ↔
      ∃ es, Layout (Entry.Spelled Word) es source.text ∧ Entry.allInto force es [] = m := by
  constructor
  · intro h
    obtain ⟨k', hrun⟩ := of_run (Prod.ext h rfl)
    obtain ⟨es, hes, rfl⟩ := of_openMap hrun
    exact ⟨es, hes, rfl⟩
  · intro h
    obtain ⟨es, hes, rfl⟩ := h
    obtain ⟨m, st', hrun, hm⟩ := evaluateMap_ends (Environment.simple_follows st) hes rfl
    rw [hrun, hm.eager]

/-- The three entry points are exact: each gives a result if and only if the text is laid
out as it should be, and the result is what the trees mean. -/
theorem simple_evaluation_exact (source : Source) (st : σ) :
    (∀ v, (evaluate .simple false source st).1 = .ok v ↔
      ∃ t : Tree, Sole (t.Spelled Word) source.text ∧ t.value false = v) ∧
    (∀ vs, (evaluateList .simple false source st).1 = .ok vs ↔
      ∃ ts, Layout (Tree.Spelled Word) ts source.text ∧ Tree.values false ts = vs) ∧
    (∀ m, (evaluateMap .simple false source st).1 = .ok m ↔
      ∃ es, Layout (Entry.Spelled Word) es source.text ∧ Entry.allInto false es [] = m) :=
  ⟨fun _ => evaluate_simple_iff, fun _ => evaluateList_simple_iff,
    fun _ => evaluateMap_simple_iff⟩

theorem of_map_eq_ok {ε α β : Type} {f : α → β} {x : Except ε α} {b : β}
    (h : x.map f = .ok b) : ∃ a, x = .ok a ∧ f a = b := by
  cases x with
  | error e => cases h
  | ok a =>
    cases h
    exact ⟨a, rfl, rfl⟩

section Readings

variable {τ : Type} {env : Environment τ} {π : Policy} {At : List Scope → τ → Prop}
  {force : Bool} {source : Source} {st₀ : σ} {st : τ} {v : Value}

/-- What is evaluated where nobody interferes is evaluated under any environment that keeps
to a policy, to a reading of the same tree. -/
theorem Mode.evaluate_reading (hf : env.Follows π At) (hproceed : π.map .proceed) {m : Mode}
    (h : (m.evaluate .simple force source st₀).1 = .ok v) (hst : At [] st) :
    ∃ (t : Tree) (w : Value), t.value force = v ∧
      (m.evaluate env force source st).1 = .ok w ∧ Reading π force t w := by
  cases m with
  | single =>
    obtain ⟨t, ht, rfl⟩ := evaluate_simple_iff.mp h
    obtain ⟨w, st', hrun, hw⟩ : ∃ w st', Cjson.evaluate env force source st =
        (.ok w, st') ∧ Reading π force t w := evaluate_ends hf ht hst
    exact ⟨t, w, rfl, congrArg Prod.fst hrun, hw⟩
  | list =>
    have hlist : (evaluateList .simple force source st₀).1.map Value.list = .ok v := h
    obtain ⟨vs, hvs, rfl⟩ := of_map_eq_ok hlist
    obtain ⟨ts, hts, rfl⟩ := evaluateList_simple_iff.mp hvs
    obtain ⟨ws, st', hrun, hws⟩ : ∃ ws st', evaluateList env force source st =
        (.ok ws, st') ∧ Readings π force ts ws := evaluateList_ends hf hts hst
    refine ⟨.list ts, .list ws, by rw [Tree.value], ?_, .list hws⟩
    rw [Mode.evaluate, hrun]
    rfl
  | map =>
    have hmap : (evaluateMap .simple force source st₀).1.map Value.map = .ok v := h
    obtain ⟨entries, hentries, rfl⟩ := of_map_eq_ok hmap
    obtain ⟨es, hes, rfl⟩ := evaluateMap_simple_iff.mp hentries
    obtain ⟨n, st', hrun, hn⟩ : ∃ n st', evaluateMap env force source st = (.ok n, st') ∧
        AddingAll π force es [] n := evaluateMap_ends hf hes hst
    refine ⟨.map es, .map n, by rw [Tree.value], ?_, .map hproceed hn⟩
    rw [Mode.evaluate, hrun]
    rfl

theorem evaluateFragment_reading (hf : env.Follows π At) {f : Fragment}
    (hin : (Cursor.ofFragment f).In f.source)
    (h : (evaluateFragment .simple force f st₀).1 = .ok v) (hst : At [] st) :
    ∃ (t : Tree) (w : Value), t.value force = v ∧
      (evaluateFragment env force f st).1 = .ok w ∧ Reading π force t w := by
  obtain ⟨k', hrun⟩ := of_run (Prod.ext h rfl)
  obtain ⟨t, ht, rfl⟩ := of_single hrun
  obtain ⟨w, s', hrun, hw, -⟩ := single_ends hf force ht hin hst
  exact ⟨t, w, rfl, congrArg Prod.fst (run_ok hrun), hw⟩

end Readings

/-- Words with a character besides the plus sign in front. -/
def LetteredWord (w : List Char) : Prop :=
  ∃ sign letters, w = sign ++ letters ∧ (sign = [] ∨ sign = ['+']) ∧ letters ≠ [] ∧
    ∀ c ∈ letters, Character.isWordChar c = true

theorem Tree.Spelled.not_only_plus {t : Tree} {s : List Char}
    (h : t.Spelled LetteredWord s) : ∃ c ∈ s, c ≠ '+' := by
  cases h with
  | word hw =>
    obtain ⟨sign, letters, rfl, -, hne, hletters⟩ := hw
    obtain ⟨c, hc⟩ := List.exists_mem_of_ne_nil letters hne
    refine ⟨c, List.mem_append_right sign hc, ?_⟩
    intro he
    subst he
    exact absurd (hletters _ hc) (by decide)
  | literal hl =>
    cases hl with
    | @quoted q _ _ hq _ =>
      refine ⟨q, by simp, ?_⟩
      rcases hq with rfl | rfl <;> decide
    | raw _ _ => exact ⟨'r', by simp, by decide⟩
  | list _ _ => exact ⟨'[', by simp, by decide⟩
  | map _ _ => exact ⟨'\x7b', by simp, by decide⟩
  | call _ _ _ _ => exact ⟨'(', by simp, by decide⟩

/-- A plus sign alone is a word, although there is no character behind it. -/
theorem plus_alone_evaluates :
    (evaluate .simple false ⟨"+".toList, none⟩ ()).1 = .ok (.string "+") ∧
      ¬∃ t : Tree, Sole (t.Spelled LetteredWord) "+".toList ∧
        t.value false = .string "+" := by
  constructor
  · refine evaluate_simple_iff.mpr ⟨.word ['+'], ?_, rfl⟩
    have hw : Word ['+'] := ⟨by simp, ['+'], [], rfl, .inr rfl, by simp⟩
    exact ⟨false, [], ['+'], false, [], .nil, .word hw, Gap.nil.before .nil, rfl⟩
  · intro h
    obtain ⟨t, ⟨b, g, s, b', g', -, hs, -, htext⟩, -⟩ := h
    obtain ⟨c, hc, hne⟩ := hs.not_only_plus
    have hmem : c ∈ "+".toList := by
      rw [htext]
      simp [hc]
    exact hne (by simpa using hmem)

end Cjson
