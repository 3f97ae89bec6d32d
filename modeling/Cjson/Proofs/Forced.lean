import Cjson.Proofs.RoundTrip

namespace Cjson

open Eval

mutual

/-- What an expression may mean where words are forced to be strings: its scalars are
strings, or `true` for a bare key. Maps that join others are beyond that. -/
inductive Tree.Forced : Tree → Value → Prop
  | word (w : List Char) : Tree.Forced (.word w) (.string (.ofList w))
  | literal (s : String) : Tree.Forced (.literal s) (.string s)
  | list {items : List Tree} {vs : List Value} (each : List.Forall₂ Tree.Forced items vs) :
      Tree.Forced (.list items) (.list vs)
  | map {entries : List Entry} {m : Entries Value}
      (each : ∀ e ∈ m, Entry.Forced entries e.1 e.2) : Tree.Forced (.map entries) (.map m)
  | call {f : List Char} {arguments : List Tree} {vs : List Value}
      (each : List.Forall₂ Tree.Forced arguments vs) :
      Tree.Forced (.call f arguments) (.call (.ofList f) vs)

/-- What the entries of a map may put at a key. -/
inductive Entry.Forced : List Entry → String → Value → Prop
  | pair {entries : List Entry} {key : String} {t : Tree} {v : Value}
      (member : .pair key t ∈ entries) (value : Tree.Forced t v) : Entry.Forced entries key v
  | bare {entries : List Entry} {key : String} (member : .bare key ∈ entries) :
      Entry.Forced entries key (.boolean true)
  | merged {entries inner : List Entry} {key : String} {v : Value}
      (member : .merged inner ∈ entries) (unforced : (key, v) ∈ Entry.allInto false inner []) :
      Entry.Forced entries key v

end

mutual

/-- No map in the expression joins another one. -/
def Tree.Unmerged : Tree → Prop
  | .word _ | .literal _ => True
  | .list items => Tree.AllUnmerged items
  | .map entries => Entry.AllUnmerged entries
  | .call _ arguments => Tree.AllUnmerged arguments

def Tree.AllUnmerged : List Tree → Prop
  | [] => True
  | t :: ts => t.Unmerged ∧ Tree.AllUnmerged ts

def Entry.AllUnmerged : List Entry → Prop
  | [] => True
  | .pair _ t :: es => t.Unmerged ∧ Entry.AllUnmerged es
  | .bare _ :: es => Entry.AllUnmerged es
  | .merged _ :: _ => False

end

/-- Data whose scalars are strings, or `true` in place of a value in a map. -/
inductive Value.Textual : Value → Prop
  | string (s : String) : Textual (string s)
  | list {items : List Value} (each : ∀ v ∈ items, Textual v) : Textual (list items)
  | map {entries : Entries Value} (each : ∀ e ∈ entries, e.2 ≠ boolean true → Textual e.2) :
      Textual (map entries)
  | call (function : String) {arguments : List Value} (each : ∀ v ∈ arguments, Textual v) :
      Textual (call function arguments)

theorem Entry.Forced.mono {entries others : List Entry} {key : String} {v : Value}
    (h : Entry.Forced entries key v) (hsub : entries ⊆ others) :
    Entry.Forced others key v := by
  cases h with
  | pair member value => exact .pair (hsub member) value
  | bare member => exact .bare (hsub member)
  | merged member unforced => exact .merged (hsub member) unforced

/-- Entries that are put into a map come from where its entries did, or are new. -/
theorem Entries.mem_put {α : Type} {key : String} {a : α} {m : Entries α} {e : String × α}
    (h : e ∈ put key a m) : e = (key, a) ∨ e ∈ m := by
  induction m with
  | nil => exact .inl (List.mem_singleton.mp h)
  | cons f rest ih =>
    by_cases hk : f.1 = key
    · rw [put, if_pos hk, hk] at h
      rcases List.mem_cons.mp h with he | he
      · exact .inl he
      · exact .inr (List.mem_cons_of_mem f he)
    · rw [put, if_neg hk] at h
      rcases List.mem_cons.mp h with rfl | he
      · exact .inr List.mem_cons_self
      · rcases ih he with he | he
        · exact .inl he
        · exact .inr (List.mem_cons_of_mem f he)

theorem Entries.mem_putAll {α : Type} {new m : Entries α} {e : String × α}
    (h : e ∈ putAll new m) : e ∈ new ∨ e ∈ m := by
  induction new generalizing m with
  | nil => exact .inr h
  | cons f rest ih =>
    rcases ih h with he | he
    · exact .inl (List.mem_cons_of_mem f he)
    · rcases mem_put he with rfl | he
      · exact .inl List.mem_cons_self
      · exact .inr he

mutual

theorem Tree.forced : ∀ t : Tree, t.Forced (t.value true)
  | .word w => by
    rw [Tree.value, if_pos rfl]
    exact .word w
  | .literal s => by
    rw [Tree.value]
    exact .literal s
  | .list items => by
    rw [Tree.value]
    exact .list (Tree.values_forced items)
  | .map entries => by
    rw [Tree.value]
    refine .map fun e he => ?_
    rcases Entry.allInto_forced entries he with hm | hf
    · cases hm
    · exact hf
  | .call f arguments => by
    rw [Tree.value]
    exact .call (Tree.values_forced arguments)

theorem Tree.values_forced : ∀ ts : List Tree, List.Forall₂ Tree.Forced ts (Tree.values true ts)
  | [] => by
    rw [Tree.values]
    exact .nil
  | t :: ts => by
    rw [Tree.values]
    exact .cons (Tree.forced t) (Tree.values_forced ts)

theorem Entry.allInto_forced : ∀ (es : List Entry) {m : Entries Value} {e : String × Value},
    e ∈ Entry.allInto true es m → e ∈ m ∨ Entry.Forced es e.1 e.2
  | [], m, e => by
    intro he
    rw [Entry.allInto] at he
    exact .inl he
  | f :: es, m, e => by
    intro he
    rw [Entry.allInto] at he
    rcases Entry.allInto_forced es he with he | hf
    · exact Entry.into_forced f es he
    · exact .inr (hf.mono (List.subset_cons_self f es))

theorem Entry.into_forced : ∀ (f : Entry) (es : List Entry) {m : Entries Value}
    {e : String × Value}, e ∈ f.into true m → e ∈ m ∨ Entry.Forced (f :: es) e.1 e.2
  | .pair key t, es, m, e => by
    intro he
    rw [Entry.into] at he
    rcases Entries.mem_put he with rfl | he
    · exact .inr (.pair List.mem_cons_self (Tree.forced t))
    · exact .inl he
  | .bare key, es, m, e => by
    intro he
    rw [Entry.into] at he
    rcases Entries.mem_put he with rfl | he
    · exact .inr (.bare List.mem_cons_self)
    · exact .inl he
  | .merged entries, es, m, e => by
    intro he
    rw [Entry.into] at he
    rcases Entries.mem_putAll he with he | he
    · exact .inr (.merged List.mem_cons_self he)
    · exact .inl he

end

mutual

theorem Tree.textual : ∀ t : Tree, t.Unmerged → (t.value true).Textual
  | .word w => by
    intro _
    rw [Tree.value, if_pos rfl]
    exact .string _
  | .literal s => by
    intro _
    rw [Tree.value]
    exact .string s
  | .list items => by
    intro h
    rw [Tree.Unmerged] at h
    rw [Tree.value]
    exact .list (Tree.values_textual items h)
  | .map entries => by
    intro h
    rw [Tree.Unmerged] at h
    rw [Tree.value]
    exact .map (Entry.allInto_textual entries h (by simp))
  | .call f arguments => by
    intro h
    rw [Tree.Unmerged] at h
    rw [Tree.value]
    exact .call _ (Tree.values_textual arguments h)

theorem Tree.values_textual : ∀ ts : List Tree, Tree.AllUnmerged ts →
    ∀ v ∈ Tree.values true ts, v.Textual
  | [] => by
    intro _ v hv
    rw [Tree.values] at hv
    cases hv
  | t :: ts => by
    intro h v hv
    rw [Tree.AllUnmerged] at h
    rw [Tree.values] at hv
    rcases List.mem_cons.mp hv with rfl | hv
    · exact Tree.textual t h.1
    · exact Tree.values_textual ts h.2 v hv

theorem Entry.allInto_textual : ∀ (es : List Entry) {m : Entries Value}, Entry.AllUnmerged es →
    (∀ e ∈ m, e.2 ≠ .boolean true → e.2.Textual) →
    ∀ e ∈ Entry.allInto true es m, e.2 ≠ .boolean true → e.2.Textual
  | [], m => by
    intro _ hm
    rw [Entry.allInto]
    exact hm
  | .pair key t :: es, m => by
    intro h hm
    rw [Entry.AllUnmerged] at h
    rw [Entry.allInto, Entry.into]
    exact Entry.allInto_textual es h.2
      (Entries.put_all (P := fun v : Value => v ≠ .boolean true → v.Textual)
        (fun _ => Tree.textual t h.1) hm)
  | .bare key :: es, m => by
    intro h hm
    rw [Entry.AllUnmerged] at h
    rw [Entry.allInto, Entry.into]
    exact Entry.allInto_textual es h
      (Entries.put_all (P := fun v : Value => v ≠ .boolean true → v.Textual)
        (fun hne => absurd rfl hne) hm)
  | .merged _ :: _, _ => by
    intro h
    rw [Entry.AllUnmerged] at h
    exact h.elim

end

section Evaluations

variable {σ : Type} {st : σ}

theorem evaluate_forced {source : Source} {v : Value}
    (h : (evaluate .simple true source st).1 = .ok v) :
    ∃ t : Tree, Sole (t.Spelled Word) source.text ∧ t.Forced v ∧ (t.Unmerged → v.Textual) := by
  obtain ⟨t, ht, rfl⟩ := evaluate_simple_iff.mp h
  exact ⟨t, ht, t.forced, t.textual⟩

theorem evaluateFragment_forced {f : Fragment} {v : Value}
    (h : (evaluateFragment .simple true f st).1 = .ok v) :
    ∃ t : Tree, Sole (t.Spelled Word) f.text ∧ t.Forced v ∧ (t.Unmerged → v.Textual) := by
  obtain ⟨k', hrun⟩ := of_run (Prod.ext h rfl)
  obtain ⟨t, ht, rfl⟩ := of_single hrun
  exact ⟨t, ht, t.forced, t.textual⟩

theorem evaluateList_forced {source : Source} {vs : List Value}
    (h : (evaluateList .simple true source st).1 = .ok vs) :
    ∃ ts : List Tree, Layout (Tree.Spelled Word) ts source.text ∧
      List.Forall₂ Tree.Forced ts vs ∧ (Tree.AllUnmerged ts → ∀ v ∈ vs, v.Textual) := by
  obtain ⟨ts, hts, rfl⟩ := evaluateList_simple_iff.mp h
  exact ⟨ts, hts, Tree.values_forced ts, Tree.values_textual ts⟩

theorem evaluateMap_forced {source : Source} {m : Entries Value}
    (h : (evaluateMap .simple true source st).1 = .ok m) :
    ∃ es : List Entry, Layout (Entry.Spelled Word) es source.text ∧
      (Tree.map es).Forced (.map m) ∧ (Entry.AllUnmerged es → (Value.map m).Textual) := by
  obtain ⟨es, hes, rfl⟩ := evaluateMap_simple_iff.mp h
  have hforced := (Tree.map es).forced
  have htextual := (Tree.map es).textual
  rw [Tree.value] at hforced htextual
  rw [Tree.Unmerged] at htextual
  exact ⟨es, hes, hforced, htextual⟩

end Evaluations

theorem pair_listed :
    Listed (Entry.Spelled Word) [.pair "a" (.word ['1'])] "a: 1".toList := by
  have hkey : Word ['a'] :=
    ⟨by simp, [], ['a'], rfl, .inl rfl, List.all_eq_true.mp (by decide)⟩
  have hvalue : Word ['1'] :=
    ⟨by simp, [], ['1'], rfl, .inl rfl, List.all_eq_true.mp (by decide)⟩
  have hblank : Character.isBlank ' ' = true := by decide
  exact Listed.last (Entry.Spelled.pair (.word hkey) .nil (.blank hblank .nil) (.word hvalue)) .nil

/-- Whatever is evaluated with words forced to be strings, they are strings at every depth,
and `true` stands for bare keys alone, except in maps that join others. Without those, all
scalars of the result are strings but for the bare keys. -/
theorem forced_evaluation_textual (σ : Type) (source : Source) (f : Fragment) (st : σ) :
    (∀ v, (evaluate .simple true source st).1 = .ok v →
      ∃ t : Tree, Sole (t.Spelled Word) source.text ∧ t.Forced v ∧ (t.Unmerged → v.Textual)) ∧
    (∀ vs, (evaluateList .simple true source st).1 = .ok vs →
      ∃ ts : List Tree, Layout (Tree.Spelled Word) ts source.text ∧
        List.Forall₂ Tree.Forced ts vs ∧ (Tree.AllUnmerged ts → ∀ v ∈ vs, v.Textual)) ∧
    (∀ m, (evaluateMap .simple true source st).1 = .ok m →
      ∃ es : List Entry, Layout (Entry.Spelled Word) es source.text ∧
        (Tree.map es).Forced (.map m) ∧ (Entry.AllUnmerged es → (Value.map m).Textual)) ∧
    (∀ v, (evaluateFragment .simple true f st).1 = .ok v →
      ∃ t : Tree, Sole (t.Spelled Word) f.text ∧ t.Forced v ∧ (t.Unmerged → v.Textual)) :=
  ⟨fun _ => evaluate_forced, fun _ => evaluateList_forced, fun _ => evaluateMap_forced,
    fun _ => evaluateFragment_forced⟩

theorem forced_evaluation_textual_map :
    (evaluate .simple true ⟨"\x7ba: 1\x7d".toList, none⟩ ()).1 =
      .ok (.map [("a", .string "1")]) ∧
    ∃ t : Tree, Sole (t.Spelled Word) "\x7ba: 1\x7d".toList ∧
      t.Forced (.map [("a", .string "1")]) := by
  have hmap : Tree.Spelled Word (.map [.pair "a" (.word ['1'])]) "\x7ba: 1\x7d".toList :=
    .map .nil pair_listed
  have h : (evaluate .simple true ⟨"\x7ba: 1\x7d".toList, none⟩ ()).1 =
      .ok (.map [("a", .string "1")]) :=
    evaluate_simple_iff.mpr
      ⟨_, ⟨false, [], _, false, [], .nil, hmap, Gap.nil.before .nil, by simp⟩, rfl⟩
  obtain ⟨t, ht, hforced, -⟩ :=
    (forced_evaluation_textual Unit ⟨"\x7ba: 1\x7d".toList, none⟩ ⟨⟨[], none⟩, 0, 0⟩ ()).1 _ h
  exact ⟨h, t, ht, hforced⟩

/-- The words of a map that joins another one are not forced. -/
theorem forced_evaluation_merged_map :
    (evaluateMap .simple true ⟨"\x7ba: 1\x7d".toList, none⟩ ()).1 = .ok [("a", .int 1)] ∧
      ¬(Value.map [("a", .int 1)]).Textual := by
  constructor
  · have hmerged : Entry.Spelled Word (.merged [.pair "a" (.word ['1'])])
        "\x7ba: 1\x7d".toList := .merged .nil pair_listed
    exact evaluateMap_simple_iff.mpr
      ⟨_, ⟨false, [], _, [], .nil, .last hmerged .nil, .inl ⟨rfl, .nil⟩, by simp⟩, rfl⟩
  · intro h
    cases h with
    | map each => cases each ("a", .int 1) List.mem_cons_self (by simp)

end Cjson
