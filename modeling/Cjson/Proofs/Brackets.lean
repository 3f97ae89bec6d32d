import Cjson.Proofs.Exactness
import Cjson.Proofs.Layout
import Cjson.Proofs.Numeral

namespace Cjson

theorem Tree.scalar_word (force : Bool) (w : List Char) :
    (Tree.value force (.word w)).Scalar := by
  rw [Tree.value]
  split
  · exact .string _
  · exact Value.scalar_ofWord w

theorem Tree.of_value_list {force : Bool} {t : Tree} {vs : List Value}
    (h : t.value force = .list vs) : ∃ ts, t = .list ts ∧ Tree.values force ts = vs := by
  cases t with
  | word w =>
    have hw := Tree.scalar_word force w
    rw [h] at hw
    cases hw
  | list ts =>
    rw [Tree.value] at h
    exact ⟨ts, rfl, Value.list.inj h⟩
  | literal _ | map _ | call _ _ =>
    rw [Tree.value] at h
    cases h

theorem Tree.of_value_map {force : Bool} {t : Tree} {m : Entries Value}
    (h : t.value force = .map m) : ∃ es, t = .map es ∧ Entry.allInto force es [] = m := by
  cases t with
  | word w =>
    have hw := Tree.scalar_word force w
    rw [h] at hw
    cases hw
  | map es =>
    rw [Tree.value] at h
    exact ⟨es, rfl, Value.map.inj h⟩
  | literal _ | list _ | call _ _ =>
    rw [Tree.value] at h
    cases h

theorem Tree.of_value_call {force : Bool} {t : Tree} {f : List Char} {vs : List Value}
    (h : t.value force = .call (.ofList f) vs) :
    ∃ ts, t = .call f ts ∧ Tree.values force ts = vs := by
  cases t with
  | word w =>
    have hw := Tree.scalar_word force w
    rw [h] at hw
    cases hw
  | call g ts =>
    rw [Tree.value] at h
    obtain ⟨hg, hts⟩ := Value.call.inj h
    exact ⟨ts, by rw [String.ofList_injective hg], hts⟩
  | literal _ | list _ | map _ =>
    rw [Tree.value] at h
    cases h

/-- Behind the last line there is no gap, unless that line ends with one. -/
theorem GapBefore.eq_nil {b : Bool} {x g u : List Char} {c : Char} (h : GapBefore b g [])
    (hu : x ++ g = u ++ ['\n', c]) (hblank : Character.isBlank c = false)
    (hslash : c ≠ '/') : g = [] := by
  have hlast : x ++ g = (u ++ ['\n']) ++ [c] := by simpa using hu
  obtain ⟨s, tail, hs, ⟨rfl, -⟩ | ⟨⟨body, hbody, rfl⟩, -⟩, rfl⟩ := h
  · rw [List.append_nil] at hlast ⊢
    rcases Text.last_of_append hlast with ⟨rfl, -⟩ | ⟨s', rfl, -⟩
    · rfl
    · rcases hs.last with hc | ⟨hc, -⟩
      · exact absurd hc hslash
      · rw [hblank] at hc
        cases hc
  · -- The comment would have the line break in it.
    have hbreak : '\n' ∈ body := by
      have he : (x ++ s ++ ['/']) ++ '/' :: body = (u ++ ['\n']) ++ [c] := by simpa using hu
      rcases Text.last_of_cons he with ⟨-, hc, -⟩ | ⟨body', rfl, hu'⟩
      · exact absurd hc hslash
      · rcases Text.last_of_cons hu'.symm with ⟨-, hc, -⟩ | ⟨body'', rfl, -⟩
        · cases hc
        · simp
    have := hbody _ hbreak
    cases this

/-- What begins as items do and ends with a bracket on a line of its own has no gaps
around it. -/
theorem sole_line_iff {P : List Char → Prop} {u : List Char} {c : Char} (hu : Text.Opens u)
    (hblank : Character.isBlank c = false) (hslash : c ≠ '/') :
    Sole P (u ++ ['\n', c]) ↔ P (u ++ ['\n', c]) := by
  constructor
  · intro h
    obtain ⟨b, g, s, b', g', hg, hs, hg', he⟩ := h
    have hopens := (hu.append ['\n', c]).solid
    rw [he, List.append_assoc] at hopens
    cases hg.eq_nil hopens
    cases hg'.eq_nil he.symm hblank hslash
    rw [he]
    simpa using hs
  · intro h
    exact ⟨false, [], _, false, [], .nil, h, Gap.nil.before .nil, by simp⟩

/-- What is listed between a bracket and another one on a line of its own. -/
theorem between_line_iff {α : Type} {P : α → List Char → Prop}
    (hP : ∀ a s, P a s → Text.Opens s) (hP' : ∀ a s, P a s → Text.Closes s) {as : List α}
    {text : List Char} {o c : Char} :
    (∃ b g s, Gap b g ∧ Listed P as s ∧ o :: text ++ ['\n', c] = o :: g ++ s ++ [c]) ↔
      Layout P as text := by
  have he : ∀ g s : List Char, o :: text ++ ['\n', c] = o :: g ++ s ++ [c] ↔
      text ++ ['\n'] = g ++ s := by
    intro g s
    rw [show o :: text ++ ['\n', c] = o :: (text ++ ['\n']) ++ [c] by simp,
      show o :: g ++ s ++ [c] = o :: (g ++ s) ++ [c] by simp]
    simp only [List.append_left_inj, List.cons.injEq, true_and]
  rw [layout_iff hP hP']
  simp only [he]

theorem trees_between_line_iff {ts : List Tree} {text : List Char} {o c : Char} :
    (∃ b g s, Gap b g ∧ Listed (Tree.Spelled Word) ts s ∧
      o :: text ++ ['\n', c] = o :: g ++ s ++ [c]) ↔ Layout (Tree.Spelled Word) ts text :=
  between_line_iff (fun _ _ h => h.opens) fun _ _ h => h.closes

theorem list_line_iff {ts : List Tree} {text : List Char} :
    (Tree.list ts).Spelled Word ('[' :: text ++ ['\n', ']']) ↔
      Layout (Tree.Spelled Word) ts text := by
  rw [← trees_between_line_iff (o := '[') (c := ']')]
  constructor
  · intro h
    generalize hu : '[' :: text ++ ['\n', ']'] = u at h
    cases h with
    | list gap listed => exact ⟨_, _, _, gap, listed, rfl⟩
  · intro h
    obtain ⟨b, g, s, hg, hs, he⟩ := h
    rw [he]
    exact .list hg hs

theorem map_line_iff {es : List Entry} {text : List Char} :
    (Tree.map es).Spelled Word ('\x7b' :: text ++ ['\n', '\x7d']) ↔
      Layout (Entry.Spelled Word) es text := by
  rw [← between_line_iff (o := '\x7b') (c := '\x7d') (fun _ _ h => h.opens)
    fun _ _ h => h.closes]
  constructor
  · intro h
    generalize hu : '\x7b' :: text ++ ['\n', '\x7d'] = u at h
    cases h with
    | map gap listed => exact ⟨_, _, _, gap, listed, rfl⟩
  · intro h
    obtain ⟨b, g, s, hg, hs, he⟩ := h
    rw [he]
    exact .map hg hs

theorem call_line_iff {f : List Char} (hf : Word f) {ts : List Tree} {text : List Char} :
    (Tree.call f ts).Spelled Word (f ++ '(' :: text ++ ['\n', ')']) ↔
      Layout (Tree.Spelled Word) ts text := by
  rw [← trees_between_line_iff (o := '(') (c := ')')]
  constructor
  · intro h
    generalize hu : f ++ '(' :: text ++ ['\n', ')'] = u at h
    cases h with
    | @call _ g g' s _ _ _ _ gap gap' listed =>
      have he : '(' :: text ++ ['\n', ')'] = g ++ ('(' :: g' ++ s ++ [')']) := by
        simpa using hu
      have hsolid : Solid ('(' :: (text ++ ['\n', ')'])) := .cons rfl (by simp)
      rw [List.cons_append] at he
      rw [he] at hsolid
      cases gap.eq_nil hsolid
      exact ⟨_, g', s, gap', listed, he⟩
  · intro h
    obtain ⟨b, g, s, hg, hs, he⟩ := h
    have hcall := Tree.Spelled.call hf .nil hg hs
    rw [show f ++ '(' :: text ++ ['\n', ')'] = f ++ ('(' :: text ++ ['\n', ')']) by simp, he]
    simpa using hcall

theorem evaluate_line_iff {σ : Type} {force : Bool} {u : List Char} {c : Char}
    {file : Option String} {st : σ} {v : Value} (hu : Text.Opens u)
    (hblank : Character.isBlank c = false) (hslash : c ≠ '/') :
    (evaluate .simple force ⟨u ++ ['\n', c], file⟩ st).1 = .ok v ↔
      ∃ t : Tree, t.Spelled Word (u ++ ['\n', c]) ∧ t.value force = v := by
  rw [evaluate_simple_iff]
  simp only [sole_line_iff hu hblank hslash]

/-- The entries of a map and the items of a list are read without brackets around them if
and only if they are read with brackets, the closing one on a line of its own, or as the
arguments of a call. Whatever the text is, the bracket put behind it is the one that
closes. -/
theorem bracketed_evaluation_agrees {σ τ : Type} (force : Bool) (text : List Char)
    (file : Option String) (st : σ) (st' : τ) :
    (∀ m, (evaluateMap .simple force ⟨text, file⟩ st).1 = .ok m ↔
      (evaluate .simple force ⟨'\x7b' :: text ++ ['\n', '\x7d'], file⟩ st').1 =
        .ok (.map m)) ∧
    (∀ vs, (evaluateList .simple force ⟨text, file⟩ st).1 = .ok vs ↔
      (evaluate .simple force ⟨'[' :: text ++ ['\n', ']'], file⟩ st').1 =
        .ok (.list vs)) ∧
    (∀ vs, (evaluateList .simple force ⟨text, file⟩ st).1 = .ok vs ↔
      (evaluate .simple force ⟨['f'] ++ '(' :: text ++ ['\n', ')'], file⟩ st').1 =
        .ok (.call "f" vs)) := by
  refine ⟨?_, ?_, ?_⟩
  · intro m
    rw [evaluateMap_simple_iff, evaluate_line_iff ⟨_, _, rfl, rfl⟩ rfl (by simp)]
    constructor
    · rintro ⟨es, hes, rfl⟩
      exact ⟨.map es, map_line_iff.mpr hes, by rw [Tree.value]⟩
    · rintro ⟨t, ht, hvalue⟩
      obtain ⟨es, rfl, hm⟩ := Tree.of_value_map hvalue
      exact ⟨es, map_line_iff.mp ht, hm⟩
  · intro vs
    rw [evaluateList_simple_iff, evaluate_line_iff ⟨_, _, rfl, rfl⟩ rfl (by simp)]
    constructor
    · rintro ⟨ts, hts, rfl⟩
      exact ⟨.list ts, list_line_iff.mpr hts, by rw [Tree.value]⟩
    · rintro ⟨t, ht, hvalue⟩
      obtain ⟨ts, rfl, hvs⟩ := Tree.of_value_list hvalue
      exact ⟨ts, list_line_iff.mp ht, hvs⟩
  · intro vs
    have hword : Word ['f'] := .of_all rfl
    rw [evaluateList_simple_iff, evaluate_line_iff (hword.opens.append _) rfl (by simp)]
    constructor
    · rintro ⟨ts, hts, rfl⟩
      exact ⟨.call ['f'] ts, (call_line_iff hword).mpr hts, by rw [Tree.value]⟩
    · rintro ⟨t, ht, hvalue⟩
      obtain ⟨ts, rfl, hvs⟩ := Tree.of_value_call (f := ['f']) hvalue
      exact ⟨ts, (call_line_iff hword).mp ht, hvs⟩

end Cjson
