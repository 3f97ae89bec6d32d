import Cjson.Proofs.Listed

namespace Cjson

/-- What ends with a character has it at the end of its second part, unless that is empty. -/
theorem Text.last_of_append {x s g : List Char} {c : Char} (h : x ++ s = g ++ [c]) :
    (s = [] ∧ x = g ++ [c]) ∨ ∃ s', s = s' ++ [c] ∧ g = x ++ s' := by
  rcases List.append_eq_append_iff.mp h with ⟨s', rfl, hs⟩ | ⟨s', hx, hs⟩
  · exact .inr ⟨s', hs, rfl⟩
  · cases s' with
    | nil => exact .inr ⟨[], by simpa using hs.symm, by simpa using hx.symm⟩
    | cons d s' =>
      simp only [List.cons_append, List.cons.injEq, List.nil_eq, List.append_eq_nil_iff] at hs
      obtain ⟨rfl, rfl, rfl⟩ := hs
      exact .inl ⟨rfl, hx⟩

theorem Text.last_of_cons {x s g : List Char} {c d : Char} (h : x ++ d :: s = g ++ [c]) :
    (s = [] ∧ c = d ∧ g = x) ∨ ∃ s', s = s' ++ [c] ∧ g = x ++ d :: s' := by
  rw [List.append_cons] at h
  rcases last_of_append h with ⟨rfl, he⟩ | ⟨s', rfl, rfl⟩
  · obtain ⟨rfl, hc⟩ := List.append_inj' he rfl
    cases hc
    exact .inl ⟨rfl, rfl, rfl⟩
  · exact .inr ⟨s', rfl, (List.append_cons _ _ _).symm⟩

/-- A text that does not end with a blank. -/
def Text.Closes (s : List Char) : Prop :=
  ∃ r c, s = r ++ [c] ∧ Character.isBlank c = false

theorem Text.Closes.prepend {s : List Char} (h : Closes s) (t : List Char) :
    Closes (t ++ s) := by
  obtain ⟨r, c, rfl, hc⟩ := h
  exact ⟨t ++ r, c, (List.append_assoc _ _ _).symm, hc⟩

theorem Text.Closes.last_ne {s r : List Char} {c : Char} (h : Closes s)
    (hc : Character.isBlank c = true) : s ≠ r ++ [c] := by
  obtain ⟨r', d, rfl, hd⟩ := h
  intro he
  obtain ⟨-, hdc⟩ := List.append_inj' he rfl
  cases hdc
  rw [hd] at hc
  cases hc

theorem Word.closes {w : List Char} (h : Word w) : Text.Closes w := by
  obtain ⟨hne, sign, letters, rfl, hsign, hletters⟩ := h
  obtain rfl | ⟨r, c, rfl⟩ := List.eq_nil_or_concat letters
  · rcases hsign with rfl | rfl
    · exact absurd rfl hne
    · exact ⟨[], '+', rfl, rfl⟩
  · have hc : Character.opens c = true := by
      simp [Character.opens, hletters c (by simp)]
    exact ⟨sign ++ r, c, by simp, Character.isBlank_of_opens hc⟩

theorem Literal.closes {str : String} {s : List Char} (h : Literal str s) :
    Text.Closes s := by
  have hquote : ∀ q, q = '"' ∨ q = '\'' → Character.isBlank q = false := by
    intro q hq
    rcases hq with rfl | rfl <;> rfl
  cases h with
  | quoted hq _ => exact ⟨_, _, rfl, hquote _ hq⟩
  | raw hq _ => exact ⟨_, _, rfl, hquote _ hq⟩

theorem KeySpelled.closes {key : String} {s : List Char} (h : KeySpelled Word key s) :
    Text.Closes s := by
  cases h with
  | word hw => exact hw.closes
  | literal hl => exact hl.closes

theorem Tree.Spelled.closes {t : Tree} {s : List Char} (h : t.Spelled Word s) :
    Text.Closes s := by
  cases h with
  | word hw => exact hw.closes
  | literal hl => exact hl.closes
  | list _ _ | map _ _ | call _ _ _ _ => exact ⟨_, _, rfl, rfl⟩

theorem Entry.Spelled.closes {e : Entry} {s : List Char} (h : e.Spelled Word s) :
    Text.Closes s := by
  cases h with
  | pair _ _ _ ht => exact ht.closes.prepend _
  | bare hk => exact hk.closes
  | merged _ _ => exact ⟨_, _, rfl, rfl⟩

theorem Gap.append {b b' : Bool} {g g' : List Char} (h : Gap b g) (h' : Gap b' g') :
    Gap (b || b') (g ++ g') := by
  induction h with
  | nil => exact h'
  | blank hc _ ih =>
    rw [Bool.or_assoc]
    exact .blank hc ih
  | @lineComment body c b s hbody hc _ ih =>
    rw [show '/' :: '/' :: body ++ c :: s ++ g' = '/' :: '/' :: body ++ c :: (s ++ g') by simp]
    exact .lineComment hbody hc ih
  | @blockComment body b s hbody _ ih =>
    rw [show '/' :: '*' :: body ++ '*' :: '/' :: s ++ g' =
      '/' :: '*' :: body ++ '*' :: '/' :: (s ++ g') by simp]
    exact .blockComment hbody ih

theorem Gap.newline : Gap true ['\n'] :=
  .blank (c := '\n') rfl .nil

/-- A line break closes what is open at the end of a text. -/
theorem Closing.newline {tail : List Char} (h : Closing tail []) :
    Gap true (tail ++ ['\n']) := by
  obtain ⟨rfl, -⟩ | ⟨⟨body, hbody, rfl⟩, -⟩ := h
  · exact .newline
  · exact .lineComment hbody rfl .nil

/-- A gap ends with the slash of a comment, or with a blank. Without the blank, it may be
left with an open comment. -/
theorem Gap.last {b : Bool} {g : List Char} {c : Char} (h : Gap b (g ++ [c])) :
    c = '/' ∨ (Character.isBlank c = true ∧ ∃ b', GapBefore b' g []) := by
  generalize hu : g ++ [c] = u at h
  induction h generalizing g with
  | nil => simp at hu
  | @blank d b s hd _ ih =>
    rcases Text.last_of_cons (x := []) hu.symm with ⟨-, rfl, rfl⟩ | ⟨s', rfl, rfl⟩
    · exact .inr ⟨hd, _, Gap.nil.before .nil⟩
    · refine (ih rfl).imp_right ?_
      rintro ⟨hc, b', hs'⟩
      exact ⟨hc, _, hs'.blank hd⟩
  | @lineComment body d b s hbody hd _ ih =>
    rcases Text.last_of_cons hu.symm with ⟨-, rfl, rfl⟩ | ⟨s', rfl, rfl⟩
    · exact .inr ⟨Character.isBlank_of_isLineBreak hd, false, [], _, .nil,
        .inr ⟨⟨body, hbody, rfl⟩, rfl⟩, rfl⟩
    · refine (ih rfl).imp_right ?_
      rintro ⟨hc, b', hs'⟩
      exact ⟨hc, _, hs'.lineComment hbody hd⟩
  | @blockComment body b s hbody _ ih =>
    have he : ('/' :: '*' :: body ++ ['*']) ++ '/' :: s = g ++ [c] := by simp [hu]
    rcases Text.last_of_cons he with ⟨-, rfl, -⟩ | ⟨s', rfl, rfl⟩
    · exact .inl rfl
    · refine (ih rfl).imp_right ?_
      rintro ⟨hc, b', hs'⟩
      have hg := hs'.blockComment hbody
      exact ⟨hc, _, by simpa using hg⟩

variable {α : Type} {P : α → List Char → Prop}

/-- The gap behind the last item, or behind a comma there, may be longer. -/
theorem Listed.extend (hP : ∀ a s, P a s → Text.Opens s) {as : List α} {s g : List Char}
    {b : Bool} (h : Listed P as s) (hne : as ≠ []) (hg : Gap b g) : Listed P as (s ++ g) := by
  induction h with
  | nil => exact absurd rfl hne
  | last item gap =>
    rw [List.append_assoc]
    exact .last item (gap.append hg)
  | @comma a as s g₀ g' r b₀ b' item gap gap' others ih =>
    by_cases has : as = []
    · subst has
      cases others.of_nil
      have := Listed.comma item gap (gap'.append hg) (Listed.nil (P := P))
      simpa using this
    · rw [List.append_assoc]
      exact .comma item gap gap' (ih has)
  | @line a as s g₀ r item gap others nonempty noPlus ih =>
    rw [List.append_assoc]
    obtain ⟨c, r', rfl, -⟩ := others.opens hP nonempty
    exact .line item gap (ih nonempty) nonempty noPlus

/-- Two listings with a line break between them are one. -/
theorem Listed.append (hP : ∀ a s, P a s → Text.Opens s) {as bs : List α}
    {s g r : List Char} (h : Listed P as s) (hne : as ≠ []) (hg : Gap true g)
    (hr : Listed P bs r) (hbs : bs ≠ []) (noPlus : r.head? ≠ some '+') :
    Listed P (as ++ bs) (s ++ g ++ r) := by
  induction h with
  | nil => exact absurd rfl hne
  | @last a s g₀ b item gap =>
    have hgap : Gap true (g₀ ++ g) := by
      have := gap.append hg
      rwa [Bool.or_true] at this
    rw [List.append_assoc s]
    exact .line item hgap hr hbs noPlus
  | @comma a as s g₀ g' r₀ b b' item gap gap' others ih =>
    by_cases has : as = []
    · subst has
      cases others.of_nil
      have := Listed.comma item gap (gap'.append hg) hr
      simpa using this
    · have := Listed.comma item gap gap' (ih has)
      simpa using this
  | @line a as s g₀ r₀ item gap others nonempty noPlus₀ ih =>
    obtain ⟨c, r', rfl, -⟩ := others.opens hP nonempty
    have := Listed.line item gap (ih nonempty) (by simp [nonempty]) noPlus₀
    simpa using this

/-- Without the line break at its end, a listing may be left with an open comment. -/
theorem Listed.of_newline (hP : ∀ a s, P a s → Text.Opens s)
    (hP' : ∀ a s, P a s → Text.Closes s) {as : List α} {s : List Char}
    (h : Listed P as (s ++ ['\n'])) :
    ∃ s' tail, Listed P as s' ∧ Closing tail [] ∧ s = s' ++ tail := by
  generalize hu : s ++ ['\n'] = u at h
  induction h generalizing s with
  | nil => simp at hu
  | last item gap =>
    rcases Text.last_of_append hu.symm with ⟨-, he⟩ | ⟨g', rfl, rfl⟩
    · exact absurd he ((hP' _ _ item).last_ne rfl)
    · rcases gap.last with hc | ⟨-, b', g'', tail, hg'', htail, rfl⟩
      · cases hc
      · exact ⟨_, tail, .last item hg'', htail, (List.append_assoc _ _ _).symm⟩
  | @comma a as s₀ g g' r b b' item gap gap' others ih =>
    rcases Text.last_of_append hu.symm with ⟨rfl, he⟩ | ⟨r', rfl, rfl⟩
    · have has : as = [] := by
        refine Classical.byContradiction fun has => ?_
        exact (others.opens hP has).ne_nil rfl
      subst has
      rcases Text.last_of_cons he with ⟨-, hc, -⟩ | ⟨g'', rfl, rfl⟩
      · cases hc
      · rcases gap'.last with hc | ⟨-, b', g', tail, hg', htail, rfl⟩
        · cases hc
        · exact ⟨_, tail, .comma item gap hg' .nil, htail, by simp⟩
    · obtain ⟨s', tail, hs', htail, rfl⟩ := ih rfl
      exact ⟨_, tail, .comma item gap gap' hs', htail, (List.append_assoc _ _ _).symm⟩
  | @line a as s₀ g r item gap others nonempty noPlus ih =>
    rcases Text.last_of_append hu.symm with ⟨rfl, -⟩ | ⟨r', rfl, rfl⟩
    · exact absurd rfl (others.opens hP nonempty).ne_nil
    · obtain ⟨s', tail, hs', htail, rfl⟩ := ih rfl
      obtain ⟨c, t, rfl, -⟩ := hs'.opens hP nonempty
      exact ⟨_, tail, .line item gap hs' nonempty noPlus, htail,
        (List.append_assoc _ _ _).symm⟩

/-- A listing without brackets is a listing in front of a bracket once a line break is put
behind it, which closes what may be open there. -/
theorem layout_iff (hP : ∀ a s, P a s → Text.Opens s) (hP' : ∀ a s, P a s → Text.Closes s)
    {as : List α} {text : List Char} :
    Layout P as text ↔
      ∃ b g s, Gap b g ∧ Listed P as s ∧ text ++ ['\n'] = g ++ s := by
  constructor
  · intro h
    obtain ⟨b, g, s, tail, hg, hs, htail, rfl⟩ := h
    by_cases has : as = []
    · subst has
      cases hs.of_nil
      exact ⟨_, _, [], hg.append htail.newline, .nil, by simp⟩
    · exact ⟨b, g, _, hg, hs.extend hP has htail.newline, by simp⟩
  · intro h
    obtain ⟨b, g, s, hg, hs, he⟩ := h
    rcases Text.last_of_append he.symm with ⟨rfl, rfl⟩ | ⟨s', rfl, rfl⟩
    · rcases hg.last with hc | ⟨-, b', g', tail, hg', htail, rfl⟩
      · cases hc
      · exact ⟨b', g', [], tail, hg', hs, htail, by simp⟩
    · obtain ⟨s'', tail, hs'', htail, rfl⟩ := hs.of_newline hP hP'
      exact ⟨b, g, s'', tail, hg, hs'', htail, (List.append_assoc _ _ _).symm⟩

/-- The character with which a text begins behind its first gap. -/
def Text.first? (text : List Char) : Option Char :=
  (Scan.gap ⟨0, text⟩).2.rest.head?

theorem Text.first?_of_gap {b : Bool} {g r : List Char} (hg : Gap b g) (hr : Solid r) :
    first? (g ++ r) = r.head? := by
  have hgap : Scan.gap ⟨0, g ++ r⟩ = (.ok b, ⟨0 + Text.size g, r⟩) :=
    Scan.gap_eq_ok.mpr ⟨g, ⟨rfl, rfl⟩, hg.before hr⟩
  rw [first?, hgap]

theorem Text.first?_of_solid {r : List Char} (hr : Solid r) : first? r = r.head? :=
  first?_of_gap .nil hr

/-- Two listings without brackets are one, with a line break between them. -/
theorem Layout.append (hP : ∀ a s, P a s → Text.Opens s) {as bs : List α}
    {text text' : List Char} (h : Layout P as text) (h' : Layout P bs text')
    (noPlus : Text.first? text' ≠ some '+') :
    Layout P (as ++ bs) (text ++ '\n' :: text') := by
  obtain ⟨b, g, s, tail, hg, hs, htail, rfl⟩ := h
  obtain ⟨b', g', r, tail', hg', hr, htail', rfl⟩ := h'
  have hmiddle := htail.newline.append hg'
  by_cases has : as = []
  · subst has
    cases hs.of_nil
    exact ⟨_, _, r, tail', hg.append hmiddle, hr, htail', by simp⟩
  by_cases hbs : bs = []
  · subst hbs
    cases hr.of_nil
    rw [List.append_nil]
    exact ⟨b, g, _, tail', hg, hs.extend hP has hmiddle, htail', by simp⟩
  · have hopens := hr.opens hP hbs
    rw [List.append_assoc, Text.first?_of_gap hg' (hopens.append tail').solid] at noPlus
    obtain ⟨c, r', rfl, -⟩ := hopens
    exact ⟨b, g, _, tail', hg, hs.append hP has hmiddle hr hbs noPlus, htail', by simp⟩

end Cjson
