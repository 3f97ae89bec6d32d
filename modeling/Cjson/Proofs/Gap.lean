import Cjson.Proofs.Passage
import Cjson.Scan.Gap

namespace Cjson

theorem Character.isBlank_of_isLineBreak {c : Char} (h : isLineBreak c = true) :
    isBlank c = true := by
  simp only [isLineBreak, Bool.or_eq_true, beq_iff_eq] at h
  rcases h with rfl | rfl <;> rfl

/-- Blanks and closed comments, and whether a line break is among them. The one behind a
line comment counts, those inside block comments do not. -/
inductive Gap : (lineBreak : Bool) → List Char → Prop
  | nil : Gap false []
  | blank {c : Char} {b : Bool} {s : List Char} (blank : Character.isBlank c = true)
      (rest : Gap b s) : Gap (Character.isLineBreak c || b) (c :: s)
  | lineComment {body : List Char} {c : Char} {b : Bool} {s : List Char}
      (inLine : ∀ d ∈ body, Character.isLineBreak d = false)
      (breaks : Character.isLineBreak c = true) (rest : Gap b s) :
      Gap true ('/' :: '/' :: body ++ c :: s)
  | blockComment {body : List Char} {b : Bool} {s : List Char}
      (inside : ¬['*', '/'] <:+: body) (rest : Gap b s) :
      Gap b ('/' :: '*' :: body ++ '*' :: '/' :: s)

/-- A line comment that goes on to the end of the text. -/
def OpenComment (s : List Char) : Prop :=
  ∃ body, (∀ d ∈ body, Character.isLineBreak d = false) ∧ s = '/' :: '/' :: body

/-- A text that does not begin with a blank or a comment. -/
structure Solid (s : List Char) : Prop where
  noBlank : ∀ c rest, s = c :: rest → Character.isBlank c = false
  noLineComment : ∀ rest, s ≠ '/' :: '/' :: rest
  noBlockComment : ∀ rest, s ≠ '/' :: '*' :: rest

/-- What may stand between a closed gap and the rest of the text. Only the end of a text
can have an open comment in front of it. -/
def Closing (tail rest : List Char) : Prop :=
  (tail = [] ∧ Solid rest) ∨ (OpenComment tail ∧ rest = [])

/-- The longest gap there is in front of the rest of the text. -/
def GapBefore (lineBreak : Bool) (g rest : List Char) : Prop :=
  ∃ s tail, Gap lineBreak s ∧ Closing tail rest ∧ g = s ++ tail

theorem Solid.nil : Solid [] :=
  ⟨by simp, by simp, by simp⟩

theorem Solid.cons {c : Char} {rest : List Char} (hb : Character.isBlank c = false)
    (hs : c ≠ '/') : Solid (c :: rest) := by
  refine ⟨?_, ?_, ?_⟩
  · intro d t he
    cases he
    exact hb
  · intro t he
    cases he
    exact hs rfl
  · intro t he
    cases he
    exact hs rfl

namespace Scan

/-- What is left of a gap for a reader that is in the middle of it. -/
def Within.Remains : Within → (lineBreak : Bool) → (g rest : List Char) → Prop
  | .gap, b, g, rest => GapBefore b g rest
  | .lineComment, b, g, rest =>
    (∃ body c b' s, (∀ d ∈ body, Character.isLineBreak d = false) ∧
      Character.isLineBreak c = true ∧ GapBefore b' s rest ∧ b = true ∧
      g = body ++ c :: s) ∨
    (rest = [] ∧ b = false ∧ ∀ d ∈ g, Character.isLineBreak d = false)
  | .blockComment _, b, g, rest =>
    ∃ body s, ¬['*', '/'] <:+: body ∧ GapBefore b s rest ∧ g = body ++ '*' :: '/' :: s

end Scan

theorem Closing.solid {tail rest : List Char} (h : Closing tail rest) : Solid rest := by
  rcases h with ⟨-, hr⟩ | ⟨-, rfl⟩
  · exact hr
  · exact .nil

theorem GapBefore.solid {b : Bool} {g rest : List Char} (h : GapBefore b g rest) :
    Solid rest := by
  obtain ⟨s, tail, -, hr, -⟩ := h
  exact hr.solid

/-- A line break does not come from nothing. -/
theorem Gap.ne_nil {g : List Char} (h : Gap true g) : g ≠ [] := by
  intro he
  subst he
  generalize hb : true = b at h
  cases h
  cases hb

/-- There is no gap in front of what is no gap. -/
theorem Gap.eq_nil {b : Bool} {g r : List Char} (h : Gap b g) (hr : Solid (g ++ r)) :
    g = [] := by
  cases h with
  | nil => rfl
  | blank hc _ =>
    have := hr.noBlank _ _ rfl
    rw [hc] at this
    cases this
  | lineComment _ _ _ => exact absurd rfl (hr.noLineComment _)
  | blockComment _ _ => exact absurd rfl (hr.noBlockComment _)

theorem Gap.before {b : Bool} {g rest : List Char} (h : Gap b g) (hr : Solid rest) :
    GapBefore b g rest :=
  ⟨g, [], h, .inl ⟨rfl, hr⟩, by simp⟩

/-- A gap is closed where the text goes on behind it. -/
theorem GapBefore.gap {b : Bool} {g rest : List Char} (h : GapBefore b g rest)
    (hr : rest ≠ []) : Gap b g := by
  obtain ⟨s, tail, hs, ⟨rfl, -⟩ | ⟨-, rfl⟩, rfl⟩ := h
  · simpa using hs
  · exact absurd rfl hr

theorem GapBefore.blank {c : Char} {b : Bool} {g rest : List Char}
    (hc : Character.isBlank c = true) (h : GapBefore b g rest) :
    GapBefore (Character.isLineBreak c || b) (c :: g) rest := by
  obtain ⟨s, tail, hs, hr, rfl⟩ := h
  exact ⟨c :: s, tail, .blank hc hs, hr, rfl⟩

theorem GapBefore.lineComment {body : List Char} {c : Char} {b : Bool} {g rest : List Char}
    (hbody : ∀ d ∈ body, Character.isLineBreak d = false)
    (hc : Character.isLineBreak c = true) (h : GapBefore b g rest) :
    GapBefore true ('/' :: '/' :: body ++ c :: g) rest := by
  obtain ⟨s, tail, hs, hr, rfl⟩ := h
  exact ⟨_, tail, .lineComment hbody hc hs, hr, by simp⟩

theorem GapBefore.blockComment {body : List Char} {b : Bool} {g rest : List Char}
    (hbody : ¬['*', '/'] <:+: body) (h : GapBefore b g rest) :
    GapBefore b ('/' :: '*' :: body ++ '*' :: '/' :: g) rest := by
  obtain ⟨s, tail, hs, hr, rfl⟩ := h
  exact ⟨_, tail, .blockComment hbody hs, hr, by simp⟩

namespace Scan

theorem gapFrom_solid {seen : Bool} {p : Nat} {s : List Char} (h : Solid s) :
    gapFrom .gap seen p s = (.ok seen, ⟨p, s⟩) := by
  cases s with
  | nil => rw [gapFrom]
  | cons c rest =>
    rw [gapFrom]
    · simp [h.noBlank c rest rfl]
    · intro t he he'
      subst he
      subst he'
      exact h.noLineComment t rfl
    · intro t he he'
      subst he
      subst he'
      exact h.noBlockComment t rfl

theorem gapFrom_lineComment {seen : Bool} {p : Nat} {body : List Char} {c : Char}
    {s : List Char} (hbody : ∀ d ∈ body, Character.isLineBreak d = false)
    (hc : Character.isLineBreak c = true) :
    gapFrom .lineComment seen p (body ++ c :: s) =
      gapFrom .gap true (p + Text.size (body ++ [c])) s := by
  induction body generalizing p with
  | nil => simp [gapFrom, hc]
  | cons d ds ih =>
    have hd := hbody d (by simp)
    rw [List.cons_append, gapFrom]
    simp only [hd, Bool.false_eq_true, if_false]
    rw [ih (fun e he => hbody e (by simp [he]))]
    simp [Nat.add_assoc]

theorem gapFrom_openComment {seen : Bool} {p : Nat} {body : List Char}
    (hbody : ∀ d ∈ body, Character.isLineBreak d = false) :
    gapFrom .lineComment seen p body = (.ok seen, ⟨p + Text.size body, []⟩) := by
  induction body generalizing p with
  | nil => simp [gapFrom]
  | cons d ds ih =>
    rw [gapFrom]
    simp only [hbody d (by simp), Bool.false_eq_true, if_false]
    rw [ih (fun e he => hbody e (by simp [he]))]
    simp [Nat.add_assoc]

theorem gapFrom_blockComment {opened : Cursor} {seen : Bool} {p : Nat}
    {body s : List Char} (hbody : ¬['*', '/'] <:+: body) :
    gapFrom (.blockComment opened) seen p (body ++ '*' :: '/' :: s) =
      gapFrom .gap seen (p + Text.size body + 2) s := by
  induction body generalizing p with
  | nil => simp [gapFrom]
  | cons d ds ih =>
    rw [List.cons_append, gapFrom]
    · rw [ih (fun h => hbody (h.trans ⟨[d], [], by simp⟩))]
      simp [Nat.add_assoc]
    · intro t hstar he
      subst hstar
      cases ds with
      | nil => simp at he
      | cons e es =>
        simp only [List.cons_append, List.cons.injEq] at he
        exact hbody ⟨[], es, by simp [he.1]⟩

/-- A gap is read whole, whatever stands behind it. -/
theorem gapFrom_append {b seen : Bool} {p : Nat} {g : List Char} (h : Gap b g)
    (t : List Char) :
    gapFrom .gap seen p (g ++ t) = gapFrom .gap (seen || b) (p + Text.size g) t := by
  induction h generalizing seen p with
  | nil => simp
  | @blank c b s hc _ ih =>
    have hs : c ≠ '/' := by
      intro he
      subst he
      exact absurd hc (by decide)
    rw [List.cons_append, gapFrom]
    · simp [hc, ih, Bool.or_assoc, Nat.add_assoc]
    · exact fun _ he => absurd he hs
    · exact fun _ he => absurd he hs
  | @lineComment body c b s hbody hc _ ih =>
    have he : '/' :: '/' :: body ++ c :: s ++ t = '/' :: '/' :: (body ++ c :: (s ++ t)) := by
      simp
    rw [he, gapFrom, gapFrom_lineComment hbody hc, ih]
    congr 1
    · simp
    · simp [show '/'.utf8Size = 1 from rfl]
      omega
  | @blockComment body b s hbody _ ih =>
    have he : '/' :: '*' :: body ++ '*' :: '/' :: s ++ t =
        '/' :: '*' :: (body ++ '*' :: '/' :: (s ++ t)) := by
      simp
    rw [he, gapFrom, gapFrom_blockComment hbody, ih]
    congr 1
    simp [show '/'.utf8Size = 1 from rfl, show '*'.utf8Size = 1 from rfl]
    omega

theorem remains_of_gapFrom {w : Within} {seen b : Bool} {p : Nat} {s : List Char}
    {k : Cursor} (h : gapFrom w seen p s = (.ok b, k)) :
    ∃ g b', w.Remains b' g k.rest ∧ s = g ++ k.rest ∧ b = (seen || b') ∧
      k.position = p + Text.size g := by
  fun_induction gapFrom w seen p s with
  | case1 seen p =>
    simp only [Prod.mk.injEq, Except.ok.injEq] at h
    obtain ⟨rfl, rfl⟩ := h
    exact ⟨[], false, Gap.nil.before .nil, rfl, by simp, by simp⟩
  | case2 seen p rest ih =>
    obtain ⟨g, b', hg, rfl, rfl, hp⟩ := ih h
    rcases hg with ⟨body, c, b'', s, hbody, hc, hs, rfl, rfl⟩ | ⟨hr, rfl, hbody⟩
    · refine ⟨_, true, hs.lineComment hbody hc, by simp, rfl, ?_⟩
      simp only [hp, Text.size_append, Text.size_cons, List.cons_append]
      simp only [show '/'.utf8Size = 1 from rfl]
      omega
    · refine ⟨'/' :: '/' :: g, false, ⟨[], _, .nil, .inr ⟨⟨g, hbody, rfl⟩, hr⟩, rfl⟩,
        by simp, rfl, ?_⟩
      simp only [hp, Text.size_cons, show '/'.utf8Size = 1 from rfl]
      omega
  | case3 seen p rest ih =>
    obtain ⟨g, b', hg, rfl, rfl, hp⟩ := ih h
    obtain ⟨body, s, hbody, hs, rfl⟩ := hg
    refine ⟨_, b', hs.blockComment hbody, by simp, rfl, ?_⟩
    simp only [hp, Text.size_append, Text.size_cons, List.cons_append]
    simp only [show '/'.utf8Size = 1 from rfl, show '*'.utf8Size = 1 from rfl]
    omega
  | case4 seen p c rest _ _ hc ih =>
    obtain ⟨g, b', hg, rfl, rfl, hp⟩ := ih h
    exact ⟨c :: g, _, GapBefore.blank hc hg, by simp, by simp [Bool.or_assoc],
      by simp [hp, Nat.add_assoc]⟩
  | case5 seen p c rest hl hb hc =>
    simp only [Prod.mk.injEq, Except.ok.injEq] at h
    obtain ⟨rfl, rfl⟩ := h
    refine ⟨[], false, Gap.nil.before ⟨?_, ?_, ?_⟩, rfl, by simp, by simp⟩
    · intro d t he
      cases he
      simpa using hc
    · intro t he
      cases he
      exact hl t rfl rfl
    · intro t he
      cases he
      exact hb t rfl rfl
  | case6 seen p =>
    simp only [Prod.mk.injEq, Except.ok.injEq] at h
    obtain ⟨rfl, rfl⟩ := h
    exact ⟨[], false, .inr ⟨rfl, rfl, by simp⟩, rfl, by simp, by simp⟩
  | case7 seen p c rest hc ih =>
    obtain ⟨g, b', hg, rfl, rfl, hp⟩ := ih h
    exact ⟨c :: g, true, .inl ⟨[], c, b', g, by simp, hc, hg, rfl, rfl⟩, by simp, by simp,
      by simp [hp, Nat.add_assoc]⟩
  | case8 seen p c rest hc ih =>
    obtain ⟨g, b', hg, rfl, rfl, hp⟩ := ih h
    have hc : Character.isLineBreak c = false := by simpa using hc
    refine ⟨c :: g, b', ?_, by simp, rfl, by simp [hp, Nat.add_assoc]⟩
    rcases hg with ⟨body, d, b'', s, hbody, hd, hs, rfl, rfl⟩ | ⟨hr, rfl, hbody⟩
    · exact .inl ⟨c :: body, d, b'', s, by simpa [hc] using hbody, hd, hs, rfl, by simp⟩
    · exact .inr ⟨hr, rfl, by simpa [hc] using hbody⟩
  | case9 => simp at h
  | case10 opened seen p rest ih =>
    obtain ⟨g, b', hg, rfl, rfl, hp⟩ := ih h
    refine ⟨'*' :: '/' :: g, b', ⟨[], g, by simp, hg, rfl⟩, by simp, rfl, ?_⟩
    simp only [hp, Text.size_cons, show '/'.utf8Size = 1 from rfl,
      show '*'.utf8Size = 1 from rfl]
    omega
  | case11 opened seen p c rest hc ih =>
    obtain ⟨g, b', hg, rfl, rfl, hp⟩ := ih h
    obtain ⟨body, s, hbody, hs, rfl⟩ := hg
    refine ⟨c :: body ++ '*' :: '/' :: s, b', ⟨c :: body, s, ?_, hs, rfl⟩, by simp, rfl,
      by simp [hp, Nat.add_assoc]⟩
    intro h
    obtain ⟨u, v, he⟩ := h
    cases u with
    | nil =>
      simp only [List.nil_append, List.cons_append, List.cons.injEq] at he
      obtain ⟨rfl, he⟩ := he
      exact hc (v ++ '*' :: '/' :: s ++ k.rest) rfl (by simp [← he])
    | cons x u =>
      simp only [List.cons_append, List.cons.injEq] at he
      exact hbody ⟨u, v, by simpa using he.2⟩

theorem gap_eq_ok {b : Bool} {k k' : Cursor} :
    gap k = (.ok b, k') ↔ ∃ g, k.Passes g k' ∧ GapBefore b g k'.rest := by
  constructor
  · intro h
    obtain ⟨g, b', hg, hs, rfl, hp⟩ := remains_of_gapFrom h
    exact ⟨g, ⟨hs, hp⟩, hg⟩
  · intro h
    obtain ⟨g, hk, s, tail, hs, hr, rfl⟩ := h
    obtain ⟨p, r⟩ := k
    obtain ⟨p', r'⟩ := k'
    obtain ⟨hrest, hpos⟩ := hk
    dsimp only at hrest hpos hr
    subst hrest hpos
    rw [gap, List.append_assoc, gapFrom_append hs, Bool.false_or]
    rcases hr with ⟨rfl, hr⟩ | ⟨⟨body, hbody, rfl⟩, rfl⟩
    · simp [gapFrom_solid hr]
    · have hp : p + Text.size s + 2 + Text.size body =
          p + Text.size (s ++ '/' :: '/' :: body) := by
        simp only [Text.size_append, Text.size_cons, show '/'.utf8Size = 1 from rfl]
        omega
      rw [List.append_nil, gapFrom, gapFrom_openComment hbody, hp]

end Scan
end Cjson
