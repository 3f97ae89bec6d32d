import Cjson.Proofs.Line
import Cjson.Snippet

namespace Cjson

namespace Text

/-- The tab stop behind a column. -/
def tabStop (width column : Nat) : Nat :=
  max width 1 * (1 + column / max width 1)

theorem lt_tabStop (width column : Nat) : column < tabStop width column := by
  rw [tabStop, Nat.add_comm 1]
  exact Nat.lt_mul_div_succ column (by omega)

theorem detab_tab (width column : Nat) (s : List Char) :
    detab width column ('\t' :: s) =
      List.replicate (tabStop width column - column) ' ' ++
        detab width (tabStop width column) s := by
  rw [detab, if_pos rfl]
  rfl

theorem detab_other {c : Char} (hc : c ≠ '\t') (width column : Nat) (s : List Char) :
    detab width column (c :: s) = c :: detab width (column + 1) s := by
  rw [detab, if_neg hc]

/-- A text is written as before where another one is in front of it that comes to its column. -/
theorem detab_append (width column : Nat) (s t : List Char) :
    detab width column (s ++ t) =
      detab width column s ++ detab width (column + (detab width column s).length) t := by
  induction s generalizing column with
  | nil => rfl
  | cons c s ih =>
    rw [List.cons_append]
    by_cases hc : c = '\t'
    · subst hc
      have := lt_tabStop width column
      rw [detab_tab, detab_tab, ih, List.append_assoc, List.length_append, List.length_replicate,
        ← Nat.add_assoc, Nat.add_sub_cancel' (Nat.le_of_lt this)]
    · rw [detab_other hc, detab_other hc, ih, List.cons_append, List.length_cons,
        Nat.add_assoc, Nat.add_comm 1]

/-- What is shown of a character that is no line break. -/
def shownAs (c : Char) : Char :=
  if c = '\t' then ' ' else c

theorem detab_head (width column : Nat) (c : Char) (s : List Char) :
    (detab width column (c :: s)).head? = some (shownAs c) := by
  rw [shownAs]
  split
  · rename_i hc
    subst hc
    have := lt_tabStop width column
    rw [detab_tab, List.head?_append, List.head?_replicate, if_neg (by omega)]
    rfl
  · rename_i hc
    rw [detab_other hc]
    rfl

theorem mem_detab {width column : Nat} {s : List Char} {c : Char}
    (h : c ∈ detab width column s) : c = ' ' ∨ c ∈ s := by
  induction s generalizing column with
  | nil => cases h
  | cons d s ih =>
    by_cases hd : d = '\t'
    · subst hd
      rw [detab_tab] at h
      rcases List.mem_append.mp h with h | h
      · exact .inl (List.eq_of_mem_replicate h)
      · exact (ih h).imp_right (List.mem_cons_of_mem '\t')
    · rw [detab_other hd] at h
      rcases List.mem_cons.mp h with rfl | h
      · exact .inr List.mem_cons_self
      · exact (ih h).imp_right (List.mem_cons_of_mem d)

end Text

namespace Snippet

/-- What stands for a part that is left out. -/
def elision : List Char → List Char
  | [] => []
  | _ :: _ => ellipsis

theorem elision_of_ne_nil {s : List Char} (h : s ≠ []) : elision s = ellipsis := by
  cases s with
  | nil => exact absurd rfl h
  | cons _ _ => rfl

theorem mem_elision {s : List Char} {c : Char} (h : c ∈ elision s) : c = '.' := by
  cases s with
  | nil => cases h
  | cons _ _ => simpa [elision, ellipsis] using h

/-- The half behind the caret, cut so that at least `kept` characters of it stay. -/
theorem exists_shown (after : List Char) {kept : Nat} (hkept : 6 ≤ kept) :
    ∃ j, (after ≠ [] → 0 < j) ∧
      (if kept < after.length then after.take (kept - 3) ++ ellipsis else after) =
        after.take j ++ elision (after.drop j) ∧
      (after.take j ++ elision (after.drop j)).length = min kept after.length := by
  split
  · rename_i hlt
    have hne : after.drop (kept - 3) ≠ [] := by
      rw [ne_eq, List.drop_eq_nil_iff]
      omega
    refine ⟨kept - 3, fun _ => by omega, by rw [elision_of_ne_nil hne], ?_⟩
    rw [elision_of_ne_nil hne, List.length_append, List.length_take, ellipsis]
    simp only [List.length_cons, List.length_nil]
    omega
  · rename_i hle
    refine ⟨after.length, fun hne => List.length_pos_iff.mpr hne, ?_, ?_⟩
    · simp [elision]
    · simp only [List.take_length, List.drop_length, elision, List.append_nil]
      omega

/-- A line that is too long is cut at its beginning, at its end or at both of them, but never
at the character behind the caret. -/
theorem fit_cut {width : Nat} (hwidth : 9 ≤ width) (before after : List Char) :
    ∃ i j, (after ≠ [] → 0 < j) ∧
      fit width before after =
        (elision (before.take i) ++ before.drop i, after.take j ++ elision (after.drop j)) ∧
      (fit width before after).1.length + (fit width before after).2.length ≤ width ∧
      (before.length + after.length ≤ width → before.take i = [] ∧ after.drop j = []) := by
  by_cases hfits : before.length + after.length ≤ width
  · have hfit : fit width before after = (before, after) := by rw [fit, if_pos hfits]
    refine ⟨0, after.length, fun hne => List.length_pos_iff.mpr hne, ?_, ?_, fun _ => by simp⟩
    · simp [hfit, elision]
    · rwa [hfit]
  · have hkept : 6 ≤ max (after.length - (before.length + after.length - width)) 6 :=
      Nat.le_max_right _ 6
    obtain ⟨j, hj, hshown, hlength⟩ := exists_shown after hkept
    have hfit : fit width before after =
        if before.length + (after.take j ++ elision (after.drop j)).length ≤ width then
          (before, after.take j ++ elision (after.drop j))
        else
          (ellipsis ++ before.drop (min (before.length +
            (after.take j ++ elision (after.drop j)).length - width + 3) before.length),
            after.take j ++ elision (after.drop j)) := by
      rw [← hshown, fit, if_neg hfits]
    split at hfit
    · rename_i hle
      refine ⟨0, j, hj, ?_, ?_, fun hle => absurd hle hfits⟩
      · simp [hfit, elision]
      · rwa [hfit]
    · rename_i hgt
      rw [hlength] at hfit hgt
      obtain ⟨i, hi⟩ : ∃ i, i = min (before.length + min (max (after.length - (before.length +
        after.length - width)) 6) after.length - width + 3) before.length := ⟨_, rfl⟩
      rw [← hi] at hfit
      -- No more than six characters are left behind the caret, so there is room for the dots.
      have hne : before.take i ≠ [] := by
        rw [ne_eq, List.take_eq_nil_iff, ← List.length_eq_zero_iff]
        omega
      refine ⟨i, j, hj, ?_, ?_, fun hle => absurd hle hfits⟩
      · rw [hfit, elision_of_ne_nil hne]
      · have hdots : ellipsis.length = 3 := rfl
        rw [hfit, List.length_append, List.length_drop, hlength, hdots]
        omega

/-- The line as it is quoted: the whole of it, or what is left of it between the parts that are
left out, behind as many characters as there are spaces under it. -/
structure Quotes (width column : Nat) (whole quoted : List Char) (spaces : Nat) : Prop where
  parts : ∃ front kept back, whole = front ++ kept ++ back ∧
    quoted = elision front ++ kept ++ elision back ∧
    front.length + spaces = (elision front).length + column
  fits : quoted.length ≤ width
  unchanged : whole.length ≤ width → quoted = whole

theorem quotes_fit {width : Nat} (hwidth : 9 ≤ width) (before after : List Char) :
    Quotes width before.length (before ++ after)
      ((fit width before after).1 ++ (fit width before after).2)
      (fit width before after).1.length := by
  obtain ⟨i, j, -, hfit, hlength, hwhole⟩ := fit_cut hwidth before after
  refine ⟨⟨before.take i, before.drop i ++ after.take j, after.drop j, ?_, ?_, ?_⟩, ?_, ?_⟩
  · rw [← List.append_assoc, List.take_append_drop, List.append_assoc, List.take_append_drop]
  · simp [hfit]
  · have := congrArg List.length (List.take_append_drop i before)
    rw [List.length_append] at this
    rw [hfit, List.length_append]
    omega
  · rwa [List.length_append]
  · intro hle
    obtain ⟨hi, hj⟩ := hwhole (by rwa [List.length_append] at hle)
    have hbefore : before.drop i = before := by
      have := List.take_append_drop i before
      rwa [hi] at this
    have hafter : after.take j = after := by
      have := List.take_append_drop j after
      rwa [hj, List.append_nil] at this
    rw [hfit, hi, hj, hbefore, hafter]
    simp [elision]

/-- What is behind the caret begins with the same character as before. -/
theorem fit_head {width : Nat} (hwidth : 9 ≤ width) (before after : List Char) :
    (fit width before after).2.head? = after.head? := by
  obtain ⟨i, j, hj, hfit, -⟩ := fit_cut hwidth before after
  rw [hfit]
  cases after with
  | nil => simp [elision]
  | cons c after =>
    obtain ⟨j, rfl⟩ := Nat.exists_eq_succ_of_ne_zero (Nat.ne_of_gt (hj (by simp)))
    rfl

/-- The halves of a line are quoted as the whole of it is. -/
theorem quotes_halves (s : Snippet) (hwidth : 9 ≤ s.width) (p : Place) :
    Quotes s.width (Text.detab s.tab 0 p.before).length
      (Text.detab s.tab 0 (p.before ++ p.after)) ((s.halves p).1 ++ (s.halves p).2)
      (s.halves p).1.length := by
  rw [Text.detab_append, Nat.zero_add]
  exact quotes_fit hwidth _ _

theorem halves_head (s : Snippet) (hwidth : 9 ≤ s.width) (p : Place) :
    (s.halves p).2.head? = p.after.head?.map Text.shownAs := by
  refine (fit_head hwidth _ _).trans ?_
  cases p.after with
  | nil => rfl
  | cons c after => exact Text.detab_head _ _ c after

theorem Quotes.plain {width column spaces tab : Nat} {content quoted : List Char}
    (h : Quotes width column (Text.detab tab 0 content) quoted spaces)
    (hcontent : ∀ c ∈ content, Character.isLineBreak c = false) :
    ∀ c ∈ quoted, Character.isLineBreak c = false := by
  obtain ⟨front, kept, back, hwhole, rfl, -⟩ := h.parts
  intro c hc
  rw [List.mem_append, List.mem_append] at hc
  rcases hc with (hc | hc) | hc
  · rw [mem_elision hc]
    rfl
  · have hmem : c ∈ Text.detab tab 0 content := by
      rw [hwhole]
      simp [hc]
    rcases Text.mem_detab hmem with rfl | hmem
    · rfl
    · exact hcontent c hmem
  · rw [mem_elision hc]
    rfl

end Snippet

section Snippets

variable {text : List Char} {n : Nat} {above : List Line} {line : Line} {before : List Char}
  {c : Char}

/-- On the line itself the character is in front of what goes on behind the place. -/
theorem Text.Located.behind (h : Located text n above line before c) :
    (Character.isLineBreak c = true ∧ line.content.drop before.length = []) ∨
      (Character.isLineBreak c = false ∧ ∃ t, line.content.drop before.length = c :: t) := by
  obtain ⟨below, hlines⟩ := h.lines
  obtain ⟨after, hline⟩ := h.line
  have hlined : Lined (above ++ line :: below) text := hlines ▸ lined_lines text
  rcases hlined.of_append.character hline with ⟨t, hcontent, -⟩ | ⟨rfl, hending⟩ | ⟨rfl, rfl, -⟩
  · refine .inr ⟨hlined.of_append.plain c (by simp [hcontent]), t, ?_⟩
    rw [hcontent, List.drop_left]
  · refine .inl ⟨(hlined.of_append.ends_of_cons hending).isLineBreak c ?_, List.drop_length⟩
    rw [hending]
    exact List.mem_cons_self
  · exact .inl ⟨rfl, by simp⟩

theorem Text.Located.plain (h : Located text n above line before c) :
    ∀ d ∈ line.content, Character.isLineBreak d = false := by
  obtain ⟨below, hlines⟩ := h.lines
  have hlined : Lined (above ++ line :: below) text := hlines ▸ lined_lines text
  exact hlined.of_append.plain

theorem Snippet.quoted_of_ne_nil (s : Snippet) {p : Place} (h : p.before ++ p.after ≠ []) :
    s.quoted p = (s.halves p).1 ++ (s.halves p).2 ++
      '\n' :: List.replicate (s.halves p).1.length ' ' ++ ['^'] := by
  have hempty : (p.before.isEmpty && p.after.isEmpty) = false := by
    rw [Bool.eq_false_iff]
    intro hempty
    rw [Bool.and_eq_true, List.isEmpty_iff, List.isEmpty_iff] at hempty
    exact h (List.append_eq_nil_iff.mpr hempty)
  rw [Snippet.quoted, if_neg (by simp [hempty])]

/-- A message about a place on a line that is not empty ends with the quoted line and the line of
the caret. -/
theorem Snippet.format_of_place (s : Snippet) (message : String) {l : Location} {p : Place}
    (hplace : l.place? = some p) (h : p.before ++ p.after ≠ []) :
    ∃ head, s.format message l =
      head ++ "\n" ++ .ofList ((s.halves p).1 ++ (s.halves p).2) ++ "\n" ++
        .ofList (List.replicate (s.halves p).1.length ' ' ++ ['^']) := by
  refine ⟨message ++ "\nError location: " ++ p.position.describe ++
    l.source.file.elim "" (" in " ++ ·) ++ ":", ?_⟩
  rw [Snippet.format, hplace]
  dsimp only
  rw [s.quoted_of_ne_nil h]
  apply String.toList_injective
  cases l.source.file with
  | none => simp
  | some f => simp

end Snippets

/-- The last two lines of a message are a quoted line and that of the caret. The quoted line fits
into its width, and is the whole line but for what is left out at its ends. The caret is under
the character `c` behind `before`, or behind the line if `c` is of the line break. -/
def Snippet.Points (s : Snippet) (line : Line) (before : List Char) (c : Char)
    (message : String) : Prop :=
  ∃ head quoted spaces,
    message = head ++ "\n" ++ .ofList quoted ++ "\n" ++
      .ofList (List.replicate spaces ' ' ++ ['^']) ∧
    (∀ d ∈ quoted, Character.isLineBreak d = false) ∧
    Snippet.Quotes s.width (Text.detab s.tab 0 (line.content.take before.length)).length
      (Text.detab s.tab 0 line.content) quoted spaces ∧
    spaces ≤ quoted.length ∧ (spaces = quoted.length ↔ Character.isLineBreak c = true) ∧
    (Character.isLineBreak c = false → quoted[spaces]? = some (Text.shownAs c))

/-- Wherever a byte is located on a line that is not empty, the snippet quotes that line and
points to the character of the byte. -/
theorem snippet_points (s : Snippet) (hwidth : 9 ≤ s.width) (message : String)
    {text : List Char} (file : Option String) {n : Nat} (hn : n < Text.size text) :
    ∃ above line before c, Text.Located text n above line before c ∧
      (line.content ≠ [] →
        s.Points line before c (s.format message ⟨⟨text, file⟩, n⟩)) := by
  obtain ⟨above, line, before, c, h⟩ := Text.exists_located hn
  refine ⟨above, line, before, c, h, fun hne => ?_⟩
  obtain ⟨p, hp⟩ : ∃ p, p = line.place above.length before.length := ⟨_, rfl⟩
  have hsplit : p.before ++ p.after = line.content := by
    rw [hp]
    exact List.take_append_drop _ _
  have hbefore : p.before = line.content.take before.length := by rw [hp, Line.place]
  have hafter : p.after = line.content.drop before.length := by rw [hp, Line.place]
  obtain ⟨head, hformat⟩ := s.format_of_place message (l := ⟨⟨text, file⟩, n⟩)
    (h.find.trans (congrArg some hp.symm)) (by rwa [hsplit])
  have hquotes := s.quotes_halves hwidth p
  rw [hsplit, hbefore] at hquotes
  have hhead := s.halves_head hwidth p
  refine ⟨head, _, _, hformat, hquotes.plain h.plain, hquotes, ?_, ?_, ?_⟩
  · rw [List.length_append]
    exact Nat.le_add_right _ _
  · rw [List.length_append, Nat.left_eq_add, List.length_eq_zero_iff, ← List.head?_eq_none_iff,
      hhead, hafter]
    rcases h.behind with ⟨hc, hnil⟩ | ⟨hc, t, hcons⟩
    · simp [hc, hnil]
    · simp [hc, hcons]
  · intro hc
    rw [List.getElem?_append_right (Nat.le_refl _), Nat.sub_self, ← List.head?_eq_getElem?, hhead,
      hafter]
    rcases h.behind with ⟨hc', -⟩ | ⟨-, t, hcons⟩
    · rw [hc] at hc'
      cases hc'
    · rw [hcons]
      rfl

/-- A line with a tab that is cut at its end. -/
theorem snippet_points_tab :
    9 ≤ (⟨9, 4⟩ : Snippet).width ∧ 7 < Text.size "é\n[\tx y z, 3]".toList ∧
      ∃ above line before c,
        Text.Located "é\n[\tx y z, 3]".toList 7 above line before c ∧
        (line.content ≠ [] →
          (⟨9, 4⟩ : Snippet).Points line before c
            ((⟨9, 4⟩ : Snippet).format "Missing separator"
              ⟨⟨"é\n[\tx y z, 3]".toList, none⟩, 7⟩)) :=
  ⟨by decide, by decide, snippet_points ⟨9, 4⟩ (by decide) "Missing separator" none (by decide)⟩

end Cjson
