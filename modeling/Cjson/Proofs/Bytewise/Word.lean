import Cjson.Proofs.Bytewise.Gap

namespace Cjson

theorem Text.size_pos {s : List Char} (h : s ≠ []) : 0 < size s := by
  cases s with
  | nil => exact absurd rfl h
  | cons c s =>
    have := c.utf8Size_pos
    rw [size_cons]
    omega

open Cjson.Action Cursor

namespace Scan

variable {k k₁ k₂ : Cursor} {w : List Char} {b : Bool}

theorem wordOrCall_of_open (hword : word k = (.ok w, k₁)) (hgap : gap k₁ = (.ok b, k₂))
    (hopen : k₂.rest.head? = some '(') : wordOrCall k = (.ok (w, true), k₂.next) := by
  rw [wordOrCall, bind_ok hword, bind_ok (get_apply k₁), bind_ok hgap,
    bind_ok (peek_apply k₂), if_pos hopen, bind_ok (advance_apply k₂)]
  rfl

/-- The gap behind a word is only passed to look behind it. -/
theorem wordOrCall_of_not_open (hword : word k = (.ok w, k₁)) (hgap : gap k₁ = (.ok b, k₂))
    (hopen : k₂.rest.head? ≠ some '(') : wordOrCall k = (.ok (w, false), k₁) := by
  rw [wordOrCall, bind_ok hword, bind_ok (get_apply k₁), bind_ok hgap,
    bind_ok (peek_apply k₂), if_neg hopen, bind_ok (set_apply _ _)]
  rfl

theorem wordOrCall_of_gap_error {f : Fault} (hword : word k = (.ok w, k₁))
    (hgap : gap k₁ = (.error f, k₂)) : wordOrCall k = (.error f, k₂) := by
  rw [wordOrCall, bind_ok hword, bind_ok (get_apply k₁), bind_error hgap]

end Scan

namespace Bytewise

variable {e : Extent} {start k : Cursor}

/-- The offset gets behind a plus sign, if there is one, and all word characters. -/
theorem moveWhile_word {sign letters : List Char} {k₁ k' : Cursor} (h : e.Shows k)
    (hsign : Scan.takeUpTo 1 (· == '+') k = (.ok sign, k₁))
    (hletters : Scan.takeWhile Character.isWordChar k₁ = (.ok letters, k')) :
    moveWhile e (fun here c => Character.isWordChar c || (here == k.position && c == '+'))
      k.position = (.ok (), k'.position) := by
  obtain ⟨hk₁, hplus, hlength, hnoSign⟩ := Scan.takeUpTo_eq_ok.mp hsign
  obtain ⟨hk', hword, hstop⟩ := Scan.takeWhile_eq_ok.mp hletters
  refine moveWhile_apply h (hk₁.trans hk') ?_ ?_
  · intro before c behind he
    rw [Bool.or_eq_true]
    rcases List.append_eq_append_iff.mp he with ⟨u, rfl, hu⟩ | ⟨u, rfl, hu⟩
    · exact .inl (hword c (by simp [hu]))
    · cases u with
      | nil => exact .inl (hword c (by simp at hu; simp [← hu]))
      | cons d u =>
        cases hu
        have hbefore : before = [] := by
          simp only [List.length_append, List.length_cons] at hlength
          exact List.eq_nil_of_length_eq_zero (by omega)
        have hc := hplus c (by simp)
        simp [hbefore, hc]
  · intro c hc
    rw [hstop c hc, Bool.false_or, Bool.and_eq_false_iff]
    by_cases hw : sign ++ letters = []
    · obtain ⟨rfl, rfl⟩ := List.append_eq_nil_iff.mp hw
      rw [← (Passes.refl k₁).unique hk'] at hc
      exact .inr (hnoSign (by simp) c hc)
    · have hposition := (hk₁.trans hk').position
      have := Text.size_pos hw
      exact .inl (beq_eq_false_iff_ne.mpr (by omega))

/-- A word is read from where it begins up to where it ends. -/
theorem word_reads (hk : e.Stands start k) :
    (∃ w k', Scan.word k = (.ok w, k') ∧ k.Passes w k' ∧
      word e k.position = (.ok (k.position, k'.position), k'.position)) ∨
    (Scan.word k = (.error (.problem .unexpectedCharacter k.position), k) ∧
      word e k.position =
        (.error (.fault (.problem .unexpectedCharacter k.position)), k.position)) := by
  obtain ⟨sign, k₁, hsign⟩ : ∃ sign k₁, Scan.takeUpTo 1 (· == '+') k = (.ok sign, k₁) :=
    ⟨_, _, rfl⟩
  obtain ⟨letters, k', hletters⟩ :
      ∃ letters k', Scan.takeWhile Character.isWordChar k₁ = (.ok letters, k') := ⟨_, _, rfl⟩
  have hmove := moveWhile_word hk.here hsign hletters
  have hw := (Scan.takeUpTo_eq_ok.mp hsign).1.trans (Scan.takeWhile_eq_ok.mp hletters).1
  have hscan : Scan.word k = (do
      if sign.isEmpty && letters.isEmpty then
        Scan.fail .unexpectedCharacter k.position
      return sign ++ letters : Scan (List Char)) k' := by
    rw [Scan.word, bind_ok (Scan.position_apply k), bind_ok hsign, bind_ok hletters]
  have hword : word e k.position = (if k'.position = k.position then
      fail .unexpectedCharacter k.position
      else return (k.position, k'.position) : Bytewise (Nat × Nat)) k'.position := by
    rw [word, bind_ok (position_apply _), bind_ok hmove, bind_ok (position_apply _)]
  by_cases hnil : sign ++ letters = []
  · rw [hnil] at hw
    obtain ⟨rfl, rfl⟩ := List.append_eq_nil_iff.mp hnil
    rw [← (Passes.refl k).unique hw] at hscan hword
    exact .inr ⟨hscan, hword.trans (by rw [if_pos rfl]; rfl)⟩
  · have hposition := hw.position
    have := Text.size_pos hnil
    rw [if_neg (by omega)] at hword
    rw [if_neg (by simpa using hnil)] at hscan
    exact .inl ⟨_, _, hscan, hw, hword⟩

/-- Where a parenthesis opens behind a word, the name in front of it is cut out. -/
theorem wordOrCall_follows (hk : e.Stands start k) :
    Follows start (wordOrCall e) Scan.wordOrCall k := by
  rcases word_reads hk with ⟨w, k₁, hscan, hk₁, hword⟩ | ⟨hscan, hword⟩
  · have hs₁ := hk.passes hk₁
    cases gap_follows hs₁ with
    | @ok b k₂ hgap hgap' hk₂ =>
      have hs₂ := hs₁.forward hk₂
      have hpeek := peek_apply hs₂.here
      have hslice := slice_apply hk.here hk₁
      by_cases hopen : k₂.rest.head? = some '('
      · obtain ⟨t, hr⟩ := List.head?_eq_some_iff.mp hopen
        refine .ok (Scan.wordOrCall_of_open hscan hgap hopen) ?_
          (.trans ⟨w, hk₁⟩ (hk₂.trans (reaches_next k₂)))
        rw [wordOrCall, bind_ok hword]
        dsimp only
        rw [bind_ok hgap', bind_ok hpeek, if_pos hopen, bind_ok (hslice _),
          bind_ok (move_apply _ _), (next_of_rest hr).1.position]
        rfl
      · refine .ok (Scan.wordOrCall_of_not_open hscan hgap hopen) ?_ ⟨w, hk₁⟩
        rw [wordOrCall, bind_ok hword]
        dsimp only
        rw [bind_ok hgap', bind_ok hpeek, if_neg hopen, bind_ok (moveTo_apply _ _),
          bind_ok (hslice _)]
        rfl
    | @problem p offset k₂ hgap hgap' hk₂ holds =>
      refine .problem (Scan.wordOrCall_of_gap_error hscan hgap) ?_ (.trans ⟨w, hk₁⟩ hk₂) holds
      rw [wordOrCall, bind_ok hword]
      exact bind_error hgap'
  · exact .problem (bind_error hscan) (bind_error hword) (.refl k) ⟨k, hk.reached, rfl⟩

/-- A separator is judged by the first character behind the gap. -/
theorem separator_follows (hk : e.Stands start k) (terminator : Option Char)
    (noColon : Option ColonFault) :
    Follows start (separator e terminator noColon) (Scan.separator terminator noColon) k := by
  unfold separator Scan.separator
  apply follows_position.bind
  intro first k₁ hp _
  cases hp
  apply (gap_follows hk).bind
  intro lineBreak k₁ _ hk₁
  have hs₁ := hk.forward hk₁
  have here : start.Holds k₁.position := ⟨k₁, hs₁.reached, rfl⟩
  apply follows_position.bind
  intro position k₂ hp _
  cases hp
  apply (follows_peek hs₁.here).bind
  intro next k₂ hpeek _
  cases hpeek
  have mark : ∀ {c : Char} {d : Scan.Separator}, k₁.rest.head? = some c → c.utf8Size = 1 →
      Follows start (do move 1; let _ ← gap e; return d)
        (do Scan.advance; let _ ← Scan.gap; return d) k₁ := by
    intro c d hc hsize
    obtain ⟨t, hr⟩ := List.head?_eq_some_iff.mp hc
    rw [← hsize]
    apply (follows_move hr).bind
    intro _ k₂ _ hk₂
    exact (gap_follows (hs₁.forward hk₂)).bind fun _ _ _ _ => follows_pure d
  generalize hr : k₁.rest.head? = next at mark
  cases next with
  | none => exact follows_pure _
  | some c =>
    by_cases hplus : c = '+'
    · subst hplus
      exact follows_fail _ here
    by_cases hcomma : c = ','
    · subst hcomma
      exact mark rfl rfl
    by_cases hcolon : c = ':'
    · subst hcolon
      cases noColon with
      | some why => exact follows_fail _ here
      | none => exact mark rfl rfl
    simp only
    refine .ite (fun _ => follows_pure _) fun _ => ?_
    refine .ite (fun _ => follows_fail _ here) fun _ => ?_
    refine .ite (fun _ => follows_fail _ here) fun _ => ?_
    refine .ite (fun _ => follows_pure _) fun _ => ?_
    exact .ite (fun _ => follows_fail _ here) fun _ => follows_fail _ here

end Bytewise
end Cjson
