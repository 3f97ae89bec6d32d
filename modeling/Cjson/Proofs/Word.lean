import Cjson.Proofs.Gap
import Cjson.Scan.Word

namespace Cjson

namespace Character

/-- The blanks, with the white space that is none. -/
def blankCodes : List Nat :=
  [0x09, 0x0A, 0x0B, 0x0C, 0x0D, 0x1C, 0x1D, 0x1E, 0x1F, 0x20, 0x85, 0xA0, 0x1680, 0x2000,
    0x2001, 0x2002, 0x2003, 0x2004, 0x2005, 0x2006, 0x2007, 0x2008, 0x2009, 0x200A, 0x2028,
    0x2029, 0x202F, 0x205F, 0x3000, 0xFEFF]

theorem mem_blankCodes {c : Char} (h : isBlank c = true) : c.toNat ∈ blankCodes := by
  simp only [isBlank, isWhiteSpace, inRanges, Bool.or_eq_true, Bool.and_eq_true,
    decide_eq_true_eq, Bool.or_false, beq_iff_eq, bne_iff_ne] at h
  simp only [blankCodes, List.mem_cons, List.not_mem_nil, or_false]
  rcases h with (rfl | h) | h
  · decide
  · omega
  · omega

/-- What goes on with a word: its own characters, and the quote of a raw literal. -/
def joins (c : Char) : Bool :=
  isWordChar c || c == '"' || c == '\''

theorem joins_of_isBlank {c : Char} (h : isBlank c = true) : joins c = false := by
  have hcodes : ∀ n ∈ blankCodes, joins (Char.ofNat n) = false := by decide +kernel
  have := hcodes c.toNat (mem_blankCodes h)
  rwa [Char.ofNat_toNat] at this

end Character

/-- Word characters, with at most one plus sign in front of them. A plus sign alone is a
word too. -/
def Word (w : List Char) : Prop :=
  w ≠ [] ∧ ∃ sign letters, w = sign ++ letters ∧ (sign = [] ∨ sign = ['+']) ∧
    ∀ c ∈ letters, Character.isWordChar c = true

/-- No word goes on with the text, and none in front of it calls a function. -/
def WordEnds (rest : List Char) : Prop :=
  Text.Stops Character.joins rest ∧
    ∃ b g r, rest = g ++ r ∧ GapBefore b g r ∧ r.head? ≠ some '('

theorem Word.of_all {c : Char} {s : List Char}
    (h : (c :: s).all Character.isWordChar = true) : Word (c :: s) :=
  ⟨List.cons_ne_nil c s, [], c :: s, rfl, .inl rfl, List.all_eq_true.mp h⟩

theorem Word.cons {w : List Char} (h : Word w) :
    ∃ c s, w = c :: s ∧ (Character.isWordChar c = true ∨ c = '+') := by
  obtain ⟨hne, sign, letters, rfl, rfl | rfl, hl⟩ := h
  · cases letters with
    | nil => exact absurd rfl hne
    | cons c s => exact ⟨c, s, rfl, .inl (hl c (by simp))⟩
  · exact ⟨'+', letters, rfl, .inr rfl⟩

theorem Text.Stops.word {rest : List Char} (h : Text.Stops Character.joins rest) :
    Text.Stops Character.isWordChar rest := by
  intro c hc
  have := h c hc
  simp only [Character.joins, Bool.or_eq_false_iff] at this
  exact this.1.1

/-- No word goes on with a gap. -/
theorem Gap.stops {b : Bool} {g rest : List Char} (h : Gap b g)
    (hr : g = [] → Text.Stops Character.joins rest) :
    Text.Stops Character.joins (g ++ rest) := by
  intro c hc
  cases h with
  | nil => exact hr rfl c hc
  | blank hb _ =>
    cases hc
    exact Character.joins_of_isBlank hb
  | lineComment _ _ _ | blockComment _ _ =>
    cases hc
    decide

/-- Behind a gap, anything but a parenthesis or a word character ends a word. -/
theorem GapBefore.wordEnds {b : Bool} {g rest : List Char} (h : GapBefore b g rest)
    (hr : g = [] → Text.Stops Character.joins rest) (hc : rest.head? ≠ some '(') :
    WordEnds (g ++ rest) := by
  refine ⟨?_, b, g, rest, rfl, h, hc⟩
  obtain ⟨s, tail, hs, ⟨rfl, -⟩ | ⟨⟨body, -, rfl⟩, -⟩, rfl⟩ := h
  · rw [List.append_nil] at hr ⊢
    exact hs.stops hr
  · rw [List.append_assoc]
    refine hs.stops ?_
    intro _ c hc
    cases hc
    decide

/-- A text that is read as a word or a call, and not as a raw literal. -/
def Text.BeginsWord (s : List Char) : Prop :=
  ∃ c t, s = c :: t ∧ (Character.isWordChar c = true ∨ c = '+') ∧
    ∀ q, q = '"' ∨ q = '\'' → c = 'r' → t.head? ≠ some q

theorem Word.begins {w rest : List Char} (h : Word w) (hr : Text.Stops Character.joins rest) :
    Text.BeginsWord (w ++ rest) := by
  obtain ⟨c, s, rfl, hc⟩ := h.cons
  refine ⟨c, s ++ rest, rfl, hc, ?_⟩
  intro q hq hr' he
  subst hr'
  have hjoins : Character.joins q = true ∧ Character.isWordChar q = false := by
    rcases hq with rfl | rfl <;> decide
  cases s with
  | nil =>
    have := hr q he
    rw [hjoins.1] at this
    cases this
  | cons d s =>
    cases he
    obtain ⟨-, sign, letters, he, hsign, hletters⟩ := h
    have hmem : q ∈ letters := by
      rcases hsign with rfl | rfl
      · cases he
        simp
      · cases he
    have := hletters q hmem
    rw [hjoins.2] at this
    cases this

theorem Word.begins_call {f g rest : List Char} {b : Bool} (hf : Word f) (hg : Gap b g) :
    Text.BeginsWord (f ++ (g ++ '(' :: rest)) := by
  apply hf.begins
  apply hg.stops
  intro _ c hc
  cases hc
  rfl

namespace Scan

open Cjson.Action Cursor

theorem word_eq_ok {w : List Char} {k k' : Cursor} :
    word k = (.ok w, k') ↔
      k.Passes w k' ∧ Word w ∧ Text.Stops Character.isWordChar k'.rest := by
  constructor
  · intro h
    obtain ⟨start, _, hp, h⟩ := bind_eq_ok.mp h
    cases hp
    obtain ⟨sign, k₁, hs, h⟩ := bind_eq_ok.mp h
    obtain ⟨letters, k₂, hl, h⟩ := bind_eq_ok.mp h
    obtain ⟨hk₁, hsign, hlen, -⟩ := takeUpTo_eq_ok.mp hs
    obtain ⟨hk₂, hletters, hstop⟩ := takeWhile_eq_ok.mp hl
    split at h
    · obtain ⟨_, _, hf, -⟩ := bind_eq_ok.mp h
      exact absurd hf fail_ne_ok
    · rename_i hne
      obtain ⟨rfl, rfl⟩ := pure_eq_ok.mp h
      refine ⟨hk₁.trans hk₂, ⟨?_, sign, letters, rfl, ?_, hletters⟩, hstop⟩
      · simpa using hne
      · rcases sign with - | ⟨c, - | ⟨d, t⟩⟩
        · exact .inl rfl
        · have := hsign c (by simp)
          exact .inr (by simpa using this)
        · simp at hlen
  · intro h
    obtain ⟨hk, ⟨hne, sign, letters, rfl, hsign, hletters⟩, hstop⟩ := h
    obtain ⟨k₁, hk₁, hk₂⟩ := hk.split
    have hs : takeUpTo 1 (· == '+') k = (.ok sign, k₁) := by
      refine takeUpTo_eq_ok.mpr ⟨hk₁, ?_⟩
      rcases hsign with rfl | rfl
      · refine ⟨by simp, by simp, ?_⟩
        intro _ c hc
        cases letters with
        | nil => exact absurd rfl hne
        | cons d t =>
          rw [hk₂.head] at hc
          cases hc
          have := hletters c (by simp)
          refine beq_false_of_ne ?_
          intro he
          subst he
          exact absurd this (by decide)
      · exact ⟨by simp, by simp, by simp⟩
    have hl : takeWhile Character.isWordChar k₁ = (.ok letters, k') :=
      takeWhile_eq_ok.mpr ⟨hk₂, hletters, hstop⟩
    rw [word, bind_ok (position_apply k), bind_ok hs, bind_ok hl, if_neg (by simpa using hne)]
    rfl

theorem wordOrCall_word {w : List Char} {k k' : Cursor} (hk : k.Passes w k') (hw : Word w)
    (hend : WordEnds k'.rest) : wordOrCall k = (.ok (w, false), k') := by
  obtain ⟨hstop, b, g, r, hr, hg, hne⟩ := hend
  have hgap : gap k' = (.ok b, ⟨k'.position + Text.size g, r⟩) :=
    gap_eq_ok.mpr ⟨g, ⟨hr, rfl⟩, hg⟩
  rw [wordOrCall, bind_ok (word_eq_ok.mpr ⟨hk, hw, hstop.word⟩), bind_ok (get_apply k'),
    bind_ok hgap, bind_ok (peek_apply _), if_neg hne, bind_ok (set_apply _ _)]
  rfl

theorem wordOrCall_call {w g : List Char} {b : Bool} {k k' : Cursor}
    (hk : k.Passes (w ++ g ++ ['(']) k') (hw : Word w) (hg : Gap b g) :
    wordOrCall k = (.ok (w, true), k') := by
  obtain ⟨k₂, hk₂, hopen⟩ := hk.split
  obtain ⟨k₁, hk₁, hgap⟩ := hk₂.split
  have hstop : Text.Stops Character.joins k₁.rest := by
    rw [hgap.rest]
    refine hg.stops ?_
    intro _ c hc
    rw [hopen.head] at hc
    cases hc
    decide
  have hsolid : Solid k₂.rest := by
    rw [hopen.rest]
    exact .cons (by decide) (by decide)
  have hgap : gap k₁ = (.ok b, k₂) := gap_eq_ok.mpr ⟨g, hgap, hg.before hsolid⟩
  rw [wordOrCall, bind_ok (word_eq_ok.mpr ⟨hk₁, hw, hstop.word⟩), bind_ok (get_apply k₁),
    bind_ok hgap, bind_ok (peek_apply _), if_pos hopen.head, bind_ok (advance_apply _),
    hopen.next.1.unique hopen]
  rfl

theorem of_wordOrCall {w : List Char} {called : Bool} {k k' : Cursor}
    (h : wordOrCall k = (.ok (w, called), k')) :
    Word w ∧ if called then ∃ b g, Gap b g ∧ k.Passes (w ++ g ++ ['(']) k'
      else k.Passes w k' := by
  obtain ⟨w', k₁, hword, h⟩ := bind_eq_ok.mp h
  obtain ⟨hk₁, hw, -⟩ := word_eq_ok.mp hword
  obtain ⟨_, _, hget, h⟩ := bind_eq_ok.mp h
  cases hget
  obtain ⟨b, k₂, hgap, h⟩ := bind_eq_ok.mp h
  obtain ⟨g, hk₂, hg⟩ := gap_eq_ok.mp hgap
  obtain ⟨_, _, hpeek, h⟩ := bind_eq_ok.mp h
  cases hpeek
  split at h
  · rename_i hopen
    obtain ⟨_, _, hadv, h⟩ := bind_eq_ok.mp h
    cases hadv
    obtain ⟨he, rfl⟩ := pure_eq_ok.mp h
    cases he
    obtain ⟨r, hr⟩ := List.head?_eq_some_iff.mp hopen
    exact ⟨hw, b, g, hg.gap (by simp [hr]), (hk₁.trans hk₂).trans (next_of_rest hr).1⟩
  · obtain ⟨_, _, hset, h⟩ := bind_eq_ok.mp h
    cases hset
    obtain ⟨he, rfl⟩ := pure_eq_ok.mp h
    cases he
    exact ⟨hw, hk₁⟩

end Scan
end Cjson
