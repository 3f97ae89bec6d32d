import Cjson.Proofs.RoundTrip

namespace Cjson

/-- Counts line breaks; a CR-LF pair is one. -/
def lineBreaks : List Char → Nat
  | [] => 0
  | '\r' :: '\n' :: s => lineBreaks s + 1
  | c :: s => if Character.isLineBreak c then lineBreaks s + 1 else lineBreaks s

/-- A way of writing the characters between quotes `q`. The digits of a code may be in upper
case, and have zeros in front. -/
inductive Respelled (q : Char) : List Char → List Char → Prop
  | nil : Respelled q [] []
  | verbatim {c : Char} {cs s : List Char} (noQuote : c ≠ q) (noEscape : c ≠ '\\')
      (others : Respelled q cs s) : Respelled q (c :: cs) (c :: s)
  | letter {e c : Char} {cs s : List Char} (escape : (e, c) ∈ escapes)
      (others : Respelled q cs s) : Respelled q (c :: cs) ('\\' :: e :: s)
  | code {x c : Char} {digits cs s : List Char} (letter : x = 'x' ∨ x = 'u')
      (atMostFour : digits.length ≤ 4)
      (hex : digits.map Char.toLower = (Nat.toDigits 16 c.toNat).leftpad digits.length '0')
      (longest : digits.length < 4 → Text.Stops (Scan.hexValue? · |>.isSome) s)
      (others : Respelled q cs s) : Respelled q (c :: cs) ('\\' :: x :: digits ++ s)
  | continuation {blanks cs s : List Char} (blank : ∀ c ∈ blanks, Character.isBlank c = true)
      (once : lineBreaks blanks = 1) (longest : Text.Stops Character.isBlank s)
      (others : Respelled q cs s) : Respelled q cs ('\\' :: blanks ++ s)

section LineBreaks

variable {s : List Char}

theorem of_lineBreaks_eq_zero (h : lineBreaks s = 0) :
    ∀ c ∈ s, Character.isLineBreak c = false := by
  fun_induction lineBreaks s with
  | case1 => simp
  | case2 s ih => cases h
  | case3 c s _ hc ih => cases h
  | case4 c s _ hc ih =>
    intro d hd
    rcases List.mem_cons.mp hd with rfl | hd
    · simpa using hc
    · exact ih h d hd

/-- A single line break is somewhere, and none is in front of it or behind. -/
theorem of_lineBreaks_eq_one (h : lineBreaks s = 1) :
    ∃ before lineBreak after, s = before ++ lineBreak ++ after ∧
      (∀ c ∈ before, Character.isLineBreak c = false) ∧
      (lineBreak = ['\n'] ∨ lineBreak = ['\r', '\n'] ∨ lineBreak = ['\r']) ∧
      ∀ c ∈ after, Character.isLineBreak c = false := by
  fun_induction lineBreaks s with
  | case1 => cases h
  | case2 s ih =>
    exact ⟨[], ['\r', '\n'], s, rfl, by simp, .inr (.inl rfl),
      of_lineBreaks_eq_zero (Nat.succ.inj h)⟩
  | case3 c s _ hc ih =>
    refine ⟨[], [c], s, rfl, by simp, ?_, of_lineBreaks_eq_zero (Nat.succ.inj h)⟩
    simp only [Character.isLineBreak, Bool.or_eq_true, beq_iff_eq] at hc
    rcases hc with rfl | rfl
    · exact .inl rfl
    · exact .inr (.inr rfl)
  | case4 c s _ hc ih =>
    obtain ⟨before, lineBreak, after, rfl, hbefore, hbreak, hafter⟩ := ih h
    refine ⟨c :: before, lineBreak, after, rfl, ?_, hbreak, hafter⟩
    intro d hd
    rcases List.mem_cons.mp hd with rfl | hd
    · simpa using hc
    · exact hbefore d hd

end LineBreaks

namespace Scan

theorem isIndent_of_isBlank {c : Char} (hblank : Character.isBlank c = true)
    (hbreak : Character.isLineBreak c = false) : isIndent c = true := by
  simp [isIndent, hblank, hbreak]

theorem hexValue?_toLower (c : Char) : hexValue? c.toLower = hexValue? c := by
  by_cases h : c.val ≥ 'A'.val ∧ c.val ≤ 'Z'.val
  · have hlow : 65 ≤ c.toNat := UInt32.le_iff_toNat_le.mp h.1
    have hhigh : c.toNat ≤ 90 := UInt32.le_iff_toNat_le.mp h.2
    have hall : (List.range 26).all (fun n =>
        hexValue? (Char.ofNat (n + 65)).toLower == hexValue? (.ofNat (n + 65))) = true := by decide
    have hletter := List.all_eq_true.mp hall (c.toNat - 65) (List.mem_range.mpr (by omega))
    rw [Nat.sub_add_cancel hlow, Char.ofNat_toNat] at hletter
    exact beq_iff_eq.mp hletter
  · exact congrArg hexValue? (dif_neg h)

theorem hexNumber_map_toLower (digits : List Char) :
    hexNumber (digits.map Char.toLower) = hexNumber digits := by
  simp only [hexNumber, List.foldl_map, hexValue?_toLower]

theorem hexNumber_replicate_append (zeros : Nat) (digits : List Char) :
    hexNumber (List.replicate zeros '0' ++ digits) = hexNumber digits := by
  induction zeros with
  | zero => rfl
  | succ zeros ih => exact ih

theorem hexNumber_concat (digits : List Char) (d : Char) :
    hexNumber (digits ++ [d]) = 16 * hexNumber digits + (hexValue? d).getD 0 := by
  simp [hexNumber]

theorem hexValue?_digitChar {d : Nat} (h : d < 16) : hexValue? d.digitChar = some d := by
  have hall : (List.range 16).all (fun d => hexValue? d.digitChar == some d) = true := by decide
  simpa using List.all_eq_true.mp hall d (List.mem_range.mpr h)

/-- The digits of a number make it up. -/
theorem hexNumber_toDigits (n : Nat) : hexNumber (Nat.toDigits 16 n) = n := by
  induction n using Nat.strongRecOn with
  | ind n ih =>
    by_cases hn : n < 16
    · rw [Nat.toDigits_of_lt_base hn]
      simp [hexNumber, hexValue?_digitChar hn]
    · rw [Nat.toDigits_of_base_le (by decide) (by omega), hexNumber_concat,
        ih (n / 16) (by omega), hexValue?_digitChar (by omega), Option.getD_some]
      omega

theorem hexValue?_of_mem_toDigits {n : Nat} {d : Char} (h : d ∈ Nat.toDigits 16 n) :
    (hexValue? d).isSome = true := by
  induction n using Nat.strongRecOn with
  | ind n ih =>
    by_cases hn : n < 16
    · rw [Nat.toDigits_of_lt_base hn, List.mem_singleton] at h
      rw [h, hexValue?_digitChar hn]
      rfl
    · rw [Nat.toDigits_of_base_le (by decide) (by omega), List.mem_append,
        List.mem_singleton] at h
      rcases h with h | rfl
      · exact ih (n / 16) (by omega) h
      · rw [hexValue?_digitChar (by omega)]
        rfl

end Scan

section Codes

variable {c : Char} {digits : List Char}

theorem hexNumber_of_hex
    (h : digits.map Char.toLower = (Nat.toDigits 16 c.toNat).leftpad digits.length '0') :
    Scan.hexNumber digits = c.toNat := by
  rw [← Scan.hexNumber_map_toLower, h, List.leftpad, Scan.hexNumber_replicate_append,
    Scan.hexNumber_toDigits]

theorem hexValue?_of_hex
    (h : digits.map Char.toLower = (Nat.toDigits 16 c.toNat).leftpad digits.length '0') :
    ∀ d ∈ digits, (Scan.hexValue? d).isSome = true := by
  intro d hd
  have hlower : d.toLower ∈ digits.map Char.toLower := List.mem_map_of_mem hd
  rw [h, List.leftpad, List.mem_append] at hlower
  rw [← Scan.hexValue?_toLower]
  rcases hlower with hzero | hdigit
  · rw [(List.mem_replicate.mp hzero).2]
    rfl
  · exact Scan.hexValue?_of_mem_toDigits hdigit

theorem ne_nil_of_hex
    (h : digits.map Char.toLower = (Nat.toDigits 16 c.toNat).leftpad digits.length '0') :
    digits ≠ [] := by
  rintro rfl
  exact Nat.toDigits_ne_nil (List.append_eq_nil_iff.mp h.symm).2

/-- No character is a surrogate. -/
theorem Char.toNat_not_surrogate (c : Char) : ¬(0xD800 ≤ c.toNat ∧ c.toNat ≤ 0xDFFF) := by
  have hvalid : c.toNat < 0xD800 ∨ (0xDFFF < c.toNat ∧ c.toNat < 0x110000) := c.valid
  omega

theorem Spelling.of_hex {q x : Char} {s : List Char} (letter : x = 'x' ∨ x = 'u')
    (atMostFour : digits.length ≤ 4)
    (hex : digits.map Char.toLower = (Nat.toDigits 16 c.toNat).leftpad digits.length '0')
    (longest : digits.length < 4 → Text.Stops (Scan.hexValue? · |>.isSome) s) :
    Spelling q (some c) ('\\' :: x :: digits) s := by
  have hnumber := hexNumber_of_hex hex
  have hcode : Spelling q (some (.ofNat (Scan.hexNumber digits))) ('\\' :: x :: digits) s := by
    refine .code letter (ne_nil_of_hex hex) atMostFour (hexValue?_of_hex hex) longest ?_
    rw [hnumber]
    exact Char.toNat_not_surrogate c
  rwa [hnumber, Char.ofNat_toNat] at hcode

end Codes

/-- A backslash and blanks with a single line break among them are a continuation. -/
theorem Spelling.of_blanks {q : Char} {blanks s : List Char}
    (blank : ∀ c ∈ blanks, Character.isBlank c = true) (once : lineBreaks blanks = 1)
    (longest : Text.Stops Character.isBlank s) : Spelling q none ('\\' :: blanks) s := by
  obtain ⟨before, lineBreak, after, rfl, hbefore, hbreak, hafter⟩ := of_lineBreaks_eq_one once
  refine .continuation ?_ ?_ ?_ ?_
  · exact fun c hc => Scan.isIndent_of_isBlank (blank c (by simp [hc])) (hbefore c hc)
  · rcases hbreak with rfl | rfl | rfl
    · exact .lf
    · exact .crlf
    · refine .cr ?_
      intro hhead
      cases after with
      | nil =>
        have := longest '\n' hhead
        exact absurd this (by decide)
      | cons d after =>
        cases hhead
        have := hafter '\n' List.mem_cons_self
        exact absurd this (by decide)
  · exact fun c hc => Scan.isIndent_of_isBlank (blank c (by simp [hc])) (hafter c hc)
  · intro c hc
    simp [Scan.isIndent, longest c hc]

theorem Respelled.spells {q : Char} {cs body : List Char} (h : Respelled q cs body) :
    Spells q cs body := by
  induction h with
  | nil => exact .nil
  | verbatim noQuote noEscape _ ih => exact .cons (.verbatim noQuote noEscape) ih
  | letter escape _ ih => exact .cons (.letter escape) ih
  | code letter atMostFour hex longest _ ih =>
    exact .cons (.of_hex letter atMostFour hex longest) ih
  | continuation blank once longest _ ih => exact .cons (.of_blanks blank once longest) ih

theorem evaluate_literal {σ : Type} {s : String} {text : List Char} (h : Literal s text)
    (force : Bool) (file : Option String) (st : σ) :
    (evaluate .simple force ⟨text, file⟩ st).1 = .ok (.string s) :=
  evaluate_spelled (.literal h) file st

theorem Text.quoted_literal (s : String) : Literal s (quoted s).toList := by
  obtain ⟨text, hliteral, -, hquoted⟩ := quotedOnto_writes s
  rwa [quoted, String.toList_ofList, hquoted, List.append_nil]

/-- Whatever way a string is written between quotes, it is read back, and so is what stands
between the quotes of a raw literal. The way in which strings are printed is one of them. -/
theorem respelled_evaluates {σ : Type} (s : String) (force : Bool) (file : Option String)
    (st : σ) :
    (∀ q body, (q = '"' ∨ q = '\'') → Respelled q s.toList body →
      (evaluate .simple force ⟨q :: body ++ [q], file⟩ st).1 = .ok (.string s)) ∧
    (∀ q, (q = '"' ∨ q = '\'') → q ∉ s.toList →
      (evaluate .simple force ⟨'r' :: q :: s.toList ++ [q], file⟩ st).1 = .ok (.string s)) ∧
    (evaluate .simple force ⟨(Text.quoted s).toList, file⟩ st).1 = .ok (.string s) := by
  refine ⟨?_, ?_, ?_⟩
  · intro q body hq h
    have hliteral : Literal (.ofList s.toList) (q :: body ++ [q]) := .quoted hq h.spells
    rw [String.ofList_toList] at hliteral
    exact evaluate_literal hliteral force file st
  · intro q hq h
    have hliteral : Literal (.ofList s.toList) ('r' :: q :: s.toList ++ [q]) := .raw hq h
    rw [String.ofList_toList] at hliteral
    exact evaluate_literal hliteral force file st
  · exact evaluate_literal (Text.quoted_literal s) force file st

theorem respelled_evaluates_continued :
    Respelled '\'' "a&\n".toList "a\\a\\ \r\n \\xA".toList ∧
      (evaluate .simple false ⟨'\'' :: "a\\a\\ \r\n \\xA".toList ++ ['\''], none⟩ ()).1 =
        .ok (.string "a&\n") := by
  have hhex : ['A'].map Char.toLower = (Nat.toDigits 16 '\n'.toNat).leftpad ['A'].length '0' := by
    decide
  have hcode : Respelled '\'' ['\n'] ('\\' :: 'x' :: ['A'] ++ []) :=
    .code (.inl rfl) (by decide) hhex (fun _ _ h => by cases h) .nil
  have hblank : ∀ c ∈ [' ', '\r', '\n', ' '], Character.isBlank c = true :=
    List.all_eq_true.mp (by decide)
  have hcontinued := Respelled.continuation hblank (by decide) (fun c h => by cases h; decide) hcode
  have hspelled : Respelled '\'' "a&\n".toList "a\\a\\ \r\n \\xA".toList :=
    .verbatim (by decide) (by decide) (.letter (by decide) hcontinued)
  exact ⟨hspelled, (respelled_evaluates "a&\n" false none ()).1 '\'' _ (.inr rfl) hspelled⟩

end Cjson
