import Cjson.Proofs.Json
import Cjson.Proofs.RoundTrip

namespace Cjson

namespace Json

/-- A number without a plus sign, whose exponent fits into 64 bits before and after the
point is moved behind the last digit. -/
structure PlainNumber (n : Numeral) (s : List Char) : Prop where
  written : NumberText n s
  noPlus : '+' ∉ s
  fits : Number.fits64 n.exponent = true
  scaled : n.scale?.isSome = true

theorem Blank.gap {g : List Char} (h : Blank g) : ∃ b, Gap b g := by
  induction g with
  | nil => exact ⟨false, .nil⟩
  | cons c g ih =>
    obtain ⟨b, hg⟩ := ih fun d hd => h d (List.mem_cons_of_mem c hd)
    have hc : Character.isBlank c = true := by
      rcases h c List.mem_cons_self with rfl | rfl | rfl | rfl
      · decide
      · decide
      · decide
      · decide
    exact ⟨_, .blank hc hg⟩

theorem PlainChar.spelling {c : Char} {s : List Char} (h : PlainChar c s) (rest : List Char) :
    Spelling '"' (some c) s rest := by
  cases h with
  | verbatim _ noQuote noEscape => exact .verbatim noQuote noEscape
  | letter escape =>
    have hsub : escapes ⊆ Cjson.escapes := by decide
    exact .letter (hsub escape)
  | @code digits unit noSurrogate =>
    have hfour := unit.four
    refine .code (.inr rfl) ?_ (by omega) unit.hex (fun hlt => by omega) noSurrogate
    intro he
    rw [he] at hfour
    cases hfour

theorem Chars.spells {cs body : List Char} (h : Chars PlainChar cs body) :
    Spells '"' cs body := by
  induction h with
  | nil => exact .nil
  | cons first _ ih => exact .cons (first.spelling _) ih

theorem StringText.literal {str : String} {s : List Char} (h : StringText PlainChar str s) :
    Literal str s := by
  cases h with
  | intro chars => exact .quoted (.inl rfl) chars.spells

theorem Exponent.fitting {e : Int} {tail : List Char} (h : Exponent e tail)
    (hfits : Number.fits64 e = true) : Numeral.Exponent e tail := by
  cases h with
  | none => exact .none
  | some mark signed nonempty isDigit =>
    exact .some mark (Numeral.readInt?_append signed nonempty isDigit) hfits

theorem Exponent.chars {e : Int} {tail : List Char} (h : Exponent e tail) :
    ∀ c ∈ tail, c.isDigit = true ∨ c ∈ ['-', '+', 'e', 'E'] := by
  cases h with
  | none => simp
  | some mark signed _ isDigit =>
    intro c hc
    simp only [List.cons_append, List.mem_cons, List.mem_append] at hc
    rcases hc with rfl | hc | hc
    · rcases mark with rfl | rfl
      · exact .inr (by decide)
      · exact .inr (by decide)
    · cases signed with
      | none => cases hc
      | plus | minus => exact .inr (by simp_all)
    · exact .inl (isDigit c hc)

namespace NumberText

variable {n : Numeral} {s : List Char}

theorem spelled (h : NumberText n s) (hfits : Number.fits64 n.exponent = true) :
    n.Spelled s := by
  cases h with
  | intro signed _ nonempty digits _ digits' pointed raised =>
    refine .intro signed digits digits' (.inl nonempty) ?_ (raised.fitting hfits)
    rcases pointed with ⟨h, -⟩ | h
    · exact .inl h
    · exact .inr h

theorem first (h : NumberText n s) : ∃ c t, s = c :: t ∧ (c.isDigit = true ∨ c = '-') := by
  cases h with
  | @intro _ whole _ sign point tail _ signed noPlus nonempty digits _ _ _ _ =>
    cases signed with
    | plus => exact absurd rfl noPlus
    | minus => exact ⟨'-', _, rfl, .inr rfl⟩
    | none =>
      cases whole with
      | nil => exact absurd rfl nonempty
      | cons c whole => exact ⟨c, _, rfl, .inl (digits c List.mem_cons_self)⟩

/-- A power of ten. -/
theorem power {negative : Bool} {sign digits : List Char} (signed : Numeral.Signed negative sign)
    (nonempty : digits ≠ []) (isDigit : ∀ d ∈ digits, d.isDigit = true) :
    NumberText
      ⟨false, ['1'], [], Numeral.signed negative (Nat.ofDigitChars 10 digits 0)⟩
      ('1' :: 'e' :: (sign ++ digits)) :=
  .intro .none (by simp) (by simp) (by simp) (by simp) (by simp) (.inr ⟨rfl, rfl⟩)
    (.some (.inl rfl) signed nonempty isDigit)

theorem chars (h : NumberText n s) :
    ∀ c ∈ s, c.isDigit = true ∨ c ∈ ['-', '+', '.', 'e', 'E'] := by
  cases h with
  | intro signed _ _ digits _ digits' pointed raised =>
    intro c hc
    simp only [List.mem_append] at hc
    rcases hc with hc | (hc | hc) | hc
    · cases signed with
      | none => cases hc
      | plus | minus => exact .inr (by simp_all)
    · exact .inl (digits c hc)
    · rcases pointed with ⟨rfl, -⟩ | ⟨rfl, -⟩
      · rcases List.mem_cons.mp hc with rfl | hc
        · exact .inr (by decide)
        · exact .inl (digits' c hc)
      · cases hc
    · have := raised.chars c hc
      simp only [List.mem_cons, List.not_mem_nil, or_false] at this ⊢
      tauto

end NumberText

namespace PlainNumber

variable {n : Numeral} {s : List Char}

theorem word (h : PlainNumber n s) : Word s := by
  obtain ⟨c, t, hs, -⟩ := h.written.first
  refine ⟨by simp [hs], [], s, rfl, .inl rfl, ?_⟩
  intro d hd
  have hplus : d ≠ '+' := fun he => h.noPlus (he ▸ hd)
  rcases h.written.chars d hd with hdigit | hmark
  · exact Numeric.isWordChar_of_isPrinted (by simp [Number.isPrinted, hdigit])
  · simp only [List.mem_cons, List.not_mem_nil, or_false, hplus, false_or] at hmark
    rcases hmark with rfl | rfl | rfl | rfl
    · decide
    · decide
    · decide
    · decide

theorem exact (h : PlainNumber n s) : (Value.ofWord s).rational? = some n.toRat := by
  have hspelled := h.written.spelled h.fits
  obtain ⟨sc, hsc⟩ := Option.isSome_iff_exists.mp h.scaled
  obtain ⟨v, hv⟩ := Value.ofNumeral?_isSome hspelled hsc
  obtain ⟨c, t, rfl, hc⟩ := h.written.first
  rw [Value.ofWord_number hc hv]
  exact Value.ofNumeral?_exact hspelled hv

end PlainNumber

/-- Items in JSON are items here, if each of them is. -/
theorem Listed.listed {α β : Type} {P : α → List Char → Prop} {Q : β → List Char → Prop}
    {R : α → β → Prop} {as : List α} {s : List Char} (h : Listed P as s)
    (hP : ∀ a ∈ as, ∀ u, P a u → ∃ b, Q b u ∧ R a b) :
    ∃ bs, Cjson.Listed Q bs s ∧ List.Forall₂ R as bs := by
  induction h with
  | nil => exact ⟨[], .nil, .nil⟩
  | @last a s g item blank =>
    obtain ⟨b, hb, hr⟩ := hP a List.mem_cons_self s item
    obtain ⟨_, hg⟩ := blank.gap
    exact ⟨[b], .last hb hg, .cons hr .nil⟩
  | @comma a as s g g' r item blank blank' _ _ ih =>
    obtain ⟨b, hb, hr⟩ := hP a List.mem_cons_self s item
    obtain ⟨_, hg⟩ := blank.gap
    obtain ⟨_, hg'⟩ := blank'.gap
    obtain ⟨bs, hbs, hrs⟩ := ih fun a' ha' => hP a' (List.mem_cons_of_mem a ha')
    exact ⟨b :: bs, .comma hb hg hg' hbs, .cons hr hrs⟩

/-- What a map holds once some members have been put into it. -/
structure Held (members : List (String × Json)) (m : Entries Value) : Prop where
  order : Entries.keys m = (members.map Prod.fst).eraseDups
  last : ∀ key j v, members.reverse.lookup key = some j → m.lookup key = some v → j.Denotes v

theorem eraseDups_concat (keys : List String) (key : String) :
    (keys ++ [key]).eraseDups =
      if key ∈ keys.eraseDups then keys.eraseDups else keys.eraseDups ++ [key] := by
  rw [List.eraseDups_append]
  by_cases h : key ∈ keys
  · simp [List.removeAll, h]
  · simp [List.removeAll, h, List.eraseDups_cons]

theorem Held.put {members : List (String × Json)} {m : Entries Value} {key : String} {j : Json}
    {v : Value} (h : Held members m) (hv : j.Denotes v) :
    Held (members ++ [(key, j)]) (Entries.put key v m) := by
  constructor
  · rw [Entries.keys_put, h.order, List.map_append, List.map_singleton, eraseDups_concat]
  · intro key' j' v' hj hlookup
    rw [List.reverse_append, List.reverse_singleton, List.singleton_append,
      List.lookup_cons] at hj
    by_cases hk : key' = key
    · subst hk
      rw [Entries.lookup_put_self] at hlookup
      simp only [beq_self_eq_true, Option.some.injEq] at hj hlookup
      rw [← hj, ← hlookup]
      exact hv
    · rw [Entries.lookup_put_of_ne hk] at hlookup
      rw [beq_false_of_ne hk] at hj
      exact h.last key' j' v' hj hlookup

/-- What a member is as an entry. -/
def Pairs (member : String × Json) (e : Entry) : Prop :=
  ∃ t : Tree, e = .pair member.1 t ∧ member.2.Denotes (t.value false)

theorem Held.allInto {done members : List (String × Json)} {es : List Entry}
    {m : Entries Value} (h : Held done m) (hes : List.Forall₂ Pairs members es) :
    Held (done ++ members) (Entry.allInto false es m) := by
  induction hes generalizing done m with
  | nil =>
    rw [Entry.allInto, List.append_nil]
    exact h
  | @cons member _ members _ hpair _ ih =>
    obtain ⟨t, rfl, hj⟩ := hpair
    rw [Entry.allInto, Entry.into, List.append_cons]
    exact ih (h.put hj)

/-- Induction on the depth of data. -/
theorem nested_induction {P : Json → Prop} (null : P null) (boolean : ∀ b, P (boolean b))
    (number : ∀ q, P (number q)) (string : ∀ s, P (string s))
    (array : ∀ items, (∀ j ∈ items, P j) → P (array items))
    (object : ∀ members : List (String × Json), (∀ e ∈ members, P e.2) → P (object members))
    (j : Json) : P j :=
  @Json.rec P (fun items => ∀ j ∈ items, P j) (fun members => ∀ e ∈ members, P e.2)
    (fun e => P e.2) null boolean number string array object (by simp)
    (fun _ _ hj hitems => List.forall_mem_cons.mpr ⟨hj, hitems⟩) (by simp)
    (fun _ _ he hmembers => List.forall_mem_cons.mpr ⟨he, hmembers⟩) (fun _ _ hj => hj) j

/-- Data in JSON are the text of an expression with that meaning. -/
theorem Spelled.tree (j : Json) : ∀ {s : List Char}, Spelled PlainNumber PlainChar j s →
    ∃ t : Tree, t.Spelled Word s ∧ j.Denotes (t.value false) := by
  have keyword : ∀ w ∈ ["null".toList, "true".toList, "false".toList], Word w := by
    have hchars : ∀ w ∈ ["null".toList, "true".toList, "false".toList],
        w ≠ [] ∧ w.all Character.isWordChar = true := by decide
    exact fun w hw =>
      ⟨(hchars w hw).1, [], w, rfl, .inl rfl, List.all_eq_true.mp (hchars w hw).2⟩
  induction j using nested_induction with
  | null =>
    intro s h
    cases h with
    | null => exact ⟨.word "null".toList, .word (keyword _ (by simp)), .null⟩
  | boolean b =>
    intro s h
    cases h with
    | boolean =>
      cases b with
      | true => exact ⟨.word "true".toList, .word (keyword _ (by simp)), .boolean true⟩
      | false => exact ⟨.word "false".toList, .word (keyword _ (by simp)), .boolean false⟩
  | number q =>
    intro s h
    cases h with
    | number written => exact ⟨.word s, .word written.word, .number written.exact⟩
  | string str =>
    intro s h
    cases h with
    | string written => exact ⟨.literal str, .literal written.literal, .string str⟩
  | array items ih =>
    intro s h
    cases h with
    | array blank listed =>
      obtain ⟨b, hg⟩ := blank.gap
      obtain ⟨ts, hts, hvalues⟩ := listed.listed fun j hj u hu => ih j hj hu
      refine ⟨.list ts, .list hg hts, ?_⟩
      rw [Tree.value, Tree.values_eq_map]
      exact .array (List.forall₂_map_right_iff.mpr hvalues)
  | object members ih =>
    intro s h
    cases h with
    | object blank listed =>
      obtain ⟨b, hg⟩ := blank.gap
      have hmember : ∀ e ∈ members, ∀ u, MemberSpelled PlainNumber PlainChar e u →
          ∃ f : Entry, f.Spelled Word u ∧ Pairs e f := by
        intro e he u hu
        cases hu with
        | @intro key _ _ _ _ j written blank blank' value =>
          obtain ⟨t, ht, hj⟩ := ih _ he value
          obtain ⟨_, hg⟩ := blank.gap
          obtain ⟨_, hg'⟩ := blank'.gap
          exact ⟨.pair key t, .pair (.literal written.literal) hg hg' ht, t, rfl, hj⟩
      obtain ⟨es, hes, hpairs⟩ := listed.listed hmember
      refine ⟨.map es, .map hg hes, ?_⟩
      have hheld : Held [] [] := ⟨rfl, by simp⟩
      have hall := hheld.allInto hpairs
      rw [Tree.value]
      exact .object hall.order hall.last

/-- Every text of RFC 8259 in which no surrogates and only plain numbers are written can be
evaluated, and the result is what the text denotes. -/
theorem plain_evaluates {σ : Type} {j : Json} {text : List Char}
    (h : Text PlainNumber PlainChar j text) (file : Option String) (st : σ) :
    ∃ v, (evaluate .simple false ⟨text, file⟩ st).1 = .ok v ∧ j.Denotes v := by
  obtain ⟨g, s, g', blank, hs, blank', rfl⟩ := h
  obtain ⟨b, hg⟩ := blank.gap
  obtain ⟨b', hg'⟩ := blank'.gap
  obtain ⟨t, ht, hj⟩ := Spelled.tree j hs
  exact ⟨t.value false,
    evaluate_simple_iff.mpr ⟨t, ⟨b, g, s, b', g', hg, ht, hg'.before .nil, rfl⟩, rfl⟩, hj⟩

theorem plain_evaluates_object :
    Text PlainNumber PlainChar (.object [("a", .number (Numeral.toRat ⟨false, ['1'], [], 2⟩)),
        ("a", .null)]) "\x7b\"a\": 1e2, \"a\": null\x7d".toList ∧
      ∃ v, (evaluate .simple false ⟨"\x7b\"a\": 1e2, \"a\": null\x7d".toList, none⟩ ()).1 =
          .ok v ∧
        (Json.object [("a", .number (Numeral.toRat ⟨false, ['1'], [], 2⟩)),
          ("a", .null)]).Denotes v := by
  have hspace : Blank [' '] := fun c hc => .inl (List.mem_singleton.mp hc)
  have hnil : Blank [] := fun c hc => by cases hc
  have hkey : StringText PlainChar "a" ['"', 'a', '"'] :=
    .intro (.cons (C := PlainChar) (.verbatim (by decide) (by decide) (by decide)) .nil)
  have hnumber : PlainNumber ⟨false, ['1'], [], 2⟩ "1e2".toList := by
    refine ⟨?_, by decide, rfl, rfl⟩
    exact .power .none (List.cons_ne_nil '2' []) (List.all_eq_true.mp (by decide))
  have htext : Text PlainNumber PlainChar
      (.object [("a", .number (Numeral.toRat ⟨false, ['1'], [], 2⟩)), ("a", .null)])
      "\x7b\"a\": 1e2, \"a\": null\x7d".toList := by
    have hmember := MemberSpelled.intro hkey hnil hspace (.number hnumber)
    have hmember' := MemberSpelled.intro (N := PlainNumber) hkey hnil hspace .null
    exact ⟨[], _, [], hnil,
      .object hnil (.comma hmember hnil hspace (.last hmember' hnil) (by simp)), hnil, rfl⟩
  exact ⟨htext, plain_evaluates htext none ()⟩

/-- A text of RFC 8259 that is not evaluated to what it denotes. -/
def Misread (text : String) : Prop :=
  ∃ j : Json, WellFormed j text.toList ∧
    ¬∃ v, (evaluate .simple false ⟨text.toList, none⟩ ()).1 = .ok v ∧ j.Denotes v

/-- A power of ten that is evaluated to no number. -/
theorem Misread.of_power (text : String) (digits : List Char) {negative : Bool}
    {sign : List Char} (signed : Numeral.Signed negative sign)
    (htext : text.toList = '1' :: 'e' :: (sign ++ digits)) (nonempty : digits ≠ [])
    (isDigit : ∀ d ∈ digits, d.isDigit = true)
    (hv : ((evaluate .simple false ⟨text.toList, none⟩ ()).1.toOption.bind
      Value.rational?).isNone = true) : Misread text := by
  have hnil : Blank [] := fun c hc => by cases hc
  have hnumber := NumberText.power signed nonempty isDigit
  rw [← htext] at hnumber
  refine ⟨_, ⟨[], _, [], hnil, .number hnumber, hnil, by simp⟩, ?_⟩
  intro hread
  obtain ⟨v, hok, hdenotes⟩ := hread
  cases hdenotes with
  | number exact =>
    rw [hok] at hv
    simp [Except.toOption, exact] at hv

/-- Pairs of surrogates are rejected, numbers with exponents or counts of fraction digits
beyond 64 bits are left in strings, and no plus sign within a word belongs to it. -/
theorem plain_necessary :
    Misread "\"\\ud83d\\ude00\"" ∧ Misread "1e9223372036854775808" ∧
      Misread "1e-9223372036854775808" ∧ Misread "1e+5" := by
  refine ⟨?_, ?_, ?_, ?_⟩
  · have hnil : Blank [] := fun c hc => by cases hc
    have hhigh : CodeUnit ['d', '8', '3', 'd'] := ⟨rfl, List.all_eq_true.mp (by decide)⟩
    have hlow : CodeUnit ['d', 'e', '0', '0'] := ⟨rfl, List.all_eq_true.mp (by decide)⟩
    have hchar := CharText.pair hhigh hlow (by decide) (by decide)
    refine ⟨_, ⟨[], _, [], hnil, .string (.intro (.cons hchar .nil)), hnil, by simp⟩, ?_⟩
    intro hread
    obtain ⟨v, hok, -⟩ := hread
    have hfails : (evaluate .simple false
        ⟨"\"\\ud83d\\ude00\"".toList, none⟩ ()).1.isOk = false := by decide +kernel
    rw [hok] at hfails
    cases hfails
  · exact .of_power _ "9223372036854775808".toList .none rfl (by decide)
      (List.all_eq_true.mp (by decide)) (by decide +kernel)
  · exact .of_power _ "9223372036854775808".toList .minus rfl (by decide)
      (List.all_eq_true.mp (by decide)) (by decide +kernel)
  · exact .of_power _ ['5'] .plus rfl (by decide) (List.all_eq_true.mp (by decide))
      (by decide +kernel)

end Json
end Cjson
