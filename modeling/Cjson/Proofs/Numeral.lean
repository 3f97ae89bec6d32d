import Mathlib.Algebra.Field.Rat
import Mathlib.Tactic.Ring
import Mathlib.Tactic.NormNum
import Cjson.Value.Word

namespace Cjson

/-- The exact value. -/
def BigDecimal.toRat (d : BigDecimal) : ℚ :=
  d.mantissa * (10 : ℚ) ^ (-d.scale)

namespace Numeral

/-- The exact value. -/
def toRat (n : Numeral) : ℚ :=
  signed n.negative n.magnitude * (10 : ℚ) ^ (n.exponent - n.fraction.length)

/-- The signs that a number may have in front. -/
inductive Signed : (negative : Bool) → List Char → Prop
  | none : Signed false []
  | plus : Signed false ['+']
  | minus : Signed true ['-']

/-- How an exponent is written. -/
inductive Exponent : Int → List Char → Prop
  | none : Exponent 0 []
  | some {e : Int} {c : Char} {s : List Char} (mark : c = 'e' ∨ c = 'E')
      (read : readInt? s = some e) (fits : Number.fits64 e = true) : Exponent e (c :: s)

/-- How a number is written: its digits may have a point among them, and then perhaps none
on one side of it. -/
inductive Spelled : Numeral → List Char → Prop
  | intro {negative : Bool} {whole fraction sign point tail : List Char} {exponent : Int}
      (signed : Signed negative sign) (digits : ∀ c ∈ whole, c.isDigit = true)
      (digits' : ∀ c ∈ fraction, c.isDigit = true) (nonempty : whole ≠ [] ∨ fraction ≠ [])
      (pointed : point = '.' :: fraction ∨ (point = [] ∧ fraction = []))
      (raised : Exponent exponent tail) :
      Spelled ⟨negative, whole, fraction, exponent⟩ (sign ++ (whole ++ point ++ tail))

theorem splitFirst_none {p : Char → Bool} {s : List Char} (h : ∀ c ∈ s, p c = false) :
    splitFirst p s = (s, none) := by
  have hp : ∀ c ∈ s, (!p c) = true := by simpa using h
  have hdrop : s.dropWhile (!p ·) = [] := by
    rw [← List.append_nil s, List.dropWhile_append_of_pos hp, List.dropWhile_nil]
  have htake : s.takeWhile (!p ·) = s := by
    have : (s ++ []).takeWhile (!p ·) = s ++ [].takeWhile (!p ·) :=
      List.takeWhile_append_of_pos hp
    simpa using this
  rw [splitFirst, htake, hdrop]
  rfl

theorem splitFirst_append {p : Char → Bool} {s t : List Char} {c : Char}
    (h : ∀ c ∈ s, p c = false) (hc : p c = true) :
    splitFirst p (s ++ c :: t) = (s, some t) := by
  have hp : ∀ c ∈ s, (!p c) = true := by simpa using h
  rw [splitFirst, List.takeWhile_append_of_pos hp, List.dropWhile_append_of_pos hp,
    List.takeWhile_cons_of_neg (by simp [hc]), List.dropWhile_cons_of_neg (by simp [hc])]
  simp

theorem sign_append {negative : Bool} {t s : List Char} (ht : Signed negative t)
    (hs : s.head? ≠ some '-' ∧ s.head? ≠ some '+') : sign (t ++ s) = (negative, s) := by
  cases ht with
  | plus | minus => rfl
  | none =>
    rw [List.nil_append]
    unfold sign
    split
    · simp at hs
    · simp at hs
    · rfl

theorem of_sign {negative : Bool} {t s : List Char} (h : sign s = (negative, t)) :
    ∃ u, Signed negative u ∧ s = u ++ t := by
  unfold sign at h
  split at h
  · cases h
    exact ⟨['-'], .minus, rfl⟩
  · cases h
    exact ⟨['+'], .plus, rfl⟩
  · cases h
    exact ⟨[], .none, rfl⟩

/-- No digit is any of the other characters of a number. -/
theorem isDigit_ne {c : Char} (h : c.isDigit = true) :
    c ≠ '-' ∧ c ≠ '+' ∧ c ≠ '.' ∧ c ≠ 'e' ∧ c ≠ 'E' := by
  refine ⟨?_, ?_, ?_, ?_, ?_⟩
  all_goals
    intro he
    rw [he] at h
    exact absurd h (by decide)

theorem head?_ne_sign {s t : List Char} (hne : s ≠ []) (hs : ∀ c ∈ s, c.isDigit = true) :
    (s ++ t).head? ≠ some '-' ∧ (s ++ t).head? ≠ some '+' := by
  cases s with
  | nil => exact absurd rfl hne
  | cons c s =>
    have hc := isDigit_ne (hs c List.mem_cons_self)
    simp [hc.1, hc.2.1]

/-- No sign is behind the sign. -/
theorem pointed_head?_ne_sign {whole fraction point : List Char}
    (hwhole : ∀ c ∈ whole, c.isDigit = true) (hne : whole ≠ [] ∨ fraction ≠ [])
    (hpoint : point = '.' :: fraction ∨ (point = [] ∧ fraction = [])) (tail : List Char) :
    (whole ++ point ++ tail).head? ≠ some '-' ∧ (whole ++ point ++ tail).head? ≠ some '+' := by
  by_cases hw : whole = []
  · subst hw
    rcases hpoint with rfl | ⟨rfl, rfl⟩
    · simp
    · simp at hne
  · rw [List.append_assoc]
    exact head?_ne_sign hw hwhole

theorem readInt?_append {negative : Bool} {t ds : List Char} (ht : Signed negative t)
    (hne : ds ≠ []) (hds : ∀ c ∈ ds, c.isDigit = true) :
    readInt? (t ++ ds) = some (signed negative (Nat.ofDigitChars 10 ds 0)) := by
  have hhead := head?_ne_sign (t := []) hne hds
  rw [List.append_nil] at hhead
  unfold readInt?
  rw [sign_append ht hhead]
  simp only [Bool.or_eq_true, List.isEmpty_iff, hne, false_or, Bool.not_eq_true']
  rw [if_neg]
  simpa using hds

theorem of_readInt? {s : List Char} {k : Int} (h : readInt? s = some k) :
    ∃ negative t ds, Signed negative t ∧ s = t ++ ds ∧ ds ≠ [] ∧
      (∀ c ∈ ds, c.isDigit = true) ∧ k = signed negative (Nat.ofDigitChars 10 ds 0) := by
  unfold readInt? at h
  rcases hsign : sign s with ⟨negative, ds⟩
  rw [hsign] at h
  obtain ⟨t, ht, rfl⟩ := of_sign hsign
  dsimp only at h
  split at h
  · cases h
  · rename_i hds
    simp only [Bool.or_eq_true, List.isEmpty_iff, Bool.not_eq_true', not_or] at hds
    obtain ⟨hne, hds⟩ := hds
    cases h
    refine ⟨negative, t, ds, ht, rfl, hne, ?_, rfl⟩
    simpa using hds

theorem readExponent?_of_exponent {e : Int} {tail : List Char} (h : Exponent e tail) :
    (tail = [] ∧ readExponent? none = some e) ∨
      ∃ c s, tail = c :: s ∧ (c == 'e' || c == 'E') = true ∧ readExponent? (some s) = some e := by
  cases h with
  | none => exact .inl ⟨rfl, rfl⟩
  | @some e c s mark read fits =>
    refine .inr ⟨c, s, rfl, ?_, ?_⟩
    · rcases mark with rfl | rfl
      · rfl
      · rfl
    · rw [readExponent?, read]
      simp [Option.filter, fits]

theorem read?_of_spelled {n : Numeral} {s : List Char} (h : n.Spelled s) :
    read? s = some n := by
  cases h with
  | @intro negative whole fraction t point tail exponent ht hwhole hfraction hne hpoint htail =>
    have hmark : ∀ c ∈ whole ++ point, (c == 'e' || c == 'E') = false := by
      intro c hc
      have hdigit : c.isDigit = true ∨ c = '.' := by
        rcases List.mem_append.mp hc with hc | hc
        · exact .inl (hwhole c hc)
        · rcases hpoint with rfl | ⟨rfl, rfl⟩
          · rcases List.mem_cons.mp hc with rfl | hc
            · exact .inr rfl
            · exact .inl (hfraction c hc)
          · cases hc
      rcases hdigit with hdigit | rfl
      · have := isDigit_ne hdigit
        simp [this]
      · rfl
    have hhead := pointed_head?_ne_sign hwhole hne hpoint tail
    have hsplit : ∃ exponent?,
        splitFirst (fun c => c == 'e' || c == 'E') (whole ++ point ++ tail) =
          (whole ++ point, exponent?) ∧ readExponent? exponent? = some exponent := by
      rcases readExponent?_of_exponent htail with ⟨rfl, he⟩ | ⟨c, s, rfl, hc, he⟩
      · rw [List.append_nil]
        exact ⟨none, splitFirst_none hmark, he⟩
      · exact ⟨some s, splitFirst_append hmark hc, he⟩
    have hpointed : ∃ fraction?, splitFirst (· == '.') (whole ++ point) = (whole, fraction?) ∧
        fraction?.getD [] = fraction := by
      have hw : ∀ c ∈ whole, (c == '.') = false := by
        intro c hc
        have := isDigit_ne (hwhole c hc)
        simp [this]
      rcases hpoint with rfl | ⟨rfl, rfl⟩
      · exact ⟨some fraction, splitFirst_append hw rfl, rfl⟩
      · rw [List.append_nil]
        exact ⟨none, splitFirst_none hw, rfl⟩
    obtain ⟨exponent?, hsplit, he⟩ := hsplit
    obtain ⟨fraction?, hpointed, rfl⟩ := hpointed
    unfold read?
    rw [sign_append ht hhead]
    simp only [hsplit, hpointed, he]
    have hguard : (!(whole.isEmpty && (fraction?.getD []).isEmpty) && whole.all Char.isDigit &&
        (fraction?.getD []).all Char.isDigit) = true := by
      simp only [Bool.and_eq_true, Bool.not_eq_true', Bool.and_eq_false_iff]
      refine ⟨⟨?_, List.all_eq_true.mpr hwhole⟩, List.all_eq_true.mpr hfraction⟩
      simpa using hne
    change (guard _ >>= fun _ => some _) = _
    rw [guard, if_pos hguard]
    rfl

theorem signed_mul (negative : Bool) (m n : Nat) :
    signed negative (m * n) = signed negative m * n := by
  cases negative with
  | false => simp [signed]
  | true => simp [signed]

@[simp] theorem signed_zero (negative : Bool) : signed negative 0 = 0 := by
  cases negative with
  | false => rfl
  | true => rfl

theorem of_ofParts? {m : Int} {sc : Nat} {d : Decimal} (h : Decimal.ofParts? m sc = some d) :
    d.mantissa = m ∧ d.scale = sc := by
  unfold Decimal.ofParts? at h
  split at h
  · cases h
    exact ⟨rfl, rfl⟩
  · cases h

theorem dropZeros_count_le (limit n : Nat) : (Number.dropZeros limit n).2 ≤ limit := by
  induction limit generalizing n with
  | zero => simp [Number.dropZeros]
  | succ limit ih =>
    unfold Number.dropZeros
    split
    · have := ih (n / 10)
      simp only
      omega
    · simp

@[simp] theorem cast_tenTo (zeros : Nat) : (Number.tenTo zeros : ℚ) = 10 ^ zeros := by
  change ((10 ^ zeros : ℕ) : ℚ) = 10 ^ zeros
  push_cast
  rfl

theorem ten_ne_zero : (10 : ℚ) ≠ 0 := by
  norm_num

/-- Taking zeros off does not change the value. -/
theorem decimalOf?_exact {negative : Bool} {magnitude sc : Nat} {d : Decimal}
    (h : decimalOf? negative magnitude sc = some d) :
    d.toBigDecimal.toRat = signed negative magnitude * (10 : ℚ) ^ (-(sc : ℤ)) := by
  unfold decimalOf? at h
  split at h
  · rename_i hzero
    obtain ⟨hm, -⟩ := of_ofParts? h
    simp [BigDecimal.toRat, Decimal.toBigDecimal, hm, hzero]
  · obtain ⟨hm, hs⟩ := of_ofParts? h
    have hdrop := Number.dropZeros_eq (sc - 28) magnitude
    have hle := dropZeros_count_le (sc - 28) magnitude
    generalize Number.dropZeros (sc - 28) magnitude = r at hm hs hdrop hle
    obtain ⟨rest, count⟩ := r
    dsimp only at hm hs hdrop hle
    have hcount : (-(d.scale : ℤ)) = count + -(sc : ℤ) := by omega
    rw [BigDecimal.toRat, Decimal.toBigDecimal, hm, hcount, zpow_add₀ ten_ne_zero,
      zpow_natCast, ← hdrop, signed_mul]
    push_cast
    rw [cast_tenTo]
    ring

theorem fits_of_readExponent? {tail : Option (List Char)} {e : Int}
    (h : readExponent? tail = some e) : Number.fits64 e = true := by
  cases tail with
  | none =>
    cases h
    rfl
  | some s =>
    rw [readExponent?, Option.filter_eq_some_iff] at h
    exact h.2

/-- Only exponents that fit into 64 bits are read. -/
theorem fits_of_read? {s : List Char} {n : Numeral} (h : read? s = some n) :
    Number.fits64 n.exponent = true := by
  unfold read? at h
  simp only [Option.bind_eq_bind, Option.bind_eq_some_iff] at h
  obtain ⟨e, he, -, -, hn⟩ := h
  cases hn
  exact fits_of_readExponent? he

theorem of_scale? {n : Numeral} {sc : Int} (h : n.scale? = some sc) :
    sc = n.fraction.length - n.exponent := by
  unfold scale? at h
  dsimp only at h
  split at h
  · cases h
    rfl
  · cases h

theorem toRat_eq {n : Numeral} {sc : Int} (h : n.scale? = some sc) :
    n.toRat = signed n.negative n.magnitude * (10 : ℚ) ^ (-sc) := by
  rw [toRat, of_scale? h, neg_sub]

theorem decimal?_exact {n : Numeral} {d : Decimal} (h : n.decimal? = some d) :
    d.toBigDecimal.toRat = n.toRat := by
  unfold decimal? at h
  simp only [Option.bind_eq_bind, Option.bind_eq_some_iff] at h
  obtain ⟨sc, hsc, -, -, -, -, h⟩ := h
  have hsplit : (10 : ℚ) ^ (-sc) = 10 ^ (-sc).toNat * 10 ^ (-(sc.toNat : ℤ)) := by
    rw [← zpow_natCast, ← zpow_add₀ ten_ne_zero]
    congr 1
    omega
  rw [decimalOf?_exact h, toRat_eq hsc, hsplit, signed_mul]
  push_cast
  rw [cast_tenTo]
  ring

theorem bigDecimal?_exact {n : Numeral} {d : BigDecimal} (h : n.bigDecimal? = some d) :
    d.toRat = n.toRat := by
  unfold bigDecimal? at h
  obtain ⟨sc, hsc, rfl⟩ := Option.map_eq_some_iff.mp h
  rw [toRat_eq hsc, BigDecimal.toRat]

end Numeral

namespace Value

/-- The exact value of a number. -/
def rational? : Value → Option ℚ
  | int n => some n.toInt
  | long n => some n.toInt
  | decimal d => some d.toBigDecimal.toRat
  | bigDecimal d => some d.toRat
  | _ => none

open Numeral

/-- The variants that a number may end up in. -/
theorem of_ofNumeral? {s : List Char} {v : Value} (h : ofNumeral? s = some v) :
    (∃ k, readInt32? s = some k ∧ v = int k) ∨
      (readInt32? s = none ∧ ∃ n, read? s = some n ∧
        ((∃ d, n.decimal? = some d ∧ v = decimal d) ∨
          (n.decimal? = none ∧ ∃ d, n.bigDecimal? = some d ∧ v = bigDecimal d))) := by
  unfold ofNumeral? at h
  cases hint : readInt32? s with
  | some k =>
    rw [hint] at h
    cases h
    exact .inl ⟨k, rfl, rfl⟩
  | none =>
    rw [hint] at h
    obtain ⟨n, hn, h⟩ := Option.bind_eq_some_iff.mp h
    refine .inr ⟨rfl, n, hn, ?_⟩
    cases hd : n.decimal? with
    | some d =>
      rw [hd] at h
      cases h
      exact .inl ⟨d, rfl, rfl⟩
    | none =>
      rw [hd] at h
      cases hb : n.bigDecimal? with
      | none =>
        rw [hb] at h
        cases h
      | some d =>
        rw [hb] at h
        cases h
        exact .inr ⟨rfl, d, rfl, rfl⟩

/-- The kinds of values that words may stand for. -/
theorem ofWord_cases {P : Value → Prop} (w : List Char) (hboolean : ∀ b, P (boolean b))
    (hnull : P null) (hnumber : ∀ s v, ofNumeral? s = some v → P v)
    (hstring : P (string (.ofList w))) : P (ofWord w) := by
  unfold ofWord
  split
  · exact hboolean true
  · split
    · exact hboolean false
    · split
      · exact hnull
      · cases h : number? w with
        | none => exact hstring
        | some v =>
          unfold number? at h
          split at h
          · exact hnumber _ v h
          · split at h
            · exact hnumber _ v h
            · cases h
          · cases h

/-- The values without other values in them that a text may have. -/
inductive Scalar : Value → Prop
  | null : Scalar null
  | boolean (b : Bool) : Scalar (boolean b)
  | int (n : Int32) : Scalar (int n)
  | decimal (d : Decimal) : Scalar (decimal d)
  | bigDecimal (d : BigDecimal) : Scalar (bigDecimal d)
  | string (s : String) : Scalar (string s)

theorem scalar_ofWord (w : List Char) : (ofWord w).Scalar := by
  refine ofWord_cases w .boolean .null ?_ (.string _)
  intro s v h
  obtain ⟨k, -, rfl⟩ | ⟨-, n, -, ⟨d, -, rfl⟩ | ⟨-, d, -, rfl⟩⟩ := of_ofNumeral? h
  · exact .int k
  · exact .decimal d
  · exact .bigDecimal d

theorem ofNumeral?_int {s : List Char} {k : Int32} (h : readInt32? s = some k) :
    ofNumeral? s = some (int k) := by
  rw [ofNumeral?, h]

theorem ofNumeral?_decimal {s : List Char} {n : Numeral} {d : Decimal}
    (hint : readInt32? s = none) (hn : read? s = some n) (hd : n.decimal? = some d) :
    ofNumeral? s = some (decimal d) := by
  rw [ofNumeral?, hint, hn]
  change ((Value.decimal <$> n.decimal?) <|> (Value.bigDecimal <$> n.bigDecimal?)) = _
  rw [hd]
  rfl

theorem ofNumeral?_bigDecimal {s : List Char} {n : Numeral} {d : BigDecimal}
    (hint : readInt32? s = none) (hn : read? s = some n) (hd : n.decimal? = none)
    (hb : n.bigDecimal? = some d) : ofNumeral? s = some (bigDecimal d) := by
  rw [ofNumeral?, hint, hn]
  change ((Value.decimal <$> n.decimal?) <|> (Value.bigDecimal <$> n.bigDecimal?)) = _
  rw [hd, hb]
  rfl

theorem toInt_of_readInt32? {s : List Char} {k : Int32} (h : readInt32? s = some k) :
    readInt? s = some k.toInt := by
  obtain ⟨m, hm, h⟩ := Option.bind_eq_some_iff.mp h
  split at h
  · rename_i hfits
    cases h
    simp only [Number.fits32, Bool.and_eq_true, decide_eq_true_eq] at hfits
    rw [hm, Int32.toInt_ofInt_of_le (by omega) (by omega)]
  · cases h

/-- A number keeps its value, whatever variant it ends up in. -/
theorem ofNumeral?_exact {s : List Char} {n : Numeral} {v : Value} (hs : n.Spelled s)
    (h : ofNumeral? s = some v) : v.rational? = some n.toRat := by
  have hn := read?_of_spelled hs
  rcases of_ofNumeral? h with ⟨k, hk, rfl⟩ | ⟨-, n', hn', ⟨d, hd, rfl⟩ | ⟨-, d, hd, rfl⟩⟩
  · obtain ⟨negative, t, ds, ht, rfl, hne, hds, he⟩ := of_readInt? (toInt_of_readInt32? hk)
    have hspelled : Spelled ⟨negative, ds, [], 0⟩ (t ++ (ds ++ [] ++ [])) :=
      .intro ht hds (by simp) (.inl hne) (.inr ⟨rfl, rfl⟩) .none
    rw [List.append_nil, List.append_nil] at hspelled
    rw [read?_of_spelled hspelled] at hn
    cases hn
    simp [rational?, he, toRat, magnitude]
  · rw [hn] at hn'
    cases hn'
    rw [rational?, decimal?_exact hd]
  · rw [hn] at hn'
    cases hn'
    rw [rational?, bigDecimal?_exact hd]

/-- Whatever is written as a number is one, if there is room for its scale. -/
theorem ofNumeral?_isSome {s : List Char} {n : Numeral} {sc : Int} (hs : n.Spelled s)
    (hsc : n.scale? = some sc) : ∃ v, ofNumeral? s = some v := by
  have hn := read?_of_spelled hs
  cases hint : readInt32? s with
  | some k => exact ⟨_, ofNumeral?_int hint⟩
  | none =>
    cases hd : n.decimal? with
    | some d => exact ⟨_, ofNumeral?_decimal hint hn hd⟩
    | none =>
      have hb : n.bigDecimal? = some ⟨signed n.negative n.magnitude, sc⟩ := by
        rw [bigDecimal?, hsc]
        rfl
      exact ⟨_, ofNumeral?_bigDecimal hint hn hd hb⟩

end Value
end Cjson
