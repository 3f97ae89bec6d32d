import Cjson.Proofs.Numeral
import Cjson.Proofs.Word
import Cjson.Value.Text

namespace Cjson

open Numeral

theorem Numeral.signed_natAbs (m : Int) : signed (decide (m < 0)) m.natAbs = m := by
  unfold signed
  split
  · rename_i h
    simp only [decide_eq_true_eq] at h
    omega
  · rename_i h
    simp only [decide_eq_true_eq] at h
    omega

theorem Number.isDigit_toDigits (n : Nat) : ∀ c ∈ Nat.toDigits 10 n, c.isDigit = true :=
  fun _ hc => Nat.isDigit_of_mem_toDigits (by decide) (by decide) hc

theorem Number.write_eq (m : Int) :
    ∃ sign, Signed (decide (m < 0)) sign ∧ Number.write m = sign ++ Nat.toDigits 10 m.natAbs := by
  unfold Number.write
  by_cases h : m < 0
  · rw [if_pos h]
    exact ⟨['-'], by simp [h, Signed.minus], rfl⟩
  · rw [if_neg h]
    exact ⟨[], by simp [h, Signed.none], rfl⟩

theorem readInt?_write (m : Int) : readInt? (Number.write m) = some m := by
  obtain ⟨sign, hsign, hwrite⟩ := Number.write_eq m
  rw [hwrite, readInt?_append hsign Nat.toDigits_ne_nil (Number.isDigit_toDigits _),
    Nat.ofDigitChars_ten_toDigits, signed_natAbs]

/-- Nothing but digits and signs is an integer. -/
theorem readInt?_eq_none {s : List Char} {c : Char} (hc : c ∈ s) (hdigit : c.isDigit = false)
    (hsign : c ≠ '-' ∧ c ≠ '+') : readInt? s = none := by
  cases h : readInt? s with
  | none => rfl
  | some k =>
    obtain ⟨negative, t, ds, ht, rfl, -, hds, -⟩ := of_readInt? h
    rcases List.mem_append.mp hc with hc | hc
    · cases ht with
      | none => cases hc
      | plus => simp [hsign.2] at hc
      | minus => simp [hsign.1] at hc
    · rw [hds c hc] at hdigit
      cases hdigit

namespace BigDecimal

/-- The parts of the number as it is printed. -/
def numeral (d : BigDecimal) : Numeral :=
  ⟨decide (d.mantissa < 0), Nat.toDigits 10 d.mantissa.natAbs, [], -d.scale⟩

/-- The exponent can be read back: it fits into 64 bits as the scale does. -/
structure Readable (d : BigDecimal) : Prop where
  low : -0x8000000000000000 < d.scale
  high : d.scale < 0x8000000000000000

variable {d : BigDecimal}

theorem magnitude_numeral (d : BigDecimal) : d.numeral.magnitude = d.mantissa.natAbs := by
  rw [numeral, magnitude, List.append_nil, Nat.ofDigitChars_ten_toDigits]

theorem scale?_numeral (h : d.Readable) : d.numeral.scale? = some d.scale := by
  have hlow := h.low
  have hhigh := h.high
  have hscale : ((0 : Nat) : Int) - -d.scale = d.scale := by omega
  unfold scale? numeral
  dsimp only [List.length_nil]
  rw [hscale, if_pos]
  simp only [Number.fits64, Bool.and_eq_true, decide_eq_true_eq]
  omega

theorem toRat_numeral (h : d.Readable) : d.numeral.toRat = d.toRat := by
  rw [toRat_eq (scale?_numeral h), magnitude_numeral, numeral, signed_natAbs, toRat]

theorem spelled_write (h : d.Readable) : d.numeral.Spelled (d.write []) := by
  obtain ⟨sign, hsign, hwrite⟩ := Number.write_eq d.mantissa
  have hdigits := Number.isDigit_toDigits d.mantissa.natAbs
  have hspelled : ∀ {e tail}, Exponent e tail →
      Spelled ⟨decide (d.mantissa < 0), Nat.toDigits 10 d.mantissa.natAbs, [], e⟩
        (sign ++ (Nat.toDigits 10 d.mantissa.natAbs ++ [] ++ tail)) :=
    fun he => .intro hsign hdigits (by simp) (.inl Nat.toDigits_ne_nil) (.inr ⟨rfl, rfl⟩) he
  unfold write numeral
  rw [hwrite]
  by_cases hzero : d.scale = 0
  · rw [if_pos hzero, hzero]
    simpa using hspelled .none
  · have hfits : Number.fits64 (-d.scale) = true := by
      have hlow := h.low
      have hhigh := h.high
      simp only [Number.fits64, Bool.and_eq_true, decide_eq_true_eq]
      omega
    rw [if_neg hzero]
    simpa using hspelled (.some (.inl rfl) (readInt?_write (-d.scale)) hfits)

end BigDecimal

namespace Decimal

/-- The parts of the number as it is printed. -/
def numeral (d : Decimal) : Numeral :=
  ⟨decide (d.mantissa < 0), Nat.toDigits 10 (d.mantissa.natAbs / Number.tenTo d.scale),
    if d.scale = 0 then []
    else (Nat.toDigits 10 (d.mantissa.natAbs % Number.tenTo d.scale)).leftpad d.scale '0', 0⟩

variable (d : Decimal)

theorem length_fraction : d.numeral.fraction.length = d.scale := by
  unfold numeral
  dsimp only
  split
  · rename_i h
    rw [h]
    rfl
  · rename_i h
    rw [List.length_leftpad, Nat.max_eq_left]
    apply (Nat.length_toDigits_le_iff (by decide) (Nat.pos_of_ne_zero h)).mpr
    exact Nat.mod_lt _ (Nat.pow_pos (by decide))

theorem isDigit_fraction : ∀ c ∈ d.numeral.fraction, c.isDigit = true := by
  intro c hc
  unfold numeral at hc
  dsimp only at hc
  split at hc
  · cases hc
  · rw [List.leftpad, List.mem_append] at hc
    rcases hc with hc | hc
    · rw [(List.mem_replicate.mp hc).2]
      rfl
    · exact Number.isDigit_toDigits _ c hc

theorem magnitude_numeral : d.numeral.magnitude = d.mantissa.natAbs := by
  have hfraction : Nat.ofDigitChars 10 d.numeral.fraction 0 =
      d.mantissa.natAbs % Number.tenTo d.scale := by
    unfold numeral
    dsimp only
    split
    · rename_i h
      rw [h, Nat.ofDigitChars_nil]
      exact (Nat.mod_one _).symm
    · rw [List.leftpad, Nat.ofDigitChars_append, Nat.ofDigitChars_replicate_zero, Nat.mul_zero,
        Nat.ofDigitChars_ten_toDigits]
  have hwhole : Nat.ofDigitChars 10 d.numeral.whole 0 =
      d.mantissa.natAbs / Number.tenTo d.scale := Nat.ofDigitChars_ten_toDigits
  rw [magnitude, Nat.ofDigitChars_append, Nat.ofDigitChars_eq_ofDigitChars_zero, hfraction, hwhole,
    length_fraction]
  exact Nat.div_add_mod _ _

theorem scale?_numeral : d.numeral.scale? = some (d.scale : ℤ) := by
  have hle := d.scale_le
  have hexponent : d.numeral.exponent = 0 := rfl
  unfold scale?
  rw [length_fraction, hexponent]
  dsimp only
  rw [if_pos]
  · simp
  · simp only [Number.fits64, Bool.and_eq_true, decide_eq_true_eq]
    omega

theorem spelled_write : d.numeral.Spelled d.write := by
  have hsign : Signed (decide (d.mantissa < 0)) (if d.mantissa < 0 then ['-'] else []) := by
    by_cases h : d.mantissa < 0
    · simp [h, Signed.minus]
    · simp [h, Signed.none]
  have hspelled : ∀ {point}, (point = '.' :: d.numeral.fraction ∨
      (point = [] ∧ d.numeral.fraction = [])) → d.numeral.Spelled
        ((if d.mantissa < 0 then ['-'] else []) ++ (d.numeral.whole ++ point ++ [])) :=
    fun hpoint => .intro hsign (Number.isDigit_toDigits _) (isDigit_fraction d)
      (.inl Nat.toDigits_ne_nil) hpoint .none
  by_cases hzero : d.scale = 0
  · have hfraction : d.numeral.fraction = [] := by simp [numeral, hzero]
    have := hspelled (.inr ⟨rfl, hfraction⟩)
    simpa [write, numeral, hzero] using this
  · have := hspelled (.inl rfl)
    simpa [write, numeral, hzero] using this

/-- It is an integer within 32 bits, and has no fraction digits that tell it from one. -/
def Short : Prop :=
  d.scale = 0 ∧ Number.fits32 d.mantissa = true

instance : Decidable d.Short :=
  inferInstanceAs (Decidable (_ ∧ _))

theorem Short.toInt_ofInt {d : Decimal} (h : d.Short) :
    (Int32.ofInt d.mantissa).toInt = d.mantissa := by
  obtain ⟨-, hfits⟩ := h
  simp only [Number.fits32, Bool.and_eq_true, decide_eq_true_eq] at hfits
  apply Int32.toInt_ofInt_of_le
  · omega
  · omega

/-- Without fraction digits it is printed as an integer. -/
theorem write_of_scale_eq_zero {d : Decimal} (h : d.scale = 0) :
    d.write = Number.write d.mantissa := by
  have hone : d.mantissa.natAbs / Number.tenTo 0 = d.mantissa.natAbs := Nat.div_one _
  unfold write Number.write
  rw [h]
  dsimp only
  rw [hone]
  by_cases hm : d.mantissa < 0
  · simp [hm]
  · simp [hm]

end Decimal

namespace Numeral

theorem natAbs_signed (negative : Bool) (n : Nat) : (signed negative n).natAbs = n := by
  unfold signed
  split
  · omega
  · omega

/-- Digits within bounds make a decimal, where zeros may have to be put behind them. -/
theorem decimal?_of_room {n : Numeral} {sc : Int} (hsc : n.scale? = some sc) (hlow : -38 ≤ sc)
    (hle : sc ≤ 28)
    (hn : n.magnitude * Number.tenTo (-sc).toNat < 0x1000000000000000000000000) :
    ∃ d, n.decimal? = some d ∧
      d.mantissa = signed n.negative (n.magnitude * Number.tenTo (-sc).toNat) ∧
      d.scale = sc.toNat := by
  have hten : Number.tenTo 38 = 100000000000000000000000000000000000000 := rfl
  have hdecimal : n.decimal? =
      decimalOf? n.negative (n.magnitude * Number.tenTo (-sc).toNat) sc.toNat := by
    unfold decimal?
    rw [hsc]
    simp only [Option.bind_eq_bind, Option.bind_some]
    rw [guard, if_pos hlow, guard, if_pos (by omega)]
    rfl
  rw [hdecimal]
  generalize n.magnitude * Number.tenTo (-sc).toNat = magnitude at hn ⊢
  have hparts : ∀ {m : Int}, m = signed n.negative magnitude →
      ∃ d, Decimal.ofParts? m sc.toNat = some d ∧ d.mantissa = signed n.negative magnitude ∧
        d.scale = sc.toNat := by
    intro m hm
    subst hm
    rw [Decimal.ofParts?, dif_pos ⟨by rwa [natAbs_signed], by omega⟩]
    exact ⟨_, rfl, rfl, rfl⟩
  rw [decimalOf?]
  by_cases hzero : magnitude = 0
  · rw [if_pos hzero, Nat.min_eq_left (by omega)]
    apply hparts
    rw [hzero, signed_zero]
  · rw [if_neg hzero, Nat.sub_eq_zero_of_le (by omega)]
    exact hparts rfl

/-- A mantissa and a scale within bounds make a decimal. -/
theorem decimal?_of_fits {n : Numeral} {sc : Nat} (hsc : n.scale? = some (sc : ℤ))
    (hle : sc ≤ 28) (hn : n.magnitude < 0x1000000000000000000000000) :
    ∃ d, n.decimal? = some d ∧ d.mantissa = signed n.negative n.magnitude ∧ d.scale = sc := by
  have hshift : (-(sc : ℤ)).toNat = 0 := by omega
  have hmagnitude : n.magnitude * Number.tenTo (-(sc : ℤ)).toNat = n.magnitude := by
    rw [hshift]
    exact Nat.mul_one _
  have hroom := decimal?_of_room hsc (by omega) (by omega) (by rwa [hmagnitude])
  rwa [hmagnitude, Int.toNat_natCast] at hroom

theorem signed_inj {a b : Bool} {m n : Nat} (h : signed a m = signed b n) :
    m = n ∧ (m = 0 ∨ a = b) := by
  cases a with
  | false =>
    cases b with
    | false =>
      simp only [signed, Bool.false_eq_true, if_false] at h
      exact ⟨by omega, .inr rfl⟩
    | true =>
      simp only [signed, Bool.false_eq_true, if_false, if_true] at h
      exact ⟨by omega, .inl (by omega)⟩
  | true =>
    cases b with
    | false =>
      simp only [signed, Bool.false_eq_true, if_false, if_true] at h
      exact ⟨by omega, .inl (by omega)⟩
    | true =>
      simp only [signed, if_true] at h
      exact ⟨by omega, .inr rfl⟩

/-- Whether there is room for a number in a decimal does not depend on how it is written. -/
theorem decimal?_congr {n n' : Numeral} {d : BigDecimal} (h : n.bigDecimal? = some d)
    (h' : n'.bigDecimal? = some d) : n.decimal? = n'.decimal? := by
  obtain ⟨sc, hsc, rfl⟩ := Option.map_eq_some_iff.mp h
  obtain ⟨sc', hsc', he⟩ := Option.map_eq_some_iff.mp h'
  rw [BigDecimal.mk.injEq] at he
  obtain ⟨hsigned, rfl⟩ := he
  obtain ⟨hmagnitude, hnegative⟩ := signed_inj hsigned
  unfold decimal?
  rw [hsc, hsc', hmagnitude]
  rcases hnegative with hzero | hnegative
  · have hz : n.magnitude = 0 := by omega
    simp [hz, decimalOf?]
  · rw [hnegative]

end Numeral

/-- There is no room for the number in a decimal, however it is written. -/
def BigDecimal.Large (d : BigDecimal) : Prop :=
  ∀ n : Numeral, n.bigDecimal? = some d → n.decimal? = none

theorem BigDecimal.bigDecimal?_numeral {d : BigDecimal} (h : d.Readable) :
    d.numeral.bigDecimal? = some d := by
  rw [bigDecimal?, scale?_numeral h, magnitude_numeral, numeral, signed_natAbs]
  rfl

namespace Value

/-- Only large numbers are read as such. -/
theorem large_of_read {s : List Char} {d : BigDecimal}
    (h : ofNumeral? s = some (bigDecimal d)) : d.Large := by
  rcases of_ofNumeral? h with ⟨k, -, hk⟩ | ⟨-, n, -, ⟨d', -, hd'⟩ | ⟨hnone, d', hd', he⟩⟩
  · cases hk
  · cases hd'
  · cases he
    intro n' hn'
    rw [decimal?_congr hn' hd', hnone]

/-- What is read can be printed and read again. -/
theorem readable_of_read {s : List Char} {d : BigDecimal}
    (h : ofNumeral? s = some (bigDecimal d)) : d.Readable := by
  rcases of_ofNumeral? h with ⟨k, -, hk⟩ | ⟨-, n, hn, ⟨d', -, hd'⟩ | ⟨-, d', hd', he⟩⟩
  · cases hk
  · cases hd'
  · cases he
    obtain ⟨sc, hsc, rfl⟩ := Option.map_eq_some_iff.mp hd'
    have hexponent := fits_of_read? hn
    have heq := of_scale? hsc
    have hscale : Number.fits64 sc = true := by
      unfold scale? at hsc
      simp only [Option.ite_none_right_eq_some] at hsc
      rw [← Option.some.inj hsc.2]
      exact hsc.1
    simp only [Number.fits64, Bool.and_eq_true, decide_eq_true_eq] at hexponent hscale
    constructor
    · change -0x8000000000000000 < sc
      omega
    · exact hscale.2

@[simp] theorem scalarOnto_int (k : Int32) (tail : List Char) :
    (int k).scalarOnto tail = Number.write k.toInt ++ tail := rfl

@[simp] theorem scalarOnto_long (k : Int64) (tail : List Char) :
    (long k).scalarOnto tail = Number.write k.toInt ++ tail := rfl

@[simp] theorem scalarOnto_decimal (d : Decimal) (tail : List Char) :
    (decimal d).scalarOnto tail = d.write ++ tail := rfl

@[simp] theorem scalarOnto_bigDecimal (d : BigDecimal) (tail : List Char) :
    (bigDecimal d).scalarOnto tail = d.write [] ++ tail := rfl

/-- What has room in a decimal becomes one, unless it is a short integer. -/
theorem of_ofNumeral?_decimal {s : List Char} {n : Numeral} {d : Decimal} {w : Value}
    (hw : ofNumeral? s = some w) (hn : read? s = some n) (hd : n.decimal? = some d) :
    (∃ k : Int32, readInt? s = some k.toInt ∧ w = int k) ∨ w = decimal d := by
  obtain ⟨k, hk, he⟩ | ⟨-, n', hn', h⟩ := of_ofNumeral? hw
  · exact .inl ⟨k, toInt_of_readInt32? hk, he⟩
  · rw [hn, Option.some.injEq] at hn'
    rw [← hn', hd] at h
    obtain ⟨d', hd', he⟩ | ⟨hnone, -⟩ := h
    · cases hd'
      exact .inr he
    · cases hnone

/-- A written number that has room in a decimal without fraction digits is printed as the
integer it is. -/
theorem scalarOnto_of_integral {s : List Char} {n : Numeral} {d : Decimal} {m : Int} {w : Value}
    (hw : ofNumeral? s = some w) (hn : read? s = some n) (hm : readInt? s = some m)
    (hd : n.decimal? = some d) (hmantissa : d.mantissa = m) (hscale : d.scale = 0) :
    w.scalarOnto [] = Number.write m := by
  obtain ⟨k, hk, he⟩ | he := of_ofNumeral?_decimal hw hn hd
  · rw [hm, Option.some.injEq] at hk
    rw [he, scalarOnto_int, ← hk, List.append_nil]
  · rw [he, scalarOnto_decimal, List.append_nil, Decimal.write_of_scale_eq_zero hscale, hmantissa]

/-- An integer within 96 bits reads back as itself, in whatever variant. -/
theorem reread_int {m : Int} (hm : m.natAbs < 0x1000000000000000000000000) :
    ∃ w, ofNumeral? (Number.write m) = some w ∧ w.rational? = some (m : ℚ) ∧
      w.scalarOnto [] = Number.write m := by
  have hd : ∃ d : BigDecimal, d.mantissa = m ∧ d.scale = 0 := ⟨⟨m, 0⟩, rfl, rfl⟩
  obtain ⟨d, hmantissa, hscale⟩ := hd
  have hreadable : d.Readable := by
    constructor
    · omega
    · omega
  have hspelled := BigDecimal.spelled_write hreadable
  have hwrite : d.write [] = Number.write m := by
    rw [BigDecimal.write, if_pos hscale, hmantissa]
  have hsc : d.numeral.scale? = some ((0 : Nat) : ℤ) := by
    rw [BigDecimal.scale?_numeral hreadable, hscale]
    rfl
  have hmagnitude := BigDecimal.magnitude_numeral d
  have hnegative : d.numeral.negative = decide (d.mantissa < 0) := rfl
  have hrat : d.toRat = m := by
    simp [BigDecimal.toRat, hmantissa, hscale]
  rw [← BigDecimal.toRat_numeral hreadable] at hrat
  rw [hwrite] at hspelled
  obtain ⟨w, hw⟩ := ofNumeral?_isSome hspelled hsc
  refine ⟨w, hw, ?_, ?_⟩
  · rw [ofNumeral?_exact hspelled hw, hrat]
  · have hfits : d.numeral.magnitude < 0x1000000000000000000000000 := by
      rw [hmagnitude, hmantissa]
      exact hm
    obtain ⟨d', hd', hmantissa', hscale'⟩ := decimal?_of_fits hsc (Nat.zero_le 28) hfits
    rw [hmagnitude, hnegative, signed_natAbs, hmantissa] at hmantissa'
    exact scalarOnto_of_integral hw (read?_of_spelled hspelled) (readInt?_write m) hd'
      hmantissa' hscale'

theorem Decimal.ext_parts {d d' : Decimal} (hm : d.mantissa = d'.mantissa)
    (hs : d.scale = d'.scale) : d = d' := by
  cases d
  cases d'
  simp_all

theorem ofNumeral?_write_int (k : Int32) : ofNumeral? (Number.write k.toInt) = some (int k) := by
  have hlow := k.le_toInt
  have hhigh := k.toInt_lt
  have hfits : Number.fits32 k.toInt = true := by
    simp only [Number.fits32, Bool.and_eq_true, decide_eq_true_eq]
    omega
  apply ofNumeral?_int
  rw [readInt32?, readInt?_write, Option.bind_some, if_pos hfits, Int32.ofInt_toInt]

/-- A short integer is printed as one, and read back as one. -/
theorem ofNumeral?_write_short {d : Decimal} (h : d.Short) :
    ofNumeral? d.write = some (int (.ofInt d.mantissa)) := by
  apply ofNumeral?_int
  rw [Decimal.write_of_scale_eq_zero h.1, readInt32?, readInt?_write, Option.bind_some,
    if_pos h.2]

/-- Any other decimal is read back as itself. -/
theorem ofNumeral?_write_decimal {d : Decimal} (h : ¬d.Short) :
    ofNumeral? d.write = some (decimal d) := by
  have hmagnitude := Decimal.magnitude_numeral d
  have hfits : d.numeral.magnitude < 0x1000000000000000000000000 := by
    rw [hmagnitude]
    exact d.mantissa_lt
  obtain ⟨d', hd', hmantissa, hscale⟩ :=
    decimal?_of_fits (Decimal.scale?_numeral d) d.scale_le hfits
  have hnegative : d.numeral.negative = decide (d.mantissa < 0) := rfl
  rw [hmagnitude, hnegative, signed_natAbs] at hmantissa
  cases Decimal.ext_parts hmantissa hscale
  have hint : readInt32? d.write = none := by
    rw [readInt32?]
    by_cases hzero : d.scale = 0
    · have hlong : ¬Number.fits32 d.mantissa = true := fun hfits => h ⟨hzero, hfits⟩
      rw [Decimal.write_of_scale_eq_zero hzero, readInt?_write, Option.bind_some, if_neg hlong]
    · have hpoint : readInt? d.write = none := by
        apply readInt?_eq_none (c := '.')
        · simp [Decimal.write, hzero]
        · rfl
        · simp
      rw [hpoint]
      rfl
  exact ofNumeral?_decimal hint (read?_of_spelled (Decimal.spelled_write d)) hd'

/-- A decimal reads back as itself, or as the short integer that it is. -/
theorem reread_decimal (d : Decimal) :
    ∃ w, ofNumeral? d.write = some w ∧ w.rational? = some d.toBigDecimal.toRat ∧
      w.scalarOnto [] = d.write := by
  by_cases h : d.Short
  · refine ⟨_, ofNumeral?_write_short h, ?_, ?_⟩
    · rw [rational?, h.toInt_ofInt]
      simp [BigDecimal.toRat, Decimal.toBigDecimal, h.1]
    · rw [scalarOnto_int, List.append_nil, h.toInt_ofInt, Decimal.write_of_scale_eq_zero h.1]
  · exact ⟨_, ofNumeral?_write_decimal h, rfl, by rw [scalarOnto_decimal, List.append_nil]⟩

/-- A number that only a big decimal has room for is read back as itself. -/
theorem ofNumeral?_write_bigDecimal {d : BigDecimal} (h : d.Readable) (hlarge : d.Large) :
    ofNumeral? (d.write []) = some (bigDecimal d) := by
  have hsc := BigDecimal.scale?_numeral h
  have hbig := BigDecimal.bigDecimal?_numeral h
  have hnone := hlarge d.numeral hbig
  have hint : readInt32? (d.write []) = none := by
    by_cases hzero : d.scale = 0
    · cases hk : readInt32? (d.write []) with
      | none => rfl
      | some k =>
        have hwrite : d.write [] = Number.write d.mantissa := by
          rw [BigDecimal.write, if_pos hzero]
        have hm := toInt_of_readInt32? hk
        rw [hwrite, readInt?_write, Option.some.injEq] at hm
        have hlow := k.le_toInt
        have hhigh := k.toInt_lt
        have hfits : d.numeral.magnitude < 0x1000000000000000000000000 := by
          rw [BigDecimal.magnitude_numeral]
          omega
        rw [hzero] at hsc
        obtain ⟨d', hd', -⟩ := decimal?_of_fits hsc (Nat.zero_le 28) hfits
        rw [hd'] at hnone
        cases hnone
    · have hmark : readInt? (d.write []) = none := by
        apply readInt?_eq_none (c := 'e')
        · simp [BigDecimal.write, hzero]
        · rfl
        · simp
      rw [readInt32?, hmark]
      rfl
  exact ofNumeral?_bigDecimal hint (read?_of_spelled (BigDecimal.spelled_write h)) hnone hbig

/-- A number of any size reads back with its value, and as itself unless a smaller variant
has room for it. -/
theorem reread_bigDecimal {d : BigDecimal} (h : d.Readable) :
    ∃ w, ofNumeral? (d.write []) = some w ∧ w.rational? = some d.toRat ∧
      (d.Large → w.scalarOnto [] = d.write []) := by
  have hspelled := BigDecimal.spelled_write h
  obtain ⟨w, hw⟩ := ofNumeral?_isSome hspelled (BigDecimal.scale?_numeral h)
  refine ⟨w, hw, ?_, ?_⟩
  · rw [ofNumeral?_exact hspelled hw, BigDecimal.toRat_numeral h]
  · intro hlarge
    rw [ofNumeral?_write_bigDecimal h hlarge, Option.some.injEq] at hw
    rw [← hw, scalarOnto_bigDecimal, List.append_nil]

end Value

/-- The characters of printed numbers. -/
def Number.isPrinted (c : Char) : Bool :=
  c.isDigit || c == '-' || c == '.' || c == 'e'

/-- A word that could be a number by its look. -/
structure Numeric (s : List Char) : Prop where
  first : ∃ c t, s = c :: t ∧ (c.isDigit = true ∨ c = '-')
  printed : ∀ c ∈ s, Number.isPrinted c = true

namespace Numeric

theorem append {s t : List Char} (h : Numeric s) (ht : ∀ c ∈ t, Number.isPrinted c = true) :
    Numeric (s ++ t) := by
  obtain ⟨⟨c, u, rfl, hc⟩, hs⟩ := h
  refine ⟨⟨c, u ++ t, rfl, hc⟩, ?_⟩
  intro d hd
  rcases List.mem_append.mp hd with hd | hd
  · exact hs d hd
  · exact ht d hd

theorem toDigits (n : Nat) : Numeric (Nat.toDigits 10 n) := by
  have hdigits := Number.isDigit_toDigits n
  refine ⟨?_, ?_⟩
  · cases h : Nat.toDigits 10 n with
    | nil => exact absurd h Nat.toDigits_ne_nil
    | cons c t => exact ⟨c, t, rfl, .inl (hdigits c (by simp [h]))⟩
  · intro c hc
    simp [Number.isPrinted, hdigits c hc]

theorem minus {s : List Char} (h : Numeric s) : Numeric ('-' :: s) := by
  refine ⟨⟨'-', s, rfl, .inr rfl⟩, ?_⟩
  intro c hc
  rcases List.mem_cons.mp hc with rfl | hc
  · rfl
  · exact h.printed c hc

theorem write (m : Int) : Numeric (Number.write m) := by
  unfold Number.write
  by_cases h : m < 0
  · rw [if_pos h]
    exact (toDigits _).minus
  · rw [if_neg h]
    exact toDigits _

theorem write_bigDecimal (d : BigDecimal) : Numeric (d.write []) := by
  unfold BigDecimal.write
  by_cases h : d.scale = 0
  · rw [if_pos h]
    exact write _
  · rw [if_neg h, List.append_assoc]
    apply (write d.mantissa).append
    intro c hc
    have hc : c = 'e' ∨ c ∈ Number.write (-d.scale) := by simpa using hc
    rcases hc with rfl | hc
    · rfl
    · exact (write _).printed c hc

theorem write_decimal (d : Decimal) : Numeric d.write := by
  have hfraction := Decimal.isDigit_fraction d
  have hwhole := toDigits (d.mantissa.natAbs / Number.tenTo d.scale)
  have hsigned : Numeric ((if d.mantissa < 0 then ['-'] else []) ++
      Nat.toDigits 10 (d.mantissa.natAbs / Number.tenTo d.scale)) := by
    by_cases h : d.mantissa < 0
    · rw [if_pos h]
      exact hwhole.minus
    · rw [if_neg h]
      exact hwhole
  unfold Decimal.write
  apply hsigned.append
  intro c hc
  by_cases h : d.scale = 0
  · simp [h] at hc
  · simp only [h, if_false, List.mem_cons] at hc
    rcases hc with rfl | hc
    · rfl
    · have hdigit := hfraction c (by simpa [Decimal.numeral, h] using hc)
      simp [Number.isPrinted, hdigit]

theorem isWordChar_of_isPrinted {c : Char} (h : Number.isPrinted c = true) :
    Character.isWordChar c = true := by
  simp only [Number.isPrinted, Bool.or_eq_true, beq_iff_eq] at h
  rcases h with ((h | rfl) | rfl) | rfl
  · have hlow : c.toNat < 0x80 := by
      simp only [Char.isDigit, Bool.and_eq_true, decide_eq_true_eq] at h
      have := UInt32.le_iff_toNat_le.mp h.2
      simp at this
      omega
    simp [Character.isWordChar, hlow, Char.isAlphanum, h]
  · rfl
  · rfl
  · rfl

theorem word {s : List Char} (h : Numeric s) : Word s := by
  obtain ⟨c, t, hs, -⟩ := h.first
  refine ⟨?_, [], s, rfl, .inl rfl, fun c hc => isWordChar_of_isPrinted (h.printed c hc)⟩
  rw [hs]
  exact List.cons_ne_nil c t

end Numeric

/-- No keyword is a number. -/
theorem Value.ofWord_of_number? {w : List Char} {v : Value} (h : number? w = some v) :
    ofWord w = v := by
  have hkeyword : ∀ {u : List Char}, number? u = none → w ≠ u := by
    intro u hu he
    rw [← he, h] at hu
    cases hu
  rw [ofWord, if_neg (hkeyword rfl), if_neg (hkeyword rfl), if_neg (hkeyword rfl), h,
    Option.getD_some]

/-- Behind a digit or a minus, what is a number stands for it. -/
theorem Value.ofWord_number {c : Char} {t : List Char} {v : Value}
    (hc : c.isDigit = true ∨ c = '-') (hv : ofNumeral? (c :: t) = some v) :
    ofWord (c :: t) = v := by
  apply ofWord_of_number?
  unfold number?
  split
  · rename_i he
    cases he
    rcases hc with hc | hc
    · cases hc
    · cases hc
  · rename_i he
    cases he
    rw [if_pos (by simpa using hc)]
    exact hv
  · rename_i he
    cases he

theorem Numeric.ofWord {s : List Char} (h : Numeric s) {v : Value}
    (hv : Value.ofNumeral? s = some v) : Value.ofWord s = v := by
  obtain ⟨c, t, rfl, hc⟩ := h.first
  exact Value.ofWord_number hc hv

end Cjson
