import Cjson.Proofs.Superset

namespace Cjson

namespace Numeral

/-- How a number is written, however large its exponent is. Among its digits may be a point,
and then perhaps none on one side of it. -/
inductive Written : Numeral → List Char → Prop
  | intro {negative : Bool} {whole fraction sign point tail : List Char} {exponent : Int}
      (signed : Signed negative sign) (digits : ∀ c ∈ whole, c.isDigit = true)
      (digits' : ∀ c ∈ fraction, c.isDigit = true) (nonempty : whole ≠ [] ∨ fraction ≠ [])
      (pointed : point = '.' :: fraction ∨ (point = [] ∧ fraction = []))
      (raised : Json.Exponent exponent tail) :
      Written ⟨negative, whole, fraction, exponent⟩ (sign ++ (whole ++ point ++ tail))

/-- Digits and perhaps a sign, but no point and no exponent. -/
def Whole (s : List Char) : Prop :=
  ∃ negative sign digits, Signed negative sign ∧ digits ≠ [] ∧
    (∀ c ∈ digits, c.isDigit = true) ∧ s = sign ++ digits

/-- The integer that all digits make up. -/
def mantissa (n : Numeral) : Int :=
  signed n.negative n.magnitude

/-- The count of fraction digits less the exponent. -/
def scale (n : Numeral) : Int :=
  n.fraction.length - n.exponent

/-- The exponent fits into 64 bits, and so does the scale. -/
structure Fits (n : Numeral) : Prop where
  exponent : Number.fits64 n.exponent = true
  scale : Number.fits64 n.scale = true

theorem scale?_eq_some {n : Numeral} {sc : Int} :
    n.scale? = some sc ↔ sc = n.scale ∧ Number.fits64 n.scale = true := by
  unfold scale? scale
  dsimp only
  split
  · rename_i h
    simp only [Option.some.injEq, h, and_true, eq_comm]
  · rename_i h
    simp [h]

theorem Fits.scale? {n : Numeral} (h : n.Fits) : n.scale? = some n.scale :=
  scale?_eq_some.mpr ⟨rfl, h.scale⟩

theorem Written.spelled {n : Numeral} {s : List Char} (h : n.Written s)
    (hfits : Number.fits64 n.exponent = true) : n.Spelled s := by
  cases h with
  | intro signed digits digits' nonempty pointed raised =>
    exact .intro signed digits digits' nonempty pointed (raised.fitting hfits)

theorem Exponent.written {e : Int} {tail : List Char} (h : Exponent e tail) :
    Json.Exponent e tail := by
  cases h with
  | none => exact .none
  | some mark read _ =>
    obtain ⟨negative, sign, digits, hsign, rfl, hne, hdigits, rfl⟩ := of_readInt? read
    exact .some mark hsign hne hdigits

theorem Spelled.written {n : Numeral} {s : List Char} (h : n.Spelled s) : n.Written s := by
  cases h with
  | intro signed digits digits' nonempty pointed raised =>
    exact .intro signed digits digits' nonempty pointed raised.written

theorem of_splitFirst {p : Char → Bool} {s before : List Char} {behind? : Option (List Char)}
    (h : splitFirst p s = (before, behind?)) :
    (behind? = none ∧ s = before) ∨
      ∃ c behind, behind? = some behind ∧ p c = true ∧ s = before ++ c :: behind := by
  rw [splitFirst, Prod.mk.injEq] at h
  obtain ⟨rfl, rfl⟩ := h
  have happend := List.takeWhile_append_dropWhile (p := (!p ·)) (l := s)
  have hhead := List.head?_dropWhile_not (!p ·) s
  cases hdrop : s.dropWhile (!p ·) with
  | nil =>
    rw [hdrop, List.append_nil] at happend
    exact .inl ⟨rfl, happend.symm⟩
  | cons c behind =>
    rw [hdrop] at happend hhead
    exact .inr ⟨c, behind, rfl, by simpa using hhead, happend.symm⟩

theorem exponent_of_read {exponent? : Option (List Char)} {e : Int} {c : Char}
    (h : readExponent? exponent? = some e) (mark : c = 'e' ∨ c = 'E') :
    Exponent e (exponent?.elim [] (c :: ·)) := by
  cases exponent? with
  | none =>
    cases h
    exact .none
  | some s =>
    rw [readExponent?, Option.filter_eq_some_iff] at h
    exact .some mark h.1 h.2

/-- Whatever is read as a number is written as one. -/
theorem spelled_of_read? {n : Numeral} {s : List Char} (h : read? s = some n) :
    n.Spelled s := by
  unfold read? at h
  rcases hsign : sign s with ⟨negative, unsigned⟩
  rcases hmark : splitFirst (fun c => c == 'e' || c == 'E') unsigned with ⟨digits, exponent?⟩
  rcases hpoint : splitFirst (· == '.') digits with ⟨whole, fraction?⟩
  simp only [hsign, hmark, hpoint, Option.bind_eq_bind, Option.bind_eq_some_iff] at h
  obtain ⟨e, he, ⟨⟩, hguard, hn⟩ := h
  cases hn
  have hshape : (!(whole.isEmpty && (fraction?.getD []).isEmpty) && whole.all Char.isDigit &&
      (fraction?.getD []).all Char.isDigit) = true := by
    rw [guard] at hguard
    split at hguard
    · assumption
    · cases hguard
  simp only [Bool.and_eq_true, Bool.not_eq_true', Bool.and_eq_false_iff, List.all_eq_true,
    List.isEmpty_eq_false_iff] at hshape
  obtain ⟨⟨hne, hwhole⟩, hfraction⟩ := hshape
  obtain ⟨u, hu, rfl⟩ := of_sign hsign
  have hpointed : ∃ point, digits = whole ++ point ∧
      (point = '.' :: fraction?.getD [] ∨ (point = [] ∧ fraction?.getD [] = [])) := by
    rcases of_splitFirst hpoint with ⟨rfl, rfl⟩ | ⟨c, fraction, rfl, hc, rfl⟩
    · exact ⟨[], by simp, .inr ⟨rfl, rfl⟩⟩
    · exact ⟨'.' :: fraction, by rw [beq_iff_eq.mp hc], .inl rfl⟩
  obtain ⟨point, rfl, hpointed⟩ := hpointed
  have htail : ∃ tail, unsigned = whole ++ point ++ tail ∧ Exponent e tail := by
    rcases of_splitFirst hmark with ⟨rfl, rfl⟩ | ⟨c, behind, rfl, hc, rfl⟩
    · exact ⟨[], by simp, exponent_of_read he (.inl rfl)⟩
    · exact ⟨c :: behind, rfl, exponent_of_read he (by simpa using hc)⟩
  obtain ⟨tail, rfl, htail⟩ := htail
  exact .intro hu hwhole hfraction hne hpointed htail

/-- The first characters that a word has to have to be a number. -/
def Begins (w : List Char) : Prop :=
  ∃ c s, w = c :: s ∧ (c.isDigit = true ∨ c = '+' ∨ c = '-')

/-- No sign is behind a plus sign. -/
def Unsigned (w : List Char) : Prop :=
  ∀ s, w = '+' :: s → s.head? ≠ some '-' ∧ s.head? ≠ some '+'

theorem Written.unsigned {n : Numeral} {w : List Char} (h : n.Written w) : Unsigned w := by
  cases h with
  | @intro negative whole fraction sign point tail exponent signed digits _ nonempty pointed _ =>
    have hhead := pointed_head?_ne_sign digits nonempty pointed tail
    intro s hs
    cases signed with
    | none =>
      rw [List.nil_append] at hs
      rw [hs] at hhead
      exact absurd rfl hhead.2
    | plus =>
      cases hs
      exact hhead
    | minus => cases hs

theorem sign_plus {s : List Char} (h : s.head? ≠ some '-' ∧ s.head? ≠ some '+') :
    sign ('+' :: s) = sign s := by
  have hnone : sign ([] ++ s) = (false, s) := sign_append .none h
  rw [List.nil_append] at hnone
  rw [hnone, sign]

/-- Where a word may be a number, the plus sign in front of it makes no difference. -/
theorem number?_eq {w : List Char} (hb : Begins w) (hu : Unsigned w) :
    Value.number? w = Value.ofNumeral? w := by
  obtain ⟨c, s, rfl, hc⟩ := hb
  by_cases hplus : c = '+'
  · subst hplus
    have hsign := sign_plus (hu s rfl)
    change Value.ofNumeral? s = _
    unfold Value.ofNumeral? readInt32? readInt? read?
    rw [hsign]
  · have hfirst : (c.isDigit || c == '-') = true := by
      rcases hc with hc | hc | hc
      · simp [hc]
      · exact absurd hc hplus
      · simp [hc]
    unfold Value.number?
    split
    · rename_i he
      cases he
      exact absurd rfl hplus
    · rename_i he
      cases he
      rw [if_pos hfirst]
    · rename_i he
      cases he

theorem begins_of_number? {w : List Char} {v : Value} (h : Value.number? w = some v) :
    Begins w := by
  unfold Value.number? at h
  split at h
  · exact ⟨_, _, rfl, .inr (.inl rfl)⟩
  · split at h
    · rename_i c s _ hc
      refine ⟨c, s, rfl, ?_⟩
      simp only [Bool.or_eq_true, beq_iff_eq] at hc
      tauto
    · cases h
  · cases h

theorem Whole.readInt? {n : Numeral} {w : List Char} (h : Whole w) (hn : n.Spelled w) :
    Numeral.readInt? w = some n.mantissa := by
  obtain ⟨negative, sign, digits, hsign, hne, hdigits, rfl⟩ := h
  have hwhole : Spelled ⟨negative, digits, [], 0⟩ (sign ++ (digits ++ [] ++ [])) :=
    .intro hsign hdigits (by simp) (.inl hne) (.inr ⟨rfl, rfl⟩) .none
  rw [List.append_nil, List.append_nil] at hwhole
  have hread := read?_of_spelled hwhole
  rw [read?_of_spelled hn] at hread
  cases hread
  rw [readInt?_append hsign hne hdigits, mantissa, magnitude, List.append_nil]

theorem whole_of_readInt? {k : Int} {w : List Char} (h : Numeral.readInt? w = some k) :
    Whole w := by
  obtain ⟨negative, sign, digits, hsign, rfl, hne, hdigits, -⟩ := of_readInt? h
  exact ⟨negative, sign, digits, hsign, hne, hdigits, rfl⟩

/-- The numbers that a 32-bit integer has room for, if nothing but digits is written. -/
theorem readInt32?_isSome_iff {n : Numeral} {w : List Char} (hn : n.Spelled w) :
    (∃ k, readInt32? w = some k) ↔ Whole w ∧ Number.fits32 n.mantissa = true := by
  constructor
  · rintro ⟨k, hk⟩
    obtain ⟨m, hm, h⟩ := Option.bind_eq_some_iff.mp hk
    have hwhole := whole_of_readInt? hm
    rw [hwhole.readInt? hn] at hm
    cases hm
    refine ⟨hwhole, ?_⟩
    split at h
    · assumption
    · cases h
  · rintro ⟨hwhole, hfits⟩
    refine ⟨.ofInt n.mantissa, ?_⟩
    rw [readInt32?, hwhole.readInt? hn, Option.bind_some, if_pos hfits]

theorem natAbs_mantissa (n : Numeral) : n.mantissa.natAbs = n.magnitude :=
  natAbs_signed _ _

theorem signed_mul_tenTo (negative : Bool) (m zeros : Nat) :
    signed negative (m * Number.tenTo zeros) = signed negative m * 10 ^ zeros := by
  rw [signed_mul]
  norm_cast

theorem mantissa_mul (n : Numeral) (zeros : Nat) :
    signed n.negative (n.magnitude * Number.tenTo zeros) = n.mantissa * 10 ^ zeros :=
  signed_mul_tenTo _ _ _

/-- What a number is as a decimal: zeros are put behind its digits where the scale is
negative, and taken off where it is too large. -/
theorem of_decimal? {n : Numeral} {sc : Int} {d : Decimal} (hsc : n.scale? = some sc)
    (h : n.decimal? = some d) :
    (sc ≤ 28 ∧ d.mantissa = n.mantissa * 10 ^ (-sc).toNat ∧ d.scale = sc.toNat) ∨
      (28 < sc ∧ d.scale = 28 ∧ n.mantissa = d.mantissa * 10 ^ (sc - 28).toNat) := by
  unfold decimal? at h
  simp only [Option.bind_eq_bind, Option.bind_eq_some_iff] at h
  obtain ⟨sc', hsc', -, -, -, -, h⟩ := h
  rw [hsc] at hsc'
  cases hsc'
  unfold decimalOf? at h
  split at h
  · rename_i hzero
    obtain ⟨hm, hs⟩ := of_ofParts? h
    have hmantissa : n.mantissa = 0 := by
      rw [← Int.natAbs_eq_zero, natAbs_mantissa]
      exact (Nat.mul_eq_zero.mp hzero).resolve_right (Nat.pow_pos (by decide)).ne'
    rw [hmantissa, hm, hs]
    by_cases hle : sc ≤ 28
    · exact .inl ⟨hle, by simp, by omega⟩
    · exact .inr ⟨by omega, by omega, by simp⟩
  · obtain ⟨hm, hs⟩ := of_ofParts? h
    have hroom := d.scale_le
    have hcount := dropZeros_count_le (sc.toNat - 28) (n.magnitude * Number.tenTo (-sc).toNat)
    have hdrop := Number.dropZeros_eq (sc.toNat - 28) (n.magnitude * Number.tenTo (-sc).toNat)
    by_cases hle : sc ≤ 28
    · have hnone : sc.toNat - 28 = 0 := by omega
      rw [hnone, Number.dropZeros] at hm hs
      rw [mantissa_mul] at hm
      exact .inl ⟨hle, hm, by simpa using hs⟩
    · have hfew : n.magnitude * Number.tenTo (-sc).toNat = n.magnitude := by
        rw [Int.toNat_of_nonpos (by omega)]
        exact Nat.mul_one _
      rw [hfew] at hm hs hcount hdrop
      have hall : (Number.dropZeros (sc.toNat - 28) n.magnitude).2 = (sc - 28).toNat := by omega
      refine .inr ⟨by omega, by omega, ?_⟩
      rw [hall] at hdrop
      rw [hm, ← signed_mul_tenTo, hdrop, mantissa]

/-- Where a number is put that no 32-bit integer has room for: in a decimal if it has room
for all digits, with the scale that is written or with zeros in place of a negative one.
Otherwise digits and scale stay as they are, or else zeros are taken off behind the 28th
fraction digit, or there is nothing but zeros. -/
structure Placed (mantissa scale : Int) (v : Value) : Prop where
  kept : 0 ≤ scale → scale ≤ 28 → mantissa.natAbs < 2 ^ 96 →
    ∃ d, v = .decimal d ∧ d.mantissa = mantissa ∧ (d.scale : Int) = scale
  filled : scale < 0 → 0 < (mantissa * 10 ^ (-scale).toNat).natAbs →
    (mantissa * 10 ^ (-scale).toNat).natAbs < 2 ^ 96 →
    ∃ d, v = .decimal d ∧ d.mantissa = mantissa * 10 ^ (-scale).toNat ∧ d.scale = 0
  remaining : ¬(0 ≤ scale ∧ scale ≤ 28 ∧ mantissa.natAbs < 2 ^ 96) →
    ¬(scale < 0 ∧ 0 < (mantissa * 10 ^ (-scale).toNat).natAbs ∧
      (mantissa * 10 ^ (-scale).toNat).natAbs < 2 ^ 96) →
    v = .bigDecimal ⟨mantissa, scale⟩ ∨
    (28 < scale ∧ ∃ d, v = .decimal d ∧ d.scale = 28 ∧
      mantissa = d.mantissa * 10 ^ (scale - 28).toNat) ∨
    (mantissa = 0 ∧ scale < 0 ∧ ∃ d, v = .decimal d ∧ d.mantissa = 0 ∧ d.scale = 0)

end Numeral

namespace Value

open Numeral

/-- A number, of any of the variants that words may have. -/
inductive IsNumber : Value → Prop
  | int (n : Int32) : IsNumber (int n)
  | decimal (d : Decimal) : IsNumber (decimal d)
  | bigDecimal (d : BigDecimal) : IsNumber (bigDecimal d)

theorem isNumber_of_ofNumeral? {w : List Char} {v : Value} (h : ofNumeral? w = some v) :
    v.IsNumber := by
  obtain ⟨k, -, rfl⟩ | ⟨-, n, -, ⟨d, -, rfl⟩ | ⟨-, d, -, rfl⟩⟩ := of_ofNumeral? h
  · exact .int k
  · exact .decimal d
  · exact .bigDecimal d

theorem fits_of_decimal? {n : Numeral} {d : Decimal} (h : n.decimal? = some d) :
    Number.fits64 n.scale = true := by
  unfold decimal? at h
  obtain ⟨sc, hsc, -⟩ := Option.bind_eq_some_iff.mp h
  exact (scale?_eq_some.mp hsc).2

theorem fits_of_bigDecimal? {n : Numeral} {d : BigDecimal} (h : n.bigDecimal? = some d) :
    Number.fits64 n.scale = true := by
  obtain ⟨sc, hsc, -⟩ := Option.map_eq_some_iff.mp h
  exact (scale?_eq_some.mp hsc).2

/-- What is read as a number is written as one, and there is room for its exponent and for
its scale. -/
theorem ofNumeral?_isSome_iff {w : List Char} :
    (∃ v, ofNumeral? w = some v) ↔ ∃ n : Numeral, n.Written w ∧ n.Fits := by
  constructor
  · rintro ⟨v, h⟩
    rcases of_ofNumeral? h with ⟨k, hk, -⟩ | ⟨-, n, hn, hplaced⟩
    · obtain ⟨negative, sign, ds, hsign, rfl, hne, hds, -⟩ := of_readInt? (toInt_of_readInt32? hk)
      have hwritten : Written ⟨negative, ds, [], 0⟩ (sign ++ (ds ++ [] ++ [])) :=
        .intro hsign hds (by simp) (.inl hne) (.inr ⟨rfl, rfl⟩) .none
      rw [List.append_nil, List.append_nil] at hwritten
      exact ⟨_, hwritten, by simp [Number.fits64], by simp [Number.fits64, scale]⟩
    · refine ⟨n, (spelled_of_read? hn).written, fits_of_read? hn, ?_⟩
      rcases hplaced with ⟨d, hd, -⟩ | ⟨-, d, hd, -⟩
      · exact fits_of_decimal? hd
      · exact fits_of_bigDecimal? hd
  · rintro ⟨n, hn, hfits⟩
    exact ofNumeral?_isSome (hn.spelled hfits.exponent) hfits.scale?

theorem ofNumeral?_int_iff {n : Numeral} {w : List Char} (hn : n.Spelled w) :
    (∃ k, ofNumeral? w = some (int k)) ↔ Whole w ∧ Number.fits32 n.mantissa = true := by
  rw [← readInt32?_isSome_iff hn]
  constructor
  · rintro ⟨k, h⟩
    obtain ⟨k, hk, -⟩ | ⟨-, n, -, ⟨d, -, hv⟩ | ⟨-, d, -, hv⟩⟩ := of_ofNumeral? h
    · exact ⟨k, hk⟩
    · cases hv
    · cases hv
  · rintro ⟨k, hk⟩
    exact ⟨k, ofNumeral?_int hk⟩

/-- With enough zeros behind a digit there is no room for it in 96 bits. -/
theorem zeros_lt {m : Int} {zeros : Nat} (hpos : 0 < (m * 10 ^ zeros).natAbs)
    (hlt : (m * 10 ^ zeros).natAbs < 2 ^ 96) : zeros ≤ 38 := by
  have habs : (m * 10 ^ zeros).natAbs = m.natAbs * 10 ^ zeros := by
    rw [Int.natAbs_mul, Int.natAbs_pow]
    rfl
  rw [habs] at hpos hlt
  by_contra hmany
  have hone : 1 ≤ m.natAbs := Nat.pos_of_mul_pos_right hpos
  have hpow : 10 ^ 38 ≤ 10 ^ zeros := Nat.pow_le_pow_right (by decide) (by omega)
  have hle : 10 ^ 38 ≤ m.natAbs * 10 ^ zeros := by
    rw [← Nat.one_mul (10 ^ 38)]
    exact Nat.mul_le_mul hone hpow
  exact absurd (hle.trans_lt hlt) (by decide)

theorem placed_of_ofNumeral? {n : Numeral} {w : List Char} {v : Value} (hn : n.Spelled w)
    (hfits : n.Fits) (h : ofNumeral? w = some v) (hint : ∀ k, v ≠ int k) :
    Placed n.mantissa n.scale v := by
  have hsc := hfits.scale?
  rcases of_ofNumeral? h with ⟨k, -, hk⟩ | ⟨-, n', hn', hplaced⟩
  · exact absurd hk (hint k)
  rw [read?_of_spelled hn] at hn'
  cases hn'
  have hroom : -38 ≤ n.scale → n.scale ≤ 28 →
      (n.mantissa * 10 ^ (-n.scale).toNat).natAbs < 2 ^ 96 →
      ∃ d, v = .decimal d ∧ d.mantissa = n.mantissa * 10 ^ (-n.scale).toNat ∧
        d.scale = n.scale.toNat := by
    intro hlow hle hlt
    rw [← mantissa_mul, natAbs_signed] at hlt
    obtain ⟨d, hd, hm, hs⟩ := decimal?_of_room hsc hlow hle (by simpa using hlt)
    rw [mantissa_mul] at hm
    rcases hplaced with ⟨d', hd', rfl⟩ | ⟨hnone, -⟩
    · rw [hd] at hd'
      cases hd'
      exact ⟨d, rfl, hm, hs⟩
    · rw [hd] at hnone
      cases hnone
  refine ⟨?_, ?_, ?_⟩
  · intro hzero hle hlt
    have hshift : n.mantissa * 10 ^ (-n.scale).toNat = n.mantissa := by
      rw [Int.toNat_of_nonpos (by omega), pow_zero, mul_one]
    rw [hshift] at hroom
    obtain ⟨d, rfl, hm, hs⟩ := hroom (by omega) hle hlt
    exact ⟨d, rfl, hm, by omega⟩
  · intro hneg hpos hlt
    have hzeros := zeros_lt hpos hlt
    obtain ⟨d, rfl, hm, hs⟩ := hroom (by omega) (by omega) hlt
    exact ⟨d, rfl, hm, by omega⟩
  · intro hkept hfilled
    rcases hplaced with ⟨d, hd, rfl⟩ | ⟨-, d, hd, rfl⟩
    · have hlt := d.mantissa_lt
      rcases of_decimal? hsc hd with ⟨hle, hm, hs⟩ | ⟨hlarge, hs, hm⟩
      · refine .inr (.inr ?_)
        rw [hm] at hlt
        by_cases hneg : n.scale < 0
        · have hzero : (n.mantissa * 10 ^ (-n.scale).toNat).natAbs = 0 := by
            by_contra hne
            exact hfilled ⟨hneg, by omega, by simpa using hlt⟩
          rw [Int.natAbs_eq_zero] at hzero
          refine ⟨?_, hneg, d, rfl, by rw [hm, hzero], by omega⟩
          exact (mul_eq_zero.mp hzero).resolve_right (by positivity)
        · rw [Int.toNat_of_nonpos (by omega), pow_zero, mul_one] at hlt
          exact absurd ⟨by omega, hle, by simpa using hlt⟩ hkept
      · exact .inr (.inl ⟨hlarge, d, rfl, hs, hm⟩)
    · obtain ⟨sc, hsc', rfl⟩ := Option.map_eq_some_iff.mp hd
      rw [hsc] at hsc'
      cases hsc'
      exact .inl rfl

end Value

open Numeral

/-- A word that is written as a number is one, of exactly that value, if 64 bits are enough
for its exponent and its scale: an integer if nothing but a sign and digits are written and
32 bits are enough for them, and otherwise a decimal wherever that has room for all
digits. -/
theorem number_word_exact {n : Numeral} {w : List Char} (written : n.Written w)
    (begins : Begins w) (fits : n.Fits) :
    (Value.ofWord w).rational? = some ((n.mantissa : ℚ) * 10 ^ (-n.scale)) ∧
    ((∃ k, Value.ofWord w = .int k) ↔ Whole w ∧ Number.fits32 n.mantissa = true) ∧
    (¬(Whole w ∧ Number.fits32 n.mantissa = true) →
      Placed n.mantissa n.scale (Value.ofWord w)) ∧
    ∀ d, Value.ofWord w = .decimal d → d.scale ≤ 28 ∧ d.mantissa.natAbs < 2 ^ 96 := by
  have hspelled := written.spelled fits.exponent
  have hsc := fits.scale?
  obtain ⟨v, hv⟩ := Value.ofNumeral?_isSome hspelled hsc
  have hword : Value.ofWord w = v :=
    Value.ofWord_of_number? ((number?_eq begins written.unsigned).trans hv)
  have hint : (∃ k, v = .int k) ↔ Whole w ∧ Number.fits32 n.mantissa = true := by
    rw [← Value.ofNumeral?_int_iff hspelled, hv]
    simp only [Option.some.injEq]
  rw [hword]
  refine ⟨?_, hint, ?_, ?_⟩
  · rw [Value.ofNumeral?_exact hspelled hv, toRat_eq hsc, mantissa]
  · intro hlarge
    exact Value.placed_of_ofNumeral? hspelled fits hv
      fun k hk => hlarge (hint.mp ⟨k, hk⟩)
  · intro d _
    exact ⟨d.scale_le, by simpa using d.mantissa_lt⟩

theorem number_word_exact_filled :
    Written ⟨true, ['1', '2'], ['5'], 3⟩ "-12.5e3".toList ∧ Begins "-12.5e3".toList ∧
      Fits ⟨true, ['1', '2'], ['5'], 3⟩ ∧
      (Value.ofWord "-12.5e3".toList).rational? = some (((-125 : Int) : ℚ) * 10 ^ (-(-2 : Int))) := by
  have hraised : Json.Exponent (signed false 3) ('e' :: ([] ++ ['3'])) :=
    .some (.inl rfl) .none (List.cons_ne_nil '3' []) (List.all_eq_true.mp (by decide))
  have hwritten : Written ⟨true, ['1', '2'], ['5'], 3⟩
      (['-'] ++ (['1', '2'] ++ ['.', '5'] ++ 'e' :: ([] ++ ['3']))) :=
    .intro .minus (List.all_eq_true.mp (by decide)) (List.all_eq_true.mp (by decide))
      (.inl (by decide)) (.inl rfl) hraised
  have hbegins : Begins "-12.5e3".toList := ⟨'-', "12.5e3".toList, rfl, .inr (.inr rfl)⟩
  have hfits : Fits ⟨true, ['1', '2'], ['5'], 3⟩ := ⟨rfl, rfl⟩
  exact ⟨hwritten, hbegins, hfits, (number_word_exact hwritten hbegins hfits).1⟩

/-- The words that are no strings although they are no numbers. -/
def keywords : List (List Char) :=
  ["true".toList, "false".toList, "null".toList]

theorem Value.ofWord_eq_string {w : List Char} (hw : w ∉ keywords) (h : number? w = none) :
    ofWord w = .string (.ofList w) := by
  simp only [keywords, List.mem_cons, List.not_mem_nil, or_false, not_or] at hw
  rw [ofWord, if_neg hw.1, if_neg hw.2.1, if_neg hw.2.2, h, Option.getD_none]

theorem Value.isNumber_ofWord_iff {w : List Char} :
    (ofWord w).IsNumber ↔ ∃ v, number? w = some v := by
  constructor
  · intro h
    by_cases hw : w ∈ keywords
    · simp only [keywords, List.mem_cons, List.not_mem_nil, or_false] at hw
      rcases hw with rfl | rfl | rfl
      · cases h
      · cases h
      · cases h
    · cases hnumber : number? w with
      | some v => exact ⟨v, rfl⟩
      | none =>
        rw [ofWord_eq_string hw hnumber] at h
        cases h
  · rintro ⟨v, h⟩
    rw [ofWord_of_number? h]
    unfold number? at h
    split at h
    · exact isNumber_of_ofNumeral? h
    · split at h
      · exact isNumber_of_ofNumeral? h
      · cases h
    · cases h

theorem Value.not_isNumber_ofWord {w : List Char} (h : number? w = none) :
    ¬(ofWord w).IsNumber := by
  rw [isNumber_ofWord_iff, h]
  rintro ⟨v, hv⟩
  cases hv

/-- A word has one plus sign at most. -/
theorem Word.unsigned {w : List Char} (h : Word w) (hsign : ∀ s, w ≠ '+' :: '-' :: s) :
    Unsigned w := by
  rintro s rfl
  obtain ⟨-, sign, letters, he, hs, hletters⟩ := h
  refine ⟨?_, ?_⟩
  · intro hhead
    obtain ⟨s, rfl⟩ := List.head?_eq_some_iff.mp hhead
    exact hsign s rfl
  · intro hhead
    obtain ⟨s, rfl⟩ := List.head?_eq_some_iff.mp hhead
    have hmem : '+' ∈ letters := by
      rcases hs with rfl | rfl
      · rw [List.nil_append] at he
        rw [← he]
        exact List.mem_cons_self
      · cases he
        exact List.mem_cons_self
    exact absurd (hletters '+' hmem) (by decide)

/-- A plus sign in front of a number that has a minus of its own, and that 64 bits are enough
for. -/
def SignedTwice (w : List Char) : Prop :=
  ∃ (s : List Char) (n : Numeral), w = '+' :: '-' :: s ∧ n.Written ('-' :: s) ∧ n.Fits

theorem Word.number?_isSome_iff {w : List Char} (h : Word w) :
    (∃ v, Value.number? w = some v) ↔
      (Begins w ∧ ∃ n : Numeral, n.Written w ∧ n.Fits) ∨ SignedTwice w := by
  by_cases hsigns : ∃ s, w = '+' :: '-' :: s
  · -- The plus sign is taken off first, and the minus is read with the digits.
    obtain ⟨s, rfl⟩ := hsigns
    change (∃ v, Value.ofNumeral? ('-' :: s) = some v) ↔ _
    rw [Value.ofNumeral?_isSome_iff]
    constructor
    · intro h
      obtain ⟨n, hn, hfits⟩ := h
      exact .inr ⟨s, n, rfl, hn, hfits⟩
    · intro h
      rcases h with ⟨-, n, hn, -⟩ | ⟨s', n, he, hn, hfits⟩
      · exact absurd rfl (hn.unsigned ('-' :: s) rfl).1
      · cases he
        exact ⟨n, hn, hfits⟩
  · have hunsigned := h.unsigned (not_exists.mp hsigns)
    have hsingle : ¬SignedTwice w := fun ⟨s, _, he, _⟩ => hsigns ⟨s, he⟩
    rw [or_iff_left hsingle, ← Value.ofNumeral?_isSome_iff]
    constructor
    · intro h
      obtain ⟨v, hv⟩ := h
      have hbegins := begins_of_number? hv
      exact ⟨hbegins, v, (number?_eq hbegins hunsigned).symm.trans hv⟩
    · intro h
      obtain ⟨hbegins, v, hv⟩ := h
      exact ⟨v, (number?_eq hbegins hunsigned).trans hv⟩

/-- The words that are numbers are those that are written as one behind a digit or a sign,
if 64 bits are enough for the exponent and the scale. All others but the keywords stand for
their own text. Nothing is said of a plus sign in front of a number with a minus. -/
theorem number_words_written {k k' : Cursor} {w : List Char}
    (scanned : Scan.word k = (.ok w, k')) (single : ¬SignedTwice w) :
    ((Value.ofWord w).IsNumber ↔ Begins w ∧ ∃ n : Numeral, n.Written w ∧ n.Fits) ∧
    (¬(Value.ofWord w).IsNumber → w ∉ keywords → Value.ofWord w = .string (.ofList w)) := by
  obtain ⟨-, hw, -⟩ := Scan.word_eq_ok.mp scanned
  refine ⟨?_, ?_⟩
  · rw [Value.isNumber_ofWord_iff, hw.number?_isSome_iff, or_iff_left single]
  · intro hnumber hkeyword
    rw [Value.isNumber_ofWord_iff, not_exists] at hnumber
    exact Value.ofWord_eq_string hkeyword (Option.eq_none_iff_forall_not_mem.mpr hnumber)

theorem number_words_written_signs :
    Scan.word ⟨0, "+-1.2.3]".toList⟩ = (.ok "+-1.2.3".toList, ⟨7, [']']⟩) ∧
      ¬SignedTwice "+-1.2.3".toList ∧
      ((Value.ofWord "+-1.2.3".toList).IsNumber ↔
        Begins "+-1.2.3".toList ∧ ∃ n : Numeral, n.Written "+-1.2.3".toList ∧ n.Fits) ∧
      Value.ofWord "+-1.2.3".toList = .string (.ofList "+-1.2.3".toList) := by
  have hscanned : Scan.word ⟨0, "+-1.2.3]".toList⟩ = (.ok "+-1.2.3".toList, ⟨7, [']']⟩) := by
    rfl
  have hnone : Value.ofNumeral? "-1.2.3".toList = none := by decide
  have hsingle : ¬SignedTwice "+-1.2.3".toList := by
    intro h
    obtain ⟨s, n, he, hwritten⟩ := h
    cases he
    obtain ⟨v, hv⟩ := Value.ofNumeral?_isSome_iff.mpr ⟨n, hwritten⟩
    cases hnone.symm.trans hv
  obtain ⟨hiff, hstring⟩ := number_words_written hscanned hsingle
  exact ⟨hscanned, hsingle, hiff, hstring (Value.not_isNumber_ofWord hnone) (by decide)⟩

/-- Beyond 64 bits what is written as a number is a string, and a minus behind a plus sign
counts although a number has one sign at most. -/
theorem number_words_apart :
    (Scan.word ⟨0, "1e9223372036854775808".toList⟩ =
        (.ok "1e9223372036854775808".toList, ⟨21, []⟩) ∧
      Begins "1e9223372036854775808".toList ∧
      (∃ n : Numeral, n.Written "1e9223372036854775808".toList) ∧
      ¬(Value.ofWord "1e9223372036854775808".toList).IsNumber) ∧
    (Scan.word ⟨0, "1e-9223372036854775808".toList⟩ =
        (.ok "1e-9223372036854775808".toList, ⟨22, []⟩) ∧
      Begins "1e-9223372036854775808".toList ∧
      (∃ n : Numeral, n.Written "1e-9223372036854775808".toList) ∧
      ¬(Value.ofWord "1e-9223372036854775808".toList).IsNumber) ∧
    (Scan.word ⟨0, "+-1".toList⟩ = (.ok "+-1".toList, ⟨3, []⟩) ∧
      (¬∃ n : Numeral, n.Written "+-1".toList) ∧
      (Value.ofWord "+-1".toList).IsNumber) := by
  have hpower : ∀ {negative sign digits}, Signed negative sign → digits ≠ [] →
      digits.all Char.isDigit = true →
      Written ⟨false, ['1'], [], signed negative (Nat.ofDigitChars 10 digits 0)⟩
        ([] ++ (['1'] ++ [] ++ ('e' :: sign ++ digits))) :=
    fun hsign hne hdigits =>
      .intro .none (List.all_eq_true.mp (by decide)) (by simp) (.inl (by simp)) (.inr ⟨rfl, rfl⟩)
        (.some (.inl rfl) hsign hne (List.all_eq_true.mp hdigits))
  refine ⟨⟨rfl, ?_, ?_, ?_⟩, ⟨rfl, ?_, ?_, ?_⟩, rfl, ?_, ?_⟩
  · exact ⟨'1', "e9223372036854775808".toList, rfl, .inl rfl⟩
  · exact ⟨_, hpower .none (List.cons_ne_nil '9' "223372036854775808".toList) (by decide)⟩
  · exact Value.not_isNumber_ofWord (by decide +kernel)
  · exact ⟨'1', "e-9223372036854775808".toList, rfl, .inl rfl⟩
  · exact ⟨_, hpower .minus (List.cons_ne_nil '9' "223372036854775808".toList) (by decide)⟩
  · exact Value.not_isNumber_ofWord (by decide +kernel)
  · rintro ⟨n, hn⟩
    exact (hn.unsigned ['-', '1'] rfl).1 rfl
  · rw [Value.isNumber_ofWord_iff]
    exact ⟨.int (-1), rfl⟩

end Cjson
