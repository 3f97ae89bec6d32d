import Cjson.Proofs.Reduced
import Cjson.Proofs.RoundTrip

namespace Cjson

namespace Value

variable {v w : Value} {q : ℚ}

theorem int64?_eq_some_iff (hq : v.rational? = some q) {n : Int64} :
    v.int64? = some n ↔ q = (n.toInt : ℚ) := by
  cases v with
  | int k =>
    cases hq
    rw [int64?, Option.some.injEq, Int.cast_inj, ← Int64.toInt_inj, Int32.toInt_toInt64]
  | long k =>
    cases hq
    rw [int64?, Option.some.injEq, Int.cast_inj, Int64.toInt_inj]
  | decimal d =>
    cases hq
    exact BigDecimal.toInt64?_eq_some_iff
  | bigDecimal d =>
    cases hq
    exact BigDecimal.toInt64?_eq_some_iff
  | _ => cases hq

/-- What is found is an integer within the bounds, and each of them is found. -/
theorem int64?_toInt_eq_some_iff (hq : v.rational? = some q) {n : Int} :
    v.int64?.map Int64.toInt = some n ↔ q = n ∧ -2 ^ 63 ≤ n ∧ n < 2 ^ 63 := by
  rw [Option.map_eq_some_iff]
  constructor
  · rintro ⟨k, hk, rfl⟩
    exact ⟨(int64?_eq_some_iff hq).mp hk, k.le_toInt, k.toInt_lt⟩
  · rintro ⟨hn, hlow, hhigh⟩
    have hk : (Int64.ofInt n).toInt = n := Int64.toInt_ofInt_of_le hlow hhigh
    exact ⟨.ofInt n, (int64?_eq_some_iff hq).mpr (by rwa [hk]), hk⟩

/-- Numbers of one value are taken for the same integer, if for any. -/
theorem int64?_of_alike (hv : v.rational? = some q) (hvw : v.Alike w) :
    v.int64? = w.int64? := by
  cases hvw with
  | @number _ _ r left right =>
    cases left.symm.trans hv
    exact Option.ext fun n => (int64?_eq_some_iff left).trans (int64?_eq_some_iff right).symm
  | _ => cases hv

end Value

/-- A number is taken for an integer exactly if that is its value, and within 64 bits. Every
integer within 64 bits is taken for itself when it has been printed, in either form, and read
back. -/
theorem integers_exact :
    (∀ (v : Value) (q : ℚ), v.rational? = some q → ∀ n : Int,
      v.int64?.map Int64.toInt = some n ↔ q = n ∧ -2 ^ 63 ≤ n ∧ n < 2 ^ 63) ∧
    (∀ n : Int64, ∀ text ∈ [(Value.long n).lines, (Value.long n).line],
      ∀ (σ : Type) (file : Option String) (st : σ),
        ∃ w, (evaluate .simple false ⟨text.toList, file⟩ st).1 = .ok w ∧
          w.int64? = some n) := by
  refine ⟨fun v q hq n => Value.int64?_toInt_eq_some_iff hq, ?_⟩
  intro n text htext σ file st
  obtain ⟨hline, hlines⟩ := Value.printed_spelled (.long n)
  refine ⟨(Value.long n).tree.value false, ?_,
    (Value.int64?_of_alike rfl (Value.alike_tree (.long n))).symm⟩
  simp only [List.mem_cons, List.not_mem_nil, or_false] at htext
  rcases htext with rfl | rfl
  · exact evaluate_spelled hlines file st
  · exact evaluate_spelled hline file st

/-- The least of the integers, as it is and with a fraction digit. -/
theorem integers_exact_least :
    ((Value.bigDecimal ⟨-92233720368547758080, 1⟩).rational? =
        some ((-9223372036854775808 : ℤ) : ℚ) ∧
      (Value.bigDecimal ⟨-92233720368547758080, 1⟩).int64?.map Int64.toInt =
        some (-9223372036854775808)) ∧
    ∃ w, (evaluate .simple false ⟨(Value.long Int64.minValue).lines.toList, none⟩ ()).1 =
        .ok w ∧ w.int64? = some Int64.minValue := by
  have hvalue : (Value.bigDecimal ⟨-92233720368547758080, 1⟩).rational? =
      some ((-9223372036854775808 : ℤ) : ℚ) := by
    norm_num [Value.rational?, BigDecimal.toRat]
  exact ⟨⟨hvalue, (integers_exact.1 _ _ hvalue _).mpr ⟨rfl, by decide, by decide⟩⟩,
    integers_exact.2 Int64.minValue _ (by simp) Unit none ()⟩

end Cjson
