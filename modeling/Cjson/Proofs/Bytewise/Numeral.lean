import Cjson.Proofs.Bytewise.Follows
import Cjson.Proofs.Numeral

namespace Cjson.Bytewise

open Cjson.Action

theorem slice_append (s t u : List Char) (stop p : Nat) :
    slice ⟨s ++ (t ++ u), stop⟩ (Text.size s) (Text.size s + Text.size t) p = (.ok t, p) := by
  rw [slice, Text.slice?_append]
  rfl

/-- What is behind the first character of a text, if that is one byte. -/
theorem slice_tail {c : Char} (hc : c.utf8Size = 1) (s t : List Char) (p : Nat) :
    slice (.whole (s ++ c :: t)) (Text.size s + 1) (Text.size (s ++ c :: t)) p = (.ok t, p) := by
  have h := slice_append (s ++ [c]) t [] (Text.size (s ++ c :: t)) p
  simp only [List.append_assoc, List.append_nil, List.singleton_append, Text.size_append,
    Text.size_cons, Text.size_nil, hc, Nat.add_zero] at h
  rw [Extent.whole, Text.size_append, Text.size_cons, hc, ← Nat.add_assoc]
  exact h

theorem sign_apply (s : List Char) (p : Nat) : sign s p = (.ok (Numeral.sign s), p) := by
  unfold Numeral.sign
  split
  · rename_i rest
    exact bind_ok (slice_tail rfl [] rest p)
  · rename_i rest
    exact bind_ok (slice_tail rfl [] rest p)
  · rename_i hminus hplus
    simp only [sign]
    rfl

theorem splitFirst_apply {q : Char → Bool} (hq : ∀ c, q c = true → c.utf8Size = 1)
    (s : List Char) (p : Nat) : splitFirst q s p = (.ok (Numeral.splitFirst q s), p) := by
  cases hn : Text.findWhere? q s with
  | some n =>
    obtain ⟨before, c, behind, rfl, hbefore, hc, rfl⟩ := Text.findWhere?_eq_some hn
    have hfront := slice_append [] before (c :: behind) (Text.size (before ++ c :: behind)) p
    rw [Text.size_nil, Nat.zero_add] at hfront
    simp only [splitFirst, hn]
    rw [Numeral.splitFirst_append hbefore hc]
    refine (bind_ok hfront).trans ?_
    rw [bind_ok (slice_tail (hq c hc) before behind p)]
    rfl
  | none =>
    simp only [splitFirst, hn]
    rw [Numeral.splitFirst_none (Text.findWhere?_eq_none hn)]
    rfl

/-- A number is cut at its sign and its exponent, which are single bytes. -/
theorem numeral_apply (s : List Char) (p : Nat) :
    numeral s p = (.ok (Numeral.read? s), p) := by
  have hmark : ∀ c : Char, (c == 'e' || c == 'E') = true → c.utf8Size = 1 := by
    intro c hc
    rcases Bool.or_eq_true_iff.mp hc with he | he
    · rw [beq_iff_eq.mp he]
      rfl
    · rw [beq_iff_eq.mp he]
      rfl
  rw [numeral, bind_ok (sign_apply s p)]
  dsimp only
  rw [bind_ok (splitFirst_apply hmark _ p)]
  rfl

end Cjson.Bytewise
