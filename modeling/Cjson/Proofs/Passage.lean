import Cjson.Proofs.Outcome
import Cjson.Scan

namespace Cjson

namespace Text

@[simp] theorem takeBytes_append (s t : List Char) : takeBytes (size s) (s ++ t) = s := by
  induction s with
  | nil =>
    cases t with
    | nil => rfl
    | cons c t => simp [takeBytes, Nat.not_le.mpr c.utf8Size_pos]
  | cons c s ih => simp [takeBytes, ih]

@[simp] theorem dropBytes_append (s t : List Char) : dropBytes (size s) (s ++ t) = t := by
  induction s with
  | nil =>
    cases t with
    | nil => rfl
    | cons c t => simp [dropBytes, Nat.not_le.mpr c.utf8Size_pos]
  | cons c s ih => simp [dropBytes, ih]

end Text

/-- The text `s` is between the two cursors. -/
structure Cursor.Passes (k : Cursor) (s : List Char) (k' : Cursor) : Prop where
  rest : k.rest = s ++ k'.rest
  position : k'.position = k.position + Text.size s

/-- The cursor stands in the text of the source. -/
def Cursor.In (source : Source) (k : Cursor) : Prop :=
  ∃ before behind, source.text = before ++ k.rest ++ behind ∧ k.position = Text.size before

/-- The text does not begin with a character that has `p`. -/
def Text.Stops (p : Char → Bool) (s : List Char) : Prop :=
  ∀ c, s.head? = some c → p c = false

namespace Cursor

theorem Passes.refl (k : Cursor) : k.Passes [] k :=
  ⟨by simp, by simp⟩

theorem Passes.trans {k k' k'' : Cursor} {s s' : List Char} (h : k.Passes s k')
    (h' : k'.Passes s' k'') : k.Passes (s ++ s') k'' := by
  refine ⟨by rw [h.rest, h'.rest, List.append_assoc], ?_⟩
  rw [h'.position, h.position, Text.size_append, Nat.add_assoc]

theorem Passes.split {k k'' : Cursor} {s s' : List Char} (h : k.Passes (s ++ s') k'') :
    ∃ k', k.Passes s k' ∧ k'.Passes s' k'' := by
  refine ⟨⟨k.position + Text.size s, s' ++ k''.rest⟩, ⟨?_, rfl⟩, ⟨rfl, ?_⟩⟩
  · rw [h.rest, List.append_assoc]
  · rw [h.position, Text.size_append, Nat.add_assoc]

theorem Passes.unique {k k₁ k₂ : Cursor} {s : List Char} (h₁ : k.Passes s k₁)
    (h₂ : k.Passes s k₂) : k₁ = k₂ := by
  have hr : k₁.rest = k₂.rest := List.append_cancel_left (h₁.rest.symm.trans h₂.rest)
  have hp : k₁.position = k₂.position := h₁.position.trans h₂.position.symm
  obtain ⟨p, r⟩ := k₁
  obtain ⟨p', r'⟩ := k₂
  exact congr (congrArg Cursor.mk hp) hr

theorem Passes.length {k k' : Cursor} {s : List Char} (h : k.Passes s k') :
    k.rest.length = s.length + k'.rest.length := by
  rw [h.rest, List.length_append]

theorem next_of_rest {k : Cursor} {c : Char} {s : List Char} (h : k.rest = c :: s) :
    k.Passes [c] k.next ∧ k.next.rest = s := by
  obtain ⟨p, r⟩ := k
  cases h
  exact ⟨⟨rfl, rfl⟩, rfl⟩

/-- The first character of what is passed is the next one. -/
theorem Passes.next {k k' : Cursor} {c : Char} {s : List Char}
    (h : k.Passes (c :: s) k') : k.Passes [c] k.next ∧ k.next.Passes s k' := by
  obtain ⟨hc, hs⟩ := next_of_rest h.rest
  refine ⟨hc, hs, ?_⟩
  rw [h.position, hc.position, Nat.add_assoc]
  rfl

theorem Passes.head {k k' : Cursor} {c : Char} {s : List Char} (h : k.Passes (c :: s) k') :
    k.rest.head? = some c := by
  rw [h.rest]
  rfl

theorem In.ofSource (source : Source) : (Cursor.ofSource source).In source :=
  ⟨[], [], by simp [Cursor.ofSource], rfl⟩

theorem Passes.In {source : Source} {k k' : Cursor} {s : List Char} (h : k.Passes s k')
    (hk : k.In source) : k'.In source := by
  obtain ⟨before, behind, htext, hp⟩ := hk
  refine ⟨before ++ s, behind, ?_, ?_⟩
  · simp only [htext, h.rest, List.append_assoc]
  · rw [h.position, hp, Text.size_append]

/-- The fragment between two cursors is the span with the text that is between them. -/
theorem Passes.ofOffsets {source : Source} {k k' : Cursor} {s : List Char}
    (h : k.Passes s k') (hk : k.In source) :
    (Fragment.ofOffsets source k.position k'.position).text = s ∧
      (Cursor.ofFragment (.ofOffsets source k.position k'.position)).In source := by
  obtain ⟨before, behind, htext, hp⟩ := hk
  have htext : source.text = before ++ (s ++ (k'.rest ++ behind)) := by
    simp only [htext, h.rest, List.append_assoc]
  have hp' : k'.position = Text.size (before ++ s) := by
    rw [h.position, hp, Text.size_append]
  have hcut : Text.takeBytes (Text.size (before ++ s)) source.text = before ++ s := by
    rw [htext, ← List.append_assoc, Text.takeBytes_append]
  have hstart : (Fragment.ofOffsets source k.position k'.position).start = Text.size before := by
    have hmin : min (Text.size before) (Text.size (before ++ s)) = Text.size before := by
      rw [Text.size_append]
      omega
    simp only [Fragment.ofOffsets, hp, hp', hcut, hmin]
    rw [htext, Text.takeBytes_append]
  have hstop : (Fragment.ofOffsets source k.position k'.position).stop =
      Text.size (before ++ s) := by
    simp only [Fragment.ofOffsets, hp', hcut]
  have hfragment : (Fragment.ofOffsets source k.position k'.position).text = s := by
    have hlength : Text.size (before ++ s) - Text.size before = Text.size s := by
      rw [Text.size_append]
      omega
    have hsource : (Fragment.ofOffsets source k.position k'.position).source = source := rfl
    rw [Fragment.text, hstart, hstop, hlength, hsource, htext, Text.dropBytes_append,
      Text.takeBytes_append]
  refine ⟨hfragment, before, k'.rest ++ behind, ?_, hstart⟩
  simp only [Cursor.ofFragment, hfragment, htext, List.append_assoc]

end Cursor

namespace Scan

open Cursor Cjson.Action

@[simp] theorem position_apply (k : Cursor) : position k = (.ok k.position, k) := rfl

@[simp] theorem rest_apply (k : Cursor) : rest k = (.ok k.rest, k) := rfl

@[simp] theorem peek_apply (k : Cursor) : peek k = (.ok k.rest.head?, k) := rfl

@[simp] theorem advance_apply (k : Cursor) : advance k = (.ok (), k.next) := rfl

theorem fail_ne_ok {α : Type} {p : Problem} {offset : Nat} {k k' : Cursor} {a : α} :
    (fail p offset : Scan α) k ≠ (.ok a, k') := by
  intro h
  cases h

theorem takeWhile_eq_ok {p : Char → Bool} {k k' : Cursor} {d : List Char} :
    takeWhile p k = (.ok d, k') ↔
      k.Passes d k' ∧ (∀ c ∈ d, p c = true) ∧ Text.Stops p k'.rest := by
  constructor
  · intro h
    cases h
    refine ⟨⟨by simp [List.takeWhile_append_dropWhile], rfl⟩, ?_, ?_⟩
    · exact List.all_eq_true.mp List.all_takeWhile
    · intro c hc
      have := List.head?_dropWhile_not p k.rest
      simp only [hc] at this
      simpa using this
  · intro h
    obtain ⟨hk, hd, hr⟩ := h
    have ht : k.rest.takeWhile p = d := by
      rw [hk.rest, List.takeWhile_append_of_pos hd]
      cases hc : k'.rest with
      | nil => simp
      | cons c s => simp [hr c (by simp [hc])]
    have hk' : k.Passes d ⟨k.position + Text.size d, k.rest.dropWhile p⟩ := by
      refine ⟨?_, rfl⟩
      rw [← ht]
      exact (List.takeWhile_append_dropWhile).symm
    rw [takeWhile, ht, hk'.unique hk]

theorem takeUpTo_eq_ok {n : Nat} {p : Char → Bool} {k k' : Cursor} {d : List Char} :
    takeUpTo n p k = (.ok d, k') ↔
      k.Passes d k' ∧ (∀ c ∈ d, p c = true) ∧ d.length ≤ n ∧
        (d.length < n → Text.Stops p k'.rest) := by
  constructor
  · intro h
    cases h
    have hd : (k.rest.take n).takeWhile p <+: k.rest :=
      (List.takeWhile_prefix p).trans (List.take_prefix n k.rest)
    refine ⟨⟨(List.prefix_iff_eq_append.mp hd).symm, rfl⟩,
      List.all_eq_true.mp List.all_takeWhile, ?_, ?_⟩
    · exact Nat.le_trans (List.takeWhile_prefix p).length_le (List.length_take_le n k.rest)
    · intro hlt c hc
      have hw : (k.rest.take n).dropWhile p =
          (k.rest.drop ((k.rest.take n).takeWhile p).length).take
            (n - ((k.rest.take n).takeWhile p).length) := by
        rw [← List.drop_take]
        exact List.append_cancel_left ((List.takeWhile_append_dropWhile).trans
          (List.prefix_iff_eq_append.mp (List.takeWhile_prefix p)).symm)
      have hne : n - ((k.rest.take n).takeWhile p).length ≠ 0 := by omega
      have := List.head?_dropWhile_not p (k.rest.take n)
      rw [hw, List.head?_take, if_neg hne] at this
      simp only [hc] at this
      simpa using this
  · intro h
    obtain ⟨hk, hd, hn, hr⟩ := h
    have ht : (k.rest.take n).takeWhile p = d := by
      rw [hk.rest, List.take_append, List.take_of_length_le hn,
        List.takeWhile_append_of_pos hd]
      rcases Nat.eq_or_lt_of_le hn with he | hlt
      · simp [he]
      · cases hc : k'.rest with
        | nil => simp
        | cons c s =>
          obtain ⟨m, hm⟩ : ∃ m, n - d.length = m + 1 := ⟨n - d.length - 1, by omega⟩
          rw [hm, List.take_succ_cons]
          simp [hr hlt c (by simp [hc])]
    have hk' : k.Passes d ⟨k.position + Text.size d, k.rest.drop d.length⟩ := by
      refine ⟨?_, rfl⟩
      rw [hk.rest, List.drop_left]
    rw [takeUpTo, ht, hk'.unique hk]

end Scan
end Cjson
