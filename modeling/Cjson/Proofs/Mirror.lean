import Cjson.Proofs.Forward
import Cjson.Scan.Separator
import Cjson.Scan.Skim

namespace Cjson

namespace Action

variable {ε ε' τ τ' α β γ χ : Type}

/-- From corresponding states `x` and `y` give the same, or fail with corresponding errors,
and where they end corresponds again. -/
def Mirrors (image : ε' → ε) (R : τ → τ' → Prop) (x : Action ε τ α) (y : Action ε' τ' α)
    (t : τ) (t' : τ') : Prop :=
  ∃ r t₁ t₁', x t = (Except.mapError image r, t₁) ∧ y t' = (r, t₁') ∧ R t₁ t₁'

section Mirrors

variable {image : ε' → ε} {R : τ → τ' → Prop} {x : Action ε τ α} {y : Action ε' τ' α} {t : τ}
  {t' : τ'}

theorem mirrors_pure (h : R t t') (a : α) :
    Mirrors image R (pure a : Action ε τ α) (pure a) t t' :=
  ⟨.ok a, t, t', rfl, rfl, h⟩

theorem mirrors_throw (h : R t t') (e : ε') :
    Mirrors image R (throw (image e) : Action ε τ α) (throw e) t t' :=
  ⟨.error e, t, t', rfl, rfl, h⟩

theorem Mirrors.bind {f : α → Action ε τ β} {g : α → Action ε' τ' β}
    (h : Mirrors image R x y t t')
    (hf : ∀ a t₁ t₁', y t' = (.ok a, t₁') → R t₁ t₁' → Mirrors image R (f a) (g a) t₁ t₁') :
    Mirrors image R (x >>= f) (y >>= g) t t' := by
  obtain ⟨r, t₁, t₁', hx, hy, hR⟩ := h
  cases r with
  | error e => exact ⟨.error e, t₁, t₁', bind_error hx, bind_error hy, hR⟩
  | ok a =>
    obtain ⟨r, t₂, t₂', hfa, hga, hR'⟩ := hf a t₁ t₁' hy hR
    refine ⟨r, t₂, t₂', ?_, ?_, hR'⟩
    · rw [bind_ok hx, hfa]
    · rw [bind_ok hy, hga]

theorem Mirrors.map (h : Mirrors image R x y t t') (f : α → β) :
    Mirrors image R (f <$> x) (f <$> y) t t' := by
  obtain ⟨r, t₁, t₁', hx, hy, hR⟩ := h
  refine ⟨r.map f, t₁, t₁', ?_, ?_, hR⟩
  · rw [map_apply, hx]
    cases r <;> rfl
  · rw [map_apply, hy]
    cases r <;> rfl

/-- Loops go alike if their steps do. -/
theorem mirrors_loop (stuck : ε') {step : β → Action ε τ (Turn β γ)}
    {step' : β → Action ε' τ' (Turn β γ)}
    (hstep : ∀ b t t', R t t' → Mirrors image R (step b) (step' b) t t') (room : List χ) (b : β)
    (h : R t t') :
    Mirrors image R (loop (image stuck) step room b) (loop stuck step' room b) t t' := by
  induction room generalizing b t t' with
  | nil =>
    apply (hstep b t t' h).bind
    intro turn t₁ t₁' _ h₁
    cases turn with
    | again _ => exact mirrors_throw h₁ stuck
    | done c => exact mirrors_pure h₁ c
  | cons _ room ih =>
    apply (hstep b t t' h).bind
    intro turn t₁ t₁' _ h₁
    cases turn with
    | again next => exact ih next h₁
    | done c => exact mirrors_pure h₁ c

theorem mirrors_untilDone {content : τ → List χ} {content' : τ' → List χ} (stuck : ε')
    {step : β → Action ε τ (Turn β γ)} {step' : β → Action ε' τ' (Turn β γ)}
    (hcontent : ∀ t t', R t t' → content t = content' t')
    (hstep : ∀ b t t', R t t' → Mirrors image R (step b) (step' b) t t') (b : β) (h : R t t') :
    Mirrors image R (untilDone content (image stuck) step b)
      (untilDone content' stuck step' b) t t' := by
  have hloop := mirrors_loop stuck hstep (content' t') b h
  rw [← hcontent t t' h] at hloop
  obtain ⟨r, t₁, t₁', hx, hy, hR⟩ := hloop
  refine ⟨r, t₁, t₁', hx, ?_, hR⟩
  rw [hcontent t t' h] at hy
  exact hy

end Mirrors
end Action

/-- The cursor, with its text `n` bytes further on. -/
def Cursor.moved (n : Nat) (k : Cursor) : Cursor :=
  ⟨k.position + n, k.rest⟩

def Fault.moved (n : Nat) : Fault → Fault
  | problem p offset => .problem p (offset + n)
  | internal message => .internal message

@[simp] theorem Cursor.moved_position (n : Nat) (k : Cursor) :
    (k.moved n).position = k.position + n := rfl

@[simp] theorem Cursor.moved_rest (n : Nat) (k : Cursor) : (k.moved n).rest = k.rest := rfl

@[simp] theorem Cursor.moved_zero (k : Cursor) : k.moved 0 = k := rfl

theorem Cursor.next_moved (n : Nat) (k : Cursor) : (k.moved n).next = k.next.moved n := by
  obtain ⟨p, _ | ⟨c, rest⟩⟩ := k
  · rfl
  · simp only [Cursor.moved, Cursor.next, Nat.add_right_comm]

/-- A cursor that has passed something is behind a byte. -/
theorem Cursor.next_position_pos {k : Cursor} (h : k.rest ≠ []) : 0 < k.next.position := by
  obtain ⟨p, _ | ⟨c, rest⟩⟩ := k
  · exact absurd rfl h
  · have := c.utf8Size_pos
    simp only [Cursor.next]
    omega

namespace Scan

open Cjson.Action

variable {n : Nat} {k : Cursor} {α β : Type}

/-- With its text `n` bytes further on, the scan goes alike. -/
abbrev Mirrored (n : Nat) (x y : Scan α) (k : Cursor) : Prop :=
  Mirrors (Fault.moved n) (fun k k' => k = k'.moved n) x y (k.moved n) k

theorem mirrored_of_eq {x y : Scan α}
    (h : x (k.moved n) = ((y k).1.mapError (Fault.moved n), (y k).2.moved n)) :
    Mirrored n x y k :=
  ⟨(y k).1, _, (y k).2, h, rfl, rfl⟩

theorem mirrored_pure (a : α) : Mirrored n (pure a) (pure a) k :=
  mirrored_of_eq rfl

theorem mirrored_fail (p : Problem) (offset : Nat) :
    Mirrored n (fail p (offset + n) : Scan α) (fail p offset) k :=
  mirrored_of_eq rfl

theorem Mirrored.bind {x y : Scan α} {f g : α → Scan β} (h : Mirrored n x y k)
    (hf : ∀ a k₁, y k = (.ok a, k₁) → Mirrored n (f a) (g a) k₁) :
    Mirrored n (x >>= f) (y >>= g) k := by
  refine Mirrors.bind h ?_
  rintro a _ k₁ hy rfl
  exact hf a k₁ hy

/-- A position is the one thing that shows where the text stands. -/
theorem mirrored_position_bind {f g : Nat → Scan β}
    (h : Mirrored n (f (k.position + n)) (g k.position) k) :
    Mirrored n (position >>= f) (position >>= g) k :=
  h

theorem mirrored_rest : Mirrored n rest rest k :=
  mirrored_of_eq rfl

theorem mirrored_peek : Mirrored n peek peek k :=
  mirrored_of_eq rfl

theorem mirrored_advance : Mirrored n advance advance k :=
  mirrored_of_eq (Prod.ext rfl (Cursor.next_moved n k))

theorem mirrored_set (k' : Cursor) : Mirrored n (set (k'.moved n)) (set k') k :=
  mirrored_of_eq rfl

theorem mirrored_takeWhile (p : Char → Bool) : Mirrored n (takeWhile p) (takeWhile p) k :=
  mirrored_of_eq (by simp only [takeWhile, Cursor.moved, Nat.add_right_comm]; rfl)

theorem mirrored_takeUpTo (m : Nat) (p : Char → Bool) :
    Mirrored n (takeUpTo m p) (takeUpTo m p) k :=
  mirrored_of_eq (by simp only [takeUpTo, Cursor.moved, Nat.add_right_comm]; rfl)

theorem Mirrored.untilDone {stuck : String} {step step' : β → Scan (Turn β α)}
    (h : ∀ b k, Mirrored n (step b) (step' b) k) (b : β) :
    Mirrored n (Action.untilDone Cursor.rest (.internal stuck) step b)
      (Action.untilDone Cursor.rest (.internal stuck) step' b) k := by
  refine mirrors_untilDone (Fault.internal stuck) ?_ ?_ b rfl
  · rintro _ k rfl
    rfl
  · rintro b _ k rfl
    exact h b k

section Gap

def Within.moved (n : Nat) : Within → Within
  | gap => .gap
  | lineComment => .lineComment
  | blockComment opened => .blockComment (opened.moved n)

theorem gapFrom_moved (n : Nat) (w : Within) (seen : Bool) (p : Nat) (s : List Char) :
    gapFrom (w.moved n) seen (p + n) s =
      ((gapFrom w seen p s).1.mapError (Fault.moved n), (gapFrom w seen p s).2.moved n) := by
  fun_induction gapFrom w seen p s with
  | case1 | case6 | case9 => rfl
  | case2 seen p rest ih | case3 seen p rest ih =>
    rw [← ih, Nat.add_right_comm]
    rfl
  | case4 seen p c rest hline hblock hblank ih =>
    rw [← ih, Nat.add_right_comm, Within.moved, gapFrom, if_pos hblank]
    · exact hline
    · exact hblock
  | case5 seen p c rest hline hblock hblank =>
    rw [Within.moved, gapFrom, if_neg hblank]
    · rfl
    · exact hline
    · exact hblock
  | case7 seen p c rest hbreak ih =>
    simp only [Within.moved] at ih ⊢
    rw [← ih, Nat.add_right_comm, gapFrom, if_pos hbreak]
  | case8 seen p c rest hbreak ih =>
    rw [← ih, Nat.add_right_comm, Within.moved, gapFrom, if_neg hbreak]
  | case10 opened seen p rest ih =>
    rw [← ih, Nat.add_right_comm]
    rfl
  | case11 opened seen p c rest hclosing ih =>
    rw [← ih, Nat.add_right_comm, Within.moved, gapFrom]
    exact hclosing

theorem mirrored_gap : Mirrored n gap gap k :=
  mirrored_of_eq (gapFrom_moved n .gap false k.position k.rest)

end Gap

theorem mirrored_get_bind {f g : Cursor → Scan β} (h : Mirrored n (f (k.moved n)) (g k) k) :
    Mirrored n (get >>= f) (get >>= g) k :=
  h

theorem mirrored_ite {p : Prop} [Decidable p] {x x' y y' : Scan α}
    (hx : p → Mirrored n x x' k) (hy : ¬p → Mirrored n y y' k) :
    Mirrored n (if p then x else y) (if p then x' else y') k := by
  split
  · exact hx ‹_›
  · exact hy ‹_›

/-- A scan that has failed does not go on. -/
theorem mirrored_fail_bind (p : Problem) (offset : Nat) (f g : α → Scan β) :
    Mirrored n (fail p (offset + n) >>= f) (fail p offset >>= g) k :=
  mirrored_of_eq rfl

theorem mirrored_word : Mirrored n word word k := by
  refine mirrored_position_bind ?_
  refine (mirrored_takeUpTo 1 _).bind fun sign k₁ _ => ?_
  refine (mirrored_takeWhile _).bind fun letters k₂ _ => ?_
  refine mirrored_ite ?_ ?_
  · intro _
    exact mirrored_fail_bind _ _ _ _
  · intro _
    exact mirrored_pure _

theorem mirrored_wordOrCall : Mirrored n wordOrCall wordOrCall k := by
  refine mirrored_word.bind fun w k₁ _ => ?_
  refine mirrored_get_bind ?_
  refine mirrored_gap.bind fun _ k₂ _ => ?_
  refine mirrored_peek.bind fun c k₃ _ => ?_
  refine mirrored_ite ?_ ?_
  · intro _
    exact mirrored_advance.bind fun _ _ _ => mirrored_pure _
  · intro _
    exact (mirrored_set k₁).bind fun _ _ _ => mirrored_pure _

section Literals

variable (start : Nat)

theorem mirrored_hexEscape : Mirrored n (hexEscape (start + n)) (hexEscape start) k := by
  refine (mirrored_takeUpTo 4 _).bind fun digits k₁ _ => ?_
  refine mirrored_ite ?_ ?_
  · intro _
    exact mirrored_fail_bind _ _ _ _
  · intro _
    refine mirrored_ite ?_ ?_
    · intro _
      exact mirrored_fail_bind _ _ _ _
    · intro _
      exact mirrored_pure _

theorem mirrored_lineContinuation :
    Mirrored n (lineContinuation (start + n)) (lineContinuation start) k := by
  refine mirrored_get_bind ?_
  refine (mirrored_takeWhile _).bind fun _ k₁ _ => ?_
  refine mirrored_rest.bind fun r k₂ _ => ?_
  have hindent : ∀ k, Mirrored n (do let _ ← takeWhile isIndent : Scan Unit)
      (do let _ ← takeWhile isIndent) k :=
    fun k => (mirrored_takeWhile _).bind fun _ _ _ => mirrored_pure _
  have hblank : ∀ f g : Unit → Scan Unit,
      Mirrored n (set (k.moved n).next >>= fun _ => fail .blankEscape (start + n) >>= f)
        (set k.next >>= fun _ => fail .blankEscape start >>= g) k₂ := by
    intro f g
    rw [Cursor.next_moved]
    exact (mirrored_set _).bind fun _ _ _ => mirrored_fail_bind _ _ _ _
  split
  · exact mirrored_advance.bind fun _ _ _ => mirrored_advance.bind fun _ k _ => hindent k
  · refine mirrored_ite ?_ ?_
    · intro _
      exact mirrored_advance.bind fun _ k _ => hindent k
    · intro _
      exact hblank _ _
  · exact hblank _ _

theorem mirrored_escape (c : Char) : Mirrored n (escape c) (escape c) k := by
  refine mirrored_position_bind ?_
  refine mirrored_advance.bind fun _ k₁ _ => ?_
  refine mirrored_ite ?_ ?_
  · intro _
    exact (mirrored_lineContinuation _).bind fun _ _ _ => mirrored_pure _
  · intro _
    refine mirrored_advance.bind fun _ k₂ _ => ?_
    split
    · exact mirrored_pure _
    · refine mirrored_ite ?_ ?_
      · intro _
        exact (mirrored_hexEscape _).bind fun _ _ _ => mirrored_pure _
      · intro _
        exact mirrored_fail _ _

theorem mirrored_piece (q : Char) : Mirrored n (piece q (start + n)) (piece q start) k := by
  refine mirrored_rest.bind fun r k₁ _ => ?_
  split
  · exact mirrored_fail _ _
  · exact mirrored_fail _ _
  · exact mirrored_escape _
  · exact mirrored_advance.bind fun _ _ _ => mirrored_pure _

theorem mirrored_quoted (q : Char) : Mirrored n (quoted q) (quoted q) k := by
  refine mirrored_position_bind ?_
  refine mirrored_advance.bind fun _ k₁ _ => ?_
  refine Mirrored.bind (Mirrored.untilDone ?_ []) fun _ _ _ => mirrored_pure _
  intro read k
  refine (mirrored_piece _ q).bind fun piece _ _ => ?_
  cases piece with
  | closing | nothing | char _ => exact mirrored_pure _

theorem mirrored_raw (q : Char) : Mirrored n (raw q) (raw q) k := by
  refine mirrored_position_bind ?_
  refine mirrored_advance.bind fun _ k₁ _ => ?_
  refine mirrored_advance.bind fun _ k₂ _ => ?_
  refine (mirrored_takeWhile _).bind fun content k₃ _ => ?_
  refine mirrored_peek.bind fun c k₄ _ => ?_
  refine mirrored_ite ?_ ?_
  · intro _
    exact mirrored_fail_bind _ _ _ _
  · intro _
    exact mirrored_advance.bind fun _ _ _ => mirrored_pure _

end Literals

theorem mirrored_separator (terminator : Option Char) (noColon : Option ColonFault) :
    Mirrored n (separator terminator noColon) (separator terminator noColon) k := by
  refine mirrored_position_bind ?_
  refine mirrored_gap.bind fun lineBreak k₁ _ => ?_
  refine mirrored_position_bind ?_
  refine mirrored_peek.bind fun c k₂ _ => ?_
  have hskip : ∀ d, Mirrored n (do advance; let _ ← gap; return d : Scan Separator)
      (do advance; let _ ← gap; return d) k₂ :=
    fun d => mirrored_advance.bind fun _ _ _ => mirrored_gap.bind fun _ _ _ => mirrored_pure _
  split
  · exact mirrored_pure _
  · exact mirrored_fail _ _
  · exact hskip _
  · split
    · exact mirrored_fail _ _
    · exact hskip _
  · refine mirrored_ite (fun _ => mirrored_pure _) fun _ => ?_
    refine mirrored_ite (fun _ => mirrored_fail _ _) fun _ => ?_
    refine mirrored_ite (fun _ => mirrored_fail _ _) fun _ => ?_
    refine mirrored_ite (fun _ => mirrored_pure _) fun _ => ?_
    -- The position behind the gap is compared with the one in front of it.
    simp only [Nat.add_right_cancel_iff]
    exact mirrored_ite (fun _ => mirrored_fail _ _) fun _ => mirrored_fail _ _

section Skims

theorem skimQuotedFrom_moved (q : Char) (start p : Nat) (s : List Char) :
    skimQuotedFrom q (start + n) (p + n) s =
      ((skimQuotedFrom q start p s).1.mapError (Fault.moved n),
        (skimQuotedFrom q start p s).2.moved n) := by
  fun_induction skimQuotedFrom q start p s with
  | case1 => rfl
  | case2 p c rest ih =>
    rw [← ih, skimQuotedFrom, Nat.add_right_comm p n, Nat.add_right_comm (p + 1)]
  | case3 p rest hescape =>
    rw [skimQuotedFrom, if_pos rfl, Nat.add_right_comm]
    · rfl
    · exact hescape
  | case4 p c rest hescape hc ih =>
    rw [← ih, skimQuotedFrom, if_neg hc, Nat.add_right_comm]
    exact hescape

theorem mirrored_skimQuoted (q : Char) : Mirrored n (skimQuoted q) (skimQuoted q) k := by
  refine mirrored_position_bind ?_
  refine mirrored_advance.bind fun _ k₁ _ => ?_
  exact mirrored_of_eq (skimQuotedFrom_moved q _ _ _)

/-- The error that the end of the text makes is located at the bracket. -/
theorem mirrored_skimListing {expression : Scan Unit}
    (h : ∀ k, Mirrored n expression expression k) (terminator : Char) (hk : 0 < k.position) :
    Mirrored n (skimListing expression terminator) (skimListing expression terminator) k := by
  refine mirrored_position_bind ?_
  refine mirrored_gap.bind fun _ k₁ _ => ?_
  refine Mirrored.untilDone ?_ ()
  intro _ k₂
  refine mirrored_peek.bind fun c k₃ _ => ?_
  have hstart : k.position + n - 1 = k.position - 1 + n := by omega
  have hagain : ∀ k, Mirrored n (do let _ ← gap; return .again () : Scan (Turn Unit Unit))
      (do let _ ← gap; return .again ()) k :=
    fun k => mirrored_gap.bind fun _ _ _ => mirrored_pure _
  split
  · rw [hstart]
    exact mirrored_fail _ _
  · refine mirrored_ite (fun _ => mirrored_pure _) fun _ => ?_
    refine mirrored_ite (fun _ => ?_) fun _ => ?_
    · exact mirrored_advance.bind fun _ k _ => hagain k
    · exact (h k₃).bind fun _ k _ => hagain k

/-- Behind the parenthesis that opens the arguments of a call is not the start of a text. -/
theorem wordOrCall_position_pos {k k' : Cursor} {w : List Char}
    (h : wordOrCall k = (.ok (w, true), k')) : 0 < k'.position := by
  obtain ⟨-, b, g, -, hk⟩ := of_wordOrCall h
  have := hk.position
  simp only [Text.size_append, Text.size_cons] at this
  have := Char.utf8Size_pos '('
  omega

theorem mirrored_skim (room : List Char) : ∀ k, Mirrored n (skim room) (skim room) k := by
  induction room with
  | nil => exact fun k => mirrored_of_eq rfl
  | cons _ room ih =>
    intro k
    refine mirrored_rest.bind fun r k₁ hr => ?_
    obtain ⟨rfl, rfl⟩ := pure_eq_ok.mp hr
    split
    · exact mirrored_of_eq rfl
    · exact Mirrors.map (mirrored_raw _) _
    · exact Mirrors.map (mirrored_raw _) _
    · rename_i hr
      refine mirrored_ite (fun _ => mirrored_skimQuoted _) fun _ => ?_
      split
      · refine mirrored_advance.bind fun _ k₂ hadvance => ?_
        cases hadvance
        have hpos : 0 < k.next.position := Cursor.next_position_pos (hr ▸ List.cons_ne_nil _ _)
        exact (mirrored_skimListing ih _ hpos).bind fun _ _ _ => mirrored_advance
      · refine mirrored_wordOrCall.bind fun r k₂ hword => ?_
        obtain ⟨w, called⟩ := r
        refine mirrored_ite (fun hcalled => ?_) fun _ => mirrored_pure _
        obtain rfl : called = true := hcalled
        exact (mirrored_skimListing ih _ (wordOrCall_position_pos hword)).bind
          fun _ _ _ => mirrored_advance

theorem mirrored_skimExpression : Mirrored n skimExpression skimExpression k :=
  mirrored_skim k.rest k

end Skims

end Scan
end Cjson
