import Cjson.Proofs.Bytewise
import Cjson.Proofs.Course

namespace Cjson

open Cjson.Action Cursor

/-- The scan `x` over bytes does at `k` what the scan `y` does. It ends at a cursor that is
not in front of `k`, and if it fails, then with a problem at a cursor of the session. -/
inductive Follows (start : Cursor) {α : Type} (x : Bytewise α) (y : Scan α) (k : Cursor) : Prop
  | ok {a : α} {k' : Cursor} (scan : y k = (.ok a, k'))
      (bytes : x k.position = (.ok a, k'.position)) (reaches : k.Reaches k')
  | problem {p : Problem} {offset : Nat} {k' : Cursor}
      (scan : y k = (.error (.problem p offset), k'))
      (bytes : x k.position = (.error (.fault (.problem p offset)), k'.position))
      (reaches : k.Reaches k') (holds : start.Holds offset)

/-- A turn of a loop over bytes, where the loop is to do what `y` does. It is the last, or
it is left to the next turns to do what another scan does from there on. -/
inductive Turns (start : Cursor) {α β : Type} (R : β → Cursor → Scan α → Prop)
    (x : Bytewise (Turn β α)) (y : Scan α) (k : Cursor) : Prop
  | last {a : α} {k' : Cursor} (scan : y k = (.ok a, k'))
      (bytes : x k.position = (.ok (.done a), k'.position)) (reaches : k.Reaches k')
  | again {b : β} {y' : Scan α} {k' : Cursor} (scan : y k = y' k')
      (bytes : x k.position = (.ok (.again b), k'.position)) (reaches : k.Reaches k')
      (shorter : k'.rest.length < k.rest.length) (others : R b k' y')
  | problem {p : Problem} {offset : Nat} {k' : Cursor}
      (scan : y k = (.error (.problem p offset), k'))
      (bytes : x k.position = (.error (.fault (.problem p offset)), k'.position))
      (reaches : k.Reaches k') (holds : start.Holds offset)

section Follows

variable {start k k' : Cursor} {α β : Type} {x : Bytewise α} {y : Scan α}

/-- What comes of the scan over bytes is not a panic, nor is it any other defect. -/
theorem Follows.agrees (h : Follows start x y k) :
    x k.position = ((y k).1.mapError .fault, (y k).2.position) := by
  cases h with
  | ok scan bytes reaches =>
    rw [scan, bytes]
    rfl
  | problem scan bytes reaches holds =>
    rw [scan, bytes]
    rfl

theorem Follows.bind {f : α → Bytewise β} {g : α → Scan β} (h : Follows start x y k)
    (hf : ∀ a k', y k = (.ok a, k') → k.Reaches k' → Follows start (f a) (g a) k') :
    Follows start (x >>= f) (y >>= g) k := by
  cases h with
  | @ok a k₁ scan bytes reaches =>
    cases hf a k₁ scan reaches with
    | ok scan' bytes' reaches' =>
      exact .ok ((bind_ok scan).trans scan') ((bind_ok bytes).trans bytes')
        (reaches.trans reaches')
    | problem scan' bytes' reaches' holds =>
      exact .problem ((bind_ok scan).trans scan') ((bind_ok bytes).trans bytes')
        (reaches.trans reaches') holds
  | problem scan bytes reaches holds =>
    exact .problem (bind_error scan) (bind_error bytes) reaches holds

/-- The first steps of both lead to `k'`. -/
theorem Follows.steps {x' : Bytewise α} {y' : Scan α} (hx : x k.position = x' k'.position)
    (hy : y k = y' k') (hk : k.Reaches k') (h : Follows start x' y' k') :
    Follows start x y k := by
  cases h with
  | ok scan bytes reaches => exact .ok (hy.trans scan) (hx.trans bytes) (hk.trans reaches)
  | problem scan bytes reaches holds =>
    exact .problem (hy.trans scan) (hx.trans bytes) (hk.trans reaches) holds

theorem Turns.congr {R : β → Cursor → Scan α → Prop} {x x' : Bytewise (Turn β α)}
    (h : Turns start R x y k) (hx : x' k.position = x k.position) : Turns start R x' y k := by
  cases h with
  | last scan bytes reaches => exact .last scan (hx.trans bytes) reaches
  | again scan bytes reaches shorter others =>
    exact .again scan (hx.trans bytes) reaches shorter others
  | problem scan bytes reaches holds => exact .problem scan (hx.trans bytes) reaches holds

theorem follows_pure (a : α) : Follows start (pure a) (pure a) k :=
  .ok rfl rfl (.refl k)

theorem Follows.map (h : Follows start x y k) (f : α → β) :
    Follows start (f <$> x) (f <$> y) k := by
  rw [map_eq_pure_bind, map_eq_pure_bind]
  exact h.bind fun a _ _ _ => follows_pure (f a)

theorem follows_position : Follows start Bytewise.position Scan.position k :=
  .ok rfl rfl (.refl k)

theorem follows_fail (p : Problem) {offset : Nat} (holds : start.Holds offset) :
    Follows start (Bytewise.fail p offset : Bytewise α) (Scan.fail p offset) k :=
  .problem rfl rfl (.refl k) holds

theorem Follows.ite {p : Prop} [Decidable p] {x' : Bytewise α} {y' : Scan α}
    (h : p → Follows start x y k) (h' : ¬p → Follows start x' y' k) :
    Follows start (if p then x else x') (if p then y else y') k := by
  split
  · rename_i hp
    exact h hp
  · rename_i hp
    exact h' hp

end Follows

namespace Bytewise

section Extent

variable {e : Extent} {start k k' : Cursor} {s : List Char}

@[simp] theorem position_apply (p : Nat) : position p = (.ok p, p) := rfl

@[simp] theorem moveTo_apply (offset p : Nat) : moveTo offset p = (.ok (), offset) := rfl

@[simp] theorem move_apply (n p : Nat) : move n p = (.ok (), p + n) := rfl

theorem minus_apply {a b : Nat} (h : b ≤ a) (p : Nat) : minus a b p = (.ok (a - b), p) := by
  rw [minus, if_pos h]
  rfl

theorem peek_apply (h : e.Shows k) : peek e k.position = (.ok k.rest.head?, k.position) := by
  rw [peek, bind_ok (position_apply _), h.charAt?]
  rfl

theorem slice_apply (h : e.Shows k) (hk : k.Passes s k') (p : Nat) :
    slice e k.position k'.position p = (.ok s, p) := by
  rw [slice, h.slice? hk]
  rfl

theorem slice_rest (h : e.Shows k) (p : Nat) :
    slice e k.position e.stop p = (.ok k.rest, p) := by
  have hrest := h.rest?
  rw [Extent.rest?] at hrest
  rw [slice, hrest]
  rfl

theorem follows_peek (h : e.Shows k) : Follows start (peek e) Scan.peek k :=
  .ok rfl (peek_apply h) (.refl k)

/-- A character is passed where the offset is moved by its bytes. -/
theorem follows_move {c : Char} {t : List Char} (hr : k.rest = c :: t) :
    Follows start (move c.utf8Size) Scan.advance k := by
  obtain ⟨hnext, -⟩ := next_of_rest hr
  refine .ok (Scan.advance_apply k) ?_ (reaches_next k)
  rw [move_apply, hnext.position]
  rfl

/-- A loop over bytes does what a scan does, if each of its turns does its part. -/
theorem follows_untilDone {α β : Type} {R : β → Cursor → Scan α → Prop}
    {step : β → Bytewise (Turn β α)}
    (hstep : ∀ b k y, e.Stands start k → R b k y → Turns start R (step b) y k)
    {b : β} {y : Scan α} (hk : e.Stands start k) (h : R b k y) :
    Follows start (untilDone e step b) y k := by
  have loops : ∀ (room : List Char) b k y, e.Stands start k → R b k y →
      k.rest.length ≤ room.length → Follows start (loop .panic step room b) y k := by
    intro room
    induction room with
    | nil =>
      intro b k y hk h hroom
      cases hstep b k y hk h with
      | last scan bytes reaches => exact .ok scan (loop_of_done bytes _) reaches
      | again scan bytes reaches shorter others =>
        simp only [List.length_nil] at hroom
        omega
      | problem scan bytes reaches holds =>
        exact .problem scan (loop_of_error bytes _) reaches holds
    | cons x room ih =>
      intro b k y hk h hroom
      cases hstep b k y hk h with
      | last scan bytes reaches => exact .ok scan (loop_of_done bytes _) reaches
      | again scan bytes reaches shorter others =>
        simp only [List.length_cons] at hroom
        exact .steps (loop_of_again bytes x room) scan reaches
          (ih _ _ _ (hk.forward reaches) others (by omega))
      | problem scan bytes reaches holds =>
        exact .problem scan (loop_of_error bytes _) reaches holds
  obtain h := loops k.rest b k y hk h (Nat.le_refl _)
  refine .steps ?_ rfl (.refl k) h
  rw [untilDone, Action.untilDone, hk.here.rest?]
  rfl

/-- The offset gets behind the characters that have `p`, up to the first one that has not. -/
theorem moveWhile_apply {p : Nat → Char → Bool} (h : e.Shows k) (hk : k.Passes s k')
    (hp : ∀ before c behind, s = before ++ c :: behind →
      p (k.position + Text.size before) c = true)
    (hstop : ∀ c, k'.rest.head? = some c → p k'.position c = false) :
    moveWhile e p k.position = (.ok (), k'.position) := by
  rw [moveWhile, untilDone]
  refine Finishes.untilDone ?_
  induction s generalizing k with
  | nil =>
    cases (Passes.refl k).unique hk
    refine .done ?_
    rw [bind_ok (position_apply _), bind_ok (peek_apply h)]
    cases hc : k'.rest.head? with
    | none => rfl
    | some c =>
      dsimp only
      rw [if_neg (by simp [hstop c hc])]
      rfl
  | cons c s ih =>
    obtain ⟨hc, hs⟩ := hk.next
    have hnext := h.passes hc
    have hposition : k.next.position = k.position + c.utf8Size := hc.position
    have hshort : ((e.rest? k.next.position).getD []).length <
        ((e.rest? k.position).getD []).length := by
      have hlength := hc.length
      simp only [List.length_singleton] at hlength
      rw [hnext.rest?, h.rest?]
      simp only [Option.getD_some]
      omega
    refine .again ?_ hshort (ih hnext hs ?_)
    · rw [bind_ok (position_apply _), bind_ok (peek_apply h), hk.head]
      dsimp only
      rw [if_pos (by simpa using hp [] c s rfl), again, bind_ok (move_apply _ _), hposition]
      rfl
    · intro before d behind he
      have := hp (c :: before) d behind (by rw [he]; rfl)
      rwa [hposition, Nat.add_assoc]

end Extent
end Bytewise
end Cjson
