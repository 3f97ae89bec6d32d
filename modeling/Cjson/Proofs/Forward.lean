import Cjson.Proofs.Literal
import Cjson.Proofs.Separator
import Cjson.Scan.Skim

namespace Cjson

/-- The second cursor is behind the first one, or is the first one. -/
def Cursor.Reaches (k k' : Cursor) : Prop :=
  ∃ s, k.Passes s k'

theorem Cursor.Reaches.refl (k : Cursor) : k.Reaches k :=
  ⟨[], .refl k⟩

theorem Cursor.Reaches.trans {k k' k'' : Cursor} (h : k.Reaches k') (h' : k'.Reaches k'') :
    k.Reaches k'' := by
  obtain ⟨s, hs⟩ := h
  obtain ⟨t, ht⟩ := h'
  exact ⟨s ++ t, hs.trans ht⟩

theorem Cursor.Reaches.length_le {k k' : Cursor} (h : k.Reaches k') :
    k'.rest.length ≤ k.rest.length := by
  obtain ⟨s, hs⟩ := h
  have := hs.length
  omega

theorem Cursor.reaches_next (k : Cursor) : k.Reaches k.next := by
  obtain ⟨p, r⟩ := k
  cases r with
  | nil => exact .refl _
  | cons c r => exact ⟨[c], (next_of_rest rfl).1⟩

namespace Scan

open Cjson.Action Cursor

variable {α β : Type}

/-- Where the scan succeeds, it does not go back. -/
def Forward (x : Scan α) : Prop :=
  ∀ k a k', x k = (.ok a, k') → k.Reaches k'

theorem Forward.bind {x : Scan α} {f : α → Scan β} (hx : Forward x)
    (hf : ∀ a, Forward (f a)) : Forward (x >>= f) := by
  intro k b k' h
  obtain ⟨a, k₁, ha, hb⟩ := bind_eq_ok.mp h
  exact (hx k a k₁ ha).trans (hf a k₁ b k' hb)

theorem forward_pure (a : α) : Forward (pure a : Scan α) := by
  intro k b k' h
  obtain ⟨-, rfl⟩ := pure_eq_ok.mp h
  exact .refl k

theorem forward_throw (e : Fault) : Forward (throw e : Scan α) := by
  intro k a k' h
  exact absurd h throw_ne_ok

theorem forward_peek : Forward peek := by
  intro k c k' h
  cases h
  exact .refl k

theorem forward_position : Forward position := by
  intro k p k' h
  cases h
  exact .refl k

theorem forward_advance : Forward advance := by
  intro k _ k' h
  cases h
  exact reaches_next k

theorem forward_gap : Forward gap := by
  intro k b k' h
  obtain ⟨g, hg, -⟩ := gap_eq_ok.mp h
  exact ⟨g, hg⟩

theorem forward_separator (terminator : Option Char) (noColon : Option ColonFault) :
    Forward (separator terminator noColon) := by
  intro k sep k' h
  obtain ⟨s, hs, -⟩ := of_separator h
  exact ⟨s, hs⟩

theorem forward_wordOrCall : Forward wordOrCall := by
  intro k r k' h
  obtain ⟨w, called⟩ := r
  obtain ⟨-, hk⟩ := of_wordOrCall h
  cases called with
  | false => exact ⟨w, hk⟩
  | true =>
    obtain ⟨b, g, -, hk⟩ := hk
    exact ⟨_, hk⟩

/-- A call takes at least the character of its name. -/
theorem wordOrCall_shortens {w : List Char} {called : Bool} {k k' : Cursor}
    (h : wordOrCall k = (.ok (w, called), k')) : k'.rest.length < k.rest.length := by
  obtain ⟨hw, hk⟩ := of_wordOrCall h
  have hpos : 0 < w.length := List.length_pos_iff.mpr hw.1
  cases called with
  | false =>
    have := hk.length
    omega
  | true =>
    obtain ⟨b, g, -, hk⟩ := hk
    have := hk.length
    simp only [List.length_append] at this
    omega

theorem forward_quoted {q : Char} (hq : q = '"' ∨ q = '\'') {t : List Char} {str : String}
    {k k' : Cursor} (hr : k.rest = q :: t) (h : quoted q k = (.ok str, k')) :
    k.Reaches k' := by
  obtain ⟨cs, body, hk, -⟩ := of_quoted hq (by rw [hr]; rfl) h
  exact ⟨_, hk⟩

theorem forward_raw {q : Char} {t : List Char} {str : String} {k k' : Cursor}
    (hr : k.rest = 'r' :: q :: t) (h : raw q k = (.ok str, k')) : k.Reaches k' := by
  obtain ⟨cs, hk, -⟩ := of_raw hr h
  exact ⟨_, hk⟩

/-- What is passed over ends with the quote. -/
theorem passes_skimQuotedFrom (q : Char) (start p : Nat) (s : List Char) {k' : Cursor}
    (h : skimQuotedFrom q start p s = (.ok (), k')) :
    ∃ u, Cursor.Passes ⟨p, s⟩ (u ++ [q]) k' := by
  induction p, s using skimQuotedFrom.induct q with
  | case1 p =>
    rw [skimQuotedFrom] at h
    cases h
  | case2 p c rest ih =>
    rw [skimQuotedFrom] at h
    obtain ⟨u, hu⟩ := ih h
    have hescape : Cursor.Passes ⟨p, '\\' :: c :: rest⟩ ['\\', c] ⟨p + 1 + c.utf8Size, rest⟩ :=
      ⟨rfl, by simp [Nat.add_assoc]; rfl⟩
    exact ⟨'\\' :: c :: u, hescape.trans hu⟩
  | case3 p rest hne =>
    unfold skimQuotedFrom at h
    split at h
    · cases h
    · simp_all
    · rename_i he
      cases he
      rw [if_pos rfl] at h
      cases h
      exact ⟨[], rfl, by simp⟩
  | case4 p c rest hne hc ih =>
    unfold skimQuotedFrom at h
    split at h
    · cases h
    · simp_all
    · rename_i he
      cases he
      rw [if_neg hc] at h
      obtain ⟨u, hu⟩ := ih h
      exact ⟨c :: u, congrArg (c :: ·) hu.rest, by rw [hu.position]; simp [Nat.add_assoc]⟩

theorem forward_skimQuotedFrom (q : Char) (start p : Nat) (s : List Char) {k' : Cursor}
    (h : skimQuotedFrom q start p s = (.ok (), k')) : Cursor.Reaches ⟨p, s⟩ k' := by
  obtain ⟨u, hu⟩ := passes_skimQuotedFrom q start p s h
  exact ⟨_, hu⟩

theorem forward_skimQuoted (q : Char) : Forward (skimQuoted q) := by
  unfold skimQuoted
  apply forward_position.bind
  intro start
  apply forward_advance.bind
  intro _ k _ k' h
  exact forward_skimQuotedFrom q start k.position k.rest h

/-- A loop goes forward if each of its steps does. -/
theorem Forward.untilDone {stuck : Fault} {step : β → Scan (Turn β α)}
    (hstep : ∀ b, Forward (step b)) (b : β) :
    Forward (Action.untilDone Cursor.rest stuck step b) := by
  intro k a k' h
  refine untilDone_induction (motive := fun _ k _ k' => k.Reaches k') ?_ ?_ h
  · intro b k a k' hlast
    exact hstep b k _ k' hlast
  · intro b k b' k₁ a k' hfirst hrest
    exact (hstep b k _ k₁ hfirst).trans hrest

theorem forward_skimListing {expression : Scan Unit} (he : Forward expression)
    (terminator : Char) : Forward (skimListing expression terminator) := by
  unfold skimListing
  apply forward_position.bind
  intro start
  apply forward_gap.bind
  intro _
  apply Forward.untilDone
  intro _
  apply forward_peek.bind
  intro c?
  split
  · exact forward_throw _
  · rename_i c
    split
    · exact forward_pure _
    · have hend : Forward (do let _ ← gap; return Turn.again () : Scan (Turn Unit Unit)) :=
        forward_gap.bind fun _ => forward_pure _
      split
      · exact forward_advance.bind fun _ => hend
      · exact he.bind fun _ => hend

theorem forward_skim (room : List Char) : Forward (skim room) := by
  induction room with
  | nil => exact forward_throw _
  | cons x room ih =>
    intro k u k' h
    unfold skim at h
    rw [bind_ok (rest_apply k)] at h
    generalize hr : k.rest = r at h
    split at h
    · exact absurd h throw_ne_ok
    · obtain ⟨str, hraw, -⟩ := map_eq_ok.mp h
      exact forward_raw hr hraw
    · obtain ⟨str, hraw, -⟩ := map_eq_ok.mp h
      exact forward_raw hr hraw
    · split at h
      · exact forward_skimQuoted _ _ _ _ h
      · cases hclosing : closing? _ with
        | some terminator =>
          rw [hclosing] at h
          exact (forward_advance.bind fun _ => (forward_skimListing ih _).bind fun _ =>
            forward_advance) _ _ _ h
        | none =>
          rw [hclosing] at h
          obtain ⟨⟨w, called⟩, k₁, hword, h⟩ := bind_eq_ok.mp h
          apply (forward_wordOrCall _ _ _ hword).trans
          cases called with
          | false => exact forward_pure _ _ _ _ h
          | true =>
            exact ((forward_skimListing ih _).bind fun _ => forward_advance) _ _ _ h

theorem forward_skimExpression : Forward skimExpression := by
  intro k u k' h
  exact forward_skim k.rest k u k' h

end Scan
end Cjson
