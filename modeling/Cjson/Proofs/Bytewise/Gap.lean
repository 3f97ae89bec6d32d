import Cjson.Proofs.Bytewise.Follows

namespace Cjson

open Cjson.Action Cursor

namespace Scan

/-- A block comment goes on to the first place at which its end is found. -/
theorem gapFrom_block (opened : Cursor) (seen : Bool) (p : Nat) (s : List Char) :
    (Text.find? ['*', '/'] s = none ∧ gapFrom (.blockComment opened) seen p s =
      (.error (.problem .unclosedComment opened.position), opened)) ∨
    ∃ body t, s = body ++ '*' :: '/' :: t ∧ Text.find? ['*', '/'] s = some (Text.size body) ∧
      gapFrom (.blockComment opened) seen p s = gapFrom .gap seen (p + Text.size body + 2) t := by
  fun_induction Text.find? ['*', '/'] s generalizing p with
  | case1 he => cases he
  | case2 => exact .inl ⟨rfl, by rw [gapFrom]⟩
  | case3 c s hprefix =>
    obtain ⟨t, ht⟩ := List.isPrefixOf_iff_prefix.mp hprefix
    rw [← ht]
    refine .inr ⟨[], t, rfl, rfl, ?_⟩
    simp [gapFrom]
  | case4 c s hprefix ih =>
    have hnext : gapFrom (.blockComment opened) seen p (c :: s) =
        gapFrom (.blockComment opened) seen (p + c.utf8Size) s := by
      rw [gapFrom]
      rintro t rfl rfl
      exact hprefix (by simp)
    rcases ih (p + c.utf8Size) with ⟨hnone, hgap⟩ | ⟨body, t, rfl, hsome, hgap⟩
    · exact .inl ⟨by rw [hnone]; rfl, hnext.trans hgap⟩
    · refine .inr ⟨c :: body, t, rfl, by rw [hsome]; rfl, ?_⟩
      rw [hnext, hgap, Text.size_cons, Nat.add_assoc p]

/-- The line break behind a line comment counts, and it is a blank itself. -/
theorem gapFrom_comment {seen : Bool} {p : Nat} {body rest : List Char}
    (hbody : ∀ d ∈ body, Character.isLineBreak d = false)
    (hrest : ∀ c, rest.head? = some c → Character.isLineBreak c = true) :
    gapFrom .lineComment seen p (body ++ rest) =
      gapFrom .gap (seen || rest.head?.isSome) (p + Text.size body) rest := by
  cases rest with
  | nil => simp [gapFrom_openComment hbody, gapFrom]
  | cons c t =>
    have hc := hrest c rfl
    have hblank : Character.isBlank c = true := by
      simp only [Character.isLineBreak, Bool.or_eq_true, beq_iff_eq] at hc
      rcases hc with rfl | rfl <;> decide
    have hslash : c ≠ '/' := by
      rintro rfl
      cases hc
    rw [gapFrom_lineComment hbody hc, gapFrom]
    · simp [hblank, Text.size_append, Nat.add_assoc]
    · exact fun _ he => absurd he hslash
    · exact fun _ he => absurd he hslash

end Scan

/-- Skips what is left of a gap. -/
def Scan.gapOn (seen : Bool) : Scan Bool := fun k =>
  gapFrom .gap seen k.position k.rest

namespace Bytewise

section Gap

variable {e : Extent} {start k : Cursor} {seen : Bool}

/-- The scan skips what is left of a gap. -/
def SkipsGap (seen : Bool) (_ : Cursor) (y : Scan Bool) : Prop :=
  y = Scan.gapOn seen

theorem lineComment_turns {t : List Char} (hk : e.Stands start k)
    (hr : k.rest = '/' :: '/' :: t) :
    Turns start SkipsGap (lineComment e seen) (Scan.gapOn seen) k := by
  obtain ⟨k₁, hk₁, hr₁⟩ : ∃ k₁, k.Passes ['/', '/'] k₁ ∧ k₁.rest = t :=
    ⟨⟨k.position + 2, t⟩, ⟨hr, rfl⟩, rfl⟩
  have hp₁ : k₁.position = k.position + 2 := hk₁.position
  obtain ⟨body, k₂, hk₂, hbody, hstop⟩ : ∃ body k₂, k₁.Passes body k₂ ∧
      (∀ c ∈ body, (!Character.isLineBreak c) = true) ∧
      Text.Stops (!Character.isLineBreak ·) k₂.rest :=
    ⟨_, _, Scan.takeWhile_eq_ok.mp rfl⟩
  have hmove : moveWhile e (fun _ c => !Character.isLineBreak c) k₁.position =
      (.ok (), k₂.position) := by
    refine moveWhile_apply (hk.passes hk₁).here hk₂ ?_ fun c hc => hstop c hc
    rintro before c behind rfl
    exact hbody c (by simp)
  have hgap : Scan.gapOn seen k = Scan.gapOn (seen || k₂.rest.head?.isSome) k₂ := by
    unfold Scan.gapOn
    rw [hr, Scan.gapFrom, ← hr₁, hk₂.rest, ← hp₁, hk₂.position]
    refine Scan.gapFrom_comment ?_ ?_
    · intro d hd
      simpa using hbody d hd
    · intro c hc
      simpa using hstop c hc
  have hreaches : k.Reaches k₂ := ⟨_, hk₁.trans hk₂⟩
  have hpeek := peek_apply ((hk.passes hk₁).passes hk₂).here
  cases hhead : k₂.rest.head? with
  | none =>
    rw [hhead] at hpeek hgap
    refine .last (a := seen) ?_ ?_ hreaches
    · rw [hgap]
      obtain ⟨p₂, r₂⟩ := k₂
      cases List.head?_eq_none_iff.mp hhead
      simp [Scan.gapOn, Scan.gapFrom]
    · rw [lineComment, bind_ok (move_apply _ _), ← hp₁, bind_ok hmove, bind_ok hpeek]
      rfl
  | some c =>
    rw [hhead] at hpeek hgap
    refine .again (b := true) ?_ ?_ hreaches ?_ rfl
    · rw [hgap, Option.isSome_some, Bool.or_true]
    · rw [lineComment, bind_ok (move_apply _ _), ← hp₁, bind_ok hmove, bind_ok hpeek]
      rfl
    · have := (hk₁.trans hk₂).length
      simp only [List.length_append, List.length_cons] at this
      omega

theorem blockComment_turns {t : List Char} (hk : e.Stands start k)
    (hr : k.rest = '/' :: '*' :: t) :
    Turns start SkipsGap (blockComment e seen) (Scan.gapOn seen) k := by
  obtain ⟨k₁, hk₁, rfl⟩ : ∃ k₁, k.Passes ['/', '*'] k₁ ∧ k₁.rest = t :=
    ⟨⟨k.position + 2, t⟩, ⟨hr, rfl⟩, rfl⟩
  have hp₁ : k₁.position = k.position + 2 := hk₁.position
  have hslice := slice_rest (hk.passes hk₁).here k.position
  have hgap : Scan.gapOn seen k = Scan.gapFrom (.blockComment k) seen k₁.position k₁.rest := by
    rw [Scan.gapOn, hr, Scan.gapFrom, hp₁, ← hr]
  rcases Scan.gapFrom_block k seen k₁.position k₁.rest with
    ⟨hnone, hfrom⟩ | ⟨body, u, hu, hsome, hfrom⟩
  · refine .problem (hgap.trans hfrom) ?_ (.refl k) ⟨k, hk.reached, rfl⟩
    rw [blockComment, bind_ok (position_apply _), ← hp₁, bind_ok hslice, hnone]
    rfl
  · obtain ⟨k₂, hk₂, rfl⟩ : ∃ k₂, k₁.Passes (body ++ ['*', '/']) k₂ ∧ k₂.rest = u :=
      ⟨⟨_, u⟩, ⟨by simp [hu], rfl⟩, rfl⟩
    have hp₂ : k₂.position = k₁.position + Text.size body + 2 := by
      rw [hk₂.position, Text.size_append, Nat.add_assoc]
      rfl
    have hmove : k.position + (2 + Text.size body + 2) = k₂.position := by omega
    refine .again (b := seen) ?_ ?_ ⟨_, hk₁.trans hk₂⟩ ?_ rfl
    · rw [hgap, hfrom, ← hp₂]
      rfl
    · rw [blockComment, bind_ok (position_apply _), ← hp₁, bind_ok hslice, hsome]
      dsimp only
      rw [bind_ok (move_apply _ _), hmove]
      rfl
    · have := (hk₁.trans hk₂).length
      simp only [List.length_append, List.length_cons] at this
      omega

theorem gapTurn_turns (hk : e.Stands start k) :
    Turns start SkipsGap (gapTurn e seen) (Scan.gapOn seen) k := by
  have hpeek := peek_apply hk.here
  -- What is no gap is left alone.
  have solid : gapTurn e seen k.position = (.ok (.done seen), k.position) → Solid k.rest →
      Turns start SkipsGap (gapTurn e seen) (Scan.gapOn seen) k := fun hturn hsolid =>
    .last (Scan.gapFrom_solid hsolid) hturn (.refl k)
  cases hr : k.rest with
  | nil =>
    rw [hr] at hpeek
    refine solid ?_ (hr ▸ .nil)
    rw [gapTurn, bind_ok (position_apply _), bind_ok hpeek]
    rfl
  | cons c t =>
    rw [hr] at hpeek
    obtain ⟨hnext, ht⟩ := next_of_rest hr
    by_cases hblank : Character.isBlank c = true
    · have hslash : c ≠ '/' := by
        rintro rfl
        exact absurd hblank (by decide)
      refine .again (b := seen || Character.isLineBreak c) ?_ ?_
        (reaches_next k) ?_ rfl
      · have hp : k.next.position = k.position + c.utf8Size := hnext.position
        rw [Scan.gapOn, hr, Scan.gapFrom, if_pos hblank, ← hp, ← ht]
        · rfl
        · exact fun _ he => absurd he hslash
        · exact fun _ he => absurd he hslash
      · rw [gapTurn, bind_ok (position_apply _), bind_ok hpeek]
        dsimp only [List.head?_cons]
        rw [if_pos hblank, again, bind_ok (move_apply _ _), hnext.position]
        rfl
      · have := hnext.length
        simp only [List.length_singleton] at this
        omega
    · by_cases hslash : c = '/'
      · subst hslash
        have hturn : gapTurn e seen k.position = comment e seen t.head? k.position := by
          rw [gapTurn, bind_ok (position_apply _), bind_ok hpeek]
          dsimp only [List.head?_cons]
          rw [if_neg hblank, if_neg (by decide), hk.here.charAt?_second hr rfl]
        generalize hd : t.head? = d at hturn
        unfold comment at hturn
        split at hturn
        · obtain ⟨u, rfl⟩ := List.head?_eq_some_iff.mp hd
          exact (lineComment_turns hk hr).congr hturn
        · obtain ⟨u, rfl⟩ := List.head?_eq_some_iff.mp hd
          exact (blockComment_turns hk hr).congr hturn
        · rename_i hline hblock
          refine solid hturn ⟨?_, ?_, ?_⟩
          · intro d u he
            rw [hr] at he
            cases he
            simpa using hblank
          · intro u he
            rw [hr] at he
            cases he
            exact hline hd.symm
          · intro u he
            rw [hr] at he
            cases he
            exact hblock hd.symm
      · refine solid ?_ (hr ▸ .cons (by simpa using hblank) hslash)
        rw [gapTurn, bind_ok (position_apply _), bind_ok hpeek]
        dsimp only [List.head?_cons]
        rw [if_neg hblank, if_pos hslash]
        rfl

theorem gap_follows (hk : e.Stands start k) : Follows start (gap e) Scan.gap k := by
  refine follows_untilDone (R := SkipsGap) ?_ hk rfl
  rintro seen k y hk rfl
  exact gapTurn_turns hk

end Gap
end Bytewise
end Cjson
