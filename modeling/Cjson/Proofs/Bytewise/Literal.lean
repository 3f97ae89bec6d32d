import Cjson.Proofs.Bytewise.Word

namespace Cjson

open Cjson.Action Cursor

theorem Text.size_eq_length {s : List Char} (h : ∀ c ∈ s, c.utf8Size = 1) :
    size s = s.length := by
  induction s with
  | nil => rfl
  | cons c s ih =>
    rw [size_cons, h c (by simp), ih fun d hd => h d (by simp [hd]), List.length_cons,
      Nat.add_comm]

theorem Scan.utf8Size_of_hexValue? {c : Char} (h : (hexValue? c).isSome = true) :
    c.utf8Size = 1 := by
  rw [Char.utf8Size_eq_one_iff]
  unfold hexValue? at h
  split at h
  · rename_i hc
    exact Nat.le_trans (Char.le_def.mp hc.2) (by decide)
  · split at h
    · rename_i hc
      exact Nat.le_trans (Char.le_def.mp hc.2) (by decide)
    · split at h
      · rename_i hc
        exact Nat.le_trans (Char.le_def.mp hc.2) (by decide)
      · cases h

namespace Bytewise

variable {e : Extent} {start k k' : Cursor}

section Escapes

/-- Digits are read one after another, up to the fourth. -/
theorem hexLoop_apply {first code : Nat} {digits : List Char} (h : e.Shows k)
    (hk : k.Passes digits k') (hhex : ∀ d ∈ digits, (Scan.hexValue? d).isSome = true)
    (hfirst : first ≤ k.position) (hlength : k.position + digits.length ≤ first + 4)
    (hstop : k'.position < first + 4 → Text.Stops (Scan.hexValue? · |>.isSome) k'.rest) :
    untilDone e (hexTurn e first) code k.position =
      (.ok (digits.foldl (fun n c => 16 * n + (Scan.hexValue? c).getD 0) code),
        k'.position) := by
  refine Finishes.untilDone ?_
  induction digits generalizing k code with
  | nil =>
    cases (Passes.refl k).unique hk
    refine .done ?_
    rw [hexTurn, bind_ok (position_apply _), bind_ok (minus_apply hfirst _)]
    by_cases hlt : k'.position - first < 4
    · have hnone : k'.rest.head?.bind Scan.hexValue? = none := by
        cases hc : k'.rest.head? with
        | none => rfl
        | some c =>
          have := hstop (by omega) c hc
          simpa using this
      rw [if_pos hlt, bind_ok (peek_apply h), hnone]
      rfl
    · rw [if_neg hlt]
      rfl
  | cons d digits ih =>
    obtain ⟨hd, hdigits⟩ := hk.next
    have hsize := Scan.utf8Size_of_hexValue? (hhex d (by simp))
    obtain ⟨v, hv⟩ := Option.isSome_iff_exists.mp (hhex d (by simp))
    have hposition : k.next.position = k.position + 1 := by
      rw [hd.position, Text.size_cons, hsize]
      rfl
    simp only [List.length_cons] at hlength
    have hturn : hexTurn e first code k.position =
        (.ok (.again (16 * code + v)), k.next.position) := by
      rw [hexTurn, bind_ok (position_apply _), bind_ok (minus_apply hfirst _),
        if_pos (by omega), bind_ok (peek_apply h), hk.head]
      dsimp only [Option.bind_some]
      rw [hv]
      dsimp only
      rw [bind_ok (move_apply _ _), hposition]
      rfl
    have hshort : ((e.rest? k.next.position).getD []).length <
        ((e.rest? k.position).getD []).length := by
      have := hd.length
      simp only [List.length_singleton] at this
      rw [(h.passes hd).rest?, h.rest?]
      simp only [Option.getD_some]
      omega
    refine .again hturn hshort ?_
    rw [List.foldl_cons, hv]
    exact ih (h.passes hd) hdigits (fun c hc => hhex c (by simp [hc])) (by omega) (by omega)

theorem hexEscape_follows (hk : e.Stands start k) {opening : Nat} (holds : start.Holds opening) :
    Follows start (hexEscape e opening) (Scan.hexEscape opening) k := by
  obtain ⟨digits, k', hdigits⟩ :
      ∃ digits k', Scan.takeUpTo 4 (Scan.hexValue? · |>.isSome) k = (.ok digits, k') :=
    ⟨_, _, rfl⟩
  obtain ⟨hk', hhex, hlength, hstop⟩ := Scan.takeUpTo_eq_ok.mp hdigits
  have hsize := Text.size_eq_length fun d hd => Scan.utf8Size_of_hexValue? (hhex d hd)
  have hposition := hk'.position
  have hloop : untilDone e (hexTurn e k.position) 0 k.position =
      (.ok (Scan.hexNumber digits), k'.position) :=
    hexLoop_apply hk.here hk' hhex (Nat.le_refl _) (by omega) fun hlt => hstop (by omega)
  have hbytes : hexEscape e opening k.position = (if k'.position = k.position then
        fail .missingHexDigits opening
      else if 0xD800 ≤ Scan.hexNumber digits ∧ Scan.hexNumber digits ≤ 0xDFFF then
        fail (.surrogateEscape (Scan.hexNumber digits)) opening
      else
        return .ofNat (Scan.hexNumber digits) : Bytewise Char) k'.position := by
    rw [hexEscape, bind_ok (position_apply _), bind_ok hloop, bind_ok (position_apply _)]
  refine .steps hbytes (bind_ok hdigits) ⟨_, hk'⟩ ?_
  cases digits with
  | nil =>
    rw [if_pos (by simpa using hposition)]
    exact .problem rfl rfl (.refl k') holds
  | cons d digits =>
    rw [if_neg (by simp only [List.length_cons] at hsize; omega)]
    refine .ite (fun _ => ?_) fun _ => follows_pure _
    exact .problem rfl rfl (.refl k') holds

section Continuation

variable {c : Char} {t s room : List Char} {p : Nat}

/-- What follows where blanks have been passed up to `k`. -/
def goesOn (found : Bool) (k : Cursor) : Turn (Bool × Char × Nat) (Bool × Nat) :=
  match k.rest.head? with
  | some c =>
    if Character.isBlank c then .again (found, c, k.position) else .done (found, k.position)
  | none => .done (found, k.position)

/-- A blank is passed, and so is the line feed behind a carriage return. -/
theorem continuationTurn_apply {found : Bool} {k₁ : Cursor} (h : e.Shows k)
    (hr : k.rest = c :: t) (hfound : ¬(found = true ∧ Character.isLineBreak c = true))
    (hk : (k.Passes [c] k₁ ∧ ¬(c = '\r' ∧ t.head? = some '\n')) ∨ k.Passes ['\r', '\n'] k₁) :
    continuationTurn e (found, c, k.position) p =
      (.ok (goesOn (found || Character.isLineBreak c) k₁), p) := by
  have hposition : k.position + (if c = '\r' ∧ e.charAt? (k.position + 1) = some '\n' then 1
      else 0) + c.utf8Size = k₁.position := by
    rcases hk with ⟨hk, hpair⟩ | hk
    · have hnone : ¬(c = '\r' ∧ e.charAt? (k.position + 1) = some '\n') := by
        rintro ⟨rfl, hc⟩
        rw [h.charAt?_second hr rfl] at hc
        exact hpair ⟨rfl, hc⟩
      rw [if_neg hnone, hk.position]
      rfl
    · have hrest := hk.rest
      rw [hr] at hrest
      cases hrest
      rw [if_pos ⟨rfl, h.charAt?_second hr rfl⟩, hk.position]
      rfl
  have hshows : e.Shows k₁ := by
    rcases hk with ⟨hk, -⟩ | hk
    · exact h.passes hk
    · exact h.passes hk
  rw [continuationTurn, if_neg hfound, hposition, hshows.charAt?, goesOn]
  cases k₁.rest.head? with
  | none => rfl
  | some d =>
    dsimp only
    split
    · rfl
    · rfl

theorem isBlank_of_isIndent (h : Scan.isIndent c = true) :
    Character.isBlank c = true ∧ Character.isLineBreak c = false := by
  simpa [Scan.isIndent] using h

/-- A blank within a line is passed, whether or not there was a line break before. -/
theorem continuationTurn_indent {found : Bool} (h : e.Shows k) (hr : k.rest = c :: t)
    (hc : Scan.isIndent c = true) :
    continuationTurn e (found, c, k.position) p = (.ok (goesOn found k.next), p) := by
  have hnoBreak := (isBlank_of_isIndent hc).2
  have hsingle : ¬(c = '\r' ∧ t.head? = some '\n') := by
    rintro ⟨rfl, -⟩
    cases hnoBreak
  have hfound : ¬(found = true ∧ Character.isLineBreak c = true) := by simp [hnoBreak]
  have hturn := continuationTurn_apply (p := p) h hr hfound (.inl ⟨(next_of_rest hr).1, hsingle⟩)
  rwa [hnoBreak, Bool.or_false] at hturn

theorem goesOn_blank {found : Bool} (hr : k.rest = c :: t)
    (hc : Character.isBlank c = true) : goesOn found k = .again (found, c, k.position) := by
  rw [goesOn, hr]
  exact if_pos hc

theorem goesOn_other {found : Bool}
    (h : ∀ c, k.rest.head? = some c → Character.isBlank c = false) :
    goesOn found k = .done (found, k.position) := by
  unfold goesOn
  cases hc : k.rest.head? with
  | none => rfl
  | some c => exact if_neg (by simp [h c hc])

/-- The rest of a loop that has got to `k`. -/
theorem loop_goesOn {found : Bool} {b : Bool × Char × Nat} {k₁ : Cursor} {r : Bool × Nat}
    (hturn : continuationTurn e b p = (.ok (goesOn found k₁), p))
    (hroom : k₁.rest.length ≤ room.length)
    (again : ∀ c t (room : List Char), k₁.rest = c :: t → Character.isBlank c = true →
      t.length ≤ room.length →
      loop .panic (continuationTurn e) room (found, c, k₁.position) p = (.ok r, p))
    (done : (∀ c, k₁.rest.head? = some c → Character.isBlank c = false) →
      r = (found, k₁.position)) :
    loop .panic (continuationTurn e) room b p = (.ok r, p) := by
  have finished : (∀ c, k₁.rest.head? = some c → Character.isBlank c = false) →
      loop .panic (continuationTurn e) room b p = (.ok r, p) := by
    intro hother
    rw [goesOn_other hother] at hturn
    rw [done hother]
    exact loop_of_done hturn room
  cases hr : k₁.rest with
  | nil => exact finished (by simp [hr])
  | cons c t =>
    by_cases hc : Character.isBlank c = true
    · rw [goesOn_blank hr hc] at hturn
      rw [hr] at hroom
      cases room with
      | nil => simp at hroom
      | cons x room =>
        rw [loop_of_again hturn]
        exact again c t room hr hc (by simpa using hroom)
    · refine finished ?_
      intro d hd
      rw [hr] at hd
      cases hd
      simpa using hc

/-- No blanks are passed where there are none. -/
theorem passes_indent_of_other {k₁ : Cursor} (hk : k₁.Passes s k')
    (hs : ∀ d ∈ s, Scan.isIndent d = true)
    (hother : ∀ c, k₁.rest.head? = some c → Character.isBlank c = false) : k₁ = k' := by
  cases s with
  | nil => exact (Passes.refl k₁).unique hk
  | cons d s =>
    have := hother d hk.head
    rw [(isBlank_of_isIndent (hs d (by simp))).1] at this
    cases this

/-- Behind a line break, all blanks of the line are passed. -/
theorem loop_indent (h : e.Shows k) (hk : k.Passes s k') (hs : ∀ d ∈ s, Scan.isIndent d = true)
    (hstop : Text.Stops Scan.isIndent k'.rest) (hr : k.rest = c :: t)
    (hc : Character.isBlank c = true) (hroom : t.length ≤ room.length) :
    loop .panic (continuationTurn e) room (true, c, k.position) p =
      (.ok (true, k'.position), p) := by
  induction s generalizing k c t room with
  | nil =>
    cases (Passes.refl k).unique hk
    have hbreak : Character.isLineBreak c = true := by
      have := hstop c (by rw [hr]; rfl)
      simpa [Scan.isIndent, hc] using this
    refine loop_of_done ?_ room
    rw [continuationTurn, if_pos ⟨rfl, hbreak⟩]
    rfl
  | cons d s ih =>
    obtain ⟨hd, hs'⟩ := hk.next
    obtain ⟨rfl, -⟩ : c = d ∧ t = s ++ k'.rest := by simpa [hr] using hk.rest
    have hrest : ∀ d ∈ s, Scan.isIndent d = true := fun d hd => hs d (by simp [hd])
    rw [← (next_of_rest hr).2] at hroom
    refine loop_goesOn (continuationTurn_indent h hr (hs c (by simp))) hroom ?_ ?_
    · intro c' t' room' hr' hc' hroom'
      exact ih (h.passes hd) hs' hrest hr' hc' hroom'
    · intro hother
      rw [passes_indent_of_other hs' hrest hother]

/-- Where a line break stands among the blanks, they are passed up to the end of those on the
next line. -/
theorem loop_continuation {before lineBreak after : List Char} (h : e.Shows k)
    (hk : k.Passes (before ++ lineBreak ++ after) k')
    (hb : ∀ d ∈ before, Scan.isIndent d = true) (hbreak : LineBreak lineBreak (after ++ k'.rest))
    (ha : ∀ d ∈ after, Scan.isIndent d = true) (hstop : Text.Stops Scan.isIndent k'.rest)
    (hr : k.rest = c :: t) (hroom : t.length ≤ room.length) :
    loop .panic (continuationTurn e) room (false, c, k.position) p =
      (.ok (true, k'.position), p) := by
  induction before generalizing k c t room with
  | nil =>
    obtain ⟨k₁, hk₁, hk'⟩ := hk.split
    have hrest := hk₁.rest
    rw [hr, hk'.rest] at hrest
    have hturn : continuationTurn e (false, c, k.position) p = (.ok (goesOn true k₁), p) := by
      cases hbreak with
      | lf =>
        cases hrest
        exact continuationTurn_apply h hr (by simp) (.inl ⟨hk₁, by simp⟩)
      | crlf =>
        cases hrest
        exact continuationTurn_apply h hr (by simp) (.inr hk₁)
      | cr alone =>
        cases hrest
        exact continuationTurn_apply h hr (by simp) (.inl ⟨hk₁, fun hc => alone hc.2⟩)
    have hshort : k₁.rest.length ≤ room.length := by
      have hlength := hk₁.length
      rw [hr, List.length_cons] at hlength
      have : 0 < ([] ++ lineBreak).length := by cases hbreak <;> simp
      omega
    refine loop_goesOn hturn hshort ?_ ?_
    · intro c' t' room' hr' hc' hroom'
      exact loop_indent (h.passes hk₁) hk' ha hstop hr' hc' hroom'
    · intro hother
      rw [passes_indent_of_other hk' ha hother]
  | cons d before ih =>
    obtain ⟨hd, hs'⟩ := hk.next
    obtain ⟨rfl, -⟩ : c = d ∧ t = before ++ lineBreak ++ after ++ k'.rest := by
      simpa [hr] using hk.rest
    have hrest : ∀ d ∈ before, Scan.isIndent d = true := fun d hd => hb d (by simp [hd])
    rw [← (next_of_rest hr).2] at hroom
    refine loop_goesOn (continuationTurn_indent h hr (hb c (by simp))) hroom ?_ ?_
    · intro c' t' room' hr' hc' hroom'
      exact ih (h.passes hd) hs' hrest hr' hroom'
    · intro hother
      -- The line break is still to come.
      obtain ⟨x, hx, hblank⟩ : ∃ x, k.next.rest.head? = some x ∧ Character.isBlank x = true := by
        rw [hs'.rest]
        cases before with
        | nil => cases hbreak <;> exact ⟨_, rfl, by decide⟩
        | cons x before => exact ⟨x, rfl, (isBlank_of_isIndent (hrest x (by simp))).1⟩
      rw [hother x hx] at hblank
      cases hblank

/-- Without a line break there is no continuation. -/
theorem loop_unbroken {before : List Char} (h : e.Shows k) (hk : k.Passes before k')
    (hb : ∀ d ∈ before, Scan.isIndent d = true) (hne : before ≠ [])
    (hend : ∀ c, k'.rest.head? = some c → Character.isBlank c = false)
    (hr : k.rest = c :: t) (hroom : t.length ≤ room.length) :
    loop .panic (continuationTurn e) room (false, c, k.position) p =
      (.ok (false, k'.position), p) := by
  induction before generalizing k c t room with
  | nil => exact absurd rfl hne
  | cons d before ih =>
    obtain ⟨hd, hs'⟩ := hk.next
    obtain ⟨rfl, -⟩ : c = d ∧ t = before ++ k'.rest := by simpa [hr] using hk.rest
    have hrest : ∀ d ∈ before, Scan.isIndent d = true := fun d hd => hb d (by simp [hd])
    rw [← (next_of_rest hr).2] at hroom
    refine loop_goesOn (continuationTurn_indent h hr (hb c (by simp))) hroom ?_ ?_
    · intro c' t' room' hr' hc' hroom'
      cases before with
      | nil =>
        rw [(Passes.refl k.next).unique hs'] at hr'
        rw [hend c' (by rw [hr']; rfl)] at hc'
        cases hc'
      | cons x before => exact ih (h.passes hd) hs' hrest (by simp) hr' hroom'
    · intro hother
      rw [passes_indent_of_other hs' hrest hother]

/-- A line break among blanks, with what follows it. -/
theorem exists_lineBreak {d : Char} (hr : k.rest = d :: t) (hd : Character.isLineBreak d = true) :
    ∃ lineBreak after k', k.Passes (lineBreak ++ after) k' ∧
      LineBreak lineBreak (after ++ k'.rest) ∧ (∀ c ∈ after, Scan.isIndent c = true) ∧
      Text.Stops Scan.isIndent k'.rest := by
  obtain ⟨lineBreak, k₁, hk₁, hbreak⟩ : ∃ lineBreak k₁, k.Passes lineBreak k₁ ∧
      LineBreak lineBreak k₁.rest := by
    simp only [Character.isLineBreak, Bool.or_eq_true, beq_iff_eq] at hd
    rcases hd with rfl | rfl
    · exact ⟨_, k.next, (next_of_rest hr).1, .lf⟩
    · by_cases hpair : t.head? = some '\n'
      · obtain ⟨u, rfl⟩ := List.head?_eq_some_iff.mp hpair
        obtain ⟨hcr, hr'⟩ := next_of_rest hr
        exact ⟨_, k.next.next, hcr.trans (next_of_rest hr').1, .crlf⟩
      · obtain ⟨hcr, hr'⟩ := next_of_rest hr
        exact ⟨_, k.next, hcr, .cr (hr' ▸ hpair)⟩
  obtain ⟨after, k', hafter⟩ :
      ∃ after k', Scan.takeWhile Scan.isIndent k₁ = (.ok after, k') := ⟨_, _, rfl⟩
  obtain ⟨hk', ha, hstop⟩ := Scan.takeWhile_eq_ok.mp hafter
  exact ⟨lineBreak, after, k', hk₁.trans hk', hk'.rest ▸ hbreak, ha, hstop⟩

/-- A continuation reads over bytes as it does over characters. Its first blank was passed
before. -/
theorem lineContinuation_reads (hk : e.Stands start k) (hr : k.rest = c :: t)
    (hc : Character.isBlank c = true) {opening : Nat} (hopening : k.position = opening + 1) :
    (∃ k', Scan.lineContinuation opening k = (.ok (), k') ∧
      lineContinuation e c opening k.next.position = (.ok (), k'.position) ∧ k.Reaches k') ∨
    (Scan.lineContinuation opening k = (.error (.problem .blankEscape opening), k.next) ∧
      lineContinuation e c opening k.next.position =
        (.error (.fault (.problem .blankEscape opening)), k.next.position)) := by
  obtain ⟨before, k₁, hbefore⟩ :
      ∃ before k₁, Scan.takeWhile Scan.isIndent k = (.ok before, k₁) := ⟨_, _, rfl⟩
  obtain ⟨hk₁, hb, hstop⟩ := Scan.takeWhile_eq_ok.mp hbefore
  obtain ⟨hnext, ht⟩ := next_of_rest hr
  have hroom : (e.rest? k.next.position).getD [] = t := by
    rw [(hk.passes hnext).here.rest?, ht]
    rfl
  by_cases hbroken : ∃ d u, k₁.rest = d :: u ∧ Character.isLineBreak d = true
  · obtain ⟨d, u, hr₁, hd⟩ := hbroken
    obtain ⟨lineBreak, after, k', hk', hbreak, ha, hstop'⟩ := exists_lineBreak hr₁ hd
    have hpasses : k.Passes (before ++ lineBreak ++ after) k' := by
      rw [List.append_assoc]
      exact hk₁.trans hk'
    have hloop := loop_continuation (p := k.next.position) hk.here hpasses hb hbreak ha hstop' hr
      (Nat.le_refl t.length)
    refine .inl ⟨k', Scan.lineContinuation_ok hpasses hb hbreak ha hstop', ?_, ⟨_, hpasses⟩⟩
    rw [lineContinuation, untilDone, bind_apply, Action.untilDone, hroom, ← hopening, hloop]
    rfl
  · have hend : ∀ d, k₁.rest.head? = some d → Character.isBlank d = false := by
      intro d hd
      obtain ⟨u, hr₁⟩ := List.head?_eq_some_iff.mp hd
      have hnoBreak : Character.isLineBreak d = false := by
        simpa using fun hd => hbroken ⟨d, u, hr₁, hd⟩
      simpa [Scan.isIndent, hnoBreak] using hstop d hd
    have hne : before ≠ [] := by
      rintro rfl
      rw [← (Passes.refl k).unique hk₁] at hend
      rw [hend c (by rw [hr]; rfl)] at hc
      cases hc
    have hloop := loop_unbroken (p := k.next.position) hk.here hk₁ hb hne hend hr
      (Nat.le_refl t.length)
    refine .inr ⟨?_, ?_⟩
    · rw [Scan.lineContinuation, bind_ok (get_apply k), bind_ok hbefore,
        bind_ok (Scan.rest_apply k₁)]
      generalize hr₁ : k₁.rest = r at hend
      split
      · have := hend '\r' rfl
        cases this
      · rename_i d u _
        have hnoBreak : Character.isLineBreak d = false := by
          simpa using fun hd => hbroken ⟨d, u, hr₁, hd⟩
        rw [hnoBreak]
        rfl
      · rfl
    · rw [lineContinuation, untilDone, bind_apply, Action.untilDone, hroom, ← hopening, hloop]
      rfl

end Continuation

/-- A blank is no letter of an escape. -/
theorem escaped?_of_isBlank {c : Char} (h : Character.isBlank c = true) :
    Scan.escaped? c = none ∧ ¬(c = 'x' ∨ c = 'u') := by
  have hblank : ∀ x ∈ escapes, Character.isBlank x.1 = false := by decide
  refine ⟨?_, ?_⟩
  · cases hd : Scan.escaped? c with
    | none => rfl
    | some d =>
      rw [hblank _ (escaped?_eq_some.mp hd)] at h
      cases h
  · rintro (rfl | rfl)
    · revert h
      decide
    · revert h
      decide

/-- What a piece stands for. -/
def read : Scan.Piece → List Char
  | .closing | .nothing => []
  | .char c => [c]

theorem escape_follows {q c : Char} {t : List Char} {opening : Nat} (hk : e.Stands start k)
    (hr : k.rest = '\\' :: c :: t) :
    Follows start (escape e q opening k.position) (read <$> Scan.escape c) k := by
  obtain ⟨hnext, hr₁⟩ := next_of_rest hr
  obtain ⟨hnext₁, -⟩ := next_of_rest hr₁
  have hp₁ : k.next.position = k.position + 1 := hnext.position
  have hp₂ : k.position + 1 + c.utf8Size = k.next.next.position := by
    rw [hnext₁.position, hp₁]
    rfl
  have hs₁ := hk.passes hnext
  have holds : start.Holds k.position := ⟨k, hk.reached, rfl⟩
  have hreach : k.Reaches k.next.next := (reaches_next k).trans (reaches_next k.next)
  have hbytes : escape e q opening k.position k.position =
      unescape e c k.position k.next.next.position := by
    rw [escape, hk.here.charAt?_second hr rfl]
    dsimp only [List.head?_cons]
    rw [bind_ok (moveTo_apply _ _), hp₂]
  by_cases hblank : Character.isBlank c = true
  · obtain ⟨hletter, hcode⟩ := escaped?_of_isBlank hblank
    have hcontinues : unescape e c k.position k.next.next.position = (do
        lineContinuation e c k.position
        return [] : Bytewise (List Char)) k.next.next.position := by
      rw [unescape, hletter]
      dsimp only
      rw [if_neg hcode, if_pos hblank]
    rcases lineContinuation_reads hs₁ hr₁ hblank hp₁ with ⟨k', hscan, hread, hk'⟩ | ⟨hscan, hread⟩
    · refine .ok (a := []) ?_ ?_ ((reaches_next k).trans hk')
      · rw [map_apply, Scan.escape, bind_ok (Scan.position_apply k),
          bind_ok (Scan.advance_apply k), if_pos hblank, bind_ok hscan]
        rfl
      · rw [hbytes, hcontinues, bind_ok hread]
        rfl
    · refine .problem (p := .blankEscape) ?_ ?_ hreach holds
      · rw [map_apply, Scan.escape, bind_ok (Scan.position_apply k),
          bind_ok (Scan.advance_apply k), if_pos hblank, bind_error hscan]
      · rw [hbytes, hcontinues, bind_error hread]
  · have hescape : Scan.escape c k = (match Scan.escaped? c with
        | some d => return .char d
        | none =>
          if c = 'x' ∨ c = 'u' then
            return .char (← Scan.hexEscape k.position)
          else
            Scan.fail (.invalidEscape c) k.position : Scan Scan.Piece) k.next.next := by
      rw [Scan.escape, bind_ok (Scan.position_apply k), bind_ok (Scan.advance_apply k),
        if_neg hblank]
      exact bind_ok (Scan.advance_apply k.next)
    refine .steps hbytes (map_congr read hescape) hreach ?_
    rw [unescape]
    cases Scan.escaped? c with
    | some d => exact .ok rfl rfl (.refl _)
    | none =>
      dsimp only
      by_cases hcode : c = 'x' ∨ c = 'u'
      · rw [if_pos hcode, if_pos hcode, map_bind]
        exact (hexEscape_follows (hs₁.passes hnext₁) holds).bind fun d _ _ _ => follows_pure [d]
      · rw [if_neg hcode, if_neg hcode, if_neg hblank]
        exact .problem rfl rfl (.refl _) holds

end Escapes

section Quoted

variable {q : Char} {opening : Nat}

/-- What is read in the end, if the characters in `read` were read so far, the last of them
first. -/
def goOn (q : Char) (opening : Nat) (read : List Char) : Scan (List Char) :=
  List.reverse <$> Action.untilDone Cursor.rest (.internal "A string outlived its text.")
    (Scan.quotedStep q opening) read

theorem quotedStep_shortens (hq : q ≠ '\\') :
    Shortens Cursor.rest (Scan.quotedStep q opening) := by
  intro read k read' k' h
  obtain ⟨p, k₁, hp, h⟩ := bind_eq_ok.mp h
  obtain ⟨s, hk, hs⟩ := (Scan.piece_eq_ok hq).mp hp
  have hlength := hk.length
  cases p with
  | closing =>
    obtain ⟨he, -⟩ := pure_eq_ok.mp h
    cases he
  | nothing | char c =>
    obtain ⟨-, rfl⟩ := pure_eq_ok.mp h
    have := List.length_pos_iff.mpr hs.ne_nil
    omega

theorem goOn_closing (hq : q ≠ '\\') {read' : List Char}
    (h : Scan.piece q opening k = (.ok .closing, k')) :
    goOn q opening read' k = (.ok read'.reverse, k') := by
  rw [goOn, map_apply, untilDone_eq (quotedStep_shortens hq), Scan.quotedStep_ok h]

theorem goOn_piece (hq : q ≠ '\\') {read' : List Char} {p : Scan.Piece}
    (h : Scan.piece q opening k = (.ok p, k')) (hp : p ≠ .closing) :
    goOn q opening read' k = goOn q opening (read p ++ read') k' := by
  rw [goOn, goOn, map_apply, map_apply, untilDone_eq (quotedStep_shortens hq),
    Scan.quotedStep_ok h]
  cases p with
  | closing => exact absurd rfl hp
  | nothing | char c => rfl

theorem goOn_error (hq : q ≠ '\\') {read' : List Char} {f : Fault}
    (h : Scan.piece q opening k = (.error f, k')) :
    goOn q opening read' k = (.error f, k') := by
  rw [goOn, map_apply, untilDone_eq (quotedStep_shortens hq), Scan.quotedStep, bind_error h]

/-- What is left to the scan is what is left to the loop over bytes, which has all in `read`
but what it has passed from byte `chunk` on. -/
def ReadsOn (start : Cursor) (q : Char) (opening : Nat) :
    List Char × Nat → Cursor → Scan (List Char) → Prop
  | (read, chunk), k, y => ∃ k₀ s read', start.Reaches k₀ ∧ k₀.position = chunk ∧
    k₀.Passes s k ∧ read'.reverse = read ++ s ∧ y = goOn q opening read'

/-- An escape is no closing quote. -/
theorem escape_ne_closing {c : Char} {t : List Char} (hq : q ≠ '\\')
    (hr : k.rest = '\\' :: c :: t) {p : Scan.Piece} (h : Scan.escape c k = (.ok p, k')) :
    p ≠ .closing ∧ k'.rest.length < k.rest.length := by
  obtain ⟨s, hk, hs⟩ := Scan.of_escape (q := q) hr h
  have hlength := hk.length
  have hspelling : ∀ {d : Option Char}, Spelling q d s k'.rest →
      k'.rest.length < k.rest.length := by
    intro d hs
    have := List.length_pos_iff.mpr hs.ne_nil
    omega
  cases p with
  | closing =>
    cases hs
    exact absurd (List.cons.inj (hr.symm.trans hk.rest)).1.symm hq
  | nothing => exact ⟨by simp, hspelling hs⟩
  | char d => exact ⟨by simp, hspelling hs⟩

theorem quotedTurn_escape (hq : q ≠ '\\') (hopening : start.Holds opening)
    (hk : e.Stands start k) {soFar s read' t : List Char} {k₀ : Cursor}
    (hk₀ : start.Reaches k₀) (hs : k₀.Passes s k) (hread : read'.reverse = soFar ++ s)
    (hr : k.rest = '\\' :: t) :
    Turns start (ReadsOn start q opening) (quotedTurn e q opening (soFar, k₀.position))
      (goOn q opening read') k := by
  have hpeek := peek_apply hk.here
  have hslice := slice_apply (Extent.Stands.here ⟨hk.shows, hk₀⟩) hs k.position
  rw [hr] at hpeek
  have hturn : quotedTurn e q opening (soFar, k₀.position) k.position = (do
      let cs ← escape e q opening k.position
      return .again (soFar ++ s ++ cs, ← position) :
        Bytewise (Turn (List Char × Nat) (List Char))) k.position := by
    rw [quotedTurn, bind_ok (position_apply _), bind_ok hpeek]
    dsimp only [List.head?_cons]
    rw [if_neg (Ne.symm hq), if_neg (by simp), bind_ok hslice]
  cases t with
  | nil =>
    refine .problem (p := .unclosedString q) (goOn_error hq ?_) ?_ (.refl k) hopening
    · rw [Scan.piece, bind_ok (Scan.rest_apply k), hr]
      rfl
    · rw [hturn, bind_apply, escape, hk.here.charAt?_second hr rfl]
      rfl
  | cons d t =>
    have hpiece : Scan.piece q opening k = Scan.escape d k := by
      rw [Scan.piece, bind_ok (Scan.rest_apply k), hr]
      rfl
    cases (escape_follows hk hr : Follows start (escape e q opening k.position) _ k) with
    | @ok cs k' hscan hbytes hk' =>
      obtain ⟨p, hescape, rfl⟩ := map_eq_ok.mp hscan
      obtain ⟨hp, hshort⟩ := escape_ne_closing hq hr hescape
      refine .again (b := (soFar ++ s ++ read p, k'.position))
        (goOn_piece hq (hpiece.trans hescape) hp) ?_ hk' hshort ?_
      · rw [hturn, bind_ok hbytes, bind_ok (position_apply _)]
        rfl
      · refine ⟨k', [], read p ++ read', hk.reached.trans hk', rfl, .refl k', ?_, rfl⟩
        rw [List.reverse_append, hread, List.append_nil]
        cases p <;> rfl
    | @problem p offset k' hscan hbytes hk' holds =>
      exact .problem (goOn_error hq (hpiece.trans (of_map_error hscan)))
        (hturn.trans (bind_error hbytes)) hk' holds

theorem quotedTurn_turns (hq : q ≠ '\\') (hopening : start.Holds opening)
    (hk : e.Stands start k) {state : List Char × Nat} {y : Scan (List Char)}
    (h : ReadsOn start q opening state k y) :
    Turns start (ReadsOn start q opening) (quotedTurn e q opening state) y k := by
  obtain ⟨soFar, chunk⟩ := state
  obtain ⟨k₀, s, read', hk₀, rfl, hs, hread, rfl⟩ := h
  have hpeek := peek_apply hk.here
  cases hr : k.rest with
  | nil =>
    rw [hr] at hpeek
    refine .problem (p := .unclosedString q) (goOn_error hq ?_) ?_ (.refl k) hopening
    · rw [Scan.piece, bind_ok (Scan.rest_apply k), hr]
      rfl
    · rw [quotedTurn, bind_ok (position_apply _), bind_ok hpeek]
      rfl
  | cons c t =>
    by_cases hescape : c = '\\'
    · subst hescape
      exact quotedTurn_escape hq hopening hk hk₀ hs hread hr
    · rw [hr] at hpeek
      obtain ⟨hnext, ht⟩ := next_of_rest hr
      by_cases hquote : c = q
      · subst hquote
        have hslice := slice_apply (Extent.Stands.here ⟨hk.shows, hk₀⟩) hs k.position
        have hpiece : Scan.piece c opening k = (.ok .closing, k.next) :=
          (Scan.piece_eq_ok hq).mpr ⟨_, hnext, rfl⟩
        refine .last (a := read'.reverse) (goOn_closing hq hpiece) ?_ (reaches_next k)
        rw [quotedTurn, bind_ok (position_apply _), bind_ok hpeek]
        dsimp only [List.head?_cons]
        rw [if_pos rfl, bind_ok hslice, bind_ok (move_apply _ _), hread, hnext.position]
        rfl
      · have hpiece : Scan.piece q opening k = (.ok (.char c), k.next) :=
          (Scan.piece_eq_ok hq).mpr ⟨_, hnext, .verbatim hquote hescape⟩
        refine .again (b := (soFar, k₀.position)) (goOn_piece hq hpiece (by simp)) ?_
          (reaches_next k) ?_ ?_
        · rw [quotedTurn, bind_ok (position_apply _), bind_ok hpeek]
          dsimp only [List.head?_cons]
          rw [if_neg hquote, if_pos hescape, again, bind_ok (move_apply _ _), hnext.position]
          rfl
        · rw [ht, hr, List.length_cons]
          omega
        · refine ⟨k₀, s ++ [c], read (.char c) ++ read', hk₀, rfl, hs.trans hnext, ?_, rfl⟩
          rw [List.reverse_append, hread, List.append_assoc]
          rfl

theorem quoted_follows (hq : q = '"' ∨ q = '\'') {t : List Char} (hk : e.Stands start k)
    (hr : k.rest = q :: t) : Follows start (quoted e q) (Scan.quoted q) k := by
  have hne : q ≠ '\\' := by rcases hq with rfl | rfl <;> decide
  obtain ⟨hnext, -⟩ := next_of_rest hr
  have hs := hk.passes hnext
  have hloop : Follows start (untilDone e (quotedTurn e q k.position) ([], k.next.position))
      (goOn q k.position []) k.next :=
    follows_untilDone (R := ReadsOn start q k.position)
      (fun _ _ _ hk' h => quotedTurn_turns hne ⟨k, hk.reached, rfl⟩ hk' h) hs
      ⟨k.next, [], [], hs.reached, rfl, .refl _, rfl, rfl⟩
  refine .steps ?_ ?_ (reaches_next k)
    (hloop.bind fun read _ _ _ => follows_pure (String.ofList read))
  · rw [quoted, bind_ok (position_apply _), bind_ok (move_apply _ _), hnext.position]
    rfl
  · rw [Scan.quoted, bind_ok (Scan.position_apply k), bind_ok (Scan.advance_apply k), goOn,
      bind_map_left]
    rfl

theorem raw_follows {t : List Char} (hk : e.Stands start k) (hr : k.rest = 'r' :: q :: t) :
    Follows start (raw e q) (Scan.raw q) k := by
  obtain ⟨hnext, hr₁⟩ := next_of_rest hr
  obtain ⟨hnext₁, hr₂⟩ := next_of_rest hr₁
  have hp₂ : k.position + 1 + q.utf8Size = k.next.next.position := by
    rw [hnext₁.position, hnext.position]
    rfl
  have hs₂ := (hk.passes hnext).passes hnext₁
  obtain ⟨content, k₃, hcontent⟩ :
      ∃ content k₃, Scan.takeWhile (· != q) k.next.next = (.ok content, k₃) := ⟨_, _, rfl⟩
  obtain ⟨hk₃, hno, hstop⟩ := Scan.takeWhile_eq_ok.mp hcontent
  have hreach : k.Reaches k₃ := (reaches_next k).trans ((reaches_next k.next).trans ⟨_, hk₃⟩)
  have hscan : Scan.raw q k = (do
      if (← Scan.peek).isNone then
        Scan.fail (.unclosedString q) k.position
      Scan.advance
      return .ofList content : Scan String) k₃ := by
    rw [Scan.raw, bind_ok (Scan.position_apply k), bind_ok (Scan.advance_apply k),
      bind_ok (Scan.advance_apply k.next), bind_ok hcontent]
  rw [bind_ok (Scan.peek_apply k₃)] at hscan
  have hrest := slice_rest hs₂.here k.position
  have hno : ∀ c ∈ content, c ≠ q := by
    intro c hc
    simpa using hno c hc
  have hs₃ := hs₂.passes hk₃
  cases hr₃ : k₃.rest with
  | nil =>
    have hnone : Text.find? [q] k.next.next.rest = none := by
      rw [hk₃.rest, hr₃, List.append_nil]
      exact Text.find?_eq_none hno
    have hstop : e.stop = k₃.position := by
      rw [hs₃.here.stop_eq, hr₃]
      rfl
    rw [hr₃] at hscan
    refine .problem hscan ?_ hreach ⟨k, hk.reached, rfl⟩
    rw [raw, bind_ok (position_apply _), hp₂, bind_ok hrest, hnone, hstop]
    rfl
  | cons c u =>
    have hc : c = q := by simpa [hr₃] using hstop c
    subst hc
    have hsome : Text.find? [c] k.next.next.rest = some (Text.size content) := by
      rw [hk₃.rest, hr₃]
      exact Text.find?_append hno u
    have hp₃ := hk₃.position
    have hnext₃ := (next_of_rest hr₃).1
    have hslice := slice_apply hs₂.here hk₃
    rw [hr₃] at hscan
    refine .ok (a := .ofList content) hscan ?_ (hreach.trans (reaches_next k₃))
    rw [raw, bind_ok (position_apply _), hp₂, bind_ok hrest, hsome]
    dsimp only
    rw [← hp₃, bind_ok (moveTo_apply _ _), bind_ok (hslice _), hnext₃.position]
    rfl

end Quoted
end Bytewise
end Cjson
