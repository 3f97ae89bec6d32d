import Cjson.Proofs.Truncation

namespace Cjson

namespace Action

variable {ε τ α β γ χ : Type} {extend : τ → τ} {F : ε → Prop}

/-- Whenever the computation fails, it fails with an error that has `F`. -/
def FailsAs (F : ε → Prop) (x : Action ε τ α) : Prop :=
  ∀ t e t₁, x t = (.error e, t₁) → F e

section FailsAs

variable {x : Action ε τ α}

theorem failsAs_of_ok (h : ∀ t, ∃ a t₁, x t = (.ok a, t₁)) : FailsAs F x := by
  intro t e t₁ hx
  obtain ⟨a, t₂, ha⟩ := h t
  rw [ha] at hx
  cases hx

theorem failsAs_pure (a : α) : FailsAs F (pure a : Action ε τ α) :=
  failsAs_of_ok fun t => ⟨a, t, rfl⟩

theorem failsAs_throw {e : ε} (he : F e) : FailsAs F (throw e : Action ε τ α) := by
  intro t e' t₁ h
  cases h
  exact he

theorem FailsAs.bind {f : α → Action ε τ β} (hx : FailsAs F x) (hf : ∀ a, FailsAs F (f a)) :
    FailsAs F (x >>= f) := by
  intro t e t₁ h
  rcases hrun : x t with ⟨e' | a, t₂⟩
  · rw [bind_error hrun] at h
    cases h
    exact hx t _ _ hrun
  · rw [bind_ok hrun] at h
    exact hf a _ _ _ h

theorem failsAs_ite {p : Prop} [Decidable p] {y : Action ε τ α} (hx : FailsAs F x)
    (hy : FailsAs F y) : FailsAs F (if p then x else y) := by
  split
  · exact hx
  · exact hy

theorem failsAs_untilDone {content : τ → List χ} {stuck : ε}
    {step : β → Action ε τ (Turn β γ)} (hstuck : F stuck) (hstep : ∀ b, FailsAs F (step b))
    (b : β) : FailsAs F (untilDone content stuck step b) := by
  intro t
  rw [untilDone]
  generalize content t = room
  induction room generalizing b t with
  | nil =>
    refine (FailsAs.bind (hstep b) fun turn => ?_) t
    cases turn with
    | again next => exact failsAs_throw hstuck
    | done c => exact failsAs_pure c
  | cons x room ih =>
    refine (FailsAs.bind (hstep b) fun turn => ?_) t
    cases turn with
    | again next => exact ih next
    | done c => exact failsAs_pure c

end FailsAs

/-- The computation fails with an error that has `F`, or its end is as `Q` says. -/
inductive Fades (F : ε → Prop) (Q : α → τ → Prop) (x : Action ε τ α) (t : τ) : Prop
  | error {e : ε} {t₁ : τ} (run : x t = (.error e, t₁)) (fault : F e) : Fades F Q x t
  | ok {a : α} {t₁ : τ} (run : x t = (.ok a, t₁)) (holds : Q a t₁) : Fades F Q x t

/-- How `x` goes from a state that is cut off, where `y` goes from the extension of it. Unless
`y` fails, `x` gives the same, or it has come to the cut and fades away. -/
inductive Cuts (extend : τ → τ) (F : ε → Prop) (Q : α → τ → Prop) (x y : Action ε τ α)
    (t : τ) : Prop
  | fails {e : ε} {t₂ : τ} (second : y (extend t) = (.error e, t₂)) : Cuts extend F Q x y t
  | same {a : α} {t₁ : τ} (first : x t = (.ok a, t₁))
      (second : y (extend t) = (.ok a, extend t₁)) : Cuts extend F Q x y t
  | fades (first : Fades F Q x t) : Cuts extend F Q x y t

section Fades

variable {Q : α → τ → Prop} {R : β → τ → Prop} {x : Action ε τ α} {t : τ}

theorem Fades.mono {Q' : α → τ → Prop} (h : Fades F Q x t) (hQ : ∀ a t₁, Q a t₁ → Q' a t₁) :
    Fades F Q' x t := by
  cases h with
  | error run fault => exact .error run fault
  | ok run holds => exact .ok run (hQ _ _ holds)

theorem Fades.of_false (h : Fades F (fun _ _ => False) x t) : Fades F Q x t :=
  h.mono fun _ _ hfalse => hfalse.elim

theorem Fades.congr {x' : Action ε τ α} {t' : τ} (h : Fades F Q x' t') (hx : x t = x' t') :
    Fades F Q x t := by
  cases h with
  | error run fault => exact .error (hx.trans run) fault
  | ok run holds => exact .ok (hx.trans run) holds

theorem Fades.bind {f : α → Action ε τ β} (h : Fades F Q x t)
    (hf : ∀ a t₁, Q a t₁ → Fades F R (f a) t₁) : Fades F R (x >>= f) t := by
  cases h with
  | error run fault => exact .error (bind_error run) fault
  | ok run holds => exact (hf _ _ holds).congr (bind_ok run)

theorem Fades.bind_of_false {f : α → Action ε τ β} (h : Fades F (fun _ _ => False) x t) :
    Fades F R (x >>= f) t :=
  h.bind fun _ _ hfalse => hfalse.elim

theorem Fades.exists_error (h : Fades F (fun _ _ => False) x t) :
    ∃ e t₁, x t = (.error e, t₁) ∧ F e := by
  cases h with
  | error run fault => exact ⟨_, _, run, fault⟩
  | ok _ hfalse => exact hfalse.elim

theorem fades_ok_bind {f : α → Action ε τ β} {a : α} {t₁ : τ} (hx : x t = (.ok a, t₁))
    (h : Fades F R (f a) t₁) : Fades F R (x >>= f) t :=
  h.congr (bind_ok hx)

theorem Fades.map {f : α → β} (h : Fades F (fun a t₁ => R (f a) t₁) x t) :
    Fades F R (f <$> x) t := by
  cases h with
  | error run fault => exact .error (by rw [map_apply, run]) fault
  | ok run holds => exact .ok (by rw [map_apply, run]) holds

end Fades

section Cuts

variable {Q : α → τ → Prop} {R : β → τ → Prop} {x y : Action ε τ α} {t t₁ : τ}

theorem cuts_pure (a : α) : Cuts extend F Q (pure a : Action ε τ α) (pure a) t :=
  .same rfl rfl

theorem cuts_throw (x : Action ε τ α) (e : ε) : Cuts extend F Q x (throw e) t :=
  .fails rfl

theorem Cuts.mono {Q' : α → τ → Prop} (h : Cuts extend F Q x y t)
    (hQ : ∀ a t₁, Q a t₁ → Q' a t₁) : Cuts extend F Q' x y t := by
  cases h with
  | fails second => exact .fails second
  | same first second => exact .same first second
  | fades first => exact .fades (first.mono hQ)

theorem Cuts.of_false (h : Cuts extend F (fun _ _ => False) x y t) : Cuts extend F Q x y t :=
  h.mono fun _ _ hfalse => hfalse.elim

theorem Cuts.congr {x' y' : Action ε τ α} {t' : τ} (h : Cuts extend F Q x' y' t')
    (hx : x t = x' t') (hy : y (extend t) = y' (extend t')) : Cuts extend F Q x y t := by
  cases h with
  | fails second => exact .fails (hy.trans second)
  | same first second => exact .same (hx.trans first) (hy.trans second)
  | fades first => exact .fades (first.congr hx)

/-- What follows goes alike as long as the first steps do. Where they came to the cut, it only
matters what follows in front of the cut. -/
theorem Cuts.bind {f g : α → Action ε τ β} (h : Cuts extend F Q x y t)
    (hsame : ∀ a t₁, x t = (.ok a, t₁) → Cuts extend F R (f a) (g a) t₁)
    (hfades : ∀ a t₁, x t = (.ok a, t₁) → Q a t₁ → Fades F R (f a) t₁) :
    Cuts extend F R (x >>= f) (y >>= g) t := by
  cases h with
  | fails second => exact .fails (bind_error second)
  | same first second => exact (hsame _ _ first).congr (bind_ok first) (bind_ok second)
  | fades first =>
    cases first with
    | error run fault => exact .fades (.error (bind_error run) fault)
    | ok run holds => exact .fades (fades_ok_bind run (hfades _ _ run holds))

theorem Cuts.bind_of_false {f g : α → Action ε τ β}
    (h : Cuts extend F (fun _ _ => False) x y t)
    (hsame : ∀ a t₁, x t = (.ok a, t₁) → Cuts extend F R (f a) (g a) t₁) :
    Cuts extend F R (x >>= f) (y >>= g) t :=
  h.bind hsame fun _ _ _ hfalse => hfalse.elim

theorem cuts_same_bind {f g : α → Action ε τ β} {a : α} (hx : x t = (.ok a, t₁))
    (hy : y (extend t) = (.ok a, extend t₁)) (h : Cuts extend F R (f a) (g a) t₁) :
    Cuts extend F R (x >>= f) (y >>= g) t :=
  h.congr (bind_ok hx) (bind_ok hy)

theorem Cuts.map {f : α → β} (h : Cuts extend F (fun a t₁ => R (f a) t₁) x y t) :
    Cuts extend F R (f <$> x) (f <$> y) t := by
  cases h with
  | fails second => exact .fails (by rw [map_apply, second])
  | same first second => exact .same (by rw [map_apply, first]) (by rw [map_apply, second])
  | fades first => exact .fades first.map

theorem cuts_ite {p : Prop} [Decidable p] {x' y' : Action ε τ α}
    (hx : p → Cuts extend F Q x y t) (hx' : ¬p → Cuts extend F Q x' y' t) :
    Cuts extend F Q (if p then x else x') (if p then y else y') t := by
  split
  · exact hx ‹_›
  · exact hx' ‹_›

variable {content : τ → List χ} {stuck : ε} {step step' : β → Action ε τ (Turn β γ)}

theorem loop_of_stuck {b next : β} (h : step b t = (.ok (.again next), t₁)) :
    loop stuck step ([] : List χ) b t = (.error stuck, t₁) := by
  rw [loop_nil, h]

/-- Loops go alike up to the cut, and fail there. Either may run out of room: that is a failure
as well. -/
theorem cuts_loop (Over : β → τ → Prop) (hstuck : F stuck)
    (hstep : ∀ b t, Cuts extend F (fun turn t₁ => ∃ b', turn = .again b' ∧ Over b' t₁)
      (step b) (step' b) t)
    (hover : ∀ b t, Over b t → Fades F (fun _ _ => False) (step b) t)
    (room room' : List χ) (b : β) (t : τ) :
    Cuts extend F (fun _ _ => False) (loop stuck step room b) (loop stuck step' room' b) t := by
  induction room generalizing room' b t with
  | nil =>
    cases hstep b t with
    | fails second => exact .fails (loop_of_error second room')
    | @same turn t₁ first second =>
      cases turn with
      | again next => exact .fades (.error (loop_of_stuck first) hstuck)
      | done c => exact .same (loop_of_done first []) (loop_of_done second room')
    | fades first =>
      cases first with
      | error run fault => exact .fades (.error (loop_of_error run []) fault)
      | @ok turn t₁ run holds =>
        obtain ⟨next, rfl, -⟩ := holds
        exact .fades (.error (loop_of_stuck run) hstuck)
  | cons x room ih =>
    cases hstep b t with
    | fails second => exact .fails (loop_of_error second room')
    | @same turn t₁ first second =>
      cases turn with
      | done c => exact .same (loop_of_done first _) (loop_of_done second room')
      | again next =>
        cases room' with
        | nil => exact .fails (loop_of_stuck second)
        | cons x' room' =>
          exact (ih room' next t₁).congr (loop_of_again first x room)
            (loop_of_again second x' room')
    | fades first =>
      cases first with
      | error run fault => exact .fades (.error (loop_of_error run _) fault)
      | @ok turn t₁ run holds =>
        obtain ⟨next, rfl, hnext⟩ := holds
        obtain ⟨e, t₂, run', fault⟩ := (hover next t₁ hnext).exists_error
        exact .fades (.error ((loop_of_again run x room).trans (loop_of_error run' room)) fault)

theorem cuts_untilDone (Over : β → τ → Prop) (hstuck : F stuck)
    (hstep : ∀ b t, Cuts extend F (fun turn t₁ => ∃ b', turn = .again b' ∧ Over b' t₁)
      (step b) (step' b) t)
    (hover : ∀ b t, Over b t → Fades F (fun _ _ => False) (step b) t) (b : β) (t : τ) :
    Cuts extend F (fun _ _ => False) (untilDone content stuck step b)
      (untilDone content stuck step' b) t :=
  (cuts_loop Over hstuck hstep hover (content t) (content (extend t)) b t).congr rfl rfl

theorem fades_untilDone {b : β} (h : Fades F (fun _ _ => False) (step b) t) :
    Fades F (fun _ _ => False) (untilDone content stuck step b) t := by
  obtain ⟨e, t₁, run, fault⟩ := h.exists_error
  exact .error (loop_of_error run _) fault

end Cuts

end Action

open Cjson.Action

/-- What is wrong is the form of the text, or a defect. -/
def Fault.Formal : Fault → Prop
  | .problem p _ => p.kind = .syntactic
  | .internal _ => True

namespace Cursor

/-- Nothing is left of the text but, at most, a character that may be the first half of what
opens a comment. -/
def Over (k : Cursor) : Prop :=
  k.rest = [] ∨ k.rest = ['/']

/-- Nothing is left but a gap. -/
def Spent (k : Cursor) : Prop :=
  ∃ b k₁, Scan.gap k = (.ok b, k₁) ∧ k₁.Over

theorem Over.solid {k : Cursor} (h : k.Over) : Solid k.rest := by
  rcases h with h | h
  · rw [h]
    exact .nil
  · rw [h]
    refine ⟨?_, by simp, by simp⟩
    intro c r he
    cases he
    rfl

theorem Over.spent {k : Cursor} (h : k.Over) : k.Spent :=
  ⟨false, k, Scan.gap_solid h.solid, h⟩

theorem Over.head {k : Cursor} (h : k.Over) {c : Char} (hc : k.rest.head? = some c) :
    c = '/' := by
  rcases h with h | h
  · rw [h] at hc
    cases hc
  · rw [h] at hc
    cases hc
    rfl

theorem rest_ne_nil_of_not_over {k : Cursor} (h : ¬k.Over) : k.rest ≠ [] :=
  fun hr => h (.inl hr)

/-- What follows no gap still does where the text goes on. -/
theorem solid_extended {k : Cursor} (hs : Solid k.rest) (h : ¬k.Over) (t : List Char) :
    Solid (k.extended t).rest := by
  obtain ⟨p, r⟩ := k
  rcases r with - | ⟨c, - | ⟨d, r⟩⟩
  · exact absurd (.inl rfl) h
  · refine .cons (hs.noBlank c [] rfl) ?_
    rintro rfl
    exact h (.inr rfl)
  · refine ⟨?_, ?_, ?_⟩
    · intro c' r' he
      cases he
      exact hs.noBlank _ _ rfl
    · intro r' he
      cases he
      exact hs.noLineComment _ rfl
    · intro r' he
      cases he
      exact hs.noBlockComment _ rfl

end Cursor

namespace Scan

open Cursor

variable {t : List Char} {α β : Type} {k k₁ k' : Cursor} {Q : α → Cursor → Prop}

/-- Whatever the scan finds wrong is wrong with the form of the text. -/
abbrev Formal (x : Scan α) : Prop :=
  FailsAs Fault.Formal x

abbrev Fades (Q : α → Cursor → Prop) (x : Scan α) (k : Cursor) : Prop :=
  Action.Fades Fault.Formal Q x k

abbrev Cuts (t : List Char) (Q : α → Cursor → Prop) (x y : Scan α) (k : Cursor) : Prop :=
  Action.Cuts (Cursor.extended t) Fault.Formal Q x y k

section Formal

theorem formal_fail {p : Problem} (hp : p.kind = .syntactic) (offset : Nat) :
    Formal (fail p offset : Scan α) :=
  failsAs_throw hp

theorem formal_fail_bind {p : Problem} (hp : p.kind = .syntactic) (offset : Nat)
    (f : α → Scan β) : Formal (fail p offset >>= f) := by
  intro k e k' h
  cases h
  exact hp

theorem formal_takeWhile (p : Char → Bool) : Formal (takeWhile p) :=
  failsAs_of_ok fun _ => ⟨_, _, rfl⟩

theorem formal_takeUpTo (n : Nat) (p : Char → Bool) : Formal (takeUpTo n p) :=
  failsAs_of_ok fun _ => ⟨_, _, rfl⟩

theorem formal_position : Formal position :=
  failsAs_of_ok fun k => ⟨_, k, rfl⟩

theorem formal_rest : Formal rest :=
  failsAs_of_ok fun k => ⟨_, k, rfl⟩

theorem formal_peek : Formal peek :=
  failsAs_of_ok fun k => ⟨_, k, rfl⟩

theorem formal_advance : Formal advance :=
  failsAs_of_ok fun _ => ⟨_, _, rfl⟩

theorem formal_set (k : Cursor) : Formal (set k : Scan PUnit) :=
  failsAs_of_ok fun _ => ⟨_, k, rfl⟩

theorem formal_get : Formal (get : Scan Cursor) :=
  failsAs_of_ok fun k => ⟨_, k, rfl⟩

theorem formal_gapFrom (w : Within) (seen : Bool) (p : Nat) (s : List Char) {e : Fault}
    (h : gapFrom w seen p s = (.error e, k)) : e.Formal := by
  fun_induction gapFrom w seen p s with
  | case1 | case5 | case6 => cases h
  | case2 _ _ _ ih | case3 _ _ _ ih => exact ih h
  | case4 _ _ _ _ _ _ _ ih | case7 _ _ _ _ _ ih | case8 _ _ _ _ _ ih => exact ih h
  | case9 =>
    cases h
    rfl
  | case10 _ _ _ _ ih | case11 _ _ _ _ _ _ ih => exact ih h

theorem formal_gap : Formal gap := by
  intro k e k' h
  exact formal_gapFrom _ _ _ _ h

theorem formal_word : Formal word := by
  refine formal_position.bind fun _ => (formal_takeUpTo _ _).bind fun _ =>
    (formal_takeWhile _).bind fun _ => ?_
  exact failsAs_ite (formal_fail_bind rfl _ _) (failsAs_pure _)

theorem formal_hexEscape (start : Nat) : Formal (hexEscape start) := by
  refine (formal_takeUpTo _ _).bind fun digits => ?_
  refine failsAs_ite (formal_fail_bind rfl _ _) ?_
  exact failsAs_ite (formal_fail_bind rfl _ _) (failsAs_pure _)

theorem formal_lineContinuation (start : Nat) : Formal (lineContinuation start) := by
  have hindent : Formal (do let _ ← takeWhile isIndent : Scan Unit) :=
    (formal_takeWhile _).bind fun _ => failsAs_pure _
  refine formal_get.bind fun first => (formal_takeWhile _).bind fun _ =>
    formal_rest.bind fun r => ?_
  split
  · exact formal_advance.bind fun _ => formal_advance.bind fun _ => hindent
  · refine failsAs_ite (formal_advance.bind fun _ => hindent) ?_
    exact (formal_set _).bind fun _ => formal_fail_bind rfl _ _
  · exact (formal_set _).bind fun _ => formal_fail_bind rfl _ _

theorem formal_escape (c : Char) : Formal (escape c) := by
  refine formal_position.bind fun start => formal_advance.bind fun _ => ?_
  refine failsAs_ite ((formal_lineContinuation start).bind fun _ => failsAs_pure _) ?_
  refine formal_advance.bind fun _ => ?_
  split
  · exact failsAs_pure _
  · exact failsAs_ite ((formal_hexEscape start).bind fun _ => failsAs_pure _) (formal_fail rfl _)

theorem formal_piece (q : Char) (start : Nat) : Formal (piece q start) := by
  refine formal_rest.bind fun r => ?_
  split
  · exact formal_fail rfl _
  · exact formal_fail rfl _
  · exact formal_escape _
  · exact formal_advance.bind fun _ => failsAs_pure _

theorem formal_quoted (q : Char) : Formal (quoted q) := by
  refine formal_position.bind fun start => formal_advance.bind fun _ => ?_
  refine (failsAs_untilDone trivial fun read => ?_) _ |>.bind fun _ => failsAs_pure _
  refine (formal_piece q start).bind fun p => ?_
  cases p with
  | closing | nothing | char c => exact failsAs_pure _

theorem formal_raw (q : Char) : Formal (raw q) := by
  refine formal_position.bind fun start => formal_advance.bind fun _ =>
    formal_advance.bind fun _ => (formal_takeWhile _).bind fun content =>
    formal_peek.bind fun next => ?_
  refine failsAs_ite (formal_fail_bind rfl _ _) ?_
  exact formal_advance.bind fun _ => failsAs_pure _

end Formal

section Cuts

theorem cuts_fail (x : Scan α) (p : Problem) (offset : Nat) : Cuts t Q x (fail p offset) k :=
  cuts_throw x _

theorem cuts_position_bind {f g : Nat → Scan α}
    (h : Cuts t Q (f k.position) (g k.position) k) :
    Cuts t Q (position >>= f) (position >>= g) k :=
  cuts_same_bind rfl rfl h

theorem cuts_peek_bind {f g : Option Char → Scan α} (hne : k.rest ≠ [])
    (h : Cuts t Q (f k.rest.head?) (g k.rest.head?) k) :
    Cuts t Q (peek >>= f) (peek >>= g) k :=
  cuts_same_bind rfl (by rw [peek_apply, head_extended hne]) h

theorem cuts_advance_bind {f g : Unit → Scan α} (hne : k.rest ≠ [])
    (h : Cuts t Q (f ()) (g ()) k.next) : Cuts t Q (advance >>= f) (advance >>= g) k :=
  cuts_same_bind rfl (by rw [advance_apply, next_extended hne]) h

theorem cuts_get_bind {f g : Cursor → Scan α} (h : Cuts t Q (f k) (g (k.extended t)) k) :
    Cuts t Q (get >>= f) (get >>= g) k :=
  h.congr (bind_ok (get_apply k)) (bind_ok (get_apply (k.extended t)))

/-- A gap either ends in front of something, or goes on to the cut. -/
theorem cuts_gap (k : Cursor) : Cuts t (fun _ k₁ => k₁.Over) gap gap k := by
  rcases hgap : gap k with ⟨e | b, k₁⟩
  · exact .fades (.error hgap (formal_gap _ _ _ hgap))
  · by_cases hover : k₁.Over
    · exact .fades (.ok hgap hover)
    · obtain ⟨g, hk, hg⟩ := gap_eq_ok.mp hgap
      have hclosed := hg.gap (rest_ne_nil_of_not_over hover)
      refine .same hgap (gap_eq_ok.mpr ⟨g, hk.extended, ?_⟩)
      exact hclosed.before (solid_extended hg.solid hover t)

/-- What a separator is taken for by the character behind the gap. -/
def mark (terminator : Option Char) (noColon : Option ColonFault) (start : Nat)
    (lineBreak : Bool) : Scan Separator := do
  let here ← position
  match ← peek with
  | none => return if terminator.isNone then .terminator else .textEnd
  | some '+' => fail .plusOperator here
  | some ',' =>
    advance
    let _ ← gap
    return .comma
  | some ':' =>
    match noColon with
    | some why => fail (.colon why) here
    | none =>
      advance
      let _ ← gap
      return .colon
  | some c =>
    if some c = terminator then return .terminator
    else if c = ';' then fail .semicolon here
    else if c = '=' then fail .equalsSign here
    else if lineBreak then return .comma
    else if here = start then fail (.misplaced c) here
    else fail .missingSeparator here

theorem separator_eq (terminator : Option Char) (noColon : Option ColonFault) :
    separator terminator noColon = (do
      let start ← position
      let lineBreak ← gap
      mark terminator noColon start lineBreak) :=
  rfl

variable {terminator : Char} {noColon : Option ColonFault}

theorem Terminator.ne_slash (ht : Terminator (some terminator)) :
    some '/' ≠ some terminator := by
  rintro ⟨rfl⟩
  simp [Terminator] at ht

/-- At the cut no listing ends, and no key is in front of a value. -/
theorem fades_mark (ht : Terminator (some terminator)) (start : Nat) (lineBreak : Bool)
    (hover : k.Over) :
    Fades (fun d k₁ => (d = .comma ∨ d = .textEnd) ∧ k₁.Over)
      (mark (some terminator) noColon start lineBreak) k := by
  have hslash := ht.ne_slash
  rcases hover with hr | hr
  · refine .ok (a := .textEnd) ?_ ⟨.inr rfl, .inl hr⟩
    rw [mark, bind_ok (position_apply k), bind_ok (peek_apply k), hr]
    rfl
  · have hrun : mark (some terminator) noColon start lineBreak k =
        (if lineBreak then pure .comma
        else if k.position = start then fail (.misplaced '/') k.position
        else fail .missingSeparator k.position : Scan Separator) k := by
      rw [mark, bind_ok (position_apply k), bind_ok (peek_apply k), hr]
      change (if some '/' = some terminator then pure .terminator
        else if '/' = ';' then fail .semicolon k.position
        else if '/' = '=' then fail .equalsSign k.position
        else if lineBreak then pure .comma
        else if k.position = start then fail (.misplaced '/') k.position
        else fail .missingSeparator k.position : Scan Separator) k = _
      rw [if_neg hslash, if_neg (by decide), if_neg (by decide)]
    cases lineBreak with
    | true => exact .ok hrun ⟨.inl rfl, .inr hr⟩
    | false =>
      rw [if_neg (by decide)] at hrun
      split at hrun
      · exact .error hrun rfl
      · exact .error hrun rfl

theorem fades_separator (ht : Terminator (some terminator)) (hspent : k.Spent) :
    Fades (fun d k₁ => (d = .comma ∨ d = .textEnd) ∧ k₁.Over)
      (separator (some terminator) noColon) k := by
  obtain ⟨b, k₁, hgap, hover⟩ := hspent
  have hrun : separator (some terminator) noColon k =
      mark (some terminator) noColon k.position b k₁ := by
    rw [separator_eq, bind_ok (position_apply k), bind_ok hgap]
  exact (fades_mark ht k.position b hover).congr hrun

theorem cuts_mark (ht : Terminator (some terminator)) (start : Nat) (lineBreak : Bool) :
    Cuts t (fun d k₁ => d ≠ .terminator ∧ k₁.Over)
      (mark (some terminator) noColon start lineBreak)
      (mark (some terminator) noColon start lineBreak) k := by
  by_cases hover : k.Over
  · refine .fades ((fades_mark ht start lineBreak hover).mono ?_)
    rintro d k₁ ⟨rfl | rfl, hover₁⟩
    · exact ⟨by simp, hover₁⟩
    · exact ⟨by simp, hover₁⟩
  · have hne := rest_ne_nil_of_not_over hover
    have marked : ∀ d : Separator, d ≠ .terminator →
        Cuts t (fun d k₁ => d ≠ .terminator ∧ k₁.Over)
          (do advance; let _ ← gap; return d : Scan Separator)
          (do advance; let _ ← gap; return d) k := by
      intro d hd
      refine cuts_advance_bind hne ?_
      refine (cuts_gap _).bind (fun _ _ _ => cuts_pure d) ?_
      intro _ k₁ _ hover₁
      exact .ok rfl ⟨hd, hover₁⟩
    refine cuts_position_bind ?_
    refine cuts_peek_bind hne ?_
    split
    · exact cuts_pure _
    · exact cuts_fail _ _ _
    · exact marked _ (by simp)
    · split
      · exact cuts_fail _ _ _
      · exact marked _ (by simp)
    · refine cuts_ite (fun _ => cuts_pure _) fun _ => ?_
      refine cuts_ite (fun _ => cuts_fail _ _ _) fun _ => ?_
      refine cuts_ite (fun _ => cuts_fail _ _ _) fun _ => ?_
      refine cuts_ite (fun _ => cuts_pure _) fun _ => ?_
      exact cuts_ite (fun _ => cuts_fail _ _ _) fun _ => cuts_fail _ _ _

theorem cuts_separator (ht : Terminator (some terminator)) (k : Cursor) :
    Cuts t (fun d k₁ => d ≠ .terminator ∧ k₁.Over) (separator (some terminator) noColon)
      (separator (some terminator) noColon) k := by
  refine cuts_position_bind ?_
  refine (cuts_gap k).bind (fun b _ _ => cuts_mark ht _ b) fun b k₁ _ hover => ?_
  refine (fades_mark ht _ b hover).mono ?_
  rintro d k₂ ⟨rfl | rfl, hover₂⟩
  · exact ⟨by simp, hover₂⟩
  · exact ⟨by simp, hover₂⟩

/-- A colon in front of the cut is one in the whole text. -/
theorem separator_colon {o : Option Char} {d : Separator}
    (h : separator o noColon k = (.ok .colon, k₁))
    (h' : separator o noColon (k.extended t) = (.ok d, k')) : d = .colon := by
  obtain ⟨s, hk, hseparated, hcolon⟩ := of_separator h
  generalize hr : k₁.rest = r at hseparated
  cases hseparated with
  | @colon g g' _ b b' hg hg' =>
    obtain ⟨k₂, hk₂, hk₁⟩ := (hk.extended (t := t)).split
    have hsolid : Solid k₂.rest := by
      rw [hk₁.rest, List.cons_append]
      exact .cons rfl (by decide)
    have hgap : gap (k.extended t) = (.ok b, k₂) := gap_eq_ok.mpr ⟨g, hk₂, hg.before hsolid⟩
    rw [hcolon rfl, separator_eq, bind_ok (position_apply _), bind_ok hgap, mark,
      bind_ok (position_apply k₂), bind_ok (peek_apply k₂), hk₁.head] at h'
    obtain ⟨_, k₃, -, h'⟩ := bind_eq_ok.mp h'
    obtain ⟨_, k₄, -, h'⟩ := bind_eq_ok.mp h'
    exact (pure_eq_ok.mp h').1.symm

theorem wordOrCall_spent {w : List Char} (hword : word k = (.ok w, k₁)) (hspent : k₁.Spent) :
    wordOrCall k = (.ok (w, false), k₁) := by
  obtain ⟨b, k₂, hgap, hover⟩ := hspent
  have hopen : k₂.rest.head? ≠ some '(' := fun hc => absurd (hover.head hc) (by decide)
  rw [wordOrCall, bind_ok hword, bind_ok (get_apply k₁), bind_ok hgap, bind_ok (peek_apply k₂),
    if_neg hopen, bind_ok (set_apply k₂ k₁)]
  rfl

/-- A word that goes on to the cut is one, if not the same. -/
theorem cuts_wordOrCall (k : Cursor) :
    Cuts t (fun r k₁ => r.2 = false ∧ k₁.Spent) wordOrCall wordOrCall k := by
  rcases hword : word k with ⟨e | w, k₁⟩
  · exact .fades (.error (bind_error hword) (formal_word _ _ _ hword))
  by_cases hspent : k₁.Spent
  · exact .fades (.ok (wordOrCall_spent hword hspent) ⟨rfl, hspent⟩)
  · have hne : k₁.rest ≠ [] := fun hr => hspent (Over.spent (.inl hr))
    obtain ⟨hk, hw, hstops⟩ := word_eq_ok.mp hword
    have hword' : word (k.extended t) = (.ok w, k₁.extended t) := by
      refine word_eq_ok.mpr ⟨hk.extended, hw, ?_⟩
      intro c hc
      exact hstops c (by rw [← head_extended hne, hc])
    refine cuts_same_bind hword hword' ?_
    refine cuts_get_bind ?_
    refine (cuts_gap k₁).bind (fun b k₂ hgap => ?_) fun b k₂ hgap hover => ?_
    · have hover : ¬k₂.Over := fun hover => hspent ⟨b, k₂, hgap, hover⟩
      have hne₂ := rest_ne_nil_of_not_over hover
      refine cuts_peek_bind hne₂ ?_
      refine cuts_ite (fun _ => cuts_advance_bind hne₂ (cuts_pure _)) fun _ => ?_
      exact cuts_same_bind (set_apply k₂ k₁) (set_apply (k₂.extended t) (k₁.extended t))
        (cuts_pure _)
    · exact absurd ⟨b, k₂, hgap, hover⟩ hspent

/-- A literal is either closed in front of the cut or not closed at all. -/
theorem cuts_quoted {q : Char} (hq : q = '"' ∨ q = '\'') {r : List Char} (hr : k.rest = q :: r) :
    Cuts t (fun _ _ => False) (quoted q) (quoted q) k := by
  rcases hrun : quoted q k with ⟨e | str, k₁⟩
  · exact .fades (.error hrun (formal_quoted q _ _ _ hrun))
  · obtain ⟨cs, body, hk, hspells, rfl⟩ := of_quoted hq (by rw [hr]; rfl) hrun
    exact .same hrun (quoted_of_spells hq hk.extended hspells)

theorem cuts_raw {q : Char} {r : List Char} (hr : k.rest = 'r' :: q :: r) :
    Cuts t (fun _ _ => False) (raw q) (raw q) k := by
  rcases hrun : raw q k with ⟨e | str, k₁⟩
  · exact .fades (.error hrun (formal_raw q _ _ _ hrun))
  · obtain ⟨cs, hk, hcs, rfl⟩ := of_raw hr hrun
    exact .same hrun (raw_of_content hk.extended hcs)

end Cuts

end Scan

end Cjson
