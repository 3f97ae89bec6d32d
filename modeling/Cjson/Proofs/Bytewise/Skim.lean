import Cjson.Proofs.Bytewise.Literal
import Cjson.Proofs.Conduct

namespace Cjson

open Cjson.Action Cursor

namespace Scan

variable {x c : Char} {room t : List Char} {k k' : Cursor}

/-- How an expression is passed over, judging by its first characters. -/
inductive PassesAs (room : List Char) : List Char → Scan Unit → Prop
  | raw {q : Char} {t : List Char} (quote : q = '"' ∨ q = '\'') :
      PassesAs room ('r' :: q :: t) (discard (raw q))
  | quoted {q : Char} {t : List Char} (quote : q = '"' ∨ q = '\'') :
      PassesAs room (q :: t) (skimQuoted q)
  | brackets {c terminator : Char} {t : List Char} (closing : closing? c = some terminator) :
      PassesAs room (c :: t)
        (advance >>= fun _ => skimListing (skim room) terminator >>= fun _ => advance)
  | word {c : Char} {t : List Char} (noQuote : ¬(c = '"' ∨ c = '\''))
      (noBracket : closing? c = none)
      (notRaw : ∀ q, q = '"' ∨ q = '\'' → c = 'r' → t.head? ≠ some q) :
      PassesAs room (c :: t) (wordOrCall >>= fun r =>
        if r.2 then skimListing (skim room) ')' >>= fun _ => advance else pure ())

theorem skim_passesAs (x : Char) (room : List Char) (hne : k.rest ≠ []) :
    ∃ y, skim (x :: room) k = y k ∧ PassesAs room k.rest y := by
  rw [skim, bind_ok (rest_apply k)]
  generalize k.rest = r at hne
  split
  · exact absurd rfl hne
  · exact ⟨_, rfl, .raw (.inl rfl)⟩
  · exact ⟨_, rfl, .raw (.inr rfl)⟩
  · rename_i c t hdouble hsingle
    by_cases hquote : c = '"' ∨ c = '\''
    · exact ⟨_, by rw [if_pos hquote], .quoted hquote⟩
    · rw [if_neg hquote]
      cases hclosing : closing? c with
      | some terminator => exact ⟨_, rfl, .brackets hclosing⟩
      | none =>
        refine ⟨_, rfl, .word hquote hclosing ?_⟩
        rintro q hq rfl hhead
        obtain ⟨u, rfl⟩ := List.head?_eq_some_iff.mp hhead
        rcases hq with rfl | rfl
        · exact hdouble u rfl rfl
        · exact hsingle u rfl rfl

/-- An expression that is passed over takes a character. -/
theorem skim_shortens (h : skim room k = (.ok (), k')) : k'.rest.length < k.rest.length := by
  cases room with
  | nil => exact absurd h throw_ne_ok
  | cons x room =>
    by_cases hne : k.rest = []
    · rw [skim, bind_ok (rest_apply k), hne] at h
      exact absurd h throw_ne_ok
    · obtain ⟨y, hskim, hy⟩ := skim_passesAs x room hne
      rw [hskim] at h
      have listing : ∀ {k₁ : Cursor} {terminator : Char},
          (skimListing (skim room) terminator >>= fun _ => advance) k₁ = (.ok (), k') →
          k'.rest.length ≤ k₁.rest.length := fun h =>
        (((forward_skimListing (forward_skim room) _).bind fun _ => forward_advance)
          _ _ _ h).length_le
      have hfirst : ∀ {c : Char} {t : List Char}, k.rest = c :: t →
          k.next.rest.length < k.rest.length := by
        intro c t hr
        rw [(next_of_rest hr).2, hr, List.length_cons]
        omega
      generalize hr : k.rest = r at hy
      cases hy with
      | raw hq =>
        obtain ⟨str, hraw, -⟩ := map_eq_ok.mp h
        obtain ⟨cs, hk, -⟩ := of_raw hr hraw
        have := hk.length
        simp only [List.length_append, List.length_cons] at this
        rw [← hr]
        omega
      | quoted hq =>
        rw [skimQuoted, bind_ok (position_apply k), bind_ok (advance_apply k)] at h
        have := (forward_skimQuotedFrom _ _ _ _ h).length_le
        exact Nat.lt_of_le_of_lt this (hr ▸ hfirst hr)
      | brackets hclosing =>
        rw [bind_ok (advance_apply k)] at h
        exact Nat.lt_of_le_of_lt (listing h) (hr ▸ hfirst hr)
      | word noQuote noBracket notRaw =>
        obtain ⟨⟨w, called⟩, k₁, hword, h⟩ := bind_eq_ok.mp h
        have hshort := wordOrCall_shortens hword
        rw [hr] at hshort
        cases called with
        | false =>
          obtain ⟨-, rfl⟩ := pure_eq_ok.mp h
          exact hshort
        | true => exact Nat.lt_of_le_of_lt (listing h) hshort

/-- A step of the loop that passes over the items of a listing. -/
def skimStep (expression : Scan Unit) (terminator : Char) (opening : Nat) :
    Scan (Turn Unit Unit) := do
  match ← peek with
  | none => fail (.unclosedBracket terminator) (opening - 1)
  | some c =>
    if c = terminator then
      return .done ()
    if c = ',' ∨ c = ':' ∨ c = ';' ∨ c = '=' then
      advance
    else
      expression
    let _ ← gap
    return .again ()

/-- The loop itself. -/
def skimItems (expression : Scan Unit) (terminator : Char) (opening : Nat) : Scan Unit :=
  Action.untilDone Cursor.rest (.internal "A listing outlived its text.")
    (fun () => skimStep expression terminator opening) ()

theorem skimListing_eq (expression : Scan Unit) (terminator : Char) :
    skimListing expression terminator = (do
      let opening ← position
      let _ ← gap
      skimItems expression terminator opening) := rfl

end Scan

namespace Bytewise

variable {e : Extent} {start k k' : Cursor}

section Quoted

variable {q : Char} {opening : Nat}

/-- Passes over what is left of a literal. -/
def skimsOn (q : Char) (opening : Nat) : Scan Unit := fun k =>
  Scan.skimQuotedFrom q opening k.position k.rest

theorem skimsOn_escape {c : Char} {t : List Char} (hr : k.rest = '\\' :: c :: t) :
    skimsOn q opening k = skimsOn q opening k.next.next := by
  obtain ⟨hnext, hr₁⟩ := next_of_rest hr
  obtain ⟨hnext₁, hr₂⟩ := next_of_rest hr₁
  rw [skimsOn, skimsOn, hr, hr₂, Scan.skimQuotedFrom, hnext₁.position, hnext.position]
  rfl

theorem skimsOn_other {c : Char} {t : List Char} (hr : k.rest = c :: t)
    (hescape : c = '\\' → t = []) (hquote : c ≠ q) :
    skimsOn q opening k = skimsOn q opening k.next := by
  obtain ⟨hnext, ht⟩ := next_of_rest hr
  rw [skimsOn, skimsOn, hr, ht, Scan.skimQuotedFrom, if_neg hquote, hnext.position]
  · rfl
  · intro d u hc ht
    rw [hescape hc] at ht
    cases ht

theorem skimsOn_quote {t : List Char} (hq : q ≠ '\\') (hr : k.rest = q :: t) :
    skimsOn q opening k = (.ok (), k.next) := by
  obtain ⟨hnext, ht⟩ := next_of_rest hr
  have hk : k.next = ⟨k.position + q.utf8Size, t⟩ := hnext.unique ⟨hr, rfl⟩
  rw [skimsOn, hr, Scan.skimQuotedFrom, if_pos rfl, hk]
  exact fun _ _ hc => absurd hc hq

theorem skimQuotedTurn_turns (hq : q ≠ '\\') (hopening : start.Holds opening)
    (hk : e.Stands start k) :
    Turns start (fun (_ : Unit) _ y => y = skimsOn q opening) (skimQuotedTurn e q opening)
      (skimsOn q opening) k := by
  have hpeek := peek_apply hk.here
  cases hr : k.rest with
  | nil =>
    rw [hr] at hpeek
    refine .problem (p := .unclosedString q) ?_ ?_ (.refl k) hopening
    · obtain ⟨p, r⟩ := k
      cases hr
      rfl
    · rw [skimQuotedTurn, bind_ok hpeek]
      rfl
  | cons c t =>
    rw [hr] at hpeek
    obtain ⟨hnext, ht⟩ := next_of_rest hr
    have hs₁ := hk.passes hnext
    have hpeek₁ := peek_apply hs₁.here
    have hp₁ : k.position + c.utf8Size = k.next.position := by
      rw [hnext.position]
      rfl
    have hshort : k.next.rest.length < k.rest.length := by
      rw [ht, hr, List.length_cons]
      omega
    rw [ht] at hpeek₁
    by_cases hescape : c = '\\'
    · subst hescape
      have hturn : skimQuotedTurn e q opening k.position = skimEscaped e k.next.position := by
        rw [skimQuotedTurn, bind_ok hpeek]
        dsimp only [List.head?_cons]
        rw [bind_ok (move_apply _ _), hp₁]
        exact congrFun (if_pos rfl) _
      rw [skimEscaped, bind_ok hpeek₁] at hturn
      cases t with
      | nil =>
        exact .again (skimsOn_other hr (fun _ => rfl) (Ne.symm hq)) hturn (reaches_next k)
          hshort rfl
      | cons d t =>
        obtain ⟨hnext₁, ht₁⟩ := next_of_rest ht
        refine .again (b := ()) (skimsOn_escape hr) ?_
          ((reaches_next k).trans (reaches_next k.next)) ?_ rfl
        · rw [hturn, hnext₁.position]
          rfl
        · rw [ht₁, hr, List.length_cons, List.length_cons]
          omega
    · have hturn : skimQuotedTurn e q opening k.position =
          (.ok (if c = q then .done () else .again ()), k.next.position) := by
        rw [skimQuotedTurn, bind_ok hpeek]
        dsimp only [List.head?_cons]
        rw [bind_ok (move_apply _ _), hp₁, if_neg hescape]
        rfl
      by_cases hquote : c = q
      · subst hquote
        rw [if_pos rfl] at hturn
        exact .last (skimsOn_quote hq hr) hturn (reaches_next k)
      · rw [if_neg hquote] at hturn
        exact .again (skimsOn_other hr (fun h => absurd h hescape) hquote) hturn (reaches_next k)
          hshort rfl

theorem skimQuoted_follows (hq : q = '"' ∨ q = '\'') {t : List Char} (hk : e.Stands start k)
    (hr : k.rest = q :: t) : Follows start (skimQuoted e q) (Scan.skimQuoted q) k := by
  have hne : q ≠ '\\' ∧ q.utf8Size = 1 := by rcases hq with rfl | rfl <;> decide
  obtain ⟨hnext, -⟩ := next_of_rest hr
  have hp : k.position + 1 = k.next.position := by
    rw [hnext.position, Text.size_cons, hne.2]
    rfl
  have hloop : Follows start (untilDone e (fun () => skimQuotedTurn e q k.position) ())
      (skimsOn q k.position) k.next := by
    refine follows_untilDone (R := fun _ _ y => y = skimsOn q k.position) ?_
      (hk.passes hnext) rfl
    rintro _ k₁ y hk₁ rfl
    exact skimQuotedTurn_turns hne.1 ⟨k, hk.reached, rfl⟩ hk₁
  refine .steps ?_ ?_ (reaches_next k) hloop
  · rw [skimQuoted, bind_ok (position_apply _), bind_ok (move_apply _ _), hp]
  · rw [Scan.skimQuoted, bind_ok (Scan.position_apply k), bind_ok (Scan.advance_apply k)]
    rfl

end Quoted

section Listing

variable {x : Bytewise Unit} {y : Scan Unit} {terminator : Char}

/-- What is left to the loop over bytes is what is left to the other loop. -/
def ListsOn (y : Scan Unit) (terminator : Char) (opening : Nat) (first : Cursor) :
    Unit → Cursor → Scan Unit → Prop
  | (), k, z => first.Reaches k ∧ z = Scan.skimItems y terminator opening

/-- What is passed over between two gaps: a mark, or an expression. -/
def item (c : Char) (y : Scan Unit) : Scan Unit :=
  if c = ',' ∨ c = ':' ∨ c = ';' ∨ c = '=' then Scan.advance else y

theorem skimStep_item {c : Char} {t : List Char} (hr : k.rest = c :: t) (hc : c ≠ terminator)
    (opening : Nat) :
    Scan.skimStep y terminator opening k =
      (item c y >>= fun _ => Scan.gap >>= fun _ => pure (.again ())) k := by
  rw [Scan.skimStep, bind_ok (Scan.peek_apply k), hr]
  dsimp only [List.head?_cons]
  rw [if_neg hc, item]
  split
  · rfl
  · rfl

theorem skimStep_terminator {t : List Char} (hr : k.rest = terminator :: t) (opening : Nat) :
    Scan.skimStep y terminator opening k = (.ok (.done ()), k) := by
  rw [Scan.skimStep, bind_ok (Scan.peek_apply k), hr]
  dsimp only [List.head?_cons]
  rw [if_pos rfl]
  rfl

theorem skimStep_textEnd (hr : k.rest = []) (opening : Nat) :
    Scan.skimStep y terminator opening k =
      (.error (.problem (.unclosedBracket terminator) (opening - 1)), k) := by
  rw [Scan.skimStep, bind_ok (Scan.peek_apply k), hr]
  rfl

theorem item_shortens (hy : ∀ k k', y k = (.ok (), k') → k'.rest.length < k.rest.length)
    {c : Char} {t : List Char} (hr : k.rest = c :: t) (h : item c y k = (.ok (), k')) :
    k'.rest.length < k.rest.length := by
  unfold item at h
  split at h
  · cases h
    rw [(next_of_rest hr).2, hr, List.length_cons]
    omega
  · exact hy _ _ h

/-- A step finds the terminator, or passes over something with the gap behind it. -/
theorem of_skimStep {opening : Nat} {turn : Turn Unit Unit}
    (h : Scan.skimStep y terminator opening k = (.ok turn, k')) :
    (turn = .done () ∧ k' = k ∧ k.rest.head? = some terminator) ∨
      ∃ c t k₁ b, turn = .again () ∧ k.rest = c :: t ∧ c ≠ terminator ∧
        item c y k = (.ok (), k₁) ∧ Scan.gap k₁ = (.ok b, k') := by
  cases hr : k.rest with
  | nil =>
    rw [skimStep_textEnd hr] at h
    cases h
  | cons c t =>
    by_cases hc : c = terminator
    · subst hc
      rw [skimStep_terminator hr] at h
      cases h
      exact .inl ⟨rfl, rfl, rfl⟩
    · rw [skimStep_item hr hc] at h
      obtain ⟨_, k₁, hitem, h⟩ := bind_eq_ok.mp h
      obtain ⟨b, k₂, hgap, h⟩ := bind_eq_ok.mp h
      obtain ⟨rfl, rfl⟩ := pure_eq_ok.mp h
      exact .inr ⟨c, t, k₁, b, rfl, rfl, hc, hitem, hgap⟩

theorem skimStep_shortens (terminator : Char)
    (hy : ∀ k k', y k = (.ok (), k') → k'.rest.length < k.rest.length) (opening : Nat) :
    Shortens Cursor.rest fun () => Scan.skimStep y terminator opening := by
  rintro ⟨⟩ k ⟨⟩ k' h
  rcases of_skimStep h with ⟨hturn, -⟩ | ⟨c, t, k₁, b, -, hr, -, hitem, hgap⟩
  · cases hturn
  · exact Nat.lt_of_le_of_lt (Scan.forward_gap _ _ _ hgap).length_le (item_shortens hy hr hitem)

theorem skimItems_eq (terminator : Char)
    (hy : ∀ k k', y k = (.ok (), k') → k'.rest.length < k.rest.length) (opening : Nat)
    (k : Cursor) :
    Scan.skimItems y terminator opening k =
      match Scan.skimStep y terminator opening k with
      | (.ok (.again _), k') => Scan.skimItems y terminator opening k'
      | (.ok (.done _), k') => (.ok (), k')
      | (.error f, k') => (.error f, k') := by
  rw [Scan.skimItems, untilDone_eq (skimStep_shortens terminator hy opening)]
  rcases Scan.skimStep y terminator opening k with ⟨f | turn, k'⟩
  · rfl
  · cases turn with
    | again => rfl
    | done => rfl

theorem skimTurn_turns {opening : Nat} {first : Cursor} (holds : start.Holds (opening - 1))
    (hx : ∀ k, start.Reaches k → first.Reaches k → k.rest ≠ [] → Follows start x y k)
    (hy : ∀ k k', y k = (.ok (), k') → k'.rest.length < k.rest.length)
    (hk : e.Stands start k) {z : Scan Unit} (h : ListsOn y terminator opening first () k z) :
    Turns start (ListsOn y terminator opening first) (skimTurn e x terminator (opening - 1)) z
      k := by
  obtain ⟨hfirst, rfl⟩ := h
  have hpeek := peek_apply hk.here
  have hunfold := skimItems_eq terminator hy opening
  cases hr : k.rest with
  | nil =>
    rw [hr] at hpeek
    have hscan : Scan.skimItems y terminator opening k =
        (.error (.problem (.unclosedBracket terminator) (opening - 1)), k) := by
      rw [hunfold, skimStep_textEnd hr]
    refine .problem hscan ?_ (.refl k) holds
    rw [skimTurn, bind_ok hpeek]
    rfl
  | cons c t =>
    rw [hr] at hpeek
    by_cases hc : c = terminator
    · subst hc
      refine .last (a := ()) ?_ ?_ (.refl k)
      · rw [hunfold, skimStep_terminator hr]
      · rw [skimTurn, bind_ok hpeek]
        dsimp only [List.head?_cons]
        rw [if_pos rfl]
        rfl
    · have hitem : Follows start (if c = ',' ∨ c = ':' ∨ c = ';' ∨ c = '=' then move 1 else x)
          (item c y) k := by
        refine .ite (fun hmark => ?_) fun _ => hx k hk.reached hfirst (by simp [hr])
        have hsize : c.utf8Size = 1 := by
          rcases hmark with rfl | rfl | rfl | rfl <;> rfl
        rw [← hsize]
        exact follows_move hr
      have hturn : skimTurn e x terminator (opening - 1) k.position =
          ((if c = ',' ∨ c = ':' ∨ c = ';' ∨ c = '=' then move 1 else x) >>= fun _ =>
            gap e >>= fun _ => peek e >>= fun next =>
              pure (if next = some terminator then .done () else .again ())) k.position := by
        rw [skimTurn, bind_ok hpeek]
        dsimp only [List.head?_cons]
        rw [if_neg hc]
        split
        · rfl
        · rfl
      have hstep := hunfold k
      rw [skimStep_item hr hc] at hstep
      cases hitem with
      | @problem p offset k₁ scan bytes reaches holds =>
        rw [bind_error scan] at hstep
        exact .problem hstep (hturn.trans (bind_error bytes)) reaches holds
      | @ok a k₁ scan bytes reaches =>
        rw [bind_ok scan] at hstep
        rw [bind_ok bytes] at hturn
        have hshort := item_shortens hy hr scan
        have hs₁ := hk.forward reaches
        cases gap_follows hs₁ with
        | @problem p offset k₂ scan' bytes' reaches' holds =>
          rw [bind_error scan'] at hstep
          exact .problem hstep (hturn.trans (bind_error bytes')) (reaches.trans reaches') holds
        | @ok b k₂ scan' bytes' reaches' =>
          have hs₂ := hs₁.forward reaches'
          rw [bind_ok scan'] at hstep
          rw [bind_ok bytes', bind_ok (peek_apply hs₂.here)] at hturn
          by_cases hends : k₂.rest.head? = some terminator
          · obtain ⟨u, hr₂⟩ := List.head?_eq_some_iff.mp hends
            rw [if_pos hends] at hturn
            refine .last (a := ()) ?_ hturn (reaches.trans reaches')
            rw [hstep]
            exact (hunfold k₂).trans (by rw [skimStep_terminator hr₂])
          · rw [if_neg hends] at hturn
            refine .again (b := ()) ?_ hturn (reaches.trans reaches')
              (Nat.lt_of_le_of_lt reaches'.length_le hshort)
              ⟨hfirst.trans (reaches.trans reaches'), rfl⟩
            exact hstep

theorem skimListing_follows (hk : e.Stands start k) (behind : start.Behind k)
    (hx : ∀ k', start.Reaches k' → k.Reaches k' → k'.rest ≠ [] → Follows start x y k')
    (hy : ∀ k k', y k = (.ok (), k') → k'.rest.length < k.rest.length) :
    Follows start (skimListing e x terminator) (Scan.skimListing y terminator) k := by
  have hp : 1 ≤ k.position := by
    obtain ⟨k₀, -, -, hposition⟩ := behind
    omega
  have holds := behind.holds
  have hopening : skimListing e x terminator k.position =
      (gap e >>= fun _ => untilDone e (fun () => skimTurn e x terminator (k.position - 1)) ())
        k.position := by
    rw [skimListing, bind_ok (position_apply _), bind_ok (minus_apply hp _)]
  rw [Scan.skimListing_eq]
  refine .steps hopening (bind_ok (Scan.position_apply k)) (.refl k) ?_
  apply (gap_follows hk).bind
  intro _ k₁ _ hk₁
  refine follows_untilDone (R := ListsOn y terminator k.position k) ?_ (hk.forward hk₁)
    ⟨hk₁, rfl⟩
  rintro ⟨⟩ k₂ z hk₂ h
  exact skimTurn_turns holds hx hy hk₂ h

end Listing

section Expressions

variable {room room' : List Char}

theorem closing?_single {c terminator : Char} (h : Scan.closing? c = some terminator) :
    c.utf8Size = 1 ∧ terminator.utf8Size = 1 := by
  unfold Scan.closing? at h
  split at h
  · cases h
    exact ⟨rfl, rfl⟩
  · cases h
    exact ⟨rfl, rfl⟩
  · cases h
    exact ⟨rfl, rfl⟩
  · cases h
    exact ⟨rfl, rfl⟩
  · cases h

variable (e start) in
/-- Expressions are passed over alike from `k` on. -/
def SkimsBehind (room room' : List Char) (k : Cursor) : Prop :=
  ∀ k', start.Reaches k' → k.Reaches k' → k'.rest ≠ [] →
    Follows start (skim e room) (Scan.skim room') k'

/-- A listing is passed over with the bracket that closes it. -/
theorem skimBrackets_follows {terminator : Char} (hk : e.Stands start k)
    (behind : start.Behind k) (hsize : terminator.utf8Size = 1)
    (hroom : SkimsBehind e start room room' k) :
    Follows start (skimListing e (skim e room) terminator >>= fun _ => move 1)
      (Scan.skimListing (Scan.skim room') terminator >>= fun _ => Scan.advance) k := by
  apply (skimListing_follows hk behind hroom fun _ _ => Scan.skim_shortens).bind
  intro _ k₁ hlisting _
  obtain ⟨t, hr⟩ := List.head?_eq_some_iff.mp (Eval.skimListing_onTerminator hlisting)
  rw [← hsize]
  exact follows_move hr

theorem skimWord_follows (hk : e.Stands start k) (hroom : ∀ k', k.Reaches k' →
      k'.rest.length < k.rest.length → SkimsBehind e start room room' k') :
    Follows start (skimWord e (skim e room)) (Scan.wordOrCall >>= fun r =>
      if r.2 then Scan.skimListing (Scan.skim room') ')' >>= fun _ => Scan.advance
      else pure ()) k := by
  rcases word_reads hk with ⟨w, k₁, hscan, hk₁, hword⟩ | ⟨hscan, hword⟩
  · have hs₁ := hk.passes hk₁
    cases gap_follows hs₁ with
    | @ok b k₂ hgap hgap' hk₂ =>
      have hs₂ := hs₁.forward hk₂
      have hpeek := peek_apply hs₂.here
      have hk₁₂ := Reaches.trans ⟨w, hk₁⟩ hk₂
      by_cases hopen : k₂.rest.head? = some '('
      · obtain ⟨t, hr⟩ := List.head?_eq_some_iff.mp hopen
        have hcall := Scan.wordOrCall_of_open hscan hgap hopen
        have hreach := hk₁₂.trans (reaches_next k₂)
        refine .steps ?_ ?_ hreach (skimBrackets_follows
          (hk.forward hreach) (hs₂.reached.behind hr rfl) (show ')'.utf8Size = 1 from rfl)
          (hroom _ hreach (Scan.wordOrCall_shortens hcall)))
        · rw [skimWord, bind_ok hword]
          dsimp only
          rw [bind_ok hgap', bind_ok hpeek, if_pos hopen, bind_ok (move_apply _ _),
            (next_of_rest hr).1.position]
          rfl
        · rw [bind_ok hcall]
          rfl
      · refine .ok (a := ()) ?_ ?_ ⟨w, hk₁⟩
        · rw [bind_ok (Scan.wordOrCall_of_not_open hscan hgap hopen)]
          rfl
        · rw [skimWord, bind_ok hword]
          dsimp only
          rw [bind_ok hgap', bind_ok hpeek, if_neg hopen]
          rfl
    | @problem p offset k₂ hgap hgap' hk₂ holds =>
      refine .problem (bind_error (Scan.wordOrCall_of_gap_error hscan hgap)) ?_
        (.trans ⟨w, hk₁⟩ hk₂) holds
      rw [skimWord, bind_ok hword]
      exact bind_error hgap'
  · exact .problem (bind_error (bind_error hscan)) (bind_error hword) (.refl k)
      ⟨k, hk.reached, rfl⟩

/-- Room beyond what is left of the text makes no difference. -/
theorem skim_follows (hk : e.Stands start k) (hne : k.rest ≠ [])
    (hroom : k.rest.length ≤ room.length) (hroom' : k.rest.length ≤ room'.length) :
    Follows start (skim e room) (Scan.skim room') k := by
  induction room generalizing k room' with
  | nil => exact absurd (List.eq_nil_of_length_eq_zero (Nat.le_zero.mp hroom)) hne
  | cons x room ih =>
    obtain ⟨x', room', rfl⟩ : ∃ x' room'', room' = x' :: room'' := by
      cases room' with
      | nil => exact absurd (List.eq_nil_of_length_eq_zero (Nat.le_zero.mp hroom')) hne
      | cons x' room' => exact ⟨x', room', rfl⟩
    have inner : ∀ k', k.Reaches k' → k'.rest.length < k.rest.length →
        SkimsBehind e start room room' k' := by
      intro k' hk' hshort k'' hreached hk'' hne'
      have := hk''.length_le
      simp only [List.length_cons] at hroom hroom'
      exact ih ⟨hk.shows, hreached⟩ hne' (by omega) (by omega)
    obtain ⟨y, hskim, hy⟩ := Scan.skim_passesAs x' room' hne
    have hpeek := peek_apply hk.here
    generalize hr : k.rest = r at hy
    rw [hr] at hpeek
    cases hy with
    | @raw q t hq =>
      refine .steps ?_ hskim (.refl k) ((raw_follows hk hr).map _)
      rw [skim, bind_ok (position_apply _), bind_ok hpeek]
      dsimp only [List.head?_cons]
      rw [hk.here.charAt?_second hr rfl]
      rcases hq with rfl | rfl
      · rfl
      · rfl
    | @quoted q t hq =>
      refine .steps ?_ hskim (.refl k) (skimQuoted_follows hq hk hr)
      rw [skim, bind_ok (position_apply _), bind_ok hpeek]
      rcases hq with rfl | rfl
      · rfl
      · rfl
    | @brackets c terminator t hclosing =>
      obtain ⟨hsize, hsize'⟩ := closing?_single hclosing
      obtain ⟨hnext, ht⟩ := next_of_rest hr
      have hlisting : Follows start
          (move c.utf8Size >>= fun _ => skimListing e (skim e room) terminator >>= fun _ => move 1)
          (Scan.advance >>= fun _ => Scan.skimListing (Scan.skim room') terminator >>= fun _ =>
            Scan.advance) k := by
        apply (follows_move hr).bind
        intro _ k₁ hadvance hk₁
        cases hadvance
        refine skimBrackets_follows (hk.forward hk₁) (hk.reached.behind hr hsize) hsize'
          (inner _ hk₁ ?_)
        rw [ht, hr, List.length_cons]
        omega
      refine .steps ?_ hskim (.refl k) hlisting
      rw [skim, bind_ok (position_apply _), bind_ok hpeek]
      dsimp only [List.head?_cons]
      rw [hclosing, hsize]
    | @word c t noQuote noBracket notRaw =>
      refine .steps ?_ hskim (.refl k) (skimWord_follows hk inner)
      rw [skim, bind_ok (position_apply _), bind_ok hpeek]
      dsimp only [List.head?_cons]
      rw [noBracket]
      dsimp only
      rw [if_neg noQuote]
      have hnone : rawQuote? c (e.charAt? (k.position + 1)) = none := by
        unfold rawQuote?
        split
        · rename_i hc
          rw [hk.here.charAt?_second hr rfl] at hc
          exact absurd hc (notRaw _ (.inl rfl) rfl)
        · rename_i hc
          rw [hk.here.charAt?_second hr rfl] at hc
          exact absurd hc (notRaw _ (.inr rfl) rfl)
        · rfl
      rw [hnone]

theorem skim_follows_skimExpression (hk : e.Stands start k) (hne : k.rest ≠ [])
    (hroom : k.rest.length ≤ room.length) :
    Follows start (skim e room) Scan.skimExpression k :=
  .steps rfl (show Scan.skimExpression k = Scan.skim k.rest k from rfl) (.refl k)
    (skim_follows hk hne hroom (Nat.le_refl _))

theorem skimExpression_follows (hk : e.Stands start k) (hne : k.rest ≠ []) :
    Follows start (skimExpression e) Scan.skimExpression k := by
  refine .steps ?_ rfl (.refl k)
    (skim_follows_skimExpression hk hne (Nat.le_refl k.rest.length))
  rw [skimExpression, hk.here.rest?]
  rfl

theorem skim_brackets {x c terminator : Char} {t : List Char} (h : e.Shows k)
    (hr : k.rest = c :: t) (hc : Scan.closing? c = some terminator) :
    skim e (x :: room) k.position =
      (skimListing e (skim e room) terminator >>= fun _ => move 1) k.next.position := by
  have hpeek := peek_apply h
  rw [hr] at hpeek
  rw [skim, bind_ok (position_apply _), bind_ok hpeek]
  dsimp only [List.head?_cons]
  rw [hc]
  dsimp only
  rw [bind_ok (move_apply _ _), (next_of_rest hr).1.position, Text.size_cons,
    (closing?_single hc).1]
  rfl

/-- The inside of a listing is passed over where the whole of it is, from its bracket on. -/
theorem skimMap_follows {k₀ : Cursor} {c terminator : Char} {t : List Char}
    (hk₀ : e.Stands start k₀) (hr : k₀.rest = c :: t) (hc : Scan.closing? c = some terminator) :
    Follows start (skimMap e) (Scan.skimListing Scan.skimExpression terminator) k₀.next := by
  obtain ⟨hsize, hsize'⟩ := closing?_single hc
  obtain ⟨hnext, ht⟩ := next_of_rest hr
  have hk := hk₀.passes hnext
  have hp : k₀.next.position = k₀.position + 1 := by
    rw [hnext.position, Text.size_cons, hsize]
    rfl
  have hexpression : skimExpression e k₀.position =
      (skimListing e (skim e t) terminator >>= fun _ => move 1) k₀.next.position := by
    rw [skimExpression, hk₀.here.rest?, hr]
    exact skim_brackets hk₀.here hr hc
  have hbytes : skimMap e k₀.next.position = (skimExpression e >>= fun _ =>
      position >>= fun last => minus last k₀.position >>= fun _ => minus last 1 >>= moveTo)
        k₀.position := by
    rw [skimMap, bind_ok (position_apply _), bind_ok (minus_apply (by omega) _), hp,
      Nat.add_sub_cancel, bind_ok (moveTo_apply _ _)]
  have hlisting : Follows start (skimListing e (skim e t) terminator)
      (Scan.skimListing Scan.skimExpression terminator) k₀.next := by
    refine skimListing_follows hk (hk₀.reached.behind hr hsize) ?_ fun _ _ => Scan.skim_shortens
    intro k' hreached hk' hne
    exact skim_follows_skimExpression ⟨hk₀.shows, hreached⟩ hne (ht ▸ hk'.length_le)
  cases hlisting with
  | @ok a k' scan bytes reaches =>
    refine .ok (a := a) scan ?_ reaches
    have hle : k₀.position ≤ k'.position + 1 := by
      obtain ⟨s, hs⟩ := reaches
      have := hs.position
      omega
    rw [hbytes, bind_ok (hexpression.trans (bind_ok bytes)), bind_ok (position_apply _),
      bind_ok (minus_apply hle _), bind_ok (minus_apply (Nat.le_add_left 1 k'.position) _),
      Nat.add_sub_cancel]
    rfl
  | @problem p offset k' scan bytes reaches holds =>
    refine .problem scan ?_ reaches holds
    rw [hbytes]
    exact bind_error (hexpression.trans (bind_error bytes))

end Expressions
end Bytewise
end Cjson
