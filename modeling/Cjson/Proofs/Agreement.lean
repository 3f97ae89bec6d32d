import Cjson.Proofs.Lockstep

namespace Cjson

open Cjson.Action Cursor

section Passing

variable {σ : Type} {source : Source}

/-- What evaluates is passed over up to the same place. -/
theorem Eval.skim_of_expression {x : Char} {room : List Char} {force : Bool} {s s' : Session σ}
    {v : Value} (hroom : s.cursor.rest.length ≤ (x :: room).length)
    (h : expression .simple source (x :: room) (.value force) s = (.ok v, s')) :
    Scan.skim (x :: room) s.cursor = (.ok (), s'.cursor) := by
  have spelled : ∀ {t : Tree} {u : List Char}, s.cursor.Passes u s'.cursor →
      t.Spelled Word u → (∀ w, t ≠ .word w) →
      Scan.skim (x :: room) s.cursor = (.ok (), s'.cursor) := by
    intro t u hk ht hword
    have := hk.length
    exact Scan.skim_of_spelled (by omega) ht hk fun w he => absurd he (hword w)
  have hreads : Recognizes force (expression .simple source room .key : Eval σ Value)
      (expression .simple source room (.value force)) :=
    expression_recognizes room force
  rcases of_expression h with ⟨t, hs, h⟩ | ⟨t, hs, h⟩ | ⟨str, u, hk, hu, rfl, -⟩ | ⟨hraw, h⟩
  · obtain ⟨es, b, g, u, hg, hu, hk, rfl⟩ := of_map hreads hs h
    exact spelled hk (.map hg hu) (by simp)
  · obtain ⟨ts, u, hk, hu, rfl⟩ := of_list hreads hs h
    exact spelled hk hu (by simp)
  · exact Scan.skim_literal hu hk
  · obtain ⟨⟨w, called⟩, k, hword, h⟩ := of_scan_bind h
    obtain ⟨hw, hk⟩ := Scan.of_wordOrCall hword
    cases called with
    | true =>
      obtain ⟨b, g, hg, hk⟩ := hk
      obtain ⟨vs, s₂, harguments, h⟩ := bind_eq_ok.mp h
      obtain ⟨ts, b', g', u, hg', hu, hk₂, rfl⟩ := of_arguments hreads harguments
      rw [if_neg (by simp)] at h
      obtain ⟨-, rfl⟩ := of_resolve h
      have hpass := hk.trans hk₂
      refine spelled (u := w ++ g ++ '(' :: g' ++ u ++ [')']) ?_ (.call hw hg hg' hu) (by simp)
      simpa using hpass
    | false =>
      obtain ⟨-, rfl⟩ := pure_eq_ok.mp h
      have hbegins : Text.BeginsWord s.cursor.rest := by
        obtain ⟨c, w, rfl, hc⟩ := hw.cons
        refine ⟨c, w ++ k.rest, hk.rest, hc, ?_⟩
        rintro q hq rfl hhead
        obtain ⟨r, hr⟩ := List.head?_eq_some_iff.mp hhead
        refine hraw q r hq ?_
        rw [hk.rest, List.cons_append, hr]
      rw [Scan.skim_word hbegins, bind_ok hword]
      rfl

/-- No gap is in front of what is passed over. -/
theorem Scan.solid_of_skim {room u : List Char} {k k' : Cursor} (hk : k.Passes u k')
    (h : skim room k = (.ok (), k')) : u ≠ [] ∧ Solid u := by
  have hshort := skim_shortens h
  have hlength := hk.length
  obtain ⟨c, u, rfl⟩ := List.exists_cons_of_length_pos (show 0 < u.length by omega)
  suffices hc : Character.isBlank c = false ∧ c ≠ '/' from
    ⟨List.cons_ne_nil c u, .cons hc.1 hc.2⟩
  have hr : k.rest = c :: (u ++ k'.rest) := hk.rest
  cases room with
  | nil => exact absurd h throw_ne_ok
  | cons x room =>
    obtain ⟨y, hskim, hy⟩ := skim_passesAs x room (k := k) (by simp [hr])
    rw [hskim] at h
    rw [hr] at hy
    generalize u ++ k'.rest = r at hr hy
    cases hy with
    | raw hq => decide
    | quoted hq =>
      rcases hq with rfl | rfl
      · decide
      · decide
    | brackets hclosing =>
      unfold closing? at hclosing
      split at hclosing
      · decide
      · decide
      · decide
      · decide
      · cases hclosing
    | word noQuote noBracket notRaw =>
      obtain ⟨⟨w, called⟩, k₁, hword, -⟩ := bind_eq_ok.mp h
      obtain ⟨hw, hk⟩ := of_wordOrCall hword
      have hopens : Text.Opens k.rest := by
        cases called with
        | true =>
          obtain ⟨b, g, -, hk⟩ := hk
          rw [hk.rest, List.append_assoc, List.append_assoc]
          exact hw.opens.append _
        | false =>
          rw [Passes.rest hk]
          exact hw.opens.append _
      obtain ⟨d, u, hrest, hd⟩ := hopens
      rw [hr] at hrest
      cases hrest
      exact ⟨Character.isBlank_of_opens hd, Character.ne_of_opens hd rfl⟩

/-- Where an expression is all of the text, nothing else makes a difference. -/
theorem Eval.single_alone {force : Bool} {k : Cursor} {st : σ} (hsolid : Solid k.rest)
    (hne : k.rest ≠ []) (hend : ∀ v s,
      anyExpression .simple source (.value force) ⟨k, st⟩ = (.ok v, s) → s.cursor.rest = []) :
    (single .simple source force ⟨k, st⟩).1 =
      (anyExpression .simple source (.value force) ⟨k, st⟩).1 := by
  rw [single, bind_ok (scan_ok (Scan.gap_solid hsolid) st),
    bind_ok (scan_ok (Scan.peek_apply k) st), if_neg (by simpa using hne)]
  rcases hrun : anyExpression .simple source (.value force) ⟨k, st⟩ with ⟨e | v, ⟨k', st'⟩⟩
  · exact congrArg Prod.fst (bind_error hrun)
  · have hr : k'.rest = [] := hend v _ hrun
    refine congrArg Prod.fst ((bind_ok hrun).trans ?_ : _ = (Except.ok v, Session.mk k' st'))
    rw [bind_ok (scan_ok (Scan.gap_end hr) st'), bind_ok (scan_ok (Scan.peek_apply k') st'),
      if_neg (by simp [hr])]
    rfl

/-- The expression that is passed over evaluates as it does where the text ends behind it. -/
theorem Eval.agrees_anyExpression {k k' : Cursor} {u : List Char} (hk : k.Passes u k')
    (h : Scan.skimExpression k = (.ok (), k')) (role : Role) (st : σ) :
    Agrees k'.rest (fun _ k₁ => k₁.rest = []) (anyExpression .simple source role)
      (anyExpression .simple source role) ⟨⟨k.position, u⟩, st⟩ := by
  have hstart : Cursor.extended k'.rest ⟨k.position, u⟩ = k := by
    rw [extended, ← hk.rest]
  have hlength : u.length ≤ k.rest.length := by
    have := hk.length
    omega
  have hlockstep : Lockstep k'.rest u.length k.rest
      (expression .simple source u role : Eval σ Value) (expression .simple source k.rest role) :=
    expression_lockstep k'.rest u.length role k.rest (Nat.le_refl _) hlength
  have hagrees : Agrees k'.rest (fun _ k₁ => k₁ = ⟨k'.position, []⟩)
      (expression .simple source u role) (expression .simple source k.rest role)
      ⟨⟨k.position, u⟩, st⟩ := by
    refine hlockstep.passed (Nat.le_refl _) ?_ (.inl rfl)
    rw [hstart]
    exact h
  refine (hagrees.mono ?_).congr rfl ?_
  · rintro _ ⟨_, st₁⟩ rfl
    rfl
  · rw [Session.extended, hstart]
    rfl

end Passing

section Agreement

variable {σ : Type} {source : Source} {k : Cursor}

/-- Where an expression evaluates, it is passed over up to the same place. Where one is passed
over, the fragment of it evaluates as it does in its place, to the same value or to the same
error. -/
theorem skimming_agrees (hk : k.In source) (force : Bool) (st : σ) :
    (∀ v s, Eval.anyExpression .simple source (.value force) ⟨k, st⟩ = (.ok v, s) →
      Scan.skimExpression k = (.ok (), s.cursor)) ∧
    ∀ k', Scan.skimExpression k = (.ok (), k') →
      (evaluateFragment .simple force (.ofOffsets source k.position k'.position) st).1 =
        (Eval.anyExpression .simple source (.value force) ⟨k, st⟩).1 := by
  refine ⟨?_, ?_⟩
  · intro v s h
    change Scan.skim k.rest k = _
    change Eval.expression .simple source k.rest (.value force) ⟨k, st⟩ = _ at h
    cases hr : k.rest with
    | nil =>
      rw [Eval.expression_end _ _ _ _ hr] at h
      cases h
    | cons x r =>
      rw [hr] at h
      exact Eval.skim_of_expression (by rw [hr]) h
  · intro k' h
    obtain ⟨u, hu⟩ := Scan.forward_skimExpression _ _ _ h
    have hagrees : Eval.Agrees k'.rest (fun _ k₁ => k₁.rest = [])
        (Eval.anyExpression .simple source (.value force))
        (Eval.anyExpression .simple source (.value force)) ⟨⟨k.position, u⟩, st⟩ :=
      Eval.agrees_anyExpression hu h (.value force) st
    obtain ⟨hne, hsolid⟩ := Scan.solid_of_skim hu h
    have hstart : Session.extended k'.rest ⟨⟨k.position, u⟩, st⟩ = ⟨k, st⟩ := by
      rw [Session.extended, extended, ← hu.rest]
    rw [evaluateFragment_of_slice? (hu.slice? hk), ← hstart, ← hagrees.result_eq]
    exact Eval.single_alone hsolid hne fun v s => hagrees.of_ok

/-- A literal is passed over as it evaluates; one with an escape that means nothing is passed
over, too, and fails alike in both places. -/
theorem skimming_agrees_escape :
    Cursor.In ⟨"é 'a' b".toList, none⟩ ⟨3, "'a' b".toList⟩ ∧
    Scan.skimExpression ⟨3, "'a' b".toList⟩ = (.ok (), ⟨6, " b".toList⟩) ∧
    Cursor.In ⟨"é '\\q' b".toList, none⟩ ⟨3, "'\\q' b".toList⟩ ∧
    (evaluateFragment .simple false (.ofOffsets ⟨"é '\\q' b".toList, none⟩ 3 7) ()).1 =
      .error (.located (.invalidEscape 'q') ⟨⟨"é '\\q' b".toList, none⟩, 4⟩) := by
  have hplain : Cursor.In ⟨"é 'a' b".toList, none⟩ ⟨3, "'a' b".toList⟩ :=
    ⟨['é', ' '], [], rfl, rfl⟩
  have hescaped : Cursor.In ⟨"é '\\q' b".toList, none⟩ ⟨3, "'\\q' b".toList⟩ :=
    ⟨['é', ' '], [], rfl, rfl⟩
  have hvalue : Eval.anyExpression .simple ⟨"é 'a' b".toList, none⟩ (.value false)
      ⟨⟨3, "'a' b".toList⟩, ()⟩ =
        (.ok (.string (.ofList ['a'])), ⟨⟨6, " b".toList⟩, ()⟩) := rfl
  have hskim : Scan.skimExpression ⟨3, "'\\q' b".toList⟩ = (.ok (), ⟨7, " b".toList⟩) := rfl
  have hpassed := (skimming_agrees hplain false ()).1 _ _ hvalue
  have hfragment := (skimming_agrees hescaped false ()).2 _ hskim
  exact ⟨hplain, hpassed, hescaped, hfragment.trans rfl⟩

end Agreement

section Whole

/-- The text is one expression: passing over that gets to the end. -/
def Text.Whole (text : List Char) : Prop :=
  Scan.skimExpression ⟨0, text⟩ = (.ok (), ⟨Text.size text, []⟩)

variable {σ : Type} {text : List Char}

theorem Text.passes_whole (text : List Char) :
    Cursor.Passes ⟨0, text⟩ text ⟨size text, []⟩ :=
  ⟨(List.append_nil text).symm, (Nat.zero_add _).symm⟩

theorem Text.Whole.solid (h : Whole text) : text ≠ [] ∧ Solid text :=
  Scan.solid_of_skim (passes_whole text) h

theorem Text.whole_of_spelled {t : Tree} (ht : t.Spelled Word text) : Whole text := by
  have hends : WordEnds (([] : List Char) ++ []) :=
    (Gap.nil.before .nil).wordEnds (fun _ _ hc => by cases hc) (by simp)
  exact Scan.skimExpression_of_spelled ht (passes_whole text) hends

/-- A text that is one expression is a spelling of it. -/
theorem Text.Whole.spelled (h : Whole text) {force : Bool} {file : Option String} {st : σ}
    {v : Value} (hv : (evaluate .simple force ⟨text, file⟩ st).1 = .ok v) :
    ∃ t : Tree, t.Spelled Word text ∧ t.value force = v := by
  obtain ⟨t, ⟨b, g, s, b', g', hg, ht, hg', htext⟩, hvalue⟩ := evaluate_simple_iff.mp hv
  dsimp only at htext
  have hsolid := h.solid.2
  rw [htext, List.append_assoc] at hsolid
  cases hg.eq_nil hsolid
  rw [List.nil_append] at htext
  have hends : WordEnds (g' ++ []) := hg'.wordEnds (fun _ _ hc => by cases hc) (by simp)
  have hpasses : Cursor.Passes ⟨0, text⟩ s ⟨size s, g'⟩ := ⟨htext, (Nat.zero_add _).symm⟩
  have hskim := Scan.skimExpression_of_spelled ht hpasses (by simpa using hends)
  rw [Text.Whole, hskim] at h
  obtain rfl : g' = [] := congrArg (fun r => r.2.rest) h
  rw [List.append_nil] at htext
  exact ⟨t, htext ▸ ht, hvalue⟩

end Whole

end Cjson
