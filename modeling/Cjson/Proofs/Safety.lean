import Cjson.Proofs.Bytewise.Numeral
import Cjson.Proofs.Bytewise.Skim
import Cjson.Proofs.Failure

namespace Cjson

open Cjson.Action Cursor

namespace Look

/-- The scan as it goes over bytes. -/
def bytewise (e : Extent) : (look : Look) → Bytewise look.Result
  | gap => Bytewise.gap e
  | peek => Bytewise.peek e
  | advance => Bytewise.move 1
  | separator terminator noColon => Bytewise.separator e terminator noColon
  | quoted q => Bytewise.quoted e q
  | raw q => Bytewise.raw e q
  | wordOrCall => Bytewise.wordOrCall e
  | skimExpression => Bytewise.skimExpression e
  | skimListing _ => Bytewise.skimMap e

theorem follows {e : Extent} {start k : Cursor} {look : Look} (hk : e.Stands start k)
    (ready : look.Ready start k) : Follows start (look.bytewise e) look.scan k := by
  cases look with
  | gap => exact Bytewise.gap_follows hk
  | peek => exact Bytewise.follows_peek hk.here
  | advance =>
    obtain ⟨c, t, hr, hc⟩ := ready
    have hmove : Follows start (Bytewise.move c.utf8Size) Scan.advance k :=
      Bytewise.follows_move hr
    rwa [hc] at hmove
  | separator terminator noColon => exact Bytewise.separator_follows hk terminator noColon
  | quoted q =>
    obtain ⟨hq, t, hr⟩ := ready
    exact Bytewise.quoted_follows hq hk hr
  | raw q =>
    obtain ⟨-, t, hr⟩ := ready
    exact Bytewise.raw_follows hk hr
  | wordOrCall => exact Bytewise.wordOrCall_follows hk
  | skimExpression => exact Bytewise.skimExpression_follows hk ready
  | skimListing terminator =>
    obtain ⟨k₀, c, t, hk₀, hr, hc, rfl⟩ := ready
    exact Bytewise.skimMap_follows ⟨hk.shows, hk₀⟩ hr hc

end Look

namespace Callback

def context : Callback → Context
  | notified _ context _ | resolved _ _ context _ => context

/-- The environment answered with an evaluation error. -/
def Raises (err : EvaluationError) : Callback → Prop
  | notified _ _ answer => answer = .error (.evaluation err)
  | resolved _ _ _ answer => answer = .error (.evaluation err)

end Callback

theorem Extent.Stands.admits {e : Extent} {start k : Cursor} (h : e.Stands start k) :
    e.Admits start.position k.position := by
  obtain ⟨s, hs⟩ := h.reached
  refine ⟨?_, h.here.le_stop, h.here.boundary⟩
  rw [hs.position]
  exact Nat.le_add_right _ _

theorem Extent.Shows.admits {e : Extent} {start : Cursor} {offset : Nat} (he : e.Shows start)
    (h : start.Holds offset) : e.Admits start.position offset := by
  obtain ⟨k, hk, rfl⟩ := h
  exact Extent.Stands.admits ⟨he, hk⟩

section Safe

variable (source : Source) (e : Extent) (first : Nat)

/-- The error is located in what the session has of its source. -/
def EvaluationError.Inside (err : EvaluationError) : Prop :=
  ∃ p offset, err = .located p ⟨source, offset⟩ ∧ e.Admits first offset

/-- A step that does not leave the text. A scan makes of the bytes what it makes of the
characters, which is no panic. The environment is told an offset between characters. An error
is located in the text, unless it is the environment that raised it. -/
structure Step.Safe (step : Step) : Prop where
  reads (look : Look) (k : Cursor) (h : step = .scanned look k) :
    look.bytewise e k.position =
      ((look.scan k).1.mapError .fault, (look.scan k).2.position)
  tells (c : Callback) (h : step.callback? = some c) :
    c.context.source = source ∧ e.Admits first c.context.position
  fails (err : EvaluationError) (h : step.failure? source = some err) :
    err.Inside source e first ∨ ∃ c, step.callback? = some c ∧ c.Raises err

/-- Steps from `k` to `k'`, with callbacks on the way that never go back. -/
structure Moves (k k' : Cursor) (l : List Step) : Prop where
  reaches : k.Reaches k'
  safe (step : Step) (h : step ∈ l) : step.Safe source e first
  between (c : Callback) (h : c ∈ callbacks l) :
    k.position ≤ c.context.position ∧ c.context.position ≤ k'.position
  ordered : (callbacks l).Pairwise fun c d => c.context.position ≤ d.context.position

end Safe

section Moves

variable {source : Source} {e : Extent} {first : Nat} {k k₁ k' : Cursor}

theorem Cursor.Reaches.position_le (h : k.Reaches k') : k.position ≤ k'.position := by
  obtain ⟨s, hs⟩ := h
  have := hs.position
  omega

theorem Moves.append {l l' : List Step} (h : Moves source e first k k₁ l)
    (h' : Moves source e first k₁ k' l') : Moves source e first k k' (l ++ l') := by
  have hle := h.reaches.position_le
  have hle' := h'.reaches.position_le
  refine ⟨h.reaches.trans h'.reaches, ?_, ?_, ?_⟩
  · intro step hstep
    rcases List.mem_append.mp hstep with hstep | hstep
    · exact h.safe step hstep
    · exact h'.safe step hstep
  · intro c hc
    rw [callbacks_append] at hc
    rcases List.mem_append.mp hc with hc | hc
    · have := h.between c hc
      omega
    · have := h'.between c hc
      omega
  · rw [callbacks_append]
    refine List.pairwise_append.mpr ⟨h.ordered, h'.ordered, ?_⟩
    intro c hc d hd
    have := h.between c hc
    have := h'.between d hd
    omega

/-- Steps without a callback. -/
theorem Moves.quiet {l : List Step} (hk : k.Reaches k')
    (hl : ∀ step ∈ l, step.Safe source e first) (hquiet : callbacks l = []) :
    Moves source e first k k' l := by
  refine ⟨hk, hl, ?_, ?_⟩
  · simp [hquiet]
  · simp [hquiet]

theorem Moves.refl (k : Cursor) : Moves source e first k k [] :=
  .quiet (.refl k) (by simp) rfl

theorem Step.Safe.found {p : Problem} {offset : Nat} (h : e.Admits first offset) :
    (Step.found (.located p ⟨source, offset⟩)).Safe source e first := by
  refine ⟨?_, ?_, ?_⟩
  · intro look k he
    cases he
  · intro c hc
    cases hc
  · intro err herr
    cases herr
    exact .inl ⟨p, offset, rfl, h⟩

/-- A callback is blamed where it says, unless it gives the error itself. -/
theorem Step.Safe.called {c : Callback} {blamed : Nat} (hsource : c.context.source = source)
    (hposition : e.Admits first c.context.position) (hblamed : e.Admits first blamed) :
    (Step.called c blamed).Safe source e first := by
  refine ⟨?_, ?_, ?_⟩
  · intro look k he
    cases he
  · intro d hd
    cases hd
    exact ⟨hsource, hposition⟩
  · intro err herr
    have located : ∀ p, EvaluationError.located p ⟨source, blamed⟩ = err →
        err.Inside source e first := by
      rintro p rfl
      exact ⟨p, blamed, rfl, hblamed⟩
    cases c with
    | notified event context answer =>
      rcases answer with (raised | text) | signal
      · cases herr
        exact .inr ⟨_, rfl, rfl⟩
      · exact .inl (located _ (Option.some.inj herr))
      · cases herr
    | resolved function vs context answer =>
      rcases answer with (raised | text) | v
      · cases herr
        exact .inr ⟨_, rfl, rfl⟩
      · exact .inl (located _ (Option.some.inj herr))
      · cases herr

theorem Moves.called {c : Callback} {blamed : Nat} (hcontext : c.context = ⟨source, k.position⟩)
    (hk : e.Admits first k.position) (hblamed : e.Admits first blamed) :
    Moves source e first k k [.called c blamed] := by
  refine ⟨.refl k, ?_, ?_, List.pairwise_singleton _ _⟩
  · intro step hstep
    rw [List.mem_singleton.mp hstep]
    exact .called (by rw [hcontext]) (by rwa [hcontext]) hblamed
  · intro d hd
    rw [List.mem_singleton.mp hd, hcontext]
    exact ⟨Nat.le_refl _, Nat.le_refl _⟩

/-- A scan finds what it finds in the text, and stays in it. -/
theorem Moves.scanned {start : Cursor} {look : Look} {r : Except Fault look.Result}
    (hk : e.Stands start k) (ready : look.Ready start k) (run : look.scan k = (r, k')) :
    Moves source e start.position k k' (.scanned look k :: Step.faults source r) := by
  have hfollows := look.follows hk ready
  have hreads : (Step.scanned look k).Safe source e start.position := by
    refine ⟨?_, ?_, ?_⟩
    · intro look' k'' he
      cases he
      exact hfollows.agrees
    · intro c hc
      cases hc
    · intro err herr
      cases herr
  cases hfollows with
  | ok scan bytes reaches =>
    rw [run] at scan
    cases scan
    refine .quiet reaches ?_ rfl
    intro step hstep
    rw [List.mem_singleton.mp hstep]
    exact hreads
  | problem scan bytes reaches holds =>
    rw [run] at scan
    cases scan
    refine .quiet reaches ?_ rfl
    intro step hstep
    rcases List.mem_cons.mp hstep with rfl | hstep
    · exact hreads
    · rw [List.mem_singleton.mp hstep]
      exact .found (hk.shows.admits holds)

end Moves

section Course

variable {σ τ α : Type} {env : Environment σ} {source : Source} {start : Cursor}
  {view : τ → Session σ} {e : Extent}

theorem Named.holds {opening : Nat} {function : String} {k : Cursor}
    (h : Named start opening function k) : start.Holds opening := by
  obtain ⟨k₀, w, hreach, hposition, -⟩ := h
  exact ⟨k₀, hreach, hposition⟩

theorem Supplied.holds {opening : Nat} {function : String} {vs : List Value} {s : Session σ}
    (h : Supplied env source start opening function vs s) : start.Holds opening := by
  obtain ⟨k, st, room, force, named, -⟩ := h
  exact named.holds

theorem Blames.holds {scope : Scope} {opening : Nat} {s : Session σ}
    (h : Blames env source start scope opening s) (hs : start.Reaches s.cursor) :
    start.Holds opening := by
  cases scope with
  | entry key =>
    obtain ⟨s₀, s₁, room, called, terminator, d, hreach, hposition, -⟩ := h
    exact ⟨s₀.cursor, hreach, hposition⟩
  | arguments function => exact Named.holds h
  | list => exact ⟨s.cursor, hs, h.symm⟩
  | map => exact ⟨s.cursor, hs, h.symm⟩

/-- Wherever a session has got to, whatever it does next leads on in its text. -/
theorem Course.moves (he : e.Shows start) {x : Action EvaluationError τ α} {t : τ}
    {l : List Step} (h : Course env source start view x t l)
    (hreach : start.Reaches (view t).cursor) :
    Moves source e start.position (view t).cursor (view (x t).2).cursor l := by
  induction h with
  | pure a t => exact .refl _
  | get t => exact .refl _
  | edit f t => exact .refl _
  | @scan look s r k' reached ready run =>
    dsimp only [id_eq]
    rw [Eval.scan_state run]
    exact .scanned ⟨he, reached⟩ ready run
  | fail s holds =>
    refine .quiet (.refl _) ?_ rfl
    intro step hstep
    rw [List.mem_singleton.mp hstep]
    exact .found (he.admits holds)
  | bindOk first run rest ih ih' =>
    have hfirst := ih hreach
    rw [run] at hfirst
    rw [bind_ok run]
    exact hfirst.append (ih' (hreach.trans hfirst.reaches))
  | bindError first run ih =>
    have hfirst := ih hreach
    rw [run] at hfirst
    rw [bind_error run]
    exact hfirst
  | untilDone steps ih => exact ih hreach
  | anyExpression steps ih => exact ih hreach
  | inside b steps ih => exact ih hreach
  | building steps ih =>
    dsimp only [id_eq]
    rw [Eval.building_state]
    exact ih hreach
  | @resolve function vs opening s answer st supplied answers =>
    have hcursor : (Eval.resolve env source function vs opening s).2.cursor = s.cursor := rfl
    dsimp only [id_eq]
    rw [hcursor]
    exact .called rfl (Extent.Stands.admits ⟨he, hreach⟩) (he.admits supplied.holds)
  | @refused _ scope opening body s err target st blames reached enter =>
    have hcursor : (Eval.within env source scope opening body s).2.cursor = s.cursor := by
      simp only [Eval.within, enter]
    dsimp only [id_eq]
    rw [hcursor]
    exact .called rfl (Extent.Stands.admits ⟨he, reached⟩) (he.admits (blames.holds reached))
  | @entered _ scope opening body s s₁ signal t t₁ t' st st' r answer l blames reached enter steps
      run leave ih =>
    have hbody := ih reached
    rw [run] at hbody
    have hreached₁ := reached.trans hbody.reaches
    have henter : Moves source e start.position s.cursor s.cursor
        [.called (.notified (.enter scope) ⟨source, s.cursor.position⟩ (.ok signal)) opening] :=
      .called rfl (Extent.Stands.admits ⟨he, reached⟩) (he.admits (blames.holds reached))
    have hleave : Moves source e start.position s₁.cursor s₁.cursor
        [.called (.notified (.leave scope) ⟨source, s₁.cursor.position⟩ answer)
          s₁.cursor.position] :=
      .called rfl (Extent.Stands.admits ⟨he, hreached₁⟩) (Extent.Stands.admits ⟨he, hreached₁⟩)
    dsimp only [id_eq]
    rw [Eval.within_state enter run leave]
    exact (henter.append hbody).append hleave

end Course

section Sessions

variable {σ α : Type}

/-- The steps of a session from `start` on, which comes out like the one that is not recorded.
None of them leaves the text, the environment is never told to have gone back, and an error
that comes out is located in the text, unless the environment raised it. -/
structure Contains (env : Environment σ) (source : Source) (e : Extent) (start : Cursor)
    (x : Eval (σ × List Callback) α) (st : σ) (plain : Except EvaluationError α × σ)
    (l : List Step) : Prop where
  starts : start.position ≤ e.stop
  course : Course env.recording source start id x ⟨start, (st, [])⟩ l
  recorded : x.run start (st, []) = (plain.1, plain.2, callbacks l)
  safe (step : Step) (h : step ∈ l) : step.Safe source e start.position
  ordered : (callbacks l).Pairwise fun c d => c.context.position ≤ d.context.position
  fails (err : EvaluationError) (h : plain.1 = .error err) :
    err.Inside source e start.position ∨ ∃ c ∈ callbacks l, c.Raises err

/-- A session from `start` on that never leaves its text. -/
def Contained (env : Environment σ) (source : Source) (e : Extent) (start : Cursor)
    (x : Eval (σ × List Callback) α) (st : σ) (plain : Except EvaluationError α × σ) : Prop :=
  ∃ l, Contains env source e start x st plain l

theorem Conducted.contained {env : Environment σ} {source : Source} {e : Extent}
    {start : Cursor} {x : Eval (σ × List Callback) α} {st : σ}
    {plain : Except EvaluationError α × σ} (h : Conducted env source start x st plain)
    (he : e.Shows start) : Contained env source e start x st plain := by
  obtain ⟨l, hl, hrun, -, hhalts⟩ := h
  have hmoves := hl.moves he (.refl start)
  refine ⟨l, he.le_stop, hl, hrun, hmoves.safe, hmoves.ordered, ?_⟩
  intro err herr
  rw [herr] at hhalts
  cases hhalts with
  | @failed before after step _ opened smooth fails opens unwinds =>
    have hmem : step ∈ before ++ step :: after := by simp
    rcases (hmoves.safe step hmem).fails err fails with hinside | ⟨c, hc, hraises⟩
    · exact .inl hinside
    · exact .inr ⟨c, List.mem_filterMap.mpr ⟨step, hmem, hc⟩, hraises⟩

/-- An environment that never interferes raises nothing. -/
theorem Course.unraised {τ : Type} {source : Source} {start : Cursor}
    {view : τ → Session (σ × List Callback)} {x : Action EvaluationError τ α} {t : τ}
    {l : List Step}
    (h : Course (Environment.simple : Environment σ).recording source start view x t l) :
    ∀ c ∈ callbacks l, ∀ err, ¬c.Raises err := by
  induction h with
  | pure a t | get t | edit f t | fail s holds =>
    intro c hc
    cases hc
  | @scan look s r k' reached ready run =>
    intro c hc
    rcases r with (⟨p, offset⟩ | message) | a
    · cases hc
    · cases hc
    · cases hc
  | bindOk first run rest ih ih' =>
    intro c hc
    rw [callbacks_append] at hc
    rcases List.mem_append.mp hc with hc | hc
    · exact ih c hc
    · exact ih' c hc
  | bindError first run ih => exact ih
  | untilDone steps ih | anyExpression steps ih | inside b steps ih | building steps ih =>
    exact ih
  | resolve supplied answers =>
    intro c hc err hraises
    rw [List.mem_singleton.mp hc] at hraises
    cases answers
    cases hraises
  | refused blames reached enter => cases enter
  | @entered _ scope opening body s s₁ signal t t₁ t' st st' r answer l blames reached enter steps
      run leave ih =>
    intro c hc err hraises
    rw [callbacks_append] at hc
    rcases List.mem_append.mp hc with hc | hc
    · rcases List.mem_cons.mp hc with rfl | hc
      · cases hraises
      · exact ih c hc err hraises
    · rw [List.mem_singleton.mp hc] at hraises
      cases leave
      cases hraises

/-- Where nobody interferes, whatever fails has its place in the text. -/
theorem evaluate_located {force : Bool} {source : Source} {st : σ} {err : EvaluationError}
    (h : (evaluate .simple force source st).1 = .error err) :
    ∃ p l, err = .located p l := by
  obtain ⟨steps, hcontains⟩ :=
    (single_conducted .simple source force _ st).contained (.ofSource source)
  rcases hcontains.fails err h with ⟨p, offset, rfl, -⟩ | ⟨c, hc, hraises⟩
  · exact ⟨p, _, rfl⟩
  · exact absurd hraises (hcontains.course.unraised c hc err)

/-- No session leaves its text, be it all of a source or a fragment between any two offsets,
nor does it leave a word which it reads as a number. -/
theorem sessions_contained (env : Environment σ) (force : Bool) (st : σ) (source : Source) :
    (Contained env source (.whole source.text) (.ofSource source)
      (Eval.single env.recording source force) st (evaluate env force source st)) ∧
    (Contained env source (.whole source.text) (.ofSource source)
      (Eval.openList env.recording source force) st (evaluateList env force source st)) ∧
    (Contained env source (.whole source.text) (.ofSource source)
      (Eval.openMap env.recording source force) st (evaluateMap env force source st)) ∧
    (∀ first last, Contained env source
      ⟨source.text, (Fragment.ofOffsets source first last).stop⟩
      (.ofFragment (.ofOffsets source first last))
      (Eval.single env.recording source force) st
      (evaluateFragment env force (.ofOffsets source first last) st)) ∧
    ∀ (w : List Char) (offset : Nat),
      Bytewise.numeral w offset = (.ok (Numeral.read? w), offset) := by
  refine ⟨?_, ?_, ?_, ?_, Bytewise.numeral_apply⟩
  · exact (single_conducted env source force _ st).contained (.ofSource source)
  · exact (openList_conducted env source force _ st).contained (.ofSource source)
  · exact (openMap_conducted env source force _ st).contained (.ofSource source)
  · intro first last
    exact (single_conducted env source force _ st).contained (.ofFragment source first last)

end Sessions
end Cjson
