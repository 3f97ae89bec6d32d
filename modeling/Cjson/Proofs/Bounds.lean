import Cjson.Proofs.Budget

namespace Cjson

open Cjson.Action Cursor

/-- Room beyond the characters that are left makes no difference. -/
theorem Eval.expression_of_room {σ : Type} {env : Environment σ} {source : Source}
    {room : List Char} {role : Role} {s : Session σ}
    (hroom : s.cursor.rest.length ≤ room.length) :
    expression env source room role s = anyExpression env source role s := by
  have hs := ahead_start s.cursor
  have recorded : ∀ room : List Char, s.cursor.rest.length ≤ room.length →
      Recorded (expression env source room role)
        (expression env.recording source s.cursor.rest role) s
        (RoleKept env source s.cursor (.item role.force) role s) :=
    fun room hroom => expression_recorded _ rfl hs hroom (Nat.le_refl _)
  exact (recorded room hroom).unique recorded_injective (recorded s.cursor.rest (Nat.le_refl _))

namespace Callback

/-- A scope is to be entered, whatever the answer is. -/
def isEnter : Callback → Bool
  | notified e _ _ => e.isEnter
  | resolved _ _ _ _ => false

def isLeave : Callback → Bool
  | notified e _ _ => !e.isEnter
  | resolved _ _ _ _ => false

def isResolved : Callback → Bool
  | notified _ _ _ => false
  | resolved _ _ _ _ => true

/-- No more scopes are left than are entered, and no more calls are resolved than scopes are
left, `spare` of which are none of a call. -/
structure Covered (spare : Nat) (l : List Callback) : Prop where
  leaves : l.countP isLeave ≤ l.countP isEnter
  resolves : l.countP isResolved + spare ≤ l.countP isLeave

section Covered

variable {l l' : List Callback}

theorem covered_nil : Covered 0 [] :=
  ⟨Nat.le_refl _, Nat.le_refl _⟩

theorem Covered.append (h : Covered 0 l) (h' : Covered 0 l') : Covered 0 (l ++ l') := by
  refine ⟨?_, ?_⟩
  · rw [List.countP_append, List.countP_append]
    exact Nat.add_le_add h.leaves h'.leaves
  · have hl := h.resolves
    have hl' := h'.resolves
    rw [List.countP_append, List.countP_append]
    omega

theorem Covered.spare (h : Covered 1 l) : Covered 0 l :=
  ⟨h.leaves, Nat.le_of_succ_le h.resolves⟩

theorem Covered.scope (h : Covered 0 l) (scope : Scope) (context context' : Context)
    (entered left : Except EnvironmentError Signal) :
    Covered 1 (notified (.enter scope) context entered ::
      l ++ [notified (.leave scope) context' left]) := by
  have hcount : ∀ p : Callback → Bool, List.countP p (notified (.enter scope) context entered ::
      l ++ [notified (.leave scope) context' left]) = l.countP p +
        List.countP p [notified (.enter scope) context entered,
          notified (.leave scope) context' left] := by
    intro p
    simp only [List.cons_append, List.countP_cons, List.countP_append, Nat.add_assoc]
  refine ⟨?_, ?_⟩
  · rw [hcount, hcount]
    exact Nat.add_le_add_right h.leaves 1
  · rw [hcount, hcount]
    exact Nat.add_le_add_right h.resolves 1

theorem Covered.resolved (h : Covered 1 l) (function : String) (vs : List Value)
    (context : Context) (answer : Except EnvironmentError Value) :
    Covered 0 (l ++ [.resolved function vs context answer]) := by
  refine ⟨?_, ?_⟩
  · rw [List.countP_append, List.countP_append]
    exact h.leaves
  · rw [List.countP_append, List.countP_append]
    exact h.resolves

end Covered
end Callback

section Nested

variable {σ : Type} {env : Environment σ} {source : Source} {start : Cursor}

mutual

theorem Nested.covered {site : Site} {st st' : σ} {l : List Callback}
    (h : Nested env source start site st l st') : Callback.Covered 0 l := by
  match h with
  | .nil => exact Callback.covered_nil
  | .append first others => exact first.covered.append others.covered
  | .refused enter => exact ⟨Nat.zero_le _, Nat.zero_le _⟩
  | .scope _ _ inner _ _ => exact (inner.covered.scope _ _ _ _ _).spare
  | .call called _ => exact called.covered.resolved _ _ _ _
  | .unresolved _ _ inner _ _ => exact (inner.covered.scope _ _ _ _ _).spare

/-- The parameters of a call are a scope, so there is one for the call itself. -/
theorem Called.covered {site : Site} {function : String} {vs : List Value} {st st' : σ}
    {l : List Callback} {k : Cursor} (h : Called env source start site function vs st l k st') :
    Callback.Covered 1 l := by
  match h with
  | .intro _ _ inner _ => exact inner.covered.scope _ _ _ _ _

end

theorem Unbracketed.covered {force : Bool} {st st' : σ} {l : List Callback}
    (h : Unbracketed env source start force st l st') : Callback.Covered 0 l := by
  cases h with
  | refused _ => exact ⟨Nat.zero_le _, Nat.zero_le _⟩
  | entered _ inner _ => exact (inner.covered.scope _ _ _ _ _).spare

end Nested

theorem Environment.counts_enter {σ : Type} (env : Environment σ) :
    env.recording.Counts fun t => t.2.countP Callback.isEnter := by
  refine ⟨?_, ?_, ?_⟩
  · intro scope context target t
    simp [recording, Callback.isEnter, Event.isEnter]
  · intro scope context target t
    simp [recording, Callback.isEnter, Event.isEnter]
  · intro function vs context t
    simp [recording, Callback.isEnter]

section Sessions

variable {σ α : Type}

theorem Text.length_le_size (s : List Char) : s.length ≤ size s := by
  induction s with
  | nil => exact Nat.le_refl _
  | cons c s ih =>
    have := Char.utf8Size_pos c
    rw [List.length_cons, size_cons]
    omega

theorem Text.exists_size (n : Nat) : ∃ s, size s = n := by
  induction n with
  | zero => exact ⟨[], rfl⟩
  | succ n ih =>
    obtain ⟨s, rfl⟩ := ih
    exact ⟨' ' :: s, Nat.add_comm _ _⟩

/-- There is a text for any cursor to stand in. -/
theorem Extent.exists_shows (k : Cursor) : ∃ e : Extent, e.Shows k := by
  obtain ⟨before, hsize⟩ := Text.exists_size k.position
  refine ⟨⟨before ++ k.rest, k.position + Text.size k.rest⟩, before, [], ?_, hsize.symm, ?_⟩
  · rw [List.append_nil]
  · rw [hsize]

theorem EvaluationError.not_inside_internal {source : Source} {e : Extent} {first : Nat}
    {message : String} : ¬(EvaluationError.internal message).Inside source e first := by
  rintro ⟨p, offset, h, -⟩
  cases h

section Contains

variable {env : Environment σ} {source : Source} {e : Extent} {start : Cursor}
  {x : Eval (σ × List Callback) α} {st : σ} {plain : Except EvaluationError α × σ} {l : List Step}

/-- No loop and no recursion of a session runs out of room. -/
theorem Contains.not_stuck (h : Contains env source e start x st plain l) (message : String) :
    Step.found (.internal message) ∉ l := by
  intro hmem
  rcases (h.safe _ hmem).fails _ rfl with hinside | ⟨c, hc, -⟩
  · exact EvaluationError.not_inside_internal hinside
  · cases hc

theorem Contains.raised (h : Contains env source e start x st plain l) {message : String}
    (hplain : plain.1 = .error (.internal message)) :
    ∃ c ∈ callbacks l, c.Raises (.internal message) := by
  rcases h.fails _ hplain with hinside | hraised
  · exact absurd hinside EvaluationError.not_inside_internal
  · exact hraised

end Contains

/-- The steps of a session of `n` bytes, which comes out like the one that is not recorded. It
ends, as nothing in it runs out of room; if an internal error comes of it all the same, the
environment raised it. On its way it enters no more than `n + 1` scopes, in vain or not, and it
leaves no more scopes, and resolves no more calls. -/
structure Bounds (env : Environment σ) (source : Source) (n : Nat) (start : Cursor)
    (x : Eval (σ × List Callback) α) (st : σ) (plain : Except EvaluationError α × σ)
    (l : List Step) : Prop where
  course : Course env.recording source start id x ⟨start, (st, [])⟩ l
  recorded : x.run start (st, []) = (plain.1, plain.2, callbacks l)
  ends (message : String) : Step.found (.internal message) ∉ l
  raised (message : String) (h : plain.1 = .error (.internal message)) :
    ∃ c ∈ callbacks l, c.Raises (.internal message)
  enters : (callbacks l).countP Callback.isEnter ≤ n + 1
  leaves : (callbacks l).countP Callback.isLeave ≤ (callbacks l).countP Callback.isEnter
  resolves : (callbacks l).countP Callback.isResolved ≤ (callbacks l).countP Callback.isLeave

/-- A session of `n` bytes ends after a number of callbacks that is linear in `n`. -/
def Bounded (env : Environment σ) (source : Source) (n : Nat) (start : Cursor)
    (x : Eval (σ × List Callback) α) (st : σ) (plain : Except EvaluationError α × σ) : Prop :=
  ∃ l, Bounds env source n start x st plain l

theorem Eval.bounded_run {env : Environment σ} {source : Source} {k : Cursor} {st : σ}
    {x : Eval σ α} {y : Eval (σ × List Callback) α}
    (conducted : Conducted env source k y st (x.run k st))
    (covered : Recorded x y ⟨k, st⟩ fun _ _ l => Callback.Covered 0 l)
    (pays : Pays (fun t => t.2.countP Callback.isEnter) id 1 0 y ⟨k, (st, [])⟩) :
    Bounded env source (Text.size k.rest) k y st (x.run k st) := by
  obtain ⟨e, he⟩ := Extent.exists_shows k
  obtain ⟨l, hcontains⟩ := conducted.contained he
  obtain ⟨r, s', record, -, hy, hcovered⟩ := covered []
  simp only [Session.recorded, List.nil_append] at hy
  obtain rfl : record = callbacks l := by
    have hrun := hcontains.recorded
    rw [run, hy] at hrun
    exact congrArg (fun t => t.2.2) hrun
  have henters : (callbacks l).countP Callback.isEnter ≤ k.rest.length + 1 := by
    have hcount := Accounted.count_le pays
    rw [hy] at hcount
    exact Nat.le_trans hcount (by simp [Session.total])
  have hsize := Text.length_le_size k.rest
  exact ⟨l, hcontains.course, hcontains.recorded, hcontains.not_stuck, fun _ => hcontains.raised,
    by omega, hcovered.leaves, hcovered.resolves⟩

variable (env : Environment σ) (source : Source) (force : Bool) (k : Cursor) (st : σ)

theorem Eval.single_bounded :
    Bounded env source (Text.size k.rest) k (single env.recording source force) st
      ((single env source force).run k st) := by
  refine bounded_run (single_conducted env source force k st) ?_ ?_
  · exact (single_logged force k st).mono fun _ _ _ _ h => h.nested.covered
  · exact (pays_single force env.counts_enter).mono (Nat.zero_le _) (Nat.le_refl _)

theorem Eval.openList_bounded :
    Bounded env source (Text.size k.rest) k (openList env.recording source force) st
      ((openList env source force).run k st) := by
  refine bounded_run (openList_conducted env source force k st) ?_ ?_
  · exact (openList_logged force k st).mono fun _ _ _ _ h => h.nested.covered
  · exact pays_openList force env.counts_enter

theorem Eval.openMap_bounded :
    Bounded env source (Text.size k.rest) k (openMap env.recording source force) st
      ((openMap env source force).run k st) := by
  refine bounded_run (openMap_conducted env source force k st) ?_ ?_
  · exact (openMap_recorded force k st).mono fun _ _ _ _ h => h.covered
  · exact pays_openMap force env.counts_enter

/-- Every session ends, having entered at most one scope more than its text has bytes, and every
expression that is evaluated or skipped takes a character of it. -/
theorem sessions_bounded :
    (Bounded env source (Text.size source.text) (.ofSource source)
      (Eval.single env.recording source force) st (evaluate env force source st)) ∧
    (Bounded env source (Text.size source.text) (.ofSource source)
      (Eval.openList env.recording source force) st (evaluateList env force source st)) ∧
    (Bounded env source (Text.size source.text) (.ofSource source)
      (Eval.openMap env.recording source force) st (evaluateMap env force source st)) ∧
    (∀ f : Fragment, Bounded env f.source (Text.size f.text) (.ofFragment f)
      (Eval.single env.recording f.source force) st (evaluateFragment env force f st)) ∧
    (∀ room role (s : Session σ), s.cursor.rest.length ≤ room.length →
      Eval.expression env source room role s = Eval.anyExpression env source role s) ∧
    (∀ room role (s s' : Session σ) v,
      Eval.expression env source room role s = (.ok v, s') → s.cursor.Advances s'.cursor) ∧
    ∀ k k' : Cursor, Scan.skimExpression k = (.ok (), k') → k.Advances k' := by
  refine ⟨?_, ?_, ?_, ?_, ?_, ?_, ?_⟩
  · exact Eval.single_bounded env source force (.ofSource source) st
  · exact Eval.openList_bounded env source force (.ofSource source) st
  · exact Eval.openMap_bounded env source force (.ofSource source) st
  · exact fun f => Eval.single_bounded env f.source force (.ofFragment f) st
  · exact fun room role s hroom => Eval.expression_of_room hroom
  · exact fun room role s s' v h => Eval.expression_advances h
  · exact fun k k' h => Scan.skimExpression_advances h

end Sessions

/-- A list is taken to its end, even one that could not be evaluated. -/
theorem sessions_bounded_list :
    ∃ s' : Session Unit,
      Eval.expression .simple ⟨"[]".toList, none⟩ (List.replicate 3 ' ') .key
        ⟨⟨0, "[]".toList⟩, ()⟩ = (.ok (.list []), s') ∧
      Advances ⟨0, "[]".toList⟩ s'.cursor ∧ s'.cursor.rest = [] ∧
      Scan.skimExpression ⟨0, "[,;]".toList⟩ = (.ok (), ⟨4, []⟩) ∧
      Advances ⟨0, "[,;]".toList⟩ ⟨4, []⟩ := by
  obtain ⟨-, -, -, -, hroom, hexpression, hskim⟩ := sessions_bounded .simple
    ⟨"[]".toList, none⟩ false ()
  have hany : Eval.anyExpression .simple ⟨"[]".toList, none⟩ .key ⟨⟨0, "[]".toList⟩, ()⟩ =
      (.ok (.list []), ⟨⟨2, []⟩, ()⟩) := rfl
  have hskimmed : Scan.skimExpression ⟨0, "[,;]".toList⟩ = (.ok (), ⟨4, []⟩) := rfl
  have hrun := (hroom (List.replicate 3 ' ') .key ⟨⟨0, "[]".toList⟩, ()⟩ (by decide)).trans hany
  exact ⟨_, hrun, hexpression _ _ _ _ _ hrun, rfl, hskimmed, hskim _ _ hskimmed⟩

-- A map without brackets is a scope, whatever there is in it.
example :
    ((Eval.openMap Environment.simple.recording ⟨[], none⟩ false).run ⟨0, []⟩ ((), [])).2.2.countP
      Callback.isEnter = 1 := rfl

end Cjson
