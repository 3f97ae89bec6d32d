import Cjson.Proofs.Recording

namespace Cjson

/-- The cursor is reached from `start`, and at most `n` characters are left. -/
structure Cursor.Ahead (start : Cursor) (n : Nat) (k : Cursor) : Prop where
  reached : start.Reaches k
  left : k.rest.length ≤ n

theorem Cursor.Ahead.forward {start k k' : Cursor} {n : Nat} (h : start.Ahead n k)
    (hk : k.Reaches k') : start.Ahead n k' :=
  ⟨h.reached.trans hk, Nat.le_trans hk.length_le h.left⟩

namespace Eval

open Cjson.Action Cursor

variable {σ α β γ δ : Type} {env : Environment σ} {source : Source} {start : Cursor}
  {site : Site} {n : Nat}

section Listings

variable {kind : Cjson.Listing} {terminator : Option Char}

/-- A loop is recorded as its steps are. -/
theorem loop_logged {stuck : EvaluationError} {step : γ → Build β σ (Turn γ δ)}
    {step' : γ → Build β (σ × List Callback) (Turn γ δ)}
    (hstep : ∀ c b s, start.Ahead n s.cursor →
      BuildLogged env source start site (step c) (step' c) b s)
    (room : List Char) (c : γ) (b : β) {s : Session σ} (hs : start.Ahead n s.cursor) :
    BuildLogged env source start site (loop stuck step room c) (loop stuck step' room c) b s := by
  induction room generalizing c b s with
  | nil =>
    unfold loop
    apply buildLogged_bind (hstep c b s hs)
    intro turn b₁ s₁ _ _
    cases turn with
    | again _ => exact records_throw (.refl _ _)
    | done d => exact buildLogged_pure d b₁
  | cons x room ih =>
    unfold loop
    apply buildLogged_bind (hstep c b s hs)
    intro turn b₁ s₁ _ hreach
    cases turn with
    | again c' => exact ih c' b₁ (hs.forward hreach)
    | done d => exact buildLogged_pure d b₁

theorem itemOrEnd_logged {item : Build β σ Bool} {item' : Build β (σ × List Callback) Bool}
    {opening : Nat} {b : β} {s : Session σ}
    (hitem : BuildLogged env source start site item item' b s) :
    BuildLogged env source start site (itemOrEnd source kind terminator opening item)
      (itemOrEnd source kind terminator opening item') b s := by
  unfold itemOrEnd
  apply inside_bind_logged position_logged
  intro here s₁ hp _
  cases hp
  apply inside_bind_logged (forward_logged Scan.forward_peek)
  intro next s₁ hpeek _
  cases hpeek
  have ended : ∀ turn : Turn Unit Unit, BuildLogged env source start site
      (pure turn : Build β σ (Turn Unit Unit)) (pure turn) b s :=
    fun turn => buildLogged_pure turn b
  have read : BuildLogged env source start site
      (item >>= fun last => pure (if last then Turn.done () else Turn.again ()) :
        Build β σ (Turn Unit Unit))
      (item' >>= fun last => pure (if last then Turn.done () else Turn.again ())) b s :=
    buildLogged_bind hitem fun _ b₁ _ _ _ => buildLogged_pure _ b₁
  cases s.cursor.rest.head? with
  | none =>
    cases terminator with
    | none => exact ended _
    | some t => exact inside_logged (fail_logged _ _) b
  | some c =>
    dsimp only
    by_cases hterm : some c = terminator
    · simp only [if_pos hterm]
      exact ended _
    · simp only [if_neg hterm]
      by_cases hcomma : c = ','
      · simp only [if_pos hcomma]
        exact inside_bind_logged (fail_logged _ _) fun _ _ hfail _ => absurd hfail fail_ne_ok
      · simp only [if_neg hcomma]
        exact read

theorem listing_logged {item : Build β σ Bool} {item' : Build β (σ × List Callback) Bool}
    (hitem : ∀ b s, start.Ahead n s.cursor → BuildLogged env source start site item item' b s)
    (b : β) {s : Session σ} (hs : start.Ahead n s.cursor) :
    BuildLogged env source start site (listing source kind terminator item)
      (listing source kind terminator item') b s := by
  unfold listing
  apply inside_bind_logged position_logged
  intro opening s₁ hp _
  cases hp
  apply inside_bind_logged (forward_logged Scan.forward_gap)
  intro lineBreak s₁ _ hreach
  unfold untilDone
  exact loop_logged (fun _ b s hs => itemOrEnd_logged (hitem b s hs)) s₁.cursor.rest () b
    (hs.forward hreach)

end Listings

section Scopes

variable (env source)

/-- How a scope comes to its end: refused, or entered and left again, with its body in
between. The scope gives a result only if neither its body nor its end failed. -/
inductive Around (scope : Scope) (B : Signal → σ → Except EvaluationError α →
      scope.Target × Session σ → List Callback → Prop) (s : Session σ) :
    Except EvaluationError (α × scope.Target) → Session σ → List Callback → Prop
  | refused {e : EnvironmentError} {e' : EvaluationError} {t : scope.Target} {st : σ}
      (enter : env.notify (.enter scope) ⟨source, s.cursor.position⟩ scope.empty s.state =
        (.error e, t, st)) :
      Around scope B s (.error e') ⟨s.cursor, st⟩
        [.notified (.enter scope) ⟨source, s.cursor.position⟩ (.error e)]
  | entered {signal : Signal} {answer : Except EnvironmentError Signal}
      {r : Except EvaluationError α} {r' : Except EvaluationError (α × scope.Target)}
      {t t₁ t' : scope.Target} {st st' : σ} {s₁ : Session σ} {l : List Callback}
      (enter : env.notify (.enter scope) ⟨source, s.cursor.position⟩ scope.empty s.state =
        (.ok signal, t, st))
      (body : B signal st r (t₁, s₁) l)
      (leave : env.notify (.leave scope) ⟨source, s₁.cursor.position⟩ t₁ s₁.state =
        (answer, t', st'))
      (good : ∀ a, r' = .ok a → r = .ok a.1 ∧ ∃ signal', answer = .ok signal')
      (bad : ∀ e, r' = .error e → (∃ e', r = .error e') ∨ ∃ e', answer = .error e') :
      Around scope B s r' ⟨s₁.cursor, st'⟩
        (.notified (.enter scope) ⟨source, s.cursor.position⟩ (.ok signal) ::
          l ++ [.notified (.leave scope) ⟨source, s₁.cursor.position⟩ answer])

variable {env source}

theorem within_recorded {scope : Scope} {opening : Nat} {body : Signal → Build scope.Target σ α}
    {body' : Signal → Build scope.Target (σ × List Callback) α} {s : Session σ}
    {B : Signal → σ → Except EvaluationError α → scope.Target × Session σ →
      List Callback → Prop}
    (hbody : ∀ signal t st, BuildRecorded (body signal) (body' signal) (t, ⟨s.cursor, st⟩)
      (B signal st)) :
    Recorded (within env source scope opening body)
      (within env.recording source scope opening body') s (Around env source scope B s) := by
  intro record
  rcases henter : env.notify (.enter scope) ⟨source, s.cursor.position⟩ scope.empty s.state with
    ⟨e | signal, t, st⟩
  · refine ⟨.error (notificationError source opening e), _, _, ?_, ?_, .refused henter⟩
    · simp only [within, henter]
    · simp only [within, Environment.recording, Session.recorded, henter]
  · obtain ⟨r, ⟨t₁, s₁⟩, l, hx, hy, hB⟩ := hbody signal t st
      (record ++ [.notified (.enter scope) ⟨source, s.cursor.position⟩ (.ok signal)])
    rcases hleave : env.notify (.leave scope) ⟨source, s₁.cursor.position⟩ t₁ s₁.state with
      ⟨answer, t', st'⟩
    simp only [Session.recorded] at hy
    cases r with
    | error e =>
      refine ⟨.error e, ⟨s₁.cursor, st'⟩, _, ?_, ?_, .entered henter hB hleave ?_ ?_⟩
      · simp only [within, henter, hx, hleave]
      · simp only [within, Environment.recording, Session.recorded, henter, hy, hleave]
        simp
      · intro a h
        cases h
      · intro _ _
        exact .inl ⟨e, rfl⟩
    | ok a =>
      cases answer with
      | error e =>
        refine ⟨.error (notificationError source s₁.cursor.position e), ⟨s₁.cursor, st'⟩, _,
          ?_, ?_, .entered henter hB hleave ?_ ?_⟩
        · simp only [within, henter, hx, hleave]
        · simp only [within, Environment.recording, Session.recorded, henter, hy, hleave]
          simp
        · intro a h
          cases h
        · intro _ _
          exact .inr ⟨e, rfl⟩
      | ok signal' =>
        refine ⟨.ok (a, t'), ⟨s₁.cursor, st'⟩, _, ?_, ?_, .entered henter hB hleave ?_ ?_⟩
        · simp only [within, henter, hx, hleave]
        · simp only [within, Environment.recording, Session.recorded, henter, hy, hleave]
          simp
        · intro b h
          cases h
          exact ⟨rfl, signal', rfl⟩
        · intro e h
          cases h

theorem resolve_recorded {function : String} {vs : List Value} {opening : Nat}
    {s : Session σ} :
    Recorded (resolve env source function vs opening)
      (resolve env.recording source function vs opening) s fun _ s' l =>
      ∃ answer, env.resolve function vs ⟨source, s.cursor.position⟩ s.state =
          (answer, s'.state) ∧
        s'.cursor = s.cursor ∧
        l = [.resolved function vs ⟨source, s.cursor.position⟩ answer] := by
  intro record
  rcases hresolve : env.resolve function vs ⟨source, s.cursor.position⟩ s.state with
    ⟨answer, st⟩
  refine ⟨answer.mapError (callError source function opening), ⟨s.cursor, st⟩, _, ?_, ?_,
    answer, rfl, rfl, rfl⟩
  · simp only [resolve, hresolve]
  · simp only [resolve, Environment.recording, Session.recorded, hresolve]

/-- A scope that is no parameter list, and stays quiet if the answer wants it. -/
theorem within_logged {scope : Scope} (noCall : ∀ function, scope ≠ .arguments function)
    {opening : Nat} {body : Signal → Build scope.Target σ α}
    {body' : Signal → Build scope.Target (σ × List Callback) α} {s : Session σ}
    (hbody : ∀ signal t st, BuildRecorded (body signal) (body' signal) (t, ⟨s.cursor, st⟩)
      fun r t' l => Kept env source start (site.inside scope) ⟨s.cursor, st⟩ r t'.2 l ∧
        (signal ≠ .proceed → scope ≠ .list → l = [])) :
    Logged env source start site (within env source scope opening body)
      (within env.recording source scope opening body') s := by
  apply (within_recorded hbody).mono
  intro r s' l _ h
  cases h with
  | refused enter => exact ⟨.refused enter, fun _ ha => nomatch ha⟩
  | entered enter body leave good _ =>
    refine ⟨.scope noCall enter body.1.nested body.2 leave, ?_⟩
    intro a ha
    exact body.1.forward a.1 (good a ha).1

end Scopes

section Bodies

variable {key item : Eval σ Value} {key' item' : Eval (σ × List Callback) Value}
  {terminator : Option Char} {force : Bool}

section

variable (env source start)

/-- What an evaluation in place of a key leaves to do: a call that is left waits for its
resolution, and has no callbacks behind its parameter list. -/
def KeyKept (site : Site) (s : Session σ) :
    Except EvaluationError Value → Session σ → List Callback → Prop
  | .ok (.call function vs), s', l =>
    ∃ k, Called env source start site function vs s.state l k s'.state ∧
      s'.cursor = k.next ∧ s.cursor.Reaches s'.cursor
  | r, s', l => Kept env source start site s r s' l

/-- The evaluations of keys and of items are recorded, where at most `n` characters are
left. -/
structure Items (force : Bool) (n : Nat) (key item : Eval σ Value)
    (key' item' : Eval (σ × List Callback) Value) : Prop where
  item (s : Session σ) (hs : start.Ahead n s.cursor) :
    Logged env source start (.item force) item item' s
  key (s : Session σ) (hs : start.Ahead n s.cursor) :
    Recorded key key' s (KeyKept env source start (.entries force) s)

end

theorem endsListing_logged (why : ColonFault) {s : Session σ} :
    Logged env source start site (endsListing source terminator why)
      (endsListing source terminator why) s := by
  unfold endsListing
  apply logged_bind (forward_logged (Scan.forward_separator _ _))
  intro separator s₁ _ _
  exact logged_pure _

theorem listBody_logged
    (hitem : ∀ s, start.Ahead n s.cursor → Logged env source start site item item' s)
    (items : List Value) {s : Session σ} (hs : start.Ahead n s.cursor) :
    BuildLogged env source start site (listBody source item terminator)
      (listBody source item' terminator) items s := by
  unfold listBody
  refine listing_logged ?_ items hs
  intro items s hs
  apply inside_bind_logged (hitem s hs)
  intro v s₁ _ _
  apply buildLogged_bind (edit_logged _ items)
  intro _ items s₁ _ _
  exact inside_logged (endsListing_logged _) items

theorem keyOrCall_logged (h : Items env source start force n key item key' item')
    {s : Session σ} (hs : start.Ahead n s.cursor) :
    Logged env source start (.entries force) (keyOrCall env source key)
      (keyOrCall env.recording source key') s := by
  unfold keyOrCall
  apply logged_bind position_logged
  intro opening s₁ hp _
  cases hp
  apply (h.key s hs).bind
  · intro e s' l he
    exact Kept.error he
  · intro v s₁ l₁ _ hv
    cases v with
    | call function vs =>
      obtain ⟨k, called, hcursor, hreach⟩ := hv
      apply (resolve_recorded).bind
      · intro e s' l hresolve
        obtain ⟨answer, hresolve, -, rfl⟩ := hresolve
        rw [hcursor] at hresolve ⊢
        exact ⟨.call called hresolve, fun _ hb => nomatch hb⟩
      · intro w s' l _ hresolve
        obtain ⟨answer, hresolve, hcursor', rfl⟩ := hresolve
        apply records_pure
        rw [hcursor] at hresolve ⊢
        refine ⟨?_, ?_⟩
        · rw [List.append_nil]
          exact .call called hresolve
        · intro _ _
          rwa [hcursor']
    | null | boolean _ | int _ | long _ | decimal _ | bigDecimal _ | string _ | list _ | map _
    | fragment _ | foreign _ =>
      apply records_pure
      exact hv.trans (.refl s₁ _)

theorem keyName_logged (opening : Nat) (k : Value × Bool) {s : Session σ} :
    Logged env source start site (keyName source opening k) (keyName source opening k) s := by
  obtain ⟨v, called⟩ := k
  cases v with
  | string str => exact logged_pure str
  | call _ _ =>
    cases called with
    | true => exact fail_logged _ _
    | false => exact fail_logged _ _
  | null | boolean _ | int _ | long _ | decimal _ | bigDecimal _ | list _ | map _
  | fragment _ | foreign _ => exact fail_logged _ _

theorem entryValue_logged (name : String) (opening : Nat) {s : Session σ}
    (hitem : ∀ st, Logged env source start (.item force) item item' ⟨s.cursor, st⟩) :
    Logged env source start (.entries force) (entryValue env source name opening item)
      (entryValue env.recording source name opening item') s := by
  unfold entryValue
  refine logged_bind (within_logged (by simp) ?_) fun _ _ _ _ => logged_pure _
  intro signal t st
  have skimmed : ∀ kept : Nat → Nat → Option Value, BuildRecorded
      (inside do
        let first ← position
        scan source Scan.skimExpression
        let last ← position
        return kept first last : Build Unit σ (Option Value))
      (inside do
        let first ← position
        scan source Scan.skimExpression
        let last ← position
        return kept first last) (t, ⟨s.cursor, st⟩) fun r t' l =>
          Kept env source start (.item force) ⟨s.cursor, st⟩ r t'.2 l ∧
            (signal ≠ .proceed → Scope.entry name ≠ .list → l = []) := by
    intro kept
    refine (inside_recorded (P := Silent ⟨s.cursor, st⟩) ?_ t).mono fun _ _ _ _ h =>
      ⟨h.2.kept, fun _ _ => h.2.silent⟩
    apply silent_bind position_recorded
    intro first s₁
    apply silent_bind (scan_recorded fun _ _ h => Scan.forward_skimExpression _ _ _ h)
    intro _ s₂
    apply silent_bind position_recorded
    intro last s₃
    exact records_pure (.refl s₃ _)
  cases signal with
  | proceed =>
    apply ((inside_logged (hitem st) t).map some).mono
    intro r t' l _ h
    obtain ⟨r, h, rfl⟩ := h
    exact ⟨h.map some, fun hne => absurd rfl hne⟩
  | skip => exact skimmed fun _ _ => none
  | fragment => exact skimmed fun first last => some (.fragment (.ofOffsets source first last))

theorem bareEntry_logged (name : String) (opening : Nat) {s : Session σ} :
    Logged env source start site (bareEntry env source name opening)
      (bareEntry env.recording source name opening) s := by
  unfold bareEntry
  refine logged_bind (within_logged (by simp) ?_) fun _ _ _ _ => logged_pure _
  intro signal t st
  exact records_pure ⟨.refl _ _, fun _ _ => rfl⟩

theorem putValue_logged (name : String) (v? : Option Value) (m : Entries Value)
    {s : Session σ} :
    BuildLogged env source start site (putValue name v?) (putValue name v?) m s := by
  cases v? with
  | none => exact buildLogged_pure () m
  | some v => exact edit_logged _ m

theorem loneEntry_logged (opening : Nat) (k : Value × Bool) (m : Entries Value)
    {s : Session σ} :
    BuildLogged env source start site (loneEntry env source opening k)
      (loneEntry env.recording source opening k) m s := by
  obtain ⟨v, called⟩ := k
  have failed : ∀ p : Problem, BuildLogged env source start site
      (inside (fail source p opening) : Build (Entries Value) σ Unit)
      (inside (fail source p opening)) m s :=
    fun p => inside_logged (fail_logged p opening) m
  cases v with
  | map merged => exact edit_logged _ m
  | string str =>
    cases called with
    | true => exact failed _
    | false =>
      unfold loneEntry
      apply inside_bind_logged (bareEntry_logged str opening)
      intro v? s₁ _ _
      exact putValue_logged str v? m
  | null | boolean _ | int _ | long _ | decimal _ | bigDecimal _ | list _ | call _ _
  | fragment _ | foreign _ =>
    cases called with
    | true => exact failed _
    | false => exact failed _

theorem mapEntry_logged (h : Items env source start force n key item key' item')
    (m : Entries Value) {s : Session σ} (hs : start.Ahead n s.cursor) :
    BuildLogged env source start (.entries force) (mapEntry env source key item terminator)
      (mapEntry env.recording source key' item' terminator) m s := by
  unfold mapEntry
  apply inside_bind_logged position_logged
  intro opening s₁ hp _
  cases hp
  apply inside_bind_logged (keyOrCall_logged h hs)
  intro k s₁ _ hreach
  have hs := hs.forward hreach
  apply inside_bind_logged (forward_logged (Scan.forward_separator _ _))
  intro separator s₂ _ hreach
  have hs := hs.forward hreach
  have lone : BuildLogged env source start (.entries force)
      (do
        loneEntry env source s.cursor.position k
        return separator == .terminator : Build (Entries Value) σ Bool)
      (do
        loneEntry env.recording source s.cursor.position k
        return separator == .terminator) m s₂ :=
    buildLogged_bind (loneEntry_logged s.cursor.position k m) fun _ m _ _ _ => buildLogged_pure _ m
  cases separator with
  | comma | terminator | textEnd => exact lone
  | colon =>
    apply inside_bind_logged (keyName_logged s.cursor.position k)
    intro name s₃ _ hreach
    have hs := hs.forward hreach
    have value : ∀ s₄ : Session σ, start.Ahead n s₄.cursor →
        BuildLogged env source start (.entries force) (do
          putValue name (← inside (entryValue env source name s.cursor.position item))
          inside (endsListing source terminator .afterValue) : Build (Entries Value) σ Bool)
        (do
          putValue name (← inside (entryValue env.recording source name s.cursor.position item'))
          inside (endsListing source terminator .afterValue)) m s₄ := by
      intro s₄ hs
      apply inside_bind_logged
        (entryValue_logged name s.cursor.position fun st => h.item ⟨s₄.cursor, st⟩ hs)
      intro v? s₅ _ _
      apply buildLogged_bind (putValue_logged name v? m)
      intro _ m s₆ _ _
      exact inside_logged (endsListing_logged _) m
    apply inside_bind_logged (forward_logged Scan.forward_peek)
    intro next s₄ _ hreach
    have hs := hs.forward hreach
    cases next with
    | none =>
      exact inside_bind_logged (fail_logged _ _) fun _ _ hfail _ => absurd hfail fail_ne_ok
    | some c => exact value s₄ hs

theorem mapBody_logged (h : Items env source start force n key item key' item')
    (m : Entries Value) {s : Session σ} (hs : start.Ahead n s.cursor) :
    BuildLogged env source start (.entries force) (mapBody env source key item terminator)
      (mapBody env.recording source key' item' terminator) m s := by
  rw [mapBody_eq, mapBody_eq]
  exact listing_logged (fun m _ hs => mapEntry_logged h m hs) m hs

theorem list_logged (hitem : ∀ s, start.Ahead n s.cursor →
      Logged env source start (.item site.words) item item' s)
    {s : Session σ} (hs : start.Ahead n s.cursor.next) :
    Logged env source start site (Eval.list env source item)
      (Eval.list env.recording source item') s := by
  unfold Eval.list
  apply logged_bind (forward_logged Scan.forward_advance)
  intro _ s₁ hadvance _
  cases hadvance
  apply logged_bind position_logged
  intro opening s₁ hp _
  cases hp
  refine logged_bind (within_logged (by simp) ?_) ?_
  · intro signal items st
    exact (listBody_logged hitem items hs).mono fun _ _ _ _ h =>
      ⟨h, fun _ hlist => absurd rfl hlist⟩
  · intro items s₁ _ _
    apply logged_bind (forward_logged Scan.forward_advance)
    intro _ s₂ _ _
    exact logged_pure _

theorem map_logged (h : Items env source start site.words n key item key' item')
    {s : Session σ} (hs : start.Ahead n s.cursor.next) :
    Logged env source start site (Eval.map env source key item)
      (Eval.map env.recording source key' item') s := by
  unfold Eval.map
  apply logged_bind position_logged
  intro first s₁ hp _
  cases hp
  apply logged_bind (forward_logged Scan.forward_advance)
  intro _ s₁ hadvance _
  cases hadvance
  apply logged_bind position_logged
  intro opening s₁ hp _
  cases hp
  refine logged_bind (within_logged (by simp) ?_) ?_
  · intro signal m st
    have skimmed : BuildRecorded
        (inside do
          scan source (Scan.skimListing Scan.skimExpression '\x7d')
          return some (Fragment.ofOffsets source s.cursor.position ((← position) + 1)) :
            Build (Entries Value) σ (Option Fragment))
        (inside do
          scan source (Scan.skimListing Scan.skimExpression '\x7d')
          return some (Fragment.ofOffsets source s.cursor.position ((← position) + 1)))
        (m, ⟨s.cursor.next, st⟩) fun r t' l =>
          Kept env source start (.entries site.words) ⟨s.cursor.next, st⟩ r t'.2 l ∧
            (signal ≠ .proceed → Scope.map ≠ .list → l = []) := by
      refine (inside_recorded (P := Silent ⟨s.cursor.next, st⟩) ?_ m).mono fun _ _ _ _ h =>
        ⟨h.2.kept, fun _ _ => h.2.silent⟩
      apply silent_bind (scan_recorded fun _ _ h =>
        Scan.forward_skimListing Scan.forward_skimExpression _ _ _ _ h)
      intro _ s₁
      apply silent_bind position_recorded
      intro last s₂
      exact records_pure (.refl s₂ _)
    cases signal with
    | skip => exact skimmed
    | fragment => exact skimmed
    | proceed =>
      have hbody : BuildLogged env source start (.entries site.words)
          (mapBody env source key item (some '\x7d'))
          (mapBody env.recording source key' item' (some '\x7d')) m ⟨s.cursor.next, st⟩ :=
        mapBody_logged h m hs
      apply (buildLogged_bind hbody fun _ m _ _ _ =>
        buildLogged_pure (none : Option Fragment) m).mono
      intro r t' l _ h
      exact ⟨h, fun hne => absurd rfl hne⟩
  · intro r s₁ _ _
    apply logged_bind (forward_logged Scan.forward_advance)
    intro _ s₂ _ _
    cases r.1 with
    | none => exact logged_pure _
    | some f => exact logged_pure _

theorem building_logged
    (hitem : ∀ s, start.Ahead n s.cursor → Logged env source start site item item' s)
    {s : Session σ} (hs : start.Ahead n s.cursor) :
    Logged env source start site (building [] (listBody source item terminator))
      (building [] (listBody source item' terminator)) s := by
  apply (building_recorded (listBody_logged hitem [] hs)).mono
  intro r s' l _ h
  obtain ⟨r, items, h, rfl⟩ := h
  exact h.map _

/-- A parameter list that evaluates is ready for its call, and nothing more comes of one
that fails. -/
structure ArgumentsKept (env : Environment σ) (source : Source) (start : Cursor) (site : Site)
    (function : String) (s : Session σ) (r : Except EvaluationError (List Value))
    (s' : Session σ) (l : List Callback) : Prop where
  good (vs : List Value) (h : r = .ok vs) :
    ∃ k, Called env source start site function vs s.state l k s'.state ∧
      s'.cursor = k.next ∧ s.cursor.Reaches s'.cursor
  bad (e : EvaluationError) (h : r = .error e) :
    Nested env source start site s.state l s'.state

theorem arguments_recorded {function : String} {opening : Nat}
    (hitem : ∀ s, start.Ahead n s.cursor →
      Logged env source start (.item site.words) item item' s)
    (hany : ∀ s, start.Ahead n s.cursor → Logged env source start (.item site.words)
      (anyExpression env source (.value site.words)) item' s)
    {s : Session σ} (hs : start.Ahead n s.cursor) :
    Recorded (Eval.arguments env source function opening item)
      (Eval.arguments env.recording source function opening item') s
      (ArgumentsKept env source start site function s) := by
  unfold Eval.arguments
  refine Records.bind (within_recorded (B := fun _ st r t' l =>
    Kept env source start (.item site.words) ⟨s.cursor, st⟩ r t'.2 l ∧
      Parameters env source start site.words s.cursor st r t'.2.cursor t'.2.state) ?_) ?_ ?_
  · intro signal t st
    refine (inside_recorded
      (P := Kept env source start (.item site.words) ⟨s.cursor, st⟩) ?_ t).mono ?_
    · refine logged_bind (building_logged (s := ⟨s.cursor, st⟩) hitem hs) ?_
      intro items s₁ _ _
      exact logged_pure _
    · intro r t' l hrun h
      refine ⟨h.2, hs.reached, ?_⟩
      -- items that are recorded alike make the same list
      rw [(building_logged (s := ⟨s.cursor, st⟩) hany hs).unique recorded_injective
        (building_logged hitem hs)]
      rcases hbuild : building [] (listBody source item (some ')')) ⟨s.cursor, st⟩ with
        ⟨e | ⟨⟨⟩, vs⟩, s₁⟩
      · simp only [inside, bind_apply, hbuild] at hrun
        cases hrun
        rfl
      · simp only [inside, bind_apply, hbuild] at hrun
        cases hrun
        rfl
  · intro e s' l h
    constructor
    · intro vs he
      cases he
    · intro _ _
      cases h with
      | refused enter => exact .refused enter
      | entered enter body leave _ bad =>
        exact .unresolved enter body.2 body.1.nested leave (bad e rfl)
  · intro r s₁ l₁ _ h
    cases h with
    | entered enter body leave good _ =>
      obtain ⟨rfl, signal', rfl⟩ := good r rfl
      apply advance_bind_recorded
      apply records_pure
      rw [List.append_nil]
      constructor
      · intro vs he
        cases he
        exact ⟨_, .intro enter body.2 body.1.nested leave, rfl,
          (body.1.forward r.1 rfl).trans (reaches_next _)⟩
      · intro e he
        cases he

end Bodies

section Expressions

section

variable (env source start site)

/-- What an evaluation leaves to do where it stands. -/
def RoleKept : Role → Session σ → Except EvaluationError Value → Session σ →
    List Callback → Prop
  | .key => KeyKept env source start site
  | .value _ => Kept env source start site

end

theorem Kept.role {s s' : Session σ} {r : Except EvaluationError Value} {l : List Callback}
    (h : Kept env source start site s r s' l)
    (hcall : ∀ function vs, r ≠ .ok (.call function vs)) (role : Role) :
    RoleKept env source start site role s r s' l := by
  cases role with
  | value _ => exact h
  | key =>
    cases r with
    | error e => exact h
    | ok v =>
      cases v with
      | call function vs => exact absurd rfl (hcall function vs)
      | null | boolean _ | int _ | long _ | decimal _ | bigDecimal _ | string _ | list _
      | map _ | fragment _ | foreign _ => exact h

theorem failed_kept {s s' : Session σ} {l : List Callback}
    (h : Nested env source start site s.state l s'.state) (e : EvaluationError) (role : Role) :
    RoleKept env source start site role s (.error e) s' l :=
  Kept.role (r := .error e) ⟨h, fun _ he => (nomatch he)⟩ (fun _ _ he => by cases he) role

theorem string_recorded {x : Scan String} (role : Role) {s : Session σ}
    (hx : ∀ str k, x s.cursor = (.ok str, k) → s.cursor.Reaches k) :
    Recorded (Value.string <$> scan source x) (Value.string <$> scan source x) s
      (RoleKept env source start site role s) := by
  apply ((scan_recorded hx).map Value.string).mono
  intro r s' l _ h
  obtain ⟨r, h, rfl⟩ := h
  refine (h.kept.map Value.string).role ?_ role
  intro function vs he
  cases r with
  | error e => cases he
  | ok str => cases he

theorem list_ne_call {item : Eval σ Value} {s s' : Session σ} {function : String}
    {vs : List Value} : Eval.list env source item s ≠ (.ok (.call function vs), s') := by
  intro h
  obtain ⟨⟨⟩, k, -, h⟩ := of_scan_bind h
  obtain ⟨opening, s₁, -, h⟩ := bind_eq_ok.mp h
  obtain ⟨r, s₂, -, h⟩ := bind_eq_ok.mp h
  obtain ⟨⟨⟩, k, -, h⟩ := of_scan_bind h
  obtain ⟨he, -⟩ := pure_eq_ok.mp h
  cases he

theorem map_ne_call {key item : Eval σ Value} {s s' : Session σ} {function : String}
    {vs : List Value} : Eval.map env source key item s ≠ (.ok (.call function vs), s') := by
  intro h
  obtain ⟨first, s₁, -, h⟩ := bind_eq_ok.mp h
  obtain ⟨⟨⟩, k, -, h⟩ := of_scan_bind h
  obtain ⟨opening, s₁, -, h⟩ := bind_eq_ok.mp h
  obtain ⟨r, s₂, -, h⟩ := bind_eq_ok.mp h
  obtain ⟨⟨⟩, k, -, h⟩ := of_scan_bind h
  obtain ⟨fragment?, m⟩ := r
  cases fragment? with
  | none =>
    obtain ⟨he, -⟩ := pure_eq_ok.mp h
    cases he
  | some f =>
    obtain ⟨he, -⟩ := pure_eq_ok.mp h
    cases he

/-- A call in place of a key waits for its resolution, any other is resolved at once. -/
theorem wordExpression_recorded {room room' : List Char} {role : Role} {opening : Nat}
    {s : Session σ}
    (hn : ∀ k, s.cursor.Reaches k → k.rest.length < s.cursor.rest.length → start.Ahead n k)
    (hitem : ∀ s, start.Ahead n s.cursor → Logged env source start (.item site.words)
      (expression env source room (.value role.force))
      (expression env.recording source room' (.value role.force)) s)
    (hany : ∀ s, start.Ahead n s.cursor → Logged env source start (.item site.words)
      (anyExpression env source (.value site.words))
      (expression env.recording source room' (.value role.force)) s) :
    Recorded (wordExpression env source room role opening)
      (wordExpression env.recording source room' role opening) s
      (RoleKept env source start site role s) := by
  unfold wordExpression
  apply Records.bind (scan_recorded (fun _ _ h => Scan.forward_wordOrCall _ _ _ h))
  · intro e s' l h
    exact failed_kept h.kept.nested e role
  · intro r s₁ l₁ hscan h₁
    obtain ⟨w, called⟩ := r
    obtain ⟨hscan, -⟩ := of_scan hscan
    obtain ⟨hstate, rfl, hforward⟩ := h₁
    have hreach := hforward _ rfl
    have hs₁ : start.Ahead n s₁.cursor := hn _ hreach (Scan.wordOrCall_shortens hscan)
    cases called with
    | false =>
      have kept : ∀ v : Value, Kept env source start site s (.ok v) s₁ [] := by
        intro v
        refine ⟨?_, fun _ _ => hreach⟩
        rw [hstate]
        exact .nil
      apply records_pure
      cases role with
      | key => exact kept _
      | value _ => exact kept _
    | true =>
      apply Records.bind (arguments_recorded hitem hany hs₁)
      · intro e s' l h
        have hnested := h.bad e rfl
        rw [hstate] at hnested
        exact failed_kept hnested e role
      · intro vs s₂ l₂ _ h
        obtain ⟨k, hcalled, hcursor, hreach₂⟩ := h.good vs rfl
        rw [hstate] at hcalled
        cases role with
        | key =>
          apply records_pure
          rw [List.append_nil]
          exact ⟨k, hcalled, hcursor, hreach.trans hreach₂⟩
        | value _ =>
          apply resolve_recorded.mono
          intro r s' l _ hresolve
          obtain ⟨answer, hresolve, hcursor', rfl⟩ := hresolve
          rw [hcursor] at hresolve ⊢
          refine ⟨.call hcalled hresolve, ?_⟩
          intro _ _
          rw [hcursor']
          exact hreach.trans hreach₂

/-- Computations that agree on a session are recorded alike. -/
theorem recorded_congr {x x₂ : Eval σ α} {y y₂ : Eval (σ × List Callback) α} {s : Session σ}
    {P : Except EvaluationError α → Session σ → List Callback → Prop} (hx : x s = x₂ s)
    (hy : ∀ record, y (s.recorded record) = y₂ (s.recorded record))
    (h : Recorded x₂ y₂ s P) : Recorded x y s P := by
  intro record
  rw [hx, hy record]
  exact h record

theorem ended_recorded (room room' : List Char) (role : Role) {s : Session σ}
    (hr : s.cursor.rest = []) :
    Recorded (expression env source room role) (expression env.recording source room' role) s
      (RoleKept env source start site role s) := by
  intro record
  refine ⟨_, _, [], expression_end env source room role hr, ?_, ?_⟩
  · rw [List.append_nil]
    exact expression_end env.recording source room' role hr
  · exact failed_kept .nil _ role

/-- An expression is recorded if what it may have inside is. -/
theorem expression_recorded_of_items {n : Nat} {x x' : Char} {room room' : List Char}
    {role : Role} {s : Session σ} (hs : start.Reaches s.cursor)
    (hn : s.cursor.rest.length ≤ n + 1)
    (items : Items env source start site.words n
      (expression env source room .key) (expression env source room (.value role.force))
      (expression env.recording source room' .key)
      (expression env.recording source room' (.value role.force)))
    (any : ∀ s', start.Ahead n s'.cursor → Logged env source start (.item site.words)
      (anyExpression env source (.value site.words))
      (expression env.recording source room' (.value role.force)) s') :
    Recorded (expression env source (x :: room) role)
      (expression env.recording source (x' :: room') role) s
      (RoleKept env source start site role s) := by
  have hnext : ∀ {c : Char} {t : List Char}, s.cursor.rest = c :: t →
      start.Ahead n s.cursor.next := by
    intro c t hr
    refine ⟨hs.trans (reaches_next _), ?_⟩
    rw [hr, List.length_cons] at hn
    rw [(next_of_rest hr).2]
    omega
  have hlead := Text.lead s.cursor.rest
  generalize hr : s.cursor.rest = r at hlead
  cases hlead with
  | nothing => exact ended_recorded _ _ role hr
  | map =>
    refine recorded_congr (expression_map env source x room role hr s.state)
      (fun _ => expression_map env.recording source x' room' role hr _) ?_
    apply (map_logged items (hnext hr)).mono
    intro r s' l hrun h
    apply h.role
    intro function vs he
    rw [he] at hrun
    exact map_ne_call hrun
  | list =>
    refine recorded_congr (expression_list env source x room role hr s.state)
      (fun _ => expression_list env.recording source x' room' role hr _) ?_
    apply (list_logged items.item (hnext hr)).mono
    intro r s' l hrun h
    apply h.role
    intro function vs he
    rw [he] at hrun
    exact list_ne_call hrun
  | quoted hquote =>
    exact recorded_congr (expression_quoted env source x room role hquote hr s.state)
      (fun _ => expression_quoted env.recording source x' room' role hquote hr _)
      (string_recorded role fun _ _ h => Scan.forward_quoted hquote hr h)
  | raw hquote =>
    exact recorded_congr (expression_raw env source x room role hquote hr s.state)
      (fun _ => expression_raw env.recording source x' room' role hquote hr _)
      (string_recorded role fun _ _ h => Scan.forward_raw hr h)
  | other hne hmark hnotRaw =>
    subst hr
    refine recorded_congr (expression_other env source x room role hne hmark hnotRaw s.state)
      (fun _ => expression_other env.recording source x' room' role hne hmark hnotRaw _) ?_
    refine wordExpression_recorded ?_ items.item any
    intro k hk hlt
    exact ⟨hs.trans hk, by omega⟩

/-- However much room there is beyond the characters that are left, the evaluation is
recorded. -/
theorem expression_recorded (n : Nat) {role : Role} (hrole : site.words = role.force)
    {room room' : List Char} {s : Session σ} (hs : start.Ahead n s.cursor)
    (hroom : s.cursor.rest.length ≤ room.length)
    (hroom' : s.cursor.rest.length ≤ room'.length) :
    Recorded (expression env source room role) (expression env.recording source room' role) s
      (RoleKept env source start site role s) := by
  induction n generalizing site role room room' s with
  | zero =>
    apply ended_recorded
    exact List.eq_nil_of_length_eq_zero (Nat.le_zero.mp hs.left)
  | succ n ih =>
    cases hr : s.cursor.rest with
    | nil => exact ended_recorded room room' role hr
    | cons c t =>
      have hleft := hs.left
      rw [hr, List.length_cons] at hroom hroom' hleft
      obtain ⟨x, room, rfl⟩ := List.exists_cons_of_length_pos (Nat.lt_of_lt_of_le (by simp) hroom)
      obtain ⟨x', room', rfl⟩ :=
        List.exists_cons_of_length_pos (Nat.lt_of_lt_of_le (by simp) hroom')
      simp only [List.length_cons, Nat.add_le_add_iff_right] at hroom hroom' hleft
      -- what is inside has at least one character less, as much as there is room for
      have inner : ∀ (site' : Site) (role' : Role), site'.words = role'.force → ∀ s',
          start.Ahead t.length s'.cursor →
          Recorded (expression env source room role') (expression env.recording source room' role')
            s' (RoleKept env source start site' role' s') := by
        intro site' role' hrole' s' hs'
        exact ih hrole' ⟨hs'.reached, Nat.le_trans hs'.left hleft⟩
          (Nat.le_trans hs'.left hroom) (Nat.le_trans hs'.left hroom')
      have any : ∀ s', start.Ahead t.length s'.cursor →
          Logged env source start (.item site.words)
            (anyExpression env source (.value site.words))
            (expression env.recording source room' (.value role.force)) s' := by
        intro s' hs'
        have hvalue : (Site.item site.words).words = (Role.value site.words).force := rfl
        have h := ih hvalue ⟨hs'.reached, Nat.le_trans hs'.left hleft⟩ (Nat.le_refl _)
          (Nat.le_trans hs'.left hroom')
        rw [← hrole]
        exact recorded_congr rfl (fun _ => rfl) h
      have hn : s.cursor.rest.length ≤ t.length + 1 := Nat.le_of_eq (congrArg _ hr)
      exact expression_recorded_of_items hs.reached hn
        ⟨inner (.item site.words) (.value role.force) hrole,
          inner (.entries site.words) .key rfl⟩ any

theorem anyExpression_items (force : Bool) (n : Nat) :
    Items env source start force n (anyExpression env source .key)
      (anyExpression env source (.value force)) (anyExpression env.recording source .key)
      (anyExpression env.recording source (.value force)) := by
  constructor
  · intro s hs
    have hrole : (Site.item force).words = (Role.value force).force := rfl
    exact recorded_congr rfl (fun _ => rfl)
      (expression_recorded n hrole hs (Nat.le_refl _) (Nat.le_refl _))
  · intro s hs
    have hrole : (Site.entries force).words = Role.key.force := rfl
    exact recorded_congr rfl (fun _ => rfl)
      (expression_recorded n hrole hs (Nat.le_refl _) (Nat.le_refl _))

end Expressions

section EntryPoints

variable (force : Bool)

/-- At the start everything is ahead. -/
theorem ahead_start (k : Cursor) : k.Ahead k.rest.length k :=
  ⟨.refl k, Nat.le_refl _⟩

theorem single_logged (k : Cursor) (st : σ) :
    Logged env source k (.item force) (single env source force) (single env.recording source force)
      ⟨k, st⟩ := by
  unfold single
  apply logged_bind (forward_logged Scan.forward_gap)
  intro lineBreak s₁ _ hreach
  have hs := (ahead_start k).forward hreach
  apply logged_bind (forward_logged Scan.forward_peek)
  intro next s₂ _ hreach
  have hs := hs.forward hreach
  cases next with
  | none =>
    apply logged_bind position_logged
    intro here s₃ _ _
    exact logged_bind (fail_logged _ _) fun _ _ hfail _ => absurd hfail fail_ne_ok
  | some c =>
    apply logged_bind ((anyExpression_items force _).item s₂ hs)
    intro v s₃ _ _
    apply logged_bind (forward_logged Scan.forward_gap)
    intro lineBreak s₄ _ _
    apply logged_bind (forward_logged Scan.forward_peek)
    intro next s₅ _ _
    cases next with
    | none => exact logged_pure v
    | some c =>
      apply logged_bind position_logged
      intro here s₆ _ _
      exact logged_bind (fail_logged _ _) fun _ _ hfail _ => absurd hfail fail_ne_ok

theorem openList_logged (k : Cursor) (st : σ) :
    Logged env source k (.item force) (openList env source force)
      (openList env.recording source force) ⟨k, st⟩ := by
  unfold openList
  apply logged_bind position_logged
  intro opening s₁ hp _
  cases hp
  refine logged_bind (within_logged (by simp) ?_) ?_
  · intro signal items st
    exact (listBody_logged (s := ⟨k, st⟩) (anyExpression_items force _).item items
      (ahead_start k)).mono fun _ _ _ _ h => ⟨h, fun _ hlist => absurd rfl hlist⟩
  · intro items s₁ _ _
    exact logged_pure _

theorem openMap_recorded (k : Cursor) (st : σ) :
    Recorded (openMap env source force) (openMap env.recording source force) ⟨k, st⟩
      fun _ s' l => Unbracketed env source k force st l s'.state := by
  unfold openMap
  have here : ∀ record, (position : Eval (σ × List Callback) Nat)
      (Session.recorded ⟨k, st⟩ record) = (.ok k.position, Session.recorded ⟨k, st⟩ record) :=
    fun _ => rfl
  refine recorded_congr (bind_ok (position_apply _)) (fun record => bind_ok (here record)) ?_
  refine Records.bind (within_recorded (B := fun _ st r t' l =>
    Kept env source k (.entries force) ⟨k, st⟩ r t'.2 l) ?_) ?_ ?_
  · intro signal m st
    exact mapBody_logged (s := ⟨k, st⟩) (anyExpression_items force _) m (ahead_start k)
  · intro e s' l h
    cases h with
    | refused enter => exact .refused enter
    | entered enter body leave _ _ => exact .entered enter body.nested leave
  · intro r s₁ l₁ _ h
    apply records_pure
    rw [List.append_nil]
    cases h with
    | entered enter body leave _ _ => exact .entered enter body.nested leave

end EntryPoints

end Eval

/-- The recorded evaluation gives what the plain one gives, and a record that is as `P`
says. In the record every scope that was entered is left, in the right order. -/
def Observed {σ α : Type} (plain : Except EvaluationError α × σ)
    (recorded : Except EvaluationError α × σ × List Callback) (P : List Callback → σ → Prop) :
    Prop :=
  ∃ record, recorded = (plain.1, plain.2, record) ∧ P record plain.2 ∧
    record.foldlM Callback.track [] = some []

open Eval in
theorem observed_run {σ α : Type} {x : Eval σ α} {y : Eval (σ × List Callback) α} {k : Cursor}
    {st : σ} {P : List Callback → σ → Prop}
    (h : Recorded x y ⟨k, st⟩ fun _ s' l => P l s'.state)
    (hP : ∀ l st', P l st' → l.foldlM Callback.track [] = some []) :
    Observed (x.run k st) (y.run k (st, [])) P := by
  obtain ⟨r, s', l, hx, hy, hl⟩ := h []
  simp only [Session.recorded, List.nil_append] at hy
  refine ⟨l, ?_, ?_, hP l s'.state ?_⟩
  · simp only [run, hx, hy]
  · simp only [run, hx]
    exact hl
  · exact hl

open Eval in
/-- The callbacks of every session are nested, whatever its environment does, and whether it
succeeds or fails. -/
theorem callbacks_nested {σ : Type} (env : Environment σ) (force : Bool) (st : σ) :
    (∀ source, Observed (evaluate env force source st)
      (evaluate env.recording force source (st, []))
      (Nested env source (.ofSource source) (.item force) st)) ∧
    (∀ source, Observed (evaluateList env force source st)
      (evaluateList env.recording force source (st, []))
      (Nested env source (.ofSource source) (.item force) st)) ∧
    (∀ source, Observed (evaluateMap env force source st)
      (evaluateMap env.recording force source (st, []))
      (Unbracketed env source (.ofSource source) force st)) ∧
    ∀ f : Fragment, Observed (evaluateFragment env force f st)
      (evaluateFragment env.recording force f (st, []))
      (Nested env f.source (.ofFragment f) (.item force) st) := by
  have nested : ∀ {source : Source} {k : Cursor} {l : List Callback} {st' : σ},
      Nested env source k (.item force) st l st' → l.foldlM Callback.track [] = some [] :=
    fun h => h.balanced []
  refine ⟨?_, ?_, ?_, ?_⟩
  · intro source
    apply observed_run ((single_logged force _ st).mono fun _ _ _ _ h => h.nested)
    exact fun _ _ => nested
  · intro source
    apply observed_run ((openList_logged force _ st).mono fun _ _ _ _ h => h.nested)
    exact fun _ _ => nested
  · intro source
    apply observed_run (openMap_recorded force _ st)
    exact fun _ _ h => h.balanced []
  · intro f
    apply observed_run ((single_logged force _ st).mono fun _ _ _ _ h => h.nested)
    exact fun _ _ => nested

end Cjson
