import Cjson.Proofs.Course
import Cjson.Proofs.Protocol
import Cjson.Proofs.Recognition

namespace Cjson

open Cjson.Action Cursor

/-- The cursor is one byte behind one in the session. -/
def Cursor.Behind (start k : Cursor) : Prop :=
  ∃ k₀, start.Reaches k₀ ∧ k₀.Reaches k ∧ k.position = k₀.position + 1

theorem Cursor.Behind.holds {start k : Cursor} (h : start.Behind k) :
    start.Holds (k.position - 1) := by
  obtain ⟨k₀, hreach, -, hposition⟩ := h
  exact ⟨k₀, hreach, by omega⟩

/-- A character of one byte is passed. -/
theorem Cursor.Reaches.behind {start k : Cursor} {c : Char} {t : List Char}
    (h : start.Reaches k) (hr : k.rest = c :: t) (hc : c.utf8Size = 1) :
    start.Behind k.next := by
  refine ⟨k, h, reaches_next k, ?_⟩
  rw [(next_of_rest hr).1.position]
  simp [hc]

/-- A parenthesis was read in front of the arguments. -/
theorem Named.behind {start k : Cursor} {opening : Nat} {function : String}
    (h : Named start opening function k) : start.Behind k := by
  obtain ⟨k₀, w, hreach, -, hword, -⟩ := h
  obtain ⟨-, b, g, -, hk⟩ := Scan.of_wordOrCall hword
  obtain ⟨k₁, hk₁, hk₂⟩ := hk.split
  refine ⟨k₁, hreach.trans ⟨_, hk₁⟩, ⟨_, hk₂⟩, ?_⟩
  rw [hk₂.position]
  rfl

section Steady

variable {σ τ α β : Type} {env : Environment σ} {source : Source} {start : Cursor}
  {view : τ → Session σ}

variable (env source start view) in
/-- The computation has a course, and where it succeeds it has taken a character. -/
structure Steady (x : Action EvaluationError τ α) (t : τ) : Prop where
  runs : Runs env source start view x t
  shortens (a : α) (t' : τ) (h : x t = (.ok a, t')) :
    (view t').cursor.rest.length < (view t).cursor.rest.length

theorem Steady.bind {x : Action EvaluationError τ α} {f : α → Action EvaluationError τ β} {t : τ}
    (hx : Steady env source start view x t)
    (hf : ∀ a t', x t = (.ok a, t') → (view t).cursor.Reaches (view t').cursor →
      Runs env source start view (f a) t') :
    Steady env source start view (x >>= f) t := by
  refine ⟨hx.runs.bind hf, ?_⟩
  intro b t' h
  obtain ⟨a, t₁, ha, hb⟩ := bind_eq_ok.mp h
  obtain ⟨l, hl⟩ := hx.runs
  obtain ⟨l', hl'⟩ := hf a t₁ ha (hl.forward ha)
  exact Nat.lt_of_le_of_lt (hl'.forward hb).length_le (hx.shortens a t₁ ha)

theorem Runs.steady {x : Action EvaluationError τ α} {f : α → Action EvaluationError τ β} {t : τ}
    (hx : Runs env source start view x t)
    (hf : ∀ a t', x t = (.ok a, t') → (view t).cursor.Reaches (view t').cursor →
      Steady env source start view (f a) t') :
    Steady env source start view (x >>= f) t := by
  refine ⟨hx.bind fun a t' ha hreach => (hf a t' ha hreach).runs, ?_⟩
  intro b t' h
  obtain ⟨a, t₁, ha, hb⟩ := bind_eq_ok.mp h
  obtain ⟨l, hl⟩ := hx
  have hreach := hl.forward ha
  exact Nat.lt_of_lt_of_le ((hf a t₁ ha hreach).shortens b t' hb) hreach.length_le

theorem Steady.map {x : Action EvaluationError τ α} {t : τ}
    (hx : Steady env source start view x t) (f : α → β) :
    Steady env source start view (f <$> x) t := by
  rw [map_eq_pure_bind]
  exact hx.bind fun a t' _ _ => .pure (f a) t'

end Steady

namespace Eval

variable {σ α β γ δ : Type} {env : Environment σ} {source : Source} {start : Cursor} {n : Nat}

section Steps

variable (env source start)

abbrev Conducts (x : Eval σ α) (s : Session σ) : Prop :=
  Runs env source start id x s

abbrev BuildConducts (x : Build β σ α) (b : β) (s : Session σ) : Prop :=
  Runs env source start Prod.snd x (b, s)

end Steps

variable {s : Session σ}

theorem inside_conducts {x : Eval σ α} (hx : Conducts env source start x s) (b : β) :
    BuildConducts env source start (inside x) b s := by
  obtain ⟨l, hl⟩ := hx
  exact ⟨l, .inside b hl⟩

theorem inside_bind_conducts {x : Eval σ α} {f : α → Build β σ γ} {b : β}
    (hx : Conducts env source start x s)
    (hf : ∀ a s₁, x s = (.ok a, s₁) → s.cursor.Reaches s₁.cursor →
      BuildConducts env source start (f a) b s₁) :
    BuildConducts env source start (inside x >>= f) b s := by
  apply (inside_conducts hx b).bind
  intro a t' ha hreach
  obtain ⟨b', s₁⟩ := t'
  obtain ⟨hx, rfl⟩ := of_inside ha
  exact hf a s₁ hx hreach

theorem inside_steady {x : Eval σ α} {f : α → Build β σ γ} {b : β}
    (hx : Steady env source start id x s)
    (hf : ∀ a s₁, x s = (.ok a, s₁) → s.cursor.Reaches s₁.cursor →
      BuildConducts env source start (f a) b s₁) :
    Steady env source start Prod.snd (inside x >>= f) (b, s) := by
  refine ⟨inside_bind_conducts hx.runs hf, ?_⟩
  intro c t' h
  obtain ⟨a, s₁, ha, hc⟩ := of_inside_bind h
  obtain ⟨l, hl⟩ := hx.runs
  obtain ⟨l', hl'⟩ := hf a s₁ ha (hl.forward ha)
  exact Nat.lt_of_le_of_lt (hl'.forward hc).length_le (hx.shortens a s₁ ha)

theorem conducts_inside_steady {x : Eval σ α} {f : α → Build β σ γ} {b : β}
    (hx : Conducts env source start x s)
    (hf : ∀ a s₁, x s = (.ok a, s₁) → s.cursor.Reaches s₁.cursor →
      Steady env source start Prod.snd (f a) (b, s₁)) :
    Steady env source start Prod.snd (inside x >>= f) (b, s) := by
  apply (inside_conducts hx b).steady
  intro a t' ha hreach
  obtain ⟨b', s₁⟩ := t'
  obtain ⟨hx, rfl⟩ := of_inside ha
  exact hf a s₁ hx hreach

theorem building_conducts {x : Build β σ α} {b : β} (hx : BuildConducts env source start x b s) :
    Conducts env source start (building b x) s := by
  obtain ⟨l, hl⟩ := hx
  exact ⟨l, .building hl⟩

theorem look_conducts (look : Look) (reached : start.Reaches s.cursor)
    (ready : look.Ready start s.cursor) :
    Conducts env source start (scan source look.scan) s :=
  ⟨_, .scan reached ready rfl⟩

theorem fail_conducts (p : Problem) {offset : Nat} (holds : start.Holds offset) :
    Conducts env source start (fail source p offset : Eval σ α) s :=
  ⟨_, .fail s holds⟩

theorem edit_conducts (f : β → β) (b : β) : BuildConducts env source start (edit f) b s :=
  ⟨_, .edit f (b, s)⟩

theorem position_conducts : Conducts env source start position s :=
  Runs.bind ⟨[], .get s⟩ fun _ _ _ _ => .pure _ _

theorem of_peek {next : Option Char} {s' : Session σ}
    (h : scan source Scan.peek s = (.ok next, s')) : s'.cursor.rest.head? = next := by
  cases h
  rfl

theorem advance_steady {c : Char} {t : List Char} (reached : start.Reaches s.cursor)
    (hr : s.cursor.rest = c :: t) (hc : c.utf8Size = 1) :
    Steady env source start id (scan source Scan.advance) s := by
  refine ⟨look_conducts .advance reached ⟨c, t, hr, hc⟩, ?_⟩
  intro _ s' h
  cases h
  have := (next_of_rest hr).2
  simp only [id_eq, hr, this, List.length_cons]
  exact Nat.lt_succ_self _

section Listings

variable {kind : Cjson.Listing} {terminator : Option Char}

/-- A loop has a course if its steps have, and all but the last make the rest shorter. -/
theorem loop_conducts {stuck : EvaluationError} {step : γ → Build β σ (Turn γ δ)}
    (hstep : ∀ c b s, start.Ahead n s.cursor → BuildConducts env source start (step c) b s)
    (hshort : ∀ c b s c' t', start.Ahead n s.cursor → step c (b, s) = (.ok (.again c'), t') →
      t'.2.cursor.rest.length < s.cursor.rest.length)
    (room : List Char) (c : γ) (b : β) {s : Session σ} (hs : start.Ahead n s.cursor)
    (hroom : s.cursor.rest.length ≤ room.length) :
    BuildConducts env source start (loop stuck step room c) b s := by
  induction room generalizing c b s with
  | nil =>
    unfold loop
    apply (hstep c b s hs).bind
    intro turn t' hrun _
    cases turn with
    | again c' =>
      have := hshort c b s c' t' hs hrun
      simp only [List.length_nil] at hroom
      omega
    | done d => exact .pure d t'
  | cons x room ih =>
    unfold loop
    apply (hstep c b s hs).bind
    intro turn t' hrun hreach
    cases turn with
    | again c' =>
      have := hshort c b s c' t' hs hrun
      simp only [List.length_cons] at hroom
      exact ih c' t'.1 (hs.forward hreach) (by omega)
    | done d => exact .pure d t'

theorem itemOrEnd_conducts {item : Build β σ Bool} {opening : Nat} {b : β}
    (hs : start.Reaches s.cursor) (holds : terminator ≠ none → start.Holds (opening - 1))
    (hitem : s.cursor.rest ≠ [] → BuildConducts env source start item b s) :
    BuildConducts env source start (itemOrEnd source kind terminator opening item) b s := by
  unfold itemOrEnd
  apply inside_bind_conducts position_conducts
  intro here s₁ hp _
  cases hp
  apply inside_bind_conducts (look_conducts .peek hs trivial)
  intro next s₁ hpeek _
  cases hpeek
  generalize hr : s.cursor.rest.head? = next
  cases next with
  | none =>
    cases terminator with
    | none => exact .pure _ _
    | some t => exact inside_conducts (fail_conducts _ (holds (by simp))) b
  | some c =>
    dsimp only
    by_cases hterm : some c = terminator
    · simp only [if_pos hterm]
      exact .pure _ _
    · simp only [if_neg hterm]
      by_cases hcomma : c = ','
      · simp only [if_pos hcomma]
        exact inside_bind_conducts (fail_conducts _ ⟨s.cursor, hs, rfl⟩)
          fun _ _ hfail _ => absurd hfail fail_ne_ok
      · simp only [if_neg hcomma]
        have hne : s.cursor.rest ≠ [] := by
          intro he
          rw [he] at hr
          cases hr
        exact (hitem hne).bind fun _ _ _ _ => .pure _ _

/-- A listing that goes on has come upon an item. -/
theorem of_itemOrEnd_again {item : Build β σ Bool} {opening : Nat} {b : β} {t' : β × Session σ}
    (h : itemOrEnd source kind terminator opening item (b, s) = (.ok (.again ()), t')) :
    s.cursor.rest ≠ [] ∧ ∃ last, item (b, s) = (.ok last, t') := by
  rcases of_itemOrEnd h with ⟨-, hturn, -⟩ | ⟨last, hrun, -⟩
  · cases hturn
  · refine ⟨?_, last, hrun⟩
    intro hr
    obtain ⟨k, st⟩ := s
    rw [itemOrEnd, bind_ok (inside_ok (position_apply _) b),
      bind_ok (inside_ok (scan_ok (Scan.peek_apply k) st) b), hr] at h
    cases terminator with
    | none => cases h
    | some c => cases h

theorem listing_conducts {item : Build β σ Bool}
    (hitem : ∀ b s, start.Ahead n s.cursor → s.cursor.rest ≠ [] →
      Steady env source start Prod.snd item (b, s))
    (b : β) (hs : start.Ahead n s.cursor) (behind : terminator ≠ none → start.Behind s.cursor) :
    BuildConducts env source start (listing source kind terminator item) b s := by
  unfold listing
  apply inside_bind_conducts position_conducts
  intro opening s₁ hp _
  cases hp
  apply inside_bind_conducts (look_conducts .gap hs.reached trivial)
  intro lineBreak s₁ _ hreach
  generalize s.cursor = s₀ at behind
  have steps : ∀ (_ : Unit) b s, start.Ahead n s.cursor → BuildConducts env source start
      (itemOrEnd source kind terminator s₀.position item) b s :=
    fun _ b s hs => itemOrEnd_conducts hs.reached (fun h => (behind h).holds)
      fun hne => (hitem b s hs hne).runs
  have shorter : ∀ (_ : Unit) b s (_ : Unit) t', start.Ahead n s.cursor →
      itemOrEnd source kind terminator s₀.position item (b, s) = (.ok (.again ()), t') →
      t'.2.cursor.rest.length < s.cursor.rest.length := by
    intro _ b s _ t' hs hagain
    obtain ⟨hne, last, hrun⟩ := of_itemOrEnd_again hagain
    exact (hitem b s hs hne).shortens last t' hrun
  obtain ⟨l, hl⟩ := loop_conducts steps shorter s₁.cursor.rest () b (hs.forward hreach)
    (Nat.le_refl _)
  exact ⟨l, .untilDone hl⟩

/-- A listing that succeeds ends in front of its terminator. -/
theorem listing_onTerminator {item : Build β σ Bool}
    (hitem : ∀ t t', item t = (.ok true, t') → t'.2.cursor.rest.head? = terminator) {b : β}
    {t' : β × Session σ} (h : listing source kind terminator item (b, s) = (.ok (), t')) :
    t'.2.cursor.rest.head? = terminator := by
  obtain ⟨opening, _, hp, h⟩ := of_inside_bind h
  cases hp
  obtain ⟨lineBreak, s₁, -, h⟩ := of_inside_bind h
  refine untilDone_induction (motive := fun _ _ _ t' => t'.2.cursor.rest.head? = terminator)
    ?_ ?_ h
  · intro _ t _ t' hdone
    obtain ⟨b, s⟩ := t
    rcases of_itemOrEnd hdone with ⟨hends, -, rfl⟩ | ⟨last, hrun, hturn⟩
    · exact hends
    · cases last with
      | true => exact hitem _ _ hrun
      | false => cases hturn
  · intro _ _ _ _ _ _ _ hrest
    exact hrest

theorem endsListing_onTerminator {why : ColonFault} {s' : Session σ}
    (h : endsListing source terminator why s = (.ok true, s')) :
    s'.cursor.rest.head? = terminator := by
  obtain ⟨sep, d, -, -, hseparated, hlast⟩ := of_endsListing h
  cases d with
  | terminator =>
    cases hseparated with
    | terminator _ ends => exact ends
  | comma | colon | textEnd => cases hlast

end Listings

section Bodies

variable {key item : Eval σ Value} {terminator : Option Char}

variable (env source start) in
/-- The evaluations of keys and of items are steady, where at most `n` characters are left
and there is one. -/
structure Parts (n : Nat) (key item : Eval σ Value) : Prop where
  isKey (s : Session σ) : ∃ room, key s = expression env source room .key s
  key (s : Session σ) (hs : start.Ahead n s.cursor) (hne : s.cursor.rest ≠ []) :
    Steady env source start id key s
  item (s : Session σ) (hs : start.Ahead n s.cursor) (hne : s.cursor.rest ≠ []) :
    Steady env source start id item s

theorem endsListing_conducts (why : ColonFault) (hs : start.Reaches s.cursor) :
    Conducts env source start (endsListing source terminator why) s := by
  unfold endsListing
  apply (look_conducts (.separator terminator (some why)) hs trivial).bind
  intro separator s₁ _ _
  exact .pure _ s₁

theorem listBody_conducts
    (hitem : ∀ s, start.Ahead n s.cursor → s.cursor.rest ≠ [] →
      Steady env source start id item s)
    (items : List Value) (hs : start.Ahead n s.cursor)
    (behind : terminator ≠ none → start.Behind s.cursor) :
    BuildConducts env source start (listBody source item terminator) items s := by
  unfold listBody
  refine listing_conducts ?_ items hs behind
  intro items s hs hne
  apply inside_steady (hitem s hs hne)
  intro v s₁ _ hreach
  apply (edit_conducts _ items).bind
  intro _ t₁ hedit hreach'
  cases hedit
  exact inside_conducts (endsListing_conducts _ (hs.reached.trans hreach)) _

theorem listBody_onTerminator {items : List Value} {t' : List Value × Session σ}
    (h : listBody source item terminator (items, s) = (.ok (), t')) :
    t'.2.cursor.rest.head? = terminator := by
  refine listing_onTerminator ?_ h
  intro t t' h
  obtain ⟨items, s⟩ := t
  obtain ⟨v, s₁, -, h⟩ := of_inside_bind h
  obtain ⟨_, t₁, -, h⟩ := bind_eq_ok.mp h
  exact endsListing_onTerminator (of_inside h).1

theorem within_conducts {scope : Scope} {opening : Nat} {body : Signal → Build scope.Target σ α}
    (blames : Blames env source start scope opening s) (reached : start.Reaches s.cursor)
    (hbody : ∀ signal t st, BuildConducts env source start (body signal) t ⟨s.cursor, st⟩) :
    Conducts env source start (within env source scope opening body) s := by
  rcases henter : env.notify (.enter scope) ⟨source, s.cursor.position⟩ scope.empty s.state with
    ⟨e | signal, t, st⟩
  · exact ⟨_, .refused blames reached henter⟩
  · obtain ⟨l, hl⟩ := hbody signal t st
    exact ⟨_, .entered blames reached henter hl rfl rfl⟩

theorem resolve_conducts {function : String} {vs : List Value} {opening : Nat}
    (supplied : Supplied env source start opening function vs s) :
    Conducts env source start (resolve env source function vs opening) s :=
  ⟨_, .resolve supplied rfl⟩

/-- A key that turns out to be a call has got its arguments. -/
theorem of_expression_call {room : List Char} {function : String} {vs : List Value}
    {s' : Session σ} (hs : start.Reaches s.cursor)
    (h : expression env source room .key s = (.ok (.call function vs), s')) :
    Supplied env source start s.cursor.position function vs s' := by
  obtain ⟨k, st⟩ := s
  cases room with
  | nil => cases h
  | cons x room =>
    have hlead := Text.lead k.rest
    generalize hr : k.rest = r at hlead
    cases hlead with
    | nothing =>
      rw [expression_end env source _ .key hr] at h
      cases h
    | map =>
      rw [expression_map env source x room .key hr] at h
      exact absurd h map_ne_call
    | list =>
      rw [expression_list env source x room .key hr] at h
      exact absurd h list_ne_call
    | quoted hquote =>
      rw [expression_quoted env source x room .key hquote hr] at h
      obtain ⟨str, -, he⟩ := map_eq_ok.mp h
      cases he
    | raw hquote =>
      rw [expression_raw env source x room .key hquote hr] at h
      obtain ⟨str, -, he⟩ := map_eq_ok.mp h
      cases he
    | other hne hmark hraw =>
      subst hr
      rw [expression_other env source x room .key hne hmark hraw, wordExpression] at h
      obtain ⟨⟨w, called⟩, k₁, hword, h⟩ := of_scan_bind h
      cases called with
      | false =>
        obtain ⟨he, -⟩ := pure_eq_ok.mp h
        cases he
      | true =>
        obtain ⟨vs, s₂, hvs, h⟩ := bind_eq_ok.mp h
        obtain ⟨he, rfl⟩ := pure_eq_ok.mp h
        cases he
        exact ⟨k₁, st, room, _, ⟨k, w, hs, rfl, hword, rfl⟩, hvs⟩

theorem keyOrCall_steady (h : Parts env source start n key item) (hs : start.Ahead n s.cursor)
    (hne : s.cursor.rest ≠ []) :
    Steady env source start id (keyOrCall env source key) s := by
  unfold keyOrCall
  apply position_conducts.steady
  intro opening s₁ hp _
  cases hp
  apply (h.key s hs hne).bind
  intro v s₁ hv _
  cases v with
  | call function vs =>
    obtain ⟨room, hroom⟩ := h.isKey s
    rw [hroom] at hv
    exact (resolve_conducts (of_expression_call hs.reached hv)).bind fun _ _ _ _ => .pure _ _
  | null | boolean _ | int _ | long _ | decimal _ | bigDecimal _ | string _ | list _ | map _
  | fragment _ | foreign _ => exact .pure _ s₁

theorem keyOrCall_congr {key' : Eval σ Value} (h : key s = key' s) :
    keyOrCall env source key s = keyOrCall env source key' s := by
  unfold keyOrCall
  rw [bind_ok (position_apply s), bind_ok (position_apply s), bind_apply, bind_apply, h]

theorem keyName_conducts {opening : Nat} (k : Value × Bool) (holds : start.Holds opening) :
    Conducts env source start (keyName source opening k) s := by
  obtain ⟨v, called⟩ := k
  cases v with
  | string str => exact .pure str s
  | call _ _ =>
    cases called with
    | true => exact fail_conducts _ holds
    | false => exact fail_conducts _ holds
  | null | boolean _ | int _ | long _ | decimal _ | bigDecimal _ | list _ | map _
  | fragment _ | foreign _ => exact fail_conducts _ holds

theorem entryValue_conducts {name : String} {opening : Nat}
    (keyed : Keyed env source start opening name s) (hs : start.Reaches s.cursor)
    (hne : s.cursor.rest ≠ [])
    (hitem : ∀ st, Conducts env source start item ⟨s.cursor, st⟩) :
    Conducts env source start (entryValue env source name opening item) s := by
  unfold entryValue
  have blames : Blames env source start (.entry name) opening s := keyed
  refine (within_conducts blames hs ?_).bind fun _ s₁ _ _ => .pure _ s₁
  intro signal t st
  have skimmed : ∀ kept : Nat → Nat → Option Value, BuildConducts env source start
      (inside do
        let first ← position
        scan source Scan.skimExpression
        let last ← position
        return kept first last : Build Unit σ (Option Value)) t ⟨s.cursor, st⟩ := by
    intro kept
    refine inside_conducts (position_conducts.bind ?_) t
    intro first s₁ hp _
    cases hp
    apply (look_conducts (s := ⟨s.cursor, st⟩) .skimExpression hs hne).bind
    intro _ s₂ _ _
    apply position_conducts.bind
    intro last s₃ _ _
    exact .pure _ s₃
  cases signal with
  | proceed => exact (inside_conducts (hitem st) t).map some
  | skip => exact skimmed fun _ _ => none
  | fragment => exact skimmed fun first last => some (.fragment (.ofOffsets source first last))

theorem bareEntry_conducts {name : String} {opening : Nat}
    (keyed : Keyed env source start opening name s) (hs : start.Reaches s.cursor) :
    Conducts env source start (bareEntry env source name opening) s := by
  unfold bareEntry
  have blames : Blames env source start (.entry name) opening s := keyed
  exact (within_conducts blames hs fun _ _ _ => .pure _ _).bind fun _ s₁ _ _ => .pure _ s₁

theorem putValue_conducts (name : String) (v? : Option Value) (m : Entries Value) :
    BuildConducts env source start (putValue name v?) m s := by
  cases v? with
  | none => exact .pure () _
  | some v => exact edit_conducts _ m

theorem loneEntry_conducts {opening : Nat} (k : Value × Bool) (m : Entries Value)
    (hs : start.Reaches s.cursor) (holds : start.Holds opening)
    (keyed : ∀ name, k = (.string name, false) → Keyed env source start opening name s) :
    BuildConducts env source start (loneEntry env source opening k) m s := by
  obtain ⟨v, called⟩ := k
  have failed : ∀ p : Problem, BuildConducts env source start
      (inside (fail source p opening) : Build (Entries Value) σ Unit) m s :=
    fun p => inside_conducts (fail_conducts p holds) m
  cases v with
  | map merged => exact edit_conducts _ m
  | string str =>
    cases called with
    | true => exact failed _
    | false =>
      unfold loneEntry
      apply inside_bind_conducts (bareEntry_conducts (keyed str rfl) hs)
      intro v? s₁ _ _
      exact putValue_conducts str v? m
  | null | boolean _ | int _ | long _ | decimal _ | bigDecimal _ | list _ | call _ _
  | fragment _ | foreign _ =>
    cases called with
    | true => exact failed _
    | false => exact failed _

theorem mapEntry_steady (h : Parts env source start n key item) (m : Entries Value)
    (hs : start.Ahead n s.cursor) (hne : s.cursor.rest ≠ []) :
    Steady env source start Prod.snd (mapEntry env source key item terminator) (m, s) := by
  unfold mapEntry
  apply conducts_inside_steady position_conducts
  intro opening s₁ hp _
  cases hp
  apply inside_steady (keyOrCall_steady h hs hne)
  intro k s₁ hkey hreach
  have hs₁ := hs.forward hreach
  apply inside_bind_conducts (look_conducts (.separator terminator none) hs₁.reached trivial)
  intro separator s₂ hseparator hreach
  have hs₂ := hs₁.forward hreach
  have holds : start.Holds s.cursor.position := ⟨s.cursor, hs.reached, rfl⟩
  have keyed : ∀ name, k.1 = .string name →
      Keyed env source start s.cursor.position name s₂ := by
    intro name hname
    obtain ⟨v, called⟩ := k
    cases hname
    obtain ⟨room, hroom⟩ := h.isKey s
    rw [keyOrCall_congr hroom] at hkey
    exact ⟨s, s₁, room, called, terminator, separator, hs.reached, rfl, hkey, hseparator⟩
  have lone : BuildConducts env source start
      (do
        loneEntry env source s.cursor.position k
        return separator == .terminator : Build (Entries Value) σ Bool) m s₂ := by
    refine (loneEntry_conducts k m hs₂.reached holds ?_).bind fun _ t' _ _ => .pure _ t'
    intro name hname
    exact keyed name (by rw [hname])
  cases separator with
  | comma | terminator | textEnd => exact lone
  | colon =>
    apply inside_bind_conducts (keyName_conducts k holds)
    intro name s₃ hread _
    obtain ⟨hname, rfl⟩ := of_keyName hread
    apply inside_bind_conducts (look_conducts .peek hs₂.reached trivial)
    intro next s₄ hpeek _
    cases hpeek
    cases hr : s₂.cursor.rest with
    | nil =>
      exact inside_bind_conducts (fail_conducts _ holds)
        fun _ _ hfail _ => absurd hfail fail_ne_ok
    | cons c t =>
      have hne : s₂.cursor.rest ≠ [] := by
        rw [hr]
        exact List.cons_ne_nil c t
      apply inside_bind_conducts (entryValue_conducts (keyed name hname) hs₂.reached hne
        fun st => (h.item ⟨s₂.cursor, st⟩ hs₂ hne).runs)
      intro v? s₅ _ hreach
      apply (putValue_conducts name v? m).bind
      intro _ t' _ hreach'
      exact inside_conducts
        (endsListing_conducts _ ((hs₂.reached.trans hreach).trans hreach')) t'.1

theorem bareEntry_cursor {name : String} {opening : Nat} {s' : Session σ} {v? : Option Value}
    (h : bareEntry env source name opening s = (.ok v?, s')) : s'.cursor = s.cursor := by
  obtain ⟨r, s₁, hwithin, h⟩ := bind_eq_ok.mp h
  obtain ⟨-, rfl⟩ := pure_eq_ok.mp h
  obtain ⟨signal, t, st, t₁, s₂, -, hbody, hcursor⟩ := within_eq_ok hwithin
  obtain ⟨-, he⟩ := pure_eq_ok.mp hbody
  cases he
  exact hcursor

theorem loneEntry_cursor {opening : Nat} {k : Value × Bool} {m : Entries Value}
    {t' : Entries Value × Session σ}
    (h : loneEntry env source opening k (m, s) = (.ok (), t')) : t'.2.cursor = s.cursor := by
  unfold loneEntry at h
  split at h
  · obtain ⟨v?, s₁, hbare, h⟩ := of_inside_bind h
    have hput : t'.2 = s₁ := by
      cases v? with
      | none =>
        cases h
        rfl
      | some v =>
        cases h
        rfl
    rw [hput]
    exact bareEntry_cursor hbare
  · cases h
    rfl
  · exact absurd (of_inside h).1 fail_ne_ok
  · exact absurd (of_inside h).1 fail_ne_ok
  · exact absurd (of_inside h).1 fail_ne_ok

theorem mapEntry_onTerminator {m : Entries Value} {t' : Entries Value × Session σ}
    (h : mapEntry env source key item terminator (m, s) = (.ok true, t')) :
    t'.2.cursor.rest.head? = terminator := by
  obtain ⟨opening, _, hp, h⟩ := of_inside_bind h
  cases hp
  obtain ⟨k, s₁, -, h⟩ := of_inside_bind h
  obtain ⟨d, s₂, hseparator, h⟩ := of_inside_bind h
  obtain ⟨hseparator, -⟩ := of_scan hseparator
  obtain ⟨sep, -, hseparated, -⟩ := Scan.of_separator hseparator
  have lone : (do
      loneEntry env source s.cursor.position k
      return d == .terminator : Build (Entries Value) σ Bool) (m, s₂) = (.ok true, t') →
      t'.2.cursor.rest.head? = terminator := by
    intro h
    obtain ⟨_, t₁, hlone, h⟩ := bind_eq_ok.mp h
    obtain ⟨hd, rfl⟩ := pure_eq_ok.mp h
    rw [loneEntry_cursor hlone]
    cases d with
    | terminator =>
      cases hseparated with
      | terminator _ ends => exact ends
    | comma | colon | textEnd => cases hd
  cases d with
  | comma | terminator | textEnd => exact lone h
  | colon =>
    obtain ⟨name, s₃, -, h⟩ := of_inside_bind h
    obtain ⟨next, s₄, hpeek, h⟩ := of_inside_bind h
    cases hpeek
    split at h
    · obtain ⟨_, _, hf, -⟩ := of_inside_bind h
      exact absurd hf fail_ne_ok
    · obtain ⟨v?, s₅, -, h⟩ := of_inside_bind h
      obtain ⟨_, t₁, -, h⟩ := bind_eq_ok.mp h
      exact endsListing_onTerminator (of_inside h).1

theorem mapBody_conducts (h : Parts env source start n key item) (m : Entries Value)
    (hs : start.Ahead n s.cursor) (behind : terminator ≠ none → start.Behind s.cursor) :
    BuildConducts env source start (mapBody env source key item terminator) m s := by
  rw [mapBody_eq]
  exact listing_conducts (fun m _ hs hne => mapEntry_steady h m hs hne) m hs behind

theorem mapBody_onTerminator {m : Entries Value} {t' : Entries Value × Session σ}
    (h : mapBody env source key item terminator (m, s) = (.ok (), t')) :
    t'.2.cursor.rest.head? = terminator := by
  rw [mapBody_eq] at h
  refine listing_onTerminator ?_ h
  intro t t' h
  exact mapEntry_onTerminator h

/-- Skimming a listing ends in front of its bracket, too. -/
theorem skimListing_onTerminator {expression : Scan Unit} {closing : Char} {k k' : Cursor}
    (h : Scan.skimListing expression closing k = (.ok (), k')) :
    k'.rest.head? = some closing := by
  obtain ⟨opening, k₁, -, h⟩ := bind_eq_ok.mp h
  obtain ⟨lineBreak, k₂, -, h⟩ := bind_eq_ok.mp h
  refine untilDone_induction (motive := fun _ _ _ k' => k'.rest.head? = some closing) ?_ ?_ h
  · intro _ k _ k' hdone
    obtain ⟨next, _, hpeek, h⟩ := bind_eq_ok.mp hdone
    cases hpeek
    cases hc : k.rest.head? with
    | none =>
      rw [hc] at h
      exact absurd h Scan.fail_ne_ok
    | some c =>
      rw [hc] at h
      dsimp only at h
      split at h
      · rename_i hclosing
        obtain ⟨-, rfl⟩ := pure_eq_ok.mp h
        rw [hc, hclosing]
      · split at h
        · obtain ⟨_, k₁, -, h⟩ := bind_eq_ok.mp h
          obtain ⟨_, k₂, -, h⟩ := bind_eq_ok.mp h
          obtain ⟨hturn, -⟩ := pure_eq_ok.mp h
          cases hturn
        · obtain ⟨_, k₁, -, h⟩ := bind_eq_ok.mp h
          obtain ⟨_, k₂, -, h⟩ := bind_eq_ok.mp h
          obtain ⟨hturn, -⟩ := pure_eq_ok.mp h
          cases hturn
  · intro _ _ _ _ _ _ _ hrest
    exact hrest

/-- What is skimmed of a map ends there as well. -/
theorem skimmed_onTerminator {closing : Char} {first : Nat} {t t' : β × Session σ}
    {f? : Option Fragment}
    (h : (inside do
      scan source (Scan.skimListing Scan.skimExpression closing)
      return some (Fragment.ofOffsets source first ((← position) + 1)) :
        Build β σ (Option Fragment)) t = (.ok f?, t')) :
    t'.2.cursor.rest.head? = some closing := by
  obtain ⟨_, k, hskim, hend⟩ := of_scan_bind (of_inside h).1
  obtain ⟨last, s, hp, hend⟩ := bind_eq_ok.mp hend
  cases hp
  obtain ⟨-, he⟩ := pure_eq_ok.mp hend
  rw [← he]
  exact skimListing_onTerminator hskim

/-- A scope ends where its body does. -/
theorem within_onTerminator {scope : Scope} {opening : Nat} {s' : Session σ}
    {body : Signal → Build scope.Target σ α} {r : α × scope.Target}
    (hbody : ∀ signal t a t', body signal t = (.ok a, t') →
      t'.2.cursor.rest.head? = terminator)
    (h : within env source scope opening body s = (.ok r, s')) :
    s'.cursor.rest.head? = terminator := by
  obtain ⟨signal, t, st, t₁, s₁, -, hrun, hcursor⟩ := within_eq_ok h
  rw [hcursor]
  exact hbody signal _ r.1 (t₁, s₁) hrun

theorem list_onTerminator {opening : Nat} {s' : Session σ} {r : Unit × List Value}
    (h : within env source .list opening (fun _ => listBody source item terminator) s =
      (.ok r, s')) :
    s'.cursor.rest.head? = terminator :=
  within_onTerminator (fun _ _ _ _ hbody => listBody_onTerminator hbody) h

theorem arguments_onTerminator {function : String} {opening : Nat} {s' : Session σ}
    {r : List Value × Unit}
    (h : within env source (.arguments function) opening (fun _ => inside do
      let ((), items) ← building [] (listBody source item terminator)
      return items) s = (.ok r, s')) :
    s'.cursor.rest.head? = terminator := by
  refine within_onTerminator ?_ h
  intro _ t a t' hbody
  obtain ⟨items, s₁, hbuild, hend⟩ := bind_eq_ok.mp (of_inside hbody).1
  obtain ⟨-, he⟩ := pure_eq_ok.mp hend
  rw [← he]
  exact listBody_onTerminator (of_building hbuild)

theorem map_onTerminator {opening first : Nat} {closing : Char} {s' : Session σ}
    {r : Option Fragment × Entries Value}
    (h : within env source .map opening (fun
      | .proceed => do
        mapBody env source key item (some closing)
        return none
      | _ => inside do
        scan source (Scan.skimListing Scan.skimExpression closing)
        return some (Fragment.ofOffsets source first ((← position) + 1))) s = (.ok r, s')) :
    s'.cursor.rest.head? = some closing := by
  refine within_onTerminator ?_ h
  intro signal t f? t' hbody
  cases signal with
  | skip => exact skimmed_onTerminator hbody
  | fragment => exact skimmed_onTerminator hbody
  | proceed =>
    obtain ⟨_, t₁, hmap, hend⟩ := bind_eq_ok.mp hbody
    obtain ⟨-, rfl⟩ := pure_eq_ok.mp hend
    exact mapBody_onTerminator hmap

/-- The bracket that closes a listing is passed. -/
theorem closing_conducts {c : Char} (hs : start.Reaches s.cursor)
    (hr : s.cursor.rest.head? = some c) (hc : c.utf8Size = 1) :
    Conducts env source start (scan source Scan.advance) s := by
  obtain ⟨t, hr⟩ := List.head?_eq_some_iff.mp hr
  exact look_conducts .advance hs ⟨c, t, hr, hc⟩

theorem ahead_next {c : Char} {t : List Char} (hs : start.Reaches s.cursor)
    (hr : s.cursor.rest = c :: t) (hn : t.length ≤ n) : start.Ahead n s.cursor.next := by
  refine ⟨hs.trans (reaches_next _), ?_⟩
  rwa [(next_of_rest hr).2]

theorem list_steady (hitem : ∀ s, start.Ahead n s.cursor → s.cursor.rest ≠ [] →
      Steady env source start id item s) {t : List Char} (hs : start.Reaches s.cursor)
    (hr : s.cursor.rest = '[' :: t) (hn : t.length ≤ n) :
    Steady env source start id (Eval.list env source item) s := by
  have hnext := ahead_next hs hr hn
  unfold Eval.list
  apply (advance_steady hs hr rfl).bind
  intro _ s₁ hadvance _
  cases hadvance
  apply position_conducts.bind
  intro opening s₁ hp _
  cases hp
  refine Runs.bind (within_conducts rfl hnext.reached ?_) ?_
  · intro signal items st
    exact listBody_conducts (s := ⟨s.cursor.next, st⟩) hitem items hnext
      fun _ => hs.behind hr rfl
  · intro r s₂ hwithin hreach
    have hhead := list_onTerminator hwithin
    apply (closing_conducts (hnext.reached.trans hreach) hhead rfl).bind
    intro _ s₃ _ _
    exact .pure _ s₃

theorem map_steady (h : Parts env source start n key item) {t : List Char}
    (hs : start.Reaches s.cursor) (hr : s.cursor.rest = '\x7b' :: t) (hn : t.length ≤ n) :
    Steady env source start id (Eval.map env source key item) s := by
  have hnext := ahead_next hs hr hn
  have hbehind := hs.behind hr rfl
  unfold Eval.map
  apply position_conducts.steady
  intro first s₁ hp _
  cases hp
  apply (advance_steady hs hr rfl).bind
  intro _ s₁ hadvance _
  cases hadvance
  apply position_conducts.bind
  intro opening s₁ hp _
  cases hp
  refine Runs.bind (within_conducts rfl hnext.reached ?_) ?_
  · intro signal m st
    have skimmed : BuildConducts env source start
        (inside do
          scan source (Scan.skimListing Scan.skimExpression '\x7d')
          return some (Fragment.ofOffsets source s.cursor.position ((← position) + 1)) :
            Build (Entries Value) σ (Option Fragment)) m ⟨s.cursor.next, st⟩ := by
      refine inside_conducts (Runs.bind (look_conducts (s := ⟨s.cursor.next, st⟩)
        (.skimListing '\x7d') hnext.reached ⟨s.cursor, _, t, hs, hr, rfl, rfl⟩) ?_) m
      intro _ s₁ _ _
      apply position_conducts.bind
      intro last s₂ _ _
      exact .pure _ s₂
    cases signal with
    | skip => exact skimmed
    | fragment => exact skimmed
    | proceed =>
      apply (mapBody_conducts (s := ⟨s.cursor.next, st⟩) h m hnext fun _ => hbehind).bind
      intro _ t' _ _
      exact .pure _ t'
  · intro r s₂ hwithin hreach
    have hhead := map_onTerminator hwithin
    apply (closing_conducts (hnext.reached.trans hreach) hhead rfl).bind
    intro _ s₃ _ _
    cases r.1 with
    | none => exact .pure _ s₃
    | some f => exact .pure _ s₃

theorem arguments_conducts {function : String} {opening : Nat}
    (hitem : ∀ s, start.Ahead n s.cursor → s.cursor.rest ≠ [] →
      Steady env source start id item s)
    (named : Named start opening function s.cursor) (hs : start.Ahead n s.cursor) :
    Conducts env source start (Eval.arguments env source function opening item) s := by
  have blames : Blames env source start (.arguments function) opening s := named
  unfold Eval.arguments
  refine Runs.bind (within_conducts blames hs.reached ?_) ?_
  · intro signal t st
    refine inside_conducts (Runs.bind (building_conducts (listBody_conducts
      (s := ⟨s.cursor, st⟩) hitem [] hs fun _ => named.behind)) ?_) t
    intro items s₁ _ _
    exact .pure _ s₁
  · intro r s₁ hwithin hreach
    have hhead := arguments_onTerminator hwithin
    apply (closing_conducts (hs.reached.trans hreach) hhead rfl).bind
    intro _ s₂ _ _
    exact .pure _ s₂

end Bodies

section Expressions

variable {room : List Char} {role : Role}

theorem string_steady {x : Scan String} (hx : Conducts env source start (scan source x) s)
    (hshort : ∀ str k, x s.cursor = (.ok str, k) → k.rest.length < s.cursor.rest.length) :
    Steady env source start id (Value.string <$> scan source x) s := by
  refine Steady.map ⟨hx, ?_⟩ Value.string
  intro str s' h
  exact hshort str s'.cursor (of_scan h).1

theorem wordExpression_steady (hs : start.Reaches s.cursor)
    (hn : ∀ k, s.cursor.Reaches k → k.rest.length < s.cursor.rest.length → start.Ahead n k)
    (hitem : ∀ s, start.Ahead n s.cursor → s.cursor.rest ≠ [] →
      Steady env source start id (expression env source room (.value role.force)) s) :
    Steady env source start id (wordExpression env source room role s.cursor.position) s := by
  have hword : Steady env source start id (scan source Scan.wordOrCall) s :=
    ⟨look_conducts .wordOrCall hs trivial,
      fun _ _ h => Scan.wordOrCall_shortens (of_scan h).1⟩
  unfold wordExpression
  apply hword.bind
  intro r s₁ hscan hreach
  obtain ⟨w, called⟩ := r
  obtain ⟨hscan, -⟩ := of_scan hscan
  have hs₁ : start.Ahead n s₁.cursor := hn _ hreach (Scan.wordOrCall_shortens hscan)
  cases called with
  | false => exact .pure _ s₁
  | true =>
    have named : Named start s.cursor.position (.ofList w) s₁.cursor :=
      ⟨s.cursor, w, hs, rfl, hscan, rfl⟩
    apply (arguments_conducts hitem named hs₁).bind
    intro vs s₂ hvs _
    cases role with
    | key => exact .pure _ s₂
    | value force => exact resolve_conducts ⟨s₁.cursor, s₁.state, room, force, named, hvs⟩

/-- An expression is steady if what it may have inside is. -/
theorem expression_steady_of_parts {x : Char} (hs : start.Reaches s.cursor)
    (hn : s.cursor.rest.length ≤ n + 1) (hne : s.cursor.rest ≠ [])
    (parts : Parts env source start n (expression env source room .key)
      (expression env source room (.value role.force))) :
    Steady env source start id (expression env source (x :: room) role) s := by
  rw [expression]
  apply position_conducts.steady
  intro opening s₁ hp _
  cases hp
  apply Runs.steady ⟨[], .get s⟩
  intro s₁ _ hget _
  cases hget
  have hlead := Text.lead s.cursor.rest
  generalize hr : s.cursor.rest = r at hlead
  have htail : ∀ {c : Char} {t : List Char}, s.cursor.rest = c :: t → t.length ≤ n := by
    intro c t hr
    rw [hr, List.length_cons] at hn
    omega
  cases hlead with
  | nothing => exact absurd hr hne
  | map => exact map_steady parts hs hr (htail hr)
  | list => exact list_steady parts.item hs hr (htail hr)
  | @quoted q t hquote =>
    have hstring : Steady env source start id (Value.string <$> scan source (Scan.quoted q)) s := by
      refine string_steady (look_conducts (.quoted q) hs ⟨hquote, t, hr⟩) ?_
      intro str k h
      obtain ⟨cs, body, hk, -⟩ := Scan.of_quoted hquote (by rw [hr]; rfl) h
      have := hk.length
      simp only [List.length_append, List.length_cons] at this
      omega
    rcases hquote with rfl | rfl
    · exact hstring
    · exact hstring
  | @raw q t hquote =>
    have hstring : Steady env source start id (Value.string <$> scan source (Scan.raw q)) s := by
      refine string_steady (look_conducts (.raw q) hs ⟨hquote, t, hr⟩) ?_
      intro str k h
      obtain ⟨cs, hk, -⟩ := Scan.of_raw hr h
      have := hk.length
      simp only [List.length_append, List.length_cons] at this
      omega
    rcases hquote with rfl | rfl
    · exact hstring
    · exact hstring
  | other _ hmark hraw =>
    have hword : Steady env source start id
        (wordExpression env source room role s.cursor.position) s :=
      wordExpression_steady hs (fun k hk hlt => ⟨hs.trans hk, by omega⟩) parts.item
    split
    · exact absurd hr hne
    · exact absurd rfl (hmark _ (by decide))
    · exact absurd rfl (hmark _ (by decide))
    · exact absurd rfl (hmark _ (by decide))
    · exact absurd rfl (hmark _ (by decide))
    · exact absurd rfl (hraw '"' _ (.inl rfl))
    · exact absurd rfl (hraw '\'' _ (.inr rfl))
    · exact hword

/-- Where there is room for the characters that are left, and there is one, an expression is
steady. -/
theorem expression_steady (n : Nat) (hs : start.Ahead n s.cursor) (hne : s.cursor.rest ≠ [])
    (hroom : s.cursor.rest.length ≤ room.length) :
    Steady env source start id (expression env source room role) s := by
  induction n generalizing role room s with
  | zero => exact absurd (List.eq_nil_of_length_eq_zero (Nat.le_zero.mp hs.left)) hne
  | succ n ih =>
    cases room with
    | nil => exact absurd (List.eq_nil_of_length_eq_zero (Nat.le_zero.mp hroom)) hne
    | cons x room =>
      refine expression_steady_of_parts (n := min n room.length) hs.reached ?_ hne ?_
      · have := hs.left
        simp only [List.length_cons] at hroom
        omega
      · have inner : ∀ role' s', start.Ahead (min n room.length) s'.cursor →
            s'.cursor.rest ≠ [] →
            Steady env source start id (expression env source room role') s' := by
          intro role' s' hs' hne'
          have := hs'.left
          exact ih ⟨hs'.reached, by omega⟩ hne' (by omega)
        exact ⟨fun s => ⟨room, rfl⟩, inner .key, inner _⟩

theorem anyExpression_parts (force : Bool) (n : Nat) :
    Parts env source start n (anyExpression env source .key)
      (anyExpression env source (.value force)) := by
  have steady : ∀ (role : Role) (s : Session σ), start.Ahead n s.cursor → s.cursor.rest ≠ [] →
      Steady env source start id (anyExpression env source role) s := by
    intro role s hs hne
    obtain ⟨⟨l, hl⟩, hshort⟩ : Steady env source start id
        (expression env source s.cursor.rest role) s :=
      expression_steady n hs hne (Nat.le_refl _)
    exact ⟨⟨l, .anyExpression hl⟩, hshort⟩
  exact ⟨fun s => ⟨s.cursor.rest, rfl⟩, steady .key, steady _⟩

end Expressions

section EntryPoints

variable (force : Bool) (k : Cursor) (st : σ)

theorem single_conducts : Conducts env source k (single env source force) ⟨k, st⟩ := by
  have hs := ahead_start k
  unfold single
  apply (look_conducts (s := ⟨k, st⟩) .gap hs.reached trivial).bind
  intro lineBreak s₁ _ hreach
  have hs₁ := hs.forward hreach
  apply (look_conducts .peek hs₁.reached trivial).bind
  intro next s₂ hpeek hreach
  have hs₂ := hs₁.forward hreach
  have hnext := of_peek hpeek
  cases next with
  | none =>
    apply position_conducts.bind
    intro here s₃ hp _
    cases hp
    exact (fail_conducts _ ⟨s₂.cursor, hs₂.reached, rfl⟩).bind
      fun _ _ hfail _ => absurd hfail fail_ne_ok
  | some c =>
    have hne : s₂.cursor.rest ≠ [] := by
      intro hr
      rw [hr] at hnext
      cases hnext
    apply ((anyExpression_parts force _).item s₂ hs₂ hne).runs.bind
    intro v s₃ _ hreach
    have hs₃ := hs₂.forward hreach
    apply (look_conducts .gap hs₃.reached trivial).bind
    intro lineBreak s₄ _ hreach
    have hs₄ := hs₃.forward hreach
    apply (look_conducts .peek hs₄.reached trivial).bind
    intro next s₅ _ hreach
    have hs₅ := hs₄.forward hreach
    cases next with
    | none => exact .pure v s₅
    | some c =>
      apply position_conducts.bind
      intro here s₆ hp _
      cases hp
      exact (fail_conducts _ ⟨s₅.cursor, hs₅.reached, rfl⟩).bind
        fun _ _ hfail _ => absurd hfail fail_ne_ok

theorem openList_conducts : Conducts env source k (openList env source force) ⟨k, st⟩ := by
  unfold openList
  apply position_conducts.bind
  intro opening s₁ hp _
  cases hp
  refine Runs.bind (within_conducts rfl (.refl k) ?_) fun _ s₁ _ _ => .pure _ s₁
  intro signal items st
  exact listBody_conducts (s := ⟨k, st⟩) (anyExpression_parts force _).item items
    (ahead_start k) fun h => absurd rfl h

theorem openMap_conducts : Conducts env source k (openMap env source force) ⟨k, st⟩ := by
  unfold openMap
  apply position_conducts.bind
  intro opening s₁ hp _
  cases hp
  refine Runs.bind (within_conducts rfl (.refl k) ?_) fun _ s₁ _ _ => .pure _ s₁
  intro signal m st
  exact mapBody_conducts (s := ⟨k, st⟩) (anyExpression_parts force _) m (ahead_start k)
    fun h => absurd rfl h

end EntryPoints

end Eval
end Cjson
