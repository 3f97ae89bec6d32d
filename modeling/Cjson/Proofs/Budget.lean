import Cjson.Proofs.Safety
import Cjson.Proofs.Transfer

namespace Cjson

open Cjson.Action Cursor

/-- The second cursor is behind the first one, with at least a character in between. -/
def Cursor.Advances (k k' : Cursor) : Prop :=
  ∃ c s, k.Passes (c :: s) k'

theorem Cursor.Reaches.advances {k k' : Cursor} (h : k.Reaches k')
    (shorter : k'.rest.length < k.rest.length) : k.Advances k' := by
  obtain ⟨s, hs⟩ := h
  cases s with
  | nil =>
    have := hs.length
    simp only [List.length_nil] at this
    omega
  | cons c s => exact ⟨c, s, hs⟩

theorem Cursor.Advances.reaches {k k' : Cursor} (h : k.Advances k') : k.Reaches k' := by
  obtain ⟨c, s, hs⟩ := h
  exact ⟨c :: s, hs⟩

theorem Cursor.Advances.length_lt {k k' : Cursor} (h : k.Advances k') :
    k'.rest.length < k.rest.length := by
  obtain ⟨c, s, hs⟩ := h
  have := hs.length
  simp only [List.length_cons] at this
  omega

section Environment

variable {σ : Type}

/-- The count goes up where a scope is entered, be it in vain, by one at most. -/
structure Environment.Counts (env : Environment σ) (count : σ → Nat) : Prop where
  enter (scope : Scope) (context : Context) (target : scope.Target) (st : σ) :
    count (env.notify (.enter scope) context target st).2.2 ≤ count st + 1
  leave (scope : Scope) (context : Context) (target : scope.Target) (st : σ) :
    count (env.notify (.leave scope) context target st).2.2 ≤ count st
  resolve (function : String) (arguments : List Value) (context : Context) (st : σ) :
    count (env.resolve function arguments context st).2 ≤ count st

/-- Nothing is counted. -/
theorem Environment.counts_zero (env : Environment σ) : env.Counts fun _ => 0 :=
  ⟨fun _ _ _ _ => Nat.zero_le _, fun _ _ _ _ => Nat.zero_le _, fun _ _ _ _ => Nat.zero_le _⟩

end Environment

section Accounted

variable {σ : Type}

/-- What is counted, and the characters that are left. -/
def Session.total (count : σ → Nat) (s : Session σ) : Nat :=
  count s.state + s.cursor.rest.length

/-- What an evaluation has spent: the scopes that it entered are paid for, each with a
character that it took, or with one of the `before` coins that it was given. Where it
succeeds it has `after` coins left. -/
inductive Accounted {α : Type} (count : σ → Nat) (before after : Nat) (s : Session σ) :
    Except EvaluationError α → Session σ → Prop
  | ok {a : α} {s' : Session σ} (forward : s.cursor.Reaches s'.cursor)
      (paid : s'.total count + after ≤ s.total count + before) :
      Accounted count before after s (.ok a) s'
  | error {e : EvaluationError} {s' : Session σ}
      (paid : count s'.state ≤ s.total count + before) :
      Accounted count before after s (.error e) s'

variable {α β : Type} {count : σ → Nat} {before between after : Nat} {s s₁ s' : Session σ}

theorem Accounted.trans {r : Except EvaluationError α} (forward : s.cursor.Reaches s₁.cursor)
    (paid : s₁.total count + between ≤ s.total count + before)
    (h : Accounted count between after s₁ r s') : Accounted count before after s r s' := by
  cases h with
  | ok forward' paid' => exact .ok (forward.trans forward') (Nat.le_trans paid' paid)
  | error paid' => exact .error (Nat.le_trans paid' paid)

/-- Coins may be lost. -/
theorem Accounted.mono {before' after' : Nat} {r : Except EvaluationError α}
    (h : Accounted count before after s r s') (hb : before ≤ before') (ha : after' ≤ after) :
    Accounted count before' after' s r s' := by
  cases h with
  | ok forward paid => exact .ok forward (by omega)
  | error paid => exact .error (by omega)

/-- With the characters that are left, more could have been paid for. -/
theorem Accounted.count_le {r : Except EvaluationError α}
    (h : Accounted count before after s r s') : count s'.state ≤ s.total count + before := by
  cases h with
  | ok forward paid =>
    simp only [Session.total] at paid ⊢
    omega
  | error paid => exact paid

/-- A failure may come of it after all. -/
theorem Accounted.fail {after' : Nat} {r : Except EvaluationError α}
    (h : Accounted count before after s r s') (e : EvaluationError) :
    Accounted count before after' s (.error e : Except EvaluationError β) s' :=
  .error h.count_le

/-- What an evaluation gives makes no difference. -/
theorem Accounted.give {a : α} (h : Accounted count before after s (.ok a) s') (b : β) :
    Accounted count before after s (.ok b) s' := by
  cases h with
  | ok forward paid => exact .ok forward paid

theorem Accounted.refl (a : α) (s : Session σ) : Accounted count before before s (.ok a) s :=
  .ok (.refl _) (Nat.le_refl _)

/-- A scope costs a coin. -/
theorem Accounted.enter {r : Except EvaluationError α} {st : σ}
    (h : Accounted count before after ⟨s.cursor, st⟩ r s') (hcount : count st ≤ count s.state + 1) :
    Accounted count (before + 1) after s r s' := by
  have paid : Session.total count ⟨s.cursor, st⟩ + before ≤ s.total count + (before + 1) := by
    simp only [Session.total]
    omega
  have forward : s.cursor.Reaches (Session.mk s.cursor st).cursor := .refl _
  exact .trans forward paid h

/-- What else the environment is told is free. -/
theorem Accounted.told {r : Except EvaluationError α} {st : σ}
    (h : Accounted count before after s r s') (hcount : count st ≤ count s'.state) :
    Accounted count before after s r ⟨s'.cursor, st⟩ := by
  cases h with
  | ok forward paid =>
    refine .ok forward ?_
    simp only [Session.total] at paid ⊢
    omega
  | error paid => exact .error (Nat.le_trans hcount paid)

end Accounted

section Pays

variable {σ τ α β γ χ : Type} {count : σ → Nat} {view : τ → Session σ}
  {before between after : Nat}

variable (count view before after) in
/-- The computation pays for the scopes that it enters. -/
def Pays (x : Action EvaluationError τ α) (t : τ) : Prop :=
  Accounted count before after (view t) (x t).1 (view (x t).2)

theorem Pays.congr {x y : Action EvaluationError τ α} {t : τ} (he : x t = y t)
    (h : Pays count view before after y t) : Pays count view before after x t := by
  rw [Pays, he]
  exact h

theorem pays_pure (a : α) (t : τ) :
    Pays count view before before (pure a : Action EvaluationError τ α) t :=
  .refl a (view t)

theorem pays_throw (e : EvaluationError) (t : τ) :
    Pays count view before after (throw e : Action EvaluationError τ α) t :=
  .error (Nat.le_trans (Nat.le_add_right _ _) (Nat.le_add_right _ _))

theorem Pays.bind {x : Action EvaluationError τ α} {f : α → Action EvaluationError τ β} {t : τ}
    (hx : Pays count view before between x t)
    (hf : ∀ a t', x t = (.ok a, t') → Pays count view between after (f a) t') :
    Pays count view before after (x >>= f) t := by
  rcases hrun : x t with ⟨e | a, t₁⟩
  · rw [Pays, hrun] at hx
    rw [Pays, bind_error hrun]
    exact hx.fail e
  · rw [Pays, hrun] at hx
    rw [Pays, bind_ok hrun]
    cases hx with
    | ok forward paid => exact .trans forward paid (hf a t₁ hrun)

/-- What fails at once costs nothing. -/
theorem pays_bind_error {x : Action EvaluationError τ α} {f : α → Action EvaluationError τ β}
    {t : τ} {e : EvaluationError} (hx : x t = (.error e, t)) :
    Pays count view before after (x >>= f) t := by
  rw [Pays, bind_error hx]
  exact pays_throw e t

theorem Pays.map {x : Action EvaluationError τ α} {t : τ} (hx : Pays count view before after x t)
    (f : α → β) : Pays count view before after (f <$> x) t := by
  rw [map_eq_pure_bind]
  exact hx.bind fun a t' _ => pays_pure (f a) t'

/-- A loop pays if each of its steps does, however many of them there are. -/
theorem pays_loop {stuck : EvaluationError} {step : β → Action EvaluationError τ (Turn β γ)}
    (hstep : ∀ b t, Pays count view before before (step b) t) (room : List χ) (b : β) (t : τ) :
    Pays count view before before (loop stuck step room b) t := by
  induction room generalizing b t with
  | nil =>
    unfold loop
    apply (hstep b t).bind
    intro turn t' _
    cases turn with
    | again _ => exact pays_throw stuck t'
    | done c => exact pays_pure c t'
  | cons x room ih =>
    unfold loop
    apply (hstep b t).bind
    intro turn t' _
    cases turn with
    | again next => exact ih next t'
    | done c => exact pays_pure c t'

end Pays

namespace Eval

variable {σ α β γ : Type} {env : Environment σ} {source : Source} {count : σ → Nat}
  {before between after : Nat} {s : Session σ}

section Steps

theorem pays_fail (p : Problem) (offset : Nat) :
    Pays count id before after (fail source p offset : Eval σ α) s :=
  pays_throw _ s

theorem pays_position : Pays count id before before (position : Eval σ Nat) s :=
  .refl s.cursor.position s

/-- The characters that a scan takes are coins to spend. -/
theorem pays_scan {x : Scan α} (hx : ∀ a k, x s.cursor = (.ok a, k) →
      s.cursor.Reaches k ∧ k.rest.length + after ≤ s.cursor.rest.length + before) :
    Pays count id before after (scan source x) s := by
  rw [Pays, scan_eq]
  rcases hrun : x s.cursor with ⟨fault | a, k⟩
  · refine .error ?_
    simp only [Session.total, id_eq]
    omega
  · obtain ⟨hreach, hlength⟩ := hx a k hrun
    refine .ok hreach ?_
    simp only [Session.total, id_eq]
    omega

theorem pays_forward {x : Scan α} (hx : Scan.Forward x) :
    Pays count id before before (scan source x) s := by
  refine pays_scan fun a k h => ⟨hx s.cursor a k h, ?_⟩
  have := (hx s.cursor a k h).length_le
  omega

theorem pays_taking {x : Scan α} (hx : ∀ a k, x s.cursor = (.ok a, k) → s.cursor.Advances k) :
    Pays count id before (before + 1) (scan source x) s := by
  refine pays_scan fun a k h => ⟨(hx a k h).reaches, ?_⟩
  have := (hx a k h).length_lt
  omega

/-- A bracket is a coin. -/
theorem pays_advance {c : Char} (hr : s.cursor.rest.head? = some c) :
    Pays count id before (before + 1) (scan source Scan.advance) s := by
  refine pays_taking ?_
  intro _ k h
  cases h
  obtain ⟨t, hr⟩ := List.head?_eq_some_iff.mp hr
  exact ⟨c, [], (next_of_rest hr).1⟩

theorem pays_inside {x : Eval σ α} (hx : Pays count id before after x s) (b : β) :
    Pays count Prod.snd before after (inside x) (b, s) :=
  hx

theorem pays_building {x : Build β σ α} {b : β}
    (hx : Pays count Prod.snd before after x (b, s)) :
    Pays count id before after (building b x) s := by
  rw [Pays] at hx
  rw [Pays, building]
  rcases hrun : x (b, s) with ⟨e | a, b', s'⟩
  · rw [hrun] at hx
    exact hx.fail e
  · rw [hrun] at hx
    exact hx.give (a, b')

theorem pays_edit (f : β → β) (t : β × Session σ) :
    Pays count Prod.snd before before (edit f) t :=
  .refl () t.2

variable (henv : env.Counts count)

include henv

theorem pays_resolve (function : String) (vs : List Value) (opening : Nat) :
    Pays count id before before (resolve env source function vs opening) s := by
  have hcount := henv.resolve function vs ⟨source, s.cursor.position⟩ s.state
  have hspent : Accounted count before before s (.ok ()) s := .refl () s
  rw [Pays, resolve]
  rcases hrun : env.resolve function vs ⟨source, s.cursor.position⟩ s.state with ⟨e | v, st⟩
  · rw [hrun] at hcount
    exact (hspent.told hcount).fail _
  · rw [hrun] at hcount
    exact (hspent.told hcount).give v

/-- The coin is spent even if the environment refuses the scope. -/
theorem pays_within {scope : Scope} {opening : Nat} {body : Signal → Build scope.Target σ α}
    (hbody : ∀ signal t st, Pays count Prod.snd before before (body signal) (t, ⟨s.cursor, st⟩)) :
    Pays count id (before + 1) before (within env source scope opening body) s := by
  have henter := henv.enter scope ⟨source, s.cursor.position⟩ scope.empty s.state
  rw [Pays]
  rcases hrun : env.notify (.enter scope) ⟨source, s.cursor.position⟩ scope.empty s.state with
    ⟨e | signal, t, st⟩
  · rw [hrun] at henter
    simp only [within, hrun]
    exact (Accounted.enter (.refl () _) henter).fail _
  · have hspent := hbody signal t st
    rw [Pays] at hspent
    rcases hrest : body signal (t, ⟨s.cursor, st⟩) with ⟨r, t₁, s₁⟩
    have hleave := henv.leave scope ⟨source, s₁.cursor.position⟩ t₁ s₁.state
    rcases hend : env.notify (.leave scope) ⟨source, s₁.cursor.position⟩ t₁ s₁.state with
      ⟨answer, t', st'⟩
    rw [hrun] at henter
    rw [hrest] at hspent
    rw [hend] at hleave
    have hleft := (hspent.told hleave).enter henter
    simp only [within, hrun, hrest, hend]
    cases r with
    | error e => exact hleft.fail e
    | ok a =>
      cases answer with
      | error e => exact hleft.fail _
      | ok signal' => exact hleft.give (a, t')

end Steps

section Listings

variable {kind : Cjson.Listing} {terminator : Option Char}

theorem pays_itemOrEnd {item : Build β σ Bool} (opening : Nat)
    (hitem : ∀ b s, Pays count Prod.snd before before item (b, s)) (b : β) (s : Session σ) :
    Pays count Prod.snd before before (itemOrEnd source kind terminator opening item) (b, s) := by
  unfold itemOrEnd
  apply (pays_inside pays_position b).bind
  intro here t₁ _
  apply (pays_inside (pays_forward Scan.forward_peek) t₁.1).bind
  intro next t₂ _
  cases next with
  | none =>
    cases terminator with
    | none => exact pays_pure _ t₂
    | some t => exact pays_inside (pays_fail _ _) t₂.1
  | some c =>
    have hread : Pays count Prod.snd before before
        (do return if ← item then Turn.done () else .again () : Build β σ (Turn Unit Unit)) t₂ :=
      (hitem t₂.1 t₂.2).bind fun _ t₃ _ => pays_pure _ t₃
    dsimp only
    split
    · exact pays_pure _ t₂
    · split
      · exact pays_bind_error rfl
      · exact hread

theorem pays_listing {item : Build β σ Bool}
    (hitem : ∀ b s, Pays count Prod.snd before before item (b, s)) (b : β) (s : Session σ) :
    Pays count Prod.snd before before (listing source kind terminator item) (b, s) := by
  unfold listing
  apply (pays_inside pays_position b).bind
  intro opening t₁ _
  apply (pays_inside (pays_forward Scan.forward_gap) t₁.1).bind
  intro lineBreak t₂ _
  exact pays_loop (fun _ t => pays_itemOrEnd opening hitem t.1 t.2) t₂.2.cursor.rest () t₂

theorem pays_endsListing (why : ColonFault) :
    Pays count id before before (endsListing source terminator why) s :=
  (pays_forward (Scan.forward_separator terminator (some why))).bind fun _ s₁ _ => pays_pure _ s₁

end Listings

section Bodies

variable {key item : Eval σ Value} {terminator : Option Char}

theorem pays_listBody (hitem : ∀ s, Pays count id before before item s) (vs : List Value)
    (s : Session σ) :
    Pays count Prod.snd before before (listBody source item terminator) (vs, s) := by
  refine pays_listing ?_ vs s
  intro vs s
  apply (pays_inside (hitem s) vs).bind
  intro v t₁ _
  apply (pays_edit _ t₁).bind
  intro _ t₂ _
  exact pays_inside (pays_endsListing _) t₂.1

theorem pays_keyName (opening : Nat) (k : Value × Bool) :
    Pays count id before before (keyName source opening k) s := by
  unfold keyName
  split
  · exact pays_pure _ s
  · exact pays_fail _ _
  · exact pays_fail _ _

theorem pays_putValue (name : String) (v? : Option Value) (t : Entries Value × Session σ) :
    Pays count Prod.snd before before (putValue name v?) t := by
  cases v? with
  | none => exact pays_pure () t
  | some v => exact pays_edit _ t

variable (henv : env.Counts count)

include henv

/-- The expression in place of a key takes a character. -/
theorem pays_keyOrCall (hkey : Pays count id before after key s) :
    Pays count id before after (keyOrCall env source key) s := by
  unfold keyOrCall
  apply pays_position.bind
  intro opening s₁ hp
  cases hp
  apply hkey.bind
  intro v s₂ _
  cases v with
  | call function vs => exact (pays_resolve henv function vs _).bind fun _ s₃ _ => pays_pure _ s₃
  | null | boolean _ | int _ | long _ | decimal _ | bigDecimal _ | string _ | list _ | map _
  | fragment _ | foreign _ => exact pays_pure _ s₂

theorem pays_entryValue (name : String) (opening : Nat)
    (hitem : ∀ s, Pays count id before before item s) :
    Pays count id (before + 1) before (entryValue env source name opening item) s := by
  unfold entryValue
  refine (pays_within henv ?_).bind fun _ s₁ _ => pays_pure _ s₁
  intro signal t st
  have skimmed : ∀ kept : Nat → Nat → Option Value, Pays count Prod.snd before before
      (inside do
        let first ← position
        scan source Scan.skimExpression
        let last ← position
        return kept first last : Build Unit σ (Option Value)) (t, ⟨s.cursor, st⟩) := by
    intro kept
    refine pays_inside (pays_position.bind fun first s₁ _ => ?_) t
    apply (pays_forward Scan.forward_skimExpression).bind
    intro _ s₂ _
    exact pays_position.bind fun last s₃ _ => pays_pure _ s₃
  cases signal with
  | proceed => exact (pays_inside (hitem _) t).map some
  | skip => exact skimmed fun _ _ => none
  | fragment => exact skimmed fun first last => some (.fragment (.ofOffsets source first last))

theorem pays_bareEntry (name : String) (opening : Nat) :
    Pays count id (before + 1) before (bareEntry env source name opening) s := by
  unfold bareEntry
  refine (pays_within henv ?_).bind fun _ s₁ _ => pays_pure _ s₁
  intro signal t st
  exact pays_pure _ _

theorem pays_loneEntry (opening : Nat) (k : Value × Bool) (t : Entries Value × Session σ) :
    Pays count Prod.snd (before + 1) before (loneEntry env source opening k) t := by
  unfold loneEntry
  split
  · apply (pays_inside (pays_bareEntry henv _ opening) t.1).bind
    intro v? t₁ _
    exact pays_putValue _ v? t₁
  · exact (pays_edit _ t).mono (Nat.le_succ _) (Nat.le_refl _)
  · exact pays_inside (pays_fail _ _) t.1
  · exact pays_inside (pays_fail _ _) t.1
  · exact pays_inside (pays_fail _ _) t.1

/-- What stands in place of the key pays for the entry. -/
theorem pays_mapEntry (hkey : ∀ s, Pays count id before (before + 1) key s)
    (hitem : ∀ s, Pays count id before before item s) (m : Entries Value) (s : Session σ) :
    Pays count Prod.snd before before (mapEntry env source key item terminator) (m, s) := by
  unfold mapEntry
  apply (pays_inside pays_position m).bind
  intro opening t₁ _
  apply (pays_inside (pays_keyOrCall henv (hkey t₁.2)) t₁.1).bind
  intro k t₂ _
  apply (pays_inside (pays_forward (Scan.forward_separator terminator none)) t₂.1).bind
  intro separator t₃ _
  have lone : Pays count Prod.snd (before + 1) before
      (do
        loneEntry env source opening k
        return separator == .terminator : Build (Entries Value) σ Bool) t₃ :=
    (pays_loneEntry henv opening k t₃).bind fun _ t₄ _ => pays_pure _ t₄
  cases separator with
  | comma | terminator | textEnd => exact lone
  | colon =>
    apply (pays_inside (pays_keyName opening k) t₃.1).bind
    intro name t₄ _
    apply (pays_inside (pays_forward Scan.forward_peek) t₄.1).bind
    intro next t₅ _
    cases next with
    | none => exact pays_bind_error rfl
    | some c =>
      apply (pays_inside (pays_entryValue henv name opening hitem) t₅.1).bind
      intro v? t₆ _
      apply (pays_putValue name v? t₆).bind
      intro _ t₇ _
      exact pays_inside (pays_endsListing _) t₇.1

theorem pays_mapBody (hkey : ∀ s, Pays count id before (before + 1) key s)
    (hitem : ∀ s, Pays count id before before item s) (m : Entries Value) (s : Session σ) :
    Pays count Prod.snd before before (mapBody env source key item terminator) (m, s) := by
  rw [mapBody_eq]
  exact pays_listing (pays_mapEntry henv hkey hitem) m s

/-- The bracket that opens a list pays for it, and the one that closes it is left. -/
theorem pays_list (hitem : ∀ s, Pays count id before before item s)
    (hr : s.cursor.rest.head? = some '[') :
    Pays count id before (before + 1) (Eval.list env source item) s := by
  unfold Eval.list
  apply (pays_advance hr).bind
  intro _ s₁ _
  apply pays_position.bind
  intro opening s₂ _
  refine Pays.bind (pays_within henv fun _ vs _ => pays_listBody hitem vs _) ?_
  intro r s₃ hwithin
  apply (pays_advance (list_onTerminator hwithin)).bind
  intro _ s₄ _
  exact pays_pure _ s₄

theorem pays_map (hkey : ∀ s, Pays count id before (before + 1) key s)
    (hitem : ∀ s, Pays count id before before item s)
    (hr : s.cursor.rest.head? = some '\x7b') :
    Pays count id before (before + 1) (Eval.map env source key item) s := by
  unfold Eval.map
  apply pays_position.bind
  intro first s₁ hp
  cases hp
  apply (pays_advance hr).bind
  intro _ s₂ _
  apply pays_position.bind
  intro opening s₃ _
  refine Pays.bind (pays_within henv ?_) ?_
  · intro signal m st
    have skimmed : Pays count Prod.snd before before
        (inside do
          scan source (Scan.skimListing Scan.skimExpression '\x7d')
          return some (Fragment.ofOffsets source s.cursor.position ((← position) + 1)) :
            Build (Entries Value) σ (Option Fragment)) (m, ⟨s₃.cursor, st⟩) := by
      refine pays_inside ?_ m
      apply (pays_forward (Scan.forward_skimListing Scan.forward_skimExpression _)).bind
      intro _ s₄ _
      exact pays_position.bind fun last s₅ _ => pays_pure _ s₅
    cases signal with
    | skip => exact skimmed
    | fragment => exact skimmed
    | proceed => exact (pays_mapBody henv hkey hitem m _).bind fun _ t _ => pays_pure none t
  · intro r s₄ hwithin
    apply (pays_advance (map_onTerminator hwithin)).bind
    intro _ s₅ _
    cases r.1 with
    | none => exact pays_pure _ s₅
    | some f => exact pays_pure _ s₅

/-- The parameters of a call cost a coin, and give one back. -/
theorem pays_arguments {function : String} {opening : Nat}
    (hitem : ∀ s, Pays count id before before item s) :
    Pays count id (before + 1) (before + 1) (Eval.arguments env source function opening item)
      s := by
  unfold Eval.arguments
  refine Pays.bind (pays_within henv ?_) ?_
  · intro signal t st
    refine pays_inside ?_ t
    apply (pays_building (pays_listBody hitem [] _)).bind
    intro items s₁ _
    exact pays_pure _ s₁
  · intro r s₁ hwithin
    apply (pays_advance (arguments_onTerminator hwithin)).bind
    intro _ s₂ _
    exact pays_pure _ s₂

end Bodies

section Expressions

variable {room : List Char} {role : Role}

variable (henv : env.Counts count)

include henv

theorem pays_wordExpression {opening : Nat}
    (hitem : ∀ s, Pays count id before before (expression env source room (.value role.force)) s) :
    Pays count id before (before + 1) (wordExpression env source room role opening) s := by
  unfold wordExpression
  have hword : Pays count id before (before + 1) (scan source Scan.wordOrCall) s :=
    pays_taking fun r k h =>
      (Scan.forward_wordOrCall _ r k h).advances (Scan.wordOrCall_shortens h)
  apply hword.bind
  intro r s₁ _
  obtain ⟨w, called⟩ := r
  cases called with
  | false => exact pays_pure _ s₁
  | true =>
    apply (pays_arguments henv hitem).bind
    intro vs s₂ _
    cases role with
    | key => exact pays_pure _ s₂
    | value force => exact pays_resolve henv _ vs _

/-- An expression leaves a coin, whatever it is: one of the characters that it takes. -/
theorem pays_expression (room : List Char) (role : Role) (s : Session σ) :
    Pays count id before (before + 1) (expression env source room role) s := by
  induction room generalizing role s with
  | nil => exact pays_throw _ s
  | cons x room ih =>
    have hitem : ∀ s, Pays count id before before
        (expression env source room (.value role.force)) s :=
      fun s => (ih _ s).mono (Nat.le_refl _) (Nat.le_succ _)
    have hlead := Text.lead s.cursor.rest
    generalize hr : s.cursor.rest = r at hlead
    cases hlead with
    | nothing => exact .congr (expression_end env source _ role hr) (pays_throw _ s)
    | map =>
      refine .congr (expression_map env source x room role hr s.state) ?_
      exact pays_map henv (ih .key) hitem (congrArg List.head? hr)
    | list =>
      refine .congr (expression_list env source x room role hr s.state) ?_
      exact pays_list henv hitem (congrArg List.head? hr)
    | quoted hquote =>
      refine .congr (expression_quoted env source x room role hquote hr s.state) ?_
      refine Pays.map (pays_taking fun str k h => ?_) Value.string
      obtain ⟨cs, body, hk, -⟩ := Scan.of_quoted hquote (congrArg List.head? hr) h
      exact ⟨_, _, hk⟩
    | raw hquote =>
      refine .congr (expression_raw env source x room role hquote hr s.state) ?_
      refine Pays.map (pays_taking fun str k h => ?_) Value.string
      obtain ⟨cs, hk, -⟩ := Scan.of_raw hr h
      exact ⟨_, _, hk⟩
    | other hne hmark hraw =>
      subst hr
      refine .congr (expression_other env source x room role hne hmark hraw s.state) ?_
      exact pays_wordExpression henv hitem

theorem pays_anyExpression (role : Role) (s : Session σ) :
    Pays count id before (before + 1) (anyExpression env source role) s :=
  pays_expression henv s.cursor.rest role s

theorem pays_item (role : Role) (s : Session σ) :
    Pays count id before before (anyExpression env source role) s :=
  (pays_anyExpression henv role s).mono (Nat.le_refl _) (Nat.le_succ _)

end Expressions

section EntryPoints

variable (force : Bool) (henv : env.Counts count)

include henv

theorem pays_single : Pays count id before before (single env source force) s := by
  unfold single
  apply (pays_forward Scan.forward_gap).bind
  intro lineBreak s₁ _
  apply (pays_forward Scan.forward_peek).bind
  intro next s₂ _
  cases next with
  | none => exact pays_position.bind fun _ _ _ => pays_bind_error rfl
  | some c =>
    apply (pays_item henv _ s₂).bind
    intro v s₃ _
    apply (pays_forward Scan.forward_gap).bind
    intro lineBreak s₄ _
    apply (pays_forward Scan.forward_peek).bind
    intro next s₅ _
    cases next with
    | none => exact pays_pure v s₅
    | some c => exact pays_position.bind fun _ _ _ => pays_bind_error rfl

theorem pays_openList : Pays count id (before + 1) before (openList env source force) s := by
  unfold openList
  apply pays_position.bind
  intro opening s₁ _
  refine Pays.bind (pays_within henv fun _ vs _ => pays_listBody (pays_item henv _) vs _) ?_
  exact fun _ s₂ _ => pays_pure _ s₂

theorem pays_openMap : Pays count id (before + 1) before (openMap env source force) s := by
  unfold openMap
  apply pays_position.bind
  intro opening s₁ _
  refine Pays.bind (pays_within henv fun _ m _ =>
    pays_mapBody henv (pays_anyExpression henv .key) (pays_item henv _) m _) ?_
  exact fun _ s₂ _ => pays_pure _ s₂

end EntryPoints
end Eval

/-- An expression that is evaluated goes on in the text, by a character at least. -/
theorem Eval.expression_advances {σ : Type} {env : Environment σ} {source : Source}
    {room : List Char} {role : Role} {s s' : Session σ} {v : Value}
    (h : expression env source room role s = (.ok v, s')) : s.cursor.Advances s'.cursor := by
  have hspent : Accounted (fun _ => 0) 0 1 s (.ok v) s' := by
    have hpays : Pays (fun _ => 0) id 0 1 (expression env source room role) s :=
      pays_expression env.counts_zero room role s
    rwa [Pays, h] at hpays
  cases hspent with
  | ok forward paid =>
    refine forward.advances ?_
    simp only [Session.total] at paid
    omega

theorem Scan.skimExpression_advances {k k' : Cursor} (h : skimExpression k = (.ok (), k')) :
    k.Advances k' :=
  (forward_skimExpression k () k' h).advances (skim_shortens h)

end Cjson
