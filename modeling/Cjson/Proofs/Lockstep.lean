import Cjson.Proofs.Isolation
import Cjson.Proofs.Truncation

namespace Cjson

open Cjson.Action Cursor

namespace Scan

variable {t room : List Char} {terminator : Char} {k k₁ k' : Cursor}

/-- Marks and expressions are passed over up to the terminator at `k'`, with the gaps behind
them, where all of the text is there. -/
inductive Crossed (t room : List Char) (terminator : Char) (k' : Cursor) : Cursor → Prop
  | nil (ends : k'.rest.head? = some terminator) : Crossed t room terminator k' k'
  | cons {c : Char} {r : List Char} {b : Bool} {k k₁ k₂ : Cursor} (first : k.rest = c :: r)
      (inner : c ≠ terminator)
      (item : Bytewise.item c (skim room) (k.extended t) = (.ok (), k₁.extended t))
      (gap : gap (k₁.extended t) = (.ok b, k₂.extended t))
      (others : Crossed t room terminator k' k₂) : Crossed t room terminator k' k

/-- The same behind a gap. -/
def Trailed (t room : List Char) (terminator : Char) (k' k : Cursor) : Prop :=
  ∃ b k₁, gap (k.extended t) = (.ok b, k₁.extended t) ∧ Crossed t room terminator k' k₁

theorem Crossed.ne_nil (h : Crossed t room terminator k' k) : k.rest ≠ [] := by
  cases h with
  | nil ends =>
    intro hr
    rw [hr] at ends
    cases ends
  | cons first => simp [first]

theorem Crossed.of_terminator (h : Crossed t room terminator k' k)
    (hk : k.rest.head? = some terminator) : k = k' := by
  cases h with
  | nil => rfl
  | cons first inner =>
    rw [first] at hk
    exact absurd (Option.some.inj hk) inner

theorem Trailed.seam (h : Trailed t room terminator k' k) : Seam t k := by
  obtain ⟨b, k₁, hgap, hcrossed⟩ := h
  exact .inr ⟨b, k₁, hgap, hcrossed.ne_nil⟩

/-- A mark between the expressions that are passed over. -/
abbrev Mark (c : Char) : Prop :=
  c = ',' ∨ c = ':' ∨ c = ';' ∨ c = '='

theorem Crossed.mark (h : Crossed t room terminator k' k) {c : Char} {r : List Char}
    (hr : k.rest = c :: r) (hc : c ≠ terminator) (hmark : Mark c) :
    Trailed t room terminator k' k.next := by
  have hne := h.ne_nil
  cases h with
  | nil ends =>
    rw [hr] at ends
    exact absurd (Option.some.inj ends) hc
  | @cons c' r' b _ k₁ k₂ first inner item gap others =>
    rw [hr] at first
    cases first
    rw [Bytewise.item, if_pos hmark, advance_apply, next_extended hne] at item
    refine ⟨b, k₂, ?_, others⟩
    rw [(Prod.mk.inj item).2]
    exact gap

theorem Crossed.expression (h : Crossed t room terminator k' k) {c : Char} {r : List Char}
    (hr : k.rest = c :: r) (hc : c ≠ terminator) (hmark : ¬Mark c) :
    ∃ k₁, skim room (k.extended t) = (.ok (), k₁.extended t) ∧
      Trailed t room terminator k' k₁ := by
  cases h with
  | nil ends =>
    rw [hr] at ends
    exact absurd (Option.some.inj ends) hc
  | @cons c' r' b _ k₁ k₂ first inner item gap others =>
    rw [hr] at first
    cases first
    rw [Bytewise.item, if_neg hmark] at item
    exact ⟨k₁, item, b, k₂, gap, others⟩

theorem forward_item (c : Char) {e : Scan Unit} (he : Forward e) :
    Forward (Bytewise.item c e) := by
  unfold Bytewise.item
  split
  · exact forward_advance
  · exact he

theorem crossed_of_skimItems {opening : Nat} {K : Cursor} (hne : k'.rest ≠ [])
    (h : skimItems (skim room) terminator opening K = (.ok (), k'.extended t)) :
    ∃ k, K = k.extended t ∧ Crossed t room terminator k' k := by
  refine untilDone_induction (motive := fun _ K _ K' => K' = k'.extended t →
    ∃ k, K = k.extended t ∧ Crossed t room terminator k' k) ?_ ?_ h rfl
  · rintro ⟨⟩ K ⟨⟩ _ hdone rfl
    rcases Bytewise.of_skimStep hdone with ⟨-, hK, hhead⟩ | ⟨c, r, K₁, b, hturn, -⟩
    · refine ⟨k', hK.symm, .nil ?_⟩
      rwa [← hK, head_extended hne] at hhead
    · cases hturn
  · rintro ⟨⟩ K ⟨⟩ K₂ ⟨⟩ K' hagain ih hK'
    obtain ⟨k₂, rfl, hothers⟩ := ih hK'
    rcases Bytewise.of_skimStep hagain with ⟨hturn, -⟩ | ⟨c, r, K₁, b, -, hr, hc, hitem, hgap⟩
    · cases hturn
    · obtain ⟨k₁, rfl, hk₁⟩ := (forward_gap _ _ _ hgap).truncated
      obtain ⟨k, rfl, hk⟩ := (forward_item c (forward_skim room) _ _ _ hitem).truncated
      obtain ⟨d, r', hr'⟩ := List.exists_cons_of_ne_nil
        ((hk.trans hk₁).rest_ne_nil hothers.ne_nil)
      rw [extended_rest, hr', List.cons_append] at hr
      obtain ⟨rfl, -⟩ := List.cons.inj hr
      exact ⟨k, rfl, .cons hr' hc hitem hgap hothers⟩

/-- The inside of brackets, and the bracket that closes them. -/
theorem trailed_of_skimListing
    (h : (skimListing (skim room) terminator >>= fun _ => advance) (k.extended t) =
      (.ok (), k₁.extended t)) :
    ∃ k', Trailed t room terminator k' k ∧ k'.Passes [terminator] k₁ := by
  obtain ⟨_, K', hlisting, hadvance⟩ := bind_eq_ok.mp h
  obtain ⟨r, hr⟩ := List.head?_eq_some_iff.mp (Eval.skimListing_onTerminator hlisting)
  have hpass := (next_of_rest hr).1
  rw [(Prod.mk.inj hadvance).2] at hpass
  obtain ⟨k', rfl, hk'⟩ := hpass.truncated
  have hne : k'.rest ≠ [] := by simp [hk'.rest]
  rw [skimListing_eq, bind_ok (position_apply _)] at hlisting
  obtain ⟨b, K₁, hgap, hitems⟩ := bind_eq_ok.mp hlisting
  obtain ⟨k₂, rfl, hcrossed⟩ := crossed_of_skimItems hne hitems
  exact ⟨k', ⟨b, k₂, hgap, hcrossed⟩, hk'⟩

/-- Where a separator leads to: onto the terminator, or to what else is passed over. -/
def Led (t room : List Char) (terminator : Char) (k' : Cursor) : Separator → Cursor → Prop
  | .terminator, k => k = k'
  | .comma, k | .colon, k => Crossed t room terminator k' k
  | .textEnd, _ => False

theorem agrees_separator {noColon : Option ColonFault} (ht : Terminator (some terminator))
    (h : Trailed t room terminator k' k) :
    Agrees t (fun d k₁ => Led t room terminator k' d k₁ ∧ k₁.rest.length ≤ k.rest.length)
      (separator (some terminator) noColon) (separator (some terminator) noColon) k := by
  obtain ⟨b, k₁, hgap, hcrossed⟩ := h
  have hne := hcrossed.ne_nil
  have hgap₁ := gap_of_extended hgap hne
  have hlength := (forward_gap _ _ _ hgap₁).length_le
  obtain ⟨c, r, hr⟩ := List.exists_cons_of_ne_nil hne
  refine agrees_position_bind ?_
  refine agrees_ok_bind hgap₁ hgap ?_
  refine agrees_position_bind ?_
  refine (agrees_peek hne).bind fun next k₂ hpeek => ?_
  rw [hpeek.1, hpeek.2]
  -- A comma or a colon is a mark where the listing is passed over, too.
  have hmarked : ∀ d, c ≠ terminator → Mark c → d = .comma ∨ d = .colon →
      Agrees t (fun d k₂ => Led t room terminator k' d k₂ ∧ k₂.rest.length ≤ k.rest.length)
        (do advance; let _ ← Scan.gap; return d : Scan Separator)
        (do advance; let _ ← Scan.gap; return d) k₁ := by
    intro d hc hmark hd
    obtain ⟨b', k₂, hgap', hcrossed'⟩ := hcrossed.mark hr hc hmark
    have hgap₂ := gap_of_extended hgap' hcrossed'.ne_nil
    refine (agrees_advance hne).bind ?_
    rintro _ _ rfl
    refine agrees_ok_bind hgap₂ hgap' ?_
    refine agrees_pure ⟨?_, ?_⟩
    · rcases hd with rfl | rfl
      · exact hcrossed'
      · exact hcrossed'
    · have hnext := (reaches_next k₁).length_le
      have := (forward_gap _ _ _ hgap₂).length_le
      omega
  have hterminator : terminator ≠ ',' ∧ terminator ≠ ':' := by
    simp only [Terminator, List.mem_cons, List.not_mem_nil, or_false, Option.some.injEq] at ht
    rcases ht with ht | rfl | rfl | rfl
    · cases ht
    · decide
    · decide
    · decide
  rw [hr, List.head?_cons]
  split
  · cases ‹_ = _›
  · exact agrees_fail _ _
  · rename_i he
    cases he
    exact hmarked _ (Ne.symm hterminator.1) (.inl rfl) (.inl rfl)
  · rename_i he
    cases he
    split
    · exact agrees_fail _ _
    · exact hmarked _ (Ne.symm hterminator.2) (.inr (.inl rfl)) (.inr rfl)
  · rename_i he
    cases he
    refine agrees_ite (fun hc => ?_) fun _ => ?_
    · refine agrees_pure ⟨hcrossed.of_terminator ?_, hlength⟩
      rw [hr, List.head?_cons, hc]
    · refine agrees_ite (fun _ => agrees_fail _ _) fun _ => ?_
      refine agrees_ite (fun _ => agrees_fail _ _) fun _ => ?_
      refine agrees_ite (fun _ => agrees_pure ⟨hcrossed, hlength⟩) fun _ => ?_
      exact agrees_ite (fun _ => agrees_fail _ _) fun _ => agrees_fail _ _

end Scan

/-- The same session, with more text behind. -/
def Session.extended {σ : Type} (t : List Char) (s : Session σ) : Session σ :=
  ⟨s.cursor.extended t, s.state⟩

namespace Eval

variable {σ α β γ : Type} {source : Source} {t : List Char} {Q : α → Cursor → Prop}
  {s : Session σ} {b : β}

/-- The evaluation goes alike where the text goes on behind its end. -/
abbrev Agrees (t : List Char) (Q : α → Cursor → Prop) (x y : Eval σ α) (s : Session σ) : Prop :=
  Action.Agrees (Session.extended t) (fun a s' => Q a s'.cursor) x y s

/-- So does what is built. -/
abbrev BuildAgrees (t : List Char) (Q : α → Cursor → Prop) (x y : Build β σ α)
    (p : β × Session σ) : Prop :=
  Action.Agrees (fun p : β × Session σ => (p.1, p.2.extended t)) (fun a p' => Q a p'.2.cursor)
    x y p

theorem agrees_fail (p : Problem) (offset : Nat) :
    Agrees t Q (fail source p offset) (fail source p offset) s :=
  agrees_throw _

theorem agrees_position_bind {R : β → Session σ → Prop} {f g : Nat → Eval σ β}
    (h : Action.Agrees (Session.extended t) R (f s.cursor.position) (g s.cursor.position) s) :
    Action.Agrees (Session.extended t) R (position >>= f) (position >>= g) s :=
  agrees_ok_bind rfl rfl h

theorem agrees_scan {x y : Scan α} (h : Scan.Agrees t Q x y s.cursor) :
    Agrees t Q (scan source x) (scan source y) s := by
  obtain ⟨k, st⟩ := s
  cases h with
  | @error fault k₁ k₂ first second =>
    have hx : scan source x ⟨k, st⟩ = (.error (fault.located source), ⟨k₁, st⟩) := by
      rw [scan_eq, first]
      rfl
    have hy : scan source y ⟨k.extended t, st⟩ =
        (.error (fault.located source), ⟨k₂, st⟩) := by
      rw [scan_eq, second]
      rfl
    exact .error hx hy
  | ok first second holds => exact .ok (scan_ok first st) (scan_ok second st) holds

theorem agrees_inside {x y : Eval σ α} (h : Agrees t Q x y s) :
    BuildAgrees t Q (inside x) (inside y) (b, s) := by
  cases h with
  | error first second => exact .error (inside_error first b) (inside_error second b)
  | ok first second holds => exact .ok (inside_ok first b) (inside_ok second b) holds

theorem agrees_inside_position_bind {R : γ → Cursor → Prop} {f g : Nat → Build β σ γ}
    (h : BuildAgrees t R (f s.cursor.position) (g s.cursor.position) (b, s)) :
    BuildAgrees t R (inside position >>= f) (inside position >>= g) (b, s) :=
  agrees_ok_bind rfl rfl h

theorem agrees_inside_peek_bind {R : γ → Cursor → Prop} {f g : Option Char → Build β σ γ}
    (hne : s.cursor.rest ≠ [])
    (h : BuildAgrees t R (f s.cursor.rest.head?) (g s.cursor.rest.head?) (b, s)) :
    BuildAgrees t R (inside (scan source Scan.peek) >>= f) (inside (scan source Scan.peek) >>= g)
      (b, s) := by
  refine agrees_ok_bind rfl ?_ h
  rw [← head_extended hne]
  rfl

theorem agrees_edit (f : β → β) :
    BuildAgrees t (fun _ k => k = s.cursor) (edit f : Build β σ Unit) (edit f) (b, s) :=
  .ok rfl rfl rfl

theorem agrees_building {x y : Build β σ α} (h : BuildAgrees t Q x y (b, s)) :
    Agrees t (fun r k => Q r.1 k) (building b x) (building b y) s := by
  cases h with
  | @error e p₁ p₂ first second =>
    have hx : building b x s = (.error e, p₁.2) := by simp only [building, first]
    have hy : building b y (s.extended t) = (.error e, p₂.2) := by
      simp only [building]
      rw [second]
    exact .error hx hy
  | @ok a p₁ first second holds =>
    exact .ok (building_ok first) (building_ok second) holds

/-- The environment sees the same, and leaves it as it is. -/
theorem agrees_within {scope : Scope} {start : Nat}
    {body body' : Signal → Build scope.Target σ α}
    (h : BuildAgrees t Q (body .proceed) (body' .proceed) (scope.empty, s)) :
    Agrees t (fun r k => Q r.1 k) (within .simple source scope start body)
      (within .simple source scope start body') s := by
  cases h with
  | @error e p₁ p₂ first second =>
    have hx : within .simple source scope start body s = (.error e, p₁.2) := by
      rw [within_simple, first]
    have hy : within .simple source scope start body' (s.extended t) = (.error e, p₂.2) := by
      rw [within_simple, second]
    exact .error hx hy
  | @ok a p₁ first second holds =>
    have hx : within .simple source scope start body s = (.ok (a, p₁.1), p₁.2) := by
      rw [within_simple, first]
    have hy : within .simple source scope start body' (s.extended t) =
        (.ok (a, p₁.1), p₁.2.extended t) := by
      rw [within_simple, second]
    exact .ok hx hy holds

theorem agrees_resolve (function : String) (arguments : List Value) (start : Nat) :
    Agrees t (fun _ k => k = s.cursor) (resolve .simple source function arguments start)
      (resolve .simple source function arguments start) s :=
  .ok rfl rfl rfl

section Listings

open Scan (Crossed Trailed Led Terminator)

variable {room : List Char} {terminator : Char} {k' k₁ : Cursor} {n : Nat}

/-- Both evaluations go alike up to where an expression is passed over, and fail alike where
none begins. -/
structure Lockstep (t : List Char) (n : Nat) (room : List Char) (x y : Eval σ Value) : Prop where
  passed {s : Session σ} {k' : Cursor} (bound : s.cursor.rest.length ≤ n)
    (skimmed : Scan.skim room (s.cursor.extended t) = (.ok (), k'.extended t))
    (seam : Scan.Seam t k') : Agrees t (fun _ k => k = k') x y s
  misplaced {s : Session σ} {c : Char} {r : List Char} (bound : s.cursor.rest.length ≤ n)
    (first : s.cursor.rest = c :: r) (stray : Character.opens c = false) :
    Agrees t (fun _ _ => False) x y s

/-- Whatever comes next in the listing, it ends in front of what else is passed over, unless
the evaluation fails. -/
theorem Lockstep.item {x y : Eval σ Value} (hl : Lockstep t n room x y)
    (ht : Terminator (some terminator)) (hn : s.cursor.rest.length ≤ n)
    (h : Crossed t room terminator k' s.cursor) :
    Agrees t (fun _ k => Trailed t room terminator k' k ∧
      k.rest.length < s.cursor.rest.length) x y s := by
  obtain ⟨c, r, hr⟩ := List.exists_cons_of_ne_nil h.ne_nil
  cases hc : Character.opens c with
  | false => exact (hl.misplaced hn hr hc).of_false
  | true =>
    have hinner : c ≠ terminator := by
      have hhead := ht.ne_head ⟨c, r, hr, hc⟩
      rw [hr] at hhead
      exact fun he => hhead (congrArg some he)
    obtain ⟨k₁, hskim, htrailed⟩ := h.expression hr hinner (Character.not_mark_of_opens hc)
    refine (hl.passed hn hskim htrailed.seam).mono ?_
    rintro _ s₁ rfl
    have hshort := Scan.skim_shortens hskim
    rw [extended_rest, extended_rest, List.length_append, List.length_append] at hshort
    exact ⟨htrailed, by omega⟩

/-- Behind an item the listing is at its end, or goes on with less than `n` characters. -/
def Ended (t room : List Char) (terminator : Char) (k' : Cursor) (n : Nat) :
    Bool → Cursor → Prop
  | true, k => k = k'
  | false, k => Crossed t room terminator k' k ∧ k.rest.length < n

theorem Led.ended {d : Scan.Separator} {k : Cursor} (h : Led t room terminator k' d k)
    (hn : k.rest.length < n) : Ended t room terminator k' n (d == .terminator) k := by
  cases d with
  | terminator => exact h
  | comma | colon => exact ⟨h, hn⟩
  | textEnd => exact h.elim

theorem agrees_endsListing {why : ColonFault} (ht : Terminator (some terminator))
    (h : Trailed t room terminator k' s.cursor) (hn : s.cursor.rest.length < n) :
    Agrees t (Ended t room terminator k' n) (endsListing source (some terminator) why)
      (endsListing source (some terminator) why) s := by
  refine (agrees_scan (Scan.agrees_separator ht h)).bind ?_
  rintro d s₁ ⟨hled, hlength⟩
  exact agrees_pure (Led.ended hled (by omega))

theorem agrees_itemOrEnd {kind : Listing} {start : Nat} {item item' : Build β σ Bool}
    (h : Crossed t room terminator k' s.cursor)
    (hitem : BuildAgrees t (Ended t room terminator k' s.cursor.rest.length) item item' (b, s)) :
    BuildAgrees t (fun turn k => match turn with
      | .again _ => Crossed t room terminator k' k ∧ k.rest.length < s.cursor.rest.length
      | .done _ => k = k') (itemOrEnd source kind (some terminator) start item)
      (itemOrEnd source kind (some terminator) start item') (b, s) := by
  obtain ⟨c, r, hr⟩ := List.exists_cons_of_ne_nil h.ne_nil
  have hhead : s.cursor.rest.head? = some c := by
    rw [hr]
    rfl
  refine agrees_inside_position_bind ?_
  refine agrees_inside_peek_bind h.ne_nil ?_
  rw [hhead]
  dsimp only
  refine agrees_ite (fun hc => ?_) fun _ => ?_
  · exact agrees_pure (h.of_terminator (hhead.trans hc))
  · refine agrees_ite (fun _ => .error rfl rfl) fun _ => ?_
    refine hitem.bind fun last p hlast => agrees_pure ?_
    cases last with
    | true => exact hlast
    | false => exact hlast

theorem agrees_listing {kind : Listing} {item item' : Build β σ Bool}
    (h : Trailed t room terminator k' s.cursor)
    (hitem : ∀ b s₁, Crossed t room terminator k' s₁.cursor →
      s₁.cursor.rest.length ≤ s.cursor.rest.length →
      BuildAgrees t (Ended t room terminator k' s₁.cursor.rest.length) item item' (b, s₁)) :
    BuildAgrees t (fun _ k => k = k') (listing source kind (some terminator) item)
      (listing source kind (some terminator) item') (b, s) := by
  obtain ⟨k, st⟩ := s
  obtain ⟨lineBreak, k₁, hgap, hcrossed⟩ := h
  have hgap₁ := Scan.gap_of_extended hgap hcrossed.ne_nil
  refine agrees_inside_position_bind ?_
  refine agrees_ok_bind (inside_ok (scan_ok hgap₁ st) b) (inside_ok (scan_ok hgap st) b) ?_
  refine agrees_untilDone (fun _ p => Crossed t room terminator k' p.2.cursor ∧
    p.2.cursor.rest.length ≤ k.rest.length) ?_ ?_ ?_ ⟨hcrossed, ?_⟩
  · rintro ⟨b₁, s₁⟩
    simp [Session.extended]
  · rintro _ ⟨b₁, s₁⟩ ⟨hcrossed₁, -⟩
    exact hcrossed₁.ne_nil
  · rintro _ ⟨b₁, s₁⟩ ⟨hcrossed₁, hlength⟩
    refine (agrees_itemOrEnd hcrossed₁ (hitem b₁ s₁ hcrossed₁ hlength)).mono ?_
    rintro (_ | _) ⟨b₂, s₂⟩ hturn
    · exact ⟨⟨hturn.1, Nat.le_trans (Nat.le_of_lt hturn.2) hlength⟩, hturn.2⟩
    · exact hturn
  · exact (Scan.forward_gap _ _ _ hgap₁).length_le

theorem agrees_listBody {x y : Eval σ Value} (hl : Lockstep t n room x y)
    (ht : Terminator (some terminator)) (hn : s.cursor.rest.length ≤ n)
    (h : Trailed t room terminator k' s.cursor) {vs : List Value} :
    BuildAgrees t (fun _ k => k = k') (listBody source x (some terminator))
      (listBody source y (some terminator)) (vs, s) := by
  refine agrees_listing h ?_
  intro vs s₁ hcrossed hlength
  refine (agrees_inside (hl.item ht (by omega) hcrossed)).bind ?_
  rintro v ⟨vs, s₂⟩ ⟨htrailed, hshort⟩
  refine agrees_ok_bind rfl rfl ?_
  exact agrees_inside (agrees_endsListing ht htrailed hshort)

end Listings

section Maps

open Scan (Crossed Trailed Led Terminator)

variable {room : List Char} {terminator : Char} {k' k₁ : Cursor} {n : Nat} {P : Cursor → Prop}

theorem agrees_keyOrCall {key key' : Eval σ Value} (h : Agrees t (fun _ k => P k) key key' s) :
    Agrees t (fun _ k => P k) (keyOrCall .simple source key) (keyOrCall .simple source key') s := by
  refine agrees_position_bind ?_
  refine h.bind fun v s₁ hs₁ => ?_
  split
  · refine (agrees_resolve _ _ _).bind fun w s₂ hs₂ => agrees_pure ?_
    rw [hs₂]
    exact hs₁
  · exact agrees_pure hs₁

theorem agrees_keyName (start : Nat) (r : Value × Bool) :
    Agrees t (fun _ k => k = s.cursor) (keyName source start r) (keyName source start r) s := by
  unfold keyName
  split
  · exact agrees_pure rfl
  · exact agrees_fail _ _
  · exact agrees_fail _ _

theorem agrees_entryValue {item item' : Eval σ Value} (name : String) (start : Nat)
    (h : Agrees t (fun _ k => P k) item item' s) :
    Agrees t (fun _ k => P k) (entryValue .simple source name start item)
      (entryValue .simple source name start item') s := by
  refine Agrees.bind (agrees_within (Q := fun _ k => P k) ?_) fun _ _ hs₁ => agrees_pure hs₁
  exact (agrees_inside h).map

theorem agrees_bareEntry (name : String) (start : Nat) :
    Agrees t (fun _ k => k = s.cursor) (bareEntry .simple source name start)
      (bareEntry .simple source name start) s := by
  refine Agrees.bind (agrees_within (Q := fun _ k => k = s.cursor) ?_)
    fun _ _ hs₁ => agrees_pure hs₁
  exact agrees_pure rfl

theorem agrees_putValue (name : String) (v? : Option Value) {m : Entries Value} :
    BuildAgrees t (fun _ k => k = s.cursor) (putValue name v?) (putValue name v?) (m, s) := by
  cases v? with
  | none => exact agrees_pure rfl
  | some v => exact agrees_edit _

theorem agrees_loneEntry (start : Nat) (r : Value × Bool) {m : Entries Value} :
    BuildAgrees t (fun _ k => k = s.cursor) (loneEntry .simple source start r)
      (loneEntry .simple source start r) (m, s) := by
  unfold loneEntry
  split
  · refine (agrees_inside (agrees_bareEntry _ _)).bind ?_
    rintro v? ⟨m₁, s₁⟩ hs₁
    refine (agrees_putValue _ _).mono fun _ _ hs₂ => hs₂.trans hs₁
  · exact agrees_edit _
  · exact agrees_inside (agrees_fail _ _)
  · exact agrees_inside (agrees_fail _ _)
  · exact agrees_inside (agrees_fail _ _)

variable {key key' item item' : Eval σ Value}

theorem agrees_mapEntry (hkey : Lockstep t n room key key')
    (hitem : Lockstep t n room item item') (ht : Terminator (some terminator))
    (hn : s.cursor.rest.length ≤ n) (h : Crossed t room terminator k' s.cursor)
    {m : Entries Value} :
    BuildAgrees t (Ended t room terminator k' s.cursor.rest.length)
      (mapEntry .simple source key item (some terminator))
      (mapEntry .simple source key' item' (some terminator)) (m, s) := by
  refine agrees_inside_position_bind ?_
  refine (agrees_inside (agrees_keyOrCall (hkey.item ht hn h))).bind ?_
  rintro r ⟨m₁, s₁⟩ ⟨htrailed, hshort⟩
  refine (agrees_inside (agrees_scan (Scan.agrees_separator ht htrailed))).bind ?_
  rintro d ⟨m₂, s₂⟩ ⟨hled, hlength⟩
  dsimp only at hshort hlength hled
  have hlone : BuildAgrees t (Ended t room terminator k' s.cursor.rest.length)
      (do loneEntry .simple source s.cursor.position r; return d == .terminator :
        Build (Entries Value) σ Bool)
      (do loneEntry .simple source s.cursor.position r; return d == .terminator) (m₂, s₂) := by
    refine (agrees_loneEntry _ _).bind fun _ p hp => agrees_pure ?_
    rw [hp]
    exact Led.ended hled (by omega)
  cases d with
  | comma | terminator | textEnd => exact hlone
  | colon =>
    have hcrossed : Crossed t room terminator k' s₂.cursor := hled
    refine (agrees_inside (agrees_keyName _ _)).bind ?_
    rintro name ⟨m₃, s₃⟩ hs₃
    dsimp only at hs₃
    rw [← hs₃] at hcrossed hlength
    refine agrees_inside_peek_bind hcrossed.ne_nil ?_
    refine agrees_ite (fun hnone => ?_) fun _ => ?_
    · exact absurd (by simpa using hnone) hcrossed.ne_nil
    refine (agrees_inside (agrees_entryValue _ _ (hitem.item ht (by omega) hcrossed))).bind ?_
    rintro v? ⟨m₄, s₄⟩ ⟨htrailed', hshort'⟩
    refine (agrees_putValue _ _).bind ?_
    rintro _ ⟨m₅, s₅⟩ hs₅
    dsimp only at hs₅ hshort' htrailed'
    rw [← hs₅] at htrailed' hshort'
    exact agrees_inside (agrees_endsListing ht htrailed' (by omega))

theorem agrees_mapBody (hkey : Lockstep t n room key key')
    (hitem : Lockstep t n room item item') (ht : Terminator (some terminator))
    (hn : s.cursor.rest.length ≤ n) (h : Trailed t room terminator k' s.cursor)
    {m : Entries Value} :
    BuildAgrees t (fun _ k => k = k') (mapBody .simple source key item (some terminator))
      (mapBody .simple source key' item' (some terminator)) (m, s) := by
  rw [mapBody_eq, mapBody_eq]
  exact agrees_listing h fun m s₁ hcrossed hlength =>
    agrees_mapEntry hkey hitem ht (by omega) hcrossed

end Maps

section Brackets

open Scan (Terminator)

variable {room : List Char} {terminator : Char} {k₁ : Cursor} {n : Nat}
  {key key' item item' : Eval σ Value}

theorem agrees_closing {k' : Cursor} (hend : k'.Passes [terminator] k₁)
    (hs : s.cursor = k') :
    Agrees t (fun _ k => k = k₁) (scan source Scan.advance) (scan source Scan.advance) s := by
  subst hs
  refine (agrees_scan (Scan.agrees_advance (by simp [hend.rest]))).mono fun _ _ hs₁ => ?_
  exact hs₁.trans (hend.next.1.unique hend)

variable (hitem : Lockstep t n room item item')

include hitem

theorem agrees_list {k : Cursor} (hne : s.cursor.rest ≠ []) (hk : s.cursor.next = k)
    (hn : k.rest.length ≤ n)
    (h : (Scan.skimListing (Scan.skim room) ']' >>= fun _ => Scan.advance) (k.extended t) =
      (.ok (), k₁.extended t)) :
    Agrees t (fun _ k => k = k₁) (Eval.list .simple source item)
      (Eval.list .simple source item') s := by
  obtain ⟨k', htrailed, hend⟩ := Scan.trailed_of_skimListing h
  refine (agrees_scan (Scan.agrees_advance hne)).bind ?_
  rintro _ s₁ hs₁
  rw [hk] at hs₁
  refine agrees_position_bind ?_
  refine Agrees.bind (agrees_within (Q := fun _ k => k = k') ?_) fun r s₂ hs₂ => ?_
  · exact agrees_listBody hitem Terminator.bracket (by rwa [hs₁]) (by rwa [hs₁])
  · refine (agrees_closing hend hs₂).bind fun _ _ hs₃ => agrees_pure hs₃

theorem agrees_map (hkey : Lockstep t n room key key') {k : Cursor} (hne : s.cursor.rest ≠ [])
    (hk : s.cursor.next = k) (hn : k.rest.length ≤ n)
    (h : (Scan.skimListing (Scan.skim room) '\x7d' >>= fun _ => Scan.advance) (k.extended t) =
      (.ok (), k₁.extended t)) :
    Agrees t (fun _ k => k = k₁) (Eval.map .simple source key item)
      (Eval.map .simple source key' item') s := by
  obtain ⟨k', htrailed, hend⟩ := Scan.trailed_of_skimListing h
  refine agrees_position_bind ?_
  refine (agrees_scan (Scan.agrees_advance hne)).bind ?_
  rintro _ s₁ hs₁
  rw [hk] at hs₁
  refine agrees_position_bind ?_
  refine Agrees.bind (agrees_within (Q := fun _ k => k = k') ?_) fun r s₂ hs₂ => ?_
  · exact (agrees_mapBody hkey hitem Terminator.brace (by rwa [hs₁]) (by rwa [hs₁])).bind
      fun _ _ hs₂ => agrees_pure hs₂
  · refine (agrees_closing hend hs₂).bind fun _ _ hs₃ => agrees_pure hs₃

theorem agrees_arguments (function : String) (start : Nat) (hn : s.cursor.rest.length ≤ n)
    (h : (Scan.skimListing (Scan.skim room) ')' >>= fun _ => Scan.advance)
      (s.cursor.extended t) = (.ok (), k₁.extended t)) :
    Agrees t (fun _ k => k = k₁) (Eval.arguments .simple source function start item)
      (Eval.arguments .simple source function start item') s := by
  obtain ⟨k', htrailed, hend⟩ := Scan.trailed_of_skimListing h
  refine Agrees.bind (agrees_within (Q := fun _ k => k = k') ?_) fun r s₁ hs₁ => ?_
  · refine agrees_inside ?_
    exact (agrees_building (agrees_listBody hitem Terminator.parenthesis hn htrailed)).bind
      fun _ _ hs₁ => agrees_pure hs₁
  · refine (agrees_closing hend hs₁).bind fun _ _ hs₂ => agrees_pure hs₂

end Brackets

section Expressions

variable {room : List Char} {k₁ : Cursor} {n : Nat}

/-- What begins no expression is taken for a word, and is none. -/
theorem expression_misplaced {x c : Char} {inner r : List Char} {role : Role} {k : Cursor}
    (hr : k.rest = c :: r) (hc : Character.opens c = false) (st : σ) :
    expression .simple source (x :: inner) role ⟨k, st⟩ =
      (.error (.located .unexpectedCharacter ⟨source, k.position⟩), ⟨k, st⟩) := by
  rw [Character.opens, Bool.or_eq_false_iff] at hc
  obtain ⟨hword, hmarks⟩ := hc
  simp only [List.contains_eq_mem, decide_eq_false_iff_not, List.mem_cons, List.not_mem_nil,
    or_false, not_or] at hmarks
  obtain ⟨hplus, hdouble, hsingle, hbracket, hbrace⟩ := hmarks
  rw [expression_other .simple source x inner role (by simp [hr]) ?_ ?_ st, wordExpression]
  · refine bind_error ?_
    rw [scan_eq, Scan.wordOrCall, bind_error (Scan.word_misplaced hr hword hplus)]
    rfl
  · simp [hr, hbrace, hbracket, hdouble, hsingle]
  · intro q u _ he
    rw [hr] at he
    cases he
    cases hword

theorem agrees_misplaced {x x' c : Char} {inner inner' r : List Char} {role : Role}
    (hr : s.cursor.rest = c :: r) (hc : Character.opens c = false) :
    Agrees t (fun _ _ => False) (expression .simple source (x :: inner) role : Eval σ Value)
      (expression .simple source (x' :: inner') role) s := by
  obtain ⟨k, st⟩ := s
  have hr' : (k.extended t).rest = c :: (r ++ t) := by rw [extended_rest, hr, List.cons_append]
  exact .error (expression_misplaced hr hc st) (expression_misplaced hr' hc st)

theorem agrees_wordExpression {role : Role} {inner inner' : List Char} {start : Nat}
    (hitem : Lockstep t n room (expression .simple source inner (.value role.force) : Eval σ Value)
      (expression .simple source inner' (.value role.force)))
    (hn : s.cursor.rest.length ≤ n + 1) (seam : Scan.Seam t k₁)
    (h : (Scan.wordOrCall >>= fun r =>
      if r.2 then Scan.skimListing (Scan.skim room) ')' >>= fun _ => Scan.advance
      else pure ()) (s.cursor.extended t) = (.ok (), k₁.extended t)) :
    Agrees t (fun _ k => k = k₁) (wordExpression .simple source inner role start)
      (wordExpression .simple source inner' role start) s := by
  obtain ⟨k, st⟩ := s
  obtain ⟨⟨w, called⟩, K, hword, h⟩ := bind_eq_ok.mp h
  cases called with
  | false =>
    obtain ⟨-, rfl⟩ := pure_eq_ok.mp h
    have hword₁ := Scan.wordOrCall_of_extended hword fun _ => seam
    exact agrees_ok_bind (scan_ok hword₁ st) (scan_ok hword st) (agrees_pure rfl)
  | true =>
    have hforward := (Scan.forward_skimListing (Scan.forward_skim room) ')').bind
      fun _ => Scan.forward_advance
    obtain ⟨k₂, rfl, -⟩ := (hforward _ _ _ h).truncated
    have hword₁ := Scan.wordOrCall_of_extended hword (by simp)
    have hshort := Scan.wordOrCall_shortens hword₁
    dsimp only at hn hshort
    have harguments : Agrees t (fun _ k => k = k₁)
        (Eval.arguments .simple source (String.ofList w) start
          (expression .simple source inner (.value role.force)))
        (Eval.arguments .simple source (String.ofList w) start
          (expression .simple source inner' (.value role.force))) ⟨k₂, st⟩ :=
      agrees_arguments hitem _ _ (show k₂.rest.length ≤ n by omega) h
    refine agrees_ok_bind (scan_ok hword₁ st) (scan_ok hword st) ?_
    refine agrees_ite (fun _ => ?_) fun hcalled => absurd rfl hcalled
    refine harguments.bind fun items s₁ hs₁ => ?_
    refine agrees_ite (fun _ => agrees_pure hs₁) fun _ => ?_
    exact (agrees_resolve _ _ _).mono fun _ _ hs₂ => hs₂.trans hs₁

theorem agrees_string {P : Cursor → Prop} {x y : Scan String} {k : Cursor} {st : σ}
    (h : Scan.Agrees t (fun _ k => P k) x y k) :
    Agrees t (fun _ k => P k) (Value.string <$> scan source x) (Value.string <$> scan source y)
      (⟨k, st⟩ : Session σ) := by
  refine Agrees.map ?_
  exact agrees_scan h

theorem expression_unbracketed (x : Char) (inner : List Char) (role : Role) {k : Cursor}
    {c : Char} {r : List Char} (hr : k.rest = c :: r) (noQuote : ¬(c = '"' ∨ c = '\''))
    (noBracket : Scan.closing? c = none)
    (notRaw : ∀ q, q = '"' ∨ q = '\'' → c = 'r' → r.head? ≠ some q) (st : σ) :
    expression .simple source (x :: inner) role ⟨k, st⟩ =
      wordExpression .simple source inner role k.position ⟨k, st⟩ := by
  refine expression_other .simple source x inner role (by simp [hr]) ?_ ?_ st
  · intro d hd he
    rw [hr] at he
    cases he
    simp only [List.mem_cons, List.not_mem_nil, or_false] at hd
    rcases hd with rfl | rfl | rfl | rfl
    · cases noBracket
    · cases noBracket
    · exact noQuote (.inl rfl)
    · exact noQuote (.inr rfl)
  · rintro q u hq he
    rw [hr] at he
    cases he
    exact notRaw q hq rfl rfl

variable {x x' : Char} {inner inner' : List Char} {role : Role} {k : Cursor} {st : σ}

theorem agrees_raw {q : Char} {u : List Char} (hq : q = '"' ∨ q = '\'')
    (hr : (k.extended t).rest = 'r' :: q :: u)
    (h : discard (Scan.raw q) (k.extended t) = (.ok (), k₁.extended t)) :
    Agrees t (fun _ k => k = k₁) (expression .simple source (x :: inner) role)
      (expression .simple source (x' :: inner') role) (⟨k, st⟩ : Session σ) := by
  obtain ⟨str, hraw, -⟩ := map_eq_ok.mp h
  obtain ⟨cs, hk, -⟩ := Scan.of_raw hr hraw
  have hscan : Scan.Agrees t (fun _ k => k = k₁) (Scan.raw q) (Scan.raw q) k :=
    .ok (Scan.raw_of_extended hr hraw) hraw rfl
  exact (agrees_string hscan).congr
    (expression_raw .simple source x inner role hq hk.of_extended.rest st)
    (expression_raw .simple source x' inner' role hq hr st)

/-- What is in brackets of the other kinds is no expression, although it is passed over. -/
theorem agrees_brackets
    (hkey : Lockstep t n room (expression .simple source inner .key : Eval σ Value)
      (expression .simple source inner' .key))
    (hitem : Lockstep t n room (expression .simple source inner (.value role.force) : Eval σ Value)
      (expression .simple source inner' (.value role.force)))
    {c terminator : Char} {r : List Char} (hr : k.rest = c :: r)
    (hclosing : Scan.closing? c = some terminator) (hn : k.next.rest.length ≤ n)
    (h : (Scan.skimListing (Scan.skim room) terminator >>= fun _ => Scan.advance)
      (k.next.extended t) = (.ok (), k₁.extended t)) :
    Agrees t (fun _ k => k = k₁) (expression .simple source (x :: inner) role)
      (expression .simple source (x' :: inner') role) (⟨k, st⟩ : Session σ) := by
  have hne : k.rest ≠ [] := by simp [hr]
  have hR : (k.extended t).rest = c :: (r ++ t) := by
    rw [extended_rest, hr, List.cons_append]
  unfold Scan.closing? at hclosing
  split at hclosing
  · cases hclosing
    exact (agrees_map hitem hkey (s := ⟨k, st⟩) hne rfl hn h).congr
      (expression_map .simple source x inner role hr st)
      (expression_map .simple source x' inner' role hR st)
  · cases hclosing
    exact (agrees_list hitem (s := ⟨k, st⟩) hne rfl hn h).congr
      (expression_list .simple source x inner role hr st)
      (expression_list .simple source x' inner' role hR st)
  · exact (agrees_misplaced hr (by decide)).of_false
  · exact (agrees_misplaced hr (by decide)).of_false
  · cases hclosing

theorem agrees_unbracketed
    (hitem : Lockstep t n room (expression .simple source inner (.value role.force) : Eval σ Value)
      (expression .simple source inner' (.value role.force)))
    {c : Char} {r : List Char} (hr : k.rest = c :: r) (hn : k.rest.length ≤ n + 1)
    (noQuote : ¬(c = '"' ∨ c = '\'')) (noBracket : Scan.closing? c = none)
    (notRaw : ∀ q, q = '"' ∨ q = '\'' → c = 'r' → (r ++ t).head? ≠ some q)
    (seam : Scan.Seam t k₁)
    (h : (Scan.wordOrCall >>= fun r =>
      if r.2 then Scan.skimListing (Scan.skim room) ')' >>= fun _ => Scan.advance
      else pure ()) (k.extended t) = (.ok (), k₁.extended t)) :
    Agrees t (fun _ k => k = k₁) (expression .simple source (x :: inner) role)
      (expression .simple source (x' :: inner') role) (⟨k, st⟩ : Session σ) := by
  have hR : (k.extended t).rest = c :: (r ++ t) := by
    rw [extended_rest, hr, List.cons_append]
  have notRaw₁ : ∀ q, q = '"' ∨ q = '\'' → c = 'r' → r.head? ≠ some q := by
    intro q hq hc hhead
    refine notRaw q hq hc ?_
    rw [List.head?_append, hhead]
    rfl
  have hword : Agrees t (fun _ k => k = k₁)
      (wordExpression .simple source inner role k.position)
      (wordExpression .simple source inner' role k.position) ⟨k, st⟩ :=
    agrees_wordExpression hitem hn seam h
  exact hword.congr
    (expression_unbracketed x inner role hr noQuote noBracket notRaw₁ st)
    (expression_unbracketed x' inner' role hR noQuote noBracket notRaw st)

/-- The evaluations take from the text what is passed over, however much room they have. -/
theorem expression_lockstep (t : List Char) (n : Nat) (role : Role) (room : List Char)
    {inner inner' : List Char} (hinner : n ≤ inner.length) (hinner' : n ≤ inner'.length) :
    Lockstep t n room (expression .simple source inner role : Eval σ Value)
      (expression .simple source inner' role) := by
  -- By induction on what may be left of the text, as each level of brackets leaves less.
  induction n generalizing role room inner inner' with
  | zero =>
    constructor
    · intro s k' bound skimmed _
      have hshort := Scan.skim_shortens skimmed
      rw [extended_rest, extended_rest, List.length_append, List.length_append] at hshort
      omega
    · intro s c r bound first _
      rw [first, List.length_cons] at bound
      omega
  | succ n ih =>
    obtain ⟨x, inner, rfl⟩ := List.exists_cons_of_length_pos (show 0 < inner.length by omega)
    obtain ⟨x', inner', rfl⟩ := List.exists_cons_of_length_pos (show 0 < inner'.length by omega)
    have hinner := Nat.le_of_succ_le_succ hinner
    have hinner' := Nat.le_of_succ_le_succ hinner'
    refine ⟨?_, fun _ first stray => agrees_misplaced first stray⟩
    intro s k₁ bound skimmed seam
    obtain ⟨k, st⟩ := s
    dsimp only [Session.extended] at bound skimmed
    cases room with
    | nil => exact absurd skimmed throw_ne_ok
    | cons y room =>
      have hshort := Scan.skim_shortens skimmed
      rw [extended_rest, extended_rest, List.length_append, List.length_append] at hshort
      obtain ⟨c, r, hr⟩ := List.exists_cons_of_length_pos (show 0 < k.rest.length by omega)
      have hR : (k.extended t).rest = c :: (r ++ t) := by
        rw [extended_rest, hr, List.cons_append]
      have hn : k.next.rest.length ≤ n := by
        rw [hr, List.length_cons] at bound
        rw [(next_of_rest hr).2]
        omega
      have hitem := ih (.value role.force) room hinner hinner'
      have hkey := ih .key room hinner hinner'
      obtain ⟨e, hskim, he⟩ := Scan.skim_passesAs y room (k := k.extended t)
        (by rw [hR]; exact List.cons_ne_nil c (r ++ t))
      rw [hskim] at skimmed
      generalize hrest : (k.extended t).rest = rest at he
      cases he with
      | raw hq => exact agrees_raw hq hrest skimmed
      | quoted hq =>
        rw [hR] at hrest
        cases hrest
        exact (agrees_string (Scan.agrees_quoted hq hr skimmed)).congr
          (expression_quoted .simple source x inner role hq hr st)
          (expression_quoted .simple source x' inner' role hq hR st)
      | brackets hclosing =>
        rw [hR] at hrest
        cases hrest
        rw [bind_ok (Scan.advance_apply _), next_extended (by simp [hr])] at skimmed
        exact agrees_brackets hkey hitem hr hclosing hn skimmed
      | word noQuote noBracket notRaw =>
        rw [hR] at hrest
        cases hrest
        exact agrees_unbracketed hitem hr bound noQuote noBracket notRaw seam skimmed

end Expressions

end Eval
end Cjson
