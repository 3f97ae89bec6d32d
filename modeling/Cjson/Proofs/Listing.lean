import Cjson.Proofs.Listed
import Cjson.Listing

namespace Cjson

/-- What a row of things makes of a `β`, each of them in a step of its own. -/
inductive Chain {α β : Type} (Step : α → β → β → Prop) : List α → β → β → Prop
  | nil {b : β} : Chain Step [] b b
  | cons {a : α} {as : List α} {b b₁ b' : β} (first : Step a b b₁)
      (others : Chain Step as b₁ b') : Chain Step (a :: as) b b'

namespace Eval

open Cjson.Action Cursor

variable {σ α β : Type} {source : Source}

@[simp] theorem position_apply (s : Session σ) :
    (position : Eval σ Nat) s = (.ok s.cursor.position, s) := rfl

theorem fail_ne_ok {p : Problem} {offset : Nat} {s s' : Session σ} {a : α} :
    (fail source p offset : Eval σ α) s ≠ (.ok a, s') := by
  intro h
  cases h

theorem scan_ok {x : Scan α} {k k' : Cursor} {a : α} (h : x k = (.ok a, k')) (st : σ) :
    scan source x ⟨k, st⟩ = (.ok a, ⟨k', st⟩) := by
  simp only [scan, h]

theorem scan_error {x : Scan α} {k k' : Cursor} {p : Problem} {offset : Nat}
    (h : x k = (.error (.problem p offset), k')) (st : σ) :
    scan source x ⟨k, st⟩ = (.error (.located p ⟨source, offset⟩), ⟨k', st⟩) := by
  simp only [scan, h]

theorem of_scan {x : Scan α} {s s' : Session σ} {a : α}
    (h : scan source x s = (.ok a, s')) :
    x s.cursor = (.ok a, s'.cursor) ∧ s'.state = s.state := by
  rcases hx : x s.cursor with ⟨(⟨p, offset⟩ | message) | b, k⟩
  · simp only [scan, hx] at h
    cases h
  · simp only [scan, hx] at h
    cases h
  · simp only [scan, hx] at h
    cases h
    exact ⟨rfl, rfl⟩

theorem inside_ok {x : Eval σ α} {s s' : Session σ} {a : α} (h : x s = (.ok a, s'))
    (b : β) : inside x (b, s) = (.ok a, (b, s')) := by
  simp only [inside, h]

theorem inside_error {x : Eval σ α} {s s' : Session σ} {e : EvaluationError}
    (h : x s = (.error e, s')) (b : β) : inside x (b, s) = (.error e, (b, s')) := by
  simp only [inside, h]

theorem of_inside {x : Eval σ α} {s : Session σ} {b : β} {t' : β × Session σ} {a : α}
    (h : inside x (b, s) = (.ok a, t')) : x s = (.ok a, t'.2) ∧ t'.1 = b := by
  rcases hx : x s with ⟨r, s'⟩
  simp only [inside, hx] at h
  cases h
  exact ⟨rfl, rfl⟩

theorem of_scan_bind {x : Scan α} {f : α → Eval σ β} {s s' : Session σ} {b : β}
    (h : (scan source x >>= f) s = (.ok b, s')) :
    ∃ a k, x s.cursor = (.ok a, k) ∧ f a ⟨k, s.state⟩ = (.ok b, s') := by
  obtain ⟨a, ⟨k, st⟩, hx, hf⟩ := bind_eq_ok.mp h
  obtain ⟨hk, rfl⟩ := of_scan hx
  exact ⟨a, k, hk, hf⟩

theorem of_inside_bind {γ : Type} {x : Eval σ α} {f : α → Build β σ γ} {s : Session σ} {b : β}
    {t' : β × Session σ} {c : γ} (h : (inside x >>= f) (b, s) = (.ok c, t')) :
    ∃ a s', x s = (.ok a, s') ∧ f a (b, s') = (.ok c, t') := by
  obtain ⟨a, ⟨b', s'⟩, hx, hf⟩ := bind_eq_ok.mp h
  obtain ⟨hs', rfl⟩ := of_inside hx
  exact ⟨a, s', hs', hf⟩

theorem inside_ends {x : Eval σ α} {s : Session σ} {Q : α → Session σ → Prop}
    (h : Ends x s Q) (b : β) :
    Ends (inside x) (b, s) fun a t' => t'.1 = b ∧ Q a t'.2 := by
  obtain ⟨a, s', hx, ha⟩ := h
  exact ⟨a, (b, s'), inside_ok hx b, rfl, ha⟩

theorem building_ok {x : Build β σ α} {b b' : β} {s s' : Session σ} {a : α}
    (h : x (b, s) = (.ok a, (b', s'))) : building b x s = (.ok (a, b'), s') := by
  simp only [building, h]

theorem of_building {x : Build β σ α} {b : β} {s s' : Session σ} {r : α × β}
    (h : building b x s = (.ok r, s')) : x (b, s) = (.ok r.1, (r.2, s')) := by
  rcases hx : x (b, s) with ⟨e | a, b', s₁⟩
  · simp only [building, hx] at h
    cases h
  · simp only [building, hx] at h
    cases h
    rfl

@[simp] theorem edit_apply (f : β → β) (b : β) (s : Session σ) :
    (edit f : Build β σ Unit) (b, s) = (.ok (), (f b, s)) := rfl

variable {kind : Cjson.Listing} {terminator : Option Char} {start : Nat}

theorem itemOrEnd_end {item : Build β σ Bool} {b : β} {s : Session σ}
    (h : s.cursor.rest.head? = terminator) :
    itemOrEnd source kind terminator start item (b, s) = (.ok (.done ()), (b, s)) := by
  obtain ⟨k, st⟩ := s
  rw [itemOrEnd, bind_ok (inside_ok (position_apply _) b),
    bind_ok (inside_ok (scan_ok (Scan.peek_apply k) st) b)]
  dsimp only at h
  rw [h]
  cases terminator with
  | none => rfl
  | some c =>
    dsimp only
    rw [if_pos rfl]
    rfl

theorem itemOrEnd_item {item : Build β σ Bool} {b : β} {s : Session σ}
    (ht : Scan.Terminator terminator) (h : Text.Opens s.cursor.rest) :
    itemOrEnd source kind terminator start item (b, s) =
      (item >>= fun last => pure (if last then .done () else .again ())) (b, s) := by
  obtain ⟨k, st⟩ := s
  have hterm := ht.ne_head h
  have hcomma := h.head_ne (d := ',') rfl
  obtain ⟨c, r, hr, -⟩ := h
  dsimp only at hr hterm hcomma
  rw [hr, List.head?_cons] at hterm hcomma
  rw [itemOrEnd, bind_ok (inside_ok (position_apply _) b),
    bind_ok (inside_ok (scan_ok (Scan.peek_apply k) st) b)]
  rw [hr]
  dsimp only [List.head?_cons]
  rw [if_neg hterm, if_neg (by simpa using hcomma)]

/-- A listing fails as its first item does. -/
theorem listing_error {item : Build β σ Bool} {b : β} {k : Cursor} {st : σ}
    {e : EvaluationError} {t' : β × Session σ} (ht : Scan.Terminator terminator)
    (hk : Text.Opens k.rest) (h : item (b, ⟨k, st⟩) = (.error e, t')) :
    listing source kind terminator item (b, ⟨k, st⟩) = (.error e, t') := by
  have hgap : Scan.gap k = (.ok false, k) := Scan.gapFrom_solid hk.solid
  have hturn : itemOrEnd source kind terminator k.position item (b, ⟨k, st⟩) =
      (.error e, t') := by
    rw [itemOrEnd_item ht hk, bind_error h]
  rw [listing, bind_ok (inside_ok (position_apply _) b),
    bind_ok (inside_ok (scan_ok hgap st) b)]
  exact loop_of_error hturn _

theorem of_itemOrEnd {item : Build β σ Bool} {b : β} {s : Session σ} {turn : Turn Unit Unit}
    {t' : β × Session σ}
    (h : itemOrEnd source kind terminator start item (b, s) = (.ok turn, t')) :
    (s.cursor.rest.head? = terminator ∧ turn = .done () ∧ t' = (b, s)) ∨
      ∃ last, item (b, s) = (.ok last, t') ∧
        turn = if last then .done () else .again () := by
  obtain ⟨k, st⟩ := s
  rw [itemOrEnd, bind_ok (inside_ok (position_apply _) b),
    bind_ok (inside_ok (scan_ok (Scan.peek_apply k) st) b)] at h
  generalize hc : k.rest.head? = o at h ⊢
  split at h
  · obtain ⟨rfl, rfl⟩ := pure_eq_ok.mp h
    exact .inl ⟨rfl, rfl, rfl⟩
  · obtain ⟨hf, -⟩ := of_inside h
    exact absurd hf fail_ne_ok
  · rename_i c _
    split at h
    · rename_i hterm
      obtain ⟨rfl, rfl⟩ := pure_eq_ok.mp h
      exact .inl ⟨hterm, rfl, rfl⟩
    · split at h
      · obtain ⟨_, _, hf, -⟩ := of_inside_bind h
        exact absurd hf fail_ne_ok
      · obtain ⟨last, _, hitem, h⟩ := bind_eq_ok.mp h
        obtain ⟨rfl, rfl⟩ := pure_eq_ok.mp h
        exact .inr ⟨last, hitem, rfl⟩

variable {γ : Type} {P : γ → List Char → Prop} {item : Build β σ Bool}

/-- If each item can be read with the separator behind it, all of them can. -/
theorem listing_ends (At : σ → Prop) (Step : γ → β → β → Prop)
    (ht : Scan.Terminator terminator) (hP : ∀ a u, P a u → Text.Opens u)
    (hitem : ∀ a u sep d k k' b st, P a u → k.Passes (u ++ sep) k' →
      d = .comma ∨ d = .terminator → Scan.Separated terminator d sep k'.rest →
      WordEnds (sep ++ k'.rest) → k.In source → At st →
      Ends item (b, ⟨k, st⟩) fun last t' =>
        last = (d == .terminator) ∧ Step a b t'.1 ∧ t'.2.cursor = k' ∧ At t'.2.state)
    {as : List γ} {k k' : Cursor} (h : Inside P terminator as k k') (hin : k.In source)
    (b : β) {st : σ} (hst : At st) :
    Ends (listing source kind terminator item) (b, ⟨k, st⟩) fun _ t' =>
      Chain Step as b t'.1 ∧ t'.2.cursor = k' ∧ At t'.2.state := by
  obtain ⟨lineBreak, k₁, hgap, hlists⟩ := h
  obtain ⟨g, hk₁, -⟩ := Scan.gap_eq_ok.mp hgap
  have finishes : ∃ t', Finishes (fun t : β × Session σ => t.2.cursor.rest)
      (fun () => itemOrEnd source kind terminator k.position item) () (b, ⟨k₁, st⟩) () t' ∧
      Chain Step as b t'.1 ∧ t'.2.cursor = k' ∧ At t'.2.state := by
    have hin := hk₁.In hin
    clear hgap hk₁
    induction hlists generalizing b st with
    | nil ends => exact ⟨_, .done (itemOrEnd_end ends), .nil, rfl, hst⟩
    | @last a u sep k k' hu hk hsep =>
      have hopens : Text.Opens k.rest := by
        rw [hk.rest, List.append_assoc]
        exact (hP a u hu).append _
      have hends : k'.rest.head? = terminator := by
        cases hsep
        assumption
      have hword : WordEnds (sep ++ k'.rest) :=
        hsep.wordEnds ht ((Lists.nil hends : Lists P _ _ _ _).head ht hP)
      obtain ⟨_, t', hrun, rfl, hstep, hcur, hst'⟩ :=
        hitem a u sep _ k k' b st hu hk (.inr rfl) hsep hword hin hst
      refine ⟨t', .done ?_, .cons hstep .nil, hcur, hst'⟩
      rw [itemOrEnd_item ht hopens, bind_ok hrun]
      rfl
    | @cons a as u sep k k₁ k' hu hk hsep others ih =>
      have hopens : Text.Opens k.rest := by
        rw [hk.rest, List.append_assoc]
        exact (hP a u hu).append _
      obtain ⟨_, ⟨b', s'⟩, hrun, rfl, hstep, rfl, hst'⟩ :=
        hitem a u sep _ k k₁ b st hu hk (.inl rfl) hsep
          (hsep.wordEnds ht (others.head ht hP)) hin hst
      obtain ⟨t', hrest, hchain, hend⟩ := ih b' hst' (hk.In hin)
      refine ⟨t', .again ?_ ?_ hrest, .cons hstep hchain, hend⟩
      · rw [itemOrEnd_item ht hopens, bind_ok hrun]
        rfl
      · obtain ⟨c, r, rfl, -⟩ := hP a u hu
        have := hk.length
        simp only [List.length_append, List.length_cons] at this ⊢
        omega
  obtain ⟨t', hloop, hend⟩ := finishes
  refine ⟨(), t', ?_, hend⟩
  rw [listing, bind_ok (inside_ok (position_apply _) b),
    bind_ok (inside_ok (scan_ok hgap st) b)]
  exact hloop.untilDone

/-- If what is read as an item is one, what is read as a listing is a listing. -/
theorem of_listing (Step : γ → β → β → Prop) (hP : ∀ a u, P a u → Text.Opens u)
    (hitem : ∀ b s last t', item (b, s) = (.ok last, t') →
      ∃ a u sep d, P a u ∧ s.cursor.Passes (u ++ sep) t'.2.cursor ∧ d ≠ .colon ∧
        Scan.Separated terminator d sep t'.2.cursor.rest ∧ last = (d == .terminator) ∧
        Step a b t'.1)
    {b : β} {s : Session σ} {t' : β × Session σ}
    (h : listing source kind terminator item (b, s) = (.ok (), t')) :
    ∃ as, Inside P terminator as s.cursor t'.2.cursor ∧ Chain Step as b t'.1 := by
  obtain ⟨start, _, hp, h⟩ := of_inside_bind h
  cases hp
  obtain ⟨lineBreak, s₁, hgap, h⟩ := of_inside_bind h
  obtain ⟨hgap, -⟩ := of_scan hgap
  have hloop := untilDone_induction
    (motive := fun _ t _ t' => ∃ as, Lists P terminator as t.2.cursor t'.2.cursor ∧
      Chain Step as t.1 t'.1) ?_ ?_ h
  · obtain ⟨as, hlists, hchain⟩ := hloop
    exact ⟨as, ⟨lineBreak, _, hgap, hlists⟩, hchain⟩
  · intro _ r _ t' hdone
    obtain ⟨b, s⟩ := r
    rcases of_itemOrEnd hdone with ⟨hends, -, rfl⟩ | ⟨last, hrun, hturn⟩
    · exact ⟨[], .nil hends, .nil⟩
    · obtain ⟨a, u, sep, d, hu, hk, -, hsep, rfl, hstep⟩ := hitem _ _ _ _ hrun
      cases d with
      | terminator => exact ⟨[a], .last hu hk hsep, .cons hstep .nil⟩
      | comma | colon | textEnd => cases hturn
  · intro _ r _ t₁ _ t' hagain h
    obtain ⟨b, s⟩ := r
    obtain ⟨as, hlists, hchain⟩ := h
    rcases of_itemOrEnd hagain with ⟨-, hturn, -⟩ | ⟨last, hrun, hturn⟩
    · cases hturn
    · obtain ⟨a, u, sep, d, hu, hk, hcolon, hsep, rfl, hstep⟩ := hitem _ _ _ _ hrun
      cases d with
      | terminator => cases hturn
      | colon => exact absurd rfl hcolon
      | comma => exact ⟨a :: as, .cons hu hk hsep hlists, .cons hstep hchain⟩
      | textEnd =>
        generalize hr : t₁.2.cursor.rest = rest at hsep
        cases hsep with
        | textEnd _ unclosed => exact absurd (hlists.of_rest_nil hP hr) unclosed

/-- How an entry of a map is read, with the separator behind it. -/
def mapEntry (env : Environment σ) (source : Source) (key item : Eval σ Value)
    (terminator : Option Char) : Build (Entries Value) σ Bool := do
  let start ← inside position
  let k ← inside (keyOrCall env source key)
  match ← inside (scan source (Scan.separator terminator none)) with
  | .colon => do
    let name ← inside (keyName source start k)
    if (← inside (scan source Scan.peek)).isNone then
      inside (fail source .missingValue start)
    putValue name (← inside (entryValue env source name start item))
    inside (endsListing source terminator .afterValue)
  | separator => do
    loneEntry env source start k
    return separator == .terminator

theorem mapBody_eq (env : Environment σ) (source : Source) (key item : Eval σ Value)
    (terminator : Option Char) :
    mapBody env source key item terminator =
      listing source .map terminator (mapEntry env source key item terminator) :=
  rfl

theorem mapEntry_lone {key item : Eval σ Value} {terminator : Option Char}
    {r : Value × Bool} {d : Scan.Separator} {m : Entries Value} {s : Session σ}
    {k₁ k' : Cursor} {st : σ} (hkey : keyOrCall env source key s = (.ok r, ⟨k₁, st⟩))
    (hsep : Scan.separator terminator none k₁ = (.ok d, k')) (hd : d ≠ .colon) :
    mapEntry env source key item terminator (m, s) =
      (do
        loneEntry env source s.cursor.position r
        return d == .terminator : Build (Entries Value) σ Bool) (m, ⟨k', st⟩) := by
  rw [mapEntry, bind_ok (inside_ok (position_apply s) m), bind_ok (inside_ok hkey m),
    bind_ok (inside_ok (scan_ok hsep st) m)]
  cases d with
  | colon => exact absurd rfl hd
  | comma | terminator | textEnd => rfl

theorem mapEntry_pair {key item : Eval σ Value} {terminator : Option Char} {str : String}
    {r : Value × Bool} {m : Entries Value} {s : Session σ} {k₁ k' : Cursor} {st : σ}
    (hkey : keyOrCall env source key s = (.ok r, ⟨k₁, st⟩))
    (hsep : Scan.separator terminator none k₁ = (.ok .colon, k')) (hne : k'.rest ≠ [])
    (hname : keyName source s.cursor.position r ⟨k', st⟩ = (.ok str, ⟨k', st⟩)) :
    mapEntry env source key item terminator (m, s) =
      (do
        putValue str (← inside (entryValue env source str s.cursor.position item))
        inside (endsListing source terminator .afterValue) :
          Build (Entries Value) σ Bool) (m, ⟨k', st⟩) := by
  rw [mapEntry, bind_ok (inside_ok (position_apply s) m), bind_ok (inside_ok hkey m),
    bind_ok (inside_ok (scan_ok hsep st) m)]
  dsimp only
  rw [bind_ok (inside_ok hname m), bind_ok (inside_ok (scan_ok (Scan.peek_apply k') st) m),
    if_neg (by simpa using hne)]

end Eval
end Cjson
