import Cjson.Proofs.Agreement
import Cjson.Proofs.Cut
import Cjson.Proofs.Safety

namespace Cjson

open Cjson.Action Cursor

/-- What is wrong is the form of the text, or it is a defect. -/
def EvaluationError.Formal (e : EvaluationError) : Prop :=
  ∀ kind, e.kind? = some kind → kind = .syntactic

theorem formal_located {p : Problem} (l : Location) (hp : p.kind = .syntactic) :
    (EvaluationError.located p l).Formal := by
  rintro kind ⟨rfl⟩
  exact hp

theorem formal_internal (message : String) : (EvaluationError.internal message).Formal := by
  rintro kind ⟨⟩

namespace Eval

variable {σ α β γ : Type} {source source' : Source} {t : List Char} {Q : α → Cursor → Prop}
  {s : Session σ} {b : β}

abbrev Fades (Q : α → Cursor → Prop) (x : Eval σ α) (s : Session σ) : Prop :=
  Action.Fades EvaluationError.Formal (fun a s' => Q a s'.cursor) x s

abbrev BuildFades (Q : α → Cursor → Prop) (x : Build β σ α) (p : β × Session σ) : Prop :=
  Action.Fades EvaluationError.Formal (fun a p' => Q a p'.2.cursor) x p

/-- The evaluation of a text that is cut off, beside one of the whole text. -/
abbrev Cuts (t : List Char) (Q : α → Cursor → Prop) (x y : Eval σ α) (s : Session σ) : Prop :=
  Action.Cuts (Session.extended t) EvaluationError.Formal (fun a s' => Q a s'.cursor) x y s

abbrev BuildCuts (t : List Char) (Q : α → Cursor → Prop) (x y : Build β σ α)
    (p : β × Session σ) : Prop :=
  Action.Cuts (fun p : β × Session σ => (p.1, p.2.extended t)) EvaluationError.Formal
    (fun a p' => Q a p'.2.cursor) x y p

theorem cuts_fail (x : Eval σ α) (p : Problem) (offset : Nat) :
    Cuts t Q x (fail source' p offset) s :=
  .fails rfl

theorem cuts_position_bind {R : β → Session σ → Prop} {f g : Nat → Eval σ β}
    (h : Action.Cuts (Session.extended t) EvaluationError.Formal R (f s.cursor.position)
      (g s.cursor.position) s) :
    Action.Cuts (Session.extended t) EvaluationError.Formal R (position >>= f) (position >>= g) s :=
  cuts_same_bind rfl rfl h

theorem fades_scan {x : Scan α} (h : Scan.Fades Q x s.cursor) : Fades Q (scan source x) s := by
  obtain ⟨k, st⟩ := s
  cases h with
  | @error e k₁ run fault =>
    have hx : scan source x ⟨k, st⟩ = (.error (e.located source), ⟨k₁, st⟩) := by
      rw [scan_eq, run]
      rfl
    refine .error hx ?_
    cases e with
    | problem p offset => exact formal_located _ fault
    | internal message => exact formal_internal message
  | ok run holds => exact .ok (scan_ok run st) holds

theorem cuts_scan {x y : Scan α} (h : Scan.Cuts t Q x y s.cursor) :
    Cuts t Q (scan source x) (scan source' y) s := by
  obtain ⟨k, st⟩ := s
  cases h with
  | @fails e k₂ second =>
    have hy : scan source' y ⟨k.extended t, st⟩ = (.error (e.located source'), ⟨k₂, st⟩) := by
      rw [scan_eq, second]
      rfl
    exact .fails hy
  | same first second => exact .same (scan_ok first st) (scan_ok second st)
  | fades first => exact .fades (fades_scan first)

theorem cuts_advance_bind {R : α → Session σ → Prop} {f g : Unit → Eval σ α}
    (hne : s.cursor.rest ≠ []) (h : Action.Cuts (Session.extended t) EvaluationError.Formal R
      (f ()) (g ()) ⟨s.cursor.next, s.state⟩) :
    Action.Cuts (Session.extended t) EvaluationError.Formal R (scan source Scan.advance >>= f)
      (scan source' Scan.advance >>= g) s := by
  refine cuts_same_bind (scan_ok (Scan.advance_apply _) _) ?_ h
  have hadvance : Scan.advance (s.cursor.extended t) = (.ok (), s.cursor.next.extended t) := by
    rw [Scan.advance_apply, next_extended hne]
  exact scan_ok hadvance _

theorem fades_inside {x : Eval σ α} (h : Fades Q x s) : BuildFades Q (inside x) (b, s) := by
  cases h with
  | error run fault => exact .error (inside_error run b) fault
  | ok run holds => exact .ok (inside_ok run b) holds

theorem cuts_inside {x y : Eval σ α} (h : Cuts t Q x y s) :
    BuildCuts t Q (inside x) (inside y) (b, s) := by
  cases h with
  | fails second => exact .fails (inside_error second b)
  | same first second => exact .same (inside_ok first b) (inside_ok second b)
  | fades first => exact .fades (fades_inside first)

theorem cuts_inside_position_bind {R : γ → Cursor → Prop} {f g : Nat → Build β σ γ}
    (h : BuildCuts t R (f s.cursor.position) (g s.cursor.position) (b, s)) :
    BuildCuts t R (inside position >>= f) (inside position >>= g) (b, s) :=
  cuts_same_bind rfl rfl h

theorem cuts_inside_peek_bind {R : γ → Cursor → Prop} {f g : Option Char → Build β σ γ}
    (hne : s.cursor.rest ≠ [])
    (h : BuildCuts t R (f s.cursor.rest.head?) (g s.cursor.rest.head?) (b, s)) :
    BuildCuts t R (inside (scan source Scan.peek) >>= f) (inside (scan source' Scan.peek) >>= g)
      (b, s) := by
  refine cuts_same_bind rfl ?_ h
  rw [← head_extended hne]
  rfl

theorem cuts_building {x y : Build β σ α} (h : BuildCuts t Q x y (b, s)) :
    Cuts t (fun r k => Q r.1 k) (building b x) (building b y) s := by
  cases h with
  | @fails e p second =>
    have hy : building b y (s.extended t) = (.error e, p.2) := by
      simp only [building]
      rw [second]
    exact .fails hy
  | same first second => exact .same (building_ok first) (building_ok second)
  | fades first =>
    cases first with
    | @error e p run fault =>
      have hx : building b x s = (.error e, p.2) := by simp only [building, run]
      exact .fades (.error hx fault)
    | ok run holds => exact .fades (.ok (building_ok run) holds)

theorem fades_within {scope : Scope} {start : Nat} {body : Signal → Build scope.Target σ α}
    (h : BuildFades Q (body .proceed) (scope.empty, s)) :
    Fades (fun r k => Q r.1 k) (within .simple source scope start body) s := by
  cases h with
  | error run fault => exact .error (within_simple_error run) fault
  | @ok a p run holds =>
    have hx : within .simple source scope start body s = (.ok (a, p.1), p.2) := by
      rw [within_simple, run]
    exact .ok hx holds

theorem cuts_within {scope : Scope} {start : Nat} {body body' : Signal → Build scope.Target σ α}
    (h : BuildCuts t Q (body .proceed) (body' .proceed) (scope.empty, s)) :
    Cuts t (fun r k => Q r.1 k) (within .simple source scope start body)
      (within .simple source' scope start body') s := by
  cases h with
  | fails second => exact .fails (within_simple_error second)
  | @same a p first second =>
    have hx : within .simple source scope start body s = (.ok (a, p.1), p.2) := by
      rw [within_simple, first]
    have hy : within .simple source' scope start body' (s.extended t) =
        (.ok (a, p.1), p.2.extended t) := by
      rw [within_simple, second]
    exact .same hx hy
  | fades first => exact .fades (fades_within first)

/-- How the expressions in a text that is cut off go, beside those in the whole text. One that
comes to the cut is a word with `V`, and in front of the cut there is none. -/
structure Trails (t : List Char) (V : Value → Prop) (x y : Eval σ Value) : Prop where
  cut (s : Session σ) : Cuts t (fun v k => V v ∧ k.Spent) x y s
  past {s : Session σ} (h : s.cursor.Over) : Fades (fun _ _ => False) x s

section Listings

open Scan (Terminator)

variable {terminator : Char} {V : Value → Prop}

/-- Behind an item that came to the cut, the listing is not at its end. -/
abbrev Unended (last : Bool) (k : Cursor) : Prop :=
  last = false ∧ k.Over

theorem fades_endsListing {why : ColonFault} (ht : Terminator (some terminator))
    (h : s.cursor.Spent) : Fades Unended (endsListing source (some terminator) why) s := by
  refine (fades_scan (Scan.fades_separator ht h)).bind ?_
  rintro d s₁ ⟨rfl | rfl, hover⟩
  · exact .ok rfl ⟨rfl, hover⟩
  · exact .ok rfl ⟨rfl, hover⟩

theorem cuts_endsListing {why : ColonFault} (ht : Terminator (some terminator)) :
    Cuts t Unended (endsListing source (some terminator) why)
      (endsListing source' (some terminator) why) s := by
  refine (cuts_scan (Scan.cuts_separator ht _)).bind (fun d _ _ => cuts_pure _) ?_
  rintro d s₁ - ⟨hd, hover⟩
  exact .ok rfl ⟨beq_false_of_ne hd, hover⟩

variable {kind : Listing} {start : Nat} {item item' : Build β σ Bool}

theorem fades_itemOrEnd (ht : Terminator (some terminator)) (hover : s.cursor.Over)
    (hitem : BuildFades (fun _ _ => False) item (b, s)) :
    BuildFades (fun _ _ => False) (itemOrEnd source kind (some terminator) start item) (b, s) := by
  obtain ⟨k, st⟩ := s
  rcases hover with hr | hr
  · dsimp only at hr
    have hrun : itemOrEnd source kind (some terminator) start item (b, ⟨k, st⟩) =
        (.error (.located (.unclosedListing kind terminator) ⟨source, start - 1⟩),
          (b, ⟨k, st⟩)) := by
      rw [itemOrEnd, bind_ok (inside_ok (position_apply _) b),
        bind_ok (inside_ok (scan_ok (Scan.peek_apply k) st) b), hr]
      rfl
    exact .error hrun (formal_located _ rfl)
  · dsimp only at hr
    have hslash : some '/' ≠ some terminator := ht.ne_slash
    have hrun : itemOrEnd source kind (some terminator) start item (b, ⟨k, st⟩) =
        (item >>= fun last => pure (if last then .done () else .again ())) (b, ⟨k, st⟩) := by
      rw [itemOrEnd, bind_ok (inside_ok (position_apply _) b),
        bind_ok (inside_ok (scan_ok (Scan.peek_apply k) st) b), hr]
      dsimp only [List.head?_cons]
      rw [if_neg hslash, if_neg (by decide)]
    exact hitem.bind_of_false.congr hrun

theorem cuts_itemOrEnd (ht : Terminator (some terminator))
    (hitem : BuildCuts t Unended item item' (b, s))
    (hover : s.cursor.Over → BuildFades (fun _ _ => False) item (b, s)) :
    BuildCuts t (fun turn k => turn = .again () ∧ k.Over)
      (itemOrEnd source kind (some terminator) start item)
      (itemOrEnd source' kind (some terminator) start item') (b, s) := by
  by_cases h : s.cursor.Over
  · exact .fades (fades_itemOrEnd ht h (hover h)).of_false
  · have hne := rest_ne_nil_of_not_over h
    obtain ⟨c, r, hr⟩ := List.exists_cons_of_ne_nil hne
    have hhead : s.cursor.rest.head? = some c := by
      rw [hr]
      rfl
    refine cuts_inside_position_bind ?_
    refine cuts_inside_peek_bind hne ?_
    rw [hhead]
    dsimp only
    refine cuts_ite (fun _ => cuts_pure _) fun _ => ?_
    refine cuts_ite (fun _ => .fails rfl) fun _ => ?_
    refine hitem.bind (fun last _ _ => cuts_pure _) ?_
    rintro last p - ⟨rfl, hover⟩
    exact .ok rfl ⟨rfl, hover⟩

/-- A listing is closed in front of the cut, or fails at the cut. -/
theorem cuts_listing (ht : Terminator (some terminator))
    (hitem : ∀ b s, BuildCuts t Unended item item' (b, s))
    (hover : ∀ b s, s.cursor.Over → BuildFades (fun _ _ => False) item (b, s)) (b : β)
    (s : Session σ) :
    BuildCuts t (fun _ _ => False) (listing source kind (some terminator) item)
      (listing source' kind (some terminator) item') (b, s) := by
  refine cuts_inside_position_bind ?_
  refine (cuts_inside (cuts_scan (Scan.cuts_gap s.cursor))).bind ?_ ?_
  · intro _ p _
    refine cuts_untilDone (fun _ p => p.2.cursor.Over) (formal_internal _) ?_ ?_ () p
    · rintro ⟨⟩ ⟨b, s⟩
      refine (cuts_itemOrEnd ht (hitem b s) (hover b s)).mono ?_
      rintro turn p ⟨rfl, hp⟩
      exact ⟨(), rfl, hp⟩
    · rintro ⟨⟩ ⟨b, s⟩ h
      exact fades_itemOrEnd ht h (hover b s h)
  · rintro _ ⟨b, s⟩ - h
    exact fades_untilDone (fades_itemOrEnd ht h (hover b s h))

theorem cuts_listBody {x y : Eval σ Value} (hitem : Trails t V x y)
    (ht : Terminator (some terminator)) (vs : List Value) (s : Session σ) :
    BuildCuts t (fun _ _ => False) (listBody source x (some terminator))
      (listBody source' y (some terminator)) (vs, s) := by
  refine cuts_listing ht ?_ ?_ vs s
  · intro vs s
    refine (cuts_inside (hitem.cut s)).bind ?_ ?_
    · rintro v ⟨vs, s⟩ -
      refine cuts_same_bind rfl rfl ?_
      exact cuts_inside (cuts_endsListing ht)
    · rintro v ⟨vs, s⟩ - ⟨-, hspent⟩
      exact (fades_inside (fades_endsListing ht hspent)).congr rfl
  · intro vs s hover
    exact (fades_inside (hitem.past hover)).bind_of_false

end Listings

section Maps

open Scan (Terminator)

variable {terminator : Char} {V : Value → Prop} {start : Nat} {m : Entries Value}

/-- In place of a key, nothing but a string comes to the cut. -/
def IsString (v : Value) : Prop :=
  ∃ str, v = .string str

theorem cuts_keyOrCall {key key' : Eval σ Value} (hkey : Trails t IsString key key')
    (s : Session σ) :
    Cuts t (fun r k => (∃ str, r = (.string str, false)) ∧ k.Spent)
      (keyOrCall .simple source key) (keyOrCall .simple source' key') s := by
  refine cuts_position_bind ?_
  refine (hkey.cut s).bind ?_ ?_
  · intro v s₁ _
    split
    · exact .same rfl rfl
    · exact cuts_pure _
  · rintro _ s₁ - ⟨⟨str, rfl⟩, hspent⟩
    exact .ok rfl ⟨⟨str, rfl⟩, hspent⟩

theorem fades_keyOrCall {key key' : Eval σ Value} (hkey : Trails t IsString key key')
    (h : s.cursor.Over) : Fades (fun _ _ => False) (keyOrCall .simple source key) s :=
  (hkey.past h).bind_of_false.congr rfl

theorem cuts_keyName (start : Nat) (r : Value × Bool) :
    Cuts t (fun _ _ => False) (keyName source start r) (keyName source' start r) s := by
  unfold keyName
  split
  · exact cuts_pure _
  · exact cuts_fail _ _ _
  · exact cuts_fail _ _ _

theorem cuts_loneEntry (start : Nat) (r : Value × Bool) :
    BuildCuts t (fun _ _ => False) (loneEntry .simple source start r)
      (loneEntry .simple source' start r) (m, s) := by
  unfold loneEntry
  split
  · exact cuts_same_bind rfl rfl (.same rfl rfl)
  · exact .same rfl rfl
  · exact .fails rfl
  · exact .fails rfl
  · exact .fails rfl

theorem cuts_putValue (name : String) (v? : Option Value) :
    BuildCuts t (fun _ _ => False) (putValue name v?) (putValue name v?) (m, s) := by
  cases v? with
  | none => exact .same rfl rfl
  | some v => exact .same rfl rfl

variable {item item' : Eval σ Value}

theorem fades_entryValue (name : String) (start : Nat) (hitem : Trails t V item item')
    (h : s.cursor.Over) :
    Fades (fun _ _ => False) (entryValue .simple source name start item) s := by
  refine (fades_within (Q := fun _ _ => False) ?_).bind_of_false
  exact (fades_inside (hitem.past h)).map

theorem cuts_entryValue (name : String) (start : Nat) (hitem : Trails t V item item') :
    Cuts t (fun _ k => k.Spent) (entryValue .simple source name start item)
      (entryValue .simple source' name start item') s := by
  refine (cuts_within (Q := fun _ k => k.Spent) ?_).bind (fun _ _ _ => cuts_pure _) ?_
  · exact ((cuts_inside (hitem.cut s)).mono fun _ _ h => h.2).map
  · rintro r s₁ - hspent
    exact .ok rfl hspent

/-- What stands behind the colon of an entry. -/
def pairTail (source : Source) (item : Eval σ Value) (terminator : Option Char) (start : Nat)
    (name : String) : Build (Entries Value) σ Bool := do
  if (← inside (scan source Scan.peek)).isNone then
    inside (fail source .missingValue start)
  putValue name (← inside (entryValue .simple source name start item))
  inside (endsListing source terminator .afterValue)

/-- What stands behind a key. -/
def keyTail (source : Source) (item : Eval σ Value) (terminator : Option Char) (start : Nat)
    (r : Value × Bool) : Build (Entries Value) σ Bool := do
  match ← inside (scan source (Scan.separator terminator none)) with
  | .colon => do
    let name ← inside (keyName source start r)
    pairTail source item terminator start name
  | separator => do
    loneEntry .simple source start r
    return separator == .terminator

theorem mapEntry_simple (source : Source) (key item : Eval σ Value) (terminator : Option Char) :
    mapEntry .simple source key item terminator = (do
      let start ← inside position
      let r ← inside (keyOrCall .simple source key)
      keyTail source item terminator start r) :=
  rfl

theorem fades_pairTail (name : String) (hitem : Trails t V item item') (h : s.cursor.Over) :
    BuildFades (fun _ _ => False) (pairTail source item (some terminator) start name) (m, s) := by
  have hvalue : BuildFades (fun _ _ => False) (do
      putValue name (← inside (entryValue .simple source name start item))
      inside (endsListing source (some terminator) .afterValue) : Build (Entries Value) σ Bool)
      (m, s) :=
    (fades_inside (fades_entryValue name start hitem h)).bind_of_false
  obtain ⟨k, st⟩ := s
  rcases h with hr | hr
  · dsimp only at hr
    have hrun : pairTail source item (some terminator) start name (m, ⟨k, st⟩) =
        (.error (.located .missingValue ⟨source, start⟩), (m, ⟨k, st⟩)) := by
      rw [pairTail, bind_ok (inside_ok (scan_ok (Scan.peek_apply k) st) m), hr]
      rfl
    exact .error hrun (formal_located _ rfl)
  · dsimp only at hr
    refine hvalue.congr ?_
    rw [pairTail, bind_ok (inside_ok (scan_ok (Scan.peek_apply k) st) m), hr]
    rfl

theorem cuts_pairTail (name : String) (hitem : Trails t V item item')
    (ht : Terminator (some terminator)) :
    BuildCuts t Unended (pairTail source item (some terminator) start name)
      (pairTail source' item' (some terminator) start name) (m, s) := by
  by_cases h : s.cursor.Over
  · exact .fades (fades_pairTail name hitem h).of_false
  · have hne := rest_ne_nil_of_not_over h
    refine cuts_inside_peek_bind hne ?_
    refine cuts_ite (fun _ => .fails rfl) fun _ => ?_
    refine (cuts_inside (cuts_entryValue name start hitem)).bind ?_ ?_
    · rintro v? ⟨m, s⟩ -
      refine (cuts_putValue name v?).bind_of_false ?_
      rintro _ ⟨m, s⟩ -
      exact cuts_inside (cuts_endsListing ht)
    · rintro v? ⟨m, s⟩ - hspent
      refine fades_ok_bind (putValue_apply name v? m s) ?_
      exact fades_inside (fades_endsListing ht hspent)

theorem of_loneEntry_ok {r : Value × Bool} {t' : Entries Value × Session σ}
    (h : loneEntry .simple source start r (m, s) = (.ok (), t')) :
    IsString r.1 ∨ ∃ m', r.1 = .map m' := by
  unfold loneEntry at h
  split at h
  · exact .inl ⟨_, rfl⟩
  · exact .inr ⟨_, rfl⟩
  · exact absurd (of_inside h).1 fail_ne_ok
  · exact absurd (of_inside h).1 fail_ne_ok
  · exact absurd (of_inside h).1 fail_ne_ok

/-- Behind what is no key, nothing makes an entry of it. -/
theorem of_keyTail {r : Value × Bool} {terminator : Option Char} {last : Bool}
    {t' : Entries Value × Session σ}
    (h : keyTail source item terminator start r (m, s) = (.ok last, t')) :
    IsString r.1 ∨ (∃ m', r.1 = .map m') ∧
      ∃ d k, Scan.separator terminator none s.cursor = (.ok d, k) ∧ d ≠ .colon := by
  obtain ⟨d, s₁, hsep, h⟩ := of_inside_bind h
  obtain ⟨hsep, -⟩ := of_scan hsep
  have lone : d ≠ .colon → (do
      loneEntry .simple source start r
      return d == .terminator : Build (Entries Value) σ Bool) (m, s₁) = (.ok last, t') →
      IsString r.1 ∨ (∃ m', r.1 = .map m') ∧
        ∃ d k, Scan.separator terminator none s.cursor = (.ok d, k) ∧ d ≠ .colon := by
    intro hd h
    obtain ⟨⟨⟩, t₁, hlone, -⟩ := bind_eq_ok.mp h
    exact (of_loneEntry_ok hlone).imp_right fun hmap => ⟨hmap, d, _, hsep, hd⟩
  cases d with
  | comma | terminator | textEnd => exact lone (by simp) h
  | colon =>
    obtain ⟨name, s₂, hname, -⟩ := of_inside_bind h
    exact .inl ⟨name, (of_keyName hname).1⟩

theorem fades_keyTail {str : String} (ht : Terminator (some terminator)) (h : s.cursor.Spent) :
    BuildFades Unended (keyTail source item (some terminator) start (.string str, false))
      (m, s) := by
  refine (fades_inside (fades_scan (Scan.fades_separator ht h))).bind ?_
  rintro d ⟨m, s⟩ ⟨rfl | rfl, hover⟩
  · exact .ok rfl ⟨rfl, hover⟩
  · exact .ok rfl ⟨rfl, hover⟩

/-- What is no key in front of the cut is none in the whole text, where it fails. -/
theorem cuts_keyTail (hitem : Trails t V item item') (ht : Terminator (some terminator))
    (r : Value × Bool) (hr : r.2 = true → ∃ f arguments, r.1 = .call f arguments) :
    BuildCuts t Unended (keyTail source item (some terminator) start r)
      (keyTail source' item' (some terminator) start r) (m, s) := by
  rcases hrun : keyTail source' item' (some terminator) start r (m, s.extended t)
    with ⟨e | last, t'⟩
  · exact .fails hrun
  have hkey := of_keyTail hrun
  refine (cuts_inside (cuts_scan (Scan.cuts_separator ht s.cursor))).bind ?_ ?_
  · rintro d ⟨m, s⟩ -
    have hlone : BuildCuts t Unended (do
        loneEntry .simple source start r
        return d == .terminator : Build (Entries Value) σ Bool) (do
        loneEntry .simple source' start r
        return d == .terminator) (m, s) :=
      (cuts_loneEntry start r).bind_of_false fun _ _ _ => cuts_pure _
    cases d with
    | comma | terminator | textEnd => exact hlone
    | colon =>
      refine (cuts_inside (cuts_keyName start r)).bind_of_false ?_
      rintro name ⟨m, s⟩ -
      exact cuts_pairTail name hitem ht
  · rintro d ⟨m₁, s₁⟩ hsep ⟨hd, hover⟩
    obtain ⟨v, called⟩ := r
    obtain ⟨hsep, -⟩ := of_scan (of_inside hsep).1
    rcases hkey with ⟨str, rfl⟩ | ⟨⟨m', rfl⟩, d', k', hsep', hd'⟩
    · cases called with
      | true =>
        obtain ⟨f, arguments, hcall⟩ := hr rfl
        cases hcall
      | false =>
        cases d with
        | comma | textEnd => exact .ok rfl ⟨rfl, hover⟩
        | colon => exact ((fades_pairTail str hitem hover).congr rfl).of_false
        | terminator => exact absurd rfl hd
    · cases d with
      | comma | textEnd => exact .ok rfl ⟨rfl, hover⟩
      | colon => exact absurd (Scan.separator_colon hsep hsep') hd'
      | terminator => exact absurd rfl hd

variable {key key' : Eval σ Value}

theorem cuts_mapEntry (hkey : Trails t IsString key key') (hitem : Trails t V item item')
    (ht : Terminator (some terminator)) (m : Entries Value) (s : Session σ) :
    BuildCuts t Unended (mapEntry .simple source key item (some terminator))
      (mapEntry .simple source' key' item' (some terminator)) (m, s) := by
  rw [mapEntry_simple, mapEntry_simple]
  refine cuts_inside_position_bind ?_
  refine (cuts_inside (cuts_keyOrCall hkey s)).bind ?_ ?_
  · rintro r ⟨m₁, s₁⟩ hrun
    refine cuts_keyTail hitem ht r ?_
    intro hcalled
    rcases of_keyOrCall (fun _ _ _ _ => rfl) (of_inside hrun).1 with ⟨f, arguments, rfl⟩ | ⟨hplain, -⟩
    · exact ⟨f, arguments, rfl⟩
    · rw [hplain] at hcalled
      cases hcalled
  · rintro _ ⟨m₁, s₁⟩ - ⟨⟨str, rfl⟩, hspent⟩
    exact fades_keyTail ht hspent

theorem cuts_mapBody (hkey : Trails t IsString key key') (hitem : Trails t V item item')
    (ht : Terminator (some terminator)) (m : Entries Value) (s : Session σ) :
    BuildCuts t (fun _ _ => False) (mapBody .simple source key item (some terminator))
      (mapBody .simple source' key' item' (some terminator)) (m, s) := by
  rw [mapBody_eq, mapBody_eq]
  refine cuts_listing ht (cuts_mapEntry hkey hitem ht) ?_ m s
  intro m s hover
  rw [mapEntry_simple]
  refine fades_ok_bind (inside_ok (position_apply s) m) ?_
  exact (fades_inside (fades_keyOrCall hkey hover)).bind_of_false

end Maps

section Brackets

open Scan (Terminator)

variable {V : Value → Prop} {key key' item item' : Eval σ Value}

theorem rest_ne_nil_of_head {k : Cursor} {c : Char} (h : k.rest.head? = some c) :
    k.rest ≠ [] := by
  intro hr
  rw [hr] at h
  cases h

theorem cuts_list (hitem : Trails t V item item') (hne : s.cursor.rest ≠ []) :
    Cuts t (fun _ _ => False) (Eval.list .simple source item) (Eval.list .simple source' item')
      s := by
  refine cuts_advance_bind hne ?_
  refine cuts_position_bind ?_
  refine (cuts_within (Q := fun _ _ => False)
    (cuts_listBody hitem Terminator.bracket [] _)).bind_of_false ?_
  rintro ⟨⟨⟩, items⟩ s₁ hrun
  have hhead := listBody_onTerminator (of_within hrun)
  exact cuts_advance_bind (rest_ne_nil_of_head hhead) (cuts_pure _)

theorem cuts_map (hkey : Trails t IsString key key') (hitem : Trails t V item item')
    (hne : s.cursor.rest ≠ []) :
    Cuts t (fun _ _ => False) (Eval.map .simple source key item)
      (Eval.map .simple source' key' item') s := by
  refine cuts_position_bind ?_
  refine cuts_advance_bind hne ?_
  refine cuts_position_bind ?_
  refine (cuts_within (Q := fun _ _ => False) ?_).bind_of_false ?_
  · refine (cuts_mapBody hkey hitem Terminator.brace [] _).bind_of_false ?_
    exact fun _ _ _ => cuts_pure none
  · rintro ⟨fragment?, entries⟩ s₁ hrun
    obtain ⟨⟨⟩, p, hbody, hnone⟩ := bind_eq_ok.mp (of_within hrun)
    have hhead := mapBody_onTerminator hbody
    obtain ⟨-, rfl⟩ := pure_eq_ok.mp hnone
    exact cuts_advance_bind (rest_ne_nil_of_head hhead) (cuts_pure _)

theorem cuts_arguments (function : String) (start : Nat) (hitem : Trails t V item item') :
    Cuts t (fun _ _ => False) (Eval.arguments .simple source function start item)
      (Eval.arguments .simple source' function start item') s := by
  refine (cuts_within (Q := fun _ _ => False) ?_).bind_of_false ?_
  · refine cuts_inside ?_
    refine (cuts_building (Q := fun _ _ => False)
      (cuts_listBody hitem Terminator.parenthesis [] s)).bind_of_false ?_
    exact fun r _ _ => cuts_pure r.2
  · rintro ⟨items, ⟨⟩⟩ s₁ hrun
    obtain ⟨r, s₂, hbuilding, hitems⟩ := bind_eq_ok.mp (of_inside (of_within hrun)).1
    have hhead := listBody_onTerminator (of_building hbuilding)
    obtain ⟨-, rfl⟩ := pure_eq_ok.mp hitems
    exact cuts_advance_bind (rest_ne_nil_of_head hhead) (cuts_pure _)

end Brackets

section Expressions

variable {room room' : List Char} {role : Role} {k : Cursor} {st : σ}

/-- What a word that comes to the cut is evaluated to. -/
def Role.Trailing (role : Role) (v : Value) : Prop :=
  role = .key → IsString v

theorem fades_expression_over (room : List Char) (role : Role) (h : s.cursor.Over) :
    Fades (fun _ _ => False) (expression .simple source room role) s := by
  obtain ⟨k, st⟩ := s
  cases room with
  | nil => exact .error rfl (formal_internal _)
  | cons x room =>
    rcases h with hr | hr
    · exact .error (expression_end .simple source _ role hr) (formal_internal _)
    · exact .error (expression_misplaced hr (by decide) st) (formal_located _ rfl)

theorem cuts_string {x y : Scan String} (h : Scan.Cuts t (fun _ _ => False) x y k) :
    Cuts t (fun _ _ => False) (Value.string <$> scan source x) (Value.string <$> scan source' y)
      ⟨k, st⟩ := by
  refine Action.Cuts.map ?_
  exact cuts_scan (Q := fun _ _ => False) h

/-- A word in front of the cut is a word, whatever it would be in the whole text. -/
theorem fades_wordExpression {w : List Char} {start : Nat} {k₁ : Cursor}
    (hword : Scan.wordOrCall k = (.ok (w, false), k₁)) (hspent : k₁.Spent) :
    Fades (fun v k₁ => role.Trailing v ∧ k₁.Spent) (wordExpression .simple source room role start)
      ⟨k, st⟩ := by
  refine fades_ok_bind (scan_ok hword st) ?_
  refine .ok rfl ⟨?_, hspent⟩
  rintro rfl
  exact ⟨_, rfl⟩

theorem cuts_wordExpression {V : Value → Prop} {start : Nat}
    (hitem : Trails t V (expression .simple source room (.value role.force) : Eval σ Value)
      (expression .simple source' room' (.value role.force))) :
    Cuts t (fun v k₁ => role.Trailing v ∧ k₁.Spent)
      (wordExpression .simple source room role start)
      (wordExpression .simple source' room' role start) s := by
  refine (cuts_scan (Scan.cuts_wordOrCall s.cursor)).bind ?_ ?_
  · rintro ⟨w, called⟩ s₁ -
    refine cuts_ite (fun _ => ?_) fun _ => cuts_pure _
    refine (cuts_arguments _ start hitem).bind_of_false ?_
    intro items s₂ _
    exact cuts_ite (fun _ => cuts_pure _) fun _ => .same rfl rfl
  · rintro ⟨w, called⟩ s₁ - ⟨rfl, hspent⟩
    refine .ok rfl ⟨?_, hspent⟩
    rintro rfl
    exact ⟨_, rfl⟩

theorem Trails.mono {V W : Value → Prop} {x y : Eval σ Value} (h : Trails t V x y)
    (hW : ∀ v, V v → W v) : Trails t W x y :=
  ⟨fun s => (h.cut s).mono fun v _ hv => ⟨hW v hv.1, hv.2⟩, h.past⟩

/-- What brackets or quotes delimit does not come to the cut without a fault. -/
theorem cuts_delimited {V : Value → Prop} {x x' c : Char} {r : List Char}
    (hkey : Trails t IsString (expression .simple source room .key : Eval σ Value)
      (expression .simple source' room' .key))
    (hitem : Trails t V (expression .simple source room (.value role.force) : Eval σ Value)
      (expression .simple source' room' (.value role.force)))
    (hc : c ∈ ['\x7b', '[', '"', '\'']) (hr : k.rest = c :: r) :
    Cuts t (fun _ _ => False) (expression .simple source (x :: room) role)
      (expression .simple source' (x' :: room') role) ⟨k, st⟩ := by
  have hr' : (k.extended t).rest = c :: (r ++ t) := by rw [extended_rest, hr, List.cons_append]
  have hne : k.rest ≠ [] := by simp [hr]
  have quoted : ∀ q, q = '"' ∨ q = '\'' → c = q → Cuts t (fun _ _ => False)
      (expression .simple source (x :: room) role) (expression .simple source' (x' :: room') role)
      ⟨k, st⟩ := by
    rintro q hq rfl
    exact (cuts_string (Scan.cuts_quoted hq hr)).congr
      (expression_quoted .simple source x room role hq hr st)
      (expression_quoted .simple source' x' room' role hq hr' st)
  simp only [List.mem_cons, List.not_mem_nil, or_false] at hc
  rcases hc with rfl | rfl | rfl | rfl
  · exact (cuts_map (s := ⟨k, st⟩) hkey hitem hne).congr
      (expression_map .simple source x room role hr st)
      (expression_map .simple source' x' room' role hr' st)
  · exact (cuts_list (s := ⟨k, st⟩) hitem hne).congr
      (expression_list .simple source x room role hr st)
      (expression_list .simple source' x' room' role hr' st)
  · exact quoted _ (.inl rfl) rfl
  · exact quoted _ (.inr rfl) rfl

/-- Expressions are the same up to the cut. One that comes to the cut fails there for its form,
unless it is a word. -/
theorem expression_trails (t room : List Char) (role : Role) (room' : List Char) :
    Trails t role.Trailing (expression .simple source room role : Eval σ Value)
      (expression .simple source' room' role) := by
  refine ⟨?_, fun hover => fades_expression_over room role hover⟩
  induction room generalizing role room' with
  | nil => exact fun s => .fades (.error rfl (formal_internal _))
  | cons x room ih =>
    rintro ⟨k, st⟩
    cases room' with
    | nil => exact .fails rfl
    | cons x' room' =>
      have inner : ∀ role : Role, Trails t role.Trailing
          (expression .simple source room role : Eval σ Value)
          (expression .simple source' room' role) :=
        fun role => ⟨ih role room', fun hover => fades_expression_over room role hover⟩
      have hkey := (inner .key).mono fun v hv => hv rfl
      have hitem := inner (.value role.force)
      have hlead := Text.lead k.rest
      generalize hr : k.rest = r at hlead
      cases hlead with
      | nothing =>
        exact .fades (.error (expression_end .simple source _ role hr) (formal_internal _))
      | map => exact (cuts_delimited hkey hitem (by simp) hr).of_false
      | list => exact (cuts_delimited hkey hitem (by simp) hr).of_false
      | quoted hq =>
        refine (cuts_delimited hkey hitem ?_ hr).of_false
        rcases hq with rfl | rfl
        · simp
        · simp
      | @raw q u hq =>
        have hr' : (k.extended t).rest = 'r' :: q :: (u ++ t) := by
          rw [extended_rest, hr, List.cons_append, List.cons_append]
        exact ((cuts_string (Scan.cuts_raw hr)).congr
          (expression_raw .simple source x room role hq hr st)
          (expression_raw .simple source' x' room' role hq hr' st)).of_false
      | other hne hmark hraw =>
        subst hr
        have hx := expression_other .simple source x room role hne hmark hraw st
        by_cases hlast : k.rest = ['r']
        · -- In the whole text, a quote may follow.
          have hk : k.Passes ['r'] ⟨k.position + Text.size ['r'], []⟩ := ⟨hlast, rfl⟩
          have hword : Scan.word k = (.ok ['r'], ⟨k.position + Text.size ['r'], []⟩) :=
            Scan.word_eq_ok.mpr ⟨hk, .of_all rfl, fun _ hc => by cases hc⟩
          have hspent : Spent ⟨k.position + Text.size ['r'], []⟩ := Over.spent (.inl rfl)
          exact .fades ((fades_wordExpression (Scan.wordOrCall_spent hword hspent) hspent).congr hx)
        · have hraw' : ∀ q u, q = '"' ∨ q = '\'' → (k.extended t).rest ≠ 'r' :: q :: u := by
            intro q u hq he
            rw [extended_rest] at he
            generalize k.rest = r at hne hraw hlast he
            rcases r with - | ⟨c, - | ⟨d, r⟩⟩
            · exact hne rfl
            · cases he
              exact hlast rfl
            · cases he
              exact hraw q r hq rfl
          have hhead := head_extended (t := t) hne
          have hy := expression_other .simple source' x' room' role (k := k.extended t)
            (by simp [hne]) (by rwa [hhead]) hraw' st
          exact (cuts_wordExpression (s := ⟨k, st⟩) hitem).congr hx hy

end Expressions

end Eval

section Incomplete

open Eval

variable {σ : Type} {force : Bool} {file : Option String} {st : σ} {text : List Char}

theorem Text.solid_of_delimited {c : Char} {r : List Char}
    (hc : c ∈ ['\x7b', '[', '"', '\'']) : Solid (c :: r) := by
  simp only [List.mem_cons, List.not_mem_nil, or_false] at hc
  rcases hc with rfl | rfl | rfl | rfl
  · exact .cons rfl (by decide)
  · exact .cons rfl (by decide)
  · exact .cons rfl (by decide)
  · exact .cons rfl (by decide)

/-- A text that begins with an expression fails as that does. -/
theorem evaluate_error (hne : text ≠ []) (hsolid : Solid text) {e : EvaluationError}
    {s : Session σ} (h : anyExpression .simple ⟨text, file⟩ (.value force) ⟨⟨0, text⟩, st⟩ =
      (.error e, s)) : (evaluate .simple force ⟨text, file⟩ st).1 = .error e := by
  have halone : (single .simple ⟨text, file⟩ force ⟨⟨0, text⟩, st⟩).1 =
      (anyExpression .simple ⟨text, file⟩ (.value force) ⟨⟨0, text⟩, st⟩).1 := by
    refine single_alone hsolid hne fun v s hok => ?_
    rw [h] at hok
    cases hok
  rw [h] at halone
  exact halone

/-- The evaluation of a text that is one expression gets to the end of it. -/
theorem Text.Whole.evaluated (whole : Whole text) {v : Value}
    (h : (evaluate .simple force ⟨text, file⟩ st).1 = .ok v) :
    ∃ v s, anyExpression .simple ⟨text, file⟩ (.value force) ⟨⟨0, text⟩, st⟩ = (.ok v, s) ∧
      s.cursor.rest = [] := by
  obtain ⟨hne, hsolid⟩ := whole.solid
  rcases hrun : anyExpression .simple ⟨text, file⟩ (.value force) ⟨⟨0, text⟩, st⟩ with ⟨e | v, s⟩
  · rw [evaluate_error hne hsolid hrun] at h
    cases h
  · refine ⟨v, s, rfl, ?_⟩
    obtain ⟨c, r, rfl⟩ := List.exists_cons_of_ne_nil hne
    have hskim : Scan.skimExpression ⟨0, c :: r⟩ = (.ok (), s.cursor) :=
      skim_of_expression (Nat.le_refl _) hrun
    rw [whole] at hskim
    exact (congrArg (fun p => p.2.rest) hskim).symm

/-- No part of a text in brackets or quotes is taken for all of it. Wherever the text is cut off,
that is an error of syntax. -/
theorem cut_text_rejected {v : Value} {cut : List Char}
    (delimited : ∃ c ∈ ['\x7b', '[', '"', '\''], text.head? = some c)
    (whole : Text.Whole text) (h : (evaluate .simple force ⟨text, file⟩ st).1 = .ok v)
    (hcut : cut <+: text) (hne : cut ≠ text) :
    ∃ problem location,
      (evaluate .simple force ⟨cut, file⟩ st).1 = .error (.located problem location) ∧
        problem.kind = .syntactic := by
  obtain ⟨w, s, hrun, hend⟩ := whole.evaluated h
  obtain ⟨t, rfl⟩ := hcut
  cases cut with
  | nil => exact ⟨.emptyText, ⟨⟨[], file⟩, 0⟩, rfl, rfl⟩
  | cons c r =>
    obtain ⟨_, hc, hhead⟩ := delimited
    cases hhead
    have hkey : Trails t IsString (expression .simple ⟨c :: r, file⟩ r .key : Eval σ Value)
        (expression .simple ⟨c :: r ++ t, file⟩ (r ++ t) .key) :=
      (expression_trails t r .key (r ++ t)).mono fun v hv => hv rfl
    have hcuts : Eval.Cuts t (fun _ _ => False)
        (anyExpression .simple ⟨c :: r, file⟩ (.value force))
        (anyExpression .simple ⟨c :: r ++ t, file⟩ (.value force)) ⟨⟨0, c :: r⟩, st⟩ :=
      (cuts_delimited (k := ⟨0, c :: r⟩) hkey (expression_trails t r (.value force) (r ++ t)) hc
        rfl).congr rfl rfl
    cases hcuts with
    | fails second => cases second.symm.trans hrun
    | same first second =>
      -- The whole text would end where the rest of it begins.
      obtain ⟨-, hs⟩ := Prod.mk.inj (second.symm.trans hrun)
      rw [← hs] at hend
      obtain rfl : t = [] := (List.append_eq_nil_iff.mp hend).2
      exact absurd (List.append_nil _).symm hne
    | fades first =>
      obtain ⟨e, s, run, fault⟩ := first.exists_error
      have hfails := evaluate_error (by simp) (Text.solid_of_delimited hc) run
      obtain ⟨p, l, rfl⟩ := evaluate_located hfails
      exact ⟨p, l, hfails, fault _ rfl⟩

/-- A map that is cut off inside of a raw literal, where the letter of the literal is a key. -/
theorem cut_text_rejected_raw :
    (∃ c ∈ ['\x7b', '[', '"', '\''], "\x7br'é': f(b)\x7d".toList.head? = some c) ∧
    Text.Whole "\x7br'é': f(b)\x7d".toList ∧
    (evaluate .simple false ⟨"\x7br'é': f(b)\x7d".toList, none⟩ ()).1 =
      .ok (.map [("é", .call "f" [.string "b"])]) ∧
    "\x7br".toList <+: "\x7br'é': f(b)\x7d".toList ∧
    "\x7br".toList ≠ "\x7br'é': f(b)\x7d".toList ∧
    ∃ problem location,
      (evaluate .simple false ⟨"\x7br".toList, none⟩ ()).1 =
        .error (.located problem location) ∧ problem.kind = .syntactic := by
  have hkey : KeySpelled Word (.ofList ['é']) "r'é'".toList :=
    .literal (.raw (.inr rfl) (by decide))
  have hcall : Tree.Spelled Word (.call ['f'] [.word ['b']]) "f(b)".toList :=
    .call (.of_all rfl) .nil .nil (.last (.word (.of_all rfl)) .nil)
  have hmap : Tree.Spelled Word (.map [.pair "é" (.call ['f'] [.word ['b']])])
      "\x7br'é': f(b)\x7d".toList :=
    .map .nil (.last (.pair hkey .nil (.blank (c := ' ') rfl .nil) hcall) .nil)
  have delimited : ∃ c ∈ ['\x7b', '[', '"', '\''],
      "\x7br'é': f(b)\x7d".toList.head? = some c := ⟨'\x7b', by simp, rfl⟩
  have whole := Text.whole_of_spelled hmap
  have h : (evaluate .simple false ⟨"\x7br'é': f(b)\x7d".toList, none⟩ ()).1 =
      .ok (.map [("é", .call "f" [.string "b"])]) :=
    evaluate_simple_iff.mpr
      ⟨_, ⟨false, [], _, false, [], .nil, hmap, Gap.nil.before .nil, by simp⟩, rfl⟩
  have hcut : "\x7br".toList <+: "\x7br'é': f(b)\x7d".toList := by decide
  have hne : "\x7br".toList ≠ "\x7br'é': f(b)\x7d".toList := by decide
  exact ⟨delimited, whole, h, hcut, hne, cut_text_rejected delimited whole h hcut hne⟩

end Incomplete

end Cjson
