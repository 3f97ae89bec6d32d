import Cjson.Proofs.Visit

namespace Cjson.Eval

open Cjson.Action Cursor

section Alike

variable {σ τ α β : Type} {source : Source} {k : Cursor}

theorem Mirrored.ok {x : Eval τ α} {y : Eval σ α} (h : Mirrored source 0 x y k) {st : τ}
    {s : Session τ} {a : α} (hx : x ⟨k, st⟩ = (.ok a, s)) (st' : σ) :
    ∃ s', y ⟨k, st'⟩ = (.ok a, s') ∧ s'.cursor = s.cursor := by
  obtain ⟨r, s₁, s', hx', hy, hk⟩ := h st st'
  obtain ⟨hr, rfl⟩ := Prod.mk.inj (hx'.symm.trans hx)
  cases r with
  | error e => cases hr
  | ok a' =>
    cases hr
    exact ⟨s', hy, hk.symm⟩

theorem BuildMirrored.ok {x : Build β τ α} {y : Build β σ α} {b : β}
    (h : BuildMirrored source 0 x y b k) {st : τ} {t : β × Session τ} {a : α}
    (hx : x (b, ⟨k, st⟩) = (.ok a, t)) (st' : σ) :
    ∃ s', y (b, ⟨k, st'⟩) = (.ok a, (t.1, s')) ∧ s'.cursor = t.2.cursor := by
  obtain ⟨r, t₁, ⟨b', s'⟩, hx', hy, hb, hk⟩ := h st st'
  obtain ⟨hr, rfl⟩ := Prod.mk.inj (hx'.symm.trans hx)
  obtain rfl : _ = b' := hb
  cases r with
  | error e => cases hr
  | ok a' =>
    cases hr
    exact ⟨s', hy, hk.symm⟩

theorem Mirrored.run_ok_iff {x : Eval τ α} {y : Eval σ α} (h : Mirrored source 0 x y k) {st : τ}
    {st' : σ} {a : α} : (x.run k st).1 = .ok a ↔ (y.run k st').1 = .ok a := by
  obtain ⟨r, s, s', hx, hy, -⟩ := h st st'
  rw [moved_zero] at hx
  simp only [run, hx, hy]
  cases r with
  | error e => simp only [Except.mapError, reduceCtorEq]
  | ok a' => rfl

variable {env : Environment τ} (henv : env.Resolves .call)

include henv

theorem expression_alike (source : Source) (room : List Char) (role : Role) (k : Cursor) :
    Mirrored source 0 (expression env source room role)
      (expression (.simple : Environment Unit) source room role) k :=
  mirrored_expression henv room role k

/-- Whatever is evaluated as an expression is one, also where the environment looks on. -/
theorem expression_recognizes_of_resolves (room : List Char) (force : Bool) :
    Recognizes force (expression env source room .key)
      (expression env source room (.value force)) := by
  constructor
  · intro s s' v h
    obtain ⟨s₁, hsimple, hk⟩ := (expression_alike henv source room _ s.cursor).ok h ()
    rw [← hk]
    exact (expression_recognizes room force).value hsimple
  · intro s s' v h
    obtain ⟨s₁, hsimple, hk⟩ := (expression_alike henv source room _ s.cursor).ok h ()
    rw [← hk]
    exact (expression_recognizes room force).key hsimple

theorem of_mapBody_of_resolves {room : List Char} {force : Bool} {terminator : Option Char}
    {s s' : Session τ} {m : Entries Value} (hs : terminator = none ∨ 0 < s.cursor.position)
    (h : mapBody env source (expression env source room .key)
      (expression env source room (.value force)) terminator ([], s) = (.ok (), (m, s'))) :
    ∃ es, Inside (Entry.Spelled Word) terminator es s.cursor s'.cursor ∧
      m = Entry.allInto force es [] := by
  have halike : BuildMirrored source 0
      (mapBody env source (expression env source room .key)
        (expression env source room (.value force)) terminator)
      (mapBody (.simple : Environment Unit) source (expression .simple source room .key)
        (expression .simple source room (.value force)) terminator) [] s.cursor :=
    mirrored_mapBody henv (expression_alike henv source room .key)
      (expression_alike henv source room (.value force)) hs
  obtain ⟨s₁, hsimple, hk⟩ := halike.ok h ()
  dsimp only at hk
  rw [← hk]
  exact of_mapBody (expression_recognizes room force) hsimple

end Alike

section Noting

variable {σ α β : Type} {env : Environment σ} {source : Source}

variable (henv : env.Resolves .call)

include henv

/-- Around what is told in a scope stand its two notifications. -/
theorem of_within_noting {scope : Scope} {start : Nat}
    {body : Signal → Build scope.Target (σ × List Notice) α}
    {s s' : Session (σ × List Notice)} {r : α × scope.Target}
    (h : within env.noting source scope start body s = (.ok r, s')) :
    ∃ s₀ s₁, body .proceed (scope.empty, s₀) = (.ok r.1, (r.2, s₁)) ∧ s₀.cursor = s.cursor ∧
      s₁.cursor = s'.cursor ∧ ∀ inner, s₁.state.2 = s₀.state.2 ++ inner →
        s'.state.2 = s.state.2 ++
          scope.notices source s.cursor.position s'.cursor.position r.2 inner := by
  obtain ⟨st₀, henter⟩ :=
    henv.notify (.enter scope) ⟨source, s.cursor.position⟩ scope.empty s.state.1
  let s₀ : Session (σ × List Notice) := ⟨s.cursor, st₀,
    s.state.2 ++ [.notified (.enter scope) ⟨source, s.cursor.position⟩ scope.empty]⟩
  rcases hbody : body .proceed (scope.empty, s₀) with ⟨e | a, target, s₁⟩
  · simp only [within, Environment.noting, henter, s₀, hbody] at h
    cases h
  · obtain ⟨st₁, hleave⟩ :=
      henv.notify (.leave scope) ⟨source, s₁.cursor.position⟩ target s₁.state.1
    simp only [within, Environment.noting, henter, s₀, hbody, hleave] at h
    cases h
    refine ⟨s₀, s₁, hbody, rfl, rfl, ?_⟩
    intro inner hinner
    simp only [hinner, s₀, Scope.notices, List.append_assoc, List.cons_append, List.nil_append]

theorem of_resolve_noting {function : String} {arguments : List Value} {start : Nat}
    {s s' : Session (σ × List Notice)} {v : Value}
    (h : resolve env.noting source function arguments start s = (.ok v, s')) :
    v = .call function arguments ∧ s'.cursor = s.cursor ∧
      s'.state.2 = s.state.2 ++ [.resolved function arguments ⟨source, s.cursor.position⟩] := by
  have hanswer := henv.resolve function arguments ⟨source, s.cursor.position⟩ s.state.1
  simp only [resolve, Environment.noting, hanswer] at h
  cases h
  exact ⟨rfl, rfl, rfl⟩

end Noting

section Listings

variable {σ β : Type} {source : Source} {kind : Listing} {terminator : Option Char}

/-- If each item is noted, all of them are, with what they make of the container. -/
theorem listing_noted {P : β → List Visit → β → Prop} (hnil : ∀ b, P b [] b)
    (happend : ∀ b b₁ b' visits others, P b visits b₁ → P b₁ others b' →
      P b (visits ++ others) b')
    {item : Build β (σ × List Notice) Bool}
    (hitem : ∀ b s last t', item (b, s) = (.ok last, t') → s.cursor.In source →
      t'.2.cursor.In source ∧ ∃ visits, Noted source s.state t'.2.state visits ∧
        P b visits t'.1)
    {b : β} {s : Session (σ × List Notice)} {t' : β × Session (σ × List Notice)}
    (h : listing source kind terminator item (b, s) = (.ok (), t')) (hin : s.cursor.In source) :
    ∃ visits, Noted source s.state t'.2.state visits ∧ P b visits t'.1 := by
  obtain ⟨start, _, hp, h⟩ := of_inside_bind h
  cases hp
  obtain ⟨lineBreak, s₁, hgap, h⟩ := of_inside_bind h
  obtain ⟨hgap, hstate⟩ := of_scan hgap
  obtain ⟨g, hk, -⟩ := Scan.gap_eq_ok.mp hgap
  rw [← hstate]
  have hloop := untilDone_induction
    (motive := fun _ t _ t' => t.2.cursor.In source →
      ∃ visits, Noted source t.2.state t'.2.state visits ∧ P t.1 visits t'.1) ?_ ?_ h
  · exact hloop (hk.In hin)
  · intro _ t _ t' hdone hin
    obtain ⟨b, s⟩ := t
    rcases of_itemOrEnd hdone with ⟨-, -, rfl⟩ | ⟨last, hrun, -⟩
    · exact ⟨[], .refl _, hnil b⟩
    · exact (hitem _ _ _ _ hrun hin).2
  · intro _ t _ t₁ _ t' hagain ih hin
    obtain ⟨b, s⟩ := t
    rcases of_itemOrEnd hagain with ⟨-, hturn, -⟩ | ⟨last, hrun, -⟩
    · cases hturn
    · obtain ⟨hin₁, visits, hvisits, hP⟩ := hitem _ _ _ _ hrun hin
      obtain ⟨others, hothers, hP'⟩ := ih hin₁
      exact ⟨visits ++ others, hvisits.trans hothers, happend _ _ _ _ _ hP hP'⟩

end Listings

/-- What is told while a key is read: nothing if it is one, and if it is a map to merge then of
that. Of anything else no entry comes. -/
def KeyNoted {σ : Type} (source : Source) (st st' : σ × List Notice) : Value → Prop
  | .string _ => Noted source st st' []
  | .map m => ∃ first last inner, Noted source st st' [.map first last m inner]
  | _ => True

/-- What is told while keys and items are evaluated is noted. -/
structure Notes {σ : Type} (source : Source) (key item : Eval (σ × List Notice) Value) :
    Prop where
  value {s s' : Session (σ × List Notice)} {v : Value} (h : item s = (.ok v, s'))
    (within : s.cursor.In source) : ∃ visits, Noted source s.state s'.state visits
  key {s s' : Session (σ × List Notice)} {v : Value} (h : key s = (.ok v, s'))
    (within : s.cursor.In source) : KeyNoted source s.state s'.state v

section Brackets

variable {source : Source} {opening closing : Char} {k k₁ k₂ k₃ : Cursor}

/-- Items up to a closing bracket are enclosed in it and the bracket in front of them. -/
theorem enclosed_of_inside {α : Type} {P : α → List Char → Prop} {as : List α}
    (h : Inside P (some closing) as k₁ k₂) (hclosing : Scan.Terminator (some closing))
    (hP : ∀ a u, P a u → Text.Opens u) (before : List Char)
    (hopened : k.Passes (before ++ [opening]) k₁) (hsize : opening.utf8Size = 1)
    (hsize' : closing.utf8Size = 1) (hin : k.In source) :
    (∃ b g u, Gap b g ∧ Listed P as u ∧ k₁.Passes (g ++ u) k₂) ∧
      k₂.Passes [closing] k₂.next ∧
      source.Encloses opening closing k₁.position k₂.position := by
  obtain ⟨hend, b, g, u, hg, hu, hk⟩ := (inside_bracket_iff hclosing hP).mp h
  obtain ⟨r, hend⟩ := List.head?_eq_some_iff.mp hend
  have hclosed := (next_of_rest hend).1
  exact ⟨⟨b, g, u, hg, hu, hk⟩, hclosed,
    Source.encloses_of_passes before hopened hk hclosed hsize hsize' hin⟩

/-- What is spelled with brackets has its value from the byte in front of its inside to the
one behind it. -/
theorem gives_bracketed {t : Tree} {s : List Char} (hopened : k.Passes [opening] k₁)
    (hs : k₁.Passes s k₂) (hclosed : k₂.Passes [closing] k₃) (hsize : opening.utf8Size = 1)
    (hsize' : closing.utf8Size = 1) (ht : t.Spelled Word ([opening] ++ s ++ [closing]))
    (hin : k.In source) :
    source.Gives (k₁.position - 1) (k₂.position + 1) (t.value false) := by
  have hgives := ht.gives ((hopened.trans hs).trans hclosed) hin
  rwa [hclosed.position_succ hsize', ← Nat.add_sub_cancel k.position 1,
    ← hopened.position_succ hsize] at hgives

end Brackets

section Items

variable {σ : Type} {env : Environment σ} {source : Source}
  {key item : Eval (σ × List Notice) Value} {terminator : Option Char}

theorem endsListing_state {τ : Type} {why : ColonFault} {s s' : Session τ} {last : Bool}
    (h : endsListing source terminator why s = (.ok last, s')) : s'.state = s.state := by
  obtain ⟨d, k, -, h⟩ := of_scan_bind h
  obtain ⟨-, rfl⟩ := pure_eq_ok.mp h
  rfl

theorem listBody_noted (hr : Recognizes false key item) (hn : Notes source key item)
    {s s' : Session (σ × List Notice)} {vs : List Value}
    (h : listBody source item terminator ([], s) = (.ok (), (vs, s')))
    (hin : s.cursor.In source) : ∃ visits, Noted source s.state s'.state visits := by
  have hlisting := listing_noted (P := fun _ _ _ => True) (fun _ => trivial)
    (fun _ _ _ _ _ _ _ => trivial) ?_ h hin
  · obtain ⟨visits, hvisits, -⟩ := hlisting
    exact ⟨visits, hvisits⟩
  · intro vs s last t' h hin
    obtain ⟨v, s₁, hv, h⟩ := of_inside_bind h
    rw [bind_ok (edit_apply _ _ _)] at h
    obtain ⟨hend, -⟩ := of_inside h
    obtain ⟨t, u, hk₁, -, -⟩ := hr.value hv
    obtain ⟨sep, d, hk, -⟩ := of_endsListing hend
    obtain ⟨visits, hvisits⟩ := hn.value hv hin
    refine ⟨(hk₁.trans hk).In hin, visits, ?_, trivial⟩
    rwa [endsListing_state hend]

variable (henv : env.Resolves .call)

include henv

/-- The positions of a key's value are those of its text. -/
theorem entryValue_noted (hr : Recognizes false key item) (hn : Notes source key item)
    {name : String} {start : Nat} {s s' : Session (σ × List Notice)} {v? : Option Value}
    (h : entryValue env.noting source name start item s = (.ok v?, s'))
    (hin : s.cursor.In source) :
    s'.cursor.In source ∧ ∃ v inner, v? = some v ∧
      Noted source s.state s'.state
        [.pair s.cursor.position s'.cursor.position name v inner] := by
  obtain ⟨⟨v?, ⟨⟩⟩, s₂, hwithin, h⟩ := bind_eq_ok.mp h
  obtain ⟨rfl, rfl⟩ := pure_eq_ok.mp h
  obtain ⟨s₀, s₁, hbody, hk₀, hk₁, hlog⟩ := of_within_noting henv hwithin
  obtain ⟨v, hv, rfl⟩ := map_eq_ok.mp hbody
  obtain ⟨hv, -⟩ := of_inside hv
  obtain ⟨t, u, hk, ht, rfl⟩ := hr.value hv
  obtain ⟨inner, hinner⟩ := hn.value hv (hk₀ ▸ hin)
  rw [hk₀, hk₁] at hk
  refine ⟨hk.In hin, t.value false, inner, rfl, .single ?_ ?_⟩
  · rw [Visit.notices]
    exact hlog _ hinner.notices
  · rw [Visit.Delimits]
    exact ⟨ht.gives hk hin, hinner.delimit⟩

theorem bareEntry_noted {name : String} {start : Nat} {s s' : Session (σ × List Notice)}
    {v? : Option Value} (h : bareEntry env.noting source name start s = (.ok v?, s')) :
    s'.cursor = s.cursor ∧ v? = some (.boolean true) ∧
      Noted source s.state s'.state [.bare s.cursor.position name] := by
  obtain ⟨⟨kept, ⟨⟩⟩, s₂, hwithin, h⟩ := bind_eq_ok.mp h
  obtain ⟨rfl, rfl⟩ := pure_eq_ok.mp h
  obtain ⟨s₀, s₁, hbody, hk₀, hk₁, hlog⟩ := of_within_noting henv hwithin
  cases hbody
  refine ⟨hk₁.symm.trans hk₀, rfl, .single ?_ trivial⟩
  have := hlog [] (List.append_nil _).symm
  rwa [← hk₁, hk₀] at this

theorem loneEntry_noted (hr : Recognizes false key item) (hn : Notes source key item)
    {start : Nat} {r : Value × Bool} {m : Entries Value} {s s₁ s₂ : Session (σ × List Notice)}
    {t' : Entries Value × Session (σ × List Notice)} (hin : s.cursor.In source)
    (hkey : keyOrCall env.noting source key s = (.ok r, s₁)) (hs₂ : s₂.state = s₁.state)
    (h : loneEntry env.noting source start r (m, s₂) = (.ok (), t')) :
    s₁.cursor.In source ∧ t'.2.cursor = s₂.cursor ∧
      ∃ visit : Visit, Noted source s.state t'.2.state [visit] ∧ t'.1 = visit.into m := by
  -- A call in place of a key stays a call, and that is refused like the other values.
  unfold loneEntry at h
  split at h
  · rename_i name
    rcases of_keyOrCall henv.noting.resolve hkey with ⟨f, arguments, he⟩ | ⟨-, hkey⟩
    · cases he
    · obtain ⟨v?, s₃, hbare, hput⟩ := of_inside_bind h
      obtain ⟨hcursor, rfl, hvisit⟩ := bareEntry_noted henv hbare
      rw [of_putValue hput]
      have hname : Noted source s.state s₁.state [] := hn.key hkey hin
      obtain ⟨u, hk, -⟩ := hr.key hkey
      rw [hs₂] at hvisit
      exact ⟨hk.In hin, hcursor, _, hname.trans hvisit, rfl⟩
  · rename_i merged called
    rcases of_keyOrCall henv.noting.resolve hkey with ⟨f, arguments, he⟩ | ⟨-, hkey⟩
    · cases he
    · obtain ⟨first, last, inner, hvisit⟩ : ∃ first last inner,
        Noted source s.state s₁.state [.map first last merged inner] := hn.key hkey hin
      obtain ⟨es, u, hk, -⟩ := hr.key hkey
      cases h
      rw [← hs₂] at hvisit
      exact ⟨hk.In hin, rfl, _, hvisit, rfl⟩
  · exact absurd (of_inside h).1 fail_ne_ok
  · exact absurd (of_inside h).1 fail_ne_ok
  · exact absurd (of_inside h).1 fail_ne_ok

theorem mapEntry_noted (hr : Recognizes false key item) (hn : Notes source key item)
    {m : Entries Value} {s : Session (σ × List Notice)} {last : Bool}
    {t' : Entries Value × Session (σ × List Notice)}
    (h : mapEntry env.noting source key item terminator (m, s) = (.ok last, t'))
    (hin : s.cursor.In source) :
    t'.2.cursor.In source ∧
      ∃ visit : Visit, Noted source s.state t'.2.state [visit] ∧ t'.1 = visit.into m := by
  obtain ⟨start, _, hp, h⟩ := of_inside_bind h
  cases hp
  obtain ⟨r, s₁, hkey, h⟩ := of_inside_bind h
  obtain ⟨d, s₂, hsep, h⟩ := of_inside_bind h
  obtain ⟨hsep, hstate⟩ := of_scan hsep
  obtain ⟨sep, hk₂, -⟩ := Scan.of_separator hsep
  have lone : (do
      loneEntry env.noting source s.cursor.position r
      return d == .terminator : Build (Entries Value) (σ × List Notice) Bool) (m, s₂) =
        (.ok last, t') →
      t'.2.cursor.In source ∧
        ∃ visit : Visit, Noted source s.state t'.2.state [visit] ∧ t'.1 = visit.into m := by
    intro h
    obtain ⟨⟨⟩, t₁, hlone, h⟩ := bind_eq_ok.mp h
    obtain ⟨-, rfl⟩ := pure_eq_ok.mp h
    obtain ⟨hin₁, hcursor, hvisit⟩ := loneEntry_noted henv hr hn hin hkey hstate hlone
    rw [hcursor]
    exact ⟨hk₂.In hin₁, hvisit⟩
  cases d with
  | comma | terminator | textEnd => exact lone h
  | colon =>
    obtain ⟨name, s₃, hname, h⟩ := of_inside_bind h
    obtain ⟨hstr, rfl⟩ := of_keyName hname
    obtain ⟨next, s₄, hpeek, h⟩ := of_inside_bind h
    cases hpeek
    split at h
    · obtain ⟨_, _, hf, -⟩ := of_inside_bind h
      exact absurd hf fail_ne_ok
    · obtain ⟨v?, s₅, hvalue, h⟩ := of_inside_bind h
      rcases of_keyOrCall henv.noting.resolve hkey with ⟨f, arguments, rfl⟩ | ⟨-, hkey⟩
      · cases hstr
      · rw [hstr] at hkey
        have hnone : Noted source s.state s₁.state [] := hn.key hkey hin
        obtain ⟨u, hk₁, -⟩ := hr.key hkey
        obtain ⟨hin₅, v, inner, rfl, hvisit⟩ :=
          entryValue_noted henv hr hn hvalue (hk₂.In (hk₁.In hin))
        obtain ⟨⟨⟩, t₁, hput, h⟩ := bind_eq_ok.mp h
        rw [of_putValue hput] at h
        obtain ⟨hend, hm⟩ := of_inside h
        obtain ⟨sep', d, hk₄, -⟩ := of_endsListing hend
        rw [hstate] at hvisit
        rw [hm, endsListing_state hend]
        exact ⟨hk₄.In hin₅, _, hnone.trans hvisit, rfl⟩

theorem mapBody_noted (hr : Recognizes false key item) (hn : Notes source key item)
    {s s' : Session (σ × List Notice)} {m : Entries Value}
    (h : mapBody env.noting source key item terminator ([], s) = (.ok (), (m, s')))
    (hin : s.cursor.In source) :
    ∃ visits, Noted source s.state s'.state visits ∧ m = Visit.allInto visits [] := by
  rw [mapBody_eq] at h
  refine listing_noted (P := fun m visits m' => m' = Visit.allInto visits m) (fun _ => rfl) ?_ ?_
    h hin
  · intro m m₁ m' visits others h h'
    rw [h', h, Visit.allInto_append]
  · intro m s last t' h hin
    obtain ⟨hin', visit, hvisit, hinto⟩ := mapEntry_noted henv hr hn h hin
    exact ⟨hin', [visit], hvisit, hinto⟩

theorem list_noted (hr : Recognizes false key item) (hn : Notes source key item)
    {s s' : Session (σ × List Notice)} {v : Value} {t : List Char}
    (hs : s.cursor.rest = '[' :: t)
    (h : Eval.list env.noting source item s = (.ok v, s')) (hin : s.cursor.In source) :
    ∃ visit, Noted source s.state s'.state [visit] := by
  obtain ⟨⟨⟩, k₁, hadvance, h⟩ := of_scan_bind h
  cases hadvance
  obtain ⟨_, _, hp, h⟩ := bind_eq_ok.mp h
  cases hp
  obtain ⟨⟨⟨⟩, vs⟩, s₂, hwithin, h⟩ := bind_eq_ok.mp h
  obtain ⟨⟨k₀, st₀⟩, ⟨k₁, st₁⟩, hbody, hk₀, hk₁, hlog⟩ := of_within_noting henv hwithin
  obtain rfl : k₀ = s.cursor.next := hk₀
  obtain rfl : k₁ = s₂.cursor := hk₁
  obtain ⟨⟨⟩, k₃, hadvance, h⟩ := of_scan_bind h
  cases hadvance
  obtain ⟨rfl, rfl⟩ := pure_eq_ok.mp h
  obtain ⟨ts, hinside, rfl⟩ := of_listBody hr hbody
  have hopened := (next_of_rest hs).1
  obtain ⟨⟨b, g, u, hg, hu, hk⟩, hclosed, hencloses⟩ := enclosed_of_inside hinside
    Scan.Terminator.bracket (fun _ _ hu => hu.opens) [] hopened rfl rfl hin
  obtain ⟨inner, hinner⟩ := listBody_noted hr hn hbody (hopened.In hin)
  refine ⟨.list s.cursor.next.position s₂.cursor.position (Tree.values false ts)
    inner, .single ?_ ?_⟩
  · rw [Visit.notices]
    exact hlog _ hinner.notices
  · have hspelled : Tree.Spelled Word (.list ts) ('[' :: g ++ u ++ [']']) := .list hg hu
    have hgives := gives_bracketed hopened hk hclosed rfl rfl hspelled hin
    rw [Tree.value] at hgives
    rw [Visit.Delimits]
    exact ⟨hencloses, hgives, hinner.delimit⟩

theorem map_noted {room : List Char}
    (hn : Notes source (expression env.noting source room .key)
      (expression env.noting source room (.value false)))
    {s s' : Session (σ × List Notice)} {v : Value} {t : List Char}
    (hs : s.cursor.rest = '\x7b' :: t)
    (h : Eval.map env.noting source (expression env.noting source room .key)
      (expression env.noting source room (.value false)) s = (.ok v, s'))
    (hin : s.cursor.In source) :
    ∃ first last m inner, v = .map m ∧
      Noted source s.state s'.state [.map first last m inner] := by
  obtain ⟨start, _, hp, h⟩ := bind_eq_ok.mp h
  cases hp
  obtain ⟨⟨⟩, k₁, hadvance, h⟩ := of_scan_bind h
  cases hadvance
  obtain ⟨_, _, hp, h⟩ := bind_eq_ok.mp h
  cases hp
  obtain ⟨⟨fragment?, m⟩, s₂, hwithin, h⟩ := bind_eq_ok.mp h
  obtain ⟨⟨k₀, st₀⟩, ⟨k₁, st₁⟩, hbody, hk₀, hk₁, hlog⟩ := of_within_noting henv hwithin
  obtain rfl : k₀ = s.cursor.next := hk₀
  obtain rfl : k₁ = s₂.cursor := hk₁
  obtain ⟨⟨⟩, ⟨m₁, s₁⟩, hmap, hpure⟩ := bind_eq_ok.mp hbody
  cases hpure
  obtain ⟨⟨⟩, k₃, hadvance, h⟩ := of_scan_bind h
  cases hadvance
  obtain ⟨rfl, rfl⟩ := pure_eq_ok.mp h
  -- The text of the entries is that of an evaluation on which nobody looks.
  have hpos : 0 < s.cursor.next.position := next_position_pos (hs ▸ List.cons_ne_nil _ _)
  obtain ⟨es, hinside, hm⟩ := of_mapBody_of_resolves henv.noting (.inr hpos) hmap
  have hopened := (next_of_rest hs).1
  obtain ⟨⟨b, g, u, hg, hu, hk⟩, hclosed, hencloses⟩ := enclosed_of_inside hinside
    Scan.Terminator.brace (fun _ _ hu => hu.opens) [] hopened rfl rfl hin
  obtain ⟨inner, hinner, hinto⟩ := mapBody_noted henv
    (expression_recognizes_of_resolves henv.noting room false) hn hmap (hopened.In hin)
  refine ⟨s.cursor.next.position, s₂.cursor.position, m, inner, rfl, .single ?_ ?_⟩
  · rw [Visit.notices]
    exact hlog _ hinner.notices
  · have hspelled : Tree.Spelled Word (.map es) ('\x7b' :: g ++ u ++ ['\x7d']) := .map hg hu
    have hgives := gives_bracketed hopened hk hclosed rfl rfl hspelled hin
    rw [Tree.value, ← hm] at hgives
    rw [Visit.Delimits]
    exact ⟨hencloses, hgives, hinto, hinner.delimit⟩

theorem arguments_noted (hr : Recognizes false key item) (hn : Notes source key item)
    {function : String} {start : Nat} {s s' : Session (σ × List Notice)} {vs : List Value}
    {k : Cursor} {before : List Char} (hopened : k.Passes (before ++ ['(']) s.cursor)
    (h : Eval.arguments env.noting source function start item s = (.ok vs, s'))
    (hin : k.In source) :
    ∃ last inner, s'.cursor.position = last + 1 ∧
      s'.state.2 = s.state.2 ++ (Scope.arguments function).notices source s.cursor.position last
        () (Visit.allNotices source inner) ∧
      (Visit.call s.cursor.position last function vs inner).Delimits source := by
  obtain ⟨⟨vs, ⟨⟩⟩, s₂, hwithin, h⟩ := bind_eq_ok.mp h
  obtain ⟨⟨k₀, st₀⟩, ⟨k₁, st₁⟩, hbody, hk₀, hk₁, hlog⟩ := of_within_noting henv hwithin
  obtain rfl : k₀ = s.cursor := hk₀
  obtain rfl : k₁ = s₂.cursor := hk₁
  obtain ⟨⟨⟨⟩, items⟩, s₁, hbuild, hpure⟩ := bind_eq_ok.mp (of_inside hbody).1
  cases hpure
  have hlist := of_building hbuild
  obtain ⟨⟨⟩, k₃, hadvance, h⟩ := of_scan_bind h
  cases hadvance
  obtain ⟨rfl, rfl⟩ := pure_eq_ok.mp h
  obtain ⟨ts, hinside, rfl⟩ := of_listBody hr hlist
  obtain ⟨⟨b, g, u, hg, hu, hk⟩, hclosed, hencloses⟩ := enclosed_of_inside hinside
    Scan.Terminator.parenthesis (fun _ _ hu => hu.opens) before hopened rfl rfl hin
  have hin₁ := hopened.In hin
  obtain ⟨inner, hinner⟩ := listBody_noted hr hn hlist hin₁
  refine ⟨s₂.cursor.position, inner, hclosed.position_succ rfl, hlog _ hinner.notices, ?_⟩
  rw [Visit.Delimits]
  exact ⟨hencloses, hu.givesItems hg hk hin₁, hinner.delimit⟩

/-- What is told while an expression is evaluated delimits what it is about. -/
theorem expression_noted (room : List Char) :
    Notes source (expression env.noting source room .key)
      (expression env.noting source room (.value false)) := by
  -- Within brackets there is less room, and what is told there is noted by the induction.
  induction room with
  | nil =>
    constructor
    · intro s s' v h
      exact absurd h throw_ne_ok
    · intro s s' v h
      exact absurd h throw_ne_ok
  | cons x room ih =>
    have hr : Recognizes false (expression env.noting source room .key)
      (expression env.noting source room (.value false)) :=
        expression_recognizes_of_resolves henv.noting room false
    constructor
    · intro s s' v h hin
      rcases of_expression h with ⟨t, hs, h⟩ | ⟨t, hs, h⟩ | ⟨str, u, -, -, -, hstate⟩ | ⟨-, h⟩
      · obtain ⟨first, last, m, inner, -, hvisit⟩ := map_noted henv ih hs h hin
        exact ⟨_, hvisit⟩
      · obtain ⟨visit, hvisit⟩ := list_noted henv hr ih hs h hin
        exact ⟨_, hvisit⟩
      · exact ⟨[], hstate ▸ .refl _⟩
      · obtain ⟨⟨w, called⟩, k, hword, h⟩ := of_scan_bind h
        obtain ⟨-, hk⟩ := Scan.of_wordOrCall hword
        cases called with
        | true =>
          obtain ⟨b, g, -, hk⟩ := hk
          obtain ⟨vs, s₂, harguments, h⟩ := bind_eq_ok.mp h
          obtain ⟨last, inner, hlast, hlog, hvisit⟩ :=
            arguments_noted henv hr ih hk harguments hin
          rw [if_neg (by simp)] at h
          obtain ⟨-, -, hresolved⟩ := of_resolve_noting henv h
          refine ⟨_, .single ?_ hvisit⟩
          rw [hresolved, hlog, hlast, Visit.notices, List.append_assoc]
        | false =>
          obtain ⟨-, rfl⟩ := pure_eq_ok.mp h
          exact ⟨[], .refl _⟩
    · intro s s' v h hin
      rcases of_expression h with ⟨t, hs, h⟩ | ⟨t, hs, h⟩ | ⟨str, u, -, -, rfl, hstate⟩ | ⟨-, h⟩
      · obtain ⟨first, last, m, inner, rfl, hvisit⟩ := map_noted henv ih hs h hin
        exact ⟨first, last, inner, hvisit⟩
      · obtain ⟨⟨⟩, k₁, hadvance, h⟩ := of_scan_bind h
        obtain ⟨_, _, hp, h⟩ := bind_eq_ok.mp h
        obtain ⟨⟨⟨⟩, vs⟩, s₂, hwithin, h⟩ := bind_eq_ok.mp h
        obtain ⟨⟨⟩, k₃, hadvance, h⟩ := of_scan_bind h
        obtain ⟨rfl, -⟩ := pure_eq_ok.mp h
        trivial
      · exact hstate ▸ .refl _
      · obtain ⟨⟨w, called⟩, k, hword, h⟩ := of_scan_bind h
        cases called with
        | true =>
          obtain ⟨vs, s₂, harguments, h⟩ := bind_eq_ok.mp h
          obtain ⟨rfl, rfl⟩ := pure_eq_ok.mp h
          trivial
        | false =>
          obtain ⟨rfl, rfl⟩ := pure_eq_ok.mp h
          exact .refl _

theorem anyExpression_noted :
    Notes source (anyExpression env.noting source .key)
      (anyExpression env.noting source (.value false)) := by
  constructor
  · intro s s' v h hin
    exact (expression_noted henv s.cursor.rest).value h hin
  · intro s s' v h hin
    exact (expression_noted henv s.cursor.rest).key h hin

end Items

/-- What succeeds under an environment does so where notes are taken. -/
theorem noting_succeeds {σ α : Type} {source : Source} {k : Cursor} {x : Eval σ α}
    {y : Eval Unit α} {z : Eval (σ × List Notice) α} (hx : Mirrored source 0 x y k)
    (hz : Mirrored source 0 z y k) {st : σ} {a : α} (h : (x.run k st).1 = .ok a) :
    ∃ s', z ⟨k, (st, [])⟩ = (.ok a, s') := by
  have hplain : (y.run k ()).1 = .ok a := hx.run_ok_iff.mp h
  have hrun : (z.run k (st, [])).1 = .ok a := hz.run_ok_iff.mpr hplain
  obtain ⟨k', hz⟩ := of_run (Prod.ext hrun rfl)
  exact ⟨_, hz⟩

section Sessions

variable {σ : Type} {env : Environment σ} {source : Source} (henv : env.Resolves .call)

include henv

theorem single_noted {s s' : Session (σ × List Notice)} {v : Value}
    (h : single env.noting source false s = (.ok v, s')) (hin : s.cursor.In source) :
    ∃ visits, Noted source s.state s'.state visits := by
  obtain ⟨b, k₁, hgap, h⟩ := of_scan_bind h
  obtain ⟨g, hk₁, -⟩ := Scan.gap_eq_ok.mp hgap
  obtain ⟨_, _, hpeek, h⟩ := of_scan_bind h
  cases hpeek
  dsimp only at h
  split at h
  · obtain ⟨_, _, hp, h⟩ := bind_eq_ok.mp h
    obtain ⟨_, _, hf, -⟩ := bind_eq_ok.mp h
    exact absurd hf fail_ne_ok
  · obtain ⟨v, ⟨k₂, st₂⟩, hv, h⟩ := bind_eq_ok.mp h
    obtain ⟨visits, hvisits⟩ := (anyExpression_noted henv).value hv (hk₁.In hin)
    obtain ⟨b', k₃, hgap, h⟩ := of_scan_bind h
    obtain ⟨_, _, hpeek, h⟩ := of_scan_bind h
    dsimp only at h
    split at h
    · obtain ⟨_, _, hp, h⟩ := bind_eq_ok.mp h
      obtain ⟨_, _, hf, -⟩ := bind_eq_ok.mp h
      exact absurd hf fail_ne_ok
    · obtain ⟨-, rfl⟩ := pure_eq_ok.mp h
      exact ⟨visits, hvisits⟩

theorem anyExpression_recognizes_of_resolves (force : Bool) :
    Recognizes force (anyExpression env source .key)
      (anyExpression env source (.value force)) := by
  constructor
  · intro s s' v h
    exact (expression_recognizes_of_resolves henv s.cursor.rest force).value h
  · intro s s' v h
    exact (expression_recognizes_of_resolves henv s.cursor.rest force).key h

theorem openList_noted {s s' : Session (σ × List Notice)} {vs : List Value}
    (h : openList env.noting source false s = (.ok vs, s')) (hin : s.cursor.In source) :
    ∃ visits, Visit.AllDelimit source visits ∧ s'.state.2 = s.state.2 ++
      Scope.list.notices source s.cursor.position s'.cursor.position vs
        (Visit.allNotices source visits) := by
  obtain ⟨_, _, hp, h⟩ := bind_eq_ok.mp h
  cases hp
  obtain ⟨⟨⟨⟩, vs⟩, s₂, hwithin, h⟩ := bind_eq_ok.mp h
  obtain ⟨rfl, rfl⟩ := pure_eq_ok.mp h
  obtain ⟨s₀, s₁, hbody, hk₀, -, hlog⟩ := of_within_noting henv hwithin
  obtain ⟨visits, hvisits⟩ := listBody_noted
    (anyExpression_recognizes_of_resolves henv.noting false) (anyExpression_noted henv) hbody
    (hk₀ ▸ hin)
  exact ⟨visits, hvisits.delimit, hlog _ hvisits.notices⟩

theorem openMap_noted {s s' : Session (σ × List Notice)} {m : Entries Value}
    (h : openMap env.noting source false s = (.ok m, s')) (hin : s.cursor.In source) :
    ∃ visits, m = Visit.allInto visits [] ∧ Visit.AllDelimit source visits ∧
      s'.state.2 = s.state.2 ++
        Scope.map.notices source s.cursor.position s'.cursor.position m
          (Visit.allNotices source visits) := by
  obtain ⟨_, _, hp, h⟩ := bind_eq_ok.mp h
  cases hp
  obtain ⟨⟨⟨⟩, m⟩, s₂, hwithin, h⟩ := bind_eq_ok.mp h
  obtain ⟨rfl, rfl⟩ := pure_eq_ok.mp h
  obtain ⟨s₀, s₁, hbody, hk₀, -, hlog⟩ := of_within_noting henv hwithin
  obtain ⟨visits, hvisits, hinto⟩ := mapBody_noted henv
    (anyExpression_recognizes_of_resolves henv.noting false) (anyExpression_noted henv) hbody
    (hk₀ ▸ hin)
  exact ⟨visits, hinto, hvisits.delimit, hlog _ hvisits.notices⟩

/-- An expression that an environment lets pass is let pass by it taking notes as well. -/
theorem single_run_noted {k : Cursor} (hin : k.In source) {st : σ} {v : Value}
    (h : ((single env source false).run k st).1 = .ok v) :
    ∃ st' visits, (single env.noting source false).run k (st, []) =
        (.ok v, st', Visit.allNotices source visits) ∧
      Visit.AllDelimit source visits := by
  have hsimple : Mirrored source 0 (single env source false)
    (single (.simple : Environment Unit) source false) k := mirrored_single henv false
  obtain ⟨⟨k', st', log⟩, hrun⟩ :=
    noting_succeeds hsimple (mirrored_single henv.noting false) h
  obtain ⟨visits, hnotices, hdelimit⟩ := single_noted henv hrun hin
  refine ⟨st', visits, ?_, hdelimit⟩
  rw [run, hrun, ← List.nil_append (Visit.allNotices source visits), ← hnotices]

end Sessions

end Cjson.Eval

namespace Cjson

section EntryPoints

variable {σ : Type} {env : Environment σ}

/-- Every scope that an environment is told of where it leaves everything to the evaluation, be
it of a text or of a fragment, delimits what it is about by the positions of its two
notifications: the inside of brackets, with which that is the list or the map, the arguments of
a call, or the value of a key. Only the scope of all of a text has no brackets around it. -/
theorem visits_delimit (henv : env.Resolves .call) (source : Source) (st : σ) :
    (∀ v, (evaluate env false source st).1 = .ok v → ∃ st' visits,
      evaluate env.noting false source (st, []) =
        (.ok v, st', Visit.allNotices source visits) ∧
      Visit.AllDelimit source visits) ∧
    (∀ first last v, (evaluateFragment env false (.ofOffsets source first last) st).1 = .ok v →
      ∃ st' visits, evaluateFragment env.noting false (.ofOffsets source first last) (st, []) =
        (.ok v, st', Visit.allNotices source visits) ∧
      Visit.AllDelimit source visits) ∧
    (∀ items, (evaluateList env false source st).1 = .ok items → ∃ st' last visits,
      evaluateList env.noting false source (st, []) = (.ok items, st',
        Scope.list.notices source 0 last items (Visit.allNotices source visits)) ∧
      Visit.AllDelimit source visits) ∧
    (∀ entries, (evaluateMap env false source st).1 = .ok entries → ∃ st' last visits,
      evaluateMap env.noting false source (st, []) = (.ok entries, st',
        Scope.map.notices source 0 last entries (Visit.allNotices source visits)) ∧
      entries = Visit.allInto visits [] ∧ Visit.AllDelimit source visits) := by
  refine ⟨?_, ?_, ?_, ?_⟩
  · intro v h
    exact Eval.single_run_noted henv (Cursor.In.ofSource source) h
  · intro first last v h
    exact Eval.single_run_noted henv (Cursor.In.ofFragment source first last) h
  · intro items h
    have hsimple : Eval.Mirrored source 0 (Eval.openList env source false)
      (Eval.openList (.simple : Environment Unit) source false) (.ofSource source) :=
        Eval.mirrored_openList henv false
    obtain ⟨⟨k, st', log⟩, hrun⟩ :=
      Eval.noting_succeeds hsimple (Eval.mirrored_openList henv.noting false) h
    obtain ⟨visits, hdelimit, hlog⟩ :=
      Eval.openList_noted henv hrun (Cursor.In.ofSource source)
    refine ⟨st', k.position, visits, ?_, hdelimit⟩
    rw [evaluateList, Eval.run, hrun]
    exact congrArg (fun log => (_, st', log)) hlog
  · intro entries h
    have hsimple : Eval.Mirrored source 0 (Eval.openMap env source false)
      (Eval.openMap (.simple : Environment Unit) source false) (.ofSource source) :=
        Eval.mirrored_openMap henv false
    obtain ⟨⟨k, st', log⟩, hrun⟩ :=
      Eval.noting_succeeds hsimple (Eval.mirrored_openMap henv.noting false) h
    obtain ⟨visits, hinto, hdelimit, hlog⟩ :=
      Eval.openMap_noted henv hrun (Cursor.In.ofSource source)
    refine ⟨st', k.position, visits, ?_, hinto, hdelimit⟩
    rw [evaluateMap, Eval.run, hrun]
    exact congrArg (fun log => (_, st', log)) hlog

/-- As one expression the text is a map, with a call from its third byte on; a list of it has
the map as its item, and in a map it joins the entries. -/
theorem visits_delimit_map :
    let source : Source := ⟨"\x7ba:f(b)\x7d".toList, none⟩
    let entries : Entries Value := [("a", .call "f" [.string "b"])]
    let env : Environment (Unit × List Notice) := (Environment.simple : Environment Unit).noting
    (∃ visits, evaluate env false source ((), []) =
        (.ok (.map entries), (), Visit.allNotices source visits) ∧
      Visit.AllDelimit source visits) ∧
    (∃ visits, evaluateFragment env false (.ofOffsets source 3 7) ((), []) =
        (.ok (.call "f" [.string "b"]), (), Visit.allNotices source visits) ∧
      Visit.AllDelimit source visits) ∧
    (∃ last visits, evaluateList env false source ((), []) = (.ok [.map entries], (),
        Scope.list.notices source 0 last [.map entries] (Visit.allNotices source visits)) ∧
      Visit.AllDelimit source visits) ∧
    (∃ last visits, evaluateMap env false source ((), []) = (.ok entries, (),
        Scope.map.notices source 0 last entries (Visit.allNotices source visits)) ∧
      entries = Visit.allInto visits [] ∧ Visit.AllDelimit source visits) := by
  intro source entries env
  have ha : Word ['a'] := .of_all rfl
  have hb : Word ['b'] := .of_all rfl
  have hf : Word ['f'] := .of_all rfl
  have hcall : Tree.Spelled Word (.call ['f'] [.word ['b']]) "f(b)".toList :=
    .call hf .nil .nil (.last (.word hb) .nil)
  have hentries : Listed (Entry.Spelled Word) [Entry.pair "a" (.call ['f'] [.word ['b']])]
      "a:f(b)".toList := .last (Entry.Spelled.pair (.word ha) .nil .nil hcall) .nil
  have hmap : (evaluate (.simple : Environment Unit) false source ()).1 =
      .ok (.map entries) :=
    evaluate_simple_iff.mpr ⟨_, ⟨false, [], _, false, [], .nil, .map .nil hentries,
      Gap.nil.before .nil, by simp [source]⟩, rfl⟩
  have hpass : (Cursor.mk 3 "f(b)\x7d".toList).Passes "f(b)".toList ⟨7, ['\x7d']⟩ :=
    ⟨rfl, rfl⟩
  have hin : (Cursor.mk 3 "f(b)\x7d".toList).In source :=
    ⟨"\x7ba:".toList, [], by simp [source], rfl⟩
  have hgives := hcall.gives hpass hin
  have hlist : (evaluateList (.simple : Environment Unit) false source ()).1 =
      .ok [.map entries] :=
    evaluateList_simple_iff.mpr ⟨_, ⟨false, [], _, [], .nil, .last (.map .nil hentries) .nil,
      .inl ⟨rfl, .nil⟩, by simp [source]⟩, rfl⟩
  have hjoined : (evaluateMap (.simple : Environment Unit) false source ()).1 = .ok entries :=
    evaluateMap_simple_iff.mpr ⟨_, ⟨false, [], _, [], .nil, .last (.merged .nil hentries) .nil,
      .inl ⟨rfl, .nil⟩, by simp [source]⟩, rfl⟩
  have hsimple : (Environment.simple : Environment Unit).Resolves .call :=
    Environment.simple_resolves
  obtain ⟨single, fragment, list, map⟩ := visits_delimit hsimple source ()
  obtain ⟨⟨⟩, hsingle⟩ := single _ hmap
  obtain ⟨⟨⟩, hspan⟩ := fragment 3 7 _ hgives
  obtain ⟨⟨⟩, hitems⟩ := list _ hlist
  obtain ⟨⟨⟩, hmerged⟩ := map _ hjoined
  exact ⟨hsingle, hspan, hitems, hmerged⟩

end EntryPoints
end Cjson
