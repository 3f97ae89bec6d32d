import Cjson.Proofs.Evaluation

namespace Cjson.Eval

open Cjson.Action Cursor

variable {σ α : Type} {source : Source}

theorem within_simple (scope : Scope) (start : Nat)
    (body : Signal → Build scope.Target σ α) (s : Session σ) :
    within .simple source scope start body s =
      match body .proceed (scope.empty, s) with
      | (.ok a, target, s') => (.ok (a, target), s')
      | (.error e, _, s') => (.error e, s') := by
  rcases hb : body .proceed (scope.empty, s) with ⟨e | a, target, s₁⟩
  · simp only [within, Environment.simple, hb]
  · simp only [within, Environment.simple, hb]

theorem within_simple_error {scope : Scope} {start : Nat}
    {body : Signal → Build scope.Target σ α} {s s' : Session σ} {e : EvaluationError}
    {target : scope.Target} (h : body .proceed (scope.empty, s) = (.error e, (target, s'))) :
    within .simple source scope start body s = (.error e, s') := by
  rw [within_simple, h]

theorem of_within {scope : Scope} {start : Nat} {body : Signal → Build scope.Target σ α}
    {s s' : Session σ} {r : α × scope.Target}
    (h : within .simple source scope start body s = (.ok r, s')) :
    body .proceed (scope.empty, s) = (.ok r.1, (r.2, s')) := by
  rw [within_simple] at h
  rcases hb : body .proceed (scope.empty, s) with ⟨e | a, target, s₁⟩
  · rw [hb] at h
    cases h
  · rw [hb] at h
    cases h
    rfl

theorem of_resolve {function : String} {arguments : List Value} {start : Nat}
    {s s' : Session σ} {v : Value}
    (h : resolve .simple source function arguments start s = (.ok v, s')) :
    v = .call function arguments ∧ s' = s := by
  cases h
  exact ⟨rfl, rfl⟩

/-- What stands in place of a key: a string there is a key, and a map is one to merge. Of
anything else no entry comes. -/
def KeyRead (k k' : Cursor) : Value → Prop
  | .string str => ∃ u, k.Passes u k' ∧ KeySpelled Word str u
  | .map m => ∃ es u, k.Passes u k' ∧ Entry.Spelled Word (.merged es) u ∧
      m = Entry.allInto false es []
  | _ => True

/-- The evaluations of keys and of items succeed on what is spelled as it should be. -/
structure Recognizes (force : Bool) (key item : Eval σ Value) : Prop where
  value {s s' : Session σ} {v : Value} (h : item s = (.ok v, s')) :
    ∃ (t : Tree) (u : List Char), s.cursor.Passes u s'.cursor ∧ t.Spelled Word u ∧
      v = t.value force
  key {s s' : Session σ} {v : Value} (h : key s = (.ok v, s')) : KeyRead s.cursor s'.cursor v

theorem of_endsListing {terminator : Option Char} {why : ColonFault} {s s' : Session σ}
    {last : Bool} (h : endsListing source terminator why s = (.ok last, s')) :
    ∃ sep d, s.cursor.Passes sep s'.cursor ∧ d ≠ .colon ∧
      Scan.Separated terminator d sep s'.cursor.rest ∧ last = (d == .terminator) := by
  obtain ⟨d, k, hsep, h⟩ := of_scan_bind h
  obtain ⟨rfl, rfl⟩ := pure_eq_ok.mp h
  obtain ⟨sep, hk, hseparated, hcolon⟩ := Scan.of_separator hsep
  refine ⟨sep, d, hk, ?_, hseparated, rfl⟩
  intro he
  subst he
  cases hcolon rfl

section Bodies

variable {force : Bool} {key item : Eval σ Value} {terminator : Option Char}

theorem of_listBody (hr : Recognizes force key item) {s s' : Session σ} {vs : List Value}
    (h : listBody source item terminator ([], s) = (.ok (), (vs, s'))) :
    ∃ ts, Inside (Tree.Spelled Word) terminator ts s.cursor s'.cursor ∧
      vs = Tree.values force ts := by
  have hlisting := of_listing (P := Tree.Spelled Word)
    (fun t vs vs' => vs' = vs ++ [Tree.value force t]) (fun _ _ hu => hu.opens) ?_ h
  · obtain ⟨ts, hinside, hchain⟩ := hlisting
    refine ⟨ts, hinside, ?_⟩
    have happend : ∀ {ts : List Tree} {vs vs' : List Value},
        Chain (fun t vs vs' => vs' = vs ++ [Tree.value force t]) ts vs vs' →
        vs' = vs ++ Tree.values force ts := by
      intro ts vs vs' h
      induction h with
      | nil => rw [Tree.values, List.append_nil]
      | cons first _ ih => rw [ih, first, Tree.values, List.append_assoc]; rfl
    simpa using happend hchain
  · intro vs s last t' h
    obtain ⟨v, s₁, hv, h⟩ := of_inside_bind h
    rw [bind_ok (edit_apply _ _ _)] at h
    obtain ⟨hend, hvs⟩ := of_inside h
    obtain ⟨t, u, hk₁, ht, rfl⟩ := hr.value hv
    obtain ⟨sep, d, hk, hcolon, hsep, hlast⟩ := of_endsListing hend
    exact ⟨t, u, sep, d, ht, hk₁.trans hk, hcolon, hsep, hlast, hvs⟩

theorem of_keyOrCall {env : Environment σ}
    (hresolve : ∀ function arguments context st,
      (env.resolve function arguments context st).1 = .ok (.call function arguments))
    {s s' : Session σ} {r : Value × Bool} (h : keyOrCall env source key s = (.ok r, s')) :
    (∃ f arguments, r = (.call f arguments, true)) ∨
      (r.2 = false ∧ key s = (.ok r.1, s')) := by
  obtain ⟨start, _, hp, h⟩ := bind_eq_ok.mp h
  cases hp
  obtain ⟨v, s₁, hv, h⟩ := bind_eq_ok.mp h
  split at h
  · rename_i function arguments
    obtain ⟨w, s₂, hw, h⟩ := bind_eq_ok.mp h
    obtain ⟨rfl, -⟩ := pure_eq_ok.mp h
    have hanswer := hresolve function arguments ⟨source, s₁.cursor.position⟩ s₁.state
    simp only [resolve, hanswer] at hw
    cases hw
    exact .inl ⟨_, _, rfl⟩
  · obtain ⟨rfl, rfl⟩ := pure_eq_ok.mp h
    exact .inr ⟨rfl, hv⟩

theorem of_keyName {start : Nat} {r : Value × Bool} {s s' : Session σ} {name : String}
    (h : keyName source start r s = (.ok name, s')) : r.1 = .string name ∧ s = s' := by
  unfold keyName at h
  split at h
  · obtain ⟨rfl, rfl⟩ := pure_eq_ok.mp h
    exact ⟨rfl, rfl⟩
  · exact absurd h fail_ne_ok
  · exact absurd h fail_ne_ok

theorem of_entryValue (hr : Recognizes force key item) {name : String} {start : Nat}
    {s s' : Session σ} {v? : Option Value}
    (h : entryValue .simple source name start item s = (.ok v?, s')) :
    ∃ (t : Tree) (u : List Char), s.cursor.Passes u s'.cursor ∧ t.Spelled Word u ∧
      v? = some (t.value force) := by
  obtain ⟨⟨v?, ⟨⟩⟩, s₁, hbody, h⟩ := bind_eq_ok.mp h
  obtain ⟨rfl, rfl⟩ := pure_eq_ok.mp h
  obtain ⟨v, hv, rfl⟩ := map_eq_ok.mp (of_within hbody)
  obtain ⟨t, u, hk, ht, rfl⟩ := hr.value (of_inside hv).1
  exact ⟨t, u, hk, ht, rfl⟩

theorem of_bareEntry {name : String} {start : Nat} {s s' : Session σ} {v? : Option Value}
    (h : bareEntry .simple source name start s = (.ok v?, s')) :
    v? = some (.boolean true) ∧ s'.cursor = s.cursor := by
  obtain ⟨⟨kept, ⟨⟩⟩, s₁, hbody, h⟩ := bind_eq_ok.mp h
  obtain ⟨rfl, rfl⟩ := pure_eq_ok.mp h
  cases of_within hbody
  exact ⟨rfl, rfl⟩

theorem of_putValue {name : String} {v : Value} {m : Entries Value} {s : Session σ}
    {t' : Entries Value × Session σ}
    (h : putValue name (some v) (m, s) = (.ok (), t')) : t' = (m.put name v, s) := by
  cases h
  rfl

theorem of_loneEntry (hr : Recognizes force key item) {start : Nat} {r : Value × Bool}
    {m : Entries Value} {s s₁ : Session σ} {t' : Entries Value × Session σ} {k : Cursor}
    (hkey : keyOrCall .simple source key s = (.ok r, s₁))
    (h : loneEntry .simple source start r (m, ⟨k, s₁.state⟩) = (.ok (), t')) :
    ∃ (e : Entry) (u : List Char), e.Spelled Word u ∧ s.cursor.Passes u s₁.cursor ∧
      t'.2.cursor = k ∧ t'.1 = e.into force m := by
  unfold loneEntry at h
  split at h
  · rename_i name
    rcases of_keyOrCall (fun _ _ _ _ => rfl) hkey with ⟨f, arguments, he⟩ | ⟨-, hkey⟩
    · cases he
    · obtain ⟨v?, s₂, hbare, hput⟩ := of_inside_bind h
      obtain ⟨rfl, hcursor⟩ := of_bareEntry hbare
      rw [of_putValue hput]
      obtain ⟨u, hk, hu⟩ := hr.key hkey
      exact ⟨.bare name, u, .bare hu, hk, hcursor, by rw [Entry.into]⟩
  · rename_i new called
    rcases of_keyOrCall (fun _ _ _ _ => rfl) hkey with ⟨f, arguments, he⟩ | ⟨-, hkey⟩
    · cases he
    · obtain ⟨es, u, hk, hu, rfl⟩ := hr.key hkey
      cases h
      exact ⟨.merged es, u, hu, hk, rfl, by rw [Entry.into]⟩
  · exact absurd (of_inside h).1 fail_ne_ok
  · exact absurd (of_inside h).1 fail_ne_ok
  · exact absurd (of_inside h).1 fail_ne_ok

theorem of_mapEntry (hr : Recognizes force key item) {m : Entries Value} {s : Session σ}
    {last : Bool} {t' : Entries Value × Session σ}
    (h : mapEntry .simple source key item terminator (m, s) = (.ok last, t')) :
    ∃ (e : Entry) (u sep : List Char) (d : Scan.Separator), e.Spelled Word u ∧
      s.cursor.Passes (u ++ sep) t'.2.cursor ∧ d ≠ .colon ∧
      Scan.Separated terminator d sep t'.2.cursor.rest ∧ last = (d == .terminator) ∧
      t'.1 = e.into force m := by
  obtain ⟨start, _, hp, h⟩ := of_inside_bind h
  cases hp
  obtain ⟨r, s₁, hkey, h⟩ := of_inside_bind h
  obtain ⟨d, s₂, hsep, h⟩ := of_inside_bind h
  obtain ⟨hsep, hstate⟩ := of_scan hsep
  obtain ⟨sep, hk₂, hsep, -⟩ := Scan.of_separator hsep
  have lone : d ≠ .colon → (do
      loneEntry .simple source s.cursor.position r
      return d == .terminator : Build (Entries Value) σ Bool) (m, s₂) = (.ok last, t') →
      ∃ (e : Entry) (u sep : List Char) (d : Scan.Separator), e.Spelled Word u ∧
        s.cursor.Passes (u ++ sep) t'.2.cursor ∧ d ≠ .colon ∧
        Scan.Separated terminator d sep t'.2.cursor.rest ∧ last = (d == .terminator) ∧
        t'.1 = e.into force m := by
    intro hd h
    obtain ⟨⟨⟩, t₁, hlone, h⟩ := bind_eq_ok.mp h
    obtain ⟨rfl, rfl⟩ := pure_eq_ok.mp h
    obtain ⟨e, u, he, hk₁, hcursor, hinto⟩ := of_loneEntry hr hkey (k := s₂.cursor) (by
      rw [← hstate]
      exact hlone)
    refine ⟨e, u, sep, d, he, ?_, hd, ?_, rfl, hinto⟩
    · rw [hcursor]
      exact hk₁.trans hk₂
    · rwa [hcursor]
  cases d with
  | comma | terminator | textEnd => exact lone (by simp) h
  | colon =>
    obtain ⟨name, s₃, hname, h⟩ := of_inside_bind h
    obtain ⟨hstr, rfl⟩ := of_keyName hname
    obtain ⟨next, s₄, hpeek, h⟩ := of_inside_bind h
    cases hpeek
    split at h
    · obtain ⟨_, _, hf, -⟩ := of_inside_bind h
      exact absurd hf fail_ne_ok
    · obtain ⟨v?, s₅, hvalue, h⟩ := of_inside_bind h
      obtain ⟨t, v, hk₃, ht, rfl⟩ := of_entryValue hr hvalue
      obtain ⟨⟨⟩, t₁, hput, h⟩ := bind_eq_ok.mp h
      rw [of_putValue hput] at h
      obtain ⟨hend, hm⟩ := of_inside h
      obtain ⟨sep', d, hk₄, hcolon, hsep', hlast⟩ := of_endsListing hend
      rcases of_keyOrCall (fun _ _ _ _ => rfl) hkey with ⟨f, arguments, rfl⟩ | ⟨-, hrun⟩
      · cases hstr
      · rw [hstr] at hrun
        obtain ⟨u, hk₁, hu⟩ := hr.key hrun
        have hne : s₂.cursor.rest ≠ [] := by
          rw [hk₃.rest]
          exact (ht.opens.append _).ne_nil
        generalize hrest : s₂.cursor.rest = rest at hsep hne
        cases hsep with
        | @colon g g' _ b b' hg hg' =>
          have hpass := ((hk₁.trans hk₂).trans hk₃).trans hk₄
          refine ⟨.pair name t, u ++ g ++ ':' :: g' ++ v, sep', d,
            .pair hu hg (hg'.gap hne) ht, ?_, hcolon, hsep', hlast, ?_⟩
          · simpa using hpass
          · rw [Entry.into]
            exact hm

theorem of_mapBody (hr : Recognizes force key item) {s s' : Session σ} {m : Entries Value}
    (h : mapBody .simple source key item terminator ([], s) = (.ok (), (m, s'))) :
    ∃ es, Inside (Entry.Spelled Word) terminator es s.cursor s'.cursor ∧
      m = Entry.allInto force es [] := by
  rw [mapBody_eq] at h
  have hlisting := of_listing (P := Entry.Spelled Word)
    (fun e m m' => m' = Entry.into force e m) (fun _ _ hu => hu.opens) ?_ h
  · obtain ⟨es, hinside, hchain⟩ := hlisting
    refine ⟨es, hinside, ?_⟩
    have hall : ∀ {es : List Entry} {m m' : Entries Value},
        Chain (fun e m m' => m' = Entry.into force e m) es m m' →
        m' = Entry.allInto force es m := by
      intro es m m' h
      induction h with
      | nil => rw [Entry.allInto]
      | cons first _ ih => rw [ih, first, Entry.allInto]
    exact hall hchain
  · intro m s last t' h
    obtain ⟨e, u, sep, d, hu, hrest⟩ := of_mapEntry hr h
    exact ⟨e, u, sep, d, hu, hrest⟩

theorem of_list (hr : Recognizes force key item) {s s' : Session σ} {v : Value}
    {t : List Char} (hs : s.cursor.rest = '[' :: t)
    (h : Eval.list .simple source item s = (.ok v, s')) :
    ∃ (ts : List Tree) (u : List Char), s.cursor.Passes u s'.cursor ∧
      Tree.Spelled Word (.list ts) u ∧ v = .list (Tree.values force ts) := by
  obtain ⟨⟨⟩, k₁, hadvance, h⟩ := of_scan_bind h
  cases hadvance
  obtain ⟨_, _, hp, h⟩ := bind_eq_ok.mp h
  cases hp
  obtain ⟨⟨⟨⟩, vs⟩, s₂, hbody, h⟩ := bind_eq_ok.mp h
  obtain ⟨ts, hinside, hvs⟩ := of_listBody hr (of_within hbody)
  obtain ⟨⟨⟩, k₃, hadvance, h⟩ := of_scan_bind h
  cases hadvance
  obtain ⟨rfl, rfl⟩ := pure_eq_ok.mp h
  obtain ⟨hend, b, g, u, hg, hu, hk⟩ :=
    (inside_bracket_iff Scan.Terminator.bracket fun _ _ hu => hu.opens).mp hinside
  obtain ⟨r, hr⟩ := List.head?_eq_some_iff.mp hend
  refine ⟨ts, '[' :: g ++ u ++ [']'], ?_, .list hg hu, congrArg Value.list hvs⟩
  have hpass := ((next_of_rest hs).1.trans hk).trans (next_of_rest hr).1
  simpa using hpass

theorem of_map (hr : Recognizes force key item) {s s' : Session σ} {v : Value}
    {t : List Char} (hs : s.cursor.rest = '\x7b' :: t)
    (h : Eval.map .simple source key item s = (.ok v, s')) :
    ∃ (es : List Entry) (b : Bool) (g u : List Char), Gap b g ∧
      Listed (Entry.Spelled Word) es u ∧
      s.cursor.Passes ('\x7b' :: g ++ u ++ ['\x7d']) s'.cursor ∧
      v = .map (Entry.allInto force es []) := by
  obtain ⟨start, _, hp, h⟩ := bind_eq_ok.mp h
  cases hp
  obtain ⟨⟨⟩, k₁, hadvance, h⟩ := of_scan_bind h
  cases hadvance
  obtain ⟨_, _, hp, h⟩ := bind_eq_ok.mp h
  cases hp
  obtain ⟨⟨fragment?, m⟩, s₂, hbody, h⟩ := bind_eq_ok.mp h
  obtain ⟨⟨⟩, ⟨m₁, s₁⟩, hmap, hpure⟩ := bind_eq_ok.mp (of_within hbody)
  cases hpure
  obtain ⟨es, hinside, hm⟩ := of_mapBody hr hmap
  obtain ⟨⟨⟩, k₃, hadvance, h⟩ := of_scan_bind h
  cases hadvance
  obtain ⟨rfl, rfl⟩ := pure_eq_ok.mp h
  obtain ⟨hend, b, g, u, hg, hu, hk⟩ :=
    (inside_bracket_iff Scan.Terminator.brace fun _ _ hu => hu.opens).mp hinside
  obtain ⟨r, hr⟩ := List.head?_eq_some_iff.mp hend
  refine ⟨es, b, g, u, hg, hu, ?_, congrArg Value.map hm⟩
  have hpass := ((next_of_rest hs).1.trans hk).trans (next_of_rest hr).1
  simpa using hpass

theorem of_arguments (hr : Recognizes force key item) {function : String} {start : Nat}
    {s s' : Session σ} {vs : List Value}
    (h : Eval.arguments .simple source function start item s = (.ok vs, s')) :
    ∃ (ts : List Tree) (b : Bool) (g u : List Char), Gap b g ∧
      Listed (Tree.Spelled Word) ts u ∧ s.cursor.Passes (g ++ u ++ [')']) s'.cursor ∧
      vs = Tree.values force ts := by
  obtain ⟨⟨vs, ⟨⟩⟩, s₂, hbody, h⟩ := bind_eq_ok.mp h
  obtain ⟨⟨⟨⟩, items⟩, s₁, hbuild, hpure⟩ := bind_eq_ok.mp (of_inside (of_within hbody)).1
  cases hpure
  obtain ⟨ts, hinside, hvs⟩ := of_listBody hr (of_building hbuild)
  obtain ⟨⟨⟩, k₃, hadvance, h⟩ := of_scan_bind h
  cases hadvance
  obtain ⟨rfl, rfl⟩ := pure_eq_ok.mp h
  obtain ⟨hend, b, g, u, hg, hu, hk⟩ :=
    (inside_bracket_iff Scan.Terminator.parenthesis fun _ _ hu => hu.opens).mp hinside
  obtain ⟨r, hr⟩ := List.head?_eq_some_iff.mp hend
  exact ⟨ts, b, g, u, hg, hu, hk.trans (next_of_rest hr).1, hvs⟩

end Bodies

theorem of_literal {x : Scan String} {s s' : Session σ} {v : Value}
    (hx : ∀ str k, x s.cursor = (.ok str, k) → ∃ u, s.cursor.Passes u k ∧ Literal str u)
    (h : (Value.string <$> scan source x) s = (.ok v, s')) :
    ∃ str u, s.cursor.Passes u s'.cursor ∧ Literal str u ∧ v = .string str ∧
      s'.state = s.state := by
  obtain ⟨str, hscan, rfl⟩ := map_eq_ok.mp h
  obtain ⟨hscan, hstate⟩ := of_scan hscan
  obtain ⟨u, hk, hu⟩ := hx str _ hscan
  exact ⟨str, u, hk, hu, rfl, hstate⟩

/-- The kinds of expressions, of which the next characters tell. -/
theorem of_expression {env : Environment σ} {x : Char} {room : List Char} {role : Role}
    {s s' : Session σ} {v : Value}
    (h : expression env source (x :: room) role s = (.ok v, s')) :
    (∃ t, s.cursor.rest = '\x7b' :: t ∧
      Eval.map env source (expression env source room .key)
        (expression env source room (.value role.force)) s = (.ok v, s')) ∨
    (∃ t, s.cursor.rest = '[' :: t ∧
      Eval.list env source (expression env source room (.value role.force)) s =
        (.ok v, s')) ∨
    (∃ str u, s.cursor.Passes u s'.cursor ∧ Literal str u ∧ v = .string str ∧
      s'.state = s.state) ∨
    (∀ q t, q = '"' ∨ q = '\'' → s.cursor.rest ≠ 'r' :: q :: t) ∧
      wordExpression env source room role s.cursor.position s = (.ok v, s') := by
  obtain ⟨k, st⟩ := s
  have hlead := Text.lead k.rest
  generalize hr : k.rest = r at hlead
  cases hlead with
  | nothing =>
    rw [expression_end _ _ _ _ hr] at h
    cases h
  | map =>
    rw [expression_map _ _ _ _ _ hr] at h
    exact .inl ⟨_, rfl, h⟩
  | list =>
    rw [expression_list _ _ _ _ _ hr] at h
    exact .inr (.inl ⟨_, rfl, h⟩)
  | quoted hq =>
    rw [expression_quoted _ _ _ _ _ hq hr] at h
    refine .inr (.inr (.inl (of_literal ?_ h)))
    intro str k' hquoted
    obtain ⟨cs, body, hk, hs, rfl⟩ := Scan.of_quoted hq (by rw [hr]; rfl) hquoted
    exact ⟨_, hk, .quoted hq hs⟩
  | raw hq =>
    rw [expression_raw _ _ _ _ _ hq hr] at h
    refine .inr (.inr (.inl (of_literal ?_ h)))
    intro str k' hraw
    obtain ⟨cs, hk, hs, rfl⟩ := Scan.of_raw hr hraw
    exact ⟨_, hk, .raw hq hs⟩
  | other hne hmark hnotRaw =>
    subst hr
    rw [expression_other _ _ _ _ _ hne hmark hnotRaw] at h
    exact .inr (.inr (.inr ⟨hnotRaw, h⟩))

/-- Whatever is evaluated as an expression is one. -/
theorem expression_recognizes (room : List Char) (force : Bool) :
    Recognizes force (expression .simple source room .key : Eval σ Value)
      (expression .simple source room (.value force)) := by
  induction room generalizing force with
  | nil =>
    constructor
    · intro s s' v h
      exact absurd h throw_ne_ok
    · intro s s' v h
      exact absurd h throw_ne_ok
  | cons x room ih =>
    constructor
    · intro s s' v h
      rcases of_expression h with ⟨t, hs, h⟩ | ⟨t, hs, h⟩ | ⟨str, u, hk, hu, rfl, -⟩ | ⟨-, h⟩
      · obtain ⟨es, b, g, u, hg, hu, hk, rfl⟩ := of_map (ih force) hs h
        exact ⟨.map es, _, hk, .map hg hu, by rw [Tree.value]⟩
      · obtain ⟨ts, u, hk, hu, rfl⟩ := of_list (ih force) hs h
        exact ⟨.list ts, u, hk, hu, by rw [Tree.value]⟩
      · exact ⟨.literal str, u, hk, .literal hu, by rw [Tree.value]⟩
      · obtain ⟨⟨w, called⟩, k, hword, h⟩ := of_scan_bind h
        obtain ⟨hw, hk⟩ := Scan.of_wordOrCall hword
        cases called with
        | true =>
          obtain ⟨b, g, hg, hk⟩ := hk
          obtain ⟨vs, s₂, harguments, h⟩ := bind_eq_ok.mp h
          obtain ⟨ts, b', g', u, hg', hu, hk₂, rfl⟩ := of_arguments (ih force) harguments
          rw [if_neg (by simp)] at h
          obtain ⟨rfl, rfl⟩ := of_resolve h
          refine ⟨.call w ts, w ++ g ++ '(' :: g' ++ u ++ [')'], ?_, .call hw hg hg' hu,
            by rw [Tree.value]⟩
          have hpass := hk.trans hk₂
          simpa using hpass
        | false =>
          obtain ⟨rfl, rfl⟩ := pure_eq_ok.mp h
          refine ⟨.word w, w, hk, .word hw, ?_⟩
          cases force <;> rfl
    · intro s s' v h
      rcases of_expression h with ⟨t, hs, h⟩ | ⟨t, hs, h⟩ | ⟨str, u, hk, hu, rfl, -⟩ | ⟨-, h⟩
      · obtain ⟨es, b, g, u, hg, hu, hk, rfl⟩ := of_map (ih false) hs h
        exact ⟨es, _, hk, .merged hg hu, rfl⟩
      · obtain ⟨ts, u, hk, hu, rfl⟩ := of_list (ih false) hs h
        trivial
      · exact ⟨u, hk, .literal hu⟩
      · obtain ⟨⟨w, called⟩, k, hword, h⟩ := of_scan_bind h
        obtain ⟨hw, hk⟩ := Scan.of_wordOrCall hword
        cases called with
        | true =>
          obtain ⟨vs, s₂, harguments, h⟩ := bind_eq_ok.mp h
          obtain ⟨rfl, rfl⟩ := pure_eq_ok.mp h
          trivial
        | false =>
          obtain ⟨rfl, rfl⟩ := pure_eq_ok.mp h
          exact ⟨w, hk, .word hw⟩

theorem anyExpression_recognizes (force : Bool) :
    Recognizes force (anyExpression .simple source .key : Eval σ Value)
      (anyExpression .simple source (.value force)) := by
  constructor
  · intro s s' v h
    exact (expression_recognizes s.cursor.rest force).value h
  · intro s s' v h
    exact (expression_recognizes s.cursor.rest force).key h

theorem of_single {force : Bool} {s s' : Session σ} {v : Value}
    (h : single .simple source force s = (.ok v, s')) :
    ∃ t : Tree, Sole (t.Spelled Word) s.cursor.rest ∧ v = t.value force := by
  obtain ⟨b, k₁, hgap, h⟩ := of_scan_bind h
  obtain ⟨g, hk₁, hg⟩ := Scan.gap_eq_ok.mp hgap
  obtain ⟨_, _, hpeek, h⟩ := of_scan_bind h
  cases hpeek
  dsimp only at h
  split at h
  · obtain ⟨_, _, hp, h⟩ := bind_eq_ok.mp h
    obtain ⟨_, _, hf, -⟩ := bind_eq_ok.mp h
    exact absurd hf fail_ne_ok
  · obtain ⟨v, ⟨k₂, st₂⟩, hv, h⟩ := bind_eq_ok.mp h
    obtain ⟨t, u, hk₂, ht, rfl⟩ := (anyExpression_recognizes force).value hv
    obtain ⟨b', k₃, hgap, h⟩ := of_scan_bind h
    obtain ⟨g', hk₃, hg'⟩ := Scan.gap_eq_ok.mp hgap
    obtain ⟨_, _, hpeek, h⟩ := of_scan_bind h
    cases hpeek
    dsimp only at h
    split at h
    · obtain ⟨_, _, hp, h⟩ := bind_eq_ok.mp h
      obtain ⟨_, _, hf, -⟩ := bind_eq_ok.mp h
      exact absurd hf fail_ne_ok
    · rename_i hsome
      obtain ⟨rfl, -⟩ := pure_eq_ok.mp h
      have hend : k₃.rest = [] := by simpa using hsome
      rw [hend] at hg'
      refine ⟨t, ⟨b, g, u, b', g', hg.gap ?_, ht, hg', ?_⟩, rfl⟩
      · rw [hk₂.rest]
        exact (ht.opens.append _).ne_nil
      · have := ((hk₁.trans hk₂).trans hk₃).rest
        rwa [hend, List.append_nil] at this

theorem of_openList {force : Bool} {s s' : Session σ} {vs : List Value}
    (h : openList .simple source force s = (.ok vs, s')) :
    ∃ ts, Layout (Tree.Spelled Word) ts s.cursor.rest ∧ vs = Tree.values force ts := by
  obtain ⟨_, _, hp, h⟩ := bind_eq_ok.mp h
  cases hp
  obtain ⟨⟨⟨⟩, vs⟩, s₂, hbody, h⟩ := bind_eq_ok.mp h
  obtain ⟨rfl, rfl⟩ := pure_eq_ok.mp h
  obtain ⟨ts, hinside, hvs⟩ := of_listBody (anyExpression_recognizes force) (of_within hbody)
  exact ⟨ts, (inside_text_iff fun _ _ hu => hu.opens).mp ⟨_, hinside⟩, hvs⟩

/-- A list fails at the separator behind its first item. -/
theorem openList_error {force : Bool} {k k₁ k₂ : Cursor} {st : σ} {v : Value} {p : Problem}
    {offset : Nat} (hk : Text.Opens k.rest)
    (hitem : anyExpression .simple source (.value force) ⟨k, st⟩ = (.ok v, ⟨k₁, st⟩))
    (hsep : Scan.separator none (some .inList) k₁ = (.error (.problem p offset), k₂)) :
    openList .simple source force ⟨k, st⟩ =
      (.error (.located p ⟨source, offset⟩), ⟨k₂, st⟩) := by
  have hlist : listBody source (anyExpression .simple source (.value force)) none
      ([], ⟨k, st⟩) = (.error (.located p ⟨source, offset⟩), ([v], ⟨k₂, st⟩)) := by
    refine listing_error .ofText hk ?_
    rw [bind_ok (inside_ok hitem []), bind_ok (edit_apply _ _ _)]
    exact inside_error (bind_error (scan_error hsep st)) _
  rw [openList, bind_ok (position_apply _)]
  exact bind_error (within_simple_error hlist)

theorem of_openMap {force : Bool} {s s' : Session σ} {m : Entries Value}
    (h : openMap .simple source force s = (.ok m, s')) :
    ∃ es, Layout (Entry.Spelled Word) es s.cursor.rest ∧ m = Entry.allInto force es [] := by
  obtain ⟨_, _, hp, h⟩ := bind_eq_ok.mp h
  cases hp
  obtain ⟨⟨⟨⟩, m⟩, s₂, hbody, h⟩ := bind_eq_ok.mp h
  obtain ⟨rfl, rfl⟩ := pure_eq_ok.mp h
  obtain ⟨es, hinside, hm⟩ := of_mapBody (anyExpression_recognizes force) (of_within hbody)
  exact ⟨es, (inside_text_iff fun _ _ hu => hu.opens).mp ⟨_, hinside⟩, hm⟩

theorem of_run {x : Eval σ α} {k : Cursor} {st st' : σ} {a : α}
    (h : x.run k st = (.ok a, st')) : ∃ k', x ⟨k, st⟩ = (.ok a, ⟨k', st'⟩) := by
  rcases hx : x ⟨k, st⟩ with ⟨r, s'⟩
  simp only [run, hx] at h
  cases h
  exact ⟨s'.cursor, rfl⟩

end Cjson.Eval
