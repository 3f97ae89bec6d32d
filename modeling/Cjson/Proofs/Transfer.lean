import Cjson.Proofs.Mirror
import Cjson.Proofs.Resolution

namespace Cjson

/-- The same problem, or the same defect, where the text is `n` bytes further on in the
source. -/
def EvaluationError.moved (source : Source) (n : Nat) : EvaluationError → EvaluationError
  | located p location => .located p ⟨source, location.offset + n⟩
  | internal message => .internal message

/-- What a fault amounts to in the source that is scanned. -/
def Fault.located (source : Source) : Fault → EvaluationError
  | problem p offset => .located p ⟨source, offset⟩
  | internal message => .internal message

theorem Fault.located_moved (source source' : Source) (n : Nat) (fault : Fault) :
    (fault.moved n).located source = (fault.located source').moved source n := by
  cases fault <;> rfl

namespace Eval

open Cjson.Action

variable {σ τ α β γ : Type} {source source' : Source} {n : Nat} {k : Cursor}

/-- With its text `n` bytes further on in the source, the evaluation goes alike. -/
def Mirrored (source : Source) (n : Nat) (x : Eval τ α) (y : Eval σ α) (k : Cursor) : Prop :=
  ∀ st st', Mirrors (EvaluationError.moved source n)
    (fun s s' => s.cursor = s'.cursor.moved n) x y ⟨k.moved n, st⟩ ⟨k, st'⟩

/-- What is built is the same as well. -/
def BuildMirrored (source : Source) (n : Nat) (x : Build β τ α) (y : Build β σ α) (b : β)
    (k : Cursor) : Prop :=
  ∀ st st', Mirrors (EvaluationError.moved source n)
    (fun t t' => t.1 = t'.1 ∧ t.2.cursor = t'.2.cursor.moved n) x y (b, ⟨k.moved n, st⟩)
    (b, ⟨k, st'⟩)

section Steps

theorem mirrored_pure (a : α) :
    Mirrored source n (pure a : Eval τ α) (pure a : Eval σ α) k :=
  fun _ _ => ⟨.ok a, _, _, rfl, rfl, rfl⟩

theorem mirrored_fail (p : Problem) (offset : Nat) :
    Mirrored source n (fail source p (offset + n) : Eval τ α)
      (fail source' p offset : Eval σ α) k :=
  fun _ _ => ⟨.error (.located p ⟨source', offset⟩), _, _, rfl, rfl, rfl⟩

theorem mirrored_internal (message : String) :
    Mirrored source n (throw (.internal message) : Eval τ α)
      (throw (.internal message) : Eval σ α) k :=
  fun _ _ => ⟨.error (.internal message), _, _, rfl, rfl, rfl⟩

theorem mirrored_bind {x : Eval τ α} {y : Eval σ α} {f : α → Eval τ β} {g : α → Eval σ β}
    (h : Mirrored source n x y k) (hf : ∀ a k, Mirrored source n (f a) (g a) k) :
    Mirrored source n (x >>= f) (y >>= g) k := by
  intro st st'
  refine (h st st').bind ?_
  rintro a ⟨_, st₁⟩ ⟨k₁, st₁'⟩ - rfl
  exact hf a k₁ st₁ st₁'

theorem mirrored_position_bind {f : Nat → Eval τ α} {g : Nat → Eval σ α}
    (h : Mirrored source n (f (k.position + n)) (g k.position) k) :
    Mirrored source n (position >>= f) (position >>= g) k :=
  h

theorem mirrored_get_bind {f : Session τ → Eval τ α} {g : Session σ → Eval σ α}
    (h : ∀ st st', Mirrored source n (f ⟨k.moved n, st⟩) (g ⟨k, st'⟩) k) :
    Mirrored source n (get >>= f) (get >>= g) k :=
  fun st st' => h st st' st st'

theorem mirrored_ite {p : Prop} [Decidable p] {x x' : Eval τ α} {y y' : Eval σ α}
    (hx : p → Mirrored source n x y k) (hx' : ¬p → Mirrored source n x' y' k) :
    Mirrored source n (if p then x else x') (if p then y else y') k := by
  split
  · exact hx ‹_›
  · exact hx' ‹_›

theorem scan_eq (source : Source) (x : Scan α) (k : Cursor) (st : σ) :
    scan source x ⟨k, st⟩ = ((x k).1.mapError (Fault.located source), ⟨(x k).2, st⟩) := by
  rcases hx : x k with ⟨(⟨p, offset⟩ | message) | a, k'⟩
  · simp only [scan, hx]; rfl
  · simp only [scan, hx]; rfl
  · simp only [scan, hx]; rfl

theorem mirrored_scan {x y : Scan α} (h : Scan.Mirrored n x y k) :
    Mirrored source n (scan source x : Eval τ α) (scan source' y : Eval σ α) k := by
  intro st st'
  obtain ⟨r, _, k₁, hx, hy, rfl⟩ := h
  refine ⟨r.mapError (Fault.located source'), ⟨k₁.moved n, st⟩, ⟨k₁, st'⟩, ?_, ?_, rfl⟩
  · rw [scan_eq, hx]
    cases r with
    | error fault =>
      simp only [Except.mapError, Fault.located_moved source source']
    | ok a => rfl
  · rw [scan_eq, hy]

theorem mirrored_scan_bind {x y : Scan α} {f : α → Eval τ β} {g : α → Eval σ β}
    (h : Scan.Mirrored n x y k)
    (hf : ∀ a k₁, y k = (.ok a, k₁) → Mirrored source n (f a) (g a) k₁) :
    Mirrored source n (scan source x >>= f) (scan source' y >>= g) k := by
  intro st st'
  refine (mirrored_scan h st st').bind ?_
  rintro a ⟨_, st₁⟩ ⟨k₁, st₁'⟩ hy rfl
  exact hf a k₁ (of_scan hy).1 st₁ st₁'

variable {b : β}

theorem buildMirrored_pure (a : α) :
    BuildMirrored source n (pure a : Build β τ α) (pure a : Build β σ α) b k :=
  fun _ _ => ⟨.ok a, _, _, rfl, rfl, rfl, rfl⟩

theorem buildMirrored_bind {x : Build β τ α} {y : Build β σ α} {f : α → Build β τ γ}
    {g : α → Build β σ γ} (h : BuildMirrored source n x y b k)
    (hf : ∀ a b k, BuildMirrored source n (f a) (g a) b k) :
    BuildMirrored source n (x >>= f) (y >>= g) b k := by
  intro st st'
  refine (h st st').bind ?_
  rintro a ⟨b₁, _, st₁⟩ ⟨b₁', k₁, st₁'⟩ - ⟨hb, hk⟩
  obtain rfl : b₁ = b₁' := hb
  obtain rfl : _ = k₁.moved n := hk
  exact hf a b₁ k₁ st₁ st₁'

theorem mirrored_inside {x : Eval τ α} {y : Eval σ α} (h : Mirrored source n x y k) :
    BuildMirrored source n (inside x) (inside y) b k := by
  intro st st'
  obtain ⟨r, s, s', hx, hy, hk⟩ := h st st'
  refine ⟨r, (b, s), (b, s'), ?_, ?_, rfl, hk⟩
  · simp only [inside, hx]
  · simp only [inside, hy]

theorem mirrored_inside_bind {x : Eval τ α} {y : Eval σ α} {f : α → Build β τ γ}
    {g : α → Build β σ γ} (h : Mirrored source n x y k)
    (hf : ∀ a k, BuildMirrored source n (f a) (g a) b k) :
    BuildMirrored source n (inside x >>= f) (inside y >>= g) b k := by
  intro st st'
  obtain ⟨r, ⟨_, st₁⟩, ⟨k₁, st₁'⟩, hx, hy, rfl⟩ := h st st'
  cases r with
  | error e =>
    refine ⟨.error e, (b, ⟨k₁.moved n, st₁⟩), (b, ⟨k₁, st₁'⟩), bind_error ?_, bind_error ?_,
      rfl, rfl⟩
    · simp only [inside, hx]; rfl
    · simp only [inside, hy]
  | ok a =>
    obtain ⟨r, t, t', hfa, hga, hend⟩ := hf a k₁ st₁ st₁'
    refine ⟨r, t, t', ?_, ?_, hend⟩
    · rw [bind_ok (inside_ok hx b), hfa]
    · rw [bind_ok (inside_ok hy b), hga]

theorem mirrored_inside_position_bind {f : Nat → Build β τ γ} {g : Nat → Build β σ γ}
    (h : BuildMirrored source n (f (k.position + n)) (g k.position) b k) :
    BuildMirrored source n (inside position >>= f) (inside position >>= g) b k :=
  h

theorem mirrored_edit (f : β → β) :
    BuildMirrored source n (edit f : Build β τ Unit) (edit f : Build β σ Unit) b k :=
  fun _ _ => ⟨.ok (), _, _, rfl, rfl, rfl, rfl⟩

theorem mirrored_building {x : Build β τ α} {y : Build β σ α}
    (h : BuildMirrored source n x y b k) :
    Mirrored source n (building b x) (building b y) k := by
  intro st st'
  obtain ⟨r, ⟨b₁, s⟩, ⟨b', s'⟩, hx, hy, hb, hk⟩ := h st st'
  obtain rfl : b₁ = b' := hb
  refine ⟨r.map fun a => (a, b₁), s, s', ?_, ?_, hk⟩
  · simp only [building, hx]
    cases r <;> rfl
  · simp only [building, hy]
    cases r <;> rfl

theorem buildMirrored_ite {p : Prop} [Decidable p] {x x' : Build β τ α} {y y' : Build β σ α}
    (hx : p → BuildMirrored source n x y b k) (hx' : ¬p → BuildMirrored source n x' y' b k) :
    BuildMirrored source n (if p then x else x') (if p then y else y') b k := by
  split
  · exact hx ‹_›
  · exact hx' ‹_›

end Steps

section Callbacks

variable {env : Environment τ} (henv : env.Resolves .call)

include henv

theorem mirrored_resolve (function : String) (arguments : List Value) (start start' : Nat) :
    Mirrored source n (resolve env source function arguments start)
      (resolve (.simple : Environment σ) source' function arguments start') k := by
  intro st st'
  obtain ⟨st₁, hanswer⟩ : ∃ st₁, env.resolve function arguments
      ⟨source, (k.moved n).position⟩ st = (.ok (.call function arguments), st₁) :=
    ⟨_, Prod.ext (henv.resolve function arguments _ st) rfl⟩
  exact ⟨.ok (.call function arguments), ⟨k.moved n, st₁⟩, ⟨k, st'⟩, resolve_ok hanswer, rfl,
    rfl⟩

/-- Neither environment interferes, whatever the notifications would be blamed on. -/
theorem mirrored_within (scope : Scope) (start start' : Nat)
    {body : Signal → Build scope.Target τ α} {body' : Signal → Build scope.Target σ α}
    (h : BuildMirrored source n (body .proceed) (body' .proceed) scope.empty k) :
    Mirrored source n (within env source scope start body)
      (within .simple source' scope start' body') k := by
  intro st st'
  obtain ⟨st₁, henter⟩ := henv.notify (.enter scope) ⟨source, k.position + n⟩ scope.empty st
  obtain ⟨r, ⟨target, s⟩, ⟨target', s'⟩, hx, hy, htarget, hk⟩ := h st₁ st'
  obtain rfl : target = target' := htarget
  obtain ⟨st₂, hleave⟩ := henv.notify (.leave scope) ⟨source, s.cursor.position⟩ target s.state
  refine ⟨r.map fun a => (a, target), ⟨s.cursor, st₂⟩, s', ?_, ?_, hk⟩
  · simp only [within, Cursor.moved_position, henter, hx, hleave]
    cases r <;> rfl
  · simp only [within, Environment.simple, hy]
    cases r <;> rfl

end Callbacks

section Listings

variable {kind : Listing} {terminator : Option Char} {b : β}

/-- The error that the end of the text makes is located at the bracket. -/
theorem mirrored_itemOrEnd {item : Build β τ Bool} {item' : Build β σ Bool} {start : Nat}
    (hstart : terminator = none ∨ 0 < start)
    (h : ∀ b k, BuildMirrored source n item item' b k) :
    BuildMirrored source n (itemOrEnd source kind terminator (start + n) item)
      (itemOrEnd source' kind terminator start item') b k := by
  refine mirrored_inside_position_bind ?_
  refine mirrored_inside_bind (mirrored_scan Scan.mirrored_peek) fun c k₁ => ?_
  split
  · exact buildMirrored_pure _
  · have hoffset : start + n - 1 = start - 1 + n := by
      rcases hstart with hnone | hpos
      · cases hnone
      · omega
    rw [hoffset]
    exact mirrored_inside (mirrored_fail _ _)
  · refine buildMirrored_ite (fun _ => buildMirrored_pure _) fun _ => ?_
    have hitem : ∀ k, BuildMirrored source n
        (do return if ← item then .done () else .again () : Build β τ (Turn Unit Unit))
        (do return if ← item' then .done () else .again () : Build β σ (Turn Unit Unit)) b k :=
      fun k => buildMirrored_bind (h b k) fun _ _ _ => buildMirrored_pure _
    refine buildMirrored_ite (fun _ => ?_) fun _ => hitem _
    exact mirrored_inside_bind (mirrored_fail _ _) fun _ k => hitem k

theorem mirrored_listing {item : Build β τ Bool} {item' : Build β σ Bool}
    (hstart : terminator = none ∨ 0 < k.position)
    (h : ∀ b k, BuildMirrored source n item item' b k) :
    BuildMirrored source n (listing source kind terminator item)
      (listing source' kind terminator item') b k := by
  refine mirrored_inside_position_bind ?_
  refine mirrored_inside_bind (mirrored_scan Scan.mirrored_gap) fun _ k₁ => ?_
  intro st st'
  refine mirrors_untilDone (EvaluationError.internal _) ?_ ?_ () ⟨rfl, rfl⟩
  · rintro t t' ⟨-, hk⟩
    exact (congrArg Cursor.rest hk).trans (Cursor.moved_rest n _)
  · rintro _ ⟨b, k₂, st⟩ ⟨b', k₂', st'⟩ ⟨hb, hk⟩
    obtain rfl : b = b' := hb
    obtain rfl : k₂ = k₂'.moved n := hk
    exact mirrored_itemOrEnd hstart h st st'

theorem mirrored_endsListing (why : ColonFault) :
    Mirrored source n (endsListing source terminator why : Eval τ Bool)
      (endsListing source' terminator why : Eval σ Bool) k :=
  mirrored_scan_bind (Scan.mirrored_separator _ _) fun _ _ _ => mirrored_pure _

end Listings

section Items

variable {env : Environment τ} (henv : env.Resolves .call) {key item : Eval τ Value}
  {key' item' : Eval σ Value} (hkey : ∀ k, Mirrored source n key key' k)
  (hitem : ∀ k, Mirrored source n item item' k) {terminator : Option Char}

include hitem in
theorem mirrored_listBody (hstart : terminator = none ∨ 0 < k.position) {vs : List Value} :
    BuildMirrored source n (listBody source item terminator)
      (listBody source' item' terminator) vs k := by
  refine mirrored_listing hstart ?_
  intro vs k
  refine mirrored_inside_bind (hitem k) fun v k₁ => ?_
  refine buildMirrored_bind (mirrored_edit _) fun _ vs k₂ => ?_
  exact mirrored_inside (mirrored_endsListing _)

include henv hkey in
theorem mirrored_keyOrCall :
    Mirrored source n (keyOrCall env source key)
      (keyOrCall (.simple : Environment σ) source' key') k := by
  refine mirrored_position_bind ?_
  refine mirrored_bind (hkey k) fun v k₁ => ?_
  split
  · exact mirrored_bind (mirrored_resolve henv _ _ _ _) fun _ _ => mirrored_pure _
  · exact mirrored_pure _

theorem mirrored_keyName (start : Nat) (r : Value × Bool) :
    Mirrored source n (keyName source (start + n) r : Eval τ String)
      (keyName source' start r : Eval σ String) k := by
  unfold keyName
  split
  · exact mirrored_pure _
  · exact mirrored_fail _ _
  · exact mirrored_fail _ _

include henv hitem in
theorem mirrored_entryValue (name : String) (start start' : Nat) :
    Mirrored source n (entryValue env source name start item)
      (entryValue (.simple : Environment σ) source' name start' item') k := by
  refine mirrored_bind (mirrored_within henv (.entry name) start start' ?_)
    fun _ _ => mirrored_pure _
  intro st st'
  exact (mirrored_inside (hitem k) st st').map _

include henv in
theorem mirrored_bareEntry (name : String) (start start' : Nat) :
    Mirrored source n (bareEntry env source name start)
      (bareEntry (.simple : Environment σ) source' name start') k :=
  mirrored_bind (mirrored_within henv (.entry name) start start' (buildMirrored_pure _))
    fun _ _ => mirrored_pure _

theorem mirrored_putValue (name : String) (v? : Option Value) {m : Entries Value} :
    BuildMirrored source n (putValue name v? : Build (Entries Value) τ Unit)
      (putValue name v? : Build (Entries Value) σ Unit) m k := by
  cases v? with
  | none => exact buildMirrored_pure _
  | some v => exact mirrored_edit _

include henv in
theorem mirrored_loneEntry (start : Nat) (r : Value × Bool) {m : Entries Value} :
    BuildMirrored source n (loneEntry env source (start + n) r)
      (loneEntry (.simple : Environment σ) source' start r) m k := by
  unfold loneEntry
  split
  · exact mirrored_inside_bind (mirrored_bareEntry henv _ _ _) fun _ _ =>
      mirrored_putValue _ _
  · exact mirrored_edit _
  · exact mirrored_inside (mirrored_fail _ _)
  · exact mirrored_inside (mirrored_fail _ _)
  · exact mirrored_inside (mirrored_fail _ _)

include henv hkey hitem in
theorem mirrored_mapEntry {m : Entries Value} :
    BuildMirrored source n (mapEntry env source key item terminator)
      (mapEntry (.simple : Environment σ) source' key' item' terminator) m k := by
  refine mirrored_inside_position_bind ?_
  refine mirrored_inside_bind (mirrored_keyOrCall henv hkey) fun r k₁ => ?_
  refine mirrored_inside_bind (mirrored_scan (Scan.mirrored_separator _ _)) fun d k₂ => ?_
  have hlone : BuildMirrored source n
      (do loneEntry env source (k.position + n) r; return d == .terminator :
        Build (Entries Value) τ Bool)
      (do loneEntry (.simple : Environment σ) source' k.position r; return d == .terminator) m
      k₂ :=
    buildMirrored_bind (mirrored_loneEntry henv _ _) fun _ _ _ => buildMirrored_pure _
  cases d with
  | comma | terminator | textEnd => exact hlone
  | colon =>
    refine mirrored_inside_bind (mirrored_keyName _ _) fun name k₃ => ?_
    refine mirrored_inside_bind (mirrored_scan Scan.mirrored_peek) fun c k₄ => ?_
    have hvalue : ∀ k₄, BuildMirrored source n
        (do
          putValue name (← inside (entryValue env source name (k.position + n) item))
          inside (endsListing source terminator .afterValue) : Build (Entries Value) τ Bool)
        (do
          putValue name
            (← inside (entryValue (.simple : Environment σ) source' name k.position item'))
          inside (endsListing source' terminator .afterValue)) m k₄ := by
      intro k₄
      refine mirrored_inside_bind (mirrored_entryValue henv hitem _ _ _) fun v? k₅ => ?_
      refine buildMirrored_bind (mirrored_putValue _ _) fun _ m k₆ => ?_
      exact mirrored_inside (mirrored_endsListing _)
    refine buildMirrored_ite (fun _ => ?_) fun _ => hvalue _
    exact mirrored_inside_bind (mirrored_fail _ _) fun _ k => hvalue k

include henv hkey hitem in
theorem mirrored_mapBody (hstart : terminator = none ∨ 0 < k.position) {m : Entries Value} :
    BuildMirrored source n (mapBody env source key item terminator)
      (mapBody (.simple : Environment σ) source' key' item' terminator) m k := by
  rw [mapBody_eq, mapBody_eq]
  exact mirrored_listing hstart fun _ _ => mirrored_mapEntry henv hkey hitem

include henv hitem in
theorem mirrored_list (hk : k.rest ≠ []) :
    Mirrored source n (Eval.list env source item)
      (Eval.list (.simple : Environment σ) source' item') k := by
  refine mirrored_scan_bind Scan.mirrored_advance fun _ k₁ hadvance => ?_
  cases hadvance
  refine mirrored_position_bind ?_
  refine mirrored_bind (mirrored_within henv .list _ _ ?_) fun r k₂ => ?_
  · exact mirrored_listBody hitem (.inr (Cursor.next_position_pos hk))
  · exact mirrored_scan_bind Scan.mirrored_advance fun _ _ _ => mirrored_pure _

include henv hkey hitem in
theorem mirrored_map (hk : k.rest ≠ []) :
    Mirrored source n (Eval.map env source key item)
      (Eval.map (.simple : Environment σ) source' key' item') k := by
  refine mirrored_position_bind ?_
  refine mirrored_scan_bind Scan.mirrored_advance fun _ k₁ hadvance => ?_
  cases hadvance
  refine mirrored_position_bind ?_
  refine mirrored_bind (mirrored_within henv .map _ _ ?_) fun r k₂ => ?_
  · exact buildMirrored_bind
      (mirrored_mapBody henv hkey hitem (.inr (Cursor.next_position_pos hk)))
      fun _ _ _ => buildMirrored_pure _
  · exact mirrored_scan_bind Scan.mirrored_advance fun _ _ _ => mirrored_pure _

include henv hitem in
theorem mirrored_arguments (function : String) (start start' : Nat) (hk : 0 < k.position) :
    Mirrored source n (Eval.arguments env source function start item)
      (Eval.arguments (.simple : Environment σ) source' function start' item') k := by
  refine mirrored_bind (mirrored_within henv (.arguments function) _ _ ?_) fun r k₁ => ?_
  · refine mirrored_inside ?_
    exact mirrored_bind (mirrored_building (mirrored_listBody hitem (.inr hk)))
      fun _ _ => mirrored_pure _
  · exact mirrored_scan_bind Scan.mirrored_advance fun _ _ _ => mirrored_pure _

end Items

section Expressions

variable {env : Environment τ} (henv : env.Resolves .call)

include henv

theorem mirrored_expression (room : List Char) (role : Role) :
    ∀ k, Mirrored source n (expression env source room role)
      (expression (.simple : Environment σ) source' room role) k := by
  induction room generalizing role with
  | nil => exact fun k => mirrored_internal _
  | cons _ room ih =>
    intro k
    refine mirrored_position_bind ?_
    refine mirrored_get_bind fun st st' => ?_
    have hliteral : ∀ {x : Scan String}, Scan.Mirrored n x x k →
        Mirrored source n (Value.string <$> scan source x : Eval τ Value)
          (Value.string <$> scan source' x : Eval σ Value) k :=
      fun h st st' => (mirrored_scan h st st').map _
    dsimp only [Cursor.moved_rest]
    split
    · exact mirrored_internal _
    · exact mirrored_map henv (ih .key) (ih _) (by simp_all)
    · exact mirrored_list henv (ih _) (by simp_all)
    · exact hliteral (Scan.mirrored_quoted _)
    · exact hliteral (Scan.mirrored_quoted _)
    · exact hliteral (Scan.mirrored_raw _)
    · exact hliteral (Scan.mirrored_raw _)
    · refine mirrored_scan_bind Scan.mirrored_wordOrCall fun r k₁ hword => ?_
      obtain ⟨w, called⟩ := r
      refine mirrored_ite (fun hcalled => ?_) fun _ => mirrored_pure _
      obtain rfl : called = true := hcalled
      refine mirrored_bind (mirrored_arguments henv (ih _) _ _ _
        (Scan.wordOrCall_position_pos hword)) fun items k₂ => ?_
      refine mirrored_ite (fun _ => mirrored_pure _) fun _ => ?_
      exact mirrored_resolve henv _ _ _ _

theorem mirrored_anyExpression (role : Role) :
    ∀ k, Mirrored source n (anyExpression env source role)
      (anyExpression (.simple : Environment σ) source' role) k :=
  fun k => mirrored_expression henv k.rest role k

theorem mirrored_single (force : Bool) :
    Mirrored source n (single env source force)
      (single (.simple : Environment σ) source' force) k := by
  refine mirrored_scan_bind Scan.mirrored_gap fun _ k₁ _ => ?_
  refine mirrored_scan_bind Scan.mirrored_peek fun c k₂ _ => ?_
  have hrest : ∀ k, Mirrored source n (do
        let v ← anyExpression env source (.value force)
        let _ ← scan source Scan.gap
        if (← scan source Scan.peek).isSome then
          fail source .extraCharacters (← position)
        return v : Eval τ Value)
      (do
        let v ← anyExpression (.simple : Environment σ) source' (.value force)
        let _ ← scan source' Scan.gap
        if (← scan source' Scan.peek).isSome then
          fail source' .extraCharacters (← position)
        return v) k := by
    intro k
    refine mirrored_bind (mirrored_anyExpression henv _ k) fun v k₁ => ?_
    refine mirrored_scan_bind Scan.mirrored_gap fun _ k₂ _ => ?_
    refine mirrored_scan_bind Scan.mirrored_peek fun c k₃ _ => ?_
    refine mirrored_ite (fun _ => ?_) fun _ => mirrored_pure _
    refine mirrored_position_bind ?_
    exact mirrored_bind (mirrored_fail _ _) fun _ _ => mirrored_pure _
  refine mirrored_ite (fun _ => ?_) fun _ => hrest _
  refine mirrored_position_bind ?_
  exact mirrored_bind (mirrored_fail _ _) fun _ k => hrest k

theorem mirrored_openMap (force : Bool) :
    Mirrored source n (openMap env source force)
      (openMap (.simple : Environment σ) source' force) k := by
  refine mirrored_position_bind ?_
  refine mirrored_bind (mirrored_within henv .map _ _ ?_) fun _ _ => mirrored_pure _
  exact mirrored_mapBody henv (mirrored_anyExpression henv _) (mirrored_anyExpression henv _)
    (.inl rfl)

theorem mirrored_openList (force : Bool) :
    Mirrored source n (openList env source force)
      (openList (.simple : Environment σ) source' force) k := by
  refine mirrored_position_bind ?_
  refine mirrored_bind (mirrored_within henv .list _ _ ?_) fun _ _ => mirrored_pure _
  exact mirrored_listBody (mirrored_anyExpression henv _) (.inl rfl)

end Expressions

/-- The place of the text shows in errors only. -/
theorem Mirrored.run_moved {x : Eval τ α} {y : Eval σ α} (h : Mirrored source n x y k) (st : τ)
    (st' : σ) :
    (x.run (k.moved n) st).1 = (y.run k st').1.mapError (EvaluationError.moved source n) := by
  obtain ⟨r, s, s', hx, hy, -⟩ := h st st'
  simp only [run, hx, hy]

end Eval

theorem Environment.simple_resolves {σ : Type} : (simple : Environment σ).Resolves .call where
  resolve _ _ _ _ := rfl
  notify _ _ _ st := ⟨st, rfl⟩

end Cjson
