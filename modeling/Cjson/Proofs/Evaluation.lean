import Cjson.Evaluate
import Cjson.Proofs.Reading
import Cjson.Proofs.Skimming

namespace Cjson

namespace Eval

open Cjson.Action Cursor

variable {σ α : Type} {env : Environment σ} {π : Policy} {At : List Scope → σ → Prop}
  {source : Source}

theorem within_ends (hf : env.Follows π At) (source : Source) (scope : Scope) (start : Nat)
    (body : Signal → Build scope.Target σ α) {k : Cursor} {st : σ} {opened : List Scope}
    {Q : α → scope.Target → Cursor → Prop} (hst : At opened st)
    (hbody : ∀ signal st, π.Answers opened scope signal → At (scope :: opened) st →
      Ends (body signal) (scope.empty, ⟨k, st⟩) fun a t' =>
        Q a t'.1 t'.2.cursor ∧ At (scope :: opened) t'.2.state) :
    Ends (within env source scope start body) ⟨k, st⟩ fun r s' =>
      Q r.1 r.2 s'.cursor ∧ At opened s'.state := by
  obtain ⟨signal, st₁, henter, hanswer, hst₁⟩ :=
    hf.enter scope ⟨source, k.position⟩ scope.empty hst
  obtain ⟨a, ⟨target, k', st₂⟩, hrun, hQ, hst₂⟩ := hbody signal st₁ hanswer hst₁
  obtain ⟨answer, st₃, hleave, hst₃⟩ := hf.leave ⟨source, k'.position⟩ target hst₂
  refine ⟨(a, target), ⟨k', st₃⟩, ?_, hQ, hst₃⟩
  simp only [within, henter, hrun, hleave]

theorem resolve_ok {function : String} {arguments : List Value} {start : Nat} {k : Cursor}
    {st st' : σ} {v : Value}
    (h : env.resolve function arguments ⟨source, k.position⟩ st = (.ok v, st')) :
    resolve env source function arguments start ⟨k, st⟩ = (.ok v, ⟨k, st'⟩) := by
  simp only [resolve, h]
  rfl

/-- The evaluations of keys and of items get behind what is at most `n` characters long. -/
structure Reads (env : Environment σ) (π : Policy) (At : List Scope → σ → Prop)
    (source : Source) (n : Nat) (force : Bool) (key item : Eval σ Value) : Prop where
  value {t : Tree} {s : List Char} {k k' : Cursor} {opened : List Scope} {st : σ}
    (length : s.length ≤ n) (spelled : t.Spelled Word s) (passes : k.Passes s k')
    (ends : WordEnds k'.rest) (within : k.In source) (place : opened.head? ≠ some .map)
    (state : At opened st) :
    Ends item ⟨k, st⟩ fun v s' => Reading π force t v ∧ s'.cursor = k' ∧ At opened s'.state
  name {str : String} {s : List Char} {k k' : Cursor} {opened : List Scope} {st : σ}
    (length : s.length ≤ n) (spelled : KeySpelled Word str s) (passes : k.Passes s k')
    (ends : WordEnds k'.rest) (state : At opened st) :
    Ends key ⟨k, st⟩ fun v s' => v = .string str ∧ s'.cursor = k' ∧ At opened s'.state
  merged {es : List Entry} {s : List Char} {k k' : Cursor} {opened : List Scope} {st : σ}
    (length : s.length ≤ n) (spelled : Entry.Spelled Word (.merged es) s)
    (passes : k.Passes s k') (within : k.In source) (state : At (.map :: opened) st) :
    Ends key ⟨k, st⟩ fun v s' => (∃ m, v = .map m ∧ AddingAll π false es [] m) ∧
      s'.cursor = k' ∧ At (.map :: opened) s'.state

theorem endsListing_ok {terminator : Option Char} (ht : Scan.Terminator terminator)
    {why : ColonFault} {d : Scan.Separator} {sep : List Char} {k k' : Cursor}
    (hd : d = .comma ∨ d = .terminator) (hk : k.Passes sep k')
    (hsep : Scan.Separated terminator d sep k'.rest) (st : σ) :
    endsListing source terminator why ⟨k, st⟩ = (.ok (d == .terminator), ⟨k', st⟩) := by
  have hne : d = .colon → some why = none := by
    intro he
    subst he
    rcases hd with hd | hd <;> cases hd
  rw [endsListing, bind_ok (scan_ok (Scan.separator_of_separated ht hne hk hsep) st)]
  rfl

section Bodies

variable {n : Nat} {force : Bool} {key item : Eval σ Value} {terminator : Option Char}

theorem listBody_ends (hr : Reads env π At source n force key item)
    (ht : Scan.Terminator terminator) {ts : List Tree} {k k' : Cursor}
    (h : Inside (fun t u => t.Spelled Word u ∧ u.length ≤ n) terminator ts k k')
    (hin : k.In source) {opened : List Scope} (hopened : opened.head? ≠ some .map) {st : σ}
    (hst : At opened st) :
    Ends (listBody source item terminator) ([], ⟨k, st⟩) fun _ t' =>
      Readings π force ts t'.1 ∧ t'.2.cursor = k' ∧ At opened t'.2.state := by
  refine (listing_ends (At opened)
    (fun t vs vs' => ∃ v, Reading π force t v ∧ vs' = vs ++ [v]) ht
    (fun t u hu => hu.1.opens) ?_ h hin [] hst).mono ?_
  · intro t u sep d k k' vs st hu hk hd hsep hends hin hst
    obtain ⟨k₁, hk₁, hk'⟩ := hk.split
    refine (inside_ends (hr.value hu.2 hu.1 hk₁ (by rwa [hk'.rest]) hin hopened hst) vs).bind ?_
    intro v r h
    obtain ⟨vs, s₁⟩ := r
    obtain ⟨rfl, hv, rfl, hst₁⟩ := h
    refine ⟨_, (vs ++ [v], ⟨k', s₁.state⟩), ?_, rfl, ⟨v, hv, rfl⟩, rfl, hst₁⟩
    rw [bind_ok (edit_apply _ _ _)]
    exact inside_ok (endsListing_ok ht hd hk' hsep _) _
  · intro _ r h
    obtain ⟨vs, s'⟩ := r
    obtain ⟨hchain, hend⟩ := h
    obtain ⟨new, hnew, rfl⟩ := readings_of_chain hchain
    exact ⟨hnew, hend⟩

/-- The map with what is known about a key put into it, if anything is. -/
def putIf (key : String) : Option Value → Entries Value → Entries Value
  | some v, m => m.put key v
  | none, m => m

theorem putValue_apply (key : String) (v? : Option Value) (m : Entries Value)
    (s : Session σ) :
    (putValue key v? : Build (Entries Value) σ Unit) (m, s) = (.ok (), (putIf key v? m, s)) := by
  cases v? <;> rfl

theorem entryValue_ends (hf : env.Follows π At)
    (hr : Reads env π At source n force key item) (str : String) (start : Nat) {t : Tree}
    {s : List Char} {k k' : Cursor} (hn : s.length ≤ n) (hs : t.Spelled Word s)
    (hk : k.Passes s k') (hend : WordEnds k'.rest) (hin : k.In source)
    {opened : List Scope} {st : σ} (hst : At opened st) :
    Ends (entryValue env source str start item) ⟨k, st⟩ fun v? s' =>
      (∀ m, Adding π force (.pair str t) m (putIf str v? m)) ∧ s'.cursor = k' ∧
        At opened s'.state := by
  refine (within_ends hf source _ _ _ (Q := fun v? _ k₁ =>
    (∀ m, Adding π force (.pair str t) m (putIf str v? m)) ∧ k₁ = k') hst ?_).bind ?_
  · intro signal st hanswer hst
    have skimmed : (signal : Signal) → (inside do
          let first ← position
          scan source Scan.skimExpression
          let last ← position
          return if signal = .fragment then some (.fragment (.ofOffsets source first last))
            else none : Build Unit σ (Option Value)) ((), ⟨k, st⟩) =
        (.ok (if signal = .fragment then
          some (.fragment (.ofOffsets source k.position k'.position)) else none),
          ((), ⟨k', st⟩)) := by
      intro signal
      refine inside_ok ?_ ()
      rw [bind_ok (position_apply _),
        bind_ok (scan_ok (Scan.skimExpression_of_spelled hs hk hend) st)]
      rfl
    cases signal with
    | proceed =>
      obtain ⟨v, s₁, hrun, hv, hk₁, hst₁⟩ := hr.value hn hs hk hend hin (by simp) hst
      refine ⟨some v, ((), s₁), ?_, ⟨fun m => .pair hanswer hv, hk₁⟩, hst₁⟩
      dsimp only
      rw [map_apply, inside_ok hrun]
    | skip =>
      exact .of_ok (skimmed .skip) ⟨⟨fun m => .skippedPair hanswer, rfl⟩, hst⟩
    | fragment =>
      refine .of_ok (skimmed .fragment) ⟨⟨fun m => ?_, rfl⟩, hst⟩
      obtain ⟨htext, hspan⟩ := hk.ofOffsets hin
      exact .deferred hanswer ⟨by rwa [htext], hspan⟩
  · intro r s' h
    obtain ⟨v?, ⟨⟩⟩ := r
    obtain ⟨⟨hv, hk'⟩, hst'⟩ := h
    exact ⟨v?, s', rfl, hv, hk', hst'⟩

theorem bareEntry_ends (hf : env.Follows π At) (source : Source) (str : String) (start : Nat)
    (force : Bool) (k : Cursor) {opened : List Scope} {st : σ} (hst : At opened st) :
    Ends (bareEntry env source str start) ⟨k, st⟩ fun v? s' =>
      (∀ m, Adding π force (.bare str) m (putIf str v? m)) ∧ s'.cursor = k ∧
        At opened s'.state := by
  refine (within_ends hf source _ _ _ (Q := fun kept _ k₁ =>
    (∀ m, Adding π force (.bare str) m (putIf str (if kept then some (.boolean true) else none)
      m)) ∧ k₁ = k) hst ?_).bind ?_
  · intro signal st hanswer hst
    refine ⟨signal != .skip, ((), ⟨k, st⟩), rfl, ⟨fun m => ?_, rfl⟩, hst⟩
    cases signal with
    | skip => exact .skippedBare hanswer
    | proceed | fragment => exact .bare hanswer (by simp)
  · intro r s' h
    obtain ⟨kept, ⟨⟩⟩ := r
    obtain ⟨⟨hv, hk'⟩, hst'⟩ := h
    exact ⟨_, s', rfl, hv, hk', hst'⟩

/-- What is read in place of a key, if it is no call, and the separator behind it. -/
theorem keyOrCall_ends (env : Environment σ) (source : Source) {Q : Value → Prop}
    {R : σ → Prop} {k k' : Cursor} {st : σ}
    (h : Ends key ⟨k, st⟩ fun v s' => Q v ∧ s'.cursor = k' ∧ R s'.state)
    (hcall : ∀ f arguments, ¬Q (.call f arguments)) :
    Ends (keyOrCall env source key) ⟨k, st⟩ fun r s' =>
      (Q r.1 ∧ r.2 = false) ∧ s'.cursor = k' ∧ R s'.state := by
  obtain ⟨v, s', hrun, hv, hend⟩ := h
  refine ⟨(v, false), s', ?_, ⟨hv, rfl⟩, hend⟩
  rw [keyOrCall, bind_ok (position_apply _), bind_ok hrun]
  cases v with
  | call f arguments => exact absurd hv (hcall f arguments)
  | _ => rfl

/-- An entry of a map is read with the separator behind it. -/
theorem mapEntry_ends (hf : env.Follows π At) (hr : Reads env π At source n force key item)
    (ht : Scan.Terminator terminator) {e : Entry} {u sep : List Char} {d : Scan.Separator}
    {k k' : Cursor} {m : Entries Value} {opened : List Scope} {st : σ} (hn : u.length ≤ n)
    (he : e.Spelled Word u) (hk : k.Passes (u ++ sep) k') (hd : d = .comma ∨ d = .terminator)
    (hsep : Scan.Separated terminator d sep k'.rest) (hends : WordEnds (sep ++ k'.rest))
    (hin : k.In source) (hst : At (.map :: opened) st) :
    Ends (mapEntry env source key item terminator) (m, ⟨k, st⟩) fun last t' =>
      last = (d == .terminator) ∧ Adding π force e m t'.1 ∧ t'.2.cursor = k' ∧
        At (.map :: opened) t'.2.state := by
  have hd' : d ≠ .colon := by
    intro he
    subst he
    rcases hd with hd | hd <;> cases hd
  have hseparator : ∀ {k₁ : Cursor}, k₁.Passes sep k' →
      Scan.separator terminator none k₁ = (.ok d, k') :=
    fun hk => Scan.separator_of_separated ht (fun _ => rfl) hk hsep
  cases he with
  | @bare str _ hkey =>
    obtain ⟨k₁, hk₁, hk'⟩ := hk.split
    obtain ⟨⟨v, called⟩, ⟨k₁, st₁⟩, hrun, ⟨rfl, rfl⟩, rfl, hst₁⟩ :=
      keyOrCall_ends env source
        (hr.name hn hkey hk₁ (by rwa [hk'.rest]) hst) (by simp)
    obtain ⟨v?, ⟨k', st₂⟩, hbare, hadding, rfl, hst₂⟩ :=
      bareEntry_ends hf source str k.position force k' hst₁
    refine ⟨d == .terminator, (putIf str v? m, ⟨k', st₂⟩), ?_, rfl, hadding m, rfl, hst₂⟩
    have hlone : loneEntry env source k.position (.string str, false) (m, ⟨k', st₁⟩) =
        (.ok (), (putIf str v? m, ⟨k', st₂⟩)) := by
      rw [loneEntry, bind_ok (inside_ok hbare m), putValue_apply]
    rw [mapEntry_lone hrun (hseparator hk') hd', bind_ok hlone]
    rfl
  | @merged es g s b hg hs =>
    obtain ⟨k₁, hk₁, hk'⟩ := hk.split
    obtain ⟨⟨v, called⟩, ⟨k₁, st₁⟩, hrun, ⟨⟨new, rfl, hnew⟩, rfl⟩, rfl, hst₁⟩ :=
      keyOrCall_ends env source
        (hr.merged hn (.merged hg hs) hk₁ hin hst) (by simp)
    refine ⟨d == .terminator, (Entries.putAll new m, ⟨k', st₁⟩), ?_, rfl, .merged hnew, rfl,
      hst₁⟩
    rw [mapEntry_lone hrun (hseparator hk') hd', loneEntry, bind_ok (edit_apply _ _ _)]
    rfl
  | @pair str s g g' v t b b' hkey hg hg' hv =>
    have hu : s ++ g ++ ':' :: g' ++ v ++ sep = (s ++ (g ++ ':' :: g')) ++ (v ++ sep) := by simp
    rw [hu] at hk
    simp only [List.length_append, List.length_cons] at hn
    obtain ⟨k₂, hk₂, hk'⟩ := hk.split
    obtain ⟨k₁, hk₁, hcolon⟩ := hk₂.split
    have hopens : Text.Opens k₂.rest := by
      rw [hk'.rest, List.append_assoc]
      exact hv.opens.append _
    have hne : k₂.rest.head? ≠ some '(' := hopens.head_ne rfl
    have hsep' : Scan.Separated terminator .colon (g ++ ':' :: g') k₂.rest :=
      .colon hg (hg'.before hopens.solid)
    obtain ⟨k₃, hk₃, hk₄⟩ := hk'.split
    obtain ⟨⟨_, called⟩, ⟨k₁, st₁⟩, hrun, ⟨rfl, rfl⟩, rfl, hst₁⟩ :=
      keyOrCall_ends env source
        (hr.name (by omega) hkey hk₁ (by
          rw [hcolon.rest]
          exact hsep'.wordEnds ht hne) hst) (by simp)
    obtain ⟨v?, ⟨k₃, st₂⟩, hvalue, hadding, rfl, hst₂⟩ :=
      entryValue_ends hf hr str k.position (by omega) hv hk₃
        (by rwa [hk₄.rest]) (hk₂.In hin) hst₁
    refine ⟨d == .terminator, (putIf str v? m, ⟨k', st₂⟩), ?_, rfl, hadding m, rfl, hst₂⟩
    rw [mapEntry_pair hrun (Scan.separator_of_separated ht (fun _ => rfl) hcolon hsep')
      hopens.ne_nil rfl, bind_ok (inside_ok hvalue m), bind_ok (putValue_apply _ _ _ _)]
    exact inside_ok (endsListing_ok ht hd hk₄ hsep st₂) _

theorem mapBody_ends (hf : env.Follows π At) (hr : Reads env π At source n force key item)
    (ht : Scan.Terminator terminator) {es : List Entry} {k k' : Cursor}
    (h : Inside (fun e u => e.Spelled Word u ∧ u.length ≤ n) terminator es k k')
    (hin : k.In source) {opened : List Scope} {st : σ} (hst : At (.map :: opened) st) :
    Ends (mapBody env source key item terminator) ([], ⟨k, st⟩) fun _ t' =>
      AddingAll π force es [] t'.1 ∧ t'.2.cursor = k' ∧ At (.map :: opened) t'.2.state := by
  rw [mapBody_eq]
  refine (listing_ends (At (.map :: opened)) (Adding π force) ht
    (fun e u hu => hu.1.opens) ?_ h hin [] hst).mono ?_
  · intro e u sep d k k' m st hu hk hd hsep hends hin hst
    exact mapEntry_ends hf hr ht hu.2 hu.1 hk hd hsep hends hin hst
  · intro _ t' h
    obtain ⟨hchain, hend⟩ := h
    exact ⟨addingAll_of_chain hchain, hend⟩

theorem list_ends (hf : env.Follows π At) (hr : Reads env π At source n force key item)
    {ts : List Tree} {g s : List Char} {b : Bool} {k k' : Cursor} (hg : Gap b g)
    (hs : Listed (Tree.Spelled Word) ts s) (hn : s.length ≤ n)
    (hk : k.Passes ('[' :: g ++ s ++ [']']) k') (hin : k.In source) {opened : List Scope}
    {st : σ} (hst : At opened st) :
    Ends (Eval.list env source item) ⟨k, st⟩ fun v s' =>
      Reading π force (.list ts) v ∧ s'.cursor = k' ∧ At opened s'.state := by
  have hk₁ := hk.next
  obtain ⟨k₂, hinside, hk₂⟩ :=
    inside_of_bracket Scan.Terminator.bracket (fun _ _ h => h.opens) hg hs hn hk₁.2
  obtain ⟨⟨⟨⟩, vs⟩, ⟨k₂, st₂⟩, hrun, ⟨hvs, rfl⟩, hst₂⟩ :=
    within_ends hf source .list k.next.position (fun _ => listBody source item (some ']'))
      (Q := fun _ vs k => Readings π force ts vs ∧ k = k₂) hst fun _ st _ hst =>
        (listBody_ends hr Scan.Terminator.bracket hinside (hk₁.1.In hin) (by simp) hst).mono
          fun _ _ h => ⟨⟨h.1, h.2.1⟩, h.2.2⟩
  refine ⟨.list vs, ⟨k', st₂⟩, ?_, .list hvs, rfl, hst₂⟩
  rw [Eval.list, bind_ok (scan_ok (Scan.advance_apply k) st), bind_ok (position_apply _),
    bind_ok hrun]
  dsimp only
  rw [bind_ok (scan_ok (Scan.advance_apply k₂) st₂), hk₂.next.1.unique hk₂]
  rfl

/-- A map is read, or its text is kept as a fragment. -/
theorem map_ends (hf : env.Follows π At) (hr : Reads env π At source n force key item)
    {es : List Entry} {g s : List Char} {b : Bool} {k k' : Cursor} (hg : Gap b g)
    (hs : Listed (Entry.Spelled Word) es s) (hn : s.length ≤ n)
    (hk : k.Passes ('\x7b' :: g ++ s ++ ['\x7d']) k') (hin : k.In source)
    {opened : List Scope} {st : σ} (hst : At opened st) :
    Ends (Eval.map env source key item) ⟨k, st⟩ fun v s' =>
      ((π.Answers opened .map .proceed ∧ ∃ m, v = .map m ∧ AddingAll π force es [] m) ∨
        ∃ signal f, π.Answers opened .map signal ∧ signal ≠ .proceed ∧ v = .fragment f ∧
          f.Spells (.map es)) ∧
      s'.cursor = k' ∧ At opened s'.state := by
  have hk₁ := hk.next
  obtain ⟨k₂, hinside, hk₂⟩ :=
    inside_of_bracket Scan.Terminator.brace (fun _ _ h => h.opens) hg hs hn hk₁.2
  have hskim : Scan.skimListing Scan.skimExpression '\x7d' k.next = (.ok (), k₂) := by
    refine Scan.skimListing_of_inside (by simp) ?_ (fun _ _ _ => .of_entries Scan.Terminator.brace)
      hinside
    intro u k k' h hk hend
    obtain ⟨t, ht, -⟩ := h
    exact Scan.skimExpression_of_spelled ht hk hend
  have hposition : k₂.position + 1 = k'.position := by
    rw [hk₂.position]
    rfl
  let Result (fragment? : Option Fragment) (m : Entries Value) : Prop :=
    (π.Answers opened .map .proceed ∧ fragment? = none ∧ AddingAll π force es [] m) ∨
      ∃ signal f, π.Answers opened .map signal ∧ signal ≠ .proceed ∧ fragment? = some f ∧
        f.Spells (.map es)
  have skimmed : ∀ signal st, π.Answers opened .map signal → signal ≠ .proceed →
      At (.map :: opened) st → Ends (inside (do
        scan source (Scan.skimListing Scan.skimExpression '\x7d')
        return some (Fragment.ofOffsets source k.position ((← position) + 1))) :
          Build (Entries Value) σ (Option Fragment)) ([], ⟨k.next, st⟩) fun fragment? t' =>
        (Result fragment? t'.1 ∧ t'.2.cursor = k₂) ∧ At (.map :: opened) t'.2.state := by
    intro signal st hanswer hsignal hst
    refine ⟨some (.ofOffsets source k.position (k₂.position + 1)), ([], ⟨k₂, st⟩), ?_,
      ⟨.inr ⟨signal, _, hanswer, hsignal, rfl, ?_⟩, rfl⟩, hst⟩
    · refine inside_ok ?_ []
      rw [bind_ok (scan_ok hskim st), bind_ok (position_apply _)]
      rfl
    · obtain ⟨htext, hspan⟩ := hk.ofOffsets hin
      rw [hposition]
      exact ⟨by rw [htext]; exact .map hg hs, hspan⟩
  have hstart : (scan source Scan.advance : Eval σ Unit) ⟨k, st⟩ = (.ok (), ⟨k.next, st⟩) :=
    scan_ok (Scan.advance_apply k) st
  rw [Eval.map, Ends, bind_ok (position_apply _), bind_ok hstart, bind_ok (position_apply _)]
  refine (within_ends hf source .map _ _
    (Q := fun fragment? m k₁ => Result fragment? m ∧ k₁ = k₂) hst ?_).bind ?_
  · intro signal st hanswer hst
    cases signal with
    | proceed =>
      obtain ⟨_, ⟨m, s₂⟩, hrun, hm, hk₂, hst₂⟩ :=
        mapBody_ends hf hr Scan.Terminator.brace hinside (hk₁.1.In hin) hst
      refine ⟨none, (m, s₂), ?_, ⟨.inl ⟨hanswer, rfl, hm⟩, hk₂⟩, hst₂⟩
      exact bind_ok hrun
    | skip => exact skimmed .skip st hanswer (by simp) hst
    | fragment => exact skimmed .fragment st hanswer (by simp) hst
  · intro r r' h
    obtain ⟨fragment?, m⟩ := r
    obtain ⟨k₂, st₂⟩ := r'
    obtain ⟨⟨hresult, rfl⟩, hst₂⟩ := h
    have hend : (scan source Scan.advance : Eval σ Unit) ⟨k₂, st₂⟩ = (.ok (), ⟨k', st₂⟩) := by
      rw [← hk₂.next.1.unique hk₂]
      exact scan_ok (Scan.advance_apply k₂) st₂
    rw [Ends]
    dsimp only
    rw [bind_ok hend]
    rcases hresult with ⟨hanswer, rfl, hm⟩ | ⟨signal, f, hanswer, hsignal, rfl, hf⟩
    · exact ⟨.map m, ⟨k', st₂⟩, rfl, .inl ⟨hanswer, m, rfl, hm⟩, rfl, hst₂⟩
    · exact ⟨.fragment f, ⟨k', st₂⟩, rfl, .inr ⟨signal, f, hanswer, hsignal, rfl, hf⟩, rfl,
        hst₂⟩

theorem arguments_ends (hf : env.Follows π At) (hr : Reads env π At source n force key item)
    (function : String) (start : Nat) {ts : List Tree} {g s : List Char} {b : Bool}
    {k k' : Cursor} (hg : Gap b g) (hs : Listed (Tree.Spelled Word) ts s) (hn : s.length ≤ n)
    (hk : k.Passes (g ++ s ++ [')']) k') (hin : k.In source) {opened : List Scope} {st : σ}
    (hst : At opened st) :
    Ends (Eval.arguments env source function start item) ⟨k, st⟩ fun vs s' =>
      Readings π force ts vs ∧ s'.cursor = k' ∧ At opened s'.state := by
  obtain ⟨k₂, hinside, hk₂⟩ :=
    inside_of_bracket Scan.Terminator.parenthesis (fun _ _ h => h.opens) hg hs hn hk
  rw [Eval.arguments]
  refine (within_ends hf source (.arguments function) start _
    (Q := fun vs _ k => Readings π force ts vs ∧ k = k₂) hst ?_).bind ?_
  · intro _ st _ hst
    obtain ⟨_, ⟨vs, s₂⟩, hbody, hvs, hk₂, hst₂⟩ :=
      listBody_ends hr Scan.Terminator.parenthesis hinside hin (by simp) hst
    refine ⟨vs, ((), s₂), inside_ok ?_ (), ⟨hvs, hk₂⟩, hst₂⟩
    rw [bind_ok (building_ok hbody)]
    rfl
  · intro r r' h
    obtain ⟨vs, ⟨⟩⟩ := r
    obtain ⟨k₂, st₂⟩ := r'
    obtain ⟨⟨hvs, rfl⟩, hst₂⟩ := h
    refine ⟨vs, ⟨k', st₂⟩, ?_, hvs, rfl, hst₂⟩
    dsimp only
    rw [bind_ok (scan_ok (Scan.advance_apply k₂) st₂), hk₂.next.1.unique hk₂]
    rfl

end Bodies

section Expressions

variable (env) (source) (x : Char) (room : List Char) (role : Role)

/-- No expression is read where the text has ended. -/
theorem expression_end {s : Session σ} (hr : s.cursor.rest = []) :
    expression env source room role s =
      (.error (.internal "An expression was evaluated past the end of the text."), s) := by
  cases room with
  | nil => rfl
  | cons x room =>
    rw [expression, bind_ok (position_apply _), bind_ok (get_apply _)]
    dsimp only
    rw [hr]
    rfl

theorem expression_map {k : Cursor} {t : List Char} (hk : k.rest = '\x7b' :: t) (st : σ) :
    expression env source (x :: room) role ⟨k, st⟩ =
      Eval.map env source (expression env source room .key)
        (expression env source room (.value role.force)) ⟨k, st⟩ := by
  rw [expression, bind_ok (position_apply _), bind_ok (get_apply _)]
  dsimp only
  rw [hk]
  rfl

theorem expression_list {k : Cursor} {t : List Char} (hk : k.rest = '[' :: t) (st : σ) :
    expression env source (x :: room) role ⟨k, st⟩ =
      Eval.list env source (expression env source room (.value role.force)) ⟨k, st⟩ := by
  rw [expression, bind_ok (position_apply _), bind_ok (get_apply _)]
  dsimp only
  rw [hk]
  rfl

theorem expression_quoted {q : Char} (hq : q = '"' ∨ q = '\'') {k : Cursor} {t : List Char}
    (hk : k.rest = q :: t) (st : σ) :
    expression env source (x :: room) role ⟨k, st⟩ =
      (Value.string <$> scan source (Scan.quoted q)) ⟨k, st⟩ := by
  rw [expression, bind_ok (position_apply _), bind_ok (get_apply _)]
  dsimp only
  rw [hk]
  rcases hq with rfl | rfl
  · rfl
  · rfl

theorem expression_raw {q : Char} (hq : q = '"' ∨ q = '\'') {k : Cursor} {t : List Char}
    (hk : k.rest = 'r' :: q :: t) (st : σ) :
    expression env source (x :: room) role ⟨k, st⟩ =
      (Value.string <$> scan source (Scan.raw q)) ⟨k, st⟩ := by
  rw [expression, bind_ok (position_apply _), bind_ok (get_apply _)]
  dsimp only
  rw [hk]
  rcases hq with rfl | rfl
  · rfl
  · rfl

theorem expression_literal {str : String} {s : List Char} {k k' : Cursor}
    (hs : Literal str s) (hk : k.Passes s k') (st : σ) :
    expression env source (x :: room) role ⟨k, st⟩ = (.ok (.string str), ⟨k', st⟩) := by
  cases hs with
  | quoted hq hs =>
    rw [expression_quoted env source x room role hq hk.rest, map_apply,
      scan_ok (Scan.quoted_of_spells hq hk hs) st]
  | raw hq hs =>
    rw [expression_raw env source x room role hq hk.rest, map_apply,
      scan_ok (Scan.raw_of_content hk hs) st]

/-- How words and calls are evaluated. -/
def wordExpression (start : Nat) : Eval σ Value := do
  let (w, called) ← scan source Scan.wordOrCall
  if called then
    let function := String.ofList w
    let items ← arguments env source function start
      (expression env source room (.value role.force))
    if role = .key then
      return .call function items
    resolve env source function items start
  else
    return if role = .value false then .ofWord w else .string (.ofList w)

/-- Whatever does not begin with a bracket or a quote is read as a word. -/
theorem expression_other {k : Cursor} (hne : k.rest ≠ [])
    (hmark : ∀ c ∈ ['\x7b', '[', '"', '\''], k.rest.head? ≠ some c)
    (hraw : ∀ q t, q = '"' ∨ q = '\'' → k.rest ≠ 'r' :: q :: t) (st : σ) :
    expression env source (x :: room) role ⟨k, st⟩ =
      wordExpression env source room role k.position ⟨k, st⟩ := by
  rw [expression, bind_ok (position_apply _), bind_ok (get_apply _)]
  dsimp only
  generalize k.rest = r at hne hmark hraw
  split
  · exact absurd rfl hne
  · exact absurd rfl (hmark _ (by decide))
  · exact absurd rfl (hmark _ (by decide))
  · exact absurd rfl (hmark _ (by decide))
  · exact absurd rfl (hmark _ (by decide))
  · exact absurd rfl (hraw '"' _ (.inl rfl))
  · exact absurd rfl (hraw '\'' _ (.inr rfl))
  · rfl

theorem expression_word {k : Cursor} (hk : Text.BeginsWord k.rest) (st : σ) :
    expression env source (x :: room) role ⟨k, st⟩ =
      wordExpression env source room role k.position ⟨k, st⟩ := by
  obtain ⟨c, t, hr, hc, hraw⟩ := hk
  apply expression_other
  · simp [hr]
  · intro d hd he
    rw [hr, List.head?_cons, Option.some.injEq] at he
    subst he
    simp only [List.mem_cons, List.not_mem_nil, or_false] at hd
    rcases hd with rfl | rfl | rfl | rfl <;> revert hc <;> decide
  · intro q t' hq he
    rw [hr, List.cons.injEq] at he
    obtain ⟨rfl, rfl⟩ := he
    exact hraw q hq rfl rfl

theorem expression_of_word {w : List Char} {k k' : Cursor} (hw : Word w) (hk : k.Passes w k')
    (hend : WordEnds k'.rest) (st : σ) :
    expression env source (x :: room) role ⟨k, st⟩ =
      (.ok (if role = .value false then .ofWord w else .string (.ofList w)), ⟨k', st⟩) := by
  have hbegins : Text.BeginsWord k.rest := by
    rw [hk.rest]
    exact hw.begins hend.1
  rw [expression_word env source x room role hbegins, wordExpression,
    bind_ok (scan_ok (Scan.wordOrCall_word hk hw hend) st)]
  rfl

end Expressions

/-- A call is read with its arguments, and then left to the environment. -/
theorem call_ends (hf : env.Follows π At) {force : Bool} {room : List Char}
    (hr : Reads env π At source room.length force (expression env source room .key)
      (expression env source room (.value force))) (x : Char)
    {f g g' s : List Char} {ts : List Tree} {b b' : Bool} {k k' : Cursor} (hfun : Word f)
    (hg : Gap b g) (hg' : Gap b' g') (hs : Listed (Tree.Spelled Word) ts s)
    (hn : s.length ≤ room.length) (hk : k.Passes (f ++ g ++ '(' :: g' ++ s ++ [')']) k')
    (hin : k.In source) {opened : List Scope} {st : σ} (hst : At opened st) :
    Ends (expression env source (x :: room) (.value force)) ⟨k, st⟩ fun v s' =>
      Reading π force (.call f ts) v ∧ s'.cursor = k' ∧ At opened s'.state := by
  have he : f ++ g ++ '(' :: g' ++ s ++ [')'] = (f ++ g ++ ['(']) ++ (g' ++ s ++ [')']) := by
    simp
  rw [he] at hk
  obtain ⟨k₁, hk₁, hk'⟩ := hk.split
  have hbegins : Text.BeginsWord k.rest := by
    rw [hk₁.rest, List.append_assoc, List.append_assoc]
    exact hfun.begins_call hg
  obtain ⟨vs, ⟨k', st₂⟩, hrun, hvs, rfl, hst₂⟩ :=
    arguments_ends hf hr (.ofList f) k.position hg' hs hn hk' (hk₁.In hin) hst
  obtain ⟨v, st₃, hresolve, hanswer, hst₃⟩ :=
    hf.resolve (.ofList f) vs ⟨source, k'.position⟩ hst₂
  refine ⟨v, ⟨k', st₃⟩, ?_, .call hvs hanswer, rfl, hst₃⟩
  rw [expression_word env source x room _ hbegins, wordExpression,
    bind_ok (scan_ok (Scan.wordOrCall_call hk₁ hfun hg) st)]
  dsimp only
  rw [if_pos rfl]
  refine (bind_ok hrun).trans ?_
  rw [if_neg (by simp)]
  exact resolve_ok hresolve

/-- Expressions are evaluated as they are spelled. -/
theorem expression_reads (hf : env.Follows π At) (room : List Char) (force : Bool) :
    Reads env π At source room.length force (expression env source room .key)
      (expression env source room (.value force)) := by
  induction room generalizing force with
  | nil =>
    have empty : ∀ {s : List Char}, s.length ≤ 0 → ¬Text.Opens s := by
      intro s hs h
      obtain ⟨c, r, rfl, -⟩ := h
      cases hs
    constructor
    · intro t s k k' opened st hn hs
      exact absurd hs.opens (empty hn)
    · intro str s k k' opened st hn hs
      exact absurd hs.opens (empty hn)
    · intro es s k k' opened st hn hs
      exact absurd hs.opens (empty hn)
  | cons x room ih =>
    constructor
    · intro t s k k' opened st hn hs hk hend hin hopened hst
      rw [List.length_cons] at hn
      cases hs with
      | word hw =>
        refine .of_ok (expression_of_word env source x room _ hw hk hend st) ⟨?_, rfl, hst⟩
        have hreading : Reading π force (.word s)
            (if force then .string (.ofList s) else .ofWord s) := .word
        cases force <;> exact hreading
      | literal hl =>
        exact .of_ok (expression_literal env source x room _ hl hk st) ⟨.literal, rfl, hst⟩
      | @list items g s b hg hs =>
        simp only [List.length_append, List.length_cons] at hn
        rw [Ends, expression_list env source x room _ hk.rest]
        exact list_ends hf (ih force) hg hs (by omega) hk hin hst
      | @map entries g s b hg hs =>
        simp only [List.length_append, List.length_cons] at hn
        rw [Ends, expression_map env source x room _ hk.rest]
        refine (map_ends hf (ih force) hg hs (by omega) hk hin hst).mono ?_
        intro v s' h
        obtain ⟨⟨hanswer, m, rfl, hm⟩ | ⟨signal, f, hanswer, hsignal, rfl, hf⟩, hend⟩ := h
        · exact ⟨.map (Policy.map_of_answers hanswer hopened) hm, hend⟩
        · exact ⟨.fragment (Policy.map_of_answers hanswer hopened) hsignal hf, hend⟩
      | @call f g g' s ts b b' hfun hg hg' hs =>
        simp only [List.length_append, List.length_cons] at hn
        exact call_ends hf (ih force) x hfun hg hg' hs (by omega) hk hin hst
    · intro str s k k' opened st hn hs hk hend hst
      cases hs with
      | word hw =>
        exact .of_ok (expression_of_word env source x room _ hw hk hend st) ⟨rfl, rfl, hst⟩
      | literal hl =>
        exact .of_ok (expression_literal env source x room _ hl hk st) ⟨rfl, rfl, hst⟩
    · intro es s k k' opened st hn hs hk hin hst
      cases hs with
      | @merged _ g s b hg hs =>
        simp only [List.length_append, List.length_cons] at hn
        rw [Ends, expression_map env source x room _ hk.rest]
        refine (map_ends hf (ih false) hg hs (by omega) hk hin hst).mono ?_
        intro v s' h
        obtain ⟨⟨-, m, rfl, hm⟩ | ⟨signal, f, hanswer, hsignal, -⟩, hend⟩ := h
        · exact ⟨⟨m, rfl, hm⟩, hend⟩
        · exact absurd hanswer hsignal

theorem anyExpression_reads (hf : env.Follows π At) (n : Nat) (force : Bool) :
    Reads env π At source n force (anyExpression env source .key)
      (anyExpression env source (.value force)) := by
  have enough : ∀ {s : List Char} {k k' : Cursor}, k.Passes s k' → s.length ≤ k.rest.length := by
    intro s k k' hk
    rw [hk.length]
    omega
  constructor
  · intro t s k k' opened st _ hs hk hend hin hopened hst
    exact (expression_reads hf k.rest force).value (enough hk) hs hk hend hin hopened hst
  · intro str s k k' opened st _ hs hk hend hst
    exact (expression_reads hf k.rest force).name (enough hk) hs hk hend hst
  · intro es s k k' opened st _ hs hk hin hst
    exact (expression_reads hf k.rest force).merged (enough hk) hs hk hin hst

theorem single_ends (hf : env.Follows π At) (force : Bool) {t : Tree} {k : Cursor} {st : σ}
    (h : Sole (t.Spelled Word) k.rest) (hin : k.In source) (hst : At [] st) :
    Ends (single env source force) ⟨k, st⟩ fun v s' => Reading π force t v ∧ At [] s'.state := by
  obtain ⟨b, g, s, b', g', hg, hs, hg', htext⟩ := h
  have hend : k.Passes (g ++ s ++ g') ⟨k.position + Text.size (g ++ s ++ g'), []⟩ :=
    ⟨by rw [htext, List.append_nil], rfl⟩
  obtain ⟨k₂, hk₂, hk'⟩ := hend.split
  obtain ⟨k₁, hk₁, hk₂⟩ := hk₂.split
  have hopens : Text.Opens k₁.rest := by
    rw [hk₂.rest]
    exact hs.opens.append _
  have hword : WordEnds k₂.rest := by
    rw [hk'.rest]
    refine hg'.wordEnds ?_ (by simp)
    intro _ c hc
    cases hc
  obtain ⟨v, ⟨k₂, st₂⟩, hrun, hv, rfl, hst₂⟩ :=
    (anyExpression_reads hf s.length force).value (Nat.le_refl _) hs hk₂ hword (hk₁.In hin)
      (by simp) hst
  refine ⟨v, ⟨⟨k.position + Text.size (g ++ s ++ g'), []⟩, st₂⟩, ?_, hv, hst₂⟩
  rw [single, bind_ok (scan_ok (Scan.gap_eq_ok.mpr ⟨g, hk₁, hg.before hopens.solid⟩) st),
    bind_ok (scan_ok (Scan.peek_apply k₁) st), if_neg (by simpa using hopens.ne_nil)]
  refine (bind_ok hrun).trans ?_
  rw [bind_ok (scan_ok (Scan.gap_eq_ok.mpr ⟨g', hk', hg'⟩) st₂),
    bind_ok (scan_ok (Scan.peek_apply _) st₂), if_neg (by simp)]
  rfl

theorem openList_ends (hf : env.Follows π At) (force : Bool) {ts : List Tree} {k : Cursor}
    {st : σ} (h : Layout (Tree.Spelled Word) ts k.rest) (hin : k.In source) (hst : At [] st) :
    Ends (openList env source force) ⟨k, st⟩ fun vs s' =>
      Readings π force ts vs ∧ At [] s'.state := by
  obtain ⟨k', hinside⟩ := (inside_text_iff (p := k.position) fun t u hu => hu.1.opens).mpr
    h.bounded
  obtain ⟨⟨⟨⟩, vs⟩, s₂, hrun, hvs, hst₂⟩ :=
    within_ends hf source .list k.position
      (fun _ => listBody source (anyExpression env source (.value force)) none)
      (Q := fun _ vs _ => Readings π force ts vs) hst fun _ st _ hst =>
        (listBody_ends (anyExpression_reads hf _ force) Scan.Terminator.ofText hinside hin (by simp)
          hst).mono fun _ _ h => ⟨h.1, h.2.2⟩
  refine ⟨vs, s₂, ?_, hvs, hst₂⟩
  rw [openList, bind_ok (position_apply _)]
  exact bind_ok hrun

theorem openMap_ends (hf : env.Follows π At) (force : Bool) {es : List Entry} {k : Cursor}
    {st : σ} (h : Layout (Entry.Spelled Word) es k.rest) (hin : k.In source) (hst : At [] st) :
    Ends (openMap env source force) ⟨k, st⟩ fun m s' =>
      AddingAll π force es [] m ∧ At [] s'.state := by
  obtain ⟨k', hinside⟩ := (inside_text_iff (p := k.position) fun t u hu => hu.1.opens).mpr
    h.bounded
  obtain ⟨⟨⟨⟩, m⟩, s₂, hrun, hm, hst₂⟩ :=
    within_ends hf source .map k.position
      (fun _ => mapBody env source (anyExpression env source .key)
        (anyExpression env source (.value force)) none)
      (Q := fun _ m _ => AddingAll π force es [] m) hst fun _ st _ hst =>
        (mapBody_ends hf (anyExpression_reads hf _ force) Scan.Terminator.ofText hinside hin
          hst).mono fun _ _ h => ⟨h.1, h.2.2⟩
  refine ⟨m, s₂, ?_, hm, hst₂⟩
  rw [openMap, bind_ok (position_apply _)]
  exact bind_ok hrun

theorem run_ok {x : Eval σ α} {k : Cursor} {st : σ} {a : α} {s' : Session σ}
    (h : x ⟨k, st⟩ = (.ok a, s')) : x.run k st = (.ok a, s'.state) := by
  simp only [run, h]

end Eval

section EntryPoints

open Eval

variable {σ : Type} {env : Environment σ} {π : Policy} {At : List Scope → σ → Prop}
  {force : Bool} {st : σ}

/-- A text with one expression in it is evaluated to one of the expression's readings. -/
theorem evaluate_ends (hf : env.Follows π At) {source : Source} {t : Tree}
    (h : Sole (t.Spelled Word) source.text) (hst : At [] st) :
    ∃ v st', evaluate env force source st = (.ok v, st') ∧ Reading π force t v := by
  obtain ⟨v, s', hrun, hv, -⟩ := single_ends hf force h (.ofSource source) hst
  exact ⟨v, s'.state, run_ok hrun, hv⟩

theorem evaluateList_ends (hf : env.Follows π At) {source : Source} {ts : List Tree}
    (h : Layout (Tree.Spelled Word) ts source.text) (hst : At [] st) :
    ∃ vs st', evaluateList env force source st = (.ok vs, st') ∧
      Readings π force ts vs := by
  obtain ⟨vs, s', hrun, hvs, -⟩ := openList_ends hf force h (.ofSource source) hst
  exact ⟨vs, s'.state, run_ok hrun, hvs⟩

theorem evaluateMap_ends (hf : env.Follows π At) {source : Source} {es : List Entry}
    (h : Layout (Entry.Spelled Word) es source.text) (hst : At [] st) :
    ∃ m st', evaluateMap env force source st = (.ok m, st') ∧
      AddingAll π force es [] m := by
  obtain ⟨m, s', hrun, hm, -⟩ := openMap_ends hf force h (.ofSource source) hst
  exact ⟨m, s'.state, run_ok hrun, hm⟩

theorem evaluateFragment_ends (hf : env.Follows π At) {f : Fragment} {t : Tree}
    (h : f.Spells t) (hst : At [] st) :
    ∃ v st', evaluateFragment env force f st = (.ok v, st') ∧ Reading π force t v := by
  have hsole : Sole (t.Spelled Word) (Cursor.ofFragment f).rest := by
    refine ⟨false, [], f.text, false, [], .nil, h.1, Gap.nil.before .nil, ?_⟩
    simp [Cursor.ofFragment]
  obtain ⟨v, s', hrun, hv, -⟩ := single_ends hf force hsole h.2 hst
  exact ⟨v, s'.state, run_ok hrun, hv⟩

end EntryPoints

end Cjson
