import Cjson.Proofs.Bytewise.Skim

namespace Cjson

namespace Action

variable {ε τ α β γ χ : Type} {extend : τ → τ}

/-- From a state and from its extension both computations fail alike, or both give the same
result, of which `Q` holds, in a state and in its extension. -/
inductive Agrees (extend : τ → τ) (Q : α → τ → Prop) (x y : Action ε τ α) (t : τ) : Prop
  | error {e : ε} {t₁ t₂ : τ} (first : x t = (.error e, t₁))
      (second : y (extend t) = (.error e, t₂)) : Agrees extend Q x y t
  | ok {a : α} {t₁ : τ} (first : x t = (.ok a, t₁))
      (second : y (extend t) = (.ok a, extend t₁)) (holds : Q a t₁) : Agrees extend Q x y t

section Agrees

variable {Q : α → τ → Prop} {R : β → τ → Prop} {x y : Action ε τ α} {t t₁ : τ}

theorem agrees_pure {a : α} (h : Q a t) : Agrees extend Q (pure a : Action ε τ α) (pure a) t :=
  .ok rfl rfl h

theorem agrees_throw (e : ε) : Agrees extend Q (throw e : Action ε τ α) (throw e) t :=
  .error rfl rfl

theorem Agrees.congr {x' y' : Action ε τ α} (h : Agrees extend Q x' y' t)
    (hx : x t = x' t) (hy : y (extend t) = y' (extend t)) : Agrees extend Q x y t := by
  cases h with
  | error first second => exact .error (hx.trans first) (hy.trans second)
  | ok first second holds => exact .ok (hx.trans first) (hy.trans second) holds

theorem Agrees.mono {Q' : α → τ → Prop} (h : Agrees extend Q x y t)
    (hQ : ∀ a t₁, Q a t₁ → Q' a t₁) : Agrees extend Q' x y t := by
  cases h with
  | error first second => exact .error first second
  | ok first second holds => exact .ok first second (hQ _ _ holds)

theorem Agrees.of_false (h : Agrees extend (fun _ _ => False) x y t) : Agrees extend Q x y t :=
  h.mono fun _ _ hfalse => hfalse.elim

theorem Agrees.result_eq (h : Agrees extend Q x y t) : (x t).1 = (y (extend t)).1 := by
  cases h with
  | error first second => rw [first, second]
  | ok first second _ => rw [first, second]

theorem Agrees.of_ok (h : Agrees extend Q x y t) {a : α} (hx : x t = (.ok a, t₁)) : Q a t₁ := by
  cases h with
  | error first _ =>
    rw [first] at hx
    cases hx
  | ok first _ holds =>
    rw [first] at hx
    cases hx
    exact holds

theorem Agrees.bind {f g : α → Action ε τ β} (h : Agrees extend Q x y t)
    (hf : ∀ a t₁, Q a t₁ → Agrees extend R (f a) (g a) t₁) :
    Agrees extend R (x >>= f) (y >>= g) t := by
  cases h with
  | error first second => exact .error (bind_error first) (bind_error second)
  | ok first second holds =>
    cases hf _ _ holds with
    | error first' second' =>
      exact .error ((bind_ok first).trans first') ((bind_ok second).trans second')
    | ok first' second' holds' =>
      exact .ok ((bind_ok first).trans first') ((bind_ok second).trans second') holds'

/-- What is known of the first steps is not asked for again. -/
theorem agrees_ok_bind {f g : α → Action ε τ β} {a : α} (hx : x t = (.ok a, t₁))
    (hy : y (extend t) = (.ok a, extend t₁)) (hf : Agrees extend R (f a) (g a) t₁) :
    Agrees extend R (x >>= f) (y >>= g) t := by
  refine Agrees.bind (Q := fun a' t' => a' = a ∧ t' = t₁) (.ok hx hy ⟨rfl, rfl⟩) ?_
  rintro _ _ ⟨rfl, rfl⟩
  exact hf

theorem Agrees.map {f : α → β} (h : Agrees extend (fun a t₁ => R (f a) t₁) x y t) :
    Agrees extend R (f <$> x) (f <$> y) t := by
  cases h with
  | error first second =>
    exact .error (by rw [map_apply, first]) (by rw [map_apply, second])
  | ok first second holds =>
    exact .ok (by rw [map_apply, first]) (by rw [map_apply, second]) holds

theorem agrees_ite {p : Prop} [Decidable p] {x' y' : Action ε τ α}
    (hx : p → Agrees extend Q x y t) (hx' : ¬p → Agrees extend Q x' y' t) :
    Agrees extend Q (if p then x else x') (if p then y else y') t := by
  split
  · exact hx ‹_›
  · exact hx' ‹_›

variable {content : τ → List χ} {stuck : ε} {step step' : β → Action ε τ (Turn β γ)}
  {O : γ → τ → Prop}

/-- Loops agree while there is something left and each step takes some of it. Neither runs
out of room, however much more there is for one of them. -/
theorem agrees_loop (I : β → τ → Prop) (hleft : ∀ b t, I b t → content t ≠ [])
    (hstep : ∀ b t, I b t → Agrees extend (fun turn t₁ => match turn with
      | .again b => I b t₁ ∧ (content t₁).length < (content t).length
      | .done c => O c t₁) (step b) (step' b) t)
    {room room' : List χ} {b : β} {t : τ} (hI : I b t)
    (hroom : (content t).length ≤ room.length) (hroom' : (content t).length ≤ room'.length) :
    Agrees extend O (loop stuck step room b) (loop stuck step' room' b) t := by
  have hpos := List.length_pos_iff.mpr (hleft b t hI)
  induction room generalizing room' b t with
  | nil =>
    rw [List.length_nil] at hroom
    omega
  | cons _ room ih =>
    cases room' with
    | nil =>
      rw [List.length_nil] at hroom'
      omega
    | cons _ room' =>
      rw [List.length_cons] at hroom hroom'
      refine (hstep b t hI).bind fun turn t₁ hturn => ?_
      cases turn with
      | again next =>
        obtain ⟨hI₁, hshort⟩ := hturn
        exact ih hI₁ (by omega) (by omega) (List.length_pos_iff.mpr (hleft next t₁ hI₁))
      | done c => exact agrees_pure hturn

theorem agrees_untilDone (I : β → τ → Prop)
    (hlonger : ∀ t, (content t).length ≤ (content (extend t)).length)
    (hleft : ∀ b t, I b t → content t ≠ [])
    (hstep : ∀ b t, I b t → Agrees extend (fun turn t₁ => match turn with
      | .again b => I b t₁ ∧ (content t₁).length < (content t).length
      | .done c => O c t₁) (step b) (step' b) t)
    {b : β} {t : τ} (hI : I b t) :
    Agrees extend O (untilDone content stuck step b) (untilDone content stuck step' b) t :=
  (agrees_loop I hleft hstep hI (Nat.le_refl (content t).length) (hlonger t)).congr rfl rfl

end Agrees

end Action

open Cjson.Action

/-- The same place, with more text behind. -/
def Cursor.extended (t : List Char) (k : Cursor) : Cursor :=
  ⟨k.position, k.rest ++ t⟩

namespace Cursor

variable {t s : List Char} {k k' K : Cursor}

@[simp] theorem extended_rest (t : List Char) (k : Cursor) :
    (k.extended t).rest = k.rest ++ t := rfl

theorem next_extended (h : k.rest ≠ []) : (k.extended t).next = k.next.extended t := by
  obtain ⟨p, _ | ⟨c, rest⟩⟩ := k
  · exact absurd rfl h
  · rfl

theorem head_extended (h : k.rest ≠ []) : (k.extended t).rest.head? = k.rest.head? := by
  obtain ⟨c, r, hr⟩ := List.exists_cons_of_ne_nil h
  rw [extended_rest, hr]
  rfl

theorem Passes.extended (h : k.Passes s k') : (k.extended t).Passes s (k'.extended t) :=
  ⟨by rw [extended_rest, extended_rest, h.rest, List.append_assoc], h.position⟩

theorem Passes.of_extended (h : (k.extended t).Passes s (k'.extended t)) : k.Passes s k' := by
  refine ⟨?_, h.position⟩
  have hrest := h.rest
  rw [extended_rest, extended_rest, ← List.append_assoc] at hrest
  exact List.append_cancel_right hrest

/-- In front of an extended cursor there are extended cursors only. -/
theorem Passes.truncated (h : K.Passes s (k'.extended t)) :
    ∃ k : Cursor, K = k.extended t ∧ k.Passes s k' := by
  have hK : K = Cursor.extended t ⟨K.position, s ++ k'.rest⟩ := by
    obtain ⟨p, r⟩ := K
    have hr : r = s ++ (k'.rest ++ t) := h.rest
    rw [hr, ← List.append_assoc]
    rfl
  rw [hK] at h
  exact ⟨_, hK, h.of_extended⟩

theorem Reaches.truncated (h : K.Reaches (k'.extended t)) :
    ∃ k : Cursor, K = k.extended t ∧ k.Reaches k' := by
  obtain ⟨s, hs⟩ := h
  obtain ⟨k, hK, hk⟩ := hs.truncated
  exact ⟨k, hK, s, hk⟩

theorem Reaches.rest_ne_nil (h : k.Reaches k') (hne : k'.rest ≠ []) : k.rest ≠ [] := by
  obtain ⟨s, hs⟩ := h
  rw [hs.rest]
  simp [hne]

end Cursor

open Cursor

namespace Scan

variable {t : List Char} {α β : Type} {k k' : Cursor} {Q : α → Cursor → Prop}

/-- The scan goes alike where the text goes on behind its end. -/
abbrev Agrees (t : List Char) (Q : α → Cursor → Prop) (x y : Scan α) (k : Cursor) : Prop :=
  Action.Agrees (Cursor.extended t) Q x y k

theorem agrees_fail (p : Problem) (offset : Nat) :
    Agrees t Q (fail p offset) (fail p offset) k :=
  agrees_throw _

theorem agrees_fail_bind (p : Problem) (offset : Nat) (f g : α → Scan β)
    {R : β → Cursor → Prop} : Agrees t R (fail p offset >>= f) (fail p offset >>= g) k :=
  .error rfl rfl

theorem agrees_position_bind {f g : Nat → Scan α}
    (h : Agrees t Q (f k.position) (g k.position) k) :
    Agrees t Q (position >>= f) (position >>= g) k :=
  agrees_ok_bind rfl rfl h

theorem agrees_rest_bind {f g : List Char → Scan α}
    (h : Agrees t Q (f k.rest) (g (k.rest ++ t)) k) :
    Agrees t Q (rest >>= f) (rest >>= g) k :=
  h.congr (bind_ok (rest_apply k)) (bind_ok (rest_apply (k.extended t)))

theorem agrees_get_bind {f g : Cursor → Scan α} (h : Agrees t Q (f k) (g (k.extended t)) k) :
    Agrees t Q (get >>= f) (get >>= g) k :=
  h.congr (bind_ok (get_apply k)) (bind_ok (get_apply (k.extended t)))

theorem agrees_peek (hne : k.rest ≠ []) :
    Agrees t (fun c k' => c = k.rest.head? ∧ k' = k) peek peek k :=
  .ok rfl (by rw [peek_apply, head_extended hne]) ⟨rfl, rfl⟩

theorem agrees_advance (hne : k.rest ≠ []) :
    Agrees t (fun _ k' => k' = k.next) advance advance k :=
  .ok rfl (by rw [advance_apply, next_extended hne]) rfl

/-- A gap is the same where the text goes on within its bounds. -/
theorem gap_of_extended {b : Bool} (h : gap (k.extended t) = (.ok b, k'.extended t))
    (hne : k'.rest ≠ []) : gap k = (.ok b, k') := by
  obtain ⟨g, hk, s, tail, hs, hclosing, rfl⟩ := gap_eq_ok.mp h
  refine gap_eq_ok.mpr ⟨_, hk.of_extended, s, tail, hs, ?_, rfl⟩
  rcases hclosing with ⟨rfl, hsolid⟩ | ⟨-, hend⟩
  · refine .inl ⟨rfl, ?_, ?_, ?_⟩
    · intro c rest hr
      exact hsolid.noBlank c (rest ++ t) (by rw [extended_rest, hr]; rfl)
    · intro rest hr
      exact hsolid.noLineComment (rest ++ t) (by rw [extended_rest, hr]; rfl)
    · intro rest hr
      exact hsolid.noBlockComment (rest ++ t) (by rw [extended_rest, hr]; rfl)
  · exact absurd (List.append_eq_nil_iff.mp hend).1 hne

section Words

theorem gap_solid (h : Solid k.rest) : gap k = (.ok false, k) :=
  gap_eq_ok.mpr ⟨[], .refl k, Gap.nil.before h⟩

theorem gap_end (hr : k.rest = []) : gap k = (.ok false, k) := by
  refine gap_solid ?_
  rw [hr]
  exact .nil

/-- Behind the cursor the text ends, or goes on with something that is passed over, with a
gap in front of it. -/
def Seam (t : List Char) (k : Cursor) : Prop :=
  k.rest = [] ∨
    ∃ (b : Bool) (k' : Cursor), gap (k.extended t) = (.ok b, k'.extended t) ∧ k'.rest ≠ []

theorem word_of_extended {w : List Char} (h : word (k.extended t) = (.ok w, k'.extended t)) :
    word k = (.ok w, k') := by
  obtain ⟨hk, hw, hstops⟩ := word_eq_ok.mp h
  refine word_eq_ok.mpr ⟨hk.of_extended, hw, ?_⟩
  intro c hc
  have hne : k'.rest ≠ [] := by
    intro hnil
    rw [hnil] at hc
    cases hc
  exact hstops c (by rw [head_extended hne, hc])

/-- Words end where they did, and calls are calls. -/
theorem wordOrCall_of_extended {w : List Char} {called : Bool}
    (h : wordOrCall (k.extended t) = (.ok (w, called), k'.extended t))
    (hseam : called = false → Seam t k') : wordOrCall k = (.ok (w, called), k') := by
  obtain ⟨_, K₁, hword, h⟩ := bind_eq_ok.mp h
  obtain ⟨_, _, hget, h⟩ := bind_eq_ok.mp h
  cases hget
  obtain ⟨b, K₂, hgap, h⟩ := bind_eq_ok.mp h
  obtain ⟨_, _, hpeek, h⟩ := bind_eq_ok.mp h
  cases hpeek
  split at h
  · rename_i hopen
    obtain ⟨_, _, hadvance, h⟩ := bind_eq_ok.mp h
    cases hadvance
    obtain ⟨hresult, hnext⟩ := pure_eq_ok.mp h
    cases hresult
    obtain ⟨r, hr⟩ := List.head?_eq_some_iff.mp hopen
    have hparenthesis := (next_of_rest hr).1
    rw [hnext] at hparenthesis
    obtain ⟨k₂, rfl, hk₂⟩ := hparenthesis.truncated
    obtain ⟨k₁, rfl, -⟩ := (forward_gap _ _ _ hgap).truncated
    have hne : k₂.rest ≠ [] := by simp [hk₂.rest]
    rw [wordOrCall, bind_ok (word_of_extended hword), bind_ok (get_apply k₁),
      bind_ok (gap_of_extended hgap hne), bind_ok (peek_apply k₂), if_pos hk₂.head,
      bind_ok (advance_apply k₂), hk₂.next.1.unique hk₂]
    rfl
  · rename_i hopen
    obtain ⟨_, _, hset, h⟩ := bind_eq_ok.mp h
    cases hset
    obtain ⟨hresult, rfl⟩ := pure_eq_ok.mp h
    cases hresult
    have hbehind : ∃ b k₂, gap k' = (.ok b, k₂) ∧ k₂.rest.head? ≠ some '(' := by
      rcases hseam rfl with hend | ⟨b', k₂, hgap', hne⟩
      · exact ⟨false, k', gap_end hend, by simp [hend]⟩
      · rw [hgap] at hgap'
        cases hgap'
        rw [head_extended hne] at hopen
        exact ⟨b, k₂, gap_of_extended hgap hne, hopen⟩
    obtain ⟨b', k₂, hgap', hnotOpen⟩ := hbehind
    rw [wordOrCall, bind_ok (word_of_extended hword), bind_ok (get_apply k'),
      bind_ok hgap', bind_ok (peek_apply k₂), if_neg hnotOpen, bind_ok (set_apply k₂ k')]
    rfl

theorem word_misplaced {c : Char} {r : List Char} (hr : k.rest = c :: r)
    (hword : Character.isWordChar c = false) (hplus : c ≠ '+') :
    word k = (.error (.problem .unexpectedCharacter k.position), k) := by
  have hsign : takeUpTo 1 (· == '+') k = (.ok [], k) :=
    takeUpTo_eq_ok.mpr ⟨.refl k, by simp, by simp, by
      intro _ d hd
      rw [hr] at hd
      cases hd
      simpa using hplus⟩
  have hletters : takeWhile Character.isWordChar k = (.ok [], k) :=
    takeWhile_eq_ok.mpr ⟨.refl k, by simp, by
      intro d hd
      rw [hr] at hd
      cases hd
      exact hword⟩
  rw [word, bind_ok (position_apply k), bind_ok hsign, bind_ok hletters]
  rfl

end Words

section Literals

theorem raw_of_extended {q : Char} {r : List Char} {str : String}
    (hr : (k.extended t).rest = 'r' :: q :: r)
    (h : raw q (k.extended t) = (.ok str, k'.extended t)) : raw q k = (.ok str, k') := by
  obtain ⟨cs, hk, hcs, rfl⟩ := of_raw hr h
  exact raw_of_content hk.of_extended hcs

variable {q : Char} {start opening : Nat}

/-- The rest of the literal is passed over up to `k'`, where all of the text is there. -/
def SkimsTo (t : List Char) (q : Char) (opening : Nat) (k' k : Cursor) : Prop :=
  Bytewise.skimsOn q opening (k.extended t) = (.ok (), k'.extended t)

theorem SkimsTo.passes (h : SkimsTo t q opening k' k) : ∃ u, k.Passes (u ++ [q]) k' := by
  obtain ⟨u, hu⟩ := passes_skimQuotedFrom q opening _ _ h
  exact ⟨u, hu.of_extended⟩

theorem SkimsTo.ne_nil (h : SkimsTo t q opening k' k) : k.rest ≠ [] := by
  obtain ⟨u, hu⟩ := h.passes
  simp [hu.rest]

/-- Neither quotes nor backslashes are among what is taken. -/
def Plain (q : Char) (p : Char → Bool) : Prop :=
  ∀ c, p c = true → c ≠ q ∧ c ≠ '\\'

theorem SkimsTo.next (h : SkimsTo t q opening k' k) {c : Char} {r : List Char}
    (hr : k.rest = c :: r) (hquote : c ≠ q) (hescape : c ≠ '\\') :
    SkimsTo t q opening k' k.next := by
  have hR : (k.extended t).rest = c :: (r ++ t) := by rw [extended_rest, hr, List.cons_append]
  rw [SkimsTo, ← next_extended h.ne_nil,
    ← Bytewise.skimsOn_other hR (fun he => absurd he hescape) hquote]
  exact h

theorem SkimsTo.escape (h : SkimsTo t q opening k' k) {c : Char} {r : List Char}
    (hr : k.rest = '\\' :: c :: r) : SkimsTo t q opening k' k.next.next := by
  have hR : (k.extended t).rest = '\\' :: c :: (r ++ t) := by
    rw [extended_rest, hr, List.cons_append, List.cons_append]
  rw [SkimsTo, ← next_extended (by simp [(next_of_rest hr).2]), ← next_extended h.ne_nil,
    ← Bytewise.skimsOn_escape hR]
  exact h

theorem SkimsTo.quote (h : SkimsTo t q opening k' k) (hq : q ≠ '\\') {r : List Char}
    (hr : k.rest = q :: r) : k' = k.next := by
  have hR : (k.extended t).rest = q :: (r ++ t) := by rw [extended_rest, hr, List.cons_append]
  have hne := h.ne_nil
  rw [SkimsTo, Bytewise.skimsOn_quote hq hR, next_extended hne, Prod.mk.injEq] at h
  have hreach : k'.extended t = k.next.extended t := h.2.symm
  have hpass : (k.extended t).Passes [q] (k'.extended t) := by
    rw [hreach]
    exact (next_of_rest hr).1.extended
  exact hpass.of_extended.unique (next_of_rest hr).1

theorem SkimsTo.plain (h : SkimsTo t q opening k' k) {s : List Char} {k₁ : Cursor}
    (hk : k.Passes s k₁) (hs : ∀ c ∈ s, c ≠ q ∧ c ≠ '\\') : SkimsTo t q opening k' k₁ := by
  induction s generalizing k with
  | nil => rwa [(Passes.refl k).unique hk] at h
  | cons c s ih =>
    obtain ⟨hquote, hescape⟩ := hs c List.mem_cons_self
    exact ih (h.next hk.rest hquote hescape) hk.next.2
      fun d hd => hs d (List.mem_cons_of_mem c hd)

theorem SkimsTo.stops (h : SkimsTo t q opening k' k) {p : Char → Bool} (hp : Plain q p)
    {k₁ : Cursor} {d : List Char} (hk : k.Passes d k₁) (hd : ∀ c ∈ d, p c = true) :
    SkimsTo t q opening k' k₁ :=
  h.plain hk fun c hc => hp c (hd c hc)

theorem agrees_takeWhile {p : Char → Bool} (hp : Plain q p) (h : SkimsTo t q opening k' k) :
    Agrees t (fun _ k₁ => SkimsTo t q opening k' k₁ ∧ k₁.rest.length ≤ k.rest.length)
      (takeWhile p) (takeWhile p) k := by
  obtain ⟨d, k₁, htake⟩ : ∃ d k₁, takeWhile p k = (.ok d, k₁) := ⟨_, _, rfl⟩
  obtain ⟨hk, hd, hstops⟩ := takeWhile_eq_ok.mp htake
  have hskims := h.stops hp hk hd
  refine .ok htake (takeWhile_eq_ok.mpr ⟨hk.extended, hd, ?_⟩) ⟨hskims, Reaches.length_le ⟨d, hk⟩⟩
  intro c hc
  rw [head_extended hskims.ne_nil] at hc
  exact hstops c hc

theorem agrees_takeUpTo {n : Nat} {p : Char → Bool} (hp : Plain q p)
    (h : SkimsTo t q opening k' k) :
    Agrees t (fun _ k₁ => SkimsTo t q opening k' k₁ ∧ k₁.rest.length ≤ k.rest.length)
      (takeUpTo n p) (takeUpTo n p) k := by
  obtain ⟨d, k₁, htake⟩ : ∃ d k₁, takeUpTo n p k = (.ok d, k₁) := ⟨_, _, rfl⟩
  obtain ⟨hk, hd, hlength, hstops⟩ := takeUpTo_eq_ok.mp htake
  have hskims := h.stops hp hk hd
  refine .ok htake (takeUpTo_eq_ok.mpr ⟨hk.extended, hd, hlength, ?_⟩)
    ⟨hskims, Reaches.length_le ⟨d, hk⟩⟩
  intro hlt c hc
  rw [head_extended hskims.ne_nil] at hc
  exact hstops hlt c hc

theorem agrees_hexEscape (hp : Plain q (hexValue? · |>.isSome)) (h : SkimsTo t q opening k' k) :
    Agrees t (fun _ k₁ => SkimsTo t q opening k' k₁ ∧ k₁.rest.length ≤ k.rest.length)
      (hexEscape start) (hexEscape start) k := by
  refine (agrees_takeUpTo hp h).bind fun digits k₁ hk₁ => ?_
  refine agrees_ite (fun _ => agrees_fail_bind _ _ _ _) fun _ => ?_
  exact agrees_ite (fun _ => agrees_fail_bind _ _ _ _) fun _ => agrees_pure hk₁

theorem agrees_lineContinuation (hp : Plain q Character.isBlank)
    (h : SkimsTo t q opening k' k) :
    Agrees t (fun _ k₁ => SkimsTo t q opening k' k₁ ∧ k₁.rest.length ≤ k.rest.length)
      (lineContinuation start) (lineContinuation start) k := by
  have hindent : Plain q isIndent := by
    intro c hc
    rw [isIndent, Bool.and_eq_true] at hc
    exact hp c hc.1
  have hbreak : ∀ {c : Char}, Character.isLineBreak c = true → c ≠ q ∧ c ≠ '\\' := by
    intro c hc
    exact hp c (Character.isBlank_of_isLineBreak hc)
  refine agrees_get_bind ?_
  refine (agrees_takeWhile hindent h).bind fun _ k₁ hk₁ => ?_
  obtain ⟨hskims, hlength⟩ := hk₁
  have hafter : ∀ {k₂ : Cursor}, SkimsTo t q opening k' k₂ → k₂.rest.length ≤ k₁.rest.length →
      Agrees t (fun _ k₃ => SkimsTo t q opening k' k₃ ∧ k₃.rest.length ≤ k.rest.length)
        (do let _ ← takeWhile isIndent : Scan Unit) (do let _ ← takeWhile isIndent) k₂ := by
    intro k₂ hk₂ hle
    refine (agrees_takeWhile hindent hk₂).bind fun _ k₃ hk₃ => ?_
    exact agrees_pure ⟨hk₃.1, by omega⟩
  obtain ⟨c, r, hr⟩ := List.exists_cons_of_ne_nil hskims.ne_nil
  have hr₁ := (next_of_rest hr).2
  have hadvance := agrees_advance (t := t) hskims.ne_nil
  have hsecond : c = '\r' → r ≠ [] := by
    rintro rfl rfl
    obtain ⟨hquote, hescape⟩ := hbreak (c := '\r') rfl
    exact (hskims.next hr hquote hescape).ne_nil hr₁
  refine agrees_rest_bind ?_
  rw [hr, List.cons_append]
  split
  · rename_i r' he
    cases he
    obtain ⟨hquote, hescape⟩ := hbreak (c := '\r') rfl
    obtain ⟨hquote', hescape'⟩ := hbreak (c := '\n') rfl
    have hskims₁ := hskims.next hr hquote hescape
    refine hadvance.bind ?_
    rintro _ _ rfl
    refine (agrees_advance hskims₁.ne_nil).bind ?_
    rintro _ _ rfl
    refine hafter (hskims₁.next hr₁ hquote' hescape') ?_
    rw [(next_of_rest hr₁).2, hr]
    simp only [List.length_cons]
    omega
  · rename_i c' r' hpair he
    cases he
    have hnoPair : ∀ R, c :: (r ++ t) ≠ '\r' :: '\n' :: R := by
      intro R he
      obtain ⟨rfl, htail⟩ := List.cons.inj he
      obtain ⟨d, r', rfl⟩ := List.exists_cons_of_ne_nil (hsecond rfl)
      obtain ⟨rfl, -⟩ := List.cons.inj htail
      exact hpair r' rfl rfl
    by_cases hc : Character.isLineBreak c = true
    · obtain ⟨hquote, hescape⟩ := hbreak hc
      rw [if_pos hc]
      split
      · exact absurd ‹_› (hnoPair _)
      · rename_i he
        cases he
        rw [if_pos hc]
        refine hadvance.bind ?_
        rintro _ _ rfl
        refine hafter (hskims.next hr hquote hescape) ?_
        rw [hr₁, hr, List.length_cons]
        omega
      · cases ‹_ = _›
    · rw [if_neg hc]
      split
      · exact absurd ‹_› (hnoPair _)
      · rename_i he
        cases he
        rw [if_neg hc]
        exact .error rfl rfl
      · exact .error rfl rfl
  · cases ‹_ = _›

/-- Behind a piece of the literal its rest is passed over, and behind its closing quote it is
over. -/
def Continues (t : List Char) (q : Char) (opening : Nat) (k' k : Cursor) :
    Piece → Cursor → Prop
  | .closing, k₁ => k₁ = k'
  | .nothing, k₁ | .char _, k₁ =>
    SkimsTo t q opening k' k₁ ∧ k₁.rest.length < k.rest.length

/-- The quotes are neither blanks nor digits, nor backslashes. -/
theorem plain_of_quote (hq : q = '"' ∨ q = '\'') :
    Plain q Character.isBlank ∧ Plain q (hexValue? · |>.isSome) ∧ q ≠ '\\' := by
  have hplain : ∀ {p : Char → Bool}, p '"' = false → p '\'' = false → p '\\' = false →
      Plain q p := by
    intro p hdouble hsingle hescape c hc
    refine ⟨?_, ?_⟩
    · rintro rfl
      rcases hq with rfl | rfl
      · rw [hdouble] at hc
        cases hc
      · rw [hsingle] at hc
        cases hc
    · rintro rfl
      rw [hescape] at hc
      cases hc
  refine ⟨hplain rfl rfl rfl, hplain rfl rfl rfl, ?_⟩
  rcases hq with rfl | rfl
  · decide
  · decide

/-- An escape may take more than is passed over with it, but neither a quote nor a
backslash. -/
theorem agrees_escape (hq : q = '"' ∨ q = '\'') {c : Char} {r : List Char}
    (hr : k.rest = '\\' :: c :: r) (h : SkimsTo t q opening k' k) :
    Agrees t (Continues t q opening k' k) (escape c) (escape c) k := by
  obtain ⟨hblank, hhex, -⟩ := plain_of_quote hq
  have hr₁ := (next_of_rest hr).2
  have hr₂ := (next_of_rest hr₁).2
  have hne₁ : k.next.rest ≠ [] := by simp [hr₁]
  have hskims₂ := h.escape hr
  have hlength : k.rest.length = k.next.next.rest.length + 2 := by
    rw [hr₂, hr, List.length_cons, List.length_cons]
  refine agrees_position_bind ?_
  refine (agrees_advance h.ne_nil).bind ?_
  rintro _ _ rfl
  refine agrees_ite (fun hc => ?_) fun _ => ?_
  · -- The blank behind the backslash is passed over as any other character would be.
    have hskims₁ : SkimsTo t q opening k' k.next := by
      have hR : (k.next.extended t).rest = c :: (r ++ t) := by
        rw [extended_rest, hr₁, List.cons_append]
      rw [SkimsTo, Bytewise.skimsOn_other hR (fun he => absurd he (hblank c hc).2)
        (hblank c hc).1, next_extended hne₁]
      exact hskims₂
    refine (agrees_lineContinuation hblank hskims₁).bind fun _ k₁ hk₁ => ?_
    refine agrees_pure ⟨hk₁.1, ?_⟩
    have := hk₁.2
    rw [hr₁, List.length_cons] at this
    rw [hr, List.length_cons, List.length_cons]
    omega
  · refine (agrees_advance hne₁).bind ?_
    rintro _ _ rfl
    split
    · exact agrees_pure ⟨hskims₂, by omega⟩
    · refine agrees_ite (fun _ => ?_) fun _ => agrees_fail _ _
      refine (agrees_hexEscape hhex hskims₂).bind fun d k₁ hk₁ => ?_
      have := hk₁.2
      exact agrees_pure ⟨hk₁.1, by omega⟩

theorem agrees_piece (hq : q = '"' ∨ q = '\'') (h : SkimsTo t q opening k' k) :
    Agrees t (Continues t q opening k' k) (piece q start) (piece q start) k := by
  obtain ⟨-, -, hescape⟩ := plain_of_quote hq
  obtain ⟨c, r, hr⟩ := List.exists_cons_of_ne_nil h.ne_nil
  obtain ⟨u, hu⟩ := h.passes
  have hescaped : c = '\\' → ∃ d r', r = d :: r' := by
    rintro rfl
    refine List.exists_cons_of_ne_nil ?_
    rintro rfl
    have hrest := hu.rest
    rw [hr] at hrest
    cases u with
    | nil => exact hescape (List.cons.inj hrest).1.symm
    | cons d u => simp at hrest
  by_cases hc : c = '\\'
  · obtain ⟨d, r, rfl⟩ := hescaped hc
    subst hc
    have hR : (k.extended t).rest = '\\' :: d :: (r ++ t) := by
      rw [extended_rest, hr, List.cons_append, List.cons_append]
    exact (agrees_escape hq hr h).congr (piece_of_escape hr) (piece_of_escape hR)
  · have hnext := (next_of_rest hr).1
    refine .ok (piece_of_plain hnext hc) (piece_of_plain hnext.extended hc) ?_
    by_cases hquote : c = q
    · subst hquote
      rw [if_pos rfl]
      exact (h.quote hescape hr).symm
    · rw [if_neg hquote]
      refine ⟨h.next hr hquote hc, ?_⟩
      rw [(next_of_rest hr).2, hr, List.length_cons]
      omega

/-- A literal that is passed over is read alike up to its end, or up to its first fault. -/
theorem agrees_quoted (hq : q = '"' ∨ q = '\'') {r : List Char} (hr : k.rest = q :: r)
    (h : skimQuoted q (k.extended t) = (.ok (), k'.extended t)) :
    Agrees t (fun _ k₁ => k₁ = k') (quoted q) (quoted q) k := by
  have hne : k.rest ≠ [] := by simp [hr]
  have hskims : SkimsTo t q k.position k' k.next := by
    rw [skimQuoted, bind_ok (position_apply _), bind_ok (advance_apply _),
      next_extended hne] at h
    exact h
  refine agrees_position_bind ?_
  refine (agrees_advance hne).bind ?_
  rintro _ _ rfl
  have hloop : Agrees t (fun _ k₁ => k₁ = k')
      (untilDone Cursor.rest (.internal "A string outlived its text.")
        (quotedStep q k.position) [])
      (untilDone Cursor.rest (.internal "A string outlived its text.")
        (quotedStep q k.position) []) k.next := by
    refine agrees_untilDone (fun _ => SkimsTo t q k.position k') (fun k₁ => by simp)
      (fun _ _ hk₁ => hk₁.ne_nil) ?_ hskims
    intro read k₁ hk₁
    refine (agrees_piece hq hk₁).bind fun p k₂ hk₂ => ?_
    cases p with
    | closing => exact agrees_pure hk₂
    | nothing | char c => exact agrees_pure hk₂
  exact hloop.bind fun _ _ hk₁ => agrees_pure hk₁

end Literals

end Scan
end Cjson
