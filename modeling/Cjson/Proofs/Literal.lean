import Cjson.Proofs.Passage
import Cjson.Scan.Quoted

namespace Cjson

/-- What single characters stand for behind a backslash. -/
def escapes : List (Char × Char) :=
  [('"', '"'), ('\'', '\''), ('\\', '\\'), ('\x7b', '\x7b'), ('/', '/'), ('n', '\n'),
    ('r', '\r'), ('t', '\t'), ('f', '\x0c'), ('b', '\x08'), ('g', '>'), ('l', '<'),
    ('a', '&')]

/-- One line break in front of `rest`; a CR-LF pair is not taken apart. -/
inductive LineBreak : List Char → (rest : List Char) → Prop
  | lf {rest : List Char} : LineBreak ['\n'] rest
  | crlf {rest : List Char} : LineBreak ['\r', '\n'] rest
  | cr {rest : List Char} (alone : rest.head? ≠ some '\n') : LineBreak ['\r'] rest

/-- A piece of a literal with quote `q`, in front of `rest`: what it stands for, if
anything, and how that is spelled. -/
inductive Spelling (q : Char) : Option Char → List Char → (rest : List Char) → Prop
  | verbatim {c : Char} {rest : List Char} (noQuote : c ≠ q) (noEscape : c ≠ '\\') :
      Spelling q (some c) [c] rest
  | letter {e c : Char} {rest : List Char} (escape : (e, c) ∈ escapes) :
      Spelling q (some c) ['\\', e] rest
  | code {x : Char} {digits rest : List Char} (letter : x = 'x' ∨ x = 'u')
      (nonempty : digits ≠ []) (atMostFour : digits.length ≤ 4)
      (hex : ∀ d ∈ digits, (Scan.hexValue? d).isSome = true)
      (longest : digits.length < 4 → Text.Stops (Scan.hexValue? · |>.isSome) rest)
      (noSurrogate : ¬(0xD800 ≤ Scan.hexNumber digits ∧ Scan.hexNumber digits ≤ 0xDFFF)) :
      Spelling q (some (.ofNat (Scan.hexNumber digits))) ('\\' :: x :: digits) rest
  | continuation {before lineBreak after rest : List Char}
      (indentBefore : ∀ c ∈ before, Scan.isIndent c = true)
      (breaks : LineBreak lineBreak (after ++ rest))
      (indentAfter : ∀ c ∈ after, Scan.isIndent c = true)
      (longest : Text.Stops Scan.isIndent rest) :
      Spelling q none ('\\' :: before ++ lineBreak ++ after) rest

/-- A text between quotes `q` that spells the given characters. -/
inductive Spells (q : Char) : List Char → List Char → Prop
  | nil : Spells q [] []
  | cons {c : Option Char} {cs s rest : List Char} (first : Spelling q c s rest)
      (others : Spells q cs rest) : Spells q (c.toList ++ cs) (s ++ rest)

/-- The literals for a string: between quotes with escapes, and raw. -/
inductive Literal : String → List Char → Prop
  | quoted {q : Char} {cs body : List Char} (quote : q = '"' ∨ q = '\'')
      (spells : Spells q cs body) : Literal (.ofList cs) (q :: body ++ [q])
  | raw {q : Char} {cs : List Char} (quote : q = '"' ∨ q = '\'') (noQuote : q ∉ cs) :
      Literal (.ofList cs) ('r' :: q :: cs ++ [q])

theorem escaped?_eq_some {e c : Char} : Scan.escaped? e = some c ↔ (e, c) ∈ escapes := by
  constructor
  · intro h
    unfold Scan.escaped? at h
    split at h <;> cases h <;> decide
  · intro h
    simp only [escapes, List.mem_cons, Prod.mk.injEq, List.not_mem_nil, or_false] at h
    rcases h with ⟨rfl, rfl⟩ | ⟨rfl, rfl⟩ | ⟨rfl, rfl⟩ | ⟨rfl, rfl⟩ | ⟨rfl, rfl⟩ |
      ⟨rfl, rfl⟩ | ⟨rfl, rfl⟩ | ⟨rfl, rfl⟩ | ⟨rfl, rfl⟩ | ⟨rfl, rfl⟩ | ⟨rfl, rfl⟩ |
      ⟨rfl, rfl⟩ | ⟨rfl, rfl⟩ <;> rfl

theorem Spelling.ne_nil {q : Char} {c : Option Char} {s rest : List Char}
    (h : Spelling q c s rest) : s ≠ [] := by
  cases h <;> simp

/-- Only the next character decides where a piece ends. -/
theorem Spelling.congr {q : Char} {c : Option Char} {s rest rest' : List Char}
    (h : Spelling q c s rest) (he : rest'.head? = rest.head?) : Spelling q c s rest' := by
  cases h with
  | verbatim hq he => exact .verbatim hq he
  | letter he => exact .letter he
  | code hx hne hlen hd hstop hcode =>
    exact .code hx hne hlen hd (fun hlt d h => hstop hlt d (he ▸ h)) hcode
  | @continuation before brk after _ hb hbrk ha hstop =>
    refine .continuation hb ?_ ha (fun d h => hstop d (he ▸ h))
    cases hbrk with
    | lf => exact .lf
    | crlf => exact .crlf
    | cr alone =>
      refine .cr ?_
      cases after with
      | nil => simpa [he] using alone
      | cons d t => simpa using alone

/-- The closing quote does not go on with any piece. -/
theorem Spelling.before_quote {q : Char} {c : Option Char} {s rest t : List Char}
    (hq : q = '"' ∨ q = '\'') :
    Spelling q c s (rest ++ q :: t) ↔ Spelling q c s rest := by
  cases rest with
  | cons d rest => exact ⟨fun h => h.congr rfl, fun h => h.congr rfl⟩
  | nil =>
    constructor
    · intro h
      cases h with
      | verbatim hq he => exact .verbatim hq he
      | letter he => exact .letter he
      | code hx hne hlen hd _ hcode =>
        exact .code hx hne hlen hd (fun _ _ h => by cases h) hcode
      | @continuation before brk after _ hb hbrk ha _ =>
        refine .continuation hb ?_ ha (fun _ h => by cases h)
        cases hbrk with
        | lf => exact .lf
        | crlf => exact .crlf
        | cr alone =>
          refine .cr ?_
          cases after with
          | nil => simp
          | cons d t => simpa using alone
    · intro h
      have hhex : Text.Stops (Scan.hexValue? · |>.isSome) (q :: t) := by
        intro d hd
        cases hd
        rcases hq with rfl | rfl <;> decide
      have hindent : Text.Stops Scan.isIndent (q :: t) := by
        intro d hd
        cases hd
        rcases hq with rfl | rfl <;> decide
      cases h with
      | verbatim hq he => exact .verbatim hq he
      | letter he => exact .letter he
      | code hx hne hlen hd _ hcode => exact .code hx hne hlen hd (fun _ => hhex) hcode
      | @continuation before brk after _ hb hbrk ha _ =>
        refine .continuation hb ?_ ha hindent
        cases hbrk with
        | lf => exact .lf
        | crlf => exact .crlf
        | cr alone =>
          refine .cr ?_
          cases after with
          | nil => rcases hq with rfl | rfl <;> simp
          | cons d t => simpa using alone

namespace Scan

open Cjson.Action Cursor

theorem of_lineContinuation {start : Nat} {k k' : Cursor}
    (h : lineContinuation start k = (.ok (), k')) :
    ∃ before lineBreak after, k.Passes (before ++ lineBreak ++ after) k' ∧
      (∀ c ∈ before, isIndent c = true) ∧ LineBreak lineBreak (after ++ k'.rest) ∧
      (∀ c ∈ after, isIndent c = true) ∧ Text.Stops isIndent k'.rest := by
  obtain ⟨_, _, hget, h⟩ := bind_eq_ok.mp h
  cases hget
  obtain ⟨before, k₁, hbefore, h⟩ := bind_eq_ok.mp h
  obtain ⟨hk₁, hb, hstop⟩ := takeWhile_eq_ok.mp hbefore
  obtain ⟨_, _, hrest, h⟩ := bind_eq_ok.mp h
  cases hrest
  have hafter : ∀ {k₂ : Cursor},
      (takeWhile isIndent >>= fun _ => pure ()) k₂ = (.ok (), k') →
      ∃ after, k₂.Passes after k' ∧ (∀ c ∈ after, isIndent c = true) ∧
        Text.Stops isIndent k'.rest := by
    intro k₂ h
    obtain ⟨after, k₃, hafter, h⟩ := bind_eq_ok.mp h
    obtain ⟨-, rfl⟩ := pure_eq_ok.mp h
    exact ⟨after, takeWhile_eq_ok.mp hafter⟩
  generalize hr : k₁.rest = r at h
  dsimp only at h
  split at h
  · obtain ⟨_, _, hadv, h⟩ := bind_eq_ok.mp h
    cases hadv
    obtain ⟨_, _, hadv, h⟩ := bind_eq_ok.mp h
    cases hadv
    obtain ⟨after, hk', ha, hs⟩ := hafter h
    obtain ⟨hcr, hr⟩ := next_of_rest hr
    have hlf := (next_of_rest hr).1
    refine ⟨before, ['\r', '\n'], after, ?_, hb, .crlf, ha, hs⟩
    exact (hk₁.trans (hcr.trans hlf)).trans hk'
  · rename_i c t hpair
    split at h
    · rename_i hc
      obtain ⟨_, _, hadv, h⟩ := bind_eq_ok.mp h
      cases hadv
      obtain ⟨after, hk', ha, hs⟩ := hafter h
      obtain ⟨hnext, ht⟩ := next_of_rest hr
      refine ⟨before, [c], after, (hk₁.trans hnext).trans hk', hb, ?_, ha, hs⟩
      simp only [Character.isLineBreak, Bool.or_eq_true, beq_iff_eq] at hc
      rcases hc with rfl | rfl
      · exact .lf
      · refine .cr ?_
        rw [← hk'.rest, ht]
        intro he
        obtain ⟨tail, rfl⟩ := List.head?_eq_some_iff.mp he
        exact hpair tail rfl rfl
    · obtain ⟨_, _, _, h⟩ := bind_eq_ok.mp h
      obtain ⟨_, _, hf, -⟩ := bind_eq_ok.mp h
      exact absurd hf fail_ne_ok
  · obtain ⟨_, _, _, h⟩ := bind_eq_ok.mp h
    obtain ⟨_, _, hf, -⟩ := bind_eq_ok.mp h
    exact absurd hf fail_ne_ok

theorem lineContinuation_ok {start : Nat} {before lineBreak after : List Char}
    {k k' : Cursor} (hk : k.Passes (before ++ lineBreak ++ after) k')
    (hb : ∀ c ∈ before, isIndent c = true) (hbrk : LineBreak lineBreak (after ++ k'.rest))
    (ha : ∀ c ∈ after, isIndent c = true) (hstop : Text.Stops isIndent k'.rest) :
    lineContinuation start k = (.ok (), k') := by
  obtain ⟨k₂, hk₂, hk'⟩ := hk.split
  obtain ⟨k₁, hk₁, hk₂⟩ := hk₂.split
  have hafter : (takeWhile isIndent >>= fun _ => pure ()) k₂ = (.ok (), k') := by
    rw [bind_ok (takeWhile_eq_ok.mpr ⟨hk', ha, hstop⟩)]
    rfl
  have hbefore : takeWhile isIndent k = (.ok before, k₁) := by
    refine takeWhile_eq_ok.mpr ⟨hk₁, hb, ?_⟩
    intro c hc
    rw [hk₂.rest] at hc
    cases hbrk <;> (cases hc; decide)
  rw [lineContinuation, bind_ok (get_apply k), bind_ok hbefore, bind_ok (rest_apply k₁)]
  have hr := hk₂.rest
  generalize k₁.rest = r at hr ⊢
  cases hbrk with
  | lf =>
    split
    · cases hr
    · cases hr
      rw [if_pos (by decide), bind_ok (advance_apply k₁), hk₂.next.1.unique hk₂]
      exact hafter
    · cases hr
  | crlf =>
    rw [hr]
    simp only [List.cons_append, List.nil_append]
    rw [bind_ok (advance_apply k₁), bind_ok (advance_apply _),
      hk₂.next.2.next.1.unique hk₂.next.2]
    exact hafter
  | cr alone =>
    split
    · rw [← hk'.rest] at alone
      simp only [List.cons_append, List.nil_append, List.cons.injEq, true_and] at hr
      exact absurd (by rw [← hr]; rfl) alone
    · cases hr
      rw [if_pos (by decide), bind_ok (advance_apply k₁), hk₂.next.1.unique hk₂]
      exact hafter
    · cases hr

theorem hexEscape_eq_ok {start : Nat} {c : Char} {k k' : Cursor} :
    hexEscape start k = (.ok c, k') ↔
      ∃ digits, k.Passes digits k' ∧ digits ≠ [] ∧ digits.length ≤ 4 ∧
        (∀ d ∈ digits, (hexValue? d).isSome = true) ∧
        (digits.length < 4 → Text.Stops (hexValue? · |>.isSome) k'.rest) ∧
        ¬(0xD800 ≤ hexNumber digits ∧ hexNumber digits ≤ 0xDFFF) ∧
        .ofNat (hexNumber digits) = c := by
  constructor
  · intro h
    obtain ⟨digits, k₁, hd, h⟩ := bind_eq_ok.mp h
    obtain ⟨hk₁, hhex, hlen, hstop⟩ := takeUpTo_eq_ok.mp hd
    split at h
    · obtain ⟨_, _, hf, -⟩ := bind_eq_ok.mp h
      exact absurd hf fail_ne_ok
    · rename_i hne
      dsimp only at h
      split at h
      · obtain ⟨_, _, hf, -⟩ := bind_eq_ok.mp h
        exact absurd hf fail_ne_ok
      · rename_i hcode
        obtain ⟨rfl, rfl⟩ := pure_eq_ok.mp h
        exact ⟨digits, hk₁, by simpa using hne, hlen, hhex, hstop, hcode, rfl⟩
  · intro h
    obtain ⟨digits, hk, hne, hlen, hhex, hstop, hcode, rfl⟩ := h
    rw [hexEscape, bind_ok (takeUpTo_eq_ok.mpr ⟨hk, hhex, hlen, hstop⟩),
      if_neg (by simpa using hne)]
    dsimp only
    rw [if_neg hcode]
    rfl

/-- The ways to spell a piece in front of `rest`. -/
def Piece.Spelled (q : Char) : Piece → List Char → (rest : List Char) → Prop
  | .closing, s, _ => s = [q]
  | .nothing, s, rest => Spelling q none s rest
  | .char c, s, rest => Spelling q (some c) s rest

theorem of_escape {q c : Char} {t : List Char} {p : Piece} {k k' : Cursor}
    (hr : k.rest = '\\' :: c :: t) (h : escape c k = (.ok p, k')) :
    ∃ s, k.Passes s k' ∧ p.Spelled q s k'.rest := by
  obtain ⟨hk₁, hr₁⟩ := next_of_rest hr
  obtain ⟨hk₂, -⟩ := next_of_rest hr₁
  obtain ⟨_, _, hp, h⟩ := bind_eq_ok.mp h
  cases hp
  obtain ⟨_, _, hadv, h⟩ := bind_eq_ok.mp h
  cases hadv
  split at h
  · obtain ⟨_, _, hl, h⟩ := bind_eq_ok.mp h
    obtain ⟨rfl, rfl⟩ := pure_eq_ok.mp h
    obtain ⟨before, lineBreak, after, hk', hb, hbrk, ha, hs⟩ := of_lineContinuation hl
    exact ⟨_, hk₁.trans hk', .continuation hb hbrk ha hs⟩
  · obtain ⟨_, _, hadv, h⟩ := bind_eq_ok.mp h
    cases hadv
    cases hd : escaped? c with
    | some d =>
      rw [hd] at h
      obtain ⟨rfl, rfl⟩ := pure_eq_ok.mp h
      exact ⟨_, hk₁.trans hk₂, .letter (escaped?_eq_some.mp hd)⟩
    | none =>
      rw [hd] at h
      dsimp only at h
      split at h
      · rename_i hx
        obtain ⟨d, _, hd, h⟩ := bind_eq_ok.mp h
        obtain ⟨rfl, rfl⟩ := pure_eq_ok.mp h
        obtain ⟨digits, hk', hne, hlen, hhex, hs, hcode, rfl⟩ := hexEscape_eq_ok.mp hd
        exact ⟨_, (hk₁.trans hk₂).trans hk', .code hx hne hlen hhex hs hcode⟩
      · exact absurd h fail_ne_ok

theorem escape_of_letter {e c : Char} {k k' : Cursor} (hk : k.Passes ['\\', e] k')
    (he : (e, c) ∈ escapes) : escape e k = (.ok (.char c), k') := by
  have hblank : ∀ x ∈ escapes, Character.isBlank x.1 = false := by decide
  have hk₁ := hk.next.2
  rw [escape, bind_ok (position_apply k), bind_ok (advance_apply k),
    if_neg (by simp [hblank _ he]), bind_ok (advance_apply _), hk₁.next.1.unique hk₁,
    escaped?_eq_some.mpr he]
  rfl

theorem escape_of_code {x : Char} {digits : List Char} {k k' : Cursor}
    (hk : k.Passes ('\\' :: x :: digits) k') (hx : x = 'x' ∨ x = 'u') (hne : digits ≠ [])
    (hlen : digits.length ≤ 4) (hhex : ∀ d ∈ digits, (hexValue? d).isSome = true)
    (hs : digits.length < 4 → Text.Stops (hexValue? · |>.isSome) k'.rest)
    (hcode : ¬(0xD800 ≤ hexNumber digits ∧ hexNumber digits ≤ 0xDFFF)) :
    escape x k = (.ok (.char (.ofNat (hexNumber digits))), k') := by
  have hk₂ := hk.next.2.next.2
  have hblank : Character.isBlank x = false ∧ escaped? x = none := by
    rcases hx with rfl | rfl <;> decide
  have hhexEscape : ∀ start, hexEscape start _ = (.ok _, k') := fun start =>
    hexEscape_eq_ok.mpr ⟨digits, hk₂, hne, hlen, hhex, hs, hcode, rfl⟩
  rw [escape, bind_ok (position_apply k), bind_ok (advance_apply k),
    if_neg (by simp [hblank.1]), bind_ok (advance_apply _), hblank.2]
  dsimp only
  rw [if_pos hx, bind_ok (hhexEscape k.position)]
  rfl

theorem escape_of_continuation {c : Char} {t before lineBreak after : List Char}
    {k k' : Cursor} (hr : k.rest = '\\' :: c :: t)
    (hk : k.Passes ('\\' :: before ++ lineBreak ++ after) k')
    (hb : ∀ d ∈ before, isIndent d = true) (hbrk : LineBreak lineBreak (after ++ k'.rest))
    (ha : ∀ d ∈ after, isIndent d = true) (hs : Text.Stops isIndent k'.rest) :
    escape c k = (.ok .nothing, k') := by
  have hk₁ : k.next.Passes (before ++ lineBreak ++ after) k' := hk.next.2
  have hc : Character.isBlank c = true := by
    have hct : before ++ lineBreak ++ after ++ k'.rest = c :: t := by
      rw [← hk₁.rest]
      exact (next_of_rest hr).2
    cases before with
    | nil => cases hbrk <;> (cases hct; decide)
    | cons d before =>
      cases hct
      have := hb c (by simp)
      simp only [isIndent, Bool.and_eq_true] at this
      exact this.1
  have hl : ∀ start, lineContinuation start k.next = (.ok (), k') := fun start =>
    lineContinuation_ok hk₁ hb hbrk ha hs
  rw [escape, bind_ok (position_apply k), bind_ok (advance_apply k),
    if_pos hc, bind_ok (hl k.position)]
  rfl

theorem piece_of_plain {q c : Char} {start : Nat} {k k' : Cursor} (hk : k.Passes [c] k')
    (hc : c ≠ '\\') :
    piece q start k = (.ok (if c = q then .closing else .char c), k') := by
  have hr := hk.rest
  rw [piece, bind_ok (rest_apply k)]
  generalize k.rest = r at hr ⊢
  split
  · cases hr
  · exact absurd (List.cons.inj hr).1.symm hc
  · exact absurd (List.cons.inj hr).1.symm hc
  · cases hr
    rw [bind_ok (advance_apply k), hk.next.1.unique hk]
    rfl

theorem piece_of_escape {q c : Char} {start : Nat} {t : List Char} {k : Cursor}
    (hr : k.rest = '\\' :: c :: t) : piece q start k = escape c k := by
  rw [piece, bind_ok (rest_apply k), hr]
  rfl

theorem piece_eq_ok {q : Char} {start : Nat} {p : Piece} {k k' : Cursor} (hq : q ≠ '\\') :
    piece q start k = (.ok p, k') ↔ ∃ s, k.Passes s k' ∧ p.Spelled q s k'.rest := by
  constructor
  · intro h
    obtain ⟨_, _, hrest, h⟩ := bind_eq_ok.mp h
    cases hrest
    generalize hr : k.rest = r at h
    split at h
    · exact absurd h fail_ne_ok
    · exact absurd h fail_ne_ok
    · exact of_escape hr h
    · rename_i c t hne hesc
      obtain ⟨_, _, hadv, h⟩ := bind_eq_ok.mp h
      cases hadv
      obtain ⟨rfl, rfl⟩ := pure_eq_ok.mp h
      refine ⟨[c], (next_of_rest hr).1, ?_⟩
      split
      · rename_i hc
        rw [hc]
        rfl
      · rename_i hc
        refine .verbatim hc ?_
        intro he
        subst he
        cases t with
        | nil => exact hne rfl rfl
        | cons d t => exact hesc d t rfl rfl
  · intro h
    obtain ⟨s, hk, hs⟩ := h
    cases p with
    | closing =>
      cases hs
      rw [piece_of_plain hk hq, if_pos rfl]
    | nothing =>
      cases hs with
      | @continuation before lineBreak after _ hb hbrk ha hstop =>
        obtain ⟨c, t, hr⟩ : ∃ c t, k.rest = '\\' :: c :: t := by
          rw [hk.rest]
          cases before with
          | nil => cases hbrk <;> exact ⟨_, _, rfl⟩
          | cons d before => exact ⟨d, _, rfl⟩
        rw [piece_of_escape hr, escape_of_continuation hr hk hb hbrk ha hstop]
    | char c =>
      cases hs with
      | verbatim hc he => rw [piece_of_plain hk he, if_neg hc]
      | letter he => rw [piece_of_escape hk.rest, escape_of_letter hk he]
      | code hx hne hlen hhex hstop hcode =>
        rw [piece_of_escape hk.rest, escape_of_code hk hx hne hlen hhex hstop hcode]

/-- A step of the loop that reads a literal. -/
def quotedStep (q : Char) (start : Nat) (read : List Char) :
    Scan (Turn (List Char) (List Char)) := do
  match ← piece q start with
  | .closing => return .done read
  | .nothing => return .again read
  | .char c => return .again (c :: read)

theorem quotedStep_ok {q : Char} {start : Nat} {read : List Char} {p : Piece}
    {k k' : Cursor} (h : piece q start k = (.ok p, k')) :
    quotedStep q start read k = (.ok (match p with
      | .closing => .done read
      | .nothing => .again read
      | .char c => .again (c :: read)), k') := by
  rw [quotedStep, bind_ok h]
  cases p <;> rfl

theorem quotedStep_of_spelling {q : Char} {start : Nat} {read : List Char}
    {c : Option Char} {s : List Char} {k k' : Cursor} (hq : q ≠ '\\') (hk : k.Passes s k')
    (hs : Spelling q c s k'.rest) :
    quotedStep q start read k = (.ok (.again (c.toList ++ read)), k') := by
  cases c with
  | none => exact quotedStep_ok (p := .nothing) ((piece_eq_ok hq).mpr ⟨s, hk, hs⟩)
  | some c => exact quotedStep_ok (p := .char c) ((piece_eq_ok hq).mpr ⟨s, hk, hs⟩)

theorem quoted_of_spells {q : Char} {cs body : List Char} {k k' : Cursor}
    (hq : q = '"' ∨ q = '\'') (hk : k.Passes (q :: body ++ [q]) k')
    (hs : Spells q cs body) : quoted q k = (.ok (.ofList cs), k') := by
  have hne : q ≠ '\\' := by rcases hq with rfl | rfl <;> decide
  have finishes : ∀ {cs body : List Char}, Spells q cs body → ∀ (start : Nat) {k : Cursor}
      (read : List Char), k.Passes (body ++ [q]) k' →
      Finishes Cursor.rest (quotedStep q start) read k (cs.reverse ++ read) k' := by
    intro cs body hs start
    induction hs with
    | nil =>
      intro k read hk
      exact .done (quotedStep_ok (p := .closing) ((piece_eq_ok hne).mpr ⟨[q], hk, rfl⟩))
    | @cons c cs s rest first others ih =>
      intro k read hk
      rw [List.append_assoc] at hk
      obtain ⟨k₁, hk₁, hk'⟩ := hk.split
      have hr : k₁.rest = rest ++ q :: k'.rest := by rw [hk'.rest]; simp
      have hs₁ : Spelling q c s k₁.rest := by
        rw [hr]
        exact (Spelling.before_quote hq).mpr first
      refine .again (quotedStep_of_spelling hne hk₁ hs₁) ?_ ?_
      · have := hk₁.length
        have := List.length_pos_iff.mpr (Spelling.ne_nil first)
        omega
      · have := ih (c.toList ++ read) hk'
        cases c with
        | none => exact this
        | some c => simpa using this
  have hloop := finishes hs k.position [] hk.next.2
  rw [List.append_nil] at hloop
  rw [quoted, bind_ok (position_apply k), bind_ok (advance_apply k)]
  refine (bind_ok hloop.untilDone).trans ?_
  rw [List.reverse_reverse]
  rfl

theorem of_quoted {q : Char} {str : String} {k k' : Cursor} (hq : q = '"' ∨ q = '\'')
    (hr : k.rest.head? = some q) (h : quoted q k = (.ok str, k')) :
    ∃ cs body, k.Passes (q :: body ++ [q]) k' ∧ Spells q cs body ∧ str = .ofList cs := by
  have hne : q ≠ '\\' := by rcases hq with rfl | rfl <;> decide
  obtain ⟨_, _, hp, h⟩ := bind_eq_ok.mp h
  cases hp
  obtain ⟨_, _, hadv, h⟩ := bind_eq_ok.mp h
  cases hadv
  obtain ⟨read, k₁, hloop, h⟩ := bind_eq_ok.mp h
  obtain ⟨rfl, rfl⟩ := pure_eq_ok.mp h
  have hread := untilDone_induction
    (motive := fun read k out k' => ∃ cs body, k.Passes (body ++ [q]) k' ∧
      Spells q cs body ∧ out = cs.reverse ++ read) ?_ ?_ hloop
  · obtain ⟨cs, body, hk, hs, rfl⟩ := hread
    obtain ⟨t, hr⟩ := List.head?_eq_some_iff.mp hr
    exact ⟨cs, body, (next_of_rest hr).1.trans hk, hs, by simp⟩
  · intro read k out k' h
    obtain ⟨p, k₁, hp, h⟩ := bind_eq_ok.mp h
    obtain ⟨s, hk, hs⟩ := (piece_eq_ok hne).mp hp
    cases p with
    | closing =>
      obtain ⟨he, rfl⟩ := pure_eq_ok.mp h
      cases he
      cases hs
      exact ⟨[], [], hk, .nil, rfl⟩
    | nothing | char c =>
      obtain ⟨he, -⟩ := pure_eq_ok.mp h
      cases he
  · intro read k read' k₁ out k' h hrest
    obtain ⟨cs, body, hbody, hspells, rfl⟩ := hrest
    obtain ⟨p, k₂, hp, h⟩ := bind_eq_ok.mp h
    obtain ⟨s, hk, hs⟩ := (piece_eq_ok hne).mp hp
    have first : ∀ {c : Option Char}, Spelling q c s k₂.rest → k₂ = k₁ →
        k.Passes (s ++ body ++ [q]) k' ∧ Spells q (c.toList ++ cs) (s ++ body) := by
      intro c hs he
      subst he
      have hr : k₂.rest = body ++ q :: k'.rest := by rw [hbody.rest]; simp
      rw [hr] at hs
      refine ⟨?_, .cons ((Spelling.before_quote hq).mp hs) hspells⟩
      rw [List.append_assoc]
      exact hk.trans hbody
    cases p with
    | closing =>
      obtain ⟨he, -⟩ := pure_eq_ok.mp h
      cases he
    | nothing =>
      obtain ⟨he, hk₂⟩ := pure_eq_ok.mp h
      cases he
      obtain ⟨hk, hs⟩ := first hs hk₂
      exact ⟨_, _, hk, hs, rfl⟩
    | char c =>
      obtain ⟨he, hk₂⟩ := pure_eq_ok.mp h
      cases he
      obtain ⟨hk, hs⟩ := first hs hk₂
      exact ⟨_, _, hk, hs, by simp⟩

theorem raw_of_content {q : Char} {cs : List Char} {k k' : Cursor}
    (hk : k.Passes ('r' :: q :: cs ++ [q]) k') (hq : q ∉ cs) :
    raw q k = (.ok (.ofList cs), k') := by
  obtain ⟨k₁, hk₁, hclose⟩ := hk.next.2.next.2.split
  have hcontent : takeWhile (· != q) k.next.next = (.ok cs, k₁) := by
    refine takeWhile_eq_ok.mpr ⟨hk₁, ?_, ?_⟩
    · intro c hc
      simp only [bne_iff_ne]
      intro he
      subst he
      exact hq hc
    · intro c hc
      rw [hclose.head] at hc
      cases hc
      simp
  rw [raw, bind_ok (position_apply k), bind_ok (advance_apply k),
    bind_ok (advance_apply _), bind_ok hcontent, bind_ok (peek_apply k₁), hclose.head]
  dsimp only
  rw [if_neg (by simp), bind_ok (advance_apply k₁), hclose.next.1.unique hclose]
  rfl

theorem of_raw {q : Char} {str : String} {t : List Char} {k k' : Cursor}
    (hr : k.rest = 'r' :: q :: t) (h : raw q k = (.ok str, k')) :
    ∃ cs, k.Passes ('r' :: q :: cs ++ [q]) k' ∧ q ∉ cs ∧ str = .ofList cs := by
  obtain ⟨hk₁, hr⟩ := next_of_rest hr
  obtain ⟨hk₂, -⟩ := next_of_rest hr
  obtain ⟨_, _, hp, h⟩ := bind_eq_ok.mp h
  cases hp
  obtain ⟨_, _, hadv, h⟩ := bind_eq_ok.mp h
  cases hadv
  obtain ⟨_, _, hadv, h⟩ := bind_eq_ok.mp h
  cases hadv
  obtain ⟨cs, k₁, hcontent, h⟩ := bind_eq_ok.mp h
  obtain ⟨hk₃, hcs, hstop⟩ := takeWhile_eq_ok.mp hcontent
  obtain ⟨_, _, hpeek, h⟩ := bind_eq_ok.mp h
  cases hpeek
  split at h
  · obtain ⟨_, _, hf, -⟩ := bind_eq_ok.mp h
    exact absurd hf fail_ne_ok
  · rename_i hsome
    obtain ⟨_, _, hadv, h⟩ := bind_eq_ok.mp h
    cases hadv
    obtain ⟨rfl, rfl⟩ := pure_eq_ok.mp h
    obtain ⟨c, hc⟩ : ∃ c, k₁.rest.head? = some c := by
      cases hc : k₁.rest.head? with
      | none => exact absurd (by rw [hc]; rfl) hsome
      | some c => exact ⟨c, rfl⟩
    have hcq := hstop c hc
    obtain ⟨t, hr⟩ := List.head?_eq_some_iff.mp hc
    simp only [bne_eq_false_iff_eq] at hcq
    rw [hcq] at hr
    refine ⟨cs, (hk₁.trans hk₂).trans (hk₃.trans (next_of_rest hr).1), ?_, rfl⟩
    intro hmem
    have := hcs q hmem
    simp at this

end Scan
end Cjson
