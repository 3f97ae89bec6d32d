import Cjson.Proofs.Listed
import Cjson.Scan.Skim

namespace Cjson

/-- At most the first character of a piece is a backslash, and that protects the second. -/
theorem Spelling.plain {q : Char} {c : Option Char} {s rest : List Char}
    (hq : q = '"' ∨ q = '\'') (h : Spelling q c s rest) :
    (∀ d ∈ s, d ≠ q ∧ d ≠ '\\') ∨
      ∃ d t, s = '\\' :: d :: t ∧ ∀ d ∈ t, d ≠ q ∧ d ≠ '\\' := by
  have plain : ∀ d, Scan.isIndent d = true ∨ (Scan.hexValue? d).isSome = true ∨
      Character.isLineBreak d = true → d ≠ q ∧ d ≠ '\\' := by
    intro d hd
    constructor
    · intro he
      subst he
      rcases hq with rfl | rfl <;> revert hd <;> decide
    · intro he
      subst he
      revert hd
      decide
  cases h with
  | verbatim noQuote noEscape => exact .inl (by simpa using ⟨noQuote, noEscape⟩)
  | letter _ => exact .inr ⟨_, [], rfl, by simp⟩
  | code _ _ _ hex _ _ =>
    exact .inr ⟨_, _, rfl, fun d hd => plain d (.inr (.inl (hex d hd)))⟩
  | @continuation before lineBreak after _ hb hbrk ha _ =>
    have hall : ∀ d ∈ before ++ lineBreak ++ after, d ≠ q ∧ d ≠ '\\' := by
      intro d hd
      simp only [List.mem_append] at hd
      rcases hd with (hd | hd) | hd
      · exact plain d (.inl (hb d hd))
      · refine plain d (.inr (.inr ?_))
        cases hbrk with
        | lf | cr _ =>
          rw [List.mem_singleton.mp hd]
          decide
        | crlf =>
          simp only [List.mem_cons, List.not_mem_nil, or_false] at hd
          rcases hd with rfl | rfl <;> decide
      · exact plain d (.inl (ha d hd))
    obtain ⟨d, t, ht⟩ : ∃ d t, before ++ lineBreak ++ after = d :: t := by
      cases before with
      | nil => cases hbrk <;> exact ⟨_, _, rfl⟩
      | cons d before => exact ⟨d, _, rfl⟩
    refine .inr ⟨d, t, ?_, fun e he => hall e (by simp [ht, he])⟩
    rw [List.cons_append, List.cons_append, ht]

namespace Scan

open Cjson.Action Cursor

theorem skimQuotedFrom_plain {q : Char} {start p : Nat} {s t : List Char}
    (h : ∀ c ∈ s, c ≠ q ∧ c ≠ '\\') :
    skimQuotedFrom q start p (s ++ t) = skimQuotedFrom q start (p + Text.size s) t := by
  induction s generalizing p with
  | nil => simp
  | cons c s ih =>
    obtain ⟨hq, hesc⟩ := h c (by simp)
    rw [List.cons_append, skimQuotedFrom, if_neg hq, ih fun d hd => h d (by simp [hd]),
      Text.size_cons, Nat.add_assoc]
    intro _ _ he
    subst he
    exact absurd rfl hesc

theorem skimQuoted_of_spells {q : Char} {cs body : List Char} {k k' : Cursor}
    (hq : q = '"' ∨ q = '\'') (hk : k.Passes (q :: body ++ [q]) k')
    (hs : Spells q cs body) : skimQuoted q k = (.ok (), k') := by
  have skims : ∀ (start p : Nat) (t : List Char),
      skimQuotedFrom q start p (body ++ q :: t) =
        (.ok (), ⟨p + Text.size body + q.utf8Size, t⟩) := by
    intro start p t
    clear hk
    induction hs generalizing p with
    | nil =>
      rw [List.nil_append, skimQuotedFrom, if_pos rfl]
      · simp
      · intro _ _ he
        subst he
        rcases hq with hq | hq <;> cases hq
    | @cons c cs s rest first others ih =>
      rw [List.append_assoc]
      rcases first.plain hq with hplain | ⟨d, u, rfl, hplain⟩
      · rw [skimQuotedFrom_plain hplain, ih, Text.size_append, Nat.add_assoc p]
      · rw [List.cons_append, List.cons_append, skimQuotedFrom, skimQuotedFrom_plain hplain, ih]
        simp only [Text.size_append, Text.size_cons, show '\\'.utf8Size = 1 from rfl]
        congr 2
        omega
  have hk' : k.next.Passes (body ++ [q]) k' := hk.next.2
  have hp : k'.position = k.next.position + Text.size body + q.utf8Size := by
    rw [hk'.position, Text.size_append, Nat.add_assoc]
    rfl
  rw [skimQuoted, bind_ok (position_apply k), bind_ok (advance_apply k)]
  change skimQuotedFrom q k.position k.next.position k.next.rest = _
  rw [hk'.rest, List.append_assoc, List.singleton_append, skims, ← hp]

/-- What a skimmed listing consists of, up to its terminator: expressions and separators
in whatever order. -/
inductive Strewn (P : List Char → Prop) (terminator : Char) : Cursor → Cursor → Prop
  | nil {k : Cursor} (ends : k.rest.head? = some terminator) : Strewn P terminator k k
  | mark {c : Char} {g : List Char} {b : Bool} {k k₁ k' : Cursor}
      (mark : c ∈ [',', ':', ';', '=']) (passes : k.Passes (c :: g) k₁)
      (gap : GapBefore b g k₁.rest) (others : Strewn P terminator k₁ k') :
      Strewn P terminator k k'
  | expression {u g : List Char} {b : Bool} {k k₁ k' : Cursor} (expression : P u)
      (passes : k.Passes (u ++ g) k₁) (gap : GapBefore b g k₁.rest)
      (ends : WordEnds (g ++ k₁.rest)) (others : Strewn P terminator k₁ k') :
      Strewn P terminator k k'

theorem skimListing_of_strewn {P : List Char → Prop} {expression : Scan Unit}
    {terminator : Char} (ht : terminator ∈ [']', '\x7d', ')'])
    (hP : ∀ u, P u → Text.Opens u)
    (hexpression : ∀ u k k', P u → k.Passes u k' → WordEnds k'.rest →
      expression k = (.ok (), k'))
    {g : List Char} {b : Bool} {k k₁ k' : Cursor} (hk : k.Passes g k₁)
    (hg : GapBefore b g k₁.rest) (h : Strewn P terminator k₁ k') :
    skimListing expression terminator k = (.ok (), k') := by
  rw [skimListing, bind_ok (position_apply k), bind_ok (gap_eq_ok.mpr ⟨g, hk, hg⟩)]
  refine Finishes.untilDone ?_
  clear hk hg
  induction h with
  | nil ends =>
    refine .done ?_
    rw [bind_ok (peek_apply _), ends]
    dsimp only
    rw [if_pos rfl]
    rfl
  | @mark c g b k k₁ k' hmark passes gap others ih =>
    refine .again ?_ ?_ ih
    · obtain ⟨hnext, hgap⟩ := passes.next
      have hc : c ≠ terminator := by
        intro he
        subst he
        simp only [List.mem_cons, List.not_mem_nil, or_false] at ht
        rcases ht with rfl | rfl | rfl <;> simp at hmark
      have hmark' : c = ',' ∨ c = ':' ∨ c = ';' ∨ c = '=' := by simpa using hmark
      rw [bind_ok (peek_apply _), passes.head]
      dsimp only
      rw [if_neg hc, if_pos hmark', bind_ok (advance_apply k),
        bind_ok (gap_eq_ok.mpr ⟨g, hgap, gap⟩)]
      rfl
    · have := passes.length
      simp only [List.length_cons] at this
      omega
  | @expression u g b k k₂ k' hu passes gap ends others ih =>
    obtain ⟨c, r, rfl, hc⟩ := hP u hu
    obtain ⟨k₁, hk₁, hk₂⟩ := passes.split
    have hterm : c ≠ terminator := by
      apply Character.ne_of_opens hc
      simp only [List.mem_cons, List.not_mem_nil, or_false] at ht
      rcases ht with rfl | rfl | rfl
      · rfl
      · rfl
      · rfl
    have hmark := Character.not_mark_of_opens hc
    refine .again ?_ ?_ ih
    · rw [bind_ok (peek_apply _), hk₁.head]
      dsimp only
      rw [if_neg hterm, if_neg hmark,
        bind_ok (hexpression _ _ _ hu hk₁ (by rwa [hk₂.rest])),
        bind_ok (gap_eq_ok.mpr ⟨g, hk₂, gap⟩)]
      rfl
    · have := passes.length
      simp only [List.length_append, List.length_cons] at this
      omega

/-- A spelled expression of at most `n` characters. -/
def Skims (n : Nat) (u : List Char) : Prop :=
  ∃ t : Tree, t.Spelled Word u ∧ u.length ≤ n

theorem Skims.opens {n : Nat} {u : List Char} (h : Skims n u) : Text.Opens u := by
  obtain ⟨t, ht, -⟩ := h
  exact ht.opens

theorem Strewn.separated {P : List Char → Prop} {terminator : Char} {d : Separator}
    {u sep : List Char} {k k₁ k' : Cursor} (hu : P u) (hk : k.Passes (u ++ sep) k₁)
    (hsep : Separated (some terminator) d sep k₁.rest) (hends : WordEnds (sep ++ k₁.rest))
    (h : Strewn P terminator k₁ k') : Strewn P terminator k k' := by
  have marked : ∀ {c : Char} {g g' : List Char} {b b' : Bool}, c ∈ [',', ':', ';', '='] →
      Gap b g → GapBefore b' g' k₁.rest → k.Passes (u ++ (g ++ c :: g')) k₁ →
      WordEnds (g ++ c :: g' ++ k₁.rest) → Strewn P terminator k k' := by
    intro c g g' b b' hc hg hg' hk hends
    have hsolid : ∀ t, Solid (c :: t) := by
      intro t
      simp only [List.mem_cons, List.not_mem_nil, or_false] at hc
      rcases hc with rfl | rfl | rfl | rfl <;> exact .cons (by decide) (by decide)
    rw [← List.append_assoc] at hk
    obtain ⟨k₂, hk₂, hk₁⟩ := hk.split
    refine .expression hu hk₂ (hg.before ?_) ?_ (.mark hc hk₁ hg' h)
    · rw [hk₁.rest]
      exact hsolid _
    · rwa [hk₁.rest, ← List.append_assoc]
  generalize hr : k₁.rest = rest at hsep hends marked
  cases hsep with
  | comma hg hg' => exact marked (by decide) hg hg' hk hends
  | colon hg hg' => exact marked (by decide) hg hg' hk hends
  | line hg hsolid _ _ => exact .expression hu hk (hr ▸ hg.before hsolid) (hr ▸ hends) h
  | terminator hg _ => exact .expression hu hk (hr ▸ hg) (hr ▸ hends) h
  | textEnd hg _ => exact .expression hu hk (hr ▸ hg) (hr ▸ hends) h

theorem Strewn.of_trees {n : Nat} {terminator : Char} (ht : Terminator (some terminator))
    {ts : List Tree} {k k' : Cursor}
    (h : Lists (fun t u => t.Spelled Word u ∧ u.length ≤ n) (some terminator) ts k k') :
    Strewn (Skims n) terminator k k' := by
  have hP : ∀ (t : Tree) (u : List Char), t.Spelled Word u ∧ u.length ≤ n → Text.Opens u :=
    fun t u hu => hu.1.opens
  induction h with
  | nil ends => exact .nil ends
  | @last t u sep k k' item passes ends =>
    have hend : k'.rest.head? = some terminator := by
      cases ends
      assumption
    exact .separated ⟨t, item⟩ passes ends
      (ends.wordEnds ht ((Lists.nil hend : Lists _ _ _ _ _).head ht hP)) (.nil hend)
  | @cons t ts u sep k k₁ k' item passes separated others ih =>
    exact .separated ⟨t, item⟩ passes separated
      (separated.wordEnds ht (others.head ht hP)) ih

theorem Skims.of_key {n : Nat} {key : String} {s : List Char} (h : KeySpelled Word key s)
    (hn : s.length ≤ n) : Skims n s := by
  cases h with
  | word hw => exact ⟨.word s, .word hw, hn⟩
  | literal hl => exact ⟨.literal key, .literal hl, hn⟩

theorem Strewn.entry {n : Nat} {terminator : Char} (ht : Terminator (some terminator))
    {d : Separator} {e : Entry} {u sep : List Char} {k k₁ k' : Cursor}
    (he : e.Spelled Word u) (hn : u.length ≤ n) (hk : k.Passes (u ++ sep) k₁)
    (hsep : Separated (some terminator) d sep k₁.rest) (hends : WordEnds (sep ++ k₁.rest))
    (h : Strewn (Skims n) terminator k₁ k') : Strewn (Skims n) terminator k k' := by
  cases he with
  | bare hkey => exact .separated (.of_key hkey hn) hk hsep hends h
  | @merged entries g s b hg hs => exact .separated ⟨.map entries, .map hg hs, hn⟩ hk hsep hends h
  | @pair key s g g' v t b b' hkey hg hg' hv =>
    have hu : s ++ g ++ ':' :: g' ++ v ++ sep = (s ++ (g ++ ':' :: g')) ++ (v ++ sep) := by simp
    rw [hu] at hk
    obtain ⟨k₂, hk₂, hk₁⟩ := hk.split
    simp only [List.length_append, List.length_cons] at hn
    have hopens : Text.Opens k₂.rest := by
      rw [hk₁.rest, List.append_assoc]
      exact hv.opens.append _
    have hcolon : Separated (some terminator) .colon (g ++ ':' :: g') k₂.rest :=
      .colon hg (hg'.before hopens.solid)
    have hne : k₂.rest.head? ≠ some '(' := hopens.head_ne rfl
    refine .separated (.of_key hkey (by omega)) hk₂ hcolon (hcolon.wordEnds ht hne) ?_
    exact .separated ⟨t, hv, by omega⟩ hk₁ hsep hends h

theorem Strewn.of_entries {n : Nat} {terminator : Char} (ht : Terminator (some terminator))
    {es : List Entry} {k k' : Cursor}
    (h : Lists (fun e u => e.Spelled Word u ∧ u.length ≤ n) (some terminator) es k k') :
    Strewn (Skims n) terminator k k' := by
  have hP : ∀ (e : Entry) (u : List Char), e.Spelled Word u ∧ u.length ≤ n → Text.Opens u :=
    fun e u hu => hu.1.opens
  induction h with
  | nil ends => exact .nil ends
  | @last e u sep k k' item passes ends =>
    have hend : k'.rest.head? = some terminator := by
      cases ends
      assumption
    exact .entry ht item.1 item.2 passes ends
      (ends.wordEnds ht ((Lists.nil hend : Lists _ _ _ _ _).head ht hP)) (.nil hend)
  | @cons e es u sep k k₁ k' item passes separated others ih =>
    exact .entry ht item.1 item.2 passes separated
      (separated.wordEnds ht (others.head ht hP)) ih

/-- The inside of brackets is passed over, if whatever is in it can be. -/
theorem skimListing_of_inside {α : Type} {P : α → List Char → Prop} {c : Char} {n : Nat}
    {expression : Scan Unit} (ht : c ∈ [']', '\x7d', ')'])
    (hexpression : ∀ u k k', Skims n u → k.Passes u k' → WordEnds k'.rest →
      expression k = (.ok (), k'))
    (hstrewn : ∀ as k k', Lists P (some c) as k k' → Strewn (Skims n) c k k')
    {as : List α} {k k' : Cursor} (h : Inside P (some c) as k k') :
    skimListing expression c k = (.ok (), k') := by
  obtain ⟨b, k₁, hgap, hlists⟩ := h
  obtain ⟨g, hk₁, hg⟩ := gap_eq_ok.mp hgap
  exact skimListing_of_strewn ht (fun u hu => hu.opens) hexpression hk₁ hg
    (hstrewn as k₁ k' hlists)

section Expressions

variable {x : Char} {room : List Char} {k k' : Cursor}

/-- What does not begin with a bracket or a quote is passed over as a word. -/
theorem skim_word (h : Text.BeginsWord k.rest) :
    skim (x :: room) k = (wordOrCall >>= fun r =>
      if r.2 then skimListing (skim room) ')' >>= fun _ => advance else pure ()) k := by
  obtain ⟨c, t, hr, hc, hraw⟩ := h
  rw [skim, bind_ok (rest_apply k)]
  generalize k.rest = r at hr
  split
  · cases hr
  · cases hr
    exact absurd rfl (hraw '"' (.inl rfl) rfl)
  · cases hr
    exact absurd rfl (hraw '\'' (.inr rfl) rfl)
  · cases hr
    have hne : ∀ d, Character.isWordChar d = false → d ≠ '+' → c ≠ d := by
      intro d hword hplus he
      subst he
      simp [hword, hplus] at hc
    have hquote : ¬(c = '"' ∨ c = '\'') := by
      simpa using ⟨hne '"' rfl (by simp), hne '\'' rfl (by simp)⟩
    have hclosing : closing? c = none := by
      unfold closing?
      split
      · exact absurd rfl (hne '\x7b' rfl (by simp))
      · exact absurd rfl (hne '[' rfl (by simp))
      · exact absurd rfl (hne '<' rfl (by simp))
      · exact absurd rfl (hne '(' rfl (by simp))
      · rfl
    rw [if_neg hquote, hclosing]

theorem skim_literal {str : String} {s : List Char} (h : Literal str s)
    (hk : k.Passes s k') : skim (x :: room) k = (.ok (), k') := by
  rw [skim, bind_ok (rest_apply k), hk.rest]
  cases h with
  | quoted hq hs =>
    have hquoted := skimQuoted_of_spells hq hk hs
    rcases hq with rfl | rfl
    · exact hquoted
    · exact hquoted
  | raw hq hs =>
    have hraw := discard_ok (raw_of_content hk hs)
    rcases hq with rfl | rfl
    · exact hraw
    · exact hraw

theorem skim_bracket {o c : Char} (hoc : o = '[' ∧ c = ']' ∨ o = '\x7b' ∧ c = '\x7d')
    {t : List Char} {k₂ : Cursor} (hr : k.rest = o :: t)
    (hskim : skimListing (skim room) c k.next = (.ok (), k₂)) (hk₂ : k₂.Passes [c] k') :
    skim (x :: room) k = (.ok (), k') := by
  have hbrackets : skim (x :: room) k =
      (advance >>= fun _ => skimListing (skim room) c >>= fun _ => advance) k := by
    rw [skim, bind_ok (rest_apply k), hr]
    obtain ⟨rfl, rfl⟩ | ⟨rfl, rfl⟩ := hoc
    · rfl
    · rfl
  rw [hbrackets, bind_ok (advance_apply k), bind_ok hskim, advance_apply, hk₂.next.1.unique hk₂]

/-- A spelled expression is passed over exactly, where it does not end as a word that goes
on. -/
theorem skim_of_spelled {t : Tree} {s : List Char} (hroom : s.length ≤ room.length)
    (hs : t.Spelled Word s) (hk : k.Passes s k') (hend : ∀ w, t = .word w → WordEnds k'.rest) :
    skim room k = (.ok (), k') := by
  induction room generalizing t s k k' with
  | nil =>
    obtain ⟨c, r, rfl, -⟩ := hs.opens
    cases hroom
  | cons x room ih =>
    have ih' : ∀ u k k', Skims room.length u → k.Passes u k' → WordEnds k'.rest →
        skim room k = (.ok (), k') := by
      intro u k k' h hk hend
      obtain ⟨t, ht, hn⟩ := h
      exact ih hn ht hk fun _ _ => hend
    rw [List.length_cons] at hroom
    cases hs with
    | word hw =>
      have hend := hend _ rfl
      rw [skim_word (by rw [hk.rest]; exact hw.begins hend.1), bind_ok (wordOrCall_word hk hw hend)]
      rfl
    | literal hl => exact skim_literal hl hk
    | @list items g s b hg hs =>
      simp only [List.length_append, List.length_cons] at hroom
      have hn : s.length ≤ room.length := by omega
      obtain ⟨k₂, hinside, hk₂⟩ :=
        inside_of_bracket Terminator.bracket (fun _ _ h => h.opens) hg hs hn hk.next.2
      have hskim := skimListing_of_inside (by simp) ih'
        (fun _ _ _ => .of_trees Terminator.bracket) hinside
      exact skim_bracket (.inl ⟨rfl, rfl⟩) hk.rest hskim hk₂
    | @map entries g s b hg hs =>
      simp only [List.length_append, List.length_cons] at hroom
      have hn : s.length ≤ room.length := by omega
      obtain ⟨k₂, hinside, hk₂⟩ :=
        inside_of_bracket Terminator.brace (fun _ _ h => h.opens) hg hs hn hk.next.2
      have hskim := skimListing_of_inside (by simp) ih'
        (fun _ _ _ => .of_entries Terminator.brace) hinside
      exact skim_bracket (.inr ⟨rfl, rfl⟩) hk.rest hskim hk₂
    | @call f g g' s arguments b b' hf hg hg' hs =>
      have he : f ++ g ++ '(' :: g' ++ s ++ [')'] = (f ++ g ++ ['(']) ++ (g' ++ s ++ [')']) := by
        simp
      rw [he] at hk
      obtain ⟨k₁, hk₁, hk'⟩ := hk.split
      simp only [List.length_append, List.length_cons] at hroom
      have hn : s.length ≤ room.length := by omega
      obtain ⟨k₂, hinside, hk₂⟩ :=
        inside_of_bracket Terminator.parenthesis (fun _ _ h => h.opens) hg' hs hn hk'
      have hskim := skimListing_of_inside (by simp) ih'
        (fun _ _ _ => .of_trees Terminator.parenthesis) hinside
      have hbegins : Text.BeginsWord k.rest := by
        rw [hk₁.rest, List.append_assoc, List.append_assoc]
        exact hf.begins_call hg
      rw [skim_word hbegins, bind_ok (wordOrCall_call hk₁ hf hg)]
      change (skimListing (skim room) ')' >>= fun _ => advance) k₁ = _
      rw [bind_ok hskim, advance_apply, hk₂.next.1.unique hk₂]

end Expressions

theorem skimExpression_of_spelled {t : Tree} {s : List Char} {k k' : Cursor}
    (hs : t.Spelled Word s) (hk : k.Passes s k') (hend : WordEnds k'.rest) :
    skimExpression k = (.ok (), k') := by
  refine skim_of_spelled ?_ hs hk fun _ _ => hend
  have := hk.length
  omega

end Scan
end Cjson
