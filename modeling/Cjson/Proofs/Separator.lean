import Cjson.Proofs.Word
import Cjson.Scan.Separator

namespace Cjson.Scan

open Cjson.Action Cursor

/-- Listings end at a bracket, or with the text. -/
def Terminator (terminator : Option Char) : Prop :=
  terminator ∈ [none, some ']', some '\x7d', some ')']

instance (terminator : Option Char) : Decidable (Terminator terminator) :=
  inferInstanceAs (Decidable (terminator ∈ _))

theorem Terminator.ofText : Terminator none := by
  simp [Terminator]

theorem Terminator.bracket : Terminator (some ']') := by
  simp [Terminator]

theorem Terminator.brace : Terminator (some '\x7d') := by
  simp [Terminator]

theorem Terminator.parenthesis : Terminator (some ')') := by
  simp [Terminator]

theorem Terminator.solid {terminator : Option Char} {rest : List Char}
    (h : Terminator terminator) (hr : rest.head? = terminator) : Solid rest := by
  simp only [Terminator, List.mem_cons, List.not_mem_nil, or_false] at h
  rcases h with rfl | rfl | rfl | rfl
  · rw [List.head?_eq_none_iff.mp hr]
    exact .nil
  all_goals
    obtain ⟨t, rfl⟩ := List.head?_eq_some_iff.mp hr
    exact .cons (by decide) (by decide)

/-- What a separator looks like in front of the rest of the text. -/
inductive Separated (terminator : Option Char) :
    Separator → List Char → (rest : List Char) → Prop
  | comma {g g' rest : List Char} {b b' : Bool} (gap : Gap b g)
      (gap' : GapBefore b' g' rest) : Separated terminator .comma (g ++ ',' :: g') rest
  | line {g rest : List Char} {c : Char} (gap : Gap true g) (solid : Solid (c :: rest))
      (noMark : c ∉ ['+', ',', ':', ';', '=']) (noTerminator : some c ≠ terminator) :
      Separated terminator .comma g (c :: rest)
  | colon {g g' rest : List Char} {b b' : Bool} (gap : Gap b g)
      (gap' : GapBefore b' g' rest) : Separated terminator .colon (g ++ ':' :: g') rest
  | terminator {g rest : List Char} {b : Bool} (gap : GapBefore b g rest)
      (ends : rest.head? = terminator) : Separated terminator .terminator g rest
  | textEnd {g : List Char} {b : Bool} (gap : GapBefore b g []) (unclosed : terminator ≠ none) :
      Separated terminator .textEnd g []

theorem of_separator {terminator : Option Char} {noColon : Option ColonFault}
    {sep : Separator} {k k' : Cursor}
    (h : separator terminator noColon k = (.ok sep, k')) :
    ∃ s, k.Passes s k' ∧ Separated terminator sep s k'.rest ∧
      (sep = .colon → noColon = none) := by
  obtain ⟨_, _, hp, h⟩ := bind_eq_ok.mp h
  cases hp
  obtain ⟨b, k₁, hgap, h⟩ := bind_eq_ok.mp h
  obtain ⟨g, hk₁, hg⟩ := gap_eq_ok.mp hgap
  obtain ⟨_, _, hp, h⟩ := bind_eq_ok.mp h
  cases hp
  obtain ⟨_, _, hpeek, h⟩ := bind_eq_ok.mp h
  cases hpeek
  have marked : ∀ {c : Char}, k₁.rest.head? = some c →
      ∀ {x : Scan Unit}, x k₁ = (.ok (), k₁.next) → ∀ {d : Separator},
      (x >>= fun _ => Scan.gap >>= fun _ => pure d) k₁ = (.ok sep, k') →
      d = sep ∧ ∃ b' g', Gap b g ∧ GapBefore b' g' k'.rest ∧ k.Passes (g ++ c :: g') k' := by
    intro c hc x hx d h
    rw [bind_ok hx] at h
    obtain ⟨b', k₂, hgap, h⟩ := bind_eq_ok.mp h
    obtain ⟨g', hk₂, hg'⟩ := gap_eq_ok.mp hgap
    obtain ⟨rfl, rfl⟩ := pure_eq_ok.mp h
    obtain ⟨r, hr⟩ := List.head?_eq_some_iff.mp hc
    exact ⟨rfl, b', g', hg.gap (by simp [hr]), hg', hk₁.trans ((next_of_rest hr).1.trans hk₂)⟩
  generalize hc : k₁.rest.head? = o at h
  split at h
  · obtain ⟨rfl, rfl⟩ := pure_eq_ok.mp h
    have hr : k₁.rest = [] := List.head?_eq_none_iff.mp hc
    refine ⟨g, hk₁, ?_⟩
    cases terminator with
    | none => exact ⟨.terminator hg hc, by simp⟩
    | some t =>
      rw [hr] at hg ⊢
      exact ⟨.textEnd hg (by simp), by simp⟩
  · exact absurd h fail_ne_ok
  · obtain ⟨rfl, b', g', hg, hg', hk'⟩ := marked hc (advance_apply k₁) h
    exact ⟨_, hk', .comma hg hg', by simp⟩
  · cases noColon with
    | some why => exact absurd h fail_ne_ok
    | none =>
      obtain ⟨rfl, b', g', hg, hg', hk'⟩ := marked hc (advance_apply k₁) h
      exact ⟨_, hk', .colon hg hg', fun _ => rfl⟩
  · rename_i c hplus hcomma hcolon
    obtain ⟨r, hr⟩ := List.head?_eq_some_iff.mp hc
    split at h
    · rename_i ht
      obtain ⟨rfl, rfl⟩ := pure_eq_ok.mp h
      exact ⟨g, hk₁, .terminator hg (hc.trans ht), by simp⟩
    · rename_i ht
      split at h
      · exact absurd h fail_ne_ok
      · rename_i hsemicolon
        split at h
        · exact absurd h fail_ne_ok
        · rename_i hequals
          split at h
          · rename_i hb
            obtain ⟨rfl, rfl⟩ := pure_eq_ok.mp h
            refine ⟨g, hk₁, ?_⟩
            have hsolid := hg.solid
            have hgap := hg.gap (by simp [hr])
            rw [hb] at hgap
            rw [hr] at hsolid ⊢
            refine ⟨.line hgap hsolid ?_ ht, by simp⟩
            simp only [List.mem_cons, List.not_mem_nil, or_false, not_or]
            exact ⟨hplus, hcomma, hcolon, hsemicolon, hequals⟩
          · split at h
            · exact absurd h fail_ne_ok
            · exact absurd h fail_ne_ok

theorem separator_of_separated {terminator : Option Char} {noColon : Option ColonFault}
    {sep : Separator} {s : List Char} {k k' : Cursor} (ht : Terminator terminator)
    (hsep : sep = .colon → noColon = none) (hk : k.Passes s k')
    (h : Separated terminator sep s k'.rest) :
    separator terminator noColon k = (.ok sep, k') := by
  have marked : ∀ {g g' : List Char} {b b' : Bool} {c : Char}, Solid (c :: g' ++ k'.rest) →
      Gap b g → GapBefore b' g' k'.rest → k.Passes (g ++ c :: g') k' →
      ∃ k₁, Scan.gap k = (.ok b, k₁) ∧ k₁.rest.head? = some c ∧
        Scan.gap k₁.next = (.ok b', k') := by
    intro g g' b b' c hsolid hg hg' hk
    obtain ⟨k₁, hk₁, hk'⟩ := hk.split
    refine ⟨k₁, gap_eq_ok.mpr ⟨g, hk₁, hg.before ?_⟩, hk'.head,
      gap_eq_ok.mpr ⟨g', hk'.next.2, hg'⟩⟩
    rw [hk'.rest]
    exact hsolid
  rw [separator, bind_ok (position_apply k)]
  generalize hrest : k'.rest = rest at h marked
  cases h with
  | comma hg hg' =>
    obtain ⟨k₁, hgap, hc, hgap'⟩ := marked (.cons (by decide) (by decide)) hg hg' hk
    rw [bind_ok hgap, bind_ok (position_apply k₁), bind_ok (peek_apply k₁), hc]
    change (advance >>= fun _ => Scan.gap >>= fun _ => pure Separator.comma) k₁ = _
    rw [bind_ok (advance_apply k₁), bind_ok hgap']
    rfl
  | colon hg hg' =>
    obtain ⟨k₁, hgap, hc, hgap'⟩ := marked (.cons (by decide) (by decide)) hg hg' hk
    rw [bind_ok hgap, bind_ok (position_apply k₁), bind_ok (peek_apply k₁), hc, hsep rfl]
    change (advance >>= fun _ => Scan.gap >>= fun _ => pure Separator.colon) k₁ = _
    rw [bind_ok (advance_apply k₁), bind_ok hgap']
    rfl
  | @line g rest c hg hsolid hmark hterm =>
    have hgap : Scan.gap k = (.ok true, k') :=
      gap_eq_ok.mpr ⟨_, hk, hg.before (hrest ▸ hsolid)⟩
    have hc : k'.rest.head? = some c := by rw [hrest]; rfl
    rw [bind_ok hgap, bind_ok (position_apply k'), bind_ok (peek_apply k')]
    generalize k'.rest.head? = o at hc ⊢
    simp only [List.mem_cons, List.not_mem_nil, or_false, not_or] at hmark
    obtain ⟨hplus, hcomma, hcolon, hsemicolon, hequals⟩ := hmark
    split
    · cases hc
    · cases hc
      exact absurd rfl hplus
    · cases hc
      exact absurd rfl hcomma
    · cases hc
      exact absurd rfl hcolon
    · cases hc
      rw [if_neg hterm, if_neg hsemicolon, if_neg hequals, if_pos rfl]
      rfl
  | terminator hg hends =>
    have hgap := gap_eq_ok.mpr ⟨_, hk, hrest ▸ hg⟩
    rw [bind_ok hgap, bind_ok (position_apply k'), bind_ok (peek_apply k'), hrest, hends]
    simp only [Terminator, List.mem_cons, List.not_mem_nil, or_false] at ht
    rcases ht with rfl | rfl | rfl | rfl <;> rfl
  | textEnd hg hunclosed =>
    have hgap := gap_eq_ok.mpr ⟨_, hk, hrest ▸ hg⟩
    rw [bind_ok hgap, bind_ok (position_apply k'), bind_ok (peek_apply k'), hrest]
    cases terminator with
    | none => exact absurd rfl hunclosed
    | some t => rfl

/-- A word ends in front of each separator, unless a parenthesis begins the next line. -/
theorem Separated.wordEnds {terminator : Option Char} {sep : Separator} {s rest : List Char}
    (ht : Terminator terminator) (h : Separated terminator sep s rest)
    (hc : rest.head? ≠ some '(') : WordEnds (s ++ rest) := by
  have marked : ∀ {g g' rest : List Char} {b : Bool} {c : Char}, Gap b g →
      Character.joins c = false → Solid (c :: g' ++ rest) → c ≠ '(' →
      WordEnds (g ++ c :: g' ++ rest) := by
    intro g g' rest b c hg hword hsolid hne
    rw [List.append_assoc]
    refine (hg.before hsolid).wordEnds ?_ (by simpa using hne)
    intro _ d hd
    cases hd
    exact hword
  cases h with
  | comma hg hg' => exact marked hg (by decide) (.cons (by decide) (by decide)) (by decide)
  | colon hg hg' => exact marked hg (by decide) (.cons (by decide) (by decide)) (by decide)
  | line hg hsolid _ _ =>
    exact (hg.before hsolid).wordEnds (fun he => absurd he hg.ne_nil) hc
  | terminator hg hends =>
    refine hg.wordEnds ?_ hc
    intro _ d hd
    rw [hends] at hd
    simp only [Terminator, List.mem_cons, List.not_mem_nil, or_false] at ht
    rcases ht with rfl | rfl | rfl | rfl <;> cases hd <;> decide
  | textEnd hg _ =>
    refine hg.wordEnds ?_ hc
    intro _ d hd
    cases hd

end Cjson.Scan
