import Cjson.Proofs.Separator
import Cjson.Proofs.Tree

namespace Cjson

open Scan Cursor

variable {α : Type} {P : α → List Char → Prop} {terminator : Option Char}

/-- No item begins as a listing ends. -/
theorem Scan.Terminator.ne_head (ht : Terminator terminator) {s : List Char}
    (h : Text.Opens s) : s.head? ≠ terminator := by
  simp only [Terminator, List.mem_cons, List.not_mem_nil, or_false] at ht
  rcases ht with rfl | rfl | rfl | rfl
  · obtain ⟨c, r, rfl, -⟩ := h
    simp
  · exact h.head_ne rfl
  · exact h.head_ne rfl
  · exact h.head_ne rfl

/-- The items between two cursors, the first of which is in front of an item or of the
terminator, and the second in front of the terminator. -/
inductive Lists (P : α → List Char → Prop) (terminator : Option Char) :
    List α → Cursor → Cursor → Prop
  | nil {k : Cursor} (ends : k.rest.head? = terminator) : Lists P terminator [] k k
  | last {a : α} {u sep : List Char} {k k' : Cursor} (item : P a u)
      (passes : k.Passes (u ++ sep) k') (ends : Separated terminator .terminator sep k'.rest) :
      Lists P terminator [a] k k'
  | cons {a : α} {as : List α} {u sep : List Char} {k k₁ k' : Cursor} (item : P a u)
      (passes : k.Passes (u ++ sep) k₁) (separated : Separated terminator .comma sep k₁.rest)
      (others : Lists P terminator as k₁ k') : Lists P terminator (a :: as) k k'

/-- The items between two cursors, the first of which may have a gap in front of it. -/
def Inside (P : α → List Char → Prop) (terminator : Option Char) (as : List α)
    (k k' : Cursor) : Prop :=
  ∃ b k₁, gap k = (.ok b, k₁) ∧ Lists P terminator as k₁ k'

/-- The text of the items between two cursors, of which the first is behind the gap in
front of them. -/
def ListedFrom (P : α → List Char → Prop) (as : List α) (s tail : List Char)
    (k k' : Cursor) : Prop :=
  Listed P as s ∧ Closing tail k'.rest ∧
    ((as = [] ∧ k = k') ∨ (as ≠ [] ∧ k.Passes (s ++ tail) k'))

theorem Listed.mono {Q : α → List Char → Prop} (hPQ : ∀ a s, P a s → Q a s) {as : List α}
    {s : List Char} (h : Listed P as s) : Listed Q as s := by
  induction h with
  | nil => exact .nil
  | last item gap => exact .last (hPQ _ _ item) gap
  | comma item gap gap' _ ih => exact .comma (hPQ _ _ item) gap gap' ih
  | line item gap _ nonempty noPlus ih => exact .line (hPQ _ _ item) gap ih nonempty noPlus

/-- No item is longer than all of them together. -/
theorem Listed.bounded {as : List α} {s : List Char} (h : Listed P as s) :
    Listed (fun a u => P a u ∧ u.length ≤ s.length) as s := by
  induction h with
  | nil => exact .nil
  | last item gap => exact .last ⟨item, by simp⟩ gap
  | comma item gap gap' _ ih =>
    refine .comma ⟨item, by simp⟩ gap gap' (ih.mono ?_)
    intro a u h
    obtain ⟨hu, hle⟩ := h
    refine ⟨hu, Nat.le_trans hle ?_⟩
    simp only [List.length_append]
    omega
  | line item gap _ nonempty noPlus ih =>
    refine .line ⟨item, by simp⟩ gap (ih.mono ?_) nonempty noPlus
    intro a u h
    obtain ⟨hu, hle⟩ := h
    refine ⟨hu, Nat.le_trans hle ?_⟩
    simp only [List.length_append]
    omega

theorem Layout.bounded {as : List α} {text : List Char} (h : Layout P as text) :
    Layout (fun a u => P a u ∧ u.length ≤ text.length) as text := by
  obtain ⟨b, g, s, tail, hg, hs, htail, rfl⟩ := h
  refine ⟨b, g, s, tail, hg, hs.bounded.mono ?_, htail, rfl⟩
  intro a u h
  obtain ⟨hu, hle⟩ := h
  refine ⟨hu, Nat.le_trans hle ?_⟩
  simp only [List.length_append]
  omega

theorem Listed.of_nil {s : List Char} (h : Listed P [] s) : s = [] := by
  cases h
  rfl

/-- A gap is closed in front of an item, but not always in front of nothing. -/
theorem ListedFrom.before (hP : ∀ a s, P a s → Text.Opens s) {as : List α}
    {s tail g : List Char} {b : Bool} {k k' : Cursor} (hs : Listed P as s) (hg : Gap b g)
    (htail : Closing tail k'.rest) (hk : k.Passes (g ++ s ++ tail) k') :
    ∃ g' k₁, k.Passes g' k₁ ∧ GapBefore b g' k₁.rest ∧ ListedFrom P as s tail k₁ k' := by
  by_cases has : as = []
  · subst has
    cases hs.of_nil
    rw [List.append_nil] at hk
    exact ⟨g ++ tail, k', hk, ⟨g, tail, hg, htail, rfl⟩, hs, htail, .inl ⟨rfl, rfl⟩⟩
  · rw [List.append_assoc] at hk
    obtain ⟨k₁, hk₁, hk'⟩ := hk.split
    refine ⟨g, k₁, hk₁, hg.before ?_, hs, htail, .inr ⟨has, hk'⟩⟩
    rw [hk'.rest, List.append_assoc]
    exact ((hs.opens hP has).append _).solid

theorem ListedFrom.behind (hP : ∀ a s, P a s → Text.Opens s) {as : List α}
    {s tail g : List Char} {b : Bool} {k k₁ k' : Cursor} (h : ListedFrom P as s tail k₁ k')
    (hg : GapBefore b g k₁.rest) (hk : k.Passes g k₁) :
    ∃ g' tail', Gap b g' ∧ Closing tail' k'.rest ∧ k.Passes (g' ++ s ++ tail') k' := by
  obtain ⟨hs, htail, ⟨rfl, rfl⟩ | ⟨has, hk'⟩⟩ := h
  · obtain ⟨g', tail', hg', htail', rfl⟩ := hg
    cases hs.of_nil
    exact ⟨g', tail', hg', htail', by simpa using hk⟩
  · refine ⟨g, tail, hg.gap ?_, htail, ?_⟩
    · obtain ⟨c, r, hr, -⟩ := ((hs.opens hP has).append tail).append k'.rest
      rw [hk'.rest, hr]
      exact List.cons_ne_nil _ _
    · rw [List.append_assoc]
      exact hk.trans hk'

theorem Lists.of_listed (ht : Terminator terminator) (hP : ∀ a s, P a s → Text.Opens s)
    {as : List α} {s tail : List Char} {k k' : Cursor} (h : ListedFrom P as s tail k k')
    (hend : k'.rest.head? = terminator) : Lists P terminator as k k' := by
  obtain ⟨hs, htail, hk⟩ := h
  induction hs generalizing k with
  | nil =>
    obtain ⟨-, rfl⟩ | ⟨hne, -⟩ := hk
    · exact .nil hend
    · exact absurd rfl hne
  | @last a s g b item gap =>
    obtain ⟨he, -⟩ | ⟨-, hk⟩ := hk
    · cases he
    · rw [List.append_assoc] at hk
      exact .last item hk (.terminator ⟨g, tail, gap, htail, rfl⟩ hend)
  | @comma a as s g g' r b b' item gap gap' others ih =>
    obtain ⟨he, -⟩ | ⟨-, hk⟩ := hk
    · cases he
    · have he : s ++ g ++ ',' :: g' ++ r ++ tail = (s ++ g ++ [',']) ++ (g' ++ r ++ tail) := by
        simp
      rw [he] at hk
      obtain ⟨k₁, hk₁, hk'⟩ := hk.split
      obtain ⟨g'', k₂, hk₂, hg'', -, -, hrest⟩ := ListedFrom.before hP others gap' htail hk'
      have hpass : k.Passes (s ++ (g ++ ',' :: g'')) k₂ := by simpa using hk₁.trans hk₂
      exact .cons item hpass (.comma gap hg'') (ih hrest)
  | @line a as s g r item gap others nonempty noPlus ih =>
    obtain ⟨he, -⟩ | ⟨-, hk⟩ := hk
    · cases he
    · have he : s ++ g ++ r ++ tail = (s ++ g) ++ (r ++ tail) := by simp
      rw [he] at hk
      obtain ⟨k₁, hk₁, hk'⟩ := hk.split
      refine .cons item hk₁ ?_ (ih (.inr ⟨nonempty, hk'⟩))
      obtain ⟨c, t, rfl, hc⟩ := others.opens hP nonempty
      have hopens : Text.Opens (c :: t) := ⟨c, t, rfl, hc⟩
      rw [hk'.rest]
      refine .line gap ((hopens.append tail).append k'.rest).solid ?_ ?_
      · have hmark := Character.not_mark_of_opens hc
        simp only [List.mem_cons, List.not_mem_nil, or_false, not_or] at hmark ⊢
        exact ⟨fun he => noPlus (by rw [he]; rfl), hmark⟩
      · exact ht.ne_head hopens

theorem Lists.listed (ht : Terminator terminator) (hP : ∀ a s, P a s → Text.Opens s)
    {as : List α} {k k' : Cursor} (h : Lists P terminator as k k') :
    k'.rest.head? = terminator ∧ ∃ s tail, ListedFrom P as s tail k k' := by
  induction h with
  | @nil k ends => exact ⟨ends, [], [], .nil, .inl ⟨rfl, ht.solid ends⟩, .inl ⟨rfl, rfl⟩⟩
  | @last a u sep k k' item passes ends =>
    cases ends with
    | terminator gap ends =>
      obtain ⟨g, tail, hg, htail, rfl⟩ := gap
      refine ⟨ends, u ++ g, tail, .last item hg, htail, .inr ⟨by simp, ?_⟩⟩
      rwa [List.append_assoc]
  | @cons a as u sep k k₁ k' item passes separated others ih =>
    obtain ⟨hend, r, tail, hrest⟩ := ih
    refine ⟨hend, ?_⟩
    generalize hr : k₁.rest = rest at separated
    cases separated with
    | @comma g g' _ b b' gap gap' =>
      have he : u ++ (g ++ ',' :: g') = (u ++ g ++ [',']) ++ g' := by simp
      rw [he] at passes
      obtain ⟨k₂, hk₂, hk₁⟩ := passes.split
      obtain ⟨g'', tail', hg'', htail', hk'⟩ := hrest.behind hP (hr ▸ gap') hk₁
      refine ⟨_, tail', .comma item gap hg'' hrest.1, htail', .inr ⟨by simp, ?_⟩⟩
      simpa using hk₂.trans hk'
    | @line g _ c gap solid noMark noTerminator =>
      obtain ⟨hs, htail, ⟨rfl, rfl⟩ | ⟨has, hk'⟩⟩ := hrest
      · exact absurd (by rw [← hend, hr]; rfl) noTerminator
      · obtain ⟨d, t, rfl, hd⟩ := hs.opens hP has
        have hc : d = c := by
          have := hk'.rest
          rw [hr] at this
          exact (List.cons.inj this).1.symm
        refine ⟨_, tail, .line item gap hs has ?_, htail, .inr ⟨by simp, ?_⟩⟩
        · simp only [List.mem_cons, List.not_mem_nil, or_false, not_or] at noMark
          simpa [hc] using noMark.1
        · have := passes.trans hk'
          rwa [← List.append_assoc] at this

/-- What is inside brackets, or makes up a text, in terms of its text. -/
theorem inside_iff (ht : Terminator terminator) (hP : ∀ a s, P a s → Text.Opens s)
    {as : List α} {k k' : Cursor} :
    Inside P terminator as k k' ↔ k'.rest.head? = terminator ∧
      ∃ b g s tail, Gap b g ∧ Listed P as s ∧ Closing tail k'.rest ∧
        k.Passes (g ++ s ++ tail) k' := by
  constructor
  · intro h
    obtain ⟨b, k₁, hgap, h⟩ := h
    obtain ⟨g, hk₁, hg⟩ := gap_eq_ok.mp hgap
    obtain ⟨hend, s, tail, hrest⟩ := h.listed ht hP
    obtain ⟨g', tail', hg', htail', hk'⟩ := hrest.behind hP hg hk₁
    exact ⟨hend, b, g', s, tail', hg', hrest.1, htail', hk'⟩
  · intro h
    obtain ⟨hend, b, g, s, tail, hg, hs, htail, hk⟩ := h
    obtain ⟨g', k₁, hk₁, hg', hrest⟩ := ListedFrom.before hP hs hg htail hk
    exact ⟨b, k₁, gap_eq_ok.mpr ⟨g', hk₁, hg'⟩, .of_listed ht hP hrest hend⟩

theorem inside_bracket_iff {c : Char} (ht : Terminator (some c))
    (hP : ∀ a s, P a s → Text.Opens s) {as : List α} {k k' : Cursor} :
    Inside P (some c) as k k' ↔ k'.rest.head? = some c ∧
      ∃ b g s, Gap b g ∧ Listed P as s ∧ k.Passes (g ++ s) k' := by
  rw [inside_iff ht hP]
  refine and_congr_right fun hc => ⟨?_, ?_⟩
  · intro h
    obtain ⟨b, g, s, tail, hg, hs, ⟨rfl, -⟩ | ⟨-, hr⟩, hk⟩ := h
    · exact ⟨b, g, s, hg, hs, by simpa using hk⟩
    · rw [hr] at hc
      cases hc
  · intro h
    obtain ⟨b, g, s, hg, hs, hk⟩ := h
    exact ⟨b, g, s, [], hg, hs, .inl ⟨rfl, ht.solid hc⟩, by simpa using hk⟩

/-- What is listed up to a closing bracket, none of it longer than all of it. -/
theorem inside_of_bracket {c : Char} (ht : Terminator (some c))
    (hP : ∀ a s, P a s → Text.Opens s) {as : List α} {g s : List Char} {b : Bool} {n : Nat}
    (hg : Gap b g) (hs : Listed P as s) (hn : s.length ≤ n) {k k' : Cursor}
    (hk : k.Passes (g ++ s ++ [c]) k') :
    ∃ k₁, Inside (fun a u => P a u ∧ u.length ≤ n) (some c) as k k₁ ∧ k₁.Passes [c] k' := by
  obtain ⟨k₁, hk₁, hk'⟩ := hk.split
  have hbounded : Listed (fun a u => P a u ∧ u.length ≤ n) as s :=
    hs.bounded.mono fun a u hu => ⟨hu.1, Nat.le_trans hu.2 hn⟩
  exact ⟨k₁, (inside_bracket_iff ht fun a u hu => hP a u hu.1).mpr
    ⟨hk'.head, b, g, s, hg, hbounded, hk₁⟩, hk'⟩

/-- A listing without brackets goes up to the end of the text. -/
theorem inside_text_iff (hP : ∀ a s, P a s → Text.Opens s) {as : List α} {p : Nat}
    {text : List Char} :
    (∃ k', Inside P none as ⟨p, text⟩ k') ↔ Layout P as text := by
  constructor
  · intro h
    obtain ⟨k', h⟩ := h
    obtain ⟨hend, b, g, s, tail, hg, hs, htail, hk⟩ := (inside_iff .ofText hP).mp h
    rw [List.head?_eq_none_iff] at hend
    rw [hend] at htail
    refine ⟨b, g, s, tail, hg, hs, htail, ?_⟩
    have := hk.rest
    rwa [hend, List.append_nil] at this
  · intro h
    obtain ⟨b, g, s, tail, hg, hs, htail, rfl⟩ := h
    refine ⟨⟨p + Text.size (g ++ s ++ tail), []⟩, (inside_iff .ofText hP).mpr ?_⟩
    exact ⟨rfl, b, g, s, tail, hg, hs, htail, by simp, rfl⟩

/-- Only a listing that ends with the text can do without any. -/
theorem Lists.of_rest_nil (hP : ∀ a s, P a s → Text.Opens s) {as : List α} {k k' : Cursor}
    (h : Lists P terminator as k k') (hk : k.rest = []) : terminator = none := by
  have nothing : ∀ {a : α} {u sep : List Char} {k₁ : Cursor}, P a u →
      ¬k.Passes (u ++ sep) k₁ := by
    intro a u sep k₁ hu hpass
    obtain ⟨c, r, rfl, -⟩ := hP a u hu
    rw [hpass.rest] at hk
    cases hk
  cases h with
  | nil ends => rw [← ends, hk, List.head?_nil]
  | last item passes _ => exact absurd passes (nothing item)
  | cons item passes _ _ => exact absurd passes (nothing item)

/-- Nothing that is listed begins with a parenthesis. -/
theorem Lists.head (ht : Terminator terminator) (hP : ∀ a s, P a s → Text.Opens s)
    {as : List α} {k k' : Cursor} (h : Lists P terminator as k k') :
    k.rest.head? ≠ some '(' := by
  have opened : ∀ {a : α} {u sep : List Char} {k₁ : Cursor}, P a u →
      k.Passes (u ++ sep) k₁ → k.rest.head? ≠ some '(' := by
    intro a u sep k₁ hu hk
    rw [hk.rest, List.append_assoc]
    exact ((hP a u hu).append _).head_ne rfl
  cases h with
  | nil ends =>
    rw [ends]
    simp only [Terminator, List.mem_cons, List.not_mem_nil, or_false] at ht
    rcases ht with rfl | rfl | rfl | rfl <;> decide
  | last item passes _ => exact opened item passes
  | cons item passes _ _ => exact opened item passes

end Cjson
