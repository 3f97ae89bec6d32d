import Cjson.Proofs.Agreement

namespace Cjson

open Cjson.Action Eval

/-- Behind a gap without a line break, nothing that items begin with is in its place. -/
theorem Scan.separator_missing {terminator : Option Char} (noColon : Option ColonFault)
    (ht : Terminator terminator) {g : List Char} {k k' : Cursor} (hg : Gap false g)
    (hne : g ≠ []) (hk : k.Passes g k') (hopens : Text.Opens k'.rest) :
    ∃ p : Problem, p.kind = .syntactic ∧
      separator terminator noColon k = (.error (.problem p k'.position), k') := by
  have hgap : gap k = (.ok false, k') := gap_eq_ok.mpr ⟨g, hk, hg.before hopens.solid⟩
  have hmoved : k'.position ≠ k.position := by
    have := Text.size_pos hne
    rw [hk.position]
    omega
  have hterm := ht.ne_head hopens
  rw [separator, bind_ok (position_apply k), bind_ok hgap, bind_ok (position_apply k'),
    bind_ok (peek_apply k')]
  obtain ⟨c, r, hr, hc⟩ := hopens
  have hhead : k'.rest.head? = some c := by rw [hr, List.head?_cons]
  rw [hhead] at hterm
  have hmark := Character.not_mark_of_opens hc
  simp only [not_or] at hmark
  obtain ⟨hcomma, hcolon, hsemicolon, hequals⟩ := hmark
  generalize k'.rest.head? = o at hhead
  split
  · cases hhead
  · exact ⟨.plusOperator, rfl, rfl⟩
  · cases hhead
    exact absurd rfl hcomma
  · cases hhead
    exact absurd rfl hcolon
  · cases hhead
    rw [if_neg hterm, if_neg hsemicolon, if_neg hequals, if_neg (by simp), if_neg hmoved]
    exact ⟨.missingSeparator, rfl, rfl⟩

section Junctions

variable {σ : Type} {force : Bool} {file : Option String} {st : σ} {t₁ t₂ : Tree}
  {e₁ e₂ g g' : List Char} {b b' : Bool}

/-- A list with an expression in front of another one that nothing separates from it fails
there. -/
theorem list_of_unseparated (h₁ : t₁.Spelled Word e₁) (h₂ : Text.Opens e₂) (hg : Gap false g)
    (hne : g ≠ []) :
    ∃ p : Problem, p.kind = .syntactic ∧
      (evaluateList .simple force ⟨e₁ ++ g ++ e₂, file⟩ st).1 =
        .error (.located p ⟨⟨e₁ ++ g ++ e₂, file⟩, Text.size (e₁ ++ g)⟩) := by
  have hstart : Cursor.Passes ⟨0, e₁ ++ g ++ e₂⟩ (e₁ ++ g) ⟨Text.size (e₁ ++ g), e₂⟩ :=
    ⟨rfl, (Nat.zero_add _).symm⟩
  obtain ⟨k, hk₁, hk⟩ := hstart.split
  have hends : WordEnds k.rest := by
    rw [hk.rest]
    exact (hg.before h₂.solid).wordEnds (fun he => absurd he hne) (h₂.head_ne rfl)
  have hplace : ([] : List Scope).head? ≠ some .map := by simp
  obtain ⟨v, ⟨_, _⟩, hitem, -, rfl, rfl⟩ :=
    (anyExpression_reads (Environment.simple_follows st) e₁.length force).value
      (Nat.le_refl _) h₁ hk₁ hends (.ofSource ⟨e₁ ++ g ++ e₂, file⟩) hplace rfl
  obtain ⟨p, hp, hsep⟩ :=
    Scan.separator_missing (some .inList) .ofText hg hne hk h₂
  refine ⟨p, hp, ?_⟩
  rw [evaluateList, run]
  refine congrArg Prod.fst (openList_error (k := ⟨0, e₁ ++ g ++ e₂⟩) ?_ hitem hsep)
  rw [List.append_assoc]
  exact h₁.opens.append _

theorem layout_of_line (h₁ : t₁.Spelled Word e₁) (h₂ : t₂.Spelled Word e₂) (hg : Gap true g)
    (noPlus : e₂.head? ≠ some '+') : Layout (Tree.Spelled Word) [t₁, t₂] (e₁ ++ g ++ e₂) := by
  refine ⟨false, [], e₁ ++ g ++ (e₂ ++ []), [], .nil, ?_, .inl ⟨rfl, .nil⟩, by simp⟩
  exact .line h₁ hg (.last h₂ .nil) (by simp) (by rwa [List.append_nil])

theorem layout_of_comma (h₁ : t₁.Spelled Word e₁) (h₂ : t₂.Spelled Word e₂) (hg : Gap b g)
    (hg' : Gap b' g') :
    Layout (Tree.Spelled Word) [t₁, t₂] (e₁ ++ g ++ ',' :: g' ++ e₂) := by
  refine ⟨false, [], e₁ ++ g ++ ',' :: g' ++ (e₂ ++ []), [], .nil, ?_, .inl ⟨rfl, .nil⟩,
    by simp⟩
  exact .comma h₁ hg hg' (.last h₂ .nil)

end Junctions

/-- A line break or a comma between two expressions makes them the items of a list. Without
either, the list fails at the first byte of the second one. -/
theorem separators_decide {σ : Type} {force : Bool} {file : Option String} {st : σ}
    {e₁ e₂ : List Char} {v₁ v₂ : Value} (whole₁ : Text.Whole e₁) (whole₂ : Text.Whole e₂)
    (h₁ : (evaluate .simple force ⟨e₁, file⟩ st).1 = .ok v₁)
    (h₂ : (evaluate .simple force ⟨e₂, file⟩ st).1 = .ok v₂) :
    (∀ g, Gap false g → g ≠ [] → ∃ p : Problem, p.kind = .syntactic ∧
      (evaluateList .simple force ⟨e₁ ++ g ++ e₂, file⟩ st).1 =
        .error (.located p ⟨⟨e₁ ++ g ++ e₂, file⟩, Text.size (e₁ ++ g)⟩)) ∧
    (∀ g, Gap true g → e₂.head? ≠ some '+' →
      (evaluateList .simple force ⟨e₁ ++ g ++ e₂, file⟩ st).1 = .ok [v₁, v₂]) ∧
    ∀ b b' g g', Gap b g → Gap b' g' →
      (evaluateList .simple force ⟨e₁ ++ g ++ ',' :: g' ++ e₂, file⟩ st).1 =
        .ok [v₁, v₂] := by
  obtain ⟨t₁, ht₁, rfl⟩ := whole₁.spelled h₁
  obtain ⟨t₂, ht₂, rfl⟩ := whole₂.spelled h₂
  have hvalues : Tree.values force [t₁, t₂] = [t₁.value force, t₂.value force] :=
    Tree.values_eq_map force _
  refine ⟨fun g hg hne => list_of_unseparated ht₁ ht₂.opens hg hne, ?_, ?_⟩
  · intro g hg noPlus
    exact evaluateList_simple_iff.mpr ⟨_, layout_of_line ht₁ ht₂ hg noPlus, hvalues⟩
  · intro b b' g g' hg hg'
    exact evaluateList_simple_iff.mpr ⟨_, layout_of_comma ht₁ ht₂ hg hg', hvalues⟩

/-- A list and a word behind it, with a block comment, a line comment or a comma between them. -/
theorem separators_decide_comments :
    Text.Whole "[é]".toList ∧ Text.Whole "b".toList ∧
    (evaluate .simple false ⟨"[é]".toList, none⟩ ()).1 = .ok (.list [.string "é"]) ∧
    (evaluate .simple false ⟨"b".toList, none⟩ ()).1 = .ok (.string "b") ∧
    (∃ p : Problem, p.kind = .syntactic ∧
      (evaluateList .simple false ⟨"[é]/*\n*/b".toList, none⟩ ()).1 =
        .error (.located p ⟨⟨"[é]/*\n*/b".toList, none⟩, 9⟩)) ∧
    (evaluateList .simple false ⟨"[é]//,\nb".toList, none⟩ ()).1 =
      .ok [.list [.string "é"], .string "b"] ∧
    (evaluateList .simple false ⟨"[é],b".toList, none⟩ ()).1 =
      .ok [.list [.string "é"], .string "b"] := by
  have whole₁ : Text.Whole "[é]".toList := by rfl
  have whole₂ : Text.Whole "b".toList := by rfl
  have h₁ : (evaluate .simple false ⟨"[é]".toList, none⟩ ()).1 =
      .ok (.list [.string "é"]) := by rfl
  have h₂ : (evaluate .simple false ⟨"b".toList, none⟩ ()).1 = .ok (.string "b") := by rfl
  obtain ⟨hnone, hline, hcomma⟩ := separators_decide whole₁ whole₂ h₁ h₂
  refine ⟨whole₁, whole₂, h₁, h₂, ?_, ?_, ?_⟩
  · have hblock : Gap false ('/' :: '*' :: ['\n'] ++ '*' :: '/' :: []) :=
      .blockComment (by decide) .nil
    exact hnone "/*\n*/".toList hblock (by decide)
  · have hcomment : Gap true ('/' :: '/' :: [','] ++ '\n' :: []) :=
      .lineComment (by simp [Character.isLineBreak]) rfl .nil
    exact hline "//,\n".toList hcomment (by decide)
  · exact hcomma false false [] [] .nil .nil

end Cjson
