import Cjson.Proofs.Narrowing
import Cjson.Value.Json

namespace Cjson

/-- No exponent but a positive one is marked with a plus sign. -/
theorem BigDecimal.write_of_scale_nonneg {d : BigDecimal} (h : 0 ≤ d.scale)
    (plus : List Char) : d.write plus = d.write [] := by
  unfold write
  by_cases hzero : d.scale = 0
  · rw [if_pos hzero, if_pos hzero]
  · have hpos : 0 < d.scale := by omega
    rw [if_neg hzero, if_neg hzero, if_pos hpos, if_pos hpos]

namespace Value

/-- The line break in front of an item at a depth of nesting. -/
def lineGap (depth : Nat) : List Char :=
  '\n' :: List.replicate (2 * depth) ' '

theorem lineGap_gap (depth : Nat) : Gap true (lineGap depth) :=
  newline_gap (2 * depth)

theorem breakOnto_eq (depth : Nat) (tail : List Char) :
    breakOnto depth tail = lineGap depth ++ tail :=
  rfl

theorem compactItemsOnto_eq : compactItemsOnto = commaOnto [] compactOnto :=
  eq_commaOnto (fun _ => rfl) (fun _ _ => rfl) (fun _ _ _ _ => rfl)

theorem compactMembersOnto_eq : compactMembersOnto = commaOnto []
    (fun e tail => Text.quotedOnto e.1.toList (':' :: [] ++ compactOnto e.2 tail)) :=
  eq_commaOnto (fun _ => rfl) (fun _ _ => rfl) (fun _ _ _ _ => rfl)

/-- What is in front of each item is in front of all of them, and behind the commas. -/
theorem commaOnto_front {α : Type} {gap : List Char} {f : α → List Char → List Char}
    {as : List α} (hne : as ≠ []) (tail : List Char) :
    commaOnto [] (fun a tail => gap ++ f a tail) as tail = gap ++ commaOnto gap f as tail := by
  induction as with
  | nil => exact absurd rfl hne
  | cons a as ih =>
    cases as with
    | nil => rfl
    | cons b as =>
      rw [commaOnto_cons_cons, ih (List.cons_ne_nil b as), commaOnto_cons_cons]
      rfl

theorem prettyItemsOnto_eq (depth : Nat) {items : List Value} (hne : items ≠ [])
    (tail : List Char) : prettyItemsOnto depth items tail =
      lineGap depth ++ commaOnto (lineGap depth) (prettyOnto depth) items tail := by
  have hcomma : prettyItemsOnto depth =
      commaOnto [] (fun v tail => lineGap depth ++ prettyOnto depth v tail) :=
    eq_commaOnto (fun _ => rfl) (fun _ _ => rfl) (fun _ _ _ _ => rfl)
  rw [hcomma, commaOnto_front hne]

theorem prettyMembersOnto_eq (depth : Nat) {entries : Entries Value} (hne : entries ≠ [])
    (tail : List Char) : prettyMembersOnto depth entries tail =
      lineGap depth ++ commaOnto (lineGap depth)
        (fun e tail => Text.quotedOnto e.1.toList (':' :: [' '] ++ prettyOnto depth e.2 tail))
        entries tail := by
  have hcomma : prettyMembersOnto depth = commaOnto [] (fun e tail => lineGap depth ++
      Text.quotedOnto e.1.toList (':' :: [' '] ++ prettyOnto depth e.2 tail)) :=
    eq_commaOnto (fun _ => rfl) (fun _ _ => rfl) (fun _ _ _ _ => rfl)
  rw [hcomma, commaOnto_front hne]

/-- The numbers in the value have no exponent above zero in JSON. -/
def Fractional (v : Value) : Prop :=
  ∀ d : BigDecimal, (bigDecimal d).Occurs v → 0 ≤ d.scale

theorem jsonScalarOnto_writes {d : BigDecimal} (readable : d.Readable)
    (hd : (bigDecimal d).Fractional) :
    Writes ((bigDecimal d).tree.Spelled Word) (bigDecimal d).jsonScalarOnto := by
  have hline : (bigDecimal d).jsonScalarOnto = (bigDecimal d).lineOnto := by
    funext tail
    rw [jsonScalarOnto, BigDecimal.write_of_scale_nonneg (hd d .here)]
    rfl
  rw [hline]
  exact lineOnto_writes (.bigDecimal readable)

theorem compactOnto_writes {v : Value} (h : v.Data) (hv : v.Fractional) :
    Writes (v.tree.Spelled Word) v.compactOnto := by
  induction h with
  | null => exact lineOnto_writes .null
  | boolean b => exact lineOnto_writes (.boolean b)
  | int n => exact lineOnto_writes (.int n)
  | long n => exact lineOnto_writes (.long n)
  | decimal d => exact lineOnto_writes (.decimal d)
  | bigDecimal readable => exact jsonScalarOnto_writes readable hv
  | string s => exact lineOnto_writes (.string s)
  | @list items each ih =>
    obtain ⟨s, hs, hf⟩ := commaOnto_writes .nil .nil (.inr rfl)
      (fun v hitem => ih v hitem fun d hd => hv d (.item hitem hd))
    rw [tree, trees_eq]
    refine list_writes .nil hs ?_
    intro tail
    rw [compactOnto, compactItemsOnto_eq]
    exact congrArg _ (hf _)
  | @map entries unique each ih =>
    obtain ⟨s, hs, hf⟩ := commaOnto_writes .nil .nil (.inr rfl)
      (fun e he => entry_writes e.1 .nil (ih e he fun d hd => hv d (.entry he hd)))
    rw [tree, pairs_eq]
    refine map_writes .nil hs ?_
    intro tail
    rw [compactOnto, compactMembersOnto_eq]
    exact congrArg _ (hf _)

theorem prettyOnto_writes {v : Value} (h : v.Data) (hv : v.Fractional) (depth : Nat) :
    Writes (v.tree.Spelled Word) (v.prettyOnto depth) := by
  induction h generalizing depth with
  | null => exact lineOnto_writes .null
  | boolean b => exact lineOnto_writes (.boolean b)
  | int n => exact lineOnto_writes (.int n)
  | long n => exact lineOnto_writes (.long n)
  | decimal d => exact lineOnto_writes (.decimal d)
  | bigDecimal readable => exact jsonScalarOnto_writes readable hv
  | string s => exact lineOnto_writes (.string s)
  | @list items each ih =>
    have hitems := fun v hitem => ih v hitem (fun d hd => hv d (.item hitem hd)) (depth + 1)
    rw [tree, trees_eq]
    -- only what is not empty has lines in it
    by_cases hne : items = []
    · subst hne
      exact list_writes .nil .nil fun tail => rfl
    · obtain ⟨s, hs, hf⟩ := commaOnto_writes (lineGap_gap (depth + 1)) (lineGap_gap depth)
        (.inl hne) hitems
      refine list_writes (lineGap_gap (depth + 1)) hs ?_
      intro tail
      rw [prettyOnto, prettyItemsOnto_eq _ hne, breakOnto_eq, hf]
      · simp
      · exact hne
  | @map entries unique each ih =>
    have hspace : Gap false [' '] := indent_gap 1
    have hentries := fun e he => entry_writes e.1 hspace
      (ih e he (fun d hd => hv d (.entry he hd)) (depth + 1))
    rw [tree, pairs_eq]
    by_cases hne : entries = []
    · subst hne
      exact map_writes .nil .nil fun tail => rfl
    · obtain ⟨s, hs, hf⟩ := commaOnto_writes (lineGap_gap (depth + 1)) (lineGap_gap depth)
        (.inl hne) hentries
      refine map_writes (lineGap_gap (depth + 1)) hs ?_
      intro tail
      rw [prettyOnto, prettyMembersOnto_eq _ hne, breakOnto_eq, hf]
      · simp
      · exact hne

/-- Either form in JSON is a text of the same tree as the printed forms. -/
theorem json_spelled {v : Value} (h : v.Data) (hv : v.Fractional) :
    v.tree.Spelled Word v.compactJson.toList ∧ v.tree.Spelled Word v.prettyJson.toList := by
  obtain ⟨s, hs, -, hf⟩ := compactOnto_writes h hv
  obtain ⟨s', hs', -, hf'⟩ := prettyOnto_writes h hv 0
  rw [compactJson, prettyJson, hf, hf', List.append_nil, List.append_nil, String.toList_ofList,
    String.toList_ofList]
  exact ⟨hs, hs'⟩

end Value

/-- Data in which no number has an exponent above zero are evaluated from their JSON, compact
or pretty, to the same as from their dump. That is like the data, with the keys of each map
in their order. -/
theorem json_reread {v : Value} (h : v.Data) (hv : v.Fractional) :
    ∃ w, (∀ text ∈ [v.compactJson, v.prettyJson, v.lines],
        ∀ (σ : Type) (file : Option String) (st : σ),
          (evaluate .simple false ⟨text.toList, file⟩ st).1 = .ok w) ∧
      v.Alike w := by
  obtain ⟨hcompact, hpretty⟩ := Value.json_spelled h hv
  obtain ⟨-, hlines⟩ := Value.printed_spelled h
  refine ⟨v.tree.value false, ?_, Value.alike_tree h⟩
  intro text htext σ file st
  simp only [List.mem_cons, List.not_mem_nil, or_false] at htext
  rcases htext with rfl | rfl | rfl
  · exact evaluate_spelled hcompact file st
  · exact evaluate_spelled hpretty file st
  · exact evaluate_spelled hlines file st

/-- With 40 fraction digits a number is written with an exponent. -/
theorem json_reread_map :
    ((Value.map [("a", .list [.bigDecimal ⟨1, 40⟩, .null])]).Data ∧
      (Value.map [("a", .list [.bigDecimal ⟨1, 40⟩, .null])]).Fractional) ∧
      ∃ w, (∀ text ∈ [(Value.map [("a", .list [.bigDecimal ⟨1, 40⟩, .null])]).compactJson,
          (Value.map [("a", .list [.bigDecimal ⟨1, 40⟩, .null])]).prettyJson,
          (Value.map [("a", .list [.bigDecimal ⟨1, 40⟩, .null])]).lines],
          (evaluate .simple false ⟨text.toList, none⟩ ()).1 = .ok w) ∧
        (Value.map [("a", .list [.bigDecimal ⟨1, 40⟩, .null])]).Alike w := by
  have hmap : (Value.map [("a", .list [.bigDecimal ⟨1, 40⟩, .null])]).Data :=
    Value.data_map_list ⟨by decide, by decide⟩
  have hfractional : (Value.map [("a", .list [.bigDecimal ⟨1, 40⟩, .null])]).Fractional := by
    intro d hd
    cases hd with
    | entry mem deeper =>
      cases List.mem_singleton.mp mem
      cases deeper with
      | item mem deeper =>
        simp only [List.mem_cons, List.not_mem_nil, or_false] at mem
        rcases mem with rfl | rfl
        · cases deeper
          decide
        · cases deeper
  obtain ⟨w, hw, halike⟩ := json_reread hmap hfractional
  exact ⟨⟨hmap, hfractional⟩, w, fun text htext => hw text htext Unit none (), halike⟩

end Cjson
