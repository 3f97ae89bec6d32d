import Mathlib.Data.List.Forall2
import Cjson.Proofs.Exactness
import Cjson.Proofs.Printing

namespace Cjson

namespace Value

/-- Data of the same shape with the same strings and keys, whose numbers have the same
values in whatever variants. -/
inductive Alike : Value → Value → Prop
  | null : Alike null null
  | boolean (b : Bool) : Alike (boolean b) (boolean b)
  | number {v w : Value} {q : ℚ} (left : v.rational? = some q) (right : w.rational? = some q) :
      Alike v w
  | string (s : String) : Alike (string s) (string s)
  | list {items items' : List Value} (each : List.Forall₂ Alike items items') :
      Alike (list items) (list items')
  | map {entries entries' : Entries Value} (keys : Entries.keys entries = Entries.keys entries')
      (each : List.Forall₂ Alike (entries.map Prod.snd) (entries'.map Prod.snd)) :
      Alike (map entries) (map entries')

/-- What reading makes of numbers: a decimal, where there is room for it in one. -/
inductive Settled : Value → Prop
  | null : Settled null
  | boolean (b : Bool) : Settled (boolean b)
  | int (n : Int32) : Settled (int n)
  | decimal (d : Decimal) : Settled (decimal d)
  | bigDecimal {d : BigDecimal} (large : d.Large) : Settled (bigDecimal d)
  | string (s : String) : Settled (string s)
  | list {items : List Value} (each : ∀ v ∈ items, Settled v) : Settled (list items)
  | map {entries : Entries Value} (each : ∀ e ∈ entries, Settled e.2) : Settled (map entries)
  | call (function : String) (arguments : List Value) : Settled (call function arguments)

open Numeral

theorem settled_of_read {s : List Char} {v : Value} (h : ofNumeral? s = some v) :
    v.Settled := by
  have hlarge : ∀ d, v = bigDecimal d → d.Large := by
    intro d hd
    rw [hd] at h
    exact large_of_read h
  obtain ⟨k, -, rfl⟩ | ⟨-, n, -, ⟨d, -, rfl⟩ | ⟨-, d, -, rfl⟩⟩ := of_ofNumeral? h
  · exact .int k
  · exact .decimal d
  · exact .bigDecimal (hlarge d rfl)

theorem ofWord_settled (w : List Char) : (ofWord w).Settled :=
  ofWord_cases w .boolean .null (fun _ _ h => settled_of_read h) (.string _)

end Value

theorem Value.settled_inherited : Value.Inherited Value.Settled where
  word := Value.ofWord_settled
  string := .string
  bare := .boolean true
  list := .list
  map _ := .map
  call _ _ _ := .call _ _

theorem Tree.settled (force : Bool) (t : Tree) : (t.value force).Settled :=
  Value.settled_inherited.tree force t

namespace Value

/-- A printed number reads back with its value, and as itself if reading made it. -/
theorem reread_number {v : Value} {q : ℚ} (hv : v.Data) (hq : v.rational? = some q) :
    ∃ w, ofWord (v.scalarOnto []) = w ∧ w.rational? = some q ∧
      (v.Settled → w.scalarOnto [] = v.scalarOnto []) := by
  have hnumeric := (numeric_scalarOnto hq).1
  have hread : ∃ w, ofNumeral? (v.scalarOnto []) = some w ∧ w.rational? = v.rational? ∧
      (v.Settled → w.scalarOnto [] = v.scalarOnto []) := by
    cases hv with
    | int n =>
      have hlow := n.le_toInt
      have hhigh := n.toInt_lt
      obtain ⟨w, hw, hrat, hwritten⟩ := reread_int (m := n.toInt) (by omega)
      rw [scalarOnto_int, List.append_nil]
      exact ⟨w, hw, hrat, fun _ => hwritten⟩
    | long n =>
      have hlow := n.le_toInt
      have hhigh := n.toInt_lt
      obtain ⟨w, hw, hrat, hwritten⟩ := reread_int (m := n.toInt) (by omega)
      rw [scalarOnto_long, List.append_nil]
      exact ⟨w, hw, hrat, fun _ => hwritten⟩
    | decimal d =>
      obtain ⟨w, hw, hrat, hwritten⟩ := reread_decimal d
      rw [scalarOnto_decimal, List.append_nil]
      exact ⟨w, hw, hrat, fun _ => hwritten⟩
    | @bigDecimal d readable =>
      obtain ⟨w, hw, hrat, hwritten⟩ := reread_bigDecimal readable
      rw [scalarOnto_bigDecimal, List.append_nil]
      refine ⟨w, hw, hrat, ?_⟩
      intro hsettled
      cases hsettled with
      | bigDecimal large => exact hwritten large
    | _ => cases hq
  obtain ⟨w, hw, hrat, hwritten⟩ := hread
  exact ⟨w, hnumeric.ofWord hw, by rw [hrat, hq], hwritten⟩

theorem number_linesOnto {v : Value} {q : ℚ} (hq : v.rational? = some q) (depth : Nat) :
    v.linesOnto depth = v.scalarOnto := by
  cases v with
  | int | long | decimal | bigDecimal => rfl
  | _ => cases hq

/-- Entries with different keys all stay, in order. -/
theorem allInto_pairs {force : Bool} {entries m : Entries Value}
    (unique : (Entries.keys (m ++ entries)).Nodup) :
    Entry.allInto force (pairs entries) m =
      m ++ entries.map (fun e => (e.1, e.2.tree.value force)) := by
  induction entries generalizing m with
  | nil => rw [pairs, Entry.allInto, List.map_nil, List.append_nil]
  | cons e rest ih =>
    have hnew : e.1 ∉ Entries.keys m := by
      simp only [Entries.keys, List.map_append, List.map_cons] at unique ⊢
      intro he
      exact (List.nodup_append.mp unique).2.2 e.1 he e.1 List.mem_cons_self rfl
    rw [pairs, Entry.allInto, Entry.into, Entries.put_of_not_mem hnew, ih]
    · simp
    · simpa [Entries.keys] using unique

theorem tree_value_map {entries : Entries Value} (unique : (Entries.keys entries).Nodup) :
    (map entries).tree.value false =
      map (entries.map (fun e => (e.1, e.2.tree.value false))) := by
  rw [tree, Tree.value, allInto_pairs]
  · rfl
  · exact unique

theorem tree_value_list (items : List Value) :
    (list items).tree.value false = list (items.map (fun v => v.tree.value false)) := by
  rw [tree, Tree.value, trees_eq, Tree.values_eq_map, List.map_map]
  rfl

theorem number_tree {v : Value} {q : ℚ} (hq : v.rational? = some q) :
    v.tree.value false = ofWord (v.scalarOnto []) := by
  cases v with
  | int | long | decimal | bigDecimal => rfl
  | _ => cases hq

theorem alike_number {v : Value} {q : ℚ} (hv : v.Data) (hq : v.rational? = some q) :
    v.Alike (v.tree.value false) := by
  obtain ⟨w, hw, hrat, -⟩ := reread_number hv hq
  rw [number_tree hq, hw]
  exact .number hq hrat

/-- What the tree of printed data means is like the data. -/
theorem alike_tree {v : Value} (h : v.Data) : v.Alike (v.tree.value false) := by
  induction h with
  | null => exact .null
  | boolean b =>
    cases b with
    | false => exact .boolean false
    | true => exact .boolean true
  | int n => exact alike_number (.int n) rfl
  | long n => exact alike_number (.long n) rfl
  | decimal d => exact alike_number (.decimal d) rfl
  | bigDecimal readable => exact alike_number (.bigDecimal readable) rfl
  | string s => exact .string s
  | @list items each ih =>
    rw [tree_value_list]
    apply Alike.list
    rw [List.forall₂_map_right_iff, List.forall₂_same]
    exact ih
  | @map entries unique each ih =>
    rw [tree_value_map unique]
    apply Alike.map
    · simp [Entries.keys]
    · rw [List.map_map, List.forall₂_map_left_iff, List.forall₂_map_right_iff, List.forall₂_same]
      exact ih

theorem eachLineOnto_map {α β : Type} {depth : Nat} {t : α → β}
    {f : α → List Char → List Char} {g : β → List Char → List Char} {as : List α}
    (h : ∀ a ∈ as, g (t a) = f a) :
    eachLineOnto depth g (as.map t) = eachLineOnto depth f as := by
  induction as with
  | nil => rfl
  | cons a as ih =>
    funext tail
    rw [List.map_cons, eachLineOnto, eachLineOnto, h a List.mem_cons_self,
      ih (fun b hb => h b (List.mem_cons_of_mem a hb))]

theorem linesOnto_tree_number {v : Value} {q : ℚ} (hv : v.Data) (hsettled : v.Settled)
    (hq : v.rational? = some q) (depth : Nat) :
    (v.tree.value false).linesOnto depth = v.linesOnto depth := by
  obtain ⟨w, hw, hrat, hwritten⟩ := reread_number hv hq
  rw [number_tree hq, hw, number_linesOnto hrat, number_linesOnto hq]
  funext tail
  rw [(numeric_scalarOnto hrat).2, (numeric_scalarOnto hq).2, hwritten hsettled]

/-- What has been read is printed as before when it is printed and read again. -/
theorem linesOnto_tree {v : Value} (h : v.Data) (hsettled : v.Settled) (depth : Nat) :
    (v.tree.value false).linesOnto depth = v.linesOnto depth := by
  induction h generalizing depth with
  | null => rfl
  | boolean b =>
    cases b with
    | false => rfl
    | true => rfl
  | int n => exact linesOnto_tree_number (.int n) hsettled rfl depth
  | long n => exact linesOnto_tree_number (.long n) hsettled rfl depth
  | decimal d => exact linesOnto_tree_number (.decimal d) hsettled rfl depth
  | bigDecimal readable => exact linesOnto_tree_number (.bigDecimal readable) hsettled rfl depth
  | string s => rfl
  | @list items each ih =>
    cases hsettled with
    | list settled =>
      have hitems : itemLinesOnto (depth + 1) (items.map (fun v => v.tree.value false)) =
          itemLinesOnto (depth + 1) items := by
        rw [itemLinesOnto_eq, itemLinesOnto_eq]
        exact eachLineOnto_map (fun v hv => ih v hv (settled v hv) (depth + 1))
      funext tail
      rw [tree_value_list, linesOnto, linesOnto, hitems]
  | @map entries unique each ih =>
    cases hsettled with
    | map settled =>
      have hentries : entryLinesOnto (depth + 1)
          (entries.map (fun e => (e.1, e.2.tree.value false))) =
          entryLinesOnto (depth + 1) entries := by
        rw [entryLinesOnto_eq, entryLinesOnto_eq]
        apply eachLineOnto_map
        intro e he
        funext tail
        rw [ih e he (settled e he) (depth + 1)]
      funext tail
      rw [tree_value_map unique, linesOnto, linesOnto, hentries]

end Value

theorem evaluate_spelled {σ : Type} {force : Bool} {t : Tree} {text : List Char}
    (ht : t.Spelled Word text) (file : Option String) (st : σ) :
    (evaluate .simple force ⟨text, file⟩ st).1 = .ok (t.value force) :=
  evaluate_simple_iff.mpr ⟨t, ⟨false, [], text, false, [], .nil, ht, Gap.nil.before .nil,
    by simp⟩, rfl⟩

/-- Data that are printed, on one line or on many, can be evaluated. The result is like
the data, and what had been evaluated before is printed as it was. -/
theorem printed_data_reread {v : Value} (hv : v.Data) :
    ∃ w, (∀ text ∈ [v.lines, v.line], ∀ (σ : Type) (file : Option String) (st : σ),
        (evaluate .simple false ⟨text.toList, file⟩ st).1 = .ok w) ∧
      v.Alike w ∧
      ((∃ (σ : Type) (force : Bool) (source : Source) (st : σ),
        (evaluate .simple force source st).1 = .ok v) → w.lines = v.lines) := by
  obtain ⟨hline, hlines⟩ := Value.printed_spelled hv
  refine ⟨v.tree.value false, ?_, Value.alike_tree hv, ?_⟩
  · intro text htext σ file st
    simp only [List.mem_cons, List.not_mem_nil, or_false] at htext
    rcases htext with rfl | rfl
    · exact evaluate_spelled hlines file st
    · exact evaluate_spelled hline file st
  · intro hread
    obtain ⟨σ, force, source, st, hread⟩ := hread
    obtain ⟨t, -, rfl⟩ := evaluate_simple_iff.mp hread
    rw [Value.lines, Value.lines, Value.linesOnto_tree hv (t.settled force)]

theorem Value.data_map_list {key : String} {d : BigDecimal} (readable : d.Readable) :
    (map [(key, .list [.bigDecimal d, .null])]).Data := by
  have hitems : ∀ v ∈ [bigDecimal d, null], v.Data :=
    List.forall_mem_cons.mpr ⟨.bigDecimal readable, List.forall_mem_singleton.mpr .null⟩
  exact .map (List.pairwise_singleton _ key) (List.forall_mem_singleton.mpr (.list hitems))

theorem printed_data_reread_map :
    (Value.map [("a", .list [.bigDecimal ⟨1, 40⟩, .null])]).Data ∧
      ∃ w, (∀ text ∈ [(Value.map [("a", .list [.bigDecimal ⟨1, 40⟩, .null])]).lines,
          (Value.map [("a", .list [.bigDecimal ⟨1, 40⟩, .null])]).line],
          (evaluate .simple false ⟨text.toList, none⟩ ()).1 = .ok w) ∧
        (Value.map [("a", .list [.bigDecimal ⟨1, 40⟩, .null])]).Alike w := by
  have hmap : (Value.map [("a", .list [.bigDecimal ⟨1, 40⟩, .null])]).Data :=
    Value.data_map_list ⟨by decide, by decide⟩
  obtain ⟨w, hw, halike, -⟩ := printed_data_reread hmap
  exact ⟨hmap, w, fun text htext => hw text htext Unit none (), halike⟩

end Cjson
