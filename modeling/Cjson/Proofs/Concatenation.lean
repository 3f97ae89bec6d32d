import Cjson.Proofs.Brackets

namespace Cjson

namespace Entries

variable {α : Type} {key other : String} {a b : α} {m new : Entries α}

/-- The entries of a map with those of another. A key of both keeps its place and takes the
new value, and the new keys come behind the others. -/
def extend (m new : Entries α) : Entries α :=
  m.map (fun e => (e.1, (new.lookup e.1).getD e.2)) ++ new.filter (fun e => e.1 ∉ keys m)

theorem put_put (m : Entries α) : put key b (put key a m) = put key b m := by
  induction m with
  | nil => simp [put]
  | cons e m ih =>
    by_cases hk : e.1 = key
    · simp [put, hk]
    · simp [put, hk, ih]

/-- A key that has its place can take its value before or after another is put. -/
theorem put_comm (hmem : key ∈ keys m) (hne : other ≠ key) :
    put other b (put key a m) = put key a (put other b m) := by
  induction m with
  | nil => cases hmem
  | cons e m ih =>
    obtain ⟨k, c⟩ := e
    by_cases hkey : k = key
    · subst hkey
      simp [put, Ne.symm hne]
    by_cases hother : k = other
    · subst hother
      simp [put, hne]
    · have hrest : key ∈ keys m := by simpa [keys, Ne.symm hkey] using hmem
      simp [put, hkey, hother, ih hrest]

theorem mem_keys_put (h : key ∈ keys m) : key ∈ keys (put other b m) := by
  rw [keys_put]
  split
  · exact h
  · exact List.mem_append_left _ h

theorem putAll_put_of_mem (hmem : key ∈ keys m) (hnew : key ∉ keys new) :
    putAll new (put key a m) = put key a (putAll new m) := by
  induction new generalizing m with
  | nil => rfl
  | cons e new ih =>
    obtain ⟨hne, hnew⟩ : key ≠ e.1 ∧ key ∉ keys new := by simpa [keys] using hnew
    change putAll new (put e.1 e.2 (put key a m)) = put key a (putAll new (put e.1 e.2 m))
    rw [put_comm hmem (Ne.symm hne), ih (mem_keys_put hmem) hnew]

/-- What is put into a map before its entries are put may be put after them. -/
theorem putAll_put (hnew : (keys new).Nodup) (m : Entries α) :
    putAll (put key a new) m = put key a (putAll new m) := by
  induction new generalizing m with
  | nil => rfl
  | cons e new ih =>
    obtain ⟨k, b⟩ := e
    obtain ⟨hk, hnew⟩ : k ∉ keys new ∧ (keys new).Nodup := List.nodup_cons.mp hnew
    by_cases hkey : k = key
    · subst hkey
      have hmem : k ∈ keys (put k b m) := by
        rw [keys_put]
        split
        · assumption
        · simp
      rw [put, if_pos rfl]
      change putAll new (put k a m) = put k a (putAll new (put k b m))
      rw [← putAll_put_of_mem hmem hk, put_put]
    · rw [put, if_neg hkey]
      exact ih hnew _

theorem putAll_putAll (hm : (keys m).Nodup) (m₁ : Entries α) :
    putAll (putAll new m) m₁ = putAll new (putAll m m₁) := by
  induction new generalizing m with
  | nil => rfl
  | cons e new ih =>
    change putAll (putAll new (put e.1 e.2 m)) m₁ = putAll new (put e.1 e.2 (putAll m m₁))
    rw [ih (nodup_keys_put hm), putAll_put hm]

theorem put_of_mem (hmem : key ∈ keys m) (hm : (keys m).Nodup) :
    put key a m = m.map (fun e => (e.1, if e.1 = key then a else e.2)) := by
  induction m with
  | nil => cases hmem
  | cons e m ih =>
    obtain ⟨k, b⟩ := e
    obtain ⟨hk, hm⟩ : k ∉ keys m ∧ (keys m).Nodup := List.nodup_cons.mp hm
    by_cases hkey : k = key
    · subst hkey
      have hrest : ∀ e ∈ m, (e.1, if e.1 = k then a else e.2) = e := by
        intro e he
        rw [if_neg (ne_of_not_mem hk he)]
      rw [put, if_pos rfl, List.map_cons, if_pos rfl, List.map_congr_left hrest, List.map_id']
    · have hrest : key ∈ keys m := by simpa [keys, Ne.symm hkey] using hmem
      simp [put, hkey, ih hrest hm]

/-- Putting one entry and extending by the others is extending by all of them. -/
theorem extend_put (hm : (keys m).Nodup) (hnew : key ∉ keys new) :
    (put key a m).extend new = m.extend ((key, a) :: new) := by
  have hnone := lookup_of_not_mem hnew
  by_cases hmem : key ∈ keys m
  · have hkeys : keys (put key a m) = keys m := by rw [keys_put, if_pos hmem]
    rw [extend, extend, hkeys, put_of_mem hmem hm, List.map_map, List.filter_cons,
      if_neg (by simp [hmem])]
    congr 1
    refine List.map_congr_left fun e _ => ?_
    by_cases he : e.1 = key
    · simp [he, hnone]
    · simp [he, List.lookup_cons, beq_false_of_ne he]
  · have hold : ∀ e ∈ m, (new.lookup e.1).getD e.2 =
        (((key, a) :: new).lookup e.1).getD e.2 := by
      intro e he
      rw [List.lookup_cons, beq_false_of_ne (ne_of_not_mem hmem he)]
    have hadded : new.filter (fun e => e.1 ∉ keys m ++ [key]) =
        new.filter (fun e => e.1 ∉ keys m) := by
      refine List.filter_congr fun e he => ?_
      simp [ne_of_not_mem hnew he]
    rw [extend, extend, keys_put, if_neg hmem, put_of_not_mem hmem, List.map_append,
      List.map_congr_left fun e he => congrArg (Prod.mk e.1) (hold e he), hadded,
      List.filter_cons, if_pos (by simp [hmem])]
    simp [hnone]

theorem putAll_eq_extend (hm : (keys m).Nodup) (hnew : (keys new).Nodup) :
    putAll new m = m.extend new := by
  induction new generalizing m with
  | nil => simp [putAll, extend]
  | cons e new ih =>
    obtain ⟨k, b⟩ := e
    obtain ⟨hk, hnew⟩ : k ∉ keys new ∧ (keys new).Nodup := List.nodup_cons.mp hnew
    change putAll new (put k b m) = _
    rw [ih (nodup_keys_put hm) hnew, extend_put hm hk]

end Entries

theorem Entry.allInto_append (force : Bool) (es es' : List Entry) (m : Entries Value) :
    Entry.allInto force (es ++ es') m =
      Entry.allInto force es' (Entry.allInto force es m) := by
  induction es generalizing m with
  | nil => rw [List.nil_append, Entry.allInto]
  | cons e es ih => rw [List.cons_append, Entry.allInto, Entry.allInto, ih]

/-- An entry joins the entries of a map as it does when these are merged later. -/
theorem Entry.into_putAll {force : Bool} {e : Entry} {n : Entries Value}
    (hn : (Entries.keys n).Nodup) (m : Entries Value) :
    e.into force (Entries.putAll n m) = Entries.putAll (e.into force n) m := by
  cases e with
  | pair _ _ | bare _ => rw [Entry.into, Entry.into, Entries.putAll_put hn]
  | merged _ => rw [Entry.into, Entry.into, Entries.putAll_putAll hn]

theorem Entry.allInto_putAll {force : Bool} {es : List Entry} {n : Entries Value}
    (hn : (Entries.keys n).Nodup) (m : Entries Value) :
    Entry.allInto force es (Entries.putAll n m) =
      Entries.putAll (Entry.allInto force es n) m := by
  induction es generalizing n with
  | nil => rw [Entry.allInto, Entry.allInto]
  | cons e es ih => rw [Entry.allInto, Entry.allInto, Entry.into_putAll hn, ih (nodup_into hn)]

/-- Entries join others as they do when they are merged from a map of their own. -/
theorem Entry.allInto_eq_extend {force : Bool} (es : List Entry) {m : Entries Value}
    (hm : (Entries.keys m).Nodup) :
    Entry.allInto force es m = m.extend (Entry.allInto force es []) := by
  have hnil : (Entries.keys ([] : Entries Value)).Nodup := .nil
  rw [← Entries.putAll_eq_extend hm (Entry.nodup_allInto hnil), ← Entry.allInto_putAll hnil]
  rfl

/-- In braces, with the closing one on a line of its own, entries are a map to merge. -/
theorem merged_line {es : List Entry} {text : List Char}
    (h : Layout (Entry.Spelled Word) es text) :
    Layout (Entry.Spelled Word) [.merged es] ('\x7b' :: text ++ ['\n', '\x7d']) := by
  obtain ⟨b, g, s, hg, hs, he⟩ := (between_line_iff (o := '\x7b') (c := '\x7d')
    (fun _ _ h => h.opens) fun _ _ h => h.closes).mpr h
  rw [he]
  exact ⟨false, [], _, [], .nil, .last (.merged hg hs) .nil, .inl ⟨rfl, .nil⟩, by simp⟩

/-- Where two texts list entries or items, they may be put together with a line break
between them. The entries of the second may stand in braces too. -/
theorem concatenated_evaluation_extends {σ : Type} (text text' : List Char)
    (file : Option String) (st : σ) (noPlus : Text.first? text' ≠ some '+') :
    (∀ m m', (evaluateMap .simple false ⟨text, file⟩ st).1 = .ok m →
      (evaluateMap .simple false ⟨text', file⟩ st).1 = .ok m' →
      (evaluateMap .simple false ⟨text ++ '\n' :: text', file⟩ st).1 =
        .ok (m.extend m') ∧
      (evaluateMap .simple false
        ⟨text ++ '\n' :: ('\x7b' :: text' ++ ['\n', '\x7d']), file⟩ st).1 =
        .ok (m.extend m')) ∧
    (∀ vs vs', (evaluateList .simple false ⟨text, file⟩ st).1 = .ok vs →
      (evaluateList .simple false ⟨text', file⟩ st).1 = .ok vs' →
      (evaluateList .simple false ⟨text ++ '\n' :: text', file⟩ st).1 =
        .ok (vs ++ vs')) := by
  constructor
  · intro m m' h h'
    obtain ⟨es, hes, rfl⟩ := evaluateMap_simple_iff.mp h
    obtain ⟨es', hes', rfl⟩ := evaluateMap_simple_iff.mp h'
    have hnil : (Entries.keys ([] : Entries Value)).Nodup := .nil
    have hm : (Entries.keys (Entry.allInto false es [])).Nodup := Entry.nodup_allInto hnil
    constructor
    · refine evaluateMap_simple_iff.mpr
        ⟨es ++ es', hes.append (fun _ _ h => h.opens) hes' noPlus, ?_⟩
      rw [Entry.allInto_append, Entry.allInto_eq_extend es' hm]
    · have hbrace : Text.first? ('\x7b' :: text' ++ ['\n', '\x7d']) ≠ some '+' := by
        have hsolid : Solid ('\x7b' :: text' ++ ['\n', '\x7d']) := .cons rfl (by simp)
        rw [Text.first?_of_solid hsolid]
        simp
      refine evaluateMap_simple_iff.mpr ⟨es ++ [.merged es'],
        hes.append (fun _ _ h => h.opens) (merged_line hes') hbrace, ?_⟩
      rw [Entry.allInto_append, Entry.allInto, Entry.into, Entry.allInto,
        Entries.putAll_eq_extend hm (Entry.nodup_allInto hnil)]
  · intro vs vs' h h'
    obtain ⟨ts, hts, rfl⟩ := evaluateList_simple_iff.mp h
    obtain ⟨ts', hts', rfl⟩ := evaluateList_simple_iff.mp h'
    refine evaluateList_simple_iff.mpr
      ⟨ts ++ ts', hts.append (fun _ _ h => h.opens) hts' noPlus, ?_⟩
    simp only [Tree.values_eq_map, List.map_append]

/-- Behind `a:x`, the text `b,a` gives the key `a` a new value in its old place. -/
theorem concatenated_evaluation_extends_map :
    Text.first? "b,a".toList ≠ some '+' ∧
    (evaluateMap .simple false ⟨"a:x".toList, none⟩ ()).1 = .ok [("a", .string "x")] ∧
    (evaluateMap .simple false ⟨"b,a".toList, none⟩ ()).1 =
      .ok [("b", .boolean true), ("a", .boolean true)] ∧
    (evaluateMap .simple false ⟨"a:x\nb,a".toList, none⟩ ()).1 =
      .ok [("a", .boolean true), ("b", .boolean true)] := by
  have ha : Word ['a'] := .of_all rfl
  have hb : Word ['b'] := .of_all rfl
  have hx : Word ['x'] := .of_all rfl
  have hfirst : Text.first? "b,a".toList ≠ some '+' := by
    rw [show "b,a".toList = ['b'] ++ [',', 'a'] by simp,
      Text.first?_of_solid (hb.opens.append [',', 'a']).solid]
    simp
  have hm : (evaluateMap .simple false ⟨"a:x".toList, none⟩ ()).1 =
      .ok [("a", .string "x")] :=
    evaluateMap_simple_iff.mpr ⟨[.pair "a" (.word ['x'])], ⟨false, [], _, [], .nil,
      .last (.pair (.word ha) .nil .nil (.word hx)) .nil, .inl ⟨rfl, .nil⟩, rfl⟩, rfl⟩
  have hm' : (evaluateMap .simple false ⟨"b,a".toList, none⟩ ()).1 =
      .ok [("b", .boolean true), ("a", .boolean true)] :=
    evaluateMap_simple_iff.mpr ⟨[.bare "b", .bare "a"], ⟨false, [], _, [], .nil,
      .comma (.bare (.word hb)) .nil .nil (.last (.bare (.word ha)) .nil),
      .inl ⟨rfl, .nil⟩, rfl⟩, rfl⟩
  have h := ((concatenated_evaluation_extends _ _ none () hfirst).1 _ _ hm hm').1
  exact ⟨hfirst, hm, hm', by simpa [Entries.extend, Entries.keys, List.lookup_cons] using h⟩

end Cjson
