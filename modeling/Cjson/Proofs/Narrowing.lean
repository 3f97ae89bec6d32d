import Cjson.Proofs.RoundTrip

namespace Cjson

namespace Value

/-- The first value is the second, or it is in there at some depth. -/
inductive Occurs (v : Value) : Value → Prop
  | here : Occurs v v
  | item {items : List Value} {u : Value} (mem : u ∈ items) (deeper : Occurs v u) :
      Occurs v (list items)
  | entry {entries : Entries Value} {e : String × Value} (mem : e ∈ entries)
      (deeper : Occurs v e.2) : Occurs v (map entries)
  | argument {function : String} {arguments : List Value} {u : Value} (mem : u ∈ arguments)
      (deeper : Occurs v u) : Occurs v (call function arguments)

/-- No function call is left in the value. -/
def Resolved (v : Value) : Prop :=
  ∀ function arguments, ¬(call function arguments).Occurs v

mutual

/-- The value with the integers in place of its short decimals. -/
def narrow : Value → Value
  | decimal d => if d.Short then int (.ofInt d.mantissa) else decimal d
  | list items => list (narrowItems items)
  | map entries => map (narrowEntries entries)
  | v => v

def narrowItems : List Value → List Value
  | [] => []
  | v :: vs => v.narrow :: narrowItems vs

def narrowEntries : Entries Value → Entries Value
  | [] => []
  | (key, v) :: rest => (key, v.narrow) :: narrowEntries rest

end

theorem narrowItems_eq (items : List Value) : narrowItems items = items.map narrow := by
  induction items with
  | nil => rw [narrowItems, List.map_nil]
  | cons v vs ih => rw [narrowItems, List.map_cons, ih]

theorem narrowEntries_eq (entries : Entries Value) :
    narrowEntries entries = entries.map (fun e => (e.1, e.2.narrow)) := by
  induction entries with
  | nil => rw [narrowEntries, List.map_nil]
  | cons e rest ih =>
    obtain ⟨key, v⟩ := e
    rw [narrowEntries, List.map_cons, ih]

/-- What is read from a word can be printed. -/
theorem data_ofWord (w : List Char) : (ofWord w).Data := by
  refine ofWord_cases w .boolean .null ?_ (.string _)
  intro s v h
  obtain ⟨k, -, rfl⟩ | ⟨-, n, -, ⟨d, -, rfl⟩ | ⟨-, d, -, rfl⟩⟩ := of_ofNumeral? h
  · exact .int k
  · exact .decimal d
  · exact .bigDecimal (readable_of_read h)

/-- What is evaluated can be printed, unless there are calls in it. -/
theorem data_inherited : Inherited fun v => v.Resolved → v.Data where
  word w _ := data_ofWord w
  string s _ := .string s
  bare _ := .boolean true
  list each h := .list fun v hv => each v hv fun f as hcall => h f as (.item hv hcall)
  map unique each h :=
    .map unique fun e he => each e he fun f as hcall => h f as (.entry he hcall)
  call function arguments _ h := absurd .here (h function arguments)

/-- A printed number is read back narrowed. -/
theorem ofNumeral?_scalarOnto {v : Value} {q : ℚ} (hv : v.Data) (hsettled : v.Settled)
    (hq : v.rational? = some q) : ofNumeral? (v.scalarOnto []) = some v.narrow := by
  cases hv with
  | int n =>
    rw [scalarOnto_int, List.append_nil, ofNumeral?_write_int, narrow]
    all_goals simp
  | long n => cases hsettled
  | decimal d =>
    rw [scalarOnto_decimal, List.append_nil, narrow]
    by_cases h : d.Short
    · rw [if_pos h, ofNumeral?_write_short h]
    · rw [if_neg h, ofNumeral?_write_decimal h]
  | @bigDecimal d readable =>
    cases hsettled with
    | bigDecimal large =>
      rw [scalarOnto_bigDecimal, List.append_nil, ofNumeral?_write_bigDecimal readable large,
        narrow]
      all_goals simp
  | _ => cases hq

theorem number_tree_narrow {v : Value} {q : ℚ} (hv : v.Data) (hsettled : v.Settled)
    (hq : v.rational? = some q) : v.tree.value false = v.narrow := by
  rw [number_tree hq]
  exact (numeric_scalarOnto hq).1.ofWord (ofNumeral?_scalarOnto hv hsettled hq)

/-- The tree of printed data means the data with short decimals narrowed. -/
theorem tree_narrow {v : Value} (h : v.Data) (hsettled : v.Settled) :
    v.tree.value false = v.narrow := by
  induction h with
  | null => rfl
  | boolean b =>
    cases b with
    | false => rfl
    | true => rfl
  | int n => exact number_tree_narrow (.int n) hsettled rfl
  | long n => exact number_tree_narrow (.long n) hsettled rfl
  | decimal d => exact number_tree_narrow (.decimal d) hsettled rfl
  | bigDecimal readable => exact number_tree_narrow (.bigDecimal readable) hsettled rfl
  | string s => rfl
  | @list items each ih =>
    cases hsettled with
    | list settled =>
      rw [tree_value_list, narrow, narrowItems_eq]
      exact congrArg list (List.map_congr_left fun v hv => ih v hv (settled v hv))
  | @map entries unique each ih =>
    cases hsettled with
    | map settled =>
      rw [tree_value_map unique, narrow, narrowEntries_eq]
      refine congrArg map (List.map_congr_left fun e he => ?_)
      rw [ih e he (settled e he)]

theorem sameItems_map {f : Value → Value} {items : List Value} :
    sameItems items (items.map f) = true ↔ ∀ v ∈ items, v.same (f v) = true := by
  induction items with
  | nil => simp [sameItems]
  | cons v vs ih => simp [sameItems, ih]

theorem foundIn_iff {entries others : Entries Value} :
    foundIn entries others = true ↔
      ∀ e ∈ entries, ∃ u, others.lookup e.1 = some u ∧ e.2.same u = true := by
  induction entries with
  | nil => simp [foundIn]
  | cons e rest ih =>
    obtain ⟨key, v⟩ := e
    rw [foundIn, Bool.and_eq_true, ih, List.forall_mem_cons]
    cases others.lookup key with
    | none => simp
    | some u => simp

/-- With different keys, maps are equal if their values are, key by key. -/
theorem same_map_iff {f : Value → Value} {entries : Entries Value}
    (unique : (Entries.keys entries).Nodup) :
    (map entries).same (map (entries.map (fun e => (e.1, f e.2)))) = true ↔
      ∀ e ∈ entries, e.2.same (f e.2) = true := by
  have hkeys : Entries.keys (entries.map (fun e => (e.1, f e.2))) = Entries.keys entries := by
    simp [Entries.keys]
  have hlookup : ∀ e ∈ entries, (entries.map (fun e => (e.1, f e.2))).lookup e.1 =
      some (f e.2) := by
    intro e he
    have hmem := List.mem_map_of_mem (f := fun e => (e.1, f e.2)) he
    exact Entries.lookup_of_mem (hkeys ▸ unique) hmem
  rw [same, Bool.and_eq_true, foundIn_iff]
  constructor
  · rintro ⟨-, h⟩ e he
    obtain ⟨u, hu, hsame⟩ := h e he
    rw [hlookup e he, Option.some.injEq] at hu
    rwa [hu]
  · intro h
    refine ⟨by simp, ?_⟩
    intro e he
    exact ⟨_, hlookup e he, h e he⟩

theorem narrow_list_iff {items : List Value} :
    (list items).narrow = list items ↔ ∀ v ∈ items, v.narrow = v := by
  rw [narrow, list.injEq, narrowItems_eq]
  conv_lhs => rhs; rw [← List.map_id items]
  exact List.map_inj_left

theorem narrow_map_iff {entries : Entries Value} :
    (map entries).narrow = map entries ↔ ∀ e ∈ entries, e.2.narrow = e.2 := by
  rw [narrow, map.injEq, narrowEntries_eq]
  conv_lhs => rhs; rw [← List.map_id entries]
  rw [List.map_inj_left]
  simp [Prod.ext_iff]

/-- Narrowed data equal the data only if nothing had to be narrowed. -/
theorem same_narrow_iff {v : Value} (h : v.Data) :
    v.same v.narrow = true ↔ v.narrow = v := by
  induction h with
  | null | boolean _ | int _ | long _ | string _ => simp [narrow, same]
  | decimal d =>
    rw [narrow]
    by_cases h : d.Short
    · rw [if_pos h]
      simp [same]
    · rw [if_neg h]
      simp [same, BigDecimal.same]
  | bigDecimal _ => simp [narrow, same, BigDecimal.same]
  | @list items each ih =>
    rw [narrow_list_iff, narrow, narrowItems_eq, same, sameItems_map]
    exact forall₂_congr ih
  | @map entries unique each ih =>
    rw [narrow_map_iff, narrow, narrowEntries_eq, same_map_iff unique]
    exact forall₂_congr ih

theorem narrow_eq_iff {v : Value} (h : v.Data) :
    v.narrow = v ↔ ∀ d : Decimal, (decimal d).Occurs v → ¬d.Short := by
  induction h with
  | @list items each ih =>
    rw [narrow_list_iff]
    constructor
    · intro h d hd
      cases hd with
      | item hv hd => exact (ih _ hv).mp (h _ hv) d hd
    · intro h v hv
      exact (ih v hv).mpr fun d hd => h d (.item hv hd)
  | @map entries unique each ih =>
    rw [narrow_map_iff]
    constructor
    · intro h d hd
      cases hd with
      | entry he hd => exact (ih _ he).mp (h _ he) d hd
    · intro h e he
      exact (ih e he).mpr fun d hd => h d (.entry he hd)
  | decimal d =>
    rw [narrow]
    by_cases h : d.Short
    · rw [if_pos h]
      simp only [reduceCtorEq, false_iff]
      exact fun hshort => hshort d .here h
    · rw [if_neg h]
      simp only [true_iff]
      intro d' hd'
      cases hd'
      exact h
  | _ =>
    simp only [narrow, true_iff]
    intro d hd
    cases hd

end Value

/-- What has been evaluated, and has no calls left in it, is printed as a text for the same
with its short decimals narrowed to integers. That is equal to it only if there are none
of these, and then nothing at all is different, not even the variant of a number. -/
theorem printed_evaluation_narrows {σ : Type} {source : Source} {st : σ} {v : Value}
    (h : (evaluate .simple false source st).1 = .ok v) (hresolved : v.Resolved) :
    (∀ text ∈ [v.lines, v.line], ∀ (τ : Type) (file : Option String) (st' : τ),
      (evaluate .simple false ⟨text.toList, file⟩ st').1 = .ok v.narrow) ∧
    (v.same v.narrow = true ↔ ∀ d : Decimal, (Value.decimal d).Occurs v → ¬d.Short) ∧
    ((∀ d : Decimal, (Value.decimal d).Occurs v → ¬d.Short) → v.narrow = v) := by
  obtain ⟨t, -, rfl⟩ := evaluate_simple_iff.mp h
  have hdata := Value.data_inherited.tree false t hresolved
  refine ⟨?_, ?_, (Value.narrow_eq_iff hdata).mpr⟩
  · obtain ⟨hline, hlines⟩ := Value.printed_spelled hdata
    intro text htext τ file st'
    rw [← Value.tree_narrow hdata (t.settled false)]
    simp only [List.mem_cons, List.not_mem_nil, or_false] at htext
    rcases htext with rfl | rfl
    · exact evaluate_spelled hlines file st'
    · exact evaluate_spelled hline file st'
  · rw [Value.same_narrow_iff hdata, Value.narrow_eq_iff hdata]

/-- Of the two decimals in `[1.5,1.]`, one has no fraction digits and turns into an
integer. -/
theorem printed_evaluation_narrows_list :
    ∃ d e : Decimal,
      (evaluate .simple false ⟨"[1.5,1.]".toList, none⟩ ()).1 =
        .ok (.list [.decimal d, .decimal e]) ∧
      (Value.list [.decimal d, .decimal e]).Resolved ∧
      (evaluate .simple false ⟨(Value.list [.decimal d, .decimal e]).line.toList, none⟩ ()).1 =
        .ok (.list [.decimal d, .int 1]) := by
  have hfirst : Word "1.5".toList := .of_all rfl
  have hsecond : Word "1.".toList := .of_all rfl
  have hlist : Tree.Spelled Word (.list [.word "1.5".toList, .word "1.".toList])
      "[1.5,1.]".toList :=
    .list .nil (.comma (.word hfirst) .nil .nil (.last (.word hsecond) .nil))
  have hresolved : ∀ d e : Decimal, (Value.list [.decimal d, .decimal e]).Resolved := by
    intro d e f arguments hcall
    cases hcall with
    | item mem deeper =>
      simp only [List.mem_cons, List.not_mem_nil, or_false] at mem
      rcases mem with rfl | rfl
      · cases deeper
      · cases deeper
  have h : (evaluate .simple false ⟨"[1.5,1.]".toList, none⟩ ()).1 = .ok (.list
      [.decimal ⟨15, 1, by simp, by simp⟩, .decimal ⟨1, 0, by simp, by simp⟩]) :=
    evaluate_spelled hlist none ()
  refine ⟨_, _, h, hresolved _ _, ?_⟩
  rw [(printed_evaluation_narrows h (hresolved _ _)).1 _ (by simp) Unit none ()]
  rfl

/-- A decimal without fraction digits is printed as an integer, and not equal to it. -/
theorem printed_decimal_differs :
    ∃ d : Decimal, (evaluate .simple false ⟨"1.".toList, none⟩ ()).1 = .ok (.decimal d) ∧
      (Value.decimal d).Resolved ∧ (Value.decimal d).lines = "1" ∧
      (Value.decimal d).line = "1" ∧
      (evaluate .simple false ⟨"1".toList, none⟩ ()).1 = .ok (.int 1) ∧
      (Value.decimal d).same (.int 1) = false := by
  have hdecimal : Word "1.".toList := .of_all rfl
  have hint : Word "1".toList := .of_all rfl
  have h : (evaluate .simple false ⟨"1.".toList, none⟩ ()).1 =
      .ok (.decimal ⟨1, 0, by simp, by simp⟩) := evaluate_spelled (.word hdecimal) none ()
  refine ⟨_, h, ?_, rfl, rfl, evaluate_spelled (.word hint) none (), ?_⟩
  · intro f arguments hcall
    cases hcall
  · simp [Value.same]

end Cjson
