import Cjson.Proofs.Tree
import Cjson.Proofs.Written

namespace Cjson

/-- A writer of a text with `P` that does not begin with a plus sign, in front of any
tail. -/
def Writes (P : List Char → Prop) (f : List Char → List Char) : Prop :=
  ∃ s, P s ∧ s.head? ≠ some '+' ∧ ∀ tail, f tail = s ++ tail

theorem Writes.imp {P Q : List Char → Prop} {f : List Char → List Char} (h : Writes P f)
    (hPQ : ∀ s, P s → Q s) : Writes Q f := by
  obtain ⟨s, hs, hplus, hf⟩ := h
  exact ⟨s, hPQ s hs, hplus, hf⟩

namespace Text

theorem code_of_lt {n : Nat} (h : n < 0x20) :
    Scan.hexNumber ['0', '0', hexDigit (n / 16), hexDigit n] = n ∧
      ['0', '0', hexDigit (n / 16), hexDigit n].all (Scan.hexValue? · |>.isSome) = true := by
  have hall : (List.range 0x20).all (fun n =>
      Scan.hexNumber ['0', '0', hexDigit (n / 16), hexDigit n] == n &&
        ['0', '0', hexDigit (n / 16), hexDigit n].all (Scan.hexValue? · |>.isSome)) = true := by
    decide
  have := List.all_eq_true.mp hall n (List.mem_range.mpr h)
  simpa using this

theorem escape_spelling (c : Char) (rest : List Char) :
    Spelling '"' (some c) (escape c) rest := by
  unfold escape
  split
  iterate 7 exact .letter (by simp [escapes])
  rename_i hbackslash hquote _ _ _ _ _
  by_cases hlow : c.toNat < 0x20
  · obtain ⟨hnumber, hhex⟩ := code_of_lt hlow
    have hcode : Spelling '"' (some (.ofNat (Scan.hexNumber
        ['0', '0', hexDigit (c.toNat / 16), hexDigit c.toNat])))
        ['\\', 'u', '0', '0', hexDigit (c.toNat / 16), hexDigit c.toNat] rest :=
      .code (.inr rfl) (List.cons_ne_nil _ _) (Nat.le_refl 4) (List.all_eq_true.mp hhex)
        (fun h => absurd h (Nat.lt_irrefl 4)) (by omega)
    rw [hnumber, Char.ofNat_toNat] at hcode
    rw [if_pos hlow]
    exact hcode
  · rw [if_neg hlow]
    exact .verbatim hquote hbackslash

theorem escape_spells (cs : List Char) : Spells '"' cs (cs.flatMap escape) := by
  induction cs with
  | nil => exact .nil
  | cons c cs ih =>
    rw [List.flatMap_cons]
    exact .cons (escape_spelling c _) ih

/-- Quoted text is a literal for itself. -/
theorem quotedOnto_writes (s : String) : Writes (Literal s) (quotedOnto s.toList) := by
  have hliteral : Literal s ('"' :: s.toList.flatMap escape ++ ['"']) := by
    have := Literal.quoted (.inl rfl) (escape_spells s.toList)
    rwa [String.ofList_toList] at this
  refine ⟨_, hliteral, by simp, ?_⟩
  intro tail
  have hfoldr : ∀ cs : List Char, cs.foldr (fun c written => escape c ++ written) ('"' :: tail) =
      cs.flatMap escape ++ '"' :: tail := by
    intro cs
    induction cs with
    | nil => rfl
    | cons c cs ih => simp [ih]
  simp [quotedOnto, hfoldr]

end Text

theorem indent_gap (n : Nat) : Gap false (List.replicate n ' ') := by
  induction n with
  | zero => exact .nil
  | succ n ih => exact .blank (c := ' ') rfl ih

theorem newline_gap (n : Nat) : Gap true ('\n' :: List.replicate n ' ') :=
  .blank (c := '\n') rfl (indent_gap n)

section Lists

variable {α β : Type} {P : β → List Char → Prop} {t : α → β}
  {f : α → List Char → List Char} {as : List α}

/-- Writes items with commas between them. -/
def separatedOnto (f : α → List Char → List Char) : List α → List Char → List Char
  | [], tail => tail
  | [a], tail => f a tail
  | a :: rest, tail => f a (',' :: ' ' :: separatedOnto f rest tail)

/-- Writes each item on a line of its own. -/
def eachLineOnto (depth : Nat) (f : α → List Char → List Char) :
    List α → List Char → List Char
  | [], tail => tail
  | a :: rest, tail =>
    Value.indentOnto depth (f a ('\n' :: eachLineOnto depth f rest tail))

/-- Writes items with a comma and a gap between them. -/
def commaOnto (gap : List Char) (f : α → List Char → List Char) :
    List α → List Char → List Char
  | [], tail => tail
  | [a], tail => f a tail
  | a :: rest, tail => f a (',' :: gap ++ commaOnto gap f rest tail)

theorem commaOnto_cons_cons (gap : List Char) (f : α → List Char → List Char) (a b : α)
    (rest : List α) (tail : List Char) : commaOnto gap f (a :: b :: rest) tail =
      f a (',' :: gap ++ commaOnto gap f (b :: rest) tail) :=
  rfl

/-- A writer of lists that does as `commaOnto` for each of its cases is that. -/
theorem eq_commaOnto {gap : List Char} {g : List α → List Char → List Char}
    (nil : ∀ tail, g [] tail = tail) (single : ∀ a tail, g [a] tail = f a tail)
    (cons : ∀ a b rest tail, g (a :: b :: rest) tail = f a (',' :: gap ++ g (b :: rest) tail)) :
    g = commaOnto gap f := by
  funext as
  induction as with
  | nil =>
    funext tail
    exact nil tail
  | cons a as ih =>
    funext tail
    cases as with
    | nil => exact single a tail
    | cons b as =>
      rw [cons, ih, commaOnto_cons_cons]

theorem separatedOnto_eq (f : α → List Char → List Char) : separatedOnto f = commaOnto [' '] f :=
  eq_commaOnto (fun _ => rfl) (fun _ _ => rfl) (fun _ _ _ _ => rfl)

/-- The gap behind the last item may be another one than between items. -/
theorem commaOnto_writes {b b' : Bool} {gap last : List Char} (hgap : Gap b gap)
    (hlast : Gap b' last) (hne : as ≠ [] ∨ last = []) (h : ∀ a ∈ as, Writes (P (t a)) (f a)) :
    ∃ s, Listed P (as.map t) s ∧ ∀ tail, commaOnto gap f as (last ++ tail) = s ++ tail := by
  induction as with
  | nil =>
    obtain rfl := hne.resolve_left (not_not_intro rfl)
    exact ⟨[], .nil, fun tail => rfl⟩
  | cons a as ih =>
    obtain ⟨s, hs, -, hf⟩ := h a (by simp)
    cases as with
    | nil =>
      refine ⟨s ++ last, .last hs hlast, ?_⟩
      intro tail
      rw [commaOnto, hf, List.append_assoc]
    | cons b as =>
      obtain ⟨r, hr, hrest⟩ := ih (.inl (List.cons_ne_nil b as)) (fun c hc => h c (by simp [hc]))
      refine ⟨s ++ [] ++ ',' :: gap ++ r, .comma hs .nil hgap hr, ?_⟩
      intro tail
      rw [commaOnto_cons_cons, hf, hrest]
      simp

theorem separatedOnto_writes (h : ∀ a ∈ as, Writes (P (t a)) (f a)) :
    ∃ s, Listed P (as.map t) s ∧ ∀ tail, separatedOnto f as tail = s ++ tail := by
  rw [separatedOnto_eq]
  exact commaOnto_writes (indent_gap 1) .nil (.inr rfl) h

/-- The line breaks between the items take the place of commas. -/
theorem eachLineOnto_writes (inner outer : Nat) (h : ∀ a ∈ as, Writes (P (t a)) (f a)) :
    ∃ n s, Listed P (as.map t) s ∧ s.head? ≠ some '+' ∧
      ∀ tail, '\n' :: eachLineOnto inner f as (Value.indentOnto outer tail) =
        '\n' :: List.replicate n ' ' ++ s ++ tail := by
  induction as with
  | nil =>
    refine ⟨4 * outer, [], .nil, by simp, ?_⟩
    intro tail
    simp [eachLineOnto, Value.indentOnto]
  | cons a as ih =>
    obtain ⟨s, hs, hplus, hf⟩ := h a (by simp)
    obtain ⟨n, r, hr, hnoPlus, hrest⟩ := ih (fun b hb => h b (by simp [hb]))
    have hitems : Listed P ((a :: as).map t) (s ++ ('\n' :: List.replicate n ' ') ++ r) := by
      cases as with
      | nil =>
        cases hr
        rw [List.append_nil]
        exact .last hs (newline_gap n)
      | cons b as => exact .line hs (newline_gap n) hr (by simp) hnoPlus
    refine ⟨4 * inner, _, hitems, ?_, ?_⟩
    · cases s with
      | nil => simp
      | cons c s => simpa using hplus
    · intro tail
      rw [eachLineOnto, hrest, hf]
      simp [Value.indentOnto]

end Lists

namespace Value

/-- Data are made of scalars, lists and maps. A number of any size can be read back if its
exponent fits into 64 bits; no two entries of a map have the same key. -/
inductive Data : Value → Prop
  | null : Data null
  | boolean (b : Bool) : Data (boolean b)
  | int (n : Int32) : Data (int n)
  | long (n : Int64) : Data (long n)
  | decimal (d : Decimal) : Data (decimal d)
  | bigDecimal {d : BigDecimal} (readable : d.Readable) : Data (bigDecimal d)
  | string (s : String) : Data (string s)
  | list {items : List Value} (each : ∀ v ∈ items, Data v) : Data (list items)
  | map {entries : Entries Value} (unique : (Entries.keys entries).Nodup)
      (each : ∀ e ∈ entries, Data e.2) : Data (map entries)

mutual

/-- The tree that a value is printed as. -/
def tree : Value → Tree
  | string s => .literal s
  | list items => .list (trees items)
  | map entries => .map (pairs entries)
  | v => .word (v.scalarOnto [])

def trees : List Value → List Tree
  | [] => []
  | v :: rest => v.tree :: trees rest

def pairs : Entries Value → List Entry
  | [] => []
  | (key, v) :: rest => .pair key v.tree :: pairs rest

end

theorem trees_eq (items : List Value) : trees items = items.map tree := by
  induction items with
  | nil => rfl
  | cons v rest ih => rw [trees, ih, List.map_cons]

theorem pairs_eq (entries : Entries Value) :
    pairs entries = entries.map (fun e => .pair e.1 e.2.tree) := by
  induction entries with
  | nil => rfl
  | cons e rest ih => rw [pairs, ih, List.map_cons]

theorem numeric_scalarOnto {v : Value} {q : ℚ} (hq : v.rational? = some q) :
    Numeric (v.scalarOnto []) ∧ ∀ tail, v.scalarOnto tail = v.scalarOnto [] ++ tail := by
  cases v with
  | int n => simpa using Numeric.write n.toInt
  | long n => simpa using Numeric.write n.toInt
  | decimal d => simpa using Numeric.write_decimal d
  | bigDecimal d => simpa using Numeric.write_bigDecimal d
  | _ => cases hq

theorem number_writes {v : Value} {q : ℚ} (hq : v.rational? = some q) :
    Writes (Tree.Spelled Word (.word (v.scalarOnto []))) v.scalarOnto := by
  obtain ⟨hnumeric, htail⟩ := numeric_scalarOnto hq
  refine ⟨_, .word hnumeric.word, ?_, htail⟩
  obtain ⟨c, t, hs, hc⟩ := hnumeric.first
  rw [hs, List.head?_cons]
  intro he
  cases he
  simp at hc

theorem keyword_writes {w : List Char} (hne : w ≠ [])
    (hw : w.all Character.isWordChar = true) :
    Writes (Tree.Spelled Word (.word w)) (w ++ ·) := by
  have hword : ∀ c ∈ w, Character.isWordChar c = true := List.all_eq_true.mp hw
  refine ⟨w, .word ⟨hne, [], w, rfl, .inl rfl, hword⟩, ?_, fun tail => rfl⟩
  intro hplus
  have := hword '+' (List.mem_of_mem_head? hplus)
  cases this

theorem list_writes {ts : List Tree} {f : List Char → List Char} {b : Bool} {g s : List Char}
    (hg : Gap b g) (hs : Listed (Tree.Spelled Word) ts s)
    (hf : ∀ tail, f tail = '[' :: g ++ s ++ ']' :: tail) :
    Writes (Tree.Spelled Word (.list ts)) f := by
  refine ⟨_, .list hg hs, by simp, ?_⟩
  intro tail
  simp [hf]

theorem map_writes {es : List Entry} {f : List Char → List Char} {b : Bool} {g s : List Char}
    (hg : Gap b g) (hs : Listed (Entry.Spelled Word) es s)
    (hf : ∀ tail, f tail = '\x7b' :: g ++ s ++ '\x7d' :: tail) :
    Writes (Tree.Spelled Word (.map es)) f := by
  refine ⟨_, .map hg hs, by simp, ?_⟩
  intro tail
  simp [hf]

theorem entry_writes (key : String) {t : Tree} {f : List Char → List Char} {b : Bool}
    {g : List Char} (hg : Gap b g) (hf : Writes (Tree.Spelled Word t) f) :
    Writes (Entry.Spelled Word (.pair key t))
      (fun tail => Text.quotedOnto key.toList (':' :: g ++ f tail)) := by
  obtain ⟨s, hs, hplus, hs'⟩ := Text.quotedOnto_writes key
  obtain ⟨u, hu, -, hf⟩ := hf
  refine ⟨_, .pair (.literal hs) .nil hg hu, ?_, ?_⟩
  · cases s with
    | nil => simp
    | cons c s => simpa using hplus
  · intro tail
    simp [hs', hf]

theorem lineItemsOnto_eq (items : List Value) :
    lineItemsOnto items = separatedOnto lineOnto items := by
  rw [separatedOnto_eq]
  exact congrFun (eq_commaOnto (fun _ => rfl) (fun _ _ => rfl) (fun _ _ _ _ => rfl)) items

theorem lineEntriesOnto_eq (entries : Entries Value) :
    lineEntriesOnto entries = separatedOnto
      (fun e tail => Text.quotedOnto e.1.toList (':' :: [] ++ lineOnto e.2 tail)) entries := by
  rw [separatedOnto_eq]
  exact congrFun (eq_commaOnto (fun _ => rfl) (fun _ _ => rfl) (fun _ _ _ _ => rfl)) entries

theorem itemLinesOnto_eq (depth : Nat) (items : List Value) :
    itemLinesOnto depth items = eachLineOnto depth (linesOnto depth) items := by
  induction items with
  | nil => rfl
  | cons v rest ih =>
    funext tail
    rw [itemLinesOnto, eachLineOnto, ih]

theorem entryLinesOnto_eq (depth : Nat) (entries : Entries Value) :
    entryLinesOnto depth entries = eachLineOnto depth
      (fun e tail => Text.quotedOnto e.1.toList (':' :: [' '] ++ linesOnto depth e.2 tail))
      entries := by
  induction entries with
  | nil => rfl
  | cons e rest ih =>
    funext tail
    rw [entryLinesOnto, eachLineOnto, ih]
    rfl

theorem lineOnto_writes {v : Value} (h : v.Data) :
    Writes (v.tree.Spelled Word) v.lineOnto := by
  induction h with
  | null => exact keyword_writes (w := "null".toList) (by simp) (by decide)
  | boolean b =>
    cases b with
    | false => exact keyword_writes (w := "false".toList) (by simp) (by decide)
    | true => exact keyword_writes (w := "true".toList) (by simp) (by decide)
  | int n => exact number_writes (v := int n) rfl
  | long n => exact number_writes (v := long n) rfl
  | decimal d => exact number_writes (v := decimal d) rfl
  | @bigDecimal d readable => exact number_writes (v := bigDecimal d) rfl
  | string s => exact (Text.quotedOnto_writes s).imp (fun _ hs => .literal hs)
  | @list items each ih =>
    obtain ⟨s, hs, hf⟩ := separatedOnto_writes ih
    rw [tree, trees_eq]
    refine list_writes .nil hs ?_
    intro tail
    rw [lineOnto, lineItemsOnto_eq, hf]
    rfl
  | @map entries unique each ih =>
    obtain ⟨s, hs, hf⟩ := separatedOnto_writes
      (fun e he => entry_writes e.1 .nil (ih e he))
    rw [tree, pairs_eq]
    refine map_writes .nil hs ?_
    intro tail
    rw [lineOnto, lineEntriesOnto_eq, hf]
    rfl

theorem linesOnto_writes {v : Value} (h : v.Data) (depth : Nat) :
    Writes (v.tree.Spelled Word) (v.linesOnto depth) := by
  induction h generalizing depth with
  | @list items each ih =>
    obtain ⟨n, s, hs, -, hf⟩ := eachLineOnto_writes (depth + 1) depth
      (fun v hv => ih v hv (depth + 1))
    rw [tree, trees_eq]
    refine list_writes (newline_gap n) hs ?_
    intro tail
    rw [linesOnto, itemLinesOnto_eq, hf]
    rfl
  | @map entries unique each ih =>
    obtain ⟨n, s, hs, -, hf⟩ := eachLineOnto_writes (depth + 1) depth
      (fun e he => entry_writes e.1 (indent_gap 1) (ih e he (depth + 1)))
    rw [tree, pairs_eq]
    refine map_writes (newline_gap n) hs ?_
    intro tail
    rw [linesOnto, entryLinesOnto_eq]
    exact congrArg _ (hf _)
  | null => exact lineOnto_writes .null
  | boolean b => exact lineOnto_writes (.boolean b)
  | int n => exact lineOnto_writes (.int n)
  | long n => exact lineOnto_writes (.long n)
  | decimal d => exact lineOnto_writes (.decimal d)
  | bigDecimal readable => exact lineOnto_writes (.bigDecimal readable)
  | string s => exact lineOnto_writes (.string s)

/-- Either printed form is a text of the tree. -/
theorem printed_spelled {v : Value} (h : v.Data) :
    v.tree.Spelled Word v.line.toList ∧ v.tree.Spelled Word v.lines.toList := by
  obtain ⟨s, hs, -, hf⟩ := lineOnto_writes h
  obtain ⟨s', hs', -, hf'⟩ := linesOnto_writes h 0
  rw [line, lines, hf, hf', List.append_nil, List.append_nil, String.toList_ofList,
    String.toList_ofList]
  exact ⟨hs, hs'⟩

end Value
end Cjson
