import Cjson.Proofs.Literal
import Cjson.Proofs.Word
import Cjson.Value.Word

namespace Cjson

mutual

/-- An expression. -/
inductive Tree where
  | word (w : List Char)
  | literal (s : String)
  | list (items : List Tree)
  | map (entries : List Entry)
  | call (function : List Char) (arguments : List Tree)

/-- What a map has in it. -/
inductive Entry where
  | pair (key : String) (value : Tree)
  /-- A key without a value. -/
  | bare (key : String)
  /-- A map whose entries join the others. -/
  | merged (entries : List Entry)

end

mutual

/-- What an expression means where calls are left as they are. Words may be forced to be
strings; maps that stand in place of a key are beyond that. -/
def Tree.value (force : Bool) : Tree → Value
  | .word w => if force then .string (.ofList w) else .ofWord w
  | .literal s => .string s
  | .list items => .list (Tree.values force items)
  | .map entries => .map (Entry.allInto force entries [])
  | .call f arguments => .call (.ofList f) (Tree.values force arguments)

def Tree.values (force : Bool) : List Tree → List Value
  | [] => []
  | t :: ts => t.value force :: Tree.values force ts

/-- The map with the entry added to it. -/
def Entry.into (force : Bool) : Entry → Entries Value → Entries Value
  | .pair key t, m => Entries.put key (t.value force) m
  | .bare key, m => Entries.put key (.boolean true) m
  | .merged entries, m => Entries.putAll (Entry.allInto false entries []) m

def Entry.allInto (force : Bool) : List Entry → Entries Value → Entries Value
  | [], m => m
  | e :: es, m => Entry.allInto force es (e.into force m)

end

/-- Items in a row, each of them a text with `P`. Behind an item is a comma, or a line
break in front of another item, which must not begin with a plus sign then. The last comma
may be left out. -/
inductive Listed {α : Type} (P : α → List Char → Prop) : List α → List Char → Prop
  | nil : Listed P [] []
  | last {a : α} {s g : List Char} {b : Bool} (item : P a s) (gap : Gap b g) :
      Listed P [a] (s ++ g)
  | comma {a : α} {as : List α} {s g g' r : List Char} {b b' : Bool} (item : P a s)
      (gap : Gap b g) (gap' : Gap b' g') (others : Listed P as r) :
      Listed P (a :: as) (s ++ g ++ ',' :: g' ++ r)
  | line {a : α} {as : List α} {s g r : List Char} (item : P a s) (gap : Gap true g)
      (others : Listed P as r) (nonempty : as ≠ []) (noPlus : r.head? ≠ some '+') :
      Listed P (a :: as) (s ++ g ++ r)

/-- A key is a word, of the kind `W`, or a literal. -/
inductive KeySpelled (W : List Char → Prop) : String → List Char → Prop
  | word {w : List Char} (word : W w) : KeySpelled W (.ofList w) w
  | literal {key : String} {s : List Char} (literal : Literal key s) : KeySpelled W key s

mutual

/-- The texts of an expression, with words of the kind `W`. -/
inductive Tree.Spelled (W : List Char → Prop) : Tree → List Char → Prop
  | word {w : List Char} (word : W w) : Tree.Spelled W (.word w) w
  | literal {str : String} {s : List Char} (literal : Literal str s) :
      Tree.Spelled W (.literal str) s
  | list {items : List Tree} {g s : List Char} {b : Bool} (gap : Gap b g)
      (listed : Listed (Tree.Spelled W) items s) :
      Tree.Spelled W (.list items) ('[' :: g ++ s ++ [']'])
  | map {entries : List Entry} {g s : List Char} {b : Bool} (gap : Gap b g)
      (listed : Listed (Entry.Spelled W) entries s) :
      Tree.Spelled W (.map entries) ('\x7b' :: g ++ s ++ ['\x7d'])
  | call {f g g' s : List Char} {arguments : List Tree} {b b' : Bool} (function : W f)
      (gap : Gap b g) (gap' : Gap b' g') (listed : Listed (Tree.Spelled W) arguments s) :
      Tree.Spelled W (.call f arguments) (f ++ g ++ '(' :: g' ++ s ++ [')'])

/-- The texts of what a map has in it. -/
inductive Entry.Spelled (W : List Char → Prop) : Entry → List Char → Prop
  | pair {key : String} {s g g' u : List Char} {t : Tree} {b b' : Bool}
      (spelled : KeySpelled W key s) (gap : Gap b g) (gap' : Gap b' g')
      (value : Tree.Spelled W t u) :
      Entry.Spelled W (.pair key t) (s ++ g ++ ':' :: g' ++ u)
  | bare {key : String} {s : List Char} (spelled : KeySpelled W key s) :
      Entry.Spelled W (.bare key) s
  | merged {entries : List Entry} {g s : List Char} {b : Bool} (gap : Gap b g)
      (listed : Listed (Entry.Spelled W) entries s) :
      Entry.Spelled W (.merged entries) ('\x7b' :: g ++ s ++ ['\x7d'])

end

/-- A text with one thing in it that has `P`, and gaps around that. -/
def Sole (P : List Char → Prop) (text : List Char) : Prop :=
  ∃ b g s b' g', Gap b g ∧ P s ∧ GapBefore b' g' [] ∧ text = g ++ s ++ g'

/-- A text that lists items without brackets around them. -/
def Layout {α : Type} (P : α → List Char → Prop) (as : List α) (text : List Char) : Prop :=
  ∃ b g s tail, Gap b g ∧ Listed P as s ∧ Closing tail [] ∧ text = g ++ s ++ tail

theorem Tree.values_eq_map (force : Bool) (ts : List Tree) :
    Tree.values force ts = ts.map (Tree.value force) := by
  induction ts with
  | nil => rw [Tree.values, List.map_nil]
  | cons t ts ih => rw [Tree.values, List.map_cons, ih]

theorem Entry.nodup_into {force : Bool} {e : Entry} {m : Entries Value}
    (hm : (Entries.keys m).Nodup) : (Entries.keys (e.into force m)).Nodup := by
  cases e with
  | pair _ _ | bare _ =>
    rw [Entry.into]
    exact Entries.nodup_keys_put hm
  | merged _ =>
    rw [Entry.into]
    exact Entries.nodup_keys_putAll hm

theorem Entry.nodup_allInto {force : Bool} {es : List Entry} {m : Entries Value}
    (hm : (Entries.keys m).Nodup) : (Entries.keys (Entry.allInto force es m)).Nodup := by
  induction es generalizing m with
  | nil => rwa [Entry.allInto]
  | cons e es ih =>
    rw [Entry.allInto]
    exact ih (Entry.nodup_into hm)

/-- A property that values have if the values in them do. -/
structure Value.Inherited (P : Value → Prop) : Prop where
  word (w : List Char) : P (ofWord w)
  string (s : String) : P (string s)
  /-- The value of a key without one. -/
  bare : P (boolean true)
  list {items : List Value} (each : ∀ v ∈ items, P v) : P (list items)
  map {entries : Entries Value} (unique : (Entries.keys entries).Nodup)
    (each : ∀ e ∈ entries, P e.2) : P (map entries)
  call (function : String) {arguments : List Value} (each : ∀ v ∈ arguments, P v) :
    P (call function arguments)

section Inherited

variable {P : Value → Prop}

mutual

theorem Value.Inherited.tree (h : Value.Inherited P) (force : Bool) :
    ∀ t : Tree, P (t.value force)
  | .word w => by
    rw [Tree.value]
    split
    · exact h.string _
    · exact h.word w
  | .literal s => by
    rw [Tree.value]
    exact h.string s
  | .list items => by
    rw [Tree.value]
    exact h.list (h.trees force items)
  | .map entries => by
    rw [Tree.value]
    exact h.map (Entry.nodup_allInto .nil) (h.entries force entries (by simp))
  | .call f arguments => by
    rw [Tree.value]
    exact h.call _ (h.trees force arguments)

theorem Value.Inherited.trees (h : Value.Inherited P) (force : Bool) :
    ∀ ts : List Tree, ∀ v ∈ Tree.values force ts, P v
  | [] => by
    intro v hv
    rw [Tree.values] at hv
    cases hv
  | t :: ts => by
    intro v hv
    rw [Tree.values] at hv
    rcases List.mem_cons.mp hv with rfl | hv
    · exact h.tree force t
    · exact h.trees force ts v hv

theorem Value.Inherited.entry (h : Value.Inherited P) (force : Bool) :
    ∀ (e : Entry) {m : Entries Value}, (∀ f ∈ m, P f.2) → ∀ f ∈ e.into force m, P f.2
  | .pair key t, m => by
    intro hm
    rw [Entry.into]
    exact Entries.put_all (h.tree force t) hm
  | .bare key, m => by
    intro hm
    rw [Entry.into]
    exact Entries.put_all h.bare hm
  | .merged entries, m => by
    intro hm
    rw [Entry.into]
    exact Entries.putAll_all (h.entries false entries (by simp)) hm

theorem Value.Inherited.entries (h : Value.Inherited P) (force : Bool) :
    ∀ (es : List Entry) {m : Entries Value}, (∀ f ∈ m, P f.2) →
      ∀ f ∈ Entry.allInto force es m, P f.2
  | [], m => by
    intro hm
    rw [Entry.allInto]
    exact hm
  | e :: es, m => by
    intro hm
    rw [Entry.allInto]
    exact h.entries force es (h.entry force e hm)

end

end Inherited

/-- What an item begins with. -/
def Character.opens (c : Char) : Bool :=
  isWordChar c || ['+', '"', '\'', '[', '\x7b'].contains c

theorem Character.isBlank_of_opens {c : Char} (h : opens c = true) : isBlank c = false := by
  cases hb : isBlank c with
  | false => rfl
  | true =>
    have hd := mem_blankCodes hb
    have hcodes : ∀ n ∈ blankCodes, opens (Char.ofNat n) = false := by decide +kernel
    rw [← Char.ofNat_toNat c, hcodes c.toNat hd] at h
    cases h

theorem Character.ne_of_opens {c d : Char} (h : opens c = true) (hd : opens d = false) :
    c ≠ d := by
  intro he
  rw [he, hd] at h
  cases h

/-- No item begins with what could separate it from another. -/
theorem Character.not_mark_of_opens {c : Char} (h : opens c = true) :
    ¬(c = ',' ∨ c = ':' ∨ c = ';' ∨ c = '=') := by
  have hcomma := ne_of_opens h (d := ',') rfl
  have hcolon := ne_of_opens h (d := ':') rfl
  have hsemicolon := ne_of_opens h (d := ';') rfl
  have hequals := ne_of_opens h (d := '=') rfl
  simp [hcomma, hcolon, hsemicolon, hequals]

/-- A text that begins as items do. -/
def Text.Opens (s : List Char) : Prop :=
  ∃ c r, s = c :: r ∧ Character.opens c = true

theorem Text.Opens.append {s : List Char} (h : Opens s) (t : List Char) : Opens (s ++ t) := by
  obtain ⟨c, r, rfl, hc⟩ := h
  exact ⟨c, r ++ t, rfl, hc⟩

theorem Text.Opens.solid {s : List Char} (h : Opens s) : Solid s := by
  obtain ⟨c, r, rfl, hc⟩ := h
  exact .cons (Character.isBlank_of_opens hc) (Character.ne_of_opens hc rfl)

theorem Text.Opens.head_ne {s : List Char} {d : Char} (h : Opens s)
    (hd : Character.opens d = false) : s.head? ≠ some d := by
  obtain ⟨c, r, rfl, hc⟩ := h
  simpa using Character.ne_of_opens hc hd

theorem Text.Opens.ne_nil {s : List Char} (h : Opens s) : s ≠ [] := by
  obtain ⟨c, r, rfl, -⟩ := h
  exact List.cons_ne_nil c r

theorem Word.opens {w : List Char} (h : Word w) : Text.Opens w := by
  obtain ⟨c, s, rfl, hc | rfl⟩ := h.cons
  · exact ⟨c, s, rfl, by simp [Character.opens, hc]⟩
  · exact ⟨'+', s, rfl, by decide⟩

theorem Literal.opens {str : String} {s : List Char} (h : Literal str s) : Text.Opens s := by
  cases h with
  | quoted hq _ =>
    refine ⟨_, _, rfl, ?_⟩
    rcases hq with rfl | rfl <;> decide
  | raw _ _ => exact ⟨'r', _, rfl, by decide⟩

theorem KeySpelled.opens {key : String} {s : List Char} (h : KeySpelled Word key s) :
    Text.Opens s := by
  cases h with
  | word hw => exact hw.opens
  | literal hl => exact hl.opens

theorem Tree.Spelled.opens {t : Tree} {s : List Char} (h : t.Spelled Word s) :
    Text.Opens s := by
  cases h with
  | word hw => exact hw.opens
  | literal hl => exact hl.opens
  | list _ _ => exact ⟨'[', _, rfl, by decide⟩
  | map _ _ => exact ⟨'\x7b', _, rfl, by decide⟩
  | @call f g g' s _ _ _ hf _ _ _ =>
    have he : f ++ g ++ '(' :: g' ++ s ++ [')'] = f ++ (g ++ '(' :: (g' ++ (s ++ [')']))) := by
      simp
    rw [he]
    exact hf.opens.append _

theorem Entry.Spelled.opens {e : Entry} {s : List Char} (h : e.Spelled Word s) :
    Text.Opens s := by
  cases h with
  | @pair key s g g' u _ _ _ hk _ _ _ =>
    have he : s ++ g ++ ':' :: g' ++ u = s ++ (g ++ ':' :: (g' ++ u)) := by simp
    rw [he]
    exact hk.opens.append _
  | bare hk => exact hk.opens
  | merged _ _ => exact ⟨'\x7b', _, rfl, by decide⟩

/-- Items that begin as they should make a text that does. -/
theorem Listed.opens {α : Type} {P : α → List Char → Prop}
    (hP : ∀ a s, P a s → Text.Opens s) {as : List α} {s : List Char} (h : Listed P as s)
    (hne : as ≠ []) : Text.Opens s := by
  cases h with
  | nil => exact absurd rfl hne
  | last hs _ => exact (hP _ _ hs).append _
  | comma hs _ _ _ =>
    rw [List.append_assoc, List.append_assoc]
    exact (hP _ _ hs).append _
  | line hs _ _ _ _ =>
    rw [List.append_assoc]
    exact (hP _ _ hs).append _

/-- What the next characters tell about an expression. -/
inductive Text.Lead : List Char → Prop
  | nothing : Lead []
  | map {t : List Char} : Lead ('\x7b' :: t)
  | list {t : List Char} : Lead ('[' :: t)
  | quoted {q : Char} {t : List Char} (quote : q = '"' ∨ q = '\'') : Lead (q :: t)
  | raw {q : Char} {t : List Char} (quote : q = '"' ∨ q = '\'') : Lead ('r' :: q :: t)
  | other {r : List Char} (nonempty : r ≠ [])
      (noMark : ∀ c ∈ ['\x7b', '[', '"', '\''], r.head? ≠ some c)
      (notRaw : ∀ q t, q = '"' ∨ q = '\'' → r ≠ 'r' :: q :: t) : Lead r

theorem Text.lead (r : List Char) : Text.Lead r := by
  cases r with
  | nil => exact .nothing
  | cons c t =>
    by_cases hmap : c = '\x7b'
    · subst hmap
      exact .map
    by_cases hlist : c = '['
    · subst hlist
      exact .list
    by_cases hquote : c = '"' ∨ c = '\''
    · exact .quoted hquote
    by_cases hraw : ∃ q u, (q = '"' ∨ q = '\'') ∧ c :: t = 'r' :: q :: u
    · obtain ⟨q, u, hq, he⟩ := hraw
      rw [he]
      exact .raw hq
    · refine .other (List.cons_ne_nil c t) ?_ ?_
      · simp only [not_or] at hquote
        simp [hmap, hlist, hquote]
      · intro q u hq he
        exact hraw ⟨q, u, hq, he⟩

end Cjson
