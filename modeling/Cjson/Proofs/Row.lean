import Cjson.Proofs.Line
import Mathlib.Data.List.Chain

namespace Cjson

open Text

/-- The line of a character, by numbers of characters. -/
structure Row where
  position : Position
  /-- The first character of the line. -/
  first : Nat
  /-- The end of the line, in front of its line break. -/
  last : Nat
  /-- The character, which is moved to the end of the line from inside a line break. -/
  index : Nat

namespace Row

/-- A difference that is not below zero. -/
def minus? (a b : Nat) : Option Nat :=
  if b ≤ a then some (a - b) else none

/-- Whether a line begins with `c` where `last` is the character in front of it. -/
def begins (last c : Char) : Bool :=
  last == '\n' || (last == '\r' && c != '\n')

/-- Goes on from the character `last` to the end of `s`, `i` characters of the text being
passed, and keeps the beginning and the number of the line. -/
def scanFirst (last : Char) (i first line : Nat) : List Char → Nat × Nat
  | [] => (first, line)
  | c :: s =>
    if begins last c then scanFirst c (i + 1) i (line + 1) s else scanFirst c (i + 1) first line s

/-- Goes on to the line break behind the `i` first characters of a text, of which there is
`s` left, and back in front of a CR-LF pair. -/
def scanLast (text : List Char) (i : Nat) : List Char → Option Nat
  | [] => some i
  | c :: s =>
    if Character.isLineBreak c then
      if c = '\n' ∧ 0 < i ∧ text[i - 1]? = some '\r' then minus? i 1 else some i
    else
      scanLast text (i + 1) s

/-- The line of the character that `index` characters are in front of. -/
def locate? (text : List Char) (index : Nat) : Option Row :=
  if index < text.length then do
    let (first, line) := scanFirst '\x00' 0 0 1 (text.take (index + 1))
    let last ← scanLast text index (text.drop index)
    let index := min index last
    let before ← minus? index first
    return ⟨⟨line, before + 1⟩, first, last, index⟩
  else
    none

/-- The number of characters in front of the one that holds byte `offset`. -/
def charIndex (text : List Char) (offset : Nat) : Nat :=
  (takeBytes offset text).length

theorem getLastD_append {α : Type} (s t : List α) (a : α) :
    (s ++ t).getLastD a = t.getLastD (s.getLastD a) := by
  induction s generalizing a with
  | nil => rfl
  | cons b s ih => rw [List.cons_append, List.getLastD_cons, ih, List.getLastD_cons]

theorem scanFirst_chain {last : Char} {i first line : Nat} {s : List Char} (r : List Char)
    (h : List.IsChain (fun c d => begins c d = false) (last :: s)) :
    scanFirst last i first line (s ++ r) =
      scanFirst (s.getLastD last) (i + s.length) first line r := by
  induction s generalizing last i with
  | nil => rfl
  | cons c s ih =>
    obtain ⟨hc, hs⟩ := List.isChain_cons_cons.mp h
    rw [List.cons_append, scanFirst, if_neg (by simp [hc]), ih hs, List.getLastD_cons,
      List.length_cons, Nat.add_assoc, Nat.add_comm 1]

theorem begins_of_plain {c : Char} (hc : Character.isLineBreak c = false) (d : Char) :
    begins c d = false := by
  simp only [Character.isLineBreak, Bool.or_eq_false_iff] at hc
  simp [begins, hc]

/-- No line begins in the middle of another one. -/
theorem chain_line {content ending : List Char}
    (plain : ∀ c ∈ content, Character.isLineBreak c = false)
    (hending : List.IsChain (fun c d => begins c d = false) ending) :
    List.IsChain (fun c d => begins c d = false) (content ++ ending) := by
  induction content with
  | nil => exact hending
  | cons c s ih =>
    have hs := ih fun d hd => plain d (List.mem_cons_of_mem c hd)
    rw [List.cons_append]
    cases hr : s ++ ending with
    | nil => exact .singleton c
    | cons d r =>
      rw [hr] at hs
      exact List.isChain_cons_cons.mpr ⟨begins_of_plain (plain c List.mem_cons_self) d, hs⟩

theorem chain_ending {ending rest : List Char} (h : Line.Ends ending rest) :
    List.IsChain (fun c d => begins c d = false) ending := by
  cases h with
  | crlf => exact List.isChain_cons_cons.mpr ⟨rfl, .singleton _⟩
  | lf | cr _ => exact .singleton _

/-- Behind a line break another line begins. -/
theorem begins_of_ends {ending rest : List Char} (h : Line.Ends ending rest) (last : Char)
    {d : Char} (hd : rest.head? = some d) : begins (ending.getLastD last) d = true := by
  cases h with
  | crlf | lf => rfl
  | cr alone =>
    have hne : d ≠ '\n' := by
      rintro rfl
      exact alone hd
    simpa [begins] using hne

theorem chain_of_lined {l : Line} {ls : List Line} {text : List Char}
    (h : Lined (l :: ls) text) : List.IsChain (fun c d => begins c d = false) l.text := by
  cases h with
  | last plain _ => exact chain_line plain .nil
  | line plain ends _ => exact chain_line plain (chain_ending ends)

theorem text_ne_nil {l : Line} {ls : List Line} {text : List Char} (h : Lined (l :: ls) text) :
    l.text ≠ [] := by
  cases h with
  | last _ nonempty => simpa using nonempty
  | line _ ends _ => cases ends <;> simp

/-- What begins as a line does is a line from there on, up to its line break. -/
theorem scanFirst_begins {last : Char} {i first line : Nat} {s : List Char} (r : List Char)
    (hne : s ≠ []) (hbegins : ∀ c, s.head? = some c → begins last c = true)
    (h : List.IsChain (fun c d => begins c d = false) s) :
    scanFirst last i first line (s ++ r) =
      scanFirst (s.getLastD last) (i + s.length) i (line + 1) r := by
  cases s with
  | nil => exact absurd rfl hne
  | cons c s =>
    rw [List.cons_append, scanFirst, if_pos (hbegins c rfl), scanFirst_chain r h,
      List.getLastD_cons, List.length_cons, Nat.add_assoc, Nat.add_comm 1]

/-- Behind the lines above another line begins. -/
theorem scanFirst_above {above ls : List Line} {text : List Char} {last : Char}
    (h : Lined (above ++ ls) text) (hbegins : ∀ c, text.head? = some c → begins last c = true)
    (i first line : Nat) :
    (∀ c, (joined ls).head? = some c → begins ((joined above).getLastD last) c = true) ∧
      ∀ r, ∃ first', scanFirst last i first line (joined above ++ r) =
        scanFirst ((joined above).getLastD last) (i + (joined above).length) first'
          (line + above.length) r := by
  induction above generalizing text last i first line with
  | nil =>
    rw [List.nil_append] at h
    rw [h.joined]
    exact ⟨hbegins, fun r => ⟨first, rfl⟩⟩
  | cons l above ih =>
    rw [List.cons_append] at h
    have hchain := chain_of_lined h
    have hne := text_ne_nil h
    have hhead : ∀ c, l.text.head? = some c → begins last c = true := by
      intro c hc
      refine hbegins c ?_
      rw [← h.joined, joined_cons, List.head?_append, hc]
      rfl
    have hothers : ∃ rest, Lined (above ++ ls) rest ∧
        ∀ c, rest.head? = some c → begins (l.text.getLastD last) c = true := by
      generalize hls : above ++ ls = others at h
      cases h with
      | last _ _ => exact ⟨[], .nil, by simp⟩
      | @line content ending rest _ plain ends others =>
        refine ⟨rest, others, fun c hc => ?_⟩
        have := begins_of_ends ends (content.getLastD last) hc
        rwa [Line.text_mk, getLastD_append]
    obtain ⟨rest, hrest, hnext⟩ := hothers
    obtain ⟨hlast, hscan⟩ := ih hrest hnext (i + l.text.length) i (line + 1)
    refine ⟨?_, fun r => ?_⟩
    · rw [joined_cons, getLastD_append]
      exact hlast
    · obtain ⟨first', hfirst'⟩ := hscan r
      refine ⟨first', ?_⟩
      rw [joined_cons, List.append_assoc, scanFirst_begins _ hne hhead hchain, hfirst',
        getLastD_append, List.length_append, List.length_cons, Nat.add_assoc, Nat.add_assoc,
        Nat.add_comm 1]

/-- A text begins as a line does behind a line break. -/
theorem scanFirst_start {s : List Char} (hne : s ≠ []) :
    scanFirst '\x00' 0 0 1 s = scanFirst '\n' 0 0 0 s := by
  cases s with
  | nil => exact absurd rfl hne
  | cons c s => rfl

theorem scanLast_plain {text s r : List Char} {i : Nat}
    (plain : ∀ c ∈ s, Character.isLineBreak c = false) :
    scanLast text i (s ++ r) = scanLast text (i + s.length) r := by
  induction s generalizing i with
  | nil => rfl
  | cons c s ih =>
    rw [List.cons_append, scanLast, if_neg (by simp [plain c List.mem_cons_self]),
      ih fun d hd => plain d (List.mem_cons_of_mem c hd), List.length_cons, Nat.add_assoc,
      Nat.add_comm 1]

/-- A line break ends the scan, which steps back only inside a CR-LF pair. -/
theorem scanLast_break {s t r : List Char} {c : Char} (hc : Character.isLineBreak c = true)
    (alone : c = '\n' → s.getLast? ≠ some '\r') :
    scanLast (s ++ t) s.length (c :: r) = some s.length := by
  rw [scanLast, if_pos hc, if_neg]
  rintro ⟨hlf, hpos, hcr⟩
  rw [List.getElem?_append_left (by omega), ← List.getLast?_eq_getElem?] at hcr
  exact alone hlf hcr

theorem scanLast_pair {s t r : List Char} :
    scanLast (s ++ '\r' :: t) (s.length + 1) ('\n' :: r) = some s.length := by
  have hcr : (s ++ '\r' :: t)[s.length + 1 - 1]? = some '\r' := by simp
  have hlf : Character.isLineBreak '\n' = true := rfl
  rw [scanLast, if_pos hlf, if_pos ⟨rfl, Nat.succ_pos _, hcr⟩, minus?,
    if_pos (Nat.le_add_left 1 s.length), Nat.add_sub_cancel]

theorem scanLast_ends {s ending rest : List Char} (h : Line.Ends ending rest)
    (alone : ending = ['\n'] → s.getLast? ≠ some '\r') :
    scanLast (s ++ (ending ++ rest)) s.length (ending ++ rest) = some s.length := by
  cases h with
  | crlf => exact scanLast_break rfl (by simp)
  | lf => exact scanLast_break rfl fun _ => alone rfl
  | cr _ => exact scanLast_break rfl (by simp)

/-- No half of a pair is in front of an LF with which a line break begins. -/
theorem getLast?_ne_cr {front content : List Char}
    (plain : ∀ c ∈ content, Character.isLineBreak c = false)
    (hfront : content = [] → begins (front.getLastD '\n') '\n' = true) :
    (front ++ content).getLast? ≠ some '\r' := by
  intro hcr
  obtain rfl | ⟨s, c, rfl⟩ := List.eq_nil_or_concat content
  · rw [List.append_nil] at hcr
    have hlast := hfront rfl
    rw [List.getLastD_eq_getLast?, hcr] at hlast
    cases hlast
  · rw [List.concat_eq_append, ← List.append_assoc, List.getLast?_concat] at hcr
    cases hcr
    have := plain '\r' (by simp)
    cases this

/-- Wherever on a line the scan begins, it comes to the end of that line. -/
theorem scanLast_line {front before after : List Char} {line : Line} {below : List Line}
    {c : Char} (h : Lined (line :: below) (joined (line :: below)))
    (hfront : ∀ d, (joined (line :: below)).head? = some d →
      begins (front.getLastD '\n') d = true)
    (hline : line.text = before ++ c :: after) :
    scanLast (front ++ joined (line :: below)) (front.length + before.length)
      (c :: after ++ joined below) = some (front.length + line.content.length) := by
  have plain := h.plain
  have hends : scanLast (front ++ line.content ++ (line.ending ++ joined below))
      (front ++ line.content).length (line.ending ++ joined below) =
        some (front ++ line.content).length := by
    rcases h.ends with ⟨hnil, rfl⟩ | ends
    · rw [hnil, joined_nil, List.append_nil, scanLast]
    · refine scanLast_ends ends fun hlf => getLast?_ne_cr plain fun hcontent => hfront '\n' ?_
      rw [joined_cons, Line.text, hcontent, hlf]
      rfl
  rw [joined_cons, Line.text, List.append_assoc line.content, ← List.append_assoc front]
  rw [List.length_append] at hends
  rcases h.character hline with ⟨t, hcontent, rfl⟩ | ⟨rfl, hending⟩ | ⟨rfl, rfl, hending⟩
  · rw [hcontent] at plain
    rw [← List.cons_append, List.append_assoc (c :: t), scanLast_plain fun d hd =>
      plain d (List.mem_append_right before hd), Nat.add_assoc, ← List.length_append, ← hcontent]
    exact hends
  · rw [← hending]
    exact hends
  · rw [hending, List.length_append, ← Nat.add_assoc, ← List.length_append]
    exact scanLast_pair

end Row

section Located

variable {text : List Char} {n : Nat} {above : List Line} {line : Line} {before : List Char}
  {c : Char}

theorem Text.Located.charIndex (h : Located text n above line before c) :
    Row.charIndex text n = (joined above ++ before).length := by
  obtain ⟨t, ht⟩ := h.split
  rw [Row.charIndex, ht, takeBytes_holding h.first h.last]

/-- The row is found without a difference below zero, and is the line of the character. -/
theorem Text.Located.locate (h : Located text n above line before c) :
    Row.locate? text (joined above ++ before).length = some
      { position := ⟨above.length + 1, min before.length line.content.length + 1⟩
        first := (joined above).length
        last := (joined above).length + line.content.length
        index := (joined above).length + min before.length line.content.length } := by
  obtain ⟨below, hlines⟩ := h.lines
  obtain ⟨after, hline⟩ := h.line
  have hlined : Lined (above ++ line :: below) text := hlines ▸ lined_lines text
  have htext : text = joined above ++ joined (line :: below) := by
    rw [← joined_append, hlined.joined]
  have hsplit : joined (line :: below) = before ++ (c :: after ++ joined below) := by
    rw [joined_cons, hline, List.append_assoc]
  have hstart : ∀ d, text.head? = some d → Row.begins '\n' d = true := fun _ _ => rfl
  obtain ⟨hfront, hscan⟩ := Row.scanFirst_above hlined hstart 0 0 0
  have hlast := Row.scanLast_line hlined.of_append hfront hline
  rw [← htext, ← List.length_append] at hlast
  have htake : text.take ((joined above ++ before).length + 1) =
      joined above ++ (before ++ [c]) := by
    have hupto : text = joined above ++ (before ++ [c]) ++ (after ++ joined below) := by
      rw [htext, hsplit]
      simp
    rw [hupto]
    exact List.take_left' (by simp [Nat.add_assoc])
  have hdrop : text.drop (joined above ++ before).length = c :: after ++ joined below := by
    rw [htext, hsplit]
    simp
  have hchain : List.IsChain (fun c d => Row.begins c d = false) (before ++ [c]) := by
    have := Row.chain_of_lined hlined.of_append
    rw [hline, List.append_cons] at this
    exact this.left_of_append
  have hbegins : ∀ d, (before ++ [c]).head? = some d →
      Row.begins ((joined above).getLastD '\n') d = true := by
    intro d hd
    refine hfront d ?_
    rw [hsplit, List.cons_append, List.append_cons, List.head?_append, hd]
    rfl
  have hfirst : Row.scanFirst '\x00' 0 0 1 (joined above ++ (before ++ [c])) =
      ((joined above).length, above.length + 1) := by
    obtain ⟨first', hfirst'⟩ := hscan (before ++ [c])
    rw [Row.scanFirst_start (by simp), hfirst', ← List.append_nil (before ++ [c]),
      Row.scanFirst_begins [] (by simp) hbegins hchain, Row.scanFirst, Nat.zero_add,
      Nat.zero_add]
  rw [Row.locate?, if_pos (by rw [htext, hsplit]; simp), htake, hfirst, hdrop, hlast]
  simp [Row.minus?, Nat.add_min_add_left]

/-- The column counts the characters on the line, but an LF stands where its CR does. -/
theorem Text.Located.column (h : Located text n above line before c) :
    min before.length line.content.length + 1 =
      if c = '\n' ∧ line.ending = ['\r', '\n'] then before.length else before.length + 1 := by
  obtain ⟨below, hlines⟩ := h.lines
  obtain ⟨after, hline⟩ := h.line
  have hlined : Lined (above ++ line :: below) text := hlines ▸ lined_lines text
  rcases hlined.of_append.character hline with ⟨t, hcontent, -⟩ | ⟨rfl, hending⟩ |
    ⟨rfl, rfl, hending⟩
  · have hc : c ≠ '\n' := by
      rintro rfl
      have := hlined.of_append.plain '\n' (by simp [hcontent])
      cases this
    rw [if_neg fun hpair => hc hpair.1, hcontent]
    simp
  · have hpair : ¬(c = '\n' ∧ line.ending = ['\r', '\n']) := by
      rintro ⟨rfl, he⟩
      rw [he] at hending
      cases hending
    rw [if_neg hpair, Nat.min_self]
  · rw [if_pos ⟨rfl, hending⟩]
    simp

/-- The position of a byte is that of its character. -/
theorem Text.Located.position (h : Located text n above line before c) (file : Option String) :
    Location.position? ⟨⟨text, file⟩, n⟩ =
      some ⟨above.length + 1, min before.length line.content.length + 1⟩ := by
  rw [Location.position?, Location.place?, h.find]
  simp [Place.position, Line.place]

end Located

/-- Positions in the order in which a text is read. -/
def Position.Before (p q : Position) : Prop :=
  p.line < q.line ∨ p.line = q.line ∧ p.column < q.column

section Order

variable {text : List Char} {m n : Nat} {above above' : List Line} {line line' : Line}
  {before before' : List Char} {c c' : Char}

/-- Of two characters on a line, the second one has the greater column, unless the two are a
CR-LF pair. -/
theorem Text.Located.columns (h : Located text m above line before c)
    (h' : Located text n above line before' c') (hlt : before.length < before'.length) :
    min before.length line.content.length < min before'.length line.content.length ∨
      min before.length line.content.length = min before'.length line.content.length ∧
        before' = before ++ ['\r'] ∧ ∃ t, text = joined above ++ before ++ '\r' :: '\n' :: t := by
  obtain ⟨below, hlines⟩ := h.lines
  obtain ⟨after, hline⟩ := h.line
  obtain ⟨after', hline'⟩ := h'.line
  have hlined : Lined (above ++ line :: below) text := hlines ▸ lined_lines text
  rcases hlined.of_append.character hline' with ⟨t, hcontent, -⟩ | ⟨rfl, -⟩ | ⟨rfl, rfl, hending⟩
  · rw [hcontent, List.length_append]
    omega
  · omega
  · rw [List.length_append, List.length_singleton] at hlt
    by_cases hshort : before.length < line.content.length
    · rw [List.length_append]
      omega
    · have hbefore : before = line.content := by
        rcases hlined.of_append.character hline with ⟨t, hcontent, -⟩ | ⟨rfl, -⟩ | ⟨rfl, -, -⟩
        · rw [hcontent, List.length_append, List.length_cons] at hshort
          omega
        · rfl
        · simp at hlt
      subst hbefore
      refine .inr ⟨by simp, rfl, joined below, ?_⟩
      rw [← hlined.joined, joined_append, joined_cons, Line.text, hending]
      simp

theorem Text.Located.length_lt (h : Located text n above line before c) :
    before.length < line.text.length := by
  obtain ⟨after, hline⟩ := h.line
  rw [hline, List.length_append, List.length_cons]
  omega

/-- Two characters are on one line, or the second one is on a later line. -/
theorem Text.Located.lines_le (h : Located text m above line before c)
    (h' : Located text n above' line' before' c')
    (hlt : (joined above ++ before).length < (joined above' ++ before').length) :
    (above = above' ∧ line = line') ∨ above.length < above'.length := by
  obtain ⟨below, hlines⟩ := h.lines
  obtain ⟨below', hlines'⟩ := h'.lines
  have hlength := h'.length_lt
  rw [hlines] at hlines'
  rcases List.append_eq_append_iff.mp hlines' with ⟨ls, rfl, hls⟩ | ⟨ls, rfl, hls⟩
  · cases ls with
    | nil => exact .inl ⟨by simp, (List.cons.inj hls).1⟩
    | cons l ls =>
      rw [List.length_append, List.length_cons]
      omega
  · cases ls with
    | nil => exact .inl ⟨by simp, (List.cons.inj hls).1.symm⟩
    | cons l ls =>
      obtain ⟨rfl, -⟩ := List.cons.inj hls
      simp only [joined_append, joined_cons, List.length_append] at hlt hlength
      omega

end Order

/-- Every character has the number of its line and its number on that line for a position, but
the LF of a pair has that of its CR; the row that is found for it is that line without its line
break, and none of the differences is below zero. Positions go up with the characters, and
only the characters of a pair share one. -/
theorem positions_follow_lines (text : List Char) (file : Option String) :
    (∀ ls, Lined ls text ↔ ls = Text.lines text) ∧
    (∀ n < size text, ∃ above line before c, Located text n above line before c ∧
      ∃ row, Row.locate? text (Row.charIndex text n) = some row ∧
        Location.position? ⟨⟨text, file⟩, n⟩ = some row.position ∧
        row.position.line = above.length + 1 ∧
        row.position.column =
          (if c = '\n' ∧ line.ending = ['\r', '\n'] then before.length
            else before.length + 1) ∧
        row.first = (joined above).length ∧
        row.last = row.first + line.content.length ∧
        row.first ≤ row.index ∧ row.index ≤ row.last) ∧
    (∀ m < size text, ∀ n < size text, Row.charIndex text m < Row.charIndex text n →
      ∃ p q, Location.position? ⟨⟨text, file⟩, m⟩ = some p ∧
        Location.position? ⟨⟨text, file⟩, n⟩ = some q ∧
        (p.Before q ∨ p = q ∧ Row.charIndex text n = Row.charIndex text m + 1 ∧
          text[Row.charIndex text m]? = some '\r' ∧
          text[Row.charIndex text n]? = some '\n')) := by
  refine ⟨fun _ => lined_iff, ?_, ?_⟩
  · intro n hn
    obtain ⟨above, line, before, c, h⟩ := exists_located hn
    have hrow := h.locate
    rw [← h.charIndex] at hrow
    exact ⟨above, line, before, c, h, _, hrow, h.position file, rfl, h.column, rfl, rfl,
      Nat.le_add_right _ _, Nat.add_le_add_left (Nat.min_le_right _ _) _⟩
  · intro m hm n hn hlt
    obtain ⟨above, line, before, c, h⟩ := exists_located hm
    obtain ⟨above', line', before', c', h'⟩ := exists_located hn
    refine ⟨_, _, h.position file, h'.position file, ?_⟩
    rw [h.charIndex, h'.charIndex] at hlt ⊢
    rcases h.lines_le h' hlt with ⟨rfl, rfl⟩ | habove
    · rw [List.length_append, List.length_append] at hlt
      rcases h.columns h' (by omega) with hcolumn | ⟨hcolumn, rfl, t, rfl⟩
      · exact .inl (.inr ⟨rfl, Nat.add_lt_add_right hcolumn 1⟩)
      · refine .inr ⟨by rw [hcolumn], by simp [Nat.add_assoc], ?_, ?_⟩
        · simp
        · have hsplit : joined above ++ before ++ '\r' :: '\n' :: t =
              joined above ++ (before ++ ['\r']) ++ '\n' :: t := by simp
          rw [hsplit, List.getElem?_append_right (Nat.le_refl _), Nat.sub_self]
          rfl
    · exact .inl (.inl (Nat.add_lt_add_right habove 1))

/-- The characters of a pair share a position, although there is one of two bytes in front of
them. -/
theorem positions_follow_lines_pair :
    (2 < size "é\r\n".toList ∧ 3 < size "é\r\n".toList ∧
      Row.charIndex "é\r\n".toList 2 < Row.charIndex "é\r\n".toList 3) ∧
    Location.position? ⟨⟨"é\r\n".toList, none⟩, 3⟩ = some ⟨1, 2⟩ ∧
    ∃ p q, Location.position? ⟨⟨"é\r\n".toList, none⟩, 2⟩ = some p ∧
      Location.position? ⟨⟨"é\r\n".toList, none⟩, 3⟩ = some q ∧
      (p.Before q ∨ p = q ∧
        Row.charIndex "é\r\n".toList 3 = Row.charIndex "é\r\n".toList 2 + 1 ∧
        "é\r\n".toList[Row.charIndex "é\r\n".toList 2]? = some '\r' ∧
        "é\r\n".toList[Row.charIndex "é\r\n".toList 3]? = some '\n') :=
  ⟨by decide, by decide,
    (positions_follow_lines "é\r\n".toList none).2.2 2 (by decide) 3 (by decide) (by decide)⟩

end Cjson
