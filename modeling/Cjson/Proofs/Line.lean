import Cjson.Source

namespace Cjson

/-- A line: its characters, and the line break that ends it. -/
structure Line where
  content : List Char
  ending : List Char
  deriving DecidableEq

namespace Line

def text (l : Line) : List Char :=
  l.content ++ l.ending

@[simp] theorem text_mk (content ending : List Char) :
    text ⟨content, ending⟩ = content ++ ending := rfl

/-- The line break ends a line in front of the rest of the text. A CR that an LF follows
does not stand alone. -/
inductive Ends : List Char → (rest : List Char) → Prop
  | crlf {rest : List Char} : Ends ['\r', '\n'] rest
  | lf {rest : List Char} : Ends ['\n'] rest
  | cr {rest : List Char} (alone : rest.head? ≠ some '\n') : Ends ['\r'] rest

end Line

/-- The text consists of the lines. Only the last one may lack a line break. -/
inductive Lined : List Line → List Char → Prop
  | nil : Lined [] []
  | last {s : List Char} (plain : ∀ c ∈ s, Character.isLineBreak c = false)
      (nonempty : s ≠ []) : Lined [⟨s, []⟩] s
  | line {s ending rest : List Char} {ls : List Line}
      (plain : ∀ c ∈ s, Character.isLineBreak c = false) (ends : Line.Ends ending rest)
      (others : Lined ls rest) : Lined (⟨s, ending⟩ :: ls) (s ++ ending ++ rest)

namespace Text

/-- Puts a character in front of the first line. -/
def ontoLine (c : Char) : List Line → List Line
  | [] => [⟨[c], []⟩]
  | l :: ls => ⟨c :: l.content, l.ending⟩ :: ls

/-- Splits a text into its lines. -/
def lines : List Char → List Line
  | [] => []
  | '\r' :: '\n' :: rest => ⟨[], ['\r', '\n']⟩ :: lines rest
  | c :: rest =>
    if Character.isLineBreak c then ⟨[], [c]⟩ :: lines rest else ontoLine c (lines rest)

def joined (ls : List Line) : List Char :=
  ls.flatMap Line.text

@[simp] theorem joined_nil : joined [] = [] := rfl

@[simp] theorem joined_cons (l : Line) (ls : List Line) :
    joined (l :: ls) = l.text ++ joined ls := rfl

@[simp] theorem joined_append (ls ls' : List Line) :
    joined (ls ++ ls') = joined ls ++ joined ls' :=
  List.flatMap_append

end Text

open Text

theorem Lined.joined {ls : List Line} {text : List Char} (h : Lined ls text) :
    joined ls = text := by
  induction h with
  | nil => rfl
  | last _ _ => simp
  | line _ _ _ ih => simp [ih]

/-- The last lines of a text are lines themselves. -/
theorem Lined.of_append {above ls : List Line} {text : List Char} (h : Lined (above ++ ls) text) :
    Lined ls (Text.joined ls) := by
  induction above generalizing text with
  | nil => rwa [← h.joined] at h
  | cons l above ih =>
    rw [List.cons_append] at h
    generalize hls : above ++ ls = others at h
    cases h with
    | last _ _ =>
      obtain ⟨rfl, rfl⟩ := List.append_eq_nil_iff.mp hls
      exact .nil
    | line _ _ others =>
      subst hls
      exact ih others

section First

variable {line : Line} {below : List Line} {text : List Char}

theorem Lined.plain (h : Lined (line :: below) text) :
    ∀ c ∈ line.content, Character.isLineBreak c = false := by
  cases h with
  | last plain _ => exact plain
  | line plain _ _ => exact plain

/-- Only the last line lacks a line break. -/
theorem Lined.ends (h : Lined (line :: below) text) :
    (line.ending = [] ∧ below = []) ∨ Line.Ends line.ending (Text.joined below) := by
  cases h with
  | last _ _ => exact .inl ⟨rfl, rfl⟩
  | line _ ends others =>
    rw [others.joined]
    exact .inr ends

theorem Lined.ends_of_cons (h : Lined (line :: below) text) {c : Char} {r : List Char}
    (hr : line.ending = c :: r) : Line.Ends line.ending (Text.joined below) := by
  rcases h.ends with ⟨hnil, -⟩ | ends
  · rw [hnil] at hr
    cases hr
  · exact ends

theorem Line.Ends.isLineBreak {ending rest : List Char} (h : Line.Ends ending rest) :
    ∀ c ∈ ending, Character.isLineBreak c = true := by
  cases h with
  | crlf => simp [Character.isLineBreak]
  | lf | cr _ => simp [Character.isLineBreak]

/-- A character is of the line itself, or the first one of its line break, or the LF of a
pair. -/
theorem Lined.character (h : Lined (line :: below) text) {before after : List Char} {c : Char}
    (hline : line.text = before ++ c :: after) :
    (∃ t, line.content = before ++ c :: t ∧ after = t ++ line.ending) ∨
    (before = line.content ∧ line.ending = c :: after) ∨
    (before = line.content ++ ['\r'] ∧ c = '\n' ∧ line.ending = ['\r', '\n']) := by
  rcases List.append_eq_append_iff.mp hline with ⟨behind, rfl, hending⟩ | ⟨t, hcontent, ht⟩
  · cases behind with
    | nil => exact .inr (.inl ⟨List.append_nil _, hending⟩)
    | cons d behind =>
      refine .inr (.inr ?_)
      generalize he : line.ending = ending at hending
      have ends := he ▸ h.ends_of_cons (he.trans hending)
      cases ends with
      | crlf =>
        obtain ⟨rfl, hlf⟩ := List.cons.inj hending
        cases behind with
        | nil =>
          cases hlf
          exact ⟨rfl, rfl, rfl⟩
        | cons _ _ => simp at hlf
      | lf | cr _ => simp at hending
  · cases t with
    | nil =>
      rw [List.append_nil] at hcontent
      exact .inr (.inl ⟨hcontent.symm, ht.symm⟩)
    | cons d t =>
      rw [List.cons_append] at ht
      obtain ⟨rfl, rfl⟩ := List.cons.inj ht
      exact .inl ⟨t, hcontent, rfl⟩

end First

theorem Lined.onto {ls : List Line} {text : List Char} {c : Char} (h : Lined ls text)
    (hc : Character.isLineBreak c = false) : Lined (ontoLine c ls) (c :: text) := by
  cases h with
  | nil => exact .last (by simpa using hc) (by simp)
  | last plain _ => exact .last (by simpa [hc] using plain) (by simp)
  | line plain ends others => exact .line (by simpa [hc] using plain) ends others

theorem lined_lines (text : List Char) : Lined (lines text) text := by
  induction text using lines.induct with
  | case1 => exact .nil
  | case2 rest ih => exact .line (s := []) (by simp) .crlf ih
  | case3 c rest hpair hc ih =>
    rw [lines, if_pos hc]
    · have hends : Line.Ends [c] rest := by
        simp only [Character.isLineBreak, Bool.or_eq_true, beq_iff_eq] at hc
        rcases hc with rfl | rfl
        · exact .lf
        · refine .cr fun hhead => ?_
          obtain ⟨r, rfl⟩ := List.head?_eq_some_iff.mp hhead
          exact hpair r rfl rfl
      exact .line (s := []) (by simp) hends ih
    · exact hpair
  | case4 c rest hpair hc ih =>
    rw [lines, if_neg hc]
    · exact ih.onto (by simpa using hc)
    · exact hpair

theorem lines_plain_append {s : List Char} (plain : ∀ c ∈ s, Character.isLineBreak c = false)
    (rest : List Char) :
    lines (s ++ rest) = s.foldr ontoLine (lines rest) := by
  induction s with
  | nil => rfl
  | cons c s ih =>
    have hc := plain c List.mem_cons_self
    rw [List.cons_append, lines, if_neg (by simp [hc]), List.foldr_cons,
      ih fun d hd => plain d (List.mem_cons_of_mem c hd)]
    intro r hr
    subst hr
    cases hc

theorem foldr_ontoLine_cons (s : List Char) (l : Line) (ls : List Line) :
    s.foldr ontoLine (l :: ls) = ⟨s ++ l.content, l.ending⟩ :: ls := by
  induction s with
  | nil => rfl
  | cons c s ih => rw [List.foldr_cons, ih, ontoLine, List.cons_append]

theorem Line.Ends.lines {ending rest : List Char} (h : Line.Ends ending rest) :
    lines (ending ++ rest) = ⟨[], ending⟩ :: lines rest := by
  cases h with
  | crlf => simp [Text.lines]
  | lf => simp [Text.lines, Character.isLineBreak]
  | cr alone =>
    rw [List.singleton_append, Text.lines, if_pos (by rfl)]
    intro r _ hr
    subst hr
    exact alone rfl

/-- There is only one way to split a text into lines. -/
theorem Lined.unique {ls : List Line} {text : List Char} (h : Lined ls text) :
    ls = lines text := by
  induction h with
  | nil => rfl
  | @last s plain nonempty =>
    obtain rfl | ⟨s, c, rfl⟩ := List.eq_nil_or_concat s
    · exact absurd rfl nonempty
    · have hlines := lines_plain_append plain []
      rw [List.append_nil, List.concat_eq_append, List.foldr_append] at hlines
      rw [List.concat_eq_append, hlines]
      exact (foldr_ontoLine_cons s ⟨[c], []⟩ []).symm
  | line plain ends _ ih =>
    rw [List.append_assoc, lines_plain_append plain, ends.lines, foldr_ontoLine_cons, ← ih,
      List.append_nil]

theorem lined_iff {ls : List Line} {text : List Char} : Lined ls text ↔ ls = lines text := by
  constructor
  · exact Lined.unique
  · rintro rfl
    exact lined_lines text

/-- The character that holds byte `n` is `c`; on its line the characters `before` are in
front of it, and the lines `above` are above that. -/
structure Text.Located (text : List Char) (n : Nat) (above : List Line) (line : Line)
    (before : List Char) (c : Char) : Prop where
  lines : ∃ below, lines text = above ++ line :: below
  line : ∃ after, line.text = before ++ c :: after
  first : size (joined above ++ before) ≤ n
  last : n < size (joined above ++ before) + c.utf8Size

theorem Text.Located.split {text : List Char} {n : Nat} {above : List Line} {line : Line}
    {before : List Char} {c : Char} (h : Located text n above line before c) :
    ∃ t, text = joined above ++ before ++ c :: t := by
  obtain ⟨below, hlines⟩ := h.lines
  obtain ⟨after, hline⟩ := h.line
  refine ⟨after ++ joined below, ?_⟩
  rw [← (lined_lines text).joined, hlines]
  simp [hline]

/-- The characters in front of the one that holds a byte are those that end before it. -/
theorem Text.takeBytes_holding {n : Nat} {s t : List Char} {c : Char} (hfirst : size s ≤ n)
    (hlast : n < size s + c.utf8Size) : takeBytes n (s ++ c :: t) = s := by
  induction s generalizing n with
  | nil =>
    rw [List.nil_append, takeBytes, if_neg (by simpa using hlast)]
  | cons d s ih =>
    rw [size_cons] at hfirst hlast
    rw [List.cons_append, takeBytes, if_pos (by omega), ih (by omega) (by omega)]

/-- Every byte of a text is held by one of its characters. -/
theorem Text.exists_holding {text : List Char} {n : Nat} (h : n < size text) :
    ∃ s c t, text = s ++ c :: t ∧ size s ≤ n ∧ n < size s + c.utf8Size := by
  induction text generalizing n with
  | nil => simp at h
  | cons c text ih =>
    by_cases hc : n < c.utf8Size
    · exact ⟨[], c, text, rfl, by simp, by simpa using hc⟩
    · rw [size_cons] at h
      obtain ⟨s, d, t, rfl, hfirst, hlast⟩ := ih (n := n - c.utf8Size) (by omega)
      refine ⟨c :: s, d, t, rfl, ?_, ?_⟩
      · rw [size_cons]
        omega
      · rw [size_cons]
        omega

/-- Every character of joined lines is on one of them. -/
theorem Text.exists_line {ls : List Line} {s t : List Char} {c : Char}
    (h : joined ls = s ++ c :: t) :
    ∃ above line below before after, ls = above ++ line :: below ∧
      line.text = before ++ c :: after ∧ s = joined above ++ before := by
  induction ls generalizing s with
  | nil => simp at h
  | cons l ls ih =>
    rw [joined_cons] at h
    rcases List.append_eq_append_iff.mp h with ⟨s', rfl, hls⟩ | ⟨t', hl, ht⟩
    · obtain ⟨above, line, below, before, after, rfl, hline, rfl⟩ := ih hls
      exact ⟨l :: above, line, below, before, after, rfl, hline, by simp⟩
    · cases t' with
      | nil =>
        rw [List.append_nil] at hl
        obtain ⟨above, line, below, before, after, rfl, hline, hs⟩ :=
          ih (s := []) (by simpa using ht.symm)
        refine ⟨l :: above, line, below, before, after, rfl, hline, ?_⟩
        rw [joined_cons, hl, List.append_assoc, ← hs, List.append_nil]
      | cons d t' =>
        rw [List.cons_append] at ht
        obtain ⟨rfl, -⟩ := List.cons.inj ht
        exact ⟨[], l, ls, s, t', rfl, hl, rfl⟩

theorem Text.exists_located {text : List Char} {n : Nat} (h : n < size text) :
    ∃ above line before c, Located text n above line before c := by
  obtain ⟨s, c, t, hs, hfirst, hlast⟩ := exists_holding h
  obtain ⟨above, line, below, before, after, hlines, hline, rfl⟩ :=
    exists_line ((lined_lines text).joined.trans hs)
  exact ⟨above, line, before, c, ⟨below, hlines⟩, ⟨after, hline⟩, hfirst, hlast⟩

namespace Place

variable {a n : Nat} {b r : List Char}

theorem find_plain {s : List Char} (plain : ∀ c ∈ s, Character.isLineBreak c = false)
    (hn : size s ≤ n) : find a b n (s ++ r) = find a (s.reverse ++ b) (n - size s) r := by
  induction s generalizing b n with
  | nil => simp
  | cons c s ih =>
    have hc := plain c List.mem_cons_self
    rw [size_cons] at hn
    rw [List.cons_append, find, if_neg (by simp [hc]), if_neg (by omega),
      ih (fun d hd => plain d (List.mem_cons_of_mem c hd)) (by omega), List.reverse_cons,
      List.append_assoc, List.singleton_append, size_cons, Nat.sub_add_eq]
    intro t ht
    subst ht
    cases hc

/-- A line break of a single character, which is no half of a CR-LF pair. -/
theorem find_break {c : Char} (hc : Character.isLineBreak c = true)
    (alone : c = '\r' → r.head? ≠ some '\n') :
    find a b n (c :: r) =
      if n < c.utf8Size then some ⟨a, b.reverse, []⟩
      else find (a + 1) [] (n - c.utf8Size) r := by
  rw [find, if_pos hc]
  intro t hr ht
  subst ht
  exact alone hr rfl

theorem find_ends {ending : List Char} (h : Line.Ends ending r) (hn : size ending ≤ n) :
    find a b n (ending ++ r) = find (a + 1) [] (n - size ending) r := by
  cases h with
  | crlf =>
    have hsize : size ['\r', '\n'] = 2 := rfl
    rw [hsize] at hn ⊢
    rw [List.cons_append, List.cons_append, List.nil_append, find, if_neg (by omega)]
  | lf =>
    rw [size_cons, size_nil, Nat.add_zero] at hn
    rw [List.singleton_append, find_break rfl (by simp), if_neg (by omega)]
    rfl
  | cr alone =>
    rw [size_cons, size_nil, Nat.add_zero] at hn
    rw [List.singleton_append, find_break rfl fun _ => alone, if_neg (by omega)]
    rfl

/-- The lines above the one that is looked for only count. -/
theorem find_above {above ls : List Line} {text : List Char} (h : Lined (above ++ ls) text)
    (hne : ls ≠ []) (hn : size (joined above) ≤ n) :
    find a [] n text = find (a + above.length) [] (n - size (joined above)) (joined ls) := by
  induction above generalizing a n text with
  | nil =>
    rw [← h.joined]
    rfl
  | cons l above ih =>
    rw [List.cons_append] at h
    generalize hls : above ++ ls = others at h
    cases h with
    | last _ _ => exact absurd (List.append_eq_nil_iff.mp hls).2 hne
    | @line s ending rest _ plain ends others =>
      subst hls
      rw [joined_cons, Line.text_mk, size_append, size_append] at hn ⊢
      rw [List.append_assoc, find_plain plain (by omega), find_ends ends (by omega),
        ih others (by omega), List.length_cons, Nat.sub_sub, Nat.sub_sub, Nat.add_assoc,
        Nat.add_assoc, Nat.add_comm 1]

/-- The character that is looked for is on the line itself. -/
theorem find_inside {before more : List Char} {c : Char}
    (plain : ∀ d ∈ before ++ c :: more, Character.isLineBreak d = false)
    (hr : ∀ d, r.head? = some d → Character.isLineBreak d = true)
    (hfirst : size before ≤ n) (hlast : n < size before + c.utf8Size) :
    find a [] n (before ++ c :: more ++ r) = some ⟨a, before, c :: more⟩ := by
  have hc : Character.isLineBreak c = false := plain c (by simp)
  have hstops : r.takeWhile (!Character.isLineBreak ·) = [] := by
    cases r with
    | nil => rfl
    | cons d r => simp [hr d rfl]
  have hmore : (more ++ r).takeWhile (!Character.isLineBreak ·) = more := by
    rw [List.takeWhile_append_of_pos fun d hd => by simp [plain d (by simp [hd])], hstops,
      List.append_nil]
  rw [List.append_assoc, find_plain (fun d hd => plain d (by simp [hd])) hfirst,
    List.cons_append, find, if_neg (by simp [hc]), if_pos (by omega), hmore, List.append_nil,
    List.reverse_reverse]
  intro t ht
  subst ht
  cases hc

/-- The character that is looked for is of the line break. -/
theorem find_ending {content ending : List Char}
    (plain : ∀ d ∈ content, Character.isLineBreak d = false) (ends : Line.Ends ending r)
    (hfirst : size content ≤ n) (hlast : n < size content + size ending) :
    find a [] n (content ++ (ending ++ r)) = some ⟨a, content, []⟩ := by
  have hending : n - size content < size ending := by omega
  rw [find_plain plain hfirst, List.append_nil]
  cases ends with
  | crlf =>
    rw [show size ['\r', '\n'] = 2 from rfl] at hending
    rw [List.cons_append, List.cons_append, find, if_pos hending, List.reverse_reverse]
  | lf =>
    have hsize : n - size content < '\n'.utf8Size := hending
    rw [List.singleton_append, find_break rfl (by simp), if_pos hsize, List.reverse_reverse]
  | cr alone =>
    have hsize : n - size content < '\r'.utf8Size := hending
    rw [List.singleton_append, find_break rfl fun _ => alone, if_pos hsize,
      List.reverse_reverse]

/-- The character that is looked for is on the first line, behind `before`. -/
theorem find_line {line : Line} {below : List Line} {before after : List Char} {c : Char}
    (h : Lined (line :: below) (joined (line :: below)))
    (hline : line.text = before ++ c :: after) (hfirst : size before ≤ n)
    (hlast : n < size before + c.utf8Size) :
    find a [] n (joined (line :: below)) =
      some ⟨a, line.content.take before.length, line.content.drop before.length⟩ := by
  have plain := h.plain
  rw [joined_cons, Line.text, List.append_assoc]
  rcases h.character hline with ⟨t, hcontent, -⟩ | ⟨rfl, hending⟩ | ⟨rfl, rfl, hending⟩
  · have hbreak : ∀ d, (line.ending ++ joined below).head? = some d →
        Character.isLineBreak d = true := by
      intro d hd
      rcases h.ends with ⟨hnil, rfl⟩ | ends
      · simp [hnil] at hd
      · cases hr : line.ending with
        | nil =>
          rw [hr] at ends
          cases ends
        | cons e r =>
          rw [hr] at hd
          cases hd
          exact ends.isLineBreak d (by simp [hr])
    rw [hcontent] at plain ⊢
    rw [find_inside plain hbreak hfirst hlast]
    simp
  · rw [find_ending plain (h.ends_of_cons hending) hfirst (by
      rw [hending, size_cons]
      omega)]
    simp
  · rw [size_append] at hfirst hlast
    rw [find_ending plain (h.ends_of_cons hending) (by omega) (by
      rw [hending]
      simp only [size_cons, size_nil] at hlast ⊢
      omega)]
    simp [List.take_of_length_le]

end Place

/-- The place on a line behind `n` of its characters. The characters of a line break stand at
the end of the line. -/
def Line.place (l : Line) (above n : Nat) : Place :=
  ⟨above, l.content.take n, l.content.drop n⟩

/-- The place that is found for a byte is that of its character. -/
theorem Text.Located.find {text : List Char} {n : Nat} {above : List Line} {line : Line}
    {before : List Char} {c : Char} (h : Located text n above line before c) :
    Place.find 0 [] n text = some (line.place above.length before.length) := by
  obtain ⟨below, hlines⟩ := h.lines
  obtain ⟨after, hline⟩ := h.line
  have hfirst := h.first
  have hlast := h.last
  rw [size_append] at hfirst hlast
  have hlined : Lined (above ++ line :: below) text := hlines ▸ lined_lines text
  rw [Place.find_above hlined (by simp) (by omega),
    Place.find_line hlined.of_append hline (by omega) (by omega), Nat.zero_add, Line.place]

end Cjson
