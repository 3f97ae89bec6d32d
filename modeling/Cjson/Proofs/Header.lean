import Mathlib.Data.List.Forall2
import Mathlib.Data.List.TakeWhile
import Cjson.Document

namespace Cjson

/-- The sequence is split behind the longest run of `p` that it begins with. -/
structure Longest {α : Type} (p : α → Bool) (s run rest : List α) : Prop where
  split : s = run ++ rest
  all : ∀ a ∈ run, p a = true
  stops : ∀ a, rest.head? = some a → p a = false

section Longest

variable {α : Type} {p : α → Bool} {s run rest : List α}

theorem Longest.dropWhile_eq (h : Longest p s run rest) : s.dropWhile p = rest := by
  rw [h.split, List.dropWhile_append_of_pos h.all]
  cases rest with
  | nil => rfl
  | cons a rest => exact List.dropWhile_cons_of_neg (by simp [h.stops a rfl])

theorem Longest.takeWhile_eq (h : Longest p s run rest) : s.takeWhile p = run := by
  have hsplit : s.takeWhile p ++ s.dropWhile p = s := List.takeWhile_append_dropWhile
  rw [h.dropWhile_eq] at hsplit
  exact List.append_cancel_right (hsplit.trans h.split)

theorem longest (p : α → Bool) (s : List α) :
    Longest p s (s.takeWhile p) (s.dropWhile p) where
  split := List.takeWhile_append_dropWhile.symm
  all := List.all_eq_true.mp List.all_takeWhile
  stops := by
    intro a ha
    have := List.head?_dropWhile_not p s
    rwa [ha] at this

end Longest

namespace Document

/-- What is left of a text without the white space around it. -/
structure Trimmed (s t : List Char) : Prop where
  around : ∃ before after, s = before ++ (t ++ after) ∧
    (∀ c ∈ before, Character.isWhiteSpace c = true) ∧
    ∀ c ∈ after, Character.isWhiteSpace c = true
  first : ∀ c, t.head? = some c → Character.isWhiteSpace c = false
  last : ∀ c, t.getLast? = some c → Character.isWhiteSpace c = false

theorem trimmed_trim (s : List Char) : Trimmed s (trim s) := by
  have hfront := longest Character.isWhiteSpace s
  have hback := longest Character.isWhiteSpace (s.dropWhile Character.isWhiteSpace).reverse
  have hinner : s.dropWhile Character.isWhiteSpace = trim s ++
      ((s.dropWhile Character.isWhiteSpace).reverse.takeWhile Character.isWhiteSpace).reverse := by
    rw [trim, ← List.reverse_append, ← hback.split, List.reverse_reverse]
  refine ⟨⟨_, _, by rw [← hinner]; exact hfront.split, hfront.all, ?_⟩, ?_, ?_⟩
  · intro c hc
    exact hback.all c (List.mem_reverse.mp hc)
  · intro c hc
    apply hfront.stops c
    rw [hinner, List.head?_append, hc]
    rfl
  · intro c hc
    apply hback.stops c
    rwa [trim, List.getLast?_reverse] at hc

theorem Trimmed.eq_trim {s t : List Char} (h : Trimmed s t) : trim s = t := by
  obtain ⟨before, after, rfl, hbefore, hafter⟩ := h.around
  rw [trim, List.dropWhile_append_of_pos hbefore]
  cases t with
  | nil =>
    rw [List.nil_append, List.dropWhile_eq_nil_iff.mpr hafter]
    rfl
  | cons c t =>
    have hfront : Longest Character.isWhiteSpace (c :: t ++ after) [] (c :: t ++ after) :=
      ⟨rfl, by simp, fun d hd => h.first d hd⟩
    have hback : Longest Character.isWhiteSpace (c :: t ++ after).reverse after.reverse
        (c :: t).reverse := by
      refine ⟨List.reverse_append, ?_, ?_⟩
      · intro d hd
        exact hafter d (List.mem_reverse.mp hd)
      · intro d hd
        rw [List.head?_reverse] at hd
        exact h.last d hd
    rw [hfront.dropWhile_eq, hback.dropWhile_eq, List.reverse_reverse]

/-- The bytes are the letters of a word in lower case, each of them in lower or in upper case:
the code of an upper-case letter is less by 32. -/
def InAnyCase (bytes : List UInt8) (word : String) : Prop :=
  List.Forall₂ (fun b c => b.toNat = c.toNat ∨ b.toNat + 32 = c.toNat) bytes word.toList

theorem toNat_latin1Char (b : UInt8) : (Charset.latin1Char b).toNat = b.toNat := by
  have hb := b.toNat_lt
  rw [Charset.latin1Char, Char.ofNat, dif_pos (.inl (by omega))]
  rfl

theorem toLower_eq_iff {c d : Char} (hd : 97 ≤ d.toNat ∧ d.toNat ≤ 122) :
    c.toLower = d ↔ c.toNat = d.toNat ∨ c.toNat + 32 = d.toNat := by
  have hupper : (c.val ≥ 'A'.val ∧ c.val ≤ 'Z'.val) ↔ 65 ≤ c.toNat ∧ c.toNat ≤ 90 := by
    rw [ge_iff_le, UInt32.le_iff_toNat_le, UInt32.le_iff_toNat_le]
    rfl
  unfold Char.toLower
  by_cases h : c.val ≥ 'A'.val ∧ c.val ≤ 'Z'.val
  · have hrange := hupper.mp h
    have hsum : (c.val + ('a'.val - 'A'.val)).toNat = c.toNat + 32 := by
      rw [UInt32.toNat_add]
      exact Nat.mod_eq_of_lt (show c.toNat + 32 < 4294967296 by omega)
    rw [dif_pos h, ← Char.toNat_inj]
    change (c.val + ('a'.val - 'A'.val)).toNat = d.toNat ↔ _
    rw [hsum]
    omega
  · have hrange := mt hupper.mpr h
    rw [dif_neg h, ← Char.toNat_inj]
    omega

theorem map_toLower_eq_iff {letters : List UInt8} {word : List Char}
    (hword : ∀ c ∈ word, 97 ≤ c.toNat ∧ c.toNat ≤ 122) :
    letters.map (fun b => (Charset.latin1Char b).toLower) = word ↔
      List.Forall₂ (fun b c => b.toNat = c.toNat ∨ b.toNat + 32 = c.toNat) letters word := by
  induction letters generalizing word with
  | nil => simp [eq_comm]
  | cons b letters ih =>
    cases word with
    | nil => simp
    | cons c word =>
      obtain ⟨hc, hword⟩ := List.forall_mem_cons.mp hword
      rw [List.map_cons, List.cons.injEq, ih hword, toLower_eq_iff hc, toNat_latin1Char,
        List.forall₂_cons]

theorem isKeyword_iff {letters : List UInt8} :
    isKeyword letters = true ↔ InAnyCase letters "encoding" ∨ InAnyCase letters "charset" := by
  rw [isKeyword, Bool.or_eq_true, beq_iff_eq, beq_iff_eq, map_toLower_eq_iff (by simp),
    map_toLower_eq_iff (by simp)]
  rfl

/-- A document begins with a header: the parts of it are in order, and each run of blanks, of
letters, and of what is in the line is as long as it can be. -/
inductive Headed (name : String) (bytes : List UInt8) : Prop
  | intro {mark start blanks comment indent worded word behind indent' labelled indent'' label
      line rest : List UInt8}
      (marked : bytes = mark ++ start) (mark_eq : mark = [] ∨ mark = byteOrderMark)
      (slashes : Longest isBlankByte start blanks (0x2F :: 0x2F :: comment))
      (indented : Longest isIndentByte comment indent worded)
      (lettered : Longest isLetterByte worded word behind)
      (keyword : InAnyCase word "encoding" ∨ InAnyCase word "charset")
      (colon : Longest isIndentByte behind indent' (0x3A :: labelled))
      (indented' : Longest isIndentByte labelled indent'' label)
      (lined : Longest (!isLineBreakByte ·) label line rest)
      (named : Trimmed (line.map Charset.latin1Char) name.toList) (nonempty : name ≠ "") :
      Headed name bytes

theorem charsetName?_eq_some_iff {bytes : List UInt8} {name : String} :
    charsetName? bytes = some name ↔
      Trimmed (((bytes.dropWhile isIndentByte).takeWhile (!isLineBreakByte ·)).map
        Charset.latin1Char) name.toList ∧ name ≠ "" := by
  unfold charsetName?
  dsimp only
  generalize ((bytes.dropWhile isIndentByte).takeWhile (!isLineBreakByte ·)).map
    Charset.latin1Char = line
  rw [Option.ite_none_left_eq_some, Option.some.injEq, List.isEmpty_iff]
  constructor
  · rintro ⟨hne, rfl⟩
    rw [String.toList_ofList]
    refine ⟨trimmed_trim line, ?_⟩
    intro he
    exact hne (by simpa using congrArg String.toList he)
  · rintro ⟨htrimmed, hne⟩
    rw [htrimmed.eq_trim, String.ofList_toList]
    refine ⟨?_, rfl⟩
    intro he
    exact hne (String.toList_inj.mp (he.trans rfl))

theorem dropByteOrderMark_of_unmarked {bytes : List UInt8}
    (unmarked : ¬byteOrderMark <+: bytes) : dropByteOrderMark bytes = bytes := by
  rw [dropByteOrderMark, if_neg]
  rwa [List.isPrefixOf_iff_prefix]

/-- A byte order mark is nothing but itself: no part of a header begins with it. -/
theorem dropByteOrderMark_eq {mark start blanks comment : List UInt8}
    (hmark : mark = [] ∨ mark = byteOrderMark)
    (slashes : Longest isBlankByte start blanks (0x2F :: 0x2F :: comment)) :
    dropByteOrderMark (mark ++ start) = start := by
  rcases hmark with rfl | rfl
  · refine dropByteOrderMark_of_unmarked ?_
    rintro ⟨after, rfl⟩
    have hdrop := slashes.dropWhile_eq
    rw [byteOrderMark, List.cons_append, List.dropWhile_cons_of_neg (by decide)] at hdrop
    cases hdrop
  · rfl

theorem exists_mark (bytes : List UInt8) :
    ∃ mark, bytes = mark ++ dropByteOrderMark bytes ∧ (mark = [] ∨ mark = byteOrderMark) := by
  unfold dropByteOrderMark
  by_cases h : byteOrderMark.isPrefixOf bytes = true
  · rw [if_pos h]
    obtain ⟨start, rfl⟩ := List.isPrefixOf_iff_prefix.mp h
    exact ⟨byteOrderMark, rfl, .inr rfl⟩
  · rw [if_neg h]
    exact ⟨[], rfl, .inl rfl⟩

theorem header?_eq_some_iff {bytes : List UInt8} {name : String} :
    header? bytes = some name ↔ Headed name bytes := by
  constructor
  · intro h
    obtain ⟨mark, hbytes, hmark⟩ := exists_mark bytes
    unfold header? at h
    split at h
    · rename_i comment hslashes
      dsimp only at h
      split at h
      · rename_i hkeyword
        split at h
        · rename_i labelled hcolon
          obtain ⟨named, nonempty⟩ := charsetName?_eq_some_iff.mp h
          exact .intro hbytes hmark (hslashes ▸ longest _ _) (longest _ _) (longest _ _)
            (isKeyword_iff.mp hkeyword) (hcolon ▸ longest _ _) (longest _ _) (longest _ _)
            named nonempty
        · cases h
      · cases h
    · cases h
  · intro h
    cases h with
    | @intro mark start _ comment _ _ _ _ _ labelled _ _ _ _ marked mark_eq slashes indented
        lettered keyword colon indented' lined named nonempty =>
      have hname : charsetName? labelled = some name := by
        rw [charsetName?_eq_some_iff, indented'.dropWhile_eq, lined.takeWhile_eq]
        exact ⟨named, nonempty⟩
      rw [header?, marked, dropByteOrderMark_eq mark_eq slashes, slashes.dropWhile_eq]
      change (if isKeyword ((comment.dropWhile isIndentByte).takeWhile isLetterByte) then _
        else none) = some name
      rw [indented.dropWhile_eq, lettered.takeWhile_eq, lettered.dropWhile_eq,
        colon.dropWhile_eq, if_pos (isKeyword_iff.mpr keyword)]
      exact hname

/-- The first line of a document with anything but blanks in it, from there on. -/
def firstLine (bytes : List UInt8) : List UInt8 :=
  ((dropByteOrderMark bytes).dropWhile isBlankByte).takeWhile (!isLineBreakByte ·)

/-- Bytes behind a line: none, or from its line break on. -/
def EndsLine (rest : List UInt8) : Prop :=
  ∀ b, rest.head? = some b → isLineBreakByte b = true

section EndsLine

variable {p : UInt8 → Bool} {line rest rest' run behind : List UInt8} {b : UInt8}

theorem endsLine_of_longest {s : List UInt8} (h : Longest (!isLineBreakByte ·) s line rest) :
    EndsLine rest := by
  intro b hb
  simpa using h.stops b hb

theorem EndsLine.longest (h : EndsLine rest) (inLine : ∀ b ∈ line, isLineBreakByte b = false) :
    Longest (!isLineBreakByte ·) (line ++ rest) line rest := by
  refine ⟨rfl, ?_, ?_⟩
  · intro b hb
    simp [inLine b hb]
  · intro b hb
    simp [h b hb]

/-- A run that stops at line breaks is within the line, whatever there is behind it. -/
theorem EndsLine.inLine (hrest : EndsLine rest) (hrest' : EndsLine rest')
    (hp : ∀ b, isLineBreakByte b = true → p b = false) (h : Longest p (line ++ rest) run behind) :
    ∃ line', line = run ++ line' ∧ behind = line' ++ rest ∧
      Longest p (line ++ rest') run (line' ++ rest') := by
  have hline : ∃ line', line = run ++ line' ∧ behind = line' ++ rest := by
    rcases List.append_eq_append_iff.mp h.split with ⟨beyond, hrun, hbeyond⟩ | hline
    · cases beyond with
      | nil => exact ⟨[], by simpa using hrun.symm, by simpa using hbeyond.symm⟩
      | cons b beyond =>
        have hbreak := hp b (hrest b (by rw [hbeyond]; rfl))
        rw [h.all b (by simp [hrun])] at hbreak
        cases hbreak
    · exact hline
  obtain ⟨line', rfl, rfl⟩ := hline
  refine ⟨line', rfl, rfl, List.append_assoc _ _ _, h.all, ?_⟩
  intro b hb
  cases line' with
  | nil => exact hp b (hrest' b hb)
  | cons c line' => exact h.stops b hb

/-- What is no line break is in the line. -/
theorem EndsLine.cons_eq_append (hrest : EndsLine rest) (hb : isLineBreakByte b = false)
    (h : b :: behind = line ++ rest) : ∃ line', line = b :: line' ∧ behind = line' ++ rest := by
  cases line with
  | nil =>
    have hbreak := hrest b (by rw [← List.nil_append rest, ← h]; rfl)
    rw [hb] at hbreak
    cases hbreak
  | cons c line' =>
    obtain ⟨rfl, rfl⟩ := List.cons.inj h
    exact ⟨line', rfl, rfl⟩

end EndsLine

theorem isIndentByte_of_isLineBreakByte {b : UInt8} (hb : isLineBreakByte b = true) :
    isIndentByte b = false := by
  simp [isIndentByte, hb]

theorem isLetterByte_of_isLineBreakByte {b : UInt8} (hb : isLineBreakByte b = true) :
    isLetterByte b = false := by
  rw [isLineBreakByte, Bool.or_eq_true, beq_iff_eq, beq_iff_eq] at hb
  rcases hb with rfl | rfl <;> rfl

/-- The first line and what is behind it. -/
theorem exists_firstLine (bytes : List UInt8) :
    ∃ mark blanks rest, bytes = mark ++ (blanks ++ (firstLine bytes ++ rest)) ∧
      (mark = [] ∨ mark = byteOrderMark) ∧ (∀ b ∈ blanks, isBlankByte b = true) ∧
      EndsLine rest := by
  obtain ⟨mark, hbytes, hmark⟩ := exists_mark bytes
  have hblanks := longest isBlankByte (dropByteOrderMark bytes)
  have hline := longest (!isLineBreakByte ·) ((dropByteOrderMark bytes).dropWhile isBlankByte)
  refine ⟨mark, _, _, ?_, hmark, hblanks.all, endsLine_of_longest hline⟩
  rw [firstLine, ← hline.split, ← hblanks.split]
  exact hbytes

/-- All of a header is in the first line, so the bytes behind it can be any others. -/
theorem Headed.of_firstLine {bytes bytes' : List UInt8} {name : String} (h : Headed name bytes)
    (hline : firstLine bytes = firstLine bytes') : Headed name bytes' := by
  obtain ⟨mark', blanks', rest', hbytes', hmark', hblanks', hrest'⟩ := exists_firstLine bytes'
  rw [← hline] at hbytes'
  cases h with
  | @intro mark start _ comment _ _ _ _ _ labelled _ label line _ marked mark_eq slashes indented
      lettered keyword colon indented' lined named nonempty =>
    obtain ⟨l, rest, rfl, hrest, hl, hfirst⟩ : ∃ l rest, comment = l ++ rest ∧ EndsLine rest ∧
        (∀ b ∈ l, isLineBreakByte b = false) ∧ firstLine bytes = 0x2F :: 0x2F :: l := by
      have hl := longest (!isLineBreakByte ·) comment
      refine ⟨_, _, hl.split, endsLine_of_longest hl, by simpa using hl.all, ?_⟩
      rw [firstLine, marked, dropByteOrderMark_eq mark_eq slashes, slashes.dropWhile_eq]
      rfl
    have hindent : ∀ b, isLineBreakByte b = true → isIndentByte b = false :=
      fun _ => isIndentByte_of_isLineBreakByte
    have hletter : ∀ b, isLineBreakByte b = true → isLetterByte b = false :=
      fun _ => isLetterByte_of_isLineBreakByte
    -- part by part, `l₁` to `l₅` are what is left of the line
    obtain ⟨l₁, rfl, rfl, hindented⟩ := hrest.inLine hrest' hindent indented
    obtain ⟨l₂, rfl, rfl, hlettered⟩ := hrest.inLine hrest' hletter lettered
    obtain ⟨l₃, rfl, hbehind, hcolon⟩ := hrest.inLine hrest' hindent colon
    obtain ⟨l₄, rfl, rfl⟩ := hrest.cons_eq_append rfl hbehind
    obtain ⟨l₅, rfl, rfl, hindented'⟩ := hrest.inLine hrest' hindent indented'
    have hl₅ : ∀ b ∈ l₅, isLineBreakByte b = false := fun b hb => hl b (by simp [hb])
    obtain rfl : line = l₅ := lined.takeWhile_eq.symm.trans (hrest.longest hl₅).takeWhile_eq
    refine .intro hbytes' hmark' ⟨?_, hblanks', ?_⟩ hindented hlettered keyword hcolon hindented'
      (hrest'.longest hl₅) named nonempty
    · rw [hfirst]
      rfl
    · rintro b ⟨⟩
      rfl

end Document

/-- A document has a header with this name exactly if it begins with the parts of one. It does
not depend on anything but the first line that is not blank. -/
theorem header_exact (bytes : List UInt8) :
    (∀ name, Document.header? bytes = some name ↔ Document.Headed name bytes) ∧
    ∀ bytes', Document.firstLine bytes = Document.firstLine bytes' →
      Document.header? bytes = Document.header? bytes' := by
  refine ⟨fun _ => Document.header?_eq_some_iff, fun bytes' hline => Option.ext fun name => ?_⟩
  rw [Document.header?_eq_some_iff, Document.header?_eq_some_iff]
  exact ⟨fun h => h.of_firstLine hline, fun h => h.of_firstLine hline.symm⟩

/-- The header is the same before another text, and behind a mark and an empty line. -/
theorem header_exact_marked :
    Document.firstLine ("// Charset : latin1\n{}".toList.map Char.toUInt8) =
      Document.firstLine
        (Document.byteOrderMark ++ "\r\n// Charset : latin1".toList.map Char.toUInt8) ∧
    Document.header? ("// Charset : latin1\n{}".toList.map Char.toUInt8) = some "latin1" ∧
    Document.header? (Document.byteOrderMark ++
      "\r\n// Charset : latin1".toList.map Char.toUInt8) = some "latin1" := by
  have hline : Document.firstLine ("// Charset : latin1\n{}".toList.map Char.toUInt8) =
      Document.firstLine (Document.byteOrderMark ++
        "\r\n// Charset : latin1".toList.map Char.toUInt8) := by decide
  have hheader : Document.header? ("// Charset : latin1\n{}".toList.map Char.toUInt8) =
      some "latin1" := by decide +kernel
  exact ⟨hline, hheader, ((header_exact _).2 _ hline).symm.trans hheader⟩

end Cjson
