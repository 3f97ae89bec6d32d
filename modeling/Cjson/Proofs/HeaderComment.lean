import Cjson.Proofs.ByteOrderMark
import Cjson.Proofs.Transfer

namespace Cjson

open Cjson.Action

theorem Character.isBlank_of_toNat {c : Char}
    (h : (0x09 ≤ c.toNat ∧ c.toNat ≤ 0x0D) ∨ (0x1C ≤ c.toNat ∧ c.toNat ≤ 0x20)) :
    isBlank c = true := by
  have hne : ∀ d : Char, 0x20 < d.toNat → c ≠ d := by
    intro d hd he
    rw [he] at h
    omega
  have hexcluded : c ≠ '\x85' ∧ c ≠ '\xa0' ∧ c ≠ '\u2007' ∧ c ≠ '\u202f' :=
    ⟨hne _ (by decide), hne _ (by decide), hne _ (by decide), hne _ (by decide)⟩
  simp only [isBlank, isWhiteSpace, inRanges]
  grind

namespace Document

theorem isBlank_latin1Char {b : UInt8} (h : isBlankByte b = true) :
    Character.isBlank (Charset.latin1Char b) = true := by
  refine Character.isBlank_of_toNat ?_
  rw [toNat_latin1Char]
  simp only [isBlankByte, Bool.or_eq_true, Bool.and_eq_true, decide_eq_true_eq,
    UInt8.le_iff_toNat_le] at h
  exact h

theorem isLineBreak_latin1Char (b : UInt8) :
    Character.isLineBreak (Charset.latin1Char b) = isLineBreakByte b := by
  have hcode : ∀ (c : Char) (d : UInt8), c.toNat = d.toNat →
      (Charset.latin1Char b == c) = (b == d) := by
    intro c d h
    rw [Bool.eq_iff_iff, beq_iff_eq, beq_iff_eq, ← Char.toNat_inj, ← UInt8.toNat_inj,
      toNat_latin1Char, h]
  rw [Character.isLineBreak, isLineBreakByte, hcode '\n' 0x0A rfl, hcode '\r' 0x0D rfl]

end Document

/-- A comment that goes on to the end of its line, with nothing but blanks before it. -/
inductive CommentLine : List Char → Prop
  | intro {blanks body : List Char} (blank : ∀ c ∈ blanks, Character.isBlank c = true)
      (inLine : ∀ c ∈ body, Character.isLineBreak c = false) :
      CommentLine (blanks ++ '/' :: '/' :: body)

section CommentLine

variable {s rest : List Char}

/-- With its line break the comment is a gap. -/
theorem CommentLine.gap (h : CommentLine s) {c : Char} (hc : Character.isLineBreak c = true) :
    Gap true (s ++ [c]) := by
  cases h with
  | @intro blanks body blank inLine =>
    induction blanks with
    | nil => exact .lineComment inLine hc .nil
    | cons d blanks ih =>
      obtain ⟨hd, blank⟩ := List.forall_mem_cons.mp blank
      have hgap := Gap.blank hd (ih blank)
      rwa [Bool.or_true] at hgap

/-- Without one it goes on to the end of the text. -/
theorem CommentLine.gapBefore (h : CommentLine s) : ∃ b, GapBefore b s [] := by
  cases h with
  | @intro blanks body blank inLine =>
    induction blanks with
    | nil => exact ⟨false, [], _, .nil, .inr ⟨⟨body, inLine, rfl⟩, rfl⟩, rfl⟩
    | cons d blanks ih =>
      obtain ⟨hd, blank⟩ := List.forall_mem_cons.mp blank
      obtain ⟨b, hb⟩ := ih blank
      exact ⟨_, hb.blank hd⟩

/-- A gap that begins with the comment ends where it would without. -/
theorem CommentLine.skipped (h : CommentLine s)
    (ends : ∀ c, rest.head? = some c → Character.isLineBreak c = true) (p : Nat) :
    (discard Scan.gap : Scan PUnit) ⟨p, s ++ rest⟩ =
      (discard Scan.gap : Scan PUnit) ⟨p + Text.size s, rest⟩ := by
  cases rest with
  | nil =>
    obtain ⟨b, hb⟩ := h.gapBefore
    have hgap : Scan.gap ⟨p, s ++ []⟩ = (.ok b, ⟨p + Text.size s, []⟩) :=
      Scan.gap_eq_ok.mpr ⟨s, ⟨rfl, rfl⟩, hb⟩
    have hnone : Scan.gap ⟨p + Text.size s, []⟩ = (.ok false, ⟨p + Text.size s, []⟩) :=
      Scan.gapFrom_solid .nil
    rw [discard_ok hgap, discard_ok hnone]
  | cons c rest =>
    have hc := ends c rfl
    have hbreak : Gap true [c] := by
      have := Gap.blank (Character.isBlank_of_isLineBreak hc) .nil
      rwa [hc] at this
    refine map_congr _ ?_
    have hwith : Scan.gapFrom .gap false p (s ++ c :: rest) =
        Scan.gapFrom .gap true (p + Text.size s + Text.size [c]) rest := by
      rw [Nat.add_assoc, ← Text.size_append, List.append_cons]
      exact Scan.gapFrom_append (h.gap hc) rest
    have hwithout : Scan.gapFrom .gap false (p + Text.size s) (c :: rest) =
        Scan.gapFrom .gap true (p + Text.size s + Text.size [c]) rest :=
      Scan.gapFrom_append hbreak rest
    exact hwith.trans hwithout.symm

end CommentLine

namespace Action

variable {ε ε' τ α β : Type} {x : Action ε τ α} {t t' : τ}

theorem map_mapError (f : α → β) (g : ε → ε') (r : Except ε α) :
    (r.mapError g).map f = (r.map f).mapError g := by
  cases r with
  | error e => rfl
  | ok a => rfl

theorem discard_apply (x : Action ε τ α) (t : τ) :
    (discard x : Action ε τ PUnit) t = ((x t).1.map (Function.const α PUnit.unit), (x t).2) := by
  change (Function.const α PUnit.unit <$> x) t = _
  rw [map_apply]
  rcases x t with ⟨e | a, t₁⟩
  · rfl
  · rfl

/-- What does not ask for a result depends on the end of the computation only. -/
theorem bind_of_discard
    (h : (discard x : Action ε τ PUnit) t = (discard x : Action ε τ PUnit) t')
    (y : Action ε τ β) : (x >>= fun _ => y) t = (x >>= fun _ => y) t' := by
  rw [discard_apply, discard_apply] at h
  rw [bind_apply, bind_apply]
  rcases hx : x t with ⟨e | a, t₁⟩
  · rcases hx' : x t' with ⟨e' | a', t₁'⟩
    · rw [hx, hx'] at h
      cases h
      rfl
    · rw [hx, hx'] at h
      cases h
  · rcases hx' : x t' with ⟨e' | a', t₁'⟩
    · rw [hx, hx'] at h
      cases h
    · rw [hx, hx'] at h
      cases h
      rfl

end Action

namespace Eval

variable {σ α β : Type} {source : Source} {k k' : Cursor} {force : Bool}

theorem scan_discard {x : Scan α}
    (h : (discard x : Scan PUnit) k = (discard x : Scan PUnit) k') (st : σ) :
    (discard (scan source x) : Eval σ PUnit) ⟨k, st⟩ =
      (discard (scan source x) : Eval σ PUnit) ⟨k', st⟩ := by
  rw [discard_apply, discard_apply, Prod.mk.injEq] at h
  obtain ⟨hr, hk⟩ := h
  rw [discard_apply, discard_apply, scan_eq, scan_eq, hk, map_mapError, map_mapError, hr]

theorem inside_discard {x : Eval σ α} {s s' : Session σ}
    (h : (discard x : Eval σ PUnit) s = (discard x : Eval σ PUnit) s') (b : β) :
    (discard (inside x) : Build β σ PUnit) (b, s) =
      (discard (inside x) : Build β σ PUnit) (b, s') := by
  rw [discard_apply, discard_apply, Prod.mk.injEq] at h
  rw [discard_apply, discard_apply]
  exact Prod.ext h.1 (Prod.ext rfl h.2)

/-- The start of a listing without brackets is not blamed for anything. -/
theorem itemOrEnd_start (kind : Listing) (start start' : Nat) (item : Build β σ Bool) :
    itemOrEnd source kind none start item = itemOrEnd source kind none start' item := by
  unfold itemOrEnd
  congr
  funext here
  congr
  funext next
  cases next <;> rfl

variable (skipped : (discard Scan.gap : Scan PUnit) k = (discard Scan.gap : Scan PUnit) k')

include skipped

theorem listing_skipped (kind : Listing) (item : Build β σ Bool) (b : β) (st : σ) :
    listing source kind none item (b, ⟨k, st⟩) = listing source kind none item (b, ⟨k', st⟩) := by
  unfold listing
  rw [bind_ok (inside_ok (position_apply _) b), bind_ok (inside_ok (position_apply _) b),
    itemOrEnd_start kind k.position k'.position item]
  exact bind_of_discard (inside_discard (scan_discard skipped st) b) _

theorem openList_skipped (st : σ) :
    openList .simple source force ⟨k, st⟩ = openList .simple source force ⟨k', st⟩ := by
  unfold openList
  rw [bind_ok (position_apply _), bind_ok (position_apply _), bind_apply, bind_apply,
    within_simple, within_simple]
  simp only [listBody, listing_skipped skipped]

theorem openMap_skipped (st : σ) :
    openMap .simple source force ⟨k, st⟩ = openMap .simple source force ⟨k', st⟩ := by
  unfold openMap
  rw [bind_ok (position_apply _), bind_ok (position_apply _), bind_apply, bind_apply,
    within_simple, within_simple]
  simp only [mapBody, listing_skipped skipped]

theorem single_skipped (st : σ) :
    single .simple source force ⟨k, st⟩ = single .simple source force ⟨k', st⟩ :=
  bind_of_discard (scan_discard skipped st) _

omit skipped in
theorem Mirrored.run_skipped {τ : Type} {n : Nat} {x : Eval τ α} {y : Eval σ α}
    (h : Mirrored source n x y k') {st : τ} (skipped : x ⟨k, st⟩ = x ⟨k'.moved n, st⟩)
    (st' : σ) :
    (x.run k st).1 = (y.run k' st').1.mapError (EvaluationError.moved source n) := by
  rw [run, skipped]
  exact h.run_moved st st'

end Eval

/-- Whatever the mode, what is behind the comment evaluates as it does alone. -/
theorem CommentLine.evaluate_moved {σ τ : Type} {s rest : List Char} (h : CommentLine s)
    (ends : ∀ c, rest.head? = some c → Character.isLineBreak c = true) (m : Mode) (force : Bool)
    (file : Option String) (st : σ) (st' : τ) :
    (m.evaluate .simple force ⟨s ++ rest, file⟩ st).1 =
      (m.evaluate .simple force ⟨rest, file⟩ st').1.mapError
        (EvaluationError.moved ⟨s ++ rest, file⟩ (Text.size s)) := by
  have hskipped : (discard Scan.gap : Scan PUnit) (.ofSource ⟨s ++ rest, file⟩) =
      (discard Scan.gap : Scan PUnit) ((Cursor.ofSource ⟨rest, file⟩).moved (Text.size s)) := by
    rw [Cursor.moved]
    exact h.skipped ends 0
  have henv : (Environment.simple : Environment σ).Resolves .call := Environment.simple_resolves
  cases m with
  | single =>
    exact (Eval.mirrored_single henv force).run_skipped (Eval.single_skipped hskipped st) st'
  | map =>
    have hrun : (evaluateMap .simple force ⟨s ++ rest, file⟩ st).1 =
        (evaluateMap .simple force ⟨rest, file⟩ st').1.mapError
          (EvaluationError.moved ⟨s ++ rest, file⟩ (Text.size s)) :=
      (Eval.mirrored_openMap henv force).run_skipped (Eval.openMap_skipped hskipped st) st'
    exact (congrArg (Except.map Value.map) hrun).trans (map_mapError _ _ _)
  | list =>
    have hrun : (evaluateList .simple force ⟨s ++ rest, file⟩ st).1 =
        (evaluateList .simple force ⟨rest, file⟩ st').1.mapError
          (EvaluationError.moved ⟨s ++ rest, file⟩ (Text.size s)) :=
      (Eval.mirrored_openList henv force).run_skipped (Eval.openList_skipped hskipped st) st'
    exact (congrArg (Except.map Value.list) hrun).trans (map_mapError _ _ _)

namespace Document

/-- The bytes behind the first line, from its line break on. -/
def belowFirstLine (bytes : List UInt8) : List UInt8 :=
  ((dropByteOrderMark bytes).dropWhile isBlankByte).dropWhile (!isLineBreakByte ·)

section Headed

variable {name : Option String} {label : String} {bytes : List UInt8}

/-- The line of the header, and all before it, is a comment as soon as it is decoded. -/
theorem Headed.exists_comment (h : Headed label bytes) (unmarked : ¬byteOrderMark <+: bytes) :
    ∃ head, bytes = head ++ belowFirstLine bytes ∧ CommentLine (Charset.latin1.decode head) := by
  cases h with
  | @intro mark start blanks comment _ _ _ _ _ _ _ _ _ _ marked mark_eq slashes =>
    rcases mark_eq with rfl | rfl
    · obtain rfl : bytes = start := marked
      have hline := longest (!isLineBreakByte ·) comment
      have hbelow : belowFirstLine bytes = comment.dropWhile (!isLineBreakByte ·) := by
        rw [belowFirstLine, dropByteOrderMark_of_unmarked unmarked, slashes.dropWhile_eq]
        rfl
      refine ⟨blanks ++ 0x2F :: 0x2F :: comment.takeWhile (!isLineBreakByte ·), ?_, ?_⟩
      · rw [hbelow, List.append_assoc, List.cons_append, List.cons_append, ← hline.split]
        exact slashes.split
      · have hdecode : ∀ s, Charset.latin1.decode s = s.map Charset.latin1Char := fun _ => rfl
        rw [hdecode, List.map_append]
        refine .intro ?_ ?_
        · simp only [List.forall_mem_map]
          exact fun b hb => isBlank_latin1Char (slashes.all b hb)
        · simp only [List.forall_mem_map]
          intro b hb
          rw [isLineBreak_latin1Char]
          simpa using hline.all b hb
    · exact absurd ⟨start, marked.symm⟩ unmarked

/-- Decoded, too, there is a line break behind the first line, or nothing. -/
theorem isLineBreak_belowFirstLine (bytes : List UInt8) :
    ∀ c, (Charset.latin1.decode (belowFirstLine bytes)).head? = some c →
      Character.isLineBreak c = true := by
  have hends : EndsLine (belowFirstLine bytes) := endsLine_of_longest (longest _ _)
  intro c hc
  change ((belowFirstLine bytes).map Charset.latin1Char).head? = some c at hc
  rw [List.head?_map, Option.map_eq_some_iff] at hc
  obtain ⟨b, hb, rfl⟩ := hc
  rw [isLineBreak_latin1Char]
  exact hends b hb

/-- A document whose header names Latin-1 is the header, and what is below it. Read as a list, as
a map, or as one expression, all of it comes to what its part below the header comes to alone,
with an error as many bytes further on as the header has in the decoded text. -/
theorem header_skipped (unmarked : ¬byteOrderMark <+: bytes) (headed : header? bytes = some label)
    (latin1 : Charset.ofLabel? label = some .latin1) :
    ∃ head text, bytes = head ++ belowFirstLine bytes ∧ Document.text name bytes = .ok text ∧
      ∀ {σ τ : Type} (m : Mode) (force : Bool) (file : Option String) (st : σ) (st' : τ),
        (m.evaluate .simple force ⟨text, file⟩ st).1 =
          (m.evaluate .simple force
            ⟨Charset.latin1.decode (belowFirstLine bytes), file⟩ st').1.mapError
            (EvaluationError.moved ⟨text, file⟩ (Text.size (Charset.latin1.decode head))) := by
  obtain ⟨head, hbytes, hcomment⟩ := (header?_eq_some_iff.mp headed).exists_comment unmarked
  have hcharset : charset? bytes = some .latin1 := by
    rw [charset?, headed]
    exact latin1
  have hdecode : Charset.latin1.decode bytes =
      Charset.latin1.decode head ++ Charset.latin1.decode (belowFirstLine bytes) :=
    (congrArg Charset.latin1.decode hbytes).trans List.map_append
  refine ⟨head, _, hbytes, text_eq_ok.mpr ⟨.latin1, hcharset, rfl⟩, ?_⟩
  intro σ τ m force file st st'
  rw [hdecode]
  exact hcomment.evaluate_moved (isLineBreak_belowFirstLine bytes) m force file st st'

/-- The blank at the end of the header has two bytes in the text, and only one in the document. -/
theorem header_skipped_unclosed :
    (¬byteOrderMark <+: ofAscii "//charset:latin1" ++ 0xA0 :: ofAscii "\n[") ∧
    header? (ofAscii "//charset:latin1" ++ 0xA0 :: ofAscii "\n[") = some "latin1" ∧
    Charset.ofLabel? "latin1" = some .latin1 ∧
    ∃ text, Document.text none (ofAscii "//charset:latin1" ++ 0xA0 :: ofAscii "\n[") =
        .ok text ∧
      (Mode.list.evaluate .simple false ⟨text, none⟩ ()).1 =
        .error (.located (.unclosedListing .list ']') ⟨⟨text, none⟩, 19⟩) := by
  have unmarked : ¬byteOrderMark <+: ofAscii "//charset:latin1" ++ 0xA0 :: ofAscii "\n[" := by
    decide +kernel
  have headed : header? (ofAscii "//charset:latin1" ++ 0xA0 :: ofAscii "\n[") =
      some "latin1" := by
    decide +kernel
  have latin1 : Charset.ofLabel? "latin1" = some .latin1 := rfl
  have hbelow : belowFirstLine (ofAscii "//charset:latin1" ++ 0xA0 :: ofAscii "\n[") =
      ofAscii "\n[" := rfl
  have halone : (Mode.list.evaluate .simple false
      ⟨Charset.latin1.decode (ofAscii "\n["), none⟩ ()).1 =
      .error (.located (.unclosedListing .list ']')
        ⟨⟨Charset.latin1.decode (ofAscii "\n["), none⟩, 1⟩) := rfl
  obtain ⟨head, text, hsplit, htext, hsame⟩ := @header_skipped none _ _ unmarked headed latin1
  rw [hbelow] at hsplit hsame
  obtain rfl : ofAscii "//charset:latin1" ++ [0xA0] = head :=
    List.append_cancel_right ((List.append_assoc _ _ _).trans hsplit)
  refine ⟨unmarked, headed, latin1, text, htext, ?_⟩
  rw [hsame .list false none () (), halone]
  rfl

end Headed
end Document
end Cjson
