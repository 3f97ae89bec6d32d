import Cjson.Proofs.Exactness
import Cjson.Proofs.Header
import Cjson.Proofs.Layout

namespace Cjson

namespace Document

/-- The encoding of a document, unless its header names one that there is not. -/
def charset? (bytes : List UInt8) : Option Charset :=
  match header? bytes with
  | none => some .utf8
  | some label => Charset.ofLabel? label

theorem text_eq_ok {name : Option String} {bytes : List UInt8} {s : List Char} :
    text name bytes = .ok s ↔
      ∃ charset, charset? bytes = some charset ∧ charset.decode bytes = s := by
  unfold text charset?
  cases header? bytes with
  | none => simp
  | some label =>
    cases hlabel : Charset.ofLabel? label with
    | none => simp [hlabel]
    | some charset => simp [hlabel]

/-- The header of a document is looked for behind the mark. -/
theorem header?_marked {bytes : List UInt8} (unmarked : ¬byteOrderMark <+: bytes) :
    header? (byteOrderMark ++ bytes) = header? bytes := by
  have hmarked : dropByteOrderMark (byteOrderMark ++ bytes) = bytes := rfl
  rw [header?, hmarked, header?, dropByteOrderMark_of_unmarked unmarked]

theorem charset?_marked {bytes : List UInt8} (unmarked : ¬byteOrderMark <+: bytes) :
    charset? (byteOrderMark ++ bytes) = charset? bytes := by
  rw [charset?, header?_marked unmarked, charset?]

theorem decode_utf8_marked (bytes : List UInt8) :
    Charset.utf8.decode (byteOrderMark ++ bytes) = '\ufeff' :: Charset.utf8.decode bytes := by
  have hdecode : ∀ bytes, Charset.utf8.decode bytes =
      Charset.Utf8.decoder.decodeFrom [] none bytes := fun _ => rfl
  rw [hdecode, hdecode, byteOrderMark, List.cons_append, List.cons_append, List.cons_append,
    Charset.Decoder.decodeFrom_cons, Charset.Decoder.decodeFrom_cons,
    Charset.Decoder.decodeFrom_cons]
  rfl

theorem decode_latin1_marked (bytes : List UInt8) :
    Charset.latin1.decode (byteOrderMark ++ bytes) =
      'ï' :: '»' :: '¿' :: Charset.latin1.decode bytes :=
  rfl

end Document

open Cjson.Action Eval

/-- The mark is a part of the first gap. -/
theorem layout_marked_iff {α : Type} {P : α → List Char → Prop}
    (hP : ∀ a s, P a s → Text.Opens s) {as : List α} {text : List Char} :
    Layout P as ('\ufeff' :: text) ↔ Layout P as text := by
  rw [← inside_text_iff hP (p := 0), ← inside_text_iff hP (p := 0 + '\ufeff'.utf8Size)]
  have hblank : Character.isBlank '\ufeff' = true := by decide +kernel
  have hgap : Scan.gap ⟨0, '\ufeff' :: text⟩ = Scan.gap ⟨0 + '\ufeff'.utf8Size, text⟩ := by
    rw [Scan.gap, Scan.gapFrom]
    · rw [if_pos hblank]
      rfl
    · simp
    · simp
  simp only [Inside, hgap]

section Misread

variable {σ : Type} {text : List Char}

/-- What the three bytes of the mark are in Latin-1. -/
def misread (text : List Char) : List Char :=
  'ï' :: '»' :: '¿' :: text

theorem misread_opens (text : List Char) : Text.Opens (misread text) :=
  ⟨'ï', _, rfl, by decide +kernel⟩

/-- Of what the mark is misread as, the first character is a word, and the second one is out
of place behind it. -/
theorem misread_separator (noColon : Option ColonFault) (text : List Char) :
    Scan.separator none noColon ⟨2, '»' :: '¿' :: text⟩ =
      (.error (.problem (.misplaced '»') 2), ⟨2, '»' :: '¿' :: text⟩) := by
  have hsolid : Solid ('»' :: '¿' :: text) := .cons rfl (by simp)
  have hgap : Scan.gap ⟨2, '»' :: '¿' :: text⟩ = (.ok false, ⟨2, '»' :: '¿' :: text⟩) :=
    Scan.gapFrom_solid hsolid
  rw [Scan.separator, bind_ok (Scan.position_apply _), bind_ok hgap,
    bind_ok (Scan.position_apply _), bind_ok (Scan.peek_apply _)]
  rfl

theorem misread_word (source : Source) (role : Role) (text : List Char) (st : σ) :
    ∃ v, anyExpression .simple source role ⟨⟨0, misread text⟩, st⟩ =
      (.ok v, ⟨⟨2, '»' :: '¿' :: text⟩, st⟩) ∧ (role = .key → v = .string "ï") := by
  have hword : Word ['ï'] := .of_all (by decide +kernel)
  have hends : WordEnds ('»' :: '¿' :: text) := by
    have hsolid : Solid ('»' :: '¿' :: text) := .cons rfl (by simp)
    refine ⟨?_, false, [], _, rfl, Gap.nil.before hsolid, by simp⟩
    intro c hc
    cases hc
    decide +kernel
  have hpasses : Cursor.Passes ⟨0, misread text⟩ ['ï'] ⟨2, '»' :: '¿' :: text⟩ := ⟨rfl, rfl⟩
  refine ⟨_, expression_of_word .simple source 'ï' _ role hword hpasses hends st, ?_⟩
  rintro rfl
  rfl

theorem misread_list_fails (force : Bool) (file : Option String) (st : σ) :
    (evaluateList .simple force ⟨misread text, file⟩ st).1 =
      .error (.located (.misplaced '»') ⟨⟨misread text, file⟩, 2⟩) := by
  obtain ⟨v, hword, -⟩ := misread_word ⟨misread text, file⟩ (.value force) text st
  have hrun : openList .simple ⟨misread text, file⟩ force ⟨⟨0, misread text⟩, st⟩ =
      (.error (.located (.misplaced '»') ⟨⟨misread text, file⟩, 2⟩),
        ⟨⟨2, '»' :: '¿' :: text⟩, st⟩) :=
    openList_error (misread_opens text) hword (misread_separator _ text)
  rw [evaluateList, run]
  exact congrArg Prod.fst hrun

theorem misread_map_fails (force : Bool) (file : Option String) (st : σ) :
    (evaluateMap .simple force ⟨misread text, file⟩ st).1 =
      .error (.located (.misplaced '»') ⟨⟨misread text, file⟩, 2⟩) := by
  obtain ⟨v, hword, hv⟩ := misread_word ⟨misread text, file⟩ .key text st
  obtain rfl := hv rfl
  have hkey : keyOrCall .simple ⟨misread text, file⟩
      (anyExpression .simple ⟨misread text, file⟩ .key) ⟨⟨0, misread text⟩, st⟩ =
      (.ok (.string "ï", false), ⟨⟨2, '»' :: '¿' :: text⟩, st⟩) := by
    rw [keyOrCall, bind_ok (position_apply _), bind_ok hword]
    rfl
  have hmap : mapBody .simple ⟨misread text, file⟩
      (anyExpression .simple ⟨misread text, file⟩ .key)
      (anyExpression .simple ⟨misread text, file⟩ (.value force)) none
        ([], ⟨⟨0, misread text⟩, st⟩) =
      (.error (.located (.misplaced '»') ⟨⟨misread text, file⟩, 2⟩),
        ([], ⟨⟨2, '»' :: '¿' :: text⟩, st⟩)) := by
    rw [mapBody_eq]
    refine listing_error .ofText (misread_opens text) ?_
    rw [mapEntry, bind_ok (inside_ok (position_apply _) _), bind_ok (inside_ok hkey _)]
    exact bind_error (inside_error (scan_error (misread_separator _ text) st) _)
  have hrun : openMap .simple ⟨misread text, file⟩ force ⟨⟨0, misread text⟩, st⟩ =
      (.error (.located (.misplaced '»') ⟨⟨misread text, file⟩, 2⟩),
        ⟨⟨2, '»' :: '¿' :: text⟩, st⟩) := by
    rw [openMap, bind_ok (position_apply _)]
    exact bind_error (within_simple_error hmap)
  rw [evaluateMap, run]
  exact congrArg Prod.fst hrun

end Misread

section Marked

variable {name : Option String} {bytes : List UInt8} {text : List Char}

/-- A document that can be read can be read with the mark in front of it as well. In UTF-8
the mark changes no result. In Latin-1 it is not taken for a mark, and neither a map nor a
list is read behind it. -/
theorem Document.byteOrderMark_kept (unmarked : ¬byteOrderMark <+: bytes)
    (h : Document.text name bytes = .ok text) :
    ∃ marked, Document.text name (byteOrderMark ++ bytes) = .ok marked ∧
      ∀ {σ : Type} (force : Bool) (file : Option String) (st : σ),
        (charset? bytes = some .utf8 →
          (∀ entries, (evaluateMap .simple force ⟨marked, file⟩ st).1 = .ok entries ↔
            (evaluateMap .simple force ⟨text, file⟩ st).1 = .ok entries) ∧
          (∀ items, (evaluateList .simple force ⟨marked, file⟩ st).1 = .ok items ↔
            (evaluateList .simple force ⟨text, file⟩ st).1 = .ok items)) ∧
        (charset? bytes = some .latin1 →
          (evaluateMap .simple force ⟨marked, file⟩ st).1 =
            .error (.located (.misplaced '»') ⟨⟨marked, file⟩, 2⟩) ∧
          (evaluateList .simple force ⟨marked, file⟩ st).1 =
            .error (.located (.misplaced '»') ⟨⟨marked, file⟩, 2⟩)) := by
  obtain ⟨charset, hcharset, rfl⟩ := text_eq_ok.mp h
  have hmarked := (charset?_marked unmarked).trans hcharset
  refine ⟨_, text_eq_ok.mpr ⟨charset, hmarked, rfl⟩, ?_⟩
  intro σ force file st
  constructor
  · intro hutf8
    obtain rfl : charset = .utf8 := Option.some.inj (hcharset.symm.trans hutf8)
    rw [decode_utf8_marked]
    constructor
    · intro entries
      simp only [evaluateMap_simple_iff,
        layout_marked_iff (fun _ _ h => Entry.Spelled.opens h)]
    · intro items
      simp only [evaluateList_simple_iff,
        layout_marked_iff (fun _ _ h => Tree.Spelled.opens h)]
  · intro hlatin1
    obtain rfl : charset = .latin1 := Option.some.inj (hcharset.symm.trans hlatin1)
    exact ⟨misread_map_fails force file st, misread_list_fails force file st⟩

end Marked

/-- The bytes of a text in ASCII. -/
def Document.ofAscii (s : String) : List UInt8 :=
  s.toList.map fun c => UInt8.ofNat c.toNat

/-- A key below a header. -/
theorem labelled_layout (label : List Char)
    (inLine : ∀ c ∈ label, Character.isLineBreak c = false) :
    Layout (Entry.Spelled Word) [.bare "a"] ('/' :: '/' :: label ++ '\n' :: ['a']) := by
  have ha : Word ['a'] := .of_all rfl
  exact ⟨_, '/' :: '/' :: label ++ '\n' :: [], ['a'], [], .lineComment inLine rfl .nil,
    .last (Entry.Spelled.bare (.word ha)) .nil, .inl ⟨rfl, .nil⟩, by simp⟩

theorem Document.byteOrderMark_kept_utf8 :
    ∃ marked,
      Document.text none (byteOrderMark ++ ofAscii "//charset:utf-8\na") = .ok marked ∧
      (evaluateMap .simple false ⟨marked, none⟩ ()).1 = .ok [("a", .boolean true)] := by
  have hcharset : charset? (ofAscii "//charset:utf-8\na") = some .utf8 := rfl
  have hdecode : Charset.utf8.decode (ofAscii "//charset:utf-8\na") =
      "//charset:utf-8\na".toList := by decide +kernel
  have htext : text none (ofAscii "//charset:utf-8\na") = .ok "//charset:utf-8\na".toList :=
    text_eq_ok.mpr ⟨.utf8, hcharset, hdecode⟩
  obtain ⟨marked, hmarked, hsame⟩ := byteOrderMark_kept (by decide +kernel) htext
  refine ⟨marked, hmarked, (((hsame false none ()).1 hcharset).1 _).mpr ?_⟩
  exact evaluateMap_simple_iff.mpr
    ⟨_, labelled_layout "charset:utf-8".toList (by simp [Character.isLineBreak]), rfl⟩

/-- The mark makes a map in Latin-1 unreadable. -/
theorem Document.byteOrderMark_latin1 :
    ¬byteOrderMark <+: ofAscii "//charset:latin1\na" ∧
    ∃ text marked, Document.text none (ofAscii "//charset:latin1\na") = .ok text ∧
      (evaluateMap .simple false ⟨text, none⟩ ()).1 = .ok [("a", .boolean true)] ∧
      Document.text none (byteOrderMark ++ ofAscii "//charset:latin1\na") = .ok marked ∧
      (evaluateMap .simple false ⟨marked, none⟩ ()).1 ≠ .ok [("a", .boolean true)] := by
  have unmarked : ¬byteOrderMark <+: ofAscii "//charset:latin1\na" := by decide +kernel
  have hcharset : charset? (ofAscii "//charset:latin1\na") = some .latin1 := rfl
  have hdecode : Charset.latin1.decode (ofAscii "//charset:latin1\na") =
      "//charset:latin1\na".toList := by decide +kernel
  refine ⟨unmarked, _, _, text_eq_ok.mpr ⟨_, hcharset, hdecode⟩, ?_,
    text_eq_ok.mpr ⟨_, (charset?_marked unmarked).trans hcharset, rfl⟩, ?_⟩
  · exact evaluateMap_simple_iff.mpr
      ⟨_, labelled_layout "charset:latin1".toList (by simp [Character.isLineBreak]), rfl⟩
  · rw [decode_latin1_marked, hdecode]
    intro h
    cases (misread_map_fails false none ()).symm.trans h

end Cjson
