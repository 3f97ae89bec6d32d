import Cjson.Proofs.Safety
import Cjson.Proofs.Transfer

namespace Cjson

open Cjson.Action Cursor

/-- Offsets between characters are those of the fragment itself. -/
theorem Fragment.ofOffsets_of_slice? {source : Source} {first last : Nat} {span : List Char}
    (h : Text.slice? source.text first last = some span) :
    Fragment.ofOffsets source first last = ⟨source, first, last⟩ ∧
      (Fragment.mk source first last).text = span := by
  unfold Text.slice? at h
  split at h
  · rename_i hbounds
    obtain ⟨hle, hfirst, hlast⟩ := hbounds
    refine ⟨?_, Option.some.inj h⟩
    unfold Text.Boundary at hfirst hlast
    simp only [Fragment.ofOffsets, hlast, Nat.min_eq_left hle, hfirst]
  · cases h

section Bytes

/-- The failure, with its text `n` bytes further on. -/
def Bytewise.Failure.moved (n : Nat) : Bytewise.Failure → Bytewise.Failure
  | fault f => .fault (f.moved n)
  | panic => .panic

variable {n : Nat} {start k k' : Cursor}

theorem Cursor.Passes.moved {s : List Char} (h : k.Passes s k') (n : Nat) :
    (k.moved n).Passes s (k'.moved n) := by
  refine ⟨h.rest, ?_⟩
  simp only [moved_position, h.position, Nat.add_right_comm]

theorem Cursor.Reaches.moved (h : k.Reaches k') (n : Nat) :
    (k.moved n).Reaches (k'.moved n) := by
  obtain ⟨s, hs⟩ := h
  exact ⟨s, hs.moved n⟩

theorem Look.Ready.moved {look : Look} (h : look.Ready start k) (n : Nat) :
    look.Ready (start.moved n) (k.moved n) := by
  cases look with
  | skimListing terminator =>
    obtain ⟨k₀, c, t, hk₀, hr, hc, rfl⟩ := h
    exact ⟨k₀.moved n, c, t, hk₀.moved n, hr, hc, (next_moved n k₀).symm⟩
  | advance | quoted _ | raw _ | skimExpression | gap | peek | separator _ _ | wordOrCall =>
    exact h

theorem Look.mirrored {look : Look} (ready : look.Ready start k) :
    Scan.Mirrored n look.scan look.scan k := by
  cases look with
  | gap => exact Scan.mirrored_gap
  | peek => exact Scan.mirrored_peek
  | advance => exact Scan.mirrored_advance
  | separator terminator noColon => exact Scan.mirrored_separator terminator noColon
  | quoted q => exact Scan.mirrored_quoted q
  | raw q => exact Scan.mirrored_raw q
  | wordOrCall => exact Scan.mirrored_wordOrCall
  | skimExpression => exact Scan.mirrored_skimExpression
  | skimListing terminator =>
    obtain ⟨k₀, c, t, -, hr, -, rfl⟩ := ready
    refine Scan.mirrored_skimListing (fun _ => Scan.mirrored_skimExpression) terminator ?_
    exact next_position_pos (hr ▸ List.cons_ne_nil _ _)

/-- The bytes around the slice are the same to a scan as if there were none. -/
theorem Look.bytewise_moved {s span : List Char} {first last : Nat}
    (h : Text.slice? s first last = some span) {look : Look}
    (reached : Reaches ⟨0, span⟩ k) (ready : look.Ready ⟨0, span⟩ k) :
    look.bytewise ⟨s, last⟩ (k.position + first) =
      ((look.bytewise (.whole span) k.position).1.mapError (Bytewise.Failure.moved first),
        (look.bytewise (.whole span) k.position).2 + first) := by
  have halone := (Look.follows ⟨Extent.Shows.ofSource ⟨span, none⟩, reached⟩ ready).agrees
  obtain ⟨before, behind, htext, hfirst, hlast⟩ := Text.of_slice? h
  have hstart : Cursor.moved first ⟨0, span⟩ = ⟨first, span⟩ := by
    rw [Cursor.moved, Nat.zero_add]
  have hreached := reached.moved first
  have hready := ready.moved first
  rw [hstart] at hreached hready
  have hwithin := (Look.follows (e := ⟨s, last⟩)
    ⟨⟨before, behind, htext, hfirst, hlast⟩, hreached⟩ hready).agrees
  obtain ⟨r, _, k₁, hx, hy, rfl⟩ := Look.mirrored (n := first) ready
  rw [moved_position, hx] at hwithin
  rw [hy] at halone
  rw [halone, hwithin]
  cases r <;> rfl

end Bytes

section Fragments

variable {σ τ : Type}

theorem evaluateFragment_of_slice? {env : Environment σ} {source : Source} {first last : Nat}
    {span : List Char} (h : Text.slice? source.text first last = some span) (force : Bool)
    (st : σ) :
    evaluateFragment env force (.ofOffsets source first last) st =
      (Eval.single env source force).run ⟨first, span⟩ st := by
  obtain ⟨hfragment, hspan⟩ := Fragment.ofOffsets_of_slice? h
  rw [evaluateFragment, hfragment, ofFragment, hspan]

/-- The place of the text shows in errors only, and the source in nothing else either. -/
theorem Eval.single_run_moved (source source' : Source) (n : Nat) (force : Bool) (k : Cursor)
    (st : σ) (st' : τ) :
    ((single .simple source force).run (k.moved n) st).1 =
      ((single .simple source' force).run k st').1.mapError (EvaluationError.moved source n) := by
  have hmirrored : Mirrored source n (single (.simple : Environment σ) source force)
      (single (.simple : Environment τ) source' force) k :=
    mirrored_single Environment.simple_resolves force
  exact hmirrored.run_moved st st'

/-- A fragment evaluates as its span does where that is all of a text: to the same value, or
with the same error as many bytes further on as the span is. What else there is in the source
makes no difference, be it to the result or to any scan of its bytes. -/
theorem fragment_isolated {source : Source} {first last : Nat} {span : List Char}
    (h : Text.slice? source.text first last = some span) (force : Bool) (st : σ) (st' : τ) :
    (evaluateFragment .simple force (.ofOffsets source first last) st).1 =
      (evaluate .simple force ⟨span, source.file⟩ st').1.mapError
        (EvaluationError.moved source first) ∧
    (∀ source' : Source, Text.slice? source'.text first last = some span →
      (evaluateFragment .simple force (.ofOffsets source' first last) st).1 =
        (evaluateFragment .simple force (.ofOffsets source first last) st).1.mapError
          (EvaluationError.moved source' 0)) ∧
    ∀ (look : Look) (k : Cursor), Reaches ⟨0, span⟩ k → look.Ready ⟨0, span⟩ k →
      look.bytewise ⟨source.text, last⟩ (k.position + first) =
        ((look.bytewise (.whole span) k.position).1.mapError (Bytewise.Failure.moved first),
          (look.bytewise (.whole span) k.position).2 + first) := by
  refine ⟨?_, ?_, fun look k => Look.bytewise_moved h⟩
  · have hstart : (⟨first, span⟩ : Cursor) = Cursor.moved first ⟨0, span⟩ := by
      rw [moved, Nat.zero_add]
    rw [evaluateFragment_of_slice? h, hstart]
    exact Eval.single_run_moved source ⟨span, source.file⟩ first force ⟨0, span⟩ st st'
  · intro source' h'
    rw [evaluateFragment_of_slice? h', evaluateFragment_of_slice? h]
    exact Eval.single_run_moved source' source 0 force ⟨first, span⟩ st st

/-- The quote that would close the literal is behind the fragment. -/
theorem fragment_isolated_quote :
    Text.slice? "é'a'".toList 2 4 = some "'a".toList ∧
    (evaluateFragment .simple false (.ofOffsets ⟨"é'a'".toList, none⟩ 2 4) ()).1 =
      .error (.located (.unclosedString '\'') ⟨⟨"é'a'".toList, none⟩, 2⟩) := by
  have halone : (evaluate .simple false ⟨"'a".toList, none⟩ ()).1 =
      .error (.located (.unclosedString '\'') ⟨⟨"'a".toList, none⟩, 0⟩) := rfl
  have h : Text.slice? (Source.mk "é'a'".toList none).text 2 4 = some "'a".toList := by
    decide +kernel
  refine ⟨h, ?_⟩
  rw [(fragment_isolated h false () ()).1, halone]
  rfl

end Fragments
end Cjson
