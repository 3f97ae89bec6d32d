import Cjson.Proofs.Forward

namespace Cjson

namespace Text

/-- A character of the text begins at byte `n`, or the text ends there. -/
def Boundary (s : List Char) (n : Nat) : Prop :=
  size (takeBytes n s) = n

instance (s : List Char) (n : Nat) : Decidable (Boundary s n) :=
  inferInstanceAs (Decidable (_ = _))

/-- The text between two offsets, unless one of them is in the middle of a character or
behind the text, or they are in the wrong order. -/
def slice? (s : List Char) (first last : Nat) : Option (List Char) :=
  if first ≤ last ∧ Boundary s first ∧ Boundary s last then
    some (takeBytes (last - first) (dropBytes first s))
  else none

/-- The offset at which a pattern is found for the first time. -/
def find? (pattern : List Char) : List Char → Option Nat
  | [] => if pattern = [] then some 0 else none
  | c :: s =>
    if pattern.isPrefixOf (c :: s) then some 0
    else (find? pattern s).map (c.utf8Size + ·)

/-- The offset of the first character with `p`. -/
def findWhere? (p : Char → Bool) : List Char → Option Nat
  | [] => none
  | c :: s => if p c then some 0 else (findWhere? p s).map (c.utf8Size + ·)

theorem boundary_append (s t : List Char) : Boundary (s ++ t) (size s) := by
  rw [Boundary, takeBytes_append]

theorem slice?_append (s t u : List Char) :
    slice? (s ++ (t ++ u)) (size s) (size s + size t) = some t := by
  have hlast : Boundary (s ++ (t ++ u)) (size s + size t) := by
    rw [← List.append_assoc, ← size_append]
    exact boundary_append _ _
  rw [slice?, if_pos ⟨Nat.le_add_right _ _, boundary_append _ _, hlast⟩, dropBytes_append,
    Nat.add_sub_cancel_left, takeBytes_append]

/-- The second byte of a character is no place to cut. -/
example : slice? ['é', 'a'] 1 3 = none := by decide

theorem takeBytes_add (s t : List Char) (n : Nat) :
    takeBytes (size s + n) (s ++ t) = s ++ takeBytes n t := by
  induction s with
  | nil => simp
  | cons c s ih =>
    have hle : c.utf8Size ≤ c.utf8Size + size s + n := by omega
    have hsub : c.utf8Size + size s + n - c.utf8Size = size s + n := by omega
    rw [List.cons_append, size_cons, takeBytes, if_pos hle, hsub, ih]
    rfl

theorem boundary_takeBytes (n : Nat) (s : List Char) : Boundary s (size (takeBytes n s)) := by
  have := boundary_append (takeBytes n s) (dropBytes n s)
  rwa [takeBytes_append_dropBytes] at this

/-- A slice stands in the text between its offsets. -/
theorem of_slice? {s t : List Char} {first last : Nat} (h : slice? s first last = some t) :
    ∃ before behind, s = before ++ (t ++ behind) ∧ first = size before ∧
      last = size before + size t := by
  unfold slice? at h
  split at h
  · rename_i hbounds
    obtain ⟨hle, hfirst, hlast⟩ := hbounds
    cases h
    have hs := takeBytes_append_dropBytes first s
    refine ⟨takeBytes first s, dropBytes (last - first) (dropBytes first s), ?_, hfirst.symm, ?_⟩
    · rw [takeBytes_append_dropBytes, hs]
    · have htake := takeBytes_add (takeBytes first s) (dropBytes first s) (last - first)
      rw [hs, hfirst, Nat.add_sub_cancel' hle] at htake
      rw [← size_append, ← htake, hlast]
  · cases h

theorem find?_cons_of_ne {q c : Char} (h : c ≠ q) (s : List Char) :
    find? [q] (c :: s) = (find? [q] s).map (c.utf8Size + ·) := by
  rw [find?, if_neg (by simpa using Ne.symm h)]

theorem find?_eq_none {q : Char} {s : List Char} (h : ∀ c ∈ s, c ≠ q) : find? [q] s = none := by
  induction s with
  | nil => rfl
  | cons c s ih =>
    rw [find?_cons_of_ne (h c (by simp)), ih fun d hd => h d (by simp [hd])]
    rfl

/-- A character is found behind the others that come first. -/
theorem find?_append {q : Char} {s : List Char} (h : ∀ c ∈ s, c ≠ q) (t : List Char) :
    find? [q] (s ++ q :: t) = some (size s) := by
  induction s with
  | nil => simp [find?]
  | cons c s ih =>
    rw [List.cons_append, find?_cons_of_ne (h c (by simp)), ih fun d hd => h d (by simp [hd])]
    rfl

theorem findWhere?_eq_none {p : Char → Bool} {s : List Char} (h : findWhere? p s = none) :
    ∀ c ∈ s, p c = false := by
  induction s with
  | nil => simp
  | cons c s ih =>
    rw [findWhere?] at h
    split at h
    · cases h
    · rename_i hc
      simp only [Option.map_eq_none_iff] at h
      exact List.forall_mem_cons.mpr ⟨by simpa using hc, ih h⟩

theorem findWhere?_eq_some {p : Char → Bool} {s : List Char} {n : Nat}
    (h : findWhere? p s = some n) :
    ∃ before c behind, s = before ++ c :: behind ∧ (∀ d ∈ before, p d = false) ∧
      p c = true ∧ n = size before := by
  induction s generalizing n with
  | nil => cases h
  | cons c s ih =>
    rw [findWhere?] at h
    split at h
    · rename_i hc
      cases h
      exact ⟨[], c, s, rfl, by simp, hc, rfl⟩
    · rename_i hc
      obtain ⟨m, hm, rfl⟩ := Option.map_eq_some_iff.mp h
      obtain ⟨before, d, behind, rfl, hbefore, hd, rfl⟩ := ih hm
      exact ⟨c :: before, d, behind, rfl,
        List.forall_mem_cons.mpr ⟨by simpa using hc, hbefore⟩, hd, rfl⟩

end Text

/-- A text, of which a session may look at what is in front of byte `stop`. -/
structure Extent where
  text : List Char
  stop : Nat

namespace Extent

/-- All of a text. -/
def whole (s : List Char) : Extent :=
  ⟨s, Text.size s⟩

variable (e : Extent)

/-- What a session has in front of it from byte `offset` on. -/
def rest? (offset : Nat) : Option (List Char) :=
  Text.slice? e.text offset e.stop

def charAt? (offset : Nat) : Option Char :=
  (e.rest? offset).bind List.head?

/-- The cursor stands in the text, and has what it may look at in front of it. -/
def Shows (k : Cursor) : Prop :=
  ∃ before behind, e.text = before ++ (k.rest ++ behind) ∧ k.position = Text.size before ∧
    e.stop = Text.size before + Text.size k.rest

/-- A session that begins at `start` has got to `k`. -/
structure Stands (start k : Cursor) : Prop where
  shows : e.Shows start
  reached : start.Reaches k

/-- The session may stand at the byte: it is from `first` on, not behind the end, and not in
the middle of a character. -/
structure Admits (first offset : Nat) : Prop where
  first_le : first ≤ offset
  le_stop : offset ≤ e.stop
  boundary : Text.Boundary e.text offset

section Shows

variable {e : Extent} {start k k' : Cursor} {s : List Char}

theorem Shows.passes (h : e.Shows k) (hk : k.Passes s k') : e.Shows k' := by
  obtain ⟨before, behind, htext, hposition, hstop⟩ := h
  refine ⟨before ++ s, behind, ?_, ?_, ?_⟩
  · rw [htext, hk.rest, List.append_assoc, List.append_assoc]
  · rw [hk.position, hposition, Text.size_append]
  · rw [hstop, hk.rest, Text.size_append, Text.size_append, Nat.add_assoc]

/-- What a cursor passes is the slice between where it was and where it gets. -/
theorem Shows.slice? (h : e.Shows k) (hk : k.Passes s k') :
    Text.slice? e.text k.position k'.position = some s := by
  obtain ⟨before, behind, htext, hposition, -⟩ := h
  rw [hk.position, hposition, htext, hk.rest, List.append_assoc]
  exact Text.slice?_append before s _

theorem Shows.rest? (h : e.Shows k) : e.rest? k.position = some k.rest := by
  obtain ⟨before, behind, htext, hposition, hstop⟩ := h
  rw [Extent.rest?, hposition, hstop, htext]
  exact Text.slice?_append before k.rest behind

theorem Shows.charAt? (h : e.Shows k) : e.charAt? k.position = k.rest.head? := by
  rw [Extent.charAt?, h.rest?]
  rfl

/-- The character behind one of a single byte. -/
theorem Shows.charAt?_second (h : e.Shows k) {c : Char} {t : List Char}
    (hr : k.rest = c :: t) (hc : c.utf8Size = 1) : e.charAt? (k.position + 1) = t.head? := by
  obtain ⟨hnext, ht⟩ := Cursor.next_of_rest hr
  have hposition : k.next.position = k.position + 1 := by
    rw [hnext.position, Text.size_cons, hc]
    rfl
  rw [← hposition, (h.passes hnext).charAt?, ht]

theorem Shows.boundary (h : e.Shows k) : Text.Boundary e.text k.position := by
  obtain ⟨before, behind, htext, hposition, -⟩ := h
  rw [htext, hposition]
  exact Text.boundary_append _ _

theorem Shows.le_stop (h : e.Shows k) : k.position ≤ e.stop := by
  obtain ⟨before, behind, -, hposition, hstop⟩ := h
  omega

theorem Shows.stop_eq (h : e.Shows k) : e.stop = k.position + Text.size k.rest := by
  obtain ⟨before, behind, -, hposition, hstop⟩ := h
  omega

theorem Stands.forward (h : e.Stands start k) (hk : k.Reaches k') : e.Stands start k' :=
  ⟨h.shows, h.reached.trans hk⟩

theorem Stands.passes (h : e.Stands start k) (hk : k.Passes s k') : e.Stands start k' :=
  h.forward ⟨s, hk⟩

theorem Stands.here (h : e.Stands start k) : e.Shows k := by
  obtain ⟨hstart, s, hk⟩ := h
  exact hstart.passes hk

theorem Shows.ofSource (source : Source) :
    (whole source.text).Shows (.ofSource source) :=
  ⟨[], [], by simp [whole, Cursor.ofSource], rfl, by simp [whole, Cursor.ofSource]⟩

/-- Whatever the offsets of a fragment are, it is a slice of its source. -/
theorem Shows.ofFragment (source : Source) (first last : Nat) :
    (Extent.mk source.text (Fragment.ofOffsets source first last).stop).Shows
      (.ofFragment (.ofOffsets source first last)) := by
  have hslice : Text.slice? source.text (Fragment.ofOffsets source first last).start
      (Fragment.ofOffsets source first last).stop =
        some (Fragment.ofOffsets source first last).text :=
    if_pos ⟨Fragment.ofOffsets_start_le_stop source first last, Text.boundary_takeBytes _ _,
      Text.boundary_takeBytes _ _⟩
  exact Text.of_slice? hslice

end Shows
end Extent

/-- What is between two cursors is between their offsets. -/
theorem Cursor.Passes.slice? {source : Source} {k k' : Cursor} {s : List Char}
    (h : k.Passes s k') (hk : k.In source) :
    Text.slice? source.text k.position k'.position = some s := by
  obtain ⟨before, behind, htext, hp⟩ := hk
  rw [h.position, hp, htext, h.rest, List.append_assoc, List.append_assoc]
  exact Text.slice?_append before s _

/-- Whatever the offsets of a fragment are, it is a span of its source. -/
theorem Cursor.In.ofFragment (source : Source) (first last : Nat) :
    (Cursor.ofFragment (.ofOffsets source first last)).In source := by
  obtain ⟨before, behind, htext, hposition, -⟩ := Extent.Shows.ofFragment source first last
  exact ⟨before, behind, htext.trans (List.append_assoc _ _ _).symm, hposition⟩

end Cjson
