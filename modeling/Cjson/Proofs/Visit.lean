import Cjson.Proofs.Exactness
import Cjson.Proofs.Transfer

namespace Cjson

/-- What an environment is told, with the container as it is by then, and what it is asked. -/
inductive Notice where
  | notified (e : Event) (context : Context) (target : e.scope.Target)
  | resolved (function : String) (arguments : List Value) (context : Context)

/-- The environment with a list of what it was told and asked, the first of it at the front. -/
def Environment.noting {σ : Type} (env : Environment σ) : Environment (σ × List Notice) where
  resolve function arguments context t :=
    let answer := env.resolve function arguments context t.1
    (answer.1, answer.2, t.2 ++ [.resolved function arguments context])
  notify e context target t :=
    let answer := env.notify e context target t.1
    (answer.1, answer.2.1, answer.2.2, t.2 ++ [.notified e context target])

theorem Environment.Resolves.noting {σ : Type} {env : Environment σ}
    (henv : env.Resolves .call) : env.noting.Resolves .call where
  resolve function arguments context t := henv.resolve function arguments context t.1
  notify e context target t := by
    obtain ⟨st, hnotify⟩ := henv.notify e context target t.1
    exact ⟨(st, _), by simp only [Environment.noting, hnotify]; rfl⟩

/-- What is told about a scope that is entered at byte `first` and left at byte `last`, with
what is told in between. -/
def Scope.notices (source : Source) (scope : Scope) (first last : Nat) (target : scope.Target)
    (inner : List Notice) : List Notice :=
  .notified (.enter scope) ⟨source, first⟩ scope.empty :: inner ++
    [.notified (.leave scope) ⟨source, last⟩ target]

/-- A scope that was entered at byte `first` and left at byte `last`, what came of it, and the
scopes within it. -/
inductive Visit where
  | list (first last : Nat) (items : List Value) (inner : List Visit)
  | map (first last : Nat) (entries : Entries Value) (inner : List Visit)
  | call (first last : Nat) (function : String) (arguments : List Value) (inner : List Visit)
  | pair (first last : Nat) (key : String) (value : Value) (inner : List Visit)
  /-- A key without a value. -/
  | bare (offset : Nat) (key : String)

namespace Visit

mutual

/-- What an environment is told of it. It is asked for the value of a call behind the bracket
that closes the arguments. -/
def notices (source : Source) : Visit → List Notice
  | list first last items inner =>
    Scope.list.notices source first last items (allNotices source inner)
  | map first last entries inner =>
    Scope.map.notices source first last entries (allNotices source inner)
  | call first last function arguments inner =>
    (Scope.arguments function).notices source first last () (allNotices source inner) ++
      [.resolved function arguments ⟨source, last + 1⟩]
  | pair first last key _ inner =>
    (Scope.entry key).notices source first last () (allNotices source inner)
  | bare offset key => (Scope.entry key).notices source offset offset () []

def allNotices (source : Source) : List Visit → List Notice
  | [] => []
  | v :: vs => notices source v ++ allNotices source vs

end

/-- What a visit directly within a map makes of that map. -/
def into : Visit → Entries Value → Entries Value
  | pair _ _ key v _, m => m.put key v
  | bare _ key, m => m.put key (.boolean true)
  | map _ _ merged _, m => Entries.putAll merged m
  | list _ _ _ _, m | call _ _ _ _ _, m => m

def allInto (visits : List Visit) (m : Entries Value) : Entries Value :=
  visits.foldl (fun m v => v.into m) m

end Visit

namespace Source

variable (source : Source)

/-- The brackets are directly around what is between two offsets. -/
def Encloses (opening closing : Char) (first last : Nat) : Prop :=
  Text.slice? source.text (first - 1) first = some [opening] ∧
    Text.slice? source.text last (last + 1) = some [closing]

/-- What is between two offsets has the value on its own. -/
def Gives (first last : Nat) (v : Value) : Prop :=
  (evaluateFragment .simple false (.ofOffsets source first last) ()).1 = .ok v

/-- The text between two offsets is a list of the values. -/
def GivesItems (first last : Nat) (vs : List Value) : Prop :=
  ∃ s, Text.slice? source.text first last = some s ∧
    (evaluateList .simple false ⟨s, source.file⟩ ()).1 = .ok vs

end Source

namespace Visit

mutual

/-- What is between the positions of a visit is what it is about, and so it is with the visits
within it. A map is what they make of the empty one. -/
def Delimits (source : Source) : Visit → Prop
  | list first last items inner =>
    source.Encloses '[' ']' first last ∧ source.Gives (first - 1) (last + 1) (.list items) ∧
      AllDelimit source inner
  | map first last entries inner =>
    source.Encloses '\x7b' '\x7d' first last ∧
      source.Gives (first - 1) (last + 1) (.map entries) ∧
      entries = allInto inner [] ∧ AllDelimit source inner
  | call first last _ arguments inner =>
    source.Encloses '(' ')' first last ∧ source.GivesItems first last arguments ∧
      AllDelimit source inner
  | pair first last _ v inner => source.Gives first last v ∧ AllDelimit source inner
  | bare _ _ => True

def AllDelimit (source : Source) : List Visit → Prop
  | [] => True
  | v :: vs => Delimits source v ∧ AllDelimit source vs

end

variable {source : Source}

theorem allNotices_append (visits others : List Visit) :
    allNotices source (visits ++ others) =
      allNotices source visits ++ allNotices source others := by
  induction visits with
  | nil => rfl
  | cons v vs ih => rw [List.cons_append, allNotices, allNotices, ih, List.append_assoc]

theorem allDelimit_append {visits others : List Visit} (h : AllDelimit source visits)
    (h' : AllDelimit source others) : AllDelimit source (visits ++ others) := by
  induction visits with
  | nil => exact h'
  | cons v vs ih =>
    rw [AllDelimit] at h
    rw [List.cons_append, AllDelimit]
    exact ⟨h.1, ih h.2⟩

theorem allInto_append (visits others : List Visit) (m : Entries Value) :
    allInto (visits ++ others) m = allInto others (allInto visits m) :=
  List.foldl_append

end Visit

section Noted

variable {σ : Type} {source : Source}

/-- What the environment is told between two states are the visits, each of which delimits
what it is about. -/
structure Noted (source : Source) (st st' : σ × List Notice) (visits : List Visit) : Prop where
  notices : st'.2 = st.2 ++ Visit.allNotices source visits
  delimit : Visit.AllDelimit source visits

theorem Noted.refl (st : σ × List Notice) : Noted source st st [] :=
  ⟨(List.append_nil _).symm, trivial⟩

theorem Noted.trans {st st₁ st' : σ × List Notice} {visits others : List Visit}
    (h : Noted source st st₁ visits) (h' : Noted source st₁ st' others) :
    Noted source st st' (visits ++ others) := by
  refine ⟨?_, Visit.allDelimit_append h.delimit h'.delimit⟩
  rw [h'.notices, h.notices, Visit.allNotices_append, List.append_assoc]

theorem Noted.single {st st' : σ × List Notice} {visit : Visit}
    (h : st'.2 = st.2 ++ visit.notices source) (hvisit : visit.Delimits source) :
    Noted source st st' [visit] := by
  refine ⟨?_, hvisit, trivial⟩
  rw [h, Visit.allNotices, Visit.allNotices, List.append_nil]

end Noted

section Spans

variable {source : Source} {k k' : Cursor}

theorem Cursor.Passes.position_succ {c : Char} (h : k.Passes [c] k') (hc : c.utf8Size = 1) :
    k'.position = k.position + 1 := by
  rw [h.position, Text.size_cons, hc]
  rfl

/-- What is passed between two brackets is enclosed by them. -/
theorem Source.encloses_of_passes {opening closing : Char} (before : List Char)
    {s : List Char} {k₁ k₂ : Cursor} (h : k.Passes (before ++ [opening]) k₁) (hs : k₁.Passes s k₂)
    (h' : k₂.Passes [closing] k') (hopening : opening.utf8Size = 1)
    (hclosing : closing.utf8Size = 1) (hk : k.In source) :
    source.Encloses opening closing k₁.position k₂.position := by
  obtain ⟨k₀, hk₀, hopened⟩ := h.split
  have hslice := hopened.slice? (hk₀.In hk)
  have hslice' := h'.slice? (hs.In (h.In hk))
  rw [h'.position_succ hclosing] at hslice'
  refine ⟨?_, hslice'⟩
  rwa [hopened.position_succ hopening, Nat.add_sub_cancel, ← hopened.position_succ hopening]

/-- What is spelled between two cursors has its value there. -/
theorem Tree.Spelled.gives {t : Tree} {u : List Char} (ht : t.Spelled Word u)
    (h : k.Passes u k') (hk : k.In source) :
    source.Gives k.position k'.position (t.value false) := by
  obtain ⟨htext, hin⟩ := h.ofOffsets hk
  have hspells : (Fragment.ofOffsets source k.position k'.position).Spells t := by
    refine ⟨?_, hin⟩
    rwa [htext]
  obtain ⟨v, st, hrun, hv⟩ : ∃ v st, evaluateFragment .simple false
      (.ofOffsets source k.position k'.position) () = (.ok v, st) ∧ Reading .eager false t v :=
    evaluateFragment_ends (Environment.simple_follows ()) hspells rfl
  rw [Source.Gives, hrun, hv.eager]

/-- What is listed between two cursors has its values there. -/
theorem Listed.givesItems {ts : List Tree} {g u : List Char} {b : Bool} (hg : Gap b g)
    (hu : Listed (Tree.Spelled Word) ts u) (h : k.Passes (g ++ u) k') (hk : k.In source) :
    source.GivesItems k.position k'.position (Tree.values false ts) :=
  ⟨g ++ u, h.slice? hk, evaluateList_simple_iff.mpr
    ⟨ts, ⟨b, g, u, [], hg, hu, .inl ⟨rfl, .nil⟩, by simp⟩, rfl⟩⟩

end Spans
end Cjson
