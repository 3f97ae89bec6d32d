namespace Cjson

/-- Entries in the order in which their keys first came up. -/
abbrev Entries (α : Type) := List (String × α)

namespace Entries

variable {α : Type}

/-- A key that is there keeps its place and takes the new value; a new one goes to the end. -/
def put (key : String) (a : α) : Entries α → Entries α
  | [] => [(key, a)]
  | (k, b) :: rest => if k = key then (k, a) :: rest else (k, b) :: put key a rest

def putAll (new entries : Entries α) : Entries α :=
  new.foldl (fun es e => put e.1 e.2 es) entries

def keys (entries : Entries α) : List String :=
  entries.map Prod.fst

theorem keys_put (key : String) (a : α) (entries : Entries α) :
    keys (put key a entries) =
      if key ∈ keys entries then keys entries else keys entries ++ [key] := by
  induction entries with
  | nil => simp [put, keys]
  | cons e rest ih =>
    obtain ⟨k, b⟩ := e
    by_cases hk : k = key
    · simp [put, keys, hk]
    · simp only [keys, List.map_cons, List.mem_cons] at ih ⊢
      simp only [put, hk, if_false, List.map_cons, ih, Ne.symm hk, false_or]
      split <;> rename_i h <;> simp [h]

theorem put_of_not_mem {key : String} {a : α} {entries : Entries α}
    (h : key ∉ keys entries) : put key a entries = entries ++ [(key, a)] := by
  induction entries with
  | nil => rfl
  | cons e rest ih =>
    simp only [keys, List.map_cons, List.mem_cons, not_or] at h ih
    rw [put, if_neg (Ne.symm h.1), ih h.2, List.cons_append]

theorem ne_of_not_mem {key : String} {entries : Entries α} {e : String × α}
    (h : key ∉ keys entries) (he : e ∈ entries) : e.1 ≠ key := by
  intro hkey
  exact h (hkey ▸ List.mem_map_of_mem he)

theorem lookup_of_not_mem {key : String} {entries : Entries α} (h : key ∉ keys entries) :
    entries.lookup key = none := by
  rw [List.lookup_eq_none_iff]
  intro e he
  exact bne_iff_ne.mpr (Ne.symm (ne_of_not_mem h he))

theorem lookup_of_mem {entries : Entries α} {e : String × α} (unique : (keys entries).Nodup)
    (he : e ∈ entries) : entries.lookup e.1 = some e.2 := by
  induction entries with
  | nil => cases he
  | cons first rest ih =>
    obtain ⟨k, b⟩ := first
    obtain ⟨hfirst, unique⟩ : k ∉ keys rest ∧ (keys rest).Nodup := List.nodup_cons.mp unique
    rcases List.mem_cons.mp he with rfl | he
    · simp
    · rw [List.lookup_cons, beq_false_of_ne (ne_of_not_mem hfirst he)]
      exact ih unique he

theorem lookup_put_self (key : String) (a : α) (entries : Entries α) :
    (put key a entries).lookup key = some a := by
  induction entries with
  | nil => simp [put]
  | cons e rest ih =>
    obtain ⟨k, b⟩ := e
    by_cases hk : k = key
    · simp [put, hk]
    · have hn : (key == k) = false := beq_false_of_ne (Ne.symm hk)
      simp [put, hk, List.lookup_cons, hn, ih]

theorem lookup_put_of_ne {key other : String} {a : α} {entries : Entries α}
    (h : other ≠ key) : (put key a entries).lookup other = entries.lookup other := by
  induction entries with
  | nil => simp [put, List.lookup_cons, beq_false_of_ne h]
  | cons e rest ih =>
    obtain ⟨k, b⟩ := e
    by_cases hk : k = key
    · subst hk
      simp [put, List.lookup_cons, beq_false_of_ne h]
    · simp [put, hk, List.lookup_cons, ih]

/-- Putting keeps every key unique. -/
theorem nodup_keys_put {key : String} {a : α} {entries : Entries α}
    (h : (keys entries).Nodup) : (keys (put key a entries)).Nodup := by
  rw [keys_put]
  split
  · exact h
  · rename_i hk
    exact List.nodup_append.mpr ⟨h, by simp, by
      intro x hx y hy
      rw [List.mem_singleton] at hy
      rintro rfl
      exact hk (hy ▸ hx)⟩

theorem nodup_keys_putAll {new entries : Entries α} (h : (keys entries).Nodup) :
    (keys (putAll new entries)).Nodup := by
  induction new generalizing entries with
  | nil => exact h
  | cons e rest ih => exact ih (nodup_keys_put h)

theorem put_all {P : α → Prop} {key : String} {a : α} {entries : Entries α} (ha : P a)
    (hentries : ∀ e ∈ entries, P e.2) : ∀ e ∈ put key a entries, P e.2 := by
  induction entries with
  | nil =>
    intro e he
    rw [put, List.mem_singleton] at he
    rw [he]
    exact ha
  | cons f rest ih =>
    have hrest := ih (fun e he => hentries e (List.mem_cons_of_mem f he))
    by_cases hk : f.1 = key
    · intro e he
      rw [put, if_pos hk] at he
      rcases List.mem_cons.mp he with rfl | he
      · exact ha
      · exact hentries e (List.mem_cons_of_mem f he)
    · intro e he
      rw [put, if_neg hk] at he
      rcases List.mem_cons.mp he with rfl | he
      · exact hentries _ List.mem_cons_self
      · exact hrest e he

theorem putAll_all {P : α → Prop} {new entries : Entries α} (hnew : ∀ e ∈ new, P e.2)
    (hentries : ∀ e ∈ entries, P e.2) : ∀ e ∈ putAll new entries, P e.2 := by
  induction new generalizing entries with
  | nil => exact hentries
  | cons e rest ih =>
    exact ih (fun f hf => hnew f (List.mem_cons_of_mem e hf))
      (put_all (hnew e List.mem_cons_self) hentries)

end Entries
end Cjson
