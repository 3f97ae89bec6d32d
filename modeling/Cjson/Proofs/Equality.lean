import Mathlib.Data.List.Nodup
import Mathlib.Data.List.Perm.Subperm
import Cjson.Proofs.Narrowing
import Cjson.Proofs.Reduced

namespace Cjson

namespace Entries

variable {α : Type} {as bs : Entries α}

theorem mem_of_lookup {key : String} {a : α} (h : as.lookup key = some a) : (key, a) ∈ as := by
  obtain ⟨l, r, rfl, -⟩ := List.lookup_eq_some_iff.mp h
  simp

theorem mem_keys_of_lookup {key : String} {a : α} (h : as.lookup key = some a) :
    key ∈ keys as :=
  List.mem_map.mpr ⟨_, mem_of_lookup h, rfl⟩

theorem exists_of_mem_keys {key : String} (h : key ∈ keys as) : ∃ a, (key, a) ∈ as := by
  obtain ⟨e, he, rfl⟩ := List.mem_map.mp h
  exact ⟨e.2, he⟩

/-- As many entries with as many keys: if none of them is missing, none is left over. -/
theorem keys_perm (unique : (keys as).Nodup) (length : as.length = bs.length)
    (found : ∀ e ∈ as, e.1 ∈ keys bs) : (keys as).Perm (keys bs) := by
  have hsubset : keys as ⊆ keys bs := by
    intro key hkey
    obtain ⟨a, ha⟩ := exists_of_mem_keys hkey
    exact found _ ha
  refine (List.subperm_of_subset unique hsubset).perm_of_length_le ?_
  simp [keys, length]

end Entries

section Each

variable {α β γ : Type} {R : α → β → Prop} {as : List α} {bs : List β} {cs : List γ}

theorem exists_of_forall₂ (each : List.Forall₂ R as bs) : ∀ a ∈ as, ∃ b ∈ bs, R a b := by
  induction each with
  | nil => simp
  | cons hab _ ih =>
    intro a ha
    rcases List.mem_cons.mp ha with rfl | ha
    · exact ⟨_, List.mem_cons_self, hab⟩
    · obtain ⟨b, hb, hab⟩ := ih a ha
      exact ⟨b, List.mem_cons_of_mem _ hb, hab⟩

theorem forall₂_imp_of_mem {S : α → β → Prop} (each : List.Forall₂ R as bs)
    (himp : ∀ a ∈ as, ∀ b, R a b → S a b) : List.Forall₂ S as bs :=
  ((List.forall₂_and_left _ _).mpr ⟨himp, each⟩).imp fun _ b h => h.1 b h.2

theorem forall₂_trans_of_mem {S : β → γ → Prop} {T : α → γ → Prop}
    (each : List.Forall₂ R as bs) (each' : List.Forall₂ S bs cs)
    (htrans : ∀ a ∈ as, ∀ b c, R a b → S b c → T a c) : List.Forall₂ T as cs := by
  induction each generalizing cs with
  | nil =>
    cases each'
    exact .nil
  | cons hab _ ih =>
    cases each' with
    | cons hbc each' =>
      exact .cons (htrans _ List.mem_cons_self _ _ hab hbc)
        (ih each' fun a ha => htrans a (List.mem_cons_of_mem _ ha))

/-- Of maps with the same keys in one order, the entries are compared in this order. -/
theorem Entries.forall₂_of_keys {R : α → β → Prop} {as : Entries α} {bs : Entries β}
    (hkeys : keys as = keys bs) (each : List.Forall₂ R (as.map Prod.snd) (bs.map Prod.snd)) :
    List.Forall₂ (fun e f => e.1 = f.1 ∧ R e.2 f.2) as bs := by
  rw [keys, keys, ← List.forall₂_eq_eq_eq, List.forall₂_map_left_iff,
    List.forall₂_map_right_iff] at hkeys
  rw [List.forall₂_map_left_iff, List.forall₂_map_right_iff] at each
  exact hkeys.mp (fun _ _ hkey hvalue => ⟨hkey, hvalue⟩) each

end Each

namespace Value

variable {a b c u v : Value}

/-- The first value is right inside the second. -/
inductive PartOf (u : Value) : Value → Prop
  | item {items : List Value} (mem : u ∈ items) : PartOf u (list items)
  | entry {entries : Entries Value} {key : String} (mem : (key, u) ∈ entries) :
      PartOf u (map entries)
  | argument {function : String} {arguments : List Value} (mem : u ∈ arguments) :
      PartOf u (call function arguments)

theorem PartOf.sizeOf_lt (h : u.PartOf v) : sizeOf u < sizeOf v := by
  cases h with
  | item mem =>
    have := List.sizeOf_lt_of_mem mem
    simp only [list.sizeOf_spec]
    omega
  | entry mem =>
    have := List.sizeOf_lt_of_mem mem
    simp only [Prod.mk.sizeOf_spec] at this
    simp only [map.sizeOf_spec]
    omega
  | argument mem =>
    have := List.sizeOf_lt_of_mem mem
    simp only [call.sizeOf_spec]
    omega

/-- Induction on the depth of a value. -/
theorem nested_induction {P : Value → Prop} (step : ∀ v, (∀ u, u.PartOf v → P u) → P v)
    (v : Value) : P v :=
  step v fun u _ => nested_induction step u
termination_by sizeOf v
decreasing_by exact PartOf.sizeOf_lt ‹_›

/-- No map in the value, at whatever depth, has two entries with one key. -/
def Keyed (v : Value) : Prop :=
  ∀ entries, (map entries).Occurs v → (Entries.keys entries).Nodup

theorem Keyed.part (hv : v.Keyed) (h : u.PartOf v) : u.Keyed := by
  intro entries hentries
  cases h with
  | item mem => exact hv entries (.item mem hentries)
  | entry mem => exact hv entries (.entry mem hentries)
  | argument mem => exact hv entries (.argument mem hentries)

theorem Keyed.unique {entries : Entries Value} (h : (map entries).Keyed) :
    (Entries.keys entries).Nodup :=
  h entries .here

/-- Values of one variant and with the same content, save that the values inside them are only
related by `R`. The entries of a map are in any order. -/
inductive Matched (R : Value → Value → Prop) : Value → Value → Prop
  | null : Matched R null null
  | boolean (b : Bool) : Matched R (boolean b) (boolean b)
  | int (n : Int32) : Matched R (int n) (int n)
  | long (n : Int64) : Matched R (long n) (long n)
  | decimal {d e : Decimal} (value : d.toBigDecimal.toRat = e.toBigDecimal.toRat) :
      Matched R (decimal d) (decimal e)
  | bigDecimal {d e : BigDecimal} (value : d.toRat = e.toRat) :
      Matched R (bigDecimal d) (bigDecimal e)
  | string (s : String) : Matched R (string s) (string s)
  | list {as bs : List Value} (each : List.Forall₂ R as bs) : Matched R (list as) (list bs)
  | map {as bs : Entries Value} (length : as.length = bs.length)
      (each : ∀ e ∈ as, ∃ u, bs.lookup e.1 = some u ∧ R e.2 u) : Matched R (map as) (map bs)
  | call (function : String) {as bs : List Value} (each : List.Forall₂ R as bs) :
      Matched R (call function as) (call function bs)
  | fragment (f : Fragment) : Matched R (fragment f) (fragment f)
  | foreign {f g : Foreign} (identity : f.identity = g.identity) :
      Matched R (foreign f) (foreign g)

theorem sameItems_iff {as bs : List Value} :
    sameItems as bs = true ↔ List.Forall₂ (fun a b => a.same b = true) as bs := by
  induction as generalizing bs with
  | nil => cases bs <;> simp [sameItems]
  | cons a as ih => cases bs <;> simp [sameItems, ih]

/-- What two values are compared by. -/
theorem same_iff_matched :
    a.same b = true ↔ Matched (fun a b => a.same b = true) a b := by
  constructor
  · intro h
    unfold same at h
    split at h
    · exact .null
    · cases eq_of_beq h
      exact .boolean _
    · cases eq_of_beq h
      exact .int _
    · cases eq_of_beq h
      exact .long _
    · exact .decimal (BigDecimal.same_iff.mp h)
    · exact .bigDecimal (BigDecimal.same_iff.mp h)
    · cases eq_of_beq h
      exact .string _
    · exact .list (sameItems_iff.mp h)
    · rw [Bool.and_eq_true, beq_iff_eq, foundIn_iff] at h
      exact .map h.1 h.2
    · rw [Bool.and_eq_true, beq_iff_eq, sameItems_iff] at h
      obtain ⟨rfl, each⟩ := h
      exact .call _ each
    · cases eq_of_beq h
      exact .fragment _
    · exact .foreign (eq_of_beq h)
    · cases h
  · intro h
    cases h with
    | null | boolean _ | int _ | long _ | string _ | fragment _ => simp [same]
    | decimal value | bigDecimal value =>
      rw [same]
      exact BigDecimal.same_iff.mpr value
    | list each =>
      rw [same]
      exact sameItems_iff.mpr each
    | map length each =>
      rw [same, Bool.and_eq_true, beq_iff_eq, foundIn_iff]
      exact ⟨length, each⟩
    | call function each =>
      rw [same, Bool.and_eq_true, sameItems_iff]
      exact ⟨beq_self_eq_true _, each⟩
    | foreign identity =>
      rw [same]
      exact beq_iff_eq.mpr identity

theorem same_refl (ha : a.Keyed) : a.same a = true := by
  induction a using nested_induction with
  | step v ih =>
    have hparts : ∀ u : Value, u.PartOf v → u.same u = true :=
      fun u hu => ih u hu (ha.part hu)
    rw [same_iff_matched]
    cases v with
    | null => exact .null
    | boolean b => exact .boolean b
    | int n => exact .int n
    | long n => exact .long n
    | decimal d => exact .decimal rfl
    | bigDecimal d => exact .bigDecimal rfl
    | string s => exact .string s
    | list items => exact .list (List.forall₂_same.mpr fun u hu => hparts u (.item hu))
    | map entries =>
      exact .map rfl fun e he => ⟨e.2, Entries.lookup_of_mem ha.unique he, hparts e.2 (.entry he)⟩
    | call f arguments =>
      exact .call f (List.forall₂_same.mpr fun u hu => hparts u (.argument hu))
    | fragment f => exact .fragment f
    | foreign f => exact .foreign rfl

/-- As the keys of one map are different and no more than those of the other, both have the
same. -/
theorem map_symm {as bs : Entries Value} (unique : (Entries.keys as).Nodup)
    (length : as.length = bs.length)
    (each : ∀ e ∈ as, ∃ u, bs.lookup e.1 = some u ∧ e.2.same u = true)
    (hsymm : ∀ e ∈ as, ∀ u, e.2.same u = true → u.same e.2 = true) :
    Matched (fun a b => a.same b = true) (map bs) (map as) := by
  have hkeys : (Entries.keys as).Perm (Entries.keys bs) := by
    refine Entries.keys_perm unique length fun e he => ?_
    obtain ⟨u, hu, -⟩ := each e he
    exact Entries.mem_keys_of_lookup hu
  -- an entry of the second map may only be found by way of the first one
  refine .map length.symm fun e he => ?_
  obtain ⟨v, hv⟩ := Entries.exists_of_mem_keys
    (hkeys.mem_iff.mpr (List.mem_map_of_mem (f := Prod.fst) he))
  obtain ⟨u, hu, hvu⟩ := each _ hv
  rw [Entries.lookup_of_mem (hkeys.nodup_iff.mp unique) he, Option.some.injEq] at hu
  exact ⟨v, Entries.lookup_of_mem unique hv, hu ▸ hsymm _ hv u hvu⟩

theorem same_symm (ha : a.Keyed) (h : a.same b = true) : b.same a = true := by
  induction a using nested_induction generalizing b with
  | step v ih =>
    have hparts : ∀ u : Value, u.PartOf v → ∀ w : Value, u.same w = true → w.same u = true :=
      fun u hu w => ih u hu (ha.part hu)
    rw [same_iff_matched] at h ⊢
    cases h with
    | null => exact .null
    | boolean b => exact .boolean b
    | int n => exact .int n
    | long n => exact .long n
    | decimal value => exact .decimal value.symm
    | bigDecimal value => exact .bigDecimal value.symm
    | string s => exact .string s
    | list each =>
      exact .list (forall₂_imp_of_mem each fun u hu => hparts u (.item hu)).flip
    | map length each =>
      exact map_symm ha.unique length each fun e he => hparts e.2 (.entry he)
    | call f each =>
      exact .call f (forall₂_imp_of_mem each fun u hu => hparts u (.argument hu)).flip
    | fragment f => exact .fragment f
    | foreign identity => exact .foreign identity.symm

theorem same_trans (h : a.same b = true) (h' : b.same c = true) : a.same c = true := by
  induction a using nested_induction generalizing b c with
  | step v ih =>
    rw [same_iff_matched] at h h' ⊢
    cases h with
    | null | boolean _ | int _ | long _ | string _ | fragment _ => exact h'
    | decimal value =>
      cases h' with
      | decimal value' => exact .decimal (value.trans value')
    | bigDecimal value =>
      cases h' with
      | bigDecimal value' => exact .bigDecimal (value.trans value')
    | list each =>
      cases h' with
      | list each' =>
        exact .list (forall₂_trans_of_mem each each' fun u hu _ _ => ih u (.item hu))
    | map length each =>
      cases h' with
      | map length' each' =>
        -- what is found is an entry itself, so the next lookup goes on from it
        refine .map (length.trans length') fun e he => ?_
        obtain ⟨u, hu, heu⟩ := each e he
        obtain ⟨w, hw, huw⟩ := each' _ (Entries.mem_of_lookup hu)
        exact ⟨w, hw, ih e.2 (.entry he) heu huw⟩
    | call f each =>
      cases h' with
      | call _ each' =>
        exact .call f (forall₂_trans_of_mem each each' fun u hu _ _ => ih u (.argument hu))
    | foreign identity =>
      cases h' with
      | foreign identity' => exact .foreign (identity.trans identity')

/-- The second value is the first one with the entries of some maps in it, at any depth, in
another order. -/
inductive Reordered : Value → Value → Prop
  | refl (v : Value) : Reordered v v
  | list {as bs : List Value} (each : List.Forall₂ Reordered as bs) :
      Reordered (list as) (list bs)
  | call (function : String) {as bs : List Value} (each : List.Forall₂ Reordered as bs) :
      Reordered (call function as) (call function bs)
  | map {as bs cs : Entries Value} (keys : Entries.keys as = Entries.keys bs)
      (each : List.Forall₂ Reordered (as.map Prod.snd) (bs.map Prod.snd)) (perm : bs.Perm cs) :
      Reordered (map as) (map cs)

theorem same_of_reordered (ha : a.Keyed) (h : a.Reordered b) : a.same b = true := by
  induction a using nested_induction generalizing b with
  | step v ih =>
    have hparts : ∀ u : Value, u.PartOf v → ∀ w, u.Reordered w → u.same w = true :=
      fun u hu w => ih u hu (ha.part hu)
    cases h with
    | refl => exact same_refl ha
    | list each =>
      exact same_iff_matched.mpr
        (.list (forall₂_imp_of_mem each fun u hu => hparts u (.item hu)))
    | call f each =>
      exact same_iff_matched.mpr
        (.call f (forall₂_imp_of_mem each fun u hu => hparts u (.argument hu)))
    | @map as bs cs keys each perm =>
      have heach := Entries.forall₂_of_keys keys each
      have unique : (Entries.keys bs).Nodup := keys ▸ ha.unique
      refine same_iff_matched.mpr (.map (heach.length_eq.trans perm.length_eq) fun e he => ?_)
      obtain ⟨f, hf, hkey, hvalue⟩ := exists_of_forall₂ heach e he
      rw [hkey]
      exact ⟨f.2,
        Entries.lookup_of_mem ((perm.map Prod.fst).nodup_iff.mp unique) (perm.mem_iff.mp hf),
        hparts e.2 (.entry he) f.2 hvalue⟩

theorem int64?_of_same (h : a.same b = true) : a.int64? = b.int64? := by
  rw [same_iff_matched] at h
  cases h with
  | decimal value | bigDecimal value => exact BigDecimal.toInt64?_congr value
  | _ => rfl

theorem typeName_of_same (h : a.same b = true) (hosted : ∀ f, a ≠ foreign f) :
    a.typeName = b.typeName := by
  rw [same_iff_matched] at h
  cases h with
  | @foreign f _ _ => exact absurd rfl (hosted f)
  | _ => rfl

end Value

/-- Equality of values with different keys in each of their maps is an equivalence, and the
order of entries does not count in it, at any depth. Decimals are compared by value. What is
equal has one type name, unless it is an object of the host, and is the same 64-bit integer,
if it is one. -/
theorem same_equivalence {a : Value} (ha : a.Keyed) :
    a.same a = true ∧
    (∀ b : Value, a.same b = true → b.same a = true) ∧
    (∀ b c : Value, a.same b = true → b.same c = true → a.same c = true) ∧
    (∀ b : Value, a.Reordered b → a.same b = true) ∧
    (∀ b : Value, a.same b = true → (∀ f, a ≠ .foreign f) →
      a.typeName = b.typeName ∧ a.int64? = b.int64?) ∧
    (∀ d e : Decimal, (Value.decimal d).same (.decimal e) = true ↔
      d.toBigDecimal.toRat = e.toBigDecimal.toRat) ∧
    (∀ d e : BigDecimal, (Value.bigDecimal d).same (.bigDecimal e) = true ↔
      d.toRat = e.toRat) :=
  ⟨Value.same_refl ha, fun _ => Value.same_symm ha, fun _ _ => Value.same_trans,
    fun _ => Value.same_of_reordered ha,
    fun _ h hosted => ⟨Value.typeName_of_same h hosted, Value.int64?_of_same h⟩,
    fun _ _ => BigDecimal.same_iff, fun _ _ => BigDecimal.same_iff⟩

/-- The order of entries does not count in a map inside a list, from either side. -/
theorem same_equivalence_list :
    (Value.list [.map [("x", .null), ("y", .int 1)]]).Keyed ∧
      (Value.list [.map [("x", .null), ("y", .int 1)]]).Reordered
        (.list [.map [("y", .int 1), ("x", .null)]]) ∧
      (Value.list [.map [("x", .null), ("y", .int 1)]]).same
        (.list [.map [("y", .int 1), ("x", .null)]]) = true ∧
      (Value.list [.map [("y", .int 1), ("x", .null)]]).same
        (.list [.map [("x", .null), ("y", .int 1)]]) = true := by
  have hkeyed : (Value.list [.map [("x", .null), ("y", .int 1)]]).Keyed := by
    intro entries h
    cases h with
    | item mem deeper =>
      cases List.mem_singleton.mp mem
      cases deeper with
      | here => decide
      | entry mem deeper =>
        simp only [List.mem_cons, List.not_mem_nil, or_false] at mem
        rcases mem with rfl | rfl
        · cases deeper
        · cases deeper
  have hreordered : (Value.list [.map [("x", .null), ("y", .int 1)]]).Reordered
      (.list [.map [("y", .int 1), ("x", .null)]]) :=
    .list (.cons (.map rfl (List.forall₂_same.mpr fun v _ => .refl v) (.swap _ _ _)) .nil)
  obtain ⟨-, hsymm, -, hpermuted, -⟩ := same_equivalence hkeyed
  exact ⟨hkeyed, hreordered, hpermuted _ hreordered, hsymm _ (hpermuted _ hreordered)⟩

end Cjson
