import SchemaShaper.Proofs.Document.Descent
import SchemaShaper.Proofs.Edit.Additions
import Mathlib.Data.List.Nodup
import Mathlib.Data.List.Perm.Subperm
import Mathlib.Order.Bounds.Basic

/-!
# Distinct names of foreign keys

A generated name ends in a number, and names with one stem and different numbers differ
(`KeyName.numbered_injective`). The search for a number therefore ends at a free one: the numbers
up to one more than there are names cannot all be taken (`KeyName.next_spec`). A search that counts
within 32 bits ends at the same number, as long as there are fewer than 2^32 - 1 names
(`KeyName.next_search_ends`).

A generated name says its stem and its number, and no more (`KeyName.stem_eq_of_numbered_eq`).
Stems are joined with `_`, so that different ends can share a stem, and a name written by hand can
look like a generated one. A new key is distinct from the keys of its table only because the search
looks at the names of that very table, at the time of the addition
(`Document.addKeyEntry_keyNamesDistinct`).
-/

namespace SchemaShaper

/-! ## The lowest free number -/

namespace KeyName

theorem numbered_injective (source target : String) (columns : List String) :
    Function.Injective (numbered source target columns) := by
  intro m n h
  unfold numbered at h
  have htext : Decimal.text m = Decimal.text n := by
    have hlist := congrArg String.toList h
    simp only [String.toList_append] at hlist
    exact String.toList_injective (List.append_cancel_left hlist)
  exact Decimal.text_natCast_inj.1 htext

/-- The search passes taken numbers only, and stops at a free one or at its limit. -/
theorem leastFree_spec (taken : Nat → Bool) (fuel n : Nat) :
    n ≤ leastFree taken fuel n ∧ leastFree taken fuel n ≤ n + fuel ∧
      (∀ i, n ≤ i → i < leastFree taken fuel n → taken i = true) ∧
      (leastFree taken fuel n < n + fuel → taken (leastFree taken fuel n) = false) := by
  induction fuel generalizing n with
  | zero =>
    rw [leastFree]
    refine ⟨Nat.le_refl _, Nat.le_refl _, fun i hi hlt => ?_, fun h => ?_⟩
    · omega
    · omega
  | succ fuel ih =>
    rw [leastFree]
    split
    · next htaken =>
      obtain ⟨hle, hlimit, hpassed, hfree⟩ := ih (n + 1)
      refine ⟨by omega, by omega, fun i hi hlt => ?_, fun h => hfree (by omega)⟩
      rcases Nat.eq_or_lt_of_le hi with rfl | hi
      · exact htaken
      · exact hpassed i hi hlt
    · next hfree =>
      refine ⟨Nat.le_refl _, by omega, fun i hi hlt => ?_, fun _ => by simpa using hfree⟩
      omega

theorem exists_numbered_not_mem (source target : String) (columns names : List String) :
    ∃ n, 1 ≤ n ∧ n ≤ names.length + 1 ∧ numbered source target columns n ∉ names := by
  -- Otherwise the list would hold one more name than it has elements.
  by_contra hnone
  have htaken : ∀ n, 1 ≤ n → n ≤ names.length + 1 → numbered source target columns n ∈ names := by
    intro n hpos hle
    by_contra hfree
    exact hnone ⟨n, hpos, hle, hfree⟩
  let candidates := (List.range' 1 (names.length + 1)).map (numbered source target columns)
  have hnodup : candidates.Nodup :=
    List.Nodup.map (numbered_injective source target columns) List.nodup_range'
  have hsub : candidates ⊆ names := by
    intro name hname
    obtain ⟨n, hn, rfl⟩ := List.mem_map.1 hname
    rw [List.mem_range'_1] at hn
    exact htaken n (by omega) (by omega)
  have hlength : candidates.length ≤ names.length := (List.subperm_of_subset hnodup hsub).length_le
  have hcount : candidates.length = names.length + 1 := by simp [candidates]
  omega

/-- The next name has the lowest number whose name is not in use, which is at most one more than
there are names in use. -/
theorem next_spec (source target : String) (columns names : List String) :
    ∃ n, 1 ≤ n ∧ n ≤ names.length + 1 ∧
      next source target columns names = numbered source target columns n ∧
      numbered source target columns n ∉ names ∧
      ∀ i, 1 ≤ i → i < n → numbered source target columns i ∈ names := by
  have hspec := leastFree_spec (fun n => names.contains (numbered source target columns n))
    names.length 1
  obtain ⟨free, hpos, hbound, hfree⟩ := exists_numbered_not_mem source target columns names
  unfold next
  generalize leastFree _ names.length 1 = n at hspec ⊢
  obtain ⟨hle, hlimit, hpassed, hstop⟩ := hspec
  simp only [List.contains_iff_mem] at hpassed
  refine ⟨n, hle, by omega, rfl, fun hmem => ?_, hpassed⟩
  -- A taken number at the limit would leave no number for the free one.
  have hlast : n = 1 + names.length := by
    by_contra hne
    have hnot := hstop (by omega)
    simp [hmem] at hnot
  rcases Nat.lt_or_ge free n with hlt | hge
  · exact hfree (hpassed free hpos hlt)
  · have heq : free = n := by omega
    exact hfree (heq ▸ hmem)

theorem next_not_mem (source target : String) (columns names : List String) :
    next source target columns names ∉ names := by
  obtain ⟨n, -, -, hnext, hfree, -⟩ := next_spec source target columns names
  rwa [hnext]

/-! ## Counting within 32 bits -/

theorem toNat_add_one {n : UInt32} (h : n.toNat + 1 < UInt32.size) :
    (n + 1).toNat = n.toNat + 1 := by
  rw [UInt32.toNat_add]
  exact Nat.mod_eq_of_lt h

/-- The first number from `n` on that is not taken, found by a counter of 32 bits; nothing when the
counter would have to go past its last number. -/
def search? (taken : Nat → Bool) (n : UInt32) : Option UInt32 :=
  if taken n.toNat then
    if h : n.toNat + 1 < UInt32.size then search? taken (n + 1) else none
  else some n
termination_by UInt32.size - n.toNat
decreasing_by
  rw [toNat_add_one h]
  omega

theorem search?_eq_some {taken : Nat → Bool} {n free : UInt32} (hle : n.toNat ≤ free.toNat)
    (hpassed : ∀ i, n.toNat ≤ i → i < free.toNat → taken i = true)
    (hfree : taken free.toNat = false) : search? taken n = some free := by
  fun_induction search? taken n with
  | case1 n htaken hnext ih =>
    have hlt : n.toNat < free.toNat := by
      refine Nat.lt_of_le_of_ne hle fun heq => ?_
      rw [heq, hfree] at htaken
      cases htaken
    have hsucc := toNat_add_one hnext
    exact ih (by omega) fun i hi => hpassed i (by omega)
  | case2 n htaken hlast =>
    -- No number comes behind the last one, so the free one would be this taken one.
    have heq : n.toNat = free.toNat := by
      have hbound := free.toNat_lt_size
      omega
    rw [heq, hfree] at htaken
    cases htaken
  | case3 n hstop =>
    have heq : n.toNat = free.toNat := by
      by_contra hne
      exact hstop (hpassed n.toNat (Nat.le_refl _) (by omega))
    rw [UInt32.toNat_inj.1 heq]

/-- **The search for a number ends.** Among fewer than 2^32 - 1 names in use, repeated or not, a
counter of 32 bits reaches the lowest number that is free, and the next name has this number. -/
theorem next_search_ends {names : List String} (h : names.length < UInt32.size - 1)
    (source target : String) (columns : List String) :
    ∃ n : UInt32,
      search? (fun i => names.contains (numbered source target columns i)) 1 = some n ∧
      next source target columns names =
        "fk_" ++ source ++ "_" ++ target ++ "_" ++ Text.joinWith "_" columns ++ "_" ++
          Decimal.text n.toNat ∧
      IsLeast {i : Nat | 0 < i ∧ numbered source target columns i ∉ names} n.toNat ∧
      n.toNat ≤ names.length + 1 := by
  obtain ⟨n, hpos, hbound, hnext, hfree, hpassed⟩ := next_spec source target columns names
  have hfits : n < UInt32.size := by omega
  have hn : (UInt32.ofNat n).toNat = n := UInt32.toNat_ofNat_of_lt' hfits
  have hsearch : search? (fun i => names.contains (numbered source target columns i)) 1 =
      some (UInt32.ofNat n) := by
    apply search?_eq_some
    · rw [hn]
      exact hpos
    · intro i hi hlt
      rw [hn] at hlt
      exact List.contains_iff_mem.2 (hpassed i hi hlt)
    · rw [hn]
      simpa using hfree
  refine ⟨UInt32.ofNat n, hsearch, ?_⟩
  rw [hn]
  refine ⟨hnext, ⟨⟨hpos, hfree⟩, ?_⟩, hbound⟩
  rintro i ⟨hi, hnot⟩
  by_contra hlt
  exact hnot (hpassed i hi (by omega))

/-- Names of one stem with a gap between their numbers, one of them listed twice and one whose
number is not written as a generated name writes it. -/
def gappedNames : List String :=
  ["fk_a_b_x_y_1", "fk_a_b_x_y_3", "fk_a_b_x_y_1", "fk_a_b_x_y_02", "custom"]

theorem gappedNames_search_ends :
    gappedNames.length < UInt32.size - 1 ∧
    next "a" "b" ["x", "y"] gappedNames = "fk_a_b_x_y_2" ∧
    ∃ n : UInt32,
      search? (fun i => gappedNames.contains (numbered "a" "b" ["x", "y"] i)) 1 = some n ∧
      next "a" "b" ["x", "y"] gappedNames =
        "fk_" ++ "a" ++ "_" ++ "b" ++ "_" ++ Text.joinWith "_" ["x", "y"] ++ "_" ++
          Decimal.text n.toNat ∧
      IsLeast {i : Nat | 0 < i ∧ numbered "a" "b" ["x", "y"] i ∉ gappedNames} n.toNat ∧
      n.toNat ≤ gappedNames.length + 1 := by
  have hlength : gappedNames.length < UInt32.size - 1 := by decide
  exact ⟨hlength, by decide +kernel, next_search_ends hlength "a" "b" ["x", "y"]⟩

/-! ## What a generated name says -/

theorem toList_numbered (source target : String) (columns : List String) (n : Nat) :
    (numbered source target columns n).toList =
      (stem source target columns).toList ++ '_' :: Decimal.digits n := by
  unfold numbered
  rw [String.toList_append, String.toList_append, Decimal.toList_text, Decimal.signed_natCast,
    List.append_assoc]
  rfl

/-- The number holds no underscore, so the last underscore of a name ends its stem. -/
theorem cutAt_reverse_numbered (source target : String) (columns : List String) (n : Nat) :
    Text.cutAt (· == '_') (numbered source target columns n).toList.reverse =
      some ((Decimal.digits n).reverse, (stem source target columns).toList.reverse) := by
  refine Text.cutAt_eq_some_iff.2 ⟨'_', ?_, rfl, fun c hc => ?_⟩
  · simp [toList_numbered]
  · have hdigit : c.isDigit = true := Decimal.isDigit_of_mem_digits (List.mem_reverse.1 hc)
    rw [beq_eq_false_iff_ne]
    rintro rfl
    exact absurd hdigit (by decide)

theorem stem_eq_of_numbered_eq {source target source' target' : String}
    {columns columns' : List String} {m n : Nat}
    (h : numbered source target columns m = numbered source' target' columns' n) :
    stem source target columns = stem source' target' columns' := by
  have hcut := cutAt_reverse_numbered source target columns m
  rw [h, cutAt_reverse_numbered] at hcut
  simp only [Option.some.injEq, Prod.mk.injEq] at hcut
  exact (String.toList_injective (List.reverse_injective hcut.2)).symm

/-- The next name looks only at which numbers of its own stem are in use. -/
theorem next_congr {source target : String} {columns names names' : List String}
    (h : ∀ n,
      numbered source target columns n ∈ names ↔ numbered source target columns n ∈ names') :
    next source target columns names = next source target columns names' := by
  obtain ⟨m, hm, -, hnext, hfree, hpassed⟩ := next_spec source target columns names
  obtain ⟨n, hn, -, hnext', hfree', hpassed'⟩ := next_spec source target columns names'
  have hle : m ≤ n := by
    by_contra hlt
    exact hfree' ((h n).1 (hpassed n hn (by omega)))
  have hge : n ≤ m := by
    by_contra hlt
    exact hfree ((h m).2 (hpassed' m hm (by omega)))
  rw [hnext, hnext', Nat.le_antisymm hle hge]

theorem next_of_stem_eq {source target source' target' : String} {columns columns' : List String}
    (h : stem source target columns = stem source' target' columns') (names : List String) :
    next source target columns names = next source' target' columns' names := by
  unfold next numbered
  rw [h]

end KeyName

/-! ## Documents -/

/-- In each table the foreign keys have distinct names. -/
def Document.KeyNamesDistinct (d : Document) : Prop := ∀ t ∈ d.tables, t.keyNames.Nodup

instance (d : Document) : Decidable d.KeyNamesDistinct :=
  inferInstanceAs (Decidable (∀ t ∈ d.tables, t.keyNames.Nodup))

theorem Document.deleteEntry_keyNamesDistinct {entry : String} {d d' : Document}
    (h : d.deleteEntry entry = .ok d') (hd : d.KeyNamesDistinct) : d'.KeyNamesDistinct := by
  have hdescends : d'.Descends (fun _ _ => False) d := Document.deleteEntry_descends h
  intro t ht
  obtain ⟨origin, horigin, hfrom⟩ := hdescends.exists_of_mem ht
  obtain ⟨kept, new, hkeys, hkept, hnew⟩ := hfrom.keys_eq_append
  have hnone : new = [] := List.eq_nil_iff_forall_not_mem.2 hnew
  have hsub : t.keyNames.Sublist origin.keyNames := by
    unfold Table.keyNames
    rw [hkeys, hnone, List.append_nil]
    exact hkept.map _
  exact (hd origin horigin).sublist hsub

theorem Table.keyNames_pushKey (t : Table) (key : ForeignKey) :
    (t.pushKey key).keyNames = t.keyNames ++ [key.name] := by
  unfold keyNames
  rw [keys_pushKey, List.map_append]
  rfl

theorem KeySpec.nameIn_not_mem (s : KeySpec) (t : Table) : s.nameIn t ∉ t.keyNames :=
  KeyName.next_not_mem s.sourceTable s.targetTable s.sourceColumns t.keyNames

theorem KeySpec.keyNames_pushKey_nodup {t : Table} (ht : t.keyNames.Nodup) (s : KeySpec) :
    (t.pushKey (s.key (s.nameIn t))).keyNames.Nodup := by
  rw [Table.keyNames_pushKey]
  exact ht.append (List.nodup_singleton _) (List.disjoint_singleton.2 (s.nameIn_not_mem t))

theorem Document.addKey_keyNamesDistinct {s : KeySpec} {d d' : Document} {name : String}
    (h : d.addKey s = .ok (d', name)) (hd : d.KeyNamesDistinct) : d'.KeyNamesDistinct := by
  obtain ⟨front, source, back, hfirst, rfl, -⟩ := exists_firstAt_of_addKey h
  have hold : ∀ t ∈ front ++ source :: back, t.keyNames.Nodup := hfirst.tables_eq ▸ hd
  rw [List.forall_mem_append, List.forall_mem_cons] at hold
  obtain ⟨hfront, hsource, hback⟩ := hold
  have hnew : (s.extend source).keyNames.Nodup := s.keyNames_pushKey_nodup hsource
  exact List.forall_mem_append.2 ⟨hfront, List.forall_mem_cons.2 ⟨hnew, hback⟩⟩

theorem Document.addKeyEntry_keyNamesDistinct {entry : String} {d d' : Document}
    (h : d.addKeyEntry entry = .ok d') (hd : d.KeyNamesDistinct) : d'.KeyNamesDistinct := by
  obtain ⟨s, name, -, hadd⟩ := Document.addKeyEntry_eq_ok_iff.1 h
  exact Document.addKey_keyNamesDistinct hadd hd

end SchemaShaper
