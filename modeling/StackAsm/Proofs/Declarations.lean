import Mathlib.Data.List.Induction
import Mathlib.Data.List.Nodup
import StackAsm.SymbolTable

/-!
# StackAsm.Proofs.Declarations

The symbol table against the list of all declarations made.

The table keeps for each name only what the last declaration said, and the names in the order of
first declaration. `SymbolTable.Holds` says so of a table and a list of declarations: the id of a
label is the index of its last declaration in that list, and its address and location are those of
that declaration. A new declaration at the end of the list goes with an insertion into the table
(`SymbolTable.Holds.insert`).
-/

namespace StackAsm

/-- A declaration of a label at an address. -/
structure Declaration where
  name : String
  loc : Location
  address : Nat
deriving DecidableEq, Repr

namespace Declaration

/-- The declared names, each once, by first declaration. -/
def names (ds : List Declaration) : List String := (ds.map name).eraseDups

/-- The last declaration of a label, with its index among all declarations. -/
def last? (ds : List Declaration) (label : String) : Option (Declaration × Nat) :=
  (ds.zipIdx.filter fun d => d.1.name = label).getLast?

@[simp] theorem names_nil : names [] = [] := rfl

@[simp] theorem last?_nil (label : String) : last? [] label = none := rfl

theorem mem_names {ds : List Declaration} {label : String} :
    label ∈ names ds ↔ ∃ d ∈ ds, d.name = label := by
  simp [names]

theorem names_append_singleton (ds : List Declaration) (d : Declaration) :
    names (ds ++ [d]) = if d.name ∈ names ds then names ds else names ds ++ [d.name] := by
  have hmem : d.name ∈ names ds ↔ d.name ∈ ds.map name := List.mem_eraseDups
  have happend : names (ds ++ [d]) = names ds ++ ([d.name].removeAll (ds.map name)).eraseDups := by
    rw [names, List.map_append, List.map_singleton, List.eraseDups_append, names]
  rw [happend, List.removeAll]
  by_cases hd : d.name ∈ ds.map name
  · rw [if_pos (hmem.mpr hd), List.filter_cons_of_neg (by simpa using hd)]
    simp
  · rw [if_neg (mt hmem.mp hd), List.filter_cons_of_pos (by simpa using hd)]
    simp [List.eraseDups_cons]

theorem nodup_names (ds : List Declaration) : (names ds).Nodup := by
  induction ds using List.reverseRecOn with
  | nil => simp
  | append_singleton ds d ih =>
    rw [names_append_singleton]
    split
    · exact ih
    · rename_i hnew
      rw [← List.concat_eq_append]
      exact List.Nodup.concat hnew ih

/-- The latest of all declarations is the last one of its own name, and of no other. -/
theorem last?_append_singleton (ds : List Declaration) (d : Declaration) (label : String) :
    last? (ds ++ [d]) label = if d.name = label then some (d, ds.length) else last? ds label := by
  unfold last?
  rw [List.zipIdx_append, List.filter_append]
  by_cases hd : d.name = label
  · simp [hd]
  · simp [hd]

/-- What the last declaration is: it declares the label, and no later one does. -/
theorem last?_eq_some {ds : List Declaration} {label : String} {d : Declaration} {i : Nat}
    (h : last? ds label = some (d, i)) :
    ds[i]? = some d ∧ d.name = label ∧
      ∀ j d', i < j → ds[j]? = some d' → d'.name ≠ label := by
  induction ds using List.reverseRecOn with
  | nil => cases h
  | append_singleton ds latest ih =>
    rw [last?_append_singleton] at h
    by_cases hlatest : latest.name = label
    · rw [if_pos hlatest] at h
      cases h
      -- there is nothing after the latest declaration
      refine ⟨by simp, hlatest, ?_⟩
      intro j d' hj hd'
      rw [List.getElem?_eq_none (by simp; omega)] at hd'
      cases hd'
    · rw [if_neg hlatest] at h
      obtain ⟨hget, hname, hlater⟩ := ih h
      have hi : i < ds.length := (List.getElem?_eq_some_iff.mp hget).1
      refine ⟨by rw [List.getElem?_append_left hi, hget], hname, ?_⟩
      intro j d' hj hd'
      by_cases hjlast : j < ds.length
      · rw [List.getElem?_append_left hjlast] at hd'
        exact hlater j d' hj hd'
      · rw [List.getElem?_append_right (by omega)] at hd'
        obtain ⟨-, rfl⟩ : j - ds.length = 0 ∧ latest = d' := by
          simpa [List.getElem?_singleton] using hd'
        exact hlatest

theorem last?_isSome_iff {ds : List Declaration} {label : String} :
    (last? ds label).isSome ↔ label ∈ names ds := by
  induction ds using List.reverseRecOn with
  | nil => simp
  | append_singleton ds latest ih =>
    rw [last?_append_singleton, mem_names]
    by_cases hlatest : latest.name = label
    · simp [hlatest]
    · rw [if_neg hlatest, ih, mem_names]
      simp [hlatest]

/-- A declaration of the label after which there is no other is the last one. -/
theorem last?_eq_some_of_latest {ds : List Declaration} {label : String} {d : Declaration} {i : Nat}
    (hget : ds[i]? = some d) (hname : d.name = label)
    (hlatest : ∀ j d', i < j → ds[j]? = some d' → d'.name ≠ label) :
    last? ds label = some (d, i) := by
  have hsome : (last? ds label).isSome :=
    last?_isSome_iff.mpr (mem_names.mpr ⟨d, List.mem_of_getElem? hget, hname⟩)
  obtain ⟨⟨d', i'⟩, hlast⟩ := Option.isSome_iff_exists.mp hsome
  obtain ⟨hget', hname', hlatest'⟩ := last?_eq_some hlast
  -- neither of the two comes after the other
  obtain hlt | rfl | hlt := Nat.lt_trichotomy i i'
  · exact absurd hname' (hlatest i' d' hlt hget')
  · rw [hlast, Option.some.inj (hget'.symm.trans hget)]
  · exact absurd hname (hlatest' i d hlt hget)

/-- What a symbol table knows of a label after its last declaration, the one with index `i`. -/
def symbol (d : Declaration) (i : Nat) : Symbol := ⟨UInt16.ofNat i, UInt32.ofNat d.address, d.loc⟩

end Declaration

namespace SymbolTable

/-- The table is the one that a list of declarations leads to. -/
structure Holds (t : SymbolTable) (ds : List Declaration) : Prop where
  declared : t.declared = ds.length
  names : t.names.toList = Declaration.names ds
  get? : ∀ label, t.get? label = (Declaration.last? ds label).map fun d => d.1.symbol d.2

theorem holds_empty : ({} : SymbolTable).Holds [] where
  declared := rfl
  names := rfl
  get? label := by simp

variable {t : SymbolTable} {ds : List Declaration}

theorem Holds.isFull (h : t.Holds ds) : t.isFull = true ↔ capacity ≤ ds.length := by
  simp [SymbolTable.isFull, h.declared]

/-- A label is in the table when it is declared. -/
theorem Holds.get?_isSome (h : t.Holds ds) (label : String) :
    (t.get? label).isSome ↔ label ∈ Declaration.names ds := by
  rw [h.get?, Option.isSome_map, Declaration.last?_isSome_iff]

/-- An insertion is one more declaration. -/
theorem Holds.insert (h : t.Holds ds) (d : Declaration) (address : Address)
    (haddress : address.toNat = d.address) :
    (t.insert d.name address d.loc).Holds (ds ++ [d]) where
  declared := by simp [SymbolTable.insert, h.declared]
  names := by
    -- the table looks a name up in its bindings, and not among its names
    have hcontains : t.bindings.contains d.name = true ↔ d.name ∈ Declaration.names ds := by
      rw [← h.get?_isSome]
      simp [SymbolTable.get?]
    rw [Declaration.names_append_singleton]
    by_cases hd : d.name ∈ Declaration.names ds
    · simp [SymbolTable.insert, hcontains.mpr hd, hd, h.names]
    · simp [SymbolTable.insert, mt hcontains.mp hd, hd, h.names]
  get? label := by
    rw [Declaration.last?_append_singleton]
    by_cases hd : d.name = label
    · simp [SymbolTable.get?, SymbolTable.insert, hd, Declaration.symbol, h.declared, ← haddress]
    · rw [if_neg hd, ← h.get?]
      simp [SymbolTable.get?, SymbolTable.insert, Std.TreeMap.getElem?_insert, hd]

/-- The labels with their symbols come by first declaration, and are what was declared last. -/
theorem Holds.toList (h : t.Holds ds) :
    t.toList = (Declaration.names ds).filterMap fun label =>
      (Declaration.last? ds label).map fun d => (label, d.1.symbol d.2) := by
  unfold SymbolTable.toList
  rw [h.names]
  congr 1
  funext label
  rw [h.get?, Option.map_map]
  rfl

theorem Holds.map_fst_toList (h : t.Holds ds) : t.toList.map Prod.fst = Declaration.names ds := by
  rw [h.toList, List.map_filterMap]
  refine Eq.trans ?_ List.filterMap_some
  refine List.filterMap_congr fun label hlabel => ?_
  obtain ⟨d, hlast⟩ := Option.isSome_iff_exists.mp (Declaration.last?_isSome_iff.mpr hlabel)
  rw [hlast]
  rfl

end SymbolTable

end StackAsm
