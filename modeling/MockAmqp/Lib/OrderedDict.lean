import Mathlib.Data.List.Nodup
import Mathlib.Data.List.Basic

/-!
# Insertion-ordered dictionaries

A finite map that remembers the order in which its keys first came in. Storing under a
present key keeps that key's place, storing under a new key appends. Keys are distinct
by construction.
-/

variable {κ ν : Type} [DecidableEq κ]

/-- Store under `k`, in place when `k` is present and at the end otherwise. -/
def assocSet : List (κ × ν) → κ → ν → List (κ × ν)
  | [], k, v => [(k, v)]
  | (k', v') :: rest, k, v =>
      if k' = k then (k', v) :: rest else (k', v') :: assocSet rest k v

theorem mem_keys_assocSet {l : List (κ × ν)} {k a : κ} {v : ν} :
    a ∈ (assocSet l k v).map Prod.fst ↔ a = k ∨ a ∈ l.map Prod.fst := by
  induction l with
  | nil => simp [assocSet]
  | cons p rest ih =>
      obtain ⟨k', v'⟩ := p
      by_cases h : k' = k
      · subst h; simp [assocSet]
      · simp only [assocSet, if_neg h, List.map_cons, List.mem_cons, ih]
        tauto

theorem nodup_keys_assocSet {l : List (κ × ν)} (h : (l.map Prod.fst).Nodup) (k : κ) (v : ν) :
    ((assocSet l k v).map Prod.fst).Nodup := by
  induction l with
  | nil => simp [assocSet]
  | cons p rest ih =>
      obtain ⟨k', v'⟩ := p
      simp only [List.map_cons, List.nodup_cons] at h
      by_cases hk : k' = k
      · simpa only [assocSet, if_pos hk, List.map_cons, List.nodup_cons] using h
      · simp only [assocSet, if_neg hk, List.map_cons, List.nodup_cons, mem_keys_assocSet]
        refine ⟨?_, ih h.2⟩
        rintro (same | old)
        · exact hk same
        · exact h.1 old

theorem assocSet_fresh {l : List (κ × ν)} {k : κ} (fresh : k ∉ l.map Prod.fst) (v : ν) :
    assocSet l k v = l ++ [(k, v)] := by
  induction l with
  | nil => rfl
  | cons p rest ih =>
      rw [List.map_cons, List.mem_cons, not_or] at fresh
      rw [assocSet, if_neg (Ne.symm fresh.1), ih fresh.2]
      rfl

/-- The entries in the order of first insertion, one for each key. -/
structure OrderedDict (κ ν : Type) where
  entries : List (κ × ν)
  nodup : (entries.map Prod.fst).Nodup

namespace OrderedDict

def empty : OrderedDict κ ν := ⟨[], List.nodup_nil⟩

omit [DecidableEq κ] in
theorem ext_entries {d e : OrderedDict κ ν} (h : d.entries = e.entries) : d = e := by
  cases d; cases e; cases h; rfl

/-- Plain lookup, `none` when the key is absent. -/
def get? (d : OrderedDict κ ν) (k : κ) : Option ν := d.entries.lookup k

def contains (d : OrderedDict κ ν) (k : κ) : Bool := (d.get? k).isSome

def insert (d : OrderedDict κ ν) (k : κ) (v : ν) : OrderedDict κ ν :=
  ⟨assocSet d.entries k v, nodup_keys_assocSet d.nodup k v⟩

def erase (d : OrderedDict κ ν) (k : κ) : OrderedDict κ ν :=
  ⟨d.entries.filter (fun p => p.1 ≠ k),
    (List.filter_sublist.map Prod.fst).nodup d.nodup⟩

/-- Successive stores, a later one under the same key replacing the value. -/
def ofList (l : List (κ × ν)) : OrderedDict κ ν :=
  l.foldl (fun d p => d.insert p.1 p.2) empty

@[simp] theorem get?_empty (k : κ) : (empty : OrderedDict κ ν).get? k = none := rfl

theorem lookup_cons_ite (k a : κ) (v : ν) (l : List (κ × ν)) :
    ((k, v) :: l).lookup a = if a = k then some v else l.lookup a := by
  by_cases h : a = k
  · simp [h]
  · have hb : (a == k) = false := beq_eq_false_iff_ne.mpr h
    simp [List.lookup_cons, hb, h]

theorem lookup_assocSet (l : List (κ × ν)) (k a : κ) (v : ν) :
    (assocSet l k v).lookup a = if a = k then some v else l.lookup a := by
  induction l with
  | nil => rw [assocSet, lookup_cons_ite]
  | cons p rest ih =>
      obtain ⟨k', v'⟩ := p
      by_cases hk : k' = k
      · subst hk
        rw [assocSet, if_pos rfl, lookup_cons_ite, lookup_cons_ite]
        split <;> rfl
      · rw [assocSet, if_neg hk, lookup_cons_ite, lookup_cons_ite, ih]
        by_cases ha : a = k'
        · subst ha; simp [hk]
        · simp [ha]

@[simp] theorem get?_insert (d : OrderedDict κ ν) (k a : κ) (v : ν) :
    (d.insert k v).get? a = if a = k then some v else d.get? a :=
  lookup_assocSet d.entries k a v

theorem get?_insert_self (d : OrderedDict κ ν) (k : κ) (v : ν) :
    (d.insert k v).get? k = some v := by simp

theorem get?_insert_ne (d : OrderedDict κ ν) {k a : κ} (v : ν) (h : a ≠ k) :
    (d.insert k v).get? a = d.get? a := by simp [h]

omit [DecidableEq κ] in
theorem lookup_eq_some_iff [BEq κ] [LawfulBEq κ] {l : List (κ × ν)} (h : (l.map Prod.fst).Nodup)
    (k : κ) (v : ν) : l.lookup k = some v ↔ (k, v) ∈ l := by
  induction l with
  | nil => simp
  | cons p rest ih =>
      obtain ⟨k', v'⟩ := p
      simp only [List.map_cons, List.nodup_cons] at h
      rw [List.lookup_cons]
      by_cases hk : k = k'
      · subst hk
        have fresh : (k, v) ∉ rest := fun mem => h.1 (List.mem_map_of_mem (f := Prod.fst) mem)
        simp [fresh, eq_comm]
      · rw [beq_false_of_ne hk]
        simp [hk, ih h.2]

theorem get?_eq_some_iff (d : OrderedDict κ ν) (k : κ) (v : ν) :
    d.get? k = some v ↔ (k, v) ∈ d.entries := lookup_eq_some_iff d.nodup k v

theorem mem_insert (d : OrderedDict κ ν) (k a : κ) (w v : ν) :
    (a, v) ∈ (d.insert k w).entries ↔ (a = k ∧ v = w) ∨ (a ≠ k ∧ (a, v) ∈ d.entries) := by
  rw [← get?_eq_some_iff, ← get?_eq_some_iff, get?_insert]
  by_cases h : a = k
  · simp [h, eq_comm]
  · simp [h]

theorem assocSet_of_lookup {l : List (κ × ν)} {k : κ} {v : ν} (h : l.lookup k = some v) :
    assocSet l k v = l := by
  induction l with
  | nil => cases h
  | cons p rest ih =>
      obtain ⟨k', v'⟩ := p
      rw [lookup_cons_ite] at h
      by_cases hk : k' = k
      · rw [if_pos hk.symm] at h
        rw [assocSet, if_pos hk, Option.some.inj h]
      · rw [if_neg (Ne.symm hk)] at h
        rw [assocSet, if_neg hk, ih h]

/-- A store changes nothing exactly if the value was already there. -/
theorem insert_eq_self_iff (d : OrderedDict κ ν) (k : κ) (v : ν) :
    d.insert k v = d ↔ d.get? k = some v := by
  constructor
  · intro same
    rw [← same]
    exact d.get?_insert_self k v
  · intro stored
    exact ext_entries (assocSet_of_lookup stored)

theorem get?_erase (d : OrderedDict κ ν) (k a : κ) :
    (d.erase k).get? a = if a = k then none else d.get? a := by
  apply Option.ext
  intro v
  rw [get?_eq_some_iff]
  by_cases h : a = k
  · simp [erase, h]
  · simp [erase, h, get?_eq_some_iff]

/-- Stores under different new keys are appended one by one. -/
theorem entries_foldl {l : List (κ × ν)} {d : OrderedDict κ ν}
    (distinct : ((d.entries ++ l).map Prod.fst).Nodup) :
    (l.foldl (fun d p => d.insert p.1 p.2) d).entries = d.entries ++ l := by
  induction l generalizing d with
  | nil => rw [List.foldl_nil, List.append_nil]
  | cons p rest ih =>
      obtain ⟨k, v⟩ := p
      have fresh : k ∉ d.entries.map Prod.fst := by
        rw [List.map_append, List.map_cons] at distinct
        exact fun member => List.disjoint_of_nodup_append distinct member List.mem_cons_self
      have stored : (d.insert k v).entries = d.entries ++ [(k, v)] := assocSet_fresh fresh v
      have later := ih (d := d.insert k v) (by rw [stored]; simpa using distinct)
      rw [List.foldl_cons, later, stored, List.append_assoc]
      rfl

theorem entries_ofList {l : List (κ × ν)} (distinct : (l.map Prod.fst).Nodup) :
    (ofList l).entries = l := entries_foldl distinct

/-- Lists of related values under the same keys are looked up alike. -/
theorem lookup_zip {α β : Type} {R : α → β → Prop} {xs : List α} {ys : List β}
    (related : List.Forall₂ R xs ys) (keys : List κ) (k : κ) :
    Option.Rel R ((keys.zip xs).lookup k) ((keys.zip ys).lookup k) := by
  induction related generalizing keys with
  | nil =>
      rw [List.zip_nil_right, List.zip_nil_right]
      exact .none
  | cons first _ ih =>
      cases keys with
      | nil => exact .none
      | cons key keys =>
          rw [List.zip_cons_cons, List.zip_cons_cons, List.lookup_cons, List.lookup_cons]
          split
          · exact .some first
          · exact ih keys

@[simp] theorem entries_erase (d : OrderedDict κ ν) (k : κ) :
    (d.erase k).entries = d.entries.filter (fun p => p.1 ≠ k) := rfl

theorem entries_foldl_erase (d : OrderedDict κ ν) (keys : List κ) :
    (keys.foldl (fun d k => d.erase k) d).entries = d.entries.filter (fun p => p.1 ∉ keys) := by
  induction keys generalizing d with
  | nil => simp
  | cons k keys ih =>
      rw [List.foldl_cons, ih, entries_erase, List.filter_filter]
      refine List.filter_congr fun p _ => ?_
      simp [Bool.and_comm]

/-- What is left when the first keys are erased. -/
theorem filter_front {front rest : List (κ × ν)} (distinct : ((front ++ rest).map Prod.fst).Nodup) :
    (front ++ rest).filter (fun p => p.1 ∉ front.map Prod.fst) = rest := by
  rw [List.map_append, List.nodup_append] at distinct
  obtain ⟨_, _, apart⟩ := distinct
  rw [List.filter_append]
  have gone : front.filter (fun p => p.1 ∉ front.map Prod.fst) = [] := by
    refine List.filter_eq_nil_iff.mpr fun p mem => ?_
    simpa using List.mem_map_of_mem (f := Prod.fst) mem
  have kept : rest.filter (fun p => p.1 ∉ front.map Prod.fst) = rest := by
    refine List.filter_eq_self.mpr fun p mem => ?_
    rw [decide_eq_true_eq]
    exact fun shared => apart p.1 shared p.1 (List.mem_map_of_mem mem) rfl
  rw [gone, kept, List.nil_append]

end OrderedDict

/-- A set listed in the order in which its elements first came in. -/
structure OrderedSet (α : Type) where
  elems : List α
  nodup : elems.Nodup

namespace OrderedSet

variable {α : Type} [DecidableEq α]

def empty : OrderedSet α := ⟨[], List.nodup_nil⟩

def add (s : OrderedSet α) (a : α) : OrderedSet α :=
  if h : a ∈ s.elems then s
  else ⟨s.elems ++ [a], by
    rw [List.nodup_append]
    exact ⟨s.nodup, List.nodup_singleton a, fun x hx y hy same => by
      rw [List.mem_singleton.mp hy] at same
      exact h (same ▸ hx)⟩⟩

@[simp] theorem mem_add (s : OrderedSet α) (a b : α) :
    b ∈ (s.add a).elems ↔ b ∈ s.elems ∨ b = a := by
  unfold add
  split
  · rename_i h
    constructor
    · exact .inl
    · rintro (hb | rfl)
      · exact hb
      · exact h
  · simp

theorem add_eq_self_iff (s : OrderedSet α) (a : α) : s.add a = s ↔ a ∈ s.elems := by
  constructor
  · intro same
    rw [← same, mem_add]
    exact .inr rfl
  · intro h
    unfold add
    rw [dif_pos h]

end OrderedSet
