import Mathlib.Algebra.GroupWithZero.Nat
import Mathlib.Data.List.MinMax
import Mathlib.Data.List.Nodup
import Mathlib.Data.List.Perm.Basic
import Mathlib.Algebra.Order.BigOperators.Group.List
import Mathlib.Algebra.Order.Group.Nat
import Mathlib.Data.List.Sort

/-! Tables with a primary key: their statements, and the relations between two states of one table. -/

namespace CredaCash

/-- The rows of a table, no two of which have the same key. -/
structure KeyedTable {α κ : Type*} (key : α → κ) where
  rows : List α
  nodup : (rows.map key).Nodup

namespace KeyedTable
variable {α κ : Type*} {key : α → κ}

instance : Membership α (KeyedTable key) := ⟨fun t r => r ∈ t.rows⟩

theorem mem_def {t : KeyedTable key} {r : α} : r ∈ t ↔ r ∈ t.rows := Iff.rfl

def empty : KeyedTable key := ⟨[], List.nodup_nil⟩

@[simp] theorem not_mem_empty (r : α) : r ∉ (empty : KeyedTable key) := List.not_mem_nil

/-- Change every row by a function that keeps the keys. -/
def map (t : KeyedTable key) (f : α → α) (hf : ∀ r, key (f r) = key r) : KeyedTable key :=
  ⟨t.rows.map f, by rw [List.map_map, show key ∘ f = key from funext hf]; exact t.nodup⟩

/-- Delete the rows without a property. -/
def filter (t : KeyedTable key) (p : α → Bool) : KeyedTable key :=
  ⟨t.rows.filter p, t.nodup.sublist (List.filter_sublist.map key)⟩

/-- The row that comes first in an order among those with a property. -/
def first {β : Type*} [LinearOrder β] (t : KeyedTable key) (p : α → Bool) (order : α → β) : Option α :=
  (t.rows.filter p).argmin order

/-- The rows with a property, in an order. -/
def sorted {β : Type*} [LinearOrder β] (t : KeyedTable key) (p : α → Bool) (order : α → β) : List α :=
  (t.rows.filter p).insertionSort fun a b => order a ≤ order b

section Keys
variable [DecidableEq κ]

def select (t : KeyedTable key) (k : κ) : Option α := t.rows.find? fun r => key r = k

/-- Change the row with a key. -/
def update (t : KeyedTable key) (k : κ) (f : α → α) (hf : ∀ r, key (f r) = key r) : KeyedTable key :=
  t.map (fun r => if key r = k then f r else r) fun r => by split_ifs <;> simp [hf]

def delete (t : KeyedTable key) (k : κ) : KeyedTable key :=
  ⟨t.rows.filter fun r => key r ≠ k, t.nodup.sublist (List.filter_sublist.map key)⟩

/-- Insert a row; none for a key that is in use. -/
def insert (t : KeyedTable key) (r : α) : Option (KeyedTable key) :=
  if h : key r ∈ t.rows.map key then none else some ⟨r :: t.rows, List.nodup_cons.2 ⟨h, t.nodup⟩⟩

/-- Insert a row, or merge it into the row that has its key. -/
def upsert (t : KeyedTable key) (r : α) (merge : α → α → α) (hmerge : ∀ old r, key (merge old r) = key old) :
    KeyedTable key :=
  if h : key r ∈ t.rows.map key then t.update (key r) (merge · r) fun old => hmerge old r
  else ⟨t.rows ++ [r], by
    rw [List.map_append, List.map_singleton]
    exact t.nodup.append (List.nodup_singleton _) (List.disjoint_singleton.2 h)⟩

end Keys

section Rows
variable {t t' : KeyedTable key} {r r' : α}

theorem eq_of_key (hr : r ∈ t) (hr' : r' ∈ t) (h : key r = key r') : r = r' :=
  List.inj_on_of_nodup_map t.nodup hr hr' h

@[simp] theorem mem_filter {p : α → Bool} : r ∈ t.filter p ↔ r ∈ t ∧ p r = true := List.mem_filter

@[simp] theorem mem_map {f : α → α} {hf : ∀ r, key (f r) = key r} :
    r ∈ t.map f hf ↔ ∃ a ∈ t, f a = r := List.mem_map

theorem mem_of_first {β : Type*} [LinearOrder β] {p : α → Bool} {order : α → β} (h : t.first p order = some r) :
    r ∈ t ∧ p r = true := List.mem_filter.1 (List.argmin_mem h)

theorem first_le {β : Type*} [LinearOrder β] {p : α → Bool} {order : α → β} (h : t.first p order = some r)
    (hr : r' ∈ t) (hp : p r' = true) : order r ≤ order r' :=
  List.le_of_mem_argmin (List.mem_filter.2 ⟨hr, hp⟩) h

theorem first_eq_none {β : Type*} [LinearOrder β] {p : α → Bool} {order : α → β} :
    t.first p order = none ↔ ∀ r ∈ t, p r = false := by
  rw [first, List.argmin_eq_none, List.filter_eq_nil_iff]
  simp [mem_def]

theorem mem_sorted {β : Type*} [LinearOrder β] {p : α → Bool} {order : α → β} :
    r ∈ t.sorted p order ↔ r ∈ t ∧ p r = true := by
  rw [sorted, List.mem_insertionSort, List.mem_filter, mem_def]

variable [DecidableEq κ] {k : κ}

theorem select_eq_some : t.select k = some r ↔ r ∈ t ∧ key r = k := by
  constructor
  · intro h
    exact ⟨List.mem_of_find?_eq_some h, by simpa using List.find?_some h⟩
  · rintro ⟨hr, rfl⟩
    obtain ⟨a, ha⟩ : ∃ a, t.select (key r) = some a :=
      Option.isSome_iff_exists.1 (List.find?_isSome.2 ⟨r, hr, by simp⟩)
    have hkey : key a = key r := by simpa using List.find?_some ha
    rw [ha, eq_of_key (List.mem_of_find?_eq_some ha) hr hkey]

theorem select_key (h : r ∈ t) : t.select (key r) = some r := select_eq_some.2 ⟨h, rfl⟩

theorem mem_of_select (h : t.select k = some r) : r ∈ t := (select_eq_some.1 h).1

theorem key_of_select (h : t.select k = some r) : key r = k := (select_eq_some.1 h).2

theorem select_eq_none : t.select k = none ↔ ∀ r ∈ t, key r ≠ k := by
  simp [select, mem_def]

theorem mem_update {f : α → α} {hf : ∀ r, key (f r) = key r} :
    r ∈ t.update k f hf ↔ ∃ a ∈ t, (if key a = k then f a else a) = r := mem_map

/-- The row that an update makes of a row. -/
theorem update_mem (h : r ∈ t) (k : κ) (f : α → α) (hf : ∀ r, key (f r) = key r) :
    (if key r = k then f r else r) ∈ t.update k f hf := mem_update.2 ⟨r, h, rfl⟩

theorem select_map {f : α → α} {hf : ∀ r, key (f r) = key r} : (t.map f hf).select k = (t.select k).map f := by
  cases h : t.select k with
  | none =>
    refine select_eq_none.2 fun r hr => ?_
    obtain ⟨a, ha, rfl⟩ := mem_map.1 hr
    rw [hf]
    exact select_eq_none.1 h a ha
  | some a =>
    obtain ⟨ha, rfl⟩ := select_eq_some.1 h
    exact select_eq_some.2 ⟨mem_map.2 ⟨a, ha, rfl⟩, hf a⟩

theorem select_update {f : α → α} {hf : ∀ r, key (f r) = key r} {k' : κ} :
    (t.update k f hf).select k' = (t.select k').map fun r => if k' = k then f r else r := by
  rw [update, select_map]
  cases h : t.select k' with
  | none => rfl
  | some a => rw [Option.map_some, Option.map_some, key_of_select h]

theorem update_eq_self {f : α → α} {hf : ∀ r, key (f r) = key r} (h : ∀ r, t.select k = some r → f r = r) :
    t.update k f hf = t := by
  have hrows : (t.update k f hf).rows = t.rows := by
    refine (List.map_congr_left fun r hr => ?_).trans (List.map_id t.rows)
    split_ifs with hk
    · exact h r (select_eq_some.2 ⟨hr, hk⟩)
    · rfl
  cases t
  simp only [update, map, mk.injEq] at hrows ⊢
  exact hrows

theorem mem_delete : r ∈ t.delete k ↔ r ∈ t ∧ key r ≠ k := by
  simp [delete, mem_def]

theorem select_delete {k' : κ} : (t.delete k).select k' = if k' = k then none else t.select k' := by
  split_ifs with hk
  · refine select_eq_none.2 fun r hr hkey => (mem_delete.1 hr).2 (hkey.trans hk)
  · cases h : t.select k' with
    | none => exact select_eq_none.2 fun r hr => select_eq_none.1 h r (mem_delete.1 hr).1
    | some a =>
      obtain ⟨ha, rfl⟩ := select_eq_some.1 h
      exact select_eq_some.2 ⟨mem_delete.2 ⟨ha, hk⟩, rfl⟩

theorem mem_of_insert (h : t.insert r' = some t') : r ∈ t' ↔ r = r' ∨ r ∈ t := by
  unfold insert at h
  split_ifs at h
  cases h
  simp [mem_def]

theorem key_ne_of_insert (h : t.insert r' = some t') : ∀ r ∈ t, key r ≠ key r' := by
  intro r hr hkey
  unfold insert at h
  split_ifs at h with hmem
  exact hmem (List.mem_map.2 ⟨r, hr, hkey⟩)

theorem insert_isSome (h : ∀ a ∈ t, key a ≠ key r) : ∃ t', t.insert r = some t' := by
  unfold insert
  rw [dif_neg fun hmem => ?_]
  · exact ⟨_, rfl⟩
  · obtain ⟨a, ha, hkey⟩ := List.mem_map.1 hmem
    exact h a ha hkey

section Upsert
variable {merge : α → α → α} {hmerge : ∀ old r, key (merge old r) = key old}

/-- The row that an upsert leaves under the key of its row. -/
theorem mem_upsert : r' ∈ t.upsert r merge hmerge ↔
    (r' ∈ t ∧ key r' ≠ key r) ∨ r' = (t.select (key r)).elim r (merge · r) := by
  unfold upsert
  split_ifs with h
  · obtain ⟨old, hold, hkey⟩ := List.mem_map.1 h
    rw [select_eq_some.2 ⟨mem_def.2 hold, hkey⟩, Option.elim_some, mem_update]
    constructor
    · rintro ⟨a, ha, rfl⟩
      split_ifs with hk
      · exact Or.inr (congrArg (merge · r) (eq_of_key ha hold (hk.trans hkey.symm)))
      · exact Or.inl ⟨ha, hk⟩
    · rintro (⟨hr', hne⟩ | rfl)
      · exact ⟨r', hr', if_neg hne⟩
      · exact ⟨old, hold, if_pos hkey⟩
  · have hnone : t.select (key r) = none := select_eq_none.2 fun a ha hkey => h (List.mem_map.2 ⟨a, ha, hkey⟩)
    rw [hnone, Option.elim_none]
    simp only [mem_def, List.mem_append, List.mem_singleton]
    exact or_congr_left ⟨fun hr' => ⟨hr', select_eq_none.1 hnone r' hr'⟩, And.left⟩

theorem select_upsert : (t.upsert r merge hmerge).select k =
    if k = key r then some ((t.select (key r)).elim r (merge · r)) else t.select k := by
  have hkey : key ((t.select (key r)).elim r (merge · r)) = key r := by
    cases h : t.select (key r) with
    | none => rfl
    | some old => exact (hmerge old r).trans (key_of_select h)
  split_ifs with hk
  · exact select_eq_some.2 ⟨mem_upsert.2 (Or.inr rfl), hkey.trans hk.symm⟩
  · cases h : t.select k with
    | none =>
      refine select_eq_none.2 fun a ha => ?_
      rcases mem_upsert.1 ha with ⟨ha, -⟩ | rfl
      · exact select_eq_none.1 h a ha
      · exact fun heq => hk (heq.symm.trans hkey)
    | some a =>
      obtain ⟨ha, rfl⟩ := select_eq_some.1 h
      exact select_eq_some.2 ⟨mem_upsert.2 (Or.inl ⟨ha, hk⟩), rfl⟩

end Upsert

end Rows

/-- Two states of one table with the same keys, and a relation between the rows of each key. -/
structure Rel (R : α → α → Prop) (t t' : KeyedTable key) : Prop where
  mem : ∀ r ∈ t, ∃ r' ∈ t', key r' = key r ∧ R r r'
  mem_right : ∀ r' ∈ t', ∃ r ∈ t, key r' = key r ∧ R r r'

namespace Rel
variable {R : α → α → Prop} {t t' t'' : KeyedTable key} {r : α}

theorem refl (hR : ∀ a, R a a) (t : KeyedTable key) : Rel R t t :=
  ⟨fun r hr => ⟨r, hr, rfl, hR r⟩, fun r hr => ⟨r, hr, rfl, hR r⟩⟩

theorem trans (hR : ∀ a b c, R a b → R b c → R a c) (h : Rel R t t') (h' : Rel R t' t'') : Rel R t t'' := by
  constructor
  · intro a ha
    obtain ⟨b, hb, hkey, hab⟩ := h.mem a ha
    obtain ⟨c, hc, hkey', hbc⟩ := h'.mem b hb
    exact ⟨c, hc, hkey'.trans hkey, hR a b c hab hbc⟩
  · intro c hc
    obtain ⟨b, hb, hkey', hbc⟩ := h'.mem_right c hc
    obtain ⟨a, ha, hkey, hab⟩ := h.mem_right b hb
    exact ⟨a, ha, hkey'.trans hkey, hR a b c hab hbc⟩

theorem of_map {f : α → α} {hf : ∀ r, key (f r) = key r} (h : ∀ a ∈ t, R a (f a)) : Rel R t (t.map f hf) := by
  refine ⟨fun a ha => ⟨f a, mem_map.2 ⟨a, ha, rfl⟩, hf a, h a ha⟩, fun b hb => ?_⟩
  obtain ⟨a, ha, rfl⟩ := mem_map.1 hb
  exact ⟨a, ha, hf a, h a ha⟩

theorem of_update [DecidableEq κ] {k : κ} {f : α → α} {hf : ∀ r, key (f r) = key r} (hR : ∀ a, R a a)
    (h : ∀ a, t.select k = some a → R a (f a)) : Rel R t (t.update k f hf) := by
  refine of_map fun a ha => ?_
  split_ifs with hk
  · exact h a (select_eq_some.2 ⟨ha, hk⟩)
  · exact hR a

theorem select [DecidableEq κ] (h : Rel R t t') {k : κ} (hr : t.select k = some r) :
    ∃ r', t'.select k = some r' ∧ R r r' := by
  obtain ⟨hmem, rfl⟩ := select_eq_some.1 hr
  obtain ⟨r', hr', hkey, hrel⟩ := h.mem r hmem
  exact ⟨r', select_eq_some.2 ⟨hr', hkey⟩, hrel⟩

end Rel

section Totals
variable {t t' : KeyedTable key} {r : α} {f : α → ℕ}

/-- The sum of a column. -/
def total (t : KeyedTable key) (f : α → ℕ) : ℕ := (t.rows.map f).sum

theorem le_total (h : r ∈ t) : f r ≤ t.total f := List.le_sum_of_mem (List.mem_map_of_mem h)

theorem total_map_eq {g : α → α} {hg : ∀ r, key (g r) = key r} : (t.map g hg).total f = t.total fun r => f (g r) := by
  rw [total, map, List.map_map]
  rfl

theorem total_congr {f' : α → ℕ} (h : ∀ r ∈ t, f r = f' r) : t.total f = t.total f' :=
  congrArg List.sum (List.map_congr_left h)

theorem total_map {g : α → α} {hg : ∀ r, key (g r) = key r} (h : ∀ r ∈ t, f (g r) = f r) :
    (t.map g hg).total f = t.total f := total_map_eq.trans (total_congr h)

variable [DecidableEq κ] {k : κ}

theorem total_insert (h : t.insert r = some t') : t'.total f = f r + t.total f := by
  unfold insert at h
  split_ifs at h
  cases h
  exact List.sum_cons

theorem total_delete (h : t.select k = some r) : t.total f = f r + (t.delete k).total f := by
  obtain ⟨hr, rfl⟩ := select_eq_some.1 h
  obtain ⟨l, l', hrows⟩ := List.append_of_mem hr
  have hnodup := t.nodup
  rw [hrows, List.map_append, List.map_cons, List.nodup_middle, List.nodup_cons, List.mem_append] at hnodup
  have hother {s : List α} (hs : key r ∉ s.map key) : s.filter (fun a => key a ≠ key r) = s := by
    refine List.filter_eq_self.2 fun a ha => ?_
    exact decide_eq_true fun heq => hs (heq ▸ List.mem_map_of_mem ha)
  have hdelete : (t.delete (key r)).rows = l ++ l' := by
    change t.rows.filter (fun a => key a ≠ key r) = l ++ l'
    rw [hrows, List.filter_append, List.filter_cons_of_neg (by simp), hother fun h => hnodup.1 (.inl h),
      hother fun h => hnodup.1 (.inr h)]
  unfold total
  rw [hdelete, hrows]
  simp only [List.map_append, List.map_cons, List.sum_append, List.sum_cons]
  omega

theorem total_update {g : α → α} {hg : ∀ r, key (g r) = key r} (h : t.select k = some r) :
    (t.update k g hg).total f + f r = t.total f + f (g r) := by
  have h' : (t.update k g hg).select k = some (g r) := by rw [select_update, h, Option.map_some, if_pos rfl]
  have hdelete : (t.update k g hg).delete k = t.delete k := by
    have hrows : ((t.update k g hg).delete k).rows = (t.delete k).rows := by
      simp only [delete, update, map]
      rw [List.filter_map]
      have hkeys : (fun a => decide (key a ≠ k)) ∘ (fun a => if key a = k then g a else a) =
          fun a => decide (key a ≠ k) := by
        funext a
        simp only [Function.comp_apply]
        split_ifs with ha
        · rw [hg]
        · rfl
      rw [hkeys]
      refine (List.map_congr_left fun a ha => ?_).trans (List.map_id _)
      rw [if_neg (of_decide_eq_true (List.mem_filter.1 ha).2), id]
    cases hd : (t.update k g hg).delete k
    cases hd' : t.delete k
    rw [hd, hd'] at hrows
    cases hrows
    rfl
  have hnew := total_delete (f := f) h'
  have hold := total_delete (f := f) h
  rw [hdelete] at hnew
  omega

/-- An upsert adds what it makes of its row, and takes away the row that was there. -/
theorem total_upsert {merge : α → α → α} {hmerge : ∀ old r, key (merge old r) = key old} :
    (t.upsert r merge hmerge).total f + (t.select (key r)).elim 0 f =
      t.total f + f ((t.select (key r)).elim r (merge · r)) := by
  unfold upsert
  split_ifs with h
  · obtain ⟨old, hold, hkey⟩ := List.mem_map.1 h
    have hselect := select_eq_some.2 ⟨mem_def.2 hold, hkey⟩
    rw [hselect, Option.elim_some, Option.elim_some]
    exact total_update hselect
  · have hnone : t.select (key r) = none := select_eq_none.2 fun a ha hkey => h (List.mem_map.2 ⟨a, ha, hkey⟩)
    rw [hnone, Option.elim_none, Option.elim_none]
    simp [total]

end Totals

section Sums
variable {β : Type*} {t : KeyedTable key} {p : α → Bool} {l : List β} {k : β → κ}

/-- A list whose members name the rows with a property, each of them once. -/
structure Lists (t : KeyedTable key) (p : α → Bool) (l : List β) (k : β → κ) : Prop where
  nodup : (l.map k).Nodup
  row : ∀ b ∈ l, ∃ r ∈ t, key r = k b ∧ p r = true
  named : ∀ r ∈ t, p r = true → ∃ b ∈ l, k b = key r

theorem Lists.perm (h : t.Lists p l k) : ((t.rows.filter p).map key).Perm (l.map k) := by
  refine (List.perm_ext_iff_of_nodup (t.nodup.sublist (List.filter_sublist.map key)) h.nodup).2 fun x => ?_
  simp only [List.mem_map, List.mem_filter]
  constructor
  · rintro ⟨r, ⟨hr, hp⟩, rfl⟩
    exact h.named r hr hp
  · rintro ⟨b, hb, rfl⟩
    obtain ⟨r, hr, hkey, hp⟩ := h.row b hb
    exact ⟨r, ⟨hr, hp⟩, hkey⟩

/-- A sum over the rows with a property is a sum over a list that names them. -/
theorem Lists.sum_eq [DecidableEq κ] (h : t.Lists p l k) {g : α → ℕ} {g' : β → ℕ}
    (hg : ∀ b ∈ l, ∀ r ∈ t, key r = k b → g r = g' b) :
    ((t.rows.filter p).map g).sum = (l.map g').sum := by
  have hrows : (t.rows.filter p).map g =
      ((t.rows.filter p).map key).map fun x => (t.select x).elim 0 g := by
    rw [List.map_map]
    refine List.map_congr_left fun r hr => ?_
    simp [select_key (List.mem_filter.1 hr).1]
  have hlist : l.map g' = (l.map k).map fun x => (t.select x).elim 0 g := by
    rw [List.map_map]
    refine List.map_congr_left fun b hb => ?_
    obtain ⟨r, hr, hkey, -⟩ := h.row b hb
    rw [Function.comp_apply, ← hkey, select_key hr]
    exact (hg b hb r hr hkey).symm
  rw [hrows, hlist]
  exact (h.perm.map _).sum_eq

end Sums

end KeyedTable
end CredaCash
