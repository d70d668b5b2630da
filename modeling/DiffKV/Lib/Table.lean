/-
Keyed tables: finite collections in which every value is filed under a
key it carries itself, at most one value to a key.

This is the shape of a hash map whose key is a projection of the stored
object (`key = fun m => m.number`), and, at `key = Prod.fst`, of an
ordinary map. The `nodup` field carries the "one value to a key" half,
so a table with a duplicate cannot be built and no lemma below has to
assume it away.

Every operation comes with its `find` equation; proofs about a client
rewrite with those and never look at `entries`. The list order is the
iteration order of the map, which no `find` equation depends on.
-/
import Mathlib.Data.List.Nodup

namespace Lib

open List

universe u v

/-- A finite table of `α`, each entry filed under `key` of itself. -/
@[ext] structure Table {κ : Type u} {α : Type v} (key : α → κ) where
  entries : List α
  nodup : (entries.map key).Nodup

namespace Table

variable {κ : Type u} {α : Type v} {key : α → κ}

-- ==== operations

/-- The table with nothing filed. -/
def empty : Table key := ⟨[], List.nodup_nil⟩

section

variable [DecidableEq κ] (t : Table key)

/-- The entry filed under `k`. -/
def find (t : Table key) (k : κ) : Option α :=
  t.entries.find? fun a => key a = k

/-- Something is filed under `k`. -/
def contains (t : Table key) (k : κ) : Bool :=
  (t.find k).isSome

theorem find_eq_none_iff {t : Table key} {k : κ} :
    t.find k = none ↔ ∀ a ∈ t.entries, key a ≠ k := by
  simp [find, find?_eq_none]

theorem key_of_find {t : Table key} {k : κ} {a : α} (h : t.find k = some a) : key a = k := by
  have := find?_some h
  simpa using this

theorem mem_of_find {t : Table key} {k : κ} {a : α} (h : t.find k = some a) : a ∈ t.entries :=
  mem_of_find?_eq_some h

/-- A filed entry is what its own key finds: this is where `nodup` is
spent. -/
theorem find_of_mem {t : Table key} {a : α} (h : a ∈ t.entries) : t.find (key a) = some a := by
  obtain ⟨l, hn⟩ := t
  unfold find
  induction l with
  | nil => cases h
  | cons b l ih =>
    rw [map_cons, nodup_cons] at hn
    rcases mem_cons.1 h with rfl | hmem
    · simp
    · have hne : key b ≠ key a := fun he =>
        hn.1 (he ▸ mem_map_of_mem hmem)
      rw [find?_cons_of_neg (by simpa using hne)]
      exact ih hn.2 hmem

theorem mem_iff_find {t : Table key} {a : α} :
    a ∈ t.entries ↔ t.find (key a) = some a := ⟨find_of_mem, mem_of_find⟩

theorem contains_iff {t : Table key} {k : κ} :
    t.contains k = true ↔ ∃ a, t.find k = some a := Option.isSome_iff_exists

theorem contains_eq_false_iff {t : Table key} {k : κ} : t.contains k = false ↔ t.find k = none := by
  simp [contains]

theorem contains_of_mem {t : Table key} {a : α} (h : a ∈ t.entries) :
    t.contains (key a) = true := contains_iff.2 ⟨a, find_of_mem h⟩

theorem forall_entries_iff {t : Table key} {P : κ → Prop} :
    (∀ a ∈ t.entries, P (key a)) ↔ ∀ k, t.contains k = true → P k := by
  refine ⟨fun h k hk => ?_, fun h a ha => h _ (contains_of_mem ha)⟩
  obtain ⟨a, ha⟩ := contains_iff.1 hk
  rw [← key_of_find ha]
  exact h a (mem_of_find ha)

@[simp] theorem find_empty (k : κ) : (empty : Table key).find k = none := rfl

@[simp] theorem contains_empty (k : κ) : (empty : Table key).contains k = false := rfl

/-- File `a` unless its key is taken (`emplace`: the first one wins). -/
def emplace (t : Table key) (a : α) : Table key :=
  if h : t.find (key a) = none then
    ⟨t.entries ++ [a], by
      rw [List.map_append, List.nodup_append]
      refine ⟨t.nodup, List.nodup_singleton _, ?_⟩
      intro x hx y hy
      obtain ⟨b, hb, rfl⟩ := List.mem_map.1 hx
      rw [List.map_singleton, List.mem_singleton] at hy
      rw [hy]
      exact find_eq_none_iff.1 h b hb⟩
  else t

theorem find_emplace (a : α) (k : κ) :
    (t.emplace a).find k = if key a = k then (t.find k).or (some a) else t.find k := by
  unfold emplace
  split
  case isTrue h =>
    unfold find at h ⊢
    rw [find?_append]
    by_cases hk : key a = k
    · subst hk
      rw [h, if_pos rfl]
      simp
    · rw [if_neg hk]
      simp [hk]
  case isFalse h =>
    by_cases hk : key a = k
    · subst hk
      rw [if_pos rfl]
      cases hf : t.find (key a) with
      | none => exact absurd hf h
      | some b => rfl
    · rw [if_neg hk]

/-- Remove what is filed under `k`. -/
def erase (t : Table key) (k : κ) : Table key :=
  ⟨t.entries.filter fun a => key a ≠ k, t.nodup.sublist (List.filter_sublist.map key)⟩

theorem find_erase (k k' : κ) : (t.erase k).find k' = if k' = k then none else t.find k' := by
  unfold find erase
  simp only [find?_filter]
  by_cases hk : k' = k
  · subst hk
    rw [if_pos rfl, find?_eq_none]
    simp
  · rw [if_neg hk]
    congr 1
    funext a
    by_cases ha : key a = k'
    · simp [ha, hk]
    · simp [ha]

/-- Keep the entries that pass `p`. -/
def filter (t : Table key) (p : α → Bool) : Table key :=
  ⟨t.entries.filter p, t.nodup.sublist (List.filter_sublist.map key)⟩

theorem find_filter (p : α → Bool) (k : κ) : (t.filter p).find k = (t.find k).filter p := by
  cases hf : t.find k with
  | none =>
    rw [find_eq_none_iff] at hf
    rw [Option.filter_none, find_eq_none_iff]
    intro a ha
    exact hf a (mem_filter.1 ha).1
  | some a =>
    obtain rfl := key_of_find hf
    cases hp : p a with
    | true =>
      rw [Option.filter_some, if_pos hp]
      exact find_of_mem (mem_filter.2 ⟨mem_of_find hf, hp⟩)
    | false =>
      rw [Option.filter_some, if_neg (by simp [hp]), find_eq_none_iff]
      intro b hb hk
      obtain ⟨hmem, hpb⟩ := mem_filter.1 hb
      have hb' := find_of_mem hmem
      rw [hk, hf] at hb'
      obtain rfl := Option.some.inj hb'
      rw [hp] at hpb
      cases hpb

end

/-- Rewrite every entry, keys kept. -/
def map (t : Table key) (f : α → α) (hf : ∀ a, key (f a) = key a) : Table key :=
  ⟨t.entries.map f, by
    have h : key ∘ f = key := funext hf
    rw [List.map_map, h]
    exact t.nodup⟩

variable [DecidableEq κ] (t : Table key)

theorem find_map (f : α → α) (hf : ∀ a, key (f a) = key a) (k : κ) :
    (t.map f hf).find k = (t.find k).map f := by
  unfold find map
  simp only [find?_map]
  congr 2
  funext a
  simp [hf]

/-- Rewrite the entry filed under `k`, its key kept. -/
def modify (t : Table key) (k : κ) (f : α → α) (hf : ∀ a, key (f a) = key a) : Table key :=
  t.map (fun a => if key a = k then f a else a) fun a => by by_cases h : key a = k <;> simp [h, hf]

theorem find_modify (k : κ) (f : α → α) (hf : ∀ a, key (f a) = key a) (k' : κ) :
    (t.modify k f hf).find k' = if k' = k then (t.find k').map f else t.find k' := by
  unfold modify
  rw [find_map]
  cases ht : t.find k' with
  | none => simp
  | some a =>
    have hk := key_of_find ht
    by_cases he : k' = k
    · simp [hk, he]
    · simp [hk, he]

/-- What an entry and the table without it make up. -/
theorem perm_erase {t : Table key} {k : κ} {a : α} (h : t.find k = some a) :
    t.entries.Perm (a :: (t.erase k).entries) := by
  have hk := key_of_find h
  have hmem := mem_of_find h
  have hnodup := t.nodup
  unfold erase
  dsimp only
  generalize t.entries = l at hmem hnodup
  induction l with
  | nil => cases hmem
  | cons b l ih =>
    rw [map_cons, nodup_cons] at hnodup
    by_cases hb : key b = k
    · -- the entry itself; no other has its key
      have hrest : l.filter (fun a => key a ≠ k) = l := by
        rw [filter_eq_self]
        intro c hc
        refine decide_eq_true fun hck => hnodup.1 ?_
        rw [hb, ← hck]
        exact mem_map_of_mem hc
      have hab : a = b := by
        rcases mem_cons.1 hmem with rfl | hal
        · rfl
        · exact absurd (hb.trans hk.symm ▸ mem_map_of_mem hal) hnodup.1
      rw [filter_cons_of_neg (by simpa using hb), hrest, hab]
    · have hal : a ∈ l := by
        rcases mem_cons.1 hmem with rfl | hal
        · exact absurd hk hb
        · exact hal
      rw [filter_cons_of_pos (by simpa using hb)]
      exact ((ih hal hnodup.2).cons b).trans (List.Perm.swap a b _)

/-- The same after the entry is rewritten. -/
theorem perm_modify {t : Table key} {k : κ} {a : α} (h : t.find k = some a)
    (f : α → α) (hf : ∀ a, key (f a) = key a) :
    (t.modify k f hf).entries.Perm (f a :: (t.erase k).entries) := by
  have hmap := (perm_erase h).map fun a => if key a = k then f a else a
  have hrest : (t.erase k).entries.map (fun a => if key a = k then f a else a)
      = (t.erase k).entries := by
    refine (map_congr_left fun b hb => ?_).trans (map_id _)
    exact if_neg (of_decide_eq_true (mem_filter.1 hb).2)
  rw [map_cons, if_pos (key_of_find h), hrest] at hmap
  exact hmap

/-- A new key goes behind the others. -/
theorem entries_emplace {t : Table key} {a : α} (h : t.find (key a) = none) :
    (t.emplace a).entries = t.entries ++ [a] := by
  unfold emplace
  rw [dif_pos h]

-- ==== folds of emplace

/-- Emplacing a list: what was filed stays, and a new key is filed with
its first occurrence. -/
theorem find_foldl_emplace (l : List α) (t : Table key) (k : κ) :
    (l.foldl emplace t).find k = (t.find k).or (l.find? fun a => key a = k) := by
  induction l generalizing t with
  | nil => simp
  | cons a l ih =>
    rw [foldl_cons, ih, find_emplace]
    by_cases hk : key a = k
    · rw [if_pos hk, find?_cons_of_pos (by simpa using hk), Option.or_assoc, Option.some_or]
    · rw [if_neg hk, find?_cons_of_neg (by simpa using hk)]

/-- Emplacing fresh keys into a table appends them. -/
theorem entries_foldl_emplace (l : List α) (t : Table key) (h : ((t.entries ++ l).map key).Nodup) :
    (l.foldl emplace t).entries = t.entries ++ l := by
  induction l generalizing t with
  | nil => simp
  | cons a l ih =>
    have hfree : t.find (key a) = none := by
      rw [find_eq_none_iff]
      intro b hb he
      rw [map_append, nodup_append] at h
      exact h.2.2 _ (mem_map_of_mem hb) _ (mem_map_of_mem mem_cons_self) he
    have ha := entries_emplace hfree
    rw [foldl_cons, ih, ha, append_assoc, singleton_append]
    rw [ha, append_assoc, singleton_append]
    exact h

/-- Emplacing a table's own entries rebuilds it. -/
theorem foldl_emplace_entries : t.entries.foldl emplace empty = t :=
  Table.ext (entries_foldl_emplace t.entries empty t.nodup)

-- ==== maps

variable {β : Type v} (m : Table (Prod.fst : κ × β → κ))

/-- The value a map files under `k`. -/
def lookup (m : Table (Prod.fst : κ × β → κ)) (k : κ) : Option β :=
  (m.find k).map Prod.snd

/-- File `b` under `k`, replacing what was there. -/
def insert (m : Table (Prod.fst : κ × β → κ)) (k : κ) (b : β) : Table (Prod.fst : κ × β → κ) :=
  (m.erase k).emplace (k, b)

@[simp] theorem lookup_empty (k : κ) : (empty : Table (Prod.fst : κ × β → κ)).lookup k = none := rfl

theorem lookup_insert (k k' : κ) (b : β) :
    (m.insert k b).lookup k' = if k' = k then some b else m.lookup k' := by
  unfold lookup insert
  rw [find_emplace, find_erase]
  by_cases hk : k' = k
  · simp [hk]
  · simp [hk, Ne.symm hk]

theorem lookup_emplace (k k' : κ) (b : β) :
    (m.emplace (k, b)).lookup k' = if k' = k then (m.lookup k').or (some b) else m.lookup k' := by
  unfold lookup
  rw [find_emplace]
  by_cases hk : k' = k
  · rw [if_pos hk.symm, if_pos hk]
    cases m.find k' <;> rfl
  · rw [if_neg (Ne.symm hk), if_neg hk]

theorem lookup_erase (k k' : κ) : (m.erase k).lookup k' = if k' = k then none else m.lookup k' := by
  unfold lookup
  rw [find_erase]
  split <;> rfl

theorem lookup_foldl_erase (l : List κ) (k : κ) :
    (l.foldl erase m).lookup k = if k ∈ l then none else m.lookup k := by
  induction l generalizing m with
  | nil => simp
  | cons x l ih =>
    rw [foldl_cons, ih, lookup_erase]
    by_cases hk : k = x <;> simp [hk]

theorem entries_insert (k : κ) (b : β) :
    (m.insert k b).entries = (m.entries.filter fun a => a.1 ≠ k) ++ [(k, b)] := by
  have h : (m.erase k).find k = none := by rw [find_erase, if_pos rfl]
  unfold insert emplace
  rw [dif_pos h]
  rfl

/-- The later of two insertions under one key stands. -/
@[simp] theorem insert_insert (k : κ) (b c : β) : (m.insert k b).insert k c = m.insert k c := by
  apply Table.ext
  rw [entries_insert, entries_insert, entries_insert, filter_append, filter_filter]
  simp

/-- Change every value. -/
def mapVal (m : Table (Prod.fst : κ × β → κ)) (f : β → β) : Table (Prod.fst : κ × β → κ) :=
  m.map (fun x => (x.1, f x.2)) fun _ => rfl

@[simp] theorem lookup_mapVal (f : β → β) (k : κ) : (m.mapVal f).lookup k = (m.lookup k).map f := by
  unfold lookup mapVal
  rw [find_map]
  cases m.find k <;> rfl

theorem mem_entries_iff {m : Table (Prod.fst : κ × β → κ)} {k : κ}
    {b : β} : (k, b) ∈ m.entries ↔ m.lookup k = some b := by
  unfold lookup
  constructor
  · intro h
    rw [show m.find k = some (k, b) from find_of_mem h]
    rfl
  · intro h
    obtain ⟨⟨k', b'⟩, hf, rfl⟩ := Option.map_eq_some_iff.1 h
    obtain rfl := key_of_find hf
    exact mem_of_find hf

/-- The first entry that answers a question about key `k` alone. -/
theorem findSome_entries {γ : Type*} (k : κ) (f : β → Option γ) :
    m.entries.findSome? (fun x => if x.1 = k then f x.2 else none) = (m.lookup k).bind f := by
  obtain ⟨l, hn⟩ := m
  unfold lookup find
  induction l with
  | nil => rfl
  | cons x l ih =>
    rw [map_cons, nodup_cons] at hn
    rw [findSome?_cons, find?_cons]
    by_cases hk : x.1 = k
    · have hrest : l.findSome? (fun x => if x.1 = k then f x.2 else none) = none := by
        rw [findSome?_eq_none_iff]
        intro y hy
        refine if_neg fun hyk => hn.1 (mem_map.2 ⟨y, hy, ?_⟩)
        rw [hyk, hk]
      rw [if_pos hk, decide_eq_true hk, hrest]
      cases hf : f x.2 <;> simp [hf]
    · rw [if_neg hk, decide_eq_false hk]
      exact ih hn.2

theorem mem_keys_iff {m : Table (Prod.fst : κ × β → κ)} {k : κ} :
    k ∈ m.entries.map Prod.fst ↔ (m.lookup k).isSome = true := by
  rw [mem_map, Option.isSome_iff_exists]
  constructor
  · rintro ⟨⟨k', b⟩, hb, rfl⟩
    exact ⟨b, mem_entries_iff.1 hb⟩
  · rintro ⟨b, hb⟩
    exact ⟨(k, b), mem_entries_iff.2 hb, rfl⟩

/-- Maps with the same keys have the same number of entries. -/
theorem length_entries_eq {γ : Type*} (m' : Table (Prod.fst : κ × γ → κ))
    (h : ∀ k, (m.lookup k).isSome = (m'.lookup k).isSome) :
    m.entries.length = m'.entries.length := by
  have hperm : (m.entries.map Prod.fst).Perm (m'.entries.map Prod.fst) := by
    rw [perm_ext_iff_of_nodup m.nodup m'.nodup]
    intro k
    rw [mem_keys_iff, mem_keys_iff, h k]
  simpa using hperm.length_eq

/-- A loop over a map whose body, at an entry, changes only what is seen
under the key of the entry: every key is visited at most once. -/
theorem foldl_entries_view {σ γ : Type*} (view : σ → κ → γ) (g : β → γ → γ) {f : σ → κ × β → σ}
    (h : ∀ s x k, view (f s x) k = if k = x.1 then g x.2 (view s k) else view s k)
    (m : Table (Prod.fst : κ × β → κ)) (s : σ) (k : κ) :
    view (m.entries.foldl f s) k = (m.lookup k).elim (view s k) fun b => g b (view s k) := by
  obtain ⟨l, hn⟩ := m
  unfold lookup find
  induction l generalizing s with
  | nil => rfl
  | cons x l ih =>
    rw [map_cons, nodup_cons] at hn
    rw [foldl_cons, ih (f s x) hn.2, h, find?_cons]
    by_cases hk : k = x.1
    · have hrest : l.find? (fun a => decide (a.1 = k)) = none := by
        rw [find?_eq_none]
        intro a ha hak
        exact hn.1 (mem_map.2 ⟨a, ha, by simpa [hk] using hak⟩)
      rw [hrest, if_pos hk, decide_eq_true hk.symm]
      rfl
    · rw [if_neg hk, decide_eq_false fun he => hk he.symm]

omit [DecidableEq κ] in
/-- What such a loop puts out, if an entry puts out what depends on what
is seen under its key. -/
theorem foldl_entries_emit {σ γ ω : Type*} (view : σ → κ → γ)
    (out : σ → List ω) (emit : κ × β → γ → List ω) {f : σ → κ × β → σ}
    (hview : ∀ s x k, k ≠ x.1 → view (f s x) k = view s k)
    (hout : ∀ s x, out (f s x) = out s ++ emit x (view s x.1))
    (m : Table (Prod.fst : κ × β → κ)) (s : σ) :
    out (m.entries.foldl f s) = out s ++ m.entries.flatMap fun x => emit x (view s x.1) := by
  obtain ⟨l, hn⟩ := m
  induction l generalizing s with
  | nil => simp
  | cons x l ih =>
    rw [map_cons, nodup_cons] at hn
    have hrest : (l.flatMap fun y => emit y (view (f s x) y.1))
        = l.flatMap fun y => emit y (view s y.1) := by
      refine flatMap_congr fun y hy => ?_
      rw [hview s x y.1 fun he => hn.1 (he ▸ mem_map_of_mem hy)]
    rw [foldl_cons, ih (f s x) hn.2, hout, hrest, flatMap_cons, append_assoc]

theorem contains_eq_isSome (k : κ) : m.contains k = (m.lookup k).isSome := by
  simp [contains, lookup]

end Table

/-- An ordinary finite map: a table of pairs keyed by the first
component. -/
abbrev Map (κ : Type u) (β : Type v) := Table (Prod.fst : κ × β → κ)

end Lib
