import Mathlib.Data.List.Sort

/-!
# Association lists

Maps as lists of entries. `get` finds the first entry of a key; `put` and `erase` keep no order, `insert`
keeps the entries by ascending key. What an operation does to a key is said with `get`, and all of it
comes from `get_filter`: to keep the entries of some keys keeps what these keys have.
-/

namespace Assoc

variable {κ α β : Type*} [DecidableEq κ]

def get (entries : List (κ × α)) (k : κ) : Option α := (entries.find? (·.1 = k)).map (·.2)

def erase (entries : List (κ × α)) (k : κ) : List (κ × α) := entries.filter (·.1 ≠ k)

def put (entries : List (κ × α)) (k : κ) (a : α) : List (κ × α) := (k, a) :: erase entries k

def insert [LinearOrder κ] (entries : List (κ × α)) (k : κ) (a : α) : List (κ × α) :=
  entries.filter (·.1 < k) ++ (k, a) :: entries.filter (k < ·.1)

def keys (entries : List (κ × α)) : List κ := entries.map (·.1)

variable {entries rest : List (κ × α)} {k k' : κ} {a : α}

omit [DecidableEq κ] in
theorem keys_map (f : κ × α → β) : keys (entries.map fun e => (e.1, f e)) = keys entries := by
  simp [keys, Function.comp_def]

@[simp] theorem get_nil : get ([] : List (κ × α)) k = none := rfl

@[simp] theorem get_cons_self : get ((k, a) :: rest) k = some a := by simp [get]

theorem get_cons_of_ne (h : k' ≠ k) : get ((k', a) :: rest) k = get rest k := by
  rw [get, List.find?_cons_of_neg (by simpa using h)]
  rfl

theorem get_append : get (entries ++ rest) k = (get entries k).or (get rest k) := by
  rw [get, List.find?_append, get, get]
  cases entries.find? (·.1 = k) <;> rfl

theorem get_filter (p : κ → Bool) : get (entries.filter fun e => p e.1) k = if p k then get entries k else none := by
  induction entries with
  | nil => simp
  | cons e entries ih =>
    obtain ⟨k', a⟩ := e
    by_cases hk : k' = k
    · subst hk
      by_cases hp : p k' = true
      · rw [List.filter_cons_of_pos (by simpa using hp), get_cons_self, get_cons_self, if_pos hp]
      · rw [List.filter_cons_of_neg (by simpa using hp), ih, if_neg hp, if_neg hp]
    · rw [get_cons_of_ne hk]
      by_cases hp : p k' = true
      · rw [List.filter_cons_of_pos (by simpa using hp), get_cons_of_ne hk, ih]
      · rw [List.filter_cons_of_neg (by simpa using hp), ih]

@[simp] theorem get_erase_self : get (erase entries k) k = none :=
  (get_filter fun k' => decide (k' ≠ k)).trans (by simp)

theorem get_erase_of_ne (h : k' ≠ k) : get (erase entries k) k' = get entries k' :=
  (get_filter fun k' => decide (k' ≠ k)).trans (by simp [h])

@[simp] theorem get_put_self : get (put entries k a) k = some a := get_cons_self

theorem get_put_of_ne (h : k' ≠ k) : get (put entries k a) k' = get entries k' := by
  rw [put, get_cons_of_ne h.symm, get_erase_of_ne h]

theorem get_put_isSome (h : (get entries k').isSome = true) : (get (put entries k a) k').isSome = true := by
  by_cases hk : k' = k
  · rw [hk, get_put_self]
    rfl
  · rwa [get_put_of_ne hk]

theorem mem_of_get (h : get entries k = some a) : (k, a) ∈ entries := by
  obtain ⟨e, he, rfl⟩ := Option.map_eq_some_iff.1 h
  have hk : e.1 = k := by simpa using List.find?_some he
  rw [← hk]
  exact List.mem_of_find?_eq_some he

theorem mem_iff_get (h : (keys entries).Nodup) : (k, a) ∈ entries ↔ get entries k = some a := by
  refine ⟨fun hmem => ?_, mem_of_get⟩
  induction entries with
  | nil => cases hmem
  | cons e entries ih =>
    obtain ⟨k', a'⟩ := e
    obtain ⟨hnot, hnodup⟩ := List.nodup_cons.1 h
    rcases List.mem_cons.1 hmem with heq | hmem
    · cases heq
      exact get_cons_self
    · have hne : k' ≠ k := by
        rintro rfl
        exact hnot (List.mem_map.2 ⟨_, hmem, rfl⟩)
      rw [get_cons_of_ne hne]
      exact ih hnodup hmem

omit [DecidableEq κ] in
theorem nodup_of_keys (h : (keys entries).Nodup) : entries.Nodup := List.Nodup.of_map _ h

theorem perm_of_get {entries' : List (κ × α)} (h : (keys entries).Nodup) (h' : (keys entries').Nodup)
    (hget : ∀ k, get entries k = get entries' k) : entries.Perm entries' := by
  refine (List.perm_ext_iff_of_nodup (nodup_of_keys h) (nodup_of_keys h')).2 fun e => ?_
  rw [mem_iff_get h, mem_iff_get h', hget]

omit [DecidableEq κ] in
theorem keys_perm {entries' : List (κ × α)} (h : entries.Perm entries') : (keys entries).Perm (keys entries') := h.map _

theorem get_perm {entries' : List (κ × α)} (h : (keys entries).Nodup) (hp : entries.Perm entries')
    (k : κ) : get entries k = get entries' k := by
  have h' : (keys entries').Nodup := (keys_perm hp).nodup_iff.1 h
  ext a
  rw [← mem_iff_get h, ← mem_iff_get h', hp.mem_iff]

theorem get_mapKeyed (f : κ → α → β) : get (entries.map fun e => (e.1, f e.1 e.2)) k = (get entries k).map (f k) := by
  induction entries with
  | nil => rfl
  | cons e entries ih =>
    obtain ⟨k', a⟩ := e
    by_cases hk : k' = k
    · subst hk
      simp
    · rw [List.map_cons, get_cons_of_ne hk, get_cons_of_ne hk, ih]

theorem get_map (f : α → β) : get (entries.map fun e => (e.1, f e.2)) k = (get entries k).map f :=
  get_mapKeyed fun _ => f

theorem get_isSome : (get entries k).isSome = true ↔ k ∈ keys entries := by
  induction entries with
  | nil => simp [keys]
  | cons e entries ih =>
    obtain ⟨k', a⟩ := e
    by_cases hk : k' = k
    · subst hk
      simp [keys]
    · rw [get_cons_of_ne hk, ih]
      simp [keys, Ne.symm hk]

omit [DecidableEq κ] in
theorem mem_keys_of_mem (h : (k, a) ∈ entries) : k ∈ keys entries := List.mem_map.2 ⟨_, h, rfl⟩

theorem get_eq_none (h : k ∉ keys entries) : get entries k = none := by
  rwa [← Option.not_isSome_iff_eq_none, get_isSome]

theorem erase_eq_self (h : get entries k = none) : erase entries k = entries := by
  refine List.filter_eq_self.2 fun e he => ?_
  have hne : e.1 ≠ k := by
    rintro rfl
    have hmem := get_isSome.2 (mem_keys_of_mem he)
    rw [h] at hmem
    cases hmem
  simpa using hne

theorem mem_keys_erase : k' ∈ keys (erase entries k) ↔ k' ≠ k ∧ k' ∈ keys entries := by
  rw [← get_isSome, ← get_isSome]
  by_cases hk : k' = k
  · rw [hk, get_erase_self]
    simp
  · rw [get_erase_of_ne hk]
    simp [hk]

theorem mem_keys_put : k' ∈ keys (put entries k a) ↔ k' = k ∨ k' ∈ keys entries := by
  rw [← get_isSome, ← get_isSome]
  by_cases hk : k' = k
  · rw [hk, get_put_self]
    simp
  · rw [get_put_of_ne hk]
    simp [hk]

theorem nodup_erase (h : (keys entries).Nodup) : (keys (erase entries k)).Nodup :=
  h.sublist (List.filter_sublist.map _)

theorem nodup_put (h : (keys entries).Nodup) : (keys (put entries k a)).Nodup :=
  List.nodup_cons.2 ⟨fun hk => (mem_keys_erase.1 hk).1 rfl, nodup_erase h⟩

section
variable [LinearOrder κ]

theorem get_insert_self : get (insert entries k a) k = some a := by
  rw [insert, get_append, get_filter fun k' => decide (k' < k)]
  simp

theorem get_insert_of_ne (h : k' ≠ k) : get (insert entries k a) k' = get entries k' := by
  rw [insert, get_append, get_filter fun k' => decide (k' < k), get_cons_of_ne h.symm,
    get_filter fun k' => decide (k < k')]
  rcases lt_or_gt_of_ne h with hlt | hgt
  · simp [hlt, hlt.not_gt]
  · simp [hgt, hgt.not_gt]

theorem get_insert : get (insert entries k a) k' = if k' = k then some a else get entries k' := by
  split
  · rename_i h
    rw [h, get_insert_self]
  · exact get_insert_of_ne ‹_›

omit [DecidableEq κ] in
theorem nodup_insert (h : (keys entries).Nodup) : (keys (insert entries k a)).Nodup := by
  have hlt : (keys (entries.filter (·.1 < k))).Nodup := h.sublist (List.filter_sublist.map _)
  have hgt : (keys (entries.filter (k < ·.1))).Nodup := h.sublist (List.filter_sublist.map _)
  rw [insert, keys, List.map_append, List.map_cons, List.nodup_append]
  refine ⟨hlt, List.nodup_cons.2 ⟨?_, hgt⟩, ?_⟩
  · simp
  · intro x hx y hy
    obtain ⟨e, he, rfl⟩ := List.mem_map.1 hx
    have hex : e.1 < k := by simpa using (List.mem_filter.1 he).2
    rcases List.mem_cons.1 hy with rfl | hy
    · exact hex.ne
    · obtain ⟨e', he', rfl⟩ := List.mem_map.1 hy
      have hey : k < e'.1 := by simpa using (List.mem_filter.1 he').2
      exact (hex.trans hey).ne

omit [DecidableEq κ] in
theorem mem_insert {e : κ × α} (h : e ∈ insert entries k a) : e = (k, a) ∨ e ∈ entries := by
  rcases List.mem_append.1 h with h | h
  · exact .inr (List.mem_filter.1 h).1
  · rcases List.mem_cons.1 h with h | h
    · exact .inl h
    · exact .inr (List.mem_filter.1 h).1

variable {more : List (κ × α)}

theorem get_foldl_insert (h : (keys more).Nodup) :
    get (more.foldl (fun m e => insert m e.1 e.2) entries) k = (get more k).or (get entries k) := by
  induction more generalizing entries with
  | nil => rfl
  | cons e more ih =>
    obtain ⟨k', a⟩ := e
    obtain ⟨hnot, hnodup⟩ := List.nodup_cons.1 h
    rw [List.foldl_cons, ih hnodup, get_insert]
    by_cases hk : k' = k
    · subst hk
      simp [get_eq_none hnot]
    · rw [if_neg (Ne.symm hk), get_cons_of_ne hk]

theorem get_foldl_insert_of_notMem (h : k ∉ keys more) :
    get (more.foldl (fun m e => insert m e.1 e.2) entries) k = get entries k := by
  induction more generalizing entries with
  | nil => rfl
  | cons e more ih =>
    have hkeys : k ≠ e.1 ∧ k ∉ keys more := not_or.1 fun hk => h (List.mem_cons.2 hk)
    rw [List.foldl_cons, ih hkeys.2, get_insert_of_ne hkeys.1]

theorem get_foldl_insert_of_forall (h : ∀ e ∈ more, e.1 = k → e.2 = a) :
    get (more.foldl (fun m e => insert m e.1 e.2) entries) k =
      if k ∈ keys more then some a else get entries k := by
  induction more generalizing entries with
  | nil => rfl
  | cons e more ih =>
    rw [List.foldl_cons, ih fun e' he' => h e' (List.mem_cons_of_mem _ he'), get_insert]
    have hkeys : k ∈ keys (e :: more) ↔ k = e.1 ∨ k ∈ keys more := List.mem_cons
    by_cases hk : k = e.1
    · rw [if_pos hk, if_pos (hkeys.2 (.inl hk)), h e List.mem_cons_self hk.symm, ite_self]
    · rw [if_neg hk]
      simp only [hkeys, hk, false_or]

omit [DecidableEq κ] in
theorem insert_of_forall_lt (h : ∀ k' ∈ keys entries, k' < k) : insert entries k a = entries ++ [(k, a)] := by
  have hlow : entries.filter (·.1 < k) = entries :=
    List.filter_eq_self.2 fun e he => decide_eq_true (h e.1 (List.mem_map_of_mem he))
  have hhigh : entries.filter (k < ·.1) = [] :=
    List.filter_eq_nil_iff.2 fun e he hk => lt_asymm (h e.1 (List.mem_map_of_mem he)) (of_decide_eq_true hk)
  rw [insert, hlow, hhigh]

omit [DecidableEq κ] in
theorem mem_keys_insert : k' ∈ keys (insert entries k a) ↔ k' = k ∨ k' ∈ keys entries := by
  simp only [insert, keys, List.map_append, List.map_cons, List.mem_append, List.mem_cons, List.mem_map, List.mem_filter,
    decide_eq_true_eq]
  constructor
  · rintro (⟨e, ⟨he, -⟩, rfl⟩ | rfl | ⟨e, ⟨he, -⟩, rfl⟩)
    · exact .inr ⟨e, he, rfl⟩
    · exact .inl rfl
    · exact .inr ⟨e, he, rfl⟩
  · rintro (rfl | ⟨e, he, rfl⟩)
    · exact .inr (.inl rfl)
    · rcases lt_trichotomy e.1 k with h | h | h
      · exact .inl ⟨e, ⟨he, h⟩, rfl⟩
      · exact .inr (.inl h)
      · exact .inr (.inr ⟨e, ⟨he, h⟩, rfl⟩)

omit [DecidableEq κ] in
theorem ascending_insert (h : (keys entries).Pairwise (· < ·)) : (keys (insert entries k a)).Pairwise (· < ·) := by
  have hfilter : ∀ p : κ × α → Bool, (keys (entries.filter p)).Pairwise (· < ·) :=
    fun p => h.sublist (List.filter_sublist.map _)
  rw [insert, keys, List.map_append, List.map_cons, List.pairwise_append, List.pairwise_cons]
  refine ⟨hfilter _, ⟨?_, hfilter _⟩, ?_⟩
  · intro x hx
    obtain ⟨e, he, rfl⟩ := List.mem_map.1 hx
    simpa using (List.mem_filter.1 he).2
  · intro x hx y hy
    obtain ⟨e, he, rfl⟩ := List.mem_map.1 hx
    have hex : e.1 < k := by simpa using (List.mem_filter.1 he).2
    rcases List.mem_cons.1 hy with rfl | hy
    · exact hex
    · obtain ⟨e', he', rfl⟩ := List.mem_map.1 hy
      exact hex.trans (by simpa using (List.mem_filter.1 he').2)

section
variable {δ : Type*} (key : δ → κ) (f : Option α → δ → α)

theorem get_foldl_upsert (items : List δ) :
    get (items.foldl (fun m d => insert m (key d) (f (get m (key d)) d)) entries) k =
      (items.filter (key · = k)).foldl (fun o d => some (f o d)) (get entries k) := by
  induction items generalizing entries with
  | nil => rfl
  | cons d items ih =>
    rw [List.foldl_cons, ih, get_insert]
    by_cases hk : key d = k
    · rw [if_pos hk.symm, List.filter_cons_of_pos (by simpa using hk), List.foldl_cons, hk]
    · rw [if_neg (Ne.symm hk), List.filter_cons_of_neg (by simpa using hk)]

theorem mem_keys_foldl_upsert (items : List δ) :
    k ∈ keys (items.foldl (fun m d => insert m (key d) (f (get m (key d)) d)) entries) ↔
      k ∈ keys entries ∨ ∃ d ∈ items, key d = k := by
  induction items generalizing entries with
  | nil => simp
  | cons d items ih =>
    rw [List.foldl_cons, ih, mem_keys_insert]
    simp only [List.mem_cons, exists_eq_or_imp, eq_comm (a := k)]
    tauto

theorem ascending_foldl_upsert (items : List δ) (h : (keys entries).Pairwise (· < ·)) :
    (keys (items.foldl (fun m d => insert m (key d) (f (get m (key d)) d)) entries)).Pairwise (· < ·) := by
  induction items generalizing entries with
  | nil => exact h
  | cons d items ih => exact ih (ascending_insert h)

end

def sort (entries : List (κ × α)) : List (κ × α) := entries.insertionSort (·.1 ≤ ·.1)

omit [DecidableEq κ] in
theorem sort_perm : (sort entries).Perm entries := List.perm_insertionSort _ _

theorem sort_eq_iff {entries' : List (κ × α)} (h : (keys entries).Nodup) (h' : (keys entries').Nodup) :
    sort entries = sort entries' ↔ ∀ k, get entries k = get entries' k := by
  constructor
  · intro heq k
    rw [get_perm h sort_perm.symm, heq, get_perm h' sort_perm.symm]
  · intro hget
    have hp : (sort entries).Perm (sort entries') :=
      (sort_perm.trans (perm_of_get h h' hget)).trans sort_perm.symm
    refine hp.eq_of_pairwise ?_ (List.pairwise_insertionSort _ _) (List.pairwise_insertionSort _ _)
    intro e e' he he' hle hle'
    have hkey : e.1 = e'.1 := le_antisymm hle hle'
    obtain ⟨k, a⟩ := e
    obtain ⟨k', a'⟩ := e'
    cases hkey
    have hget1 := (mem_iff_get h).1 (sort_perm.mem_iff.1 he)
    have hget2 := (mem_iff_get h').1 (sort_perm.mem_iff.1 he')
    rw [hget, hget2] at hget1
    rw [Option.some.inj hget1]

end

end Assoc
