import ObeyGateway.Lib.Checks

/-!
# Tables with one entry for each key

A list with exactly one entry for each value of a key type. `check` is how such a list is validated, `find` and `modify`
read and change the entry of a key; a change that keeps the key keeps the table.
-/

namespace Keyed

variable {κ α ε : Type} [DecidableEq κ] (key : α → κ)

def Table (entries : List α) : Prop := ∀ k, (entries.map key).count k = 1

def find (k : κ) (entries : List α) : Option α := entries.find? (key · = k)

def modify (k : κ) (f : α → α) : List α → List α
  | [] => []
  | a :: entries => if key a = k then f a :: entries else a :: modify k f entries

def check (all : List κ) (cardinality keys : ε) (valid : α → Except ε Unit) (entries : List α) : Except ε Unit :=
  if entries.length ≠ all.length then .error cardinality
  else all.forM fun k =>
    match entries.filter (key · = k) with
    | [entry] => valid entry
    | _ => .error keys

variable {key} {entries : List α} {all : List κ} {k k' : κ} {a : α}

theorem length_filter_key (k : κ) : (entries.filter (key · = k)).length = (entries.map key).count k := by
  rw [List.count_eq_countP, List.countP_map, List.countP_eq_length_filter]
  rfl

theorem check_eq_ok_iff {cardinality keys : ε} {valid : α → Except ε Unit} (hnodup : all.Nodup) (hall : ∀ k, k ∈ all) :
    check key all cardinality keys valid entries = .ok () ↔ Table key entries ∧ ∀ a ∈ entries, valid a = .ok () := by
  have hentry : ∀ k, (match entries.filter (key · = k) with | [entry] => valid entry | _ => .error keys) = .ok () ↔
      (entries.map key).count k = 1 ∧ ∀ a ∈ entries, key a = k → valid a = .ok () := by
    intro k
    have hmem : ∀ a, a ∈ entries.filter (key · = k) ↔ a ∈ entries ∧ key a = k := fun a => by simp
    rw [← length_filter_key]
    rcases hfilter : entries.filter (key · = k) with _ | ⟨a, _ | ⟨b, rest⟩⟩
    · simp
    · rw [hfilter] at hmem
      simp only [List.length_singleton, true_and]
      constructor
      · intro hvalid b hb hkey
        rw [List.mem_singleton.1 ((hmem b).2 ⟨hb, hkey⟩)]
        exact hvalid
      · intro hvalid
        obtain ⟨ha, hkey⟩ := (hmem a).1 (List.mem_singleton.2 rfl)
        exact hvalid a ha hkey
    · simp
  unfold check
  constructor
  · intro h
    split at h
    · cases h
    · have hforall := Checks.forM_eq_ok_iff.1 h
      exact ⟨fun k => ((hentry k).1 (hforall k (hall k))).1,
        fun a ha => ((hentry (key a)).1 (hforall (key a) (hall _))).2 a ha rfl⟩
  · rintro ⟨htable, hvalid⟩
    have hperm : (entries.map key).Perm all := List.perm_iff_count.2 fun k => by
      rw [htable k, hnodup.count, if_pos (hall k)]
    rw [if_neg (by rw [← hperm.length_eq, List.length_map]; exact not_not.2 rfl)]
    exact Checks.forM_eq_ok_iff.2 fun k _ => (hentry k).2 ⟨htable k, fun a ha _ => hvalid a ha⟩

theorem find_some (h : find key k entries = some a) : a ∈ entries ∧ key a = k :=
  ⟨List.mem_of_find?_eq_some h, by simpa using List.find?_some h⟩

theorem Table.exists_find (h : Table key entries) (k : κ) : ∃ a, find key k entries = some a := by
  have hcount := h k
  have hmem : k ∈ entries.map key := List.count_pos_iff.1 (by omega)
  obtain ⟨a, ha, hkey⟩ := List.mem_map.1 hmem
  exact Option.isSome_iff_exists.1 (List.find?_isSome.2 ⟨a, ha, decide_eq_true hkey⟩)

theorem map_key_modify {f : α → α} (hf : ∀ a, key (f a) = key a) (k : κ) :
    (modify key k f entries).map key = entries.map key := by
  induction entries with
  | nil => rfl
  | cons a entries ih =>
    unfold modify
    split
    · rw [List.map_cons, List.map_cons, hf]
    · rw [List.map_cons, List.map_cons, ih]

theorem Table.modify {f : α → α} (h : Table key entries) (hf : ∀ a, key (f a) = key a) (k : κ) :
    Table key (modify key k f entries) := by
  intro k'
  rw [map_key_modify hf]
  exact h k'

theorem find_modify {f : α → α} (hf : ∀ a, key (f a) = key a) :
    find key k' (modify key k f entries) = if k' = k then (find key k entries).map f else find key k' entries := by
  induction entries with
  | nil => simp [modify, find]
  | cons a entries ih =>
    unfold find at ih ⊢
    unfold modify
    by_cases ha : key a = k
    · rw [if_pos ha]
      by_cases hk : k' = k
      · rw [if_pos hk, List.find?_cons_of_pos (by simp [hf, ha, hk]), List.find?_cons_of_pos (by simpa using ha)]
        rfl
      · have hne : ¬ key a = k' := fun heq => hk (heq.symm.trans ha)
        rw [if_neg hk, List.find?_cons_of_neg (by simpa [hf] using hne), List.find?_cons_of_neg (by simpa using hne)]
    · rw [if_neg ha]
      by_cases hk' : key a = k'
      · have hne : ¬ k' = k := fun heq => ha (hk'.trans heq)
        rw [List.find?_cons_of_pos (by simpa using hk'), if_neg hne, List.find?_cons_of_pos (by simpa using hk')]
      · rw [List.find?_cons_of_neg (by simpa using hk'), ih, List.find?_cons_of_neg (by simpa using ha),
          List.find?_cons_of_neg (by simpa using hk')]

theorem mem_modify {f : α → α} (h : a ∈ modify key k f entries) : a ∈ entries ∨ ∃ b ∈ entries, key b = k ∧ a = f b := by
  induction entries with
  | nil => cases h
  | cons b entries ih =>
    unfold modify at h
    split at h
    · rename_i hb
      rcases List.mem_cons.1 h with rfl | h
      · exact .inr ⟨b, List.mem_cons_self, hb, rfl⟩
      · exact .inl (List.mem_cons_of_mem b h)
    · rcases List.mem_cons.1 h with rfl | h
      · exact .inl List.mem_cons_self
      · rcases ih h with h | ⟨c, hc, hkey, rfl⟩
        · exact .inl (List.mem_cons_of_mem b h)
        · exact .inr ⟨c, List.mem_cons_of_mem b hc, hkey, rfl⟩

end Keyed
