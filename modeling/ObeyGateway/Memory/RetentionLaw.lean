import ObeyGateway.Memory.Retention

/-!
# Retention over a run of calls

Every score stays in the unit interval, a store and a decay cycle leave at most the cap of each namespace they are
about, and a call changes no namespace but those it concerns (`RetentionLaw`). A new row is the victim where rows of
its own second are all that there is and its id is the lowest (`new_entry_evicted`).
-/

namespace ObeyGateway.Memory

variable {db db' : MemoryDb} {ns : String} {cap : Nat}

/-- The calls, each with whether SQLite carries it out; the ids and the times are those of the moment. -/
inductive MemoryCall
  | storeEntry (ok : Bool) (id : Uuid) (now : Int) (input : MemoryEntryInput)
  | createMerged (ok : Bool) (id : Uuid) (now : Int) (ns content : String) (memoryType : MemoryType) (sourceIds : List Uuid)
  | updateAccessMetadata (ok : Bool) (ids : List Uuid) (accessedAt : Int)
  | updateEntry (ok : Bool) (id : Uuid) (content memoryType : String) (now : Int)
  | deleteEntry (ok : Bool) (id : Uuid)
  | runDecayCycle (ok : Bool) (completedAt : Int)

def MemoryDb.step (cap : Nat) (db : MemoryDb) : MemoryCall → MemoryDb
  | .storeEntry ok id now input => (db.storeEntry ok id now input (some cap)).2
  | .createMerged ok id now ns content memoryType sourceIds =>
    (db.createMergedEntryWithSupersession ok id now ns content memoryType sourceIds).2
  | .updateAccessMetadata ok ids accessedAt => (db.updateAccessMetadata ok ids accessedAt).2
  | .updateEntry ok id content memoryType now => (db.updateEntry ok id content memoryType now).2
  | .deleteEntry ok id => (db.deleteEntry ok id).2
  | .runDecayCycle ok completedAt => (db.runDecayCycle ok cap completedAt).2

/-- Which namespaces a call is about: that of the entry, or of the rows that the ids name. -/
def MemoryCall.Concerns (db : MemoryDb) (ns : String) : MemoryCall → Prop
  | .storeEntry _ id now input => (input.toEntry id now).ns = ns
  | .createMerged _ _ _ ns' _ _ _ => ns' = ns
  | .updateAccessMetadata _ ids _ => ∃ r ∈ db.inNamespace ns, r.id ∈ ids
  | .updateEntry _ id _ _ _ => ∃ r ∈ db.inNamespace ns, r.id = id
  | .deleteEntry _ id => ∃ r ∈ db.inNamespace ns, r.id = id
  | .runDecayCycle _ _ => True

namespace MemoryDb

theorem updateEntry_cases (db : MemoryDb) (ok : Bool) (id : Uuid) (content memoryType : String) (now : Int) :
    (db.updateEntry ok id content memoryType now).2 = db ∨
      ∃ type, (db.updateEntry ok id content memoryType now).2 =
        db.update (MemoryRow.edited id content type now) (MemoryRow.edited_id id content type now) := by
  unfold updateEntry
  split
  · exact .inl rfl
  split
  · exact .inl rfl
  rename_i type _
  split_ifs
  · exact .inl rfl
  · exact .inl rfl
  · exact .inl rfl
  · exact .inr ⟨type, rfl⟩

theorem inNamespace_mark (db : MemoryDb) (id target : Uuid) {ns₀ : String} (h : ns₀ ≠ ns) :
    (db.mark (some ns₀) id target).2.inNamespace ns = db.inNamespace ns := by
  unfold mark
  split
  · rfl
  rename_i r hrow
  split_ifs with hcond
  · have hframe (r' : MemoryRow) : (MemoryRow.superseded id target r').ns = r'.ns := by
      unfold MemoryRow.superseded
      split_ifs <;> rfl
    refine inNamespace_update_of_eq (MemoryRow.superseded_id id target) hframe fun r' hr' hns => if_neg fun hid => h ?_
    obtain ⟨hr, hrid⟩ := row?_some hrow
    obtain rfl := eq_of_id db.ids hr' hr (hid.trans hrid.symm)
    have hall : ns₀ = r'.ns := by simpa using hcond.2.2
    exact hall.trans hns
  · rfl

theorem inNamespace_markSources {target : Uuid} {seen ids : List Uuid} {ns₀ : String} (h : ns₀ ≠ ns)
    (hmark : markSources ns₀ target seen ids db = some db') : db'.inNamespace ns = db.inNamespace ns := by
  induction ids generalizing db seen with
  | nil =>
    cases hmark
    rfl
  | cons id ids ih =>
    unfold markSources at hmark
    split_ifs at hmark
    split at hmark
    · rename_i db'' heq
      have hframe := db.inNamespace_mark id target h
      rw [heq] at hframe
      exact (ih hmark).trans hframe
    · cases hmark

theorem inNamespace_accessAll (db : MemoryDb) (accessedAt : Int) {ids : List Uuid} (h : ∀ r ∈ db.inNamespace ns, r.id ∉ ids) :
    (accessAll accessedAt ids db).2.inNamespace ns = db.inNamespace ns := by
  induction ids generalizing db with
  | nil => rfl
  | cons id ids ih =>
    have hframe : (db.update (MemoryRow.accessed id accessedAt) (MemoryRow.accessed_id id accessedAt)).inNamespace ns =
        db.inNamespace ns := by
      refine inNamespace_update_of_eq _ (fun r => ?_) fun r hr hns => ?_
      · unfold MemoryRow.accessed
        split_ifs <;> rfl
      · refine if_neg fun hid => h r (mem_inNamespace.2 ⟨hr, hns⟩) ?_
        rw [hid]
        exact List.mem_cons_self
    show (accessAll accessedAt ids (db.update _ _)).2.inNamespace ns = _
    rw [ih, hframe]
    rw [hframe]
    exact fun r hr hmem => h r hr (List.mem_cons_of_mem id hmem)

end MemoryDb


/-! ### The law -/

structure RetentionLaw (cap : Nat) (db : MemoryDb) : Prop where
  scored : ∀ r ∈ db.rows, 0 ≤ r.relevanceScore ∧ r.relevanceScore ≤ 1
  store : ∀ ok id now input entry, (db.storeEntry ok id now input (some cap)).1 = .ok entry →
    entry = input.toEntry id now ∧
      Capped cap (db.inNamespace entry.ns ++ [entry.toRow])
        ((db.storeEntry ok id now input (some cap)).2.inNamespace entry.ns) ∧
      (((db.storeEntry ok id now input (some cap)).2.row? entry.id).isSome = true ↔
        (db.inNamespace entry.ns).length + 1 - cap ≤
          ((db.inNamespace entry.ns).filter (evictionOrder · entry.toRow = .lt)).length)
  decay : ∀ ok now result, (db.runDecayCycle ok cap now).1 = .ok result → ∀ ns,
    Capped cap ((db.inNamespace ns).map MemoryRow.decayed) ((db.runDecayCycle ok cap now).2.inNamespace ns)
  others : ∀ call ns, ¬ MemoryCall.Concerns db ns call → (db.step cap call).inNamespace ns = db.inNamespace ns

namespace MemoryDb

theorem scored_empty : MemoryDb.empty.Scored := fun _ hr => absurd hr List.not_mem_nil

theorem Scored.step (h : db.Scored) (cap : Nat) (call : MemoryCall) : (db.step cap call).Scored := by
  cases call with
  | storeEntry ok id now input =>
    show (db.storeEntry ok id now input (some cap)).2.Scored
    rcases db.storeEntry_cases ok id now input cap with ⟨e, heq⟩ | ⟨db', hvalid, hinsert, heq⟩
    · rw [heq]
      exact h
    · rw [heq]
      exact (h.insert (score_of_validateEntry hvalid) hinsert).keep _
  | createMerged ok id now ns content memoryType sourceIds =>
    rcases db.createMerged_cases ok id now ns content memoryType sourceIds with ⟨e, heq⟩ | ⟨db', db'', hinsert, hmark, heq⟩
    · rw [MemoryDb.step, heq]
      exact h
    · rw [MemoryDb.step, heq]
      exact (h.insert ⟨zero_le_one, le_refl 1⟩ hinsert).markSources hmark
  | updateAccessMetadata ok ids accessedAt =>
    rw [MemoryDb.step, updateAccessMetadata]
    split_ifs
    · exact h.accessAll accessedAt ids
    · exact h
  | updateEntry ok id content memoryType now =>
    rcases db.updateEntry_cases ok id content memoryType now with heq | ⟨type, heq⟩
    · rw [MemoryDb.step, heq]
      exact h
    · rw [MemoryDb.step, heq]
      refine h.update _ fun r hr => ?_
      unfold MemoryRow.edited
      split_ifs <;> exact hr
  | deleteEntry ok id =>
    rw [MemoryDb.step, deleteEntry]
    split_ifs
    · exact h.keep _
    · exact h
  | runDecayCycle ok completedAt =>
    rcases db.runDecayCycle_cases ok cap completedAt with ⟨e, heq⟩ | ⟨result, db', heq, hrows⟩
    · rw [MemoryDb.step, heq]
      exact h
    · rw [MemoryDb.step, heq]
      have hdecayed := (h.update MemoryRow.decayed_id fun r => decayed_mem).evictNamespaces
        ((db.update MemoryRow.decayed MemoryRow.decayed_id).overCap cap)
      intro r hr
      refine hdecayed r ?_
      rw [← hrows]
      exact hr

theorem Scored.run (h : db.Scored) (cap : Nat) (calls : List MemoryCall) : (Run.run (MemoryDb.step cap) db calls).Scored :=
  Run.invariant_of_step (I := MemoryDb.Scored) (fun _ call hdb => hdb.step cap call) h

theorem inNamespace_step (db : MemoryDb) (cap : Nat) {call : MemoryCall} (h : ¬ MemoryCall.Concerns db ns call) :
    (db.step cap call).inNamespace ns = db.inNamespace ns := by
  cases call with
  | storeEntry ok id now input =>
    rcases db.storeEntry_cases ok id now input cap with ⟨e, heq⟩ | ⟨db', -, hinsert, heq⟩
    · rw [MemoryDb.step, heq]
    · rw [MemoryDb.step, heq, inNamespace_store hinsert]
      exact if_neg h
  | createMerged ok id now ns₀ content memoryType sourceIds =>
    rcases db.createMerged_cases ok id now ns₀ content memoryType sourceIds with ⟨e, heq⟩ | ⟨db', db'', hinsert, hmark, heq⟩
    · rw [MemoryDb.step, heq]
    · rw [MemoryDb.step, heq, inNamespace_markSources h hmark, inNamespace_insert hinsert]
      exact if_neg h
  | updateAccessMetadata ok ids accessedAt =>
    rw [MemoryDb.step, updateAccessMetadata]
    split_ifs
    · exact db.inNamespace_accessAll accessedAt fun r hr hid => h ⟨r, hr, hid⟩
    · rfl
  | updateEntry ok id content memoryType now =>
    rcases db.updateEntry_cases ok id content memoryType now with heq | ⟨type, heq⟩
    · rw [MemoryDb.step, heq]
    · rw [MemoryDb.step, heq]
      refine inNamespace_update_of_eq _ (fun r => ?_) fun r hr hns => ?_
      · unfold MemoryRow.edited
        split_ifs <;> rfl
      · exact if_neg fun hid => h ⟨r, mem_inNamespace.2 ⟨hr, hns⟩, hid⟩
  | deleteEntry ok id =>
    rw [MemoryDb.step, deleteEntry]
    split_ifs
    · show (db.rows.filter _).filter _ = db.rows.filter _
      rw [List.filter_filter]
      refine List.filter_congr fun r hr => ?_
      by_cases hns : r.ns = ns
      · have hid : r.id ≠ id := fun hid => h ⟨r, mem_inNamespace.2 ⟨hr, hns⟩, hid⟩
        simp [hns, hid]
      · simp [hns]
    · rfl
  | runDecayCycle ok completedAt => exact absurd trivial h

theorem Scored.law (h : db.Scored) (cap : Nat) : RetentionLaw cap db where
  scored := h
  store := by
    intro ok id now input entry hok
    rcases db.storeEntry_cases ok id now input cap with ⟨e, heq⟩ | ⟨db', -, hinsert, heq⟩
    · rw [heq] at hok
      cases hok
    · rw [heq] at hok ⊢
      cases hok
      exact ⟨rfl, storeEntry_capped hinsert cap, present_iff hinsert cap⟩
  decay := by
    intro ok now result hok ns
    rcases db.runDecayCycle_cases ok cap now with ⟨e, heq⟩ | ⟨result', db', heq, hrows⟩
    · rw [heq] at hok
      cases hok
    · rw [heq]
      exact runDecayCycle_capped hrows ns
  others := fun _ _ hconcerns => db.inNamespace_step cap hconcerns

end MemoryDb

/-- Over every run of calls with one cap. -/
theorem memory_retention_law (cap : Nat) {db : MemoryDb} (h : ∀ r ∈ db.rows, 0 ≤ r.relevanceScore ∧ r.relevanceScore ≤ 1)
    (calls : List MemoryCall) : RetentionLaw cap (Run.run (MemoryDb.step cap) db calls) :=
  (MemoryDb.Scored.run h cap calls).law cap


theorem present_of_stored (h : db.Scored) {ok : Bool} {id : Uuid} {now : Int} {input : MemoryEntryInput}
    (hok : (db.storeEntry ok id now input (some cap)).1.toOption.isSome = true) :
    ((db.storeEntry ok id now input (some cap)).2.row? (input.toEntry id now).id).isSome = true ↔
      (db.inNamespace (input.toEntry id now).ns).length + 1 - cap ≤
        ((db.inNamespace (input.toEntry id now).ns).filter (evictionOrder · (input.toEntry id now).toRow = .lt)).length := by
  rcases db.storeEntry_cases ok id now input cap with ⟨e, heq⟩ | ⟨db', -, -, heq⟩
  · rw [heq] at hok
    cases hok
  · exact ((h.law cap).store ok id now input _ (by rw [heq])).2.2

/-- Two memories of one second where one is allowed: the second has the lower id, and goes. -/
theorem new_entry_evicted :
    let db := Run.run (MemoryDb.step 1) MemoryDb.empty
      [MemoryCall.storeEntry true 2 0 (.new ⟨"team", "blue is best", .preference, none⟩)]
    let second := db.storeEntry true 1 0 (.new ⟨"team", "green is best", .preference, none⟩) (some 1)
    second.1.toOption.isSome = true ∧ (second.2.row? 1).isSome = false := by
  intro db second
  have hscored : db.Scored := MemoryDb.scored_empty.run 1 _
  have hok : second.1.toOption.isSome = true := by decide +kernel
  refine ⟨hok, ?_⟩
  rw [← Bool.not_eq_true]
  refine (not_congr (present_of_stored hscored hok)).2 ?_
  decide +kernel

/-- A memory of the next second takes its place. -/
theorem memory_retention_law_next :
    let db := Run.run (MemoryDb.step 1) MemoryDb.empty
      [MemoryCall.storeEntry true 2 0 (.new ⟨"team", "blue is best", .preference, none⟩)]
    let second := db.storeEntry true 1 (10 ^ 9) (.new ⟨"team", "green is best", .preference, none⟩) (some 1)
    RetentionLaw 1 db ∧ second.1.toOption.isSome = true ∧ (second.2.row? 1).isSome = true := by
  intro db second
  have hlaw : RetentionLaw 1 db := memory_retention_law 1 MemoryDb.scored_empty _
  have hok : second.1.toOption.isSome = true := by decide +kernel
  refine ⟨hlaw, hok, (present_of_stored hlaw.scored hok).2 ?_⟩
  decide +kernel

end ObeyGateway.Memory
