import ObeyGateway.Lib.Checks
import ObeyGateway.Lib.Pointers
import ObeyGateway.Memory.Consolidation

/-!
# What consolidation keeps

`mark_superseded` does not ask whether the superseding entry is active: a decision whose superseding entry leads back to
the entry it supersedes closes a cycle, and no later decision opens it again. So a batch keeps what it should
(`ConsolidationLaw`) exactly when no decision that is carried out leads back (`NoReturn`).
-/

namespace ObeyGateway.Memory

open Pointers

variable {db db' : MemoryDb} {x y : Uuid}

namespace MemoryDb

theorem row?_of_mem {r : MemoryRow} (h : r ∈ db.rows) : db.row? r.id = some r := by
  rcases hrow : db.row? r.id with _ | r'
  · have hnone := List.find?_eq_none.1 hrow r h
    simp at hnone
  obtain ⟨hmem, hid⟩ := row?_some hrow
  rw [List.inj_on_of_nodup_map db.ids hmem h hid]

theorem row?_insert {entry : MemoryEntry} (h : db.insert entry = some db') (id : Uuid) :
    db'.row? id = if id = entry.id then some entry.toRow else db.row? id := by
  unfold insert at h
  split_ifs at h with hid hcheck
  cases h
  show (db.rows ++ [entry.toRow]).find? _ = _
  rw [List.find?_append]
  by_cases heq : id = entry.id
  · subst heq
    have hnone : db.rows.find? (fun r => decide (r.id = entry.id)) = none :=
      List.find?_eq_none.2 fun r hr hid' => hid (List.mem_map.2 ⟨r, hr, of_decide_eq_true hid'⟩)
    have hself : entry.toRow.id = entry.id := rfl
    rw [hnone, if_pos rfl, Option.none_or, List.find?_cons_of_pos (by rw [hself]; exact decide_eq_true rfl)]
  · have hne : ¬ entry.toRow.id = id := fun heq' => heq heq'.symm
    rw [if_neg heq, List.find?_cons_of_neg (by simpa using hne), List.find?_nil, Option.or_none]
    rfl

theorem row?_update {f : MemoryRow → MemoryRow} (hf : ∀ r, (f r).id = r.id) (id : Uuid) :
    (db.update f hf).row? id = (db.row? id).map f := by
  show (db.rows.map f).find? _ = (db.rows.find? _).map f
  rw [List.find?_map]
  congr 2
  funext r
  simp [hf]

def next (db : MemoryDb) (id : Uuid) : Option Uuid := (db.row? id).bind (·.supersededBy)

def kind (db : MemoryDb) (id : Uuid) : Option (String × MemoryType) := (db.row? id).map fun r => (r.ns, r.memoryType)

theorem row?_eq_none_of_insert {entry : MemoryEntry} (h : db.insert entry = some db') : db.row? entry.id = none := by
  unfold insert at h
  split_ifs at h with hmem
  exact List.find?_eq_none.2 fun r hr hid => hmem (List.mem_map.2 ⟨r, hr, of_decide_eq_true hid⟩)

theorem next_insert {entry : MemoryEntry} (h : db.insert entry = some db') (hentry : entry.supersededBy = none) :
    db'.next = db.next := by
  funext id
  unfold next
  rw [row?_insert h]
  split_ifs with hid
  · subst hid
    rw [row?_eq_none_of_insert h]
    exact hentry
  · rfl

end MemoryDb

structure Marked (x y : Uuid) (db db' : MemoryDb) : Prop where
  active : ∃ r, db.row? x = some r ∧ r.supersededBy = none
  ne : x ≠ y
  eq : db' = db.update (MemoryRow.superseded x y) (MemoryRow.superseded_id x y)

theorem mark_cases (db : MemoryDb) (ns : Option String) (x y : Uuid) :
    (db.mark ns x y).1 = true ∧ Marked x y db (db.mark ns x y).2 ∨ db.mark ns x y = (false, db) := by
  unfold MemoryDb.mark
  split
  · exact .inr rfl
  · rename_i r hrow
    split_ifs with hcond
    · exact .inl ⟨rfl, ⟨r, hrow, by simpa using hcond.1⟩, hcond.2.1, rfl⟩
    · exact .inr rfl

namespace Marked

theorem row? (h : Marked x y db db') (id : Uuid) : db'.row? id = (db.row? id).map (MemoryRow.superseded x y) := by
  rw [h.eq, MemoryDb.row?_update]

theorem row?_of_ne (h : Marked x y db db') {id : Uuid} (hid : id ≠ x) : db'.row? id = db.row? id := by
  rw [h.row?]
  rcases hrow : db.row? id with _ | r
  · rfl
  have hr : r.id ≠ x := by
    rw [(MemoryDb.row?_some hrow).2]
    exact hid
  rw [Option.map_some, MemoryRow.superseded, if_neg hr]

theorem next (h : Marked x y db db') : db'.next = Function.update db.next x (some y) := by
  funext id
  by_cases hid : id = x
  · subst hid
    obtain ⟨r, hrow, -⟩ := h.active
    rw [Function.update_self, MemoryDb.next, h.row?, hrow, Option.map_some, MemoryRow.superseded,
      if_pos (MemoryDb.row?_some hrow).2, Option.bind_some]
  · rw [Function.update_of_ne hid, MemoryDb.next, h.row?_of_ne hid, MemoryDb.next]

theorem next_eq_none (h : Marked x y db db') : db.next x = none := by
  obtain ⟨r, hrow, hactive⟩ := h.active
  rw [MemoryDb.next, hrow, Option.bind_some, hactive]

theorem kind (h : Marked x y db db') : db'.kind = db.kind := by
  funext id
  rw [MemoryDb.kind, MemoryDb.kind, h.row?, Option.map_map]
  congr 1
  funext r
  simp only [Function.comp, MemoryRow.superseded]
  split_ifs <;> rfl

end Marked

inductive Marks (y : Uuid) : List Uuid → MemoryDb → MemoryDb → Prop
  | nil (db : MemoryDb) : Marks y [] db db
  | cons {x : Uuid} {xs : List Uuid} {db db' db'' : MemoryDb} (first : Marked x y db db') (rest : Marks y xs db' db'') :
    Marks y (x :: xs) db db''

theorem marks_of_markSources {ns : String} {seen ids : List Uuid} (h : MemoryDb.markSources ns y seen ids db = some db') :
    Marks y ids db db' := by
  induction ids generalizing db seen with
  | nil =>
    cases h
    exact .nil _
  | cons x ids ih =>
    unfold MemoryDb.markSources at h
    split_ifs at h
    rcases mark_cases db (some ns) x y with ⟨hmarked, hstep⟩ | hnot
    · split at h
      · rename_i db₁ hmark
        rw [hmark] at hstep
        exact .cons hstep (ih h)
      · cases h
    · rw [hnot] at h
      cases h

def created (before after : MemoryDb) : Nat := after.rows.countP fun r => (before.row? r.id).isNone

def newlyMarked (before after : MemoryDb) : Nat :=
  after.rows.countP fun r => r.supersededBy.isSome && (before.row? r.id).any (·.supersededBy.isNone)

theorem created_self (db : MemoryDb) : created db db = 0 := by
  refine List.countP_eq_zero.2 fun r hr => ?_
  rw [MemoryDb.row?_of_mem hr]
  simp

theorem newlyMarked_self (db : MemoryDb) : newlyMarked db db = 0 := by
  refine List.countP_eq_zero.2 fun r hr => ?_
  rw [MemoryDb.row?_of_mem hr, Option.any_some]
  cases r.supersededBy <;> simp

theorem rows_insert {entry : MemoryEntry} (h : db.insert entry = some db') : db'.rows = db.rows ++ [entry.toRow] := by
  unfold MemoryDb.insert at h
  split_ifs at h
  cases h
  rfl

theorem countP_map_of_mem {rows : List MemoryRow} (h : (rows.map (·.id)).Nodup) {r : MemoryRow} (hr : r ∈ rows)
    {f : MemoryRow → MemoryRow} (hf : ∀ r', r'.id ≠ r.id → f r' = r') {p : MemoryRow → Bool} (hp : p r = false)
    (hp' : p (f r) = true) : (rows.map f).countP p = rows.countP p + 1 := by
  obtain ⟨left, right, rfl⟩ := List.append_of_mem hr
  rw [List.map_append, List.map_cons, List.nodup_append] at h
  obtain ⟨-, hright, hdisjoint⟩ := h
  have hleft : left.map f = left := by
    refine (List.map_congr_left fun r' hr' => ?_).trans (List.map_id left)
    exact hf r' (hdisjoint _ (List.mem_map_of_mem hr') _ List.mem_cons_self)
  have hrest : right.map f = right := by
    refine (List.map_congr_left fun r' hr' => ?_).trans (List.map_id right)
    refine hf r' fun hid => (List.nodup_cons.1 hright).1 ?_
    rw [← hid]
    exact List.mem_map_of_mem hr'
  rw [List.map_append, List.map_cons, hleft, hrest, List.countP_append, List.countP_append, List.countP_cons_of_pos hp',
    List.countP_cons_of_neg (by simp [hp])]
  omega


/-! ### The invariant of a batch -/

structure Batch (db : MemoryDb) (group : List MemoryEntry) (kind : String × MemoryType) : Prop where
  stored : ∀ e ∈ group, ∃ r, db.row? e.id = some r ∧ r.supersededBy = none ∧ r.ns = e.ns ∧ r.memoryType = e.memoryType
  kinds : ∀ e ∈ group, (e.ns, e.memoryType) = kind

/-- What holds of the table behind every decision, with the numbers of rows created and marked. -/
structure BatchInv (start : MemoryDb) (ids : List Uuid) (kind : String × MemoryType) (db : MemoryDb)
    (merged superseded : Nat) : Prop where
  active : ∀ a ∈ ids, ∃ r, start.row? a = some r ∧ r.supersededBy = none
  kinds : ∀ a ∈ ids, db.kind a = some kind
  links : ∀ a ∈ ids, ∀ b, db.next a = some b → db.kind b = some kind ∧ (b ∈ ids ∨ db.next b = none)
  outside : ∀ a ∉ ids, ∀ r, start.row? a = some r → db.row? a = some r
  created : created start db = merged
  marked : newlyMarked start db = superseded

def Grounded (ids : List Uuid) (db : MemoryDb) : Prop := ∀ a ∈ ids, ∃ n z, Ends db.next n a z

section
variable {start : MemoryDb} {ids : List Uuid} {kind : String × MemoryType} {merged superseded : Nat}

namespace BatchInv

theorem stored (h : BatchInv start ids kind db merged superseded) {a : Uuid} (ha : (start.row? a).isSome = true) :
    (db.row? a).isSome = true := by
  by_cases hmem : a ∈ ids
  · have hkind := h.kinds a hmem
    unfold MemoryDb.kind at hkind
    obtain ⟨r, hrow, -⟩ := Option.map_eq_some_iff.1 hkind
    rw [hrow]
    rfl
  · obtain ⟨r, hrow⟩ := Option.isSome_iff_exists.1 ha
    rw [h.outside a hmem r hrow]
    rfl

theorem insert (h : BatchInv start ids kind db merged superseded) {entry : MemoryEntry} (hinsert : db.insert entry = some db')
    (hentry : entry.supersededBy = none) : BatchInv start ids kind db' (merged + 1) superseded := by
  have hnew : db.row? entry.id = none := MemoryDb.row?_eq_none_of_insert hinsert
  have hrow {a : Uuid} (ha : (db.row? a).isSome = true) : db'.row? a = db.row? a := by
    rw [MemoryDb.row?_insert hinsert, if_neg]
    rintro rfl
    rw [hnew] at ha
    cases ha
  have hkind {a : Uuid} {k : String × MemoryType} (ha : db.kind a = some k) : db'.kind a = some k := by
    have hsome : (db.row? a).isSome = true := by
      obtain ⟨r, hr, -⟩ := Option.map_eq_some_iff.1 ha
      rw [hr]
      rfl
    rw [MemoryDb.kind, hrow hsome]
    exact ha
  have hstart : (start.row? entry.id).isNone = true := by
    rw [Option.isNone_iff_eq_none]
    by_contra hne
    have hsome := h.stored (Option.isSome_iff_ne_none.2 hne)
    rw [hnew] at hsome
    cases hsome
  refine ⟨h.active, fun a ha => hkind (h.kinds a ha), ?_, ?_, ?_, ?_⟩
  · intro a ha b hb
    rw [MemoryDb.next_insert hinsert hentry] at hb ⊢
    obtain ⟨hb, hlink⟩ := h.links a ha b hb
    exact ⟨hkind hb, hlink⟩
  · intro a ha r hr
    rw [hrow (h.stored (by rw [hr]; rfl))]
    exact h.outside a ha r hr
  · rw [Memory.created, rows_insert hinsert, List.countP_append, ← Memory.created, h.created]
    refine congrArg (merged + ·) ?_
    rw [List.countP_cons_of_pos (by exact hstart), List.countP_nil]
  · rw [newlyMarked, rows_insert hinsert, List.countP_append, ← newlyMarked, h.marked]
    rw [List.countP_cons_of_neg, List.countP_nil, Nat.add_zero]
    have hactive : entry.toRow.supersededBy = none := hentry
    rw [hactive]
    simp

theorem mark (h : BatchInv start ids kind db merged superseded) (hmarked : Marked x y db db') (hx : x ∈ ids)
    (hy : db.kind y = some kind) (hlink : y ∈ ids ∨ db.next y = none) :
    BatchInv start ids kind db' merged (superseded + 1) := by
  refine ⟨h.active, fun a ha => ?_, ?_, ?_, ?_, ?_⟩
  · rw [hmarked.kind]
    exact h.kinds a ha
  · intro a ha b hb
    have hkeep {c : Uuid} (hc : c ∈ ids ∨ db.next c = none) : c ∈ ids ∨ db'.next c = none := by
      rcases hc with hc | hc
      · exact .inl hc
      · by_cases hcx : c = x
        · exact .inl (hcx ▸ hx)
        · rw [hmarked.next, Function.update_of_ne hcx]
          exact .inr hc
    rw [hmarked.kind]
    by_cases hax : a = x
    · subst hax
      rw [hmarked.next, Function.update_self] at hb
      cases hb
      exact ⟨hy, hkeep hlink⟩
    · rw [hmarked.next, Function.update_of_ne hax] at hb
      obtain ⟨hkind, hb⟩ := h.links a ha b hb
      exact ⟨hkind, hkeep hb⟩
  · intro a ha r hr
    have hax : a ≠ x := by
      rintro rfl
      exact ha hx
    rw [hmarked.row?_of_ne hax]
    exact h.outside a ha r hr
  · rw [← h.created, Memory.created, Memory.created, hmarked.eq]
    show (db.rows.map _).countP _ = _
    rw [List.countP_map]
    refine List.countP_congr fun r _ => ?_
    rw [Function.comp_apply, MemoryRow.superseded_id]
  · obtain ⟨r, hrow, hactive⟩ := hmarked.active
    obtain ⟨hr, rfl⟩ := MemoryDb.row?_some hrow
    rw [← h.marked, newlyMarked, newlyMarked, hmarked.eq]
    have hothers (r' : MemoryRow) (hr' : r'.id ≠ r.id) : MemoryRow.superseded r.id y r' = r' := if_neg hr'
    refine countP_map_of_mem db.ids hr hothers (by simp [hactive]) ?_
    obtain ⟨r₀, hrow₀, hactive₀⟩ := h.active r.id hx
    have hsuperseded : MemoryRow.superseded r.id y r = { r with supersededBy := some y } := if_pos rfl
    rw [hsuperseded]
    simp [hrow₀, hactive₀]

theorem kind_of_ends (h : BatchInv start ids kind db merged superseded) {n : Nat} {a z : Uuid} (ha : a ∈ ids)
    (hends : Ends db.next n a z) : db.kind z = some kind := by
  induction hends with
  | stop => exact h.kinds _ ha
  | @step n a b z hab rest ih =>
    obtain ⟨hkind, hb | hb⟩ := h.links a ha b hab
    · exact ih hb
    · cases rest with
      | stop => exact hkind
      | step hstep =>
        rw [hb] at hstep
        cases hstep

end BatchInv

theorem grounded_mark_iff (hmarked : Marked x y db db') (hx : x ∈ ids) (hy : Grounded ids db → ∃ n z, Ends db.next n y z) :
    Grounded ids db' ↔ Grounded ids db ∧ ¬ ∃ n, Ends db.next n y x := by
  unfold Grounded at hy ⊢
  rw [hmarked.next]
  constructor
  · intro h
    refine ⟨fun a ha => ?_, ?_⟩
    · obtain ⟨n, z, hends⟩ := h a ha
      exact hends.of_update hmarked.next_eq_none
    · rintro ⟨n, hback⟩
      obtain ⟨k, z, hends⟩ := h x hx
      exact hback.not_of_return hends
  · rintro ⟨h, hnot⟩ a ha
    obtain ⟨m, z, hends⟩ := hy h
    obtain ⟨n, w, ha⟩ := h a ha
    have hz : z ≠ x := by
      rintro rfl
      exact hnot ⟨m, hends⟩
    obtain ⟨k, hk⟩ := ha.redirect hmarked.next_eq_none hends hz
    exact ⟨k, _, hk⟩

end


/-! ### Decisions -/

def Decision.Within (ids : List Uuid) : Decision → Prop
  | .merge sourceIds _ => sourceIds ≠ [] ∧ ∀ x ∈ sourceIds, x ∈ ids
  | .supersede x y => x ∈ ids ∧ y ∈ ids
  | .keep id => id ∈ ids

/-- The decision, where it is carried out, has no superseding entry whose links lead to the superseded one. -/
def NoReturn (s : BatchState) (decision : Decision × Moment) : Prop :=
  s.stopped = false → decision.2.ok = true → ∀ x y, decision.1 = .supersede x y → x ≠ y → ¬ ∃ n, Ends s.db.next n y x

section
variable {start : MemoryDb} {group : List MemoryEntry} {kind : String × MemoryType} {s : BatchState}

def BatchState.Inv (start : MemoryDb) (group : List MemoryEntry) (kind : String × MemoryType) (s : BatchState) : Prop :=
  BatchInv start (group.map (·.id)) kind s.db s.applied.merged s.applied.superseded

theorem marks_inv {ids xs : List Uuid} {merged superseded : Nat} (h : BatchInv start ids kind db merged superseded)
    (hmarks : Marks y xs db db') (hxs : ∀ x ∈ xs, x ∈ ids) (hy : db.kind y = some kind) (hlink : db.next y = none) :
    BatchInv start ids kind db' merged (superseded + xs.length) ∧ (Grounded ids db' ↔ Grounded ids db) := by
  induction hmarks generalizing superseded with
  | nil => exact ⟨h, Iff.rfl⟩
  | @cons x xs db db₁ db₂ first rest ih =>
    obtain ⟨hx, hxs⟩ := List.forall_mem_cons.1 hxs
    have hy₁ : db₁.kind y = some kind := by
      rw [first.kind]
      exact hy
    have hlink₁ : db₁.next y = none := by
      rw [first.next, Function.update_of_ne first.ne.symm]
      exact hlink
    obtain ⟨hinv, hgrounded⟩ := ih (h.mark first hx hy (.inr hlink)) hxs hy₁ hlink₁
    rw [List.length_cons, Nat.add_comm xs.length, ← Nat.add_assoc]
    refine ⟨hinv, hgrounded.trans ((grounded_mark_iff first hx fun _ => ⟨0, y, .stop hlink⟩).trans ?_)⟩
    refine and_iff_left fun ⟨n, hback⟩ => first.ne ?_
    exact (hback.unique (.stop hlink)).2

theorem applyMerge_cases (group : List MemoryEntry) (moment : Moment) (sourceIds : List Uuid) (mergedContent : String)
    (db : MemoryDb) :
    applyMerge group moment sourceIds mergedContent db = (none, db) ∨
      ∃ e ∈ group, ∃ entry db₁ db₂, entry.supersededBy = none ∧ entry.ns = e.ns ∧ entry.memoryType = e.memoryType ∧
        db.insert entry = some db₁ ∧ Marks entry.id sourceIds db₁ db₂ ∧
        applyMerge group moment sourceIds mergedContent db = (some sourceIds.length, db₂) := by
  unfold applyMerge
  split
  · exact .inl rfl
  rename_i e he
  have hmem : e ∈ group := by
    obtain ⟨id, -, hfind⟩ := Option.bind_eq_some_iff.1 he
    exact List.mem_of_find?_eq_some hfind
  rcases db.createMerged_cases moment.ok moment.id moment.now e.ns mergedContent e.memoryType sourceIds with
    ⟨error, heq⟩ | ⟨db₁, db₂, hinsert, hmarks, heq⟩
  · rw [heq]
    exact .inl rfl
  · rw [heq]
    exact .inr ⟨e, hmem, ⟨moment.id, e.ns, mergedContent, e.memoryType, 1, moment.now, moment.now, 0, none, none, none⟩,
      db₁, db₂, rfl, rfl, rfl, hinsert, marks_of_markSources hmarks, rfl⟩

theorem mark_none_cases (db : MemoryDb) (x y : Uuid) : (∃ db', db.mark none x y = (true, db') ∧ Marked x y db db') ∨
      db.mark none x y = (false, db) ∧ ((db.row? x).isSome = true → db.next x = none → x = y) := by
  unfold MemoryDb.mark
  split
  · rename_i hrow
    exact .inr ⟨rfl, fun hsome => by rw [hrow] at hsome; cases hsome⟩
  · rename_i r hrow
    split_ifs with hcond
    · exact .inl ⟨_, rfl, ⟨r, hrow, by simpa using hcond.1⟩, hcond.2.1, rfl⟩
    · refine .inr ⟨rfl, fun _ hnext => ?_⟩
      rw [MemoryDb.next, hrow, Option.bind_some] at hnext
      by_contra hne
      exact hcond ⟨by simp [hnext], hne, rfl⟩

theorem applySupersede_cases (group : List MemoryEntry) (moment : Moment) (s : BatchState) (x y : Uuid) :
    (∃ db', applyDecision group moment s (.supersede x y) =
        { s with db := db', applied := { s.applied with superseded := s.applied.superseded + 1 } } ∧
        Marked x y s.db db' ∧ moment.ok = true) ∨
      (applyDecision group moment s (.supersede x y)).db = s.db ∧
        (applyDecision group moment s (.supersede x y)).applied = s.applied ∧
        (moment.ok = true → (s.db.row? x).isSome = true → s.db.next x = none → x = y) := by
  have hcarried : s.db.markSuperseded true [x] y =
      (.ok (if (s.db.mark none x y).1 then 1 else 0), (s.db.mark none x y).2) := rfl
  unfold applyDecision
  dsimp only
  rcases hok : moment.ok with _ | _
  · exact .inr ⟨rfl, rfl, fun hok => absurd hok Bool.false_ne_true⟩
  rw [hcarried]
  rcases mark_none_cases s.db x y with ⟨db', hmark, hmarked⟩ | ⟨hmark, hnone⟩
  · rw [hmark]
    exact .inl ⟨db', rfl, hmarked, rfl⟩
  · rw [hmark]
    exact .inr ⟨rfl, rfl, fun _ => hnone⟩

theorem step_spec (hbatch : Batch start group kind) (h : s.Inv start group kind) {decision : Decision × Moment}
    (hdecision : decision.1.Within (group.map (·.id))) :
    (s.step group decision).Inv start group kind ∧
      (Grounded (group.map (·.id)) (s.step group decision).db ↔ Grounded (group.map (·.id)) s.db ∧ NoReturn s decision) := by
  obtain ⟨d, moment⟩ := decision
  unfold BatchState.step
  split_ifs with hstopped
  · refine ⟨h, (and_iff_left fun hrunning => ?_).symm⟩
    rw [hstopped] at hrunning
    cases hrunning
  cases d with
  | merge sourceIds mergedContent =>
    have hnoReturn : NoReturn s (.merge sourceIds mergedContent, moment) := by
      intro _ _ x y heq
      cases heq
    rw [and_iff_left hnoReturn]
    rcases applyMerge_cases group moment sourceIds mergedContent s.db with
      heq | ⟨e, he, entry, db₁, db₂, hactive, hns, htype, hinsert, hmarks, heq⟩
    · simp only [applyDecision, heq]
      exact ⟨h, trivial⟩
    · simp only [applyDecision, heq]
      have hrow : db₁.row? entry.id = some entry.toRow := by
        rw [MemoryDb.row?_insert hinsert, if_pos rfl]
      have hkind : db₁.kind entry.id = some kind := by
        rw [MemoryDb.kind, hrow, ← hbatch.kinds e he, ← hns, ← htype]
        rfl
      have hnext : db₁.next entry.id = none := by
        rw [MemoryDb.next, hrow]
        exact hactive
      obtain ⟨hinv, hgrounded⟩ := marks_inv (BatchInv.insert h hinsert hactive) hmarks hdecision.2 hkind hnext
      refine ⟨hinv, hgrounded.trans ?_⟩
      unfold Grounded
      rw [MemoryDb.next_insert hinsert hactive]
  | supersede x y =>
    obtain ⟨hx, hy⟩ := hdecision
    rcases applySupersede_cases group moment s x y with ⟨db', heq, hmarked, hok⟩ | ⟨hdb, happlied, hnone⟩
    · rw [heq]
      refine ⟨BatchInv.mark h hmarked hx (h.kinds y hy) (.inl hy), ?_⟩
      refine (grounded_mark_iff hmarked hx fun hgrounded => hgrounded y hy).trans (and_congr_right fun _ => ?_)
      constructor
      · intro hnot _ _ x' y' hxy _
        cases hxy
        exact hnot
      · intro hnoReturn
        exact hnoReturn (by simpa using hstopped) hok x y rfl hmarked.ne
    · unfold BatchState.Inv
      rw [hdb, happlied]
      refine ⟨h, (and_iff_left ?_).symm⟩
      intro _ hok x' y' hxy hne
      cases hxy
      rintro ⟨n, hends⟩
      have hsome : (s.db.row? x).isSome = true := BatchInv.stored h (by
        obtain ⟨r, hr, -⟩ := h.active x hx
        rw [hr]
        rfl)
      exact hne (hnone hok hsome hends.last)
  | keep id =>
    have hnoReturn : NoReturn s (.keep id, moment) := by
      intro _ _ x y heq
      cases heq
    rw [and_iff_left hnoReturn]
    unfold applyDecision
    dsimp only
    split_ifs
    · exact ⟨h, Iff.rfl⟩
    · exact ⟨h, Iff.rfl⟩

end

variable {context : ConsolidationContext} {group : List MemoryEntry}

theorem mem_of_parseValidId {validIds : List Uuid} {raw : String} {id : Uuid}
    (h : context.parseValidId validIds raw = some id) : id ∈ validIds := by
  unfold ConsolidationContext.parseValidId at h
  exact List.contains_iff_mem.1 (Option.filter_eq_some_iff.1 h).2

theorem parseDecision_within {validIds : List Uuid} {index : Nat} {value : Json} {d : Decision}
    (h : context.parseDecision validIds index value = .ok d) : d.Within validIds := by
  unfold ConsolidationContext.parseDecision at h
  split at h
  · cases h
  · split at h
    · cases h
    · rename_i ids hids
      split_ifs at h with hempty
      cases h
      refine ⟨?_, fun x hx => ?_⟩
      · rintro rfl
        exact hempty rfl
      · obtain ⟨raw, -, hraw⟩ := Checks.exists_of_mem_mapM_some hids hx
        exact mem_of_parseValidId hraw
  · split at h
    · rename_i hx hy
      cases h
      exact ⟨mem_of_parseValidId hx, mem_of_parseValidId hy⟩
    · cases h
  · split at h
    · cases h
    · rename_i hid
      cases h
      exact mem_of_parseValidId hid

theorem accept_within {output : Option (List String)} {decisions : List Decision}
    (h : context.accept group output = .ok decisions) : ∀ d ∈ decisions, d.Within (group.map (·.id)) := by
  unfold ConsolidationContext.accept at h
  split at h
  · cases h
  split at h
  · cases h
  rename_i parsed hparse
  split_ifs at h
  cases h
  unfold ConsolidationContext.parseDecisions at hparse
  split at hparse
  · cases hparse
  intro d hd
  obtain ⟨v, -, hv⟩ := Checks.exists_of_mem_mapM hparse hd
  exact parseDecision_within hv

theorem mem_of_mem_groupRemaining {entries g : List MemoryEntry} (hg : g ∈ groupRemaining entries) : ∀ e ∈ g, e ∈ entries := by
  induction entries using groupRemaining.induct with
  | case1 =>
    unfold groupRemaining at hg
    cases hg
  | case2 first remaining ih =>
    unfold groupRemaining at hg
    rcases List.mem_cons.1 hg with rfl | hg
    · intro e he
      rcases List.mem_cons.1 he with rfl | he
      · exact List.mem_cons_self
      · exact List.mem_cons_of_mem _ (List.mem_of_mem_filter he)
    · intro e he
      exact List.mem_cons_of_mem _ (List.mem_of_mem_filter (ih hg e he))

def Bucket.Uniform (b : Bucket) : Prop := ∀ e ∈ b.entries, e.ns = b.ns ∧ e.memoryType = b.memoryType

theorem uniform_addToBucket {buckets : List Bucket} (h : ∀ b ∈ buckets, b.Uniform) (entry : MemoryEntry) :
    ∀ b ∈ addToBucket buckets entry, b.Uniform := by
  induction buckets with
  | nil =>
    intro b hb e he
    rw [List.mem_singleton.1 hb] at he ⊢
    rw [List.mem_singleton.1 he]
    exact ⟨rfl, rfl⟩
  | cons first buckets ih =>
    obtain ⟨hfirst, hrest⟩ := List.forall_mem_cons.1 h
    unfold addToBucket
    split_ifs with hsame
    · refine List.forall_mem_cons.2 ⟨fun e he => ?_, hrest⟩
      rcases List.mem_append.1 he with he | he
      · exact hfirst e he
      · rw [List.mem_singleton.1 he]
        exact ⟨hsame.1.symm, hsame.2.symm⟩
    · exact List.forall_mem_cons.2 ⟨hfirst, ih hrest⟩

theorem uniform_buckets (entries : List MemoryEntry) {buckets : List Bucket} (h : ∀ b ∈ buckets, b.Uniform) :
    ∀ b ∈ entries.foldl addToBucket buckets, b.Uniform := by
  induction entries generalizing buckets with
  | nil => exact h
  | cons entry entries ih => exact ih (uniform_addToBucket h entry)

theorem kind_of_mem_groupCandidates {entries g : List MemoryEntry} (hg : g ∈ groupCandidates entries) :
    ∃ kind : String × MemoryType, ∀ e ∈ g, (e.ns, e.memoryType) = kind := by
  obtain ⟨b, hb, hg⟩ := List.mem_flatMap.1 hg
  have huniform := uniform_buckets entries (fun _ hb => absurd hb List.not_mem_nil) b (SortBy.mem_sortBy.1 hb)
  refine ⟨(b.ns, b.memoryType), fun e he => ?_⟩
  obtain ⟨hns, htype⟩ := huniform e (mem_of_mem_groupRemaining hg e he)
  rw [hns, htype]

/-! ### The law -/

/-- The links from a superseded row lead, without a circle, to a row that is there, active, and of the same namespace and
type. -/
def Replaced (db : MemoryDb) (a : Uuid) : Prop :=
  ∀ r, db.row? a = some r → r.supersededBy.isSome = true → ∃ (path : List Uuid) (z : Uuid) (last : MemoryRow),
    path.head? = some a ∧ path.getLast? = some z ∧ path.Nodup ∧ (path.IsChain fun x y => db.next x = some y) ∧
      db.row? z = some last ∧ last.supersededBy = none ∧ last.ns = r.ns ∧ last.memoryType = r.memoryType

def BatchOutcome.counts : BatchOutcome → AppliedCounts
  | .applied counts => counts
  | _ => {}

structure ConsolidationLaw (db : MemoryDb) (group : List MemoryEntry) (result : BatchOutcome × MemoryDb) : Prop where
  stored : ∀ e ∈ group, (result.2.row? e.id).isSome = true
  replaced : ∀ e ∈ group, Replaced result.2 e.id
  outside : ∀ id ∉ group.map (·.id), ∀ r, db.row? id = some r → result.2.row? id = some r
  merged : result.1.counts.merged = created db result.2
  superseded : result.1.counts.superseded = newlyMarked db result.2

section
variable {start : MemoryDb} {ids : List Uuid} {kind : String × MemoryType} {merged superseded : Nat}

theorem BatchInv.row_of_kind {a : Uuid} (h : db.kind a = some kind) :
    ∃ r, db.row? a = some r ∧ r.ns = kind.1 ∧ r.memoryType = kind.2 := by
  obtain ⟨r, hrow, rfl⟩ := Option.map_eq_some_iff.1 h
  exact ⟨r, hrow, rfl, rfl⟩

theorem BatchInv.replaced_iff (h : BatchInv start ids kind db merged superseded) :
    (∀ a ∈ ids, Replaced db a) ↔ Grounded ids db := by
  refine forall₂_congr fun a ha => ?_
  obtain ⟨r, hrow, hns, htype⟩ := BatchInv.row_of_kind (h.kinds a ha)
  constructor
  · intro hreplaced
    rcases hlink : r.supersededBy with _ | b
    · exact ⟨0, a, .stop (by rw [MemoryDb.next, hrow, Option.bind_some, hlink])⟩
    obtain ⟨path, z, last, hhead, hlast, -, hchain, hz, hactive, -⟩ := hreplaced r hrow (by rw [hlink]; rfl)
    obtain ⟨n, hn⟩ := Ends.of_chain hchain hhead hlast (by rw [MemoryDb.next, hz, Option.bind_some, hactive])
    exact ⟨n, z, hn⟩
  · rintro ⟨n, z, hends⟩ r' hrow' -
    rw [hrow] at hrow'
    cases hrow'
    obtain ⟨path, hhead, hlast, hnodup, hchain, -⟩ := hends.trail
    obtain ⟨last, hz, hlastns, hlasttype⟩ := BatchInv.row_of_kind (h.kind_of_ends ha hends)
    have hactive := hends.last
    rw [MemoryDb.next, hz, Option.bind_some] at hactive
    exact ⟨path, z, last, hhead, hlast, hnodup, hchain, hz, hactive, hlastns.trans hns.symm, hlasttype.trans htype.symm⟩

theorem Batch.inv (h : Batch db group kind) : BatchInv db (group.map (·.id)) kind db 0 0 := by
  have hactive (a : Uuid) (ha : a ∈ group.map (·.id)) :
      ∃ r, db.row? a = some r ∧ r.supersededBy = none ∧ (r.ns, r.memoryType) = kind := by
    obtain ⟨e, he, rfl⟩ := List.mem_map.1 ha
    obtain ⟨r, hrow, hlink, hns, htype⟩ := h.stored e he
    exact ⟨r, hrow, hlink, by rw [hns, htype, h.kinds e he]⟩
  refine ⟨fun a ha => ?_, fun a ha => ?_, fun a ha b hb => ?_, fun _ _ _ hr => hr, created_self db, newlyMarked_self db⟩
  · obtain ⟨r, hrow, hlink, -⟩ := hactive a ha
    exact ⟨r, hrow, hlink⟩
  · obtain ⟨r, hrow, -, hkind⟩ := hactive a ha
    rw [MemoryDb.kind, hrow, ← hkind]
    rfl
  · obtain ⟨r, hrow, hlink, -⟩ := hactive a ha
    rw [MemoryDb.next, hrow, Option.bind_some, hlink] at hb
    cases hb

theorem Batch.grounded (h : Batch db group kind) : Grounded (group.map (·.id)) db := by
  intro a ha
  obtain ⟨r, hrow, hlink⟩ := h.inv.active a ha
  exact ⟨0, a, .stop (by rw [MemoryDb.next, hrow, Option.bind_some, hlink])⟩

theorem law_iff_of_inv {s : BatchState} (h : s.Inv db group kind) {outcome : BatchOutcome}
    (houtcome : outcome.counts.merged = s.applied.merged ∧ outcome.counts.superseded = s.applied.superseded) :
    ConsolidationLaw db group (outcome, s.db) ↔ Grounded (group.map (·.id)) s.db := by
  rw [← BatchInv.replaced_iff h]
  constructor
  · intro hlaw a ha
    obtain ⟨e, he, rfl⟩ := List.mem_map.1 ha
    exact hlaw.replaced e he
  · intro hreplaced
    refine ⟨fun e he => ?_, fun e he => hreplaced e.id (List.mem_map_of_mem he), h.outside,
      houtcome.1.trans h.created.symm, houtcome.2.trans h.marked.symm⟩
    obtain ⟨r, hrow, -⟩ := BatchInv.row_of_kind (h.kinds e.id (List.mem_map_of_mem he))
    rw [hrow]
    rfl

theorem fst_mem_of_mem_timed {moments : Nat → Moment} {decisions : List Decision} {d : Decision × Moment}
    (h : d ∈ timed moments decisions) : d.1 ∈ decisions := by
  obtain ⟨⟨decision, i⟩, hmem, rfl⟩ := List.mem_map.1 h
  exact (List.mem_zipIdx' hmem).2 ▸ List.getElem_mem _

theorem counts_of_accept_error {output : Option (List String)} {outcome : BatchOutcome}
    (h : context.accept group output = .error outcome) : outcome.counts = {} := by
  unfold ConsolidationContext.accept at h
  split at h
  · cases h
    rfl
  split at h
  · cases h
    rfl
  split_ifs at h
  cases h
  rfl

/-- For entries that are stored and active, of one namespace and one type. -/
theorem Batch.law_iff (h : Batch db group kind) (context : ConsolidationContext) (output : Option (List String))
    (moments : Nat → Moment) :
    ConsolidationLaw db group (context.processBatch group output moments db) ↔
      ∀ decisions, context.accept group output = .ok decisions →
        Run.Along (BatchState.step group) NoReturn { db := db } (timed moments decisions) := by
  have hstart : ({ db := db } : BatchState).Inv db group kind := h.inv
  unfold ConsolidationContext.processBatch
  cases haccept : context.accept group output with
  | error outcome =>
    have hcounts := counts_of_accept_error haccept
    refine iff_of_true ?_ fun decisions heq => by cases heq
    exact (law_iff_of_inv hstart (by rw [hcounts]; exact ⟨rfl, rfl⟩)).2 h.grounded
  | ok decisions =>
    have hwithin : ∀ d ∈ timed moments decisions, d.1.Within (group.map (·.id)) :=
      fun d hd => accept_within haccept d.1 (fst_mem_of_mem_timed hd)
    have hinv : (Run.run (BatchState.step group) { db := db } (timed moments decisions)).Inv db group kind :=
      Run.invariant (P := fun _ d => d.1.Within (group.map (·.id))) (fun _ _ hs hd => (step_spec h hs hd).1) hstart
        (Run.along_of_forall fun _ d hd => hwithin d hd)
    have hgrounded : Grounded (group.map (·.id)) (Run.run (BatchState.step group) { db := db } (timed moments decisions)).db ↔
        Run.Along (BatchState.step group) NoReturn { db := db } (timed moments decisions) :=
      (Run.invariant_run_iff_along (I := fun s : BatchState => Grounded (group.map (·.id)) s.db)
        (J := fun s : BatchState => s.Inv db group kind) (D := fun d => d.1.Within (group.map (·.id)))
        (fun _ _ hs hd => (step_spec h hs hd).1) (fun _ _ hs hd => (step_spec h hs hd).2) hstart hwithin).trans (and_iff_right h.grounded)
    dsimp only
    refine Iff.trans ?_ (hgrounded.trans ?_)
    · split_ifs with hskipped
      · exact law_iff_of_inv hinv (by rw [hskipped.2]; exact ⟨rfl, rfl⟩)
      · exact law_iff_of_inv hinv ⟨rfl, rfl⟩
    · constructor
      · intro halong decisions' heq
        cases heq
        exact halong
      · exact fun halong => halong decisions rfl

end

/-- For every group that consolidation makes of listed entries and cuts to the size of a call. -/
theorem consolidation_law (context : ConsolidationContext) {entries g : List MemoryEntry} (hg : g ∈ groupCandidates entries)
    (hstored : ∀ e ∈ g.take maxEntriesPerProviderCall, ∃ r ∈ db.rows, fromRow r = e ∧ r.supersededBy = none)
    (output : Option (List String)) (moments : Nat → Moment) :
    ConsolidationLaw db (g.take maxEntriesPerProviderCall)
        (context.processBatch (g.take maxEntriesPerProviderCall) output moments db) ↔
      ∀ decisions, context.accept (g.take maxEntriesPerProviderCall) output = .ok decisions →
        Run.Along (BatchState.step (g.take maxEntriesPerProviderCall)) NoReturn { db := db } (timed moments decisions) := by
  obtain ⟨kind, hkind⟩ := kind_of_mem_groupCandidates hg
  have hbatch : Batch db (g.take maxEntriesPerProviderCall) kind := by
    refine ⟨fun e he => ?_, fun e he => hkind e (List.mem_of_mem_take he)⟩
    obtain ⟨r, hr, rfl, hactive⟩ := hstored e he
    exact ⟨r, MemoryDb.row?_of_mem hr, hactive, rfl, rfl⟩
  exact hbatch.law_iff context output moments


def skyEntry (id : Uuid) : MemoryEntry := ⟨id, "team", "the sky is blue", .fact, 1, 0, 0, 0, none, none, none⟩

def skyGroup : List MemoryEntry := [skyEntry 1, skyEntry 2]

def skyRows : List MemoryRow := skyGroup.map MemoryEntry.toRow

theorem skyRows_ids : (skyRows.map (·.id)).Nodup := by decide

def skyDb : MemoryDb := ⟨skyRows, none, skyRows_ids⟩

theorem skyGroup_similar : isSimilar "the sky is blue" "the sky is blue" = true := by decide +kernel

theorem skyGroup_mem : skyGroup ∈ groupCandidates skyGroup := by
  simp [groupCandidates, skyGroup, addToBucket, SortBy.sortBy, groupRemaining, groupOf, restOf, skyEntry, skyGroup_similar]

theorem skyGroup_stored : ∀ e ∈ skyGroup.take maxEntriesPerProviderCall, ∃ r ∈ skyDb.rows, fromRow r = e ∧ r.supersededBy = none := by
  intro e he
  rcases List.mem_cons.1 he with rfl | he
  · exact ⟨(skyEntry 1).toRow, List.mem_cons_self, rfl, rfl⟩
  · rw [List.mem_singleton.1 he]
    exact ⟨(skyEntry 2).toRow, List.mem_cons_of_mem _ List.mem_cons_self, rfl, rfl⟩

def firstId : String := "00000000-0000-0000-0000-000000000001"

def secondId : String := "00000000-0000-0000-0000-000000000002"

def supersedeText (supersededId supersededById : String) : String :=
  "\x7b\"action\":\"supersede\",\"superseded_id\":\"" ++ supersededId ++ "\",\"superseded_by_id\":\"" ++ supersededById ++
    "\"\x7d"

def supersedeValue (supersededId supersededById : String) : Json :=
  .object [("action", .string "supersede"), ("superseded_by_id", .string supersededById),
    ("superseded_id", .string supersededId)]

def onceText : String := "[" ++ supersedeText firstId secondId ++ "]"

def mutualText : String := "[" ++ supersedeText firstId secondId ++ "," ++ supersedeText secondId firstId ++ "]"

def skyContext : ConsolidationContext where
  fromStr text :=
    if text = onceText then some [supersedeValue firstId secondId]
    else if text = mutualText then some [supersedeValue firstId secondId, supersedeValue secondId firstId]
    else none
  parseUuid raw := if raw = firstId then some 1 else if raw = secondId then some 2 else none
  scan _ := some false

/-- The first entry is superseded by the second and the second by the first: both are hidden. -/
theorem mutual_supersession :
    let result := skyContext.processBatch skyGroup (some [mutualText]) (fun _ => ⟨true, 3, 0⟩) skyDb
    skyGroup ∈ groupCandidates skyGroup ∧ result.1 = .applied ⟨0, 2, 0⟩ ∧ result.2.next 1 = some 2 ∧
      result.2.next 2 = some 1 ∧ ¬ ConsolidationLaw skyDb skyGroup result := by
  intro result
  have hnext : result.2.next 1 = some 2 ∧ result.2.next 2 = some 1 := by decide +kernel
  refine ⟨skyGroup_mem, by decide +kernel, hnext.1, hnext.2, fun hlaw => ?_⟩
  have hrow : ∃ r, result.2.row? 1 = some r ∧ r.supersededBy.isSome = true := by
    obtain ⟨r, hrow, hlink⟩ := Option.bind_eq_some_iff.1 hnext.1
    exact ⟨r, hrow, by rw [hlink]; rfl⟩
  obtain ⟨r, hrow, hlink⟩ := hrow
  obtain ⟨path, z, last, hhead, hlast, -, hchain, hz, hactive, -⟩ :=
    hlaw.replaced (skyEntry 1) List.mem_cons_self r hrow hlink
  obtain ⟨n, hn⟩ := Ends.of_chain hchain hhead hlast (by rw [MemoryDb.next, hz, Option.bind_some, hactive])
  obtain ⟨k, rfl, hk⟩ := hn.of_step hnext.1
  obtain ⟨j, rfl, hj⟩ := hk.of_step hnext.2
  have heq := (hj.unique hn).1
  omega

theorem skyContext_once : (skyContext.accept (skyGroup.take maxEntriesPerProviderCall) (some [onceText])).toOption =
    some [.supersede 1 2] := by decide +kernel

theorem consolidation_law_once : ConsolidationLaw skyDb (skyGroup.take maxEntriesPerProviderCall)
      (skyContext.processBatch (skyGroup.take maxEntriesPerProviderCall) (some [onceText]) (fun _ => ⟨true, 3, 0⟩) skyDb) := by
  refine (consolidation_law skyContext skyGroup_mem skyGroup_stored (some [onceText]) fun _ => ⟨true, 3, 0⟩).2 ?_
  intro decisions haccept
  have hdecisions := skyContext_once
  rw [haccept] at hdecisions
  cases hdecisions
  refine ⟨fun _ _ x y heq _ => ?_, trivial⟩
  cases heq
  rintro ⟨n, hends⟩
  have hnone : skyDb.next 2 = none := by decide +kernel
  exact absurd (hends.unique (.stop hnone)).2 (by decide)

end ObeyGateway.Memory
