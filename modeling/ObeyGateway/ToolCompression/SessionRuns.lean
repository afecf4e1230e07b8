import ObeyGateway.ToolCompression.SessionRegistry

/-!
# Runs of the session registry

What holds after every run, from the steps of `SessionRegistry`; that the steps of one touch with nothing
between them are `touch_session` (`touch_alone`); and the run in which a session outlives its registration:
it is touched first, ten thousand others follow, and the request writes when it has been evicted.
-/

namespace ObeyGateway.ToolCompression.SessionSys
open Assoc ToolCompressionState

variable {n : Nat} {shard : String → Fin n} {s : SessionSys n} {acts : List SessionAct}

theorem distinct_after : (after shard acts).state.Distinct :=
  Run.invariant_of_step (I := fun s : SessionSys n => s.state.Distinct)
    (fun _ act h => (step_effect act).distinct h) .new

theorem tracked_after : (after shard acts).Tracked shard := by
  have hinit : (init : SessionSys n).state.Distinct ∧ (init : SessionSys n).Tracked shard :=
    ⟨.new, .inl (Nat.zero_le _)⟩
  have h : _ ∧ (after shard acts).Tracked shard := Run.invariant_of_step
    (I := fun s : SessionSys n => s.state.Distinct ∧ s.Tracked shard)
    (fun _ act h => ⟨(step_effect act).distinct h.1, (step_effect act).tracked h.1 h.2⟩) hinit
  exact h.2

theorem covers_after (h : Run.Along (step shard) WritesCovered init acts) : (after shard acts).Covers := by
  refine Run.invariant (fun _ act hc hw => (step_effect act).covers hc hw) (fun m k hk => ?_) h
  cases m <;> exact absurd hk List.not_mem_nil

theorem ticks_after (h : Run.Along (step shard) TickLeft init acts) : (after shard acts).Ticks := by
  have hinit : (init : SessionSys n).Ticks :=
    ⟨List.nodup_nil, fun _ he => absurd he List.not_mem_nil, fun _ _ h => (nomatch h),
      fun _ _ _ _ h => (nomatch h)⟩
  exact Run.invariant (fun _ act ht hl => (step_effect act).ticks ht hl) hinit h

theorem Tracked.length_le (h : s.Tracked shard) (hq : s.Quiescent) : s.state.sessionLru.length ≤ MAX_TRACKED_SESSIONS := by
  rcases h with h | ⟨t, ht⟩
  · exact h
  · rw [hq t] at ht
    exact ht.elim

theorem Covers.registered (h : s.Covers) (hq : s.Quiescent) {m : SessionMap} {k : String}
    (hk : k ∈ s.state.sessions m) : k ∈ keys s.state.sessionLru := by
  rcases h m k hk with ⟨t, ht⟩ | ⟨hmem, -⟩
  · rw [hq t] at ht
    exact ht.elim
  · exact hmem

/-! ### A touch with nothing between its steps -/

def Calm (s : SessionSys n) (act : SessionAct) : Prop := s.WritesCovered act ∧ s.TickLeft act

theorem writesCovered_of_calm (h : Run.Along (step shard) Calm s acts) :
    Run.Along (step shard) WritesCovered s acts := h.mono fun _ _ hcalm => hcalm.1

theorem tickLeft_of_calm (h : Run.Along (step shard) Calm s acts) :
    Run.Along (step shard) TickLeft s acts := h.mono fun _ _ hcalm => hcalm.2

def nothing : SessionEnv := ⟨[], [], []⟩

theorem goto_goto (t : Nat) (pc pc' : SessionPc n) : (s.goto t pc).goto t pc' = s.goto t pc' := by
  simp [goto]

theorem goto_pc (t : Nat) (pc : SessionPc n) : (s.goto t pc).pc t = pc := by simp [goto]

variable {t : Nat}

theorem goto_pc_of_ne {u : Nat} (h : u ≠ t) (pc : SessionPc n) : (s.goto t pc).pc u = s.pc u :=
  Function.update_of_ne h _ _

theorem goto_state (t : Nat) (pc : SessionPc n) : (s.goto t pc).state = s.state := rfl

theorem inShard_goto (t : Nat) (pc : SessionPc n) : (s.goto t pc).inShard shard = s.inShard shard := rfl

theorem goto_eq_self {pc : SessionPc n} (h : s.pc t = pc) : s.goto t pc = s := by
  rw [goto, ← h, Function.update_eq_self]

theorem reaches_step {s' : SessionSys n} (t : Nat) (env : SessionEnv) (hcalm : Calm s (.step t env))
    (h : s.step shard (.step t env) = s') : Run.Reaches (step shard) Calm s s' := h ▸ .single hcalm

theorem shards_alone {β : Type} (pc : β → List (Fin n) → SessionPc n) (add : β → List (String × Nat) → β)
    (hstep : ∀ (s : SessionSys n) b i shards, s.pc t = pc b (i :: shards) →
      Calm s (.step t nothing) ∧
        s.step shard (.step t nothing) = s.goto t (pc (add b (s.inShard shard i)) shards))
    {b : β} {shards : List (Fin n)} (hpc : s.pc t = pc b shards) :
    Run.Reaches (step shard) Calm s
      (s.goto t (pc (shards.foldl (fun b i => add b (s.inShard shard i)) b) [])) := by
  induction shards generalizing s b with
  | nil =>
    rw [List.foldl_nil, goto_eq_self hpc]
    exact .refl
  | cons i shards ih =>
    obtain ⟨hcalm, hnext⟩ := hstep s b i shards hpc
    refine .head hcalm ?_
    have hrest := ih (goto_pc (s := s) t (pc (add b (s.inShard shard i)) shards))
    rw [hnext]
    rwa [goto_goto, inShard_goto] at hrest

theorem foldl_length (f : Fin n → List (String × Nat)) (tracked : Nat) (shards : List (Fin n)) :
    shards.foldl (fun c i => c + (f i).length) tracked = tracked + (shards.flatMap f).length := by
  induction shards generalizing tracked with
  | nil => rfl
  | cons i shards ih => rw [List.foldl_cons, ih, List.flatMap_cons, List.length_append, Nat.add_assoc]

theorem foldl_append (f : Fin n → List (String × Nat)) (collected : List (String × Nat)) (shards : List (Fin n)) :
    shards.foldl (fun c i => c ++ f i) collected = collected ++ shards.flatMap f := by
  induction shards generalizing collected with
  | nil => simp
  | cons i shards ih => rw [List.foldl_cons, ih, List.flatMap_cons, List.append_assoc]

theorem flatMap_inShard_perm {shards : List (Fin n)} (h : shards.Nodup) :
    (shards.flatMap (s.inShard shard)).Perm (s.state.sessionLru.filter (shard ·.1 ∈ shards)) := by
  induction shards with
  | nil => simp
  | cons i shards ih =>
    obtain ⟨hi, h⟩ := List.nodup_cons.1 h
    rw [List.flatMap_cons]
    exact ((List.Perm.refl _).append (ih h)).trans (SessionPc.filter_shards_perm hi)

theorem collected_perm : ((List.finRange n).flatMap (s.inShard shard)).Perm s.state.sessionLru := by
  have h : ((List.finRange n).flatMap (s.inShard shard)).Perm
      (s.state.sessionLru.filter (shard ·.1 ∈ List.finRange n)) := flatMap_inShard_perm (List.nodup_finRange n)
  simpa using h

variable {id : String}

theorem len_alone (hpc : s.pc t = .len id 0 (List.finRange n)) :
    Run.Reaches (step shard) Calm s (s.goto t (if MAX_TRACKED_SESSIONS < s.state.sessionLru.length then
      .excess id 0 (List.finRange n) else .serving id)) := by
  have hcount : Run.Reaches (step shard) Calm s _ :=
    shards_alone (fun tracked => .len id tracked) (fun tracked found => tracked + found.length)
      (fun s b i shards h => ⟨by simp [Calm, WritesCovered, TickLeft, h], by simp [step, stepTask, h]⟩) hpc
  rw [foldl_length, collected_perm.length_eq, Nat.zero_add] at hcount
  refine hcount.trans (reaches_step t nothing (by simp [Calm, WritesCovered, TickLeft, goto_pc]) ?_)
  simp only [step, stepTask, goto_pc, goto_goto]

theorem excess_alone (hpc : s.pc t = .excess id 0 (List.finRange n)) : Run.Reaches (step shard) Calm s
      (s.goto t (if s.state.sessionLru.length - MAX_TRACKED_SESSIONS = 0 then .serving id
        else .collect id (removeCount s.state.sessionLru.length) [] (List.finRange n))) := by
  have hcount : Run.Reaches (step shard) Calm s _ :=
    shards_alone (fun tracked => .excess id tracked) (fun tracked found => tracked + found.length)
      (fun s b i shards h => ⟨by simp [Calm, WritesCovered, TickLeft, h], by simp [step, stepTask, h]⟩) hpc
  rw [foldl_length, collected_perm.length_eq, Nat.zero_add] at hcount
  refine hcount.trans (reaches_step t nothing (by simp [Calm, WritesCovered, TickLeft, goto_pc]) ?_)
  simp only [step, stepTask, goto_pc, goto_goto]

variable {byTick : List (String × Nat)}

theorem collect_alone {count : Nat}
    (hpc : s.pc t = .collect id count [] (List.finRange n)) (hsort : ByTick byTick s.state.sessionLru) :
    Run.Reaches (step shard) Calm s
      (s.goto t (.forget id SessionMap.all (keys (byTick.take count)))) := by
  have hcount : Run.Reaches (step shard) Calm s _ :=
    shards_alone (fun collected => .collect id count collected) (fun collected found => collected ++ found)
      (fun s b i shards h => ⟨by simp [Calm, WritesCovered, TickLeft, h], by simp [step, stepTask, h]⟩) hpc
  rw [foldl_append, List.nil_append] at hcount
  have hsort : ByTick byTick ((List.finRange n).flatMap (s.inShard shard)) :=
    ⟨hsort.1.trans collected_perm.symm, hsort.2⟩
  refine hcount.trans (reaches_step t ⟨byTick, [], []⟩ (by simp [Calm, WritesCovered, TickLeft, goto_pc]) ?_)
  simp only [step, stepTask, goto_pc, goto_goto, hsort, if_true]

theorem removals_alone {victim : String} {victims : List String} {maps : List SessionMap}
    (hheld : s.held = []) (hpc : s.pc t = .forget id maps (victim :: victims)) :
    Run.Reaches (step shard) Calm s
      ({ s with state := maps.foldl (fun s m => s.remove victim m) s.state }.goto t
        (.forget id [] (victim :: victims))) := by
  induction maps generalizing s with
  | nil =>
    rw [List.foldl_nil, goto_eq_self hpc]
    exact .refl
  | cons m maps ih =>
    refine .head (a := .step t nothing) (by simp [Calm, WritesCovered, TickLeft, hpc]) ?_
    have hnext : s.step shard (.step t nothing) =
        { s with state := s.state.remove victim m }.goto t (.forget id maps (victim :: victims)) := by
      simp [step, stepTask, hpc, hheld]
    rw [hnext]
    have hrest := ih (s := { s with state := s.state.remove victim m }.goto t
      (.forget id maps (victim :: victims))) hheld (goto_pc t _)
    simpa [goto] using hrest

theorem forget_alone {victims : List String} (hheld : s.held = [])
    (hpc : s.pc t = .forget id SessionMap.all victims) : Run.Reaches (step shard) Calm s
      ({ s with state := victims.foldl forgetSession s.state }.goto t (.serving id)) := by
  induction victims generalizing s with
  | nil =>
    refine reaches_step t nothing (by simp [Calm, WritesCovered, TickLeft, hpc]) ?_
    simp only [step, stepTask, hpc, List.foldl_nil]
  | cons victim victims ih =>
    refine (removals_alone hheld hpc).trans ?_
    refine .head (a := .step t nothing) (by simp [Calm, WritesCovered, TickLeft, goto_pc]) ?_
    have hrest := ih (s := { s with state := s.state.forgetSession victim }.goto t
      (.forget id SessionMap.all victims)) hheld (goto_pc t _)
    simpa [step, stepTask, goto, forgetSession] using hrest

theorem evict_alone (hheld : s.held = [])
    (hsort : ByTick byTick s.state.sessionLru) (hpc : s.pc t = .excess id 0 (List.finRange n)) :
    Run.Reaches (step shard) Calm s
      ({ s with state := s.state.evictLeastRecentlyUsedSessions byTick }.goto t (.serving id)) := by
  refine (excess_alone hpc).trans ?_
  rw [evictLeastRecentlyUsedSessions]
  by_cases hle : s.state.sessionLru.length - MAX_TRACKED_SESSIONS = 0
  · rw [if_pos hle, if_pos hle]
    exact .refl
  rw [if_neg hle, if_neg hle]
  have hcollect : Run.Reaches (step shard) Calm _ _ := collect_alone
    (goto_pc (s := s) t (.collect id (removeCount s.state.sessionLru.length) [] (List.finRange n))) hsort
  rw [goto_goto] at hcollect
  have hforget : Run.Reaches (step shard) Calm _ _ := forget_alone
    (s := s.goto t (.forget id SessionMap.all (keys (byTick.take (removeCount s.state.sessionLru.length)))))
    hheld (goto_pc t _)
  refine hcollect.trans ?_
  simpa [goto] using hforget

theorem register_alone (hleft : s.state.sessionTick + 1 < 2 ^ 64)
    (hpc : s.pc t = .fetchTick id) : Run.Reaches (step shard) Calm s
      ({ s with state := s.state.fetchTick.register id s.state.sessionTick }.goto t
        (.len id 0 (List.finRange n))) := by
  refine .head (a := .step t nothing) ⟨by simp [WritesCovered, hpc], by simpa [TickLeft, hpc] using hleft⟩ ?_
  have hnext : s.step shard (.step t nothing) =
      { s with state := s.state.fetchTick }.goto t (.insert id s.state.sessionTick) := by
    simp [step, stepTask, hpc]
  rw [hnext]
  refine reaches_step t nothing (by simp [Calm, WritesCovered, TickLeft, goto_pc]) ?_
  simp [step, stepTask, goto]

theorem touch_alone (hheld : s.held = []) (hleft : s.state.sessionTick + 1 < 2 ^ 64) (hpc : s.pc t = .fetchTick id)
    (hsort : ByTick byTick (put s.state.sessionLru id s.state.sessionTick)) :
    Run.Reaches (step shard) Calm s
      ({ s with state := s.state.touchSession id byTick }.goto t (.serving id)) := by
  refine (register_alone hleft hpc).trans ?_
  -- the registry with the session in it, before the check
  generalize hr : s.state.fetchTick.register id s.state.sessionTick = r
  have hsort : ByTick byTick r.sessionLru := hr ▸ hsort
  have htouch : s.state.touchSession id byTick = if MAX_TRACKED_SESSIONS < r.sessionLru.length then
      r.evictLeastRecentlyUsedSessions byTick else r := by rw [← hr]; rfl
  have hlen : Run.Reaches (step shard) Calm _ _ :=
    len_alone (goto_pc (s := { s with state := r }) t (.len id 0 (List.finRange n)))
  rw [goto_goto, goto_state] at hlen
  refine hlen.trans ?_
  rw [htouch]
  by_cases hover : MAX_TRACKED_SESSIONS < r.sessionLru.length
  · rw [if_pos hover, if_pos hover]
    have hevict : Run.Reaches (step shard) Calm _ _ := evict_alone
      (s := { s with state := r }.goto t (.excess id 0 (List.finRange n))) hheld hsort (goto_pc t _)
    simpa [goto] using hevict
  · rw [if_neg hover, if_neg hover]
    exact .refl

theorem disclose_alone (env : SessionEnv) (hheld : s.held = [])
    (hpc : s.pc t = .serving id) (hothers : ∀ u, u ≠ t → s.pc u = .idle)
    (hreg : id ∈ keys s.state.sessionLru) : Run.Reaches (step shard) Calm s
      { s with state := (s.state.discloseState id env.names).discloseTargets id env.targets } := by
  have hpast : ∀ u m, ¬ (s.pc u).Past m id := by
    intro u m
    by_cases hut : u = t
    · rw [hut, hpc]
      exact fun h => h
    · rw [hothers u hut]
      exact fun h => h
  refine .head (a := .step t env) ?_ ?_
  · refine ⟨?_, by simp [TickLeft, hpc]⟩
    simp only [WritesCovered, hpc]
    exact fun _ => .inr ⟨hreg, fun u => hpast u _⟩
  have hnext : s.step shard (.step t env) =
      { s with state := s.state.discloseState id env.names, held := [id] }.goto t (.disclosing id) := by
    simp [step, stepTask, hpc, hheld]
  rw [hnext]
  refine reaches_step t env ⟨?_, by simp [TickLeft, goto_pc]⟩ ?_
  · simp only [WritesCovered, goto_pc]
    refine .inr ⟨hreg, fun u => ?_⟩
    by_cases hut : u = t
    · rw [hut, goto_pc]
      exact fun h => h
    · show ¬ (Function.update s.pc t (.disclosing id) u).Past _ id
      rw [Function.update_of_ne hut]
      exact hpast u _
  · simp [step, stepTask, goto, ← hheld, ← hpc]

/-! ### A session that is touched first and evicted -/

/-- The first request is being served, and the sessions of `ids` have come and gone since. -/
structure Crowd (s : SessionSys n) (first : String) (ids : List String) : Prop where
  held : s.held = []
  serving : s.pc 0 = .serving first
  others : ∀ t, t ≠ 0 → s.pc t = .idle
  tick : s.state.sessionTick = ids.length + 1
  length : s.state.sessionLru.length = ids.length + 1
  known : ∀ e ∈ s.state.sessionLru, e.1 = first ∨ e.1 ∈ ids
  oldest : (first, 0) ∈ s.state.sessionLru

theorem put_of_new {lru : List (String × Nat)} {tick : Nat} (h : ∀ e ∈ lru, e.1 ≠ id) :
    put lru id tick = (id, tick) :: lru := by
  rw [put, erase, List.filter_eq_self.2 fun e he => by simpa using h e he]

theorem exists_byTick (entries : List (String × Nat)) : ∃ byTick, ByTick byTick entries :=
  ⟨entries.insertionSort (·.2 ≤ ·.2), List.perm_insertionSort _ _, List.pairwise_insertionSort _ _⟩

theorem arrive_alone (t : Nat) (id : String) (hheld : s.held = []) (hidle : s.pc t = .idle)
    (hleft : s.state.sessionTick + 1 < 2 ^ 64)
    (hroom : (put s.state.sessionLru id s.state.sessionTick).length ≤ MAX_TRACKED_SESSIONS) :
    Run.Reaches (step shard) Calm s
      ({ s with state := s.state.fetchTick.register id s.state.sessionTick }.goto t (.serving id)) := by
  obtain ⟨byTick, hsort⟩ := exists_byTick (put s.state.sessionLru id s.state.sessionTick)
  have htouch : s.state.touchSession id byTick = s.state.fetchTick.register id s.state.sessionTick :=
    if_neg (Nat.not_lt.2 hroom)
  have harrive : s.step shard (.arrive t id) = s.goto t (.fetchTick id) := by simp [step, hidle]
  refine .head (a := .arrive t id) (by exact ⟨trivial, trivial⟩) ?_
  rw [harrive, ← htouch]
  have halone : Run.Reaches (step shard) Calm _ _ :=
    touch_alone (s := s.goto t (.fetchTick id)) hheld hleft (goto_pc t _) hsort
  simpa [goto] using halone

theorem crowd_nil (first : String) : ∃ s : SessionSys n, Run.Reaches (step shard) Calm init s ∧ s.Crowd first [] := by
  refine ⟨_, arrive_alone 0 first rfl rfl ?_ ?_, rfl, goto_pc 0 _, ?_, rfl, rfl, ?_, ?_⟩
  · show 0 + 1 < 2 ^ 64
    decide
  · show 1 ≤ MAX_TRACKED_SESSIONS
    decide
  · intro t ht
    exact Function.update_of_ne ht _ _
  · intro e he
    exact .inl (congrArg Prod.fst (List.mem_singleton.1 he))
  · exact List.mem_singleton.2 rfl

variable {first : String}

theorem Crowd.cons {ids : List String} (h : s.Crowd first ids) (hfirst : id ≠ first)
    (hid : id ∉ ids) (hroom : ids.length + 2 ≤ MAX_TRACKED_SESSIONS) :
    ∃ s', Run.Reaches (step shard) Calm s s' ∧ s'.Crowd first (id :: ids) := by
  have hnew : ∀ e ∈ s.state.sessionLru, e.1 ≠ id := by
    rintro e he rfl
    exact (h.known e he).elim hfirst hid
  have hput : put s.state.sessionLru id s.state.sessionTick = _ := put_of_new hnew
  have hlength : (put s.state.sessionLru id s.state.sessionTick).length = ids.length + 2 := by
    rw [hput, List.length_cons, h.length]
  have hleft : s.state.sessionTick + 1 < 2 ^ 64 := by
    have hcap : MAX_TRACKED_SESSIONS < 2 ^ 64 := by decide
    have htick := h.tick
    omega
  have harrive : Run.Reaches (step shard) Calm s _ :=
    arrive_alone 1 id h.held (h.others 1 Nat.one_ne_zero) hleft (hlength ▸ hroom)
  refine ⟨_, harrive.trans (.single (a := .finish 1) (by exact ⟨trivial, trivial⟩)), ?_⟩
  have hfinish : ({ s with state := s.state.fetchTick.register id s.state.sessionTick }.goto 1
      (.serving id)).step shard (.finish 1) =
      { s with state := s.state.fetchTick.register id s.state.sessionTick } := by
    have hidle := h.others 1 Nat.one_ne_zero
    simp [step, goto, ← hidle]
  rw [hfinish]
  refine ⟨h.held, h.serving, h.others, ?_, hlength, fun e he => ?_, ?_⟩
  · show (s.state.sessionTick + 1) % 2 ^ 64 = _
    rw [Nat.mod_eq_of_lt hleft, h.tick, List.length_cons]
  · change e ∈ put s.state.sessionLru id s.state.sessionTick at he
    rw [hput] at he
    rcases List.mem_cons.1 he with rfl | he
    · exact .inr List.mem_cons_self
    · exact (h.known e he).imp_right (List.mem_cons_of_mem _)
  · show (first, 0) ∈ put s.state.sessionLru id s.state.sessionTick
    rw [hput]
    exact List.mem_cons_of_mem _ h.oldest

theorem exists_crowd {ids : List String} (hnodup : (first :: ids).Nodup) (hroom : ids.length + 1 ≤ MAX_TRACKED_SESSIONS) :
    ∃ s : SessionSys n, Run.Reaches (step shard) Calm init s ∧ s.Crowd first ids := by
  induction ids with
  | nil => exact crowd_nil first
  | cons id ids ih =>
    obtain ⟨hfirst, hids⟩ := List.nodup_cons.1 hnodup
    obtain ⟨hid, hids⟩ := List.nodup_cons.1 hids
    obtain ⟨hne, hfirst⟩ := not_or.1 (fun h => hfirst (List.mem_cons.2 h))
    obtain ⟨s, hs, hcrowd⟩ := ih (List.nodup_cons.2 ⟨hfirst, hids⟩) (by rw [List.length_cons] at hroom; omega)
    obtain ⟨s', hs', hcrowd'⟩ : ∃ s', Run.Reaches (step shard) Calm s s' ∧ s'.Crowd first (id :: ids) :=
      hcrowd.cons (Ne.symm hne) hid hroom
    exact ⟨s', hs.trans hs', hcrowd'⟩

/-- One session more than the registry may have, and its request is about to find out. -/
structure Overfull (s : SessionSys n) (first last : String) : Prop where
  held : s.held = []
  serving : s.pc 0 = .serving first
  checking : s.pc 1 = .len last 0 (List.finRange n)
  others : ∀ t, t ≠ 0 → t ≠ 1 → s.pc t = .idle
  length : MAX_TRACKED_SESSIONS < s.state.sessionLru.length
  oldest : (first, 0) ∈ s.state.sessionLru

variable {last : String}

theorem exists_overfull (ids : List String) (hnodup : (last :: first :: ids).Nodup)
    (hfull : ids.length + 1 = MAX_TRACKED_SESSIONS) :
    ∃ s : SessionSys n, Run.Reaches (step shard) Calm init s ∧ s.Overfull first last := by
  obtain ⟨hlast, hnodup⟩ := List.nodup_cons.1 hnodup
  obtain ⟨s, hs, h⟩ : ∃ s : SessionSys n, Run.Reaches (step shard) Calm init s ∧ s.Crowd first ids :=
    exists_crowd hnodup hfull.le
  have hnew : ∀ e ∈ s.state.sessionLru, e.1 ≠ last := by
    rintro e he rfl
    exact hlast (List.mem_cons.2 (h.known e he))
  have hput : put s.state.sessionLru last s.state.sessionTick = _ := put_of_new hnew
  have hleft : s.state.sessionTick + 1 < 2 ^ 64 := by
    have hcap : MAX_TRACKED_SESSIONS + 1 < 2 ^ 64 := by decide
    have htick := h.tick
    omega
  have harrive : s.step shard (.arrive 1 last) = s.goto 1 (.fetchTick last) := by
    simp [step, h.others 1 Nat.one_ne_zero]
  have hregister : Run.Reaches (step shard) Calm (s.step shard (.arrive 1 last))
      ({ s with state := s.state.fetchTick.register last s.state.sessionTick }.goto 1
        (.len last 0 (List.finRange n))) := by
    have halone : Run.Reaches (step shard) Calm (s.goto 1 (.fetchTick last)) _ :=
      register_alone hleft (goto_pc 1 _)
    rw [harrive]
    simpa [goto] using halone
  refine ⟨_, hs.trans (.head (a := .arrive 1 last) (by exact ⟨trivial, trivial⟩) hregister), ?_⟩
  refine ⟨h.held, ?_, goto_pc 1 _, fun t h0 h1 => ?_, ?_, ?_⟩
  · rw [goto_pc_of_ne Nat.zero_ne_one]
    exact h.serving
  · rw [goto_pc_of_ne h1]
    exact h.others t h0
  · show MAX_TRACKED_SESSIONS < (put s.state.sessionLru last s.state.sessionTick).length
    rw [hput, List.length_cons, h.length]
    omega
  · show (first, 0) ∈ put s.state.sessionLru last s.state.sessionTick
    rw [hput]
    exact List.mem_cons_of_mem _ h.oldest

theorem Overfull.evict (h : s.Overfull first last)
    (hsort : ByTick byTick s.state.sessionLru) : Run.Reaches (step shard) Calm s
      ({ s with state := s.state.evictLeastRecentlyUsedSessions byTick }.goto 1 (.serving last)) := by
  have hlen : Run.Reaches (step shard) Calm s _ := len_alone h.checking
  rw [if_pos h.length] at hlen
  have hevict : Run.Reaches (step shard) Calm _ _ := evict_alone
    (s := s.goto 1 (.excess last 0 (List.finRange n))) h.held hsort (goto_pc 1 _)
  refine hlen.trans ?_
  simpa [goto] using hevict

theorem Overfull.not_mem_evict
    (h : (after shard acts).Overfull first last) (hleft : Run.Along (step shard) TickLeft init acts)
    (hsort : ByTick byTick (after shard acts).state.sessionLru) :
    first ∉ keys ((after shard acts).state.evictLeastRecentlyUsedSessions byTick).sessionLru := by
  have hd : (after shard acts).state.Distinct := distinct_after
  exact first_evicted hd.lru (ticks_after hleft).distinct hsort h.length h.oldest

def lateWrite : List SessionAct := [.step 0 nothing, .step 0 nothing, .finish 0, .finish 1]

theorem run_lateWrite (hheld : s.held = []) (hfirst : s.pc 0 = .serving first)
    (hlast : s.pc 1 = .serving last) (hothers : ∀ t, t ≠ 0 → t ≠ 1 → s.pc t = .idle) :
    Run.run (step shard) s lateWrite =
      ⟨(s.state.discloseState first []).discloseTargets first [], [], fun _ => .idle⟩ := by
  have hpc : Function.update (Function.update s.pc 0 .idle) 1 .idle = fun _ => .idle := by
    funext t
    by_cases h0 : t = 0 <;> by_cases h1 : t = 1 <;> simp_all
  simp [lateWrite, step, stepTask, goto, hfirst, hlast, hheld, nothing, hpc]

/-! ### The registry and the maps -/

theorem evictsOldest_after (h : Run.Along (step shard) TickLeft init acts) : (after shard acts).state.EvictsOldest :=
  fun _ hsort _ hgone hgone' _ hkept =>
    evict_older distinct_after.lru (ticks_after h).distinct hsort hgone hgone' hkept

/-- When no request is in flight the registry bounds the maps, in every run that writes for no session on its
way out. A pass removes the oldest sessions in every run in which the counter does not wrap around. -/
theorem registry_bounds_maps (shard : String → Fin n) (acts : List SessionAct) :
    (Run.Along (step shard) WritesCovered init acts → (after shard acts).Quiescent →
      (after shard acts).state.Bounded) ∧
    (Run.Along (step shard) TickLeft init acts → (after shard acts).state.EvictsOldest) := by
  refine ⟨fun h hq => ?_, evictsOldest_after⟩
  exact distinct_after.bounded (fun _ _ hk => (covers_after h).registered hq hk) (tracked_after.length_le hq)

theorem exists_visit (id : String) : ∃ acts, Run.Along (step shard) Calm init acts ∧
    (after shard acts).Quiescent ∧ id ∈ (after shard acts).state.sessions .disclosureState := by
  obtain ⟨s, hs, h⟩ : ∃ s : SessionSys n, Run.Reaches (step shard) Calm init s ∧ s.Crowd id [] := crowd_nil id
  have hwrite : Run.Reaches (step shard) Calm s _ :=
    disclose_alone nothing h.held h.serving h.others (List.mem_map_of_mem h.oldest)
  obtain ⟨acts, halong, hrun⟩ :=
    (hs.trans hwrite).trans (.single (a := .finish 0) (by exact ⟨trivial, trivial⟩))
  have hafter : after shard acts = goto { s with
      state := (s.state.discloseState id nothing.names).discloseTargets id nothing.targets } 0 .idle := by
    refine hrun.trans ?_
    simp [step, h.serving]
  refine ⟨acts, halong, fun t => ?_, ?_⟩
  · rw [hafter]
    by_cases ht : t = 0
    · rw [ht, goto_pc]
    · rw [goto_pc_of_ne ht]
      exact h.others t ht
  · rw [hafter]
    exact mem_sessions_discloseTargets.2 (.inl (mem_sessions_discloseState.2 (.inr ⟨rfl, rfl⟩)))

theorem Overfull.late {pass : List SessionAct} {evicted : ToolCompressionState}
    (h : (after shard acts).Overfull first last) (hgone : first ∉ keys evicted.sessionLru)
    (hpass : Run.run (step shard) (after shard acts) pass =
      { after shard acts with state := evicted }.goto 1 (.serving last)) :
    (after shard (acts ++ pass ++ lateWrite)).Quiescent ∧
      first ∈ (after shard (acts ++ pass ++ lateWrite)).state.sessions .disclosureState ∧
      first ∉ keys (after shard (acts ++ pass ++ lateWrite)).state.sessionLru := by
  have hlate : after shard (acts ++ pass ++ lateWrite) =
      ⟨(evicted.discloseState first []).discloseTargets first [], [], fun _ => .idle⟩ := by
    rw [after, Run.run_append, Run.run_append]
    change Run.run (step shard) (Run.run (step shard) (after shard acts) pass) lateWrite = _
    rw [hpass]
    refine run_lateWrite h.held ?_ (goto_pc 1 _) fun t h0 h1 => ?_
    · rw [goto_pc_of_ne Nat.zero_ne_one]
      exact h.serving
    · rw [goto_pc_of_ne h1]
      exact h.others t h0 h1
  rw [hlate]
  refine ⟨fun _ => rfl, ?_, hgone⟩
  exact mem_sessions_discloseTargets.2 (.inl (mem_sessions_discloseState.2 (.inr ⟨rfl, rfl⟩)))

/-- As the sessions of the source's own test. -/
def sessionName (i : Nat) : String := "session-" ++ toString i

theorem sessionName_inj {i j : Nat} (h : sessionName i = sessionName j) : i = j := by
  have hread : ∀ k, Nat.ofDigitChars 10 (toString k : String).toList 0 = k := by
    intro k
    rw [Nat.toString_eq_repr, Nat.toList_repr]
    exact Nat.ofDigitChars_toDigits (by omega) (by omega)
  have hlist := congrArg String.toList h
  rw [sessionName, sessionName, String.toList_append, String.toList_append] at hlist
  rw [← hread i, List.append_cancel_left hlist, hread j]

def byLength (id : String) : Fin 4 := Fin.ofNat 4 id.length

theorem nodup_sessionNames (k : Nat) :
    (sessionName (k + 1) :: sessionName 0 :: (List.range' 1 k).map sessionName).Nodup := by
  have hnodup : ((k + 1) :: 0 :: List.range' 1 k).Nodup := by
    refine List.nodup_cons.2 ⟨?_, List.nodup_cons.2 ⟨?_, List.nodup_range'⟩⟩
    · simp only [List.mem_cons, List.mem_range'_1]
      omega
    · simp only [List.mem_range'_1]
      omega
  exact hnodup.map fun _ _ => sessionName_inj

theorem exists_overfull_named : ∃ last acts, Run.Along (step byLength) Calm init acts ∧
    (after byLength acts).Overfull (sessionName 0) last := by
  obtain ⟨k, hk⟩ : ∃ k, k + 1 = MAX_TRACKED_SESSIONS := ⟨9999, rfl⟩
  obtain ⟨s, ⟨acts, halong, rfl⟩, hover⟩ : ∃ s : SessionSys 4, Run.Reaches (step byLength) Calm init s ∧
      s.Overfull (sessionName 0) (sessionName (k + 1)) :=
    exists_overfull _ (nodup_sessionNames k) (by rw [List.length_map, List.length_range', hk])
  exact ⟨_, acts, halong, hover⟩

theorem registry_bounds_maps_runs :
    (∃ acts, Run.Along (step byLength) WritesCovered init acts ∧ (after byLength acts).Quiescent ∧
      sessionName 0 ∈ (after byLength acts).state.sessions .disclosureState ∧
      (after byLength acts).state.Bounded) ∧
    ∃ acts byTick, Run.Along (step byLength) TickLeft init acts ∧
      ByTick byTick (after byLength acts).state.sessionLru ∧
      (sessionName 0, 0) ∈ (after byLength acts).state.sessionLru ∧
      (sessionName 0, 0) ∉ ((after byLength acts).state.evictLeastRecentlyUsedSessions byTick).sessionLru ∧
      ∀ kept ∈ ((after byLength acts).state.evictLeastRecentlyUsedSessions byTick).sessionLru, 0 < kept.2 := by
  constructor
  · obtain ⟨acts, halong, hq, hmem⟩ : ∃ acts, Run.Along (step byLength) Calm init acts ∧ _ :=
      exists_visit (sessionName 0)
    have hcovered := writesCovered_of_calm halong
    exact ⟨acts, hcovered, hq, hmem, (registry_bounds_maps byLength acts).1 hcovered hq⟩
  · obtain ⟨last, acts, halong, h⟩ := exists_overfull_named
    have hleft := tickLeft_of_calm halong
    obtain ⟨byTick, hsort⟩ := exists_byTick (after byLength acts).state.sessionLru
    have hgone : (sessionName 0, 0) ∉
        ((after byLength acts).state.evictLeastRecentlyUsedSessions byTick).sessionLru :=
      fun hmem => h.not_mem_evict hleft hsort (mem_keys_of_mem hmem)
    exact ⟨acts, byTick, hleft, hsort, h.oldest, hgone,
      (registry_bounds_maps byLength acts).2 hleft byTick hsort _ h.oldest hgone⟩

/-- The first session is touched, ten thousand others follow, and its request writes after their pass. -/
theorem maps_outlive_registration : ¬ ∀ acts, (after byLength acts).Quiescent → (after byLength acts).state.Bounded := by
  intro hlaw
  obtain ⟨last, acts, halong, h⟩ := exists_overfull_named
  obtain ⟨byTick, hsort⟩ := exists_byTick (after byLength acts).state.sessionLru
  obtain ⟨pass, -, hpass⟩ : Run.Reaches (step byLength) Calm _ _ := h.evict hsort
  obtain ⟨hq, hmem, hnot⟩ := h.late (h.not_mem_evict (tickLeft_of_calm halong) hsort) hpass
  exact hnot ((hlaw _ hq).registered _ _ hmem)

end ObeyGateway.ToolCompression.SessionSys
