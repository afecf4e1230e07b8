import ObeyGateway.Lib.Run
import Mathlib.Logic.Function.Basic

/-!
# Get or create in two steps

A map from keys to shared instances. A call takes the instance it finds; when there is none it makes one and inserts it,
in steps between which other tasks run. An insert that finds its key filled replaces the instance the earlier callers
hold, and that is all that can go wrong (`along_insertsFresh_iff`).
-/

namespace Registry

inductive Pc (K : Type*)
  | idle
  /-- the lookup found nothing -/
  | missed (key : K)
  /-- the instance is made and not yet inserted -/
  | made (key : K) (ref : Nat)
deriving DecidableEq

/-- `handles` are the instances that calls have returned, each with the key of the call, and `log` what was
recorded through them. -/
structure Sys (K V O : Type*) where
  entries : K → Option Nat
  heap : Nat → Option V
  next : Nat
  pc : Nat → Pc K
  handles : List (K × Nat)
  log : List (K × O)

/-- One step of a task; `env` is what the constructor reads. A call may be dropped at its `await`. -/
inductive Act (K E O : Type*)
  | lookup (task : Nat) (key : K)
  | make (task : Nat) (env : E)
  | insert (task : Nat)
  | cancel (task : Nat)
  | record (handle : K × Nat) (op : O)

variable {K V E O : Type*}

namespace Sys

def init : Sys K V O := ⟨fun _ => none, fun _ => none, 0, fun _ => .idle, [], []⟩

section Moves
variable (apply : V → O → V) (s : Sys K V O)

def goto (task : Nat) (pc : Pc K) : Sys K V O := { s with pc := Function.update s.pc task pc }

def hit (key : K) (ref : Nat) : Sys K V O := { s with handles := (key, ref) :: s.handles }

def alloc (task : Nat) (key : K) (v : V) : Sys K V O :=
  { s with heap := Function.update s.heap s.next (some v), next := s.next + 1,
           pc := Function.update s.pc task (.made key s.next) }

def note (handle : K × Nat) (op : O) : Sys K V O :=
  { s with heap := Function.update s.heap handle.2 ((s.heap handle.2).map (apply · op)),
           log := s.log ++ [(handle.1, op)] }

@[simp] theorem goto_pc (task : Nat) (pc : Pc K) : (s.goto task pc).pc = Function.update s.pc task pc := rfl

@[simp] theorem alloc_pc (task : Nat) (key : K) (v : V) :
    (s.alloc task key v).pc = Function.update s.pc task (.made key s.next) := rfl

@[simp] theorem alloc_heap (task : Nat) (key : K) (v : V) :
    (s.alloc task key v).heap = Function.update s.heap s.next (some v) := rfl

@[simp] theorem note_heap (handle : K × Nat) (op : O) :
    (s.note apply handle op).heap = Function.update s.heap handle.2 ((s.heap handle.2).map (apply · op)) := rfl

end Moves

variable [DecidableEq K] (make : E → K → V) (apply : V → O → V) (s : Sys K V O)

def install (task : Nat) (key : K) (ref : Nat) : Sys K V O :=
  { s with entries := Function.update s.entries key (some ref), handles := (key, ref) :: s.handles,
           pc := Function.update s.pc task .idle }

def step : Act K E O → Sys K V O
  | .lookup task key =>
    match s.pc task with
    | .idle =>
      match s.entries key with
      | some ref => s.hit key ref
      | none => s.goto task (.missed key)
    | _ => s
  | .make task env =>
    match s.pc task with
    | .missed key => s.alloc task key (make env key)
    | _ => s
  | .insert task =>
    match s.pc task with
    | .made key ref => s.install task key ref
    | _ => s
  | .cancel task => s.goto task .idle
  | .record handle op => if handle ∈ s.handles then s.note apply handle op else s

@[simp] theorem install_pc (task : Nat) (key : K) (ref : Nat) :
    (s.install task key ref).pc = Function.update s.pc task .idle := rfl

@[simp] theorem install_entries (task : Nat) (key : K) (ref : Nat) :
    (s.install task key ref).entries = Function.update s.entries key (some ref) := rfl

def recorded (key : K) : List O := (s.log.filter (·.1 = key)).map (·.2)

/-- All callers of a key hold one instance, and it has everything that was recorded for the key. -/
structure Law : Prop where
  same : ∀ key ref ref', (key, ref) ∈ s.handles → (key, ref') ∈ s.handles → ref = ref'
  kept : ∀ key ref, (key, ref) ∈ s.handles →
    ∃ env, s.heap ref = some ((s.recorded key).foldl apply (make env key))

def InsertsFresh : Act K E O → Prop
  | .insert task =>
    match s.pc task with
    | .made key _ => s.entries key = none
    | _ => True
  | _ => True

/-! ### What a step can do -/

/-- The states a step can lead to; `fresh` says whether it inserts nothing in another's place. -/
inductive Effect (fresh : Prop) : Sys K V O → Prop
  | none (hfresh : fresh) : Effect fresh s
  | goto (task : Nat) (pc : Pc K) (hpc : ∀ key ref, pc ≠ .made key ref) (hfresh : fresh) :
    Effect fresh (s.goto task pc)
  | hit (key : K) (ref : Nat) (hentry : s.entries key = some ref) (hfresh : fresh) : Effect fresh (s.hit key ref)
  | alloc (task : Nat) (key : K) (env : E) (hfresh : fresh) : Effect fresh (s.alloc task key (make env key))
  | install (task : Nat) (key : K) (ref : Nat) (hpc : s.pc task = .made key ref)
    (hfresh : fresh ↔ s.entries key = .none) : Effect fresh (s.install task key ref)
  | note (handle : K × Nat) (op : O) (hmem : handle ∈ s.handles) (hfresh : fresh) :
    Effect fresh (s.note apply handle op)

theorem step_effect (a : Act K E O) : Effect make apply s (s.InsertsFresh a) (s.step make apply a) := by
  cases a with
  | lookup task key =>
    simp only [step]
    split
    · split
      · rename_i ref hentry
        exact .hit key ref hentry trivial
      · exact .goto _ _ (by simp) trivial
    · exact .none trivial
  | make task env =>
    simp only [step]
    split
    · exact .alloc task _ env trivial
    · exact .none trivial
  | insert task =>
    cases hpc : s.pc task with
    | made key ref =>
      simp only [step, InsertsFresh, hpc]
      exact .install task key ref hpc Iff.rfl
    | _ =>
      simp only [step, InsertsFresh, hpc]
      exact .none trivial
  | cancel task => exact .goto _ _ (by simp) trivial
  | record handle op =>
    simp only [step]
    split
    · rename_i hmem
      exact .note handle op hmem trivial
    · exact .none trivial

/-- Instances are told apart by their keys, and one that is not yet inserted is known to its maker only. -/
structure Wf : Prop where
  held : ∀ key ref, s.entries key = some ref → (key, ref) ∈ s.handles
  entered : ∀ key ref, (key, ref) ∈ s.handles → s.entries key ≠ none
  bound : ∀ key ref, (key, ref) ∈ s.handles → ref < s.next
  keyed : ∀ key key' ref, (key, ref) ∈ s.handles → (key', ref) ∈ s.handles → key = key'
  made : ∀ task key ref, s.pc task = .made key ref →
    ref < s.next ∧ (∀ key', (key', ref) ∉ s.handles) ∧ ∃ env, s.heap ref = some (make env key)
  maker : ∀ task task' key key' ref, s.pc task = .made key ref → s.pc task' = .made key' ref → task = task'
  unused : ∀ key, s.entries key = none → s.recorded key = []

variable {make apply s}

theorem recorded_note_self (handle : K × Nat) (op : O) :
    (s.note apply handle op).recorded handle.1 = s.recorded handle.1 ++ [op] := by
  simp [note, recorded]

theorem recorded_note_of_ne {handle : K × Nat} {key : K} (op : O) (h : handle.1 ≠ key) :
    (s.note apply handle op).recorded key = s.recorded key := by
  simp [note, recorded, h]

namespace Wf
variable (h : s.Wf make) {task : Nat} {key : K} {ref : Nat}
include h

theorem goto {pc : Pc K} (hpc : ∀ key ref, pc ≠ .made key ref) : (s.goto task pc).Wf make := by
  have hmade : ∀ t key ref, (s.goto task pc).pc t = .made key ref → s.pc t = .made key ref := by
    intro t key ref ht
    by_cases htask : t = task
    · subst htask
      rw [goto_pc, Function.update_self] at ht
      exact absurd ht (hpc key ref)
    · rwa [goto_pc, Function.update_of_ne htask] at ht
  exact ⟨h.held, h.entered, h.bound, h.keyed, fun t key ref ht => h.made t key ref (hmade t key ref ht),
    fun t t' key key' ref ht ht' => h.maker t t' key key' ref (hmade t key ref ht) (hmade t' key' ref ht'),
    h.unused⟩

theorem mem_hit (hentry : s.entries key = some ref) {handle : K × Nat} :
    handle ∈ (s.hit key ref).handles ↔ handle ∈ s.handles := by
  refine ⟨fun hm => ?_, List.mem_cons_of_mem _⟩
  rcases List.mem_cons.1 hm with rfl | hm
  · exact h.held key ref hentry
  · exact hm

theorem hit (hentry : s.entries key = some ref) : (s.hit key ref).Wf make := by
  refine ⟨fun k r hk => (h.mem_hit hentry).2 (h.held k r hk), fun k r hk => ?_, fun k r hk => ?_,
    fun k k' r hk hk' => ?_, fun t k r ht => ?_, h.maker, h.unused⟩
  · exact h.entered k r ((h.mem_hit hentry).1 hk)
  · exact h.bound k r ((h.mem_hit hentry).1 hk)
  · exact h.keyed k k' r ((h.mem_hit hentry).1 hk) ((h.mem_hit hentry).1 hk')
  · obtain ⟨hlt, hnew, hheap⟩ := h.made t k r ht
    exact ⟨hlt, fun k' hk' => hnew k' ((h.mem_hit hentry).1 hk'), hheap⟩

theorem alloc (env : E) : (s.alloc task key (make env key)).Wf make := by
  have hmade : ∀ t k r, (s.alloc task key (make env key)).pc t = .made k r →
      t = task ∧ k = key ∧ r = s.next ∨ t ≠ task ∧ s.pc t = .made k r := by
    intro t k r ht
    by_cases htask : t = task
    · subst htask
      rw [alloc_pc, Function.update_self] at ht
      cases ht
      exact .inl ⟨rfl, rfl, rfl⟩
    · rw [alloc_pc, Function.update_of_ne htask] at ht
      exact .inr ⟨htask, ht⟩
  refine ⟨h.held, h.entered, fun k r hk => Nat.lt_succ_of_lt (h.bound k r hk), h.keyed, fun t k r ht => ?_,
    fun t t' k k' r ht ht' => ?_, h.unused⟩
  · rcases hmade t k r ht with ⟨-, rfl, rfl⟩ | ⟨-, hold⟩
    · exact ⟨Nat.lt_succ_self _, fun k' hk' => Nat.lt_irrefl _ (h.bound k' _ hk'), env, Function.update_self ..⟩
    · obtain ⟨hlt, hnew, env', hheap⟩ := h.made t k r hold
      refine ⟨Nat.lt_succ_of_lt hlt, hnew, env', ?_⟩
      rw [alloc_heap, Function.update_of_ne (Nat.ne_of_lt hlt), hheap]
  · rcases hmade t k r ht with ⟨rfl, -, hr⟩ | ⟨-, hold⟩ <;> rcases hmade t' k' r ht' with ⟨rfl, -, hr'⟩ | ⟨-, hold'⟩
    · rfl
    · exact absurd (h.made t' k' r hold').1 (by omega)
    · exact absurd (h.made t k r hold).1 (by omega)
    · exact h.maker t t' k k' r hold hold'

theorem install (hpc : s.pc task = .made key ref) : (s.install task key ref).Wf make := by
  obtain ⟨hbound, hnew, -⟩ := h.made task key ref hpc
  have hmade : ∀ t k r, (s.install task key ref).pc t = .made k r → s.pc t = .made k r ∧ r ≠ ref := by
    intro t k r ht
    by_cases htask : t = task
    · subst htask
      rw [install_pc, Function.update_self] at ht
      cases ht
    · rw [install_pc, Function.update_of_ne htask] at ht
      refine ⟨ht, ?_⟩
      rintro rfl
      exact htask (h.maker t task k key r ht hpc)
  refine ⟨fun k r hk => ?_, fun k r hk => ?_, fun k r hk => ?_, fun k k' r hk hk' => ?_, fun t k r ht => ?_,
    fun t t' k k' r ht ht' => h.maker t t' k k' r (hmade t k r ht).1 (hmade t' k' r ht').1, fun k hk => ?_⟩
  · by_cases hkey : k = key
    · subst hkey
      rw [install_entries, Function.update_self] at hk
      cases hk
      exact List.mem_cons_self
    · rw [install_entries, Function.update_of_ne hkey] at hk
      exact List.mem_cons_of_mem _ (h.held k r hk)
  · by_cases hkey : k = key
    · subst hkey
      simp
    · rw [install_entries, Function.update_of_ne hkey]
      rcases List.mem_cons.1 hk with heq | hk
      · exact absurd (Prod.mk.inj heq).1 hkey
      · exact h.entered k r hk
  · rcases List.mem_cons.1 hk with heq | hk
    · cases heq
      exact hbound
    · exact h.bound k r hk
  · rcases List.mem_cons.1 hk with heq | hk <;> rcases List.mem_cons.1 hk' with heq' | hk'
    · exact (Prod.mk.inj heq).1.trans (Prod.mk.inj heq').1.symm
    · exact absurd ((Prod.mk.inj heq).2 ▸ hk') (hnew k')
    · exact absurd ((Prod.mk.inj heq').2 ▸ hk) (hnew k)
    · exact h.keyed k k' r hk hk'
  · obtain ⟨ht, hne⟩ := hmade t k r ht
    obtain ⟨hlt, hnew', hheap⟩ := h.made t k r ht
    refine ⟨hlt, fun k' hk' => ?_, hheap⟩
    rcases List.mem_cons.1 hk' with heq | hk'
    · exact hne (Prod.mk.inj heq).2
    · exact hnew' k' hk'
  · by_cases hkey : k = key
    · subst hkey
      rw [install_entries, Function.update_self] at hk
      cases hk
    · rw [install_entries, Function.update_of_ne hkey] at hk
      exact h.unused k hk

theorem note {handle : K × Nat} (op : O) (hmem : handle ∈ s.handles) : (s.note apply handle op).Wf make := by
  refine ⟨h.held, h.entered, h.bound, h.keyed, fun t k r ht => ?_, h.maker, fun k hk => ?_⟩
  · obtain ⟨hlt, hnew, env, hheap⟩ := h.made t k r ht
    have hne : r ≠ handle.2 := by
      rintro rfl
      exact hnew handle.1 hmem
    exact ⟨hlt, hnew, env, by rw [note_heap, Function.update_of_ne hne, hheap]⟩
  · have hne : handle.1 ≠ k := by
      rintro rfl
      exact h.entered handle.1 handle.2 hmem hk
    rw [recorded_note_of_ne op hne]
    exact h.unused k hk

end Wf

theorem Effect.wf {fresh : Prop} {s' : Sys K V O} (he : Effect make apply s fresh s') (h : s.Wf make) : s'.Wf make := by
  cases he with
  | none hfresh => exact h
  | goto task pc hpc hfresh => exact h.goto hpc
  | hit key ref hentry hfresh => exact h.hit hentry
  | alloc task key env hfresh => exact h.alloc env
  | install task key ref hpc hfresh => exact h.install hpc
  | note handle op hmem hfresh => exact h.note op hmem

theorem wf_init : (init : Sys K V O).Wf make := by
  constructor <;> simp [init, recorded]

namespace Law
variable (h : s.Law make apply) {task : Nat} {key : K} {ref : Nat}
include h

theorem hit (hwf : s.Wf make) (hentry : s.entries key = some ref) : (s.hit key ref).Law make apply := by
  refine ⟨fun k r r' hk hk' => ?_, fun k r hk => ?_⟩
  · exact h.same k r r' ((hwf.mem_hit hentry).1 hk) ((hwf.mem_hit hentry).1 hk')
  · exact h.kept k r ((hwf.mem_hit hentry).1 hk)

theorem alloc (hwf : s.Wf make) (v : V) : (s.alloc task key v).Law make apply := by
  refine ⟨h.same, fun k r hk => ?_⟩
  rw [alloc_heap, Function.update_of_ne (Nat.ne_of_lt (hwf.bound k r hk))]
  exact h.kept k r hk

theorem note (hwf : s.Wf make) {handle : K × Nat} (op : O) (hmem : handle ∈ s.handles) :
    (s.note apply handle op).Law make apply := by
  refine ⟨h.same, fun k r hk => ?_⟩
  obtain ⟨env, hheap⟩ := h.kept k r hk
  refine ⟨env, ?_⟩
  by_cases hkey : handle.1 = k
  · subst hkey
    have hr : r = handle.2 := h.same handle.1 r handle.2 hk hmem
    subst hr
    rw [note_heap, Function.update_self, hheap, recorded_note_self]
    simp
  · have hr : r ≠ handle.2 := by
      rintro rfl
      exact hkey (hwf.keyed handle.1 k _ hmem hk)
    rw [note_heap, Function.update_of_ne hr, recorded_note_of_ne op hkey, hheap]

theorem install (hwf : s.Wf make) (hpc : s.pc task = .made key ref) (hentry : s.entries key = none) :
    (s.install task key ref).Law make apply := by
  have hnone : ∀ r, (key, r) ∉ s.handles := fun r hr => hwf.entered key r hr hentry
  obtain ⟨-, -, env, hheap⟩ := hwf.made task key ref hpc
  refine ⟨fun k r r' hk hk' => ?_, fun k r hk => ?_⟩
  · rcases List.mem_cons.1 hk with heq | hk <;> rcases List.mem_cons.1 hk' with heq' | hk'
    · exact (Prod.mk.inj heq).2.trans (Prod.mk.inj heq').2.symm
    · exact absurd ((Prod.mk.inj heq).1 ▸ hk') (hnone r')
    · exact absurd ((Prod.mk.inj heq').1 ▸ hk) (hnone r)
    · exact h.same k r r' hk hk'
  · rcases List.mem_cons.1 hk with heq | hk
    · cases heq
      refine ⟨env, ?_⟩
      show s.heap ref = some ((s.recorded key).foldl apply (make env key))
      rw [hwf.unused key hentry, hheap]
      rfl
    · exact h.kept k r hk

end Law

theorem Wf.not_law_install (h : s.Wf make) {task : Nat} {key : K} {ref : Nat} (hpc : s.pc task = .made key ref)
    (hentry : s.entries key ≠ none) : ¬ (s.install task key ref).Law make apply := by
  intro hlaw
  obtain ⟨ref', href'⟩ := Option.ne_none_iff_exists'.1 hentry
  have hheld : (key, ref') ∈ s.handles := h.held key ref' href'
  have hsame : ref = ref' := hlaw.same key ref ref' List.mem_cons_self (List.mem_cons_of_mem _ hheld)
  exact (h.made task key ref hpc).2.1 key (hsame ▸ hheld)

theorem Effect.law_iff {fresh : Prop} {s' : Sys K V O} (he : Effect make apply s fresh s') (hwf : s.Wf make)
    (h : s.Law make apply) : s'.Law make apply ↔ fresh := by
  cases he with
  | none hfresh => exact iff_of_true h hfresh
  | goto task pc hpc hfresh => exact iff_of_true ⟨h.same, h.kept⟩ hfresh
  | hit key ref hentry hfresh => exact iff_of_true (h.hit hwf hentry) hfresh
  | alloc task key env hfresh => exact iff_of_true (h.alloc hwf _) hfresh
  | install task key ref hpc hfresh =>
    rw [hfresh]
    constructor
    · intro hlaw
      by_contra hentry
      exact hwf.not_law_install hpc hentry hlaw
    · intro hentry
      exact h.install hwf hpc hentry
  | note handle op hmem hfresh => exact iff_of_true (h.note hwf op hmem) hfresh

theorem law_init : (init : Sys K V O).Law make apply := by
  constructor <;> simp [init]

/-- The law holds in every state of a run exactly if every insert of it finds its key without an entry. -/
theorem along_insertsFresh_iff (as : List (Act K E O)) : Run.Along (step make apply) InsertsFresh init as ↔
      ∀ bs, bs <+: as → (Run.run (step make apply) init bs).Law make apply :=
  Run.along_iff_law (fun s a h => (s.step_effect make apply a).wf h)
    (fun s a hwf h => (s.step_effect make apply a).law_iff hwf h) wf_init law_init

end Sys

end Registry
