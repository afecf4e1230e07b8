import ObeyGateway.Lib.Tasks

/-!
# Revocation

Tasks read something from a store, work with it and write what came of it to the store and its cache; other tasks fetch
something new. A revocation empties the store, then the cache; it is final as long as nobody holds what was in the store
when it is emptied, and nobody begins to fetch meanwhile (`Inv`).
-/

namespace Revocation

open Tasks

structure Watched (σ π : Type*) where
  sys : Sys σ π
  closed : Bool
  since : Nat → Bool

def Watched.start {σ π : Type*} (s : Sys σ π) : Watched σ π := ⟨s, false, fun _ => false⟩

/-- A system with revocations: the steps that end one, that begin to fetch and that store what was
fetched, and what a task is about. -/
structure Spec (σ π ε : Type*) where
  next : Sys σ π → Nat → ε → σ × π
  closes : Sys σ π → Act ε → Bool
  starts : Sys σ π → Act ε → Bool
  opens : Sys σ π → Act ε → Bool
  /-- works with what it has read -/
  Holds : Sys σ π → Nat → Prop
  Fetches : Sys σ π → Nat → Prop
  /-- has emptied the store -/
  Revokes : Sys σ π → Nat → Prop
  /-- has emptied the cache, too -/
  Clears : Sys σ π → Nat → Prop
  Empty : σ → Prop
  Clean : σ → Prop
  revokes_of_clears : ∀ {s t}, Clears s t → Revokes s t

variable {σ π ε : Type*} (r : Spec σ π ε)

def Spec.step (x : Watched σ π) (a : Act ε) : Watched σ π where
  sys := x.sys.step r.next a
  closed := if r.closes x.sys a then true else if r.opens x.sys a && x.since a.task then false else x.closed
  since t := if r.closes x.sys a then false else x.since t || (r.starts x.sys a && t == a.task)

def Spec.Closed (x : Watched σ π) : Prop := x.closed = true ∨ ∃ t, r.Revokes x.sys t

structure Spec.Inv (x : Watched σ π) : Prop where
  empty : r.Closed x → r.Empty x.sys.shared
  holds : r.Closed x → ∀ t, ¬ r.Holds x.sys t
  fetches : ∀ t, r.Fetches x.sys t → (∀ u, ¬ r.Revokes x.sys u) ∧ (x.closed = true → x.since t = true)
  clean : (x.closed = true ∨ ∃ t, r.Clears x.sys t) → r.Clean x.sys.shared

variable {r} {x : Watched σ π} {a : Act ε}

section Steps
variable (hc : r.closes x.sys a = false)
include hc

theorem closed_of_step (h : (r.step x a).closed = true) : x.closed = true := by
  simp only [Spec.step, hc, Bool.false_eq_true, if_false] at h
  split at h
  · cases h
  · exact h

theorem since_step {t : Nat} (h : x.since t = true) : (r.step x a).since t = true := by
  simp [Spec.step, hc, h]

theorem since_step_self (h : r.starts x.sys a = true) : (r.step x a).since a.task = true := by
  simp [Spec.step, hc, h]

theorem not_closed_of_opens (ho : r.opens x.sys a = true) (hs : x.closed = true → x.since a.task = true) :
    (r.step x a).closed = false := by
  simp only [Spec.step, hc, ho, Bool.false_eq_true, if_false, Bool.true_and]
  split
  · rfl
  · rename_i hno
    rw [← Bool.not_eq_true]
    exact fun h => hno (hs h)

end Steps

namespace Spec.Inv

theorem start {s : Sys σ π} (hr : ∀ t, ¬ r.Revokes s t) : r.Inv (.start s) := by
  have hopen : ¬ r.Closed (.start s) := by
    rintro (h | ⟨t, ht⟩)
    · cases h
    · exact hr t ht
  refine ⟨fun h => absurd h hopen, fun h => absurd h hopen, fun t _ => ⟨hr, fun h => nomatch h⟩, ?_⟩
  rintro (h | ⟨t, ht⟩)
  · cases h
  · exact absurd (r.revokes_of_clears ht) (hr t)

theorem not_closed (h : r.Inv x) {t : Nat} (ht : r.Holds x.sys t) : ¬ r.Closed x := fun hc => h.holds hc t ht

theorem of_open (h : ¬ r.Closed x) : r.Inv x := by
  obtain ⟨hclosed, hrevokes⟩ := not_or.1 h
  refine ⟨fun hc => absurd hc h, fun hc => absurd hc h, fun t _ => ⟨fun u hu => hrevokes ⟨u, hu⟩, fun hc => absurd hc hclosed⟩, ?_⟩
  rintro (hc | ⟨t, ht⟩)
  · exact absurd hc hclosed
  · exact absurd ⟨t, r.revokes_of_clears ht⟩ hrevokes

theorem held (hc : r.closes x.sys a = false) (hopen : ¬ r.Closed x)
    (hrevokes : ∀ t, r.Revokes (r.step x a).sys t → r.Revokes x.sys t) : r.Inv (r.step x a) := by
  refine of_open ?_
  rintro (hcl | ⟨t, ht⟩)
  · exact hopen (.inl (closed_of_step hc hcl))
  · exact hopen (.inr ⟨t, hrevokes t ht⟩)

variable (h : r.Inv x)
include h

theorem quiet (hc : r.closes x.sys a = false) (hempty : r.Empty x.sys.shared → r.Empty (r.step x a).sys.shared)
    (hclean : r.Clean x.sys.shared → r.Clean (r.step x a).sys.shared)
    (hholds : ∀ t, r.Holds (r.step x a).sys t → r.Holds x.sys t)
    (hfetches : ∀ t, r.Fetches (r.step x a).sys t → r.Fetches x.sys t)
    (hrevokes : ∀ t, r.Revokes (r.step x a).sys t → r.Revokes x.sys t)
    (hclears : ∀ t, r.Clears (r.step x a).sys t → r.Clears x.sys t) : r.Inv (r.step x a) := by
  have hclosed : r.Closed (r.step x a) → r.Closed x := by
    rintro (hcl | ⟨t, ht⟩)
    · exact .inl (closed_of_step hc hcl)
    · exact .inr ⟨t, hrevokes t ht⟩
  refine ⟨fun hcl => hempty (h.empty (hclosed hcl)), fun hcl t ht => h.holds (hclosed hcl) t (hholds t ht), ?_, ?_⟩
  · intro t ht
    obtain ⟨hno, hsince⟩ := h.fetches t (hfetches t ht)
    exact ⟨fun u hu => hno u (hrevokes u hu), fun hcl => since_step hc (hsince (closed_of_step hc hcl))⟩
  · rintro (hcl | ⟨t, ht⟩)
    · exact hclean (h.clean (.inl (closed_of_step hc hcl)))
    · exact hclean (h.clean (.inr ⟨t, hclears t ht⟩))

theorem fetch (hc : r.closes x.sys a = false) (hs : r.starts x.sys a = true) (hno : ∀ u, ¬ r.Revokes x.sys u)
    (hempty : r.Empty x.sys.shared → r.Empty (r.step x a).sys.shared)
    (hclean : r.Clean x.sys.shared → r.Clean (r.step x a).sys.shared)
    (hholds : ∀ t, r.Holds (r.step x a).sys t → r.Holds x.sys t)
    (hfetches : ∀ t, r.Fetches (r.step x a).sys t → t = a.task ∨ r.Fetches x.sys t)
    (hrevokes : ∀ t, r.Revokes (r.step x a).sys t → r.Revokes x.sys t) : r.Inv (r.step x a) := by
  have hclosed : r.Closed (r.step x a) → x.closed = true := by
    rintro (hcl | ⟨t, ht⟩)
    · exact closed_of_step hc hcl
    · exact absurd (hrevokes t ht) (hno t)
  refine ⟨fun hcl => hempty (h.empty (.inl (hclosed hcl))),
    fun hcl t ht => h.holds (.inl (hclosed hcl)) t (hholds t ht), ?_, ?_⟩
  · intro t ht
    refine ⟨fun u hu => hno u (hrevokes u hu), fun hcl => ?_⟩
    rcases hfetches t ht with rfl | ht
    · exact since_step_self hc hs
    · exact since_step hc ((h.fetches t ht).2 (closed_of_step hc hcl))
  · rintro (hcl | ⟨t, ht⟩)
    · exact hclean (h.clean (.inl (closed_of_step hc hcl)))
    · exact absurd (hrevokes t (r.revokes_of_clears ht)) (hno t)

theorem store (hc : r.closes x.sys a = false) (ho : r.opens x.sys a = true) (hf : r.Fetches x.sys a.task)
    (hrevokes : ∀ t, r.Revokes (r.step x a).sys t → r.Revokes x.sys t) : r.Inv (r.step x a) := by
  obtain ⟨hno, hsince⟩ := h.fetches a.task hf
  refine of_open ?_
  rintro (hcl | ⟨t, ht⟩)
  · rw [not_closed_of_opens hc ho hsince] at hcl
    cases hcl
  · exact hno t (hrevokes t ht)

theorem revoke (hc : r.closes x.sys a = false) (hempty : r.Empty (r.step x a).sys.shared)
    (hclean : r.Clean x.sys.shared → r.Clean (r.step x a).sys.shared)
    (hholds : ∀ t, ¬ r.Holds (r.step x a).sys t) (hfetches : ∀ t, ¬ r.Fetches (r.step x a).sys t)
    (hclears : ∀ t, r.Clears (r.step x a).sys t → r.Clears x.sys t) : r.Inv (r.step x a) := by
  refine ⟨fun _ => hempty, fun _ => hholds, fun t ht => absurd ht (hfetches t), ?_⟩
  rintro (hcl | ⟨t, ht⟩)
  · exact hclean (h.clean (.inl (closed_of_step hc hcl)))
  · exact hclean (h.clean (.inr ⟨t, hclears t ht⟩))

theorem clear (hr : r.Revokes x.sys a.task) (hempty : r.Empty x.sys.shared → r.Empty (r.step x a).sys.shared)
    (hclean : r.Clean (r.step x a).sys.shared)
    (hholds : ∀ t, r.Holds (r.step x a).sys t → r.Holds x.sys t)
    (hfetches : ∀ t, r.Fetches (r.step x a).sys t → r.Fetches x.sys t) : r.Inv (r.step x a) := by
  have hclosed : r.Closed x := .inr ⟨a.task, hr⟩
  exact ⟨fun _ => hempty (h.empty hclosed), fun _ t ht => h.holds hclosed t (hholds t ht),
    fun t ht => absurd hr ((h.fetches t (hfetches t ht)).1 a.task), fun _ => hclean⟩

end Spec.Inv

end Revocation
