import ObeyGateway.ToolCompression.Glob
import ObeyGateway.ToolCompression.Namespaces

/-!
# Decisions by the first match (`stages/auto_tuner.rs`, `stages/namespace_grouper.rs`)

The level of a model and the namespace of a tool are those of the first entry of a configured map that matches. A hash
map is iterated in any order, so what is decided depends on the configuration alone exactly if no two entries that
differ match the same name (`decisions_fixed_iff`).
-/

namespace ObeyGateway.ToolCompression

/-- The tiers are in the order in which their map is iterated. -/
structure AutoTuningConfig where
  enabled : Bool
  modelTiers : List (String × Nat)

def clampTier (tier : Nat) : Nat := min (max tier 1) 3

structure AutoTuner where
  modelTiers : List (GlobPattern × Nat)
  enabled : Bool

namespace AutoTuner

def new (config : AutoTuningConfig) : AutoTuner :=
  ⟨config.modelTiers.map fun (pattern, tier) => (.new pattern.toList, clampTier tier), config.enabled⟩

def levelOf : Nat → CompressionLevel
  | 1 => .low
  | 2 => .medium
  | 3 => .high
  | _ => .medium

def getTierLevel (tuner : AutoTuner) (model : String) : CompressionLevel :=
  match tuner.modelTiers.find? fun (pattern, _) => pattern.matchesName model.toList with
  | some (_, tier) => levelOf tier
  | none => .medium

end AutoTuner

section
variable {α β : Type} {p : α → Bool} {f : α → β} {l l₁ l₂ : List α}

theorem find_map_eq (h : ∀ a ∈ l, ∀ b ∈ l, p a = true → p b = true → f a = f b) (h₁ : l₁.Perm l) (h₂ : l₂.Perm l) :
    (l₁.find? p).map f = (l₂.find? p).map f := by
  rcases hfind₁ : l₁.find? p with _ | a
  · have hfind₂ : l₂.find? p = none := by
      rw [List.find?_eq_none] at hfind₁ ⊢
      intro a ha
      exact hfind₁ a ((h₁.trans h₂.symm).mem_iff.2 ha)
    rw [hfind₂]
  have ha := List.find?_some hfind₁
  have hmem := List.mem_of_find?_eq_some hfind₁
  obtain ⟨b, hb⟩ : ∃ b, l₂.find? p = some b :=
    Option.isSome_iff_exists.1 (List.find?_isSome.2 ⟨a, (h₁.trans h₂.symm).mem_iff.1 hmem, ha⟩)
  rw [hb, Option.map_some, Option.map_some]
  exact congrArg some (h a (h₁.mem_iff.1 hmem) b (h₂.mem_iff.1 (List.mem_of_find?_eq_some hb)) ha (List.find?_some hb))

theorem exists_order {a : α} (ha : a ∈ l) (hp : p a = true) : ∃ l' : List α, l'.Perm l ∧ l'.find? p = some a := by
  obtain ⟨front, back, rfl⟩ := List.append_of_mem ha
  exact ⟨a :: (front ++ back), List.perm_middle.symm, List.find?_cons_of_pos hp⟩

theorem find_order_iff {d : β} : (∀ l₁ l₂ : List α, l₁.Perm l → l₂.Perm l →
      ((l₁.find? p).map f).getD d = ((l₂.find? p).map f).getD d) ↔
    ∀ a ∈ l, ∀ b ∈ l, p a = true → p b = true → f a = f b := by
  constructor
  · intro h a ha b hb hpa hpb
    obtain ⟨l₁, h₁, hfind₁⟩ := exists_order ha hpa
    obtain ⟨l₂, h₂, hfind₂⟩ := exists_order hb hpb
    simpa [hfind₁, hfind₂] using h l₁ l₂ h₁ h₂
  · intro h l₁ l₂ h₁ h₂
    rw [find_map_eq h h₁ h₂]

end

/-! ### The decisions -/

structure SamePartition (namespaces namespaces' : List (String × List Nat)) : Prop where
  keys : ∀ ns, ns ∈ Assoc.keys namespaces ↔ ns ∈ Assoc.keys namespaces'
  tools : ∀ ns, (Buckets.bucket namespaces ns).Perm (Buckets.bucket namespaces' ns)

/-- The orders in which the maps of a configuration are iterated make no difference. -/
structure DecisionsFixed (tiers : List (String × Nat)) (mappings : List (String × NamespaceMetadata)) : Prop where
  levels : ∀ tiers₁ tiers₂, tiers₁.Perm tiers → tiers₂.Perm tiers → ∀ enabled model,
    (AutoTuner.new ⟨enabled, tiers₁⟩).getTierLevel model = (AutoTuner.new ⟨enabled, tiers₂⟩).getTierLevel model
  partitions : ∀ mappings₁ mappings₂, mappings₁.Perm mappings → mappings₂.Perm mappings →
    ∀ minTools hashed₁ hashed₂ tools, SamePartition
      ((NamespaceGrouper.mk mappings₁ minTools).detectNamespaces hashed₁ tools)
      ((NamespaceGrouper.mk mappings₂ minTools).detectNamespaces hashed₂ tools)

variable {tiers : List (String × Nat)} {mappings : List (String × NamespaceMetadata)}

def matchesModel (model : String) (entry : String × Nat) : Bool := (GlobPattern.new entry.1.toList).matchesName model.toList

theorem getTierLevel_new (enabled : Bool) (tiers : List (String × Nat)) (model : String) :
    (AutoTuner.new ⟨enabled, tiers⟩).getTierLevel model =
      ((tiers.find? (matchesModel model)).map fun e => AutoTuner.levelOf (clampTier e.2)).getD .medium := by
  have hfind : (AutoTuner.new ⟨enabled, tiers⟩).modelTiers.find? (fun (pattern, _) => pattern.matchesName model.toList) =
      (tiers.find? (matchesModel model)).map fun e => (GlobPattern.new e.1.toList, clampTier e.2) := List.find?_map ..
  rw [AutoTuner.getTierLevel, hfind]
  cases tiers.find? (matchesModel model) <;> rfl

theorem levelOf_inj {m n : Nat} : AutoTuner.levelOf (clampTier m) = AutoTuner.levelOf (clampTier n) ↔
    clampTier m = clampTier n := by
  have hrange : ∀ tier, clampTier tier = 1 ∨ clampTier tier = 2 ∨ clampTier tier = 3 := by
    intro tier
    rw [clampTier]
    omega
  rcases hrange m with hm | hm | hm <;> rcases hrange n with hn | hn | hn <;> simp [hm, hn, AutoTuner.levelOf]

theorem levels_iff : (∀ tiers₁ tiers₂, tiers₁.Perm tiers → tiers₂.Perm tiers → ∀ enabled model,
      (AutoTuner.new ⟨enabled, tiers₁⟩).getTierLevel model = (AutoTuner.new ⟨enabled, tiers₂⟩).getTierLevel model) ↔
    ∀ model, ∀ a ∈ tiers, ∀ b ∈ tiers, matchesModel model a = true → matchesModel model b = true →
      clampTier a.2 = clampTier b.2 := by
  simp only [getTierLevel_new]
  constructor
  · intro h model a ha b hb hpa hpb
    rw [← levelOf_inj]
    exact find_order_iff.1 (fun tiers₁ tiers₂ h₁ h₂ => h tiers₁ tiers₂ h₁ h₂ true model) a ha b hb hpa hpb
  · intro h tiers₁ tiers₂ h₁ h₂ _ model
    exact find_order_iff.2 (fun a ha b hb hpa hpb => levelOf_inj.2 (h model a ha b hb hpa hpb)) tiers₁ tiers₂ h₁ h₂

def isPrefixOfName (name : String) (mapping : String × NamespaceMetadata) : Bool := mapping.1.toList.isPrefixOf name.toList

theorem groupOf_eq (grouper : NamespaceGrouper) (name : String) : grouper.groupOf name =
    ((grouper.configuredMappings.find? (isPrefixOfName name)).map (·.1)).getD ((extractPrefix name).getD other) := by
  have hsame : (isPrefixOfName name) = fun mapping => mapping.1.toList.isPrefixOf name.toList := rfl
  rw [NamespaceGrouper.groupOf, hsame]
  cases grouper.configuredMappings.find? fun mapping => mapping.1.toList.isPrefixOf name.toList <;> rfl

theorem samePartition_of_groupOf {grouper grouper' : NamespaceGrouper} (hashed hashed' : HashOrder)
    (h : ∀ name, grouper.groupOf name = grouper'.groupOf name) (tools : List ToolDefinition) :
    SamePartition (grouper.detectNamespaces hashed tools) (grouper'.detectNamespaces hashed' tools) := by
  have hgroup : grouper.groupOf = grouper'.groupOf := funext h
  have hhome : homeAt grouper tools = homeAt grouper' tools := by
    funext i
    have hhomeOf : homeOf grouper tools = homeOf grouper' tools := by
      funext name
      rw [homeOf, homeOf, groupSize, groupSize, hgroup]
    rw [homeAt, homeAt, hhomeOf]
  have hsorts := @sorts_detectNamespaces grouper hashed tools
  have hsorts' := @sorts_detectNamespaces grouper' hashed' tools
  rw [hhome] at hsorts
  exact ⟨fun ns => hsorts.mem_keys.trans hsorts'.mem_keys.symm, fun ns => (hsorts.bucket ns).trans (hsorts'.bucket ns).symm⟩

theorem homeOf_first {mapping : String × NamespaceMetadata} {mappings : List (String × NamespaceMetadata)} {minTools : Nat}
    {name name' : String} (h : isPrefixOfName name mapping = true) (h' : isPrefixOfName name' mapping = true) :
    ∀ t ∈ [name, name'].map bareTool,
      homeOf ⟨mapping :: mappings, minTools⟩ ([name, name'].map bareTool) t.name = mapping.1 := by
  have hgroup : ∀ t ∈ [name, name'].map bareTool,
      (NamespaceGrouper.mk (mapping :: mappings) minTools).groupOf t.name = mapping.1 := by
    intro t ht
    obtain ⟨x, hx, rfl⟩ := List.mem_map.1 ht
    have hmatch : isPrefixOfName x mapping = true := by
      rcases List.mem_pair.1 hx with rfl | rfl
      · exact h
      · exact h'
    rw [groupOf_eq]
    show ((List.find? (isPrefixOfName x) (mapping :: mappings)).map _).getD _ = _
    rw [List.find?_cons_of_pos hmatch]
    rfl
  intro t ht
  have hall : ([name, name'].map bareTool).filter (fun t' =>
      (NamespaceGrouper.mk (mapping :: mappings) minTools).groupOf t'.name = mapping.1) = [name, name'].map bareTool :=
    List.filter_eq_self.2 fun t' ht' => decide_eq_true (hgroup t' ht')
  rw [homeOf, groupSize, hgroup t ht, hall]
  rfl

theorem partitions_iff : (∀ mappings₁ mappings₂, mappings₁.Perm mappings → mappings₂.Perm mappings →
      ∀ minTools hashed₁ hashed₂ tools, SamePartition
        ((NamespaceGrouper.mk mappings₁ minTools).detectNamespaces hashed₁ tools)
        ((NamespaceGrouper.mk mappings₂ minTools).detectNamespaces hashed₂ tools)) ↔
    ∀ a ∈ mappings, ∀ b ∈ mappings, a.1.toList <+: b.1.toList → a.1 = b.1 := by
  constructor
  · intro h a ha b hb hab
    obtain ⟨front, back, hsplit⟩ := List.append_of_mem ha
    obtain ⟨front', back', hsplit'⟩ := List.append_of_mem hb
    have hb₁ : isPrefixOfName b.1 b = true := List.isPrefixOf_iff_prefix.2 List.prefix_rfl
    have hb₂ : isPrefixOfName (b.1 ++ "_") b = true := by
      rw [isPrefixOfName, String.toList_append]
      exact List.isPrefixOf_iff_prefix.2 (List.prefix_append _ _)
    have ha₁ : isPrefixOfName b.1 a = true := List.isPrefixOf_iff_prefix.2 hab
    have ha₂ : isPrefixOfName (b.1 ++ "_") a = true := by
      rw [isPrefixOfName, String.toList_append]
      exact List.isPrefixOf_iff_prefix.2 (hab.trans (List.prefix_append _ _))
    have hsame := h (a :: (front ++ back)) (b :: (front' ++ back')) (by rw [hsplit]; exact List.perm_middle.symm)
      (by rw [hsplit']; exact List.perm_middle.symm) 1 HashOrder.insertion HashOrder.insertion
      ([b.1, b.1 ++ "_"].map bareTool)
    have hkey := (hsame.keys a.1).1 ((mem_keys_detect _ _).2 ⟨_, List.mem_cons_self, homeOf_first ha₁ ha₂ _ List.mem_cons_self⟩)
    obtain ⟨t, ht, hhome⟩ := (mem_keys_detect _ _).1 hkey
    rw [homeOf_first hb₁ hb₂ t ht] at hhome
    exact hhome.symm
  · intro h mappings₁ mappings₂ h₁ h₂ minTools hashed₁ hashed₂ tools
    refine samePartition_of_groupOf hashed₁ hashed₂ (fun name => ?_) tools
    rw [groupOf_eq, groupOf_eq]
    refine find_order_iff.2 (fun a ha b hb hpa hpb => ?_) mappings₁ mappings₂ h₁ h₂
    have hpa' := List.isPrefixOf_iff_prefix.1 hpa
    have hpb' := List.isPrefixOf_iff_prefix.1 hpb
    rcases List.prefix_or_prefix_of_prefix hpa' hpb' with hab | hba
    · exact h a ha b hb hab
    · exact (h b hb a ha hba).symm

/-- What is decided depends on the configuration alone exactly if no model is matched by patterns of different tiers and
no configured prefix begins another. -/
theorem decisions_fixed_iff (tiers : List (String × Nat)) (mappings : List (String × NamespaceMetadata)) :
    DecisionsFixed tiers mappings ↔
      (∀ model, ∀ a ∈ tiers, ∀ b ∈ tiers, matchesModel model a = true → matchesModel model b = true →
        clampTier a.2 = clampTier b.2) ∧
      ∀ a ∈ mappings, ∀ b ∈ mappings, a.1.toList <+: b.1.toList → a.1 = b.1 := by
  rw [← levels_iff, ← partitions_iff]
  exact ⟨fun law => ⟨law.levels, law.partitions⟩, fun h => ⟨h.1, h.2⟩⟩

/-- `gpt-4o` models are in the first tier, the other `gpt-4` models in the second. -/
def gptTiers : List (String × Nat) := [("gpt-4o*", 1), ("gpt-4*", 2)]

def gitMappings : List (String × NamespaceMetadata) := [("git", ⟨"Version control"⟩), ("github", ⟨"Issues"⟩)]

/-- A mini model is in either tier, and the tools for issues are in either namespace. -/
theorem order_decides : (AutoTuner.new ⟨true, gptTiers⟩).getTierLevel "gpt-4o-mini" = .low ∧
    (AutoTuner.new ⟨true, gptTiers.reverse⟩).getTierLevel "gpt-4o-mini" = .medium ∧
    (NamespaceGrouper.mk gitMappings 1).detectNamespaces HashOrder.insertion
      (["github_list", "github_create"].map bareTool) = [("git", [0, 1])] ∧
    (NamespaceGrouper.mk gitMappings.reverse 1).detectNamespaces HashOrder.insertion
      (["github_list", "github_create"].map bareTool) = [("github", [0, 1])] ∧
    ¬ DecisionsFixed gptTiers [] ∧ ¬ DecisionsFixed [] gitMappings := by
  have hlow : (AutoTuner.new ⟨true, gptTiers⟩).getTierLevel "gpt-4o-mini" = .low := by decide +kernel
  have hmedium : (AutoTuner.new ⟨true, gptTiers.reverse⟩).getTierLevel "gpt-4o-mini" = .medium := by decide +kernel
  have hgit : (NamespaceGrouper.mk gitMappings 1).detectNamespaces HashOrder.insertion
      (["github_list", "github_create"].map bareTool) = [("git", [0, 1])] := by decide +kernel
  have hgithub : (NamespaceGrouper.mk gitMappings.reverse 1).detectNamespaces HashOrder.insertion
      (["github_list", "github_create"].map bareTool) = [("github", [0, 1])] := by decide +kernel
  refine ⟨hlow, hmedium, hgit, hgithub, fun law => ?_, fun law => ?_⟩
  · have hsame := law.levels gptTiers gptTiers.reverse .rfl gptTiers.reverse_perm true "gpt-4o-mini"
    rw [hlow, hmedium] at hsame
    cases hsame
  · have hsame := (law.partitions gitMappings gitMappings.reverse .rfl gitMappings.reverse_perm 1
      HashOrder.insertion HashOrder.insertion (["github_list", "github_create"].map bareTool)).keys "git"
    rw [hgit, hgithub] at hsame
    simp [Assoc.keys] at hsame

end ObeyGateway.ToolCompression
