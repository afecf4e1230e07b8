import ObeyGateway.Lib.StrSlice
import ObeyGateway.ToolCompression.Namespaces

/-!
# Shortened descriptions (`stages/disclosure.rs`, `stages/namespace_grouper.rs`)

The minimal listing and the list of a namespace show the beginning of a tool's description. Both cut it at a number of
bytes, and `none` is the panic of a cut inside a character. A description comes out shortened exactly if the places
where it is cut are between characters (`shortening_law_iff`).
-/

namespace ObeyGateway.ToolCompression

open StrSlice

def dots : List Char := "...".toList

def maxDescriptionLength : Nat := 100

def extractDescription (raw : Json) : String :=
  (((raw.get "function").bind (·.get "description")).bind Json.asStr).getD ""

def hardTruncation (desc : List Char) (maxLen : Nat) : Option (List Char) :=
  (sliceTo desc (maxLen - 3)).map (· ++ dots)

/-- At the last space, unless that is in the first half. -/
def truncateDescription (desc : List Char) (maxLen : Nat) : Option (List Char) :=
  if size desc ≤ maxLen then some desc
  else
    match sliceTo desc maxLen with
    | none => none
    | some truncated =>
      match rfind ' ' truncated with
      | none => hardTruncation desc maxLen
      | some lastSpace =>
        if maxLen / 2 < lastSpace then (sliceTo desc lastSpace).map (· ++ dots)
        else hardTruncation desc maxLen

def minimalEntry (name description : String) : Json :=
  .object
    [("function", .object [("description", .string description), ("name", .string name)]),
      ("type", .string "function")]

def toMinimalEntry (tool : ToolDefinition) : Option Json :=
  (truncateDescription (extractDescription tool.raw).toList maxDescriptionLength).map fun truncated =>
    minimalEntry tool.name (String.ofList truncated)

structure ToolNameEntry where
  name : String
  description : List Char
deriving DecidableEq

/-- The description of an entry of `resolve_namespace`. -/
def shortDescription (desc : List Char) : Option (List Char) :=
  if 100 < size desc then (sliceTo desc 97).map (· ++ dots) else some desc

def toolNameEntry (tool : ToolDefinition) : Option ToolNameEntry :=
  (shortDescription (extractDescription tool.raw).toList).map fun description => ⟨tool.name, description⟩

/-- The message lists the namespaces with `format!` and `:?`, which is a parameter. -/
def resolveNamespace (grouper : NamespaceGrouper) (hashed : HashOrder) (debug : List String → String) (ns : String)
    (originalTools : List ToolDefinition) : Option (Except String (List ToolNameEntry)) :=
  let namespaces := grouper.detectNamespaces hashed originalTools
  match Assoc.get namespaces ns with
  | some indices =>
    ((indices.filterMap (originalTools[·]?)).mapM toolNameEntry).map .ok
  | none =>
    some (.error ("Invalid namespace '" ++ ns ++ "'. Available namespaces: " ++
      debug (hashed.order (Assoc.keys namespaces))))

/-! ### What comes out -/

/-- There is a beginning of the description, perhaps with dots behind it, not much longer than asked for. -/
structure Shortened (desc : List Char) (maxLen : Nat) (out : Option (List Char)) : Prop where
  returns : out ≠ none
  begins : ∀ short ∈ out, ∃ front, front <+: desc ∧ (short = front ∨ short = front ++ dots)
  length : ∀ short ∈ out, size short ≤ maxLen + 3

/-- The entries are those of the tools that the grouper placed in the namespace. -/
structure Resolved (grouper : NamespaceGrouper) (hashed : HashOrder) (ns : String) (tools : List ToolDefinition)
    (out : Option (Except String (List ToolNameEntry))) : Prop where
  returns : out ≠ none
  entries : ∀ entries, out = some (.ok entries) → List.Forall₂ (fun tool entry => entry.name = tool.name ∧
    Shortened (extractDescription tool.raw).toList 97 (some entry.description)) (placedIn grouper hashed tools ns) entries

/-- The text has a space so far behind its middle that it is cut there. -/
def BreaksAtSpace (desc : List Char) (maxLen : Nat) : Prop :=
  ∃ front back, desc = front ++ ' ' :: back ∧ maxLen / 2 < size front ∧ size front < maxLen

variable {desc front back : List Char} {n m : Nat}

theorem size_dots : size dots = 3 := by decide

theorem shortened_self (h : size desc ≤ n + 3) : Shortened desc n (some desc) := by
  refine ⟨by simp, fun short hshort => ?_, fun short hshort => ?_⟩
  · cases hshort
    exact ⟨desc, List.prefix_rfl, .inl rfl⟩
  · cases hshort
    exact h

theorem shortened_slice (h : m ≤ n) : Shortened desc n ((sliceTo desc m).map (· ++ dots)) ↔ IsBoundary desc m := by
  constructor
  · intro hcut
    rw [← isSome_sliceTo, ← Option.isSome_map]
    exact Option.isSome_iff_ne_none.2 hcut.returns
  · intro hm
    obtain ⟨front, hfront⟩ := Option.isSome_iff_exists.1 (isSome_sliceTo.2 hm)
    obtain ⟨hpre, hsize⟩ := sliceTo_eq_some.1 hfront
    rw [hfront]
    refine ⟨by simp, fun short hshort => ?_, fun short hshort => ?_⟩
    · cases hshort
      exact ⟨front, hpre, .inr rfl⟩
    · cases hshort
      rw [size_append, size_dots]
      omega

theorem boundary_at_space {front back : List Char} (h : desc = front ++ ' ' :: back) : IsBoundary desc (size front) :=
  ⟨front, ' ' :: back, h, rfl⟩

theorem breaksAtSpace_iff (hslice : sliceTo desc n = some front) :
    BreaksAtSpace desc n ↔ ∃ m, rfind ' ' front = some m ∧ n / 2 < m := by
  obtain ⟨⟨back, rfl⟩, hsize⟩ := sliceTo_eq_some.1 hslice
  constructor
  · rintro ⟨before, behind, htext, hmiddle, hlast⟩
    obtain ⟨rest, rfl⟩ : ∃ rest, front = before ++ ' ' :: rest := by
      rcases List.append_eq_append_iff.1 htext with ⟨more, rfl, -⟩ | ⟨more, rfl, hmore⟩
      · rw [size_append] at hlast
        omega
      · rcases more with _ | ⟨c, more⟩
        · rw [List.append_nil] at hsize
          omega
        obtain ⟨rfl, -⟩ := List.cons_eq_cons.1 hmore
        exact ⟨more, rfl⟩
    obtain ⟨m, hm, hle⟩ := le_rfind (c := ' ') before rest
    exact ⟨m, hm, by omega⟩
  · rintro ⟨m, hm, hmiddle⟩
    obtain ⟨before, behind, rfl, -, rfl⟩ := rfind_eq_some.1 hm
    refine ⟨before, behind ++ back, by simp, hmiddle, ?_⟩
    rw [← hsize, size_append]
    simp [Char.utf8Size_pos]

theorem truncateDescription_law_iff (desc : List Char) (n : Nat) : Shortened desc n (truncateDescription desc n) ↔
      size desc ≤ n ∨ IsBoundary desc n ∧ (BreaksAtSpace desc n ∨ IsBoundary desc (n - 3)) := by
  rw [truncateDescription]
  by_cases hshort : size desc ≤ n
  · rw [if_pos hshort]
    exact iff_of_true (shortened_self (by omega)) (.inl hshort)
  · rw [if_neg hshort, or_iff_right hshort]
    rcases hslice : sliceTo desc n with _ | front
    · have hnot : ¬ IsBoundary desc n := by
        rw [← isSome_sliceTo, hslice]
        simp
      exact iff_of_false (fun h => h.returns rfl) fun h => hnot h.1
    have hcut : IsBoundary desc n := by
      rw [← isSome_sliceTo, hslice]
      rfl
    rw [and_iff_right hcut, breaksAtSpace_iff hslice]
    dsimp only
    rcases hspace : rfind ' ' front with _ | m
    · rw [hardTruncation, shortened_slice (Nat.sub_le n 3)]
      simp
    obtain ⟨before, behind, rfl, -, rfl⟩ := rfind_eq_some.1 hspace
    obtain ⟨⟨back, rfl⟩, hsize⟩ := sliceTo_eq_some.1 hslice
    dsimp only
    by_cases hm : n / 2 < size before
    · rw [if_pos hm, shortened_slice (by rw [← hsize, size_append]; omega)]
      have hbefore := boundary_at_space (List.append_assoc before (' ' :: behind) back)
      exact iff_of_true hbefore (.inl ⟨_, rfl, hm⟩)
    · rw [if_neg hm, hardTruncation, shortened_slice (Nat.sub_le n 3), or_iff_right]
      rintro ⟨m, hsame, hm'⟩
      cases hsame
      exact hm hm'

theorem shortDescription_ne_none (desc : List Char) :
    shortDescription desc ≠ none ↔ size desc ≤ 100 ∨ IsBoundary desc 97 := by
  rw [shortDescription]
  by_cases hlong : 100 < size desc
  · rw [if_pos hlong, or_iff_right (Nat.not_le.2 hlong), Ne, Option.map_eq_none_iff, ← isSome_sliceTo,
      Option.isSome_iff_ne_none]
  · rw [if_neg hlong]
    exact iff_of_true (by simp) (.inl (Nat.not_lt.1 hlong))

theorem shortened_shortDescription (h : shortDescription desc ≠ none) : Shortened desc 97 (shortDescription desc) := by
  rw [shortDescription] at h ⊢
  by_cases hlong : 100 < size desc
  · rw [if_pos hlong] at h ⊢
    rw [shortened_slice (le_refl 97), ← isSome_sliceTo, Option.isSome_iff_ne_none]
    exact fun hnone => h (by rw [hnone]; rfl)
  · rw [if_neg hlong]
    exact shortened_self (Nat.not_lt.1 hlong)

theorem mapM_eq_some {α β : Type} {f : α → Option β} {xs : List α} {ys : List β} :
    xs.mapM f = some ys ↔ List.Forall₂ (fun x y => f x = some y) xs ys := by
  induction xs generalizing ys with
  | nil => simp [eq_comm]
  | cons x xs ih =>
    rw [List.mapM_cons, List.forall₂_cons_left_iff]
    rcases hx : f x with _ | y
    · simp
    simp only [Option.bind_eq_bind, Option.bind_some, Option.bind_eq_some_iff, ih, Option.pure_def,
      Option.some.injEq]
    constructor
    · rintro ⟨rest, hrest, rfl⟩
      exact ⟨y, rest, rfl, hrest, rfl⟩
    · rintro ⟨y', rest, rfl, hrest, rfl⟩
      exact ⟨rest, hrest, rfl⟩

theorem mapM_ne_none {α β : Type} {f : α → Option β} {xs : List α} : xs.mapM f ≠ none ↔ ∀ x ∈ xs, f x ≠ none := by
  induction xs with
  | nil => simp
  | cons x xs ih =>
    rw [List.mapM_cons, List.forall_mem_cons, ← ih]
    cases f x <;> cases xs.mapM f <;> simp

section
variable (grouper : NamespaceGrouper) (hashed : HashOrder) (debug : List String → String) (ns : String)
  (tools : List ToolDefinition)

theorem toolNameEntry_eq_some {tool : ToolDefinition} {entry : ToolNameEntry} :
    toolNameEntry tool = some entry ↔ shortDescription (extractDescription tool.raw).toList = some entry.description ∧
      entry.name = tool.name := by
  rw [toolNameEntry, Option.map_eq_some_iff]
  constructor
  · rintro ⟨description, hshort, rfl⟩
    exact ⟨hshort, rfl⟩
  · rintro ⟨hshort, hname⟩
    exact ⟨entry.description, hshort, by rw [← hname]⟩

theorem resolveNamespace_law_iff : Resolved grouper hashed ns tools (resolveNamespace grouper hashed debug ns tools) ↔
    ∀ tool ∈ placedIn grouper hashed tools ns,
      size (extractDescription tool.raw).toList ≤ 100 ∨ IsBoundary (extractDescription tool.raw).toList 97 := by
  rw [resolveNamespace]
  rcases hget : Assoc.get (grouper.detectNamespaces hashed tools) ns with _ | indices
  · have hempty : placedIn grouper hashed tools ns = [] := by
      rw [placedIn, Buckets.bucket, hget]
      rfl
    rw [hempty]
    exact iff_of_true ⟨by simp, fun entries h => by simp at h⟩ fun tool htool => absurd htool List.not_mem_nil
  have hplaced : placedIn grouper hashed tools ns = indices.filterMap (tools[·]?) := by
    rw [placedIn, Buckets.bucket, hget, Option.getD_some]
  have hreturns : ((indices.filterMap (tools[·]?)).mapM toolNameEntry).map Except.ok ≠ (none : Option (Except String _)) ↔
      ∀ tool ∈ placedIn grouper hashed tools ns,
        size (extractDescription tool.raw).toList ≤ 100 ∨ IsBoundary (extractDescription tool.raw).toList 97 := by
    rw [Ne, Option.map_eq_none_iff, ← Ne, mapM_ne_none, hplaced]
    refine forall₂_congr fun tool _ => ?_
    rw [← shortDescription_ne_none, toolNameEntry, Ne, Option.map_eq_none_iff]
  rw [← hreturns]
  refine ⟨fun law => law.returns, fun h => ⟨h, fun entries hout => ?_⟩⟩
  obtain ⟨entries', hread, hsame⟩ := Option.map_eq_some_iff.1 hout
  cases hsame
  rw [hplaced]
  refine (mapM_eq_some.1 hread).imp fun tool entry hentry => ?_
  obtain ⟨hshort, hname⟩ := toolNameEntry_eq_some.1 hentry
  refine ⟨hname, ?_⟩
  rw [← hshort]
  exact shortened_shortDescription (by simp [hshort])

/-- A description is shortened well for the listing and for its namespace exactly if each place where it is cut is
between two characters. -/
theorem shortening_law_iff (desc : List Char) (maxLen : Nat) : (Shortened desc maxLen (truncateDescription desc maxLen) ↔
      size desc ≤ maxLen ∨ IsBoundary desc maxLen ∧ (BreaksAtSpace desc maxLen ∨ IsBoundary desc (maxLen - 3))) ∧
    (Resolved grouper hashed ns tools (resolveNamespace grouper hashed debug ns tools) ↔
      ∀ tool ∈ placedIn grouper hashed tools ns,
        size (extractDescription tool.raw).toList ≤ 100 ∨ IsBoundary (extractDescription tool.raw).toList 97) :=
  ⟨truncateDescription_law_iff desc maxLen, resolveNamespace_law_iff grouper hashed debug ns tools⟩

end

/-- 97 bytes, the last of them inside a character, and no space. -/
def accented : List Char := List.replicate 96 'a' ++ "éaaa".toList

def accentedTool : ToolDefinition :=
  ⟨.object [("function", .object [("description", .string (String.ofList accented)), ("name", .string "read")])],
    "read", 0⟩

theorem shortening_panics : truncateDescription accented maxDescriptionLength = none ∧ toMinimalEntry accentedTool = none ∧
    resolveNamespace plainGrouper HashOrder.insertion (", ".intercalate ·) other [accentedTool] = none ∧
    ¬ Shortened accented maxDescriptionLength (truncateDescription accented maxDescriptionLength) := by
  have hcut : truncateDescription accented maxDescriptionLength = none := by decide +kernel
  refine ⟨hcut, ?_, by decide +kernel, fun h => h.returns hcut⟩
  have hdesc : (extractDescription accentedTool.raw).toList = accented := String.toList_ofList
  rw [toMinimalEntry, hdesc, hcut]
  rfl

end ObeyGateway.ToolCompression
