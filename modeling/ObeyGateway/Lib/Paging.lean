import Mathlib.Data.List.Nodup
import Mathlib.Data.List.Sort
import ObeyGateway.Lib.Checks

/-!
# Paging through a listing

A listing is served in pages of at most `n` entries, by a cursor that is the key of an entry: `after` it or
`before` it. `PageLaw` is what a client relies on that follows the cursors of the pages it gets, in either
direction. A server that takes the first entries of what stands before a cursor (`TakesFirst`) keeps it
only as long as there is no more than one entry beside a page (`pageLaw_iff`).
-/

namespace Paging

universe u v w

variable {α β : Type u} {κ : Type v} {ε : Type w}

inductive Cursor (κ : Type v)
  | start
  | after (k : κ)
  | before (k : κ)

section
variable (page : Cursor κ → Except ε (List α)) (key : α → Option κ)

def visitAfter : Nat → Cursor κ → Except ε (List α)
  | 0, _ => .ok []
  | fuel + 1, cursor => do
    let entries ← page cursor
    match entries.getLast?.bind key with
    | none => .ok entries
    | some k => return entries ++ (← visitAfter fuel (.after k))

/-- The pages that lead to a key, each before the first entry of the one behind it. -/
def visitBefore : Nat → κ → Except ε (List α)
  | 0, _ => .ok []
  | fuel + 1, k => do
    let entries ← page (.before k)
    match entries.head?.bind key with
    | none => .ok entries
    | some k' => return (← visitBefore fuel k') ++ entries

/-- Forwards and backwards every entry is visited once, in order; a page before an entry is the run that ends there. -/
structure PageLaw (listing : List α) (n : Nat) : Prop where
  forward : ∀ fuel, listing.length < fuel → visitAfter page key fuel .start = .ok listing
  backward : ∀ front c back k fuel, listing = front ++ c :: back → key c = some k → front.length < fuel →
    visitBefore page key fuel k = .ok front
  preceding : ∀ front c back k, listing = front ++ c :: back → key c = some k →
    page (.before k) = .ok (front.drop (front.length - n))

/-- A page is the first `n` entries of those that its cursor leaves. -/
structure TakesFirst (listing : List α) (n : Nat) : Prop where
  start : page .start = .ok (listing.take n)
  after : ∀ front c back k, listing = front ++ c :: back → key c = some k →
    page (.after k) = .ok (back.take n)
  before : ∀ front c back k, listing = front ++ c :: back → key c = some k →
    page (.before k) = .ok (front.take n)

end

variable {page : Cursor κ → Except ε (List α)} {key : α → Option κ} {listing : List α} {n : Nat}

theorem visitAfter_succ {fuel : Nat} {cursor : Cursor κ} {rest : List α} (hn : 0 < n)
    (hkeys : ∀ a ∈ rest, (key a).isSome = true) (hpage : page cursor = .ok (rest.take n))
    (hnext : ∀ front c back k, rest = front ++ c :: back → key c = some k →
      front ++ [c] = rest.take n → visitAfter page key fuel (.after k) = .ok back) :
    visitAfter page key (fuel + 1) cursor = .ok rest := by
  rcases List.eq_nil_or_concat (rest.take n) with hnil | ⟨front, c, hlast⟩
  · have hrest : rest = [] := by
      rcases List.take_eq_nil_iff.1 hnil with h | h
      · omega
      · exact h
    rw [visitAfter, hpage, hrest, List.take_nil]
    rfl
  · rw [List.concat_eq_append] at hlast
    have hsplit : rest = front ++ c :: rest.drop n := by
      rw [← List.singleton_append, ← List.append_assoc, ← hlast, List.take_append_drop]
    obtain ⟨k, hk⟩ := Option.isSome_iff_exists.1
      (hkeys c (by rw [hsplit]; exact List.mem_append_right _ List.mem_cons_self))
    have hrest := hnext front c (rest.drop n) k hsplit hk hlast.symm
    have hgetLast : (rest.take n).getLast?.bind key = some k := by
      rw [hlast, List.getLast?_concat, Option.bind_some, hk]
    rw [visitAfter, hpage]
    show (match (rest.take n).getLast?.bind key with
      | none => Except.ok (rest.take n)
      | some k => do return rest.take n ++ (← visitAfter page key fuel (.after k))) = _
    rw [hgetLast]
    show (visitAfter page key fuel (.after k) >>= fun more => .ok (rest.take n ++ more)) = _
    rw [hrest]
    exact congrArg Except.ok (List.take_append_drop n rest)

theorem TakesFirst.visitAfter_after (h : TakesFirst page key listing n) (hn : 0 < n)
    (hkeys : ∀ a ∈ listing, (key a).isSome = true) (fuel : Nat) {front back : List α} {c : α} {k : κ}
    (hsplit : listing = front ++ c :: back) (hk : key c = some k) (hfuel : back.length < fuel) :
    visitAfter page key fuel (.after k) = .ok back := by
  induction fuel generalizing front c back k with
  | zero => omega
  | succ fuel ih =>
    have hback : ∀ a ∈ back, (key a).isSome = true := fun a ha =>
      hkeys a (by rw [hsplit]; exact List.mem_append_right _ (List.mem_cons_of_mem _ ha))
    refine visitAfter_succ hn hback (h.after front c back k hsplit hk) ?_
    rintro front' d back' k' rfl hk' -
    refine ih (?_ : listing = (front ++ c :: front') ++ d :: back') hk' ?_
    · rw [hsplit, List.append_assoc, List.cons_append]
    · simp only [List.length_append, List.length_cons] at hfuel
      omega

theorem TakesFirst.forward (h : TakesFirst page key listing n) (hn : 0 < n)
    (hkeys : ∀ a ∈ listing, (key a).isSome = true) (fuel : Nat) (hfuel : listing.length < fuel) :
    visitAfter page key fuel .start = .ok listing := by
  obtain ⟨fuel, rfl⟩ : ∃ m, fuel = m + 1 := ⟨fuel - 1, by omega⟩
  refine visitAfter_succ hn hkeys h.start ?_
  rintro front c back k hsplit hk -
  refine h.visitAfter_after hn hkeys fuel hsplit hk ?_
  rw [hsplit, List.length_append, List.length_cons] at hfuel
  omega

theorem TakesFirst.backward (h : TakesFirst page key listing n)
    (hkeys : ∀ a ∈ listing, (key a).isSome = true) (hlength : listing.length ≤ n + 1) {front back : List α}
    {c : α} {k : κ} {fuel : Nat} (hsplit : listing = front ++ c :: back) (hk : key c = some k)
    (hfuel : front.length < fuel) : visitBefore page key fuel k = .ok front := by
  have hall {front back : List α} {c : α} {k : κ} (hsplit : listing = front ++ c :: back)
      (hk : key c = some k) : page (.before k) = .ok front := by
    rw [h.before front c back k hsplit hk, List.take_of_length_le]
    rw [hsplit, List.length_append, List.length_cons] at hlength
    omega
  obtain ⟨fuel, rfl⟩ : ∃ m, fuel = m + 1 := ⟨fuel - 1, by omega⟩
  rw [visitBefore, hall hsplit hk]
  rcases front with _ | ⟨d, front⟩
  · rfl
  obtain ⟨k', hk'⟩ := Option.isSome_iff_exists.1 (hkeys d (by rw [hsplit]; exact List.mem_cons_self))
  show (match (some d).bind key with
    | none => Except.ok (d :: front)
    | some k' => do return (← visitBefore page key fuel k') ++ d :: front) = _
  rw [Option.bind_some, hk']
  show (visitBefore page key fuel k' >>= fun more => .ok (more ++ d :: front)) = _
  obtain ⟨fuel, rfl⟩ : ∃ m, fuel = m + 1 := ⟨fuel - 1, by rw [List.length_cons] at hfuel; omega⟩
  have hnone : listing = [] ++ d :: (front ++ c :: back) := hsplit
  rw [visitBefore, hall hnone hk']
  rfl

theorem TakesFirst.pageLaw_iff (h : TakesFirst page key listing n) (hn : 0 < n) (hnodup : listing.Nodup)
    (hkeys : ∀ a ∈ listing, (key a).isSome = true) :
    PageLaw page key listing n ↔ listing.length ≤ n + 1 := by
  constructor
  · intro hlaw
    by_contra hlong
    -- before the last entry there are more than fit on a page
    rcases List.eq_nil_or_concat listing with hnil | ⟨front, c, hlast⟩
    · rw [hnil, List.length_nil] at hlong
      omega
    · rw [List.concat_eq_append] at hlast
      obtain ⟨k, hk⟩ := Option.isSome_iff_exists.1 (hkeys c (by rw [hlast]; simp))
      have heq := (h.before front c [] k hlast hk).symm.trans (hlaw.preceding front c [] k hlast hk)
      have htake : front.take n = front.drop (front.length - n) := Except.ok.inj heq
      rw [hlast, List.length_append, List.length_singleton] at hlong
      have hfront : front.Nodup := by
        rw [hlast] at hnodup
        exact (List.nodup_append.1 hnodup).1
      have h0 : (front.take n)[0]? = front[0]? := List.getElem?_take_of_lt hn
      have h1 : (front.drop (front.length - n))[0]? = front[front.length - n]? := by
        rw [List.getElem?_drop, Nat.add_zero]
      rw [htake, h1] at h0
      have hindex := (List.getElem?_inj (by omega) hfront).1 h0
      omega
  · intro hlength
    refine ⟨h.forward hn hkeys, fun front c back k fuel hsplit hk hfuel =>
      h.backward hkeys hlength hsplit hk hfuel, fun front c back k hsplit hk => ?_⟩
    have hfront : front.length ≤ n := by
      rw [hsplit, List.length_append, List.length_cons] at hlength
      omega
    rw [h.before front c back k hsplit hk, List.take_of_length_le hfront, Nat.sub_eq_zero_of_le hfront,
      List.drop_zero]

theorem TakesFirst.mapM {f : α → Except ε β} {keyOf : β → Option κ} {entries : List β}
    (h : TakesFirst page key listing n) (hread : listing.mapM f = .ok entries)
    (hkey : ∀ row entry, f row = .ok entry → keyOf entry = key row) :
    TakesFirst (fun cursor => page cursor >>= fun rows => rows.mapM f) keyOf entries n := by
  have hrows := Checks.mapM_eq_ok_iff.1 hread
  have hsplit {front back : List β} {c : β} {k : κ} (hentries : entries = front ++ c :: back)
      (hk : keyOf c = some k) : ∃ front' c' back', listing = front' ++ c' :: back' ∧ key c' = some k ∧
        front'.mapM f = .ok front ∧ back'.mapM f = .ok back := by
    rw [hentries] at hrows
    have hfront := List.forall₂_take_append _ _ _ hrows
    obtain ⟨c', back', hc, hback, hdrop⟩ := List.forall₂_cons_right_iff.1 (List.forall₂_drop_append _ _ _ hrows)
    refine ⟨listing.take front.length, c', back', ?_, (hkey _ _ hc).symm.trans hk,
      Checks.mapM_eq_ok_iff.2 hfront, Checks.mapM_eq_ok_iff.2 hback⟩
    rw [← hdrop, List.take_append_drop]
  have htake {rows : List α} {read : List β} (hm : rows.mapM f = .ok read) :
      (rows.take n).mapM f = .ok (read.take n) := Checks.mapM_eq_ok_iff.2 (List.forall₂_take n (Checks.mapM_eq_ok_iff.1 hm))
  refine ⟨?_, fun front c back k hentries hk => ?_, fun front c back k hentries hk => ?_⟩
  · rw [h.start]
    exact htake hread
  · obtain ⟨front', c', back', hlisting, hk', -, hback⟩ := hsplit hentries hk
    rw [h.after front' c' back' k hlisting hk']
    exact htake hback
  · obtain ⟨front', c', back', hlisting, hk', hfront, -⟩ := hsplit hentries hk
    rw [h.before front' c' back' k hlisting hk']
    exact htake hfront

section
variable {le lt : α → α → Prop} [DecidableRel le] [DecidableRel lt]

theorem filter_above (hasymm : ∀ a b, lt a b → ¬lt b a) {front back : List α} {c : α}
    (h : (front ++ c :: back).Pairwise lt) :
    (front ++ c :: back).filter (fun a => decide (lt c a)) = back := by
  obtain ⟨-, hback, hcross⟩ := List.pairwise_append.1 h
  have hc := (List.pairwise_cons.1 hback).1
  have hfront : front.filter (fun a => decide (lt c a)) = [] := List.filter_eq_nil_iff.2 fun a ha =>
    by simpa using hasymm a c (hcross a ha c List.mem_cons_self)
  have hself : ¬lt c c := fun hcc => hasymm c c hcc hcc
  rw [List.filter_append, hfront, List.nil_append, List.filter_cons_of_neg (by simpa using hself),
    List.filter_eq_self.2 fun a ha => by simpa using hc a ha]

theorem filter_below (hasymm : ∀ a b, lt a b → ¬lt b a) {front back : List α} {c : α}
    (h : (front ++ c :: back).Pairwise lt) :
    (front ++ c :: back).filter (fun a => decide (lt a c)) = front := by
  obtain ⟨-, hback, hcross⟩ := List.pairwise_append.1 h
  have hc := (List.pairwise_cons.1 hback).1
  have hself : ¬lt c c := fun hcc => hasymm c c hcc hcc
  have hrest : back.filter (fun a => decide (lt a c)) = [] := List.filter_eq_nil_iff.2 fun a ha =>
    by simpa using hasymm c a (hc a ha)
  rw [List.filter_append, List.filter_cons_of_neg (by simpa using hself), hrest, List.append_nil]
  exact List.filter_eq_self.2 fun a ha => by simpa using hcross a ha c List.mem_cons_self

theorem insertionSort_filter [Std.Total le] [IsTrans α le] {l : List α}
    (hanti : ∀ a ∈ l, ∀ b ∈ l, le a b → le b a → a = b) (p : α → Bool) :
    (l.filter p).insertionSort le = (l.insertionSort le).filter p := by
  refine List.Perm.eq_of_pairwise ?_ (List.pairwise_insertionSort _ _)
    ((List.pairwise_insertionSort _ _).sublist List.filter_sublist) ?_
  · intro a b ha hb
    rw [List.mem_insertionSort] at ha
    rw [List.mem_filter, List.mem_insertionSort] at hb
    exact hanti a (List.mem_filter.1 ha).1 b hb.1
  · exact (List.perm_insertionSort _ _).trans ((List.perm_insertionSort le l).filter p).symm

end

end Paging
