import Mathlib.Data.List.TakeWhile

/-! Regular expressions on byte strings, matched by backtracking.  A match runs from a cursor and
gives the cursors behind what it can take, in the order in which they are tried; a search takes the
first of them at the first place that has one.  `Match` is what an expression can take, without the
order. -/

namespace Esp32Fx.Lib

abbrev Bytes := List UInt8

inductive Regex
  /-- `^`, the start of the text. -/
  | start
  | literal (text : Bytes)
  /-- A repetition of bytes of a class, as many as possible or, if lazy, as few. -/
  | many (inClass : UInt8 → Bool) (least : Nat) (lazy : Bool)
  | exactly (inClass : UInt8 → Bool) (count : Nat)
  | seq (r r' : Regex)
  | alt (r r' : Regex)
  | group (number : Nat) (r : Regex)

/-- A place in the text, and the groups that were captured on the way, the latest first. -/
structure Cursor where
  atStart : Bool
  rest : Bytes
  groups : List (Nat × Bytes)
  deriving DecidableEq, Repr

namespace Cursor

def advance (c : Cursor) (length : Nat) : Cursor :=
  { c with atStart := c.atStart && length = 0, rest := c.rest.drop length }

/-- The text of a group. -/
def group (c : Cursor) (number : Nat) : Bytes := (c.groups.lookup number).getD []

end Cursor

namespace Regex

def run : Regex → Cursor → List Cursor
  | start, c => if c.atStart then [c] else []
  | literal text, c => if text <+: c.rest then [c.advance text.length] else []
  | many inClass least lazy, c =>
    let lengths := (List.range ((c.rest.takeWhile inClass).length + 1)).filter (least ≤ ·)
    (if lazy then lengths else lengths.reverse).map c.advance
  | exactly inClass count, c =>
    if count ≤ (c.rest.takeWhile inClass).length then [c.advance count] else []
  | seq r r', c => (run r c).flatMap (run r')
  | alt r r', c => run r c ++ run r' c
  | group number r, c => (run r c).map fun d =>
    { d with groups := (number, c.rest.take (c.rest.length - d.rest.length)) :: d.groups }

/-- The first match from a place on. -/
def searchFrom (r : Regex) (atStart : Bool) (text : Bytes) : Option Cursor :=
  match (run r ⟨atStart, text, []⟩).head? with
  | some found => some found
  | none =>
    match text with
    | [] => none
    | _ :: rest => searchFrom r false rest

/-- `re.search`. -/
def search (r : Regex) (text : Bytes) : Option Cursor := searchFrom r true text

/-! ### What an expression takes -/

/-- The expression takes a text, at the start or not, and captures groups. -/
inductive Match : Regex → Bool → Bytes → List (Nat × Bytes) → Prop
  | start : Match start true [] []
  | literal (atStart : Bool) (text : Bytes) : Match (literal text) atStart text []
  | many {inClass : UInt8 → Bool} {least : Nat} {text : Bytes} (lazy atStart : Bool)
    (hClass : ∀ b ∈ text, inClass b = true) (hLeast : least ≤ text.length) :
    Match (many inClass least lazy) atStart text []
  | exactly {inClass : UInt8 → Bool} {count : Nat} {text : Bytes} (atStart : Bool)
    (hClass : ∀ b ∈ text, inClass b = true) (hCount : text.length = count) :
    Match (exactly inClass count) atStart text []
  | seq {r r' : Regex} {atStart : Bool} {text text' : Bytes} {groups groups' : List (Nat × Bytes)}
    (h : Match r atStart text groups) (h' : Match r' (atStart && text = []) text' groups') :
    Match (seq r r') atStart (text ++ text') (groups' ++ groups)
  | left {r r' : Regex} {atStart : Bool} {text : Bytes} {groups : List (Nat × Bytes)}
    (h : Match r atStart text groups) : Match (alt r r') atStart text groups
  | right {r r' : Regex} {atStart : Bool} {text : Bytes} {groups : List (Nat × Bytes)}
    (h : Match r' atStart text groups) : Match (alt r r') atStart text groups
  | group {r : Regex} {atStart : Bool} {text : Bytes} {groups : List (Nat × Bytes)} (number : Nat)
    (h : Match r atStart text groups) :
    Match (group number r) atStart text ((number, text) :: groups)

/-- The cursor behind a text, with further groups. -/
def behind (c : Cursor) (text rest : Bytes) (groups : List (Nat × Bytes)) : Cursor :=
  ⟨c.atStart && text = [], rest, groups ++ c.groups⟩

variable {r r' : Regex} {c d : Cursor} {text pre rest : Bytes}

theorem advance_behind (h : c.rest = text ++ rest) :
    c.advance text.length = behind c text rest [] := by
  simp [Cursor.advance, behind, h]

theorem take_class {inClass : UInt8 → Bool} {length : Nat}
    (h : length ≤ (c.rest.takeWhile inClass).length) :
    ∃ text rest, c.rest = text ++ rest ∧ text.length = length ∧ ∀ b ∈ text, inClass b = true := by
  have hPrefix : c.rest.take length = (c.rest.takeWhile inClass).take length := calc
    c.rest.take length = (c.rest.takeWhile inClass ++ c.rest.dropWhile inClass).take length := by
      rw [List.takeWhile_append_dropWhile]
    _ = (c.rest.takeWhile inClass).take length := List.take_append_of_le_length h
  refine ⟨c.rest.take length, c.rest.drop length, (List.take_append_drop _ _).symm, ?_, ?_⟩
  · rw [hPrefix, List.length_take]
    omega
  · rw [hPrefix]
    exact fun b hb => List.mem_takeWhile_imp (List.mem_of_mem_take hb)

theorem class_length {inClass : UInt8 → Bool} (h : c.rest = text ++ rest)
    (hClass : ∀ b ∈ text, inClass b = true) :
    text.length ≤ (c.rest.takeWhile inClass).length := by
  rw [h, List.takeWhile_append_of_pos hClass, List.length_append]
  omega

/-- What the matcher gives is something that the expression takes. -/
theorem run_sound (h : d ∈ run r c) : ∃ text rest groups, Match r c.atStart text groups ∧
    c.rest = text ++ rest ∧ d = behind c text rest groups := by
  induction r generalizing c d with
  | start =>
    rw [run] at h
    split at h
    · next hStart =>
      obtain rfl := List.mem_singleton.mp h
      refine ⟨[], d.rest, [], hStart ▸ .start, rfl, ?_⟩
      simp [behind]
    · cases h
  | literal text =>
    rw [run] at h
    split at h
    · next hPrefix =>
      obtain ⟨rest, hRest⟩ := hPrefix
      obtain rfl := List.mem_singleton.mp h
      exact ⟨text, rest, [], .literal _ _, hRest.symm, advance_behind hRest.symm⟩
    · cases h
  | many inClass least lazy =>
    have hLengths : ∃ length, (length ≤ (c.rest.takeWhile inClass).length ∧ least ≤ length) ∧
        c.advance length = d := by
      rw [run] at h
      cases lazy <;> simpa [Nat.lt_succ_iff] using h
    obtain ⟨length, ⟨hLength, hLeast⟩, rfl⟩ := hLengths
    obtain ⟨text, rest, hRest, rfl, hClass⟩ := take_class hLength
    exact ⟨text, rest, [], .many lazy _ hClass hLeast, hRest, advance_behind hRest⟩
  | exactly inClass count =>
    rw [run] at h
    split at h
    · next hCount =>
      obtain rfl := List.mem_singleton.mp h
      obtain ⟨text, rest, hRest, rfl, hClass⟩ := take_class hCount
      exact ⟨text, rest, [], .exactly _ hClass rfl, hRest, advance_behind hRest⟩
    · cases h
  | seq r r' ih ih' =>
    obtain ⟨mid, hMid, hEnd⟩ := List.mem_flatMap.mp h
    obtain ⟨text, rest, groups, hMatch, hRest, rfl⟩ := ih hMid
    obtain ⟨text', rest', groups', hMatch', hRest', rfl⟩ := ih' hEnd
    refine ⟨text ++ text', rest', groups' ++ groups, .seq hMatch hMatch', ?_, ?_⟩
    · rw [hRest, show rest = text' ++ rest' from hRest', List.append_assoc]
    · simp [behind, List.append_eq_nil_iff, Bool.and_assoc]
  | alt r r' ih ih' =>
    rcases List.mem_append.mp h with h | h
    · obtain ⟨text, rest, groups, hMatch, hEnd⟩ := ih h
      exact ⟨text, rest, groups, .left hMatch, hEnd⟩
    · obtain ⟨text, rest, groups, hMatch, hEnd⟩ := ih' h
      exact ⟨text, rest, groups, .right hMatch, hEnd⟩
  | group number r ih =>
    obtain ⟨mid, hMid, rfl⟩ := List.mem_map.mp h
    obtain ⟨text, rest, groups, hMatch, hRest, rfl⟩ := ih hMid
    refine ⟨text, rest, (number, text) :: groups, .group number hMatch, hRest, ?_⟩
    simp [behind, hRest]

/-- What the expression takes is given by the matcher. -/
theorem run_complete {groups : List (Nat × Bytes)} (h : Match r c.atStart text groups)
    (hRest : c.rest = text ++ rest) : behind c text rest groups ∈ run r c := by
  induction r generalizing c text rest groups with
  | start =>
    generalize hStart : c.atStart = atStart at h
    cases h
    rw [run, if_pos hStart]
    apply List.mem_singleton.mpr
    cases c
    simp_all [behind]
  | literal text =>
    cases h
    rw [run, if_pos ⟨rest, hRest.symm⟩, advance_behind hRest]
    exact List.mem_singleton_self _
  | many inClass least lazy =>
    cases h with
    | many _ _ hClass hLeast =>
      have hLength := class_length hRest hClass
      rw [run, ← advance_behind hRest]
      apply List.mem_map_of_mem
      cases lazy <;> simp [Nat.lt_succ_iff, hLength, hLeast]
  | exactly inClass count =>
    cases h with
    | exactly _ hClass hCount =>
      rw [run, if_pos (hCount ▸ class_length hRest hClass), ← hCount, advance_behind hRest]
      exact List.mem_singleton_self _
  | seq r r' ih ih' =>
    cases h with
    | @seq _ _ _ text text' groups groups' hMatch hMatch' =>
      rw [List.append_assoc] at hRest
      have hMid := ih hMatch hRest
      have hEnd := ih' (c := behind c text (text' ++ rest) groups) hMatch' rfl
      refine List.mem_flatMap.mpr ⟨_, hMid, ?_⟩
      convert hEnd using 1
      simp [behind, List.append_eq_nil_iff, Bool.and_assoc]
  | alt r r' ih ih' =>
    cases h with
    | left h => exact List.mem_append_left _ (ih h hRest)
    | right h => exact List.mem_append_right _ (ih' h hRest)
  | group number r ih =>
    cases h with
    | group _ h =>
      refine List.mem_map.mpr ⟨_, ih h hRest, ?_⟩
      simp [behind, hRest]

/-! ### The parts of what is taken -/

section Parts

variable {atStart : Bool} {groups : List (Nat × Bytes)} {inClass : UInt8 → Bool} {count : Nat}

theorem match_literal {word : Bytes} :
    Match (literal word) atStart text groups ↔ text = word ∧ groups = [] := by
  constructor
  · rintro ⟨⟩
    exact ⟨rfl, rfl⟩
  · rintro ⟨rfl, rfl⟩
    exact .literal _ _

theorem match_many {lazy : Bool} : Match (many inClass count lazy) atStart text groups ↔
    ((∀ b ∈ text, inClass b = true) ∧ count ≤ text.length) ∧ groups = [] := by
  constructor
  · intro h
    cases h with
    | many _ _ hClass hLeast => exact ⟨⟨hClass, hLeast⟩, rfl⟩
  · rintro ⟨⟨hClass, hLeast⟩, rfl⟩
    exact .many _ _ hClass hLeast

theorem match_exactly : Match (exactly inClass count) atStart text groups ↔
    ((∀ b ∈ text, inClass b = true) ∧ text.length = count) ∧ groups = [] := by
  constructor
  · intro h
    cases h with
    | exactly _ hClass hCount => exact ⟨⟨hClass, hCount⟩, rfl⟩
  · rintro ⟨⟨hClass, hCount⟩, rfl⟩
    exact .exactly _ hClass hCount

theorem match_group {number : Nat} : Match (group number r) atStart text groups ↔
    ∃ inner, Match r atStart text inner ∧ groups = (number, text) :: inner := by
  constructor
  · intro h
    cases h with
    | group _ h => exact ⟨_, h, rfl⟩
  · rintro ⟨inner, h, rfl⟩
    exact .group _ h

theorem match_seq : Match (seq r r') atStart text groups ↔ ∃ first second inner inner',
    Match r atStart first inner ∧ Match r' (atStart && first = []) second inner' ∧
      text = first ++ second ∧ groups = inner' ++ inner := by
  constructor
  · intro h
    cases h with
    | seq h h' => exact ⟨_, _, _, _, h, h', rfl, rfl⟩
  · rintro ⟨first, second, inner, inner', h, h', rfl, rfl⟩
    exact .seq h h'

end Parts

/-! ### Searches -/

/-- The expression takes something at the place after `pre`. -/
def MatchesAt (r : Regex) (pre rest : Bytes) : Prop :=
  ∃ text after groups, Match r (decide (pre = [])) text groups ∧ rest = text ++ after

theorem matchesAt_iff : MatchesAt r pre rest ↔ run r ⟨decide (pre = []), rest, []⟩ ≠ [] := by
  constructor
  · rintro ⟨text, after, groups, hMatch, hRest⟩
    exact List.ne_nil_of_mem (run_complete hMatch hRest)
  · intro h
    obtain ⟨d, hd⟩ := List.exists_mem_of_ne_nil _ h
    obtain ⟨text, after, groups, hMatch, hRest, -⟩ := run_sound hd
    exact ⟨text, after, groups, hMatch, hRest⟩

/-- What a search from a place on finds: the first match there, or none. -/
def Finds (r : Regex) (before text : Bytes) : Option Cursor → Prop
  | some d => ∃ pre rest, text = pre ++ rest ∧
    (run r ⟨decide (before ++ pre = []), rest, []⟩).head? = some d ∧
    ∀ pre' rest', text = pre' ++ rest' → MatchesAt r (before ++ pre') rest' →
      pre.length ≤ pre'.length
  | none => ∀ pre rest, text = pre ++ rest → ¬MatchesAt r (before ++ pre) rest

theorem Finds.here {before : Bytes} (h : (run r ⟨decide (before = []), text, []⟩).head? = some d) :
    Finds r before text (some d) := by
  refine ⟨[], text, rfl, ?_, fun _ _ _ _ => Nat.zero_le _⟩
  rwa [List.append_nil]

/-- Where nothing matches at the first place, a search goes on behind it. -/
theorem Finds.later {before : Bytes} {b : UInt8} {found : Option Cursor}
    (hNone : ¬MatchesAt r before (b :: text)) (h : Finds r (before ++ [b]) text found) :
    Finds r before (b :: text) found := by
  have hCons : ∀ tail, before ++ b :: tail = before ++ [b] ++ tail := fun tail => by simp
  cases found with
  | none =>
    intro pre rest hText
    cases pre with
    | nil =>
      obtain rfl : b :: text = rest := hText
      rwa [List.append_nil]
    | cons first pre =>
      obtain ⟨rfl, hTail⟩ := List.cons.inj hText
      rw [hCons]
      exact h pre rest hTail
  | some d =>
    obtain ⟨pre, rest, hText, hRun, hFirst⟩ := h
    refine ⟨b :: pre, rest, by rw [hText]; rfl, by rwa [hCons], fun pre' rest' hText' hMatches => ?_⟩
    cases pre' with
    | nil =>
      obtain rfl : b :: text = rest' := hText'
      rw [List.append_nil] at hMatches
      exact absurd hMatches hNone
    | cons first pre' =>
      obtain ⟨rfl, hTail⟩ := List.cons.inj hText'
      rw [hCons] at hMatches
      exact Nat.succ_le_succ (hFirst pre' rest' hTail hMatches)

theorem searchFrom_finds (r : Regex) (before text : Bytes) :
    Finds r before text (searchFrom r (decide (before = [])) text) := by
  induction text generalizing before with
  | nil =>
    rw [searchFrom]
    split
    · next found hRun => exact .here hRun
    · next hRun =>
      intro pre rest hText hMatches
      obtain ⟨rfl, rfl⟩ := List.append_eq_nil_iff.mp hText.symm
      rw [matchesAt_iff, List.append_nil] at hMatches
      exact hMatches (List.head?_eq_none_iff.mp hRun)
  | cons b text ih =>
    rw [searchFrom]
    split
    · next found hRun => exact .here hRun
    · next hRun =>
      have hFalse : decide (before ++ [b] = []) = false := by simp
      have hLater := ih (before ++ [b])
      rw [hFalse] at hLater
      refine .later (fun hMatches => ?_) hLater
      exact matchesAt_iff.mp hMatches (List.head?_eq_none_iff.mp hRun)

theorem search_finds (r : Regex) (text : Bytes) : Finds r [] text (search r text) :=
  searchFrom_finds r [] text

/-! ### The order of the matches -/

/-- Behind a part that can be taken in one way only. -/
theorem head_seq {mid : Cursor} (hMid : ∀ x ∈ run r c, x = mid)
    (h : (run (seq r r') c).head? = some d) : (run r' mid).head? = some d := by
  rw [run, List.head?_flatMap] at h
  obtain ⟨x, hx, hHead⟩ := List.exists_of_findSome?_eq_some h
  rwa [hMid x hx] at hHead

/-- The first of the numbers below a bound that has something. -/
theorem first_of_range {α : Type*} {f : Nat → Option α} {a : α} {n : Nat}
    (h : (List.range n).findSome? f = some a) :
    ∃ k < n, f k = some a ∧ ∀ i < k, f i = none := by
  obtain ⟨before, k, after, hRange, hk, hNone⟩ := List.findSome?_eq_some_iff.mp h
  have hLt : k < n := List.mem_range.mp (hRange ▸ by simp)
  refine ⟨k, hLt, hk, fun i hi => ?_⟩
  have hMem : i ∈ before ++ k :: after := hRange ▸ List.mem_range.mpr (by omega)
  have hSorted := hRange ▸ List.pairwise_lt_range (n := n)
  rcases List.mem_append.mp hMem with hBefore | hAfter
  · exact hNone i hBefore
  · rcases List.mem_cons.mp hAfter with rfl | hAfter
    · omega
    · have hLater := (List.pairwise_cons.mp (List.pairwise_append.mp hSorted).2.1).1 i hAfter
      omega

/-- A lazy repetition before a literal ends where the literal is first found. -/
theorem head_lazy {inClass : UInt8 → Bool} {number : Nat}
    (h : (run (seq (group number (many inClass 0 true)) (literal text)) c).head? = some d) :
    ∃ taken, c.rest = taken ++ text ++ d.rest ∧ d.groups = (number, taken) :: c.groups ∧
      ∀ taken' rest, c.rest = taken' ++ text ++ rest → taken.length ≤ taken'.length := by
  have hAll : ∀ lengths : List Nat, lengths.filter (0 ≤ ·) = lengths := fun lengths => by simp
  simp only [run, if_true, List.head?_flatMap, List.findSome?_map, hAll] at h
  obtain ⟨k, hk, hHere, hBefore⟩ := first_of_range h
  simp only [Function.comp_apply, Cursor.advance] at hHere hBefore
  have hSpan := (List.takeWhile_prefix inClass : c.rest.takeWhile inClass <+: c.rest).length_le
  have hTake : (c.rest.take k).length = k := by
    rw [List.length_take]
    omega
  have hTaken : c.rest.length - (c.rest.drop k).length = k := by
    rw [List.length_drop]
    omega
  split at hHere
  · next hPrefix =>
    obtain ⟨rest, hRest⟩ := hPrefix
    obtain rfl := Option.some.inj hHere
    refine ⟨c.rest.take k, ?_, by rw [hTaken], fun taken' rest' hText => ?_⟩
    · dsimp only
      rw [← hRest, List.drop_left, List.append_assoc, hRest, List.take_append_drop]
    · apply Nat.le_of_not_lt
      intro hShorter
      have hNone := hBefore taken'.length (by omega)
      rw [hText, List.append_assoc, List.drop_left, if_pos (List.prefix_append _ _)] at hNone
      cases hNone
  · cases hHere

end Regex

end Esp32Fx.Lib
