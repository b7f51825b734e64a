import Mathlib.Data.List.Basic

/-! `str.replace` of Python and the replacements that insert something in the middle of a word.  They
keep the words that do not have the two characters around the insertion next to each other, and make
no word that does not start in what they insert. -/

namespace Esp32Fx.Lib.Py

/-- `str.replace`, for a word that is not empty. -/
def replace (before after : List Char) : List Char → List Char
  | [] => []
  | c :: rest =>
    if before <+: c :: rest then after ++ replace before after (rest.drop (before.length - 1))
    else c :: replace before after rest
termination_by text => text.length
decreasing_by
  · rw [List.length_drop, List.length_cons]
    omega
  · exact Nat.lt_succ_self _

example : replace "aa".toList "b".toList "aaaca".toList = "baca".toList := by decide +kernel

variable {before after word text text' m : List Char} {c d : Char}

theorem replace_cons_of_not (h : ¬before <+: c :: text) :
    replace before after (c :: text) = c :: replace before after text := by
  rw [replace, if_neg h]

theorem replace_append (hNonempty : before ≠ []) (text : List Char) :
    replace before after (before ++ text) = after ++ replace before after text := by
  cases before with
  | nil => exact absurd rfl hNonempty
  | cons b before =>
    rw [List.cons_append, replace, ← List.cons_append, if_pos (List.prefix_append _ _),
      List.length_cons, Nat.add_sub_cancel, List.drop_left]

/-- Where there is nothing to replace, the text stays. -/
theorem replace_of_not_mem (h : ¬before <:+: text) : replace before after text = text := by
  induction text with
  | nil => rw [replace]
  | cons c rest ih =>
    rw [List.infix_cons_iff, not_or] at h
    rw [replace_cons_of_not h.1, ih h.2]

/-- Where there is something to replace, the new word is in the result. -/
theorem mem_replace (hNonempty : before ≠ []) (h : before <:+: text) :
    after <:+: replace before after text := by
  induction text with
  | nil => exact absurd (List.infix_nil.mp h) hNonempty
  | cons c rest ih =>
    by_cases hStart : before <+: c :: rest
    · obtain ⟨tail, hTail⟩ := hStart
      rw [← hTail, replace_append hNonempty]
      exact (List.prefix_append _ _).isInfix
    · rw [replace_cons_of_not hStart]
      exact (ih ((List.infix_cons_iff.mp h).resolve_left hStart)).trans (List.suffix_cons _ _).isInfix

theorem mem_of_replace (h : c ∈ replace before after text) : c ∈ text ∨ c ∈ after := by
  fun_induction replace before after text with
  | case1 => exact .inl h
  | case2 b rest hStart ih =>
    obtain h | h := List.mem_append.mp h
    · exact .inr h
    · obtain h | h := ih h
      · exact .inl (List.mem_cons_of_mem _ (List.mem_of_mem_drop h))
      · exact .inr h
  | case3 b rest hStart ih =>
    cases h with
    | head => exact .inl List.mem_cons_self
    | tail _ h =>
      obtain h | h := ih h
      · exact .inl (List.mem_cons_of_mem _ h)
      · exact .inr h

/-! ### Insertions -/

/-- The second text is the first with `m` inserted between some of the `c` and `d` next to each
other. -/
inductive Inserted (c : Char) (m : List Char) (d : Char) : List Char → List Char → Prop
  | keep (text : List Char) : Inserted c m d text text
  | insert (start : List Char) {text text' : List Char} (h : Inserted c m d text text')
    (hText : ∃ rest, text = d :: rest) :
    Inserted c m d (start ++ [c] ++ text) (start ++ [c] ++ (m ++ text'))

namespace Inserted

theorem append (start : List Char) (h : Inserted c m d text text') :
    Inserted c m d (start ++ text) (start ++ text') := by
  induction h with
  | keep text => exact .keep _
  | insert start' h hText =>
    rw [List.append_assoc start', ← List.append_assoc, ← List.append_assoc,
      List.append_assoc start', ← List.append_assoc start, ← List.append_assoc (start ++ start')]
    exact .insert (start ++ start') h hText

theorem head (h : Inserted c m d text text') {b : Char} {rest : List Char}
    (hText : text = b :: rest) : ∃ rest', text' = b :: rest' := by
  cases h with
  | keep => exact ⟨rest, hText⟩
  | insert start h _ =>
    cases start with
    | nil =>
      obtain ⟨rfl, -⟩ := List.cons.inj hText
      exact ⟨_, rfl⟩
    | cons b' start =>
      obtain ⟨rfl, -⟩ := List.cons.inj hText
      exact ⟨_, rfl⟩

/-- A word across the end of one text and the start of another has both characters of the seam. -/
theorem seam {start rest left right : List Char} (hLeft : left ≠ []) (hRight : right ≠ [])
    (hEnd : left <:+ start ++ [c]) (hStart : right <+: d :: rest) : [c, d] <:+: left ++ right := by
  obtain ⟨left, b, rfl⟩ := (List.eq_nil_or_concat' left).resolve_left hLeft
  obtain ⟨b', right, rfl⟩ := List.exists_cons_of_ne_nil hRight
  have hLast : b = c := by
    obtain ⟨front, hFront⟩ := hEnd
    rw [← List.append_assoc] at hFront
    exact List.singleton_inj.mp (List.append_inj_right' hFront rfl)
  have hHead : b' = d := (List.cons_prefix_cons.mp hStart).1
  subst hLast hHead
  exact ⟨left, right, by simp⟩

/-- A word without the two characters next to each other stays in the text. -/
theorem keeps (h : Inserted c m d text text') (hWord : ¬[c, d] <:+: word) (hMem : word <:+: text) :
    word <:+: text' := by
  induction h with
  | keep text => exact hMem
  | insert start h hText ih =>
    obtain hLeft | hRight | ⟨left, right, hLeft, hRight, rfl, hEnd, hStart⟩ :=
      List.infix_append_iff_ne_nil.mp hMem
    · exact hLeft.trans (List.prefix_append _ _).isInfix
    · apply (ih hRight).trans
      rw [← List.append_assoc]
      exact (List.suffix_append _ _).isInfix
    · obtain ⟨rest, rfl⟩ := hText
      exact absurd (seam hLeft hRight hEnd hStart) hWord

/-- A word in the text afterwards was there before, unless it starts in what was inserted or
reaches into it. -/
theorem makes_none {b : Char} (h : Inserted c (b :: m) d text text') (hWord : ¬[c, b] <:+: word)
    (hFirst : ¬word.take 2 <:+: b :: m ++ [d]) (hMem : word <:+: text') : word <:+: text := by
  induction h with
  | keep text => exact hMem
  | insert start h hText ih =>
    obtain hLeft | hRight | ⟨left, right, hLeft, hRight, rfl, hEnd, hStart⟩ :=
      List.infix_append_iff_ne_nil.mp hMem
    · exact hLeft.trans (List.prefix_append _ _).isInfix
    · obtain hIn | hBehind | ⟨left, right, hLeft, hNonempty, rfl, hEnd, hStart⟩ :=
        List.infix_append_iff_ne_nil.mp hRight
      · have hTwo : word.take 2 <:+: b :: m := (List.take_prefix _ _).isInfix.trans hIn
        exact absurd (hTwo.trans (List.prefix_append _ _).isInfix) hFirst
      · exact (ih hBehind).trans (List.suffix_append _ _).isInfix
      · obtain ⟨rest, hRest⟩ := hText
        obtain ⟨rest', rfl⟩ := h.head hRest
        obtain ⟨b', right, rfl⟩ := List.exists_cons_of_ne_nil hNonempty
        obtain rfl : b' = d := (List.cons_prefix_cons.mp hStart).1
        have hTwo : (left ++ b' :: right).take 2 <+: left ++ [b'] := by
          apply List.prefix_of_prefix_length_le (List.take_prefix _ _)
          · exact ⟨right, by simp⟩
          · have := List.length_pos_iff.mpr hLeft
            simp only [List.length_take, List.length_append, List.length_singleton]
            omega
        obtain ⟨front, hFront⟩ := hEnd
        have hSuffix : left ++ [b'] <:+ b :: m ++ [b'] :=
          ⟨front, by rw [← List.append_assoc, hFront]⟩
        exact absurd (hTwo.isInfix.trans hSuffix.isInfix) hFirst
    · exact absurd (seam hLeft hRight hEnd hStart) hWord

end Inserted

/-- A replacement of `x ++ y` by `x ++ m ++ y`. -/
theorem replace_inserted (x y : List Char) (text : List Char) :
    Inserted c m d text
      (replace (x ++ [c] ++ d :: y) (x ++ [c] ++ (m ++ d :: y)) text) := by
  fun_induction replace (x ++ [c] ++ d :: y) (x ++ [c] ++ (m ++ d :: y)) text with
  | case1 => exact .keep _
  | case2 b rest hStart ih =>
    obtain ⟨tail, hTail⟩ := hStart
    have hDrop : rest.drop ((x ++ [c] ++ d :: y).length - 1) = tail := by
      have hBehind : (b :: rest).drop (x ++ [c] ++ d :: y).length = tail := by
        rw [← hTail, List.drop_left]
      have hLength : (x ++ [c] ++ d :: y).length = (x ++ [c] ++ d :: y).length - 1 + 1 := by
        simp
        omega
      rwa [hLength, List.drop_succ_cons] at hBehind
    rw [hDrop] at ih ⊢
    rw [← hTail]
    have hInsert := Inserted.insert x (ih.append (d :: y)) ⟨y ++ tail, rfl⟩
    simpa only [List.append_assoc, List.cons_append] using hInsert
  | case3 b rest hStart ih => exact ih.append [b]

end Esp32Fx.Lib.Py
