import Esp32Fx.Lib.Interrupted

/-! Loops of programs, and sequences of programs that end at the first failure.  A loop is cut to a
number of rounds, behind which `more` stands; with a `more` that never answers, the runs for all
numbers of rounds are the runs of the loop.

The log of a run is what it has told the outside.  An `Item` says what a program tells when it
succeeds and what it may have told before: `Done` and `Begun` are the same for a sequence. -/

namespace Esp32Fx.Lib

namespace Program

variable {ι : Type} {ρ : ι → Type} {α β σ : Type}

/-- At most `rounds` rounds of a loop. -/
def loop (body : β → Program ι ρ (β ⊕ α)) (more : Program ι ρ α) : Nat → β → Program ι ρ α
  | 0, _ => more
  | rounds + 1, b => body b >>= fun next =>
    match next with
    | .inl b => loop body more rounds b
    | .inr a => pure a

/-- Programs one after the other, up to the first that fails. -/
def allOf : List (Program ι ρ Bool) → Program ι ρ Bool
  | [] => pure true
  | p :: ps => p >>= fun ok => if ok then allOf ps else pure false

variable {E : Environment ι ρ σ} {B : Breaks ι σ} {I : σ → Prop} {P : ι → σ → Prop}
  {Q : α → σ → Prop} {s t : σ}

/-- A run that is broken off in a call leaves nothing of the call, or all that it may do. -/
def wholeCalls (E : Environment ι ρ σ) : Breaks ι σ := fun s i t => t = s ∨ ∃ x, E s i x t

theorem keeps_call {i : ι} {next : ρ i → Program ι ρ α} (hI : I s) (hP : P i s)
    (h : ∀ x t, E s i x t → (next x).Keeps E (wholeCalls E) I P Q t) :
    (Program.call i next).Keeps E (wholeCalls E) I P Q s := by
  refine ⟨hI, hP, ?_, h⟩
  rintro t (rfl | ⟨x, hx⟩)
  · exact hI
  · exact (h x t hx).inv

/-- A call and then more: the call at its place in a sequence. -/
theorem keeps_perform_bind {i : ι} {f : ρ i → Program ι ρ α} (hI : I s) (hP : P i s)
    (h : ∀ x t, E s i x t → (f x).Keeps E (wholeCalls E) I P Q t) :
    (perform i >>= f).Keeps E (wholeCalls E) I P Q s :=
  keeps_call hI hP h

/-- A weaker invariant. -/
theorem keeps_inv {I' : σ → Prop} {p : Program ι ρ α} (h : p.Keeps E B I P Q s)
    (hI : ∀ t, I t → I' t) : p.Keeps E B I' P Q s := by
  induction p generalizing s with
  | ret a => exact ⟨hI s h.1, h.2⟩
  | call i next ih =>
    obtain ⟨hHere, hCall, hBreak, hNext⟩ := h
    exact ⟨hI s hHere, hCall, fun t ht => hI t (hBreak t ht), fun x t ht => ih x (hNext x t ht)⟩

/-- The end of a run has its invariant as well. -/
theorem keeps_end {p : Program ι ρ α} (h : p.Keeps E B I P Q s) :
    p.Keeps E B I P (fun a t => I t ∧ Q a t) s := keeps_mono h fun _ _ hI hQ => ⟨hI, hQ⟩

theorem runs_perform_bind {i : ι} {x : ρ i} {f : ρ i → Program ι ρ α} {u : σ} {a : α}
    (hCall : E s i x t) (h : Runs E t (f x) a u) : Runs E s (perform i >>= f) a u :=
  .call x hCall h

theorem runs_loop_next {body : β → Program ι ρ (β ⊕ α)} {more : Program ι ρ α} {rounds : Nat}
    {b c : β} {a : α} {u : σ} (h : Runs E s (body b) (.inl c) t)
    (hNext : Runs E t (loop body more rounds c) a u) :
    Runs E s (loop body more (rounds + 1) b) a u := h.bind hNext

theorem runs_loop_end {body : β → Program ι ρ (β ⊕ α)} {more : Program ι ρ α} {rounds : Nat}
    {b : β} {a : α} (h : Runs E s (body b) (.inr a) t) :
    Runs E s (loop body more (rounds + 1) b) a t := h.bind (.ret t a)

/-- A call that the first of two programs gets to. -/
theorem reaches_first {p : Program ι ρ α} {f : α → Program ι ρ β} {i : ι} {u : σ}
    (h : Reaches E s p i u) : Reaches E s (p >>= f) i u := by
  induction h with
  | here s i next => exact .here s i _
  | after x hCall _ ih => exact .after x hCall ih

/-- A call that the second of two programs gets to. -/
theorem reaches_second {p : Program ι ρ α} {f : α → Program ι ρ β} {a : α} {i : ι} {u : σ}
    (hRun : Runs E s p a t) (h : Reaches E t (f a) i u) : Reaches E s (p >>= f) i u := by
  induction hRun with
  | ret => exact h
  | call x hCall _ ih => exact .after x hCall (ih h)

/-- What a round of a loop ends with: the next round has its invariant, or the loop its result. -/
def Round (J : β → σ → Prop) (Q : α → σ → Prop) : β ⊕ α → σ → Prop
  | .inl b, t => J b t
  | .inr a, t => Q a t

/-- The invariant of a loop: `J` at the start of every round. -/
theorem keeps_loop {body : β → Program ι ρ (β ⊕ α)} {more : Program ι ρ α} {J : β → σ → Prop}
    (hBody : ∀ b s, J b s → (body b).Keeps E B I P (Round J Q) s)
    (hMore : ∀ b s, J b s → more.Keeps E B I P Q s) (rounds : Nat) {b : β} (h : J b s) :
    (loop body more rounds b).Keeps E B I P Q s := by
  induction rounds generalizing b s with
  | zero => exact hMore b s h
  | succ rounds ih =>
    apply keeps_bind
    apply keeps_mono (hBody b s h)
    rintro (b' | a) t hI hRound
    · exact ih hRound
    · exact ⟨hI, hRound⟩

/-- A loop that can go round with a variant that gets smaller can end, given the rounds. -/
theorem runs_loop {body : β → Program ι ρ (β ⊕ α)} {more : Program ι ρ α} {J : β → σ → Prop}
    (variant : β → Nat)
    (hBody : ∀ b s, J b s → ∃ next t, Runs E s (body b) next t ∧
      Round (fun c t => J c t ∧ variant c < variant b) Q next t) {rounds : Nat} {b : β} (h : J b s)
    (hRounds : variant b < rounds) : ∃ a t, Runs E s (loop body more rounds b) a t ∧ Q a t := by
  induction rounds generalizing b s with
  | zero => omega
  | succ rounds ih =>
    obtain ⟨next, t, hRun, hRound⟩ := hBody b s h
    rcases next with c | a
    · obtain ⟨hNext, hSmaller⟩ : J c t ∧ variant c < variant b := hRound
      obtain ⟨a, u, hRest, hQ⟩ := ih hNext (by omega)
      exact ⟨a, u, runs_loop_next hRun hRest, hQ⟩
    · exact ⟨a, t, runs_loop_end hRun, hRound⟩

end Program

/-! ### Logs -/

/-- What a program tells: `whole` when it succeeds, `part` at any time before. -/
structure Item (L : Type) where
  whole : List L → Prop
  part : List L → Prop
  nothing : part []
  whole_part : ∀ l, whole l → part l

namespace Item

variable {L : Type}

/-- The item of a program that tells one fixed thing. -/
def exactly (l : List L) : Item L where
  whole l' := l' = l
  part l' := l' <+: l
  nothing := List.nil_prefix
  whole_part := by
    rintro l' rfl
    exact List.prefix_rfl

/-- Every item of a sequence has been told. -/
def Done : List (Item L) → List L → Prop
  | [], l => l = []
  | item :: items, l => ∃ l₁ l₂, l = l₁ ++ l₂ ∧ item.whole l₁ ∧ Done items l₂

/-- Some items of a sequence have been told, and a part of the next one. -/
def Begun : List (Item L) → List L → Prop
  | [], l => l = []
  | item :: items, l => item.part l ∨ ∃ l₁ l₂, l = l₁ ++ l₂ ∧ item.whole l₁ ∧ Begun items l₂

variable {items : List (Item L)} {l : List L}

theorem begun_nil : ∀ items : List (Item L), Begun items []
  | [] => rfl
  | item :: _ => .inl item.nothing

theorem Done.begun (h : Done items l) : Begun items l := by
  induction items generalizing l with
  | nil => exact h
  | cons item items ih =>
    obtain ⟨l₁, l₂, rfl, hWhole, hDone⟩ := h
    exact .inr ⟨l₁, l₂, rfl, hWhole, ih hDone⟩

/-- A sequence as one item. -/
def sequence (items : List (Item L)) : Item L where
  whole := Done items
  part := Begun items
  nothing := begun_nil items
  whole_part _ h := h.begun

/-- A sequence in two halves is done when both are. -/
theorem done_append {items' : List (Item L)} (h : Done (items ++ items') l) :
    ∃ l₁ l₂, l = l₁ ++ l₂ ∧ Done items l₁ ∧ Done items' l₂ := by
  induction items generalizing l with
  | nil => exact ⟨[], l, rfl, rfl, h⟩
  | cons item items ih =>
    obtain ⟨l₁, l₂, rfl, hWhole, hDone⟩ := h
    obtain ⟨l₃, l₄, rfl, hFirst, hSecond⟩ := ih hDone
    exact ⟨l₁ ++ l₃, l₄, (List.append_assoc ..).symm, ⟨l₁, l₃, rfl, hWhole, hFirst⟩, hSecond⟩

/-- A sequence in two halves is broken off in the first, or in the second behind the first. -/
theorem begun_append {items' : List (Item L)} (h : Begun (items ++ items') l) :
    Begun items l ∨ ∃ l₁ l₂, l = l₁ ++ l₂ ∧ Done items l₁ ∧ Begun items' l₂ := by
  induction items generalizing l with
  | nil => exact .inr ⟨[], l, rfl, rfl, h⟩
  | cons item items ih =>
    rcases h with hPart | ⟨l₁, l₂, rfl, hWhole, hBegun⟩
    · exact .inl (.inl hPart)
    rcases ih hBegun with hFirst | ⟨l₃, l₄, rfl, hFirst, hSecond⟩
    · exact .inl (.inr ⟨l₁, l₂, rfl, hWhole, hFirst⟩)
    · exact .inr ⟨l₁ ++ l₃, l₄, (List.append_assoc ..).symm, ⟨l₁, l₃, rfl, hWhole, hFirst⟩, hSecond⟩

/-- What every part of every item has, all that is told has. -/
theorem Begun.forall {p : L → Prop} (h : Begun items l)
    (hItems : ∀ item ∈ items, ∀ l, item.part l → ∀ x ∈ l, p x) : ∀ x ∈ l, p x := by
  induction items generalizing l with
  | nil =>
    obtain rfl : l = [] := h
    nofun
  | cons item items ih =>
    have hHere := hItems item List.mem_cons_self
    rcases h with hPart | ⟨l₁, l₂, rfl, hWhole, hBegun⟩
    · exact hHere l hPart
    · intro x hx
      rcases List.mem_append.mp hx with hFirst | hSecond
      · exact hHere l₁ (item.whole_part l₁ hWhole) x hFirst
      · exact ih hBegun (fun item hItem => hItems item (List.mem_cons_of_mem _ hItem)) x hSecond

end Item

/-- From `s` to `t` the log grows by something with `R`, and the frame stays. -/
structure Extends {σ F L : Type} (frame : σ → F) (log : σ → List L) (R : List L → Prop) (s t : σ) :
    Prop where
  frame : frame t = frame s
  log : ∃ l, log t = log s ++ l ∧ R l

namespace Extends

variable {σ F L : Type} {frame : σ → F} {log : σ → List L} {R R' R'' : List L → Prop} {s t u : σ}

theorem mono (h : Extends frame log R s t) (hR : ∀ l, R l → R' l) : Extends frame log R' s t := by
  obtain ⟨hFrame, l, hLog, hl⟩ := h
  exact ⟨hFrame, l, hLog, hR l hl⟩

theorem refl (h : R []) (s : σ) : Extends frame log R s s := ⟨rfl, [], (List.append_nil _).symm, h⟩

theorem trans (h : Extends frame log R s t) (h' : Extends frame log R' t u)
    (hR : ∀ l l', R l → R' l' → R'' (l ++ l')) : Extends frame log R'' s u := by
  obtain ⟨hFrame, l, hLog, hl⟩ := h
  obtain ⟨hFrame', l', hLog', hl'⟩ := h'
  refine ⟨hFrame'.trans hFrame, l ++ l', ?_, hR l l' hl hl'⟩
  rw [hLog', hLog, List.append_assoc]

end Extends

namespace Program

variable {ι : Type} {ρ : ι → Type} {σ F L : Type} {E : Environment ι ρ σ} {B : Breaks ι σ}
  {P : ι → σ → Prop} {frame : σ → F} {log : σ → List L} {C : F → Prop} {s : σ}

/-- A program whose part of the log is an item, from every state with the frame it needs. -/
def Tells (E : Environment ι ρ σ) (B : Breaks ι σ) (P : ι → σ → Prop) (frame : σ → F)
    (log : σ → List L) (C : F → Prop) (p : Program ι ρ Bool) (item : Item L) : Prop :=
  ∀ s, C (frame s) → p.Keeps E B (Extends frame log item.part s) P
    (fun ok t => ok = true → Extends frame log item.whole s t) s

/-- A sequence that ends at the first failure tells its items in order, whole up to a last one. -/
theorem allOf_tells {ps : List (Program ι ρ Bool)} {items : List (Item L)}
    (h : List.Forall₂ (Tells E B P frame log C) ps items) (hC : C (frame s)) :
    (allOf ps).Keeps E B (Extends frame log (Item.Begun items) s) P
      (fun ok t => ok = true → Extends frame log (Item.Done items) s t) s := by
  induction h generalizing s with
  | nil => exact ⟨.refl (Item.begun_nil []) s, fun _ => .refl (R := Item.Done []) rfl s⟩
  | @cons p item ps items hFirst _ ih =>
    apply keeps_bind
    apply keeps_mono (keeps_inv (hFirst s hC) fun t hPart => hPart.mono fun l hl => .inl hl)
    intro ok t hBegun hWhole
    cases ok with
    | false => exact ⟨hBegun, nofun⟩
    | true =>
      have hTold := hWhole rfl
      have hRest := ih (s := t) (hTold.frame.symm ▸ hC)
      apply keeps_mono (keeps_inv hRest fun u hu => hTold.trans hu fun l l' hl hl' =>
        .inr ⟨l, l', rfl, hl, hl'⟩)
      intro ok u _ hDone hOk
      exact hTold.trans (hDone hOk) fun l l' hl hl' => ⟨l, l', rfl, hl, hl'⟩

end Program

end Esp32Fx.Lib
